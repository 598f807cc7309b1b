import Sema.Proofs.Visibility

/-!
# Another part at a place

`Focus.putAt` puts another part with statements at a place of a program, and leaves the rest as it
is. It obeys the laws of such updates: what was put there is found there, a second part replaces the
first one, and putting back what was there changes nothing.

In a derivation this is a cut (`Focus.Elaborates.opens`). The part at the place has a derivation of
its own, in scopes that depend only on what is around; and whatever else is derived there, with the
same declarations up to their order, can be put there on both sides.
-/

namespace Sema

/-! ## 1. Another part where a turn leads -/

/-- A function or a loop with another body. -/
def Stmt.withBody : Stmt → List Stmt → Stmt
  | .function name parameters result _ span, body => .function name parameters result body span
  | .whileLoop test _ span, body => .whileLoop test body span
  | .forEach x collection _ span, body => .forEach x collection body span
  | s, _ => s

namespace Focus

/-- The part with another one where a turn leads. -/
def put : Focus → Turn → Focus → Focus
  | block ss, .item i, stmt s => block (ss.set i s)
  | stmt s, .body, block body => stmt (s.withBody body)
  | stmt (.branch _), .branch, branch b => stmt (.branch b)
  | branch (.mk test _ alternate span), .consequent, block body =>
      branch (.mk test body alternate span)
  | branch (.mk test consequent (.block _) span), .alternate, block body =>
      branch (.mk test consequent (.block body) span)
  | branch (.mk test consequent (.elseIf _) span), .alternate, branch next =>
      branch (.mk test consequent (.elseIf next) span)
  | f, _, _ => f

/-- The whole with another part at a place. -/
def putAt (root : Focus) : Place → Focus → Focus
  | [], f => f
  | t :: outer, f => (root.at? outer).elim root fun g => root.putAt outer (g.put t f)

/-- Parts of one sort that have statements: blocks, statements, `if`s. -/
inductive SameSort : Focus → Focus → Prop where
  | block {ss ss' : List Stmt} : SameSort (block ss) (block ss')
  | stmt {s s' : Stmt} : SameSort (stmt s) (stmt s')
  | branch {b b' : Branch} : SameSort (branch b) (branch b')

/-- A turn that leads to a part with statements, and that part. -/
inductive Holds : Focus → Turn → Focus → Prop where
  | item {ss : List Stmt} {i : Nat} {s : Stmt} (h : ss[i]? = some s) :
      Holds (block ss) (.item i) (stmt s)
  | functionBody {name : String} {parameters : List Parameter} {result : Option TypeExpr}
      {body : List Stmt} {span : Span} :
      Holds (stmt (.function name parameters result body span)) .body (block body)
  | whileBody {test : Expr} {body : List Stmt} {span : Span} :
      Holds (stmt (.whileLoop test body span)) .body (block body)
  | forEachBody {x : String} {collection : Expr} {body : List Stmt} {span : Span} :
      Holds (stmt (.forEach x collection body span)) .body (block body)
  | branch {b : Branch} : Holds (stmt (.branch b)) .branch (branch b)
  | consequent {test : Expr} {body : List Stmt} {alternate : Alternate} {span : Span} :
      Holds (branch (.mk test body alternate span)) .consequent (block body)
  | elseBlock {test : Expr} {consequent body : List Stmt} {span : Span} :
      Holds (branch (.mk test consequent (.block body) span)) .alternate (block body)
  | elseIf {test : Expr} {consequent : List Stmt} {next : Branch} {span : Span} :
      Holds (branch (.mk test consequent (.elseIf next) span)) .alternate (branch next)

variable {f g g' g'' : Focus} {t : Turn}

theorem holds_of_child? (h : f.child? t = some g) (hg : g.SameSort g') : f.Holds t g := by
  cases t with
  | part i =>
      rw [child?_part] at h
      obtain ⟨e, -, rfl⟩ := Option.map_eq_some_iff.mp h
      cases hg
  | item i =>
      cases f with
      | block ss =>
          obtain ⟨s, hs, rfl⟩ := Option.map_eq_some_iff.mp h
          exact .item hs
      | _ => cases h
  | body =>
      cases f with
      | stmt s =>
          obtain ⟨body, hbody, rfl⟩ := Option.map_eq_some_iff.mp h
          cases s with
          | function name parameters result body span =>
              cases hbody
              exact .functionBody
          | whileLoop test body span =>
              cases hbody
              exact .whileBody
          | forEach x collection body span =>
              cases hbody
              exact .forEachBody
          | _ => cases hbody
      | _ => cases h
  | branch =>
      cases f with
      | stmt s =>
          cases s with
          | branch b =>
              cases h
              exact .branch
          | _ => cases h
      | _ => cases h
  | consequent =>
      cases f with
      | branch b =>
          cases b
          cases h
          exact .consequent
      | _ => cases h
  | alternate =>
      cases f with
      | branch b =>
          obtain ⟨test, consequent, alternate, span⟩ := b
          cases alternate with
          | none => cases h
          | block body =>
              cases h
              exact .elseBlock
          | elseIf next =>
              cases h
              exact .elseIf
      | _ => cases h

theorem Holds.put (h : f.Holds t g) (hg : g.SameSort g') :
    (f.put t g').child? t = some g' ∧ f.SameSort (f.put t g') := by
  cases h with
  | item hs =>
      cases hg
      obtain ⟨hlt, -⟩ := List.getElem?_eq_some_iff.mp hs
      refine ⟨?_, .block⟩
      rw [Focus.put, child?, List.getElem?_set_self hlt, Option.map_some]
  | functionBody | whileBody | forEachBody | branch =>
      cases hg
      exact ⟨rfl, .stmt⟩
  | consequent | elseBlock | elseIf =>
      cases hg
      exact ⟨rfl, .branch⟩

theorem Holds.put_put (h : f.Holds t g) (hg : g.SameSort g') (hg' : g.SameSort g'') :
    (f.put t g').put t g'' = f.put t g'' := by
  cases h with
  | item hs =>
      cases hg
      cases hg'
      rw [Focus.put, Focus.put, Focus.put, List.set_set]
  | functionBody | whileBody | forEachBody | branch | consequent | elseBlock | elseIf =>
      cases hg
      cases hg'
      rfl

theorem Holds.put_self (h : f.Holds t g) : f.put t g = f := by
  cases h with
  | @item ss i s hs =>
      obtain ⟨hlt, hget⟩ := List.getElem?_eq_some_iff.mp hs
      rw [Focus.put, ← hget, List.set_getElem_self]
  | functionBody | whileBody | forEachBody | branch | consequent | elseBlock | elseIf => rfl

/-! ## 2. Another part at a place -/

variable {root : Focus}

theorem putAt_cons {outer : Place} (h : root.at? outer = some f) (t : Turn) (g : Focus) :
    root.putAt (t :: outer) g = root.putAt outer (f.put t g) := by
  rw [putAt, h, Option.elim_some]

/-- The part around a part with statements has statements, too. -/
theorem exists_holds {t : Turn} {outer : Place} (h : root.at? (t :: outer) = some g)
    (hg : g.SameSort g') : ∃ f, root.at? outer = some f ∧ f.Holds t g := by
  rw [at?, Option.bind_eq_some_iff] at h
  obtain ⟨f, hf, hchild⟩ := h
  exact ⟨f, hf, holds_of_child? hchild hg⟩

/-- What is put at a place is found there. -/
theorem at?_putAt : ∀ {place : Place} {g g' : Focus}, root.at? place = some g → g.SameSort g' →
    (root.putAt place g').at? place = some g'
  | [], _, _, _, _ => rfl
  | t :: outer, g, g', h, hg => by
      obtain ⟨f, hf, hholds⟩ := exists_holds h hg
      obtain ⟨hchild, hsort⟩ := hholds.put hg
      rw [putAt_cons hf, at?_cons (at?_putAt hf hsort), hchild]

/-- A second part replaces the first one. -/
theorem putAt_putAt : ∀ {place : Place} {g g' g'' : Focus}, root.at? place = some g →
    g.SameSort g' → g.SameSort g'' →
      (root.putAt place g').putAt place g'' = root.putAt place g''
  | [], _, _, _, _, _, _ => rfl
  | t :: outer, g, g', g'', h, hg, hg' => by
      obtain ⟨f, hf, hholds⟩ := exists_holds h hg
      have hsort := (hholds.put hg).2
      have hsort' := (hholds.put hg').2
      rw [putAt_cons hf, putAt_cons hf, putAt_cons (at?_putAt hf hsort), hholds.put_put hg hg',
        putAt_putAt hf hsort hsort']

/-- Putting back what was at a place changes nothing. -/
theorem putAt_self : ∀ {place : Place} {g : Focus}, root.at? place = some g → g.SameSort g →
    root.putAt place g = root
  | [], _, h, _ => (Option.some.inj h).symm
  | t :: outer, g, h, hg => by
      obtain ⟨f, hf, hholds⟩ := exists_holds h hg
      have hsort := (hholds.put hg).2
      rw [hholds.put_self] at hsort
      rw [putAt_cons hf, hholds.put_self, putAt_self hf hsort]

theorem sameSort_putAt : ∀ {place : Place} {g g' : Focus}, root.at? place = some g →
    g.SameSort g' → root.SameSort (root.putAt place g')
  | [], g, g', h, hg => by
      obtain rfl : root = g := Option.some.inj h
      exact hg
  | t :: outer, g, g', h, hg => by
      obtain ⟨f, hf, hholds⟩ := exists_holds h hg
      rw [putAt_cons hf]
      exact sameSort_putAt hf (hholds.put hg).2

/-- The statements of a block. -/
def statements : Focus → List Stmt
  | block ss => ss
  | _ => []

end Focus

/-! ## 3. Resolved parts -/

namespace Resolved

/-- A function or a loop with another body. -/
def Stmt.withBody : Stmt → List Stmt → Stmt
  | .function f ps _, body => .function f ps body
  | .whileLoop test _, body => .whileLoop test body
  | .forEach v collection _, body => .forEach v collection body
  | s, _ => s

namespace Focus

/-- The resolved part with another one where a turn leads. -/
def put : Focus → Turn → Focus → Focus
  | block ss, .item i, stmt s => block (ss.set i s)
  | stmt s, .body, block body => stmt (s.withBody body)
  | stmt (.branch _), .branch, branch b => stmt (.branch b)
  | branch (.mk test _ alternate), .consequent, block body => branch (.mk test body alternate)
  | branch (.mk test consequent (.block _)), .alternate, block body =>
      branch (.mk test consequent (.block body))
  | branch (.mk test consequent (.elseIf _)), .alternate, branch next =>
      branch (.mk test consequent (.elseIf next))
  | f, _, _ => f

/-- The resolved whole with another part at a place. -/
def putAt (root : Focus) : Place → Focus → Focus
  | [], f => f
  | t :: outer, f => (root.at? outer).elim root fun g => root.putAt outer (g.put t f)

theorem putAt_cons {root f : Focus} {outer : Place} (h : root.at? outer = some f) (t : Turn)
    (g : Focus) : root.putAt (t :: outer) g = root.putAt outer (f.put t g) := by
  rw [putAt, h, Option.elim_some]

/-- The identities of what a part declares. -/
def declared : Focus → List Identity
  | block rs => Stmt.declaredAll rs
  | stmt r => r.declared
  | branch b => b.declared
  | expr _ => []

/-- What a part declares in the block around it. -/
def binding? : Focus → Option Entity
  | stmt r => r.binding?
  | _ => none

/-- The statements of a resolved block. -/
def statements : Focus → List Stmt
  | block rs => rs
  | _ => []

/-- A part that can stand instead of another one: it declares the same, maybe in another order, and
    the same for the statements after it. -/
structure Replaces (q' q : Focus) : Prop where
  declared : q'.declared.Perm q.declared
  binding : q'.binding? = q.binding?

end Focus

theorem Stmt.declaredAll_append : ∀ rs qs : List Stmt,
    Stmt.declaredAll (rs ++ qs) = Stmt.declaredAll rs ++ Stmt.declaredAll qs
  | [], _ => rfl
  | r :: rs, qs => by
      rw [List.cons_append, Stmt.declaredAll, Stmt.declaredAll, Stmt.declaredAll_append rs qs,
        List.append_assoc]

theorem Stmt.declaredAll_set {r r' : Stmt} (h : r'.declared = r.declared) :
    ∀ {rs : List Stmt} {i : Nat}, rs[i]? = some r →
      Stmt.declaredAll (rs.set i r') = Stmt.declaredAll rs
  | [], _, hr => by cases hr
  | q :: rs, 0, hr => by
      cases hr
      rw [List.set_cons_zero, Stmt.declaredAll, Stmt.declaredAll, h]
  | q :: rs, i + 1, hr => by
      rw [List.getElem?_cons_succ] at hr
      rw [List.set_cons_succ, Stmt.declaredAll, Stmt.declaredAll, Stmt.declaredAll_set h hr]

theorem Focus.declared_put {f q q' : Focus} {t : Turn} (hq : f.child? t = some q)
    (h : q'.declared = q.declared) : (f.put t q').declared = f.declared := by
  fun_cases Focus.put f t q' with
  | case1 ss i s =>
      obtain ⟨r, hr, rfl⟩ := Option.map_eq_some_iff.mp hq
      exact Stmt.declaredAll_set h hr
  | case2 s body =>
      obtain ⟨old, hold, rfl⟩ := Option.map_eq_some_iff.mp hq
      have h : Stmt.declaredAll body = Stmt.declaredAll old := h
      cases s with
      | function g ps _ | whileLoop test _ | forEach v collection _ =>
          cases hold
          simp only [declared, Stmt.withBody, Stmt.declared, h]
      | _ => cases hold
  | case3 =>
      cases hq
      exact h
  | case4 | case5 | case6 =>
      cases hq
      simp only [declared] at h
      simp only [declared, Branch.declared, Alternate.declared, h]
  | case7 => rfl

/-- A part that declares the same leaves the declarations of the whole as they are. -/
theorem Focus.declared_putAt {root : Focus} : ∀ {place : Place} {q q' : Focus},
    root.at? place = some q → q'.declared = q.declared →
      (root.putAt place q').declared = root.declared
  | [], q, q', hq, h => by
      cases hq
      exact h
  | t :: outer, q, q', hq, h => by
      obtain ⟨f, hf, hchild⟩ := Option.bind_eq_some_iff.mp hq
      rw [putAt_cons hf, declared_putAt hf (declared_put hchild h)]

end Resolved

/-! ## 4. Cutting a derivation -/

/-- **Statements in a row, cut in two.** Those after the cut have a derivation of their own, and
    others derived there can follow the same statements. -/
theorem Stmt.ElaboratesAll.cut {ss : List Stmt} : ∀ {before : List Stmt} {Γ : Scopes} {n : Nat}
    {qs : List Resolved.Stmt}, Stmt.ElaboratesAll Γ.env (before ++ ss) qs →
      Numbered n (Resolved.Stmt.declaredAll qs) →
        ∃ (Δ : Scopes) (m : Nat) (bs rs : List Resolved.Stmt), qs = bs ++ rs ∧
          bs.length = before.length ∧ Stmt.ElaboratesAll Δ.env ss rs ∧
          Numbered m (Resolved.Stmt.declaredAll rs) ∧
          ∀ ss' rs', Stmt.ElaboratesAll Δ.env ss' rs' →
            Stmt.ElaboratesAll Γ.env (before ++ ss') (bs ++ rs')
  | [], Γ, n, qs, h, hn => ⟨Γ, n, [], qs, rfl, rfl, h, hn, fun _ _ => id⟩
  | s :: before, Γ, n, _, h, hn => by
      rw [List.cons_append] at h
      cases h with
      | @cons _ _ _ q qs hq hqs =>
          rw [Resolved.Stmt.declaredAll, numbered_append] at hn
          rw [← Scopes.env_after] at hqs
          obtain ⟨Δ, m, bs, rs, rfl, hlength, hrs, hm, hput⟩ := hqs.cut hn.2
          refine ⟨Δ, m, q :: bs, rs, rfl, congrArg (· + 1) hlength, hrs, hm, ?_⟩
          intro ss' rs' h'
          exact .cons hq (Scopes.env_after Γ q ▸ hput ss' rs' h')

/-- A part is cut out of one that stands for `r`: it stands for `q` in scopes of its own, and what
    stands for something instead of `q` there can be put in. -/
def Focus.Opens (Γ : Scopes) (r : Resolved.Focus) (put : Focus → Focus)
    (put' : Resolved.Focus → Resolved.Focus) (g : Focus) (q : Resolved.Focus) : Prop :=
  ∃ (Δ : Scopes) (m : Nat), g.Elaborates Δ.env q ∧ Numbered m q.declared ∧
    ∀ g' q', g.SameSort g' → g'.Elaborates Δ.env q' → q'.Replaces q →
      (put g').Elaborates Γ.env (put' q') ∧ (put' q').Replaces r

section

variable {Γ Δ : Scopes} {r : Resolved.Focus} {put : Focus → Focus}
  {put' : Resolved.Focus → Resolved.Focus} {m : Nat}

theorem Focus.opens_block {ss : List Stmt} {rs : List Resolved.Stmt}
    (hrs : Stmt.ElaboratesAll Δ.env ss rs) (hm : Numbered m (Resolved.Stmt.declaredAll rs))
    (hput : ∀ ss' rs', Stmt.ElaboratesAll Δ.env ss' rs' →
      (Resolved.Stmt.declaredAll rs').Perm (Resolved.Stmt.declaredAll rs) →
        (put (.block ss')).Elaborates Γ.env (put' (.block rs')) ∧ (put' (.block rs')).Replaces r) :
    Focus.Opens Γ r put put' (.block ss) (.block rs) := by
  refine ⟨Δ, m, .block hrs, hm, ?_⟩
  intro g' q' hsort hq' hreplaces
  cases hsort
  cases hq' with
  | block hrs' => exact hput _ _ hrs' hreplaces.declared

theorem Focus.opens_branch {b : Branch} {q : Resolved.Branch} (hq : b.Elaborates Δ.env q)
    (hm : Numbered m q.declared)
    (hput : ∀ b' q', b'.Elaborates Δ.env q' → q'.declared.Perm q.declared →
      (put (.branch b')).Elaborates Γ.env (put' (.branch q')) ∧ (put' (.branch q')).Replaces r) :
    Focus.Opens Γ r put put' (.branch b) (.branch q) := by
  refine ⟨Δ, m, .branch hq, hm, ?_⟩
  intro g' q' hsort hq' hreplaces
  cases hsort
  cases hq' with
  | branch hq' => exact hput _ _ hq' hreplaces.declared

/-- A statement of a block. Those after it see what it declares, so another one in its place has to
    declare the same. -/
theorem Focus.opens_item {ss : List Stmt} {rs : List Resolved.Stmt} {i : Nat} {s : Stmt}
    (h : Stmt.ElaboratesAll Γ.env ss rs) (hm : Numbered m (Resolved.Stmt.declaredAll rs))
    (hs : ss[i]? = some s) :
    ∃ q, rs[i]? = some q ∧ Focus.Opens Γ (.block rs) ((Focus.block ss).put (.item i))
      ((Resolved.Focus.block rs).put (.item i)) (.stmt s) (.stmt q) := by
  obtain ⟨before, after, rfl, rfl⟩ : ∃ before after, ss = before ++ s :: after ∧
      before.length = i := by
    obtain ⟨hlt, rfl⟩ := List.getElem?_eq_some_iff.mp hs
    exact ⟨ss.take i, ss.drop (i + 1), by simp, List.length_take_of_le hlt.le⟩
  obtain ⟨Δ, k, bs, _, rfl, hlength, hrs, hk, hput⟩ := h.cut hm
  cases hrs with
  | @cons _ _ _ q qs hq hqs =>
      rw [Resolved.Stmt.declaredAll, numbered_append] at hk
      refine ⟨q, by simp [← hlength], Δ, k, .stmt hq, hk.1, ?_⟩
      intro g' q' hsort hq' hreplaces
      obtain ⟨s', rfl⟩ : ∃ s', g' = .stmt s' := by
        cases hsort
        exact ⟨_, rfl⟩
      cases hq' with
      | @stmt _ q' hq' =>
          have hafter : Δ.env.after q' = Δ.env.after q := by
            have hbinding : q'.binding? = q.binding? := hreplaces.binding
            rw [Env.after_eq_extend, Env.after_eq_extend, hbinding]
          have hderived := hput _ _ (.cons hq' (hafter ▸ hqs))
          have hset : (bs ++ q :: qs).set before.length q' = bs ++ q' :: qs := by
            simp [← hlength]
          have hset' : (before ++ s :: after).set before.length s' = before ++ s' :: after := by
            simp
          rw [Focus.put, Resolved.Focus.put, hset, hset']
          refine ⟨.block hderived, ?_, rfl⟩
          show (Resolved.Stmt.declaredAll _).Perm (Resolved.Stmt.declaredAll _)
          rw [Resolved.Stmt.declaredAll_append, Resolved.Stmt.declaredAll_append,
            Resolved.Stmt.declaredAll, Resolved.Stmt.declaredAll]
          exact (hreplaces.declared.append_right _).append_left _

end

section

variable {Γ : Scopes} {n : Nat}

/-- **One turn.** -/
theorem Focus.Elaborates.turn {f g : Focus} {r : Resolved.Focus} {t : Turn}
    (h : f.Elaborates Γ.env r) (hn : Numbered n r.declared) (hholds : f.Holds t g) :
    ∃ q, r.child? t = some q ∧ Focus.Opens Γ r (f.put t) (r.put t) g q := by
  cases hholds with
  | item hs =>
      cases h with
      | block h =>
          obtain ⟨q, hq, hopens⟩ := Focus.opens_item h hn hs
          exact ⟨.stmt q, congrArg (Option.map _) hq, hopens⟩
  | @functionBody name =>
      cases h with
      | stmt h =>
          cases h with
          | @function _ _ _ _ _ _ i ty ds _ rs ht hds free hf hrs =>
              subst hf
              obtain ⟨-, -, hm⟩ := (numbered_append _ _ n).mp hn
              have henv := Γ.env_functionBody ⟨i, name, ⟨ds.map (·.ty), ty⟩⟩ ds
              refine ⟨.block rs, rfl, Focus.opens_block (henv ▸ hrs) hm fun ss' rs' h' hperm => ?_⟩
              exact ⟨.stmt (.function ht hds free rfl (henv ▸ h')),
                (hperm.cons _).append_left _, rfl⟩
  | whileBody =>
      cases h with
      | stmt h =>
          cases h with
          | @whileLoop _ _ _ _ q rs ht isBool hrs =>
              refine ⟨.block rs, rfl, Focus.opens_block (Δ := Γ.enter .loop) hrs hn ?_⟩
              exact fun ss' rs' h' hperm => ⟨.stmt (.whileLoop ht isBool h'), hperm, rfl⟩
  | @forEachBody x =>
      cases h with
      | stmt h =>
          cases h with
          | @forEach _ _ _ _ _ i q element rs hq isList hrs =>
              obtain ⟨-, hm⟩ := hn
              refine ⟨.block rs, rfl, Focus.opens_block (Δ := { Γ.enter .loop with
                inner := (Γ.enter .loop).inner.bind x (.var ⟨i, x, true, element⟩) }) hrs hm ?_⟩
              exact fun ss' rs' h' hperm => ⟨.stmt (.forEach hq isList h'), hperm.cons _, rfl⟩
  | branch =>
      cases h with
      | stmt h =>
          cases h with
          | @branch _ _ q hq =>
              refine ⟨.branch q, rfl, Focus.opens_branch hq hn ?_⟩
              exact fun b' q' h' hperm => ⟨.stmt (.branch h'), hperm, rfl⟩
  | consequent =>
      cases h with
      | branch h =>
          cases h with
          | @mk _ _ _ _ _ q rs a ht isBool hrs ha =>
              obtain ⟨hm, -⟩ := (numbered_append _ _ n).mp hn
              refine ⟨.block rs, rfl, Focus.opens_block (Δ := Γ.enter .block) hrs hm ?_⟩
              exact fun ss' rs' h' hperm =>
                ⟨.branch (.mk ht isBool h' ha), hperm.append_right _, rfl⟩
  | elseBlock =>
      cases h with
      | branch h =>
          cases h with
          | mk ht isBool hrs ha =>
              cases ha with
              | @block _ _ qs hqs =>
                  obtain ⟨-, hm⟩ := (numbered_append _ _ n).mp hn
                  refine ⟨.block qs, rfl, Focus.opens_block (Δ := Γ.enter .block) hqs hm ?_⟩
                  exact fun ss' rs' h' hperm =>
                    ⟨.branch (.mk ht isBool hrs (.block h')), hperm.append_left _, rfl⟩
  | elseIf =>
      cases h with
      | branch h =>
          cases h with
          | mk ht isBool hrs ha =>
              cases ha with
              | @elseIf _ _ q hq =>
                  obtain ⟨-, hm⟩ := (numbered_append _ _ n).mp hn
                  refine ⟨.branch q, rfl, Focus.opens_branch hq hm ?_⟩
                  exact fun b' q' h' hperm =>
                    ⟨.branch (.mk ht isBool hrs (.elseIf h')), hperm.append_left _, rfl⟩

/-- **A derivation can be cut at every place with statements.** -/
theorem Focus.Elaborates.opens {root : Focus} {R : Resolved.Focus} (h : root.Elaborates Γ.env R)
    (hn : Numbered n R.declared) : ∀ {place : Place} {g g' : Focus}, root.at? place = some g →
      g.SameSort g' → ∃ q, R.at? place = some q ∧
        Focus.Opens Γ R (root.putAt place) (R.putAt place) g q
  | [], g, _, hg, _ => by
      obtain rfl : root = g := Option.some.inj hg
      exact ⟨R, rfl, Γ, n, h, hn, fun _ _ _ hq' hreplaces => ⟨hq', hreplaces⟩⟩
  | t :: outer, g, g', hg, hsort => by
      obtain ⟨f, hf, hholds⟩ := Focus.exists_holds hg hsort
      obtain ⟨r, hr, Δ, m, hfr, hm, houter⟩ := h.opens hn hf (hholds.put hsort).2
      obtain ⟨q, hq, Θ, k, hgq, hk, hinner⟩ := hfr.turn hm hholds
      refine ⟨q, (Resolved.Focus.at?_cons hr t).trans hq, Θ, k, hgq, hk, ?_⟩
      intro g₁ q₁ hsort₁ hq₁ hreplaces
      obtain ⟨hput, hreplaced⟩ := hinner g₁ q₁ hsort₁ hq₁ hreplaces
      rw [Focus.putAt_cons hf, Resolved.Focus.putAt_cons hr]
      exact houter _ _ (hholds.put hsort₁).2 hput hreplaced

end

end Sema
