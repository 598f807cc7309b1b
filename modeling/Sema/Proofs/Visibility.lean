import Sema.Proofs.Acceptance
import Sema.Proofs.Place

/-!
# What is in scope at a place

The environment in which the rules derive a part of a program, seen from outside: at every place, a
name means there what the outward search designates (`placed`). One turn brings into scope exactly
the declarations that come into sight when it is taken back (`Focus.Elaborates.child`); the rest
follows along the place.
-/

namespace Sema

/-! ## 1. Meanings in an extended environment -/

namespace Env

/-- The environment with entities as further names, under the names that they are declared with;
    some of the places in the list may be empty. -/
def extend (Γ : Env) (es : List (Option Entity)) : Env :=
  es.foldl (fun Δ e => e.elim Δ fun e => Δ.bind e.name e) Γ

theorem extend_append (Γ : Env) (es fs : List (Option Entity)) :
    Γ.extend (es ++ fs) = (Γ.extend es).extend fs := List.foldl_append

/-- **The nearest declaration counts.** Among the first `i` of the entities, a name means the last
    one that has it. -/
theorem lookup_extend (Γ : Env) (es : List (Option Entity)) (x : String) :
    ∀ i, (Γ.extend (es.take i)).lookup x =
      (nearest (fun j => es[j]?.join.map Entity.name == some x) i).elim (Γ.lookup x)
        fun j => es[j]?.join
  | 0 => rfl
  | i + 1 => by
      rw [List.take_add_one, extend_append, nearest]
      cases hget : es[i]?.join with
      | none =>
          have hsame : (Γ.extend (es.take i)).extend es[i]?.toList = Γ.extend (es.take i) := by
            cases hi : es[i]? with
            | none => rfl
            | some e =>
                obtain rfl : e = none := by simpa [hi] using hget
                rfl
          rw [hsame]
          exact lookup_extend Γ es x i
      | some e =>
          have hi : es[i]? = some (some e) := Option.join_eq_some_iff.mp hget
          rw [hi]
          change ((Γ.extend (es.take i)).bind e.name e).lookup x = _
          rw [lookup_bind, lookup_extend Γ es x i]
          by_cases hx : x = e.name
          · simp [hget, hx]
          · have hne : (e.name == x) = false := by simpa using Ne.symm hx
            simp [hx, hne]

end Env

theorem nearest_holds {holds : Nat → Bool} : ∀ {n i : Nat}, nearest holds n = some i →
    holds i = true
  | n + 1, i, h => by
      rw [nearest] at h
      split at h
      · next hn =>
          cases h
          exact hn
      · exact nearest_holds h

/-! ## 2. What a block and a parameter list declare -/

/-- What a statement declares in its block. -/
def Resolved.Stmt.binding? : Resolved.Stmt → Option Entity
  | .declare v _ => some (.var v)
  | .function f _ _ => some (.func f)
  | _ => none

theorem Env.after_eq_extend (Γ : Env) (r : Resolved.Stmt) : Γ.after r = Γ.extend [r.binding?] := by
  cases r <;> rfl

theorem Resolved.Stmt.slot?_self_of_binding? {r : Resolved.Stmt} {e : Entity}
    (h : r.binding? = some e) : r.slot? .self = some e := by
  cases r with
  | declare v init => exact h
  | function f ps body => exact h
  | _ => cases h

theorem Stmt.Elaborates.name_binding? {Γ : Env} {s : Stmt} {r : Resolved.Stmt}
    (h : s.Elaborates Γ r) : r.binding?.map Entity.name = s.declares? := by
  cases h with
  | function _ _ _ hf _ =>
      subst hf
      rfl
  | _ => rfl

/-- Statements in a row, one by one: each stands in the environment of those before it. -/
theorem Stmt.ElaboratesAll.item : ∀ {ss : List Stmt} {rs : List Resolved.Stmt} {Γ : Env},
    Stmt.ElaboratesAll Γ ss rs → ∀ i, Option.Rel
      (fun (s : Stmt) r => s.Elaborates (Γ.extend ((rs.map Resolved.Stmt.binding?).take i)) r)
      ss[i]? rs[i]?
  | [], _, _, h, i => by
      cases h
      exact .none
  | s :: ss, _, Γ, h, i => by
      cases h with
      | @cons _ _ _ r rs hr hrs =>
          cases i with
          | zero => exact .some hr
          | succ i =>
              rw [Γ.after_eq_extend] at hrs
              exact hrs.item i

theorem Stmt.ElaboratesAll.name_item {ss : List Stmt} {rs : List Resolved.Stmt} {Γ : Env}
    (h : Stmt.ElaboratesAll Γ ss rs) (j : Nat) :
    (rs[j]?.bind (·.binding?)).map Entity.name = ss[j]?.bind Stmt.declares? := by
  have hrel := h.item j
  generalize ss[j]? = s, rs[j]? = r at hrel ⊢
  cases hrel with
  | none => rfl
  | some hsr => exact hsr.name_binding?

theorem Env.bindParameters_eq_extend (Γ : Env) : ∀ (ds : List Decl.Parameter),
    Γ.bindParameters ds = Γ.extend (ds.map fun d => some (.param d)) := by
  intro ds
  rw [bindParameters, extend, List.foldl_map]
  rfl

/-- Among parameters, a name means the last one that has it. -/
theorem Env.lookup_bindParameters (Γ : Env) (ds : List Decl.Parameter) (x : String) :
    (Γ.bindParameters ds).lookup x =
      (nearest (fun k => ds[k]?.map Decl.Parameter.name == some x) ds.length).elim (Γ.lookup x)
        fun k => ds[k]?.map .param := by
  have hjoin : ∀ k : Nat, (ds.map fun d => some (Entity.param d))[k]?.join = ds[k]?.map .param := by
    intro k
    rw [List.getElem?_map]
    cases ds[k]? <;> rfl
  have hname : ∀ k : Nat,
      (ds[k]?.map Entity.param).map Entity.name = ds[k]?.map Decl.Parameter.name := by
    intro k
    cases ds[k]? <;> rfl
  have hall := Env.lookup_extend Γ (ds.map fun d => some (Entity.param d)) x
    (ds.map fun d => some (Entity.param d)).length
  rw [List.take_length, List.length_map] at hall
  simp only [Env.bindParameters_eq_extend, hall, hjoin, hname]

theorem Parameter.ElaboratesAll.map_name : ∀ {ps : List Parameter} {ds : List Decl.Parameter}
    {Γ : Env}, Parameter.ElaboratesAll Γ ps ds → ds.map (·.name) = ps.map (·.name)
  | _, _, _, .nil => rfl
  | _, _, _, .cons _ _ hds => by rw [List.map_cons, List.map_cons, hds.map_name]

/-! ## 3. One turn -/

/-- A part of a program stands for a part of a resolved program. -/
inductive Focus.Elaborates (Γ : Env) : Focus → Resolved.Focus → Prop where
  | block {ss : List Stmt} {rs : List Resolved.Stmt} (h : Stmt.ElaboratesAll Γ ss rs) :
      Elaborates Γ (.block ss) (.block rs)
  | stmt {s : Stmt} {r : Resolved.Stmt} (h : s.Elaborates Γ r) : Elaborates Γ (.stmt s) (.stmt r)
  | branch {b : Branch} {r : Resolved.Branch} (h : b.Elaborates Γ r) :
      Elaborates Γ (.branch b) (.branch r)
  | expr {e : Expr} {r : Resolved.Expr} (h : e.Elaborates Γ r) : Elaborates Γ (.expr e) (.expr r)

/-- In the second environment a name means what is declared at the site that is found for it, and
    what it means in the first where none is found. -/
def Env.Reveals (root : Resolved.Focus) (found : String → Option Site) (Γ Δ : Env) : Prop :=
  ∀ x, Δ.lookup x = (found x).elim (Γ.lookup x) root.declaredAt?

theorem rel_getElem? {α β : Type} {r : α → β → Prop} {as : List α} {bs : List β}
    (h : List.Forall₂ r as bs) : ∀ i : Nat, Option.Rel r as[i]? bs[i]? := by
  induction h with
  | nil => exact fun _ => .none
  | cons hab _ ih =>
      intro i
      cases i with
      | zero => exact .some hab
      | succ i => exact ih i

theorem rel_map {α β γ δ : Type} {r : α → β → Prop} {q : γ → δ → Prop} {f : α → γ} {g : β → δ}
    {a : Option α} {b : Option β} (h : Option.Rel r a b) (hq : ∀ a b, r a b → q (f a) (g b)) :
    Option.Rel q (a.map f) (b.map g) := by
  cases h with
  | none => exact .none
  | some hab => exact .some (hq _ _ hab)

theorem Expr.Elaborates.parts {Γ : Env} {e : Expr} {r : Resolved.Expr} (h : e.Elaborates Γ r) :
    List.Forall₂ (Expr.Elaborates Γ) e.parts r.parts := by
  cases h with
  | conditional ht hc ha _ _ => exact .cons ht (.cons hc (.cons ha .nil))
  | logical hrs _ => exact hrs
  | binary hl hr _ _ => exact .cons hl (.cons hr .nil)
  | unary hr _ => exact .cons hr .nil
  | subscript hl hi _ _ => exact .cons hl (.cons hi .nil)
  | list hrs _ _ => exact hrs
  | call hf hrs _ _ => exact .cons hf hrs
  | _ => exact .nil

theorem Stmt.Elaborates.parts {Γ : Env} {s : Stmt} {r : Resolved.Stmt} (h : s.Elaborates Γ r) :
    List.Forall₂ (Expr.Elaborates Γ) s.parts r.parts := by
  cases h with
  | declare hr _ | step hr _ _ _ | returnValue _ _ hr _ | whileLoop hr _ _ | forEach hr _ _
  | eval hr => exact .cons hr .nil
  | assign hplace hvalue _ _ => exact .cons hplace (.cons hvalue .nil)
  | _ => exact .nil

theorem Focus.Elaborates.parts {Γ : Env} {f : Focus} {g : Resolved.Focus} (h : f.Elaborates Γ g) :
    List.Forall₂ (Expr.Elaborates Γ) f.parts g.parts := by
  cases h with
  | block _ => exact .nil
  | stmt h => exact h.parts
  | branch h =>
      cases h with
      | mk ht _ _ _ => exact .cons ht .nil
  | expr h => exact h.parts

section Turns

variable {root : Resolved.Focus} {here : Place} {Γ : Env}

/-- Into a block: the statements above come into scope. -/
theorem Stmt.ElaboratesAll.reveals {ss : List Stmt} {rs : List Resolved.Stmt}
    (hat : root.at? here = some (.block rs)) (h : Stmt.ElaboratesAll Γ ss rs) (i : Nat) :
    Env.Reveals root (fun x => (Focus.block ss).seek x here (.item i)) Γ
      (Γ.extend ((rs.map Resolved.Stmt.binding?).take i)) := by
  intro x
  have hjoin : ∀ j : Nat, (rs.map Resolved.Stmt.binding?)[j]?.join = rs[j]?.bind (·.binding?) := by
    intro j
    rw [List.getElem?_map]
    cases rs[j]? <;> rfl
  simp only [Env.lookup_extend, hjoin, h.name_item, Focus.seek]
  cases hnear : nearest (fun j : Nat => ss[j]?.bind Stmt.declares? == some x) i with
  | none => rfl
  | some j =>
      -- the statement that is found declares the name, so it is no loop
      have hfound : ss[j]?.bind Stmt.declares? = some x := beq_iff_eq.mp (nearest_holds hnear)
      obtain ⟨e, he, _⟩ := Option.map_eq_some_iff.mp ((h.name_item j).trans hfound)
      obtain ⟨r, hr, hre⟩ := Option.bind_eq_some_iff.mp he
      rw [Option.elim_some, Option.map_some, Option.elim_some, he, Resolved.Focus.declaredAt?,
        Resolved.Focus.at?, hat]
      simp [Resolved.Focus.child?, hr, Resolved.Focus.slot?,
        Resolved.Stmt.slot?_self_of_binding? hre]

/-- Into the body of a function: its parameters come into scope, and behind them the function. -/
theorem Parameter.ElaboratesAll.reveals {name : String} {ps : List Parameter}
    {result : Option TypeExpr} {body : List Stmt} {span : Span} {f : Decl.Function}
    {ds : List Decl.Parameter} {rs : List Resolved.Stmt} {Δ : Env}
    (hat : root.at? here = some (.stmt (.function f ds rs)))
    (h : Parameter.ElaboratesAll Δ ps ds) :
    Env.Reveals root (fun x => (Focus.stmt (.function name ps result body span)).seek x here .body)
      Γ (((Γ.bind name (.func f)).body (some f)).bindParameters ds) := by
  intro x
  have hnames : ∀ k : Nat, ds[k]?.map Decl.Parameter.name = ps[k]?.map Parameter.name := by
    intro k
    have hk := congrArg (·[k]?) h.map_name
    simpa using hk
  have hlen : ds.length = ps.length := by
    have hl := congrArg List.length h.map_name
    simpa using hl
  simp only [Env.lookup_bindParameters, hnames, hlen, Env.lookup_body, Env.lookup_bind, Focus.seek]
  cases nearest (fun k : Nat => ps[k]?.map Parameter.name == some x) ps.length with
  | some k =>
      rw [Option.elim_some, Option.map_some, Option.some_or, Option.elim_some,
        Resolved.Focus.declaredAt?, hat]
      rfl
  | none =>
      rw [Option.elim_none, Option.map_none, Option.none_or]
      by_cases hx : x = name
      · rw [if_pos hx, if_pos hx, Option.elim_some, Resolved.Focus.declaredAt?, hat]
        rfl
      · rw [if_neg hx, if_neg hx, Option.elim_none]

/-- A turn that brings nothing into sight. -/
theorem Env.reveals_nothing {found : String → Option Site} {Δ : Env} (hfound : ∀ x, found x = none)
    (h : ∀ x, Δ.lookup x = Γ.lookup x) : Env.Reveals root found Γ Δ := by
  intro x
  rw [hfound x, Option.elim_none, h x]

/-- Into the body of a loop over a list: its iterator comes into scope. -/
theorem Env.reveals_forEach {x : String} {collection : Expr} {body : List Stmt} {span : Span}
    {v : Decl.Variable} {r : Resolved.Expr} {rs : List Resolved.Stmt}
    (hat : root.at? here = some (.stmt (.forEach v r rs))) :
    Env.Reveals root (fun y => (Focus.stmt (.forEach x collection body span)).seek y here .body) Γ
      (Γ.loop.bind x (.var v)) := by
  intro y
  simp only [Env.lookup_bind, Env.lookup_loop, Focus.seek]
  by_cases hy : y = x
  · rw [if_pos hy, if_pos hy, Option.elim_some, Resolved.Focus.declaredAt?, hat]
    rfl
  · rw [if_neg hy, if_neg hy, Option.elim_none]

/-- **One turn.** Both trees have a part there or neither has; the parts stand for each other in an
    environment that reveals what comes into sight when the turn is taken back. -/
theorem Focus.Elaborates.child {f : Focus} {g : Resolved.Focus} (hat : root.at? here = some g)
    (h : f.Elaborates Γ g) (t : Turn) :
    Option.Rel (fun f' g' => ∃ Δ, Focus.Elaborates Δ f' g' ∧
      Env.Reveals root (fun x => f.seek x here t) Γ Δ) (f.child? t) (g.child? t) := by
  cases t with
  | part i =>
      rw [f.child?_part, g.child?_part]
      refine rel_map (rel_getElem? h.parts i) fun e r her =>
        ⟨Γ, .expr her, Env.reveals_nothing (fun x => ?_) fun _ => rfl⟩
      cases f with
      | stmt s => cases s <;> rfl
      | _ => rfl
  | item i =>
      cases h with
      | block h =>
          exact rel_map (h.item i) fun s r hsr => ⟨_, .stmt hsr, h.reveals hat i⟩
      | stmt h => cases h <;> exact .none
      | branch h => cases h; exact .none
      | expr h => exact .none
  | body =>
      cases h with
      | stmt h =>
          cases h with
          | function _ hds _ hf hrs =>
              exact .some ⟨_, .block hrs, hds.reveals hat⟩
          | whileLoop _ _ hrs =>
              exact .some ⟨_, .block hrs, Env.reveals_nothing (fun _ => rfl) (Env.lookup_loop Γ)⟩
          | forEach _ _ hrs => exact .some ⟨_, .block hrs, Env.reveals_forEach hat⟩
          | _ => exact .none
      | branch h => cases h; exact .none
      | block h => exact .none
      | expr h => exact .none
  | branch =>
      cases h with
      | stmt h =>
          cases h with
          | branch hr =>
              exact .some ⟨Γ, .branch hr, Env.reveals_nothing (fun _ => rfl) fun _ => rfl⟩
          | _ => exact .none
      | branch h => cases h; exact .none
      | block h => exact .none
      | expr h => exact .none
  | consequent =>
      cases h with
      | branch h =>
          cases h with
          | mk _ _ hrs _ =>
              exact .some ⟨_, .block hrs, Env.reveals_nothing (fun _ => rfl) (Env.lookup_block Γ)⟩
      | stmt h => cases h <;> exact .none
      | block h => exact .none
      | expr h => exact .none
  | alternate =>
      cases h with
      | branch h =>
          cases h with
          | mk _ _ _ ha =>
              cases ha with
              | none => exact .none
              | block hrs =>
                  exact .some ⟨_, .block hrs,
                    Env.reveals_nothing (fun _ => rfl) (Env.lookup_block Γ)⟩
              | elseIf hr =>
                  exact .some ⟨Γ, .branch hr, Env.reveals_nothing (fun _ => rfl) fun _ => rfl⟩
      | stmt h => cases h <;> exact .none
      | block h => exact .none
      | expr h => exact .none

end Turns

/-! ## 4. Every place -/

/-- **What is in scope.** At every place of a program and of what it stands for, both have a part or
    neither has; the parts stand for each other in an environment in which a name means what the
    search designates. -/
theorem placed {c : Catalog} {p : Program} {R : Resolved.Program}
    (h : Stmt.ElaboratesAll (.ofCatalog c) p R) : ∀ here : Place, Option.Rel
      (fun f g => ∃ Γ, Focus.Elaborates Γ f g ∧
        ∀ x, Γ.lookup x = meaning c R x (designated p x here))
      ((Focus.block p).at? here) ((Resolved.Focus.block R).at? here)
  | [] => .some ⟨_, .block h, Env.lookup_ofCatalog c⟩
  | t :: outer => by
      have ih := placed h outer
      rw [Focus.at?, Resolved.Focus.at?]
      generalize hf : (Focus.block p).at? outer = f, hg : (Resolved.Focus.block R).at? outer = g
        at ih ⊢
      cases ih with
      | none => exact .none
      | @some f g ih =>
          obtain ⟨Γ, hfg, hΓ⟩ := ih
          have hchild := hfg.child hg t
          rw [Option.bind_some, Option.bind_some]
          generalize f.child? t = f', g.child? t = g' at hchild ⊢
          cases hchild with
          | none => exact .none
          | some hchild =>
              obtain ⟨Δ, hfg', hΔ⟩ := hchild
              refine .some ⟨Δ, hfg', fun x => ?_⟩
              have hx : Δ.lookup x = (f.seek x outer t).elim (Γ.lookup x) _ := hΔ x
              rw [hx, hΓ x, designated, hf, Option.bind_some]
              cases f.seek x outer t <;> rfl

end Sema
