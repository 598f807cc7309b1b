import Sema.Proofs.Replacement
import Sema.Proofs.TypeNames
import Sema.Proofs.Validation

/-!
# What is written to

A program writes in two ways. What is counted up or down has to be a variable, a parameter or a list
element. An assignment asks less: its source has to fit the type of its target, and the target must
not be the name of a constant, but nothing is asked of the form of the target. So `1 = 2` is
accepted; and wherever two expressions are evaluated, the second can be assigned to the first
instead if it fits and the first names no constant (`Stmt.ElaboratesAll.assign`).

Whether an assignment writes to something that can hold a value is decided by the program text and
the catalog alone (`Expr.namesStorage`): the target is written as a list element, or as a name that
is not the name of a type.
-/

namespace Sema

open Check

/-! ## 1. Storage -/

/-- Something that can hold a value: a variable, a parameter, a function name or a list element. -/
def Resolved.Expr.isStorage : Resolved.Expr → Bool
  | .mk (.entity e) _ => e.type?.isNone
  | .mk (.subscript _ _) _ => true
  | _ => false

/-- As it is written at `here`, an expression stands for something that can hold a value: it is a
    list element, or a name that the program declares or that the catalog has not for a type. -/
def Expr.namesStorage (c : Catalog) (p : Program) (here : Place) : Expr → Bool
  | .name x _ => (designated p x here).isSome || ((c.get? x).bind Entity.type?).isNone
  | .subscript _ _ _ => true
  | _ => false

section Targets

variable {c : Catalog} {p : Program} {R : Resolved.Program} {here : Place}

/-- A name stands for a type when no declaration is designated and the catalog has a type. -/
theorem isNone_type?_of_meaning {x : String} {e : Entity} {site : Option Site}
    (h : meaning c R x site = some e) :
    e.type?.isNone = (site.isSome || ((c.get? x).bind Entity.type?).isNone) := by
  cases site with
  | none =>
      have hentry : c.get? x = some e := h
      rw [hentry]
      rfl
  | some site =>
      cases e with
      | type u => exact absurd (meaning_eq_type h).1 nofun
      | _ => rfl

/-- What an expression is resolved to is storage when it is written as such. -/
theorem Expr.Elaborates.isStorage {Γ : Env} {e : Expr} {r : Resolved.Expr}
    (h : e.Elaborates Γ r) (hΓ : ∀ x, Γ.lookup x = meaning c R x (designated p x here)) :
    r.isStorage = e.namesStorage c p here := by
  cases h with
  | @name x entity span found =>
      rw [hΓ x] at found
      exact isNone_type?_of_meaning found
  | _ => rfl

/-- What an accepted program asks of an assignment, and what its target is. -/
theorem Elaborates.assignment (h : Elaborates c p R) {place value : Resolved.Expr}
    (hat : (Resolved.Focus.block R).at? here = some (.stmt (.assign place value))) :
    value.ty.Assignable place.ty ∧ place.Writable ∧
      ∃ target source span, (Focus.block p).at? here = some (.stmt (.assign target source span)) ∧
        place.isStorage = target.namesStorage c p here := by
  obtain ⟨f, Γ, hf, hfg, hΓ⟩ := h.at_of_resolved hat
  cases hfg with
  | stmt hs =>
      cases hs with
      | assign hplace _ assignable writable =>
          exact ⟨assignable, writable, _, _, _, hf, hplace.isStorage hΓ⟩

/-- What an accepted program asks of what it counts. -/
theorem Elaborates.counter (h : Elaborates c p R) {dir : Step} {target : Resolved.Expr}
    (hat : (Resolved.Focus.block R).at? here = some (.stmt (.step dir target))) :
    target.Countable ∧ target.Writable := by
  obtain ⟨f, Γ, _, hfg, _⟩ := h.at_of_resolved hat
  cases hfg with
  | stmt hs =>
      cases hs with
      | step _ _ countable writable => exact ⟨countable, writable⟩

end Targets

/-! ## 2. Assigning to anything -/

/-- The program with another statement at a place. -/
def replaceAt (here : Place) (s : Stmt) (p : Program) : Program :=
  ((Focus.block p).putAt here (.stmt s)).statements

/-- The resolved program with another statement at a place. -/
def Resolved.replaceAt (here : Place) (r : Resolved.Stmt) (R : Resolved.Program) :
    Resolved.Program :=
  ((Resolved.Focus.block R).putAt here (.stmt r)).statements

/-- Statement number `i` of a block evaluates an expression. -/
structure EvaluatesAt (p : Program) (R : Resolved.Program) (block : Place) (i : Nat) (e : Expr)
    (r : Resolved.Expr) : Prop where
  source : ∃ span, (Focus.block p).at? (.item i :: block) = some (.stmt (.eval e span))
  resolved : (Resolved.Focus.block R).at? (.item i :: block) = some (.stmt (.eval r))

section Assigning

variable {Γ : Env} {e v : Expr} {r q : Resolved.Expr} {span span' : Span}

/-- A statement that declares nothing leaves the scopes as they are. -/
theorem Stmt.Elaborates.after_eq {s : Stmt} {x : Resolved.Stmt} (h : s.Elaborates Γ x)
    (hs : s.declares? = none) : Γ.after x = Γ := by
  have hbinding := h.name_binding?
  rw [hs, Option.map_eq_none_iff] at hbinding
  rw [Env.after_eq_extend, hbinding]
  rfl

/-- Assigning to what is accepted at the start of a row, where nothing is declared before. -/
theorem Stmt.ElaboratesAll.assign_of_target (he : e.Elaborates Γ r)
    (hfits : q.ty.Assignable r.ty) (hwritable : r.Writable) :
    ∀ {j : Nat} {ss : List Stmt} {rs : List Resolved.Stmt}, Stmt.ElaboratesAll Γ ss rs →
      (∀ k < j, ∀ s, ss[k]? = some s → s.declares? = none) → ss[j]? = some (.eval v span) →
      rs[j]? = some (.eval q) →
      Stmt.ElaboratesAll Γ (ss.set j (.assign e v span')) (rs.set j (.assign r q))
  | 0, _, _, .cons hx hrest, _, hs, hr => by
      cases hs
      cases hr
      cases hx with
      | eval hv => exact .cons (.assign he hv hfits hwritable) hrest
  | j + 1, _, _, .cons hx hrest, hfree, hs, hr => by
      rw [List.getElem?_cons_succ] at hs hr
      have hafter := hx.after_eq (hfree 0 (Nat.succ_pos j) _ rfl)
      rw [hafter] at hrest
      rw [List.set_cons_succ, List.set_cons_succ]
      refine .cons hx ?_
      rw [hafter]
      exact Stmt.ElaboratesAll.assign_of_target he hfits hwritable hrest
        (fun k hk => hfree (k + 1) (Nat.succ_lt_succ hk)) hs hr

/-- **What is accepted can be assigned to**, from there on until something is declared. -/
theorem Stmt.ElaboratesAll.assign {at' : Span} (hfits : q.ty.Assignable r.ty)
    (hwritable : r.Writable) : ∀ {i j : Nat} {Γ : Env} {ss : List Stmt} {rs : List Resolved.Stmt},
      Stmt.ElaboratesAll Γ ss rs → i ≤ j → ss[i]? = some (.eval e span) → rs[i]? = some (.eval r) →
      (∀ k, i ≤ k → k < j → ∀ s, ss[k]? = some s → s.declares? = none) →
      ss[j]? = some (.eval v span') → rs[j]? = some (.eval q) →
      Stmt.ElaboratesAll Γ (ss.set j (.assign e v at')) (rs.set j (.assign r q))
  | 0, j, _, _, _, .cons hx hrest, _, hs, hr, hfree, hs', hr' => by
      cases hs
      cases hr
      cases hx with
      | eval he =>
          exact Stmt.ElaboratesAll.assign_of_target he hfits hwritable (.cons (.eval he) hrest)
            (fun k hk => hfree k (Nat.zero_le k) hk) hs' hr'
  | i + 1, j + 1, _, _, _, .cons hx hrest, hij, hs, hr, hfree, hs', hr' => by
      rw [List.getElem?_cons_succ] at hs hr hs' hr'
      rw [List.set_cons_succ, List.set_cons_succ]
      have hbetween := fun k hik hkj =>
        hfree (k + 1) (Nat.succ_le_succ hik) (Nat.succ_lt_succ hkj)
      exact .cons hx (Stmt.ElaboratesAll.assign hfits hwritable hrest (Nat.le_of_succ_le_succ hij)
        hs hr hbetween hs' hr')

/-- A statement stands in the block around it. -/
theorem Focus.block_of_item {root : Focus} {block : Place} {i : Nat} {s : Stmt}
    (h : root.at? (.item i :: block) = some (.stmt s)) :
    ∃ ss, root.at? block = some (.block ss) ∧ ss[i]? = some s := by
  obtain ⟨f, hf, hchild⟩ := Option.bind_eq_some_iff.mp h
  cases f with
  | block ss =>
      obtain ⟨s', hs', heq⟩ := Option.map_eq_some_iff.mp hchild
      cases heq
      exact ⟨ss, hf, hs'⟩
  | stmt _ | branch _ | expr _ => cases hchild

theorem Resolved.Focus.block_of_item {root : Resolved.Focus} {block : Place} {i : Nat}
    {r : Resolved.Stmt} (h : root.at? (.item i :: block) = some (.stmt r)) :
    ∃ rs, root.at? block = some (.block rs) ∧ rs[i]? = some r := by
  obtain ⟨f, hf, hchild⟩ := Option.bind_eq_some_iff.mp h
  cases f with
  | block rs =>
      obtain ⟨r', hr', heq⟩ := Option.map_eq_some_iff.mp hchild
      cases heq
      exact ⟨rs, hf, hr'⟩
  | stmt _ | branch _ | expr _ => cases hchild

/-- An accepted program with another statement at a place, which is derived there and declares the
    same. -/
theorem analyze_replaceAt {c : Catalog} {p : Program} {R : Resolved.Program}
    (hok : (analyze c p).result = .ok R) {here : Place} {s s' : Stmt} {x x' : Resolved.Stmt}
    (hs : (Focus.block p).at? here = some (.stmt s))
    (hx : (Resolved.Focus.block R).at? here = some (.stmt x)) (hdeclared : x'.declared = x.declared)
    (h : ((Focus.block p).putAt here (.stmt s')).Elaborates (Session.loaded c).scopes.env
      ((Resolved.Focus.block R).putAt here (.stmt x'))) :
    (analyze c (replaceAt here s' p)).result = .ok (Resolved.replaceAt here x' R) := by
  have hnames : c.names.Nodup := (result_analyze_eq_ok_iff.mp hok).1
  have hnumbered := ((result_analyze_eq_ok_iff_elaborates hnames).mp hok).2
  have hsame : ((Resolved.Focus.block R).putAt here (.stmt x')).declared =
      Resolved.Stmt.declaredAll R := Resolved.Focus.declared_putAt hx hdeclared
  have hsort := Focus.sameSort_putAt hs (.stmt : Focus.SameSort _ (.stmt s'))
  unfold replaceAt Resolved.replaceAt
  generalize (Focus.block p).putAt here _ = g at h hsort
  generalize (Resolved.Focus.block R).putAt here _ = G at h hsame
  cases hsort with
  | block =>
      cases h with
      | block h =>
          rw [Session.env_loaded hnames] at h
          rw [← hsame] at hnumbered
          exact (result_analyze_eq_ok_iff_elaborates hnames).mpr ⟨h, hnumbered⟩

/-- **An assignment is accepted wherever its target and its source are**, if the source fits the
    target and the target names no constant. -/
theorem EvaluatesAt.assign {c : Catalog} {p : Program} {R : Resolved.Program}
    (hok : (analyze c p).result = .ok R) {block : Place} {i j : Nat}
    (he : EvaluatesAt p R block i e r) (hv : EvaluatesAt p R block j v q) (hij : i ≤ j)
    (hfree : ∀ k s, i ≤ k → k < j → (Focus.block p).at? (.item k :: block) = some (.stmt s) →
      s.declares? = none)
    (hfits : q.ty.Assignable r.ty) (hwritable : r.Writable) :
    (analyze c (replaceAt (.item j :: block) (.assign e v span) p)).result =
      .ok (Resolved.replaceAt (.item j :: block) (.assign r q) R) := by
  have hnames : c.names.Nodup := (result_analyze_eq_ok_iff.mp hok).1
  obtain ⟨hderived, hnumbered⟩ := (result_analyze_eq_ok_iff_elaborates hnames).mp hok
  rw [← Session.env_loaded hnames] at hderived
  obtain ⟨_, hsource⟩ := he.source
  obtain ⟨_, hsource'⟩ := hv.source
  obtain ⟨ss, hblock, hs⟩ := Focus.block_of_item hsource
  obtain ⟨ss', hblock', hs'⟩ := Focus.block_of_item hsource'
  obtain rfl : ss = ss' := Focus.block.inj (Option.some.inj (hblock.symm.trans hblock'))
  obtain ⟨rs, hrs, hr⟩ := Resolved.Focus.block_of_item he.resolved
  obtain ⟨rs', hrs', hr'⟩ := Resolved.Focus.block_of_item hv.resolved
  obtain rfl : rs = rs' := Resolved.Focus.block.inj (Option.some.inj (hrs.symm.trans hrs'))
  -- the block is derived in scopes of its own, and so it is with the assignment in it
  have hroot : (Focus.block p).Elaborates (Session.loaded c).scopes.env (.block R) :=
    .block hderived
  obtain ⟨x, hx, Δ, m, hrow, -, hput⟩ := hroot.opens hnumbered hblock
    (.block : Focus.SameSort _ (.block (ss.set j (.assign e v span))))
  obtain rfl : .block rs = x := Option.some.inj (hrs.symm.trans hx)
  cases hrow with
  | block hrow =>
      have hset : Stmt.ElaboratesAll Δ.env (ss.set j (.assign e v span))
          (rs.set j (.assign r q)) := by
        refine hrow.assign hfits hwritable hij hs hr (fun k hik hkj s hk => ?_) hs' hr'
        refine hfree k s hik hkj ?_
        rw [Focus.at?_cons hblock, Focus.child?, hk, Option.map_some]
      have hdeclared : (Resolved.Stmt.assign r q).declared = (Resolved.Stmt.eval q).declared := rfl
      have hreplaces : (Resolved.Focus.block (rs.set j (.assign r q))).Replaces (.block rs) :=
        ⟨.of_eq (Resolved.Stmt.declaredAll_set hdeclared hr'), rfl⟩
      refine analyze_replaceAt hok hsource' hv.resolved hdeclared ?_
      rw [Focus.putAt_cons hblock, Resolved.Focus.putAt_cons hrs]
      exact (hput _ _ .block (.block hset) hreplaces).1

end Assigning

/-! ## 3. Accepted programs -/

/-- **Assignments ask for types and constancy, and not for the form of the target.** In an accepted
    program:

    * what is assigned fits the target, which names no constant; and the target is a variable, a
      parameter, a function name or a list element exactly when it is written as a list element or
      as a name that does not denote a type;
    * what is counted is a variable, a parameter or a list element, and no constant;
    * wherever two expressions are evaluated in a block, with nothing declared from the first up to
      the second, an assignment of the second to the first is accepted in place of the second. The
      forms do not matter, and the two may be the same; the second has to fit the first, which must
      name no constant. -/
theorem assignments_ignore_form (c : Catalog) (p : Program) (R : Resolved.Program)
    (hok : (analyze c p).result = .ok R) :
    (∀ here place value, (Resolved.Focus.block R).at? here = some (.stmt (.assign place value)) →
      value.ty.Assignable place.ty ∧ place.Writable ∧
        ∃ target source span,
          (Focus.block p).at? here = some (.stmt (.assign target source span)) ∧
          place.isStorage = target.namesStorage c p here) ∧
    (∀ here dir target, (Resolved.Focus.block R).at? here = some (.stmt (.step dir target)) →
      target.Countable ∧ target.Writable) ∧
    (∀ block i j e v r q span, EvaluatesAt p R block i e r → EvaluatesAt p R block j v q → i ≤ j →
      (∀ k s, i ≤ k → k < j → (Focus.block p).at? (.item k :: block) = some (.stmt s) →
        s.declares? = none) →
      q.ty.Assignable r.ty → r.Writable →
      (analyze c (replaceAt (.item j :: block) (.assign e v span) p)).result =
        .ok (Resolved.replaceAt (.item j :: block) (.assign r q) R)) := by
  have h : Elaborates c p R := elaborates_of_analyze hok
  exact ⟨fun _ _ _ => h.assignment, fun _ _ _ => h.counter,
    fun _ _ _ _ _ _ _ _ he hv hij hfree => he.assign hok hv hij hfree⟩

/-- A list element, a call and the name of a type as targets, and a function in which two numbers
    are evaluated. -/
def assortedTargets : Program :=
  [.function "f" [] (some (.named "int" .origin))
    [.eval (.int 1 .origin) .origin, .eval (.int 2 .origin) .origin,
     .returnValue (.int 1 .origin) .origin] .origin,
   .assign (.subscript (.list [.int 1 .origin] .origin) (.int 0 .origin) .origin)
     (.int 2 .origin) .origin,
   .assign (.call (.name "f" .origin) [] .origin) (.int 2 .origin) .origin,
   .assign (.name "int" .origin) (.name "bool" .origin) .origin]

/-- The list element can hold a value, the call and the type cannot, and in the function the number
    2 can be assigned to the number 1. -/
theorem assignments_ignore_form_assortedTargets :
    ∃ R, (analyze .standard assortedTargets).result = .ok R ∧
      (∃ place value, (Resolved.Focus.block R).at? [.item 1] = some (.stmt (.assign place value)) ∧
        place.isStorage = true) ∧
      (∃ place value, (Resolved.Focus.block R).at? [.item 2] = some (.stmt (.assign place value)) ∧
        place.isStorage = false) ∧
      (∃ place value, (Resolved.Focus.block R).at? [.item 3] = some (.stmt (.assign place value)) ∧
        place.isStorage = false) ∧
      (analyze .standard (replaceAt [.item 1, .body, .item 0]
        (.assign (.int 1 .origin) (.int 2 .origin) .origin) assortedTargets)).result =
          .ok (Resolved.replaceAt [.item 1, .body, .item 0]
            (.assign (.mk (.int 1) .int) (.mk (.int 2) .int)) R) := by
  have h := assignments_ignore_form .standard assortedTargets _ rfl
  refine ⟨_, rfl, ?_, ?_, ?_, ?_⟩
  · obtain ⟨_, _, _, _, _, hat, hstorage⟩ := h.1 [.item 1] _ _ rfl
    cases hat
    exact ⟨_, _, rfl, hstorage⟩
  · obtain ⟨_, _, _, _, _, hat, hstorage⟩ := h.1 [.item 2] _ _ rfl
    cases hat
    exact ⟨_, _, rfl, hstorage⟩
  · obtain ⟨_, _, _, _, _, hat, hstorage⟩ := h.1 [.item 3] _ _ rfl
    cases hat
    exact ⟨_, _, rfl, hstorage⟩
  · refine h.2.2 [.body, .item 0] 0 1 _ _ _ _ _ ⟨⟨_, rfl⟩, rfl⟩ ⟨⟨_, rfl⟩, rfl⟩ (by decide) ?_
      ((Ty.fits_iff_assignable .int .int).mp rfl) nofun
    intro k s _ hk hs
    obtain rfl : k = 0 := by omega
    cases hs
    rfl

/-- **A literal can be assigned to**: not every target of an accepted program can hold a value. -/
theorem literal_is_assigned :
    ¬ ∀ (c : Catalog) (p : Program) (R : Resolved.Program), (analyze c p).result = .ok R →
      ∀ here place value, (Resolved.Focus.block R).at? here = some (.stmt (.assign place value)) →
        place.isStorage = true := by
  intro h
  have hliteral : (Resolved.Expr.mk (.int 1) .int).isStorage = true :=
    h .standard [.assign (.int 1 .origin) (.int 2 .origin) .origin] _ rfl [.item 0] _ _ rfl
  cases hliteral

end Sema
