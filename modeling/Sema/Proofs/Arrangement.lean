import Mathlib.Data.List.FinRange
import Mathlib.Data.List.Forall2
import Mathlib.Data.List.OfFn
import Sema.Proofs.Acceptance
import Sema.Proofs.Place

/-!
# The order of operands

The rules are symmetric where the checks are not: a check looks at the first operand, at the first
arm or at the first element, and compares the others with it, but the rules only ask that the types
are the same. So the operands of one expression can be put in another order
(`Expr.elaborates_shuffle`): those of a binary operator, the arms of a conditional, the elements of
a list, and the operands of a connective.

An `Arrangement` does so at any places of a program, and it commutes with the resolution of
expressions (`Expr.elaborates_arrange`).
-/

namespace Sema

/-! ## 1. Lists in another order -/

/-- The elements of a list in another order: at `i` comes the one that was at `σ i`. -/
def reorder {α : Type} (σ : (n : Nat) → Equiv.Perm (Fin n)) (as : List α) : List α :=
  List.ofFn fun i => as.get (σ as.length i)

section

variable {α β : Type} (σ : (n : Nat) → Equiv.Perm (Fin n))

theorem length_reorder (as : List α) : (reorder σ as).length = as.length := List.length_ofFn

theorem perm_reorder (as : List α) : (reorder σ as).Perm as := by
  have hperm := (σ as.length).ofFn_comp_perm as.get
  rw [List.ofFn_get] at hperm
  exact hperm

theorem reorder_eq_nil {as : List α} : reorder σ as = [] ↔ as = [] := by
  rw [← List.length_eq_zero_iff, length_reorder, List.length_eq_zero_iff]

theorem reorder_ofFn {n : Nat} (f : Fin n → α) :
    reorder σ (List.ofFn f) = List.ofFn (f ∘ σ n) := by
  have hcast : ∀ (as : List α) (h : as.length = n), reorder σ as =
      List.ofFn fun i : Fin n => as.get ((σ n i).cast h.symm) := by
    intro as h
    subst h
    rfl
  rw [hcast _ List.length_ofFn]
  simp [Function.comp_def]

theorem forall₂_ofFn {r : α → β → Prop} {n : Nat} {f : Fin n → α} {bs : List β} :
    List.Forall₂ r (List.ofFn f) bs ↔ ∃ g : Fin n → β, bs = List.ofFn g ∧ ∀ i, r (f i) (g i) := by
  rw [List.forall₂_iff_get]
  constructor
  · intro ⟨hlength, hget⟩
    rw [List.length_ofFn] at hlength
    subst hlength
    refine ⟨bs.get, (List.ofFn_get bs).symm, fun i => ?_⟩
    have hi := hget i (by simp) i.isLt
    simpa using hi
  · rintro ⟨g, rfl, hg⟩
    refine ⟨by simp, fun i _ _ => ?_⟩
    simpa using hg _

/-- What is related element by element is so in another order. -/
theorem forall₂_reorder {r : α → β → Prop} {as : List α} {bs : List β} (h : List.Forall₂ r as bs) :
    List.Forall₂ r (reorder σ as) (reorder σ bs) := by
  rw [← List.ofFn_get as] at h ⊢
  obtain ⟨g, rfl, hg⟩ := forall₂_ofFn.mp h
  rw [reorder_ofFn, reorder_ofFn]
  exact forall₂_ofFn.mpr ⟨_, rfl, fun i => hg (σ as.length i)⟩

theorem reorder_symm_reorder (as : List α) : reorder (fun n => (σ n).symm) (reorder σ as) = as := by
  have hordered : reorder σ as = List.ofFn (as.get ∘ σ as.length) := rfl
  rw [hordered, reorder_ofFn, Function.comp_assoc, Equiv.self_comp_symm, Function.comp_id,
    List.ofFn_get]

end

/-! ## 2. One expression -/

/-- Another order for the operands of one expression: whether two of them are exchanged, and in
    which order those in a row come. -/
structure Shuffle where
  exchanged : Bool
  row : (n : Nat) → Equiv.Perm (Fin n)

/-- The expression with its operands in another order; where the order matters it is left alone. -/
def Expr.shuffle (o : Shuffle) : Expr → Expr
  | .conditional test consequent alternate span =>
      if o.exchanged then .conditional test alternate consequent span
      else .conditional test consequent alternate span
  | .logical op operands span => .logical op (reorder o.row operands) span
  | .binary op left right span =>
      if o.exchanged then .binary op right left span else .binary op left right span
  | .list elements span => .list (reorder o.row elements) span
  | e => e

namespace Resolved

/-- The same for a resolved expression, apart from its type. -/
def Form.shuffle (o : Shuffle) : Form → Form
  | .conditional test consequent alternate =>
      if o.exchanged then .conditional test alternate consequent
      else .conditional test consequent alternate
  | .logical op operands => .logical op (reorder o.row operands)
  | .binary op left right => if o.exchanged then .binary op right left else .binary op left right
  | .list elements => .list (reorder o.row elements)
  | form => form

/-- A resolved expression with its operands in another order. Its type stays. -/
def Expr.shuffle (o : Shuffle) : Expr → Expr
  | .mk form ty => .mk (form.shuffle o) ty

end Resolved

/-- The order that undoes another one. -/
def Shuffle.inverse (o : Shuffle) : Shuffle := ⟨o.exchanged, fun n => (o.row n).symm⟩

theorem Expr.shuffle_inverse (o : Shuffle) (e : Expr) : (e.shuffle o).shuffle o.inverse = e := by
  obtain ⟨exchanged, row⟩ := o
  cases e with
  | conditional test consequent alternate span | binary op left right span =>
      cases exchanged <;> rfl
  | logical op es span | list es span =>
      simp only [Expr.shuffle, Shuffle.inverse, reorder_symm_reorder]
  | _ => rfl

theorem Resolved.Expr.shuffle_inverse (o : Shuffle) (r : Resolved.Expr) :
    (r.shuffle o).shuffle o.inverse = r := by
  obtain ⟨form, ty⟩ := r
  obtain ⟨exchanged, row⟩ := o
  rw [Resolved.Expr.shuffle, Resolved.Expr.shuffle]
  cases form with
  | conditional test consequent alternate | binary op left right => cases exchanged <;> rfl
  | logical op es | list es =>
      simp only [Resolved.Form.shuffle, Shuffle.inverse, reorder_symm_reorder]
  | _ => rfl

section

variable {Γ : Env} {e : Expr}

/-- **The rules do not depend on the order of operands**: two that are exchanged have one type, and
    so have the elements of a list. -/
theorem Expr.Elaborates.shuffle {r : Resolved.Expr} (h : e.Elaborates Γ r) (o : Shuffle) :
    (e.shuffle o).Elaborates Γ (r.shuffle o) := by
  obtain ⟨exchanged, row⟩ := o
  have hsame := h
  cases h with
  | conditional ht hc ha isBool same =>
      cases exchanged with
      | false => exact hsame
      | true =>
          rw [same]
          exact .conditional ht ha hc isBool same.symm
  | binary hl hr same typed =>
      cases exchanged with
      | false => exact hsame
      | true => exact .binary hr hl same.symm (same ▸ typed)
  | @logical _ _ rs _ hrs areBool =>
      have hperm := perm_reorder row rs
      exact .logical (forall₂_reorder row hrs) fun r hr => areBool r (hperm.mem_iff.mp hr)
  | @list _ rs _ _ hrs nonempty same =>
      have hperm := perm_reorder row rs
      exact .list (forall₂_reorder row hrs) (mt (reorder_eq_nil row).mp nonempty)
        fun r hr => same r (hperm.mem_iff.mp hr)
  | _ => exact hsame

theorem Expr.elaborates_shuffle (o : Shuffle) (q : Resolved.Expr) :
    (e.shuffle o).Elaborates Γ q ↔ ∃ r, e.Elaborates Γ r ∧ q = r.shuffle o := by
  constructor
  · intro h
    have hback := h.shuffle o.inverse
    rw [Expr.shuffle_inverse] at hback
    exact ⟨_, hback, (Resolved.Expr.shuffle_inverse o.inverse q).symm⟩
  · intro ⟨r, hr, hq⟩
    rw [hq]
    exact hr.shuffle o

end

/-! ## 3. Arrangements -/

/-- An order of operands at every place of a program. -/
abbrev Arrangement := Place → Shuffle

section

variable (π : Arrangement)

mutual

/-- The expression at a place, with the operands in it in the order of an arrangement. -/
def Expr.arrange (here : Place) : Expr → Expr
  | .conditional test consequent alternate span =>
      (Expr.conditional (test.arrange (.part 0 :: here)) (consequent.arrange (.part 1 :: here))
        (alternate.arrange (.part 2 :: here)) span).shuffle (π here)
  | .logical op operands span =>
      (Expr.logical op (Expr.arrangeAll here 0 operands) span).shuffle (π here)
  | .binary op left right span =>
      (Expr.binary op (left.arrange (.part 0 :: here)) (right.arrange (.part 1 :: here))
        span).shuffle (π here)
  | .unary op operand span => .unary op (operand.arrange (.part 0 :: here)) span
  | .subscript items index span =>
      .subscript (items.arrange (.part 0 :: here)) (index.arrange (.part 1 :: here)) span
  | .list elements span => (Expr.list (Expr.arrangeAll here 0 elements) span).shuffle (π here)
  | .call callee arguments span =>
      .call (callee.arrange (.part 0 :: here)) (Expr.arrangeAll here 1 arguments) span
  | e => e

/-- The expressions in the expression at a place, from the `i`th on. -/
def Expr.arrangeAll (here : Place) (i : Nat) : List Expr → List Expr
  | [] => []
  | e :: es => e.arrange (.part i :: here) :: Expr.arrangeAll here (i + 1) es

end

mutual

/-- The statement at a place, with the operands in it in the order of an arrangement. -/
def Stmt.arrange (here : Place) : Stmt → Stmt
  | .declare x readOnly init span => .declare x readOnly (init.arrange π (.part 0 :: here)) span
  | .function name parameters result body span =>
      .function name parameters result (Stmt.arrangeAll (.body :: here) 0 body) span
  | .step dir target span => .step dir (target.arrange π (.part 0 :: here)) span
  | .assign target source span =>
      .assign (target.arrange π (.part 0 :: here)) (source.arrange π (.part 1 :: here)) span
  | .exitLoop span => .exitLoop span
  | .returnValue value span => .returnValue (value.arrange π (.part 0 :: here)) span
  | .returnNothing span => .returnNothing span
  | .branch b => .branch (b.arrange (.branch :: here))
  | .whileLoop test body span =>
      .whileLoop (test.arrange π (.part 0 :: here)) (Stmt.arrangeAll (.body :: here) 0 body) span
  | .forEach x collection body span =>
      .forEach x (collection.arrange π (.part 0 :: here)) (Stmt.arrangeAll (.body :: here) 0 body)
        span
  | .eval expr span => .eval (expr.arrange π (.part 0 :: here)) span

/-- The `if` at a place. -/
def Branch.arrange (here : Place) : Branch → Branch
  | .mk test consequent alternate span =>
      .mk (test.arrange π (.part 0 :: here)) (Stmt.arrangeAll (.consequent :: here) 0 consequent)
        (alternate.arrange (.alternate :: here)) span

/-- What follows `else`, at its place. -/
def Alternate.arrange (here : Place) : Alternate → Alternate
  | .none => .none
  | .block body => .block (Stmt.arrangeAll here 0 body)
  | .elseIf next => .elseIf (next.arrange here)

/-- The statements of the block at a place, from the `i`th on. -/
def Stmt.arrangeAll (here : Place) (i : Nat) : List Stmt → List Stmt
  | [] => []
  | s :: ss => s.arrange (.item i :: here) :: Stmt.arrangeAll here (i + 1) ss

end

namespace Resolved

mutual

/-- The resolved expression at a place, with the operands in it in the order of an arrangement. -/
def Expr.arrange (here : Place) : Expr → Expr
  | .mk form ty => .mk (form.arrange here) ty

/-- The same, apart from its type. -/
def Form.arrange (here : Place) : Form → Form
  | .conditional test consequent alternate =>
      (Form.conditional (test.arrange (.part 0 :: here)) (consequent.arrange (.part 1 :: here))
        (alternate.arrange (.part 2 :: here))).shuffle (π here)
  | .logical op operands => (Form.logical op (Expr.arrangeAll here 0 operands)).shuffle (π here)
  | .binary op left right =>
      (Form.binary op (left.arrange (.part 0 :: here)) (right.arrange (.part 1 :: here))).shuffle
        (π here)
  | .unary op operand => .unary op (operand.arrange (.part 0 :: here))
  | .subscript items index =>
      .subscript (items.arrange (.part 0 :: here)) (index.arrange (.part 1 :: here))
  | .list elements => (Form.list (Expr.arrangeAll here 0 elements)).shuffle (π here)
  | .call callee arguments =>
      .call (callee.arrange (.part 0 :: here)) (Expr.arrangeAll here 1 arguments)
  | form => form

/-- The resolved expressions in the expression at a place, from the `i`th on. -/
def Expr.arrangeAll (here : Place) (i : Nat) : List Expr → List Expr
  | [] => []
  | e :: es => e.arrange (.part i :: here) :: Expr.arrangeAll here (i + 1) es

end

mutual

/-- The resolved statement at a place, with the operands in it in the order of an arrangement. What
    it declares stays. -/
def Stmt.arrange (here : Place) : Stmt → Stmt
  | .declare v init => .declare v (init.arrange π (.part 0 :: here))
  | .function f ps body => .function f ps (Stmt.arrangeAll (.body :: here) 0 body)
  | .step dir target => .step dir (target.arrange π (.part 0 :: here))
  | .assign target source =>
      .assign (target.arrange π (.part 0 :: here)) (source.arrange π (.part 1 :: here))
  | .exitLoop => .exitLoop
  | .returnValue value => .returnValue (value.arrange π (.part 0 :: here))
  | .returnNothing => .returnNothing
  | .branch b => .branch (b.arrange (.branch :: here))
  | .whileLoop test body =>
      .whileLoop (test.arrange π (.part 0 :: here)) (Stmt.arrangeAll (.body :: here) 0 body)
  | .forEach v collection body =>
      .forEach v (collection.arrange π (.part 0 :: here)) (Stmt.arrangeAll (.body :: here) 0 body)
  | .eval expr => .eval (expr.arrange π (.part 0 :: here))

/-- The resolved `if` at a place. -/
def Branch.arrange (here : Place) : Branch → Branch
  | .mk test consequent alternate =>
      .mk (test.arrange π (.part 0 :: here)) (Stmt.arrangeAll (.consequent :: here) 0 consequent)
        (alternate.arrange (.alternate :: here))

/-- What follows `else`, at its place. -/
def Alternate.arrange (here : Place) : Alternate → Alternate
  | .none => .none
  | .block body => .block (Stmt.arrangeAll here 0 body)
  | .elseIf next => .elseIf (next.arrange here)

/-- The resolved statements of the block at a place, from the `i`th on. -/
def Stmt.arrangeAll (here : Place) (i : Nat) : List Stmt → List Stmt
  | [] => []
  | s :: ss => s.arrange (.item i :: here) :: Stmt.arrangeAll here (i + 1) ss

end

end Resolved

end

/-! ## 4. What an arrangement keeps -/

namespace Resolved

variable (π : Arrangement) (here : Place)

@[simp] theorem Expr.ty_arrange (r : Expr) : (r.arrange π here).ty = r.ty := by
  obtain ⟨form, ty⟩ := r
  rfl

theorem Expr.map_ty_arrangeAll : ∀ (i : Nat) (rs : List Expr),
    (Expr.arrangeAll π here i rs).map Expr.ty = rs.map Expr.ty
  | _, [] => rfl
  | i, r :: rs => by
      rw [Expr.arrangeAll, List.map_cons, List.map_cons, Expr.ty_arrange,
        Expr.map_ty_arrangeAll (i + 1) rs]

theorem Expr.forall_ty_arrangeAll {i : Nat} {rs : List Expr} {t : Ty} :
    (∀ r ∈ Expr.arrangeAll π here i rs, r.ty = t) ↔ ∀ r ∈ rs, r.ty = t := by
  have htypes : ∀ qs : List Expr, (∀ r ∈ qs, r.ty = t) ↔ ∀ u ∈ qs.map Expr.ty, u = t := by
    intro qs
    rw [List.forall_mem_map]
  rw [htypes, htypes, Expr.map_ty_arrangeAll]

theorem Expr.forall₂_ty_arrangeAll {P : Ty → Ty → Prop} {i : Nat} {rs : List Expr} {ts : List Ty} :
    List.Forall₂ (fun r t => P r.ty t) (Expr.arrangeAll π here i rs) ts ↔
      List.Forall₂ (fun r t => P r.ty t) rs ts := by
  rw [← List.forall₂_map_left_iff, Expr.map_ty_arrangeAll, List.forall₂_map_left_iff]

theorem Expr.arrangeAll_eq_nil {i : Nat} {rs : List Expr} :
    Expr.arrangeAll π here i rs = [] ↔ rs = [] := by
  cases rs with
  | nil => exact Iff.rfl
  | cons r rs => exact ⟨nofun, nofun⟩

/-- A name stays a name, and nothing else becomes one. -/
theorem Expr.form_arrange_eq_entity {r : Expr} {e : Entity} :
    (r.arrange π here).form = .entity e ↔ r.form = .entity e := by
  obtain ⟨form, ty⟩ := r
  show form.arrange π here = .entity e ↔ form = .entity e
  cases form with
  | conditional test consequent alternate | binary op left right =>
      cases hx : (π here).exchanged <;> simp [Form.arrange, Form.shuffle, hx]
  | _ => simp [Form.arrange, Form.shuffle]

theorem Expr.writable_arrange {r : Expr} : (r.arrange π here).Writable ↔ r.Writable := by
  unfold Expr.Writable
  simp only [Expr.form_arrange_eq_entity]

theorem Expr.countable_arrange {r : Expr} : (r.arrange π here).Countable ↔ r.Countable := by
  obtain ⟨form, ty⟩ := r
  cases form with
  | entity e => exact Iff.rfl
  | subscript items index => exact ⟨fun _ => .element, fun _ => .element⟩
  | conditional test consequent alternate | binary op left right =>
      cases hx : (π here).exchanged <;> simp only [Expr.arrange, Form.arrange, Form.shuffle, hx] <;>
        exact ⟨nofun, nofun⟩
  | _ => exact ⟨nofun, nofun⟩

end Resolved

/-! ## 5. Expressions -/

section

variable {π : Arrangement} {Γ : Env}

/-- Where the resolved expressions are left alone. -/
theorem Expr.elaborates_of_fixed {e : Expr} {q : Resolved.Expr} {g : Resolved.Expr → Resolved.Expr}
    (h : ∀ r, e.Elaborates Γ r → g r = r) :
    e.Elaborates Γ q ↔ ∃ r, e.Elaborates Γ r ∧ q = g r := by
  constructor
  · intro hq
    exact ⟨q, hq, (h q hq).symm⟩
  · intro ⟨r, hr, hq⟩
    rw [hq, h r hr]
    exact hr

/-- The arrangement commutes with the resolution of an expression. -/
def Expr.Arranges (π : Arrangement) (Γ : Env) (here : Place) (e : Expr) : Prop :=
  ∀ q, (e.arrange π here).Elaborates Γ q ↔ ∃ r, e.Elaborates Γ r ∧ q = r.arrange π here

/-- It commutes with the resolution of several, the first of which is part `i`. -/
def Expr.ArrangesAll (π : Arrangement) (Γ : Env) (here : Place) (i : Nat) (es : List Expr) : Prop :=
  ∀ qs, List.Forall₂ (Expr.Elaborates Γ) (Expr.arrangeAll π here i es) qs ↔
    ∃ rs, List.Forall₂ (Expr.Elaborates Γ) es rs ∧ qs = Resolved.Expr.arrangeAll π here i rs

section

variable {here : Place} {span : Span}

theorem Expr.arranges_conditional {test consequent alternate : Expr}
    (htest : test.Arranges π Γ (.part 0 :: here))
    (hconsequent : consequent.Arranges π Γ (.part 1 :: here))
    (halternate : alternate.Arranges π Γ (.part 2 :: here)) :
    (Expr.conditional test consequent alternate span).Arranges π Γ here := by
  intro q
  rw [Expr.arrange, Expr.elaborates_shuffle]
  constructor
  · intro ⟨r, h, hq⟩
    cases h with
    | conditional ht hc ha isBool same =>
        obtain ⟨t, ht', rfl⟩ := (htest _).mp ht
        obtain ⟨c, hc', rfl⟩ := (hconsequent _).mp hc
        obtain ⟨a, ha', rfl⟩ := (halternate _).mp ha
        simp only [Resolved.Expr.ty_arrange] at isBool same hq
        exact ⟨_, .conditional ht' hc' ha' isBool same, hq⟩
  · intro ⟨r, h, hq⟩
    cases h with
    | @conditional _ _ _ t c a _ ht hc ha isBool same =>
        have ht' := (htest _).mpr ⟨t, ht, rfl⟩
        have hc' := (hconsequent _).mpr ⟨c, hc, rfl⟩
        have ha' := (halternate _).mpr ⟨a, ha, rfl⟩
        refine ⟨_, .conditional ht' hc' ha' (by simpa) (by simpa), ?_⟩
        rw [hq, Resolved.Expr.ty_arrange]
        rfl

theorem Expr.arranges_logical {op : Connective} {operands : List Expr}
    (hoperands : Expr.ArrangesAll π Γ here 0 operands) :
    (Expr.logical op operands span).Arranges π Γ here := by
  intro q
  rw [Expr.arrange, Expr.elaborates_shuffle]
  constructor
  · intro ⟨r, h, hq⟩
    cases h with
    | logical hrs areBool =>
        obtain ⟨rs, hrs', rfl⟩ := (hoperands _).mp hrs
        rw [Resolved.Expr.forall_ty_arrangeAll] at areBool
        exact ⟨_, .logical hrs' areBool, hq⟩
  · intro ⟨r, h, hq⟩
    cases h with
    | @logical _ _ rs _ hrs areBool =>
        have hrs' := (hoperands _).mpr ⟨rs, hrs, rfl⟩
        rw [← Resolved.Expr.forall_ty_arrangeAll π here] at areBool
        exact ⟨_, .logical hrs' areBool, hq⟩

theorem Expr.arranges_binary {op : BinaryOp} {left right : Expr}
    (hleft : left.Arranges π Γ (.part 0 :: here)) (hright : right.Arranges π Γ (.part 1 :: here)) :
    (Expr.binary op left right span).Arranges π Γ here := by
  intro q
  rw [Expr.arrange, Expr.elaborates_shuffle]
  constructor
  · intro ⟨r, h, hq⟩
    cases h with
    | binary hl hr same typed =>
        obtain ⟨l, hl', rfl⟩ := (hleft _).mp hl
        obtain ⟨r, hr', rfl⟩ := (hright _).mp hr
        simp only [Resolved.Expr.ty_arrange] at same typed
        exact ⟨_, .binary hl' hr' same typed, hq⟩
  · intro ⟨r, h, hq⟩
    cases h with
    | @binary _ _ _ l r _ _ hl hr same typed =>
        have hl' := (hleft _).mpr ⟨l, hl, rfl⟩
        have hr' := (hright _).mpr ⟨r, hr, rfl⟩
        exact ⟨_, .binary hl' hr' (by simpa) (by simpa), hq⟩

theorem Expr.arranges_subscript {items index : Expr} (hitems : items.Arranges π Γ (.part 0 :: here))
    (hindex : index.Arranges π Γ (.part 1 :: here)) :
    (Expr.subscript items index span).Arranges π Γ here := by
  intro q
  rw [Expr.arrange]
  constructor
  · intro h
    cases h with
    | subscript hl hi isList isInt =>
        obtain ⟨l, hl', rfl⟩ := (hitems _).mp hl
        obtain ⟨i, hi', rfl⟩ := (hindex _).mp hi
        rw [Resolved.Expr.ty_arrange] at isList isInt
        exact ⟨_, .subscript hl' hi' isList isInt, rfl⟩
  · intro ⟨r, h, hq⟩
    subst hq
    cases h with
    | @subscript _ _ l i _ _ hl hi isList isInt =>
        have hl' := (hitems _).mpr ⟨l, hl, rfl⟩
        have hi' := (hindex _).mpr ⟨i, hi, rfl⟩
        exact .subscript hl' hi' (by simpa) (by simpa)

theorem Expr.arranges_list {elements : List Expr}
    (helements : Expr.ArrangesAll π Γ here 0 elements) :
    (Expr.list elements span).Arranges π Γ here := by
  intro q
  rw [Expr.arrange, Expr.elaborates_shuffle]
  constructor
  · intro ⟨r, h, hq⟩
    cases h with
    | list hrs nonempty same =>
        obtain ⟨rs, hrs', rfl⟩ := (helements _).mp hrs
        rw [Resolved.Expr.forall_ty_arrangeAll] at same
        rw [ne_eq, Resolved.Expr.arrangeAll_eq_nil] at nonempty
        exact ⟨_, .list hrs' nonempty same, hq⟩
  · intro ⟨r, h, hq⟩
    cases h with
    | @list _ rs _ _ hrs nonempty same =>
        have hrs' := (helements _).mpr ⟨rs, hrs, rfl⟩
        rw [← Resolved.Expr.forall_ty_arrangeAll π here] at same
        rw [ne_eq, ← Resolved.Expr.arrangeAll_eq_nil π here] at nonempty
        exact ⟨_, .list hrs' nonempty same, hq⟩

theorem Expr.arranges_call {callee : Expr} {arguments : List Expr}
    (hcallee : callee.Arranges π Γ (.part 0 :: here))
    (harguments : Expr.ArrangesAll π Γ here 1 arguments) :
    (Expr.call callee arguments span).Arranges π Γ here := by
  intro q
  rw [Expr.arrange]
  constructor
  · intro h
    cases h with
    | call hf hrs isFunction assignable =>
        obtain ⟨f, hf', rfl⟩ := (hcallee _).mp hf
        obtain ⟨rs, hrs', rfl⟩ := (harguments _).mp hrs
        rw [Resolved.Expr.ty_arrange] at isFunction
        rw [Resolved.Expr.forall₂_ty_arrangeAll] at assignable
        exact ⟨_, .call hf' hrs' isFunction assignable, rfl⟩
  · intro ⟨r, h, hq⟩
    subst hq
    cases h with
    | @call _ _ f rs _ _ _ hf hrs isFunction assignable =>
        have hf' := (hcallee _).mpr ⟨f, hf, rfl⟩
        have hrs' := (harguments _).mpr ⟨rs, hrs, rfl⟩
        rw [← Resolved.Expr.forall₂_ty_arrangeAll π here] at assignable
        exact .call hf' hrs' (by simpa) assignable

end

mutual

/-- **An arrangement commutes with the resolution of expressions.** -/
theorem Expr.elaborates_arrange (here : Place) : ∀ (e : Expr) (q : Resolved.Expr),
    (e.arrange π here).Elaborates Γ q ↔ ∃ r, e.Elaborates Γ r ∧ q = r.arrange π here
  | .int _ _, q | .float _ _, q | .bool _ _, q | .str _ _, q | .name _ _, q
  | .emptyList _ _, q => by
      refine Expr.elaborates_of_fixed fun r hr => ?_
      cases hr
      rfl
  | .conditional test consequent alternate span, q =>
      Expr.arranges_conditional (test.elaborates_arrange _) (consequent.elaborates_arrange _)
        (alternate.elaborates_arrange _) q
  | .logical op operands span, q =>
      Expr.arranges_logical (Expr.elaborates_arrangeAll here 0 operands) q
  | .binary op left right span, q =>
      Expr.arranges_binary (left.elaborates_arrange _) (right.elaborates_arrange _) q
  | .unary op operand span, q => by
      rw [Expr.arrange]
      constructor
      · intro h
        cases h with
        | unary hr typed =>
            obtain ⟨r, hr', rfl⟩ := (operand.elaborates_arrange _ _).mp hr
            rw [Resolved.Expr.ty_arrange] at typed
            exact ⟨_, .unary hr' typed, rfl⟩
      · intro ⟨r, h, hq⟩
        subst hq
        cases h with
        | @unary _ _ r _ _ hr typed =>
            have hr' := (operand.elaborates_arrange (.part 0 :: here) _).mpr ⟨r, hr, rfl⟩
            exact .unary hr' (by simpa)
  | .subscript items index span, q =>
      Expr.arranges_subscript (items.elaborates_arrange _) (index.elaborates_arrange _) q
  | .list elements span, q =>
      Expr.arranges_list (Expr.elaborates_arrangeAll here 0 elements) q
  | .call callee arguments span, q =>
      Expr.arranges_call (callee.elaborates_arrange _)
        (Expr.elaborates_arrangeAll here 1 arguments) q

theorem Expr.elaborates_arrangeAll (here : Place) (i : Nat) :
    ∀ (es : List Expr) (qs : List Resolved.Expr),
      List.Forall₂ (Expr.Elaborates Γ) (Expr.arrangeAll π here i es) qs ↔
        ∃ rs, List.Forall₂ (Expr.Elaborates Γ) es rs ∧ qs = Resolved.Expr.arrangeAll π here i rs
  | [], qs => by
      rw [Expr.arrangeAll, List.forall₂_nil_left_iff]
      constructor
      · intro hqs
        exact ⟨[], .nil, hqs⟩
      · intro ⟨rs, hrs, hqs⟩
        cases hrs
        exact hqs
  | e :: es, qs => by
      rw [Expr.arrangeAll, List.forall₂_cons_left_iff]
      constructor
      · intro ⟨q, qs', hq, hqs', hqs⟩
        obtain ⟨r, hr, rfl⟩ := (e.elaborates_arrange (.part i :: here) q).mp hq
        obtain ⟨rs, hrs, rfl⟩ := (Expr.elaborates_arrangeAll here (i + 1) es qs').mp hqs'
        exact ⟨r :: rs, .cons hr hrs, hqs⟩
      · intro ⟨rs, hrs, hqs⟩
        cases hrs with
        | @cons _ r _ rs hr hrs =>
            have hr' := (e.elaborates_arrange (.part i :: here) _).mpr ⟨r, hr, rfl⟩
            have hrs' := (Expr.elaborates_arrangeAll here (i + 1) es _).mpr ⟨rs, hrs, rfl⟩
            exact ⟨_, _, hr', hrs', hqs⟩

end

theorem Expr.Elaborates.arrange {e : Expr} {r : Resolved.Expr} (h : e.Elaborates Γ r)
    (π : Arrangement) (here : Place) : (e.arrange π here).Elaborates Γ (r.arrange π here) :=
  (e.elaborates_arrange here _).mpr ⟨r, h, rfl⟩

end

end Sema
