import Sema.Check.Expr
import Sema.Check.Stmt
import Sema.Proofs.Elaboration

/-!
# The tests of the checks and the premises of the rules

Each test that a check makes holds exactly when the premise of the judgement does. The open scopes
read as an environment, frame by frame (`Scopes.env`); a name is resolved to what it denotes there
(`Scopes.result_resolve_eq_ok`). Opening a scope and declaring in it are the same in the environment
by definition.
-/

namespace Sema

/-! ## 1. Scopes as environments -/

/-- A frame as a layer: the newest binding of a name counts. -/
def Frame.layer (f : Frame) : Layer :=
  ⟨f.bindings.foldr (fun b names => names.insert b.1 b.2) ∅, f.inLoop, f.function⟩

theorem Frame.lookup_layer (f : Frame) (x : String) : f.layer.names.lookup x = f.find? x := by
  obtain ⟨bindings, inLoop, function⟩ := f
  show (bindings.foldr _ ∅ : Finmap fun _ : String => Entity).lookup x = bindings.lookup x
  induction bindings with
  | nil => rfl
  | cons b bindings ih =>
      obtain ⟨y, e⟩ := b
      by_cases hxy : x = y
      · subst hxy
        simp
      · have hb : (x == y) = false := by simpa using hxy
        simpa [Finmap.lookup_insert_of_ne _ hxy, List.lookup_cons, hb] using ih

/-- The open scopes as an environment. -/
def Scopes.env (s : Scopes) : Env := ⟨s.inner.layer, s.outer.map Frame.layer⟩

namespace Scopes

theorem lookup_env (s : Scopes) (x : String) : s.env.lookup x = s.lookup? x := by
  have hfind : ∀ fs : List Frame, (fs.map Frame.layer).findSome? (fun l => l.names.lookup x) =
      (locateIn x fs).map Prod.snd := by
    intro fs
    induction fs with
    | nil => rfl
    | cons f fs ih =>
        rw [List.map_cons, List.findSome?_cons, f.lookup_layer, locateIn]
        cases f.find? x with
        | none => exact ih
        | some e => rfl
  exact hfind s.frames

theorem free_env (s : Scopes) (x : String) : s.env.Free x ↔ s.inner.declares x = false := by
  rw [Env.Free, Frame.declares]
  show s.inner.layer.names.lookup x = none ↔ _
  rw [s.inner.lookup_layer]
  simp

end Scopes

/-! ## 2. Tests -/

namespace Traced

variable {α β : Type}

theorem result_bind_eq_ok {x : Traced α} {f : α → Traced β} {b : β} :
    (x >>= f).result = .ok b ↔ ∃ a, x.result = .ok a ∧ (f a).result = .ok b := by
  rw [result_bind]
  cases x.result with
  | error d =>
      constructor
      · intro h
        cases h
      · rintro ⟨a, h, _⟩
        cases h
  | ok a =>
      constructor
      · intro h
        exact ⟨a, rfl, h⟩
      · rintro ⟨a', h, h'⟩
        cases h
        exact h'

theorem result_pure_eq_ok {a b : α} : (pure a : Traced α).result = .ok b ↔ b = a := by
  rw [result_pure, Except.ok.injEq, eq_comm]

theorem result_require_eq_ok {holds : Bool} {p : Problem} {span : Span} {u : Unit} :
    (require holds p span).result = .ok u ↔ holds = true := by
  cases holds with
  | true => exact ⟨fun _ => rfl, fun _ => rfl⟩
  | false => exact ⟨nofun, nofun⟩

theorem result_expectBool_eq_ok {found : Ty} {span : Span} {u : Unit} :
    (expectBool found span).result = .ok u ↔ found = .bool :=
  result_require_eq_ok.trans beq_iff_eq

theorem result_expectInteger_eq_ok {found : Ty} {span : Span} {u : Unit} :
    (expectInteger found span).result = .ok u ↔ found = .int :=
  result_require_eq_ok.trans beq_iff_eq

theorem result_expectNumber_eq_ok {found : Ty} {span : Span} {u : Unit} :
    (expectNumber found span).result = .ok u ↔ found = .int ∨ found = .float := by
  refine result_require_eq_ok.trans ?_
  cases found <;> simp [Ty.isNumeric]

theorem isNumericOrString_iff {t : Ty} :
    t.isNumericOrString = true ↔ t = .int ∨ t = .float ∨ t = .str := by
  cases t <;> simp [Ty.isNumericOrString]

theorem result_expectList_eq_ok {found t : Ty} {span : Span} :
    (expectList found span).result = .ok t ↔ found = .list t := by
  cases found <;> simp [expectList, Ty.element?]

theorem result_expectCallable_eq_ok {found : Ty} {span : Span} {s : Signature} :
    (expectCallable found span).result = .ok s ↔ found = .function s.parameters s.result := by
  obtain ⟨ps, r⟩ := s
  cases found <;> simp [expectCallable, Ty.signature?]

theorem result_expectSame_eq_ok {left right : Ty} {span : Span} {u : Unit} :
    (expectSame left right span).result = .ok u ↔ left = right :=
  result_require_eq_ok.trans (Ty.same_iff_eq left right)

theorem result_expectAssignable_eq_ok {source target : Ty} {span : Span} {u : Unit} :
    (expectAssignable source target span).result = .ok u ↔ Ty.Assignable source target :=
  result_require_eq_ok.trans (Ty.fits_iff_assignable source target)

/-- Arguments are accepted when there are as many as parameters and each is assignable. -/
theorem result_expectArguments_eq_ok {arguments parameters : List Ty} {span : Span} {u : Unit} :
    (expectArguments arguments parameters span).result = .ok u ↔
      List.Forall₂ Ty.Assignable arguments parameters := by
  have hfitting : ∀ as ps : List Ty, as.length = ps.length →
      ((expectFitting span as ps).result = .ok u ↔ List.Forall₂ Ty.Assignable as ps) := by
    intro as
    induction as with
    | nil =>
        intro ps hlen
        cases ps with
        | nil => exact ⟨fun _ => .nil, fun _ => rfl⟩
        | cons p ps => cases hlen
    | cons a as ih =>
        intro ps hlen
        cases ps with
        | nil => cases hlen
        | cons p ps =>
            rw [expectFitting, result_bind_eq_ok, List.forall₂_cons, ← ih ps (Nat.succ.inj hlen)]
            simp only [result_expectAssignable_eq_ok, exists_and_left, exists_const]
  rw [expectArguments, result_bind_eq_ok]
  simp only [result_require_eq_ok, beq_iff_eq]
  constructor
  · rintro ⟨_, hlen, h⟩
    exact (hfitting _ _ hlen).mp h
  · intro h
    exact ⟨(), h.length_eq, (hfitting _ _ h.length_eq).mpr h⟩

/-- Elements are uniform when there is one and all have its type. -/
theorem result_expectUniform_eq_ok {elements : List Ty} {span : Span} {t : Ty} :
    (expectUniform elements span).result = .ok t ↔ elements ≠ [] ∧ ∀ e ∈ elements, e = t := by
  cases elements with
  | nil => simp [expectUniform]
  | cons first rest =>
      rw [expectUniform, result_bind_eq_ok]
      simp only [result_require_eq_ok, List.all_eq_true, Ty.same_iff_eq, result_pure_eq_ok,
        List.forall_mem_cons, ne_eq, reduceCtorEq, not_false_eq_true, true_and, exists_const]
      constructor
      · rintro ⟨h, rfl⟩
        exact ⟨rfl, h⟩
      · rintro ⟨rfl, h⟩
        exact ⟨h, rfl⟩

theorem result_expectVariable_eq_ok {target : Resolved.Expr} {span : Span} {u : Unit} :
    (expectVariable target span).result = .ok u ↔ target.Countable := by
  obtain ⟨form, ty⟩ := target
  cases form with
  | entity e =>
      cases e with
      | var v => exact ⟨fun _ => .var, fun _ => rfl⟩
      | param p => exact ⟨fun _ => .param, fun _ => rfl⟩
      | _ => exact ⟨nofun, nofun⟩
  | subscript l i => exact ⟨fun _ => .element, fun _ => rfl⟩
  | _ => exact ⟨nofun, nofun⟩

theorem result_expectWritable_eq_ok {target : Resolved.Expr} {span : Span} {u : Unit} :
    (expectWritable target span).result = .ok u ↔ target.Writable := by
  obtain ⟨form, ty⟩ := target
  cases form with
  | entity e =>
      refine result_require_eq_ok.trans ?_
      cases e with
      | var v => simp [Entity.isReadOnly, Resolved.Expr.Writable, Resolved.Expr.form]
      | _ => simp [Entity.isReadOnly, Resolved.Expr.Writable, Resolved.Expr.form]
  | _ =>
      constructor
      · intro _ v hv
        cases hv
      · exact fun _ => rfl

end Traced

open Traced

/-- A name is resolved to what it denotes in the environment. -/
theorem Scopes.result_resolve_eq_ok {Γ : Scopes} {x : String} {span : Span} {e : Entity} :
    (Γ.resolve x span).result = .ok e ↔ Γ.env.lookup x = some e := by
  rw [Γ.lookup_env, Scopes.lookup?, Scopes.resolve]
  cases Γ.locate? x with
  | none => simp
  | some found => simp

/-- Operands are accepted when each is a truth value. -/
theorem result_expectBools_eq_ok {u : Unit} : ∀ (rs : List Resolved.Expr) (es : List Expr),
    rs.length = es.length →
      ((expectBools rs es).result = .ok u ↔ ∀ r ∈ rs, r.ty = .bool)
  | [], [], _ => by simp [expectBools]
  | [], _ :: _, h => by cases h
  | _ :: _, [], h => by cases h
  | r :: rs, e :: es, h => by
      rw [expectBools, result_bind_eq_ok, List.forall_mem_cons,
        ← result_expectBools_eq_ok (u := u) rs es (Nat.succ.inj h)]
      simp only [result_expectBool_eq_ok, exists_and_left, exists_const]

/-- The types that an operand of a class may have. -/
def OperandClass.Admits : OperandClass → Ty → Prop
  | .number, t => t = .int ∨ t = .float
  | .numberOrString, t => t = .int ∨ t = .float ∨ t = .str
  | .anything, _ => True

theorem result_expectOperand_eq_ok {found : Ty} {span : Span} {c : OperandClass} {u : Unit} :
    (expectOperand found span c).result = .ok u ↔ c.Admits found := by
  cases c with
  | number => exact result_expectNumber_eq_ok
  | numberOrString => exact result_require_eq_ok.trans isNumericOrString_iff
  | anything => exact ⟨fun _ => trivial, fun _ => rfl⟩

/-- The four rules of binary operators, by the class of the operands and the kind of the result. -/
theorem BinaryOp.typed_iff {op : BinaryOp} {t ty : Ty} :
    op.Typed t ty ↔ op.operands.Admits t ∧ ty = if op.yieldsBool then .bool else t := by
  constructor
  · intro h
    cases h with
    | add ht => exact ⟨ht, rfl⟩
    | arithmetic hop ht =>
        simp only [List.mem_cons, List.not_mem_nil, or_false] at hop
        rcases hop with rfl | rfl | rfl | rfl | rfl <;> exact ⟨ht, rfl⟩
    | comparison hop ht =>
        simp only [List.mem_cons, List.not_mem_nil, or_false] at hop
        rcases hop with rfl | rfl | rfl | rfl <;> exact ⟨ht, rfl⟩
    | equality hop =>
        simp only [List.mem_cons, List.not_mem_nil, or_false] at hop
        rcases hop with rfl | rfl <;> exact ⟨trivial, rfl⟩
  · rintro ⟨ht, rfl⟩
    cases op with
    | add => exact .add ht
    | subtract | multiply | divide | modulo | power => exact .arithmetic (by decide) ht
    | less | lessEqual | greater | greaterEqual => exact .comparison (by decide) ht
    | equal | notEqual => exact .equality (by decide)

theorem BinaryOp.result_check_eq_ok {op : BinaryOp} {left right ty : Ty} {span : Span} :
    (op.check left right span).result = .ok ty ↔ left = right ∧ op.Typed left ty := by
  rw [BinaryOp.check, BinaryOp.typed_iff]
  simp only [result_bind_eq_ok, result_expectOperand_eq_ok, result_expectSame_eq_ok,
    result_pure_eq_ok, exists_and_left, exists_const]
  exact and_left_comm

theorem UnaryOp.result_check_eq_ok {op : UnaryOp} {operand ty : Ty} {span : Span} :
    (op.check operand span).result = .ok ty ↔ op.Typed operand ty := by
  cases op with
  | negate =>
      rw [UnaryOp.check]
      simp only [result_bind_eq_ok, result_expectNumber_eq_ok, result_pure_eq_ok, exists_and_left,
        exists_const]
      constructor
      · rintro ⟨ht, rfl⟩
        exact .negate ht
      · intro h
        cases h with
        | negate ht => exact ⟨ht, rfl⟩
  | not =>
      rw [UnaryOp.check]
      simp only [result_bind_eq_ok, result_expectBool_eq_ok, result_pure_eq_ok, exists_and_left,
        exists_const]
      constructor
      · rintro ⟨rfl, rfl⟩
        exact .not
      · rintro ⟨⟩
        exact ⟨rfl, rfl⟩

end Sema
