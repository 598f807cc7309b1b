import Sema.Proofs.Run

/-!
# What checks of expressions report

Checking an expression or a written type only reads the scopes, so it cannot close one too many.
Whatever it reports points into the program: the diagnostic has a place and is a rule of the
language, never a fault of the scopes (`Expr.points_check`, `TypeExpr.points_resolve`).
-/

namespace Sema

/-- A diagnostic that points into the program: it has a place, and it is no fault. -/
def Diagnostic.Points (d : Diagnostic) : Prop :=
  (∃ span, d.span = some span) ∧ ∀ reason, d.problem ≠ .fault reason

namespace Traced

variable {α β : Type}

/-- Whatever is reported points into the program. -/
def Points (x : Traced α) : Prop := ∀ d, x.result = .error d → d.Points

/-! ## 1. Steps -/

theorem points_pure (a : α) : (pure a : Traced α).Points := by
  intro d h
  cases h

theorem points_bind {x : Traced α} {f : α → Traced β} (hx : x.Points) (hf : ∀ a, (f a).Points) :
    (x >>= f).Points := by
  intro d h
  rw [result_bind] at h
  cases hr : x.result with
  | error e =>
      rw [hr] at h
      cases h
      exact hx d hr
  | ok a =>
      rw [hr] at h
      exact hf a d h

theorem points_fail {p : Problem} (span : Span) (h : ∀ reason, p ≠ .fault reason) :
    (fail p span : Traced α).Points := by
  intro d hd
  cases hd
  exact ⟨⟨span, rfl⟩, h⟩

theorem points_require {holds : Bool} {p : Problem} (span : Span)
    (h : ∀ reason, p ≠ .fault reason) : (require holds p span).Points := by
  cases holds with
  | true => exact points_pure ()
  | false => exact points_fail span h

/-! ## 2. Rules -/

theorem points_expectBool (found : Ty) (span : Span) : (expectBool found span).Points :=
  points_require span nofun

theorem points_expectInteger (found : Ty) (span : Span) : (expectInteger found span).Points :=
  points_require span nofun

theorem points_expectNumber (found : Ty) (span : Span) : (expectNumber found span).Points :=
  points_require span nofun

theorem points_expectOperand (found : Ty) (span : Span) (c : OperandClass) :
    (expectOperand found span c).Points := by
  cases c with
  | number => exact points_expectNumber found span
  | numberOrString => exact points_require span nofun
  | anything => exact points_pure ()

theorem points_expectList (found : Ty) (span : Span) : (expectList found span).Points := by
  unfold expectList
  split
  · exact points_pure _
  · exact points_fail span nofun

theorem points_expectCallable (found : Ty) (span : Span) : (expectCallable found span).Points := by
  unfold expectCallable
  split
  · exact points_pure _
  · exact points_fail span nofun

theorem points_expectSame (left right : Ty) (span : Span) : (expectSame left right span).Points :=
  points_require span nofun

theorem points_expectAssignable (source target : Ty) (span : Span) :
    (expectAssignable source target span).Points :=
  points_require span nofun

theorem points_expectFitting (span : Span) :
    ∀ arguments parameters : List Ty, (expectFitting span arguments parameters).Points
  | [], _ => points_pure ()
  | _ :: _, [] => points_pure ()
  | a :: arguments, p :: parameters =>
      points_bind (points_expectAssignable a p span) fun _ =>
        points_expectFitting span arguments parameters

theorem points_expectArguments (arguments parameters : List Ty) (span : Span) :
    (expectArguments arguments parameters span).Points :=
  points_bind (points_require span nofun) fun _ => points_expectFitting span arguments parameters

theorem points_expectUniform (elements : List Ty) (span : Span) :
    (expectUniform elements span).Points := by
  cases elements with
  | nil => exact points_fail span nofun
  | cons first rest => exact points_bind (points_require span nofun) fun _ => points_pure _

theorem points_expectVariable (target : Resolved.Expr) (span : Span) :
    (expectVariable target span).Points := by
  unfold expectVariable
  split
  · exact points_pure ()
  · exact points_pure ()
  · exact points_pure ()
  · exact points_fail span nofun

theorem points_expectWritable (target : Resolved.Expr) (span : Span) :
    (expectWritable target span).Points := by
  unfold expectWritable
  split
  · exact points_require span nofun
  · exact points_pure ()

end Traced

open Traced

/-! ## 3. Written types and expressions -/

theorem Scopes.points_resolve (Γ : Scopes) (name : String) (span : Span) :
    (Γ.resolve name span).Points := by
  unfold Scopes.resolve
  split
  · exact points_pure _
  · exact points_fail span nofun

mutual

theorem TypeExpr.points_resolve (Γ : Scopes) : ∀ t : TypeExpr, (t.resolve Γ).Points
  | .named x span => by
      rw [TypeExpr.resolve]
      refine points_bind (Γ.points_resolve x span) fun e => ?_
      cases e with
      | type t => exact points_pure t
      | _ => exact points_fail span nofun
  | .list element _ => by
      rw [TypeExpr.resolve]
      exact points_bind (element.points_resolve Γ) fun _ => points_pure _
  | .function parameters result _ => by
      rw [TypeExpr.resolve]
      exact points_bind (TypeExpr.points_resolveAll Γ parameters) fun _ =>
        points_bind (result.points_resolve Γ) fun _ => points_pure _

theorem TypeExpr.points_resolveAll (Γ : Scopes) :
    ∀ ts : List TypeExpr, (TypeExpr.resolveAll Γ ts).Points
  | [] => points_pure _
  | t :: ts => by
      rw [TypeExpr.resolveAll]
      exact points_bind (t.points_resolve Γ) fun _ =>
        points_bind (TypeExpr.points_resolveAll Γ ts) fun _ => points_pure _

end

theorem points_expectBools : ∀ (rs : List Resolved.Expr) (es : List Expr),
    (expectBools rs es).Points
  | [], _ => points_pure ()
  | _ :: _, [] => points_pure ()
  | r :: rs, e :: es =>
      points_bind (points_expectBool r.ty e.span) fun _ => points_expectBools rs es

theorem BinaryOp.points_check (op : BinaryOp) (left right : Ty) (span : Span) :
    (op.check left right span).Points :=
  points_bind (points_expectOperand left span op.operands) fun _ =>
    points_bind (points_expectSame left right span) fun _ => points_pure _

theorem UnaryOp.points_check (op : UnaryOp) (operand : Ty) (span : Span) :
    (op.check operand span).Points := by
  cases op with
  | negate => exact points_bind (points_expectNumber operand span) fun _ => points_pure _
  | not => exact points_bind (points_expectBool operand span) fun _ => points_pure _

mutual

/-- **What the check of an expression reports points into the program.** -/
theorem Expr.points_check (Γ : Scopes) : ∀ e : Expr, (e.check Γ).Points
  | .int _ _ | .float _ _ | .bool _ _ | .str _ _ => by
      rw [Expr.check]
      exact points_pure _
  | .name x span => by
      rw [Expr.check]
      exact points_bind (Γ.points_resolve x span) fun _ => points_pure _
  | .conditional test consequent alternate span => by
      rw [Expr.check]
      exact points_bind (test.points_check Γ) fun t =>
        points_bind (points_expectBool t.ty test.span) fun _ =>
        points_bind (consequent.points_check Γ) fun c =>
        points_bind (alternate.points_check Γ) fun a =>
        points_bind (points_expectSame c.ty a.ty span) fun _ => points_pure _
  | .logical op operands _ => by
      rw [Expr.check]
      exact points_bind (Expr.points_checkAll Γ operands) fun rs =>
        points_bind (points_expectBools rs operands) fun _ => points_pure _
  | .binary op left right span => by
      rw [Expr.check]
      exact points_bind (left.points_check Γ) fun l =>
        points_bind (right.points_check Γ) fun r =>
        points_bind (op.points_check l.ty r.ty span) fun _ => points_pure _
  | .unary op operand span => by
      rw [Expr.check]
      exact points_bind (operand.points_check Γ) fun e =>
        points_bind (op.points_check e.ty span) fun _ => points_pure _
  | .subscript items index _ => by
      rw [Expr.check]
      exact points_bind (items.points_check Γ) fun l =>
        points_bind (points_expectList l.ty items.span) fun _ =>
        points_bind (index.points_check Γ) fun i =>
        points_bind (points_expectInteger i.ty index.span) fun _ => points_pure _
  | .list elements span => by
      rw [Expr.check]
      exact points_bind (Expr.points_checkAll Γ elements) fun rs =>
        points_bind (points_expectUniform _ span) fun _ => points_pure _
  | .emptyList element _ => by
      rw [Expr.check]
      exact points_bind (element.points_resolve Γ) fun _ => points_pure _
  | .call callee arguments span => by
      rw [Expr.check]
      exact points_bind (callee.points_check Γ) fun f =>
        points_bind (points_expectCallable f.ty span) fun signature =>
        points_bind (Expr.points_checkAll Γ arguments) fun _ =>
        points_bind (points_expectArguments _ signature.parameters span) fun _ => points_pure _

theorem Expr.points_checkAll (Γ : Scopes) : ∀ es : List Expr, (Expr.checkAll Γ es).Points
  | [] => points_pure _
  | e :: es => by
      rw [Expr.checkAll]
      exact points_bind (e.points_check Γ) fun _ =>
        points_bind (Expr.points_checkAll Γ es) fun _ => points_pure _

end

end Sema
