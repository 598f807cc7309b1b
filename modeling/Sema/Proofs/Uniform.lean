import Sema.Proofs.Relabel
import Sema.Proofs.Run

/-!
# Checks do not look into labels

A check compares names and carries spans, and does nothing else with them. So a check of relabelled
syntax on relabelled scopes is the check relabelled: it comes to the relabelled value or to the
relabelled diagnostic, leaves the relabelled scopes and records the relabelled events. Names may be
replaced by any injective function, and spans by any function at all.

* Expressions and written types (`Expr.check_relabel`), then statements (`Stmt.relabels_checkAll`),
  each by the steps that its check is made of.
* A whole analysis (`analyze_relabel`) and a session of programs (`Session.outcomes_relabel`).
-/

namespace Sema

variable {r : String → String} {f : Span → Span}

/-! ## 1. Computations that read the scopes -/

namespace Traced

variable {α β γ δ : Type} {g : α → β} {h : γ → δ}

/-- **Step by step.** -/
theorem relabel_bind {x : Traced α} {y : Traced β} {k : α → Traced γ} {l : β → Traced δ}
    (hx : y = x.relabel r f g) (hk : ∀ a, l (g a) = (k a).relabel r f h) :
    (y >>= l) = (x >>= k).relabel r f h := by
  subst hx
  show andThen (x.relabel r f g) l = (andThen x k).relabel r f h
  unfold andThen relabel
  cases x.result with
  | error d => rfl
  | ok a =>
      show (⟨(l (g a)).result, x.log.map (Event.relabel r f) ++ (l (g a)).log⟩ : Traced δ) =
        ⟨relabelResult r f h (k a).result, (x.log ++ (k a).log).map (Event.relabel r f)⟩
      rw [hk, List.map_append]
      rfl

/-- A last step that builds the value. -/
theorem relabel_bind_pure {x : Traced α} {y : Traced β} {k : α → γ} {l : β → δ}
    (hx : y = x.relabel r f g) (hk : ∀ a, l (g a) = h (k a)) :
    (y >>= fun b => pure (l b)) = (x >>= fun a => pure (k a)).relabel r f h := by
  refine relabel_bind hx fun a => ?_
  rw [hk]
  rfl

variable (r f) in
theorem relabel_require (holds : Bool) (p : Problem) (span : Span) :
    require holds (p.relabel r) (f span) = (require holds p span).relabel r f id := by
  cases holds <;> rfl

end Traced

open Traced

/-! ## 2. Rules on types -/

section

variable (r f)

theorem expectBool_relabel (t : Ty) (span : Span) :
    expectBool t (f span) = (expectBool t span).relabel r f id :=
  relabel_require r f _ (.boolExpected t) span

theorem expectInteger_relabel (t : Ty) (span : Span) :
    expectInteger t (f span) = (expectInteger t span).relabel r f id :=
  relabel_require r f _ (.integerExpected t) span

theorem expectSame_relabel (t u : Ty) (span : Span) :
    expectSame t u (f span) = (expectSame t u span).relabel r f id :=
  relabel_require r f _ .operandsDiffer span

theorem expectAssignable_relabel (t u : Ty) (span : Span) :
    expectAssignable t u (f span) = (expectAssignable t u span).relabel r f id :=
  relabel_require r f _ (.notAssignable t u) span

theorem expectList_relabel (t : Ty) (span : Span) :
    expectList t (f span) = (expectList t span).relabel r f id := by
  unfold expectList
  cases t.element? <;> rfl

theorem expectCallable_relabel (t : Ty) (span : Span) :
    expectCallable t (f span) = (expectCallable t span).relabel r f id := by
  unfold expectCallable
  cases t.signature? <;> rfl

theorem expectFitting_relabel (span : Span) : ∀ ts us : List Ty,
    expectFitting (f span) ts us = (expectFitting span ts us).relabel r f id
  | [], _ | _ :: _, [] => rfl
  | t :: ts, u :: us =>
      relabel_bind (expectAssignable_relabel r f t u span) fun _ => expectFitting_relabel span ts us

theorem expectArguments_relabel (ts us : List Ty) (span : Span) :
    expectArguments ts us (f span) = (expectArguments ts us span).relabel r f id :=
  relabel_bind (relabel_require r f _ (.wrongArity us.length ts.length) span) fun _ =>
    expectFitting_relabel r f span ts us

theorem expectUniform_relabel (ts : List Ty) (span : Span) :
    expectUniform ts (f span) = (expectUniform ts span).relabel r f id := by
  cases ts with
  | nil => rfl
  | cons t ts => exact relabel_bind_pure (relabel_require r f _ .elementsDiffer span) fun _ => rfl

theorem expectVariable_relabel (e : Resolved.Expr) (span : Span) :
    expectVariable (e.relabel r) (f span) = (expectVariable e span).relabel r f id := by
  obtain ⟨form, ty⟩ := e
  cases form with
  | entity e => cases e <;> rfl
  | _ => rfl

/-- A constant is reported under its own name, which is relabelled with it. -/
theorem expectWritable_relabel (e : Resolved.Expr) (span : Span) :
    expectWritable (e.relabel r) (f span) = (expectWritable e span).relabel r f id := by
  unfold expectWritable
  rw [Resolved.Expr.entity?_relabel]
  cases e.entity? with
  | none => rfl
  | some e =>
      cases e with
      | var v => exact relabel_require r f _ (.constantTarget v.name) span
      | _ => rfl

theorem BinaryOp.check_relabel (op : BinaryOp) (t u : Ty) (span : Span) :
    op.check t u (f span) = (op.check t u span).relabel r f id := by
  have hoperand : expectOperand t (f span) op.operands =
      (expectOperand t span op.operands).relabel r f id := by
    cases op.operands with
    | number => exact relabel_require r f _ (.numberExpected t) span
    | numberOrString => exact relabel_require r f _ (.numberOrStringExpected t) span
    | anything => rfl
  exact relabel_bind hoperand fun _ =>
    relabel_bind_pure (expectSame_relabel r f t u span) fun _ => rfl

theorem UnaryOp.check_relabel (op : UnaryOp) (t : Ty) (span : Span) :
    op.check t (f span) = (op.check t span).relabel r f id := by
  cases op with
  | negate => exact relabel_bind_pure (relabel_require r f _ (.numberExpected t) span) fun _ => rfl
  | not => exact relabel_bind_pure (expectBool_relabel r f t span) fun _ => rfl

theorem expectBools_relabel : ∀ (rs : List Resolved.Expr) (es : List Expr),
    expectBools (Resolved.Expr.relabelAll r rs) (Expr.relabelAll r f es) =
      (expectBools rs es).relabel r f id
  | [], _ | _ :: _, [] => rfl
  | t :: ts, e :: es => by
      rw [Resolved.Expr.relabelAll, Expr.relabelAll, expectBools, expectBools,
        Resolved.Expr.ty_relabel, Expr.span_relabel]
      exact relabel_bind (expectBool_relabel r f t.ty e.span) fun _ => expectBools_relabel ts es

end

/-! ## 3. Names, written types and expressions -/

/-- **A name is found where it was found before.** -/
theorem Scopes.resolve_relabel (hr : r.Injective) (Γ : Scopes) (x : String) (span : Span) :
    (Γ.relabel r).resolve (r x) (f span) = (Γ.resolve x span).relabel r f (Entity.relabel r) := by
  have hlocate : (Γ.relabel r).locate? (r x) =
      (Γ.locate? x).map fun found => (found.1, found.2.relabel r) :=
    Scopes.locateIn_transform hr x Γ.frames
  unfold Scopes.resolve
  rw [hlocate]
  cases Γ.locate? x <;> rfl

mutual

theorem TypeExpr.resolve_relabel (hr : r.Injective) (Γ : Scopes) : ∀ t : TypeExpr,
    (t.relabel r f).resolve (Γ.relabel r) = (t.resolve Γ).relabel r f id
  | .named x span => by
      rw [TypeExpr.relabel, TypeExpr.resolve, TypeExpr.resolve]
      refine relabel_bind (Scopes.resolve_relabel hr Γ x span) fun e => ?_
      cases e <;> rfl
  | .list element _ => by
      rw [TypeExpr.relabel, TypeExpr.resolve, TypeExpr.resolve]
      exact relabel_bind_pure (element.resolve_relabel hr Γ) fun _ => rfl
  | .function parameters result _ => by
      rw [TypeExpr.relabel, TypeExpr.resolve, TypeExpr.resolve]
      exact relabel_bind (TypeExpr.resolveAll_relabel hr Γ parameters) fun _ =>
        relabel_bind_pure (result.resolve_relabel hr Γ) fun _ => rfl

theorem TypeExpr.resolveAll_relabel (hr : r.Injective) (Γ : Scopes) : ∀ ts : List TypeExpr,
    TypeExpr.resolveAll (Γ.relabel r) (TypeExpr.relabelAll r f ts) =
      (TypeExpr.resolveAll Γ ts).relabel r f id
  | [] => rfl
  | t :: ts => by
      rw [TypeExpr.relabelAll, TypeExpr.resolveAll, TypeExpr.resolveAll]
      exact relabel_bind (t.resolve_relabel hr Γ) fun _ =>
        relabel_bind_pure (TypeExpr.resolveAll_relabel hr Γ ts) fun _ => rfl

end

mutual

/-- **An expression is checked to what it was checked to, relabelled.** -/
theorem Expr.check_relabel (hr : r.Injective) (Γ : Scopes) : ∀ e : Expr,
    (e.relabel r f).check (Γ.relabel r) = (e.check Γ).relabel r f (Resolved.Expr.relabel r)
  | .int _ _ | .float _ _ | .bool _ _ | .str _ _ => rfl
  | .name x span => by
      rw [Expr.relabel, Expr.check, Expr.check]
      refine relabel_bind_pure (Scopes.resolve_relabel hr Γ x span) fun e => ?_
      rw [e.ty_relabel]
      rfl
  | .conditional test consequent alternate span => by
      rw [Expr.relabel, Expr.check, Expr.check, test.span_relabel]
      refine relabel_bind (test.check_relabel hr Γ) fun t => ?_
      rw [t.ty_relabel]
      refine relabel_bind (expectBool_relabel r f t.ty test.span) fun _ => ?_
      refine relabel_bind (consequent.check_relabel hr Γ) fun c => ?_
      refine relabel_bind (alternate.check_relabel hr Γ) fun a => ?_
      rw [c.ty_relabel, a.ty_relabel]
      exact relabel_bind_pure (expectSame_relabel r f c.ty a.ty span) fun _ => rfl
  | .logical op operands span => by
      rw [Expr.relabel, Expr.check, Expr.check]
      refine relabel_bind (Expr.checkAll_relabel hr Γ operands) fun rs => ?_
      exact relabel_bind_pure (expectBools_relabel r f rs operands) fun _ => rfl
  | .binary op left right span => by
      rw [Expr.relabel, Expr.check, Expr.check]
      refine relabel_bind (left.check_relabel hr Γ) fun l => ?_
      refine relabel_bind (right.check_relabel hr Γ) fun u => ?_
      rw [l.ty_relabel, u.ty_relabel]
      exact relabel_bind_pure (op.check_relabel r f l.ty u.ty span) fun _ => rfl
  | .unary op operand span => by
      rw [Expr.relabel, Expr.check, Expr.check]
      refine relabel_bind (operand.check_relabel hr Γ) fun e => ?_
      rw [e.ty_relabel]
      exact relabel_bind_pure (op.check_relabel r f e.ty span) fun _ => rfl
  | .subscript items index span => by
      rw [Expr.relabel, Expr.check, Expr.check, items.span_relabel, index.span_relabel]
      refine relabel_bind (items.check_relabel hr Γ) fun l => ?_
      rw [l.ty_relabel]
      refine relabel_bind (expectList_relabel r f l.ty items.span) fun element => ?_
      refine relabel_bind (index.check_relabel hr Γ) fun i => ?_
      rw [i.ty_relabel]
      exact relabel_bind_pure (expectInteger_relabel r f i.ty index.span) fun _ => rfl
  | .list elements span => by
      rw [Expr.relabel, Expr.check, Expr.check]
      refine relabel_bind (Expr.checkAll_relabel hr Γ elements) fun rs => ?_
      rw [Resolved.Expr.map_ty_relabelAll]
      exact relabel_bind_pure (expectUniform_relabel r f (rs.map (·.ty)) span) fun _ => rfl
  | .emptyList element span => by
      rw [Expr.relabel, Expr.check, Expr.check]
      exact relabel_bind_pure (element.resolve_relabel hr Γ) fun _ => rfl
  | .call callee arguments span => by
      rw [Expr.relabel, Expr.check, Expr.check]
      refine relabel_bind (callee.check_relabel hr Γ) fun t => ?_
      rw [t.ty_relabel]
      refine relabel_bind (expectCallable_relabel r f t.ty span) fun signature => ?_
      refine relabel_bind (Expr.checkAll_relabel hr Γ arguments) fun rs => ?_
      rw [Resolved.Expr.map_ty_relabelAll]
      exact relabel_bind_pure
        (expectArguments_relabel r f (rs.map (·.ty)) signature.parameters span) fun _ => rfl

theorem Expr.checkAll_relabel (hr : r.Injective) (Γ : Scopes) : ∀ es : List Expr,
    Expr.checkAll (Γ.relabel r) (Expr.relabelAll r f es) =
      (Expr.checkAll Γ es).relabel r f (Resolved.Expr.relabelAll r)
  | [] => rfl
  | e :: es => by
      rw [Expr.relabelAll, Expr.checkAll, Expr.checkAll]
      exact relabel_bind (e.check_relabel hr Γ) fun _ =>
        relabel_bind_pure (Expr.checkAll_relabel hr Γ es) fun _ => rfl

end

/-! ## 4. Computations on a session -/

namespace Check

variable {α β γ δ : Type} {g : α → β} {h : γ → δ} {x : Check α} {y : Check β}

/-- The second computation does on a relabelled session what the first one does, relabelled. -/
def Relabels (r : String → String) (f : Span → Span) (g : α → β) (x : Check α) (y : Check β) :
    Prop :=
  ∀ s : Session, y.run (s.relabel r) = (x.run s).relabel r f g

theorem relabels_pure (a : α) : Relabels r f g (pure a) (pure (g a)) := fun _ => rfl

/-- **Step by step.** -/
theorem relabels_bind {k : α → Check γ} {l : β → Check δ} (hx : Relabels r f g x y)
    (hk : ∀ a, Relabels r f h (k a) (l (g a))) : Relabels r f h (x >>= k) (y >>= l) := by
  intro s
  rw [run_bind, run_bind, hx s]
  unfold Outcome.relabel
  cases (x.run s).result with
  | error d => rfl
  | ok a =>
      simp only [relabelResult]
      rw [hk a (x.run s).session, List.map_append]
      rfl

/-- A last step that builds the value. -/
theorem relabels_bind_pure {k : α → γ} {l : β → δ} (hx : Relabels r f g x y)
    (hk : ∀ a, l (g a) = h (k a)) :
    Relabels r f h (x >>= fun a => pure (k a)) (y >>= fun b => pure (l b)) := by
  refine relabels_bind hx fun a => ?_
  rw [hk]
  exact relabels_pure (k a)

theorem relabels_reading {x : Scopes → Traced α} {y : Scopes → Traced β}
    (hxy : ∀ Γ : Scopes, y (Γ.relabel r) = (x Γ).relabel r f g) :
    Relabels r f g (reading x) (reading y) := by
  intro s
  have hread : y (s.relabel r).scopes = (x s.scopes).relabel r f g := hxy s.scopes
  rw [run_reading, run_reading, hread]
  rfl

theorem relabels_scopes : Relabels r f (Scopes.relabel r) scopes scopes := fun _ => rfl

theorem relabels_record (e : Event) : Relabels r f id (record e) (record (e.relabel r f)) :=
  fun _ => rfl

theorem relabels_fresh : Relabels r f id fresh fresh := fun _ => rfl

theorem relabels_declareIn (hr : r.Injective) (i : Nat) (name : String) (e : Entity)
    (span : Option Span) :
    Relabels r f id (declareIn i name e span)
      (declareIn i (r name) (e.relabel r) (span.map f)) := by
  intro s
  have hdefine : (s.relabel r).scopes.defineIn i (r name) (e.relabel r) =
      ((s.scopes.defineIn i name e).map (Scopes.relabel r)).mapError (ScopeError.relabel r) :=
    Scopes.defineIn_transform hr s.scopes i name e
  show declareIn i (r name) (e.relabel r) (span.map f) (s.relabel r) =
    (declareIn i name e span s).relabel r f id
  unfold declareIn
  rw [hdefine, e.ty_relabel]
  cases s.scopes.defineIn i name e with
  | ok Γ => rfl
  | error reason => cases reason <;> rfl

theorem relabels_declare (hr : r.Injective) (name : String) (e : Entity) (span : Option Span) :
    Relabels r f id (declare name e span) (declare (r name) (e.relabel r) (span.map f)) := by
  refine relabels_bind relabels_scopes fun Γ => ?_
  have hdepth : (Γ.relabel r).depth = Γ.depth := Γ.depth_transform
  rw [hdepth]
  exact relabels_declareIn hr _ name e span

theorem relabels_setFunction (d : Decl.Function) :
    Relabels r f id (setFunction d) (setFunction (d.relabel r)) := by
  intro s
  rw [run_setFunction, run_setFunction]
  rfl

theorem relabels_enter (kind : ScopeKind) : Relabels r f id (enter kind) (enter kind) := by
  intro s
  have henter : (s.relabel r).scopes.enter kind = (s.scopes.enter kind).relabel r :=
    (s.scopes.transform_enter kind).symm
  have hdepth : ((s.scopes.enter kind).relabel r).depth = (s.scopes.enter kind).depth :=
    Scopes.depth_transform _
  show (⟨.ok (), ⟨(s.relabel r).scopes.enter kind, s.serial⟩,
    [.entered ((s.relabel r).scopes.enter kind).depth kind]⟩ : Outcome Unit) = _
  rw [henter, hdepth]
  rfl

theorem relabels_exit : Relabels r f id exit exit := by
  intro s
  have hexit : (s.relabel r).scopes.exit? =
      (s.scopes.exit?.map (Scopes.relabel r)).mapError (ScopeError.relabel r) :=
    s.scopes.exit?_transform
  have hdepth : (s.relabel r).scopes.depth = s.scopes.depth := s.scopes.depth_transform
  show exit (s.relabel r) = (exit s).relabel r f id
  unfold exit
  rw [hexit, hdepth]
  cases s.scopes.exit? with
  | ok Γ => rfl
  | error reason => rfl

theorem relabels_finallyDo {last last' : Check Unit} (hx : Relabels r f g x y)
    (hlast : Relabels r f id last last') :
    Relabels r f g (finallyDo x last) (finallyDo y last') := by
  intro s
  have hend := hlast (x.run s).session
  have hresult : ∀ (u : Except Diagnostic Unit) (v : Except Diagnostic α),
      ((relabelResult r f id u).bind fun _ => relabelResult r f g v) =
        relabelResult r f g (u.bind fun _ => v) := by
    intro u v
    cases u <;> rfl
  show (⟨(last'.run (y.run (s.relabel r)).session).result.bind fun _ =>
      (y.run (s.relabel r)).result, (last'.run (y.run (s.relabel r)).session).session,
      (y.run (s.relabel r)).log ++ (last'.run (y.run (s.relabel r)).session).log⟩ : Outcome β) = _
  rw [hx s]
  show (⟨(last'.run ((x.run s).session.relabel r)).result.bind fun _ =>
      relabelResult r f g (x.run s).result, (last'.run ((x.run s).session.relabel r)).session,
      (x.run s).log.map (Event.relabel r f) ++
        (last'.run ((x.run s).session.relabel r)).log⟩ : Outcome β) = _
  rw [hend]
  unfold Outcome.relabel
  rw [hresult, ← List.map_append]
  rfl

theorem relabels_inScope (kind : ScopeKind) (hx : Relabels r f g x y) :
    Relabels r f g (inScope kind x) (inScope kind y) :=
  relabels_bind (relabels_enter kind) fun _ => relabels_finallyDo hx relabels_exit

end Check

/-! ## 5. Statements -/

open Check

section

theorem relabels_checkCounter (hr : r.Injective) (target : Expr) (span : Span) :
    Relabels r f (Resolved.Expr.relabel r) (checkCounter target span)
      (checkCounter (target.relabel r f) (f span)) := by
  refine relabels_reading fun Γ => relabel_bind (target.check_relabel hr Γ) fun e => ?_
  rw [e.ty_relabel]
  exact relabel_bind (expectInteger_relabel r f e.ty span) fun _ =>
    relabel_bind (expectVariable_relabel r f e span) fun _ =>
      relabel_bind_pure (expectWritable_relabel r f e span) fun _ => rfl

theorem relabels_checkAssign (hr : r.Injective) (target source : Expr) (span : Span) :
    Relabels r f (Resolved.Stmt.relabel r) (checkAssign target source span)
      (checkAssign (target.relabel r f) (source.relabel r f) (f span)) := by
  refine relabels_reading fun Γ => relabel_bind (source.check_relabel hr Γ) fun value => ?_
  refine relabel_bind (target.check_relabel hr Γ) fun place => ?_
  rw [value.ty_relabel, place.ty_relabel]
  exact relabel_bind (expectAssignable_relabel r f value.ty place.ty span) fun _ =>
    relabel_bind_pure (expectWritable_relabel r f place span) fun _ => rfl

theorem enclosingResult_relabel (Γ : Scopes) (span : Span) :
    enclosingResult (Γ.relabel r) (f span) = (enclosingResult Γ span).relabel r f id := by
  have hfunction : (Γ.relabel r).currentFunction =
      Γ.currentFunction.map (Decl.Function.relabel r) := rfl
  unfold enclosingResult
  rw [hfunction]
  cases Γ.currentFunction <;> rfl

theorem relabels_checkReturnValue (hr : r.Injective) (value : Expr) (span : Span) :
    Relabels r f (Resolved.Stmt.relabel r) (checkReturnValue value span)
      (checkReturnValue (value.relabel r f) (f span)) := by
  refine relabels_reading fun Γ => relabel_bind (enclosingResult_relabel Γ span) fun t => ?_
  refine relabel_bind (relabel_require r f _ .valueReturned span) fun _ => ?_
  refine relabel_bind (value.check_relabel hr Γ) fun e => ?_
  rw [e.ty_relabel]
  exact relabel_bind_pure (expectAssignable_relabel r f e.ty t span) fun _ => rfl

theorem relabels_checkReturnNothing (span : Span) :
    Relabels r f (Resolved.Stmt.relabel r) (checkReturnNothing span)
      (checkReturnNothing (f span)) :=
  relabels_reading fun Γ => relabel_bind (enclosingResult_relabel Γ span) fun _ =>
    relabel_bind_pure (relabel_require r f _ .valueMissing span) fun _ => rfl

theorem relabels_checkTest (hr : r.Injective) (test : Expr) :
    Relabels r f (Resolved.Expr.relabel r) (checkTest test) (checkTest (test.relabel r f)) := by
  refine relabels_reading fun Γ => relabel_bind (test.check_relabel hr Γ) fun e => ?_
  rw [e.ty_relabel, test.span_relabel]
  exact relabel_bind_pure (expectBool_relabel r f e.ty test.span) fun _ => rfl

theorem relabels_checkCollection (hr : r.Injective) (collection : Expr) :
    Relabels r f (Prod.map (Resolved.Expr.relabel r) id) (checkCollection collection)
      (checkCollection (collection.relabel r f)) := by
  refine relabels_reading fun Γ => relabel_bind (collection.check_relabel hr Γ) fun e => ?_
  rw [e.ty_relabel, collection.span_relabel]
  exact relabel_bind_pure (expectList_relabel r f e.ty collection.span) fun _ => rfl

theorem relabels_checkResult (hr : r.Injective) (result : Option TypeExpr) :
    Relabels r f id (checkResult result) (checkResult (result.map (TypeExpr.relabel r f))) := by
  cases result with
  | none => exact relabels_pure _
  | some t =>
      show Relabels r f id (reading fun Γ => t.resolve Γ)
        (reading fun Γ => (t.relabel r f).resolve Γ)
      exact relabels_reading fun Γ => t.resolve_relabel hr Γ

theorem relabels_declareVariable (hr : r.Injective) (name : String) (readOnly : Bool) (ty : Ty)
    (span : Span) :
    Relabels r f (Decl.Variable.relabel r) (declareVariable name readOnly ty span)
      (declareVariable (r name) readOnly ty (f span)) :=
  relabels_bind relabels_fresh fun i =>
    relabels_bind (relabels_declare hr name (.var ⟨i, name, readOnly, ty⟩) (some span)) fun _ =>
      relabels_pure (g := Decl.Variable.relabel r) _

theorem Parameter.relabels_check (hr : r.Injective) (p : Parameter) :
    Relabels r f (Decl.Parameter.relabel r) p.check (p.relabel r f).check :=
  relabels_bind (relabels_reading fun Γ => p.type.resolve_relabel hr Γ) fun ty =>
    relabels_bind relabels_fresh fun i =>
      relabels_bind (relabels_declare hr p.name (.param ⟨i, p.name, ty⟩) (some p.span)) fun _ =>
        relabels_pure (g := Decl.Parameter.relabel r) _

theorem Parameter.relabels_checkAll (hr : r.Injective) : ∀ ps : List Parameter,
    Relabels r f (List.map (Decl.Parameter.relabel r)) (Parameter.checkAll ps)
      (Parameter.checkAll (ps.map (Parameter.relabel r f)))
  | [] => relabels_pure _
  | p :: ps => by
      rw [List.map_cons, Parameter.checkAll, Parameter.checkAll]
      exact relabels_bind (p.relabels_check hr) fun _ =>
        relabels_bind_pure (Parameter.relabels_checkAll hr ps) fun _ => rfl

theorem relabels_declareFunction (hr : r.Injective) (name : String) (signature : Signature)
    (span : Span) :
    Relabels r f (Decl.Function.relabel r) (declareFunction name signature span)
      (declareFunction (r name) signature (f span)) := by
  refine relabels_bind relabels_fresh fun i =>
    relabels_bind (relabels_record (.declaredFunction name signature)) fun _ =>
      relabels_bind (relabels_setFunction ⟨i, name, signature⟩) fun _ =>
        relabels_bind relabels_scopes fun Γ => ?_
  have hdepth : (Γ.relabel r).depth = Γ.depth := Γ.depth_transform
  rw [hdepth]
  exact relabels_bind (relabels_declareIn hr _ name (.func ⟨i, name, signature⟩) (some span))
    fun _ => relabels_pure (g := Decl.Function.relabel r) _

mutual

theorem Stmt.relabels_check (hr : r.Injective) : ∀ s : Stmt,
    Relabels r f (Resolved.Stmt.relabel r) s.check (s.relabel r f).check
  | .declare name readOnly init span => by
      rw [Stmt.relabel, Stmt.check, Stmt.check]
      refine relabels_bind (relabels_reading fun Γ => init.check_relabel hr Γ) fun e => ?_
      rw [e.ty_relabel]
      exact relabels_bind_pure (relabels_declareVariable hr name readOnly e.ty span) fun _ => rfl
  | .function name parameters result body span => by
      rw [Stmt.relabel, Stmt.check, Stmt.check]
      refine relabels_bind (relabels_checkResult hr result) fun ty =>
        relabels_inScope .functionBody ?_
      refine relabels_bind (Parameter.relabels_checkAll hr parameters) fun ds => ?_
      have htypes : (ds.map (Decl.Parameter.relabel r)).map (·.ty) = ds.map (·.ty) := by
        rw [List.map_map]
        rfl
      rw [htypes]
      exact relabels_bind (relabels_declareFunction hr name _ span) fun _ =>
        relabels_bind_pure (Stmt.relabels_checkAll hr body) fun _ => rfl
  | .step dir target span => by
      rw [Stmt.relabel, Stmt.check, Stmt.check]
      exact relabels_bind_pure (relabels_checkCounter hr target span) fun _ => rfl
  | .assign target source span => by
      rw [Stmt.relabel, Stmt.check, Stmt.check]
      exact relabels_checkAssign hr target source span
  | .exitLoop span => by
      rw [Stmt.relabel, Stmt.check, Stmt.check]
      refine relabels_bind relabels_scopes fun Γ => ?_
      exact relabels_bind_pure
        (relabels_reading fun _ => relabel_require r f Γ.inLoop .exitOutsideLoop span) fun _ => rfl
  | .returnValue value span => by
      rw [Stmt.relabel, Stmt.check, Stmt.check]
      exact relabels_checkReturnValue hr value span
  | .returnNothing span => by
      rw [Stmt.relabel, Stmt.check, Stmt.check]
      exact relabels_checkReturnNothing span
  | .branch b => by
      rw [Stmt.relabel, Stmt.check, Stmt.check]
      exact relabels_bind_pure (b.relabels_check hr) fun _ => rfl
  | .whileLoop test body _ => by
      rw [Stmt.relabel, Stmt.check, Stmt.check]
      exact relabels_bind (relabels_checkTest hr test) fun _ =>
        relabels_bind_pure (relabels_inScope .loop (Stmt.relabels_checkAll hr body)) fun _ => rfl
  | .forEach iterator collection body span => by
      rw [Stmt.relabel, Stmt.check, Stmt.check]
      refine relabels_bind (relabels_checkCollection hr collection) fun ⟨e, element⟩ => ?_
      refine relabels_inScope .loop ?_
      exact relabels_bind (relabels_declareVariable hr iterator true element span) fun _ =>
        relabels_bind_pure (Stmt.relabels_checkAll hr body) fun _ => rfl
  | .eval expr _ => by
      rw [Stmt.relabel, Stmt.check, Stmt.check]
      exact relabels_bind_pure (relabels_reading fun Γ => expr.check_relabel hr Γ) fun _ => rfl

theorem Branch.relabels_check (hr : r.Injective) : ∀ b : Branch,
    Relabels r f (Resolved.Branch.relabel r) b.check (b.relabel r f).check
  | .mk test consequent alternate _ => by
      rw [Branch.relabel, Branch.check, Branch.check]
      exact relabels_bind (relabels_checkTest hr test) fun _ =>
        relabels_bind (relabels_inScope .block (Stmt.relabels_checkAll hr consequent)) fun _ =>
          relabels_bind_pure (alternate.relabels_check hr) fun _ => rfl

theorem Alternate.relabels_check (hr : r.Injective) : ∀ a : Alternate,
    Relabels r f (Resolved.Alternate.relabel r) a.check (a.relabel r f).check
  | .none => relabels_pure _
  | .block body => by
      rw [Alternate.relabel, Alternate.check, Alternate.check]
      exact relabels_bind_pure (relabels_inScope .block (Stmt.relabels_checkAll hr body))
        fun _ => rfl
  | .elseIf next => by
      rw [Alternate.relabel, Alternate.check, Alternate.check]
      exact relabels_bind_pure (next.relabels_check hr) fun _ => rfl

/-- **Statements are checked to what they were checked to, relabelled.** -/
theorem Stmt.relabels_checkAll (hr : r.Injective) : ∀ ss : List Stmt,
    Relabels r f (Resolved.Stmt.relabelAll r) (Stmt.checkAll ss)
      (Stmt.checkAll (Stmt.relabelAll r f ss))
  | [] => relabels_pure _
  | s :: ss => by
      rw [Stmt.relabelAll, Stmt.checkAll, Stmt.checkAll]
      exact relabels_bind (s.relabels_check hr) fun _ =>
        relabels_bind_pure (Stmt.relabels_checkAll hr ss) fun _ => rfl

end

end

/-! ## 6. Analyses and sessions -/

theorem relabels_declareEntries (hr : r.Injective) : ∀ entries : List (String × Entity),
    Relabels r f id (declareEntries entries)
      (declareEntries (entries.map fun b => (r b.1, b.2.relabel r)))
  | [] => relabels_pure _
  | (name, e) :: entries =>
      relabels_bind (relabels_declare hr name e none) fun _ => relabels_declareEntries hr entries

theorem Session.load_relabel (hr : r.Injective) (c : Catalog) :
    Session.load (c.relabel r) = (Session.load c).relabel r f id := by
  unfold Session.load
  rw [c.firstSerial_relabel]
  exact relabels_declareEntries hr c.entries (.blank c.firstSerial)

theorem Session.step_relabel (hr : r.Injective) (s : Session) (p : Program) :
    (s.relabel r).step (Stmt.relabelAll r f p) =
      (s.step p).relabel r f (Resolved.Stmt.relabelAll r) :=
  Stmt.relabels_checkAll hr p s

/-- **An analysis of relabelled input is the analysis, relabelled.** -/
theorem analyze_relabel (hr : r.Injective) (c : Catalog) (p : Program) :
    analyze (c.relabel r) (Stmt.relabelAll r f p) =
      (analyze c p).relabel r f (Resolved.Stmt.relabelAll r) := by
  have hload : Session.load (c.relabel r) = (Session.load c).relabel r f id :=
    Session.load_relabel hr c
  have hstep : ((Session.load c).session.relabel r).step (Stmt.relabelAll r f p) =
      ((Session.load c).session.step p).relabel r f (Resolved.Stmt.relabelAll r) :=
    Session.step_relabel hr _ p
  have hending : ∀ result : Except Diagnostic Resolved.Program,
      Event.ending (relabelResult r f (Resolved.Stmt.relabelAll r) result) =
        (Event.ending result).relabel r f := by
    intro result
    cases result <;> rfl
  unfold analyze
  rw [hload, Stmt.length_relabelAll]
  generalize Session.load c = loading at hstep
  obtain ⟨result, session, log⟩ := loading
  cases result with
  | error d => rfl
  | ok u =>
      show (⟨((session.relabel r).step (Stmt.relabelAll r f p)).result, .started p.length ::
        (log.map (Event.relabel r f) ++ ((session.relabel r).step (Stmt.relabelAll r f p)).log ++
          [Event.ending ((session.relabel r).step (Stmt.relabelAll r f p)).result])⟩ : Analysis) =
        ⟨relabelResult r f (Resolved.Stmt.relabelAll r) (session.step p).result,
          .started p.length :: ((log ++ (session.step p).log ++
            [Event.ending (session.step p).result]).map (Event.relabel r f))⟩
      have hresult := congrArg Outcome.result hstep
      have hlog := congrArg Outcome.log hstep
      rw [hresult, hlog, List.map_append, List.map_append, List.map_singleton, ← hending]
      rfl

/-- What programs come to that are checked one after the other in one session. -/
def Session.outcomes (s : Session) : List Program → List (Outcome Resolved.Program)
  | [] => []
  | p :: ps => s.step p :: (s.step p).session.outcomes ps

/-- **A session of relabelled programs is the session, relabelled**, at every step. -/
theorem Session.outcomes_relabel (hr : r.Injective) : ∀ (ps : List Program) (s : Session),
    (s.relabel r).outcomes (ps.map (Stmt.relabelAll r f)) =
      (s.outcomes ps).map (Outcome.relabel r f (Resolved.Stmt.relabelAll r))
  | [], _ => rfl
  | p :: ps, s => by
      rw [List.map_cons, Session.outcomes, Session.outcomes, List.map_cons,
        Session.step_relabel hr s p]
      exact congrArg _ (Session.outcomes_relabel hr ps (s.step p).session)

end Sema
