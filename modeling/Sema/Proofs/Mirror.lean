import Sema.Proofs.Head
import Sema.Proofs.Renaming
import Sema.Proofs.Transform

/-!
# Checks do not look at identities

A check passes identities on and makes new ones, but it never decides by them. So two sessions that
differ in identities alone stay so through any check, and both come to the same: the same tree up to
identities, or the same diagnostic (`Stmt.mirrors_checkAll`). Unlike a fact about derivations, this
covers the checks that fail.

Identities are replaced by a function `σ`, which is not asked to be injective. It has to carry the
numbers that one session will hand out to those that the other will: the two count with a constant
distance `d` (`Session.Renamed`).
-/

namespace Sema

/-! ## 1. Scopes -/

variable {σ : Identity → Identity}

/-- The frame with all identities replaced. -/
def Frame.rename (σ : Identity → Identity) (f : Frame) : Frame where
  bindings := f.bindings.map fun b => (b.1, b.2.rename σ)
  inLoop := f.inLoop
  function := f.function.map (Decl.Function.rename σ)

namespace Frame

@[simp] theorem find?_rename (f : Frame) (x : String) :
    (f.rename σ).find? x = (f.find? x).map (Entity.rename σ) :=
  find?_transform Function.injective_id f x

@[simp] theorem declares_rename (f : Frame) (x : String) :
    (f.rename σ).declares x = f.declares x := by
  rw [declares, declares, find?_rename, Option.isSome_map]

theorem rename_id (f : Frame) : f.rename id = f := by
  have hbindings : (f.bindings.map fun b => (b.1, b.2.rename id)) = f.bindings := by
    simp only [Entity.rename_id]
    exact List.map_id f.bindings
  have hfunction : f.function.map (Decl.Function.rename id) = f.function := Option.map_id_apply
  unfold rename
  rw [hbindings, hfunction]

end Frame

/-- The scopes with all identities replaced. -/
def Scopes.rename (σ : Identity → Identity) (s : Scopes) : Scopes :=
  ⟨s.inner.rename σ, s.outer.map (Frame.rename σ)⟩

namespace Scopes

/-- A replacement of identities keeps all names. -/
theorem rename_eq_transform (s : Scopes) :
    s.rename σ = s.transform id (Entity.rename σ) (Decl.Function.rename σ) := rfl

@[simp] theorem inLoop_rename (s : Scopes) : (s.rename σ).inLoop = s.inLoop := rfl

@[simp] theorem currentFunction_rename (s : Scopes) :
    (s.rename σ).currentFunction = s.currentFunction.map (Decl.Function.rename σ) := rfl

@[simp] theorem depth_rename (s : Scopes) : (s.rename σ).depth = s.depth :=
  List.length_map _

theorem frames_rename (s : Scopes) : (s.rename σ).frames = s.frames.map (Frame.rename σ) := rfl

theorem rename_id (s : Scopes) : s.rename id = s := by
  have houter : s.outer.map (Frame.rename id) = s.outer :=
    List.map_id'' Frame.rename_id s.outer
  unfold rename
  rw [Frame.rename_id, houter]

theorem rename_enter (s : Scopes) (kind : ScopeKind) :
    (s.enter kind).rename σ = (s.rename σ).enter kind := by
  rw [rename_eq_transform, rename_eq_transform, transform_enter]

theorem defineIn_rename (s : Scopes) (i : Nat) (name : String) (e : Entity) :
    (s.rename σ).defineIn i name (e.rename σ) = (s.defineIn i name e).map (rename σ) := by
  rw [rename_eq_transform]
  refine (defineIn_transform Function.injective_id s i name e).trans ?_
  cases s.defineIn i name e with
  | error reason => exact congrArg Except.error reason.relabel_id
  | ok _ => rfl

theorem setFunction_rename (s : Scopes) (i : Nat) (f : Decl.Function) :
    (s.rename σ).setFunction i (f.rename σ) = (s.setFunction i f).map (rename σ) := by
  rw [rename_eq_transform]
  refine (setFunction_transform s i f).trans ?_
  cases s.setFunction i f with
  | error reason => exact congrArg Except.error reason.relabel_id
  | ok _ => rfl

theorem exit?_rename (s : Scopes) : (s.rename σ).exit? = s.exit?.map (rename σ) := by
  obtain ⟨inner, outer⟩ := s
  cases outer <;> rfl

theorem locateIn_rename (x : String) (fs : List Frame) :
    locateIn x (fs.map (Frame.rename σ)) =
      (locateIn x fs).map fun found => (found.1, found.2.rename σ) :=
  locateIn_transform Function.injective_id x fs

end Scopes

/-! ## 2. Expressions -/

namespace Traced

variable {α β γ : Type}

/-- The result with its value replaced; what was recorded stays. -/
def map (g : α → β) (x : Traced α) : Traced β := ⟨x.result.map g, x.log⟩

theorem map_pure (g : α → β) (a : α) : (pure a : Traced α).map g = pure (g a) := rfl

theorem map_bind (g : β → γ) (x : Traced α) (f : α → Traced β) :
    (x >>= f).map g = x >>= fun a => (f a).map g := by
  show (andThen x f).map g = andThen x fun a => (f a).map g
  unfold andThen
  cases x.result <;> rfl

theorem bind_map (g : α → β) (x : Traced α) (f : β → Traced γ) :
    x.map g >>= f = x >>= fun a => f (g a) := by
  show andThen (x.map g) f = andThen x fun a => f (g a)
  unfold andThen map
  cases x.result <;> rfl

theorem expectWritable_rename (r : Resolved.Expr) (span : Span) :
    expectWritable (r.rename σ) span = expectWritable r span := by
  obtain ⟨form, ty⟩ := r
  cases form with
  | entity e => cases e <;> rfl
  | _ => rfl

theorem expectVariable_rename (r : Resolved.Expr) (span : Span) :
    expectVariable (r.rename σ) span = expectVariable r span := by
  obtain ⟨form, ty⟩ := r
  cases form with
  | entity e => cases e <;> rfl
  | _ => rfl

end Traced

open Traced

theorem Scopes.resolve_rename (Γ : Scopes) (x : String) (span : Span) :
    (Γ.rename σ).resolve x span = (Γ.resolve x span).map (Entity.rename σ) := by
  unfold Scopes.resolve Scopes.locate?
  rw [Scopes.frames_rename, Scopes.locateIn_rename]
  cases Scopes.locateIn x Γ.frames <;> rfl

mutual

/-- A written type stands for the same type. -/
theorem TypeExpr.resolve_rename (Γ : Scopes) : ∀ t : TypeExpr, t.resolve (Γ.rename σ) = t.resolve Γ
  | .named x span => by
      rw [TypeExpr.resolve, TypeExpr.resolve, Scopes.resolve_rename, bind_map]
      congr 1
      funext e
      cases e <;> rfl
  | .list element _ => by
      rw [TypeExpr.resolve, TypeExpr.resolve, element.resolve_rename Γ]
  | .function parameters result _ => by
      rw [TypeExpr.resolve, TypeExpr.resolve, TypeExpr.resolveAll_rename Γ parameters,
        result.resolve_rename Γ]

theorem TypeExpr.resolveAll_rename (Γ : Scopes) : ∀ ts : List TypeExpr,
    TypeExpr.resolveAll (Γ.rename σ) ts = TypeExpr.resolveAll Γ ts
  | [] => rfl
  | t :: ts => by
      rw [TypeExpr.resolveAll, TypeExpr.resolveAll, t.resolve_rename Γ,
        TypeExpr.resolveAll_rename Γ ts]

end

theorem expectBools_rename : ∀ (rs : List Resolved.Expr) (es : List Expr),
    expectBools (Resolved.Expr.renameAll σ rs) es = expectBools rs es
  | [], _ => rfl
  | _ :: _, [] => rfl
  | r :: rs, e :: es => by
      rw [Resolved.Expr.renameAll, expectBools, expectBools, Resolved.Expr.ty_rename,
        expectBools_rename rs es]

theorem Resolved.Expr.map_ty_renameAll (rs : List Resolved.Expr) :
    (Resolved.Expr.renameAll σ rs).map (·.ty) = rs.map (·.ty) := by
  rw [Resolved.Expr.renameAll_eq_map, List.map_map]
  exact List.map_congr_left fun r _ => r.ty_rename σ

mutual

/-- An expression is resolved to the same tree, with its identities replaced. -/
theorem Expr.check_rename (Γ : Scopes) : ∀ e : Expr,
    e.check (Γ.rename σ) = (e.check Γ).map (Resolved.Expr.rename σ)
  | .int _ _ | .float _ _ | .bool _ _ | .str _ _ => rfl
  | .name x span => by
      simp only [Expr.check, Scopes.resolve_rename, bind_map, map_bind, map_pure, Entity.ty_rename]
      rfl
  | .conditional test consequent alternate span => by
      simp only [Expr.check, test.check_rename Γ, consequent.check_rename Γ,
        alternate.check_rename Γ, bind_map, map_bind, map_pure, Resolved.Expr.ty_rename]
      rfl
  | .logical op operands _ => by
      simp only [Expr.check, Expr.checkAll_rename Γ operands, bind_map, map_bind, map_pure,
        expectBools_rename]
      rfl
  | .binary op left right span => by
      simp only [Expr.check, left.check_rename Γ, right.check_rename Γ, bind_map, map_bind,
        map_pure, Resolved.Expr.ty_rename]
      rfl
  | .unary op operand span => by
      simp only [Expr.check, operand.check_rename Γ, bind_map, map_bind, map_pure,
        Resolved.Expr.ty_rename]
      rfl
  | .subscript items index _ => by
      simp only [Expr.check, items.check_rename Γ, index.check_rename Γ, bind_map, map_bind,
        map_pure, Resolved.Expr.ty_rename]
      rfl
  | .list elements span => by
      simp only [Expr.check, Expr.checkAll_rename Γ elements, bind_map, map_bind, map_pure,
        Resolved.Expr.map_ty_renameAll]
      rfl
  | .emptyList element _ => by
      simp only [Expr.check, element.resolve_rename Γ, map_bind, map_pure]
      rfl
  | .call callee arguments span => by
      simp only [Expr.check, callee.check_rename Γ, Expr.checkAll_rename Γ arguments, bind_map,
        map_bind, map_pure, Resolved.Expr.ty_rename, Resolved.Expr.map_ty_renameAll]
      rfl

theorem Expr.checkAll_rename (Γ : Scopes) : ∀ es : List Expr,
    Expr.checkAll (Γ.rename σ) es = (Expr.checkAll Γ es).map (Resolved.Expr.renameAll σ)
  | [] => rfl
  | e :: es => by
      simp only [Expr.checkAll, e.check_rename Γ, Expr.checkAll_rename Γ es, bind_map, map_bind,
        map_pure]
      rfl

end

/-! ## 3. Computations -/

/-- The sessions differ in identities alone, by `σ`, which also carries the identities that the
    first will hand out to those that the second will. -/
structure Session.Renamed (σ : Identity → Identity) (d : Nat) (s t : Session) : Prop where
  scopes : t.scopes = s.scopes.rename σ
  serial : t.serial = s.serial + d
  fresh : ∀ n, s.serial ≤ n → σ (.program n) = .program (n + d)

namespace Check

variable {α β γ δ : Type} {d : Nat}

/-- On sessions that differ in identities alone, the second computation comes to what the first one
    comes to, with its value replaced, and leaves sessions that again differ in identities alone. -/
def Mirrors (σ : Identity → Identity) (d : Nat) (g : α → β) (x : Check α) (y : Check β) : Prop :=
  ∀ s t, Session.Renamed σ d s t →
    Session.Renamed σ d (x.run s).session (y.run t).session ∧
      (y.run t).result = (x.run s).result.map g

variable {g : α → β} {h : γ → δ} {x : Check α} {y : Check β}

theorem mirrors_pure (a : α) : Mirrors σ d g (pure a) (pure (g a)) :=
  fun _ _ hst => ⟨hst, rfl⟩

/-- **Step by step.** -/
theorem mirrors_bind {f : α → Check γ} {k : β → Check δ} (hx : Mirrors σ d g x y)
    (hf : ∀ a, Mirrors σ d h (f a) (k (g a))) : Mirrors σ d h (x >>= f) (y >>= k) := by
  intro s t hst
  obtain ⟨hsession, hresult⟩ := hx s t hst
  rw [run_bind, run_bind, hresult]
  cases (x.run s).result with
  | error e => exact ⟨hsession, rfl⟩
  | ok a => exact hf a _ _ hsession

/-- A last step that builds the value. -/
theorem mirrors_bind_pure {f : α → γ} {k : β → δ} (hx : Mirrors σ d g x y)
    (hf : ∀ a, k (g a) = h (f a)) :
    Mirrors σ d h (x >>= fun a => pure (f a)) (y >>= fun b => pure (k b)) := by
  refine mirrors_bind hx fun a => ?_
  rw [hf]
  exact mirrors_pure (f a)

theorem mirrors_reading {x : Scopes → Traced α} {y : Scopes → Traced β}
    (hxy : ∀ Γ : Scopes, y (Γ.rename σ) = (x Γ).map g) :
    Mirrors σ d g (reading x) (reading y) := by
  intro s t hst
  rw [run_reading, run_reading, hst.scopes, hxy]
  exact ⟨hst, rfl⟩

theorem mirrors_scopes : Mirrors σ d (Scopes.rename σ) scopes scopes := by
  intro s t hst
  rw [run_scopes, run_scopes, hst.scopes]
  exact ⟨hst, rfl⟩

theorem mirrors_record (e : Event) : Mirrors σ d id (record e) (record e) :=
  fun _ _ hst => ⟨hst, rfl⟩

theorem mirrors_fresh : Mirrors σ d σ fresh fresh := by
  intro s t hst
  rw [run_fresh, run_fresh, hst.serial]
  refine ⟨⟨hst.scopes, ?_, fun n hn => hst.fresh n ?_⟩, ?_⟩
  · show s.serial + d + 1 = s.serial + 1 + d
    omega
  · have hn : s.serial + 1 ≤ n := hn
    omega
  · rw [← hst.fresh s.serial (Nat.le_refl _)]
    rfl

theorem mirrors_declareIn (i : Nat) (name : String) (e : Entity) (span : Option Span) :
    Mirrors σ d id (declareIn i name e span) (declareIn i name (e.rename σ) span) := by
  intro s t hst
  show Session.Renamed σ d (declareIn i name e span s).session
      (declareIn i name (e.rename σ) span t).session ∧
    (declareIn i name (e.rename σ) span t).result = (declareIn i name e span s).result.map id
  unfold declareIn
  rw [hst.scopes, Scopes.defineIn_rename]
  cases s.scopes.defineIn i name e with
  | ok Γ => exact ⟨⟨rfl, hst.serial, hst.fresh⟩, rfl⟩
  | error reason => cases reason <;> exact ⟨hst, rfl⟩

theorem mirrors_declare (name : String) (e : Entity) (span : Option Span) :
    Mirrors σ d id (declare name e span) (declare name (e.rename σ) span) := by
  refine mirrors_bind mirrors_scopes fun Γ => ?_
  rw [Scopes.depth_rename]
  exact mirrors_declareIn _ name e span

theorem mirrors_setFunction (f : Decl.Function) :
    Mirrors σ d id (setFunction f) (setFunction (f.rename σ)) := by
  intro s t hst
  show Session.Renamed σ d (setFunction f s).session (setFunction (f.rename σ) t).session ∧
    (setFunction (f.rename σ) t).result = (setFunction f s).result.map id
  unfold setFunction
  rw [hst.scopes, Scopes.depth_rename, Scopes.setFunction_rename]
  cases s.scopes.setFunction s.scopes.depth f with
  | ok Γ => exact ⟨⟨rfl, hst.serial, hst.fresh⟩, rfl⟩
  | error reason => exact ⟨hst, rfl⟩

theorem mirrors_enter (kind : ScopeKind) : Mirrors σ d id (enter kind) (enter kind) := by
  intro s t hst
  refine ⟨⟨?_, hst.serial, hst.fresh⟩, rfl⟩
  show t.scopes.enter kind = _
  rw [hst.scopes, ← Scopes.rename_enter]
  rfl

theorem mirrors_exit : Mirrors σ d id exit exit := by
  intro s t hst
  show Session.Renamed σ d (exit s).session (exit t).session ∧
    (exit t).result = (exit s).result.map id
  unfold exit
  rw [hst.scopes, Scopes.exit?_rename]
  cases s.scopes.exit? with
  | ok Γ => exact ⟨⟨rfl, hst.serial, hst.fresh⟩, rfl⟩
  | error reason => exact ⟨hst, rfl⟩

theorem mirrors_finallyDo {last last' : Check Unit} (hx : Mirrors σ d g x y)
    (hlast : Mirrors σ d id last last') : Mirrors σ d g (finallyDo x last) (finallyDo y last') := by
  intro s t hst
  obtain ⟨hsession, hresult⟩ := hx s t hst
  obtain ⟨hsession', hresult'⟩ := hlast _ _ hsession
  refine ⟨hsession', ?_⟩
  show (last'.run (y.run t).session).result.bind (fun _ => (y.run t).result) =
    ((last.run (x.run s).session).result.bind fun _ => (x.run s).result).map g
  rw [hresult', hresult]
  cases (last.run (x.run s).session).result <;> rfl

theorem mirrors_inScope (kind : ScopeKind) (hx : Mirrors σ d g x y) :
    Mirrors σ d g (inScope kind x) (inScope kind y) :=
  mirrors_bind (mirrors_enter kind) fun _ => mirrors_finallyDo hx mirrors_exit

end Check

/-! ## 4. Statements -/

open Check

section

variable {d : Nat}

theorem mirrors_checkCounter (target : Expr) (span : Span) :
    Mirrors σ d (Resolved.Expr.rename σ) (checkCounter target span) (checkCounter target span) :=
  mirrors_reading fun Γ => by
    simp only [target.check_rename Γ, bind_map, map_bind, map_pure, Resolved.Expr.ty_rename,
      expectVariable_rename, expectWritable_rename]

theorem mirrors_checkAssign (target source : Expr) (span : Span) :
    Mirrors σ d (Resolved.Stmt.rename σ) (checkAssign target source span)
      (checkAssign target source span) :=
  mirrors_reading fun Γ => by
    simp only [target.check_rename Γ, source.check_rename Γ, bind_map, map_bind, map_pure,
      Resolved.Expr.ty_rename, expectWritable_rename]
    rfl

theorem enclosingResult_rename (Γ : Scopes) (span : Span) :
    enclosingResult (Γ.rename σ) span = enclosingResult Γ span := by
  unfold enclosingResult
  rw [Scopes.currentFunction_rename]
  cases Γ.currentFunction <;> rfl

theorem mirrors_checkReturnValue (value : Expr) (span : Span) :
    Mirrors σ d (Resolved.Stmt.rename σ) (checkReturnValue value span)
      (checkReturnValue value span) :=
  mirrors_reading fun Γ => by
    simp only [enclosingResult_rename, value.check_rename Γ, bind_map, map_bind, map_pure,
      Resolved.Expr.ty_rename]
    rfl

theorem mirrors_checkReturnNothing (span : Span) :
    Mirrors σ d (Resolved.Stmt.rename σ) (checkReturnNothing span) (checkReturnNothing span) :=
  mirrors_reading fun Γ => by
    simp only [enclosingResult_rename, map_bind, map_pure]
    rfl

theorem mirrors_checkTest (test : Expr) :
    Mirrors σ d (Resolved.Expr.rename σ) (checkTest test) (checkTest test) :=
  mirrors_reading fun Γ => by
    simp only [test.check_rename Γ, bind_map, map_bind, map_pure, Resolved.Expr.ty_rename]

theorem mirrors_checkCollection (collection : Expr) :
    Mirrors σ d (Prod.map (Resolved.Expr.rename σ) id) (checkCollection collection)
      (checkCollection collection) :=
  mirrors_reading fun Γ => by
    simp only [collection.check_rename Γ, bind_map, map_bind, map_pure, Resolved.Expr.ty_rename]
    rfl

theorem mirrors_checkResult (result : Option TypeExpr) :
    Mirrors σ d id (checkResult result) (checkResult result) := by
  cases result with
  | none => exact mirrors_pure _
  | some t =>
      refine mirrors_reading fun Γ => ?_
      rw [t.resolve_rename Γ]
      unfold Traced.map
      rw [Except.map_id]
      rfl

theorem mirrors_declareVariable (name : String) (readOnly : Bool) (ty : Ty) (span : Span) :
    Mirrors σ d (Decl.Variable.rename σ) (declareVariable name readOnly ty span)
      (declareVariable name readOnly ty span) :=
  mirrors_bind mirrors_fresh fun i =>
    mirrors_bind (mirrors_declare name (.var ⟨i, name, readOnly, ty⟩) (some span)) fun _ =>
      mirrors_pure _

theorem Parameter.mirrors_check (p : Parameter) :
    Mirrors σ d (Decl.Parameter.rename σ) p.check p.check := by
  have htype : Mirrors σ d id (reading fun Γ => p.type.resolve Γ)
      (reading fun Γ => p.type.resolve Γ) := mirrors_checkResult (some p.type)
  exact mirrors_bind htype fun ty => mirrors_bind mirrors_fresh fun i =>
    mirrors_bind (mirrors_declare p.name (.param ⟨i, p.name, ty⟩) (some p.span)) fun _ =>
      mirrors_pure _

theorem Parameter.mirrors_checkAll : ∀ ps : List Parameter,
    Mirrors σ d (List.map (Decl.Parameter.rename σ)) (Parameter.checkAll ps) (Parameter.checkAll ps)
  | [] => mirrors_pure _
  | p :: ps => by
      rw [Parameter.checkAll]
      exact mirrors_bind p.mirrors_check fun _ =>
        mirrors_bind_pure (Parameter.mirrors_checkAll ps) fun _ => rfl

theorem mirrors_declareFunction (name : String) (signature : Signature) (span : Span) :
    Mirrors σ d (Decl.Function.rename σ) (declareFunction name signature span)
      (declareFunction name signature span) := by
  refine mirrors_bind mirrors_fresh fun i => mirrors_bind (mirrors_record _) fun _ =>
    mirrors_bind (mirrors_setFunction ⟨i, name, signature⟩) fun _ =>
      mirrors_bind mirrors_scopes fun Γ => ?_
  rw [Scopes.depth_rename]
  exact mirrors_bind (mirrors_declareIn _ name (.func ⟨i, name, signature⟩) (some span)) fun _ =>
    mirrors_pure _

mutual

theorem Stmt.mirrors_check : ∀ s : Stmt, Mirrors σ d (Resolved.Stmt.rename σ) s.check s.check
  | .declare name readOnly init span => by
      rw [Stmt.check]
      refine mirrors_bind (mirrors_reading fun Γ => init.check_rename Γ) fun r => ?_
      rw [Resolved.Expr.ty_rename]
      exact mirrors_bind_pure (mirrors_declareVariable name readOnly r.ty span) fun _ => rfl
  | .function name parameters result body span => by
      rw [Stmt.check]
      refine mirrors_bind (mirrors_checkResult result) fun ty => mirrors_inScope .functionBody ?_
      refine mirrors_bind (Parameter.mirrors_checkAll parameters) fun ds => ?_
      have htypes : (ds.map (Decl.Parameter.rename σ)).map (·.ty) = ds.map (·.ty) := by
        rw [List.map_map]
        rfl
      rw [htypes]
      exact mirrors_bind (mirrors_declareFunction name _ span) fun f =>
        mirrors_bind_pure (Stmt.mirrors_checkAll body) fun _ => rfl
  | .step dir target span => by
      rw [Stmt.check]
      exact mirrors_bind_pure (mirrors_checkCounter target span) fun _ => rfl
  | .assign target source span => by
      rw [Stmt.check]
      exact mirrors_checkAssign target source span
  | .exitLoop span => by
      rw [Stmt.check]
      refine mirrors_bind mirrors_scopes fun Γ => ?_
      rw [Scopes.inLoop_rename]
      refine mirrors_bind_pure (g := id) (mirrors_reading fun _ => ?_) fun _ => rfl
      cases Γ.inLoop <;> rfl
  | .returnValue value span => by
      rw [Stmt.check]
      exact mirrors_checkReturnValue value span
  | .returnNothing span => by
      rw [Stmt.check]
      exact mirrors_checkReturnNothing span
  | .branch b => by
      rw [Stmt.check]
      exact mirrors_bind_pure b.mirrors_check fun _ => rfl
  | .whileLoop test body _ => by
      rw [Stmt.check]
      exact mirrors_bind (mirrors_checkTest test) fun _ =>
        mirrors_bind_pure (mirrors_inScope .loop (Stmt.mirrors_checkAll body)) fun _ => rfl
  | .forEach iterator collection body span => by
      rw [Stmt.check]
      refine mirrors_bind (mirrors_checkCollection collection) fun ⟨r, element⟩ => ?_
      refine mirrors_inScope .loop ?_
      exact mirrors_bind (mirrors_declareVariable iterator true element span) fun v =>
        mirrors_bind_pure (Stmt.mirrors_checkAll body) fun _ => rfl
  | .eval expr _ => by
      rw [Stmt.check]
      exact mirrors_bind_pure (mirrors_reading fun Γ => expr.check_rename Γ) fun _ => rfl

theorem Branch.mirrors_check : ∀ b : Branch, Mirrors σ d (Resolved.Branch.rename σ) b.check b.check
  | .mk test consequent alternate _ => by
      rw [Branch.check]
      exact mirrors_bind (mirrors_checkTest test) fun _ =>
        mirrors_bind (mirrors_inScope .block (Stmt.mirrors_checkAll consequent)) fun _ =>
          mirrors_bind_pure alternate.mirrors_check fun _ => rfl

theorem Alternate.mirrors_check : ∀ a : Alternate,
    Mirrors σ d (Resolved.Alternate.rename σ) a.check a.check
  | .none => mirrors_pure _
  | .block body => by
      rw [Alternate.check]
      exact mirrors_bind_pure (mirrors_inScope .block (Stmt.mirrors_checkAll body)) fun _ => rfl
  | .elseIf next => by
      rw [Alternate.check]
      exact mirrors_bind_pure next.mirrors_check fun _ => rfl

/-- **Checks do not look at identities.** -/
theorem Stmt.mirrors_checkAll : ∀ ss : List Stmt,
    Mirrors σ d (Resolved.Stmt.renameAll σ) (Stmt.checkAll ss) (Stmt.checkAll ss)
  | [] => mirrors_pure _
  | s :: ss => by
      rw [Stmt.checkAll]
      exact mirrors_bind s.mirrors_check fun _ =>
        mirrors_bind_pure (Stmt.mirrors_checkAll ss) fun _ => rfl

end

end

/-! ## 5. Numbers are not handed out again -/

/-- The identities from number `n` on, moved up by one. -/
def Identity.shift (n : Nat) : Identity → Identity
  | .program k => .program (if n ≤ k then k + 1 else k)
  | i => i

/-- **The next number never goes down**: a computation that does not look at identities cannot tell
    a session from one in which the numbers are moved up by one. -/
theorem Check.serial_le {α : Type} {x : Check α} {g : α → α} (s : Session)
    (h : Mirrors (Identity.shift s.serial) 1 g x x) : s.serial ≤ (x.run s).session.serial := by
  have hst : Session.Renamed (Identity.shift s.serial) 1 s
      ⟨s.scopes.rename (Identity.shift s.serial), s.serial + 1⟩ := by
    refine ⟨rfl, rfl, fun n hn => ?_⟩
    rw [Identity.shift, if_pos hn]
  obtain ⟨hrenamed, -⟩ := h _ _ hst
  have hfresh := hrenamed.fresh _ (Nat.le_refl _)
  rw [Identity.shift, Identity.program.injEq] at hfresh
  split at hfresh <;> omega

end Sema
