import Sema.Analysis
import Sema.Proofs.Transform

/-!
# Relabelling

The names and the spans of a program replaced throughout, by a function on names and a function on
spans. What an analysis makes of a program holds names but no spans, apart from a diagnostic, so
trees after analysis, scopes and catalogs are relabelled by a function on names only.

Nothing else changes: types and identities stay, a relabelled node has the relabelled span, and with
the identity on names everything that has no spans stays as it is (`Session.relabel_id`,
`Resolved.Stmt.relabelAll_id`).
-/

namespace Sema

variable (r : String → String) (f : Span → Span)

/-! ## 1. Syntax trees -/

mutual

/-- A written type with its names and spans replaced. -/
def TypeExpr.relabel : TypeExpr → TypeExpr
  | .named x span => .named (r x) (f span)
  | .list element span => .list element.relabel (f span)
  | .function parameters result span =>
      .function (TypeExpr.relabelAll parameters) result.relabel (f span)

/-- Written types with their names and spans replaced. -/
def TypeExpr.relabelAll : List TypeExpr → List TypeExpr
  | [] => []
  | t :: ts => t.relabel :: TypeExpr.relabelAll ts

end

mutual

/-- An expression with its names and spans replaced. -/
def Expr.relabel : Expr → Expr
  | .int v span => .int v (f span)
  | .float v span => .float v (f span)
  | .bool v span => .bool v (f span)
  | .str v span => .str v (f span)
  | .name x span => .name (r x) (f span)
  | .conditional test consequent alternate span =>
      .conditional test.relabel consequent.relabel alternate.relabel (f span)
  | .logical op operands span => .logical op (Expr.relabelAll operands) (f span)
  | .binary op left right span => .binary op left.relabel right.relabel (f span)
  | .unary op operand span => .unary op operand.relabel (f span)
  | .subscript items index span => .subscript items.relabel index.relabel (f span)
  | .list elements span => .list (Expr.relabelAll elements) (f span)
  | .emptyList element span => .emptyList (element.relabel r f) (f span)
  | .call callee arguments span => .call callee.relabel (Expr.relabelAll arguments) (f span)

/-- Expressions with their names and spans replaced. -/
def Expr.relabelAll : List Expr → List Expr
  | [] => []
  | e :: es => e.relabel :: Expr.relabelAll es

end

/-- A parameter with its names and spans replaced. -/
def Parameter.relabel (p : Parameter) : Parameter := ⟨r p.name, p.type.relabel r f, f p.span⟩

mutual

/-- A statement with its names and spans replaced. -/
def Stmt.relabel : Stmt → Stmt
  | .declare x readOnly init span => .declare (r x) readOnly (init.relabel r f) (f span)
  | .function name parameters result body span =>
      .function (r name) (parameters.map (Parameter.relabel r f))
        (result.map (TypeExpr.relabel r f)) (Stmt.relabelAll body) (f span)
  | .step dir target span => .step dir (target.relabel r f) (f span)
  | .assign target source span => .assign (target.relabel r f) (source.relabel r f) (f span)
  | .exitLoop span => .exitLoop (f span)
  | .returnValue value span => .returnValue (value.relabel r f) (f span)
  | .returnNothing span => .returnNothing (f span)
  | .branch b => .branch b.relabel
  | .whileLoop test body span => .whileLoop (test.relabel r f) (Stmt.relabelAll body) (f span)
  | .forEach x collection body span =>
      .forEach (r x) (collection.relabel r f) (Stmt.relabelAll body) (f span)
  | .eval expr span => .eval (expr.relabel r f) (f span)

/-- An `if` with its names and spans replaced. -/
def Branch.relabel : Branch → Branch
  | .mk test consequent alternate span =>
      .mk (test.relabel r f) (Stmt.relabelAll consequent) alternate.relabel (f span)

/-- What follows `else`, with its names and spans replaced. -/
def Alternate.relabel : Alternate → Alternate
  | .none => .none
  | .block body => .block (Stmt.relabelAll body)
  | .elseIf next => .elseIf next.relabel

/-- Statements with their names and spans replaced. -/
def Stmt.relabelAll : List Stmt → List Stmt
  | [] => []
  | s :: ss => s.relabel :: Stmt.relabelAll ss

end

@[simp] theorem Expr.span_relabel (e : Expr) : (e.relabel r f).span = f e.span := by
  cases e <;> rfl

theorem Stmt.length_relabelAll (ss : List Stmt) :
    (Stmt.relabelAll r f ss).length = ss.length := by
  induction ss with
  | nil => rfl
  | cons s ss ih => exact congrArg (· + 1) ih

/-! ## 2. Entities and resolved trees -/

namespace Decl

def Variable.relabel (v : Variable) : Variable := { v with name := r v.name }

def Function.relabel (g : Function) : Function := { g with name := r g.name }

def Parameter.relabel (p : Parameter) : Parameter := { p with name := r p.name }

end Decl

namespace Entity

/-- The entity with its own name replaced; a type has no name of its own. -/
def relabel : Entity → Entity
  | var v => var (v.relabel r)
  | func g => func (g.relabel r)
  | param p => param (p.relabel r)
  | type t => type t

@[simp] theorem ty_relabel (e : Entity) : (e.relabel r).ty = e.ty := by
  cases e <;> rfl

@[simp] theorem identity?_relabel (e : Entity) : (e.relabel r).identity? = e.identity? := by
  cases e <;> rfl

@[simp] theorem relabel_id (e : Entity) : e.relabel id = e := by
  cases e <;> rfl

end Entity

namespace Resolved

mutual

/-- An expression with its names replaced. -/
def Expr.relabel : Expr → Expr
  | .mk form ty => .mk form.relabel ty

/-- The form of an expression with its names replaced. -/
def Form.relabel : Form → Form
  | .entity e => .entity (e.relabel r)
  | .conditional t c a => .conditional t.relabel c.relabel a.relabel
  | .logical op es => .logical op (Expr.relabelAll es)
  | .binary op left right => .binary op left.relabel right.relabel
  | .unary op e => .unary op e.relabel
  | .subscript l i => .subscript l.relabel i.relabel
  | .list es => .list (Expr.relabelAll es)
  | .call callee es => .call callee.relabel (Expr.relabelAll es)
  | .int v => .int v
  | .float v => .float v
  | .bool v => .bool v
  | .str v => .str v
  | .emptyList t => .emptyList t

/-- Expressions with their names replaced. -/
def Expr.relabelAll : List Expr → List Expr
  | [] => []
  | e :: es => e.relabel :: Expr.relabelAll es

end

mutual

/-- A statement with its names replaced. -/
def Stmt.relabel : Stmt → Stmt
  | .declare v e => .declare (v.relabel r) (e.relabel r)
  | .function g ps body =>
      .function (g.relabel r) (ps.map (Decl.Parameter.relabel r)) (Stmt.relabelAll body)
  | .step dir e => .step dir (e.relabel r)
  | .assign target source => .assign (target.relabel r) (source.relabel r)
  | .exitLoop => .exitLoop
  | .returnValue e => .returnValue (e.relabel r)
  | .returnNothing => .returnNothing
  | .branch b => .branch b.relabel
  | .whileLoop t body => .whileLoop (t.relabel r) (Stmt.relabelAll body)
  | .forEach v e body => .forEach (v.relabel r) (e.relabel r) (Stmt.relabelAll body)
  | .eval e => .eval (e.relabel r)

/-- An `if` with its names replaced. -/
def Branch.relabel : Branch → Branch
  | .mk t body alternate => .mk (t.relabel r) (Stmt.relabelAll body) alternate.relabel

/-- What follows `else`, with its names replaced. -/
def Alternate.relabel : Alternate → Alternate
  | .none => .none
  | .block body => .block (Stmt.relabelAll body)
  | .elseIf next => .elseIf next.relabel

/-- Statements with their names replaced. -/
def Stmt.relabelAll : List Stmt → List Stmt
  | [] => []
  | s :: ss => s.relabel :: Stmt.relabelAll ss

end

@[simp] theorem Expr.ty_relabel (e : Expr) : (e.relabel r).ty = e.ty := by
  cases e
  rfl

@[simp] theorem Expr.map_ty_relabelAll (es : List Expr) :
    (Expr.relabelAll r es).map (·.ty) = es.map (·.ty) := by
  induction es with
  | nil => rfl
  | cons e es ih => rw [Expr.relabelAll, List.map_cons, List.map_cons, e.ty_relabel r, ih]

theorem Expr.entity?_relabel (e : Expr) :
    (e.relabel r).entity? = e.entity?.map (Entity.relabel r) := by
  obtain ⟨form, ty⟩ := e
  cases form <;> rfl

mutual

theorem Expr.relabel_id : ∀ e : Expr, e.relabel id = e
  | .mk form ty => by rw [Expr.relabel, form.relabel_id]

theorem Form.relabel_id : ∀ g : Form, g.relabel id = g
  | .entity e => by rw [Form.relabel, e.relabel_id]
  | .conditional t c a => by rw [Form.relabel, t.relabel_id, c.relabel_id, a.relabel_id]
  | .logical op es => by rw [Form.relabel, Expr.relabelAll_id es]
  | .binary op left right => by rw [Form.relabel, left.relabel_id, right.relabel_id]
  | .unary op e => by rw [Form.relabel, e.relabel_id]
  | .subscript l i => by rw [Form.relabel, l.relabel_id, i.relabel_id]
  | .list es => by rw [Form.relabel, Expr.relabelAll_id es]
  | .call callee es => by rw [Form.relabel, callee.relabel_id, Expr.relabelAll_id es]
  | .int _ | .float _ | .bool _ | .str _ | .emptyList _ => rfl

theorem Expr.relabelAll_id : ∀ es : List Expr, Expr.relabelAll id es = es
  | [] => rfl
  | e :: es => by rw [Expr.relabelAll, e.relabel_id, Expr.relabelAll_id es]

end

mutual

theorem Stmt.relabel_id : ∀ s : Stmt, s.relabel id = s
  | .declare v e => by
      rw [Stmt.relabel, e.relabel_id]
      rfl
  | .function g ps body => by
      have hps : ps.map (Decl.Parameter.relabel id) = ps := List.map_id ps
      rw [Stmt.relabel, hps, Stmt.relabelAll_id body]
      rfl
  | .step _ e | .returnValue e | .eval e => by rw [Stmt.relabel, e.relabel_id]
  | .assign target source => by rw [Stmt.relabel, target.relabel_id, source.relabel_id]
  | .exitLoop | .returnNothing => rfl
  | .branch b => by rw [Stmt.relabel, b.relabel_id]
  | .whileLoop t body => by rw [Stmt.relabel, t.relabel_id, Stmt.relabelAll_id body]
  | .forEach v e body => by
      rw [Stmt.relabel, e.relabel_id, Stmt.relabelAll_id body]
      rfl

theorem Branch.relabel_id : ∀ b : Branch, b.relabel id = b
  | .mk t body alternate => by
      rw [Branch.relabel, t.relabel_id, Stmt.relabelAll_id body, alternate.relabel_id]

theorem Alternate.relabel_id : ∀ a : Alternate, a.relabel id = a
  | .none => rfl
  | .block body => by rw [Alternate.relabel, Stmt.relabelAll_id body]
  | .elseIf next => by rw [Alternate.relabel, next.relabel_id]

theorem Stmt.relabelAll_id : ∀ ss : List Stmt, Stmt.relabelAll id ss = ss
  | [] => rfl
  | s :: ss => by rw [Stmt.relabelAll, s.relabel_id, Stmt.relabelAll_id ss]

end

end Resolved

/-! ## 3. Scopes, sessions and catalogs -/

/-- The scopes with all names replaced. -/
def Scopes.relabel (s : Scopes) : Scopes :=
  s.transform r (Entity.relabel r) (Decl.Function.relabel r)

/-- The session with all names replaced. -/
def Session.relabel (s : Session) : Session := ⟨s.scopes.relabel r, s.serial⟩

/-- The catalog with all names replaced, those of its entries and those of its entities. -/
def Catalog.relabel (c : Catalog) : Catalog := ⟨c.entries.map fun b => (r b.1, b.2.relabel r)⟩

theorem map_relabel_id (bs : List (String × Entity)) :
    (bs.map fun b => (id b.1, b.2.relabel id)) = bs := by
  simp only [Entity.relabel_id]
  exact List.map_id bs

theorem Frame.transform_id (g : Frame) :
    g.transform id (Entity.relabel id) (Decl.Function.relabel id) = g := by
  have hfunction : g.function.map (Decl.Function.relabel id) = g.function := Option.map_id_apply
  unfold transform
  rw [map_relabel_id, hfunction]

@[simp] theorem Session.relabel_id (s : Session) : s.relabel id = s := by
  have houter : s.scopes.outer.map
      (Frame.transform id (Entity.relabel id) (Decl.Function.relabel id)) = s.scopes.outer :=
    List.map_id'' Frame.transform_id s.scopes.outer
  unfold Session.relabel Scopes.relabel Scopes.transform
  rw [Frame.transform_id, houter]

theorem Catalog.relabel_id (c : Catalog) : c.relabel id = c := by
  unfold relabel
  rw [map_relabel_id]

/-- Identities have no names in them. -/
theorem Catalog.identities_relabel (c : Catalog) : (c.relabel r).identities = c.identities := by
  have hentry : ((fun b : String × Entity => b.2.identity?) ∘
      fun b : String × Entity => (r b.1, b.2.relabel r)) = fun b => b.2.identity? :=
    funext fun b => b.2.identity?_relabel r
  unfold identities relabel
  rw [List.filterMap_map, hentry]

theorem Catalog.firstSerial_relabel (c : Catalog) : (c.relabel r).firstSerial = c.firstSerial := by
  unfold firstSerial
  rw [identities_relabel]

/-! ## 4. Diagnostics, events and results -/

/-- The problem with the name in it replaced. -/
def Problem.relabel : Problem → Problem
  | notDeclared name => notDeclared (r name)
  | alreadyDeclared name => alreadyDeclared (r name)
  | constantTarget name => constantTarget (r name)
  | fault reason => fault (reason.relabel r)
  | problem => problem

/-- The diagnostic with its name and its span replaced; one that lies nowhere stays there. -/
def Diagnostic.relabel (d : Diagnostic) : Diagnostic := ⟨d.problem.relabel r, d.span.map f⟩

/-- The event with its names and spans replaced. -/
def Event.relabel : Event → Event
  | declared scope name ty => declared scope (r name) ty
  | declaredFunction name signature => declaredFunction (r name) signature
  | resolved name scope => resolved (r name) scope
  | failed d => failed (d.relabel r f)
  | event => event

theorem Problem.relabel_id (p : Problem) : p.relabel id = p := by
  cases p with
  | fault reason => exact congrArg fault reason.relabel_id
  | _ => rfl

section

variable {α β : Type} (g : α → β)

/-- A value replaced, or a diagnostic relabelled. -/
def relabelResult : Except Diagnostic α → Except Diagnostic β
  | .ok a => .ok (g a)
  | .error d => .error (d.relabel r f)

/-- A result and the events before it, relabelled. -/
def Traced.relabel (x : Traced α) : Traced β :=
  ⟨relabelResult r f g x.result, x.log.map (Event.relabel r f)⟩

/-- What a computation leaves, relabelled. -/
def Outcome.relabel (o : Outcome α) : Outcome β :=
  ⟨relabelResult r f g o.result, o.session.relabel r, o.log.map (Event.relabel r f)⟩

end

end Sema
