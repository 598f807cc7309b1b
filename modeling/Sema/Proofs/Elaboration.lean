import Mathlib.Data.Finmap
import Sema.Catalog
import Sema.Proofs.Assignability
import Sema.Resolved.Basic

/-!
# The elaboration judgement

Which resolved program a program stands for, said by rules instead of by a run. Scopes are values
here: a `Layer` is a finite map from names to entities with a loop flag and an enclosing function,
and an `Env` is a layer with the layers around it. A rule reads its environment and extends it for
other premises; nothing is changed, closed or counted, and no premise comes before another.

* `TypeExpr.Denotes`, `Expr.Elaborates`: written types and expressions;
* `Stmt.Elaborates` with its companions: statements; the statements after a declaration stand in the
  environment that it extends (`Env.after`);
* `Elaborates`: a whole program against a catalog. Each declaration of the program has an identity
  of its own, and none of them is one of the catalog's; which identities they are is left open.
-/

namespace Sema

/-! ## 1. Environments -/

/-- One scope: its names and its control context. -/
structure Layer where
  names : Finmap fun _ : String => Entity
  inLoop : Bool
  function : Option Decl.Function

/-- The layer with one more name. -/
def Layer.bind (l : Layer) (name : String) (e : Entity) : Layer :=
  { l with names := l.names.insert name e }

/-- The scopes around a place: the innermost one and those around it. -/
structure Env where
  inner : Layer
  outer : List Layer

namespace Env

/-- The environment whose only scope holds a catalog. -/
def ofCatalog (c : Catalog) : Env :=
  ⟨⟨(c.entries.map fun entry => (⟨entry.1, entry.2⟩ : Σ _ : String, Entity)).toFinmap,
    false, none⟩, []⟩

/-- The layers from the inside out. -/
def layers (Γ : Env) : List Layer := Γ.inner :: Γ.outer

/-- What a name denotes: its meaning in the innermost layer that has it. -/
def lookup (Γ : Env) (name : String) : Option Entity :=
  Γ.layers.findSome? fun l => l.names.lookup name

/-- The innermost layer does not have the name. -/
def Free (Γ : Env) (name : String) : Prop := Γ.inner.names.lookup name = none

/-- A further name in the innermost layer. -/
def bind (Γ : Env) (name : String) (e : Entity) : Env :=
  { Γ with inner := Γ.inner.bind name e }

/-- A new layer for a branch: the context stays. -/
def block (Γ : Env) : Env := ⟨⟨∅, Γ.inner.inLoop, Γ.inner.function⟩, Γ.layers⟩

/-- A new layer for a loop, which may be left. -/
def loop (Γ : Env) : Env := ⟨⟨∅, true, Γ.inner.function⟩, Γ.layers⟩

/-- A new layer for the body of a function: no loop around it may be left. -/
def body (Γ : Env) (function : Option Decl.Function) : Env := ⟨⟨∅, false, function⟩, Γ.layers⟩

/-- Parameters as further names. -/
def bindParameters (Γ : Env) (ds : List Decl.Parameter) : Env :=
  ds.foldl (fun Δ d => Δ.bind d.name (.param d)) Γ

/-- The environment of the statements after a given one: what it declares is visible to them. -/
def after (Γ : Env) : Resolved.Stmt → Env
  | .declare v _ => Γ.bind v.name (.var v)
  | .function f _ _ => Γ.bind f.name (.func f)
  | _ => Γ

end Env

/-! ## 2. Written types -/

/-- A written type stands for a type: a name has to denote one. -/
inductive TypeExpr.Denotes (Γ : Env) : TypeExpr → Ty → Prop where
  | named {x : String} {t : Ty} {span : Span} (found : Γ.lookup x = some (.type t)) :
      Denotes Γ (.named x span) t
  | list {element : TypeExpr} {t : Ty} {span : Span} (he : Denotes Γ element t) :
      Denotes Γ (.list element span) (.list t)
  | function {parameters : List TypeExpr} {result : TypeExpr} {ts : List Ty} {t : Ty} {span : Span}
      (hps : List.Forall₂ (Denotes Γ) parameters ts) (hr : Denotes Γ result t) :
      Denotes Γ (.function parameters result span) (.function ts t)

/-! ## 3. Operators -/

/-- The operand type and the result type of a binary operator; both operands have that type. -/
inductive BinaryOp.Typed : BinaryOp → Ty → Ty → Prop where
  | add {t : Ty} (ht : t = .int ∨ t = .float ∨ t = .str) : Typed .add t t
  | arithmetic {op : BinaryOp} {t : Ty}
      (hop : op ∈ [subtract, multiply, divide, modulo, power]) (ht : t = .int ∨ t = .float) :
      Typed op t t
  | comparison {op : BinaryOp} {t : Ty} (hop : op ∈ [less, lessEqual, greater, greaterEqual])
      (ht : t = .int ∨ t = .float ∨ t = .str) : Typed op t .bool
  | equality {op : BinaryOp} {t : Ty} (hop : op ∈ [equal, notEqual]) : Typed op t .bool

/-- The operand type and the result type of a unary operator. -/
inductive UnaryOp.Typed : UnaryOp → Ty → Ty → Prop where
  | negate {t : Ty} (ht : t = .int ∨ t = .float) : Typed .negate t t
  | not : Typed .not .bool .bool

/-! ## 4. Expressions -/

/-- An expression stands for a resolved one, which carries its type. -/
inductive Expr.Elaborates (Γ : Env) : Expr → Resolved.Expr → Prop where
  | int {v : Int64} {span : Span} : Elaborates Γ (.int v span) (.mk (.int v) .int)
  | float {v : Binary64} {span : Span} : Elaborates Γ (.float v span) (.mk (.float v) .float)
  | bool {v : Bool} {span : Span} : Elaborates Γ (.bool v span) (.mk (.bool v) .bool)
  | str {v : String} {span : Span} : Elaborates Γ (.str v span) (.mk (.str v) .str)
  | name {x : String} {e : Entity} {span : Span} (found : Γ.lookup x = some e) :
      Elaborates Γ (.name x span) (.mk (.entity e) e.ty)
  | conditional {test consequent alternate : Expr} {t c a : Resolved.Expr} {span : Span}
      (ht : Elaborates Γ test t) (hc : Elaborates Γ consequent c) (ha : Elaborates Γ alternate a)
      (isBool : t.ty = .bool) (same : c.ty = a.ty) :
      Elaborates Γ (.conditional test consequent alternate span) (.mk (.conditional t c a) c.ty)
  | logical {op : Connective} {operands : List Expr} {rs : List Resolved.Expr} {span : Span}
      (hrs : List.Forall₂ (Elaborates Γ) operands rs) (areBool : ∀ r ∈ rs, r.ty = .bool) :
      Elaborates Γ (.logical op operands span) (.mk (.logical op rs) .bool)
  | binary {op : BinaryOp} {left right : Expr} {l r : Resolved.Expr} {ty : Ty} {span : Span}
      (hl : Elaborates Γ left l) (hr : Elaborates Γ right r) (same : l.ty = r.ty)
      (typed : op.Typed l.ty ty) :
      Elaborates Γ (.binary op left right span) (.mk (.binary op l r) ty)
  | unary {op : UnaryOp} {operand : Expr} {r : Resolved.Expr} {ty : Ty} {span : Span}
      (hr : Elaborates Γ operand r) (typed : op.Typed r.ty ty) :
      Elaborates Γ (.unary op operand span) (.mk (.unary op r) ty)
  | subscript {items index : Expr} {l i : Resolved.Expr} {element : Ty} {span : Span}
      (hl : Elaborates Γ items l) (hi : Elaborates Γ index i) (isList : l.ty = .list element)
      (isInt : i.ty = .int) :
      Elaborates Γ (.subscript items index span) (.mk (.subscript l i) element)
  | list {elements : List Expr} {rs : List Resolved.Expr} {element : Ty} {span : Span}
      (hrs : List.Forall₂ (Elaborates Γ) elements rs) (nonempty : rs ≠ [])
      (same : ∀ r ∈ rs, r.ty = element) :
      Elaborates Γ (.list elements span) (.mk (.list rs) (.list element))
  | emptyList {element : TypeExpr} {t : Ty} {span : Span} (ht : element.Denotes Γ t) :
      Elaborates Γ (.emptyList element span) (.mk (.emptyList t) (.list t))
  | call {callee : Expr} {arguments : List Expr} {f : Resolved.Expr} {rs : List Resolved.Expr}
      {parameters : List Ty} {result : Ty} {span : Span}
      (hf : Elaborates Γ callee f) (hrs : List.Forall₂ (Elaborates Γ) arguments rs)
      (isFunction : f.ty = .function parameters result)
      (assignable : List.Forall₂ (fun r p => Ty.Assignable r.ty p) rs parameters) :
      Elaborates Γ (.call callee arguments span) (.mk (.call f rs) result)

/-! ## 5. Statements -/

/-- What can be counted up and down: a variable, a parameter or a list element. -/
inductive Resolved.Expr.Countable : Resolved.Expr → Prop where
  | var {v : Decl.Variable} {ty : Ty} : Countable (.mk (.entity (.var v)) ty)
  | param {p : Decl.Parameter} {ty : Ty} : Countable (.mk (.entity (.param p)) ty)
  | element {l i : Resolved.Expr} {ty : Ty} : Countable (.mk (.subscript l i) ty)

/-- Not the name of a read-only variable. -/
def Resolved.Expr.Writable (r : Resolved.Expr) : Prop :=
  ∀ v : Decl.Variable, r.form = .entity (.var v) → v.readOnly = false

/-- The result type of a function; without one it yields nothing. -/
inductive ResultDenotes (Γ : Env) : Option TypeExpr → Ty → Prop where
  | none : ResultDenotes Γ none .void
  | some {type : TypeExpr} {t : Ty} (ht : type.Denotes Γ t) : ResultDenotes Γ (some type) t

/-- Parameters: each has a name of its own, and hides what that name meant for the types of those
    after it. -/
inductive Parameter.ElaboratesAll : Env → List Parameter → List Decl.Parameter → Prop where
  | nil {Γ : Env} : ElaboratesAll Γ [] []
  | cons {Γ : Env} {p : Parameter} {ps : List Parameter} {i : Identity} {t : Ty}
      {ds : List Decl.Parameter} (ht : p.type.Denotes Γ t) (free : Γ.Free p.name)
      (hds : ElaboratesAll (Γ.bind p.name (.param ⟨i, p.name, t⟩)) ps ds) :
      ElaboratesAll Γ (p :: ps) (⟨i, p.name, t⟩ :: ds)

mutual

/-- A statement stands for a resolved one. -/
inductive Stmt.Elaborates : Env → Stmt → Resolved.Stmt → Prop where
  | declare {Γ : Env} {x : String} {readOnly : Bool} {init : Expr} {span : Span} {i : Identity}
      {r : Resolved.Expr} (hr : init.Elaborates Γ r) (free : Γ.Free x) :
      Stmt.Elaborates Γ (.declare x readOnly init span) (.declare ⟨i, x, readOnly, r.ty⟩ r)
  | function {Γ : Env} {name : String} {parameters : List Parameter} {result : Option TypeExpr}
      {body : List Stmt} {span : Span} {i : Identity} {t : Ty} {ds : List Decl.Parameter}
      {f : Decl.Function} {rs : List Resolved.Stmt} (ht : ResultDenotes Γ result t)
      (hds : Parameter.ElaboratesAll (Γ.body none) parameters ds) (free : Γ.Free name)
      (hf : f = ⟨i, name, ⟨ds.map (·.ty), t⟩⟩)
      (hrs : Stmt.ElaboratesAll (((Γ.bind name (.func f)).body (some f)).bindParameters ds) body
        rs) :
      Stmt.Elaborates Γ (.function name parameters result body span) (.function f ds rs)
  | step {Γ : Env} {dir : Step} {target : Expr} {span : Span} {r : Resolved.Expr}
      (hr : target.Elaborates Γ r) (isInt : r.ty = .int) (countable : r.Countable)
      (writable : r.Writable) : Stmt.Elaborates Γ (.step dir target span) (.step dir r)
  | assign {Γ : Env} {target source : Expr} {span : Span} {place value : Resolved.Expr}
      (hplace : target.Elaborates Γ place) (hvalue : source.Elaborates Γ value)
      (assignable : Ty.Assignable value.ty place.ty) (writable : place.Writable) :
      Stmt.Elaborates Γ (.assign target source span) (.assign place value)
  | exitLoop {Γ : Env} {span : Span} (inLoop : Γ.inner.inLoop = true) :
      Stmt.Elaborates Γ (.exitLoop span) .exitLoop
  | returnValue {Γ : Env} {value : Expr} {span : Span} {f : Decl.Function} {r : Resolved.Expr}
      (inside : Γ.inner.function = some f) (yields : f.signature.result ≠ .void)
      (hr : value.Elaborates Γ r) (assignable : Ty.Assignable r.ty f.signature.result) :
      Stmt.Elaborates Γ (.returnValue value span) (.returnValue r)
  | returnNothing {Γ : Env} {span : Span} {f : Decl.Function}
      (inside : Γ.inner.function = some f) (yields : f.signature.result = .void) :
      Stmt.Elaborates Γ (.returnNothing span) .returnNothing
  | branch {Γ : Env} {b : Branch} {r : Resolved.Branch} (hr : Branch.Elaborates Γ b r) :
      Stmt.Elaborates Γ (.branch b) (.branch r)
  | whileLoop {Γ : Env} {test : Expr} {body : List Stmt} {span : Span} {t : Resolved.Expr}
      {rs : List Resolved.Stmt} (ht : test.Elaborates Γ t) (isBool : t.ty = .bool)
      (hrs : Stmt.ElaboratesAll Γ.loop body rs) :
      Stmt.Elaborates Γ (.whileLoop test body span) (.whileLoop t rs)
  | forEach {Γ : Env} {x : String} {collection : Expr} {body : List Stmt} {span : Span}
      {i : Identity} {r : Resolved.Expr} {element : Ty} {rs : List Resolved.Stmt}
      (hr : collection.Elaborates Γ r) (isList : r.ty = .list element)
      (hrs : Stmt.ElaboratesAll (Γ.loop.bind x (.var ⟨i, x, true, element⟩)) body rs) :
      Stmt.Elaborates Γ (.forEach x collection body span)
        (.forEach ⟨i, x, true, element⟩ r rs)
  | eval {Γ : Env} {expr : Expr} {span : Span} {r : Resolved.Expr} (hr : expr.Elaborates Γ r) :
      Stmt.Elaborates Γ (.eval expr span) (.eval r)

/-- An `if` stands for a resolved one; each branch has a layer of its own. -/
inductive Branch.Elaborates : Env → Branch → Resolved.Branch → Prop where
  | mk {Γ : Env} {test : Expr} {consequent : List Stmt} {alternate : Alternate} {span : Span}
      {t : Resolved.Expr} {rs : List Resolved.Stmt} {a : Resolved.Alternate}
      (ht : test.Elaborates Γ t) (isBool : t.ty = .bool)
      (hrs : Stmt.ElaboratesAll Γ.block consequent rs) (ha : Alternate.Elaborates Γ alternate a) :
      Branch.Elaborates Γ (.mk test consequent alternate span) (.mk t rs a)

/-- What follows `else`. -/
inductive Alternate.Elaborates : Env → Alternate → Resolved.Alternate → Prop where
  | none {Γ : Env} : Alternate.Elaborates Γ .none .none
  | block {Γ : Env} {body : List Stmt} {rs : List Resolved.Stmt}
      (hrs : Stmt.ElaboratesAll Γ.block body rs) : Alternate.Elaborates Γ (.block body) (.block rs)
  | elseIf {Γ : Env} {next : Branch} {r : Resolved.Branch} (hr : Branch.Elaborates Γ next r) :
      Alternate.Elaborates Γ (.elseIf next) (.elseIf r)

/-- Statements in a row, each in the environment that those before it extend. -/
inductive Stmt.ElaboratesAll : Env → List Stmt → List Resolved.Stmt → Prop where
  | nil {Γ : Env} : Stmt.ElaboratesAll Γ [] []
  | cons {Γ : Env} {s : Stmt} {ss : List Stmt} {r : Resolved.Stmt} {rs : List Resolved.Stmt}
      (hr : Stmt.Elaborates Γ s r) (hrs : Stmt.ElaboratesAll (Γ.after r) ss rs) :
      Stmt.ElaboratesAll Γ (s :: ss) (r :: rs)

end

/-! ## 6. Programs -/

namespace Resolved

mutual

/-- The identities of what a statement declares, inside it too; a function comes after its
    parameters and before its body. -/
def Stmt.declared : Stmt → List Identity
  | .declare v _ => [v.identity]
  | .function f ps body => ps.map (·.identity) ++ f.identity :: Stmt.declaredAll body
  | .branch b => b.declared
  | .whileLoop _ body => Stmt.declaredAll body
  | .forEach v _ body => v.identity :: Stmt.declaredAll body
  | .step _ _ | .assign _ _ | .exitLoop | .returnValue _ | .returnNothing | .eval _ => []

/-- The identities of what an `if` declares. -/
def Branch.declared : Branch → List Identity
  | .mk _ consequent alternate => Stmt.declaredAll consequent ++ alternate.declared

/-- The identities of what follows `else`. -/
def Alternate.declared : Alternate → List Identity
  | .none => []
  | .block body => Stmt.declaredAll body
  | .elseIf next => next.declared

/-- The identities of what statements declare. -/
def Stmt.declaredAll : List Stmt → List Identity
  | [] => []
  | s :: ss => s.declared ++ Stmt.declaredAll ss

end

end Resolved

/-- A program stands for a resolved program, against a catalog: the rules derive it where the
    catalog is in scope, and each of its declarations is a new one. -/
structure Elaborates (c : Catalog) (p : Program) (R : Resolved.Program) : Prop where
  derived : Stmt.ElaboratesAll (.ofCatalog c) p R
  distinct : (Resolved.Stmt.declaredAll R).Nodup
  fresh : ∀ i ∈ Resolved.Stmt.declaredAll R, i ∉ c.identities

end Sema
