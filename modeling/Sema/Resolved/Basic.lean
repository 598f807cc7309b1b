import Sema.Entity
import Sema.Binary64
import Sema.Syntax.Operator
import Sema.Syntax.Basic

/-!
# Resolved trees

The tree of an accepted program: every name has been replaced by the entity it denotes, every
expression carries its type, and written types have become types. It has no spans.
-/

namespace Sema.Resolved

mutual

/-- An expression with its type. -/
inductive Expr where
  | mk (form : Form) (ty : Ty)

/-- What an expression is, apart from its type. -/
inductive Form where
  | int (value : Int64)
  | float (value : Binary64)
  | bool (value : Bool)
  | str (value : String)
  /-- A resolved name. -/
  | entity (entity : Entity)
  | conditional (test consequent alternate : Expr)
  | logical (op : Connective) (operands : List Expr)
  | binary (op : BinaryOp) (left right : Expr)
  | unary (op : UnaryOp) (operand : Expr)
  | subscript (list index : Expr)
  | list (elements : List Expr)
  | emptyList (element : Ty)
  | call (callee : Expr) (arguments : List Expr)

end

instance : Inhabited Form := ⟨.int 0⟩

instance : Inhabited Expr := ⟨.mk default .int⟩

namespace Expr

/-- What an expression is, apart from its type. -/
def form : Expr → Form
  | mk form _ => form

/-- The type of an expression. -/
def ty : Expr → Ty
  | mk _ ty => ty

/-- The entity that an expression names, if it is nothing but a name. -/
def entity? (e : Expr) : Option Entity :=
  match e.form with
  | .entity entity => some entity
  | _ => none

end Expr

mutual

/-- A statement. -/
inductive Stmt where
  | declare (declared : Decl.Variable) (init : Expr)
  | function (declared : Decl.Function) (parameters : List Decl.Parameter) (body : List Stmt)
  | step (dir : Step) (target : Expr)
  | assign (target source : Expr)
  | exitLoop
  | returnValue (value : Expr)
  | returnNothing
  | branch (branch : Branch)
  | whileLoop (test : Expr) (body : List Stmt)
  | forEach (iterator : Decl.Variable) (collection : Expr) (body : List Stmt)
  | eval (expr : Expr)

/-- An `if` with its alternate. -/
inductive Branch where
  | mk (test : Expr) (consequent : List Stmt) (alternate : Alternate)

/-- What follows `else`. -/
inductive Alternate where
  | none
  | block (body : List Stmt)
  | elseIf (next : Branch)

end

instance : Inhabited Stmt := ⟨.exitLoop⟩

/-- A resolved program is its statements in order. -/
abbrev Program := List Stmt

end Sema.Resolved
