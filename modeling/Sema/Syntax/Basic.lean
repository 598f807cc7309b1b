import Sema.Span
import Sema.Binary64
import Sema.Syntax.Operator

/-!
# Syntax trees

The tree of a program before analysis: names are plain strings, and no node has a type yet. Every
node carries the span it was read from.

An `if` statement is a `Branch`: its alternate is nothing, a block, or another branch (an
*else if*), which has a span of its own.
-/

namespace Sema

/-- A type as it is written in a program. -/
inductive TypeExpr where
  | named (name : String) (span : Span)
  | list (element : TypeExpr) (span : Span)
  | function (parameters : List TypeExpr) (result : TypeExpr) (span : Span)
deriving Inhabited

/-- An expression. -/
inductive Expr where
  | int (value : Int64) (span : Span)
  | float (value : Binary64) (span : Span)
  | bool (value : Bool) (span : Span)
  | str (value : String) (span : Span)
  | name (name : String) (span : Span)
  /-- `test ? consequent : alternate` -/
  | conditional (test consequent alternate : Expr) (span : Span)
  /-- Operands joined by one connective; there may be none or only one. -/
  | logical (op : Connective) (operands : List Expr) (span : Span)
  | binary (op : BinaryOp) (left right : Expr) (span : Span)
  | unary (op : UnaryOp) (operand : Expr) (span : Span)
  | subscript (list index : Expr) (span : Span)
  | list (elements : List Expr) (span : Span)
  /-- The empty list with a written element type. -/
  | emptyList (element : TypeExpr) (span : Span)
  | call (callee : Expr) (arguments : List Expr) (span : Span)
deriving Inhabited

/-- A parameter of a function. -/
structure Parameter where
  name : String
  type : TypeExpr
  span : Span
deriving Inhabited

/-- Which way a counter goes. -/
inductive Step where
  | up
  | down
deriving DecidableEq

mutual

/-- A statement. -/
inductive Stmt where
  /-- A new variable, typed by its initial value. -/
  | declare (name : String) (readOnly : Bool) (init : Expr) (span : Span)
  /-- A new function; without a result type it yields nothing. -/
  | function (name : String) (parameters : List Parameter) (result : Option TypeExpr)
      (body : List Stmt) (span : Span)
  /-- Counts an integer up or down by one. -/
  | step (dir : Step) (target : Expr) (span : Span)
  | assign (target source : Expr) (span : Span)
  /-- Leaves the innermost loop. -/
  | exitLoop (span : Span)
  /-- Leaves the function with a value. -/
  | returnValue (value : Expr) (span : Span)
  /-- Leaves the function without a value. -/
  | returnNothing (span : Span)
  | branch (branch : Branch)
  | whileLoop (test : Expr) (body : List Stmt) (span : Span)
  /-- Runs the body once for each element of a list. -/
  | forEach (iterator : String) (collection : Expr) (body : List Stmt) (span : Span)
  | eval (expr : Expr) (span : Span)

/-- An `if` with its alternate. -/
inductive Branch where
  | mk (test : Expr) (consequent : List Stmt) (alternate : Alternate) (span : Span)

/-- What follows `else`. -/
inductive Alternate where
  | none
  | block (body : List Stmt)
  | elseIf (next : Branch)

end

instance : Inhabited Stmt := ⟨.exitLoop .origin⟩

instance : Inhabited Branch := ⟨.mk default [] .none .origin⟩

/-- A program is its statements in order. -/
abbrev Program := List Stmt

/-! ## Spans -/

/-- The span of a written type. -/
def TypeExpr.span : TypeExpr → Span
  | named _ s | list _ s | function _ _ s => s

/-- The span of an expression. -/
def Expr.span : Expr → Span
  | int _ s | float _ s | bool _ s | str _ s | name _ s | conditional _ _ _ s | logical _ _ s
  | binary _ _ _ s | unary _ _ s | subscript _ _ s | list _ s | emptyList _ s | call _ _ s => s

/-- The span of an `if`. -/
def Branch.span : Branch → Span
  | mk _ _ _ s => s

/-- The span of a statement. -/
def Stmt.span : Stmt → Span
  | declare _ _ _ s | function _ _ _ _ s | step _ _ s | assign _ _ s | exitLoop s | returnValue _ s
  | returnNothing s | whileLoop _ _ s | forEach _ _ _ s | eval _ s => s
  | branch b => b.span

/-! ## Names -/

/-- The name that a statement declares in its block. -/
def Stmt.declares? : Stmt → Option String
  | .declare name _ _ _ | .function name _ _ _ _ => some name
  | _ => none

end Sema
