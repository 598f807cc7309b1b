import Sema.Syntax.Basic

/-!
# The nodes of a tree

Every node of a program in the order in which it is met when a parent comes before its children and
children come in the order in which they are written: a function shows each parameter with its type,
then the result type, then the body; an assignment its target before its source.
-/

namespace Sema

/-- A node of a syntax tree. -/
inductive Node where
  | stmt (stmt : Stmt)
  | elseIf (branch : Branch)
  | expr (expr : Expr)
  | parameter (parameter : Parameter)
  | type (type : TypeExpr)

/-- The span of a node. -/
def Node.span : Node → Span
  | stmt s => s.span
  | elseIf b => b.span
  | expr e => e.span
  | parameter p => p.span
  | type t => t.span

mutual

/-- The nodes of a written type, itself first. -/
def TypeExpr.nodes : TypeExpr → List Node
  | .named x s => [.type (.named x s)]
  | .list t s => .type (.list t s) :: t.nodes
  | .function ps r s => .type (.function ps r s) :: (TypeExpr.nodesAll ps ++ r.nodes)

/-- The nodes of written types, one after the other. -/
def TypeExpr.nodesAll : List TypeExpr → List Node
  | [] => []
  | t :: ts => t.nodes ++ TypeExpr.nodesAll ts

end

mutual

/-- The nodes of an expression, itself first. -/
def Expr.nodes : Expr → List Node
  | .int v s => [.expr (.int v s)]
  | .float v s => [.expr (.float v s)]
  | .bool v s => [.expr (.bool v s)]
  | .str v s => [.expr (.str v s)]
  | .name x s => [.expr (.name x s)]
  | .conditional t c a s => .expr (.conditional t c a s) :: (t.nodes ++ c.nodes ++ a.nodes)
  | .logical op es s => .expr (.logical op es s) :: Expr.nodesAll es
  | .binary op l r s => .expr (.binary op l r s) :: (l.nodes ++ r.nodes)
  | .unary op e s => .expr (.unary op e s) :: e.nodes
  | .subscript l i s => .expr (.subscript l i s) :: (l.nodes ++ i.nodes)
  | .list es s => .expr (.list es s) :: Expr.nodesAll es
  | .emptyList t s => .expr (.emptyList t s) :: t.nodes
  | .call f es s => .expr (.call f es s) :: (f.nodes ++ Expr.nodesAll es)

/-- The nodes of expressions, one after the other. -/
def Expr.nodesAll : List Expr → List Node
  | [] => []
  | e :: es => e.nodes ++ Expr.nodesAll es

end

/-- The nodes of a parameter: itself and those of its type. -/
def Parameter.nodes (p : Parameter) : List Node := .parameter p :: p.type.nodes

mutual

/-- The nodes of a statement, itself first. -/
def Stmt.nodes : Stmt → List Node
  | .declare x ro e s => .stmt (.declare x ro e s) :: e.nodes
  | .function f ps r b s =>
      .stmt (.function f ps r b s) ::
        (ps.flatMap Parameter.nodes ++ (r.elim [] TypeExpr.nodes ++ Stmt.nodesAll b))
  | .step d e s => .stmt (.step d e s) :: e.nodes
  | .assign t e s => .stmt (.assign t e s) :: (t.nodes ++ e.nodes)
  | .exitLoop s => [.stmt (.exitLoop s)]
  | .returnValue e s => .stmt (.returnValue e s) :: e.nodes
  | .returnNothing s => [.stmt (.returnNothing s)]
  | .branch b => .stmt (.branch b) :: b.inner
  | .whileLoop t b s => .stmt (.whileLoop t b s) :: (t.nodes ++ Stmt.nodesAll b)
  | .forEach x e b s => .stmt (.forEach x e b s) :: (e.nodes ++ Stmt.nodesAll b)
  | .eval e s => .stmt (.eval e s) :: e.nodes

/-- The nodes below an `if`: test, consequent, alternate. -/
def Branch.inner : Branch → List Node
  | .mk t c a _ => t.nodes ++ (Stmt.nodesAll c ++ a.nodes)

/-- The nodes of what follows `else`; an *else if* is a node. -/
def Alternate.nodes : Alternate → List Node
  | .none => []
  | .block b => Stmt.nodesAll b
  | .elseIf b => .elseIf b :: b.inner

/-- The nodes of statements, one after the other. -/
def Stmt.nodesAll : List Stmt → List Node
  | [] => []
  | s :: ss => s.nodes ++ Stmt.nodesAll ss

end

end Sema
