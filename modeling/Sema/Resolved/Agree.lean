import Sema.Resolved.Basic

/-!
# Comparing resolved trees

Two resolved trees agree when they have the same shape, operators, values and types, and entities
that are declared alike; which declarations these come from does not matter. Floating-point literals
are compared as numbers.
-/

namespace Sema.Resolved

mutual

/-- Agreement of expressions. -/
def Expr.agrees : Expr → Expr → Bool
  | .mk f t, .mk g u => f.agrees g && t == u
termination_by structural a => a

/-- Agreement of forms. -/
def Form.agrees : Form → Form → Bool
  | .int v, .int w => v == w
  | .float v, .float w => v.agrees w
  | .bool v, .bool w => v == w
  | .str v, .str w => v == w
  | .entity e, .entity f => e.agrees f
  | .conditional a b c, .conditional a' b' c' => a.agrees a' && b.agrees b' && c.agrees c'
  | .logical o es, .logical p fs => o == p && Expr.agreesAll es fs
  | .binary o l r, .binary p l' r' => o == p && l.agrees l' && r.agrees r'
  | .unary o e, .unary p f => o == p && e.agrees f
  | .subscript l i, .subscript l' i' => l.agrees l' && i.agrees i'
  | .list es, .list fs => Expr.agreesAll es fs
  | .emptyList t, .emptyList u => t == u
  | .call f es, .call g fs => f.agrees g && Expr.agreesAll es fs
  | _, _ => false
termination_by structural a => a

/-- Agreement of lists of expressions. -/
def Expr.agreesAll : List Expr → List Expr → Bool
  | [], [] => true
  | a :: as, b :: bs => a.agrees b && Expr.agreesAll as bs
  | _, _ => false
termination_by structural a => a

end

/-- Agreement of lists of parameters. -/
def parametersAgree : List Decl.Parameter → List Decl.Parameter → Bool
  | [], [] => true
  | p :: ps, q :: qs => p.agrees q && parametersAgree ps qs
  | _, _ => false

mutual

/-- Agreement of statements. -/
def Stmt.agrees : Stmt → Stmt → Bool
  | .declare v e, .declare w f => v.agrees w && e.agrees f
  | .function f ps b, .function g qs c => f.agrees g && parametersAgree ps qs && Stmt.agreesAll b c
  | .step d e, .step c f => d == c && e.agrees f
  | .assign a e, .assign b f => a.agrees b && e.agrees f
  | .exitLoop, .exitLoop => true
  | .returnValue e, .returnValue f => e.agrees f
  | .returnNothing, .returnNothing => true
  | .branch a, .branch b => a.agrees b
  | .whileLoop e b, .whileLoop f c => e.agrees f && Stmt.agreesAll b c
  | .forEach v e b, .forEach w f c => v.agrees w && e.agrees f && Stmt.agreesAll b c
  | .eval e, .eval f => e.agrees f
  | _, _ => false
termination_by structural a => a

/-- Agreement of `if`s. -/
def Branch.agrees : Branch → Branch → Bool
  | .mk e c a, .mk f d b => e.agrees f && Stmt.agreesAll c d && a.agrees b
termination_by structural a => a

/-- Agreement of alternates. -/
def Alternate.agrees : Alternate → Alternate → Bool
  | .none, .none => true
  | .block b, .block c => Stmt.agreesAll b c
  | .elseIf a, .elseIf b => a.agrees b
  | _, _ => false
termination_by structural a => a

/-- Agreement of lists of statements. -/
def Stmt.agreesAll : List Stmt → List Stmt → Bool
  | [], [] => true
  | a :: as, b :: bs => a.agrees b && Stmt.agreesAll as bs
  | _, _ => false
termination_by structural a => a

end

end Sema.Resolved
