import Sema.Syntax.Basic

/-!
# Comparing trees

Two trees agree when they have the same shape, the same names, values and operators, and the same
spans. Floating-point literals are compared as numbers (`Binary64.agrees`), so a tree that holds a
not-a-number does not agree with itself.
-/

namespace Sema

mutual

/-- Equality of written types, spans included. -/
def TypeExpr.agrees : TypeExpr → TypeExpr → Bool
  | .named x s, .named y t => x == y && s == t
  | .list a s, .list b t => a.agrees b && s == t
  | .function ps r s, .function qs q t => TypeExpr.agreesAll ps qs && r.agrees q && s == t
  | _, _ => false
termination_by structural a => a

/-- Equality of lists of written types. -/
def TypeExpr.agreesAll : List TypeExpr → List TypeExpr → Bool
  | [], [] => true
  | a :: as, b :: bs => a.agrees b && TypeExpr.agreesAll as bs
  | _, _ => false
termination_by structural a => a

end

mutual

/-- Agreement of expressions. -/
def Expr.agrees : Expr → Expr → Bool
  | .int v s, .int w t => v == w && s == t
  | .float v s, .float w t => v.agrees w && s == t
  | .bool v s, .bool w t => v == w && s == t
  | .str v s, .str w t => v == w && s == t
  | .name x s, .name y t => x == y && s == t
  | .conditional a b c s, .conditional a' b' c' t =>
      a.agrees a' && b.agrees b' && c.agrees c' && s == t
  | .logical o es s, .logical p fs t => o == p && Expr.agreesAll es fs && s == t
  | .binary o l r s, .binary p l' r' t => o == p && l.agrees l' && r.agrees r' && s == t
  | .unary o e s, .unary p f t => o == p && e.agrees f && s == t
  | .subscript l i s, .subscript l' i' t => l.agrees l' && i.agrees i' && s == t
  | .list es s, .list fs t => Expr.agreesAll es fs && s == t
  | .emptyList a s, .emptyList b t => a.agrees b && s == t
  | .call f es s, .call g fs t => f.agrees g && Expr.agreesAll es fs && s == t
  | _, _ => false
termination_by structural a => a

/-- Agreement of lists of expressions. -/
def Expr.agreesAll : List Expr → List Expr → Bool
  | [], [] => true
  | a :: as, b :: bs => a.agrees b && Expr.agreesAll as bs
  | _, _ => false
termination_by structural a => a

end

/-- Agreement of parameters. -/
def Parameter.agrees (p q : Parameter) : Bool :=
  p.name == q.name && p.type.agrees q.type && p.span == q.span

/-- Agreement of lists of parameters. -/
def Parameter.agreesAll : List Parameter → List Parameter → Bool
  | [], [] => true
  | p :: ps, q :: qs => p.agrees q && Parameter.agreesAll ps qs
  | _, _ => false

/-- Agreement of result types, where both may be missing. -/
def TypeExpr.agreesOption : Option TypeExpr → Option TypeExpr → Bool
  | none, none => true
  | some a, some b => a.agrees b
  | _, _ => false

mutual

/-- Agreement of statements. -/
def Stmt.agrees : Stmt → Stmt → Bool
  | .declare x r e s, .declare y q f t => x == y && r == q && e.agrees f && s == t
  | .function f ps r b s, .function g qs q c t =>
      f == g && Parameter.agreesAll ps qs && TypeExpr.agreesOption r q && Stmt.agreesAll b c &&
        s == t
  | .step d e s, .step c f t => d == c && e.agrees f && s == t
  | .assign a e s, .assign b f t => a.agrees b && e.agrees f && s == t
  | .exitLoop s, .exitLoop t => s == t
  | .returnValue e s, .returnValue f t => e.agrees f && s == t
  | .returnNothing s, .returnNothing t => s == t
  | .branch a, .branch b => a.agrees b
  | .whileLoop e b s, .whileLoop f c t => e.agrees f && Stmt.agreesAll b c && s == t
  | .forEach x e b s, .forEach y f c t => x == y && e.agrees f && Stmt.agreesAll b c && s == t
  | .eval e s, .eval f t => e.agrees f && s == t
  | _, _ => false
termination_by structural a => a

/-- Agreement of `if`s. -/
def Branch.agrees : Branch → Branch → Bool
  | .mk e c a s, .mk f d b t => e.agrees f && Stmt.agreesAll c d && a.agrees b && s == t
termination_by structural a => a

/-- Agreement of alternates. -/
def Alternate.agrees : Alternate → Alternate → Bool
  | .none, .none => true
  | .block b, .block c => Stmt.agreesAll b c
  | .elseIf a, .elseIf b => a.agrees b
  | _, _ => false
termination_by structural a => a

/-- Agreement of lists of statements. -/
def Stmt.agreesAll : List Stmt → List Stmt → Bool
  | [], [] => true
  | a :: as, b :: bs => a.agrees b && Stmt.agreesAll as bs
  | _, _ => false
termination_by structural a => a

end

end Sema
