import Sema.Check.Expect

/-!
# Checking written types and expressions

Both only read the open scopes `Γ`. Names are resolved from the current scope outward; a name in a
written type has to denote a type. Operands are checked from left to right, and the rule of a node
is applied after its operands, with two exceptions: the test of a conditional has to be a truth
value before its arms are looked at, and what is called has to be callable before its arguments are.
-/

namespace Sema

open Traced

/-- Resolves a name that stands at `span`. -/
def Scopes.resolve (Γ : Scopes) (name : String) (span : Span) : Traced Entity :=
  match Γ.locate? name with
  | some (scope, e) => ⟨.ok e, [.resolved name scope]⟩
  | none => fail (.notDeclared name) span

mutual

/-- The type that a written type stands for. -/
def TypeExpr.resolve (Γ : Scopes) : TypeExpr → Traced Ty
  | .named x span => do
      match ← Γ.resolve x span with
      | .type t => return t
      | _ => fail .typeExpected span
  | .list element _ => do
      return .list (← element.resolve Γ)
  | .function parameters result _ => do
      let parameters ← TypeExpr.resolveAll Γ parameters
      let result ← result.resolve Γ
      return .function parameters result

/-- The types that written types stand for. -/
def TypeExpr.resolveAll (Γ : Scopes) : List TypeExpr → Traced (List Ty)
  | [] => return []
  | t :: ts => do
      let t ← t.resolve Γ
      let ts ← TypeExpr.resolveAll Γ ts
      return t :: ts

end

/-- Every operand is a truth value, each at its own span. -/
def expectBools : List Resolved.Expr → List Expr → Traced Unit
  | r :: rs, e :: es => do
      expectBool r.ty e.span
      expectBools rs es
  | _, _ => pure ()

/-- The type of a binary operation. -/
def BinaryOp.check (op : BinaryOp) (left right : Ty) (span : Span) : Traced Ty := do
  expectOperand left span op.operands
  expectSame left right span
  return if op.yieldsBool then .bool else left

/-- The type of a unary operation. -/
def UnaryOp.check (op : UnaryOp) (operand : Ty) (span : Span) : Traced Ty :=
  match op with
  | .negate => do
      expectNumber operand span
      return operand
  | .not => do
      expectBool operand span
      return .bool

mutual

/-- An expression with its names resolved and its type. -/
def Expr.check (Γ : Scopes) : Expr → Traced Resolved.Expr
  | .int v _ => return .mk (.int v) .int
  | .float v _ => return .mk (.float v) .float
  | .bool v _ => return .mk (.bool v) .bool
  | .str v _ => return .mk (.str v) .str
  | .name x span => do
      let e ← Γ.resolve x span
      return .mk (.entity e) e.ty
  | .conditional test consequent alternate span => do
      let t ← test.check Γ
      expectBool t.ty test.span
      let c ← consequent.check Γ
      let a ← alternate.check Γ
      expectSame c.ty a.ty span
      return .mk (.conditional t c a) c.ty
  | .logical op operands _ => do
      let rs ← Expr.checkAll Γ operands
      expectBools rs operands
      return .mk (.logical op rs) .bool
  | .binary op left right span => do
      let l ← left.check Γ
      let r ← right.check Γ
      let ty ← op.check l.ty r.ty span
      return .mk (.binary op l r) ty
  | .unary op operand span => do
      let e ← operand.check Γ
      let ty ← op.check e.ty span
      return .mk (.unary op e) ty
  | .subscript items index _ => do
      let l ← items.check Γ
      let element ← expectList l.ty items.span
      let i ← index.check Γ
      expectInteger i.ty index.span
      return .mk (.subscript l i) element
  | .list elements span => do
      let rs ← Expr.checkAll Γ elements
      let element ← expectUniform (rs.map (·.ty)) span
      return .mk (.list rs) (.list element)
  | .emptyList element _ => do
      let t ← element.resolve Γ
      return .mk (.emptyList t) (.list t)
  | .call callee arguments span => do
      let f ← callee.check Γ
      let signature ← expectCallable f.ty span
      let rs ← Expr.checkAll Γ arguments
      expectArguments (rs.map (·.ty)) signature.parameters span
      return .mk (.call f rs) signature.result

/-- Expressions, checked from left to right. -/
def Expr.checkAll (Γ : Scopes) : List Expr → Traced (List Resolved.Expr)
  | [] => return []
  | e :: es => do
      let r ← e.check Γ
      let rs ← Expr.checkAll Γ es
      return r :: rs

end

end Sema
