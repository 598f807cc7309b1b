import Sema.Check.Expr
import Sema.Check.Session

/-!
# Checking statements

Statements are checked in order, each in the session that the one before it left, and the first
problem ends the check.

* A variable is declared after its initial value is checked, so the value cannot mention it.
* A function is declared in the scope around it after its parameters and before its body, so the
  body can call it. The result type is resolved outside the body, and parameter types inside it: a
  parameter's name hides what the same name meant for the parameters after it.
* The body of a loop or of a branch has a scope of its own; an *else if* has none besides the scopes
  of its branches. The iterator of a loop lives in the scope of the body.
* An assignment checks its source before its target.
-/

namespace Sema

open Check

/-! ## 1. Statements without inner statements -/

/-- What `++` and `--` count: an integer that is a variable, and not a constant. -/
def checkCounter (target : Expr) (span : Span) : Check Resolved.Expr :=
  reading fun Γ => do
    let r ← target.check Γ
    Traced.expectInteger r.ty span
    Traced.expectVariable r span
    Traced.expectWritable r span
    return r

/-- An assignment. -/
def checkAssign (target source : Expr) (span : Span) : Check Resolved.Stmt :=
  reading fun Γ => do
    let value ← source.check Γ
    let place ← target.check Γ
    Traced.expectAssignable value.ty place.ty span
    Traced.expectWritable place span
    return .assign place value

/-- The result type of the function around a `return`. -/
def enclosingResult (Γ : Scopes) (span : Span) : Traced Ty :=
  match Γ.currentFunction with
  | some f => pure f.signature.result
  | none => .fail .returnOutsideFunction span

/-- A `return` with a value: only in a function that yields one. -/
def checkReturnValue (value : Expr) (span : Span) : Check Resolved.Stmt :=
  reading fun Γ => do
    let result ← enclosingResult Γ span
    Traced.require (result != .void) .valueReturned span
    let r ← value.check Γ
    Traced.expectAssignable r.ty result span
    return .returnValue r

/-- A `return` without a value: only in a function that yields none. -/
def checkReturnNothing (span : Span) : Check Resolved.Stmt :=
  reading fun Γ => do
    let result ← enclosingResult Γ span
    Traced.require (result == .void) .valueMissing span
    return .returnNothing

/-- The test of a branch or of a loop. -/
def checkTest (test : Expr) : Check Resolved.Expr :=
  reading fun Γ => do
    let r ← test.check Γ
    Traced.expectBool r.ty test.span
    return r

/-- What a loop runs over; yields it with the type of its elements. -/
def checkCollection (collection : Expr) : Check (Resolved.Expr × Ty) :=
  reading fun Γ => do
    let r ← collection.check Γ
    let element ← Traced.expectList r.ty collection.span
    return (r, element)

/-! ## 2. Declarations -/

/-- A new variable in the current scope. -/
def declareVariable (name : String) (readOnly : Bool) (ty : Ty) (span : Span) :
    Check Decl.Variable := do
  let v : Decl.Variable := ⟨← fresh, name, readOnly, ty⟩
  declare name (.var v) (some span)
  return v

/-- A parameter: its type is resolved, and then it is declared in the current scope. -/
def Parameter.check (p : Parameter) : Check Decl.Parameter := do
  let ty ← reading fun Γ => p.type.resolve Γ
  let d : Decl.Parameter := ⟨← fresh, p.name, ty⟩
  declare p.name (.param d) (some p.span)
  return d

/-- Parameters, one after the other. -/
def Parameter.checkAll : List Parameter → Check (List Decl.Parameter)
  | [] => return []
  | p :: ps => do
      let d ← p.check
      let ds ← Parameter.checkAll ps
      return d :: ds

/-- The result type of a function; a function without one yields nothing. -/
def checkResult : Option TypeExpr → Check Ty
  | none => return .void
  | some t => reading fun Γ => t.resolve Γ

/-- A new function, declared around the current scope, which holds its body. -/
def declareFunction (name : String) (signature : Signature) (span : Span) :
    Check Decl.Function := do
  let f : Decl.Function := ⟨← fresh, name, signature⟩
  record (.declaredFunction name signature)
  setFunction f
  declareIn ((← scopes).depth - 1) name (.func f) (some span)
  return f

/-! ## 3. All statements -/

mutual

/-- A statement with its names resolved. -/
def Stmt.check : Stmt → Check Resolved.Stmt
  | .declare name readOnly init span => do
      let r ← reading fun Γ => init.check Γ
      let v ← declareVariable name readOnly r.ty span
      return .declare v r
  | .function name parameters result body span => do
      let result ← checkResult result
      inScope .functionBody do
        let ps ← Parameter.checkAll parameters
        let f ← declareFunction name ⟨ps.map (·.ty), result⟩ span
        let body ← Stmt.checkAll body
        return .function f ps body
  | .step dir target span => do
      return .step dir (← checkCounter target span)
  | .assign target source span => checkAssign target source span
  | .exitLoop span => do
      require (← scopes).inLoop .exitOutsideLoop span
      return .exitLoop
  | .returnValue value span => checkReturnValue value span
  | .returnNothing span => checkReturnNothing span
  | .branch b => do
      return .branch (← b.check)
  | .whileLoop test body _ => do
      let t ← checkTest test
      let body ← inScope .loop (Stmt.checkAll body)
      return .whileLoop t body
  | .forEach iterator collection body span => do
      let (r, element) ← checkCollection collection
      inScope .loop do
        let v ← declareVariable iterator true element span
        let body ← Stmt.checkAll body
        return .forEach v r body
  | .eval expr _ => do
      return .eval (← reading fun Γ => expr.check Γ)

/-- An `if` with its names resolved. -/
def Branch.check : Branch → Check Resolved.Branch
  | .mk test consequent alternate _ => do
      let t ← checkTest test
      let c ← inScope .block (Stmt.checkAll consequent)
      let a ← alternate.check
      return .mk t c a

/-- What follows `else`, with its names resolved. -/
def Alternate.check : Alternate → Check Resolved.Alternate
  | .none => return .none
  | .block body => do
      return .block (← inScope .block (Stmt.checkAll body))
  | .elseIf next => do
      return .elseIf (← next.check)

/-- Statements, checked in order. -/
def Stmt.checkAll : List Stmt → Check (List Resolved.Stmt)
  | [] => return []
  | s :: ss => do
      let r ← s.check
      let rs ← Stmt.checkAll ss
      return r :: rs

end

end Sema
