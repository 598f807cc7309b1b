import Sema.Check.Traced
import Sema.Resolved.Basic

/-!
# Rules on types

The rules that the checks share. Each one holds, and possibly yields what it found, or reports its
problem at the given span.
-/

namespace Sema

namespace Traced

/-- A truth value. -/
def expectBool (found : Ty) (span : Span) : Traced Unit :=
  require (found == .bool) (.boolExpected found) span

/-- An integer. -/
def expectInteger (found : Ty) (span : Span) : Traced Unit :=
  require (found == .int) (.integerExpected found) span

/-- A number. -/
def expectNumber (found : Ty) (span : Span) : Traced Unit :=
  require found.isNumeric (.numberExpected found) span

/-- An operand of the given class. -/
def expectOperand (found : Ty) (span : Span) : OperandClass → Traced Unit
  | .number => expectNumber found span
  | .numberOrString => require found.isNumericOrString (.numberOrStringExpected found) span
  | .anything => pure ()

/-- A list; yields the element type. -/
def expectList (found : Ty) (span : Span) : Traced Ty :=
  match found.element? with
  | some t => pure t
  | none => fail .listExpected span

/-- Something that can be called; yields its signature. -/
def expectCallable (found : Ty) (span : Span) : Traced Signature :=
  match found.signature? with
  | some s => pure s
  | none => fail .notCallable span

/-- Two equivalent types. -/
def expectSame (left right : Ty) (span : Span) : Traced Unit :=
  require (left.same right) .operandsDiffer span

/-- A value of type `source` where a `target` is expected. -/
def expectAssignable (source target : Ty) (span : Span) : Traced Unit :=
  require (source.fits target) (.notAssignable source target) span

/-- Each argument fits its parameter. -/
def expectFitting (span : Span) : List Ty → List Ty → Traced Unit
  | a :: arguments, p :: parameters => do
      expectAssignable a p span
      expectFitting span arguments parameters
  | _, _ => pure ()

/-- As many arguments as parameters, and then each argument fits its parameter. -/
def expectArguments (arguments parameters : List Ty) (span : Span) : Traced Unit := do
  require (arguments.length == parameters.length)
    (.wrongArity parameters.length arguments.length) span
  expectFitting span arguments parameters

/-- A first element, and all others of a type equivalent to its; yields that type. -/
def expectUniform (elements : List Ty) (span : Span) : Traced Ty :=
  match elements with
  | [] => fail .untypedList span
  | first :: rest => do
      require (rest.all (·.same first)) .elementsDiffer span
      return first

/-- Something that can be counted: a variable, a parameter or a list element. -/
def expectVariable (target : Resolved.Expr) (span : Span) : Traced Unit :=
  match target.form with
  | .entity (.var _) | .entity (.param _) | .subscript _ _ => pure ()
  | _ => fail .variableExpected span

/-- Not the name of a constant. -/
def expectWritable (target : Resolved.Expr) (span : Span) : Traced Unit :=
  match target.entity? with
  | some e => require (!e.isReadOnly) (.constantTarget e.name) span
  | none => pure ()

end Traced

end Sema
