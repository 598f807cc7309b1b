import Sema.Scope
import Sema.Span
import Sema.Ty.Basic

/-!
# Diagnostics

A `Problem` is a rule that a program breaks, with the names and types that its wording needs. A
`Diagnostic` says where: at the span of a node, or nowhere when the problem is not in the program
but in the catalog it is analyzed against. Analysis stops at the first one.

A `fault` is no rule of the language: it says that analysis asked for something of the scopes that
they refuse, such as closing the root.

A `Report` is what is shown: the wording, the code and the marked places.
-/

namespace Sema

/-- A rule that is broken. -/
inductive Problem where
  | notDeclared (name : String)
  | alreadyDeclared (name : String)
  /-- A name stands where a type is written, and denotes something else. -/
  | typeExpected
  | numberExpected (found : Ty)
  | numberOrStringExpected (found : Ty)
  | boolExpected (found : Ty)
  | integerExpected (found : Ty)
  | listExpected
  /-- The two operands of an operator, or the two arms of a conditional, differ in type. -/
  | operandsDiffer
  | elementsDiffer
  /-- A list literal without elements has no element type. -/
  | untypedList
  | notAssignable (source target : Ty)
  /-- Only a variable, a parameter or a list element can be counted up or down. -/
  | variableExpected
  | constantTarget (name : String)
  | exitOutsideLoop
  | returnOutsideFunction
  /-- The function yields nothing and is left with a value. -/
  | valueReturned
  /-- The function yields a value and is left without one. -/
  | valueMissing
  | notCallable
  | wrongArity (required passed : Nat)
  /-- The scopes refused an operation that no program should lead to. -/
  | fault (reason : ScopeError)
deriving DecidableEq

/-- The wording of a problem. -/
def Problem.message : Problem → String
  | notDeclared name => "Identifier " ++ name ++ " not declared"
  | alreadyDeclared name => "Identifier " ++ name ++ " already declared"
  | typeExpected => "Type expected"
  | numberExpected found => "Expected a number, found " ++ found.text
  | numberOrStringExpected found => "Expected a number or string, found " ++ found.text
  | boolExpected found => "Expected a bool, found " ++ found.text
  | integerExpected found => "Expected an integer, found " ++ found.text
  | listExpected => "List expected"
  | operandsDiffer => "Operands do not have the same type"
  | elementsDiffer => "Not all elements have the same type"
  | untypedList => "Cannot infer the type of an empty list"
  | notAssignable source target => "Cannot assign a " ++ source.text ++ " to a " ++ target.text
  | variableExpected => "Variable expected"
  | constantTarget name => "Cannot assign to constant " ++ name
  | exitOutsideLoop => "Break can only appear in a loop"
  | returnOutsideFunction => "Return can only appear in a function"
  | valueReturned => "Cannot return a value here"
  | valueMissing => "Something should be returned here"
  | notCallable => "Call of non-function or non-constructor"
  | wrongArity required passed =>
      toString required ++ " argument(s) required but " ++ toString passed ++ " passed"
  | fault reason => reason.message

/-- A problem and where it lies; a problem of the catalog lies nowhere. -/
structure Diagnostic where
  problem : Problem
  span : Option Span
deriving DecidableEq

/-- A place that a report marks. -/
structure Label where
  text : String
  extent : Extent
deriving DecidableEq

/-- What is shown of a diagnostic. -/
structure Report where
  message : String
  span : Option Span
deriving DecidableEq

namespace Report

/-- The code of every report. -/
def code : String := "bjin::semantic"

/-- The one line that is shown; without a place to point at, it says what kind of error it is. -/
def headline (r : Report) : String :=
  match r.span with
  | none => "Semantic error: " ++ r.message
  | some _ => r.message

/-- The marked places: the span, if there is one. -/
def labels (r : Report) : List Label :=
  match r.span with
  | none => []
  | some s => [⟨"here", s.extent⟩]

end Report

/-- What is shown of a diagnostic. -/
def Diagnostic.report (d : Diagnostic) : Report := ⟨d.problem.message, d.span⟩

end Sema
