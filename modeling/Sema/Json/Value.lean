/-!
# JSON values

The values that types and positions are read from and written to. An object keeps its fields in the
order in which they were written; `Json.field?` finds a field that occurs exactly once. A number
keeps whether it was written as an integer: `1.0` is not the integer `1`.
-/

namespace Sema

/-- A JSON value. -/
inductive Json where
  | null
  | bool (value : Bool)
  /-- A number written without fraction and exponent. -/
  | int (value : Int)
  /-- A number written with a fraction or an exponent: `digits` divided by ten to the `places`. -/
  | real (digits : Int) (places : Nat)
  | string (value : String)
  | array (items : List Json)
  | object (fields : List (String × Json))
deriving Inhabited

namespace Json

/-- How often a name occurs among the fields. -/
def occurrences (name : String) (fields : List (String × Json)) : Nat :=
  fields.countP (fun f => f.1 == name)

/-- The value of a field that occurs exactly once. -/
def field? (name : String) (fields : List (String × Json)) : Option Json :=
  if occurrences name fields = 1 then fields.lookup name else none

end Json

end Sema
