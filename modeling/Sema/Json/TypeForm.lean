import Sema.Json.Value
import Sema.Ty.Basic

/-!
# The JSON form of types

A plain type is its tag, either as a string or as an object that gives the tag no content (`"Int"`,
`{"Int": null}`). A list type is `{"List": F}` and a function type `{"Function": S}`, where `F` is a
form of the element type and `S` one of the signature: an object with the fields `parameters` and
`return_type`, or the array of these two. Further fields of that object are ignored, and a field
that occurs twice is refused.

`Ty.toJson` and `Signature.toJson` write the canonical form; `Ty.ofJson?` and `Signature.ofJson?`
read every form.
-/

namespace Sema

namespace Ty

/-- The plain type with a given tag. -/
def ofTag? : String → Option Ty
  | "Bool" => some .bool
  | "Int" => some .int
  | "Float" => some .float
  | "String" => some .str
  | "Void" => some .void
  | "Type" => some .type
  | "Any" => some .any
  | _ => none

/-! ## 1. Writing -/

mutual

/-- The canonical form of a type. -/
def toJson : Ty → Json
  | bool => .string "Bool"
  | int => .string "Int"
  | float => .string "Float"
  | str => .string "String"
  | void => .string "Void"
  | type => .string "Type"
  | any => .string "Any"
  | list a => .object [("List", toJson a)]
  | function ps r =>
      .object [("Function",
        .object [("parameters", .array (toJsons ps)), ("return_type", toJson r)])]

/-- The canonical forms of a list of types. -/
def toJsons : List Ty → List Json
  | [] => []
  | a :: as => toJson a :: toJsons as

end

/-! ## 2. Reading -/

mutual

/-- The type that a value is a form of. -/
def ofJson? : Json → Option Ty
  | .string tag => ofTag? tag
  | .object [(tag, content)] =>
      match tag with
      | "List" => (ofJson? content).map .list
      | "Function" => (signatureOfJson? content).map Signature.ty
      | _ =>
          match content with
          | .null => ofTag? tag
          | _ => none
  | _ => none

/-- The signature that a value is a form of. -/
def signatureOfJson? : Json → Option Signature
  | .array [.array ps, r] => do return ⟨← ofJsons? ps, ← ofJson? r⟩
  | .object fields =>
      if Json.occurrences "parameters" fields = 1 ∧ Json.occurrences "return_type" fields = 1 then
        do return ⟨← parametersIn? fields, ← resultIn? fields⟩
      else none
  | _ => none

/-- The types that the values are forms of. -/
def ofJsons? : List Json → Option (List Ty)
  | [] => some []
  | j :: js => do return (← ofJson? j) :: (← ofJsons? js)

/-- The types in the first field named `parameters`. -/
def parametersIn? : List (String × Json) → Option (List Ty)
  | [] => none
  | (name, content) :: rest =>
      if name = "parameters" then
        match content with
        | .array ps => ofJsons? ps
        | _ => none
      else parametersIn? rest

/-- The type in the first field named `return_type`. -/
def resultIn? : List (String × Json) → Option Ty
  | [] => none
  | (name, content) :: rest =>
      if name = "return_type" then ofJson? content else resultIn? rest

end

end Ty

namespace Signature

/-- The canonical form of a signature. -/
def toJson (s : Signature) : Json :=
  .object [("parameters", .array (Ty.toJsons s.parameters)), ("return_type", s.result.toJson)]

/-- The signature that a value is a form of. -/
def ofJson? (j : Json) : Option Signature := Ty.signatureOfJson? j

end Signature

end Sema
