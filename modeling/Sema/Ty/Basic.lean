/-!
# Types of the language

A type is one of seven plain types, a list type or a function type. Types are plain values, compared
structurally: `Ty.beq` decides equality (`Ty.beq_iff`), and with it `Ty` has decidable equality.

The text of a type is the spelling used in every message and in every answer: `[T]` for a list and
`(P,Q)->R` for a function, without blanks.
-/

namespace Sema

/-- A type of the language. -/
inductive Ty where
  | bool
  | int
  | float
  | str
  /-- The result of a function that yields nothing. -/
  | void
  /-- The type of a type used as a value. -/
  | type
  /-- Accepts a value of every type. -/
  | any
  | list (element : Ty)
  | function (parameters : List Ty) (result : Ty)
deriving Inhabited

/-- What a function takes and what it yields. -/
structure Signature where
  parameters : List Ty
  result : Ty
deriving Inhabited

/-- A signature as a type. -/
def Signature.ty (s : Signature) : Ty := .function s.parameters s.result

namespace Ty

/-! ## 1. Equality -/

mutual

/-- Structural equality of types. -/
def beq : Ty → Ty → Bool
  | bool, bool => true
  | int, int => true
  | float, float => true
  | str, str => true
  | void, void => true
  | type, type => true
  | any, any => true
  | list a, list b => beq a b
  | function ps r, function qs s => beqAll ps qs && beq r s
  | _, _ => false

/-- Structural equality of lists of types. -/
def beqAll : List Ty → List Ty → Bool
  | [], [] => true
  | a :: as, b :: bs => beq a b && beqAll as bs
  | _, _ => false

end

mutual

theorem beq_refl : ∀ a : Ty, beq a a = true
  | bool | int | float | str | void | type | any => rfl
  | list a => by simp [beq, beq_refl a]
  | function ps r => by simp [beq, beqAll_refl ps, beq_refl r]

theorem beqAll_refl : ∀ as : List Ty, beqAll as as = true
  | [] => rfl
  | a :: as => by simp [beqAll, beq_refl a, beqAll_refl as]

end

mutual

theorem eq_of_beq : ∀ a b : Ty, beq a b = true → a = b
  | bool, b, h | int, b, h | float, b, h | str, b, h | void, b, h | type, b, h | any, b, h => by
      cases b <;> first | rfl | simp [beq] at h
  | list a, b, h => by
      cases b with
      | list b => simp [beq] at h; rw [eq_of_beq a b h]
      | _ => simp [beq] at h
  | function ps r, b, h => by
      cases b with
      | function qs s =>
          simp [beq] at h
          rw [eq_of_beqAll ps qs h.1, eq_of_beq r s h.2]
      | _ => simp [beq] at h

theorem eq_of_beqAll : ∀ as bs : List Ty, beqAll as bs = true → as = bs
  | [], [], _ => rfl
  | [], _ :: _, h => by simp [beqAll] at h
  | _ :: _, [], h => by simp [beqAll] at h
  | a :: as, b :: bs, h => by
      simp [beqAll] at h
      rw [eq_of_beq a b h.1, eq_of_beqAll as bs h.2]

end

/-- The structural test decides equality. -/
theorem beq_iff (a b : Ty) : beq a b = true ↔ a = b :=
  ⟨eq_of_beq a b, fun h => h ▸ beq_refl a⟩

instance : DecidableEq Ty := fun a b => decidable_of_iff _ (beq_iff a b)

/-! ## 2. Text -/

mutual

/-- The spelling of a type. -/
def text : Ty → String
  | bool => "bool"
  | int => "int"
  | float => "float"
  | str => "str"
  | void => "void"
  | type => "type"
  | any => "any"
  | list a => "[" ++ text a ++ "]"
  | function ps r => "(" ++ texts ps ++ ")->" ++ text r

/-- The spellings of a list of types, with a comma between two of them. -/
def texts : List Ty → String
  | [] => ""
  | a :: as => text a ++ textsAfter as

/-- The spellings of a list of types, each with a comma before it. -/
def textsAfter : List Ty → String
  | [] => ""
  | a :: as => "," ++ text a ++ textsAfter as

end

/-! ## 3. Kinds of types -/

/-- Numbers: `int` and `float`. -/
def isNumeric : Ty → Bool
  | int | float => true
  | _ => false

/-- What can be added and ordered: numbers and strings. -/
def isNumericOrString : Ty → Bool
  | int | float | str => true
  | _ => false

/-- The element type of a list type. -/
def element? : Ty → Option Ty
  | list a => some a
  | _ => none

/-- The signature of a function type. -/
def signature? : Ty → Option Signature
  | function ps r => some ⟨ps, r⟩
  | _ => none

end Ty

deriving instance DecidableEq for Signature

/-- The spelling of a signature, which is that of its function type. -/
def Signature.text (s : Signature) : String := s.ty.text

end Sema
