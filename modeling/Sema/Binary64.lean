/-!
# Floating-point literals

A floating-point literal is carried by its 64 bits and never computed with. `Binary64.agrees`
compares two literals as numbers: a not-a-number agrees with nothing, and the two zeros agree.
-/

namespace Sema

/-- A floating-point number of 64 bits: a sign, 11 bits of exponent and 52 bits of fraction. -/
structure Binary64 where
  bits : UInt64
deriving DecidableEq, Inhabited

namespace Binary64

/-- The number without its sign. -/
def magnitude (x : Binary64) : UInt64 := x.bits &&& 0x7fffffffffffffff

/-- Whether all bits of the exponent are set and the fraction is not zero. -/
def isNaN (x : Binary64) : Bool := 0x7ff0000000000000 < x.magnitude

/-- Whether it is one of the two zeros. -/
def isZero (x : Binary64) : Bool := x.magnitude == 0

/-- Equality of numbers. -/
def agrees (x y : Binary64) : Bool :=
  !x.isNaN && !y.isNaN && (x == y || x.isZero && y.isZero)

end Binary64

end Sema
