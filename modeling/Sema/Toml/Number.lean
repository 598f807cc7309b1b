import Sema.Toml.Text

/-!
# Reading numbers

Integers are decimal, or hexadecimal, octal or binary after `0x`, `0o` or `0b`, and have to fit into
64 bits. A float has a fraction, an exponent or both, and is refused when it is positive and too
large to be told from infinity. Between two digits an underscore may stand. A decimal number does
not start with a zero unless it is that zero.
-/

namespace Sema.Toml

/-- Whether a character is a decimal digit. -/
def isDecimal (c : Char) : Bool := '0' ≤ c && c ≤ '9'

/-- Whether a character is a digit to the given base, at most sixteen. -/
def isDigitOf (base : Nat) (c : Char) : Bool :=
  match hexDigit? c with
  | some d => d < base
  | none => false

/-- The number that digits stand for. -/
def valueOf (base : Nat) (digits : List Char) : Nat :=
  digits.foldl (fun n c => n * base + (hexDigit? c).getD 0) 0

/-! ## 1. Digits -/

/-- The digits after a digit, an underscore between two of them left out, and what is left. -/
def moreDigits (isDigit : Char → Bool) : List Char → List Char × List Char
  | [] => ([], [])
  | '_' :: c :: r =>
      if isDigit c then
        let (ds, rest) := moreDigits isDigit r
        (c :: ds, rest)
      else ([], '_' :: c :: r)
  | c :: r =>
      if isDigit c then
        let (ds, rest) := moreDigits isDigit r
        (c :: ds, rest)
      else ([], c :: r)

/-- At least one digit. -/
def digits (isDigit : Char → Bool) : Reader (List Char)
  | [] => none
  | c :: r =>
      if isDigit c then
        let (ds, rest) := moreDigits isDigit r
        some (c :: ds, rest)
      else none

/-- A sign, if there is one: whether it is a minus, and what is left. -/
def sign : List Char → Bool × List Char
  | '-' :: r => (true, r)
  | '+' :: r => (false, r)
  | cs => (false, cs)

/-- The digits of a decimal integer without its sign. -/
def decimalDigits : Reader (List Char)
  | '0' :: r => some (['0'], r)
  | cs => digits isDecimal cs

/-! ## 2. Integers -/

/-- An integer that fits into 64 bits. -/
def bounded? (n : Int) : Option Int :=
  if Int64.minValue.toInt ≤ n ∧ n ≤ Int64.maxValue.toInt then some n else none

/-- A decimal integer. -/
def decimalInteger : Reader Int := fun cs => do
  let (negative, cs) := sign cs
  let (ds, rest) ← decimalDigits cs
  let n : Int := valueOf 10 ds
  return (← bounded? (if negative then -n else n), rest)

/-- An integer to another base, after its mark. -/
def integerOf (base : Nat) : Reader Int := fun cs => do
  let (ds, rest) ← digits (isDigitOf base) cs
  return (← bounded? (valueOf base ds), rest)

/-- An integer. -/
def integer : Reader Int
  | '0' :: 'x' :: r => integerOf 16 r
  | '0' :: 'o' :: r => integerOf 8 r
  | '0' :: 'b' :: r => integerOf 2 r
  | cs => decimalInteger cs

/-! ## 3. Floats -/

/-- Ten to the power `e`, times `mantissa`, is at least half a unit above the largest float. -/
def overflows (mantissa : Nat) (e : Int) : Bool :=
  let bound := Nat.pow 2 1024 - Nat.pow 2 970
  let places : Int := (toString mantissa).length
  if mantissa = 0 ∨ places + e < 308 then false
  else if 310 < places + e then true
  else if 0 ≤ e then bound ≤ mantissa * Nat.pow 10 e.toNat
  else bound * Nat.pow 10 (-e).toNat ≤ mantissa

/-- An exponent, if there is one that is written completely. -/
def exponent : Reader Int
  | c :: r =>
      if c = 'e' ∨ c = 'E' then do
        let (negative, r) := sign r
        let (ds, rest) ← digits isDecimal r
        let n : Int := valueOf 10 ds
        return (if negative then -n else n, rest)
      else none
  | [] => none

/-- A fraction, if there is one that is written completely. -/
def fraction : Reader (List Char)
  | '.' :: r => digits isDecimal r
  | _ => none

/-- A float written with digits; yields what is left. -/
def decimalFloat (cs : List Char) : Option (List Char) := do
  let (negative, cs) := sign cs
  let (whole, cs) ← decimalDigits cs
  let (mantissa, e, rest) ←
    match fraction cs with
    | some (part, r) =>
        match exponent r with
        | some (e, rest) => some (whole ++ part, e - part.length, rest)
        | none => some (whole ++ part, -part.length, r)
    | none => (exponent cs).map fun (e, rest) => (whole, e, rest)
  if !negative && overflows (valueOf 10 mantissa) e then none else some rest

/-- An infinity or a not-a-number, with or without a sign; yields what is left. -/
def namedFloat (cs : List Char) : Option (List Char) :=
  match (sign cs).2 with
  | 'i' :: 'n' :: 'f' :: r => some r
  | 'n' :: 'a' :: 'n' :: r => some r
  | _ => none

end Sema.Toml
