/-!
# Writing strings

Of the four forms of a TOML string the writer takes the first that shows the text with few escapes.
What decides is the text as a whole (`Traits`): control characters, line feeds, backslashes, and the
longest runs of quotation marks and of apostrophes.

In the basic form on several lines every third quotation mark in a row is escaped, so that no three
of them stand together.

The marks in a row are tallied in a byte. A text in which more than `maxRun` of one kind stand in a
row has no written form (`quote?_eq_none_iff`), whichever form it would have had.
-/

namespace Sema.Toml

/-! ## 1. Traits of a text -/

/-- A character that only an escape can show: a control character other than tab and line feed. -/
def isControl (c : Char) : Bool :=
  c.toNat < 0x20 && c != '\t' && c != '\n' || c.toNat = 0x7f

/-- The longest run of a character, when `run` of them came just before and `best` is the longest
    run so far. -/
def longestRun (mark : Char) (run best : Nat) : List Char → Nat
  | [] => max run best
  | c :: r =>
      if c = mark then longestRun mark (run + 1) best r
      else longestRun mark 0 (max run best) r

/-- How many marks of one kind may stand in a row in a written text: what a byte can tally. -/
def maxRun : Nat := 255

/-- What decides about the form of a string. -/
structure Traits where
  control : Bool
  feed : Bool
  backslash : Bool
  quotes : Nat
  apostrophes : Nat

/-- The traits of a text. -/
def Traits.of (cs : List Char) : Traits where
  control := cs.any isControl
  feed := cs.any (· == '\n')
  backslash := cs.any (· == '\\')
  quotes := longestRun '\x22' 0 0 cs
  apostrophes := longestRun '\x27' 0 0 cs

/-- Whether the runs of marks can be tallied. -/
def Traits.isTallied (t : Traits) : Bool := t.quotes ≤ maxRun && t.apostrophes ≤ maxRun

/-- One run that is too long is enough. -/
theorem Traits.isTallied_eq_false_iff (t : Traits) :
    t.isTallied = false ↔ maxRun < t.quotes ∨ maxRun < t.apostrophes := by
  simp only [isTallied, Bool.and_eq_false_iff, decide_eq_false_iff_not, Nat.not_le]

/-- A form of a string. -/
inductive Style where
  | basic
  | literal
  | basicLines
  | literalLines
deriving DecidableEq

/-- The form for a text with given traits: the first that applies. -/
def Traits.style (t : Traits) : Style :=
  if !t.control && !t.backslash && t.quotes = 0 && !t.feed then .basic
  else if !t.control && t.apostrophes = 0 && !t.feed then .literal
  else if !t.control && !t.backslash && t.quotes ≤ 2 then .basicLines
  else if !t.control && t.apostrophes ≤ 2 then .literalLines
  else if t.feed then .basicLines
  else .basic

/-! ## 2. Escapes -/

/-- An upper-case hexadecimal digit. -/
def upperHex (n : Nat) : Char :=
  if n < 10 then Char.ofNat (0x30 + n) else Char.ofNat (0x41 + (n - 10))

/-- A code of four digits after its mark. -/
def codeEscape (c : Char) : List Char :=
  let n := c.toNat
  ['\\', 'u', upperHex (n / 4096 % 16), upperHex (n / 256 % 16), upperHex (n / 16 % 16),
    upperHex (n % 16)]

/-- A character of a basic string, apart from quotation marks and line feeds. -/
def escaped (c : Char) : List Char :=
  if c = '\x08' then ['\\', 'b']
  else if c = '\t' then ['\\', 't']
  else if c = '\x0c' then ['\\', 'f']
  else if c = '\r' then ['\\', 'r']
  else if c = '\\' then ['\\', '\\']
  else if isControl c then codeEscape c
  else [c]

/-- The characters of a basic string on one line. -/
def basicChars : List Char → List Char
  | [] => []
  | c :: r =>
      if c = '\x22' then '\\' :: '\x22' :: basicChars r
      else if c = '\n' then '\\' :: 'n' :: basicChars r
      else escaped c ++ basicChars r

/-- The characters of a basic string on several lines, after `run` quotation marks in a row. -/
def basicLinesChars (run : Nat) : List Char → List Char
  | [] => []
  | c :: r =>
      if c = '\x22' then
        if run = 2 then '\\' :: '\x22' :: basicLinesChars 0 r
        else c :: basicLinesChars (run + 1) r
      else if c = '\n' then c :: basicLinesChars 0 r
      else escaped c ++ basicLinesChars 0 r

/-! ## 3. Strings -/

/-- A line feed after the opening marks, when the text holds one. -/
def opening (t : Traits) : List Char := if t.feed then ['\n'] else []

/-- The written form of a text with given traits. -/
def Traits.write (t : Traits) (cs : List Char) : List Char :=
  match t.style with
  | .basic => '\x22' :: (basicChars cs ++ ['\x22'])
  | .literal => '\x27' :: (cs ++ ['\x27'])
  | .basicLines =>
      ['\x22', '\x22', '\x22'] ++ opening t ++ basicLinesChars 0 cs ++ ['\x22', '\x22', '\x22']
  | .literalLines =>
      ['\x27', '\x27', '\x27'] ++ opening t ++ cs ++ ['\x27', '\x27', '\x27']

/-- The written form of a string, unless a run of marks in it is too long to be tallied. -/
def quote? (s : String) : Option String :=
  let t := Traits.of s.toList
  if t.isTallied then some (String.ofList (t.write s.toList)) else none

/-- A string is written exactly when its runs can be tallied. -/
theorem quote?_isSome (s : String) : (quote? s).isSome = (Traits.of s.toList).isTallied := by
  simp only [quote?]
  cases (Traits.of s.toList).isTallied <;> rfl

/-- **Only a run of marks that is too long keeps a string from being written.** -/
theorem quote?_eq_none_iff (s : String) :
    quote? s = none ↔
      maxRun < longestRun '\x22' 0 0 s.toList ∨ maxRun < longestRun '\x27' 0 0 s.toList := by
  rw [← Option.isNone_iff_eq_none, ← Option.isSome_eq_false_iff, quote?_isSome,
    Traits.isTallied_eq_false_iff]
  rfl

end Sema.Toml
