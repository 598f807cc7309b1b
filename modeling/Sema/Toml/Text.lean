import Sema.Toml.Blank

/-!
# Reading strings

A string is written in one of four forms: basic (between quotation marks, with escapes) or literal
(between apostrophes, as it stands), each on one line or, with three marks on both sides, on
several. Every reader gets the text after the opening marks and yields the characters of the string
and what comes after the closing marks.

In the forms on several lines a line end directly after the opening marks is left out, every line
end is read as a line feed, and one or two marks may stand directly before the closing three. A
backslash at the end of a line leaves out that line end and all blanks and line ends after it.
-/

namespace Sema.Toml

/-- A reader yields a value and the text that is left, or fails. -/
abbrev Reader (α : Type) := List Char → Option (α × List Char)

/-- Puts a character before what was read. -/
def push (c : Char) (read : Option (List Char × List Char)) : Option (List Char × List Char) :=
  read.map fun p => (c :: p.1, p.2)

/-! ## 1. Escapes -/

/-- The value of a hexadecimal digit. -/
def hexDigit? (c : Char) : Option Nat :=
  let n := c.toNat
  if 0x30 ≤ n && n ≤ 0x39 then some (n - 0x30)
  else if 0x41 ≤ n && n ≤ 0x46 then some (n - 0x41 + 10)
  else if 0x61 ≤ n && n ≤ 0x66 then some (n - 0x61 + 10)
  else none

/-- The character with a given code, surrogates left out. -/
def scalar? (n : Nat) : Option Char :=
  if n < 0xd800 ∨ 0xdfff < n ∧ n < 0x110000 then some (Char.ofNat n) else none

/-- The character that a letter after a backslash stands for. -/
def escape? : Char → Option Char
  | 'b' => some '\x08'
  | 't' => some '\t'
  | 'n' => some '\n'
  | 'f' => some '\x0c'
  | 'r' => some '\r'
  | '\x22' => some '\x22'
  | '\\' => some '\\'
  | _ => none

/-- Where a reader of a basic string stands. -/
inductive Mode where
  /-- Between characters. With `trim`, blanks and line ends are left out. -/
  | text (trim : Bool)
  /-- After a backslash. -/
  | escape
  /-- Inside a code with so many digits left to read after the next one. -/
  | code (left value : Nat)

/-! ## 2. Strings on one line -/

/-- The rest of a basic string on one line. -/
def basicRest : Mode → Reader (List Char)
  | _, [] => none
  | .text _, c :: r =>
      if c = '\x22' then some ([], r)
      else if c = '\\' then basicRest .escape r
      else if isPrintable c then push c (basicRest (.text false) r)
      else none
  | .escape, c :: r =>
      if c = 'u' then basicRest (.code 3 0) r
      else if c = 'U' then basicRest (.code 7 0) r
      else
        match escape? c with
        | some e => push e (basicRest (.text false) r)
        | none => none
  | .code left value, c :: r =>
      match hexDigit? c with
      | none => none
      | some d =>
          match left with
          | n + 1 => basicRest (.code n (value * 16 + d)) r
          | 0 =>
              match scalar? (value * 16 + d) with
              | some e => push e (basicRest (.text false) r)
              | none => none

/-- The rest of a literal string on one line. -/
def literalRest : Reader (List Char)
  | [] => none
  | c :: r =>
      if c = '\x27' then some ([], r)
      else if isPrintable c then push c (literalRest r)
      else none

/-! ## 3. Strings on several lines -/

/-- The end of a string on several lines, after its first closing mark: two more marks, and before
    them one or two that belong to the string. -/
def closing? (mark : Char) : List Char → Option (List Char × List Char)
  | a :: b :: r =>
      if a = mark ∧ b = mark then
        match r with
        | c :: d :: r' =>
            if c = mark ∧ d = mark then some ([mark, mark], r')
            else if c = mark then some ([mark], d :: r')
            else some ([], r)
        | [c] => if c = mark then some ([mark], []) else some ([], r)
        | [] => some ([], [])
      else none
  | _ => none

/-- The rest of a basic string on several lines. -/
def basicLinesRest : Mode → Reader (List Char)
  | _, [] => none
  | .text trim, c :: r =>
      if trim && (isBlank c || c = '\n' || c = '\r' && startsWithFeed r) then
        basicLinesRest (.text true) r
      else if c = '\x22' then
        match closing? c r with
        | some found => some found
        | none => push c (basicLinesRest (.text false) r)
      else if c = '\\' then
        if startsWithLineEnd (dropBlanks r) then basicLinesRest (.text true) r
        else basicLinesRest .escape r
      else if c = '\n' then push c (basicLinesRest (.text false) r)
      else if c = '\r' && startsWithFeed r then basicLinesRest (.text false) r
      else if isPrintable c then push c (basicLinesRest (.text false) r)
      else none
  | .escape, c :: r =>
      if c = 'u' then basicLinesRest (.code 3 0) r
      else if c = 'U' then basicLinesRest (.code 7 0) r
      else
        match escape? c with
        | some e => push e (basicLinesRest (.text false) r)
        | none => none
  | .code left value, c :: r =>
      match hexDigit? c with
      | none => none
      | some d =>
          match left with
          | n + 1 => basicLinesRest (.code n (value * 16 + d)) r
          | 0 =>
              match scalar? (value * 16 + d) with
              | some e => push e (basicLinesRest (.text false) r)
              | none => none

/-- The rest of a literal string on several lines. -/
def literalLinesRest : Reader (List Char)
  | [] => none
  | c :: r =>
      if c = '\x27' then
        match closing? c r with
        | some found => some found
        | none => push c (literalLinesRest r)
      else if c = '\n' then push c (literalLinesRest r)
      else if c = '\r' && startsWithFeed r then literalLinesRest r
      else if isPrintable c then push c (literalLinesRest r)
      else none

/-! ## 4. All forms -/

/-- A string in the basic or literal form on one line, as a key may be written. -/
def lineString : Reader String
  | '\x22' :: r => (basicRest (.text false) r).map fun p => (String.ofList p.1, p.2)
  | '\x27' :: r => (literalRest r).map fun p => (String.ofList p.1, p.2)
  | _ => none

/-- A string in any form. -/
def string : Reader String
  | '\x22' :: '\x22' :: '\x22' :: r =>
      (basicLinesRest (.text false) (dropLineEnd r)).map fun p => (String.ofList p.1, p.2)
  | '\x27' :: '\x27' :: '\x27' :: r =>
      (literalLinesRest (dropLineEnd r)).map fun p => (String.ofList p.1, p.2)
  | cs => lineString cs

end Sema.Toml
