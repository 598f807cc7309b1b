/-!
# Blanks, comments and line ends

The characters of a TOML text by what they may do, and what may stand between two parts of it. A
line ends with a line feed, which a carriage return may precede; a carriage return alone is never
allowed.
-/

namespace Sema.Toml

/-- Blanks are spaces and tabs. -/
def isBlank (c : Char) : Bool := c = ' ' || c = '\t'

/-- What may stand in a comment or in a string: everything but control characters, tabs apart. -/
def isPrintable (c : Char) : Bool := c = '\t' || (0x20 ≤ c.toNat && c.toNat ≠ 0x7f)

/-- Whether a line feed comes next. -/
def startsWithFeed : List Char → Bool
  | '\n' :: _ => true
  | _ => false

/-- Whether the end of a line comes next. -/
def startsWithLineEnd : List Char → Bool
  | '\n' :: _ => true
  | '\r' :: '\n' :: _ => true
  | _ => false

/-- Leaves out the blanks at the start. -/
def dropBlanks (cs : List Char) : List Char := cs.dropWhile isBlank

/-- Leaves out one line end at the start, if there is one. -/
def dropLineEnd : List Char → List Char
  | '\n' :: r => r
  | '\r' :: '\n' :: r => r
  | cs => cs

/-- The rest of a line after its content: blanks, a comment, and the end of the line or of the text.
    Yields what comes after it. -/
def lineRest (cs : List Char) : Option (List Char) :=
  let cs := dropBlanks cs
  let cs := match cs with
    | '#' :: r => r.dropWhile isPrintable
    | cs => cs
  match cs with
  | [] => some []
  | '\n' :: r => some r
  | '\r' :: '\n' :: r => some r
  | _ => none

/-- Leaves out what may stand between the items of an array: blanks, line ends and comments. Inside
    a comment, `comment` is set, and only the end of the line leads out of it. -/
def dropGap (comment : Bool) : List Char → List Char
  | [] => []
  | c :: r =>
      if c = '\n' then dropGap false r
      else if c = '\r' then
        if startsWithFeed r then dropGap false r else c :: r
      else if comment then
        if isPrintable c then dropGap true r else c :: r
      else if isBlank c then dropGap false r
      else if c = '#' then dropGap true r
      else c :: r

end Sema.Toml
