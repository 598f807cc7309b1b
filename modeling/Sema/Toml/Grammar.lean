import Sema.Toml.Item
import Sema.Toml.Moment

/-!
# Keys, values and lines

The grammar of a TOML text above its lexemes. A text is read into its lines: headers and entries, in
order, blank lines and comments left out. What the lines say together is the matter of the document.

Two limits of the format bound the recursion: arrays and inline tables nest at most `maxNesting`
deep, and a dotted key has at most `maxKeyParts` parts. The loops over items and lines are given the
length of the text as fuel, which suffices because every round reads at least one character.
-/

namespace Sema.Toml

/-- How deep arrays and inline tables may nest. -/
def maxNesting : Nat := 79

/-- How many parts a dotted key may have. -/
def maxKeyParts : Nat := 79

/-! ## 1. Keys -/

/-- What a key may hold without quotes. -/
def isBareKey (c : Char) : Bool :=
  '0' ≤ c && c ≤ '9' || 'A' ≤ c && c ≤ 'Z' || 'a' ≤ c && c ≤ 'z' || c = '_' || c = '-'

/-- One part of a key: bare or quoted. -/
def keyPart : Reader String := fun cs =>
  match cs with
  | '\x22' :: _ => lineString cs
  | '\x27' :: _ => lineString cs
  | _ =>
      let name := cs.takeWhile isBareKey
      if name.isEmpty then none else some (String.ofList name, cs.dropWhile isBareKey)

/-- A key by its parts: the tables it leads through, and the name in the last of them. -/
structure Key where
  path : List String
  name : String

/-- A key of at most so many parts, with dots between them and blanks around each. -/
def keyOf : Nat → Reader Key
  | 0, _ => none
  | n + 1, cs => do
      let (part, cs) ← keyPart (dropBlanks cs)
      match dropBlanks cs with
      | '.' :: r =>
          let (key, rest) ← keyOf n r
          return (⟨part :: key.path, key.name⟩, rest)
      | rest => return (⟨[], part⟩, rest)

/-- A key. -/
def key : Reader Key := keyOf maxKeyParts

/-- An entry: a key and the item under it. -/
structure Entry where
  key : Key
  item : Item

/-- A key, an equals sign and a value, with blanks before the value. -/
def entry (value : Reader Item) : Reader Entry := fun cs => do
  let (k, cs) ← key cs
  let cs ← mark '=' cs
  let (item, rest) ← value (dropBlanks cs)
  return (⟨k, item⟩, rest)

/-! ## 2. Inline tables -/

/-- Puts an item under a path of names inside braces. Only tables implied by a dotted key on the
    same level may be entered, and a name is given once. -/
def Entries.insertInline (entries : Entries) (name : String) (item : Item) :
    List String → Option Entries
  | [] => if (entries.lookup name).isSome then none else some (entries ++ [(name, item)])
  | part :: path =>
      match entries.lookup part with
      | none => do
          let inner ← Entries.insertInline [] name item path
          return entries ++ [(part, .inline .dotted inner)]
      | some (.inline .dotted inner) => do
          let inner ← Entries.insertInline inner name item path
          return entries.replace part (.inline .dotted inner)
      | some _ => none

/-- The table that entries between braces make up. -/
def inlineTable? (es : List Entry) : Option Entries :=
  es.foldlM (fun t e => t.insertInline e.key.name e.item e.key.path) []

/-! ## 3. Values -/

/-- The text that was read when `rest` is left of `cs`. -/
def lexeme (cs rest : List Char) : String := String.ofList (cs.take (cs.length - rest.length))

/-- A date, a time or a number. -/
def momentOrNumber : Reader Scalar := fun cs =>
  match moment cs with
  | some rest => some (.moment (lexeme cs rest), rest)
  | none =>
      match (decimalFloat cs).or (namedFloat cs) with
      | some rest => some (.float (lexeme cs rest), rest)
      | none => (integer cs).map fun (n, rest) => (.integer n, rest)

/-- A value without inner values. -/
def scalar : Reader Scalar := fun cs =>
  match cs with
  | 't' :: 'r' :: 'u' :: 'e' :: r => some (.boolean true, r)
  | 'f' :: 'a' :: 'l' :: 's' :: 'e' :: r => some (.boolean false, r)
  | c :: _ =>
      if c = '\x22' ∨ c = '\x27' then (string cs).map fun (s, rest) => (.string s, rest)
      else momentOrNumber cs
  | [] => none

/-- The items of an array up to its closing bracket; a comma may stand before that. -/
def arrayItems (value : Reader Item) : Nat → Reader (List Item)
  | 0, _ => none
  | fuel + 1, cs =>
      match dropGap false cs with
      | ']' :: r => some ([], r)
      | cs => do
          let (item, cs) ← value cs
          match dropGap false cs with
          | ']' :: r => return ([item], r)
          | ',' :: r =>
              let (items, rest) ← arrayItems value fuel r
              return (item :: items, rest)
          | _ => none

/-- The entries of an inline table, of which there is at least one, up to its closing brace. -/
def inlineEntries (value : Reader Item) : Nat → Reader (List Entry)
  | 0, _ => none
  | fuel + 1, cs => do
      let (e, cs) ← entry value cs
      match dropBlanks cs with
      | '\x7d' :: r => return ([e], r)
      | ',' :: r =>
          let (es, rest) ← inlineEntries value fuel r
          return (e :: es, rest)
      | _ => none

/-- An inline table after its opening brace. -/
def inlineRest (value : Reader Item) : Reader Item := fun cs =>
  match dropBlanks cs with
  | '\x7d' :: r => some (.inline .explicit [], r)
  | cs => do
      let (es, rest) ← inlineEntries value cs.length cs
      return (.inline .explicit (← inlineTable? es), rest)

/-- A value in which arrays and inline tables nest at most so deep. -/
def valueOfNesting : Nat → Reader Item
  | 0, cs => (scalar cs).map fun (s, rest) => (.scalar s, rest)
  | n + 1, cs =>
      match cs with
      | '[' :: r => (arrayItems (valueOfNesting n) (r.length + 1) r).map fun (items, rest) =>
          (.array items, rest)
      | '\x7b' :: r => inlineRest (valueOfNesting n) r
      | _ => (scalar cs).map fun (s, rest) => (.scalar s, rest)

/-- A value. -/
def value : Reader Item := valueOfNesting maxNesting

/-! ## 4. Lines -/

/-- A line that says something. -/
inductive Line where
  /-- `[key]`: what follows belongs to this table. -/
  | table (key : Key)
  /-- `[[key]]`: what follows belongs to a new table under this key. -/
  | element (key : Key)
  | entry (entry : Entry)

/-- The header of a table after its bracket, to the end of its line. -/
def tableRest : Reader Line := fun cs => do
  let (k, cs) ← key cs
  let cs ← mark ']' cs
  return (.table k, ← lineRest cs)

/-- The header of an element after its two brackets, to the end of its line. -/
def elementRest : Reader Line := fun cs => do
  let (k, cs) ← key cs
  let cs ← mark ']' cs
  let cs ← mark ']' cs
  return (.element k, ← lineRest cs)

/-- An entry, to the end of its line. -/
def entryLine : Reader Line := fun cs => do
  let (e, cs) ← entry value cs
  return (.entry e, ← lineRest cs)

/-- The lines of a text that say something. -/
def lines : Nat → List Char → Option (List Line)
  | 0, _ => none
  | fuel + 1, cs =>
      match dropBlanks cs with
      | [] => some []
      | '\n' :: r => lines fuel r
      | '\r' :: '\n' :: r => lines fuel r
      | '#' :: r => do lines fuel (← lineRest ('#' :: r))
      | '[' :: '[' :: r => do
          let (line, rest) ← elementRest r
          return line :: (← lines fuel rest)
      | '[' :: r => do
          let (line, rest) ← tableRest r
          return line :: (← lines fuel rest)
      | cs => do
          let (line, rest) ← entryLine cs
          return line :: (← lines fuel rest)

end Sema.Toml
