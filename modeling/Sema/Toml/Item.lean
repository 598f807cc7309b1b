/-!
# TOML data

A document is a table, and a table is a list of named items. An item is a value (a scalar, an array
or an inline table), a table under a header, or a sequence of tables under repeated headers.

A table remembers how it came to be (`Origin`), because the format decides by that whether a later
line may add to it.
-/

namespace Sema.Toml

/-- How a table came to be. -/
inductive Origin where
  /-- Written out: by its own header, or between braces. -/
  | explicit
  /-- Implied by the header of a table inside it. -/
  | implied
  /-- Implied by a dotted key. -/
  | dotted
deriving DecidableEq

/-- A value without inner values. Floats and moments are kept as they are written. -/
inductive Scalar where
  | string (value : String)
  | integer (value : Int)
  | float (lexeme : String)
  | boolean (value : Bool)
  | moment (lexeme : String)
deriving DecidableEq

/-- What stands under a key. -/
inductive Item where
  | scalar (value : Scalar)
  | array (items : List Item)
  /-- A table between braces, or implied inside one by a dotted key. -/
  | inline (origin : Origin) (entries : List (String × Item))
  | table (origin : Origin) (entries : List (String × Item))
  /-- The tables under repeated headers, in order. -/
  | tables (elements : List (List (String × Item)))
deriving Inhabited

/-- The entries of a table in the order in which they were added. -/
abbrev Entries := List (String × Item)

namespace Item

/-- The text of a string. -/
def string? : Item → Option String
  | scalar (.string s) => some s
  | _ => none

/-- The truth value of a boolean. -/
def boolean? : Item → Option Bool
  | scalar (.boolean b) => some b
  | _ => none

end Item

/-- Gives a key another item. -/
def Entries.replace (entries : Entries) (key : String) (item : Item) : Entries :=
  entries.map fun e => if e.1 = key then (key, item) else e

end Sema.Toml
