import Sema.Entity

/-!
# Catalogs

A catalog lists the names that are declared before a program starts: types, constants and functions.
Entries keep the order in which they were added. A new constant or function takes its place in the
catalog as its identity, so no two of them are confused; an entry may also repeat an entity that is
already there, under another name.
-/

namespace Sema

/-- Predeclared names in the order in which they were added. -/
structure Catalog where
  entries : List (String × Entity)
deriving DecidableEq, Inhabited

namespace Catalog

/-- The catalog without entries. -/
def empty : Catalog := ⟨[]⟩

/-- How many entries there are. -/
def size (c : Catalog) : Nat := c.entries.length

/-- Whether there are no entries. -/
def isEmpty (c : Catalog) : Bool := c.entries.isEmpty

/-- The identity of the next entry. -/
def nextIdentity (c : Catalog) : Identity := .library c.size

/-- Adds an entry. -/
def add (c : Catalog) (name : String) (e : Entity) : Catalog := ⟨c.entries ++ [(name, e)]⟩

/-- Adds a type. -/
def addType (c : Catalog) (name : String) (t : Ty) : Catalog := c.add name (.type t)

/-- Adds a read-only variable. -/
def addConstant (c : Catalog) (name : String) (t : Ty) : Catalog :=
  c.add name (.var ⟨c.nextIdentity, name, true, t⟩)

/-- Adds a function. -/
def addFunction (c : Catalog) (name : String) (s : Signature) : Catalog :=
  c.add name (.func ⟨c.nextIdentity, name, s⟩)

/-- The names of the entries. -/
def names (c : Catalog) : List String := c.entries.map Prod.fst

/-- The declarations that the entries come from. -/
def identities (c : Catalog) : List Identity := c.entries.filterMap fun entry => entry.2.identity?

/-- A number above those of all declarations that the entries come from: a new declaration that
    takes it is none of them. -/
def firstSerial (c : Catalog) : Nat := c.identities.foldr (fun i n => max i.next n) 0

/-- The entity of the first entry with a given name. -/
def get? (c : Catalog) (name : String) : Option Entity := c.entries.lookup name

/-- The standard library. -/
def standard : Catalog :=
  empty
    |>.addType "int" .int
    |>.addType "float" .float
    |>.addType "bool" .bool
    |>.addType "str" .str
    |>.addType "void" .void
    |>.addType "any" .any
    |>.addConstant "π" .float
    |>.addFunction "print" ⟨[.any], .void⟩
    |>.addFunction "sin" ⟨[.float], .float⟩
    |>.addFunction "cos" ⟨[.float], .float⟩
    |>.addFunction "exp" ⟨[.float], .float⟩
    |>.addFunction "ln" ⟨[.float], .float⟩
    |>.addFunction "hypot" ⟨[.float, .float], .float⟩
    |>.addFunction "bytes" ⟨[.str], .list .int⟩
    |>.addFunction "codepoints" ⟨[.str], .list .int⟩

end Catalog

end Sema
