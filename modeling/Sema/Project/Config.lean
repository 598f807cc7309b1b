import Sema.Toml.Document
import Sema.Toml.Quote

/-!
# Project configuration

The file `bjin.toml` at the top of a project: a table `package` with `name`, `version` and
`edition`, and a table `analysis` with `prelude`. The edition, the prelude and the whole table
`analysis` may be left out; names that are not known are ignored. Both tables may also be written as
arrays that list their values in order.

`Config.ofToml?` reads the text of such a file, and `Config.toToml?` writes it, unless one of the
values has no written form.
-/

namespace Sema

/-- The configuration of a project. -/
structure Config where
  name : String
  version : String
  edition : String
  /-- Whether programs are analyzed against the standard library. -/
  prelude : Bool
deriving DecidableEq

namespace Config

/-- The name of the file. -/
def fileName : String := "bjin.toml"

/-- The edition of a project that names none. -/
def defaultEdition : String := "2023"

/-- The configuration of a new project. -/
def new (name : String) : Config := ⟨name, "0.1.0", defaultEdition, true⟩

/-! ## 1. Reading -/

/-- The values that describe a package, in order. -/
structure Package where
  name : String
  version : String
  edition : String

/-- The edition, which may be missing. -/
def editionOf? : Option Toml.Item → Option String
  | none => some defaultEdition
  | some item => item.string?

/-- The prelude, which may be missing. -/
def preludeOf? : Option Toml.Item → Option Bool
  | none => some true
  | some item => item.boolean?

/-- The package that an item describes: by names or in order. -/
def packageOf? : Toml.Item → Option Package
  | .table _ entries | .inline _ entries => do
      return ⟨← (← entries.lookup "name").string?, ← (← entries.lookup "version").string?,
        ← editionOf? (entries.lookup "edition")⟩
  | .array items => do
      return ⟨← (← items[0]?).string?, ← (← items[1]?).string?, ← editionOf? items[2]?⟩
  | _ => none

/-- The prelude that an item describes: by name or in order. A moment has none of the known
    names. -/
def analysisOf? : Toml.Item → Option Bool
  | .table _ entries | .inline _ entries => preludeOf? (entries.lookup "prelude")
  | .array items => preludeOf? items[0]?
  | .scalar (.moment _) => some true
  | _ => none

/-- The configuration that a document describes. -/
def ofEntries? (root : Toml.Entries) : Option Config := do
  let package ← packageOf? (← root.lookup "package")
  let prelude ←
    match root.lookup "analysis" with
    | none => some true
    | some item => analysisOf? item
  return ⟨package.name, package.version, package.edition, prelude⟩

/-- The configuration in the text of a file. -/
def ofToml? (text : String) : Option Config := do
  ofEntries? (← Toml.parse text)

/-! ## 2. Writing -/

/-- The text of a truth value. -/
def boolText (b : Bool) : String := if b then "true" else "false"

/-- The text of the file, unless one of the values has no written form. -/
def toToml? (c : Config) : Option String := do
  let name ← Toml.quote? c.name
  let version ← Toml.quote? c.version
  let edition ← Toml.quote? c.edition
  return "[package]\nname = " ++ name ++ "\nversion = " ++ version ++ "\nedition = " ++ edition ++
    "\n\n[analysis]\nprelude = " ++ boolText c.prelude ++ "\n"

end Config

end Sema
