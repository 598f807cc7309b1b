import Sema.Toml.Grammar

/-!
# Documents

What the lines of a TOML text say together. The entries before the first header make up the root
table; every header starts a section whose entries go into the table it names.

* A header may name a table that an earlier header implied, and then adds to it; it may not name a
  table twice, nor one that a dotted key implied.
* `[[key]]` adds a table to the sequence under its key. A path that leads through such a sequence
  goes on in its last table.
* A dotted key may lead through tables that are not written out, and its last name has to be new in
  a table that a dotted key implied.
-/

namespace Sema.Toml

/-- Changes the table at the end of a path; tables that are missing on the way are implied. Where
    `dotted` is set, the path is that of a dotted key and may not lead through a table that is
    written out. -/
def Entries.descend (dotted : Bool) (change : Origin → Entries → Option Entries) (origin : Origin)
    (entries : Entries) : List String → Option Entries
  | [] => change origin entries
  | part :: path =>
      match entries.lookup part with
      | none => do
          let made : Origin := if dotted then .dotted else .implied
          let inner ← Entries.descend dotted change made [] path
          return entries ++ [(part, .table made inner)]
      | some (.table o inner) =>
          if dotted && o == .explicit then none
          else do
            let inner ← Entries.descend dotted change o inner path
            return entries.replace part (.table o inner)
      | some (.tables elements) =>
          match elements.getLast? with
          | none => none
          | some last => do
              let last ← Entries.descend dotted change .explicit last path
              return entries.replace part (.tables (elements.dropLast ++ [last]))
      | some _ => none

/-- Adds an entry to the table of a section. -/
def Entries.insertEntry (entries : Entries) (e : Entry) : Option Entries :=
  let change : Origin → Entries → Option Entries := fun origin table =>
    if (origin == .dotted) == e.key.path.isEmpty then none
    else if (table.lookup e.key.name).isSome then none
    else some (table ++ [(e.key.name, e.item)])
  Entries.descend true change .explicit entries e.key.path

/-- Adds entries to the table of a section, in order. -/
def Entries.insertAll (entries : Entries) (es : List Entry) : Option Entries :=
  es.foldlM Entries.insertEntry entries

/-- A header with the entries under it. -/
structure Section where
  /-- Whether the header adds a table to a sequence. -/
  isElement : Bool
  key : Key
  entries : List Entry

/-- The entries before the first header, and the sections. -/
def sections : List Line → List Entry × List Section
  | [] => ([], [])
  | .entry e :: rest => let (es, ss) := sections rest; (e :: es, ss)
  | .table k :: rest => let (es, ss) := sections rest; ([], ⟨false, k, es⟩ :: ss)
  | .element k :: rest => let (es, ss) := sections rest; ([], ⟨true, k, es⟩ :: ss)

/-- The table of a section, put into the table that holds it. -/
def Section.place (s : Section) (parent : Entries) : Option Entries :=
  if s.isElement then
    match parent.lookup s.key.name with
    | none => do
        let table ← Entries.insertAll [] s.entries
        return parent ++ [(s.key.name, .tables [table])]
    | some (.tables elements) => do
        let table ← Entries.insertAll [] s.entries
        return parent.replace s.key.name (.tables (elements ++ [table]))
    | some _ => none
  else
    match parent.lookup s.key.name with
    | none => do
        let table ← Entries.insertAll [] s.entries
        return parent ++ [(s.key.name, .table .explicit table)]
    | some (.table .implied inner) => do
        let table ← Entries.insertAll inner s.entries
        return parent.replace s.key.name (.table .explicit table)
    | some _ => none

/-- Adds a section to a document. -/
def Entries.insertSection (root : Entries) (s : Section) : Option Entries :=
  Entries.descend false (fun _ parent => s.place parent) .explicit root s.key.path

/-- The root table that lines make up. -/
def assemble (ls : List Line) : Option Entries := do
  let (es, ss) := sections ls
  let root ← Entries.insertAll [] es
  ss.foldlM Entries.insertSection root

/-- Leaves out a byte order mark at the start of a text. -/
def dropByteOrderMark : List Char → List Char
  | '\ufeff' :: r => r
  | cs => cs

/-- The root table of a text. -/
def parse (text : String) : Option Entries := do
  let cs := dropByteOrderMark text.toList
  assemble (← lines (cs.length + 1) cs)

end Sema.Toml
