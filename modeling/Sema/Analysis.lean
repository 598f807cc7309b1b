import Sema.Catalog
import Sema.Check.Stmt

/-!
# Analysis

`analyze` checks a program against a catalog: the entries of the catalog are declared in the root
scope, and then the statements of the program are checked there, so a program cannot declare a name
of the catalog anew at its top level. A catalog that names something twice is refused before the
program is looked at.

`Session.open?` and `Session.step` do the same for several programs, one after the other, on one
session.
-/

namespace Sema

/-- Declares entries in the current scope, in order; a problem of the catalog lies nowhere. -/
def declareEntries : List (String × Entity) → Check Unit
  | [] => return ()
  | (name, e) :: rest => do
      Check.declare name e none
      declareEntries rest

namespace Session

/-- Declares the entries of a catalog, starting from nothing. -/
def load (c : Catalog) : Outcome Unit := (declareEntries c.entries).run (.blank c.firstSerial)

/-- The session in which exactly the entries of a catalog are declared. -/
def open? (c : Catalog) : Except Diagnostic Session :=
  let o := load c
  match o.result with
  | .ok _ => .ok o.session
  | .error d => .error d

/-- Checks one more program. -/
def step (s : Session) (p : Program) : Outcome Resolved.Program := (Stmt.checkAll p).run s

end Session

/-- The result of an analysis, and the events recorded on the way. -/
abbrev Analysis := Traced Resolved.Program

/-- The event that ends an analysis. -/
def Event.ending : Except Diagnostic Resolved.Program → Event
  | .ok _ => .succeeded
  | .error d => .failed d

/-- Analyzes a program against a catalog. -/
def analyze (c : Catalog) (p : Program) : Analysis :=
  let loading := Session.load c
  match loading.result with
  | .error d => ⟨.error d, .started p.length :: loading.log⟩
  | .ok _ =>
      let o := loading.session.step p
      ⟨o.result, .started p.length :: (loading.log ++ o.log ++ [.ending o.result])⟩

/-- Analyzes a program against a catalog, or against nothing when the prelude is disabled. -/
def analyzeWith (prelude : Bool) (c : Catalog) (p : Program) : Analysis :=
  if prelude then analyze c p
  else
    let bare := analyze .empty p
    ⟨bare.result, .preludeDisabled :: bare.log⟩

end Sema
