import Sema.Diagnostic
import Sema.Scope

/-!
# Events

What an analysis records while it runs, in the order in which it happens: that it starts, every
declaration, every scope that is opened or closed, every name that is resolved, and how it ends. A
name that cannot be resolved, and a declaration that is refused, leave no event.
-/

namespace Sema

/-- How much an event matters. -/
inductive Level where
  | trace
  | debug
  | warn
deriving DecidableEq

/-- The name of a level. -/
def Level.text : Level → String
  | trace => "TRACE"
  | debug => "DEBUG"
  | warn => "WARN"

/-- Something that happened during an analysis. -/
inductive Event where
  /-- The catalog is left out of this analysis. -/
  | preludeDisabled
  /-- The analysis of a program with so many statements starts. -/
  | started (statements : Nat)
  /-- A scope has got a new name, for a value of this type. -/
  | declared (scope : Nat) (name : String) (ty : Ty)
  /-- The signature of a function is known. -/
  | declaredFunction (name : String) (signature : Signature)
  | entered (scope : Nat) (kind : ScopeKind)
  | exited (scope : Nat)
  /-- A name was found in this scope. -/
  | resolved (name : String) (scope : Nat)
  | succeeded
  | failed (diagnostic : Diagnostic)
deriving DecidableEq

namespace Event

/-- The level of an event: resolved names are details, and only failure is a warning. -/
def level : Event → Level
  | resolved _ _ => .trace
  | failed _ => .warn
  | _ => .debug

/-- The wording of an event. -/
def message : Event → String
  | preludeDisabled => "prelude disabled"
  | started _ => "analyze"
  | declared _ _ _ => "declared"
  | declaredFunction _ _ => "declared function"
  | entered _ _ => "entered scope"
  | exited _ => "exited scope"
  | resolved _ _ => "resolved"
  | succeeded => "analysis succeeded"
  | failed _ => "analysis failed"

end Event

end Sema
