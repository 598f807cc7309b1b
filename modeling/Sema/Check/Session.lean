import Sema.Check.Traced

/-!
# Sessions

A session is what an analysis works on and what stays when it is over: the open scopes, and the
number of the next declaration. `Check` is a computation on a session that yields a value or a
diagnostic and records events. Unlike the value, the session and the events survive a failure: what
was declared before it stays declared.

* `Check.reading` runs a computation that only reads the scopes.
* `Check.declare` declares a name in an open scope.
* `Check.inScope` runs a computation in a new scope, which is closed again whether it fails or not.
-/

namespace Sema

/-- The open scopes and the number of the next declaration. -/
structure Session where
  scopes : Scopes
  serial : Nat
deriving DecidableEq, Inhabited

/-- The session before anything is declared, with the number of the first declaration. -/
def Session.blank (serial : Nat) : Session := ⟨.root, serial⟩

/-- What a computation leaves: a value or a diagnostic, the session and the recorded events. -/
structure Outcome (α : Type) where
  result : Except Diagnostic α
  session : Session
  log : List Event

/-- A computation on a session. -/
def Check (α : Type) : Type := Session → Outcome α

namespace Check

variable {α β : Type}

/-- Runs a computation on a session. -/
def run (x : Check α) (s : Session) : Outcome α := x s

/-- Yields a value and changes nothing. -/
def ok (a : α) : Check α := fun s => ⟨.ok a, s, []⟩

/-- The second step runs on the session that the first one left, unless that failed. -/
def andThen (x : Check α) (f : α → Check β) : Check β := fun s =>
  let o := x.run s
  match o.result with
  | .error d => ⟨.error d, o.session, o.log⟩
  | .ok a =>
      let p := (f a).run o.session
      ⟨p.result, p.session, o.log ++ p.log⟩

instance : Monad Check where
  pure := ok
  bind := andThen

/-! ## 1. Reading -/

/-- Runs a computation that only reads the open scopes. -/
def reading (x : Scopes → Traced α) : Check α := fun s =>
  ⟨(x s.scopes).result, s, (x s.scopes).log⟩

/-- Reports a problem unless a condition holds. -/
def require (holds : Bool) (p : Problem) (span : Span) : Check Unit :=
  reading fun _ => .require holds p span

/-- The open scopes. -/
def scopes : Check Scopes := fun s => ⟨.ok s.scopes, s, []⟩

/-- Records an event. -/
def record (e : Event) : Check Unit := fun s => ⟨.ok (), s, [e]⟩

/-- The scopes refused an operation: the end of the computation, which lies nowhere. -/
def fault (reason : ScopeError) : Check α := fun s => ⟨.error ⟨.fault reason, none⟩, s, []⟩

/-! ## 2. Declaring -/

/-- A new identity. -/
def fresh : Check Identity := fun s =>
  ⟨.ok (.program s.serial), { s with serial := s.serial + 1 }, []⟩

/-- Declares a name in scope `i`; the problem lies at `span`. -/
def declareIn (i : Nat) (name : String) (e : Entity) (span : Option Span) : Check Unit := fun s =>
  match s.scopes.defineIn i name e with
  | .ok scopes => ⟨.ok (), { s with scopes := scopes }, [.declared i name e.ty]⟩
  | .error (.alreadyDeclared _) => ⟨.error ⟨.alreadyDeclared name, span⟩, s, []⟩
  | .error reason => (fault reason).run s

/-- Declares a name in the current scope; the problem lies at `span`. -/
def declare (name : String) (e : Entity) (span : Option Span) : Check Unit := do
  declareIn (← scopes).depth name e span

/-- Records the function whose body the current scope holds. -/
def setFunction (f : Decl.Function) : Check Unit := fun s =>
  match s.scopes.setFunction s.scopes.depth f with
  | .ok scopes => ⟨.ok (), { s with scopes := scopes }, []⟩
  | .error reason => (fault reason).run s

/-! ## 3. Opening and closing -/

/-- Opens a scope. -/
def enter (kind : ScopeKind) : Check Unit := fun s =>
  let scopes := s.scopes.enter kind
  ⟨.ok (), { s with scopes := scopes }, [.entered scopes.depth kind]⟩

/-- Closes the current scope; closing the root is a fault. -/
def exit : Check Unit := fun s =>
  match s.scopes.exit? with
  | .ok scopes => ⟨.ok (), { s with scopes := scopes }, [.exited s.scopes.depth]⟩
  | .error reason => (fault reason).run s

/-- The second computation runs after the first, whether that fails or not; what the first one came
    to counts unless the second fails. -/
def finallyDo (x : Check α) (last : Check Unit) : Check α := fun s =>
  let o := x.run s
  let p := last.run o.session
  ⟨p.result.bind fun _ => o.result, p.session, o.log ++ p.log⟩

/-- Runs a computation in a new scope, which is closed in any case. -/
def inScope (kind : ScopeKind) (x : Check α) : Check α := do
  enter kind
  finallyDo x exit

/-! ## 4. Running -/

@[simp] theorem run_pure (a : α) (s : Session) : (pure a : Check α).run s = ⟨.ok a, s, []⟩ := rfl

theorem run_bind_ok {x : Check α} {f : α → Check β} {s : Session} {a : α}
    (h : (x.run s).result = .ok a) :
    (x >>= f).run s =
      ⟨((f a).run (x.run s).session).result, ((f a).run (x.run s).session).session,
        (x.run s).log ++ ((f a).run (x.run s).session).log⟩ := by
  show andThen x f s = _
  simp only [andThen, h]

/-- Reading leaves the session as it is. -/
@[simp] theorem session_reading (x : Scopes → Traced α) (s : Session) :
    ((reading x).run s).session = s := rfl

@[simp] theorem result_reading (x : Scopes → Traced α) (s : Session) :
    ((reading x).run s).result = (x s.scopes).result := rfl

end Check

end Sema
