import Sema.Event

/-!
# Traced results

Checking an expression or a written type only reads the open scopes: it yields a value or a
diagnostic, and on the way it records events. `Traced` is such a result. Events that were recorded
before a failure are kept.

What is yielded does not depend on what is recorded: `Traced.result_bind` says that results compose
as if nothing were recorded.
-/

namespace Sema

/-- A value or a diagnostic, with the events recorded on the way. -/
structure Traced (α : Type) where
  result : Except Diagnostic α
  log : List Event

namespace Traced

variable {α β : Type}

/-- A value, and no event. -/
def ok (a : α) : Traced α := ⟨.ok a, []⟩

/-- The second step runs with the value of the first one, unless that failed. -/
def andThen (x : Traced α) (f : α → Traced β) : Traced β :=
  match x.result with
  | .error d => ⟨.error d, x.log⟩
  | .ok a => ⟨(f a).result, x.log ++ (f a).log⟩

instance : Monad Traced where
  pure := ok
  bind := andThen

/-- A problem at a span. -/
def fail (p : Problem) (span : Span) : Traced α := ⟨.error ⟨p, some span⟩, []⟩

/-- Reports a problem unless a condition holds. -/
def require (holds : Bool) (p : Problem) (span : Span) : Traced Unit :=
  if holds then ok () else fail p span

@[simp] theorem result_pure (a : α) : (pure a : Traced α).result = .ok a := rfl

@[simp] theorem log_pure (a : α) : (pure a : Traced α).log = [] := rfl

@[simp] theorem result_fail (p : Problem) (s : Span) :
    (fail p s : Traced α).result = .error ⟨p, some s⟩ := rfl

@[simp] theorem log_fail (p : Problem) (s : Span) : (fail p s : Traced α).log = [] := rfl

/-- **Results compose as if nothing were recorded.** -/
theorem result_bind (x : Traced α) (f : α → Traced β) :
    (x >>= f).result = x.result >>= fun a => (f a).result := by
  show (andThen x f).result = _
  unfold andThen
  cases x.result <;> rfl

end Traced

end Sema
