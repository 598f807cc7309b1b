import Sema.Analysis

/-!
# How computations run

One equation for each operation that a check is built from. What follows never opens an operation
again:

* declaring in the current scope, and declaring a function in the scope around it, succeed exactly
  when that scope does not declare the name yet (`Check.run_declare`, `Check.run_declareFunction`);
* a computation in a new scope leaves the frames around that scope as its own run left them
  (`Check.run_inScope`).

`Check.Yields` says that a computation succeeds, with its value and the session it leaves; it
composes along the steps of a computation (`Check.yields_bind`).
-/

namespace Sema

/-! ## 1. Scopes -/

theorem Frame.declares_eq_false {f : Frame} {x : String} :
    f.declares x = false ↔ f.bindings.lookup x = none := by
  simp [Frame.declares, Frame.find?]

/-- A binding declares its name and no other. -/
theorem Frame.declares_bind_eq_false {f : Frame} {x y : String} {e : Entity} :
    (f.bind x e).declares y = false ↔ y ≠ x ∧ f.declares y = false := by
  unfold Frame.declares
  rw [Frame.find?_bind]
  by_cases h : y = x <;> simp [h]

namespace Scopes

/-- The scope around the current one. -/
theorem frame?_around (inner f : Frame) (fs : List Frame) :
    (Scopes.mk inner (f :: fs)).frame? fs.length = some f := by
  simp [frame?, depth, frames]

/-- Declaring in the scope around the current one looks at that scope only. -/
theorem defineIn_around (inner f : Frame) (fs : List Frame) (name : String) (e : Entity) :
    (Scopes.mk inner (f :: fs)).defineIn fs.length name e =
      if f.declares name then .error (.alreadyDeclared name)
      else .ok ⟨inner, f.bind name e :: fs⟩ := by
  simp [defineIn, frame?_around, modify, depth, List.modify]

/-- Recording a function in the current scope always succeeds. -/
theorem setFunction_depth (s : Scopes) (f : Decl.Function) :
    s.setFunction s.depth f = .ok { s with inner := { s.inner with function := some f } } := by
  simp [setFunction, modify]

end Scopes

/-- The session with a new scope inside the current one. -/
def Session.enter (s : Session) (kind : ScopeKind) : Session :=
  ⟨s.scopes.enter kind, s.serial⟩

/-! ## 2. Computations -/

namespace Check

variable {α β : Type}

/-- Two steps, opened: the second runs on the session that the first one left. -/
theorem run_bind (x : Check α) (f : α → Check β) (s : Session) :
    (x >>= f).run s =
      match (x.run s).result with
      | .error d => ⟨.error d, (x.run s).session, (x.run s).log⟩
      | .ok a =>
          ⟨((f a).run (x.run s).session).result, ((f a).run (x.run s).session).session,
            (x.run s).log ++ ((f a).run (x.run s).session).log⟩ := rfl

@[simp] theorem run_fresh (s : Session) :
    fresh.run s = ⟨.ok (.program s.serial), { s with serial := s.serial + 1 }, []⟩ := rfl

@[simp] theorem run_scopes (s : Session) : scopes.run s = ⟨.ok s.scopes, s, []⟩ := rfl

@[simp] theorem run_record (e : Event) (s : Session) : (record e).run s = ⟨.ok (), s, [e]⟩ := rfl

@[simp] theorem run_reading (x : Scopes → Traced α) (s : Session) :
    (reading x).run s = ⟨(x s.scopes).result, s, (x s.scopes).log⟩ := rfl

@[simp] theorem run_setFunction (f : Decl.Function) (s : Session) :
    (setFunction f).run s =
      ⟨.ok (), { s with scopes := { s.scopes with inner := { s.scopes.inner with
        function := some f } } }, []⟩ := by
  show setFunction f s = _
  simp only [setFunction, Scopes.setFunction_depth]

/-- Declaring in an open scope, once it is known what the scopes answer. -/
theorem run_declareIn {i : Nat} {name : String} {e : Entity} {s : Session} {t : Scopes}
    {free : Bool} (span : Option Span)
    (h : s.scopes.defineIn i name e =
      if free then .error (.alreadyDeclared name) else .ok t) :
    (declareIn i name e span).run s =
      if free then ⟨.error ⟨.alreadyDeclared name, span⟩, s, []⟩
      else ⟨.ok (), { s with scopes := t }, [.declared i name e.ty]⟩ := by
  show declareIn i name e span s = _
  cases free <;> simp [declareIn, h]

theorem run_declare (name : String) (e : Entity) (span : Option Span) (s : Session) :
    (declare name e span).run s =
      if s.scopes.inner.declares name then ⟨.error ⟨.alreadyDeclared name, span⟩, s, []⟩
      else ⟨.ok (), { s with scopes := { s.scopes with inner := s.scopes.inner.bind name e } },
        [.declared s.scopes.depth name e.ty]⟩ :=
  run_declareIn span (Scopes.define_eq s.scopes name e)

theorem run_declareIn_around (inner f : Frame) (fs : List Frame) (n : Nat) (name : String)
    (e : Entity) (span : Option Span) :
    (declareIn fs.length name e span).run ⟨⟨inner, f :: fs⟩, n⟩ =
      if f.declares name then ⟨.error ⟨.alreadyDeclared name, span⟩, ⟨⟨inner, f :: fs⟩, n⟩, []⟩
      else ⟨.ok (), ⟨⟨inner, f.bind name e :: fs⟩, n⟩, [.declared fs.length name e.ty]⟩ :=
  run_declareIn span (Scopes.defineIn_around inner f fs name e)

/-- A new variable takes the next number and is declared in the current scope. -/
theorem run_declareVariable (name : String) (readOnly : Bool) (ty : Ty) (span : Span)
    (s : Session) :
    (declareVariable name readOnly ty span).run s =
      if s.scopes.inner.declares name then
        ⟨.error ⟨.alreadyDeclared name, some span⟩, { s with serial := s.serial + 1 }, []⟩
      else
        ⟨.ok ⟨.program s.serial, name, readOnly, ty⟩,
          ⟨{ s.scopes with
              inner := s.scopes.inner.bind name (.var ⟨.program s.serial, name, readOnly, ty⟩) },
            s.serial + 1⟩,
          [.declared s.scopes.depth name ty]⟩ := by
  simp only [declareVariable, run_bind, run_fresh, run_declare]
  by_cases h : s.scopes.inner.declares name = true <;> simp [h, Entity.ty]

/-- A new function takes the next number; it is recorded in the current scope, which holds its
    body, and declared in the scope around it. -/
theorem run_declareFunction (name : String) (signature : Signature) (span : Span)
    (inner f : Frame) (fs : List Frame) (n : Nat) :
    (declareFunction name signature span).run ⟨⟨inner, f :: fs⟩, n⟩ =
      if f.declares name then
        ⟨.error ⟨.alreadyDeclared name, some span⟩,
          ⟨⟨{ inner with function := some ⟨.program n, name, signature⟩ }, f :: fs⟩, n + 1⟩,
          [.declaredFunction name signature]⟩
      else
        ⟨.ok ⟨.program n, name, signature⟩,
          ⟨⟨{ inner with function := some ⟨.program n, name, signature⟩ },
            f.bind name (.func ⟨.program n, name, signature⟩) :: fs⟩, n + 1⟩,
          [.declaredFunction name signature, .declared fs.length name signature.ty]⟩ := by
  have hdepth : ∀ g : Frame, (Scopes.mk g (f :: fs)).depth - 1 = fs.length := fun _ => rfl
  simp only [declareFunction, run_bind, run_fresh, run_record, run_setFunction, run_scopes, hdepth,
    run_declareIn_around]
  by_cases h : f.declares name = true <;> simp [h, Entity.ty]

/-- Closing a scope that has a frame around it. -/
theorem run_exit (inner f : Frame) (fs : List Frame) (n : Nat) :
    exit.run ⟨⟨inner, f :: fs⟩, n⟩ = ⟨.ok (), ⟨⟨f, fs⟩, n⟩, [.exited (fs.length + 1)]⟩ := rfl

/-- A computation in a new scope: it runs there, and the scope is closed whatever it came to. -/
theorem run_inScope {kind : ScopeKind} {x : Check α} {s : Session} {f : Frame} {fs : List Frame}
    (h : (x.run (s.enter kind)).session.scopes.outer = f :: fs) :
    (inScope kind x).run s =
      ⟨(x.run (s.enter kind)).result, ⟨⟨f, fs⟩, (x.run (s.enter kind)).session.serial⟩,
        .entered (s.scopes.depth + 1) kind ::
          ((x.run (s.enter kind)).log ++ [.exited (fs.length + 1)])⟩ := by
  have hrun : (inScope kind x).run s =
      ⟨(exit.run (x.run (s.enter kind)).session).result.bind fun _ => (x.run (s.enter kind)).result,
        (exit.run (x.run (s.enter kind)).session).session,
        .entered (s.scopes.depth + 1) kind ::
          ((x.run (s.enter kind)).log ++ (exit.run (x.run (s.enter kind)).session).log)⟩ := rfl
  rw [hrun]
  generalize x.run (s.enter kind) = o at h
  obtain ⟨result, ⟨⟨inner, outer⟩, n⟩, log⟩ := o
  obtain rfl : outer = f :: fs := h
  rw [run_exit]
  rfl

/-! ## 3. Success -/

/-- The computation succeeds on `s` with the value `a` and leaves the session `t`. -/
def Yields (x : Check α) (s : Session) (a : α) (t : Session) : Prop :=
  (x.run s).result = .ok a ∧ (x.run s).session = t

theorem Yields.unique {x : Check α} {s t u : Session} {a b : α} (h : x.Yields s a t)
    (h' : x.Yields s b u) : a = b ∧ t = u :=
  ⟨Except.ok.inj (h.1.symm.trans h'.1), h.2.symm.trans h'.2⟩

theorem yields_pure {a b : α} {s t : Session} :
    (pure a : Check α).Yields s b t ↔ b = a ∧ t = s := by
  simp only [Yields, run_pure, Except.ok.injEq, eq_comm]

/-- **A computation of two steps succeeds when both do.** -/
theorem yields_bind {x : Check α} {f : α → Check β} {s t : Session} {b : β} :
    (x >>= f).Yields s b t ↔ ∃ a r, x.Yields s a r ∧ (f a).Yields r b t := by
  unfold Yields
  rw [run_bind]
  cases hx : (x.run s).result with
  | error d =>
      constructor
      · intro h
        cases h.1
      · rintro ⟨a, r, ⟨h, _⟩, _⟩
        cases h
  | ok a =>
      constructor
      · intro h
        exact ⟨a, _, ⟨rfl, rfl⟩, h⟩
      · rintro ⟨a', r, ⟨h, rfl⟩, h'⟩
        cases h
        exact h'

theorem yields_reading {x : Scopes → Traced α} {s t : Session} {a : α} :
    (reading x).Yields s a t ↔ (x s.scopes).result = .ok a ∧ t = s := by
  simp only [Yields, run_reading, eq_comm]

theorem yields_scopes {s t : Session} {Γ : Scopes} :
    scopes.Yields s Γ t ↔ Γ = s.scopes ∧ t = s := by
  simp only [Yields, run_scopes, Except.ok.injEq, eq_comm]

/-- **A computation in a new scope succeeds when it does so there**; the frames that it left around
    that scope are the frames after it. -/
theorem yields_inScope {kind : ScopeKind} {x : Check α} {s t : Session} {a : α} :
    (inScope kind x).Yields s a t ↔
      ∃ r f fs, x.Yields (s.enter kind) a r ∧ r.scopes.outer = f :: fs ∧
        t = ⟨⟨f, fs⟩, r.serial⟩ := by
  cases hout : (x.run (s.enter kind)).session.scopes.outer with
  | nil =>
      -- closing the scope would close the root, so there is no success on either side
      have hexit : (exit.run (x.run (s.enter kind)).session).result =
          .error ⟨.fault .atRoot, none⟩ := by
        show (exit _).result = _
        simp only [exit, Scopes.exit?, hout]
        rfl
      have hrun : ((inScope kind x).run s).result = .error ⟨.fault .atRoot, none⟩ := by
        show (exit.run (x.run (s.enter kind)).session).result.bind _ = _
        rw [hexit]
        rfl
      constructor
      · rintro ⟨h, _⟩
        rw [hrun] at h
        cases h
      · rintro ⟨r, f, fs, ⟨_, rfl⟩, h, _⟩
        rw [hout] at h
        cases h
  | cons f fs =>
      rw [Yields, run_inScope hout]
      constructor
      · rintro ⟨h, rfl⟩
        exact ⟨_, f, fs, ⟨h, rfl⟩, hout, rfl⟩
      · rintro ⟨r, g, gs, ⟨h, rfl⟩, h', rfl⟩
        rw [hout] at h'
        cases h'
        exact ⟨h, rfl⟩

theorem yields_declare {name : String} {e : Entity} {span : Option Span} {s t : Session}
    {u : Unit} :
    (declare name e span).Yields s u t ↔
      s.scopes.inner.declares name = false ∧
        t = ⟨{ s.scopes with inner := s.scopes.inner.bind name e }, s.serial⟩ := by
  rw [Yields, run_declare]
  cases h : s.scopes.inner.declares name with
  | true => simp
  | false => simp [eq_comm]

theorem yields_declareVariable {name : String} {readOnly : Bool} {ty : Ty} {span : Span}
    {s t : Session} {v : Decl.Variable} :
    (declareVariable name readOnly ty span).Yields s v t ↔
      s.scopes.inner.declares name = false ∧ v = ⟨.program s.serial, name, readOnly, ty⟩ ∧
        t = ⟨{ s.scopes with inner := s.scopes.inner.bind name (.var v) }, s.serial + 1⟩ := by
  rw [Yields, run_declareVariable]
  cases h : s.scopes.inner.declares name with
  | true => simp
  | false =>
      simp only [Bool.false_eq_true, if_false, Except.ok.injEq, true_and]
      constructor
      · rintro ⟨rfl, rfl⟩
        exact ⟨rfl, rfl⟩
      · rintro ⟨rfl, rfl⟩
        exact ⟨rfl, rfl⟩

theorem yields_declareFunction {name : String} {signature : Signature} {span : Span}
    {inner f : Frame} {fs : List Frame} {n : Nat} {t : Session} {d : Decl.Function} :
    (declareFunction name signature span).Yields ⟨⟨inner, f :: fs⟩, n⟩ d t ↔
      f.declares name = false ∧ d = ⟨.program n, name, signature⟩ ∧
        t = ⟨⟨{ inner with function := some d }, f.bind name (.func d) :: fs⟩, n + 1⟩ := by
  rw [Yields, run_declareFunction]
  cases h : f.declares name with
  | true => simp
  | false =>
      simp only [Bool.false_eq_true, if_false, Except.ok.injEq, true_and]
      constructor
      · rintro ⟨rfl, rfl⟩
        exact ⟨rfl, rfl⟩
      · rintro ⟨rfl, rfl⟩
        exact ⟨rfl, rfl⟩

end Check

end Sema
