import Sema.Proofs.Frame

/-!
# The head of a function

The check of a function has a head: the result type is resolved, the parameters are declared in the
scope of the body, and the function itself is declared in the scope around it. `FunctionHead` says
that all of this succeeds, and on which session the body is then checked.

* Once the head has succeeded, the function comes to what its body comes to, and its name stays
  declared whether the body is accepted or not (`FunctionHead.run_check`).
* Where the head fails, the function is refused and nothing stays declared, whatever the body is
  (`Stmt.check_function_of_no_head`). So a function that is accepted has a head that succeeds
  (`Stmt.exists_head`).

The same goes for statements in a row: once the first of them are accepted, all come to what the
others come to (`Stmt.run_append`).
-/

namespace Sema

/-! ## 1. Steps that have succeeded -/

namespace Check

variable {α β : Type} {x : Check α} {s t : Session} {a : α}

/-- What follows a step that has succeeded decides what both come to. -/
theorem result_bind_of_yields (h : x.Yields s a t) (f : α → Check β) :
    ((x >>= f).run s).result = ((f a).run t).result := by
  obtain ⟨hres, rfl⟩ := h
  rw [run_bind, hres]

theorem session_bind_of_yields (h : x.Yields s a t) (f : α → Check β) :
    ((x >>= f).run s).session = ((f a).run t).session := by
  obtain ⟨hres, rfl⟩ := h
  rw [run_bind, hres]

/-- A step that fails ends the computation. -/
theorem run_bind_of_error {d : Diagnostic} (h : (x.run s).result = .error d) (f : α → Check β) :
    ((x >>= f).run s).result = .error d ∧ ((x >>= f).run s).session = (x.run s).session := by
  rw [run_bind, h]
  exact ⟨rfl, rfl⟩

theorem result_bind_pure (x : Check α) (g : α → β) (s : Session) :
    ((x >>= fun a => pure (g a)).run s).result = (x.run s).result.map g := by
  rw [run_bind]
  cases (x.run s).result <;> rfl

theorem session_bind_pure (x : Check α) (g : α → β) (s : Session) :
    ((x >>= fun a => pure (g a)).run s).session = (x.run s).session := by
  rw [run_bind]
  cases (x.run s).result <;> rfl

end Check

/-! ## 2. Statements in a row -/

open Check

section

variable {x : Stmt} {xs ys : List Stmt} {r : Resolved.Stmt} {rs : List Resolved.Stmt}
  {s t u : Session}

theorem Stmt.yields_cons (hx : x.check.Yields s r t) (hxs : (Stmt.checkAll xs).Yields t rs u) :
    (Stmt.checkAll (x :: xs)).Yields s (r :: rs) u := by
  rw [Stmt.checkAll]
  exact yields_bind.mpr ⟨r, t, hx, yields_bind.mpr ⟨rs, u, hxs, yields_pure.mpr ⟨rfl, rfl⟩⟩⟩

theorem Stmt.exists_of_yields_cons {R : List Resolved.Stmt}
    (h : (Stmt.checkAll (x :: xs)).Yields s R u) :
    ∃ r rs t, x.check.Yields s r t ∧ (Stmt.checkAll xs).Yields t rs u ∧ R = r :: rs := by
  rw [Stmt.checkAll] at h
  obtain ⟨r, t, hr, h⟩ := yields_bind.mp h
  obtain ⟨rs, v, hrs, h⟩ := yields_bind.mp h
  obtain ⟨hR, hv⟩ := yields_pure.mp h
  subst hv
  exact ⟨r, rs, t, hr, hrs, hR⟩

/-- Each statement is resolved to one statement. -/
theorem Stmt.length_of_yields : ∀ {xs : List Stmt} {rs : List Resolved.Stmt} {s t : Session},
    (Stmt.checkAll xs).Yields s rs t → rs.length = xs.length
  | [], rs, s, t, h => by
      cases h.1
      rfl
  | x :: xs, R, s, t, h => by
      obtain ⟨r, rs, u, _, hrs, hR⟩ := Stmt.exists_of_yields_cons h
      rw [hR, List.length_cons, List.length_cons, Stmt.length_of_yields hrs]

/-- **After statements that are accepted**, the others come to what they come to on the session that
    was left. -/
theorem Stmt.run_append : ∀ {xs : List Stmt} {rs : List Resolved.Stmt} {s t : Session},
    (Stmt.checkAll xs).Yields s rs t → ∀ ys : List Stmt,
      ((Stmt.checkAll (xs ++ ys)).run s).result =
          ((Stmt.checkAll ys).run t).result.map (rs ++ ·) ∧
        ((Stmt.checkAll (xs ++ ys)).run s).session = ((Stmt.checkAll ys).run t).session
  | [], rs, s, t, h, ys => by
      obtain ⟨hrs, hst⟩ := h
      cases hrs
      cases hst
      exact ⟨(congrFun Except.map_id _).symm, rfl⟩
  | x :: xs, R, s, t, h, ys => by
      obtain ⟨r, rs, u, hr, hrs, hR⟩ := Stmt.exists_of_yields_cons h
      obtain ⟨hresult, hsession⟩ := Stmt.run_append hrs ys
      subst hR
      rw [List.cons_append, Stmt.checkAll, result_bind_of_yields hr, session_bind_of_yields hr,
        result_bind_pure, session_bind_pure, hresult, hsession]
      refine ⟨?_, rfl⟩
      cases ((Stmt.checkAll ys).run t).result <;> rfl

theorem Stmt.yields_append {rs' : List Resolved.Stmt} (hxs : (Stmt.checkAll xs).Yields s rs t)
    (hys : (Stmt.checkAll ys).Yields t rs' u) :
    (Stmt.checkAll (xs ++ ys)).Yields s (rs ++ rs') u := by
  obtain ⟨hresult, hsession⟩ := Stmt.run_append hxs ys
  rw [hys.1] at hresult
  rw [hys.2] at hsession
  exact ⟨hresult, hsession⟩

/-- The first statements of a row that is accepted are accepted. -/
theorem Stmt.exists_yields_take : ∀ {ss : List Stmt} {rs : List Resolved.Stmt} {σ τ : Session},
    (Stmt.checkAll ss).Yields σ rs τ → ∀ k : Nat,
      ∃ rs' τ', (Stmt.checkAll (ss.take k)).Yields σ rs' τ'
  | _, _, σ, _, _, 0 => ⟨[], σ, rfl, rfl⟩
  | [], rs, σ, τ, h, _ + 1 => ⟨rs, τ, h⟩
  | s :: ss, _, σ, τ, h, k + 1 => by
      obtain ⟨r, rs, υ, hr, hrs, rfl⟩ := Stmt.exists_of_yields_cons h
      obtain ⟨rs', τ', hrs'⟩ := Stmt.exists_yields_take hrs k
      exact ⟨r :: rs', τ', Stmt.yields_cons hr hrs'⟩

end

/-! ## 3. The head -/

/-- The head of a function succeeds on `s`, with its parameters and with the function itself; the
    body is then checked on `t`. -/
def FunctionHead (name : String) (parameters : List Parameter) (result : Option TypeExpr)
    (span : Span) (s : Session) (ds : List Decl.Parameter) (f : Decl.Function) (t : Session) :
    Prop :=
  ∃ ty u v, (checkResult result).Yields s ty u ∧
    (Parameter.checkAll parameters).Yields (u.enter .functionBody) ds v ∧
    (declareFunction name ⟨ds.map (·.ty), ty⟩ span).Yields v f t

/-- What runs in the scope of the body of a function, once its result type is known. -/
def checkInside (name : String) (parameters : List Parameter) (ty : Ty) (body : List Stmt)
    (span : Span) : Check Resolved.Stmt := do
  let ps ← Parameter.checkAll parameters
  let f ← declareFunction name ⟨ps.map (·.ty), ty⟩ span
  let body ← Stmt.checkAll body
  return .function f ps body

theorem Stmt.check_function (name : String) (parameters : List Parameter)
    (result : Option TypeExpr) (body : List Stmt) (span : Span) :
    (Stmt.function name parameters result body span).check = checkResult result >>= fun ty =>
      inScope .functionBody (checkInside name parameters ty body span) := by
  rw [Stmt.check]
  rfl

theorem session_checkResult (result : Option TypeExpr) (s : Session) :
    ((checkResult result).run s).session = s := by
  cases result <;> rfl

section

variable {name : String} {parameters : List Parameter} {result : Option TypeExpr} {span : Span}
  {s t : Session} {ds : List Decl.Parameter} {f : Decl.Function}

/-- Parameters touch nothing but the names of the scope of the body. -/
theorem Parameter.scopes_checkAll (parameters : List Parameter) (s : Session) :
    ∃ new, ((Parameter.checkAll parameters).run (s.enter .functionBody)).session.scopes =
      ⟨⟨new, false, none⟩, s.scopes.inner :: s.scopes.outer⟩ := by
  obtain ⟨new, hnew, _⟩ := (Parameter.tame_checkAll parameters).gains (s.enter .functionBody)
  exact ⟨_, hnew⟩

theorem Parameter.session_of_yields
    (h : (Parameter.checkAll parameters).Yields (s.enter .functionBody) ds t) :
    ∃ new n, t = ⟨⟨⟨new, false, none⟩, s.scopes.inner :: s.scopes.outer⟩, n⟩ := by
  obtain ⟨new, hscopes⟩ := Parameter.scopes_checkAll parameters s
  rw [h.2] at hscopes
  exact ⟨new, t.serial, by rw [← hscopes]⟩

namespace FunctionHead

theorem name_eq (h : FunctionHead name parameters result span s ds f t) : f.name = name := by
  obtain ⟨ty, u, v, -, hps, hf⟩ := h
  obtain ⟨new, n, rfl⟩ := Parameter.session_of_yields hps
  obtain ⟨-, rfl, -⟩ := yields_declareFunction.mp hf
  rfl

/-- The result type of the function is what its head says. -/
theorem result_eq (h : FunctionHead name parameters result span s ds f t) :
    ((checkResult result).run s).result = .ok f.signature.result := by
  obtain ⟨ty, u, v, hty, hps, hf⟩ := h
  obtain ⟨new, n, rfl⟩ := Parameter.session_of_yields hps
  obtain ⟨-, rfl, -⟩ := yields_declareFunction.mp hf
  exact hty.1

/-- **The scopes of the body**: no loop can be left, the function is the one being defined, and its
    name is declared around. -/
theorem scopes_eq (h : FunctionHead name parameters result span s ds f t) :
    ∃ new, s.scopes.inner.declares name = false ∧
      t.scopes = ⟨⟨new, false, some f⟩,
        s.scopes.inner.bind name (.func f) :: s.scopes.outer⟩ := by
  obtain ⟨ty, u, v, hty, hps, hf⟩ := h
  obtain rfl : s = u := (session_checkResult result s).symm.trans hty.2
  obtain ⟨new, n, rfl⟩ := Parameter.session_of_yields hps
  obtain ⟨hfree, -, rfl⟩ := yields_declareFunction.mp hf
  exact ⟨new, hfree, rfl⟩

/-- What the scope of the body holds once the body is checked, seen from outside. -/
theorem outer_eq (h : FunctionHead name parameters result span s ds f t) (body : List Stmt) :
    ((Stmt.checkAll body).run t).session.scopes.outer =
      s.scopes.inner.bind name (.func f) :: s.scopes.outer := by
  obtain ⟨new, -, ht⟩ := h.scopes_eq
  rw [((Stmt.tame_checkAll body).gains t).outer, ht]

/-- **A function whose head succeeds comes to what its body comes to**; its name stays declared. -/
theorem run_check (h : FunctionHead name parameters result span s ds f t) (body : List Stmt) :
    ((Stmt.function name parameters result body span).check.run s).result =
        ((Stmt.checkAll body).run t).result.map (.function f ds) ∧
      ((Stmt.function name parameters result body span).check.run s).session =
        ⟨{ s.scopes with inner := s.scopes.inner.bind name (.func f) },
          ((Stmt.checkAll body).run t).session.serial⟩ := by
  have houter := h.outer_eq body
  obtain ⟨ty, u, v, hty, hps, hf⟩ := h
  have hres : ((checkInside name parameters ty body span).run (u.enter .functionBody)).result =
      ((Stmt.checkAll body).run t).result.map (.function f ds) := by
    rw [checkInside, result_bind_of_yields hps, result_bind_of_yields hf, result_bind_pure]
  have hses : ((checkInside name parameters ty body span).run (u.enter .functionBody)).session =
      ((Stmt.checkAll body).run t).session := by
    rw [checkInside, session_bind_of_yields hps, session_bind_of_yields hf, session_bind_pure]
  rw [← hses] at houter
  rw [Stmt.check_function, result_bind_of_yields hty, session_bind_of_yields hty,
    run_inScope houter, ← hres, ← hses]
  exact ⟨rfl, rfl⟩

end FunctionHead

/-- Where the parameters or the name are refused, the scope around is left alone. -/
theorem checkInside_of_no_head {ty : Ty}
    (h : ∀ ds v f t, (Parameter.checkAll parameters).Yields (s.enter .functionBody) ds v →
      ¬ (declareFunction name ⟨ds.map (·.ty), ty⟩ span).Yields v f t) (body : List Stmt) :
    ∃ d, ((checkInside name parameters ty body span).run (s.enter .functionBody)).result =
        .error d ∧
      ((checkInside name parameters ty body span).run
        (s.enter .functionBody)).session.scopes.outer = s.scopes.inner :: s.scopes.outer := by
  rw [checkInside]
  cases hps : ((Parameter.checkAll parameters).run (s.enter .functionBody)).result with
  | error d =>
      obtain ⟨hres, hses⟩ := run_bind_of_error hps _
      obtain ⟨new, hscopes⟩ := Parameter.scopes_checkAll parameters s
      exact ⟨d, hres, by rw [hses, hscopes]⟩
  | ok ds =>
      have hps : (Parameter.checkAll parameters).Yields (s.enter .functionBody) ds _ := ⟨hps, rfl⟩
      obtain ⟨new, n, hv⟩ := Parameter.session_of_yields hps
      rw [hv] at hps
      have hrun := run_declareFunction name ⟨ds.map (·.ty), ty⟩ span ⟨new, false, none⟩
        s.scopes.inner s.scopes.outer n
      rw [result_bind_of_yields hps, session_bind_of_yields hps]
      cases hname : s.scopes.inner.declares name with
      | false =>
          rw [hname, if_neg Bool.false_ne_true] at hrun
          exact absurd ⟨congrArg Outcome.result hrun, rfl⟩ (h ds _ _ _ hps)
      | true =>
          rw [if_pos hname] at hrun
          obtain ⟨hres, hses⟩ := run_bind_of_error (congrArg Outcome.result hrun) _
          exact ⟨_, hres, by rw [hses, hrun]⟩

/-- **Where the head fails, nothing stays**: the function is refused, whatever its body is. -/
theorem Stmt.check_function_of_no_head
    (h : ∀ ds f t, ¬ FunctionHead name parameters result span s ds f t) (body : List Stmt) :
    ∃ d, ((Stmt.function name parameters result body span).check.run s).result = .error d ∧
      ((Stmt.function name parameters result body span).check.run s).session.scopes = s.scopes := by
  rw [Stmt.check_function]
  cases hty : ((checkResult result).run s).result with
  | error d =>
      obtain ⟨hres, hses⟩ := run_bind_of_error hty _
      exact ⟨d, hres, by rw [hses, session_checkResult]⟩
  | ok ty =>
      have hty : (checkResult result).Yields s ty s := ⟨hty, session_checkResult result s⟩
      rw [result_bind_of_yields hty, session_bind_of_yields hty]
      obtain ⟨d, hres, houter⟩ := checkInside_of_no_head
        (fun ds v f t hps hf => h ds f t ⟨ty, s, v, hty, hps, hf⟩) body
      rw [run_inScope houter]
      exact ⟨d, hres, rfl⟩

/-- A function is refused for its name once its result type and its parameters are accepted. -/
theorem Stmt.result_function_of_taken {ty : Ty} (hty : (checkResult result).Yields s ty s)
    (hps : (Parameter.checkAll parameters).Yields (s.enter .functionBody) ds t)
    (hname : s.scopes.inner.declares name = true) (body : List Stmt) :
    ((Stmt.function name parameters result body span).check.run s).result =
      .error ⟨.alreadyDeclared name, some span⟩ := by
  obtain ⟨new, n, rfl⟩ := Parameter.session_of_yields hps
  have hrun := run_declareFunction name ⟨ds.map (·.ty), ty⟩ span ⟨new, false, none⟩
    s.scopes.inner s.scopes.outer n
  rw [if_pos hname] at hrun
  have hinside : ((checkInside name parameters ty body span).run (s.enter .functionBody)).result =
        .error ⟨.alreadyDeclared name, some span⟩ ∧
      ((checkInside name parameters ty body span).run
        (s.enter .functionBody)).session.scopes.outer = s.scopes.inner :: s.scopes.outer := by
    rw [checkInside, result_bind_of_yields hps, session_bind_of_yields hps]
    obtain ⟨hres, hses⟩ := run_bind_of_error (congrArg Outcome.result hrun) _
    exact ⟨hres, by rw [hses, hrun]⟩
  rw [Stmt.check_function, result_bind_of_yields hty, run_inScope hinside.2]
  exact hinside.1

/-- A function that is accepted has a head that succeeds, and a body that is accepted after it. -/
theorem Stmt.exists_head {body : List Stmt} {r : Resolved.Stmt}
    (h : (Stmt.function name parameters result body span).check.Yields s r t) :
    ∃ ds f u rs, FunctionHead name parameters result span s ds f u ∧
      ((Stmt.checkAll body).run u).result = .ok rs ∧ r = .function f ds rs := by
  by_cases hhead : ∃ ds f u, FunctionHead name parameters result span s ds f u
  · obtain ⟨ds, f, u, hhead⟩ := hhead
    have hres := (hhead.run_check body).1.symm.trans h.1
    cases hbody : ((Stmt.checkAll body).run u).result with
    | error d =>
        rw [hbody] at hres
        cases hres
    | ok rs =>
        rw [hbody] at hres
        cases hres
        exact ⟨ds, f, u, rs, hhead, hbody, rfl⟩
  · obtain ⟨d, hd, _⟩ := Stmt.check_function_of_no_head
      (fun ds f u h' => hhead ⟨ds, f, u, h'⟩) body
    rw [h.1] at hd
    cases hd

end

end Sema
