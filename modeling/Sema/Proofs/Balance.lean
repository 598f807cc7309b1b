import Sema.Proofs.Loading

/-!
# Balanced scopes

Every check leaves the stack of scopes as it found it, but for names that its own statements declare
in the current scope (`Scopes.Framed`). This holds on every session, however deep the stack is, and
whether the check succeeds or fails. The stack is never closed below the scope in which a check
started, so a session that opens with a catalog stays at its root through any sequence of programs,
and no analysis ends in a fault.
-/

namespace Sema

open Check

/-! ## 1. The frame, scope by scope -/

/-- The current scope of `t` may declare further names, out of `names`; in all else the two stacks
    agree. -/
structure Scopes.Framed (s t : Scopes) (names : List String) : Prop where
  depth : t.depth = s.depth
  parent : ∀ i, t.parent? i = s.parent? i
  /-- Every scope but the current one is as before. -/
  others : ∀ i, i ≠ s.depth → t.frame? i = s.frame? i
  /-- Every open scope keeps its control context and its bindings. -/
  kept : ∀ i f, s.frame? i = some f → ∃ g, t.frame? i = some g ∧ g.inLoop = f.inLoop ∧
    g.function = f.function ∧ ∀ x e, f.find? x = some e → g.find? x = some e
  gained : ∀ x, t.inner.declares x = true → s.inner.declares x = true ∨ x ∈ names

namespace Scopes

/-- Below the current scope, the stack does not depend on the frame of the current one. -/
theorem frame?_of_ne_depth (s : Scopes) (g : Frame) {i : Nat} (h : i ≠ s.depth) :
    ({ s with inner := g } : Scopes).frame? i = s.frame? i := by
  unfold frame?
  by_cases hi : i ≤ s.depth
  · have hlt : s.depth - i ≠ 0 := by omega
    obtain ⟨k, hk⟩ := Nat.exists_eq_succ_of_ne_zero hlt
    have hdepth : ({ s with inner := g } : Scopes).depth = s.depth := rfl
    rw [hdepth, if_pos hi, if_pos hi, hk]
    rfl
  · exact (if_neg hi).trans (if_neg hi).symm

/-- An old name is still found where it was when all new names differ from it. -/
theorem find?_extend {s : Scopes} {new : List (String × Entity)} {x : String} {e : Entity}
    (hnew : ∀ b ∈ new, s.inner.declares b.1 = false) (h : s.inner.find? x = some e) :
    (s.extend new).inner.find? x = some e := by
  have hnone : new.lookup x = none := by
    rw [List.lookup_eq_none_iff]
    intro b hb
    refine bne_iff_ne.mpr ?_
    rintro rfl
    rw [Frame.find?, Frame.declares_eq_false.mp (hnew b hb)] at h
    cases h
  show (new ++ s.inner.bindings).lookup x = some e
  rw [List.lookup_append, hnone]
  exact h

theorem Gains.framed {s t : Scopes} {names : List String} (h : s.Gains t names) :
    s.Framed t names := by
  obtain ⟨new, rfl, _, hnew⟩ := h
  refine ⟨rfl, fun _ => rfl, fun i hi => frame?_of_ne_depth s _ hi, fun i f hf => ?_,
    fun x hx => ?_⟩
  · by_cases hi : i = s.depth
    · subst hi
      rw [frame?_depth] at hf
      cases hf
      exact ⟨_, frame?_depth (s.extend new), rfl, rfl,
        fun x e hx => find?_extend (fun b hb => (hnew b hb).2) hx⟩
    · exact ⟨f, (frame?_of_ne_depth s _ hi).trans hf, rfl, rfl, fun _ _ hx => hx⟩
  · -- a name of the grown scope is one of the new ones or was there before
    cases hs : s.inner.declares x with
    | true => exact .inl rfl
    | false =>
        rw [Frame.declares, Frame.find?, extend, List.lookup_append,
          Frame.declares_eq_false.mp hs, Option.or_none, List.lookup_isSome_iff] at hx
        obtain ⟨b, hb, hbx⟩ := hx
        exact .inr ((beq_iff_eq.mp hbx) ▸ (hnew b hb).1)

end Scopes

/-! ## 2. Sessions -/

/-- The sessions that a sequence of programs goes through, whether they are accepted or not. -/
inductive Session.Reached (c : Catalog) : Session → Prop where
  | opened {s : Session} (h : Session.open? c = .ok s) : Reached c s
  | step {s : Session} (h : Reached c s) (p : Program) : Reached c (s.step p).session

/-- A session on a catalog stays at the root. -/
theorem Session.Reached.depth_eq_zero {c : Catalog} {s : Session} (h : s.Reached c) :
    s.scopes.depth = 0 := by
  induction h with
  | opened h =>
      rw [(Session.open?_eq_ok_iff.mp h).2]
      rfl
  | step _ p ih => exact ((Stmt.tame_checkAll p).gains _).framed.depth.trans ih

/-- What points into a program is no fault. -/
theorem ne_fault_of_points {α : Type} {r : Except Diagnostic α}
    (h : ∀ d, r = .error d → d.Points) (reason : ScopeError) (span : Option Span) :
    r ≠ .error ⟨.fault reason, span⟩ :=
  fun he => (h _ he).2 reason rfl

theorem Session.step_ne_fault (s : Session) (p : Program) (reason : ScopeError)
    (span : Option Span) : (s.step p).result ≠ .error ⟨.fault reason, span⟩ :=
  ne_fault_of_points ((Stmt.tame_checkAll p).points s) reason span

theorem Session.open?_ne_fault (c : Catalog) (reason : ScopeError) (span : Option Span) :
    Session.open? c ≠ .error ⟨.fault reason, span⟩ := by
  unfold Session.open?
  by_cases h : c.names.Nodup
  · simp [(Session.load_ok h).1]
  · obtain ⟨name, hres⟩ := Session.load_error h
    simp [hres]

theorem analyze_ne_fault (c : Catalog) (p : Program) (reason : ScopeError) (span : Option Span) :
    (analyze c p).result ≠ .error ⟨.fault reason, span⟩ := by
  by_cases h : c.names.Nodup
  · rw [result_analyze_of_nodup h]
    exact Session.step_ne_fault _ p reason span
  · obtain ⟨name, hres⟩ := result_analyze_of_not_nodup h p
    simp [hres]

theorem analyzeWith_ne_fault (prelude : Bool) (c : Catalog) (p : Program) (reason : ScopeError)
    (span : Option Span) : (analyzeWith prelude c p).result ≠ .error ⟨.fault reason, span⟩ := by
  cases prelude with
  | true => exact analyze_ne_fault c p reason span
  | false => exact analyze_ne_fault .empty p reason span

/-! ## 3. Every check -/

/-- What checks keep, on every session and whatever they come to. -/
structure Balanced : Prop where
  expressions : ∀ (s : Session) (e : Expr), ((reading fun Γ => e.check Γ).run s).session = s
  types : ∀ (s : Session) (t : TypeExpr), ((reading fun Γ => t.resolve Γ).run s).session = s
  /-- A statement leaves the scopes as they are, or declares its own name in the current scope. -/
  statement : ∀ (s : Session) (x : Stmt),
    s.scopes.Framed (x.check.run s).session.scopes x.declares?.toList ∧
    ((x.check.run s).session.scopes = s.scopes ∨
      ∃ name e, x.declares? = some name ∧ s.scopes.inner.declares name = false ∧
        (x.check.run s).session.scopes = { s.scopes with inner := s.scopes.inner.bind name e })
  /-- Statements in a row gain at most their own names. -/
  statements : ∀ (s : Session) (xs : List Stmt),
    s.scopes.Framed ((Stmt.checkAll xs).run s).session.scopes (xs.filterMap Stmt.declares?)
  block : ∀ (s : Session) (kind : ScopeKind) (xs : List Stmt),
    ((inScope kind (Stmt.checkAll xs)).run s).session.scopes = s.scopes
  step : ∀ (s : Session) (p : Program) (reason : ScopeError) (span : Option Span),
    (s.step p).result ≠ .error ⟨.fault reason, span⟩
  analysis : ∀ (c : Catalog) (p : Program) (reason : ScopeError) (span : Option Span),
    (analyze c p).result ≠ .error ⟨.fault reason, span⟩
  /-- The same with the prelude or without it. -/
  analysisWith : ∀ (prelude : Bool) (c : Catalog) (p : Program) (reason : ScopeError)
    (span : Option Span), (analyzeWith prelude c p).result ≠ .error ⟨.fault reason, span⟩
  opening : ∀ (c : Catalog) (reason : ScopeError) (span : Option Span),
    Session.open? c ≠ .error ⟨.fault reason, span⟩
  /-- Between programs only the root is open. -/
  reached : ∀ (c : Catalog) (s : Session), s.Reached c → s.scopes.depth = 0

/-- **Checks keep the scopes balanced.** Expressions and written types leave the session as it is, a
    block leaves the scopes as they are, and a statement gains at most its own name. So the root is
    never closed, by one analysis or by any sequence of them. -/
theorem checks_balanced : Balanced where
  expressions _ _ := rfl
  types _ _ := rfl
  statement s x := by
    have hgains := x.tame_check.gains s
    refine ⟨hgains.framed, ?_⟩
    cases hx : x.declares? with
    | none =>
        rw [hx] at hgains
        exact .inl hgains.eq_of_nil
    | some name =>
        rw [hx] at hgains
        rcases hgains.eq_of_singleton with h | ⟨e, hfree, h⟩
        · exact .inl h
        · exact .inr ⟨name, e, rfl, hfree, h⟩
  statements s xs := ((Stmt.tame_checkAll xs).gains s).framed
  block s kind xs := ((tame_inScope kind _ [] (Stmt.tame_checkAll xs)).gains s).eq_of_nil
  step := Session.step_ne_fault
  analysis := analyze_ne_fault
  analysisWith := analyzeWith_ne_fault
  opening := Session.open?_ne_fault
  reached _ _ h := h.depth_eq_zero

/-- A name that nothing declares, in a loop in a loop in a function: three scopes are open where it
    is met. -/
def nestedFailure : Program :=
  [.function "f" [] none
    [.whileLoop (.bool true .origin)
      [.forEach "x" (.list [.int 1 .origin] .origin) [.eval (.name "y" .origin) .origin] .origin]
      .origin]
    .origin]

/-- The session after a failure deep inside a program is at the root again. -/
theorem checks_balanced_after_failure :
    ((Session.loaded .standard).step nestedFailure).result =
        .error ⟨.notDeclared "y", some .origin⟩ ∧
      ((Session.loaded .standard).step nestedFailure).session.scopes.depth = 0 := by
  have hopen : Session.open? .standard = .ok (Session.loaded .standard) :=
    Session.open?_eq_ok_iff.mpr ⟨by decide, rfl⟩
  exact ⟨rfl, checks_balanced.reached .standard _ (.step (.opened hopen) nestedFailure)⟩

end Sema
