import Sema.Proofs.Points

/-!
# What a check does to the scopes

Scopes are opened and closed around steps that can fail. Whatever a check comes to, it leaves the
stack as deep as it found it, and it touches no scope but the current one:

* `Scopes.Gains` says that the current scope got new names and that nothing else changed;
* `Check.Tame` says that a computation does no more than that on any session, and that whatever it
  reports points into the program; it composes along steps, and a scope of its own takes back what
  was declared in it (`Check.tame_inScope`);
* a function is the one computation that also writes into the scope around it (`Check.Around`).

Every check is tame, by recursion on the tree (`Stmt.tame_check`). So no analysis ever closes the
root.
-/

namespace Sema

/-! ## 1. Scopes that gain names -/

namespace Scopes

/-- The scopes with further bindings in the current one. -/
def extend (s : Scopes) (new : List (String × Entity)) : Scopes :=
  { s with inner := { s.inner with bindings := new ++ s.inner.bindings } }

/-- The current scope has gained names out of `names`, each once and none of which it had declared
    before; nothing else has changed. -/
def Gains (s t : Scopes) (names : List String) : Prop :=
  ∃ new : List (String × Entity), t = s.extend new ∧ (new.map Prod.fst).Nodup ∧
    ∀ b ∈ new, b.1 ∈ names ∧ s.inner.declares b.1 = false

namespace Gains

variable {s t u : Scopes} {names more : List String}

theorem refl (s : Scopes) (names : List String) : s.Gains s names :=
  ⟨[], rfl, List.nodup_nil, by simp⟩

theorem mono (h : s.Gains t names) (hsub : names ⊆ more) : s.Gains t more := by
  obtain ⟨new, ht, hnd, hnew⟩ := h
  exact ⟨new, ht, hnd, fun b hb => ⟨hsub (hnew b hb).1, (hnew b hb).2⟩⟩

theorem trans (h : s.Gains t names) (k : t.Gains u names) : s.Gains u names := by
  obtain ⟨new, rfl, hnd, hnew⟩ := h
  obtain ⟨later, rfl, lnd, hlater⟩ := k
  -- a name that is new to the grown scope was new to the scope before, and none of the first ones
  have hfree : ∀ b ∈ later, new.lookup b.1 = none ∧ s.inner.bindings.lookup b.1 = none := by
    intro b hb
    have h := Frame.declares_eq_false.mp (hlater b hb).2
    simpa [extend, List.lookup_append] using h
  refine ⟨later ++ new, by simp [extend], ?_, ?_⟩
  · rw [List.map_append, List.nodup_append]
    refine ⟨lnd, hnd, ?_⟩
    rintro x hx y hy rfl
    obtain ⟨b, hb, rfl⟩ := List.mem_map.mp hx
    obtain ⟨c, hc, hcb⟩ := List.mem_map.mp hy
    have := List.lookup_eq_none_iff.mp (hfree b hb).1 c hc
    simp [hcb] at this
  · intro b hb
    rcases List.mem_append.mp hb with hb | hb
    · exact ⟨(hlater b hb).1, Frame.declares_eq_false.mpr (hfree b hb).2⟩
    · exact hnew b hb

theorem outer (h : s.Gains t names) : t.outer = s.outer := by
  obtain ⟨new, rfl, _⟩ := h
  rfl

/-- A declaration in the current scope. -/
theorem bind {x : String} (e : Entity) (hx : s.inner.declares x = false) (hmem : x ∈ names) :
    s.Gains { s with inner := s.inner.bind x e } names :=
  ⟨[(x, e)], rfl, by simp, by simpa using ⟨hmem, hx⟩⟩

/-- Out of no names, none is gained. -/
theorem eq_of_nil (h : s.Gains t []) : t = s := by
  obtain ⟨new, rfl, _, hnew⟩ := h
  cases new with
  | nil => rfl
  | cons b new => exact absurd (hnew b List.mem_cons_self).1 List.not_mem_nil

/-- Out of one name, at most that one is gained. -/
theorem eq_of_singleton {x : String} (h : s.Gains t [x]) :
    t = s ∨ ∃ e, s.inner.declares x = false ∧ t = { s with inner := s.inner.bind x e } := by
  obtain ⟨new, rfl, hnd, hnew⟩ := h
  match new with
  | [] => exact .inl rfl
  | [b] =>
      have hb := hnew b List.mem_cons_self
      obtain ⟨y, e⟩ := b
      obtain rfl : y = x := by simpa using hb.1
      exact .inr ⟨e, hb.2, rfl⟩
  | b :: c :: rest =>
      have hb : b.1 = x := by simpa using (hnew b (by simp)).1
      have hc : c.1 = x := by simpa using (hnew c (by simp)).1
      simp [hb, hc] at hnd

end Gains

end Scopes

/-! ## 2. Computations that declare and do nothing else -/

namespace Check

variable {α β : Type}

/-- On every session, the computation declares at most `names`, in the current scope, and does
    nothing else to the scopes; whatever it reports points into the program. -/
structure Tame (x : Check α) (names : List String) : Prop where
  gains : ∀ s : Session, s.scopes.Gains (x.run s).session.scopes names
  points : ∀ s d, (x.run s).result = .error d → d.Points

theorem Tame.mono {x : Check α} {names more : List String} (h : x.Tame names)
    (hsub : names ⊆ more) : x.Tame more :=
  ⟨fun s => (h.gains s).mono hsub, h.points⟩

theorem tame_pure (a : α) (names : List String) : (pure a : Check α).Tame names where
  gains s := .refl s.scopes names
  points _ _ h := by cases h

theorem tame_bind {x : Check α} {f : α → Check β} {names : List String} (hx : x.Tame names)
    (hf : ∀ a, (f a).Tame names) : (x >>= f).Tame names where
  gains s := by
    have hgain := hx.gains s
    rw [run_bind]
    cases (x.run s).result with
    | error d => exact hgain
    | ok a => exact hgain.trans ((hf a).gains _)
  points s d h := by
    have hpoints := hx.points s
    rw [run_bind] at h
    cases hr : (x.run s).result with
    | error e =>
        rw [hr] at h
        cases h
        exact hpoints d hr
    | ok a =>
        rw [hr] at h
        exact (hf a).points _ d h

theorem tame_reading {x : Scopes → Traced α} (names : List String) (h : ∀ Γ, (x Γ).Points) :
    (reading x).Tame names where
  gains s := .refl s.scopes names
  points s d hd := h s.scopes d hd

theorem tame_fresh (names : List String) : fresh.Tame names where
  gains s := .refl s.scopes names
  points _ _ h := by cases h

theorem tame_scopes (names : List String) : scopes.Tame names where
  gains s := .refl s.scopes names
  points _ _ h := by cases h

theorem tame_declare {name : String} {names : List String} (e : Entity) (span : Span)
    (hmem : name ∈ names) : (declare name e (some span)).Tame names where
  gains s := by
    rw [run_declare]
    cases h : s.scopes.inner.declares name with
    | true => exact .refl s.scopes names
    | false => exact .bind e h hmem
  points s d h := by
    rw [run_declare] at h
    split at h
    · cases h
      exact ⟨⟨span, rfl⟩, nofun⟩
    · cases h

/-- **A scope of its own takes back what was declared in it.** -/
theorem tame_inScope {x : Check α} (kind : ScopeKind) (names more : List String)
    (h : x.Tame names) : (inScope kind x).Tame more where
  gains s := by
    rw [run_inScope (h.gains (s.enter kind)).outer]
    exact .refl s.scopes more
  points s d hd := by
    rw [run_inScope (h.gains (s.enter kind)).outer] at hd
    exact h.points _ d hd

/-- In a scope of its own a computation comes to what it comes to once the scope is open. -/
theorem Tame.result_inScope {x : Check α} {names : List String} (h : x.Tame names)
    (kind : ScopeKind) (s : Session) :
    ((inScope kind x).run s).result = (x.run (s.enter kind)).result := by
  rw [run_inScope (h.gains (s.enter kind)).outer]

/-! ## 3. Computations that declare in the scope around them -/

/-- On a scope that is not the root, the computation declares at most `name` in the scope around it
    and touches no scope further out; whatever it reports points into the program. -/
structure Around (x : Check α) (name : String) : Prop where
  outer : ∀ (s : Session) (f : Frame) (fs : List Frame), s.scopes.outer = f :: fs →
    (x.run s).session.scopes.outer = f :: fs ∨
      ∃ e, f.declares name = false ∧ (x.run s).session.scopes.outer = f.bind name e :: fs
  points : ∀ (s : Session) (d : Diagnostic), s.scopes.outer ≠ [] → (x.run s).result = .error d →
    d.Points

theorem around_bind_left {x : Check α} {f : α → Check β} {names : List String} {name : String}
    (hx : x.Tame names) (hf : ∀ a, (f a).Around name) : (x >>= f).Around name where
  outer s g gs hs := by
    have hout := (hx.gains s).outer.trans hs
    rw [run_bind]
    cases (x.run s).result with
    | error d => exact .inl hout
    | ok a => exact (hf a).outer _ g gs hout
  points s d hs h := by
    have hout := (hx.gains s).outer
    rw [run_bind] at h
    cases hr : (x.run s).result with
    | error e =>
        rw [hr] at h
        cases h
        exact hx.points s d hr
    | ok a =>
        rw [hr] at h
        exact (hf a).points _ d (hout ▸ hs) h

theorem around_bind_right {x : Check α} {f : α → Check β} {name : String} (names : List String)
    (hx : x.Around name) (hf : ∀ a, (f a).Tame names) : (x >>= f).Around name where
  outer s g gs hs := by
    have hout := hx.outer s g gs hs
    rw [run_bind]
    cases (x.run s).result with
    | error d => exact hout
    | ok a =>
        rw [((hf a).gains _).outer]
        exact hout
  points s d hs h := by
    rw [run_bind] at h
    cases hr : (x.run s).result with
    | error e =>
        rw [hr] at h
        cases h
        exact hx.points s d hs hr
    | ok a =>
        rw [hr] at h
        exact (hf a).points _ d h

theorem around_declareFunction (name : String) (signature : Signature) (span : Span) :
    (declareFunction name signature span).Around name where
  outer := by
    rintro ⟨⟨inner, outer⟩, n⟩ f fs rfl
    rw [run_declareFunction]
    cases h : f.declares name with
    | true => exact .inl rfl
    | false => exact .inr ⟨_, rfl, rfl⟩
  points := by
    rintro ⟨⟨inner, outer⟩, n⟩ d hs h
    cases outer with
    | nil => exact absurd rfl hs
    | cons f fs =>
        rw [run_declareFunction] at h
        split at h
        · cases h
          exact ⟨⟨span, rfl⟩, nofun⟩
        · cases h

/-- What a computation declares around its scope is still declared once that scope is closed. -/
theorem tame_inScope_around {x : Check α} {name : String} (kind : ScopeKind) (h : x.Around name) :
    (inScope kind x).Tame [name] where
  gains s := by
    rcases h.outer (s.enter kind) s.scopes.inner s.scopes.outer rfl with hout | ⟨e, hfree, hout⟩
    · rw [run_inScope hout]
      exact .refl s.scopes [name]
    · rw [run_inScope hout]
      exact .bind e hfree List.mem_cons_self
  points s d hd := by
    have hne : (s.enter kind).scopes.outer ≠ [] := List.cons_ne_nil _ _
    rcases h.outer (s.enter kind) s.scopes.inner s.scopes.outer rfl with hout | ⟨e, _, hout⟩
    · rw [run_inScope hout] at hd
      exact h.points _ d hne hd
    · rw [run_inScope hout] at hd
      exact h.points _ d hne hd

end Check

open Check Traced

/-! ## 4. Statements -/

theorem tame_checkCounter (target : Expr) (span : Span) : (checkCounter target span).Tame [] :=
  tame_reading [] fun Γ =>
    points_bind (target.points_check Γ) fun r =>
    points_bind (points_expectInteger r.ty span) fun _ =>
    points_bind (points_expectVariable r span) fun _ =>
    points_bind (points_expectWritable r span) fun _ => points_pure r

theorem tame_checkAssign (target source : Expr) (span : Span) :
    (checkAssign target source span).Tame [] :=
  tame_reading [] fun Γ =>
    points_bind (source.points_check Γ) fun value =>
    points_bind (target.points_check Γ) fun place =>
    points_bind (points_expectAssignable value.ty place.ty span) fun _ =>
    points_bind (points_expectWritable place span) fun _ => points_pure _

theorem points_enclosingResult (Γ : Scopes) (span : Span) : (enclosingResult Γ span).Points := by
  unfold enclosingResult
  split
  · exact points_pure _
  · exact points_fail span nofun

theorem tame_checkReturnValue (value : Expr) (span : Span) :
    (checkReturnValue value span).Tame [] :=
  tame_reading [] fun Γ =>
    points_bind (points_enclosingResult Γ span) fun result =>
    points_bind (points_require span nofun) fun _ =>
    points_bind (value.points_check Γ) fun r =>
    points_bind (points_expectAssignable r.ty result span) fun _ => points_pure _

theorem tame_checkReturnNothing (span : Span) : (checkReturnNothing span).Tame [] :=
  tame_reading [] fun Γ =>
    points_bind (points_enclosingResult Γ span) fun _ =>
    points_bind (points_require span nofun) fun _ => points_pure _

theorem tame_checkTest (test : Expr) : (checkTest test).Tame [] :=
  tame_reading [] fun Γ =>
    points_bind (test.points_check Γ) fun r =>
    points_bind (points_expectBool r.ty test.span) fun _ => points_pure r

theorem tame_checkCollection (collection : Expr) : (checkCollection collection).Tame [] :=
  tame_reading [] fun Γ =>
    points_bind (collection.points_check Γ) fun r =>
    points_bind (points_expectList r.ty collection.span) fun _ => points_pure _

theorem tame_checkResult (result : Option TypeExpr) : (checkResult result).Tame [] := by
  cases result with
  | none => exact tame_pure _ []
  | some t => exact tame_reading [] fun Γ => t.points_resolve Γ

theorem tame_declareVariable (name : String) (readOnly : Bool) (ty : Ty) (span : Span) :
    (declareVariable name readOnly ty span).Tame [name] :=
  tame_bind (tame_fresh [name]) fun _ =>
    tame_bind (tame_declare _ span List.mem_cons_self) fun _ => tame_pure _ [name]

theorem Parameter.tame_check (p : Parameter) : p.check.Tame [p.name] :=
  tame_bind (tame_reading [p.name] fun Γ => p.type.points_resolve Γ) fun _ =>
    tame_bind (tame_fresh [p.name]) fun _ =>
    tame_bind (tame_declare _ p.span List.mem_cons_self) fun _ => tame_pure _ [p.name]

theorem Parameter.tame_checkAll :
    ∀ ps : List Parameter, (Parameter.checkAll ps).Tame (ps.map (·.name))
  | [] => tame_pure _ _
  | p :: ps =>
      tame_bind (p.tame_check.mono (by simp)) fun _ =>
        tame_bind ((Parameter.tame_checkAll ps).mono (List.subset_cons_self _ _)) fun _ =>
          tame_pure _ _

/-- What runs in the scope of a loop over a list: the iterator and what the body declares all live
    there. -/
theorem tame_loopBody (iterator : String) (element : Ty) (span : Span) (r : Resolved.Expr)
    {body : List Stmt} {names : List String} (h : (Stmt.checkAll body).Tame names) :
    (declareVariable iterator true element span >>= fun v => Stmt.checkAll body >>= fun rs =>
      pure (Resolved.Stmt.forEach v r rs)).Tame (iterator :: names) :=
  tame_bind ((tame_declareVariable iterator true element span).mono (by simp)) fun _ =>
    tame_bind (h.mono (List.subset_cons_self _ _)) fun _ => tame_pure _ _

mutual

/-- **A statement declares at most its own name**, whether its check succeeds or fails. -/
theorem Stmt.tame_check : ∀ s : Stmt, s.check.Tame s.declares?.toList
  | .declare name readOnly init span => by
      rw [Stmt.check]
      exact tame_bind (tame_reading _ fun Γ => init.points_check Γ) fun r =>
        tame_bind (tame_declareVariable name readOnly r.ty span) fun _ => tame_pure _ _
  | .function name parameters result body span => by
      rw [Stmt.check]
      refine tame_bind ((tame_checkResult result).mono (List.nil_subset _)) fun r => ?_
      refine tame_inScope_around .functionBody ?_
      refine around_bind_left (Parameter.tame_checkAll parameters) fun ps => ?_
      refine around_bind_right (body.filterMap Stmt.declares?) (around_declareFunction name _ span)
        fun f => ?_
      exact tame_bind (Stmt.tame_checkAll body) fun _ => tame_pure _ _
  | .step dir target span => by
      rw [Stmt.check]
      exact tame_bind (tame_checkCounter target span) fun _ => tame_pure _ _
  | .assign target source span => by
      rw [Stmt.check]
      exact tame_checkAssign target source span
  | .exitLoop span => by
      rw [Stmt.check]
      exact tame_bind (tame_scopes _) fun _ =>
        tame_bind (tame_reading _ fun _ => points_require span nofun) fun _ => tame_pure _ _
  | .returnValue value span => by
      rw [Stmt.check]
      exact tame_checkReturnValue value span
  | .returnNothing span => by
      rw [Stmt.check]
      exact tame_checkReturnNothing span
  | .branch b => by
      rw [Stmt.check]
      exact tame_bind b.tame_check fun _ => tame_pure _ _
  | .whileLoop test body _ => by
      rw [Stmt.check]
      exact tame_bind (tame_checkTest test) fun _ =>
        tame_bind (tame_inScope .loop _ _ (Stmt.tame_checkAll body)) fun _ => tame_pure _ _
  | .forEach iterator collection body span => by
      rw [Stmt.check]
      refine tame_bind (tame_checkCollection collection) fun ⟨r, element⟩ => ?_
      exact tame_inScope .loop _ _ (tame_loopBody iterator element span r (Stmt.tame_checkAll body))
  | .eval expr _ => by
      rw [Stmt.check]
      exact tame_bind (tame_reading _ fun Γ => expr.points_check Γ) fun _ => tame_pure _ _

theorem Branch.tame_check : ∀ b : Branch, b.check.Tame []
  | .mk test consequent alternate _ => by
      rw [Branch.check]
      exact tame_bind (tame_checkTest test) fun _ =>
        tame_bind (tame_inScope .block _ _ (Stmt.tame_checkAll consequent)) fun _ =>
        tame_bind alternate.tame_check fun _ => tame_pure _ _

theorem Alternate.tame_check : ∀ a : Alternate, a.check.Tame []
  | .none => by
      rw [Alternate.check]
      exact tame_pure _ _
  | .block body => by
      rw [Alternate.check]
      exact tame_bind (tame_inScope .block _ _ (Stmt.tame_checkAll body)) fun _ => tame_pure _ _
  | .elseIf next => by
      rw [Alternate.check]
      exact tame_bind next.tame_check fun _ => tame_pure _ _

/-- Statements declare at most their own names. -/
theorem Stmt.tame_checkAll :
    ∀ ss : List Stmt, (Stmt.checkAll ss).Tame (ss.filterMap Stmt.declares?)
  | [] => by
      rw [Stmt.checkAll]
      exact tame_pure _ _
  | s :: ss => by
      rw [Stmt.checkAll]
      have hmem : ∀ x ∈ s.declares?.toList, x ∈ (s :: ss).filterMap Stmt.declares? := by
        intro x hx
        rw [Option.mem_toList] at hx
        exact List.mem_filterMap.mpr ⟨s, List.mem_cons_self, hx⟩
      have hsub : ss.filterMap Stmt.declares? ⊆ (s :: ss).filterMap Stmt.declares? := by
        intro x hx
        obtain ⟨t, ht, hxt⟩ := List.mem_filterMap.mp hx
        exact List.mem_filterMap.mpr ⟨t, List.mem_cons_of_mem _ ht, hxt⟩
      exact tame_bind (s.tame_check.mono hmem) fun _ =>
        tame_bind ((Stmt.tame_checkAll ss).mono hsub) fun _ => tame_pure _ _

end

end Sema
