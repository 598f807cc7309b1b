import Sema.Proofs.Acceptance
import Sema.Proofs.Mirror

/-!
# Programs in a row

A session that checks several programs keeps what they declare, and a program that is refused leaves
a part of itself: the statements before the one that is refused, and of that one, if it is a
function with its head in order, the declaration, as if its body were empty (`surviving`).

One step: a program and what survives of it leave the same scopes (`run_surviving`), and two
sessions that differ in identities alone agree on what survives (`surviving_renamed`). A run: so a
session is, up to identities, the session of one program, made of what survived of each
(`Session.Tracks.runAll`).
-/

namespace Sema

open Check

/-! ## 1. What survives -/

/-- The result type and the parameters of a function resolve, and its name is free. -/
def headResolves (s : Session) (name : String) (parameters : List Parameter)
    (result : Option TypeExpr) : Bool :=
  ((checkResult result).run s).result.isOk &&
    ((Parameter.checkAll parameters).run (s.enter .functionBody)).result.isOk &&
    !s.scopes.inner.declares name

/-- What stays of a statement that is refused: of a function whose head resolves, the declaration
    with an empty body. -/
def Stmt.remnant (s : Session) : Stmt → List Stmt
  | .function name parameters result _ span =>
      if headResolves s name parameters result then [.function name parameters result [] span]
      else []
  | _ => []

/-- What stays of a program: all of it if it is accepted, and otherwise what precedes the statement
    that is refused and what stays of that one. -/
def surviving (s : Session) : Program → Program
  | [] => []
  | x :: rest =>
      match (x.check.run s).result with
      | .ok _ => x :: surviving (x.check.run s).session rest
      | .error _ => x.remnant s

namespace Session

/-- The session after several programs, accepted or not. -/
def runAll (s : Session) : List Program → Session
  | [] => s
  | p :: ps => (s.step p).session.runAll ps

/-- What stays of several programs. -/
def survivors (s : Session) : List Program → Program
  | [] => []
  | p :: ps => surviving s p ++ (s.step p).session.survivors ps

end Session

section

variable {name : String} {parameters : List Parameter} {result : Option TypeExpr} {s : Session}

theorem isOk_iff_exists {ε α : Type} {r : Except ε α} : r.isOk = true ↔ ∃ a, r = .ok a := by
  cases r with
  | error e => simp [Except.isOk, Except.toBool]
  | ok a => simp [Except.isOk, Except.toBool]

/-- A head resolves exactly when the check of the function gets past it. -/
theorem headResolves_iff (span : Span) : headResolves s name parameters result = true ↔
    ∃ ds f t, FunctionHead name parameters result span s ds f t := by
  unfold headResolves
  rw [Bool.and_eq_true, Bool.and_eq_true, isOk_iff_exists, isOk_iff_exists, Bool.not_eq_true']
  constructor
  · rintro ⟨⟨⟨ty, hty⟩, ds, hds⟩, hfree⟩
    have hty : (checkResult result).Yields s ty s := ⟨hty, session_checkResult result s⟩
    have hds : (Parameter.checkAll parameters).Yields (s.enter .functionBody) ds _ := ⟨hds, rfl⟩
    obtain ⟨new, n, hv⟩ := Parameter.session_of_yields hds
    rw [hv] at hds
    exact ⟨ds, _, _, ty, s, _, hty, hds, yields_declareFunction.mpr ⟨hfree, rfl, rfl⟩⟩
  · rintro ⟨ds, f, t, hhead⟩
    obtain ⟨_, hfree, -⟩ := hhead.scopes_eq
    obtain ⟨ty, u, v, hty, hps, _⟩ := hhead
    have hu : s = u := (session_checkResult result s).symm.trans hty.2
    subst hu
    exact ⟨⟨⟨ty, hty.1⟩, ds, hps.1⟩, hfree⟩

end

/-! ## 2. A program and what survives of it -/

/-- A statement that is refused, and is no function whose head resolves, leaves the scopes alone. -/
theorem Stmt.scopes_of_error {x : Stmt} {s : Session} {d : Diagnostic}
    (h : (x.check.run s).result = .error d) (hx : x.remnant s = []) :
    (x.check.run s).session.scopes = s.scopes := by
  have hgains := x.tame_check.gains s
  cases x with
  | declare name readOnly init span =>
      -- it is declared last, so nothing is declared when the check fails
      rw [Stmt.check] at h ⊢
      cases hinit : ((reading fun Γ => init.check Γ).run s).result with
      | error e =>
          rw [(run_bind_of_error hinit _).2]
          rfl
      | ok r =>
          have hinit : (reading fun Γ => init.check Γ).Yields s r s := ⟨hinit, rfl⟩
          rw [result_bind_of_yields hinit, result_bind_pure, run_declareVariable] at h
          rw [session_bind_of_yields hinit, session_bind_pure, run_declareVariable]
          cases hname : s.scopes.inner.declares name with
          | true => rfl
          | false =>
              rw [hname] at h
              cases h
  | function name parameters result body span =>
      have hhead : ∀ ds f t, ¬ FunctionHead name parameters result span s ds f t := by
        intro ds f t hhead
        have hresolves := (headResolves_iff span).mpr ⟨ds, f, t, hhead⟩
        rw [Stmt.remnant, if_pos hresolves] at hx
        cases hx
      obtain ⟨_, _, hscopes⟩ := Stmt.check_function_of_no_head hhead body
      exact hscopes
  | _ => exact hgains.eq_of_nil

/-- The declaration that stays of a function is accepted, and leaves what the function left. -/
theorem Stmt.run_remnant {x : Stmt} {s : Session} {d : Diagnostic}
    (h : (x.check.run s).result = .error d) :
    ∃ R f, (Stmt.checkAll (x.remnant s)).Yields s R f ∧
      f.scopes = (x.check.run s).session.scopes ∧ f.serial ≤ (x.check.run s).session.serial := by
  by_cases hx : x.remnant s = []
  · rw [hx]
    exact ⟨[], s, ⟨rfl, rfl⟩, (Stmt.scopes_of_error h hx).symm, Check.serial_le s x.mirrors_check⟩
  · cases x with
    | function name parameters result body span =>
        rw [Stmt.remnant] at hx ⊢
        by_cases hresolves : headResolves s name parameters result = true
        · rw [if_pos hresolves]
          obtain ⟨ds, f, t, hhead⟩ := (headResolves_iff span).mp hresolves
          have hempty : (Stmt.function name parameters result [] span).check.Yields s
              (.function f ds []) _ := hhead.run_check []
          have hbody := (hhead.run_check body).2
          refine ⟨_, _, Stmt.yields_cons hempty ⟨rfl, rfl⟩, ?_, ?_⟩
          · rw [hbody]
            rfl
          · rw [hbody]
            exact Check.serial_le t (Stmt.mirrors_checkAll body)
        · rw [if_neg hresolves] at hx
          exact absurd rfl hx
    | _ => exact absurd rfl hx

/-- **A program and what survives of it leave the same scopes**, and what survives is accepted. -/
theorem run_surviving : ∀ (p : Program) (s : Session),
    ∃ R f, (Stmt.checkAll (surviving s p)).Yields s R f ∧
      f.scopes = (s.step p).session.scopes ∧ f.serial ≤ (s.step p).session.serial
  | [], s => ⟨[], s, ⟨rfl, rfl⟩, rfl, Nat.le_refl _⟩
  | x :: p, s => by
      unfold Session.step
      rw [surviving, Stmt.checkAll]
      cases hx : (x.check.run s).result with
      | error d =>
          rw [(run_bind_of_error hx _).2]
          exact Stmt.run_remnant hx
      | ok r =>
          have hr : x.check.Yields s r (x.check.run s).session := ⟨hx, rfl⟩
          obtain ⟨R, f, hyields, hscopes, hserial⟩ := run_surviving p (x.check.run s).session
          rw [session_bind_of_yields hr, session_bind_pure]
          exact ⟨r :: R, f, Stmt.yields_cons hr hyields, hscopes, hserial⟩

/-- All of a program that is accepted survives. -/
theorem surviving_of_accepted : ∀ {p : Program} {s : Session} {R : Resolved.Program},
    (s.step p).result = .ok R → surviving s p = p
  | [], _, _, _ => rfl
  | x :: p, s, R, h => by
      obtain ⟨r, rs, t, hr, hrs, _⟩ := Stmt.exists_of_yields_cons ⟨h, rfl⟩
      rw [surviving, hr.1, hr.2]
      exact congrArg (x :: ·) (surviving_of_accepted hrs.1)

/-- Of a program that is refused, what precedes the statement that is refused survives, and what
    stays of that one. -/
theorem surviving_of_refused : ∀ {p : Program} {s : Session} {d : Diagnostic},
    (s.step p).result = .error d →
    ∃ before x after R t, p = before ++ x :: after ∧ (Stmt.checkAll before).Yields s R t ∧
      (x.check.run t).result = .error d ∧ surviving s p = before ++ x.remnant t
  | [], _, _, h => by cases h
  | x :: p, s, d, h => by
      unfold Session.step at h
      rw [Stmt.checkAll] at h
      rw [surviving]
      cases hx : (x.check.run s).result with
      | error e =>
          rw [(run_bind_of_error hx _).1] at h
          cases h
          exact ⟨[], x, p, [], s, rfl, ⟨rfl, rfl⟩, hx, rfl⟩
      | ok r =>
          have hr : x.check.Yields s r (x.check.run s).session := ⟨hx, rfl⟩
          rw [result_bind_of_yields hr, result_bind_pure] at h
          cases hp : ((Stmt.checkAll p).run (x.check.run s).session).result with
          | ok R =>
              rw [hp] at h
              cases h
          | error e =>
              rw [hp] at h
              cases h
              obtain ⟨before, y, after, R, t, hsplit, hyields, hy, hsurviving⟩ :=
                surviving_of_refused hp
              refine ⟨x :: before, y, after, r :: R, t, ?_, Stmt.yields_cons hr hyields, hy, ?_⟩
              · rw [hsplit, List.cons_append]
              · rw [hsurviving]
                rfl

/-! ## 3. Sessions that differ in identities -/

section

variable {σ : Identity → Identity} {d : Nat} {s t : Session}

theorem isOk_map {ε α β : Type} (g : α → β) (r : Except ε α) : (r.map g).isOk = r.isOk := by
  cases r <;> rfl

theorem Session.Renamed.enter (h : s.Renamed σ d t) (kind : ScopeKind) :
    (s.enter kind).Renamed σ d (t.enter kind) :=
  (mirrors_enter kind s t h).1

theorem headResolves_renamed (h : s.Renamed σ d t) (name : String) (parameters : List Parameter)
    (result : Option TypeExpr) :
    headResolves t name parameters result = headResolves s name parameters result := by
  have hresult := (mirrors_checkResult result s t h).2
  have hparameters := (Parameter.mirrors_checkAll parameters _ _ (h.enter .functionBody)).2
  have hdeclares : t.scopes.inner.declares name = s.scopes.inner.declares name := by
    rw [h.scopes]
    exact Frame.declares_rename s.scopes.inner name
  unfold headResolves
  rw [hresult, hparameters, hdeclares, isOk_map, isOk_map]

theorem Stmt.remnant_renamed (h : s.Renamed σ d t) (x : Stmt) : x.remnant t = x.remnant s := by
  cases x with
  | function name parameters result body span =>
      rw [Stmt.remnant, Stmt.remnant, headResolves_renamed h]
  | _ => rfl

/-- **The same survives** on sessions that differ in identities alone. -/
theorem surviving_renamed : ∀ (p : Program) {s t : Session}, s.Renamed σ d t →
    surviving t p = surviving s p
  | [], _, _, _ => rfl
  | x :: p, s, t, h => by
      obtain ⟨hsession, hresult⟩ := x.mirrors_check s t h
      rw [surviving, surviving, hresult]
      cases (x.check.run s).result with
      | error e => exact x.remnant_renamed h
      | ok r => exact congrArg (x :: ·) (surviving_renamed p hsession)

end

/-! ## 4. Identities in use -/

/-- The identities in a frame are below a number. -/
structure Frame.Below (f : Frame) (n : Nat) : Prop where
  bindings : ∀ b ∈ f.bindings, ∀ i, b.2.identity? = some i → i.next ≤ n
  function : ∀ g, f.function = some g → g.identity.next ≤ n

/-- The identities in the scopes are below a number. -/
def Scopes.Below (Γ : Scopes) (n : Nat) : Prop := ∀ f ∈ Γ.frames, f.Below n

section

variable {Γ : Scopes} {m n : Nat} {σ τ : Identity → Identity}

theorem Frame.Below.mono {f : Frame} (h : f.Below m) (hmn : m ≤ n) : f.Below n :=
  ⟨fun b hb i hi => (h.bindings b hb i hi).trans hmn, fun g hg => (h.function g hg).trans hmn⟩

theorem Scopes.Below.mono (h : Γ.Below m) (hmn : m ≤ n) : Γ.Below n :=
  fun f hf => (h f hf).mono hmn

theorem Entity.rename_congr {e : Entity} (h : ∀ i, e.identity? = some i → σ i = τ i) :
    e.rename σ = e.rename τ := by
  cases e with
  | var v =>
      have hi := h v.identity rfl
      simp only [rename, Decl.Variable.rename, hi]
  | func f =>
      have hi := h f.identity rfl
      simp only [rename, Decl.Function.rename, hi]
  | param p =>
      have hi := h p.identity rfl
      simp only [rename, Decl.Parameter.rename, hi]
  | type t => rfl

theorem Frame.rename_congr {f : Frame} (hf : f.Below n) (h : ∀ i, i.next ≤ n → σ i = τ i) :
    f.rename σ = f.rename τ := by
  have hbindings : (f.bindings.map fun b => (b.1, b.2.rename σ)) =
      f.bindings.map fun b => (b.1, b.2.rename τ) := by
    refine List.map_congr_left fun b hb => ?_
    rw [Entity.rename_congr fun i hi => h i (hf.bindings b hb i hi)]
  have hfunction : f.function.map (Decl.Function.rename σ) =
      f.function.map (Decl.Function.rename τ) := by
    cases hg : f.function with
    | none => rfl
    | some g =>
        have hi := h g.identity (hf.function g hg)
        simp only [Option.map_some, Decl.Function.rename, hi]
  unfold Frame.rename
  rw [hbindings, hfunction]

/-- Renamings that agree below a number are the same to scopes below it. -/
theorem Scopes.rename_congr (hΓ : Γ.Below n) (h : ∀ i, i.next ≤ n → σ i = τ i) :
    Γ.rename σ = Γ.rename τ := by
  have hinner := Frame.rename_congr (hΓ Γ.inner List.mem_cons_self) h
  have houter : Γ.outer.map (Frame.rename σ) = Γ.outer.map (Frame.rename τ) :=
    List.map_congr_left fun f hf => Frame.rename_congr (hΓ f (List.mem_cons_of_mem _ hf)) h
  unfold Scopes.rename
  rw [hinner, houter]

/-- A declaration in the current scope. -/
theorem Scopes.Below.bind (h : Γ.Below n) {x : String} {e : Entity}
    (he : ∀ i, e.identity? = some i → i.next ≤ n) :
    ({ Γ with inner := Γ.inner.bind x e } : Scopes).Below n := by
  intro f hf
  rcases List.mem_cons.mp hf with hf | hf
  · have hinner := h Γ.inner List.mem_cons_self
    subst hf
    refine ⟨fun b hb => ?_, hinner.function⟩
    rcases List.mem_cons.mp hb with hb | hb
    · subst hb
      exact he
    · exact hinner.bindings b hb
  · exact h f (List.mem_cons_of_mem _ hf)

/-- A statement takes its identities from the next numbers. -/
theorem Scopes.Below.after (h : Γ.Below n) {r : Resolved.Stmt} (hr : Numbered n r.declared) :
    (Γ.after r).Below (n + r.declared.length) := by
  have hmono := h.mono (Nat.le_add_right n r.declared.length)
  cases r with
  | declare v e =>
      have hv : v.identity = .program n := hr.1
      refine hmono.bind fun i hi => ?_
      cases hi
      rw [hv]
      exact Nat.le_refl _
  | function f ps body =>
      have hf : f.identity = .program (n + ps.length) := by
        have hrest := ((numbered_append _ _ _).mp hr).2
        rw [List.length_map] at hrest
        exact hrest.1
      refine hmono.bind fun i hi => ?_
      cases hi
      rw [hf, length_declared_function, Identity.next]
      omega
  | _ => exact hmono

/-- So do statements in a row. -/
theorem Scopes.Below.afterAll : ∀ {rs : List Resolved.Stmt} {Γ : Scopes} {n : Nat}, Γ.Below n →
    Numbered n (Resolved.Stmt.declaredAll rs) →
    (Γ.afterAll rs).Below (n + (Resolved.Stmt.declaredAll rs).length)
  | [], _, _, h, _ => h
  | r :: rs, Γ, n, h, hrs => by
      rw [Resolved.Stmt.declaredAll] at hrs ⊢
      obtain ⟨hr, hrest⟩ := (numbered_append _ _ _).mp hrs
      rw [List.length_append, ← Nat.add_assoc]
      exact Scopes.Below.afterAll (h.after hr) hrest

theorem Catalog.next_le_firstSerial {c : Catalog} {i : Identity} (h : i ∈ c.identities) :
    i.next ≤ c.firstSerial := by
  cases i with
  | library place => exact Nat.zero_le _
  | program k =>
      by_contra hlt
      have hle : c.firstSerial ≤ k := Nat.le_of_lt_succ (Nat.lt_of_not_le hlt)
      exact Catalog.not_mem_identities_of_firstSerial_le hle h

/-- The entries of a catalog are below the first number. -/
theorem Session.below_loaded (c : Catalog) : (Session.loaded c).scopes.Below c.firstSerial := by
  intro f hf
  have hf : f = (Session.loaded c).scopes.inner := List.mem_singleton.mp hf
  subst hf
  refine ⟨fun b hb i hi => ?_, nofun⟩
  rcases List.mem_append.mp hb with hb | hb
  · refine Catalog.next_le_firstSerial ?_
    exact List.mem_filterMap.mpr ⟨b, List.mem_reverse.mp hb, hi⟩
  · cases hb

end

/-! ## 5. One step, and a run -/

/-- The renaming below number `n`; from there on, the numbers are moved up by `d`. -/
def Identity.redirect (σ : Identity → Identity) (n d : Nat) : Identity → Identity
  | .library place => σ (.library place)
  | .program k => if n ≤ k then .program (k + d) else σ (.program k)

namespace Identity

variable {σ : Identity → Identity} {n d : Nat}

theorem redirect_program {k : Nat} (h : n ≤ k) : redirect σ n d (.program k) = .program (k + d) :=
  if_pos h

theorem redirect_of_next_le {i : Identity} (h : i.next ≤ n) : redirect σ n d i = σ i := by
  cases i with
  | library place => rfl
  | program k =>
      have hk : ¬ n ≤ k := Nat.not_le.mpr h
      exact if_neg hk

theorem eq_program_of_lt_next {i : Identity} (h : n < i.next) : ∃ k, i = .program k ∧ n ≤ k := by
  cases i with
  | library place => exact absurd h (Nat.not_lt_zero n)
  | program k => exact ⟨k, rfl, Nat.le_of_lt_succ h⟩

/-- A redirected renaming confuses nothing if the renaming does not, and takes nothing below `n` to
    where the rest is moved. -/
theorem redirect_injective (hσ : Function.Injective σ)
    (hlow : ∀ i k, i.next ≤ n → n ≤ k → σ i ≠ .program (k + d)) :
    Function.Injective (redirect σ n d) := by
  intro i j hij
  rcases Nat.lt_or_ge n i.next with hi | hi
  · obtain ⟨k, rfl, hk⟩ := eq_program_of_lt_next hi
    rw [redirect_program hk] at hij
    rcases Nat.lt_or_ge n j.next with hj | hj
    · obtain ⟨l, rfl, hl⟩ := eq_program_of_lt_next hj
      rw [redirect_program hl, Identity.program.injEq] at hij
      rw [Identity.program.injEq]
      omega
    · rw [redirect_of_next_le hj] at hij
      exact absurd hij.symm (hlow j k hj hk)
  · rw [redirect_of_next_le hi] at hij
    rcases Nat.lt_or_ge n j.next with hj | hj
    · obtain ⟨l, rfl, hl⟩ := eq_program_of_lt_next hj
      rw [redirect_program hl] at hij
      exact absurd hij (hlow i l hi hl)
    · rw [redirect_of_next_le hj] at hij
      exact hσ hij

end Identity

/-- The session `t` differs from `f` in identities alone, by an injective renaming that keeps those
    of the catalog; and the numbers that `f` will hand out are not in use. -/
structure Session.Tracks (c : Catalog) (σ : Identity → Identity) (d : Nat) (f t : Session) :
    Prop where
  renamed : f.Renamed σ d t
  injective : Function.Injective σ
  kept : ∀ i ∈ c.identities, σ i = i
  below : f.scopes.Below f.serial
  first : c.firstSerial ≤ f.serial

namespace Session

variable {c : Catalog} {σ : Identity → Identity} {d : Nat} {f t : Session}

theorem tracks_loaded (c : Catalog) : Tracks c id 0 (loaded c) (loaded c) where
  renamed := ⟨(Scopes.rename_id _).symm, rfl, fun _ _ => rfl⟩
  injective := Function.injective_id
  kept _ _ := rfl
  below := below_loaded c
  first := Nat.le_refl _

/-- A session that has gone further than the one it is compared with, and has the same scopes. -/
theorem Tracks.redirect {f' g t' : Session} (h : Tracks c σ d f t) (hg : g.Renamed σ d t')
    (hscopes : f'.scopes = g.scopes) (hserial : f'.serial ≤ g.serial)
    (hbelow : f'.scopes.Below f'.serial) (hfirst : c.firstSerial ≤ f'.serial) :
    Tracks c (Identity.redirect σ f'.serial (t'.serial - f'.serial))
      (t'.serial - f'.serial) f' t' := by
  have ht' := hg.serial
  refine ⟨⟨?_, ?_, fun n hn => Identity.redirect_program hn⟩, ?_, fun i hi => ?_, hbelow, hfirst⟩
  · rw [hg.scopes, ← hscopes]
    refine Scopes.rename_congr hbelow fun i hi => ?_
    rw [Identity.redirect_of_next_le hi]
  · omega
  · refine Identity.redirect_injective h.injective fun i k hi hk hik => ?_
    -- the numbers of `t'` from its next one on are taken by those of `g` from its next one on
    have hmoved := hg.fresh (t'.serial - f'.serial + k - d) (by omega)
    have hsum : t'.serial - f'.serial + k - d + d = k + (t'.serial - f'.serial) := by omega
    rw [hsum, ← hik] at hmoved
    have heq := h.injective hmoved
    rw [← heq] at hi
    unfold Identity.next at hi
    dsimp only at hi
    omega
  · have hnext := (Catalog.next_le_firstSerial hi).trans hfirst
    rw [Identity.redirect_of_next_le hnext, h.kept i hi]

/-- **One program.** The session goes on as if what survives of the program had been run. -/
theorem Tracks.step (h : Tracks c σ d f t) (p : Program) :
    ∃ R f' σ' d', (Stmt.checkAll (surviving t p)).Yields f R f' ∧
      Tracks c σ' d' f' (t.step p).session := by
  have hstep := (Stmt.mirrors_checkAll p f t h.renamed).1
  obtain ⟨R, f', hyields, hscopes, hserial⟩ := run_surviving p f
  rw [surviving_renamed p h.renamed]
  obtain ⟨_, hnumbered, hf'⟩ := (Stmt.yields_checkAll _ R f f').mp hyields
  have hbelow := h.below.afterAll hnumbered
  have hfirst := h.first.trans (Nat.le_add_right f.serial (Resolved.Stmt.declaredAll R).length)
  subst hf'
  exact ⟨R, _, _, _, hyields, h.redirect hstep hscopes hserial hbelow hfirst⟩

/-- **Programs in a row.** -/
theorem Tracks.runAll : ∀ (ps : List Program) {σ : Identity → Identity} {d : Nat} {f t : Session},
    Tracks c σ d f t → ∃ R f' σ' d', (Stmt.checkAll (t.survivors ps)).Yields f R f' ∧
      Tracks c σ' d' f' (t.runAll ps)
  | [], σ, d, f, t, h => ⟨[], f, σ, d, ⟨rfl, rfl⟩, h⟩
  | p :: ps, σ, d, f, t, h => by
      obtain ⟨R, f₁, σ₁, d₁, hyields, hp⟩ := h.step p
      obtain ⟨R', f₂, σ₂, d₂, hyields', hps⟩ := Tracks.runAll ps hp
      exact ⟨R ++ R', f₂, σ₂, d₂, Stmt.yields_append hyields hyields', hps⟩

end Session

/-! ## 6. A session is one program -/

/-- **A session equals one program.** All of a program that is accepted survives; of one that is
    refused, what precedes the statement that is refused and what stays of that one. On a catalog
    with distinct names, a session that has run `ps` has the scopes that the catalog has after the
    one program made of what survived, which is accepted; and the next program comes to what it
    comes to after that one. Both hold up to one injective renaming of identities that keeps those
    of the catalog; diagnostics are the same. -/
theorem session_equals_one_program {c : Catalog} (hc : c.names.Nodup) (ps : List Program)
    (p : Program) :
    (∀ (s : Session) (q : Program),
      (∀ R, (s.step q).result = .ok R → surviving s q = q) ∧
      ∀ d, (s.step q).result = .error d → ∃ before x after R t, q = before ++ x :: after ∧
        (s.step before).result = .ok R ∧ (s.step before).session = t ∧
        (x.check.run t).result = .error d ∧ surviving s q = before ++ x.remnant t) ∧
    ∃ s, Session.open? c = .ok s ∧ ∃ (R : Resolved.Program) (σ : Identity → Identity),
      Function.Injective σ ∧ (∀ i ∈ c.identities, σ i = i) ∧
      (analyze c (s.survivors ps)).result = .ok R ∧
      (s.runAll ps).scopes = (s.step (s.survivors ps)).session.scopes.rename σ ∧
      ((s.runAll ps).step p).result =
        ((analyze c (s.survivors ps ++ p)).result.map (·.drop (s.survivors ps).length)).map
          (Resolved.Stmt.renameAll σ) := by
  refine ⟨fun s q => ⟨fun R => surviving_of_accepted, fun d hd => ?_⟩, Session.loaded c,
    Session.open?_eq_ok_iff.mpr ⟨hc, rfl⟩, ?_⟩
  · obtain ⟨before, x, after, R, t, hq, ⟨hR, ht⟩, hx, hsurviving⟩ := surviving_of_refused hd
    exact ⟨before, x, after, R, t, hq, hR, ht, hx, hsurviving⟩
  · obtain ⟨R, f, σ, d, hyields, htracks⟩ := (Session.tracks_loaded c).runAll ps
    obtain ⟨hresult, hsession⟩ := Stmt.run_append hyields p
    have hnext := (Stmt.mirrors_checkAll p f _ htracks.renamed).2
    have hlength := Stmt.length_of_yields hyields
    refine ⟨R, σ, htracks.injective, htracks.kept, ?_, ?_, ?_⟩
    · rw [result_analyze_of_nodup hc]
      exact hyields.1
    · rw [htracks.renamed.scopes, ← hyields.2]
      rfl
    · have hone : (analyze c ((Session.loaded c).survivors ps ++ p)).result =
          ((Stmt.checkAll p).run f).result.map (R ++ ·) := by
        rw [result_analyze_of_nodup hc]
        exact hresult
      unfold Session.step
      rw [hnext, hone, ← hlength]
      cases ((Stmt.checkAll p).run f).result with
      | error e => rfl
      | ok S =>
          show Except.ok (Resolved.Stmt.renameAll σ S) =
            .ok (Resolved.Stmt.renameAll σ ((R ++ S).drop R.length))
          rw [List.drop_left]

/-- A variable, then a function whose body mentions a name that nothing declares, then a statement
    that is never reached. -/
def lostBody : Program :=
  [.declare "x" false (.int 1 .origin) .origin,
   .function "f" [⟨"n", .named "int" .origin, .origin⟩] (some (.named "int" .origin))
    [.declare "m" false (.name "n" .origin) .origin,
     .returnValue (.name "y" .origin) .origin] .origin,
   .declare "z" false (.int 2 .origin) .origin]

/-- The variable once more, which is refused. -/
def declaredTwice : Program := [.declare "x" false (.bool true .origin) .origin]

/-- A call of the function whose body was refused. -/
def callLost : Program :=
  [.declare "z" false (.call (.name "f" .origin) [.name "x" .origin] .origin) .origin]

/-- The function survives the failure in its body and can be called, although the numbers taken
    inside the body are lost. -/
theorem session_equals_one_program_callLost :
    Catalog.standard.names.Nodup ∧
      (∃ S, (((Session.loaded .standard).runAll [lostBody, declaredTwice]).step callLost).result =
        .ok S) ∧
      ∃ s, Session.open? .standard = .ok s ∧
        s.survivors [lostBody, declaredTwice] =
          [.declare "x" false (.int 1 .origin) .origin,
           .function "f" [⟨"n", .named "int" .origin, .origin⟩] (some (.named "int" .origin)) []
            .origin] ∧
        ∃ σ : Identity → Identity, Function.Injective σ ∧
          ((s.runAll [lostBody, declaredTwice]).step callLost).result =
            ((analyze .standard (s.survivors [lostBody, declaredTwice] ++ callLost)).result.map
              (·.drop 2)).map (Resolved.Stmt.renameAll σ) := by
  have hnames : Catalog.standard.names.Nodup := by decide
  obtain ⟨_, s, hs, R, σ, hσ, _, _, _, hresult⟩ :=
    session_equals_one_program hnames [lostBody, declaredTwice] callLost
  have hloaded := (Session.open?_eq_ok_iff.mp hs).2
  subst hloaded
  exact ⟨hnames, ⟨_, rfl⟩, _, hs, rfl, σ, hσ, hresult⟩

end Sema
