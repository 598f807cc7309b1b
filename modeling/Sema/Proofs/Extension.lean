import Sema.Proofs.Head
import Sema.Proofs.Visibility

/-!
# Extending the library

A catalog gets one more name, and a program that was accepted against it is analyzed again
(`analyze_extended_catalog`). Only the top level of the program can tell: a scope inside it may
declare the new name as before, and no use of a name changes its meaning, since every name that was
used had one already.

* A program that does not declare the name at its top level is accepted, with what it was resolved
  to; only the numbers of its declarations may be other ones. The larger catalog embeds the smaller
  one with that name taken (`Env.embeds_add`), so the rules derive what they derived.
* A program that declares the name is refused at that declaration. What comes before is accepted; of
  the declaration itself the parts are accepted too, and then its name is not free
  (`Stmt.Elaborates.result_check_of_taken`).
-/

namespace Sema

open Check

/-! ## 1. A catalog with one more entry -/

section

variable {c : Catalog} {n : String} {e : Entity} {σ : Identity → Identity}

namespace Catalog

theorem names_add (c : Catalog) (n : String) (e : Entity) :
    (c.add n e).names = c.names ++ [n] := by
  simp [names, add]

theorem nodup_names_add (h : c.names.Nodup) (hn : n ∉ c.names) : (c.add n e).names.Nodup := by
  rw [names_add, ← List.concat_eq_append]
  exact h.concat hn

/-- A further entry is found where nothing was found before. -/
theorem get?_add (c : Catalog) (n : String) (e : Entity) (x : String) :
    (c.add n e).get? x = (c.get? x).or (if x = n then some e else none) := by
  by_cases hx : x = n
  · subst hx
    simp [get?, add, List.lookup_append]
  · have hb : (x == n) = false := by simpa using hx
    simp [get?, add, List.lookup_append, List.lookup_cons, hb, hx]

theorem identities_subset_add {i : Identity} (h : i ∈ c.identities) :
    i ∈ (c.add n e).identities := by
  rw [identities, add, List.filterMap_append]
  exact List.mem_append_left _ h

end Catalog

/-- **A larger catalog embeds the smaller one**, with the new name taken. -/
theorem Env.embeds_add (h : ∀ i ∈ c.identities, σ i = i) :
    (Env.ofCatalog c).Embeds σ {n} (Env.ofCatalog (c.add n e)) where
  lookup {x e'} hx := by
    rw [Env.lookup_ofCatalog] at hx ⊢
    have hkept : e'.rename σ = e' :=
      Entity.rename_eq_self fun i hi => h i (Catalog.mem_identities hx hi)
    rw [Catalog.get?_add, hx, hkept]
    rfl
  free {x} hxn hx := by
    have hne : x ≠ n := hxn
    rw [Env.Free, Env.lookup_inner_ofCatalog] at hx ⊢
    rw [Catalog.get?_add, hx, if_neg hne]
    rfl
  inLoop := id
  function := rfl

end

/-! ## 2. What a scope leaves free -/

section

variable {Γ : Env} {s : Stmt} {r : Resolved.Stmt} {x : String}

/-- What a statement declares was free in its scope. -/
theorem Stmt.Elaborates.free_of_declares (h : s.Elaborates Γ r) (hx : s.declares? = some x) :
    Γ.Free x := by
  cases h with
  | declare _ free | function _ _ free _ _ =>
      cases hx
      exact free
  | _ => cases hx

/-- A name that is free after a statement was free before it, and the statement does not declare
    it. -/
theorem Stmt.Elaborates.free_of_after (h : s.Elaborates Γ r) (hx : (Γ.after r).Free x) :
    Γ.Free x ∧ s.declares? ≠ some x := by
  cases h with
  | declare _ _ =>
      obtain ⟨hne, hfree⟩ := (Env.free_bind ..).mp hx
      exact ⟨hfree, fun hdecl => hne (Option.some.inj hdecl).symm⟩
  | function _ _ _ hf _ =>
      subst hf
      obtain ⟨hne, hfree⟩ := (Env.free_bind ..).mp hx
      exact ⟨hfree, fun hdecl => hne (Option.some.inj hdecl).symm⟩
  | _ => exact ⟨hx, nofun⟩

/-- What statements in a row declare was free before the first of them. -/
theorem Stmt.ElaboratesAll.free_of_declares : ∀ {ss : List Stmt} {rs : List Resolved.Stmt}
    {Γ : Env}, Stmt.ElaboratesAll Γ ss rs → s ∈ ss → s.declares? = some x → Γ.Free x
  | _ :: ss, _, Γ, h, hs, hx => by
      cases h with
      | cons hr hrs =>
          rcases List.mem_cons.mp hs with rfl | hs
          · exact hr.free_of_declares hx
          · exact (hr.free_of_after (hrs.free_of_declares hs hx)).1

end

/-! ## 3. A declaration of a taken name -/

/-- **A declaration is refused for its name and for nothing else**, where all its parts are accepted
    and its scope holds the name. -/
theorem Stmt.Elaborates.result_check_of_taken {σ : Identity → Identity} {s : Stmt}
    {r : Resolved.Stmt} {Γ : Env} {τ : Session} {n : String} (hr : s.Elaborates Γ r)
    (hs : s.declares? = some n)
    (hΓ : Γ.Embeds σ {n} τ.scopes.env) (hnum : Numbered τ.serial (r.rename σ).declared)
    (htaken : τ.scopes.inner.declares n = true) :
    (s.check.run τ).result = .error ⟨.alreadyDeclared n, some s.span⟩ := by
  cases hr with
  | @declare _ x readOnly init span i value hvalue _ =>
      obtain rfl : x = n := Option.some.inj hs
      have hinit : (reading fun Γ => init.check Γ).Yields τ (value.rename σ) τ :=
        yields_reading.mpr
          ⟨(init.result_check_eq_ok _ _).mpr (init.elaborates_rename hΓ _ hvalue), rfl⟩
      have hdeclare := run_declareVariable x readOnly (value.rename σ).ty span τ
      rw [if_pos htaken] at hdeclare
      rw [Stmt.check, result_bind_of_yields hinit]
      exact (run_bind_of_error (congrArg Outcome.result hdeclare) _).1
  | @function _ name parameters result body span i t ds f rs ht hds _ hf _ =>
      obtain rfl : name = n := Option.some.inj hs
      rw [Resolved.Stmt.rename, Resolved.Stmt.declared, numbered_append] at hnum
      have hresult := yields_checkResult.mpr ⟨ht.rename hΓ, rfl⟩
      have hparams := (Parameter.yields_checkAll parameters _ (τ.enter .functionBody) _).mpr
        ⟨hds.rename (hΓ.body none), hnum.1, rfl⟩
      exact Stmt.result_function_of_taken hresult hparams htaken body
  | _ => cases hs

/-- A statement leaves in its scope what was declared there. -/
theorem Scopes.declares_after {Γ : Scopes} {n : String} (h : Γ.inner.declares n = true)
    (r : Resolved.Stmt) : (Γ.after r).inner.declares n = true := by
  have hbind : ∀ (x : String) (e : Entity), (Γ.inner.bind x e).declares n = true := by
    intro x e
    by_contra hnot
    rw [Bool.not_eq_true, Frame.declares_bind_eq_false, h] at hnot
    cases hnot.2
  cases r with
  | declare v value => exact hbind v.name (.var v)
  | function f ps body => exact hbind f.name (.func f)
  | _ => exact h

/-- **Statements in a row are accepted up to the one that declares a taken name**, and that one is
    refused. -/
theorem Stmt.result_checkAll_of_taken {σ : Identity → Identity} {s : Stmt} {n : String}
    (hs : s.declares? = some n) (after : List Stmt) :
    ∀ (before : List Stmt) {R : List Resolved.Stmt} {Γ : Env} {τ : Session},
      Stmt.ElaboratesAll Γ (before ++ s :: after) R → Γ.Embeds σ {n} τ.scopes.env →
      Numbered τ.serial (Resolved.Stmt.declaredAll (Resolved.Stmt.renameAll σ R)) →
      τ.scopes.inner.declares n = true →
      ((Stmt.checkAll (before ++ s :: after)).run τ).result =
        .error ⟨.alreadyDeclared n, some s.span⟩
  | [], _, Γ, τ, h, hΓ, hnum, htaken => by
      cases h with
      | cons hr _ =>
          rw [Resolved.Stmt.renameAll, Resolved.Stmt.declaredAll, numbered_append] at hnum
          rw [List.nil_append, Stmt.checkAll]
          exact (run_bind_of_error (hr.result_check_of_taken hs hΓ hnum.1 htaken) _).1
  | t :: before, _, Γ, τ, h, hΓ, hnum, htaken => by
      cases h with
      | @cons _ _ _ r rs hr hrs =>
          rw [Resolved.Stmt.renameAll, Resolved.Stmt.declaredAll, numbered_append] at hnum
          -- the name is still free after `t`, so `t` declares another one
          have hfree : (Γ.after r).Free n := hrs.free_of_declares (by simp) hs
          have ht : ∀ x, t.declares? = some x → x ∉ ({n} : Set String) := by
            intro x hx hxn
            rw [Set.mem_singleton_iff.mp hxn] at hx
            exact (hr.free_of_after hfree).2 hx
          have hyields := (t.yields_check _ τ _).mpr ⟨t.elaborates_rename r hΓ ht hr, hnum.1, rfl⟩
          have hΓ' : (Γ.after r).Embeds σ {n} (τ.scopes.after (r.rename σ)).env := by
            rw [Scopes.env_after]
            exact hΓ.after r
          rw [List.cons_append, Stmt.checkAll, result_bind_of_yields hyields, result_bind_pure,
            Stmt.result_checkAll_of_taken hs after before hrs hΓ' hnum.2
              (Scopes.declares_after htaken _)]
          rfl

/-! ## 4. Analysis against the larger catalog -/

section

variable {c : Catalog} {n : String} {e : Entity} {p : Program} {R : Resolved.Program}

/-- The declarations of an accepted program can be numbered as against the larger catalog. -/
theorem exists_renumbering (hok : (analyze c p).result = .ok R) (n : String) (e : Entity) :
    ∃ σ : Equiv.Perm Identity, (∀ i ∈ c.identities, σ i = i) ∧
      Numbered (c.add n e).firstSerial
        (Resolved.Stmt.declaredAll (Resolved.Stmt.renameAll σ R)) := by
  have hR := elaborates_of_analyze hok
  obtain ⟨σ, hkept, hmap⟩ := exists_perm_map_eq (by simp) hR.distinct
    (nodup_map_range' (c.add n e).firstSerial (Resolved.Stmt.declaredAll R).length) hR.fresh
    fun i hi hc => Catalog.not_mem_identities_of_mem_range' hi (Catalog.identities_subset_add hc)
  refine ⟨σ, hkept, ?_⟩
  rw [Resolved.Stmt.declaredAll_rename, hmap]
  exact numbered_map_range' _ _

theorem analyze_add_of_not_declared (hok : (analyze c p).result = .ok R) (hn : n ∉ c.names)
    (hp : n ∉ p.filterMap Stmt.declares?) :
    ∃ S, (analyze (c.add n e) p).result = .ok S ∧ Resolved.Alike c R S := by
  obtain ⟨hc, _⟩ := result_analyze_eq_ok_iff.mp hok
  obtain ⟨σ, hkept, hnum⟩ := exists_renumbering hok n e
  have havoid : ∀ x ∈ p.filterMap Stmt.declares?, x ∉ ({n} : Set String) := by
    intro x hx hxn
    rw [Set.mem_singleton_iff.mp hxn] at hx
    exact hp hx
  have hder := Stmt.elaboratesAll_rename p R (Env.embeds_add (e := e) hkept) havoid
    (elaborates_of_analyze hok).derived
  exact ⟨Resolved.Stmt.renameAll σ R,
    (result_analyze_eq_ok_iff_elaborates (Catalog.nodup_names_add hc hn)).mpr ⟨hder, hnum⟩,
    σ, hkept, rfl⟩

theorem analyze_add_of_declared (hok : (analyze c p).result = .ok R) (hn : n ∉ c.names) {s : Stmt}
    (hs : s ∈ p) (hdecl : s.declares? = some n) :
    (analyze (c.add n e) p).result = .error ⟨.alreadyDeclared n, some s.span⟩ := by
  obtain ⟨hc, _⟩ := result_analyze_eq_ok_iff.mp hok
  have hc' : (c.add n e).names.Nodup := Catalog.nodup_names_add hc hn
  obtain ⟨σ, hkept, hnum⟩ := exists_renumbering hok n e
  have hembeds : (Env.ofCatalog c).Embeds σ {n} (Session.loaded (c.add n e)).scopes.env := by
    rw [Session.env_loaded hc']
    exact Env.embeds_add hkept
  have htaken : (Session.loaded (c.add n e)).scopes.inner.declares n = true := by
    by_contra hnot
    rw [Bool.not_eq_true, ← Scopes.free_env, Session.env_loaded hc', Env.Free,
      Env.lookup_inner_ofCatalog, Catalog.get?_add, if_pos rfl] at hnot
    cases hget : c.get? n <;> simp [hget] at hnot
  obtain ⟨before, after, rfl⟩ := List.append_of_mem hs
  rw [result_analyze_of_nodup hc']
  exact Stmt.result_checkAll_of_taken hdecl after before (elaborates_of_analyze hok).derived hembeds
    hnum htaken

/-- **Extending the library.** Where a program is accepted against a catalog, a new name in that
    catalog changes nothing for it but the numbers of its declarations, unless it declares that name
    at its top level; then it is refused at that declaration. -/
theorem analyze_extended_catalog (c : Catalog) (p : Program) (R : Resolved.Program)
    (hok : (analyze c p).result = .ok R) (n : String) (hn : n ∉ c.names) (e : Entity) :
    (n ∉ p.filterMap Stmt.declares? →
        ∃ S, (analyze (c.add n e) p).result = .ok S ∧ Resolved.Alike c R S) ∧
      ∀ s ∈ p, s.declares? = some n →
        ∃ d, (analyze (c.add n e) p).result = .error d ∧ d.problem = .alreadyDeclared n ∧
          d.report = ⟨"Identifier " ++ n ++ " already declared", some s.span⟩ := by
  refine ⟨analyze_add_of_not_declared hok hn, ?_⟩
  intro s hs hdecl
  exact ⟨_, analyze_add_of_declared hok hn hs hdecl, rfl, rfl⟩

end

/-- A function whose parameter and a variable in a branch of it have one name, which its top level
    does not declare. -/
def innerName : Program :=
  [.function "twice" [⟨"k", .named "int" .origin, .origin⟩] (some (.named "int" .origin))
    [.branch (.mk (.bool true .origin)
      [.declare "k" false (.binary .add (.name "k" .origin) (.int 1 .origin) .origin) .origin] .none
      .origin),
     .returnValue (.name "k" .origin) .origin] .origin,
   .eval (.call (.name "twice" .origin) [.int 1 .origin] .origin) .origin]

/-- A constant that comes with a number of its own, as if it had been declared during an
    analysis. -/
def lateConstant (name : String) : Entity := .var ⟨.program 2, name, true, .int⟩

/-- The name of the parameter can be added to the standard library, and the name of a variable at
    the top level cannot. -/
theorem analyze_extended_catalog_innerName :
    (∃ R S, (analyze .standard innerName).result = .ok R ∧ R ≠ S ∧
        (analyze (Catalog.standard.add "k" (lateConstant "k")) innerName).result = .ok S ∧
        Resolved.Alike .standard R S) ∧
      ∃ d, (analyze (Catalog.standard.add "n" (lateConstant "n")) shadowing).result = .error d ∧
        d.problem = .alreadyDeclared "n" ∧
        d.report = ⟨"Identifier n already declared", some .origin⟩ := by
  obtain ⟨R, hR⟩ : ∃ R, (analyze .standard innerName).result = .ok R := ⟨_, rfl⟩
  obtain ⟨T, hT⟩ : ∃ T, (analyze .standard shadowing).result = .ok T := ⟨_, rfl⟩
  have hinner := (analyze_extended_catalog .standard innerName R hR "k" (by decide)
    (lateConstant "k")).1 (by decide)
  have houter := (analyze_extended_catalog .standard shadowing T hT "n" (by decide)
    (lateConstant "n")).2 _ (List.mem_cons_of_mem _ List.mem_cons_self) rfl
  obtain ⟨S, hS, hRS⟩ := hinner
  refine ⟨⟨R, S, hR, ?_, hS, hRS⟩, houter⟩
  intro hsame
  have hdeclared : (analyze .standard innerName).result.toOption.map Resolved.Stmt.declaredAll =
      (analyze (Catalog.standard.add "k" (lateConstant "k")) innerName).result.toOption.map
        Resolved.Stmt.declaredAll := by
    rw [hR, hS, hsame]
  exact absurd hdeclared (by decide)

end Sema
