import Sema.Proofs.Equivariance
import Sema.Proofs.Loading
import Sema.Proofs.Simulation

/-!
# Analysis decides the judgement

An analysis accepts a program exactly when the judgement derives some resolved program for it, and
it yields that program up to the identities of its declarations (`analyze_decides_elaboration`).

* Soundness (`elaborates_of_analyze`): the check of the statements follows the rules, and the
  numbers that it hands out are new.
* Completeness (`analyze_of_elaborates`): the declarations of a derived program are renamed to the
  numbers that the check would hand out. The rules derive the renamed program too, and so the check
  yields it.
-/

namespace Sema

open Check

/-! ## 1. The loaded catalog -/

/-- A list of pairs read as a list of dependent pairs: the same entry is found. -/
theorem dlookup_map_eq_lookup (x : String) : ∀ entries : List (String × Entity),
    (entries.map fun b => (⟨b.1, b.2⟩ : Σ _ : String, Entity)).dlookup x = entries.lookup x
  | [] => rfl
  | (y, e) :: entries => by
      by_cases hxy : x = y
      · subst hxy
        simp
      · have hb : (x == y) = false := by simpa using hxy
        rw [List.map_cons, List.dlookup_cons_ne _ _ hxy, dlookup_map_eq_lookup x entries,
          List.lookup_cons, hb]

theorem Env.lookup_inner_ofCatalog (c : Catalog) (x : String) :
    (Env.ofCatalog c).inner.names.lookup x = c.get? x := by
  rw [Env.ofCatalog, Finmap.dlookup_list_toFinmap, dlookup_map_eq_lookup, Catalog.get?]

/-- Where only the catalog is in scope, a name denotes its entry. -/
theorem Env.lookup_ofCatalog (c : Catalog) (x : String) :
    (Env.ofCatalog c).lookup x = c.get? x := by
  rw [Env.lookup, Env.layers, List.findSome?_cons, Env.lookup_inner_ofCatalog]
  cases c.get? x <;> rfl

/-- Without repeated names, the last entry for a name is the first one. -/
theorem lookup_reverse_entries {c : Catalog} (h : c.names.Nodup) (x : String) :
    c.entries.reverse.lookup x = c.get? x := by
  rw [Catalog.get?, ← dlookup_map_eq_lookup, ← dlookup_map_eq_lookup]
  have hkeys : (c.entries.map fun b => (⟨b.1, b.2⟩ : Σ _ : String, Entity)).NodupKeys := by
    rw [List.NodupKeys, List.keys, List.map_map]
    exact h
  have hperm := (c.entries.reverse_perm).map fun b => (⟨b.1, b.2⟩ : Σ _ : String, Entity)
  exact List.perm_dlookup x ((List.perm_nodupKeys hperm).mpr hkeys) hperm

/-- The root scope itself binds a name to what the catalog has for it. -/
theorem Session.find?_loaded {c : Catalog} (h : c.names.Nodup) (x : String) :
    (Session.loaded c).scopes.inner.find? x = c.get? x := by
  rw [← lookup_reverse_entries h]
  show (c.entries.reverse ++ []).lookup x = _
  rw [List.append_nil]

theorem Session.declares_loaded {c : Catalog} (h : c.names.Nodup) (x : String) :
    (Session.loaded c).scopes.inner.declares x = (c.get? x).isSome := by
  rw [Frame.declares, Session.find?_loaded h]

/-- **The scopes of a loaded catalog are the one-scope environment that holds it.** -/
theorem Session.env_loaded {c : Catalog} (h : c.names.Nodup) :
    (Session.loaded c).scopes.env = Env.ofCatalog c := by
  have hnames : (Session.loaded c).scopes.inner.layer.names = (Env.ofCatalog c).inner.names := by
    refine Finmap.ext_lookup fun x => ?_
    rw [Frame.lookup_layer, Env.lookup_inner_ofCatalog, Session.find?_loaded h]
  exact congrArg (fun names => Env.mk ⟨names, false, none⟩ []) hnames

theorem Session.lookup?_loaded {c : Catalog} (h : c.names.Nodup) (x : String) :
    (Session.loaded c).scopes.lookup? x = c.get? x := by
  rw [← Scopes.lookup_env, Session.env_loaded h, Env.lookup_ofCatalog]

theorem Catalog.mem_identities {c : Catalog} {x : String} {e : Entity} {i : Identity}
    (hx : c.get? x = some e) (hi : e.identity? = some i) : i ∈ c.identities := by
  obtain ⟨before, after, hentries, _⟩ := List.lookup_eq_some_iff.mp hx
  exact List.mem_filterMap.mpr ⟨(x, e), by simp [hentries], hi⟩

/-- A renaming that keeps the declarations of the catalog keeps its environment. -/
theorem Env.renamed_ofCatalog {c : Catalog} {σ : Identity → Identity}
    (h : ∀ i ∈ c.identities, σ i = i) : (Env.ofCatalog c).Renamed σ (Env.ofCatalog c) where
  inner := {
    names := fun x => by
      rw [Env.lookup_inner_ofCatalog]
      cases hx : c.get? x with
      | none => rfl
      | some e =>
          rw [Option.map_some, Entity.rename_eq_self fun i hi => h i (Catalog.mem_identities hx hi)]
    inLoop := rfl
    function := rfl }
  outer := .nil

/-! ## 2. New numbers -/

theorem Numbered.eq_map : ∀ {is : List Identity} {n : Nat}, Numbered n is →
    is = (List.range' n is.length).map .program
  | [], _, _ => rfl
  | i :: is, n, h => by
      obtain ⟨rfl, h⟩ : i = .program n ∧ Numbered (n + 1) is := h
      rw [List.length_cons, List.range'_succ, List.map_cons, ← h.eq_map]

theorem numbered_map_range' : ∀ (k n : Nat), Numbered n ((List.range' n k).map .program)
  | 0, _ => trivial
  | k + 1, n => by
      rw [List.range'_succ, List.map_cons]
      exact ⟨rfl, numbered_map_range' k (n + 1)⟩

theorem nodup_map_range' (n k : Nat) : ((List.range' n k).map Identity.program).Nodup :=
  List.Nodup.map (fun _ _ h => Identity.program.inj h) (List.nodup_range' ..)

/-- The numbers from the first serial on are none of the catalog's. -/
theorem Catalog.not_mem_identities_of_firstSerial_le {c : Catalog} {n : Nat}
    (h : c.firstSerial ≤ n) : .program n ∉ c.identities := by
  have hle : ∀ is : List Identity, ∀ i ∈ is, i.next ≤ is.foldr (fun i m => max i.next m) 0 := by
    intro is
    induction is with
    | nil => nofun
    | cons j is ih =>
        intro i hi
        rw [List.foldr_cons]
        obtain rfl | hi := List.mem_cons.mp hi
        · exact le_max_left _ _
        · exact (ih i hi).trans (le_max_right _ _)
  intro hmem
  have hnext : n + 1 ≤ c.firstSerial := hle c.identities _ hmem
  omega

theorem Catalog.not_mem_identities_of_mem_range' {c : Catalog} {k : Nat} {i : Identity}
    (h : i ∈ (List.range' c.firstSerial k).map .program) : i ∉ c.identities := by
  obtain ⟨n, hn, rfl⟩ := List.mem_map.mp h
  exact Catalog.not_mem_identities_of_firstSerial_le (List.mem_range'_1.mp hn).1

/-! ## 3. Soundness and completeness -/

/-- What an analysis yields: what the rules derive, with its declarations numbered in a row. -/
theorem result_analyze_eq_ok_iff_elaborates {c : Catalog} (h : c.names.Nodup) {p : Program}
    {R : Resolved.Program} :
    (analyze c p).result = .ok R ↔
      Stmt.ElaboratesAll (.ofCatalog c) p R ∧
        Numbered c.firstSerial (Resolved.Stmt.declaredAll R) := by
  have hcheck := Stmt.yields_checkAll p R (Session.loaded c)
  rw [Session.env_loaded h] at hcheck
  rw [result_analyze_of_nodup h]
  constructor
  · intro hok
    obtain ⟨hder, hnum, _⟩ := (hcheck _).mp ⟨hok, rfl⟩
    exact ⟨hder, hnum⟩
  · rintro ⟨hder, hnum⟩
    exact ((hcheck _).mpr ⟨hder, hnum, rfl⟩).1

/-- **Soundness.** What an analysis yields is an elaboration of the program. -/
theorem elaborates_of_analyze {c : Catalog} {p : Program} {R : Resolved.Program}
    (hok : (analyze c p).result = .ok R) : Elaborates c p R := by
  have h : c.names.Nodup := (result_analyze_eq_ok_iff.mp hok).1
  obtain ⟨hder, hnum⟩ := (result_analyze_eq_ok_iff_elaborates h).mp hok
  refine ⟨hder, ?_, fun i hi => ?_⟩
  · rw [hnum.eq_map]
    exact nodup_map_range' _ _
  · rw [hnum.eq_map] at hi
    exact Catalog.not_mem_identities_of_mem_range' hi

/-- **Completeness.** A program with an elaboration is accepted, and the analysis yields that
    elaboration up to the identities of its declarations. -/
theorem analyze_of_elaborates {c : Catalog} (h : c.names.Nodup) {p : Program}
    {R : Resolved.Program} (hR : Elaborates c p R) :
    ∃ S, (analyze c p).result = .ok S ∧ Resolved.Alike c R S := by
  obtain ⟨σ, hkept, hmap⟩ := exists_perm_map_eq (by simp) hR.distinct
    (nodup_map_range' c.firstSerial (Resolved.Stmt.declaredAll R).length) hR.fresh
    fun _ => Catalog.not_mem_identities_of_mem_range'
  refine ⟨Resolved.Stmt.renameAll σ R, ?_, σ, hkept, rfl⟩
  refine (result_analyze_eq_ok_iff_elaborates h).mpr ⟨?_, ?_⟩
  · exact Stmt.elaboratesAll_rename p R (Env.renamed_ofCatalog hkept).embeds
      (fun _ _ => Set.notMem_empty _) hR.derived
  · rw [Resolved.Stmt.declaredAll_rename, hmap]
    exact numbered_map_range' _ _

/-- An elaboration stays one when its declarations are renamed. -/
theorem Elaborates.of_alike {c : Catalog} {p : Program} {R S : Resolved.Program}
    (hR : Elaborates c p R) (h : Resolved.Alike c R S) : Elaborates c p S := by
  obtain ⟨σ, hkept, rfl⟩ := h
  refine ⟨Stmt.elaboratesAll_rename p R (Env.renamed_ofCatalog hkept).embeds
    (fun _ _ => Set.notMem_empty _) hR.derived, ?_, ?_⟩
  · rw [Resolved.Stmt.declaredAll_rename]
    exact hR.distinct.map σ.injective
  · rw [Resolved.Stmt.declaredAll_rename]
    intro i hi hc
    obtain ⟨j, hj, rfl⟩ := List.mem_map.mp hi
    -- the image of `j` is kept, so it is `j` itself
    have hj' : σ j = j := σ.injective (hkept _ hc)
    exact hR.fresh j hj (hj' ▸ hc)

/-- **Analysis decides elaboration.** Against a catalog with distinct names, the elaborations of a
    program are what its analysis yields, up to the identities of its declarations; the analysis
    fails exactly where there is none; and there is at most one. -/
theorem analyze_decides_elaboration (c : Catalog) (p : Program) (h : c.names.Nodup) :
    (∀ R, Elaborates c p R ↔ ∃ S, (analyze c p).result = .ok S ∧ Resolved.Alike c R S) ∧
      ((∃ d, (analyze c p).result = .error d) ↔ ¬ ∃ R, Elaborates c p R) ∧
      ∀ R S, Elaborates c p R → Elaborates c p S → Resolved.Alike c R S := by
  refine ⟨fun R => ⟨analyze_of_elaborates h, ?_⟩, ⟨?_, ?_⟩, ?_⟩
  · rintro ⟨S, hok, hRS⟩
    exact (elaborates_of_analyze hok).of_alike hRS.symm
  · rintro ⟨d, herr⟩ ⟨R, hR⟩
    obtain ⟨S, hok, _⟩ := analyze_of_elaborates h hR
    rw [herr] at hok
    cases hok
  · intro hnone
    cases hres : (analyze c p).result with
    | error d => exact ⟨d, rfl⟩
    | ok R => exact absurd ⟨R, elaborates_of_analyze hres⟩ hnone
  · intro R S hR hS
    obtain ⟨T, hT, hRT⟩ := analyze_of_elaborates h hR
    obtain ⟨T', hT', hST'⟩ := analyze_of_elaborates h hS
    obtain rfl : T = T' := Except.ok.inj (hT.symm.trans hT')
    exact hRT.trans hST'.symm

/-- A function that calls itself, with an iterator that hides its parameter, and a variable that
    takes the name of the parameter afterwards. -/
def shadowing : Program :=
  [.function "f" [⟨"n", .named "int" .origin, .origin⟩] (some (.named "int" .origin))
    [.forEach "n" (.list [.name "n" .origin] .origin)
      [.returnValue (.call (.name "f" .origin) [.name "n" .origin] .origin) .origin] .origin,
     .returnValue (.name "n" .origin) .origin] .origin,
   .declare "n" false (.call (.name "f" .origin) [.int 1 .origin] .origin) .origin,
   .step .up (.name "n" .origin) .origin]

/-- A variable whose initial value mentions it. -/
def selfReference : Program := [.declare "n" false (.name "n" .origin) .origin]

/-- The judgement derives the one program and not the other. -/
theorem analyze_decides_shadowing :
    (∃ R, (analyze .standard shadowing).result = .ok R ∧ Elaborates .standard shadowing R) ∧
      ¬ ∃ R, Elaborates .standard selfReference R := by
  have hnames : Catalog.standard.names.Nodup := by decide
  obtain ⟨R, hok⟩ : ∃ R, (analyze .standard shadowing).result = .ok R := ⟨_, rfl⟩
  refine ⟨⟨R, hok, ?_⟩, ?_⟩
  · exact ((analyze_decides_elaboration .standard shadowing hnames).1 R).mpr ⟨R, hok, .refl _ R⟩
  · exact (analyze_decides_elaboration .standard selfReference hnames).2.1.mp ⟨_, rfl⟩

end Sema
