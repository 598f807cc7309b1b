import Sema.Proofs.Frame

/-!
# Loading a catalog

The entries of a catalog are declared one after the other in the root scope. That succeeds exactly
when no two entries have the same name, and then the root scope holds the entries and nothing else
(`Session.open?_eq_ok_iff`). A catalog that names something twice is reported without a place.
-/

namespace Sema

open Check

/-- Entries are declared when their names are new and differ from each other; the last one comes to
    stand first. -/
theorem yields_declareEntries {u : Unit} : ∀ (entries : List (String × Entity)) (s t : Session),
    (declareEntries entries).Yields s u t ↔
      (entries.map Prod.fst).Nodup ∧
        (∀ b ∈ entries, s.scopes.inner.declares b.1 = false) ∧
        t = ⟨s.scopes.extend entries.reverse, s.serial⟩
  | [], s, t => by
      rw [declareEntries, yields_pure]
      simp [Scopes.extend]
  | (name, e) :: rest, s, t => by
      have hext : ({ s.scopes with inner := s.scopes.inner.bind name e } : Scopes).extend
          rest.reverse = s.scopes.extend ((name, e) :: rest).reverse := by
        simp [Scopes.extend, Frame.bind]
      rw [declareEntries, yields_bind]
      constructor
      · rintro ⟨_, r, hdecl, hrest⟩
        obtain ⟨hname, rfl⟩ := yields_declare.mp hdecl
        obtain ⟨hnd, hfree, rfl⟩ := (yields_declareEntries rest _ t).mp hrest
        have hfree' := fun b hb => Frame.declares_bind_eq_false.mp (hfree b hb)
        refine ⟨?_, ?_, by rw [hext]⟩
        · rw [List.map_cons, List.nodup_cons]
          refine ⟨fun hmem => ?_, hnd⟩
          obtain ⟨b, hb, hbn⟩ := List.mem_map.mp hmem
          exact (hfree' b hb).1 hbn
        · rw [List.forall_mem_cons]
          exact ⟨hname, fun b hb => (hfree' b hb).2⟩
      · rintro ⟨hnd, hfree, rfl⟩
        rw [List.map_cons, List.nodup_cons] at hnd
        rw [List.forall_mem_cons] at hfree
        refine ⟨(), _, yields_declare.mpr ⟨hfree.1, rfl⟩,
          (yields_declareEntries rest _ _).mpr ⟨hnd.2, fun b hb => ?_, by rw [hext]⟩⟩
        refine Frame.declares_bind_eq_false.mpr ⟨fun hbn => hnd.1 ?_, hfree.2 b hb⟩
        exact List.mem_map.mpr ⟨b, hb, hbn⟩

/-- Refused entries are reported for a name that is declared already, and lie nowhere. -/
theorem error_declareEntries : ∀ (entries : List (String × Entity)) (s : Session) (d : Diagnostic),
    ((declareEntries entries).run s).result = .error d → ∃ name, d = ⟨.alreadyDeclared name, none⟩
  | [], _, _, h => by cases h
  | (name, e) :: rest, s, d, h => by
      rw [declareEntries, run_bind, run_declare] at h
      cases hd : s.scopes.inner.declares name with
      | true =>
          simp only [hd, if_true, Except.error.injEq] at h
          exact ⟨name, h.symm⟩
      | false =>
          simp only [hd, Bool.false_eq_true, if_false] at h
          exact error_declareEntries rest _ d h

namespace Session

/-- The session in which the entries of a catalog are declared. -/
def loaded (c : Catalog) : Session :=
  ⟨Scopes.root.extend c.entries.reverse, c.firstSerial⟩

theorem load_yields_iff {c : Catalog} {u : Unit} {t : Session} :
    (declareEntries c.entries).Yields (.blank c.firstSerial) u t ↔
      c.names.Nodup ∧ t = loaded c := by
  rw [yields_declareEntries]
  have hroot : ∀ b ∈ c.entries, (blank c.firstSerial).scopes.inner.declares b.1 = false :=
    fun _ _ => rfl
  constructor
  · rintro ⟨hnd, _, rfl⟩
    exact ⟨hnd, rfl⟩
  · rintro ⟨hnd, rfl⟩
    exact ⟨hnd, hroot, rfl⟩

theorem load_ok {c : Catalog} (h : c.names.Nodup) :
    (load c).result = .ok () ∧ (load c).session = loaded c :=
  load_yields_iff.mpr ⟨h, rfl⟩

theorem load_error {c : Catalog} (h : ¬ c.names.Nodup) :
    ∃ name, (load c).result = .error ⟨.alreadyDeclared name, none⟩ := by
  cases hr : (load c).result with
  | ok u => exact absurd (load_yields_iff.mp ⟨hr, rfl⟩).1 h
  | error d =>
      obtain ⟨name, rfl⟩ := error_declareEntries c.entries _ d hr
      exact ⟨name, rfl⟩

/-- **A catalog can be loaded exactly when its names differ**, and the session then holds it. -/
theorem open?_eq_ok_iff {c : Catalog} {s : Session} :
    open? c = .ok s ↔ c.names.Nodup ∧ s = loaded c := by
  unfold open?
  by_cases h : c.names.Nodup
  · obtain ⟨hres, hses⟩ := load_ok h
    simp [hres, hses, h, eq_comm]
  · obtain ⟨name, hres⟩ := load_error h
    simp [hres, h]

end Session

/-! ## Analysis of a program -/

/-- An analysis against a catalog with distinct names checks the program where the catalog is
    loaded. -/
theorem result_analyze_of_nodup {c : Catalog} (h : c.names.Nodup) (p : Program) :
    (analyze c p).result = ((Session.loaded c).step p).result := by
  obtain ⟨hres, hses⟩ := Session.load_ok h
  simp only [analyze, hres, hses]

theorem result_analyze_of_not_nodup {c : Catalog} (h : ¬ c.names.Nodup) (p : Program) :
    ∃ name, (analyze c p).result = .error ⟨.alreadyDeclared name, none⟩ := by
  obtain ⟨name, hres⟩ := Session.load_error h
  exact ⟨name, by simp only [analyze, hres]⟩

/-- A program is accepted when the catalog has distinct names and the check of the program in it
    succeeds. -/
theorem result_analyze_eq_ok_iff {c : Catalog} {p : Program} {R : Resolved.Program} :
    (analyze c p).result = .ok R ↔
      c.names.Nodup ∧ ((Session.loaded c).step p).result = .ok R := by
  by_cases h : c.names.Nodup
  · rw [result_analyze_of_nodup h]
    exact ⟨fun hok => ⟨h, hok⟩, And.right⟩
  · obtain ⟨name, herr⟩ := result_analyze_of_not_nodup h p
    rw [herr]
    exact ⟨nofun, fun hok => absurd hok.1 h⟩

end Sema
