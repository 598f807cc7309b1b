import Mathlib.Data.List.Basic
import Sema.Proofs.Acceptance
import Sema.Proofs.Head

/-!
# Opening a session on a catalog

A catalog is a list that is searched for the first entry of a name; the root scope of a session is
filled entry by entry, and each name is checked first. The two agree
(`opening_agrees_with_catalog`):

* the session opens exactly when the names differ from each other;
* otherwise it is refused at the first entry that repeats the name of one before it
  (`Catalog.FirstRepeat`): the entries before that one are declared, and then its name is taken;
* in an open session a name denotes what the catalog has for it, the very same entity, and the root
  scope holds the entries and nothing else.
-/

namespace Sema

open Check

/-! ## 1. The first entry that repeats a name -/

/-- An entry named `n` comes after entries whose names differ from each other, and one of these has
    its name. -/
def Catalog.FirstRepeat (c : Catalog) (n : String) : Prop :=
  ∃ before e after, c.entries = before ++ (n, e) :: after ∧ (before.map Prod.fst).Nodup ∧
    n ∈ before.map Prod.fst

/-- Where names are repeated, there is a first entry that does so. -/
theorem Catalog.exists_firstRepeat {c : Catalog} (h : ¬ c.names.Nodup) : ∃ n, c.FirstRepeat n := by
  obtain ⟨entries⟩ := c
  -- entries are taken away from the end, until those that are left have different names
  induction entries using List.reverseRecOn with
  | nil => exact absurd List.nodup_nil h
  | append_singleton entries last ih =>
      by_cases hnd : (entries.map Prod.fst).Nodup
      · have hmem : last.1 ∈ entries.map Prod.fst := by
          by_contra hnot
          refine h ?_
          rw [Catalog.names, List.map_append, List.map_singleton, ← List.concat_eq_append]
          exact hnd.concat hnot
        exact ⟨last.1, entries, last.2, [], rfl, hnd, hmem⟩
      · obtain ⟨n, before, e, after, hentries, hbefore, hn⟩ := ih hnd
        have hentries : entries = before ++ (n, e) :: after := hentries
        refine ⟨n, before, e, after ++ [last], ?_, hbefore, hn⟩
        show entries ++ [last] = _
        rw [hentries, List.append_assoc, List.cons_append]

/-! ## 2. Where loading stops -/

/-- Once some entries are declared, what comes of the rest decides. -/
theorem result_declareEntries_append {u : Unit} : ∀ {before : List (String × Entity)}
    (rest : List (String × Entity)) {s t : Session}, (declareEntries before).Yields s u t →
      ((declareEntries (before ++ rest)).run s).result = ((declareEntries rest).run t).result
  | [], rest, s, t, h => by
      obtain ⟨-, rfl⟩ := yields_pure.mp h
      rfl
  | (x, e) :: before, rest, s, t, h => by
      rw [declareEntries] at h
      obtain ⟨v, r, hdeclare, hbefore⟩ := yields_bind.mp h
      rw [List.cons_append, declareEntries, result_bind_of_yields hdeclare]
      exact result_declareEntries_append rest hbefore

theorem Scopes.declares_extend_root {entries : List (String × Entity)} {n : String}
    (h : n ∈ entries.map Prod.fst) : (Scopes.root.extend entries).inner.declares n = true := by
  obtain ⟨entry, hentry, rfl⟩ := List.mem_map.mp h
  show ((entries ++ []).lookup entry.1).isSome = true
  rw [List.append_nil, List.lookup_isSome_iff]
  exact ⟨entry, hentry, beq_self_eq_true entry.1⟩

/-- **Loading stops at the first entry that repeats a name.** -/
theorem Catalog.FirstRepeat.load {c : Catalog} {n : String} (h : c.FirstRepeat n) :
    (Session.load c).result = .error ⟨.alreadyDeclared n, none⟩ := by
  obtain ⟨before, e, after, hentries, hnd, hn⟩ := h
  have hbefore : (declareEntries before).Yields (.blank c.firstSerial) ()
      ⟨Scopes.root.extend before.reverse, c.firstSerial⟩ :=
    (yields_declareEntries before _ _).mpr ⟨hnd, fun _ _ => rfl, rfl⟩
  have htaken : (Scopes.root.extend before.reverse).inner.declares n = true := by
    refine Scopes.declares_extend_root ?_
    rw [List.map_reverse]
    exact List.mem_reverse.mpr hn
  have hdeclare := run_declare n e none ⟨Scopes.root.extend before.reverse, c.firstSerial⟩
  rw [if_pos htaken] at hdeclare
  rw [Session.load, hentries, result_declareEntries_append _ hbefore, declareEntries]
  exact (run_bind_of_error (congrArg Outcome.result hdeclare) _).1

theorem Session.open?_eq_error_iff {c : Catalog} {d : Diagnostic} :
    Session.open? c = .error d ↔ ∃ n, c.FirstRepeat n ∧ d = ⟨.alreadyDeclared n, none⟩ := by
  have hrefused : ∀ n, c.FirstRepeat n → Session.open? c = .error ⟨.alreadyDeclared n, none⟩ := by
    intro n hn
    simp only [Session.open?, hn.load]
  constructor
  · intro h
    by_cases hnd : c.names.Nodup
    · rw [Session.open?_eq_ok_iff.mpr ⟨hnd, rfl⟩] at h
      cases h
    · obtain ⟨n, hn⟩ := Catalog.exists_firstRepeat hnd
      have hd := (hrefused n hn).symm.trans h
      exact ⟨n, hn, (Except.error.inj hd).symm⟩
  · rintro ⟨n, hn, rfl⟩
    exact hrefused n hn

/-! ## 3. The open session -/

theorem Session.bindings_loaded (c : Catalog) :
    (Session.loaded c).scopes.inner.bindings.Perm c.entries := by
  show (c.entries.reverse ++ []).Perm c.entries
  rw [List.append_nil]
  exact c.entries.reverse_perm

/-- **Opening a session agrees with the catalog.** It succeeds exactly when the names of the entries
    differ from each other. It is refused exactly with the name of the first entry that repeats one,
    in words and without a place. Once it is open, every name denotes the entity that the catalog
    has for it, or nothing where the catalog has nothing; the root is the only scope, and its
    bindings are the entries. -/
theorem opening_agrees_with_catalog (c : Catalog) :
    ((∃ s, Session.open? c = .ok s) ↔ c.names.Nodup) ∧
    (∀ d, Session.open? c = .error d ↔
      ∃ n, c.FirstRepeat n ∧ d = ⟨.alreadyDeclared n, none⟩ ∧
        d.report = ⟨"Identifier " ++ n ++ " already declared", none⟩) ∧
    (∀ s, Session.open? c = .ok s →
      (∀ n, s.scopes.lookup? n = c.get? n) ∧
      s.scopes.depth = 0 ∧ (∀ n, s.scopes.inner.find? n = c.get? n) ∧
      s.scopes.inner.bindings.Perm c.entries) := by
  refine ⟨⟨?_, ?_⟩, fun d => ⟨?_, ?_⟩, ?_⟩
  · intro ⟨s, hs⟩
    exact (Session.open?_eq_ok_iff.mp hs).1
  · intro hnd
    exact ⟨Session.loaded c, Session.open?_eq_ok_iff.mpr ⟨hnd, rfl⟩⟩
  · intro herror
    obtain ⟨n, hn, hd⟩ := Session.open?_eq_error_iff.mp herror
    have hreport : d.report = ⟨"Identifier " ++ n ++ " already declared", none⟩ := by
      rw [hd]
      rfl
    exact ⟨n, hn, hd, hreport⟩
  · intro ⟨n, hn, hd, _⟩
    exact Session.open?_eq_error_iff.mpr ⟨n, hn, hd⟩
  · intro s hs
    obtain ⟨hnd, hloaded⟩ := Session.open?_eq_ok_iff.mp hs
    subst hloaded
    exact ⟨Session.lookup?_loaded hnd, rfl, Session.find?_loaded hnd, Session.bindings_loaded c⟩

/-- A constant under two names, where the second name comes with the entity of the first. -/
def aliasedConstant : Catalog :=
  Catalog.empty |>.addType "int" .int |>.addConstant "e" .float
    |>.add "euler" (.var ⟨.library 1, "e", true, .float⟩)

/-- The same with two more entries, each of which repeats a name. -/
def repeatedNames : Catalog := aliasedConstant |>.addFunction "e" ⟨[], .void⟩ |>.addType "int" .bool

/-- Both names of the constant denote one entity. With repeated names, the constant's own name is
    reported: the entry that repeats it comes before the one that repeats the type. -/
theorem opening_agrees_repeatedNames :
    (∃ s, Session.open? aliasedConstant = .ok s ∧
      s.scopes.lookup? "e" = some (.var ⟨.library 1, "e", true, .float⟩) ∧
      s.scopes.lookup? "euler" = s.scopes.lookup? "e" ∧ s.scopes.lookup? "π" = none) ∧
    ∃ d, Session.open? repeatedNames = .error d ∧
      d.report = ⟨"Identifier e already declared", none⟩ := by
  obtain ⟨hopens, -, hopen⟩ := opening_agrees_with_catalog aliasedConstant
  obtain ⟨-, hrefused, -⟩ := opening_agrees_with_catalog repeatedNames
  constructor
  · obtain ⟨s, hs⟩ := hopens.mpr (by decide)
    obtain ⟨hlookup, -⟩ := hopen s hs
    refine ⟨s, hs, ?_, ?_, ?_⟩
    · rw [hlookup]
      rfl
    · rw [hlookup, hlookup]
      rfl
    · rw [hlookup]
      rfl
  · have hfirst : repeatedNames.FirstRepeat "e" :=
      ⟨aliasedConstant.entries, _, _, rfl, by decide, by decide⟩
    exact ⟨_, (hrefused _).mpr ⟨"e", hfirst, rfl, rfl⟩, rfl⟩

end Sema
