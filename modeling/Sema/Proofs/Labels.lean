import Mathlib.Logic.Equiv.Basic
import Sema.Proofs.Acceptance
import Sema.Proofs.Uniform

/-!
# What names and spans are for

Two readings of `analyze_relabel`. Names only have to be told apart: an injective renaming of a
program and of its catalog renames what the analysis comes to, and nothing else
(`analyze_commutes_with_renaming`). Spans are not even told apart: any function on spans can be
applied before the analysis or after it, for one program and for a session of programs
(`spans_are_carried`).
-/

namespace Sema

/-! ## 1. Names -/

/-- The name that the wording of a problem quotes. -/
def Problem.quoted? : Problem → Option String
  | notDeclared name | alreadyDeclared name | constantTarget name => some name
  | fault (.alreadyDeclared name) => some name
  | _ => none

/-- The second problem has the wording of the first, with `r` applied to the quoted name and to
    nothing else. -/
def Problem.Rewords (r : String → String) (p q : Problem) : Prop :=
  match p.quoted? with
  | none => q.message = p.message
  | some x => ∃ before after, p.message = before ++ x ++ after ∧ q.message = before ++ r x ++ after

theorem Problem.rewords_relabel (r : String → String) (p : Problem) :
    p.Rewords r (p.relabel r) := by
  cases p with
  | notDeclared x => exact ⟨"Identifier ", " not declared", rfl, rfl⟩
  | alreadyDeclared x => exact ⟨"Identifier ", " already declared", rfl, rfl⟩
  | constantTarget x =>
      exact ⟨"Cannot assign to constant ", "", String.append_empty.symm, String.append_empty.symm⟩
  | fault reason =>
      cases reason with
      | alreadyDeclared x => exact ⟨"Identifier ", " already declared", rfl, rfl⟩
      | notOpen count index => rfl
      | atRoot => rfl
  | _ => rfl

/-- **Names matter up to equality.** Where names are replaced by others, different ones by different
    ones, in a program and in its catalog, the analysis is the same with the names replaced: it
    accepts what it accepted and resolves it to the renamed tree, and it refuses what it refused, at
    the same place and with the same wording but for the quoted name. -/
theorem analyze_commutes_with_renaming (r : String → String) (hr : r.Injective) (c : Catalog)
    (p : Program) :
    (∀ S, (analyze (c.relabel r) (Stmt.relabelAll r id p)).result = .ok S ↔
        ∃ R, (analyze c p).result = .ok R ∧ S = Resolved.Stmt.relabelAll r R) ∧
      ∀ e, (analyze (c.relabel r) (Stmt.relabelAll r id p)).result = .error e ↔
        ∃ d, (analyze c p).result = .error d ∧ e.span = d.span ∧
          e.problem = d.problem.relabel r ∧ d.problem.Rewords r e.problem := by
  have hanalyze : (analyze (c.relabel r) (Stmt.relabelAll r id p)).result =
      relabelResult r id (Resolved.Stmt.relabelAll r) (analyze c p).result :=
    congrArg Traced.result (analyze_relabel hr c p)
  rw [hanalyze]
  cases (analyze c p).result with
  | ok R => simp [relabelResult, eq_comm]
  | error d =>
      have hd : d.relabel r id = ⟨d.problem.relabel r, d.span⟩ :=
        congrArg (Diagnostic.mk _) Option.map_id_apply
      refine ⟨by simp [relabelResult], fun e => ?_⟩
      rw [relabelResult, hd, Except.error.injEq]
      refine ⟨fun he => ?_, fun he => ?_⟩
      · subst he
        exact ⟨d, rfl, rfl, rfl, d.problem.rewords_relabel r⟩
      · obtain ⟨d', hd', hspan, hproblem, _⟩ := he
        obtain rfl : d = d' := Except.error.inj hd'
        rw [← hspan, ← hproblem]

/-- The standard library and two programs, one accepted and one refused, with the name of a
    parameter and the name of a type exchanged. -/
theorem analyze_commutes_with_renaming_swap :
    Function.Injective (Equiv.swap "n" "int") ∧
      (∃ R, (analyze .standard shadowing).result = .ok R ∧
        (analyze (Catalog.standard.relabel (Equiv.swap "n" "int"))
          (Stmt.relabelAll (Equiv.swap "n" "int") id shadowing)).result =
            .ok (Resolved.Stmt.relabelAll (Equiv.swap "n" "int") R)) ∧
      ∃ e, (analyze (Catalog.standard.relabel (Equiv.swap "n" "int"))
          (Stmt.relabelAll (Equiv.swap "n" "int") id selfReference)).result = .error e ∧
        e.problem.message = "Identifier int not declared" := by
  have hswap : Function.Injective (Equiv.swap "n" "int") := Equiv.injective _
  obtain ⟨R, hR⟩ : ∃ R, (analyze .standard shadowing).result = .ok R := ⟨_, rfl⟩
  obtain ⟨d, hd, hproblem⟩ : ∃ d, (analyze .standard selfReference).result = .error d ∧
    d.problem = .notDeclared "n" := ⟨_, rfl, rfl⟩
  refine ⟨hswap, ⟨R, hR, ?_⟩, ⟨d.problem.relabel (Equiv.swap "n" "int"), d.span⟩, ?_, ?_⟩
  · exact ((analyze_commutes_with_renaming _ hswap .standard shadowing).1 _).mpr ⟨R, hR, rfl⟩
  · exact ((analyze_commutes_with_renaming _ hswap .standard selfReference).2 _).mpr
      ⟨d, hd, rfl, rfl, d.problem.rewords_relabel _⟩
  · show (d.problem.relabel (Equiv.swap "n" "int")).message = _
    rw [hproblem]
    decide

/-! ## 2. Spans -/

/-- A result without names to replace: only the span of a diagnostic changes. -/
theorem relabelResult_id {f : Span → Span} (result : Except Diagnostic Resolved.Program) :
    relabelResult id f (Resolved.Stmt.relabelAll id) result =
      result.mapError fun d => ⟨d.problem, d.span.map f⟩ := by
  cases result with
  | ok R => exact congrArg Except.ok (Resolved.Stmt.relabelAll_id R)
  | error d =>
      show Except.error (d.relabel id f) = _
      unfold Diagnostic.relabel
      rw [d.problem.relabel_id]
      rfl

/-- **Spans are only carried.** A function on spans applied throughout a program is the same as that
    function applied to the span of the diagnostic: the tree of an accepted program stays, and so do
    the problem of a refused one and the lack of a span where there is none. In a session of
    programs this holds at every step, and the session that a step leaves stays too. -/
theorem spans_are_carried (f : Span → Span) :
    (∀ (c : Catalog) (p : Program), (analyze c (Stmt.relabelAll id f p)).result =
        (analyze c p).result.mapError fun d => ⟨d.problem, d.span.map f⟩) ∧
      ∀ (s : Session) (ps : List Program),
        ((s.outcomes (ps.map (Stmt.relabelAll id f))).map fun o => (o.result, o.session)) =
          (s.outcomes ps).map fun o =>
            (o.result.mapError fun d => ⟨d.problem, d.span.map f⟩, o.session) := by
  refine ⟨fun c p => ?_, fun s ps => ?_⟩
  · have hanalyze := congrArg Traced.result (analyze_relabel (f := f) Function.injective_id c p)
    rw [c.relabel_id] at hanalyze
    exact hanalyze.trans (relabelResult_id _)
  · have houtcomes := Session.outcomes_relabel (f := f) Function.injective_id ps s
    rw [s.relabel_id] at houtcomes
    rw [houtcomes, List.map_map]
    refine List.map_congr_left fun o _ => ?_
    show (relabelResult id f (Resolved.Stmt.relabelAll id) o.result, o.session.relabel id) = _
    rw [relabelResult_id, o.session.relabel_id]

end Sema
