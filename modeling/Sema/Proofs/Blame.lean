import Sema.Proofs.Fault
import Sema.Proofs.Wording

/-!
# Every diagnostic blames a guilty node

An analysis that fails on a program stops at a statement that has started and in which a node is at
fault (`Stmt.Stops`). The induction follows the watched check: each statement is refused for a
fault of its own, or it is a function, a loop or a branch and a statement inside it is refused.

`analyze_blames_guilty_node` puts this together: without a place only the catalog is blamed, and any
other diagnostic points at a node that is at fault, in the first statement of the program with which
it is rejected.
-/

namespace Sema

open Check Watch

/-! ## 1. Statements that stop an analysis -/

/-- Of the statements noted in `K`, one at `here` or further inside is refused with `d`, and a node
    in it is at fault. -/
def RefusedIn (c : Catalog) (p : Program) (K : List Moment) (here : Place) (d : Diagnostic) :
    Prop :=
  ∃ q s σ, .started q s σ ∈ K ∧ here <:+ q ∧ (s.check.run σ).result = .error d ∧
    FaultIn c p σ.scopes q d

/-- The statements `ss` of the block at `here`, from number `i` on, are refused with `d`: one of
    them is, after those before it are accepted, and the statement at fault is that one or lies in
    it. -/
def Stmt.Stops (c : Catalog) (p : Program) (K : List Moment) (here : Place) (i : Nat)
    (ss : List Stmt) (σ : Session) (d : Diagnostic) : Prop :=
  ∃ (j : Nat) (s : Stmt) (rs : List Resolved.Stmt) (τ : Session), ss[j]? = some s ∧
    (Stmt.checkAll (ss.take j)).Yields σ rs τ ∧ (s.check.run τ).result = .error d ∧
    RefusedIn c p K (.item (i + j) :: here) d

/-- Every statement that starts stands at its place. -/
def AllStand (c : Catalog) (p : Program) (K : List Moment) : Prop :=
  ∀ here s σ, .started here s σ ∈ K → Stands c p K here s σ

section

variable {c : Catalog} {p : Program} {K : List Moment} {here there : Place} {d : Diagnostic}

theorem FaultIn.refusedIn {s : Stmt} {σ : Session} (hfault : FaultIn c p σ.scopes here d)
    (hstart : .started here s σ ∈ K) (h : (s.check.run σ).result = .error d) :
    RefusedIn c p K here d := ⟨here, s, σ, hstart, List.suffix_refl _, h, hfault⟩

theorem RefusedIn.outer (h : RefusedIn c p K there d) (hsuffix : here <:+ there) :
    RefusedIn c p K here d := by
  obtain ⟨q, s, σ, hstart, hq, hrest⟩ := h
  exact ⟨q, s, σ, hstart, hsuffix.trans hq, hrest⟩

theorem Stmt.Stops.refusedIn {i : Nat} {ss : List Stmt} {σ : Session}
    (h : Stmt.Stops c p K here i ss σ d) : RefusedIn c p K here d := by
  obtain ⟨j, s, rs, τ, _, _, _, hinside⟩ := h
  exact hinside.outer (List.suffix_cons _ _)

mutual

theorem Stmt.refusedIn (hK : AllStand c p K) : ∀ (s : Stmt) (here : Place) (σ : Session),
    .started here s σ ∈ K → (s.watch here).Notes σ (· ∈ K) →
    (s.check.run σ).result = .error d → RefusedIn c p K here d
  | .function name parameters result body span, here, σ, hstart, hnoted, h => by
      have hs := hK _ _ _ hstart
      rcases Stmt.error_cases_function h with hresult | hparameters | ⟨hname, rfl⟩ | hbody
      · exact (hs.faultIn_result hresult).refusedIn hstart h
      · exact (hs.faultIn_parameters hparameters).refusedIn hstart h
      · exact (hs.faultIn_name hname).refusedIn hstart h
      · obtain ⟨ds, f, τ, hhead, hbody⟩ := hbody
        have hnotes := (Stmt.notes_function.mp hnoted ds f τ hhead).2
        have hstops := Stmt.stops hK body (.body :: here) 0 τ hnotes hbody
        exact hstops.refusedIn.outer (List.suffix_cons _ _)
  | .branch b, here, σ, hstart, hnoted, h => by
      have hs := hK _ _ _ hstart
      have hb : (b.check.run σ).result = .error d := by
        rw [Stmt.check] at h
        exact Check.result_bind_pure_eq_error.mp h
      have hsight := hs.sight.turn hs.place (t := .branch) (fun _ => rfl) rfl
      rcases b.refusedIn hK (.branch :: here) σ (Focus.at?_cons hs.place _) hsight
        (Stmt.notes_branch.mp hnoted) hb with hfault | hinside
      · exact (hfault.outer (List.suffix_cons _ _)).refusedIn hstart h
      · exact hinside.outer (List.suffix_cons _ _)
  | .whileLoop test body span, here, σ, hstart, hnoted, h => by
      have hs := hK _ _ _ hstart
      have h' := h
      rw [Stmt.check] at h'
      rcases Check.result_bind_eq_error.mp h' with htest | ⟨t, τ, ht, hbody⟩
      · have hfault := faultIn_checkTest hs.place hs.sight List.mem_cons_self htest
        exact hfault.refusedIn hstart h
      · have hbody := Stmt.error_inScope (Check.result_bind_pure_eq_error.mp hbody)
        have hnotes := Stmt.notes_whileLoop.mp hnoted t τ ht
        have hstops := Stmt.stops hK body (.body :: here) 0 _ hnotes hbody
        exact hstops.refusedIn.outer (List.suffix_cons _ _)
  | .forEach iterator collection body span, here, σ, hstart, hnoted, h => by
      have hs := hK _ _ _ hstart
      rcases Stmt.error_cases_forEach h with hcollection | ⟨r, element, v, τ, hr, hv, hbody⟩
      · have hfault := faultIn_checkCollection hs.place hs.sight List.mem_cons_self hcollection
        exact hfault.refusedIn hstart h
      · have hnotes := Stmt.notes_forEach.mp hnoted r element σ hr v τ hv
        have hstops := Stmt.stops hK body (.body :: here) 0 τ hnotes hbody
        exact hstops.refusedIn.outer (List.suffix_cons _ _)
  | .declare x readOnly init span, here, σ, hstart, _, h =>
      ((hK _ _ _ hstart).faultIn_declare h).refusedIn hstart h
  | .step dir target span, here, σ, hstart, _, h =>
      ((hK _ _ _ hstart).faultIn_step h).refusedIn hstart h
  | .assign target source span, here, σ, hstart, _, h =>
      ((hK _ _ _ hstart).faultIn_assign h).refusedIn hstart h
  | .exitLoop span, here, σ, hstart, _, h =>
      ((hK _ _ _ hstart).faultIn_exitLoop h).refusedIn hstart h
  | .returnValue value span, here, σ, hstart, _, h =>
      ((hK _ _ _ hstart).faultIn_returnValue h).refusedIn hstart h
  | .returnNothing span, here, σ, hstart, _, h =>
      ((hK _ _ _ hstart).faultIn_returnNothing h).refusedIn hstart h
  | .eval e span, here, σ, hstart, _, h =>
      ((hK _ _ _ hstart).faultIn_eval h).refusedIn hstart h

/-- An `if` is refused for a test, its own or that of an *else if*, or for a statement inside. -/
theorem Branch.refusedIn (hK : AllStand c p K) : ∀ (b : Branch) (here : Place) (σ : Session),
    (Focus.block p).at? here = some (.branch b) → Scoped c p here σ.scopes.env →
    (b.watch here).Notes σ (· ∈ K) → (b.check.run σ).result = .error d →
    FaultIn c p σ.scopes here d ∨ RefusedIn c p K here d
  | .mk test consequent alternate span, here, σ, hat, hsight, hnoted, h => by
      rw [Branch.check] at h
      rcases Check.result_bind_eq_error.mp h with htest | ⟨t, τ, ht, hrest⟩
      · exact .inl (faultIn_checkTest hat hsight List.mem_cons_self htest)
      obtain ⟨hconsequent, halternate⟩ := Branch.notes_mk.mp hnoted t τ ht
      obtain ⟨-, rfl⟩ := yields_checkTest.mp ht
      rcases Check.result_bind_eq_error.mp hrest with hbody | ⟨rs, υ, hrs, hrest⟩
      · have hstops := Stmt.stops hK consequent (.consequent :: here) 0 _ hconsequent
          (Stmt.error_inScope hbody)
        exact .inr (hstops.refusedIn.outer (List.suffix_cons _ _))
      · -- the block has been left, so the scopes are those of the `if` again
        have hscopes : υ.scopes = τ.scopes := by
          have hυ := (yields_inScope_checkAll fun u => Stmt.yields_checkAll consequent _ _ u).mp hrs
          rw [hυ.2.2]
        rw [← hscopes] at hsight ⊢
        exact alternate.refusedIn hK here υ hat hsight (halternate rs υ hrs)
          (Check.result_bind_pure_eq_error.mp hrest)

/-- What follows `else` in the `if` at a place. -/
theorem Alternate.refusedIn (hK : AllStand c p K) : ∀ (a : Alternate) (here : Place) (σ : Session)
    {test : Expr} {consequent : List Stmt} {span : Span},
    (Focus.block p).at? here = some (.branch (.mk test consequent a span)) →
    Scoped c p here σ.scopes.env → (a.watch (.alternate :: here)).Notes σ (· ∈ K) →
    (a.check.run σ).result = .error d → FaultIn c p σ.scopes here d ∨ RefusedIn c p K here d
  | .none, _, _, _, _, _, _, _, _, h => by cases h
  | .block body, here, σ, _, _, _, hat, hsight, hnoted, h => by
      rw [Alternate.check] at h
      have hstops := Stmt.stops hK body (.alternate :: here) 0 _ (Alternate.notes_block.mp hnoted)
        (Stmt.error_inScope (Check.result_bind_pure_eq_error.mp h))
      exact .inr (hstops.refusedIn.outer (List.suffix_cons _ _))
  | .elseIf next, here, σ, _, _, _, hat, hsight, hnoted, h => by
      rw [Alternate.check] at h
      have hnext := hsight.turn hat (t := .alternate) (fun _ => rfl) rfl
      rcases next.refusedIn hK (.alternate :: here) σ (Focus.at?_cons hat _) hnext
        (Alternate.notes_elseIf.mp hnoted) (Check.result_bind_pure_eq_error.mp h) with
        hfault | hinside
      · exact .inl (hfault.outer (List.suffix_cons _ _))
      · exact .inr (hinside.outer (List.suffix_cons _ _))

/-- **Statements that are refused stop at one that is at fault.** -/
theorem Stmt.stops (hK : AllStand c p K) : ∀ (ss : List Stmt) (here : Place) (i : Nat)
    (σ : Session), (Stmt.watchAll here i ss).Notes σ (· ∈ K) →
    ((Stmt.checkAll ss).run σ).result = .error d → Stmt.Stops c p K here i ss σ d
  | [], _, _, _, _, h => by cases h
  | s :: ss, here, i, σ, hnoted, h => by
      obtain ⟨hstart, hs, hrest⟩ := Stmt.notes_cons.mp hnoted
      rw [Stmt.checkAll] at h
      rcases Check.result_bind_eq_error.mp h with herror | ⟨r, τ, hr, h⟩
      · have hinside := s.refusedIn hK (.item i :: here) σ hstart hs herror
        exact ⟨0, s, [], σ, rfl, ⟨rfl, rfl⟩, herror, hinside⟩
      · obtain ⟨j, s', rs, υ, hs', hrs, herror, hinside⟩ := Stmt.stops hK ss here (i + 1) τ
          (hrest r τ hr) (Check.result_bind_pure_eq_error.mp h)
        rw [Nat.add_right_comm] at hinside
        exact ⟨j + 1, s', r :: rs, υ, hs', Stmt.yields_cons hr hrs, herror, hinside⟩

end

end

/-! ## 2. The first statement with which a program is rejected -/

/-- The node `n` is guilty of `d`: in the analysis of the program, a statement that is number `i` or
    lies in it is refused with `d`, and inside that statement `n` is at fault for just this
    reason. -/
def Guilty (c : Catalog) (p : Program) (i : Nat) (n : Node) (d : Diagnostic) : Prop :=
  ∃ q stmt σ there f, .started q stmt σ ∈ (Session.loaded c).moments p ∧ [.item i] <:+ q ∧
    (stmt.check.run σ).result = .error d ∧ q <:+ there ∧ (Focus.block p).at? there = some f ∧
    n ∈ f.nodes ∧ (Misplaced c p there f n d.problem ∨ Mistyped σ.scopes f n d.problem)

/-- The diagnostic points at a guilty node in the first statement with which the program is
    rejected: up to that statement every part of the program is accepted, and with it the diagnostic
    is the same. The message says what the node is guilty of. -/
def BlamesNode (c : Catalog) (p : Program) (d : Diagnostic) : Prop :=
  ∃ (i : Nat) (s : Stmt) (n : Node), p[i]? = some s ∧
    (∀ k ≤ i, ∃ R, (analyze c (p.take k)).result = .ok R) ∧
    (analyze c (p.take (i + 1))).result = .error d ∧
    n ∈ s.nodes ∧ d.report = ⟨d.problem.message, some n.span⟩ ∧ d.Reads ∧ Guilty c p i n d

section

variable {c : Catalog} {p : Program} {d : Diagnostic}

theorem Session.allStand (h : c.names.Nodup) (p : Program) :
    AllStand c p ((Session.loaded c).moments p) := by
  have hreached : (Session.loaded c).Reached c := .opened (Session.open?_eq_ok_iff.mpr ⟨h, rfl⟩)
  intro here s σ hstart
  obtain ⟨hplace, hlexical, -⟩ := hreached.follows p _ hstart
  exact ⟨hplace, Session.scoped_moments h p _ hstart, hlexical⟩

/-- Once the catalog is loaded, a diagnostic blames a node. -/
theorem blamesNode_of_nodup (h : c.names.Nodup) (hd : (analyze c p).result = .error d) :
    BlamesNode c p d := by
  rw [result_analyze_of_nodup h] at hd
  have hpoints := (Stmt.tame_checkAll p).points _ d hd
  have hstops := Stmt.stops (Session.allStand h p) p [] 0 _ (fun _ hm => hm) hd
  obtain ⟨i, s, rs, τ, hs, hrs, herror, hinside⟩ := hstops
  rw [Nat.zero_add] at hinside
  obtain ⟨q, stmt, σ, hstart, hq, hrefused, there, f, hthere, hat, n, hspan, hfault⟩ := hinside
  have hn : n ∈ f.nodes := hfault.elim Misplaced.mem_nodes Mistyped.mem_nodes
  have hitem : (Focus.block p).at? [.item i] = some (.stmt s) := congrArg (Option.map Focus.stmt) hs
  refine ⟨i, s, n, hs, fun k hk => ?_, ?_, ?_, ?_, Diagnostic.reads hpoints.2, ?_⟩
  · obtain ⟨R, τ', hR⟩ := Stmt.exists_yields_take hrs k
    rw [List.take_take, Nat.min_eq_left hk] at hR
    exact ⟨R, (result_analyze_of_nodup h _).trans hR.1⟩
  · have hlast : ((Stmt.checkAll [s]).run τ).result = .error d := by
      rw [Stmt.checkAll]
      exact (run_bind_of_error herror _).1
    rw [result_analyze_of_nodup h, List.take_add_one, hs]
    show ((Stmt.checkAll (p.take i ++ [s])).run _).result = _
    rw [(Stmt.run_append hrs [s]).1, hlast]
    rfl
  · exact Focus.nodes_subset_of_suffix hitem (hq.trans hthere) hat hn
  · rw [Diagnostic.report, hspan]
  · exact ⟨q, stmt, σ, there, f, hstart, hq, hrefused, hthere, hat, hn, hfault⟩

end

/-- **Every diagnostic blames a guilty node.** One without a place is given exactly when the catalog
    names something twice. -/
theorem analyze_blames_guilty_node (c : Catalog) (p : Program) :
    ((∃ d, (analyze c p).result = .error d ∧ d.span = none) ↔ ¬ c.names.Nodup) ∧
      ∀ d, (analyze c p).result = .error d → d.span ≠ none → BlamesNode c p d := by
  by_cases h : c.names.Nodup
  · have hblames : ∀ d, (analyze c p).result = .error d → BlamesNode c p d :=
      fun d hd => blamesNode_of_nodup h hd
    refine ⟨⟨?_, fun hnot => absurd h hnot⟩, fun d hd _ => hblames d hd⟩
    rintro ⟨d, hd, hnone⟩
    obtain ⟨i, s, n, -, -, -, -, hreport, -⟩ := hblames d hd
    have hspan : d.span = some n.span := congrArg Report.span hreport
    rw [hnone] at hspan
    cases hspan
  · obtain ⟨name, hname⟩ := result_analyze_of_not_nodup h p
    refine ⟨⟨fun _ => h, fun _ => ⟨_, hname, rfl⟩⟩, fun d hd hsome => ?_⟩
    rw [hname] at hd
    cases hd
    exact absurd rfl hsome

/-- In a loop, in an *else if*, a function whose first parameter has the name of a type that its
    second parameter mentions. An exit outside the loop would be refused too. -/
def hiddenType : Program :=
  [.declare "n" false (.int 0 .origin) .origin,
   .whileLoop (.bool true .origin)
    [.branch (.mk (.bool false .origin) [.exitLoop .origin]
      (.elseIf (.mk (.bool true .origin)
        [.function "f" [⟨"int", .named "int" (.ofOffsets 10 13), .ofOffsets 5 13⟩,
          ⟨"m", .list (.named "int" (.ofOffsets 19 22)) (.ofOffsets 18 23), .ofOffsets 15 23⟩]
          none [] .origin] .none .origin)) .origin)] .origin,
   .exitLoop .origin]

/-- The blame lies with the second mention of the type, which the parameter hides. -/
theorem analyze_blames_guilty_node_hiddenType :
    (analyze .standard hiddenType).result =
        .error ⟨.typeExpected, some (.ofOffsets 19 22)⟩ ∧
      (∃ f, (Focus.block hiddenType).at?
            [.item 0, .consequent, .alternate, .branch, .item 0, .body, .item 1] = some f ∧
          designatedIn hiddenType "int"
              [.item 0, .consequent, .alternate, .branch, .item 0, .body, .item 1] f
              (.parameter 1) =
            some ⟨[.item 0, .consequent, .alternate, .branch, .item 0, .body, .item 1],
              .parameter 0⟩) ∧
      BlamesNode .standard hiddenType ⟨.typeExpected, some (.ofOffsets 19 22)⟩ := by
  have herror : (analyze .standard hiddenType).result =
      .error ⟨.typeExpected, some (.ofOffsets 19 22)⟩ := rfl
  exact ⟨herror, ⟨_, rfl, rfl⟩, (analyze_blames_guilty_node .standard hiddenType).2 _ herror nofun⟩

end Sema
