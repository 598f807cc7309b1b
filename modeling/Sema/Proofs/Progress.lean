import Sema.Proofs.Refusal
import Sema.Proofs.Watch

/-!
# How far a check gets

The moments of an analysis say which statements were checked.

* Where a part is accepted, every statement in it has been checked (`Visited.exists_at`).
* Where a program is refused, the check stops at a place (`Stops`): the statements that come before
  that place have been checked and are accepted, those around it have been checked and are refused,
  all with the diagnostic that is reported, and no other statement has been checked
  (`Session.stops`).

The place is that of a statement, or of an `if` that follows `else`, whose test is checked when the
blocks before it have been.
-/

namespace Sema

open Check Watch

/-! ## 1. Parts that are accepted -/

/-- A part of a program has been checked, with success, in an analysis that notes `K`. -/
inductive Visited (K : List Moment) : Place → Focus → Resolved.Focus → Prop where
  | block {here : Place} {ss : List Stmt} {rs : List Resolved.Stmt} {σ τ : Session}
      (yields : (Stmt.checkAll ss).Yields σ rs τ)
      (noted : (Stmt.watchAll here 0 ss).Notes σ (· ∈ K)) : Visited K here (.block ss) (.block rs)
  | stmt {here : Place} {s : Stmt} {r : Resolved.Stmt} {σ τ : Session}
      (start : .started here s σ ∈ K) (yields : s.check.Yields σ r τ)
      (noted : (s.watch here).Notes σ (· ∈ K)) : Visited K here (.stmt s) (.stmt r)
  | branch {here : Place} {b : Branch} {r : Resolved.Branch} {σ τ : Session}
      (yields : b.check.Yields σ r τ) (noted : (b.watch here).Notes σ (· ∈ K)) :
      Visited K here (.branch b) (.branch r)

section

variable {K : List Moment} {σ τ : Session}

theorem Visited.item {here : Place} : ∀ {ss : List Stmt} {i j : Nat} {rs : List Resolved.Stmt}
    {s : Stmt} {σ τ : Session}, (Stmt.checkAll ss).Yields σ rs τ →
    (Stmt.watchAll here i ss).Notes σ (· ∈ K) → ss[j]? = some s →
    ∃ r, rs[j]? = some r ∧ Visited K (.item (i + j) :: here) (.stmt s) (.stmt r)
  | [], _, _, _, _, _, _, _, _, hs => by cases hs
  | s :: ss, i, j, rs, _, σ, τ, hyields, hnoted, hs => by
      obtain ⟨r, rs, υ, hr, hrs, rfl⟩ := Stmt.exists_of_yields_cons hyields
      obtain ⟨hstart, hhead, htail⟩ := Stmt.notes_cons.mp hnoted
      cases j with
      | zero =>
          cases hs
          exact ⟨r, rfl, .stmt hstart hr hhead⟩
      | succ j =>
          have hnext := Visited.item hrs (htail r υ hr) hs
          rwa [Nat.add_right_comm] at hnext

/-- From a block in a new scope to its statements. -/
theorem Visited.inScope {kind : ScopeKind} {here : Place} {ss : List Stmt}
    {rs : List Resolved.Stmt} (hyields : (Check.inScope kind (Stmt.checkAll ss)).Yields σ rs τ)
    (hnoted : (Stmt.watchAll here 0 ss).Notes (σ.enter kind) (· ∈ K)) :
    Visited K here (.block ss) (.block rs) := by
  obtain ⟨υ, _, _, hrs, _⟩ := yields_inScope.mp hyields
  exact .block hrs hnoted

theorem Visited.body {here : Place} {s : Stmt} {r : Resolved.Stmt} {body : List Stmt}
    (hyields : s.check.Yields σ r τ) (hnoted : (s.watch here).Notes σ (· ∈ K))
    (hbody : s.body? = some body) :
    ∃ rs, r.body? = some rs ∧ Visited K (.body :: here) (.block body) (.block rs) := by
  cases s with
  | function name parameters result body span =>
      cases hbody
      obtain ⟨ds, f, υ, rs, hhead, hrs, rfl⟩ := Stmt.exists_head hyields
      exact ⟨rs, rfl, .block ⟨hrs, rfl⟩ (Stmt.notes_function.mp hnoted ds f υ hhead).2⟩
  | whileLoop test body span =>
      cases hbody
      rw [Stmt.check] at hyields
      obtain ⟨t, υ, ht, hrest⟩ := yields_bind.mp hyields
      obtain ⟨rs, ω, hrs, hpure⟩ := yields_bind.mp hrest
      obtain ⟨rfl, rfl⟩ := yields_pure.mp hpure
      exact ⟨rs, rfl, .inScope hrs (Stmt.notes_whileLoop.mp hnoted t υ ht)⟩
  | forEach iterator collection body span =>
      cases hbody
      rw [Stmt.check] at hyields
      obtain ⟨⟨e, element⟩, υ, he, hrest⟩ := yields_bind.mp hyields
      obtain ⟨ω, _, _, hinside, _⟩ := yields_inScope.mp hrest
      obtain ⟨v, ν, hv, hrest⟩ := yields_bind.mp hinside
      obtain ⟨rs, _, hrs, hpure⟩ := yields_bind.mp hrest
      obtain ⟨rfl, rfl⟩ := yields_pure.mp hpure
      exact ⟨rs, rfl, .block hrs (Stmt.notes_forEach.mp hnoted e element υ he v ν hv)⟩
  | _ => cases hbody

theorem Visited.alternate {here : Place} {test : Expr} {consequent : List Stmt}
    {alternate : Alternate} {span : Span} {r : Resolved.Branch} {f : Focus}
    (hyields : (Branch.mk test consequent alternate span).check.Yields σ r τ)
    (hnoted : ((Branch.mk test consequent alternate span).watch here).Notes σ (· ∈ K))
    (hf : Focus.ofAlternate? alternate = some f) :
    ∃ g, (Resolved.Focus.branch r).child? .alternate = some g ∧
      Visited K (.alternate :: here) f g := by
  rw [Branch.check] at hyields
  obtain ⟨t, υ, ht, hrest⟩ := yields_bind.mp hyields
  obtain ⟨c, ω, hc, hrest⟩ := yields_bind.mp hrest
  obtain ⟨a, ν, ha, hpure⟩ := yields_bind.mp hrest
  obtain ⟨rfl, rfl⟩ := yields_pure.mp hpure
  have hnoted := (Branch.notes_mk.mp hnoted t υ ht).2 c ω hc
  cases alternate with
  | none => cases hf
  | block body =>
      cases hf
      rw [Alternate.check] at ha
      obtain ⟨rs, _, hrs, hpure⟩ := yields_bind.mp ha
      obtain ⟨rfl, rfl⟩ := yields_pure.mp hpure
      exact ⟨.block rs, rfl, .inScope hrs (Alternate.notes_block.mp hnoted)⟩
  | elseIf next =>
      cases hf
      rw [Alternate.check] at ha
      obtain ⟨b, _, hb, hpure⟩ := yields_bind.mp ha
      obtain ⟨rfl, rfl⟩ := yields_pure.mp hpure
      exact ⟨.branch b, rfl, .branch hb (Alternate.notes_elseIf.mp hnoted)⟩

theorem Visited.consequent {here : Place} {test : Expr} {consequent : List Stmt}
    {alternate : Alternate} {span : Span} {r : Resolved.Branch}
    (hyields : (Branch.mk test consequent alternate span).check.Yields σ r τ)
    (hnoted : ((Branch.mk test consequent alternate span).watch here).Notes σ (· ∈ K)) :
    ∃ g, (Resolved.Focus.branch r).child? .consequent = some g ∧
      Visited K (.consequent :: here) (.block consequent) g := by
  rw [Branch.check] at hyields
  obtain ⟨t, υ, ht, hrest⟩ := yields_bind.mp hyields
  obtain ⟨c, ω, hc, hrest⟩ := yields_bind.mp hrest
  obtain ⟨a, ν, ha, hpure⟩ := yields_bind.mp hrest
  obtain ⟨rfl, rfl⟩ := yields_pure.mp hpure
  exact ⟨.block c, rfl, .inScope hc (Branch.notes_mk.mp hnoted t υ ht).1⟩

/-- One turn, unless it leads to an expression. -/
theorem Visited.child {here : Place} {f f' : Focus} {g : Resolved.Focus} {t : Turn}
    (h : Visited K here f g) (hchild : f.child? t = some f') (hf' : ∀ e, f' ≠ .expr e) :
    ∃ g', g.child? t = some g' ∧ Visited K (t :: here) f' g' := by
  cases t with
  | part i =>
      rw [Focus.child?_part] at hchild
      obtain ⟨e, _, rfl⟩ := Option.map_eq_some_iff.mp hchild
      exact absurd rfl (hf' e)
  | item i =>
      cases h with
      | block hyields hnoted =>
          obtain ⟨s, hs, rfl⟩ := Option.map_eq_some_iff.mp hchild
          obtain ⟨r, hr, hvisited⟩ := Visited.item hyields hnoted hs
          rw [Nat.zero_add] at hvisited
          exact ⟨.stmt r, congrArg (Option.map _) hr, hvisited⟩
      | @stmt s => cases s <;> cases hchild
      | @branch b => cases b; cases hchild
  | body =>
      cases h with
      | block => cases hchild
      | stmt _ hyields hnoted =>
          obtain ⟨body, hbody, rfl⟩ := Option.map_eq_some_iff.mp hchild
          obtain ⟨rs, hrs, hvisited⟩ := Visited.body hyields hnoted hbody
          exact ⟨.block rs, congrArg (Option.map _) hrs, hvisited⟩
      | @branch b => cases b; cases hchild
  | branch =>
      cases h with
      | block => cases hchild
      | @stmt s _ _ _ _ hyields hnoted =>
          cases s with
          | branch b =>
              cases hchild
              rw [Stmt.check] at hyields
              obtain ⟨r, _, hr, hpure⟩ := yields_bind.mp hyields
              obtain ⟨rfl, rfl⟩ := yields_pure.mp hpure
              exact ⟨.branch r, rfl, .branch hr (Stmt.notes_branch.mp hnoted)⟩
          | _ => cases hchild
      | @branch b => cases b; cases hchild
  | consequent =>
      cases h with
      | block => cases hchild
      | @stmt s => cases s <;> cases hchild
      | @branch b _ _ _ hyields hnoted =>
          cases b
          cases hchild
          exact Visited.consequent hyields hnoted
  | alternate =>
      cases h with
      | block => cases hchild
      | @stmt s => cases s <;> cases hchild
      | @branch b _ _ _ hyields hnoted =>
          cases b
          exact Visited.alternate hyields hnoted hchild

/-- **In a part that is accepted, every statement has been checked**, and what it was resolved to
    stands at its place. -/
theorem Visited.exists_at {base : Place} {f₀ : Focus} {g₀ : Resolved.Focus}
    (h : Visited K base f₀ g₀) : ∀ {q : Place} {f : Focus}, f₀.at? q = some f →
      (∀ e, f ≠ .expr e) → ∃ g, g₀.at? q = some g ∧ Visited K (q ++ base) f g
  | [], f, hf, _ => by
      cases hf
      exact ⟨_, rfl, h⟩
  | t :: outer, f, hf, hne => by
      obtain ⟨f', hf', hchild⟩ := Option.bind_eq_some_iff.mp hf
      -- what is inside an expression is an expression
      have hne' : ∀ e, f' ≠ .expr e := by
        rintro e rfl
        cases t with
        | part i =>
            obtain ⟨e', _, rfl⟩ := Option.map_eq_some_iff.mp hchild
            exact hne e' rfl
        | _ => cases hchild
      obtain ⟨g', hg', hvisited⟩ := h.exists_at hf' hne'
      obtain ⟨g, hg, hvisited⟩ := hvisited.child hchild hne
      exact ⟨g, (Resolved.Focus.at?_cons hg' t).trans hg, hvisited⟩

/-- Every statement at a place and inside it has been checked, with success. -/
def Accepted (p : Program) (K : List Moment) (here : Place) : Prop :=
  ∀ q s, here <:+ q → (Focus.block p).at? q = some (.stmt s) →
    ∃ σ r, .started q s σ ∈ K ∧ (s.check.run σ).result = .ok r

theorem Visited.accepted {p : Program} {here : Place} {f : Focus} {g : Resolved.Focus}
    (h : Visited K here f g) (hat : (Focus.block p).at? here = some f) : Accepted p K here := by
  intro q s ⟨rest, hq⟩ hs
  rw [← hq, Focus.at?_append hat] at hs
  obtain ⟨g', -, hvisited⟩ := h.exists_at hs nofun
  rw [hq] at hvisited
  cases hvisited with
  | stmt hstart hyields _ => exact ⟨_, _, hstart, hyields.1⟩

end

/-! ## 2. The order of places -/

/-- Of two turns from one part, the first leads to what is checked earlier. -/
inductive Turn.Before : Turn → Turn → Prop where
  | item {i j : Nat} (h : i < j) : Before (.item i) (.item j)
  | alternate : Before .consequent .alternate

theorem Turn.not_before_self {t : Turn} : ¬ t.Before t := by
  intro h
  cases h with
  | item h => exact Nat.lt_irrefl _ h

namespace Place

/-- One place comes before another: from the part around both, an earlier turn leads to the
    first. -/
def Before (here there : Place) : Prop :=
  ∃ outer t u, (t :: outer) <:+ here ∧ (u :: outer) <:+ there ∧ t.Before u

theorem not_before_of_suffix {here q : Place} (h : here <:+ q) : ¬ q.Before here := by
  rintro ⟨outer, t, u, ht, hu, htu⟩
  rw [turn_eq ht (hu.trans h)] at htu
  exact Turn.not_before_self htu

/-- What comes before a place inside `t :: here` lies there too, or behind an earlier turn. -/
theorem Before.cases {here q last : Place} {t : Turn} (h : q.Before last) (hq : here <:+ q)
    (hlast : (t :: here) <:+ last) :
    (∃ u, u.Before t ∧ (u :: here) <:+ q) ∨ (t :: here) <:+ q := by
  obtain ⟨outer, u, v, hu, hv, huv⟩ := h
  have houter : outer <:+ last := (List.suffix_cons v outer).trans hv
  rcases Nat.lt_trichotomy outer.length here.length with hlt | heq | hgt
  · -- the two places part outside `here`, in which they both lie
    have hhere : (u :: outer) <:+ here := List.suffix_of_suffix_length_le hu hq hlt
    have hulast := (hhere.trans (List.suffix_cons t here)).trans hlast
    rw [turn_eq hulast hv] at huv
    exact absurd huv Turn.not_before_self
  · have hsame : outer = here :=
      (List.suffix_of_suffix_length_le ((List.suffix_cons u outer).trans hu) hq
        (Nat.le_of_eq heq)).eq_of_length heq
    subst hsame
    rw [turn_eq hv hlast] at huv
    exact .inl ⟨u, huv, hu⟩
  · have hinside : (t :: here) <:+ outer := List.suffix_of_suffix_length_le hlast houter hgt
    exact .inr ((hinside.trans (List.suffix_cons u outer)).trans hu)

end Place

/-! ## 3. Parts that are refused -/

/-- The check of the part at `here` stops at `last`, with `d`. -/
structure Stops (p : Program) (K : List Moment) (here last : Place) (d : Diagnostic) : Prop where
  inside : here <:+ last
  place : ∃ f, (Focus.block p).at? last = some f
  /-- What comes before has been checked, with success. -/
  before : ∀ (q : Place) (s : Stmt), here <:+ q → q.Before last →
    (Focus.block p).at? q = some (.stmt s) → ∃ σ r, .started q s σ ∈ K ∧
      (s.check.run σ).result = .ok r
  /-- What is around has been checked and is refused. -/
  around : ∀ (q : Place) (s : Stmt), here <:+ q → q <:+ last →
    (Focus.block p).at? q = some (.stmt s) → ∃ σ, .started q s σ ∈ K ∧
      (s.check.run σ).result = .error d

/-- A moment at a place that comes before `last` or is around it. -/
def Moment.UpTo (last : Place) (m : Moment) : Prop := m.mark.1.Before last ∨ m.mark.1 <:+ last

namespace Stops

variable {p : Program} {K : List Moment} {here last : Place} {d : Diagnostic} {f : Focus}

/-- A part that is refused for itself. -/
theorem self (hat : (Focus.block p).at? here = some f)
    (hself : ∀ s, f = .stmt s → ∃ σ, .started here s σ ∈ K ∧ (s.check.run σ).result = .error d) :
    Stops p K here here d where
  inside := List.suffix_refl here
  place := ⟨f, hat⟩
  before q s hq hbefore _ := absurd hbefore (Place.not_before_of_suffix hq)
  around q s hq haround hs := by
    obtain rfl : here = q := hq.eq_of_length_le haround.length_le
    exact hself s (Option.some.inj (hat.symm.trans hs))

/-- From a part to the one around it, in which all that comes earlier is accepted. -/
theorem outer {t : Turn} (h : Stops p K (t :: here) last d)
    (hat : (Focus.block p).at? here = some f)
    (hself : ∀ s, f = .stmt s → ∃ σ, .started here s σ ∈ K ∧ (s.check.run σ).result = .error d)
    (hearlier : ∀ u, u.Before t → Accepted p K (u :: here)) : Stops p K here last d where
  inside := (List.suffix_cons t here).trans h.inside
  place := h.place
  before q s hq hbefore hs := by
    rcases hbefore.cases hq h.inside with ⟨u, hu, hq⟩ | hq
    · exact hearlier u hu q s hq hs
    · exact h.before q s hq hbefore hs
  around q s hq haround hs := by
    rcases Nat.lt_or_ge here.length q.length with hlt | hle
    · exact h.around q s (List.suffix_of_suffix_length_le h.inside haround hlt) haround hs
    · obtain rfl : here = q := hq.eq_of_length_le hle
      exact hself s (Option.some.inj (hat.symm.trans hs))

/-- A statement that is refused for itself. -/
theorem ofStmt {s : Stmt} {σ : Session} (hat : (Focus.block p).at? here = some (.stmt s))
    (hstart : .started here s σ ∈ K) (hs : (s.check.run σ).result = .error d) :
    Stops p K here here d := by
  refine self hat fun s' hs' => ?_
  cases hs'
  exact ⟨σ, hstart, hs⟩

/-- From a part of a statement to the statement, where nothing else in it is checked earlier. -/
theorem ofInner {s : Stmt} {σ : Session} {t : Turn} (h : Stops p K (t :: here) last d)
    (ht : ∀ u, ¬ Turn.Before u t) (hat : (Focus.block p).at? here = some (.stmt s))
    (hstart : .started here s σ ∈ K) (hs : (s.check.run σ).result = .error d) :
    Stops p K here last d := by
  refine h.outer hat (fun s' hs' => ?_) fun u hu => absurd hu (ht u)
  cases hs'
  exact ⟨σ, hstart, hs⟩

end Stops

section

variable {p : Program} {K : List Moment} {d : Diagnostic}

theorem FunctionHead.unique {name : String} {parameters : List Parameter}
    {result : Option TypeExpr} {span : Span} {σ τ τ' : Session} {ds ds' : List Decl.Parameter}
    {f f' : Decl.Function} (h : FunctionHead name parameters result span σ ds f τ)
    (h' : FunctionHead name parameters result span σ ds' f' τ') : f = f' ∧ τ = τ' := by
  obtain ⟨ty, u, v, hty, hps, hf⟩ := h
  obtain ⟨ty', u', v', hty', hps', hf'⟩ := h'
  obtain ⟨rfl, rfl⟩ := hty.unique hty'
  obtain ⟨rfl, rfl⟩ := hps.unique hps'
  exact hf.unique hf'

/-- A statement with no statements in it. -/
theorem Stmt.stops_quiet {s : Stmt} {here : Place} {σ : Session}
    (hat : (Focus.block p).at? here = some (.stmt s)) (hstart : .started here s σ ∈ K)
    (h : (s.check.run σ).result = .error d) :
    ∃ last, Stops p K here last d ∧ (quiet s.check).Notes σ (Moment.UpTo last) :=
  ⟨here, .ofStmt hat hstart h, (notes_quiet _).mpr trivial⟩

mutual

theorem Stmt.stops_watch : ∀ (s : Stmt) (here : Place) (σ : Session),
    (Focus.block p).at? here = some (.stmt s) → .started here s σ ∈ K →
    (s.watch here).Notes σ (· ∈ K) → (s.check.run σ).result = .error d →
    ∃ last, Stops p K here last d ∧ (s.watch here).Notes σ (Moment.UpTo last)
  | .function name parameters result body span, here, σ, hat, hstart, hnoted, h => by
      by_cases hhead : ∃ ds f τ, FunctionHead name parameters result span σ ds f τ
      · obtain ⟨ds, f, τ, hhead⟩ := hhead
        obtain ⟨last, -, hstops, hnotes⟩ := Stmt.stops_watchAll body (.body :: here) 0 τ body rfl
          (Focus.at?_cons hat _) (Stmt.notes_function.mp hnoted ds f τ hhead).2 nofun
          (hhead.error_body h)
        have hstops := hstops.ofInner nofun hat hstart h
        refine ⟨last, hstops, Stmt.notes_function.mpr fun ds' f' τ' hhead' => ?_⟩
        obtain ⟨rfl, rfl⟩ := hhead.unique hhead'
        exact ⟨.inr hstops.inside, hnotes⟩
      · refine ⟨here, .ofStmt hat hstart h, Stmt.notes_function.mpr fun ds f τ hhead' => ?_⟩
        exact absurd ⟨ds, f, τ, hhead'⟩ hhead
  | .branch b, here, σ, hat, hstart, hnoted, h => by
      have hb : (b.check.run σ).result = .error d := by
        rw [Stmt.check] at h
        exact Check.result_bind_pure_eq_error.mp h
      obtain ⟨last, hstops, hnotes⟩ := b.stops_watch (.branch :: here) σ (Focus.at?_cons hat _)
        (Stmt.notes_branch.mp hnoted) hb
      exact ⟨last, hstops.ofInner nofun hat hstart h, Stmt.notes_branch.mpr hnotes⟩
  | .whileLoop test body span, here, σ, hat, hstart, hnoted, h => by
      have hloop := h
      rw [Stmt.check] at hloop
      rcases Check.result_bind_eq_error.mp hloop with htest | ⟨t, τ, ht, hbody⟩
      · refine ⟨here, .ofStmt hat hstart h, Stmt.notes_whileLoop.mpr fun t τ ht => ?_⟩
        cases htest.symm.trans ht.1
      · obtain ⟨last, -, hstops, hnotes⟩ := Stmt.stops_watchAll body (.body :: here) 0 _ body rfl
          (Focus.at?_cons hat _) (Stmt.notes_whileLoop.mp hnoted t τ ht) nofun
          (Stmt.error_inScope (Check.result_bind_pure_eq_error.mp hbody))
        refine ⟨last, hstops.ofInner nofun hat hstart h, Stmt.notes_whileLoop.mpr fun t' τ' ht' => ?_⟩
        obtain ⟨rfl, rfl⟩ := ht.unique ht'
        exact hnotes
  | .forEach iterator collection body span, here, σ, hat, hstart, hnoted, h => by
      rcases Stmt.error_cases_forEach h with hcollection | ⟨r, element, v, τ, hr, hv, hbody⟩
      · refine ⟨here, .ofStmt hat hstart h, Stmt.notes_forEach.mpr fun r element τ hr => ?_⟩
        cases hcollection.symm.trans hr.1
      · obtain ⟨last, -, hstops, hnotes⟩ := Stmt.stops_watchAll body (.body :: here) 0 τ body rfl
          (Focus.at?_cons hat _) (Stmt.notes_forEach.mp hnoted r element σ hr v τ hv) nofun hbody
        refine ⟨last, hstops.ofInner nofun hat hstart h,
          Stmt.notes_forEach.mpr fun r' element' σ' hr' v' τ' hv' => ?_⟩
        obtain ⟨heq, rfl⟩ := hr.unique hr'
        cases heq
        obtain ⟨rfl, rfl⟩ := hv.unique hv'
        exact hnotes
  | .declare x readOnly init span, here, σ, hat, hstart, _, h => Stmt.stops_quiet hat hstart h
  | .step dir target span, here, σ, hat, hstart, _, h => Stmt.stops_quiet hat hstart h
  | .assign target source span, here, σ, hat, hstart, _, h => Stmt.stops_quiet hat hstart h
  | .exitLoop span, here, σ, hat, hstart, _, h => Stmt.stops_quiet hat hstart h
  | .returnValue value span, here, σ, hat, hstart, _, h => Stmt.stops_quiet hat hstart h
  | .returnNothing span, here, σ, hat, hstart, _, h => Stmt.stops_quiet hat hstart h
  | .eval e span, here, σ, hat, hstart, _, h => Stmt.stops_quiet hat hstart h

theorem Branch.stops_watch : ∀ (b : Branch) (here : Place) (σ : Session),
    (Focus.block p).at? here = some (.branch b) → (b.watch here).Notes σ (· ∈ K) →
    (b.check.run σ).result = .error d →
    ∃ last, Stops p K here last d ∧ (b.watch here).Notes σ (Moment.UpTo last)
  | .mk test consequent alternate span, here, σ, hat, hnoted, h => by
      rw [Branch.check] at h
      rcases Check.result_bind_eq_error.mp h with htest | ⟨t, τ, ht, hrest⟩
      · refine ⟨here, .self hat nofun, Branch.notes_mk.mpr fun t τ ht => ?_⟩
        cases htest.symm.trans ht.1
      obtain ⟨hconsequent, halternate⟩ := Branch.notes_mk.mp hnoted t τ ht
      have hblock := Focus.at?_cons hat .consequent
      rcases Check.result_bind_eq_error.mp hrest with hbody | ⟨rs, υ, hrs, hrest⟩
      · obtain ⟨last, -, hstops, hnotes⟩ := Stmt.stops_watchAll consequent (.consequent :: here) 0 _
          consequent rfl hblock hconsequent nofun (Stmt.error_inScope hbody)
        refine ⟨last, hstops.outer hat nofun nofun, Branch.notes_mk.mpr fun t' τ' ht' => ?_⟩
        obtain ⟨rfl, rfl⟩ := ht.unique ht'
        refine ⟨hnotes, fun c υ hc => ?_⟩
        cases hbody.symm.trans hc.1
      · obtain ⟨last, hstops, hnotes⟩ := alternate.stops_watch (.alternate :: here) υ
          (Focus.at?_cons hat .alternate) (halternate rs υ hrs)
          (Check.result_bind_pure_eq_error.mp hrest)
        refine ⟨last, hstops.outer hat nofun fun u hu => ?_,
          Branch.notes_mk.mpr fun t' τ' ht' => ?_⟩
        · cases hu with
          | alternate => exact (Visited.inScope hrs hconsequent).accepted hblock
        obtain ⟨rfl, rfl⟩ := ht.unique ht'
        refine ⟨fun m hm => .inl ?_, fun c υ' hc => ?_⟩
        · -- the block comes before what follows `else`
          obtain ⟨i, hi⟩ := ((Stmt.orderly_watchAll consequent _ 0 _).notes m hm).inside
          exact ⟨here, .consequent, .alternate, (List.suffix_cons i _).trans hi, hstops.inside,
            .alternate⟩
        · obtain ⟨-, rfl⟩ := hrs.unique hc
          exact hnotes

theorem Alternate.stops_watch : ∀ (a : Alternate) (here : Place) (σ : Session),
    (Focus.block p).at? here = Focus.ofAlternate? a → (a.watch here).Notes σ (· ∈ K) →
    (a.check.run σ).result = .error d →
    ∃ last, Stops p K here last d ∧ (a.watch here).Notes σ (Moment.UpTo last)
  | .none, _, _, _, _, h => by cases h
  | .block body, here, σ, hat, hnoted, h => by
      rw [Alternate.check] at h
      obtain ⟨last, -, hstops, hnotes⟩ := Stmt.stops_watchAll body here 0 _ body rfl hat
        (Alternate.notes_block.mp hnoted) nofun
        (Stmt.error_inScope (Check.result_bind_pure_eq_error.mp h))
      exact ⟨last, hstops, Alternate.notes_block.mpr hnotes⟩
  | .elseIf next, here, σ, hat, hnoted, h => by
      rw [Alternate.check] at h
      obtain ⟨last, hstops, hnotes⟩ := next.stops_watch here σ hat
        (Alternate.notes_elseIf.mp hnoted) (Check.result_bind_pure_eq_error.mp h)
      exact ⟨last, hstops, Alternate.notes_elseIf.mpr hnotes⟩

/-- **Statements that are refused stop at a place.** The statements `ss` are those of the block
    `all` from number `i` on, and those before them are accepted. -/
theorem Stmt.stops_watchAll : ∀ (ss : List Stmt) (here : Place) (i : Nat) (σ : Session)
    (all : List Stmt), all.drop i = ss → (Focus.block p).at? here = some (.block all) →
    (Stmt.watchAll here i ss).Notes σ (· ∈ K) → (∀ k < i, Accepted p K (.item k :: here)) →
    ((Stmt.checkAll ss).run σ).result = .error d →
    ∃ last, (∃ j, i ≤ j ∧ (.item j :: here) <:+ last) ∧ Stops p K here last d ∧
      (Stmt.watchAll here i ss).Notes σ (Moment.UpTo last)
  | [], _, _, _, _, _, _, _, _, h => by cases h
  | s :: ss, here, i, σ, all, hall, hat, hnoted, haccepted, h => by
      obtain ⟨hstart, hs, hrest⟩ := Stmt.notes_cons.mp hnoted
      have hget : all[i]? = some s := by
        rw [← List.head?_drop, hall]
        rfl
      have hitem : (Focus.block p).at? (.item i :: here) = some (.stmt s) := by
        rw [Focus.at?_cons hat, Focus.child?, hget]
        rfl
      rw [Stmt.checkAll] at h
      rcases Check.result_bind_eq_error.mp h with herror | ⟨r, τ, hr, h⟩
      · obtain ⟨last, hstops, hnotes⟩ := s.stops_watch (.item i :: here) σ hitem hstart hs herror
        refine ⟨last, ⟨i, Nat.le_refl i, hstops.inside⟩, hstops.outer hat nofun fun u hu => ?_,
          Stmt.notes_cons.mpr ⟨.inr hstops.inside, hnotes, fun r τ hr => ?_⟩⟩
        · cases hu with
          | item hk => exact haccepted _ hk
        · cases herror.symm.trans hr.1
      · have hdrop : all.drop (i + 1) = ss := by
          rw [← List.tail_drop, hall]
          rfl
        have hnext : ∀ k < i + 1, Accepted p K (.item k :: here) := by
          intro k hk
          by_cases hki : k = i
          · rw [hki]
            exact (Visited.stmt hstart hr hs).accepted hitem
          · exact haccepted k (by omega)
        obtain ⟨last, ⟨j, hij, hj⟩, hstops, hnotes⟩ := Stmt.stops_watchAll ss here (i + 1) τ all
          hdrop hat (hrest r τ hr) hnext (Check.result_bind_pure_eq_error.mp h)
        have hearlier : ∀ {q : Place}, (.item i :: here) <:+ q → q.Before last := fun hq =>
          ⟨here, .item i, .item j, hq, hj, .item hij⟩
        refine ⟨last, ⟨j, Nat.le_of_succ_le hij, hj⟩, hstops, Stmt.notes_cons.mpr
          ⟨.inl (hearlier (List.suffix_refl _)), fun m hm => .inl ?_, fun r' τ' hr' => ?_⟩⟩
        · exact hearlier ((s.orderly_watch _ σ).notes m hm).suffix
        · obtain ⟨-, rfl⟩ := hr.unique hr'
          exact hnotes

end

/-- **A program that is refused is checked up to a place**, and no further. -/
theorem Session.stops {s : Session} (h : (s.step p).result = .error d) :
    ∃ last, last ≠ [] ∧ Stops p (s.moments p) [] last d ∧ ∀ m ∈ s.moments p, m.UpTo last := by
  obtain ⟨last, ⟨j, -, hj⟩, hstops, hnotes⟩ :=
    Stmt.stops_watchAll p [] 0 s p rfl rfl (fun _ hm => hm) nofun h
  refine ⟨last, ?_, hstops, hnotes⟩
  rintro rfl
  cases List.suffix_nil.mp hj

end

end Sema
