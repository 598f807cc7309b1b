import Sema.Proofs.Balance
import Sema.Proofs.Progress

/-!
# Control context

Whether a loop can be left and which function is being defined is kept in each scope: copied when a
scope is opened, and set once the head of a function is known. Here it is compared with the syntax
tree alone. At a place in a program,

* `loopAround` says whether, on the way out, the body of a loop is met before that of a function;
* `functionAround` gives the innermost function whose body is met on the way out.

At the moment when a statement is checked, in any analysis, whether it is accepted in the end or
not, the scopes agree with the place of the statement (`Stmt.follows_watchAll`). So what an exit
from a loop and what a return comes to is decided by their place (`LexicalControl`).
-/

namespace Sema

open Check Watch

/-! ## 1. What the syntax says -/

/-- The bodies that a place can lie in. -/
inductive Body where
  | loop
  | function

/-- The body that a turn leads into, if it leads into one. -/
def Focus.enters : Focus → Turn → Option Body
  | .stmt (.function _ _ _ _ _), .body => some .function
  | .stmt (.whileLoop _ _ _), .body | .stmt (.forEach _ _ _ _), .body => some .loop
  | _, _ => none

/-- Whether, on the way out from a place, the body of a loop is met before that of a function. -/
def loopAround (p : Program) : Place → Bool
  | [] => false
  | t :: outer =>
      match ((Focus.block p).at? outer).bind fun f => f.enters t with
      | some .loop => true
      | some .function => false
      | none => loopAround p outer

/-- The place of the first function whose body is met on the way out from a place. -/
def functionAround (p : Program) : Place → Option Place
  | [] => none
  | t :: outer =>
      match ((Focus.block p).at? outer).bind fun f => f.enters t with
      | some .function => some outer
      | _ => functionAround p outer

/-! ## 2. What the scopes say -/

/-- The scopes agree with a place: a loop can be left exactly inside one, and the function being
    defined is the one that was created for the function around the place. -/
structure Lexical (p : Program) (K : List Moment) (here : Place) (Γ : Scopes) : Prop where
  inLoop : Γ.inLoop = loopAround p here
  function : Option.Rel (fun f q => .created q f ∈ K) Γ.currentFunction (functionAround p here)

namespace Lexical

variable {p : Program} {K : List Moment} {here : Place} {Γ Δ : Scopes} {f : Focus} {t : Turn}

/-- New names do not matter. -/
theorem gains {names : List String} (h : Lexical p K here Γ) (hgains : Γ.Gains Δ names) :
    Lexical p K here Δ := by
  obtain ⟨new, rfl, _⟩ := hgains
  exact ⟨h.inLoop, h.function⟩

/-- Nor does the scope of a branch. -/
theorem block (h : Lexical p K here Γ) : Lexical p K here (Γ.enter .block) := ⟨h.inLoop, h.function⟩

/-- A turn that leads into no body. -/
theorem turn (hat : (Focus.block p).at? here = some f) (ht : f.enters t = none)
    (h : Lexical p K here Γ) : Lexical p K (t :: here) Γ := by
  obtain ⟨hloop, hfunction⟩ := h
  refine ⟨?_, ?_⟩
  · rw [loopAround, hat, Option.bind_some, ht]
    exact hloop
  · rw [functionAround, hat, Option.bind_some, ht]
    exact hfunction

/-- Into the body of a loop. -/
theorem loop (hat : (Focus.block p).at? here = some f) (ht : f.enters t = some .loop)
    (h : Lexical p K here Γ) : Lexical p K (t :: here) (Γ.enter .loop) := by
  refine ⟨?_, ?_⟩
  · rw [loopAround, hat, Option.bind_some, ht]
    rfl
  · rw [functionAround, hat, Option.bind_some, ht]
    exact h.function

/-- Into the body of a function whose head has been checked. -/
theorem functionBody {name : String} {parameters : List Parameter} {result : Option TypeExpr}
    {span : Span} {σ τ : Session} {ds : List Decl.Parameter} {g : Decl.Function}
    (hat : (Focus.block p).at? here = some f) (ht : f.enters t = some .function)
    (hhead : FunctionHead name parameters result span σ ds g τ) (hg : .created here g ∈ K) :
    Lexical p K (t :: here) τ.scopes := by
  obtain ⟨new, -, hscopes⟩ := hhead.scopes_eq
  refine ⟨?_, ?_⟩
  · rw [loopAround, hat, Option.bind_some, ht, hscopes]
    rfl
  · rw [functionAround, hat, Option.bind_some, ht, hscopes]
    exact .some hg

end Lexical

/-- A session on a catalog is in no loop and in no function. -/
theorem Session.Reached.lexical {c : Catalog} {s : Session} (h : s.Reached c) (p : Program)
    (K : List Moment) : Lexical p K [] s.scopes := by
  induction h with
  | opened h =>
      rw [(Session.open?_eq_ok_iff.mp h).2]
      exact ⟨rfl, .none⟩
  | step _ q ih => exact ih.gains ((Stmt.tame_checkAll q).gains _)

/-! ## 3. Failures come through -/

section

variable {σ τ υ : Session} {d : Diagnostic} {body : List Stmt} {span : Span}

theorem Stmt.error_function {name : String} {parameters : List Parameter}
    {result : Option TypeExpr} {ds : List Decl.Parameter} {f : Decl.Function}
    (hhead : FunctionHead name parameters result span σ ds f τ)
    (h : ((Stmt.checkAll body).run τ).result = .error d) :
    ((Stmt.function name parameters result body span).check.run σ).result = .error d := by
  rw [(hhead.run_check body).1, h]
  rfl

theorem Stmt.error_branch {b : Branch} (h : (b.check.run σ).result = .error d) :
    ((Stmt.branch b).check.run σ).result = .error d := by
  rw [Stmt.check, result_bind_pure, h]
  rfl

theorem Stmt.error_whileLoop {test : Expr} {t : Resolved.Expr}
    (htest : (checkTest test).Yields σ t τ)
    (h : ((Stmt.checkAll body).run (τ.enter .loop)).result = .error d) :
    ((Stmt.whileLoop test body span).check.run σ).result = .error d := by
  rw [Stmt.check, result_bind_of_yields htest, result_bind_pure,
    (Stmt.tame_checkAll body).result_inScope, h]
  rfl

theorem Stmt.error_forEach {iterator : String} {collection : Expr} {r : Resolved.Expr}
    {element : Ty} {v : Decl.Variable}
    (hcollection : (checkCollection collection).Yields σ (r, element) τ)
    (hv : (declareVariable iterator true element span).Yields (τ.enter .loop) v υ)
    (h : ((Stmt.checkAll body).run υ).result = .error d) :
    ((Stmt.forEach iterator collection body span).check.run σ).result = .error d := by
  have htame := tame_loopBody iterator element span r (Stmt.tame_checkAll body)
  rw [Stmt.check, result_bind_of_yields hcollection, htame.result_inScope,
    result_bind_of_yields hv, result_bind_pure, h]
  rfl

theorem Branch.error_consequent {test : Expr} {t : Resolved.Expr} {alternate : Alternate}
    (htest : (checkTest test).Yields σ t τ)
    (h : ((Stmt.checkAll body).run (τ.enter .block)).result = .error d) :
    ((Branch.mk test body alternate span).check.run σ).result = .error d := by
  rw [← (Stmt.tame_checkAll body).result_inScope] at h
  rw [Branch.check, result_bind_of_yields htest, (run_bind_of_error h _).1]

theorem Branch.error_alternate {test : Expr} {t : Resolved.Expr} {alternate : Alternate}
    {rs : List Resolved.Stmt} (htest : (checkTest test).Yields σ t τ)
    (hbody : (inScope .block (Stmt.checkAll body)).Yields τ rs υ)
    (h : (alternate.check.run υ).result = .error d) :
    ((Branch.mk test body alternate span).check.run σ).result = .error d := by
  rw [Branch.check, result_bind_of_yields htest, result_bind_of_yields hbody, result_bind_pure, h]
  rfl

theorem Alternate.error_block (h : ((Stmt.checkAll body).run (σ.enter .block)).result = .error d) :
    ((Alternate.block body).check.run σ).result = .error d := by
  rw [Alternate.check, result_bind_pure, (Stmt.tame_checkAll body).result_inScope, h]
  rfl

theorem Alternate.error_elseIf {next : Branch} (h : (next.check.run σ).result = .error d) :
    ((Alternate.elseIf next).check.run σ).result = .error d := by
  rw [Alternate.check, result_bind_pure, h]
  rfl

theorem Stmt.error_rest {s : Stmt} {r : Resolved.Stmt} (hs : s.check.Yields σ r τ)
    (h : ((Stmt.checkAll body).run τ).result = .error d) :
    ((Stmt.checkAll (s :: body)).run σ).result = .error d := by
  rw [Stmt.checkAll, result_bind_of_yields hs, result_bind_pure, h]
  rfl

end

/-! ## 4. Every moment of an analysis -/

/-- What holds at a moment of an analysis that notes `K` and comes to `outcome`. A statement that
    starts stands at its place, the scopes agree with that place, and if the statement fails then
    the analysis fails with it. A function that is created is the one that the head of the statement
    at its place declares, on the session on which that statement started. -/
def Moment.Follows (p : Program) (K : List Moment) (outcome : Except Diagnostic Resolved.Program) :
    Moment → Prop
  | .started here stmt σ =>
      (Focus.block p).at? here = some (.stmt stmt) ∧ Lexical p K here σ.scopes ∧
        ∀ d, (stmt.check.run σ).result = .error d → outcome = .error d
  | .created here f =>
      ∃ name parameters result body span σ,
        .started here (.function name parameters result body span) σ ∈ K ∧
        ∃ ds τ, FunctionHead name parameters result span σ ds f τ

/-- The part `f` of a program is about to be checked by `x`, watched as `w`, in an analysis that
    notes `K` and comes to `outcome`. -/
structure Stage (p : Program) (K : List Moment) (outcome : Except Diagnostic Resolved.Program)
    (here : Place) (f : Option Focus) {α : Type} (x : Check α) (w : Watch α) (σ : Session) :
    Prop where
  place : (Focus.block p).at? here = f
  lexical : Lexical p K here σ.scopes
  fails : ∀ d, (x.run σ).result = .error d → outcome = .error d
  noted : w.Notes σ (· ∈ K)

section

variable {p : Program} {K : List Moment} {outcome : Except Diagnostic Resolved.Program}

mutual

theorem Stmt.follows_watch : ∀ (s : Stmt) (here : Place) (σ : Session), .started here s σ ∈ K →
    Stage p K outcome here (some (.stmt s)) s.check (s.watch here) σ →
    (s.watch here).Notes σ (Moment.Follows p K outcome)
  | .function name parameters result body span, here, σ, hstart, h => by
      refine Stmt.notes_function.mpr fun ds f τ hhead => ?_
      obtain ⟨hcreated, hbody⟩ := Stmt.notes_function.mp h.noted ds f τ hhead
      refine ⟨⟨_, _, _, _, _, _, hstart, _, _, hhead⟩, ?_⟩
      refine Stmt.follows_watchAll body _ 0 τ body rfl ⟨Focus.at?_cons h.place _, ?_, ?_, hbody⟩
      · exact .functionBody h.place rfl hhead hcreated
      · exact fun d hd => h.fails d (Stmt.error_function hhead hd)
  | .branch b, here, σ, _, h => by
      refine Stmt.notes_branch.mpr (b.follows_watch _ σ ⟨Focus.at?_cons h.place _, ?_, ?_, ?_⟩)
      · exact h.lexical.turn h.place rfl
      · exact fun d hd => h.fails d (Stmt.error_branch hd)
      · exact Stmt.notes_branch.mp h.noted
  | .whileLoop test body span, here, σ, _, h => by
      refine Stmt.notes_whileLoop.mpr fun t τ htest => ?_
      refine Stmt.follows_watchAll body _ 0 _ body rfl ⟨Focus.at?_cons h.place _, ?_, ?_, ?_⟩
      · have hgains := (tame_checkTest test).gains σ
        rw [htest.2] at hgains
        exact (h.lexical.gains hgains).loop h.place rfl
      · exact fun d hd => h.fails d (Stmt.error_whileLoop htest hd)
      · exact Stmt.notes_whileLoop.mp h.noted t τ htest
  | .forEach iterator collection body span, here, σ, _, h => by
      refine Stmt.notes_forEach.mpr fun r element τ hcollection v υ hv => ?_
      refine Stmt.follows_watchAll body _ 0 _ body rfl ⟨Focus.at?_cons h.place _, ?_, ?_, ?_⟩
      · have hgains := (tame_checkCollection collection).gains σ
        have hgains' := (tame_declareVariable iterator true element span).gains (τ.enter .loop)
        rw [hcollection.2] at hgains
        rw [hv.2] at hgains'
        exact ((h.lexical.gains hgains).loop h.place rfl).gains hgains'
      · exact fun d hd => h.fails d (Stmt.error_forEach hcollection hv hd)
      · exact Stmt.notes_forEach.mp h.noted r element τ hcollection v υ hv
  | .declare _ _ _ _, _, _, _, _ | .step _ _ _, _, _, _, _ | .assign _ _ _, _, _, _, _
  | .exitLoop _, _, _, _, _ | .returnValue _ _, _, _, _, _ | .returnNothing _, _, _, _, _
  | .eval _ _, _, _, _, _ => (notes_quiet _).mpr trivial

theorem Branch.follows_watch : ∀ (b : Branch) (here : Place) (σ : Session),
    Stage p K outcome here (some (.branch b)) b.check (b.watch here) σ →
    (b.watch here).Notes σ (Moment.Follows p K outcome)
  | .mk test consequent alternate span, here, σ, h => by
      refine Branch.notes_mk.mpr fun t τ htest => ?_
      obtain ⟨hconsequent, halternate⟩ := Branch.notes_mk.mp h.noted t τ htest
      have hgains := (tame_checkTest test).gains σ
      rw [htest.2] at hgains
      have hτ := h.lexical.gains hgains
      refine ⟨?_, fun c υ hc => ?_⟩
      · refine Stmt.follows_watchAll consequent _ 0 _ consequent rfl
          ⟨Focus.at?_cons h.place _, ?_, ?_, hconsequent⟩
        · exact hτ.block.turn h.place rfl
        · exact fun d hd => h.fails d (Branch.error_consequent htest hd)
      · refine alternate.follows_watch _ υ ⟨Focus.at?_cons h.place _, ?_, ?_, halternate c υ hc⟩
        · have hgains := (tame_inScope .block _ [] (Stmt.tame_checkAll consequent)).gains τ
          rw [hc.2] at hgains
          exact (hτ.gains hgains).turn h.place rfl
        · exact fun d hd => h.fails d (Branch.error_alternate htest hc hd)

theorem Alternate.follows_watch : ∀ (a : Alternate) (here : Place) (σ : Session),
    Stage p K outcome here (Focus.ofAlternate? a) a.check (a.watch here) σ →
    (a.watch here).Notes σ (Moment.Follows p K outcome)
  | .none, _, _, _ => (notes_quiet _).mpr trivial
  | .block body, here, σ, h => by
      refine Alternate.notes_block.mpr (Stmt.follows_watchAll body here 0 _ body rfl
        ⟨h.place, h.lexical.block, ?_, Alternate.notes_block.mp h.noted⟩)
      exact fun d hd => h.fails d (Alternate.error_block hd)
  | .elseIf next, here, σ, h => by
      refine Alternate.notes_elseIf.mpr (next.follows_watch here σ
        ⟨h.place, h.lexical, ?_, Alternate.notes_elseIf.mp h.noted⟩)
      exact fun d hd => h.fails d (Alternate.error_elseIf hd)

/-- **Every moment follows the syntax.** The statements `ss` are those of the block `all` from
    number `i` on. -/
theorem Stmt.follows_watchAll : ∀ (ss : List Stmt) (here : Place) (i : Nat) (σ : Session)
    (all : List Stmt), all.drop i = ss →
    Stage p K outcome here (some (.block all)) (Stmt.checkAll ss) (Stmt.watchAll here i ss) σ →
    (Stmt.watchAll here i ss).Notes σ (Moment.Follows p K outcome)
  | [], _, _, _, _, _, _ => (notes_quiet _).mpr trivial
  | s :: ss, here, i, σ, all, hall, h => by
      obtain ⟨hstart, hs, hrest⟩ := Stmt.notes_cons.mp h.noted
      have hget : all[i]? = some s := by
        rw [← List.head?_drop, hall]
        rfl
      have hplace : (Focus.block p).at? (.item i :: here) = some (.stmt s) := by
        rw [Focus.at?_cons h.place, Focus.child?, hget]
        rfl
      have hlexical := h.lexical.turn (t := .item i) h.place rfl
      have hfails : ∀ d, (s.check.run σ).result = .error d → outcome = .error d := by
        intro d hd
        refine h.fails d ?_
        rw [Stmt.checkAll]
        exact (run_bind_of_error hd _).1
      refine Stmt.notes_cons.mpr ⟨⟨hplace, hlexical, hfails⟩, ?_, fun r τ hr => ?_⟩
      · exact s.follows_watch _ σ hstart ⟨hplace, hlexical, hfails, hs⟩
      · have hgains := s.tame_check.gains σ
        rw [hr.2] at hgains
        refine Stmt.follows_watchAll ss here (i + 1) τ all ?_
          ⟨h.place, h.lexical.gains hgains, ?_, hrest r τ hr⟩
        · rw [← List.tail_drop, hall]
          rfl
        · exact fun d hd => h.fails d (Stmt.error_rest hr hd)

end

end

/-! ## 5. What exits and returns come to -/

section

variable {σ : Session} {span : Span} {r : Resolved.Stmt}

theorem Stmt.result_exitLoop (σ : Session) (span : Span) :
    ((Stmt.exitLoop span).check.run σ).result =
      if σ.scopes.inLoop then .ok .exitLoop else .error ⟨.exitOutsideLoop, some span⟩ := by
  rw [Stmt.check, result_bind_of_yields (yields_scopes.mpr ⟨rfl, rfl⟩), result_bind_pure, require,
    run_reading, Traced.require]
  cases σ.scopes.inLoop <;> rfl

theorem Stmt.result_returnValue_eq_ok {value : Expr} :
    ((Stmt.returnValue value span).check.run σ).result = .ok r ↔
      ∃ f, σ.scopes.currentFunction = some f ∧ f.signature.result ≠ .void ∧
        ∃ e, (value.check σ.scopes).result = .ok e ∧ e.ty.fits f.signature.result = true ∧
          r = .returnValue e := by
  rw [Stmt.check, checkReturnValue, run_reading]
  simp only [Traced.result_bind_eq_ok, result_enclosingResult_eq_ok, Traced.result_require_eq_ok,
    bne_iff_ne, Traced.expectAssignable, Traced.result_pure_eq_ok]
  constructor
  · rintro ⟨_, ⟨f, hf, rfl⟩, _, hvoid, e, he, _, hfits, rfl⟩
    exact ⟨f, hf, hvoid, e, he, hfits, rfl⟩
  · rintro ⟨f, hf, hvoid, e, he, hfits, rfl⟩
    exact ⟨_, ⟨f, hf, rfl⟩, (), hvoid, e, he, (), hfits, rfl⟩

theorem Stmt.result_returnNothing_eq_ok :
    ((Stmt.returnNothing span).check.run σ).result = .ok r ↔
      ∃ f, σ.scopes.currentFunction = some f ∧ f.signature.result = .void ∧ r = .returnNothing := by
  rw [Stmt.check, checkReturnNothing, run_reading]
  simp only [Traced.result_bind_eq_ok, result_enclosingResult_eq_ok, Traced.result_require_eq_ok,
    beq_iff_eq, Traced.result_pure_eq_ok]
  constructor
  · rintro ⟨_, ⟨f, hf, rfl⟩, _, hvoid, rfl⟩
    exact ⟨f, hf, hvoid, rfl⟩
  · rintro ⟨f, hf, hvoid, rfl⟩
    exact ⟨_, ⟨f, hf, rfl⟩, (), hvoid, rfl⟩

end

/-- The control context of an analysis is that of the syntax tree. -/
structure LexicalControl (s : Session) (p : Program) : Prop where
  /-- What is watched is the analysis. -/
  watched : (Stmt.watchAll [] 0 p).check.run s = s.step p
  /-- When a statement is checked, a loop can be left exactly where the syntax has one around the
      statement and inside any function around it. -/
  inLoop : ∀ here stmt σ, .started here stmt σ ∈ s.moments p →
    (Focus.block p).at? here = some (.stmt stmt) ∧ σ.scopes.inLoop = loopAround p here
  /-- The function being defined is then the one created for the innermost function around the
      statement, and there is none exactly where the syntax has none. -/
  function : ∀ here stmt σ, .started here stmt σ ∈ s.moments p →
    (∀ f, σ.scopes.currentFunction = some f ↔
      ∃ q, functionAround p here = some q ∧ .created q f ∈ s.moments p) ∧
    (σ.scopes.currentFunction = none ↔ functionAround p here = none)
  /-- The function created for a declaration has its name and its own result type. -/
  created : ∀ q f, .created q f ∈ s.moments p → ∃ name parameters result body span σ,
    .started q (.function name parameters result body span) σ ∈ s.moments p ∧ f.name = name ∧
      ((checkResult result).run σ).result = .ok f.signature.result
  /-- An exit is refused exactly where no loop is around. -/
  exitLoop : ∀ here span σ, .started here (.exitLoop span) σ ∈ s.moments p →
    ((Stmt.exitLoop span).check.run σ).result =
      if loopAround p here then .ok .exitLoop else .error ⟨.exitOutsideLoop, some span⟩
  /-- A value is returned only in a function that yields one, and fits what it yields. -/
  returnValue : ∀ here value span σ r, .started here (.returnValue value span) σ ∈ s.moments p →
    (((Stmt.returnValue value span).check.run σ).result = .ok r ↔
      ∃ q f e, functionAround p here = some q ∧ .created q f ∈ s.moments p ∧
        f.signature.result ≠ .void ∧ (value.check σ.scopes).result = .ok e ∧
        e.ty.fits f.signature.result = true ∧ r = .returnValue e)
  /-- A return without a value stands only in a function that yields none. -/
  returnNothing : ∀ here span σ r, .started here (.returnNothing span) σ ∈ s.moments p →
    (((Stmt.returnNothing span).check.run σ).result = .ok r ↔
      ∃ q f, functionAround p here = some q ∧ .created q f ∈ s.moments p ∧
        f.signature.result = .void ∧ r = .returnNothing)
  /-- A statement that is refused is what the analysis reports. -/
  refused : ∀ here stmt σ d, .started here stmt σ ∈ s.moments p →
    (stmt.check.run σ).result = .error d → (s.step p).result = .error d
  /-- In a program that is accepted every statement has been checked, and the functions created are
      those that its resolved tree declares. -/
  accepted : ∀ R, (s.step p).result = .ok R →
    (∀ here stmt, (Focus.block p).at? here = some (.stmt stmt) → ∃ σ r,
      .started here stmt σ ∈ s.moments p ∧ (stmt.check.run σ).result = .ok r ∧
        (Resolved.Focus.block R).at? here = some (.stmt r)) ∧
    ∀ q f, .created q f ∈ s.moments p →
      (Resolved.Focus.block R).declaredAt? ⟨q, .self⟩ = some (.func f)
  /-- A program that is refused has been checked up to a place: what comes before it is accepted,
      what is around it is refused, and no other statement has been checked. -/
  stopped : ∀ d, (s.step p).result = .error d → ∃ last, last ≠ [] ∧
    Stops p (s.moments p) [] last d ∧ ∀ m ∈ s.moments p, m.UpTo last

section

variable {c : Catalog} {s : Session} {p : Program}

/-- Every moment of an analysis follows the syntax. -/
theorem Session.Reached.follows (hs : s.Reached c) (p : Program) :
    ∀ m ∈ s.moments p, m.Follows p (s.moments p) (s.step p).result :=
  Stmt.follows_watchAll p [] 0 s p rfl
    ⟨rfl, hs.lexical p (s.moments p), fun _ hd => hd, fun _ hm => hm⟩

/-- At most one function is created for a declaration. -/
theorem Session.created_unique {q : Place} {f g : Decl.Function}
    (hf : .created q f ∈ s.moments p) (hg : .created q g ∈ s.moments p) : f = g := by
  have h := Session.moment_eq hf hg rfl
  cases h
  rfl

/-- The function being defined, as the syntax gives it. -/
theorem Lexical.currentFunction_iff {here : Place} {Γ : Scopes}
    (h : Lexical p (s.moments p) here Γ) (f : Decl.Function) :
    Γ.currentFunction = some f ↔
      ∃ q, functionAround p here = some q ∧ .created q f ∈ s.moments p := by
  have hrel := h.function
  generalize Γ.currentFunction = current at hrel
  generalize functionAround p here = around at hrel
  cases hrel with
  | none => simp
  | @some g q hg =>
      simp only [Option.some.injEq, exists_eq_left']
      constructor
      · rintro rfl
        exact hg
      · intro hf
        exact Session.created_unique hg hf

/-- A function with a property is being defined exactly where the syntax has one around. -/
theorem Lexical.exists_function_iff {here : Place} {Γ : Scopes}
    (h : Lexical p (s.moments p) here Γ) (Q : Decl.Function → Prop) :
    (∃ f, Γ.currentFunction = some f ∧ Q f) ↔
      ∃ q f, functionAround p here = some q ∧ .created q f ∈ s.moments p ∧ Q f := by
  constructor
  · rintro ⟨f, hf, hQ⟩
    obtain ⟨q, hq, hcreated⟩ := (h.currentFunction_iff f).mp hf
    exact ⟨q, f, hq, hcreated, hQ⟩
  · rintro ⟨q, f, hq, hcreated, hQ⟩
    exact ⟨f, (h.currentFunction_iff f).mpr ⟨q, hq, hcreated⟩, hQ⟩

theorem Lexical.currentFunction_eq_none {K : List Moment} {here : Place} {Γ : Scopes}
    (h : Lexical p K here Γ) : Γ.currentFunction = none ↔ functionAround p here = none := by
  have hrel := h.function
  generalize Γ.currentFunction = current at hrel
  generalize functionAround p here = around at hrel
  cases hrel <;> simp

/-- In a program that is accepted, a function that was created is declared at its place. -/
theorem Visited.declaredAt?_created {R : Resolved.Program}
    (hroot : Visited (s.moments p) [] (.block p) (.block R)) {q : Place} {name : String}
    {parameters : List Parameter} {result : Option TypeExpr} {body : List Stmt} {span : Span}
    {f : Decl.Function}
    (hq : (Focus.block p).at? q = some (.stmt (.function name parameters result body span)))
    (hf : .created q f ∈ s.moments p) :
    (Resolved.Focus.block R).declaredAt? ⟨q, .self⟩ = some (.func f) := by
  obtain ⟨g, hg, hvisited⟩ := hroot.exists_at hq nofun
  rw [List.append_nil] at hvisited
  cases hvisited with
  | stmt _ hyields hnoted =>
      obtain ⟨ds, f', υ, rs, hhead, _, rfl⟩ := Stmt.exists_head hyields
      have hf' := (Stmt.notes_function.mp hnoted ds f' υ hhead).1
      obtain rfl := Session.created_unique hf hf'
      rw [Resolved.Focus.declaredAt?, hg]
      rfl

end

/-- **Control context is lexical**, in every analysis of every program on a session that opened with
    a catalog, whatever the analysis comes to. -/
theorem control_is_lexical {c : Catalog} {s : Session} (hs : s.Reached c) (p : Program) :
    LexicalControl s p := by
  have hfollows := hs.follows p
  have hlexical : ∀ {here stmt σ}, .started here stmt σ ∈ s.moments p →
      Lexical p (s.moments p) here σ.scopes := fun h => (hfollows _ h).2.1
  have hvisited : ∀ {R}, (s.step p).result = .ok R →
      Visited (s.moments p) [] (.block p) (.block R) := fun hR => .block ⟨hR, rfl⟩ fun _ hm => hm
  refine
    { watched := by rw [Stmt.check_watchAll]; rfl
      inLoop := fun here stmt σ h => ⟨(hfollows _ h).1, (hlexical h).inLoop⟩
      function := fun here stmt σ h =>
        ⟨(hlexical h).currentFunction_iff, (hlexical h).currentFunction_eq_none⟩
      created := ?_
      exitLoop := fun here span σ h => by rw [Stmt.result_exitLoop, (hlexical h).inLoop]
      returnValue := ?_
      returnNothing := fun here span σ r h =>
        Stmt.result_returnNothing_eq_ok.trans ((hlexical h).exists_function_iff _)
      refused := fun here stmt σ d h => (hfollows _ h).2.2 d
      accepted := ?_
      stopped := fun d hd => Session.stops hd }
  · intro q f h
    obtain ⟨name, parameters, result, body, span, σ, hstart, ds, τ, hhead⟩ := hfollows _ h
    exact ⟨name, parameters, result, body, span, σ, hstart, hhead.name_eq, hhead.result_eq⟩
  · intro here value span σ r h
    rw [Stmt.result_returnValue_eq_ok, (hlexical h).exists_function_iff]
    simp only [exists_and_left]
  · intro R hR
    refine ⟨fun here stmt hstmt => ?_, fun q f h => ?_⟩
    · obtain ⟨g, hg, hv⟩ := (hvisited hR).exists_at hstmt nofun
      rw [List.append_nil] at hv
      cases hv with
      | stmt hstart hyields _ => exact ⟨_, _, hstart, hyields.1, hg⟩
    · obtain ⟨name, parameters, result, body, span, σ, hstart, _⟩ := hfollows _ h
      exact (hvisited hR).declaredAt?_created (hfollows _ hstart).1 h

/-- A loop around a function that yields a number, with a function that yields nothing and an exit
    inside it. -/
def strayExit : Program :=
  [.whileLoop (.bool true .origin)
    [.function "f" [] (some (.named "int" .origin))
      [.function "g" [] none [.returnNothing .origin] .origin,
       .whileLoop (.bool true .origin) [.exitLoop .origin] .origin,
       .branch (.mk (.bool true .origin) [.returnValue (.int 1 .origin) .origin]
         (.block [.exitLoop .origin]) .origin)] .origin] .origin]

/-- The place of the exit from the inner loop. -/
def innerExit : Place := [.item 0, .body, .item 1, .body, .item 0, .body, .item 0]

/-- The place of the exit after `else`. -/
def outerExit : Place := [.item 0, .alternate, .branch, .item 2, .body, .item 0, .body, .item 0]

/-- The second exit is inside a loop, but not inside one of its own function. It has been seen, and
    is what the analysis reports; the exit from the inner loop and both returns are accepted before
    it. -/
theorem control_is_lexical_strayExit :
    LexicalControl (.loaded .standard) strayExit ∧
      (loopAround strayExit innerExit = true ∧
        ∃ σ, .started innerExit (.exitLoop .origin) σ ∈
            (Session.loaded .standard).moments strayExit ∧
          ((Stmt.exitLoop .origin).check.run σ).result = .ok .exitLoop) ∧
      (loopAround strayExit outerExit = false ∧
        ∃ σ, .started outerExit (.exitLoop .origin) σ ∈
            (Session.loaded .standard).moments strayExit ∧
          ((Stmt.exitLoop .origin).check.run σ).result =
            .error ⟨.exitOutsideLoop, some .origin⟩) ∧
      ((Session.loaded .standard).step strayExit).result =
        .error ⟨.exitOutsideLoop, some .origin⟩ := by
  have hopen : Session.open? .standard = .ok (Session.loaded .standard) :=
    Session.open?_eq_ok_iff.mpr ⟨by decide, rfl⟩
  have hcontrol := control_is_lexical (.opened hopen) strayExit
  obtain ⟨σ, hσ⟩ : ∃ σ, .started innerExit (.exitLoop .origin) σ ∈
      (Session.loaded .standard).moments strayExit := ⟨_, List.mem_of_getElem? (i := 7) rfl⟩
  obtain ⟨τ, hτ⟩ : ∃ σ, .started outerExit (.exitLoop .origin) σ ∈
      (Session.loaded .standard).moments strayExit := ⟨_, List.mem_of_getElem? (i := 10) rfl⟩
  exact ⟨hcontrol, ⟨rfl, σ, hσ, hcontrol.exitLoop _ _ _ hσ⟩,
    ⟨rfl, τ, hτ, hcontrol.exitLoop _ _ _ hτ⟩, rfl⟩

end Sema
