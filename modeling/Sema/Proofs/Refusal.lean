import Sema.Proofs.Head
import Sema.Proofs.Simulation
import Sema.Syntax.Node

/-!
# What a refusal says

The other half of the rules: where a check fails, which of its steps failed, what was broken there,
and what is reported. One lemma for each rule and each function; what follows cites them and opens
no check again.

* `Traced.result_bind_eq_error`, `Check.result_bind_eq_error`: of two steps, the first fails, or it
  succeeds and the second fails;
* `TypeExpr.error_resolve`: a written type is refused at a name in it;
* `Stmt.error_cases_function`: a function is refused for its result type, for a parameter, for its
  name or for its body, in this order;
* `Stmt.error_cases_forEach`: a loop over a list is never refused for the name of its iterator.
-/

namespace Sema

/-! ## 1. Steps and rules -/

namespace Traced

variable {α β : Type} {d : Diagnostic} {span : Span}

theorem result_bind_eq_error {x : Traced α} {f : α → Traced β} :
    (x >>= f).result = .error d ↔
      x.result = .error d ∨ ∃ a, x.result = .ok a ∧ (f a).result = .error d := by
  rw [result_bind]
  cases x.result with
  | error e => simp [bind, Except.bind]
  | ok a => simp [bind, Except.bind]

/-- A last step that builds the value does not fail. -/
theorem result_bind_pure_eq_error {x : Traced α} {g : α → β} :
    (x >>= fun a => pure (g a)).result = .error d ↔ x.result = .error d := by
  rw [result_bind_eq_error]
  simp

theorem result_require_eq_error {holds : Bool} {p : Problem} :
    (require holds p span).result = .error d ↔ holds = false ∧ d = ⟨p, some span⟩ := by
  cases holds <;> simp [require, ok, fail, eq_comm]

theorem result_expectBool_eq_error {t : Ty} :
    (expectBool t span).result = .error d ↔ t ≠ .bool ∧ d = ⟨.boolExpected t, some span⟩ := by
  rw [expectBool, result_require_eq_error, beq_eq_false_iff_ne]

theorem result_expectInteger_eq_error {t : Ty} :
    (expectInteger t span).result = .error d ↔ t ≠ .int ∧ d = ⟨.integerExpected t, some span⟩ := by
  rw [expectInteger, result_require_eq_error, beq_eq_false_iff_ne]

theorem result_expectSame_eq_error {t u : Ty} :
    (expectSame t u span).result = .error d ↔ t ≠ u ∧ d = ⟨.operandsDiffer, some span⟩ := by
  rw [expectSame, result_require_eq_error, Bool.eq_false_iff, ne_eq, Ty.same_iff_eq]

theorem result_expectAssignable_eq_error {t u : Ty} :
    (expectAssignable t u span).result = .error d ↔
      ¬ Ty.Assignable t u ∧ d = ⟨.notAssignable t u, some span⟩ := by
  rw [expectAssignable, result_require_eq_error, Bool.eq_false_iff, ne_eq,
    Ty.fits_iff_assignable]

theorem result_expectNumber_eq_error {t : Ty} :
    (expectNumber t span).result = .error d ↔
      ¬ OperandClass.number.Admits t ∧ d = ⟨.numberExpected t, some span⟩ := by
  rw [expectNumber, result_require_eq_error]
  refine and_congr_left' ?_
  cases t <;> simp [Ty.isNumeric, OperandClass.Admits]

/-- What an operand of the wrong class is called. -/
theorem error_expectOperand {t : Ty} {c : OperandClass}
    (h : (expectOperand t span c).result = .error d) :
    ¬ c.Admits t ∧
      (c = .number ∧ d = ⟨.numberExpected t, some span⟩ ∨
        c = .numberOrString ∧ d = ⟨.numberOrStringExpected t, some span⟩) := by
  cases c with
  | number =>
      obtain ⟨ht, hd⟩ := result_expectNumber_eq_error.mp h
      exact ⟨ht, .inl ⟨rfl, hd⟩⟩
  | numberOrString =>
      obtain ⟨ht, hd⟩ := result_require_eq_error.mp h
      refine ⟨fun hadmits => ?_, .inr ⟨rfl, hd⟩⟩
      rw [isNumericOrString_iff.mpr hadmits] at ht
      cases ht
  | anything => cases h

theorem result_expectList_eq_error {t : Ty} :
    (expectList t span).result = .error d ↔
      (∀ u, t ≠ .list u) ∧ d = ⟨.listExpected, some span⟩ := by
  cases t <;> simp [expectList, Ty.element?, eq_comm]

theorem result_expectCallable_eq_error {t : Ty} :
    (expectCallable t span).result = .error d ↔
      (∀ ps u, t ≠ .function ps u) ∧ d = ⟨.notCallable, some span⟩ := by
  cases t <;> simp [expectCallable, Ty.signature?, eq_comm]

theorem error_expectFitting : ∀ {ts us : List Ty}, (expectFitting span ts us).result = .error d →
    ∃ (i : Nat) (t u : Ty), ts[i]? = some t ∧ us[i]? = some u ∧ ¬ Ty.Assignable t u ∧
      d = ⟨.notAssignable t u, some span⟩
  | [], _, h | _ :: _, [], h => by cases h
  | t :: ts, u :: us, h => by
      rw [expectFitting] at h
      rcases result_bind_eq_error.mp h with h | ⟨_, _, h⟩
      · obtain ⟨htu, hd⟩ := result_expectAssignable_eq_error.mp h
        exact ⟨0, t, u, rfl, rfl, htu, hd⟩
      · obtain ⟨i, t', u', ht, hu, hfits, hd⟩ := error_expectFitting h
        exact ⟨i + 1, t', u', ht, hu, hfits, hd⟩

/-- Arguments are refused for their number, and then for one that does not fit. -/
theorem error_expectArguments {ts us : List Ty}
    (h : (expectArguments ts us span).result = .error d) :
    ts.length ≠ us.length ∧ d = ⟨.wrongArity us.length ts.length, some span⟩ ∨
      ∃ (i : Nat) (t u : Ty), ts[i]? = some t ∧ us[i]? = some u ∧ ¬ Ty.Assignable t u ∧
        d = ⟨.notAssignable t u, some span⟩ := by
  rw [expectArguments] at h
  rcases result_bind_eq_error.mp h with h | ⟨_, _, h⟩
  · obtain ⟨hlength, hd⟩ := result_require_eq_error.mp h
    exact .inl ⟨beq_eq_false_iff_ne.mp hlength, hd⟩
  · exact .inr (error_expectFitting h)

/-- Elements are refused because there is none, or for one that differs from the first. -/
theorem error_expectUniform {ts : List Ty} (h : (expectUniform ts span).result = .error d) :
    ts = [] ∧ d = ⟨.untypedList, some span⟩ ∨
      ∃ first rest, ts = first :: rest ∧ (∃ t ∈ rest, t ≠ first) ∧
        d = ⟨.elementsDiffer, some span⟩ := by
  cases ts with
  | nil =>
      cases h
      exact .inl ⟨rfl, rfl⟩
  | cons first rest =>
      rw [expectUniform] at h
      obtain ⟨hall, hd⟩ := result_require_eq_error.mp (result_bind_pure_eq_error.mp h)
      obtain ⟨t, ht, hdiffers⟩ := List.all_eq_false.mp hall
      rw [Ty.same_iff_eq] at hdiffers
      exact .inr ⟨first, rest, rfl, ⟨t, ht, hdiffers⟩, hd⟩

theorem error_expectVariable {target : Resolved.Expr}
    (h : (expectVariable target span).result = .error d) :
    ¬ target.Countable ∧ d = ⟨.variableExpected, some span⟩ := by
  refine ⟨fun hcountable => ?_, ?_⟩
  · rw [(result_expectVariable_eq_ok (u := ())).mpr hcountable] at h
    cases h
  · unfold expectVariable at h
    split at h <;> cases h
    rfl

/-- Only the name of a constant is not writable. -/
theorem error_expectWritable {target : Resolved.Expr}
    (h : (expectWritable target span).result = .error d) :
    ∃ v : Decl.Variable, target.form = .entity (.var v) ∧ v.readOnly = true ∧
      d = ⟨.constantTarget v.name, some span⟩ := by
  obtain ⟨form, ty⟩ := target
  cases form with
  | entity e =>
      obtain ⟨hwritable, hd⟩ := result_require_eq_error.mp h
      cases e with
      | var v => exact ⟨v, rfl, by simpa [Entity.isReadOnly] using hwritable, hd⟩
      | _ => cases hwritable
  | _ => cases h

end Traced

open Traced

/-! ## 2. Names, written types and expressions -/

section

variable {Γ : Scopes} {d : Diagnostic} {span : Span}

theorem Scopes.error_resolve {x : String} (h : (Γ.resolve x span).result = .error d) :
    Γ.lookup? x = none ∧ d = ⟨.notDeclared x, some span⟩ := by
  unfold Scopes.resolve at h
  unfold Scopes.lookup?
  cases hlocate : Γ.locate? x with
  | none =>
      rw [hlocate] at h
      cases h
      exact ⟨rfl, rfl⟩
  | some found =>
      rw [hlocate] at h
      cases h

theorem Scopes.lookup?_of_resolve {x : String} {e : Entity}
    (h : (Γ.resolve x span).result = .ok e) :
    Γ.lookup? x = some e := by
  rw [← Γ.lookup_env]
  exact Scopes.result_resolve_eq_ok.mp h

/-- Why the name `x` in a written type is refused: it means nothing, or no type. -/
def Scopes.RefusesType (Γ : Scopes) (x : String) : Problem → Prop
  | .notDeclared y => y = x ∧ Γ.lookup? x = none
  | .typeExpected => ∃ e, Γ.lookup? x = some e ∧ ∀ t, e ≠ .type t
  | _ => False

mutual

/-- **A written type is refused at a name in it.** -/
theorem TypeExpr.error_resolve : ∀ t : TypeExpr, (t.resolve Γ).result = .error d →
    ∃ x span, .type (.named x span) ∈ t.nodes ∧ d.span = some span ∧ Γ.RefusesType x d.problem
  | .named x span, h => by
      rw [TypeExpr.resolve] at h
      refine ⟨x, span, List.mem_singleton.mpr rfl, ?_⟩
      rcases result_bind_eq_error.mp h with h | ⟨e, he, h⟩
      · obtain ⟨hx, rfl⟩ := Scopes.error_resolve h
        exact ⟨rfl, rfl, hx⟩
      · have hlookup := Scopes.lookup?_of_resolve he
        cases e with
        | type t => cases h
        | var v | func g | param q =>
            cases h
            exact ⟨rfl, _, hlookup, nofun⟩
  | .list element span, h => by
      rw [TypeExpr.resolve] at h
      obtain ⟨x, s, hx, hd⟩ := element.error_resolve (result_bind_pure_eq_error.mp h)
      exact ⟨x, s, List.mem_cons_of_mem _ hx, hd⟩
  | .function parameters result span, h => by
      rw [TypeExpr.resolve] at h
      rcases result_bind_eq_error.mp h with h | ⟨_, _, h⟩
      · obtain ⟨x, s, hx, hd⟩ := TypeExpr.error_resolveAll parameters h
        exact ⟨x, s, List.mem_cons_of_mem _ (List.mem_append_left _ hx), hd⟩
      · obtain ⟨x, s, hx, hd⟩ := result.error_resolve (result_bind_pure_eq_error.mp h)
        exact ⟨x, s, List.mem_cons_of_mem _ (List.mem_append_right _ hx), hd⟩

theorem TypeExpr.error_resolveAll : ∀ ts : List TypeExpr,
    (TypeExpr.resolveAll Γ ts).result = .error d →
      ∃ x span, .type (.named x span) ∈ TypeExpr.nodesAll ts ∧ d.span = some span ∧
        Γ.RefusesType x d.problem
  | [], h => by cases h
  | t :: ts, h => by
      rw [TypeExpr.resolveAll] at h
      rcases result_bind_eq_error.mp h with h | ⟨_, _, h⟩
      · obtain ⟨x, s, hx, hd⟩ := t.error_resolve h
        exact ⟨x, s, List.mem_append_left _ hx, hd⟩
      · obtain ⟨x, s, hx, hd⟩ := TypeExpr.error_resolveAll ts (result_bind_pure_eq_error.mp h)
        exact ⟨x, s, List.mem_append_right _ hx, hd⟩

end

/-- Expressions in a row are refused for one of them. -/
theorem Expr.error_checkAll : ∀ {es : List Expr}, (Expr.checkAll Γ es).result = .error d →
    ∃ e ∈ es, (e.check Γ).result = .error d
  | [], h => by cases h
  | e :: es, h => by
      rw [Expr.checkAll] at h
      rcases result_bind_eq_error.mp h with h | ⟨_, _, h⟩
      · exact ⟨e, List.mem_cons_self, h⟩
      · obtain ⟨e', he', h'⟩ := Expr.error_checkAll (result_bind_pure_eq_error.mp h)
        exact ⟨e', List.mem_cons_of_mem _ he', h'⟩

/-- What expressions in a row were checked to, one by one. -/
theorem Expr.getElem?_of_checkAll : ∀ {es : List Expr} {rs : List Resolved.Expr},
    (Expr.checkAll Γ es).result = .ok rs → ∀ {i : Nat} {r : Resolved.Expr}, rs[i]? = some r →
      ∃ e, es[i]? = some e ∧ (e.check Γ).result = .ok r
  | [], _, h, i, r, hr => by
      cases h
      cases hr
  | e :: es, _, h, i, r, hr => by
      rw [Expr.checkAll] at h
      obtain ⟨u, hu, h⟩ := result_bind_eq_ok.mp h
      obtain ⟨us, hus, h⟩ := result_bind_eq_ok.mp h
      obtain rfl := result_pure_eq_ok.mp h
      cases i with
      | zero =>
          cases hr
          exact ⟨e, rfl, hu⟩
      | succ i => exact Expr.getElem?_of_checkAll hus hr

/-- Operands are refused for one that is no truth value. -/
theorem error_expectBools : ∀ {rs : List Resolved.Expr} {es : List Expr},
    (expectBools rs es).result = .error d →
      ∃ (i : Nat) (r : Resolved.Expr) (e : Expr), rs[i]? = some r ∧ es[i]? = some e ∧
        r.ty ≠ .bool ∧ d = ⟨.boolExpected r.ty, some e.span⟩
  | [], _, h | _ :: _, [], h => by cases h
  | r :: rs, e :: es, h => by
      rw [expectBools] at h
      rcases result_bind_eq_error.mp h with h | ⟨_, _, h⟩
      · obtain ⟨hr, hd⟩ := result_expectBool_eq_error.mp h
        exact ⟨0, r, e, rfl, rfl, hr, hd⟩
      · obtain ⟨i, r', e', hr', he', hd⟩ := error_expectBools h
        exact ⟨i + 1, r', e', hr', he', hd⟩

theorem error_enclosingResult (h : (enclosingResult Γ span).result = .error d) :
    Γ.currentFunction = none ∧ d = ⟨.returnOutsideFunction, some span⟩ := by
  unfold enclosingResult at h
  cases hfunction : Γ.currentFunction with
  | none =>
      rw [hfunction] at h
      cases h
      exact ⟨rfl, rfl⟩
  | some f =>
      rw [hfunction] at h
      cases h

end

/-! ## 3. Statements -/

namespace Check

variable {α β : Type} {d : Diagnostic} {σ : Session}

theorem result_bind_eq_error {x : Check α} {f : α → Check β} :
    ((x >>= f).run σ).result = .error d ↔
      (x.run σ).result = .error d ∨
        ∃ a τ, x.Yields σ a τ ∧ ((f a).run τ).result = .error d := by
  cases hx : (x.run σ).result with
  | error e =>
      rw [(run_bind_of_error hx f).1]
      simp [Yields, hx]
  | ok a =>
      rw [result_bind_of_yields ⟨hx, rfl⟩]
      simp [Yields, hx]

/-- A last step that builds the value does not fail. -/
theorem result_bind_pure_eq_error {x : Check α} {g : α → β} :
    ((x >>= fun a => pure (g a)).run σ).result = .error d ↔ (x.run σ).result = .error d := by
  rw [result_bind_pure]
  cases (x.run σ).result <;> simp [Except.map]

end Check

open Check

section

variable {σ : Session} {d : Diagnostic} {span : Span}

theorem error_declareVariable {x : String} {readOnly : Bool} {ty : Ty}
    (h : ((declareVariable x readOnly ty span).run σ).result = .error d) :
    σ.scopes.inner.declares x = true ∧ d = ⟨.alreadyDeclared x, some span⟩ := by
  rw [run_declareVariable] at h
  by_cases hx : σ.scopes.inner.declares x = true
  · rw [if_pos hx] at h
    cases h
    exact ⟨hx, rfl⟩
  · rw [if_neg hx] at h
    cases h

theorem Parameter.error_check {q : Parameter} (h : (q.check.run σ).result = .error d) :
    (q.type.resolve σ.scopes).result = .error d ∨
      σ.scopes.inner.declares q.name = true ∧ d = ⟨.alreadyDeclared q.name, some q.span⟩ := by
  rw [Parameter.check] at h
  rcases Check.result_bind_eq_error.mp h with htype | ⟨ty, τ, hty, hdeclare⟩
  · exact .inl htype
  · obtain ⟨_, rfl⟩ := yields_reading.mp hty
    have hfresh : fresh.Yields τ (.program τ.serial) ⟨τ.scopes, τ.serial + 1⟩ := ⟨rfl, rfl⟩
    rw [result_bind_of_yields hfresh, Check.result_bind_pure_eq_error, run_declare] at hdeclare
    by_cases hx : τ.scopes.inner.declares q.name = true
    · rw [if_pos hx] at hdeclare
      cases hdeclare
      exact .inr ⟨hx, rfl⟩
    · rw [if_neg hx] at hdeclare
      cases hdeclare

/-- Parameters are refused for one of them, after those before it are declared. -/
theorem Parameter.error_checkAll : ∀ {ps : List Parameter} {σ : Session},
    ((Parameter.checkAll ps).run σ).result = .error d →
      ∃ (k : Nat) (q : Parameter) (ds : List Decl.Parameter) (τ : Session), ps[k]? = some q ∧
        (Parameter.checkAll (ps.take k)).Yields σ ds τ ∧ (q.check.run τ).result = .error d
  | [], _, h => by cases h
  | p :: ps, σ, h => by
      rw [Parameter.checkAll] at h
      rcases Check.result_bind_eq_error.mp h with h | ⟨e, τ, he, h⟩
      · exact ⟨0, p, [], σ, rfl, ⟨rfl, rfl⟩, h⟩
      · obtain ⟨k, q, ds, υ, hq, hds, herr⟩ :=
          Parameter.error_checkAll (Check.result_bind_pure_eq_error.mp h)
        refine ⟨k + 1, q, e :: ds, υ, hq, ?_, herr⟩
        rw [List.take_succ_cons, Parameter.checkAll]
        exact yields_bind.mpr ⟨e, τ, he, yields_bind.mpr ⟨ds, υ, hds, yields_pure.mpr ⟨rfl, rfl⟩⟩⟩

section

variable {name : String} {parameters : List Parameter} {result : Option TypeExpr}
  {body : List Stmt}

/-- A function whose result type is accepted comes to what its inside comes to, as long as its
    parameters are refused. -/
theorem Stmt.result_function_of_parameters {ty : Ty} (hty : (checkResult result).Yields σ ty σ)
    (hps : ((Parameter.checkAll parameters).run (σ.enter .functionBody)).result = .error d) :
    ((Stmt.function name parameters result body span).check.run σ).result = .error d := by
  obtain ⟨new, hscopes⟩ := Parameter.scopes_checkAll parameters σ
  obtain ⟨hres, hses⟩ := run_bind_of_error hps fun ds => do
    let f ← declareFunction name ⟨ds.map (·.ty), ty⟩ span
    let rs ← Stmt.checkAll body
    return Resolved.Stmt.function f ds rs
  have houter : ((checkInside name parameters ty body span).run
      (σ.enter .functionBody)).session.scopes.outer = σ.scopes.inner :: σ.scopes.outer := by
    rw [checkInside, hses, hscopes]
  rw [Stmt.check_function, result_bind_of_yields hty, run_inScope houter]
  exact hres

/-- A function whose head succeeds is refused for its body. -/
theorem FunctionHead.error_body {ds : List Decl.Parameter} {f : Decl.Function} {τ : Session}
    (hhead : FunctionHead name parameters result span σ ds f τ)
    (h : ((Stmt.function name parameters result body span).check.run σ).result = .error d) :
    ((Stmt.checkAll body).run τ).result = .error d := by
  rw [(hhead.run_check body).1] at h
  cases hbody : ((Stmt.checkAll body).run τ).result with
  | error e =>
      rw [hbody] at h
      cases h
      rfl
  | ok rs =>
      rw [hbody] at h
      cases h

/-- **Why a function is refused.** -/
theorem Stmt.error_cases_function
    (h : ((Stmt.function name parameters result body span).check.run σ).result = .error d) :
    ((checkResult result).run σ).result = .error d ∨
      ((Parameter.checkAll parameters).run (σ.enter .functionBody)).result = .error d ∨
      (σ.scopes.inner.declares name = true ∧ d = ⟨.alreadyDeclared name, some span⟩) ∨
      ∃ ds f τ, FunctionHead name parameters result span σ ds f τ ∧
        ((Stmt.checkAll body).run τ).result = .error d := by
  cases hresult : ((checkResult result).run σ).result with
  | error e =>
      rw [Stmt.check_function, (run_bind_of_error hresult _).1] at h
      cases h
      exact .inl rfl
  | ok ty =>
      have hty : (checkResult result).Yields σ ty σ := ⟨hresult, session_checkResult result σ⟩
      cases hparams : ((Parameter.checkAll parameters).run (σ.enter .functionBody)).result with
      | error e =>
          rw [Stmt.result_function_of_parameters hty hparams] at h
          cases h
          exact .inr (.inl rfl)
      | ok ds =>
          have hds : (Parameter.checkAll parameters).Yields (σ.enter .functionBody) ds _ :=
            ⟨hparams, rfl⟩
          by_cases hname : σ.scopes.inner.declares name = true
          · rw [Stmt.result_function_of_taken hty hds hname] at h
            exact .inr (.inr (.inl ⟨hname, (Except.error.inj h).symm⟩))
          · -- the head succeeds, so the body decides
            obtain ⟨new, n, hsession⟩ := Parameter.session_of_yields hds
            rw [hsession] at hds
            have hfree : σ.scopes.inner.declares name = false := eq_false_of_ne_true hname
            have hf : (declareFunction name ⟨ds.map (·.ty), ty⟩ span).Yields
                ⟨⟨⟨new, false, none⟩, σ.scopes.inner :: σ.scopes.outer⟩, n⟩ _ _ :=
              yields_declareFunction.mpr ⟨hfree, rfl, rfl⟩
            have hhead : FunctionHead name parameters result span σ ds _ _ :=
              ⟨ty, σ, _, hty, hds, hf⟩
            exact .inr (.inr (.inr ⟨ds, _, _, hhead, hhead.error_body h⟩))

end

/-- A block in a scope of its own fails as its statements do there. -/
theorem Stmt.error_inScope {kind : ScopeKind} {body : List Stmt}
    (h : ((Check.inScope kind (Stmt.checkAll body)).run σ).result = .error d) :
    ((Stmt.checkAll body).run (σ.enter kind)).result = .error d := by
  rwa [(Stmt.tame_checkAll body).result_inScope] at h

/-- A loop over a list is refused for what it runs over or for its body: in the scope of the body,
    which is new, its iterator can be declared. -/
theorem Stmt.error_cases_forEach {iterator : String} {collection : Expr} {body : List Stmt}
    (h : ((Stmt.forEach iterator collection body span).check.run σ).result = .error d) :
    ((checkCollection collection).run σ).result = .error d ∨
      ∃ r element v τ, (checkCollection collection).Yields σ (r, element) σ ∧
        (declareVariable iterator true element span).Yields (σ.enter .loop) v τ ∧
        ((Stmt.checkAll body).run τ).result = .error d := by
  rw [Stmt.check] at h
  rcases Check.result_bind_eq_error.mp h with hcollection | ⟨⟨r, element⟩, τ, hr, hinside⟩
  · exact .inl hcollection
  obtain ⟨-, rfl⟩ := yields_checkCollection.mp hr
  have htame := tame_loopBody iterator element span r (Stmt.tame_checkAll body)
  rw [htame.result_inScope] at hinside
  rcases Check.result_bind_eq_error.mp hinside with hdeclare | ⟨v, υ, hv, hbody⟩
  · obtain ⟨hx, -⟩ := error_declareVariable hdeclare
    cases hx
  · exact .inr ⟨r, element, v, υ, hr, hv, Check.result_bind_pure_eq_error.mp hbody⟩

end

end Sema
