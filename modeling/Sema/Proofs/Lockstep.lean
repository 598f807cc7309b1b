import Sema.Proofs.Frame
import Sema.Proofs.Stack
import Sema.Syntax.Node

/-!
# Checks in lockstep

A check looks at its session only through the names that its statements mention, the names that they
declare in the current scope, the loop and the function around. So two sessions that agree on these
(`Session.Agree`) come to the same, whatever else is in their scopes and however deep their stacks
are, and they still agree afterwards (`Stmt.respects_checkAll`).

The two sessions have to count with the same numbers here; then what is declared on the way is the
same in both. Inside a new scope nothing is declared yet, so there the sessions agree on every
declaration. What a function declares lands in the scope around the new one, so the agreement of
the stacks around is carried along (`Session.AgreeInside`) and taken up again when the scope is
closed (`Check.respects_inScope`).
-/

namespace Sema

/-! ## 1. Names that are mentioned -/

/-- The name that a node is. -/
def Node.mentioned? : Node → Option String
  | .expr (.name x _) | .type (.named x _) => some x
  | _ => none

/-- The names that nodes mention denote the same. -/
def Scopes.AgreeOn (ns : List Node) (Γ Δ : Scopes) : Prop :=
  ∀ n ∈ ns, ∀ x, n.mentioned? = some x → Γ.lookup? x = Δ.lookup? x

section

variable {ns ms : List Node} {Γ Δ : Scopes}

theorem Scopes.AgreeOn.mono (h : Γ.AgreeOn ns Δ) (hsub : ms ⊆ ns) : Γ.AgreeOn ms Δ :=
  fun n hn => h n (hsub hn)

theorem Scopes.AgreeOn.tail {n : Node} (h : Γ.AgreeOn (n :: ns) Δ) : Γ.AgreeOn ns Δ :=
  h.mono (List.subset_cons_self _ _)

theorem Scopes.AgreeOn.left (h : Γ.AgreeOn (ns ++ ms) Δ) : Γ.AgreeOn ns Δ :=
  h.mono (List.subset_append_left _ _)

theorem Scopes.AgreeOn.right (h : Γ.AgreeOn (ns ++ ms) Δ) : Γ.AgreeOn ms Δ :=
  h.mono (List.subset_append_right _ _)

/-- The scopes around the current one may change: a name is found in the current one on both sides
    or on neither. -/
theorem Scopes.AgreeOn.around {inner inner' f f' g g' : Frame} {fs gs : List Frame}
    (h : (Scopes.mk inner (f :: fs)).AgreeOn ns (Scopes.mk inner' (g :: gs)))
    (hdeclares : ∀ x, inner.declares x = inner'.declares x)
    (haround : (Scopes.mk f' fs).AgreeOn ns (Scopes.mk g' gs)) :
    (Scopes.mk inner (f' :: fs)).AgreeOn ns (Scopes.mk inner' (g' :: gs)) := by
  intro n hn x hx
  have hhere := h n hn x hx
  have hback := haround n hn x hx
  have hfound := hdeclares x
  unfold Frame.declares at hfound
  rw [Scopes.lookup?_mk, Scopes.lookup?_mk] at hhere ⊢
  cases hi : inner.find? x with
  | none =>
      have hi' : inner'.find? x = none := by simpa [hi] using hfound
      rw [hi', hback]
  | some e =>
      obtain ⟨e', hi'⟩ : ∃ e', inner'.find? x = some e' := by
        simpa [hi, Option.isSome_iff_exists] using hfound
      rw [hi, hi'] at hhere
      rw [hi']
      exact hhere

theorem Traced.result_bind_congr {α β : Type} {x y : Traced α} {f g : α → Traced β}
    (h : x.result = y.result) (hfg : ∀ a, (f a).result = (g a).result) :
    (x >>= f).result = (y >>= g).result := by
  rw [Traced.result_bind, Traced.result_bind, h]
  simp only [hfg]

open Traced

theorem Scopes.result_resolve_congr {x : String} {span : Span} (h : Γ.lookup? x = Δ.lookup? x) :
    (Γ.resolve x span).result = (Δ.resolve x span).result := by
  have hresult : ∀ Θ : Scopes, (Θ.resolve x span).result =
      (Θ.lookup? x).elim (.error ⟨.notDeclared x, some span⟩) .ok := by
    intro Θ
    unfold Scopes.resolve Scopes.lookup?
    cases Θ.locate? x <;> rfl
  rw [hresult, hresult, h]

mutual

theorem TypeExpr.result_resolve_congr : ∀ t : TypeExpr, Γ.AgreeOn t.nodes Δ →
    (t.resolve Γ).result = (t.resolve Δ).result
  | .named x span, h => by
      have hx : Γ.lookup? x = Δ.lookup? x := h _ List.mem_cons_self x rfl
      rw [TypeExpr.resolve, TypeExpr.resolve]
      exact result_bind_congr (Scopes.result_resolve_congr hx) fun _ => rfl
  | .list element span, h => by
      have ht := element.result_resolve_congr h.tail
      rw [TypeExpr.resolve, TypeExpr.resolve]
      exact result_bind_congr ht fun _ => rfl
  | .function parameters result span, h => by
      have hps := TypeExpr.result_resolveAll_congr parameters h.tail.left
      have hr := result.result_resolve_congr h.tail.right
      rw [TypeExpr.resolve, TypeExpr.resolve]
      exact result_bind_congr hps fun _ => result_bind_congr hr fun _ => rfl

theorem TypeExpr.result_resolveAll_congr : ∀ ts : List TypeExpr,
    Γ.AgreeOn (TypeExpr.nodesAll ts) Δ →
      (TypeExpr.resolveAll Γ ts).result = (TypeExpr.resolveAll Δ ts).result
  | [], _ => rfl
  | t :: ts, h => by
      have ht := t.result_resolve_congr h.left
      have hts := TypeExpr.result_resolveAll_congr ts h.right
      rw [TypeExpr.resolveAll, TypeExpr.resolveAll]
      exact result_bind_congr ht fun _ => result_bind_congr hts fun _ => rfl

end

mutual

/-- **An expression comes to the same where the names that it mentions denote the same.** -/
theorem Expr.result_check_congr : ∀ e : Expr, Γ.AgreeOn e.nodes Δ →
    (e.check Γ).result = (e.check Δ).result
  | .int _ _, _ | .float _ _, _ | .bool _ _, _ | .str _ _, _ => by
      rw [Expr.check, Expr.check]
  | .name x span, h => by
      have hx : Γ.lookup? x = Δ.lookup? x := h _ List.mem_cons_self x rfl
      rw [Expr.check, Expr.check]
      exact result_bind_congr (Scopes.result_resolve_congr hx) fun _ => rfl
  | .conditional test consequent alternate span, h => by
      have ht := test.result_check_congr h.tail.left.left
      have hc := consequent.result_check_congr h.tail.left.right
      have ha := alternate.result_check_congr h.tail.right
      rw [Expr.check, Expr.check]
      exact result_bind_congr ht fun _ => result_bind_congr rfl fun _ =>
        result_bind_congr hc fun _ => result_bind_congr ha fun _ => rfl
  | .logical op operands span, h => by
      have hes := Expr.result_checkAll_congr operands h.tail
      rw [Expr.check, Expr.check]
      exact result_bind_congr hes fun _ => rfl
  | .binary op left right span, h => by
      have hl := left.result_check_congr h.tail.left
      have hr := right.result_check_congr h.tail.right
      rw [Expr.check, Expr.check]
      exact result_bind_congr hl fun _ => result_bind_congr hr fun _ => rfl
  | .unary op operand span, h => by
      have he := operand.result_check_congr h.tail
      rw [Expr.check, Expr.check]
      exact result_bind_congr he fun _ => rfl
  | .subscript items index span, h => by
      have hl := items.result_check_congr h.tail.left
      have hi := index.result_check_congr h.tail.right
      rw [Expr.check, Expr.check]
      exact result_bind_congr hl fun _ => result_bind_congr rfl fun _ =>
        result_bind_congr hi fun _ => rfl
  | .list elements span, h => by
      have hes := Expr.result_checkAll_congr elements h.tail
      rw [Expr.check, Expr.check]
      exact result_bind_congr hes fun _ => rfl
  | .emptyList element span, h => by
      have ht := element.result_resolve_congr h.tail
      rw [Expr.check, Expr.check]
      exact result_bind_congr ht fun _ => rfl
  | .call callee arguments span, h => by
      have hf := callee.result_check_congr h.tail.left
      have hes := Expr.result_checkAll_congr arguments h.tail.right
      rw [Expr.check, Expr.check]
      exact result_bind_congr hf fun _ => result_bind_congr rfl fun _ =>
        result_bind_congr hes fun _ => rfl

theorem Expr.result_checkAll_congr : ∀ es : List Expr, Γ.AgreeOn (Expr.nodesAll es) Δ →
    (Expr.checkAll Γ es).result = (Expr.checkAll Δ es).result
  | [], _ => rfl
  | e :: es, h => by
      have he := e.result_check_congr h.left
      have hes := Expr.result_checkAll_congr es h.right
      rw [Expr.checkAll, Expr.checkAll]
      exact result_bind_congr he fun _ => result_bind_congr hes fun _ => rfl

end

end

/-! ## 2. Sessions that agree -/

/-- The sessions agree on what a check can see of them: the names that `ns` mention, which names out
    of `D` the current scope declares, the loop and the function around. They hand out the same
    numbers. -/
structure Session.Agree (ns : List Node) (D : String → Prop) (s t : Session) : Prop where
  serial : s.serial = t.serial
  lookup : s.scopes.AgreeOn ns t.scopes
  declares : ∀ x, D x → s.scopes.inner.declares x = t.scopes.inner.declares x
  inLoop : s.scopes.inLoop = t.scopes.inLoop
  function : s.scopes.currentFunction = t.scopes.currentFunction

/-- The sessions agree in a new scope, on all that it declares, and the stacks around it agree. -/
structure Session.AgreeInside (ns : List Node) (D : String → Prop) (s t : Session) : Prop where
  here : s.Agree ns (fun _ => True) t
  around : ∃ f fs g gs, s.scopes.outer = f :: fs ∧ t.scopes.outer = g :: gs ∧
    Session.Agree ns D ⟨⟨f, fs⟩, s.serial⟩ ⟨⟨g, gs⟩, t.serial⟩

namespace Session

variable {ns : List Node} {D : String → Prop} {s t : Session}

/-- Numbers are not seen by the scopes. -/
theorem Agree.recount (h : s.Agree ns D t) {m n : Nat} (hmn : m = n) :
    Agree ns D ⟨s.scopes, m⟩ ⟨t.scopes, n⟩ :=
  ⟨hmn, h.lookup, h.declares, h.inLoop, h.function⟩

/-- The same declaration on both sides. -/
theorem Agree.bind (h : s.Agree ns D t) (x : String) (e : Entity) :
    Agree ns D { s with scopes := { s.scopes with inner := s.scopes.inner.bind x e } }
      { t with scopes := { t.scopes with inner := t.scopes.inner.bind x e } } where
  serial := h.serial
  lookup n hn y hy := by
    show ({ s.scopes with inner := s.scopes.inner.bind x e } : Scopes).lookup? y =
      ({ t.scopes with inner := t.scopes.inner.bind x e } : Scopes).lookup? y
    rw [Scopes.lookup?_bind, Scopes.lookup?_bind, h.lookup n hn y hy]
  declares y hy := by
    show (s.scopes.inner.bind x e).declares y = (t.scopes.inner.bind x e).declares y
    have hold := h.declares y hy
    unfold Frame.declares at hold ⊢
    rw [Frame.find?_bind, Frame.find?_bind]
    by_cases hyx : y = x
    · rw [if_pos hyx, if_pos hyx]
    · rw [if_neg hyx, if_neg hyx, hold]
  inLoop := h.inLoop
  function := h.function

/-- A new scope declares nothing yet, and takes its context from the scope around it. -/
theorem Agree.enter (h : s.Agree ns D t) (kind : ScopeKind) :
    AgreeInside ns D (s.enter kind) (t.enter kind) where
  here := by
    have hinner : s.scopes.inner.child kind = t.scopes.inner.child kind := by
      have hloop : s.scopes.inner.inLoop = t.scopes.inner.inLoop := h.inLoop
      have hfunction : s.scopes.inner.function = t.scopes.inner.function := h.function
      cases kind <;> simp [Frame.child, hloop, hfunction]
    refine ⟨h.serial, fun n hn x hx => ?_, fun x _ => congrArg (Frame.declares · x) hinner,
      congrArg Frame.inLoop hinner, congrArg Frame.function hinner⟩
    show (s.scopes.enter kind).lookup? x = (t.scopes.enter kind).lookup? x
    rw [Scopes.lookup?_enter, Scopes.lookup?_enter, h.lookup n hn x hx]
  around := ⟨s.scopes.inner, s.scopes.outer, t.scopes.inner, t.scopes.outer, rfl, rfl, h⟩

end Session

/-! ## 3. Computations that keep sessions in agreement -/

namespace Check

variable {α β : Type} {A : Session → Session → Prop} {ns : List Node} {D : String → Prop}

/-- On sessions that are related, the computation comes to the same and leaves sessions that are
    related. -/
def Respects (A : Session → Session → Prop) (x : Check α) : Prop :=
  ∀ s t, A s t → (x.run s).result = (x.run t).result ∧ A (x.run s).session (x.run t).session

theorem respects_pure (a : α) : (pure a : Check α).Respects A := fun _ _ h => ⟨rfl, h⟩

theorem respects_bind {x : Check α} {f : α → Check β} (hx : x.Respects A)
    (hf : ∀ a, (f a).Respects A) : (x >>= f).Respects A := by
  intro s t h
  obtain ⟨hresult, hsession⟩ := hx s t h
  rw [run_bind, run_bind, hresult]
  cases (x.run t).result with
  | error d => exact ⟨rfl, hsession⟩
  | ok a => exact hf a _ _ hsession

theorem respects_reading {x : Scopes → Traced α}
    (hx : ∀ s t, A s t → (x s.scopes).result = (x t.scopes).result) : (reading x).Respects A :=
  fun s t h => ⟨hx s t h, h⟩

theorem respects_fresh : fresh.Respects (Session.Agree ns D) := by
  intro s t h
  rw [run_fresh, run_fresh, h.serial]
  exact ⟨rfl, h.recount rfl⟩

theorem respects_declare {x : String} (e : Entity) (span : Option Span) (hx : D x) :
    (declare x e span).Respects (Session.Agree ns D) := by
  intro s t h
  rw [run_declare, run_declare, h.declares x hx]
  cases t.scopes.inner.declares x with
  | true => exact ⟨rfl, h⟩
  | false => exact ⟨rfl, h.bind x e⟩

/-- What only declares in the current scope leaves the stacks around it alone. -/
theorem respects_inside {x : Check α} {names : List String} (htame : x.Tame names)
    (hx : x.Respects (Session.Agree ns fun _ => True)) :
    x.Respects (Session.AgreeInside ns D) := by
  intro s t h
  obtain ⟨f, fs, g, gs, hs, ht, haround⟩ := h.around
  obtain ⟨hresult, hsession⟩ := hx s t h.here
  refine ⟨hresult, hsession, f, fs, g, gs, ?_, ?_, haround.recount hsession.serial⟩
  · rw [(htame.gains s).outer, hs]
  · rw [(htame.gains t).outer, ht]

/-- **When a scope is closed, the sessions agree as the stacks around it did.** -/
theorem respects_inScope {x : Check α} (kind : ScopeKind)
    (hx : x.Respects (Session.AgreeInside ns D)) :
    (inScope kind x).Respects (Session.Agree ns D) := by
  intro s t h
  obtain ⟨hresult, hsession⟩ := hx _ _ (h.enter kind)
  obtain ⟨f, fs, g, gs, hs, ht, haround⟩ := hsession.around
  rw [run_inScope hs, run_inScope ht]
  exact ⟨hresult, haround⟩

/-- A function is recorded in the current scope and declared in the scope around it. -/
theorem respects_declareFunction {name : String} (signature : Signature) (span : Span)
    (hname : D name) :
    (declareFunction name signature span).Respects (Session.AgreeInside ns D) := by
  intro s t h
  obtain ⟨⟨inner, outer⟩, n⟩ := s
  obtain ⟨⟨inner', outer'⟩, m⟩ := t
  obtain ⟨f, fs, g, gs, hs, ht, haround⟩ := h.around
  obtain rfl : outer = f :: fs := hs
  obtain rfl : outer' = g :: gs := ht
  obtain rfl : n = m := h.here.serial
  have hdeclares : f.declares name = g.declares name := haround.declares name hname
  rw [run_declareFunction, run_declareFunction, hdeclares]
  by_cases hg : g.declares name = true
  · rw [if_pos hg, if_pos hg]
    exact ⟨rfl, ⟨rfl, h.here.lookup, h.here.declares, h.here.inLoop, rfl⟩, f, fs, g, gs, rfl, rfl,
      haround.recount rfl⟩
  · rw [if_neg hg, if_neg hg]
    have hbound := haround.bind name (.func ⟨.program n, name, signature⟩)
    have hlookup := h.here.lookup.around (fun y => h.here.declares y trivial) hbound.lookup
    exact ⟨rfl, ⟨rfl, hlookup, h.here.declares, h.here.inLoop, rfl⟩, _, fs, _, gs, rfl, rfl,
      hbound.recount rfl⟩

end Check

/-! ## 4. Statements -/

open Check Traced

section

variable {ns : List Node} {D : String → Prop}

theorem respects_checkExpr {e : Expr} (hns : e.nodes ⊆ ns) :
    (reading fun Γ => e.check Γ).Respects (Session.Agree ns D) :=
  respects_reading fun _ _ h => e.result_check_congr (h.lookup.mono hns)

theorem respects_resolve {t : TypeExpr} (hns : t.nodes ⊆ ns) :
    (reading fun Γ => t.resolve Γ).Respects (Session.Agree ns D) :=
  respects_reading fun _ _ h => t.result_resolve_congr (h.lookup.mono hns)

theorem respects_checkCounter {target : Expr} (span : Span) (hns : target.nodes ⊆ ns) :
    (checkCounter target span).Respects (Session.Agree ns D) :=
  respects_reading fun _ _ h =>
    result_bind_congr (target.result_check_congr (h.lookup.mono hns)) fun _ => rfl

theorem respects_checkAssign {target source : Expr} (span : Span) (htarget : target.nodes ⊆ ns)
    (hsource : source.nodes ⊆ ns) :
    (checkAssign target source span).Respects (Session.Agree ns D) :=
  respects_reading fun _ _ h =>
    result_bind_congr (source.result_check_congr (h.lookup.mono hsource)) fun _ =>
      result_bind_congr (target.result_check_congr (h.lookup.mono htarget)) fun _ => rfl

theorem enclosingResult_congr {Γ Δ : Scopes} (h : Γ.currentFunction = Δ.currentFunction)
    (span : Span) : enclosingResult Γ span = enclosingResult Δ span := by
  unfold enclosingResult
  rw [h]

theorem respects_checkReturnValue {value : Expr} (span : Span) (hns : value.nodes ⊆ ns) :
    (checkReturnValue value span).Respects (Session.Agree ns D) :=
  respects_reading fun _ _ h =>
    result_bind_congr (congrArg _ (enclosingResult_congr h.function span)) fun _ =>
      result_bind_congr rfl fun _ =>
        result_bind_congr (value.result_check_congr (h.lookup.mono hns)) fun _ => rfl

theorem respects_checkReturnNothing (span : Span) :
    (checkReturnNothing span).Respects (Session.Agree ns D) :=
  respects_reading fun _ _ h =>
    result_bind_congr (congrArg _ (enclosingResult_congr h.function span)) fun _ => rfl

theorem respects_checkTest {test : Expr} (hns : test.nodes ⊆ ns) :
    (checkTest test).Respects (Session.Agree ns D) :=
  respects_reading fun _ _ h =>
    result_bind_congr (test.result_check_congr (h.lookup.mono hns)) fun _ => rfl

theorem respects_checkCollection {collection : Expr} (hns : collection.nodes ⊆ ns) :
    (checkCollection collection).Respects (Session.Agree ns D) :=
  respects_reading fun _ _ h =>
    result_bind_congr (collection.result_check_congr (h.lookup.mono hns)) fun _ => rfl

theorem respects_checkResult {result : Option TypeExpr}
    (hns : result.elim [] TypeExpr.nodes ⊆ ns) :
    (checkResult result).Respects (Session.Agree ns D) := by
  cases result with
  | none => exact respects_pure _
  | some t => exact respects_resolve hns

theorem respects_declareVariable {name : String} (readOnly : Bool) (ty : Ty) (span : Span)
    (hname : D name) : (declareVariable name readOnly ty span).Respects (Session.Agree ns D) :=
  respects_bind respects_fresh fun _ =>
    respects_bind (respects_declare _ (some span) hname) fun _ => respects_pure _

theorem Parameter.respects_check {p : Parameter} (hns : p.nodes ⊆ ns) (hname : D p.name) :
    p.check.Respects (Session.Agree ns D) :=
  respects_bind (respects_resolve (List.Subset.trans (List.subset_cons_self _ _) hns)) fun _ =>
    respects_bind respects_fresh fun _ =>
      respects_bind (respects_declare _ (some p.span) hname) fun _ => respects_pure _

/-- Parameters are declared in a scope of their own. -/
theorem Parameter.respects_checkAll : ∀ {ps : List Parameter}, ps.flatMap Parameter.nodes ⊆ ns →
    (Parameter.checkAll ps).Respects (Session.Agree ns fun _ => True)
  | [], _ => respects_pure _
  | p :: ps, hns => by
      rw [List.flatMap_cons, List.append_subset] at hns
      exact respects_bind (Parameter.respects_check hns.1 trivial) fun _ =>
        respects_bind (Parameter.respects_checkAll hns.2) fun _ => respects_pure _

/-- The exit of a loop sees only whether there is a loop. -/
theorem respects_exitLoop (span : Span) :
    (Stmt.exitLoop span).check.Respects (Session.Agree ns D) := by
  intro s t h
  rw [Stmt.check]
  simp only [run_bind, run_scopes, Check.require, run_reading, h.inLoop]
  cases (Traced.require t.scopes.inLoop .exitOutsideLoop span).result with
  | error d => exact ⟨rfl, h⟩
  | ok u => exact ⟨rfl, h⟩

mutual

/-- **The check of a statement keeps agreeing sessions in agreement.** -/
theorem Stmt.respects_check : ∀ (s : Stmt) {D : String → Prop}, s.nodes ⊆ ns →
    (∀ x, s.declares? = some x → D x) → s.check.Respects (Session.Agree ns D)
  | .declare name readOnly init span, D, hns, hD => by
      rw [Stmt.nodes, List.cons_subset] at hns
      rw [Stmt.check]
      exact respects_bind (respects_checkExpr hns.2) fun r =>
        respects_bind (respects_declareVariable readOnly r.ty span (hD name rfl)) fun _ =>
          respects_pure _
  | .function name parameters result body span, D, hns, hD => by
      rw [Stmt.nodes, List.cons_subset, List.append_subset, List.append_subset] at hns
      obtain ⟨-, hparameters, hresult, hbody⟩ := hns
      rw [Stmt.check]
      refine respects_bind (respects_checkResult hresult) fun ty => ?_
      refine respects_inScope .functionBody ?_
      -- the parameters and the body stay inside, and the function is declared around
      have hps := Parameter.respects_checkAll hparameters
      have hrs := Stmt.respects_checkAll body (D := fun _ => True) hbody fun _ _ => trivial
      exact respects_bind (respects_inside (Parameter.tame_checkAll parameters) hps) fun ps =>
        respects_bind (respects_declareFunction _ span (hD name rfl)) fun _ =>
        respects_bind (respects_inside (Stmt.tame_checkAll body) hrs) fun _ => respects_pure _
  | .step dir target span, D, hns, _ => by
      rw [Stmt.nodes, List.cons_subset] at hns
      rw [Stmt.check]
      exact respects_bind (respects_checkCounter span hns.2) fun _ => respects_pure _
  | .assign target source span, D, hns, _ => by
      rw [Stmt.nodes, List.cons_subset, List.append_subset] at hns
      rw [Stmt.check]
      exact respects_checkAssign span hns.2.1 hns.2.2
  | .exitLoop span, D, _, _ => respects_exitLoop span
  | .returnValue value span, D, hns, _ => by
      rw [Stmt.nodes, List.cons_subset] at hns
      rw [Stmt.check]
      exact respects_checkReturnValue span hns.2
  | .returnNothing span, D, _, _ => by
      rw [Stmt.check]
      exact respects_checkReturnNothing span
  | .branch b, D, hns, _ => by
      rw [Stmt.nodes, List.cons_subset] at hns
      rw [Stmt.check]
      exact respects_bind (b.respects_check hns.2) fun _ => respects_pure _
  | .whileLoop test body span, D, hns, _ => by
      rw [Stmt.nodes, List.cons_subset, List.append_subset] at hns
      rw [Stmt.check]
      exact respects_bind (respects_checkTest hns.2.1) fun _ =>
        respects_bind (Stmt.respects_block .loop body hns.2.2) fun _ => respects_pure _
  | .forEach iterator collection body span, D, hns, _ => by
      rw [Stmt.nodes, List.cons_subset, List.append_subset] at hns
      have hrs := Stmt.respects_checkAll body (D := fun _ => True) hns.2.2 fun _ _ => trivial
      rw [Stmt.check]
      refine respects_bind (respects_checkCollection hns.2.1) fun ⟨r, element⟩ => ?_
      refine respects_inScope .loop (respects_inside
        (tame_loopBody iterator element span r (Stmt.tame_checkAll body)) ?_)
      exact respects_bind (respects_declareVariable true element span trivial) fun _ =>
        respects_bind hrs fun _ => respects_pure _
  | .eval expr span, D, hns, _ => by
      rw [Stmt.nodes, List.cons_subset] at hns
      rw [Stmt.check]
      exact respects_bind (respects_checkExpr hns.2) fun _ => respects_pure _

theorem Branch.respects_check : ∀ (b : Branch) {D : String → Prop}, b.inner ⊆ ns →
    b.check.Respects (Session.Agree ns D)
  | .mk test consequent alternate span, D, hns => by
      rw [Branch.inner, List.append_subset, List.append_subset] at hns
      rw [Branch.check]
      exact respects_bind (respects_checkTest hns.1) fun _ =>
        respects_bind (Stmt.respects_block .block consequent hns.2.1) fun _ =>
        respects_bind (alternate.respects_check hns.2.2) fun _ => respects_pure _

theorem Alternate.respects_check : ∀ (a : Alternate) {D : String → Prop}, a.nodes ⊆ ns →
    a.check.Respects (Session.Agree ns D)
  | .none, D, _ => by
      rw [Alternate.check]
      exact respects_pure _
  | .block body, D, hns => by
      rw [Alternate.check]
      exact respects_bind (Stmt.respects_block .block body hns) fun _ => respects_pure _
  | .elseIf next, D, hns => by
      rw [Alternate.nodes, List.cons_subset] at hns
      rw [Alternate.check]
      exact respects_bind (next.respects_check hns.2) fun _ => respects_pure _

/-- A scope of its own: nothing is declared in it before. -/
theorem Stmt.respects_block : ∀ (kind : ScopeKind) (body : List Stmt) {D : String → Prop},
    Stmt.nodesAll body ⊆ ns →
      (inScope kind (Stmt.checkAll body)).Respects (Session.Agree ns D)
  | kind, body, D, hns =>
      respects_inScope kind (respects_inside (Stmt.tame_checkAll body)
        (Stmt.respects_checkAll body (D := fun _ => True) hns fun _ _ => trivial))

/-- So do statements in a row. -/
theorem Stmt.respects_checkAll : ∀ (ss : List Stmt) {D : String → Prop}, Stmt.nodesAll ss ⊆ ns →
    (∀ x ∈ ss.filterMap Stmt.declares?, D x) →
      (Stmt.checkAll ss).Respects (Session.Agree ns D)
  | [], D, _, _ => by
      rw [Stmt.checkAll]
      exact respects_pure _
  | s :: ss, D, hns, hD => by
      rw [Stmt.nodesAll, List.append_subset] at hns
      have hhead : ∀ x, s.declares? = some x → D x := fun x hx =>
        hD x (List.mem_filterMap.mpr ⟨s, List.mem_cons_self, hx⟩)
      have htail : ∀ x ∈ ss.filterMap Stmt.declares?, D x := by
        intro x hx
        obtain ⟨r, hr, hrx⟩ := List.mem_filterMap.mp hx
        exact hD x (List.mem_filterMap.mpr ⟨r, List.mem_cons_of_mem _ hr, hrx⟩)
      rw [Stmt.checkAll]
      exact respects_bind (s.respects_check hns.1 hhead) fun _ =>
        respects_bind (Stmt.respects_checkAll ss hns.2 htail) fun _ => respects_pure _

end

end

end Sema
