import Sema.Proofs.Rules
import Sema.Proofs.Run

/-!
# The checks derive the judgement

Each check succeeds exactly with what the judgement derives in the environment that the open scopes
read as. For written types and expressions this is all (`Expr.result_check_eq_ok`). Statements also
count declarations and write into the scopes: the check of a statement yields what the judgement
derives when its declarations carry the next numbers in the order of `Resolved.Stmt.declared`, and
the session it leaves is told by what it yields (`Stmt.yields_check`).
-/

namespace Sema

open Traced Check

/-! ## 1. Written types and expressions -/

mutual

theorem TypeExpr.result_resolve_eq_ok (Γ : Scopes) : ∀ (e : TypeExpr) (t : Ty),
    (e.resolve Γ).result = .ok t ↔ e.Denotes Γ.env t
  | .named x span, t => by
      rw [TypeExpr.resolve, result_bind_eq_ok]
      constructor
      · rintro ⟨e, he, ht⟩
        cases e with
        | type u =>
            obtain rfl := result_pure_eq_ok.mp ht
            exact .named (Scopes.result_resolve_eq_ok.mp he)
        | _ => cases ht
      · intro h
        cases h with
        | named found => exact ⟨_, Scopes.result_resolve_eq_ok.mpr found, rfl⟩
  | .list element span, t => by
      rw [TypeExpr.resolve]
      simp only [result_bind_eq_ok, element.result_resolve_eq_ok Γ, result_pure_eq_ok]
      constructor
      · rintro ⟨u, hu, rfl⟩
        exact .list hu
      · intro h
        cases h with
        | list he => exact ⟨_, he, rfl⟩
  | .function parameters result span, t => by
      rw [TypeExpr.resolve]
      simp only [result_bind_eq_ok, TypeExpr.result_resolveAll_eq_ok Γ parameters,
        result.result_resolve_eq_ok Γ, result_pure_eq_ok]
      constructor
      · rintro ⟨ts, hts, u, hu, rfl⟩
        exact .function hts hu
      · intro h
        cases h with
        | function hps hr => exact ⟨_, hps, _, hr, rfl⟩

theorem TypeExpr.result_resolveAll_eq_ok (Γ : Scopes) : ∀ (es : List TypeExpr) (ts : List Ty),
    (TypeExpr.resolveAll Γ es).result = .ok ts ↔ List.Forall₂ (TypeExpr.Denotes Γ.env) es ts
  | [], ts => by
      rw [TypeExpr.resolveAll, result_pure_eq_ok, List.forall₂_nil_left_iff]
  | e :: es, ts => by
      rw [TypeExpr.resolveAll]
      simp only [result_bind_eq_ok, e.result_resolve_eq_ok Γ, TypeExpr.result_resolveAll_eq_ok Γ es,
        result_pure_eq_ok, List.forall₂_cons_left_iff]
      constructor
      · rintro ⟨u, hu, us, hus, rfl⟩
        exact ⟨u, us, hu, hus, rfl⟩
      · rintro ⟨u, us, hu, hus, rfl⟩
        exact ⟨u, hu, us, hus, rfl⟩

end

/-- The check of an expression yields what the judgement derives, in these scopes. -/
def Expr.Agrees (Γ : Scopes) (e : Expr) : Prop :=
  ∀ r, (e.check Γ).result = .ok r ↔ e.Elaborates Γ.env r

/-- So do the checks of several. -/
def Expr.AgreesAll (Γ : Scopes) (es : List Expr) : Prop :=
  ∀ rs, (Expr.checkAll Γ es).result = .ok rs ↔ List.Forall₂ (Expr.Elaborates Γ.env) es rs

section

variable {Γ : Scopes} {span : Span}

theorem Expr.agrees_conditional {test consequent alternate : Expr} (ht : test.Agrees Γ)
    (hc : consequent.Agrees Γ) (ha : alternate.Agrees Γ) :
    (Expr.conditional test consequent alternate span).Agrees Γ := by
  intro r
  unfold Expr.Agrees at ht hc ha
  rw [Expr.check]
  simp only [result_bind_eq_ok, ht, hc, ha, result_expectBool_eq_ok, result_expectSame_eq_ok,
    result_pure_eq_ok]
  constructor
  · rintro ⟨t, ht, _, isBool, c, hc, a, ha, _, same, rfl⟩
    exact .conditional ht hc ha isBool same
  · intro h
    cases h with
    | conditional ht hc ha isBool same =>
        exact ⟨_, ht, (), isBool, _, hc, _, ha, (), same, rfl⟩

theorem Expr.agrees_logical {op : Connective} {operands : List Expr}
    (hoperands : Expr.AgreesAll Γ operands) : (Expr.logical op operands span).Agrees Γ := by
  intro r
  unfold Expr.AgreesAll at hoperands
  rw [Expr.check]
  simp only [result_bind_eq_ok, hoperands, result_pure_eq_ok]
  constructor
  · rintro ⟨rs, hrs, _, areBool, rfl⟩
    exact .logical hrs ((result_expectBools_eq_ok rs operands hrs.length_eq.symm).mp areBool)
  · intro h
    cases h with
    | logical hrs areBool =>
        exact ⟨_, hrs, (), (result_expectBools_eq_ok _ _ hrs.length_eq.symm).mpr areBool, rfl⟩

theorem Expr.agrees_binary {op : BinaryOp} {left right : Expr} (hleft : left.Agrees Γ)
    (hright : right.Agrees Γ) : (Expr.binary op left right span).Agrees Γ := by
  intro r
  unfold Expr.Agrees at hleft hright
  rw [Expr.check]
  simp only [result_bind_eq_ok, hleft, hright, BinaryOp.result_check_eq_ok,
    result_pure_eq_ok]
  constructor
  · rintro ⟨l, hl, r, hr, ty, ⟨same, typed⟩, rfl⟩
    exact .binary hl hr same typed
  · intro h
    cases h with
    | binary hl hr same typed => exact ⟨_, hl, _, hr, _, ⟨same, typed⟩, rfl⟩

theorem Expr.agrees_subscript {items index : Expr} (hitems : items.Agrees Γ)
    (hindex : index.Agrees Γ) : (Expr.subscript items index span).Agrees Γ := by
  intro r
  unfold Expr.Agrees at hitems hindex
  rw [Expr.check]
  simp only [result_bind_eq_ok, hitems, hindex, result_expectList_eq_ok,
    result_expectInteger_eq_ok, result_pure_eq_ok]
  constructor
  · rintro ⟨l, hl, element, isList, i, hi, _, isInt, rfl⟩
    exact .subscript hl hi isList isInt
  · intro h
    cases h with
    | subscript hl hi isList isInt => exact ⟨_, hl, _, isList, _, hi, (), isInt, rfl⟩

theorem Expr.agrees_list {elements : List Expr} (helements : Expr.AgreesAll Γ elements) :
    (Expr.list elements span).Agrees Γ := by
  intro r
  unfold Expr.AgreesAll at helements
  rw [Expr.check]
  simp only [result_bind_eq_ok, helements, result_expectUniform_eq_ok, result_pure_eq_ok,
    List.forall_mem_map, ne_eq, List.map_eq_nil_iff]
  constructor
  · rintro ⟨rs, hrs, element, ⟨nonempty, same⟩, rfl⟩
    exact .list hrs nonempty same
  · intro h
    cases h with
    | list hrs nonempty same => exact ⟨_, hrs, _, ⟨nonempty, same⟩, rfl⟩

theorem Expr.agrees_call {callee : Expr} {arguments : List Expr} (hcallee : callee.Agrees Γ)
    (harguments : Expr.AgreesAll Γ arguments) : (Expr.call callee arguments span).Agrees Γ := by
  intro r
  unfold Expr.Agrees at hcallee
  unfold Expr.AgreesAll at harguments
  rw [Expr.check]
  simp only [result_bind_eq_ok, hcallee, harguments, result_expectCallable_eq_ok,
    result_expectArguments_eq_ok, List.forall₂_map_left_iff, result_pure_eq_ok]
  constructor
  · rintro ⟨f, hf, s, isFunction, rs, hrs, _, assignable, rfl⟩
    exact .call hf hrs isFunction assignable
  · intro h
    cases h with
    | @call _ _ _ _ parameters result _ hf hrs isFunction assignable =>
        exact ⟨_, hf, ⟨parameters, result⟩, isFunction, _, hrs, (), assignable, rfl⟩

end

mutual

/-- **The check of an expression yields what the judgement derives.** -/
theorem Expr.result_check_eq_ok (Γ : Scopes) : ∀ (e : Expr) (r : Resolved.Expr),
    (e.check Γ).result = .ok r ↔ e.Elaborates Γ.env r
  | .int v span, r => by
      rw [Expr.check, result_pure_eq_ok]
      exact ⟨fun h => h ▸ .int, fun h => by cases h; rfl⟩
  | .float v span, r => by
      rw [Expr.check, result_pure_eq_ok]
      exact ⟨fun h => h ▸ .float, fun h => by cases h; rfl⟩
  | .bool v span, r => by
      rw [Expr.check, result_pure_eq_ok]
      exact ⟨fun h => h ▸ .bool, fun h => by cases h; rfl⟩
  | .str v span, r => by
      rw [Expr.check, result_pure_eq_ok]
      exact ⟨fun h => h ▸ .str, fun h => by cases h; rfl⟩
  | .name x span, r => by
      rw [Expr.check]
      simp only [result_bind_eq_ok, Scopes.result_resolve_eq_ok, result_pure_eq_ok]
      constructor
      · rintro ⟨e, he, rfl⟩
        exact .name he
      · intro h
        cases h with
        | name found => exact ⟨_, found, rfl⟩
  | .conditional test consequent alternate span, r =>
      Expr.agrees_conditional (test.result_check_eq_ok Γ) (consequent.result_check_eq_ok Γ)
        (alternate.result_check_eq_ok Γ) r
  | .logical op operands span, r => Expr.agrees_logical (Expr.result_checkAll_eq_ok Γ operands) r
  | .binary op left right span, r =>
      Expr.agrees_binary (left.result_check_eq_ok Γ) (right.result_check_eq_ok Γ) r
  | .unary op operand span, r => by
      rw [Expr.check]
      simp only [result_bind_eq_ok, operand.result_check_eq_ok Γ, UnaryOp.result_check_eq_ok,
        result_pure_eq_ok]
      constructor
      · rintro ⟨e, he, ty, typed, rfl⟩
        exact .unary he typed
      · intro h
        cases h with
        | unary he typed => exact ⟨_, he, _, typed, rfl⟩
  | .subscript items index span, r =>
      Expr.agrees_subscript (items.result_check_eq_ok Γ) (index.result_check_eq_ok Γ) r
  | .list elements span, r => Expr.agrees_list (Expr.result_checkAll_eq_ok Γ elements) r
  | .emptyList element span, r => by
      rw [Expr.check]
      simp only [result_bind_eq_ok, element.result_resolve_eq_ok Γ, result_pure_eq_ok]
      constructor
      · rintro ⟨t, ht, rfl⟩
        exact .emptyList ht
      · intro h
        cases h with
        | emptyList ht => exact ⟨_, ht, rfl⟩
  | .call callee arguments span, r =>
      Expr.agrees_call (callee.result_check_eq_ok Γ) (Expr.result_checkAll_eq_ok Γ arguments) r

theorem Expr.result_checkAll_eq_ok (Γ : Scopes) : ∀ (es : List Expr) (rs : List Resolved.Expr),
    (Expr.checkAll Γ es).result = .ok rs ↔ List.Forall₂ (Expr.Elaborates Γ.env) es rs
  | [], rs => by
      rw [Expr.checkAll, result_pure_eq_ok, List.forall₂_nil_left_iff]
  | e :: es, rs => by
      rw [Expr.checkAll]
      simp only [result_bind_eq_ok, e.result_check_eq_ok Γ, Expr.result_checkAll_eq_ok Γ es,
        result_pure_eq_ok, List.forall₂_cons_left_iff]
      constructor
      · rintro ⟨u, hu, us, hus, rfl⟩
        exact ⟨u, us, hu, hus, rfl⟩
      · rintro ⟨u, us, hu, hus, rfl⟩
        exact ⟨u, hu, us, hus, rfl⟩

end

/-! ## 2. Statements without inner statements -/

theorem yields_checkCounter {target : Expr} {span : Span} {s t : Session} {r : Resolved.Expr} :
    (checkCounter target span).Yields s r t ↔
      (target.Elaborates s.scopes.env r ∧ r.ty = .int ∧ r.Countable ∧ r.Writable) ∧ t = s := by
  rw [checkCounter, yields_reading]
  simp only [result_bind_eq_ok, target.result_check_eq_ok, result_expectInteger_eq_ok,
    result_expectVariable_eq_ok, result_expectWritable_eq_ok, result_pure_eq_ok]
  constructor
  · rintro ⟨⟨r, hr, _, isInt, _, countable, _, writable, rfl⟩, rfl⟩
    exact ⟨⟨hr, isInt, countable, writable⟩, rfl⟩
  · rintro ⟨⟨hr, isInt, countable, writable⟩, rfl⟩
    exact ⟨⟨r, hr, (), isInt, (), countable, (), writable, rfl⟩, rfl⟩

theorem yields_checkAssign {target source : Expr} {span : Span} {s t : Session}
    {r : Resolved.Stmt} :
    (checkAssign target source span).Yields s r t ↔
      (Stmt.assign target source span).Elaborates s.scopes.env r ∧ t = s := by
  rw [checkAssign, yields_reading]
  simp only [result_bind_eq_ok, target.result_check_eq_ok, source.result_check_eq_ok,
    result_expectAssignable_eq_ok, result_expectWritable_eq_ok, result_pure_eq_ok]
  constructor
  · rintro ⟨⟨value, hvalue, place, hplace, _, assignable, _, writable, rfl⟩, rfl⟩
    exact ⟨.assign hplace hvalue assignable writable, rfl⟩
  · rintro ⟨h, rfl⟩
    cases h with
    | assign hplace hvalue assignable writable =>
        exact ⟨⟨_, hvalue, _, hplace, (), assignable, (), writable, rfl⟩, rfl⟩

theorem result_enclosingResult_eq_ok {Γ : Scopes} {span : Span} {t : Ty} :
    (enclosingResult Γ span).result = .ok t ↔
      ∃ f, Γ.env.inner.function = some f ∧ f.signature.result = t := by
  show _ ↔ ∃ f, Γ.currentFunction = some f ∧ _
  rw [enclosingResult]
  cases Γ.currentFunction with
  | none => simp
  | some f => simp

theorem yields_checkReturnValue {value : Expr} {span : Span} {s t : Session} {r : Resolved.Stmt} :
    (checkReturnValue value span).Yields s r t ↔
      (Stmt.returnValue value span).Elaborates s.scopes.env r ∧ t = s := by
  rw [checkReturnValue, yields_reading]
  simp only [result_bind_eq_ok, result_enclosingResult_eq_ok, result_require_eq_ok, bne_iff_ne,
    value.result_check_eq_ok, result_expectAssignable_eq_ok, result_pure_eq_ok]
  constructor
  · rintro ⟨⟨_, ⟨f, inside, rfl⟩, _, yields, r, hr, _, assignable, rfl⟩, rfl⟩
    exact ⟨.returnValue inside yields hr assignable, rfl⟩
  · rintro ⟨h, rfl⟩
    cases h with
    | returnValue inside yields hr assignable =>
        exact ⟨⟨_, ⟨_, inside, rfl⟩, (), yields, _, hr, (), assignable, rfl⟩, rfl⟩

theorem yields_checkReturnNothing {span : Span} {s t : Session} {r : Resolved.Stmt} :
    (checkReturnNothing span).Yields s r t ↔
      (Stmt.returnNothing span).Elaborates s.scopes.env r ∧ t = s := by
  rw [checkReturnNothing, yields_reading]
  simp only [result_bind_eq_ok, result_enclosingResult_eq_ok, result_require_eq_ok, beq_iff_eq,
    result_pure_eq_ok]
  constructor
  · rintro ⟨⟨_, ⟨f, inside, rfl⟩, _, yields, rfl⟩, rfl⟩
    exact ⟨.returnNothing inside yields, rfl⟩
  · rintro ⟨h, rfl⟩
    cases h with
    | returnNothing inside yields => exact ⟨⟨_, ⟨_, inside, rfl⟩, (), yields, rfl⟩, rfl⟩

theorem yields_checkTest {test : Expr} {s t : Session} {r : Resolved.Expr} :
    (checkTest test).Yields s r t ↔
      (test.Elaborates s.scopes.env r ∧ r.ty = .bool) ∧ t = s := by
  rw [checkTest, yields_reading]
  simp only [result_bind_eq_ok, test.result_check_eq_ok, result_expectBool_eq_ok,
    result_pure_eq_ok]
  constructor
  · rintro ⟨⟨r, hr, _, isBool, rfl⟩, rfl⟩
    exact ⟨⟨hr, isBool⟩, rfl⟩
  · rintro ⟨⟨hr, isBool⟩, rfl⟩
    exact ⟨⟨r, hr, (), isBool, rfl⟩, rfl⟩

theorem yields_checkCollection {collection : Expr} {s t : Session} {r : Resolved.Expr}
    {element : Ty} :
    (checkCollection collection).Yields s (r, element) t ↔
      (collection.Elaborates s.scopes.env r ∧ r.ty = .list element) ∧ t = s := by
  rw [checkCollection, yields_reading]
  simp only [result_bind_eq_ok, collection.result_check_eq_ok, result_expectList_eq_ok,
    result_pure_eq_ok, Prod.mk.injEq]
  constructor
  · rintro ⟨⟨r, hr, element, isList, rfl, rfl⟩, rfl⟩
    exact ⟨⟨hr, isList⟩, rfl⟩
  · rintro ⟨⟨hr, isList⟩, rfl⟩
    exact ⟨⟨r, hr, element, isList, rfl, rfl⟩, rfl⟩

theorem yields_checkResult {result : Option TypeExpr} {s t : Session} {ty : Ty} :
    (checkResult result).Yields s ty t ↔ ResultDenotes s.scopes.env result ty ∧ t = s := by
  cases result with
  | none =>
      rw [checkResult, yields_pure]
      constructor
      · rintro ⟨rfl, rfl⟩
        exact ⟨.none, rfl⟩
      · rintro ⟨h, rfl⟩
        cases h
        exact ⟨rfl, rfl⟩
  | some e =>
      rw [checkResult, yields_reading, e.result_resolve_eq_ok]
      constructor
      · rintro ⟨h, rfl⟩
        exact ⟨.some h, rfl⟩
      · rintro ⟨h, rfl⟩
        cases h with
        | some ht => exact ⟨ht, rfl⟩

/-! ## 3. Numbers of declarations -/

/-- The identities are those of declarations met during analysis, numbered in a row. -/
def Numbered : Nat → List Identity → Prop
  | _, [] => True
  | n, i :: is => i = .program n ∧ Numbered (n + 1) is

theorem numbered_append : ∀ (is js : List Identity) (n : Nat),
    Numbered n (is ++ js) ↔ Numbered n is ∧ Numbered (n + is.length) js
  | [], js, n => by simp [Numbered]
  | i :: is, js, n => by
      have hlen : n + (i :: is).length = n + 1 + is.length := by
        rw [List.length_cons]
        omega
      rw [List.cons_append, Numbered, Numbered, numbered_append is js (n + 1), hlen, and_assoc]

/-! ## 4. Parameters -/

/-- The frame with parameters as further names. -/
def Frame.bindParameters (f : Frame) (ds : List Decl.Parameter) : Frame :=
  ds.foldl (fun g d => g.bind d.name (.param d)) f

theorem Scopes.env_bindParameters (outer : List Frame) :
    ∀ (ds : List Decl.Parameter) (f : Frame),
      (Scopes.mk (f.bindParameters ds) outer).env = (Scopes.mk f outer).env.bindParameters ds
  | [], _ => rfl
  | d :: ds, f => Scopes.env_bindParameters outer ds (f.bind d.name (.param d))

/-- Recording the function of a body does not touch its parameters. -/
theorem Frame.function_bindParameters (g : Option Decl.Function) :
    ∀ (ds : List Decl.Parameter) (f : Frame),
      { f.bindParameters ds with function := g } =
        ({ f with function := g } : Frame).bindParameters ds
  | [], _ => rfl
  | d :: ds, f => Frame.function_bindParameters g ds (f.bind d.name (.param d))

theorem Parameter.yields_check {p : Parameter} {s t : Session} {d : Decl.Parameter} :
    p.check.Yields s d t ↔
      ∃ ty, p.type.Denotes s.scopes.env ty ∧ s.scopes.env.Free p.name ∧
        d = ⟨.program s.serial, p.name, ty⟩ ∧
        t = ⟨{ s.scopes with inner := s.scopes.inner.bind p.name (.param d) }, s.serial + 1⟩ := by
  rw [Parameter.check]
  simp only [yields_bind, yields_reading, p.type.result_resolve_eq_ok, s.scopes.free_env]
  constructor
  · rintro ⟨ty, _, ⟨hty, rfl⟩, i, r, ⟨hi, rfl⟩, _, u, hdecl, hpure⟩
    obtain ⟨hfree, rfl⟩ := yields_declare.mp hdecl
    obtain ⟨rfl, rfl⟩ := yields_pure.mp hpure
    cases hi
    exact ⟨ty, hty, hfree, rfl, rfl⟩
  · rintro ⟨ty, hty, hfree, rfl, rfl⟩
    exact ⟨ty, s, ⟨hty, rfl⟩, _, _, ⟨rfl, rfl⟩, (), _, yields_declare.mpr ⟨hfree, rfl⟩,
      yields_pure.mpr ⟨rfl, rfl⟩⟩

theorem Parameter.yields_checkAll : ∀ (ps : List Parameter) (ds : List Decl.Parameter)
    (s t : Session),
    (Parameter.checkAll ps).Yields s ds t ↔
      Parameter.ElaboratesAll s.scopes.env ps ds ∧ Numbered s.serial (ds.map (·.identity)) ∧
        t = ⟨{ s.scopes with inner := s.scopes.inner.bindParameters ds }, s.serial + ds.length⟩
  | [], ds, s, t => by
      rw [Parameter.checkAll, yields_pure]
      constructor
      · rintro ⟨rfl, rfl⟩
        exact ⟨.nil, trivial, rfl⟩
      · rintro ⟨h, _, rfl⟩
        cases h
        exact ⟨rfl, rfl⟩
  | p :: ps, ds, s, t => by
      rw [Parameter.checkAll]
      simp only [yields_bind, yields_pure, Parameter.yields_check, Parameter.yields_checkAll ps]
      constructor
      · rintro ⟨d, _, ⟨ty, hty, hfree, rfl, rfl⟩, ds, _, ⟨hds, hnum, rfl⟩, rfl, rfl⟩
        refine ⟨.cons hty hfree hds, ⟨rfl, hnum⟩, ?_⟩
        rw [List.length_cons, Nat.add_right_comm]
        rfl
      · rintro ⟨h, hnum, rfl⟩
        cases h with
        | @cons _ _ _ i ty ds hty hfree hds =>
            obtain ⟨rfl, hnum⟩ : i = .program s.serial ∧ _ := hnum
            refine ⟨_, _, ⟨ty, hty, hfree, rfl, rfl⟩, ds, _, ⟨hds, hnum, rfl⟩, rfl, ?_⟩
            rw [List.length_cons, Nat.add_right_comm]
            rfl

/-! ## 5. Statements -/

/-- The scopes of the statements after a given one. -/
def Scopes.after (Γ : Scopes) : Resolved.Stmt → Scopes
  | .declare v _ => { Γ with inner := Γ.inner.bind v.name (.var v) }
  | .function f _ _ => { Γ with inner := Γ.inner.bind f.name (.func f) }
  | _ => Γ

/-- The scopes after statements in a row. -/
def Scopes.afterAll (Γ : Scopes) (rs : List Resolved.Stmt) : Scopes := rs.foldl Scopes.after Γ

theorem Scopes.env_after (Γ : Scopes) (r : Resolved.Stmt) : (Γ.after r).env = Γ.env.after r := by
  cases r <;> rfl

theorem Scopes.outer_after (Γ : Scopes) (r : Resolved.Stmt) : (Γ.after r).outer = Γ.outer := by
  cases r <;> rfl

theorem Scopes.outer_afterAll : ∀ (rs : List Resolved.Stmt) (Γ : Scopes),
    (Γ.afterAll rs).outer = Γ.outer
  | [], _ => rfl
  | r :: rs, Γ => (Scopes.outer_afterAll rs (Γ.after r)).trans (Γ.outer_after r)

/-- The scopes in which the body of a function is checked. -/
def Scopes.functionBody (Γ : Scopes) (f : Decl.Function) (ds : List Decl.Parameter) : Scopes :=
  ⟨({ Γ.inner.child .functionBody with function := some f } : Frame).bindParameters ds,
    Γ.inner.bind f.name (.func f) :: Γ.outer⟩

theorem Scopes.env_functionBody (Γ : Scopes) (f : Decl.Function) (ds : List Decl.Parameter) :
    (Γ.functionBody f ds).env =
      ((Γ.env.bind f.name (.func f)).body (some f)).bindParameters ds := by
  rw [Scopes.functionBody, Scopes.env_bindParameters]
  rfl

/-- The parameters of a function and the function itself, declared one after the other. -/
theorem yields_functionHead {name : String} {parameters : List Parameter} {result : Ty}
    {span : Span} {ds : List Decl.Parameter} {f : Decl.Function} {s t : Session} :
    (∃ r, (Parameter.checkAll parameters).Yields (s.enter .functionBody) ds r ∧
      (declareFunction name ⟨ds.map (·.ty), result⟩ span).Yields r f t) ↔
      Parameter.ElaboratesAll (s.scopes.env.body none) parameters ds ∧
        Numbered s.serial (ds.map (·.identity)) ∧ s.scopes.env.Free name ∧
        f = ⟨.program (s.serial + ds.length), name, ⟨ds.map (·.ty), result⟩⟩ ∧
        t = ⟨s.scopes.functionBody f ds, s.serial + ds.length + 1⟩ := by
  simp only [Parameter.yields_checkAll, s.scopes.free_env]
  constructor
  · rintro ⟨r, ⟨hds, hnum, rfl⟩, hf⟩
    obtain ⟨hfree, rfl, rfl⟩ := yields_declareFunction.mp hf
    rw [Frame.function_bindParameters]
    exact ⟨hds, hnum, hfree, rfl, rfl⟩
  · rintro ⟨hds, hnum, hfree, rfl, rfl⟩
    refine ⟨_, ⟨hds, hnum, rfl⟩, yields_declareFunction.mpr ⟨hfree, rfl, ?_⟩⟩
    rw [Frame.function_bindParameters]
    rfl

/-- A block succeeds in a scope of its own when its statements do there, and the scopes are then
    what they were. -/
theorem yields_inScope_checkAll {kind : ScopeKind} {body : List Stmt} {s t : Session}
    {rs : List Resolved.Stmt}
    (h : ∀ u, (Stmt.checkAll body).Yields (s.enter kind) rs u ↔
      Stmt.ElaboratesAll (s.scopes.enter kind).env body rs ∧
        Numbered s.serial (Resolved.Stmt.declaredAll rs) ∧
        u = ⟨(s.scopes.enter kind).afterAll rs,
          s.serial + (Resolved.Stmt.declaredAll rs).length⟩) :
    (inScope kind (Stmt.checkAll body)).Yields s rs t ↔
      Stmt.ElaboratesAll (s.scopes.enter kind).env body rs ∧
        Numbered s.serial (Resolved.Stmt.declaredAll rs) ∧
        t = ⟨s.scopes, s.serial + (Resolved.Stmt.declaredAll rs).length⟩ := by
  have hout : ((s.scopes.enter kind).afterAll rs).outer = s.scopes.inner :: s.scopes.outer :=
    Scopes.outer_afterAll rs _
  rw [yields_inScope]
  constructor
  · rintro ⟨u, f, fs, hu, hfs, rfl⟩
    obtain ⟨hrs, hnum, rfl⟩ := (h u).mp hu
    obtain ⟨rfl, rfl⟩ := List.cons.inj (hfs.symm.trans hout)
    exact ⟨hrs, hnum, rfl⟩
  · rintro ⟨hrs, hnum, rfl⟩
    exact ⟨_, _, _, (h _).mpr ⟨hrs, hnum, rfl⟩, hout, rfl⟩

theorem length_declared_function (f : Decl.Function) (ds : List Decl.Parameter)
    (rs : List Resolved.Stmt) (n : Nat) :
    n + (Resolved.Stmt.function f ds rs).declared.length =
      n + ds.length + 1 + (Resolved.Stmt.declaredAll rs).length := by
  rw [Resolved.Stmt.declared, List.length_append, List.length_map, List.length_cons]
  omega

theorem length_declared_forEach (v : Decl.Variable) (r : Resolved.Expr) (rs : List Resolved.Stmt)
    (n : Nat) :
    n + (Resolved.Stmt.forEach v r rs).declared.length =
      n + 1 + (Resolved.Stmt.declaredAll rs).length := by
  rw [Resolved.Stmt.declared, List.length_cons]
  omega

/-- A statement without declarations leaves the scopes and the numbers alone. -/
theorem yields_quiet {x : Check Resolved.Stmt} {s t : Session} {r : Resolved.Stmt} {derives : Prop}
    (h : x.Yields s r t ↔ derives ∧ t = s)
    (quiet : derives → r.declared = [] ∧ s.scopes.after r = s.scopes) :
    x.Yields s r t ↔
      derives ∧ Numbered s.serial r.declared ∧
        t = ⟨s.scopes.after r, s.serial + r.declared.length⟩ := by
  rw [h]
  constructor
  · rintro ⟨hr, rfl⟩
    obtain ⟨hdecl, hafter⟩ := quiet hr
    rw [hdecl, hafter]
    exact ⟨hr, trivial, rfl⟩
  · rintro ⟨hr, _, rfl⟩
    obtain ⟨hdecl, hafter⟩ := quiet hr
    rw [hdecl, hafter]
    exact ⟨hr, rfl⟩

/-- A statement is checked to what it stands for, and what it declares takes the next numbers. -/
def Stmt.Agrees (s : Stmt) : Prop :=
  ∀ (r : Resolved.Stmt) (σ τ : Session), s.check.Yields σ r τ ↔
    s.Elaborates σ.scopes.env r ∧ Numbered σ.serial r.declared ∧
      τ = ⟨σ.scopes.after r, σ.serial + r.declared.length⟩

/-- So are statements in a row. -/
def Stmt.AgreesAll (ss : List Stmt) : Prop :=
  ∀ (rs : List Resolved.Stmt) (σ τ : Session), (Stmt.checkAll ss).Yields σ rs τ ↔
    Stmt.ElaboratesAll σ.scopes.env ss rs ∧ Numbered σ.serial (Resolved.Stmt.declaredAll rs) ∧
      τ = ⟨σ.scopes.afterAll rs, σ.serial + (Resolved.Stmt.declaredAll rs).length⟩

section

variable {span : Span}

theorem Stmt.agrees_declare {x : String} {readOnly : Bool} {init : Expr} :
    (Stmt.declare x readOnly init span).Agrees := by
  intro r σ τ
  rw [Stmt.check]
  simp only [yields_bind, yields_pure, yields_reading, init.result_check_eq_ok,
    yields_declareVariable]
  constructor
  · rintro ⟨value, _, ⟨hvalue, rfl⟩, v, _, ⟨hfree, rfl, rfl⟩, rfl, rfl⟩
    exact ⟨.declare hvalue ((Scopes.free_env _ _).mpr hfree), ⟨rfl, trivial⟩, rfl⟩
  · rintro ⟨h, hnum, rfl⟩
    cases h with
    | @declare _ _ _ _ _ i value hvalue hfree =>
        obtain ⟨rfl, _⟩ : i = .program σ.serial ∧ True := hnum
        exact ⟨value, σ, ⟨hvalue, rfl⟩, _, _, ⟨(Scopes.free_env _ _).mp hfree, rfl, rfl⟩,
          rfl, rfl⟩

theorem Stmt.agrees_function {name : String} {parameters : List Parameter}
    {result : Option TypeExpr} {body : List Stmt} (hbody : Stmt.AgreesAll body) :
    (Stmt.function name parameters result body span).Agrees := by
  intro r σ τ
  rw [Stmt.check]
  simp only [yields_bind, yields_pure, yields_checkResult, yields_inScope, hbody _]
  constructor
  · rintro ⟨t, _, ⟨ht, rfl⟩, _, g, gs, ⟨ds, u, hparams, f, v, hdecl, rs, _,
      ⟨hrs, hnumRs, rfl⟩, rfl, rfl⟩, hout, rfl⟩
    obtain ⟨hds, hnumDs, hfree, rfl, rfl⟩ := yields_functionHead.mp ⟨u, hparams, hdecl⟩
    rw [Scopes.env_functionBody] at hrs
    obtain ⟨rfl, rfl⟩ := List.cons.inj (hout.symm.trans (Scopes.outer_afterAll rs _))
    refine ⟨.function ht hds hfree rfl hrs, ?_, ?_⟩
    · rw [Resolved.Stmt.declared, numbered_append, List.length_map]
      exact ⟨hnumDs, rfl, hnumRs⟩
    · rw [length_declared_function]
      rfl
  · rintro ⟨h, hnum, rfl⟩
    cases h with
    | @function _ _ _ _ _ _ i t ds f rs ht hds hfree hf hrs =>
        rw [Resolved.Stmt.declared, numbered_append, List.length_map] at hnum
        obtain ⟨hnumDs, hi, hnumRs⟩ := hnum
        obtain rfl : i = .program (σ.serial + ds.length) := by
          rw [← hi, hf]
        obtain ⟨u, hparams, hdecl⟩ :=
          yields_functionHead.mpr ⟨hds, hnumDs, hfree, hf, rfl⟩
        obtain rfl : f.name = name := by rw [hf]
        rw [← Scopes.env_functionBody] at hrs
        refine ⟨t, σ, ⟨ht, rfl⟩, _, σ.scopes.inner.bind f.name (.func f), σ.scopes.outer,
          ⟨ds, u, hparams, f, _, hdecl, rs, _, ⟨hrs, hnumRs, rfl⟩, rfl, rfl⟩,
          Scopes.outer_afterAll rs _, ?_⟩
        rw [length_declared_function]
        rfl

theorem Stmt.agrees_step {dir : Step} {target : Expr} : (Stmt.step dir target span).Agrees := by
  intro r σ τ
  rw [Stmt.check]
  simp only [yields_bind, yields_pure, yields_checkCounter]
  constructor
  · rintro ⟨place, _, ⟨⟨hplace, isInt, countable, writable⟩, rfl⟩, rfl, rfl⟩
    exact ⟨.step hplace isInt countable writable, trivial, rfl⟩
  · rintro ⟨h, _, rfl⟩
    cases h with
    | step hplace isInt countable writable =>
        exact ⟨_, σ, ⟨⟨hplace, isInt, countable, writable⟩, rfl⟩, rfl, rfl⟩

theorem Stmt.agrees_exitLoop : (Stmt.exitLoop span).Agrees := by
  intro r σ τ
  rw [Stmt.check]
  refine yields_quiet ?_ fun h => ?_
  · simp only [yields_bind, yields_pure, yields_scopes, Check.require, yields_reading,
      result_require_eq_ok]
    constructor
    · rintro ⟨_, _, ⟨rfl, rfl⟩, _, _, ⟨inLoop, rfl⟩, rfl, rfl⟩
      exact ⟨.exitLoop inLoop, rfl⟩
    · rintro ⟨h, rfl⟩
      cases h with
      | exitLoop inLoop => exact ⟨_, _, ⟨rfl, rfl⟩, (), _, ⟨inLoop, rfl⟩, rfl, rfl⟩
  · cases h
    exact ⟨rfl, rfl⟩

theorem Stmt.agrees_whileLoop {test : Expr} {body : List Stmt} (hbody : Stmt.AgreesAll body) :
    (Stmt.whileLoop test body span).Agrees := by
  intro r σ τ
  rw [Stmt.check]
  simp only [yields_bind, yields_pure, yields_checkTest,
    yields_inScope_checkAll fun u => hbody _ _ u]
  constructor
  · rintro ⟨q, _, ⟨⟨hq, isBool⟩, rfl⟩, rs, _, ⟨hrs, hnum, rfl⟩, rfl, rfl⟩
    exact ⟨.whileLoop hq isBool hrs, hnum, rfl⟩
  · rintro ⟨h, hnum, rfl⟩
    cases h with
    | whileLoop hq isBool hrs =>
        exact ⟨_, _, ⟨⟨hq, isBool⟩, rfl⟩, _, _, ⟨hrs, hnum, rfl⟩, rfl, rfl⟩

theorem Stmt.agrees_forEach {x : String} {collection : Expr} {body : List Stmt}
    (hbody : Stmt.AgreesAll body) : (Stmt.forEach x collection body span).Agrees := by
  intro r σ τ
  rw [Stmt.check]
  simp only [yields_bind, yields_pure, Prod.exists, yields_checkCollection, yields_inScope,
    yields_declareVariable, hbody _]
  constructor
  · rintro ⟨q, element, _, ⟨⟨hq, isList⟩, rfl⟩, _, g, gs, ⟨v, _, ⟨_, rfl, rfl⟩, rs, _,
      ⟨hrs, hnum, rfl⟩, rfl, rfl⟩, hout, rfl⟩
    rw [Scopes.outer_afterAll] at hout
    obtain ⟨rfl, rfl⟩ := List.cons.inj hout
    refine ⟨.forEach hq isList hrs, ⟨rfl, hnum⟩, ?_⟩
    rw [length_declared_forEach]
    rfl
  · rintro ⟨h, hnum, rfl⟩
    cases h with
    | @forEach _ _ _ _ _ i q element rs hq isList hrs =>
        obtain ⟨rfl, hnum⟩ : i = .program σ.serial ∧ _ := hnum
        refine ⟨q, element, σ, ⟨⟨hq, isList⟩, rfl⟩, _, σ.scopes.inner, σ.scopes.outer,
          ⟨_, _, ⟨rfl, rfl, rfl⟩, rs, _, ⟨hrs, hnum, rfl⟩, rfl, rfl⟩, ?_, ?_⟩
        · rw [Scopes.outer_afterAll]
          rfl
        · rw [length_declared_forEach]
          rfl

theorem Stmt.agrees_eval {e : Expr} : (Stmt.eval e span).Agrees := by
  intro r σ τ
  rw [Stmt.check]
  simp only [yields_bind, yields_pure, yields_reading, e.result_check_eq_ok]
  constructor
  · rintro ⟨q, _, ⟨hq, rfl⟩, rfl, rfl⟩
    exact ⟨.eval hq, trivial, rfl⟩
  · rintro ⟨h, _, rfl⟩
    cases h with
    | eval hq => exact ⟨_, σ, ⟨hq, rfl⟩, rfl, rfl⟩

end

mutual

/-- **A statement is checked to what it stands for**, and what it declares takes the next
    numbers. -/
theorem Stmt.yields_check : ∀ (s : Stmt) (r : Resolved.Stmt) (σ τ : Session),
    s.check.Yields σ r τ ↔
      s.Elaborates σ.scopes.env r ∧ Numbered σ.serial r.declared ∧
        τ = ⟨σ.scopes.after r, σ.serial + r.declared.length⟩
  | .declare x readOnly init span => Stmt.agrees_declare
  | .function name parameters result body span => Stmt.agrees_function (Stmt.yields_checkAll body)
  | .step dir target span => Stmt.agrees_step
  | .assign target source span => by
      intro r σ τ
      rw [Stmt.check]
      refine yields_quiet yields_checkAssign fun h => ?_
      cases h
      exact ⟨rfl, rfl⟩
  | .exitLoop span => Stmt.agrees_exitLoop
  | .returnValue value span => by
      intro r σ τ
      rw [Stmt.check]
      refine yields_quiet yields_checkReturnValue fun h => ?_
      cases h
      exact ⟨rfl, rfl⟩
  | .returnNothing span => by
      intro r σ τ
      rw [Stmt.check]
      refine yields_quiet yields_checkReturnNothing fun h => ?_
      cases h
      exact ⟨rfl, rfl⟩
  | .branch b => by
      intro r σ τ
      rw [Stmt.check]
      simp only [yields_bind, yields_pure, Branch.yields_check b]
      constructor
      · rintro ⟨q, _, ⟨hq, hnum, rfl⟩, rfl, rfl⟩
        exact ⟨.branch hq, hnum, rfl⟩
      · rintro ⟨h, hnum, rfl⟩
        cases h with
        | branch hq => exact ⟨_, _, ⟨hq, hnum, rfl⟩, rfl, rfl⟩
  | .whileLoop test body span => Stmt.agrees_whileLoop (Stmt.yields_checkAll body)
  | .forEach x collection body span => Stmt.agrees_forEach (Stmt.yields_checkAll body)
  | .eval e span => Stmt.agrees_eval

theorem Branch.yields_check : ∀ (b : Branch) (r : Resolved.Branch) (σ τ : Session),
    b.check.Yields σ r τ ↔
      b.Elaborates σ.scopes.env r ∧ Numbered σ.serial r.declared ∧
        τ = ⟨σ.scopes, σ.serial + r.declared.length⟩
  | .mk test consequent alternate span, r, σ, τ => by
      rw [Branch.check]
      simp only [yields_bind, yields_pure, yields_checkTest,
        yields_inScope_checkAll fun u => Stmt.yields_checkAll consequent _ _ u,
        Alternate.yields_check alternate]
      constructor
      · rintro ⟨q, _, ⟨⟨hq, isBool⟩, rfl⟩, rs, _, ⟨hrs, hnum, rfl⟩, a, _, ⟨ha, hnum', rfl⟩, rfl,
          rfl⟩
        refine ⟨.mk hq isBool hrs ha, ?_, ?_⟩
        · rw [Resolved.Branch.declared, numbered_append]
          exact ⟨hnum, hnum'⟩
        · rw [Resolved.Branch.declared, List.length_append, ← Nat.add_assoc]
      · rintro ⟨h, hnum, rfl⟩
        cases h with
        | mk hq isBool hrs ha =>
            rw [Resolved.Branch.declared, numbered_append] at hnum
            refine ⟨_, _, ⟨⟨hq, isBool⟩, rfl⟩, _, _, ⟨hrs, hnum.1, rfl⟩, _, _,
              ⟨ha, hnum.2, rfl⟩, rfl, ?_⟩
            rw [Resolved.Branch.declared, List.length_append, ← Nat.add_assoc]

theorem Alternate.yields_check : ∀ (a : Alternate) (r : Resolved.Alternate) (σ τ : Session),
    a.check.Yields σ r τ ↔
      a.Elaborates σ.scopes.env r ∧ Numbered σ.serial r.declared ∧
        τ = ⟨σ.scopes, σ.serial + r.declared.length⟩
  | .none, r, σ, τ => by
      rw [Alternate.check, yields_pure]
      constructor
      · rintro ⟨rfl, rfl⟩
        exact ⟨.none, trivial, rfl⟩
      · rintro ⟨h, _, rfl⟩
        cases h
        exact ⟨rfl, rfl⟩
  | .block body, r, σ, τ => by
      rw [Alternate.check]
      simp only [yields_bind, yields_pure,
        yields_inScope_checkAll fun u => Stmt.yields_checkAll body _ _ u]
      constructor
      · rintro ⟨rs, _, ⟨hrs, hnum, rfl⟩, rfl, rfl⟩
        exact ⟨.block hrs, hnum, rfl⟩
      · rintro ⟨h, hnum, rfl⟩
        cases h with
        | block hrs => exact ⟨_, _, ⟨hrs, hnum, rfl⟩, rfl, rfl⟩
  | .elseIf next, r, σ, τ => by
      rw [Alternate.check]
      simp only [yields_bind, yields_pure, Branch.yields_check next]
      constructor
      · rintro ⟨q, _, ⟨hq, hnum, rfl⟩, rfl, rfl⟩
        exact ⟨.elseIf hq, hnum, rfl⟩
      · rintro ⟨h, hnum, rfl⟩
        cases h with
        | elseIf hq => exact ⟨_, _, ⟨hq, hnum, rfl⟩, rfl, rfl⟩

/-- **Statements are checked to what they stand for**, one after the other. -/
theorem Stmt.yields_checkAll : ∀ (ss : List Stmt) (rs : List Resolved.Stmt) (σ τ : Session),
    (Stmt.checkAll ss).Yields σ rs τ ↔
      Stmt.ElaboratesAll σ.scopes.env ss rs ∧
        Numbered σ.serial (Resolved.Stmt.declaredAll rs) ∧
        τ = ⟨σ.scopes.afterAll rs, σ.serial + (Resolved.Stmt.declaredAll rs).length⟩
  | [], rs, σ, τ => by
      rw [Stmt.checkAll, yields_pure]
      constructor
      · rintro ⟨rfl, rfl⟩
        exact ⟨.nil, trivial, rfl⟩
      · rintro ⟨h, _, rfl⟩
        cases h
        exact ⟨rfl, rfl⟩
  | s :: ss, rs, σ, τ => by
      rw [Stmt.checkAll]
      simp only [yields_bind, yields_pure, Stmt.yields_check s, Stmt.yields_checkAll ss]
      constructor
      · rintro ⟨r, _, ⟨hr, hnum, rfl⟩, rs, _, ⟨hrs, hnum', rfl⟩, rfl, rfl⟩
        refine ⟨.cons hr (Scopes.env_after _ _ ▸ hrs), ?_, ?_⟩
        · rw [Resolved.Stmt.declaredAll, numbered_append]
          exact ⟨hnum, hnum'⟩
        · rw [Resolved.Stmt.declaredAll, List.length_append, ← Nat.add_assoc]
          rfl
      · rintro ⟨h, hnum, rfl⟩
        cases h with
        | cons hr hrs =>
            rw [Resolved.Stmt.declaredAll, numbered_append] at hnum
            refine ⟨_, _, ⟨hr, hnum.1, rfl⟩, _, _,
              ⟨(Scopes.env_after _ _).symm ▸ hrs, hnum.2, rfl⟩, rfl, ?_⟩
            rw [Resolved.Stmt.declaredAll, List.length_append, ← Nat.add_assoc]
            rfl

end

end Sema
