import Sema.Proofs.Refusal
import Sema.Proofs.Sight

/-!
# Faults

What can be wrong with a node, said without the checks. There are two kinds of faults:

* `Misplaced`: a name, a declaration, an exit or a return is wrong at the place where it stands.
  Only the syntax tree and the catalog are looked at.
* `Mistyped`: the types of the parts of a node, in the scopes around it, break its rule.

An expression that is refused has a fault of its own, or one of its parts is refused
(`Expr.fault_or_part`); so there is a fault inside it (`Expr.faultIn`). The same is shown for each
statement that has no statements inside, and for the head of a function.
-/

namespace Sema

open Traced Check

/-! ## 1. What can be wrong with a node -/

/-- The expressions directly inside that have to be truth values. -/
def Focus.tests : Focus → List Expr
  | .expr (.conditional t _ _ _) | .branch (.mk t _ _ _) | .stmt (.whileLoop t _ _) => [t]
  | .expr (.logical _ es _) => es
  | _ => []

/-- The expressions directly inside that have to be lists. -/
def Focus.collections : Focus → List Expr
  | .expr (.subscript items _ _) => [items]
  | .stmt (.forEach _ collection _ _) => [collection]
  | _ => []

/-- What a statement writes to. -/
def Stmt.target? : Stmt → Option Expr
  | .step _ target _ | .assign target _ _ => some target
  | _ => none

/-- **What is wrong with a node at the place where it stands**: `here` is the place of the part that
    the node belongs to. No rule blames a loop: its iterator is declared in a scope of its own. -/
inductive Misplaced (c : Catalog) (p : Program) (here : Place) : Focus → Node → Problem → Prop where
  /-- No declaration of the name is visible. -/
  | name {x : String} {span : Span} (unseen : designated p x here = none)
      (absent : c.get? x = none) :
      Misplaced c p here (.expr (.name x span)) (.expr (.name x span)) (.notDeclared x)
  | typeName {f : Focus} {a : Annotation} {t : TypeExpr} {x : String} {span : Span}
      (written : f.annotation? a = some t) (node : .type (.named x span) ∈ t.nodes)
      (unseen : designatedIn p x here f a = none) (absent : c.get? x = none) :
      Misplaced c p here f (.type (.named x span)) (.notDeclared x)
  /-- The visible declaration is one of the program, which declares no types. -/
  | typeDeclared {f : Focus} {a : Annotation} {t : TypeExpr} {x : String} {span : Span}
      {site : Site} (written : f.annotation? a = some t) (node : .type (.named x span) ∈ t.nodes)
      (seen : designatedIn p x here f a = some site) :
      Misplaced c p here f (.type (.named x span)) .typeExpected
  /-- The visible declaration is an entry of the catalog that is no type. -/
  | typeEntry {f : Focus} {a : Annotation} {t : TypeExpr} {x : String} {span : Span} {e : Entity}
      (written : f.annotation? a = some t) (node : .type (.named x span) ∈ t.nodes)
      (unseen : designatedIn p x here f a = none) (entry : c.get? x = some e)
      (noType : ∀ ty, e ≠ .type ty) :
      Misplaced c p here f (.type (.named x span)) .typeExpected
  /-- The scope of the declaration holds the name already. -/
  | declare {x : String} {readOnly : Bool} {init : Expr} {span : Span}
      (held : x ∈ heldNames c p here) :
      Misplaced c p here (.stmt (.declare x readOnly init span))
        (.stmt (.declare x readOnly init span)) (.alreadyDeclared x)
  | function {name : String} {ps : List Parameter} {result : Option TypeExpr} {body : List Stmt}
      {span : Span} (held : name ∈ heldNames c p here) :
      Misplaced c p here (.stmt (.function name ps result body span))
        (.stmt (.function name ps result body span)) (.alreadyDeclared name)
  /-- The scope of a parameter holds the parameters before it. -/
  | parameter {name : String} {ps : List Parameter} {result : Option TypeExpr} {body : List Stmt}
      {span : Span} {k : Nat} {q : Parameter} (hq : ps[k]? = some q)
      (held : q.name ∈ (ps.take k).map (·.name)) :
      Misplaced c p here (.stmt (.function name ps result body span)) (.parameter q)
        (.alreadyDeclared q.name)
  | exitLoop {span : Span} (stray : loopAround p here = false) :
      Misplaced c p here (.stmt (.exitLoop span)) (.stmt (.exitLoop span)) .exitOutsideLoop
  | returnValue {value : Expr} {span : Span} (outside : functionAround p here = none) :
      Misplaced c p here (.stmt (.returnValue value span)) (.stmt (.returnValue value span))
        .returnOutsideFunction
  | returnNothing {span : Span} (outside : functionAround p here = none) :
      Misplaced c p here (.stmt (.returnNothing span)) (.stmt (.returnNothing span))
        .returnOutsideFunction

/-- **What is wrong with a node by the types of its parts**, in the scopes around it. -/
inductive Mistyped (Γ : Scopes) : Focus → Node → Problem → Prop where
  | test {f : Focus} {e : Expr} {r : Resolved.Expr} (tested : e ∈ f.tests)
      (he : (e.check Γ).result = .ok r) (noBool : r.ty ≠ .bool) :
      Mistyped Γ f (.expr e) (.boolExpected r.ty)
  | collection {f : Focus} {e : Expr} {r : Resolved.Expr} (used : e ∈ f.collections)
      (he : (e.check Γ).result = .ok r) (noList : ∀ t, r.ty ≠ .list t) :
      Mistyped Γ f (.expr e) .listExpected
  | index {items index : Expr} {span : Span} {r : Resolved.Expr}
      (he : (index.check Γ).result = .ok r) (noInt : r.ty ≠ .int) :
      Mistyped Γ (.expr (.subscript items index span)) (.expr index) (.integerExpected r.ty)
  | arms {test consequent alternate : Expr} {span : Span} {l r : Resolved.Expr}
      (hl : (consequent.check Γ).result = .ok l) (hr : (alternate.check Γ).result = .ok r)
      (differ : l.ty ≠ r.ty) :
      Mistyped Γ (.expr (.conditional test consequent alternate span))
        (.expr (.conditional test consequent alternate span)) .operandsDiffer
  | operands {op : BinaryOp} {left right : Expr} {span : Span} {l r : Resolved.Expr}
      (hl : (left.check Γ).result = .ok l) (hr : (right.check Γ).result = .ok r)
      (differ : l.ty ≠ r.ty) :
      Mistyped Γ (.expr (.binary op left right span)) (.expr (.binary op left right span))
        .operandsDiffer
  | number {op : BinaryOp} {left right : Expr} {span : Span} {l : Resolved.Expr}
      (hl : (left.check Γ).result = .ok l) (wanted : op.operands = .number)
      (refused : ¬ op.operands.Admits l.ty) :
      Mistyped Γ (.expr (.binary op left right span)) (.expr (.binary op left right span))
        (.numberExpected l.ty)
  | numberOrString {op : BinaryOp} {left right : Expr} {span : Span} {l : Resolved.Expr}
      (hl : (left.check Γ).result = .ok l) (wanted : op.operands = .numberOrString)
      (refused : ¬ op.operands.Admits l.ty) :
      Mistyped Γ (.expr (.binary op left right span)) (.expr (.binary op left right span))
        (.numberOrStringExpected l.ty)
  | negate {operand : Expr} {span : Span} {r : Resolved.Expr}
      (he : (operand.check Γ).result = .ok r) (refused : ¬ OperandClass.number.Admits r.ty) :
      Mistyped Γ (.expr (.unary .negate operand span)) (.expr (.unary .negate operand span))
        (.numberExpected r.ty)
  | not {operand : Expr} {span : Span} {r : Resolved.Expr}
      (he : (operand.check Γ).result = .ok r) (noBool : r.ty ≠ .bool) :
      Mistyped Γ (.expr (.unary .not operand span)) (.expr (.unary .not operand span))
        (.boolExpected r.ty)
  | elements {es : List Expr} {span : Span} {first : Resolved.Expr} {rest : List Resolved.Expr}
      (hes : (Expr.checkAll Γ es).result = .ok (first :: rest))
      (differ : ∃ r ∈ rest, r.ty ≠ first.ty) :
      Mistyped Γ (.expr (.list es span)) (.expr (.list es span)) .elementsDiffer
  | untyped {span : Span} :
      Mistyped Γ (.expr (.list [] span)) (.expr (.list [] span)) .untypedList
  | callee {callee : Expr} {arguments : List Expr} {span : Span} {f : Resolved.Expr}
      (hf : (callee.check Γ).result = .ok f) (noFunction : ∀ ts t, f.ty ≠ .function ts t) :
      Mistyped Γ (.expr (.call callee arguments span)) (.expr (.call callee arguments span))
        .notCallable
  /-- The number of arguments is not the number of parameters of what is called. -/
  | arity {callee : Expr} {arguments : List Expr} {span : Span} {f : Resolved.Expr} {ts : List Ty}
      {t : Ty} (hf : (callee.check Γ).result = .ok f) (isFunction : f.ty = .function ts t)
      (differ : ts.length ≠ arguments.length) :
      Mistyped Γ (.expr (.call callee arguments span)) (.expr (.call callee arguments span))
        (.wrongArity ts.length arguments.length)
  | argument {callee : Expr} {arguments : List Expr} {span : Span} {f : Resolved.Expr}
      {ts : List Ty} {t : Ty} {i : Nat} {e : Expr} {r : Resolved.Expr} {u : Ty}
      (hf : (callee.check Γ).result = .ok f) (isFunction : f.ty = .function ts t)
      (he : arguments[i]? = some e) (hr : (e.check Γ).result = .ok r) (hu : ts[i]? = some u)
      (misfit : ¬ Ty.Assignable r.ty u) :
      Mistyped Γ (.expr (.call callee arguments span)) (.expr (.call callee arguments span))
        (.notAssignable r.ty u)
  | counter {dir : Step} {target : Expr} {span : Span} {r : Resolved.Expr}
      (hr : (target.check Γ).result = .ok r) (noInt : r.ty ≠ .int) :
      Mistyped Γ (.stmt (.step dir target span)) (.stmt (.step dir target span))
        (.integerExpected r.ty)
  | uncountable {dir : Step} {target : Expr} {span : Span} {r : Resolved.Expr}
      (hr : (target.check Γ).result = .ok r) (refused : ¬ r.Countable) :
      Mistyped Γ (.stmt (.step dir target span)) (.stmt (.step dir target span)) .variableExpected
  | constant {s : Stmt} {target : Expr} {r : Resolved.Expr} {v : Decl.Variable}
      (written : s.target? = some target) (hr : (target.check Γ).result = .ok r)
      (named : r.form = .entity (.var v)) (constant : v.readOnly = true) :
      Mistyped Γ (.stmt s) (.stmt s) (.constantTarget v.name)
  | assign {target source : Expr} {span : Span} {r v : Resolved.Expr}
      (hr : (target.check Γ).result = .ok r) (hv : (source.check Γ).result = .ok v)
      (misfit : ¬ Ty.Assignable v.ty r.ty) :
      Mistyped Γ (.stmt (.assign target source span)) (.stmt (.assign target source span))
        (.notAssignable v.ty r.ty)
  /-- The function around yields nothing. -/
  | valueReturned {value : Expr} {span : Span} {g : Decl.Function}
      (inside : Γ.currentFunction = some g) (void : g.signature.result = .void) :
      Mistyped Γ (.stmt (.returnValue value span)) (.stmt (.returnValue value span)) .valueReturned
  /-- The function around yields a value. -/
  | valueMissing {span : Span} {g : Decl.Function} (inside : Γ.currentFunction = some g)
      (yields : g.signature.result ≠ .void) :
      Mistyped Γ (.stmt (.returnNothing span)) (.stmt (.returnNothing span)) .valueMissing
  | returned {value : Expr} {span : Span} {g : Decl.Function} {r : Resolved.Expr}
      (inside : Γ.currentFunction = some g) (hr : (value.check Γ).result = .ok r)
      (misfit : ¬ Ty.Assignable r.ty g.signature.result) :
      Mistyped Γ (.stmt (.returnValue value span)) (.stmt (.returnValue value span))
        (.notAssignable r.ty g.signature.result)

section

variable {c : Catalog} {p : Program} {here : Place} {Γ : Scopes} {f : Focus} {n : Node}
  {problem : Problem}

theorem Focus.tests_subset_parts : f.tests ⊆ f.parts := by
  fun_cases Focus.tests f <;> simp [Focus.parts, Expr.parts, Stmt.parts]

theorem Focus.collections_subset_parts : f.collections ⊆ f.parts := by
  fun_cases Focus.collections f <;> simp [Focus.parts, Expr.parts, Stmt.parts]

/-- The node that is blamed lies in the part that it belongs to. -/
theorem Misplaced.mem_nodes (h : Misplaced c p here f n problem) : n ∈ f.nodes := by
  cases h with
  | name => exact Expr.mem_nodes_self _
  | typeName written node | typeDeclared written node | typeEntry written node =>
      exact Focus.nodes_subset_of_annotation? written node
  | @parameter _ ps _ _ _ k q hq =>
      have hmem : .parameter q ∈ ps.flatMap Parameter.nodes :=
        List.mem_flatMap.mpr ⟨q, List.mem_of_getElem? hq, List.mem_cons_self⟩
      simp [Focus.nodes, Stmt.nodes, hmem]
  | declare | function | exitLoop | returnValue | returnNothing => exact Stmt.mem_nodes_self _

theorem Mistyped.mem_nodes (h : Mistyped Γ f n problem) : n ∈ f.nodes := by
  cases h with
  | test tested =>
      exact Focus.nodes_subset_of_mem_parts (Focus.tests_subset_parts tested)
        (Expr.mem_nodes_self _)
  | collection used =>
      exact Focus.nodes_subset_of_mem_parts (Focus.collections_subset_parts used)
        (Expr.mem_nodes_self _)
  | @index items index span =>
      have hpart : index ∈ (Focus.expr (.subscript items index span)).parts :=
        List.mem_cons_of_mem _ List.mem_cons_self
      exact Focus.nodes_subset_of_mem_parts hpart (Expr.mem_nodes_self _)
  | arms | operands | number | numberOrString | negate | not | elements | untyped | callee | arity
  | argument => exact Expr.mem_nodes_self _
  | counter | uncountable | constant | assign | valueReturned | valueMissing | returned =>
      exact Stmt.mem_nodes_self _

end

/-! ## 2. Faults -/

/-- The diagnostic says what is wrong with a node of the part `f` at `here`, and points at it. -/
def Fault (c : Catalog) (p : Program) (Γ : Scopes) (here : Place) (f : Focus) (d : Diagnostic) :
    Prop :=
  ∃ n : Node, d.span = some n.span ∧
    (Misplaced c p here f n d.problem ∨ Mistyped Γ f n d.problem)

/-- There is a fault at `here` or further inside. -/
def FaultIn (c : Catalog) (p : Program) (Γ : Scopes) (here : Place) (d : Diagnostic) : Prop :=
  ∃ there f, here <:+ there ∧ (Focus.block p).at? there = some f ∧ Fault c p Γ there f d

section

variable {c : Catalog} {p : Program} {here there : Place} {Γ : Scopes} {f : Focus} {d : Diagnostic}

theorem Misplaced.fault {n : Node} {problem : Problem} (h : Misplaced c p here f n problem) :
    Fault c p Γ here f ⟨problem, some n.span⟩ := ⟨n, rfl, .inl h⟩

theorem Mistyped.fault {n : Node} {problem : Problem} (h : Mistyped Γ f n problem) :
    Fault c p Γ here f ⟨problem, some n.span⟩ := ⟨n, rfl, .inr h⟩

theorem Fault.inside (h : Fault c p Γ here f d) (hat : (Focus.block p).at? here = some f) :
    FaultIn c p Γ here d := ⟨here, f, List.suffix_refl _, hat, h⟩

theorem FaultIn.outer (h : FaultIn c p Γ there d) (hsuffix : here <:+ there) :
    FaultIn c p Γ here d := by
  obtain ⟨q, f, hq, hat, hf⟩ := h
  exact ⟨q, f, hsuffix.trans hq, hat, hf⟩

/-! ## 3. Names and written types -/

theorem Sighted.of_none {x : String} {site : Option Site} (h : Sighted c x site none) :
    site = none ∧ c.get? x = none := by
  cases site with
  | none => exact ⟨rfl, Eq.symm h⟩
  | some s =>
      obtain ⟨e, he, _⟩ := h
      cases he

theorem Sighted.of_some {x : String} {site : Option Site} {e : Entity}
    (h : Sighted c x site (some e)) : (∃ s, site = some s) ∨ site = none ∧ c.get? x = some e := by
  cases site with
  | none => exact .inr ⟨rfl, Eq.symm h⟩
  | some s => exact .inl ⟨s, rfl⟩

/-- The innermost scope holds what the syntax shows. -/
theorem Scoped.held {x : String} (h : Scoped c p here Γ.env) (hx : Γ.inner.declares x = true) :
    x ∈ heldNames c p here := by
  by_contra hnot
  rw [← h.free x, Γ.free_env, hx] at hnot
  cases hnot

/-- A written type that is refused holds a name that is at fault; `Δ` are the scopes in which the
    type is read. -/
theorem fault_written {a : Annotation} {t : TypeExpr} {Δ : Scopes}
    (written : f.annotation? a = some t)
    (hsight : ∀ x, Sighted c x (designatedIn p x here f a) (Δ.env.lookup x))
    (h : (t.resolve Δ).result = .error d) : Fault c p Γ here f d := by
  obtain ⟨x, span, hnode, hspan, hrefuses⟩ := t.error_resolve h
  have hx := hsight x
  rw [Δ.lookup_env] at hx
  obtain ⟨problem, _⟩ := d
  subst hspan
  cases problem with
  | notDeclared y =>
      obtain ⟨rfl, hnone⟩ := hrefuses
      rw [hnone] at hx
      obtain ⟨hunseen, habsent⟩ := hx.of_none
      exact (Misplaced.typeName written hnode hunseen habsent).fault
  | typeExpected =>
      obtain ⟨e, he, hne⟩ := hrefuses
      rw [he] at hx
      rcases hx.of_some with ⟨site, hsite⟩ | ⟨hunseen, hentry⟩
      · exact (Misplaced.typeDeclared written hnode hsite).fault
      · exact (Misplaced.typeEntry written hnode hunseen hentry hne).fault
  | _ => exact hrefuses.elim

/-! ## 4. Expressions -/

theorem fault_test {e : Expr} {r : Resolved.Expr} (tested : e ∈ f.tests)
    (he : (e.check Γ).result = .ok r) (h : (expectBool r.ty e.span).result = .error d) :
    Fault c p Γ here f d := by
  obtain ⟨hbool, rfl⟩ := result_expectBool_eq_error.mp h
  exact (Mistyped.test tested he hbool).fault

theorem fault_collection {e : Expr} {r : Resolved.Expr} (used : e ∈ f.collections)
    (he : (e.check Γ).result = .ok r) (h : (expectList r.ty e.span).result = .error d) :
    Fault c p Γ here f d := by
  obtain ⟨hlist, rfl⟩ := result_expectList_eq_error.mp h
  exact (Mistyped.collection used he hlist).fault

theorem fault_binary {op : BinaryOp} {left right : Expr} {span : Span} {l r : Resolved.Expr}
    (hl : (left.check Γ).result = .ok l) (hr : (right.check Γ).result = .ok r)
    (h : (op.check l.ty r.ty span).result = .error d) :
    Fault c p Γ here (.expr (.binary op left right span)) d := by
  rw [BinaryOp.check] at h
  rcases Traced.result_bind_eq_error.mp h with hop | ⟨_, _, h⟩
  · obtain ⟨hrefused, ⟨hclass, rfl⟩ | ⟨hclass, rfl⟩⟩ := error_expectOperand hop
    · exact (Mistyped.number hl hclass hrefused).fault
    · exact (Mistyped.numberOrString hl hclass hrefused).fault
  · obtain ⟨hdiffer, rfl⟩ :=
      result_expectSame_eq_error.mp (Traced.result_bind_pure_eq_error.mp h)
    exact (Mistyped.operands hl hr hdiffer).fault

theorem fault_unary {op : UnaryOp} {operand : Expr} {span : Span} {r : Resolved.Expr}
    (hr : (operand.check Γ).result = .ok r) (h : (op.check r.ty span).result = .error d) :
    Fault c p Γ here (.expr (.unary op operand span)) d := by
  cases op with
  | negate =>
      obtain ⟨hrefused, rfl⟩ :=
        result_expectNumber_eq_error.mp (Traced.result_bind_pure_eq_error.mp h)
      exact (Mistyped.negate hr hrefused).fault
  | not =>
      obtain ⟨hbool, rfl⟩ := result_expectBool_eq_error.mp (Traced.result_bind_pure_eq_error.mp h)
      exact (Mistyped.not hr hbool).fault

theorem fault_list {es : List Expr} {span : Span} {rs : List Resolved.Expr}
    (hes : (Expr.checkAll Γ es).result = .ok rs)
    (h : (expectUniform (rs.map (·.ty)) span).result = .error d) :
    Fault c p Γ here (.expr (.list es span)) d := by
  rcases error_expectUniform h with ⟨hnil, rfl⟩ | ⟨t, ts, hcons, ⟨u, hu, hdiffer⟩, rfl⟩
  · obtain rfl := List.map_eq_nil_iff.mp hnil
    have hlength := ((Expr.result_checkAll_eq_ok Γ es []).mp hes).length_eq
    obtain rfl := List.length_eq_zero_iff.mp hlength
    exact Mistyped.untyped.fault
  · obtain ⟨first, rest, rfl, rfl, rfl⟩ := List.map_eq_cons_iff.mp hcons
    obtain ⟨r, hr, rfl⟩ := List.mem_map.mp hu
    exact (Mistyped.elements hes ⟨r, hr, hdiffer⟩).fault

theorem fault_arguments {callee : Expr} {arguments : List Expr} {span : Span} {g : Resolved.Expr}
    {signature : Signature} {rs : List Resolved.Expr} (hg : (callee.check Γ).result = .ok g)
    (hsignature : g.ty = .function signature.parameters signature.result)
    (hrs : (Expr.checkAll Γ arguments).result = .ok rs)
    (h : (expectArguments (rs.map (·.ty)) signature.parameters span).result = .error d) :
    Fault c p Γ here (.expr (.call callee arguments span)) d := by
  rcases error_expectArguments h with ⟨hdiffer, rfl⟩ | ⟨i, t, u, ht, hu, hmisfit, rfl⟩
  · have hlength := ((Expr.result_checkAll_eq_ok Γ arguments rs).mp hrs).length_eq
    rw [List.length_map, ← hlength] at hdiffer ⊢
    exact (Mistyped.arity hg hsignature hdiffer.symm).fault
  · rw [List.getElem?_map] at ht
    obtain ⟨r, hr, rfl⟩ := Option.map_eq_some_iff.mp ht
    obtain ⟨e, he, hcheck⟩ := Expr.getElem?_of_checkAll hrs hr
    exact (Mistyped.argument hg hsignature he hcheck hu hmisfit).fault

/-- **An expression that is refused has a fault of its own, or a part of it is refused.** -/
theorem Expr.fault_or_part {e : Expr} (hΓ : Scoped c p here Γ.env)
    (h : (e.check Γ).result = .error d) :
    (∃ part ∈ e.parts, (part.check Γ).result = .error d) ∨ Fault c p Γ here (.expr e) d := by
  cases e with
  | int v span | float v span | bool v span | str v span => cases h
  | name x span =>
      rw [Expr.check] at h
      obtain ⟨hnone, rfl⟩ := Scopes.error_resolve (Traced.result_bind_pure_eq_error.mp h)
      have hx := hΓ.sighted x
      rw [Γ.lookup_env, hnone] at hx
      obtain ⟨hunseen, habsent⟩ := hx.of_none
      exact .inr (Misplaced.name hunseen habsent).fault
  | conditional test consequent alternate span =>
      rw [Expr.check] at h
      rcases Traced.result_bind_eq_error.mp h with htest | ⟨t, ht, h⟩
      · exact .inl ⟨test, by simp [Expr.parts], htest⟩
      rcases Traced.result_bind_eq_error.mp h with hbool | ⟨_, _, h⟩
      · exact .inr (fault_test List.mem_cons_self ht hbool)
      rcases Traced.result_bind_eq_error.mp h with hconsequent | ⟨l, hl, h⟩
      · exact .inl ⟨consequent, by simp [Expr.parts], hconsequent⟩
      rcases Traced.result_bind_eq_error.mp h with halternate | ⟨r, hr, h⟩
      · exact .inl ⟨alternate, by simp [Expr.parts], halternate⟩
      obtain ⟨hdiffer, rfl⟩ :=
        result_expectSame_eq_error.mp (Traced.result_bind_pure_eq_error.mp h)
      exact .inr (Mistyped.arms hl hr hdiffer).fault
  | logical op operands span =>
      rw [Expr.check] at h
      rcases Traced.result_bind_eq_error.mp h with hoperands | ⟨rs, hrs, h⟩
      · exact .inl (Expr.error_checkAll hoperands)
      obtain ⟨i, r, e, hr, he, hbool, rfl⟩ :=
        error_expectBools (Traced.result_bind_pure_eq_error.mp h)
      obtain ⟨e', he', hcheck⟩ := Expr.getElem?_of_checkAll hrs hr
      obtain rfl : e = e' := Option.some.inj (he.symm.trans he')
      exact .inr (Mistyped.test (List.mem_of_getElem? he) hcheck hbool).fault
  | binary op left right span =>
      rw [Expr.check] at h
      rcases Traced.result_bind_eq_error.mp h with hleft | ⟨l, hl, h⟩
      · exact .inl ⟨left, by simp [Expr.parts], hleft⟩
      rcases Traced.result_bind_eq_error.mp h with hright | ⟨r, hr, h⟩
      · exact .inl ⟨right, by simp [Expr.parts], hright⟩
      exact .inr (fault_binary hl hr (Traced.result_bind_pure_eq_error.mp h))
  | unary op operand span =>
      rw [Expr.check] at h
      rcases Traced.result_bind_eq_error.mp h with hoperand | ⟨r, hr, h⟩
      · exact .inl ⟨operand, by simp [Expr.parts], hoperand⟩
      exact .inr (fault_unary hr (Traced.result_bind_pure_eq_error.mp h))
  | subscript items index span =>
      rw [Expr.check] at h
      rcases Traced.result_bind_eq_error.mp h with hitems | ⟨l, hl, h⟩
      · exact .inl ⟨items, by simp [Expr.parts], hitems⟩
      rcases Traced.result_bind_eq_error.mp h with hlist | ⟨_, _, h⟩
      · exact .inr (fault_collection List.mem_cons_self hl hlist)
      rcases Traced.result_bind_eq_error.mp h with hindex | ⟨i, hi, h⟩
      · exact .inl ⟨index, by simp [Expr.parts], hindex⟩
      obtain ⟨hint, rfl⟩ := result_expectInteger_eq_error.mp (Traced.result_bind_pure_eq_error.mp h)
      exact .inr (Mistyped.index hi hint).fault
  | list elements span =>
      rw [Expr.check] at h
      rcases Traced.result_bind_eq_error.mp h with helements | ⟨rs, hrs, h⟩
      · exact .inl (Expr.error_checkAll helements)
      exact .inr (fault_list hrs (Traced.result_bind_pure_eq_error.mp h))
  | emptyList element span =>
      rw [Expr.check] at h
      have hresolve := Traced.result_bind_pure_eq_error.mp h
      exact .inr (fault_written (a := .element) rfl hΓ.sighted hresolve)
  | call callee arguments span =>
      rw [Expr.check] at h
      rcases Traced.result_bind_eq_error.mp h with hcallee | ⟨g, hg, h⟩
      · exact .inl ⟨callee, List.mem_cons_self, hcallee⟩
      rcases Traced.result_bind_eq_error.mp h with hcallable | ⟨signature, hsignature, h⟩
      · obtain ⟨hno, rfl⟩ := result_expectCallable_eq_error.mp hcallable
        exact .inr (Mistyped.callee hg hno).fault
      rcases Traced.result_bind_eq_error.mp h with harguments | ⟨rs, hrs, h⟩
      · obtain ⟨e, he, herror⟩ := Expr.error_checkAll harguments
        exact .inl ⟨e, List.mem_cons_of_mem _ he, herror⟩
      exact .inr (fault_arguments hg (result_expectCallable_eq_ok.mp hsignature) hrs
        (Traced.result_bind_pure_eq_error.mp h))

/-- An expression sees what the part around it sees. -/
theorem Scoped.part {Δ : Env} (h : Scoped c p here Δ) (hat : (Focus.block p).at? here = some f)
    (i : Nat) : Scoped c p (.part i :: here) Δ := by
  refine h.turn hat (fun x => ?_) ?_
  · cases f with
    | stmt s => cases s <;> rfl
    | _ => rfl
  · cases f with
    | stmt s => cases s <;> rfl
    | _ => rfl

/-- **There is a fault inside every expression that is refused.** -/
theorem Expr.faultIn (e : Expr) {here : Place} (hat : (Focus.block p).at? here = some (.expr e))
    (hΓ : Scoped c p here Γ.env) (h : (e.check Γ).result = .error d) : FaultIn c p Γ here d := by
  rcases Expr.fault_or_part hΓ h with ⟨part, hpart, herror⟩ | hfault
  · obtain ⟨i, hi⟩ := Focus.at?_part hat hpart
    have hsize := Expr.sizeOf_lt_of_mem_parts hpart
    exact (part.faultIn hi (hΓ.part hat i) herror).outer (List.suffix_cons _ _)
  · exact hfault.inside hat
termination_by sizeOf e

/-- The same for an expression directly inside a part of the program. -/
theorem Focus.faultIn_part {e : Expr} (hat : (Focus.block p).at? here = some f)
    (hΓ : Scoped c p here Γ.env) (he : e ∈ f.parts) (h : (e.check Γ).result = .error d) :
    FaultIn c p Γ here d := by
  obtain ⟨i, hi⟩ := Focus.at?_part hat he
  exact (e.faultIn hi (hΓ.part hat i) h).outer (List.suffix_cons _ _)

end

/-! ## 5. Statements -/

/-- The statement `s` is about to be checked at its place, in scopes that agree with it. -/
structure Stands (c : Catalog) (p : Program) (K : List Moment) (here : Place) (s : Stmt)
    (σ : Session) : Prop where
  place : (Focus.block p).at? here = some (.stmt s)
  sight : Scoped c p here σ.scopes.env
  lexical : Lexical p K here σ.scopes

section

variable {c : Catalog} {p : Program} {K : List Moment} {here : Place} {σ : Session}
  {d : Diagnostic} {span : Span}

/-- A test that is refused, in a part of the program. -/
theorem faultIn_checkTest {f : Focus} {test : Expr} (hat : (Focus.block p).at? here = some f)
    (hσ : Scoped c p here σ.scopes.env) (htest : test ∈ f.tests)
    (h : ((checkTest test).run σ).result = .error d) : FaultIn c p σ.scopes here d := by
  rw [checkTest, run_reading] at h
  rcases Traced.result_bind_eq_error.mp h with hrefused | ⟨r, hr, h⟩
  · exact Focus.faultIn_part hat hσ (Focus.tests_subset_parts htest) hrefused
  · exact (fault_test htest hr (Traced.result_bind_pure_eq_error.mp h)).inside hat

/-- What a loop runs over, refused. -/
theorem faultIn_checkCollection {f : Focus} {collection : Expr}
    (hat : (Focus.block p).at? here = some f) (hσ : Scoped c p here σ.scopes.env)
    (hcollection : collection ∈ f.collections)
    (h : ((checkCollection collection).run σ).result = .error d) : FaultIn c p σ.scopes here d := by
  rw [checkCollection, run_reading] at h
  rcases Traced.result_bind_eq_error.mp h with hrefused | ⟨r, hr, h⟩
  · exact Focus.faultIn_part hat hσ (Focus.collections_subset_parts hcollection) hrefused
  · exact (fault_collection hcollection hr (Traced.result_bind_pure_eq_error.mp h)).inside hat

namespace Stands

theorem faultIn_declare {x : String} {readOnly : Bool} {init : Expr}
    (hs : Stands c p K here (.declare x readOnly init span) σ)
    (h : ((Stmt.declare x readOnly init span).check.run σ).result = .error d) :
    FaultIn c p σ.scopes here d := by
  rw [Stmt.check] at h
  rcases Check.result_bind_eq_error.mp h with hinit | ⟨r, τ, hr, hdeclare⟩
  · exact Focus.faultIn_part hs.place hs.sight List.mem_cons_self hinit
  · obtain ⟨_, rfl⟩ := yields_reading.mp hr
    obtain ⟨hx, rfl⟩ := error_declareVariable (Check.result_bind_pure_eq_error.mp hdeclare)
    exact (Misplaced.declare (hs.sight.held hx)).fault.inside hs.place

/-- A constant that is written to. -/
theorem fault_writable {s : Stmt} {target : Expr} {r : Resolved.Expr}
    (hs : s.target? = some target) (hr : (target.check σ.scopes).result = .ok r)
    (h : (expectWritable r s.span).result = .error d) : Fault c p σ.scopes here (.stmt s) d := by
  obtain ⟨v, hform, hconstant, rfl⟩ := error_expectWritable h
  exact (Mistyped.constant hs hr hform hconstant).fault

theorem faultIn_step {dir : Step} {target : Expr}
    (hs : Stands c p K here (.step dir target span) σ)
    (h : ((Stmt.step dir target span).check.run σ).result = .error d) :
    FaultIn c p σ.scopes here d := by
  rw [Stmt.check, Check.result_bind_pure_eq_error, checkCounter, run_reading] at h
  rcases Traced.result_bind_eq_error.mp h with htarget | ⟨r, hr, h⟩
  · exact Focus.faultIn_part hs.place hs.sight List.mem_cons_self htarget
  rcases Traced.result_bind_eq_error.mp h with hinteger | ⟨_, _, h⟩
  · obtain ⟨hne, rfl⟩ := result_expectInteger_eq_error.mp hinteger
    exact (Mistyped.counter hr hne).fault.inside hs.place
  rcases Traced.result_bind_eq_error.mp h with hvariable | ⟨_, _, h⟩
  · obtain ⟨huncountable, rfl⟩ := error_expectVariable hvariable
    exact (Mistyped.uncountable hr huncountable).fault.inside hs.place
  · exact (fault_writable (s := .step dir target span) rfl hr
      (Traced.result_bind_pure_eq_error.mp h)).inside hs.place

theorem faultIn_assign {target source : Expr}
    (hs : Stands c p K here (.assign target source span) σ)
    (h : ((Stmt.assign target source span).check.run σ).result = .error d) :
    FaultIn c p σ.scopes here d := by
  rw [Stmt.check, checkAssign, run_reading] at h
  rcases Traced.result_bind_eq_error.mp h with hsource | ⟨v, hv, h⟩
  · exact Focus.faultIn_part hs.place hs.sight (List.mem_cons_of_mem _ List.mem_cons_self) hsource
  rcases Traced.result_bind_eq_error.mp h with htarget | ⟨r, hr, h⟩
  · exact Focus.faultIn_part hs.place hs.sight List.mem_cons_self htarget
  rcases Traced.result_bind_eq_error.mp h with hassignable | ⟨_, _, h⟩
  · obtain ⟨hmisfit, rfl⟩ := result_expectAssignable_eq_error.mp hassignable
    exact (Mistyped.assign hr hv hmisfit).fault.inside hs.place
  · exact (fault_writable (s := .assign target source span) rfl hr
      (Traced.result_bind_pure_eq_error.mp h)).inside hs.place

theorem faultIn_exitLoop (hs : Stands c p K here (.exitLoop span) σ)
    (h : ((Stmt.exitLoop span).check.run σ).result = .error d) : FaultIn c p σ.scopes here d := by
  rw [Stmt.result_exitLoop, hs.lexical.inLoop] at h
  cases hloop : loopAround p here with
  | true =>
      rw [hloop] at h
      cases h
  | false =>
      rw [hloop] at h
      cases h
      exact (Misplaced.exitLoop hloop).fault.inside hs.place

theorem faultIn_returnValue {value : Expr} (hs : Stands c p K here (.returnValue value span) σ)
    (h : ((Stmt.returnValue value span).check.run σ).result = .error d) :
    FaultIn c p σ.scopes here d := by
  rw [Stmt.check, checkReturnValue, run_reading] at h
  rcases Traced.result_bind_eq_error.mp h with houtside | ⟨ty, hty, h⟩
  · obtain ⟨hnone, rfl⟩ := error_enclosingResult houtside
    have hplace := hs.lexical.currentFunction_eq_none.mp hnone
    exact (Misplaced.returnValue hplace).fault.inside hs.place
  obtain ⟨g, hg, rfl⟩ := result_enclosingResult_eq_ok.mp hty
  rcases Traced.result_bind_eq_error.mp h with hrefused | ⟨_, _, h⟩
  · obtain ⟨hresult, rfl⟩ := result_require_eq_error.mp hrefused
    have hvoid : g.signature.result = .void := by simpa using hresult
    exact (Mistyped.valueReturned hg hvoid).fault.inside hs.place
  rcases Traced.result_bind_eq_error.mp h with hvalue | ⟨r, hr, h⟩
  · exact Focus.faultIn_part hs.place hs.sight List.mem_cons_self hvalue
  · obtain ⟨hmisfit, rfl⟩ :=
      result_expectAssignable_eq_error.mp (Traced.result_bind_pure_eq_error.mp h)
    exact (Mistyped.returned hg hr hmisfit).fault.inside hs.place

theorem faultIn_returnNothing (hs : Stands c p K here (.returnNothing span) σ)
    (h : ((Stmt.returnNothing span).check.run σ).result = .error d) :
    FaultIn c p σ.scopes here d := by
  rw [Stmt.check, checkReturnNothing, run_reading] at h
  rcases Traced.result_bind_eq_error.mp h with houtside | ⟨ty, hty, h⟩
  · obtain ⟨hnone, rfl⟩ := error_enclosingResult houtside
    have hplace := hs.lexical.currentFunction_eq_none.mp hnone
    exact (Misplaced.returnNothing hplace).fault.inside hs.place
  · obtain ⟨g, hg, rfl⟩ := result_enclosingResult_eq_ok.mp hty
    obtain ⟨hresult, rfl⟩ := result_require_eq_error.mp (Traced.result_bind_pure_eq_error.mp h)
    have hyields : g.signature.result ≠ .void := by simpa using hresult
    exact (Mistyped.valueMissing hg hyields).fault.inside hs.place

theorem faultIn_eval {e : Expr} (hs : Stands c p K here (.eval e span) σ)
    (h : ((Stmt.eval e span).check.run σ).result = .error d) : FaultIn c p σ.scopes here d := by
  rw [Stmt.check, Check.result_bind_pure_eq_error] at h
  exact Focus.faultIn_part hs.place hs.sight List.mem_cons_self h

section

variable {name : String} {ps : List Parameter} {result : Option TypeExpr} {body : List Stmt}

theorem faultIn_result (hs : Stands c p K here (.function name ps result body span) σ)
    (h : ((checkResult result).run σ).result = .error d) : FaultIn c p σ.scopes here d := by
  cases result with
  | none => cases h
  | some t => exact (fault_written (a := .result) rfl hs.sight.sighted h).inside hs.place

/-- A parameter is refused for its type, which is read behind the parameters before it, or for its
    name. -/
theorem faultIn_parameters (hs : Stands c p K here (.function name ps result body span) σ)
    (h : ((Parameter.checkAll ps).run (σ.enter .functionBody)).result = .error d) :
    FaultIn c p σ.scopes here d := by
  obtain ⟨k, q, ds, τ, hq, hds, herror⟩ := Parameter.error_checkAll h
  obtain ⟨helaborates, -, rfl⟩ := (Parameter.yields_checkAll _ ds _ τ).mp hds
  have hnames := helaborates.map_name
  have henv := Scopes.env_bindParameters (σ.enter .functionBody).scopes.outer ds
    (σ.enter .functionBody).scopes.inner
  rcases Parameter.error_check herror with htype | ⟨hdeclared, rfl⟩
  · have hwritten : (Focus.stmt (.function name ps result body span)).annotation? (.parameter k) =
        some q.type := by
      rw [Focus.annotation?, hq, Option.map_some]
    refine (fault_written hwritten (fun x => ?_) htype).inside hs.place
    rw [henv]
    exact (hs.sight.sighted x).parameters hnames none
  · have hheld : q.name ∈ (ps.take k).map (·.name) := by
      by_contra hnot
      have hfree : (((σ.enter .functionBody).scopes.env).bindParameters ds).Free q.name :=
        (Env.free_bindParameters ds _).mpr ⟨hnames ▸ hnot, Finmap.lookup_empty q.name⟩
      rw [← henv, Scopes.free_env, hdeclared] at hfree
      cases hfree
    exact (Misplaced.parameter hq hheld).fault.inside hs.place

theorem faultIn_name (hs : Stands c p K here (.function name ps result body span) σ)
    (h : σ.scopes.inner.declares name = true) :
    FaultIn c p σ.scopes here ⟨.alreadyDeclared name, some span⟩ :=
  (Misplaced.function (hs.sight.held h)).fault.inside hs.place

end

end Stands

end

end Sema
