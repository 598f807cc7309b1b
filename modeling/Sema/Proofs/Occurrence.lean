import Sema.Proofs.Place
import Sema.Syntax.Node

/-!
# Every expression has a place

Places reach all of a program: each expression among the nodes of the program is found at some place
(`exists_place_of_mem_nodesAll`). So what holds of the names at all places holds of all names. In
the other direction, the nodes of a part at a place are among those of every part around it
(`Focus.nodes_subset_of_suffix`).
-/

namespace Sema

/-! ## 1. Nodes -/

mutual

/-- There are no expressions in a written type. -/
theorem TypeExpr.expr_notMem_nodes (q : Expr) : ∀ t : TypeExpr, .expr q ∉ t.nodes
  | .named x s => by simp [TypeExpr.nodes]
  | .list t s => by simp [TypeExpr.nodes, t.expr_notMem_nodes q]
  | .function ps r s => by
      simp [TypeExpr.nodes, TypeExpr.expr_notMem_nodesAll q ps, r.expr_notMem_nodes q]

theorem TypeExpr.expr_notMem_nodesAll (q : Expr) : ∀ ts : List TypeExpr,
    .expr q ∉ TypeExpr.nodesAll ts
  | [] => by simp [TypeExpr.nodesAll]
  | t :: ts => by
      simp [TypeExpr.nodesAll, t.expr_notMem_nodes q, TypeExpr.expr_notMem_nodesAll q ts]

end

theorem Parameter.expr_notMem_nodes (q : Expr) (p : Parameter) : .expr q ∉ p.nodes := by
  simp [Parameter.nodes, p.type.expr_notMem_nodes q]

theorem Expr.mem_nodesAll {n : Node} : ∀ es : List Expr,
    n ∈ Expr.nodesAll es ↔ ∃ e ∈ es, n ∈ e.nodes
  | [] => by simp [Expr.nodesAll]
  | e :: es => by simp [Expr.nodesAll, Expr.mem_nodesAll es]

/-- An expression in an expression is the whole or lies in one of its parts. -/
theorem Expr.mem_nodes {q e : Expr} (h : .expr q ∈ e.nodes) :
    q = e ∨ ∃ part ∈ e.parts, .expr q ∈ part.nodes := by
  cases e with
  | emptyList t s =>
      simp only [Expr.nodes, List.mem_cons, Node.expr.injEq, t.expr_notMem_nodes q, or_false] at h
      exact .inl h
  | _ =>
      simpa [Expr.nodes, Expr.parts, Expr.mem_nodesAll, or_assoc] using h

theorem Expr.sizeOf_lt_of_mem_parts {e part : Expr} (h : part ∈ e.parts) :
    sizeOf part < sizeOf e := by
  cases e with
  | conditional t c a s =>
      simp only [Expr.parts, List.mem_cons, List.not_mem_nil, or_false] at h
      obtain rfl | rfl | rfl := h <;> simp only [Expr.conditional.sizeOf_spec] <;> omega
  | binary op l r s =>
      simp only [Expr.parts, List.mem_cons, List.not_mem_nil, or_false] at h
      obtain rfl | rfl := h <;> simp only [Expr.binary.sizeOf_spec] <;> omega
  | subscript l r s =>
      simp only [Expr.parts, List.mem_cons, List.not_mem_nil, or_false] at h
      obtain rfl | rfl := h <;> simp only [Expr.subscript.sizeOf_spec] <;> omega
  | unary op e s =>
      obtain rfl := List.mem_singleton.mp h
      simp only [Expr.unary.sizeOf_spec]
      omega
  | logical op es s =>
      have hlt := List.sizeOf_lt_of_mem h
      simp only [Expr.parts] at hlt
      simp only [Expr.logical.sizeOf_spec]
      omega
  | list es s =>
      have hlt := List.sizeOf_lt_of_mem h
      simp only [Expr.parts] at hlt
      simp only [Expr.list.sizeOf_spec]
      omega
  | call f es s =>
      simp only [Expr.call.sizeOf_spec]
      obtain rfl | h := List.mem_cons.mp h
      · omega
      · have hlt := List.sizeOf_lt_of_mem h
        omega
  | _ => cases h

/-! ## 2. Places -/

section Places

variable {root : Focus} {q : Expr}

theorem Focus.at?_part {here : Place} {f : Focus} (h : root.at? here = some f) {e : Expr}
    (he : e ∈ f.parts) : ∃ i, root.at? (.part i :: here) = some (.expr e) := by
  obtain ⟨i, hi⟩ := List.getElem?_of_mem he
  refine ⟨i, ?_⟩
  rw [Focus.at?_cons h, Focus.child?_part, hi, Option.map_some]

/-- Every expression inside an expression with a place has one. -/
theorem Expr.exists_place (e : Expr) {here : Place} (h : root.at? here = some (.expr e))
    (hq : .expr q ∈ e.nodes) : ∃ there, root.at? there = some (.expr q) := by
  obtain rfl | ⟨part, hpart, hq⟩ := Expr.mem_nodes hq
  · exact ⟨here, h⟩
  · obtain ⟨i, hi⟩ := Focus.at?_part h hpart
    have hsize := Expr.sizeOf_lt_of_mem_parts hpart
    exact Expr.exists_place part hi hq
termination_by sizeOf e

theorem Focus.exists_place_of_part {here : Place} {f : Focus} (h : root.at? here = some f)
    {e : Expr} (he : e ∈ f.parts) (hq : .expr q ∈ e.nodes) :
    ∃ there, root.at? there = some (.expr q) := by
  obtain ⟨i, hi⟩ := Focus.at?_part h he
  exact Expr.exists_place e hi hq

mutual

/-- Every expression inside a statement with a place has one. -/
theorem Stmt.exists_place : ∀ (s : Stmt) {here : Place}, root.at? here = some (.stmt s) →
    .expr q ∈ s.nodes → ∃ there, root.at? there = some (.expr q)
  | .declare _ _ e _, _, h, hq | .step _ e _, _, h, hq | .returnValue e _, _, h, hq
  | .eval e _, _, h, hq => by
      obtain hq | hq := List.mem_cons.mp hq
      · cases hq
      · exact Focus.exists_place_of_part h List.mem_cons_self hq
  | .assign t e _, _, h, hq => by
      obtain hq | hq := List.mem_cons.mp hq
      · cases hq
      · obtain hq | hq := List.mem_append.mp hq
        · exact Focus.exists_place_of_part h List.mem_cons_self hq
        · exact Focus.exists_place_of_part h (List.mem_cons_of_mem _ List.mem_cons_self) hq
  | .exitLoop _, _, _, hq | .returnNothing _, _, _, hq => by
      cases List.mem_singleton.mp hq
  | .function name ps result body s, _, h, hq => by
      have hparams : .expr q ∉ ps.flatMap Parameter.nodes := by
        simp [List.mem_flatMap, Parameter.expr_notMem_nodes q]
      have hresult : .expr q ∉ result.elim [] TypeExpr.nodes := by
        cases result with
        | none => exact List.not_mem_nil
        | some t => exact t.expr_notMem_nodes q
      simp only [Stmt.nodes, List.mem_cons, List.mem_append, hparams, hresult, reduceCtorEq,
        false_or] at hq
      exact Stmt.exists_placeAll body 0 (Focus.at?_item (Focus.at?_cons h .body)) hq
  | .branch b, _, h, hq => by
      obtain hq | hq := List.mem_cons.mp hq
      · cases hq
      · exact b.exists_place (Focus.at?_cons h .branch) hq
  | .whileLoop e body _, _, h, hq | .forEach _ e body _, _, h, hq => by
      obtain hq | hq := List.mem_cons.mp hq
      · cases hq
      · obtain hq | hq := List.mem_append.mp hq
        · exact Focus.exists_place_of_part h List.mem_cons_self hq
        · exact Stmt.exists_placeAll body 0 (Focus.at?_item (Focus.at?_cons h .body)) hq

theorem Branch.exists_place : ∀ (b : Branch) {here : Place}, root.at? here = some (.branch b) →
    .expr q ∈ b.inner → ∃ there, root.at? there = some (.expr q)
  | .mk t c a _, _, h, hq => by
      obtain hq | hq := List.mem_append.mp hq
      · exact Focus.exists_place_of_part h List.mem_cons_self hq
      · obtain hq | hq := List.mem_append.mp hq
        · exact Stmt.exists_placeAll c 0 (Focus.at?_item (Focus.at?_cons h .consequent)) hq
        · exact a.exists_place (Focus.at?_cons h .alternate) hq

theorem Alternate.exists_place : ∀ (a : Alternate) {here : Place},
    root.at? here = Focus.ofAlternate? a → .expr q ∈ a.nodes →
      ∃ there, root.at? there = some (.expr q)
  | .none, _, _, hq => by cases hq
  | .block body, _, h, hq => Stmt.exists_placeAll body 0 (Focus.at?_item h) hq
  | .elseIf next, _, h, hq => by
      obtain hq | hq := List.mem_cons.mp hq
      · cases hq
      · exact next.exists_place h hq

theorem Stmt.exists_placeAll : ∀ (ss : List Stmt) {here : Place} (i : Nat),
    (∀ j s, ss[j]? = some s → root.at? (.item (i + j) :: here) = some (.stmt s)) →
    .expr q ∈ Stmt.nodesAll ss → ∃ there, root.at? there = some (.expr q)
  | s :: ss, here, i, h, hq => by
      obtain hq | hq := List.mem_append.mp hq
      · exact s.exists_place (h 0 s rfl) hq
      · have hrest : ∀ j t, ss[j]? = some t →
            root.at? (.item (i + 1 + j) :: here) = some (.stmt t) := by
          intro j t ht
          rw [Nat.add_assoc, Nat.add_comm 1 j]
          exact h (j + 1) t ht
        exact Stmt.exists_placeAll ss (i + 1) hrest hq

end

end Places

/-- **Every expression of a program has a place.** -/
theorem exists_place_of_mem_nodesAll {p : Program} {q : Expr} (h : .expr q ∈ Stmt.nodesAll p) :
    ∃ here, (Focus.block p).at? here = some (.expr q) := by
  have hroot : (Focus.block p).at? [] = some (.block p) := rfl
  exact Stmt.exists_placeAll p 0 (Focus.at?_item hroot) h

/-! ## 3. The nodes of a part -/

/-- The nodes inside a part of a program; a statement or an expression is the first of its own. -/
def Focus.nodes : Focus → List Node
  | .block ss => Stmt.nodesAll ss
  | .stmt s => s.nodes
  | .branch b => b.inner
  | .expr e => e.nodes

theorem Expr.mem_nodes_self (e : Expr) : .expr e ∈ e.nodes := by
  cases e <;> simp [Expr.nodes]

theorem Stmt.mem_nodes_self (s : Stmt) : .stmt s ∈ s.nodes := by
  cases s <;> simp [Stmt.nodes]

theorem Expr.nodes_subset_of_mem_parts {e part : Expr} (h : part ∈ e.parts) :
    part.nodes ⊆ e.nodes := by
  intro n hn
  have hall : ∃ part ∈ e.parts, n ∈ part.nodes := ⟨part, h, hn⟩
  cases e with
  | conditional t c a span | binary op l r span | subscript l r span | unary op o span
  | logical op es span | list es span | call f es span =>
      simp only [Expr.parts, List.mem_cons, List.not_mem_nil, or_false, exists_eq_or_imp,
        exists_eq_left] at hall
      simp only [Expr.nodes, List.mem_cons, List.mem_append, Expr.mem_nodesAll, or_assoc]
      exact .inr hall
  | _ => cases h

theorem Stmt.nodes_subset_of_mem_parts {s : Stmt} {part : Expr} (h : part ∈ s.parts) :
    part.nodes ⊆ s.nodes := by
  intro n hn
  cases s with
  | assign target source span =>
      simp only [Stmt.parts, List.mem_cons, List.not_mem_nil, or_false] at h
      obtain rfl | rfl := h <;> simp [Stmt.nodes, hn]
  | declare x readOnly init span | step dir target span | returnValue value span
  | whileLoop test body span | forEach x collection body span | eval e span =>
      obtain rfl := List.mem_singleton.mp h
      simp [Stmt.nodes, hn]
  | _ => cases h

theorem Focus.nodes_subset_of_mem_parts {f : Focus} {part : Expr} (h : part ∈ f.parts) :
    part.nodes ⊆ f.nodes := by
  cases f with
  | block ss => cases h
  | stmt s => exact Stmt.nodes_subset_of_mem_parts h
  | branch b =>
      obtain ⟨t, c, a, span⟩ := b
      obtain rfl := List.mem_singleton.mp h
      exact List.subset_append_left _ _
  | expr e => exact Expr.nodes_subset_of_mem_parts h

theorem Stmt.nodes_subset_nodesAll : ∀ {ss : List Stmt} {s : Stmt}, s ∈ ss →
    s.nodes ⊆ Stmt.nodesAll ss
  | _ :: ss, s, h => by
      rw [Stmt.nodesAll]
      obtain rfl | h := List.mem_cons.mp h
      · exact List.subset_append_left _ _
      · exact List.subset_append_of_subset_right _ (Stmt.nodes_subset_nodesAll h)

theorem Focus.nodes_subset_of_child? {f g : Focus} {t : Turn} :
    f.child? t = some g → g.nodes ⊆ f.nodes := by
  fun_cases Focus.child? f t with
  | case1 f i =>
      intro h
      obtain ⟨e, he, rfl⟩ := Option.map_eq_some_iff.mp h
      exact Focus.nodes_subset_of_mem_parts (List.mem_of_getElem? he)
  | case2 ss i =>
      intro h
      obtain ⟨s, hs, rfl⟩ := Option.map_eq_some_iff.mp h
      exact Stmt.nodes_subset_nodesAll (List.mem_of_getElem? hs)
  | case3 s =>
      intro h n hn
      obtain ⟨body, hbody, rfl⟩ := Option.map_eq_some_iff.mp h
      have hn : n ∈ Stmt.nodesAll body := hn
      cases s <;> cases hbody <;> simp [Focus.nodes, Stmt.nodes, hn]
  | case4 b =>
      intro h
      cases h
      exact List.subset_cons_self _ _
  | case5 test consequent alternate span =>
      intro h n hn
      cases h
      have hn : n ∈ Stmt.nodesAll consequent := hn
      simp [Focus.nodes, Branch.inner, hn]
  | case6 test consequent alternate span =>
      intro h n hn
      have halternate : n ∈ alternate.nodes := by
        cases alternate with
        | none => cases h
        | block body =>
            cases h
            exact hn
        | elseIf next =>
            cases h
            exact List.mem_cons_of_mem _ hn
      simp [Focus.nodes, Branch.inner, halternate]
  | case7 =>
      intro h
      cases h

/-- What lies at an inner place lies inside. -/
theorem Focus.nodes_subset_of_suffix {root f : Focus} {here : Place}
    (hf : root.at? here = some f) : ∀ {there : Place} {g : Focus}, here <:+ there →
      root.at? there = some g → g.nodes ⊆ f.nodes
  | [], g, hsuffix, hg => by
      obtain rfl : here = [] := List.suffix_nil.mp hsuffix
      obtain rfl : f = g := Option.some.inj (hf.symm.trans hg)
      exact List.Subset.refl _
  | t :: outer, g, hsuffix, hg => by
      obtain rfl | hsuffix := List.suffix_cons_iff.mp hsuffix
      · obtain rfl : f = g := Option.some.inj (hf.symm.trans hg)
        exact List.Subset.refl _
      · obtain ⟨g₀, hg₀, hchild⟩ := Option.bind_eq_some_iff.mp hg
        exact List.Subset.trans (Focus.nodes_subset_of_child? hchild)
          (Focus.nodes_subset_of_suffix hf hsuffix hg₀)

end Sema
