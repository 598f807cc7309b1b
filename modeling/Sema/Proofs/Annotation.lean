import Sema.Proofs.Occurrence

/-!
# Where types are written

A part of a program writes a type as the element type of an empty list, for one of the parameters of
a function, or as its result (`Annotation`). Written types stand nowhere else: each one in a program
lies in an annotation of some part (`exists_annotation_of_mem_nodesAll`). A resolved part has a type
in the same place (`Resolved.Focus.annotation?`).

A name in an annotation belongs to the declaration that `designatedIn` finds: for the type of a
parameter, the parameters in front of it are in sight too.
-/

namespace Sema

/-! ## 1. Annotations -/

/-- Where a part of a program writes a type. -/
inductive Annotation where
  /-- The element type of an empty list. -/
  | element
  /-- The type of a parameter of a function, by its number. -/
  | parameter (k : Nat)
  /-- The result type of a function. -/
  | result
deriving DecidableEq

/-- The type that a part of a program writes. -/
def Focus.annotation? : Focus → Annotation → Option TypeExpr
  | .expr (.emptyList t _), .element => some t
  | .stmt (.function _ ps _ _ _), .parameter k => ps[k]?.map (·.type)
  | .stmt (.function _ _ result _ _), .result => result
  | _, _ => none

/-- The parameters that are declared before the written type is looked at. -/
def Focus.front : Focus → Annotation → List Parameter
  | .stmt (.function _ ps _ _ _), .parameter k => ps.take k
  | _, _ => []

/-- The last of the parameters `ps` that has a name, as a declaration of the function at `here`. -/
def seekParameter (x : String) (here : Place) (ps : List Parameter) : Option Site :=
  (nearest (fun j => ps[j]?.map Parameter.name == some x) ps.length).map fun j =>
    ⟨here, .parameter j⟩

/-- The declaration of the program, if any, that a name in a written type belongs to. -/
def designatedIn (p : Program) (x : String) (here : Place) (f : Focus) (a : Annotation) :
    Option Site :=
  (seekParameter x here (f.front a)).or (designated p x here)

/-- The type that stands in a part of a resolved program for the one that was written. -/
def Resolved.Focus.annotation? : Resolved.Focus → Annotation → Option Ty
  | .expr (.mk (.emptyList t) _), .element => some t
  | .stmt (.function _ ds _), .parameter k => ds[k]?.map (·.ty)
  | .stmt (.function f _ _), .result => some f.signature.result
  | _, _ => none

/-- A written type lies in the part that writes it. -/
theorem Focus.nodes_subset_of_annotation? {f : Focus} {a : Annotation} {t : TypeExpr} :
    f.annotation? a = some t → t.nodes ⊆ f.nodes := by
  fun_cases Focus.annotation? f a with
  | case1 w span =>
      intro h n hn
      cases h
      exact List.mem_cons_of_mem _ hn
  | case2 name ps result body span k =>
      intro h n hn
      obtain ⟨q, hq, rfl⟩ := Option.map_eq_some_iff.mp h
      have hmem : n ∈ ps.flatMap Parameter.nodes :=
        List.mem_flatMap.mpr ⟨q, List.mem_of_getElem? hq, List.mem_cons_of_mem _ hn⟩
      simp [Focus.nodes, Stmt.nodes, hmem]
  | case3 name ps result body span =>
      intro h n hn
      cases h
      simp [Focus.nodes, Stmt.nodes, hn]
  | case4 =>
      intro h
      cases h

/-! ## 2. Every written type has a place -/

theorem Stmt.mem_nodesAll {n : Node} : ∀ {ss : List Stmt}, n ∈ Stmt.nodesAll ss →
    ∃ s ∈ ss, n ∈ s.nodes
  | s :: ss, h => by
      obtain h | h := List.mem_append.mp h
      · exact ⟨s, List.mem_cons_self, h⟩
      · obtain ⟨r, hr, hn⟩ := Stmt.mem_nodesAll h
        exact ⟨r, List.mem_cons_of_mem _ hr, hn⟩

theorem Focus.exists_part {f : Focus} {e : Expr} (h : e ∈ f.parts) :
    ∃ turn, f.child? turn = some (.expr e) := by
  obtain ⟨i, hi⟩ := List.getElem?_of_mem h
  exact ⟨.part i, by rw [Focus.child?_part, hi, Option.map_some]⟩

/-- A written type inside an expression is the element type of an empty list, or lies in one of the
    parts. -/
theorem Expr.type_mem_nodes {e : Expr} {t : TypeExpr} (h : .type t ∈ e.nodes) :
    (∃ w span, e = .emptyList w span ∧ .type t ∈ w.nodes) ∨
      ∃ part ∈ e.parts, .type t ∈ part.nodes := by
  cases e with
  | emptyList w span =>
      obtain h | h := List.mem_cons.mp h
      · cases h
      · exact .inl ⟨w, span, rfl, h⟩
  | int v span | float v span | bool v span | str v span | name x span =>
      cases List.mem_singleton.mp h
  | _ =>
      right
      simpa [Expr.nodes, Expr.parts, Expr.mem_nodesAll, or_assoc] using h

/-- A written type inside a part of a program is written by it directly, or lies further in. -/
theorem Focus.annotation_or_child {f : Focus} {t : TypeExpr} (h : .type t ∈ f.nodes) :
    (∃ a w, f.annotation? a = some w ∧ .type t ∈ w.nodes) ∨
      ∃ turn g, f.child? turn = some g ∧ .type t ∈ g.nodes := by
  have hpart : ∀ e ∈ f.parts, .type t ∈ e.nodes →
      ∃ turn g, f.child? turn = some g ∧ .type t ∈ g.nodes := by
    intro e he ht
    obtain ⟨turn, hturn⟩ := Focus.exists_part he
    exact ⟨turn, .expr e, hturn, ht⟩
  cases f with
  | block ss =>
      obtain ⟨s, hs, ht⟩ := Stmt.mem_nodesAll h
      obtain ⟨i, hi⟩ := List.getElem?_of_mem hs
      exact .inr ⟨.item i, .stmt s, by rw [Focus.child?, hi, Option.map_some], ht⟩
  | expr e =>
      obtain ⟨w, span, rfl, ht⟩ | ⟨part, hmem, ht⟩ := Expr.type_mem_nodes h
      · exact .inl ⟨.element, w, rfl, ht⟩
      · exact .inr (hpart part hmem ht)
  | branch b =>
      obtain ⟨test, consequent, alternate, span⟩ := b
      obtain h | h := List.mem_append.mp h
      · exact .inr (hpart test List.mem_cons_self h)
      · obtain h | h := List.mem_append.mp h
        · exact .inr ⟨.consequent, .block consequent, rfl, h⟩
        · refine .inr ⟨.alternate, ?_⟩
          cases alternate with
          | none => cases h
          | block body => exact ⟨.block body, rfl, h⟩
          | elseIf next =>
              obtain h | h := List.mem_cons.mp h
              · cases h
              · exact ⟨.branch next, rfl, h⟩
  | stmt s =>
      cases s with
      | function name ps result body span =>
          obtain h | h := List.mem_cons.mp h
          · cases h
          obtain h | h := List.mem_append.mp h
          · obtain ⟨q, hq, h⟩ := List.mem_flatMap.mp h
            obtain h | h := List.mem_cons.mp h
            · cases h
            · obtain ⟨k, hk⟩ := List.getElem?_of_mem hq
              exact .inl ⟨.parameter k, q.type, by rw [Focus.annotation?, hk, Option.map_some], h⟩
          obtain h | h := List.mem_append.mp h
          · cases result with
            | none => cases h
            | some w => exact .inl ⟨.result, w, rfl, h⟩
          · exact .inr ⟨.body, .block body, rfl, h⟩
      | branch b =>
          obtain h | h := List.mem_cons.mp h
          · cases h
          · exact .inr ⟨.branch, .branch b, rfl, h⟩
      | whileLoop test body span =>
          obtain h | h := List.mem_cons.mp h
          · cases h
          obtain h | h := List.mem_append.mp h
          · exact .inr (hpart test List.mem_cons_self h)
          · exact .inr ⟨.body, .block body, rfl, h⟩
      | forEach iterator collection body span =>
          obtain h | h := List.mem_cons.mp h
          · cases h
          obtain h | h := List.mem_append.mp h
          · exact .inr (hpart collection List.mem_cons_self h)
          · exact .inr ⟨.body, .block body, rfl, h⟩
      | assign target source span =>
          obtain h | h := List.mem_cons.mp h
          · cases h
          obtain h | h := List.mem_append.mp h
          · exact .inr (hpart target List.mem_cons_self h)
          · exact .inr (hpart source (List.mem_cons_of_mem _ List.mem_cons_self) h)
      | declare x readOnly e span | step dir e span | returnValue e span | eval e span =>
          obtain h | h := List.mem_cons.mp h
          · cases h
          · exact .inr (hpart e List.mem_cons_self h)
      | exitLoop span | returnNothing span => cases List.mem_singleton.mp h

theorem Focus.sizeOf_lt_of_child? {f g : Focus} {turn : Turn} :
    f.child? turn = some g → sizeOf g < sizeOf f := by
  fun_cases Focus.child? f turn with
  | case1 f i =>
      intro h
      obtain ⟨e, he, rfl⟩ := Option.map_eq_some_iff.mp h
      have hmem := List.mem_of_getElem? he
      cases f with
      | block ss => cases hmem
      | expr e' =>
          have hlt := Expr.sizeOf_lt_of_mem_parts hmem
          simp only [Focus.expr.sizeOf_spec]
          omega
      | branch b =>
          cases b
          cases List.mem_singleton.mp hmem
          simp only [Focus.expr.sizeOf_spec, Focus.branch.sizeOf_spec, Branch.mk.sizeOf_spec]
          omega
      | stmt s =>
          cases s <;> simp [Focus.parts, Stmt.parts] at hmem <;> grind
  | case2 ss i =>
      intro h
      obtain ⟨s, hs, rfl⟩ := Option.map_eq_some_iff.mp h
      have hlt := List.sizeOf_lt_of_mem (List.mem_of_getElem? hs)
      simp only [Focus.stmt.sizeOf_spec, Focus.block.sizeOf_spec]
      omega
  | case3 s =>
      intro h
      obtain ⟨body, hbody, rfl⟩ := Option.map_eq_some_iff.mp h
      cases s <;> cases hbody <;> simp <;> omega
  | case4 b =>
      intro h
      cases h
      simp
  | case5 test consequent alternate span =>
      intro h
      cases h
      simp
      omega
  | case6 test consequent alternate span =>
      intro h
      cases alternate <;> cases h <;> simp <;> omega
  | case7 =>
      intro h
      cases h

/-- A written type in a part of a program lies in an annotation of this part or of one inside it. -/
theorem Focus.exists_annotation {root : Focus} {t : TypeExpr} (f : Focus) {here : Place}
    (hf : root.at? here = some f) (h : .type t ∈ f.nodes) :
    ∃ there g a w, root.at? there = some g ∧ g.annotation? a = some w ∧ .type t ∈ w.nodes := by
  obtain ⟨a, w, hw, ht⟩ | ⟨turn, g, hg, ht⟩ := Focus.annotation_or_child h
  · exact ⟨here, f, a, w, hf, hw, ht⟩
  · have hsize := Focus.sizeOf_lt_of_child? hg
    exact Focus.exists_annotation g ((Focus.at?_cons hf turn).trans hg) ht
termination_by sizeOf f

/-- **Every written type of a program lies in an annotation.** -/
theorem exists_annotation_of_mem_nodesAll {p : Program} {t : TypeExpr}
    (h : .type t ∈ Stmt.nodesAll p) :
    ∃ here f a w, (Focus.block p).at? here = some f ∧ f.annotation? a = some w ∧
      .type t ∈ w.nodes :=
  @Focus.exists_annotation (.block p) t (.block p) [] rfl h

end Sema
