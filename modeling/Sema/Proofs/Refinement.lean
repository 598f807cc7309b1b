import Sema.Proofs.History
import Sema.Proofs.Links
import Sema.Proofs.Moves

/-!
# Linked scopes refine a stack

A history is performed on the linked scopes of an arena as it is on the stack of frames, and the
arena refines the stack throughout (`History.refines_arena`). So everything that can be read off a
history is shown by the arena: the search along its links ends, at the highest scope that declares
the name, and a scope keeps its number, its link and its bindings until it is closed
(`History.Refined`).

The scopes of every session that arises come from a history (`History.reaches_of_arises`), hence an
analysis could keep an arena in their place.
-/

namespace Sema

namespace History

/-! ## 1. The arena -/

/-- The linked scopes after a history. -/
def arena : History → Arena
  | [] => .root
  | op :: h => (arena h).perform op

/-- **After every history the arena refines the stack**, one operation after the other. -/
theorem refines_arena : ∀ h : History, (arena h).Refines (scopes h)
  | [] => .ofRoot
  | op :: h => (refines_arena h).perform op

section

variable {h later : History} {i : Nat}

theorem size_arena (h : History) : (arena h).nodes.size = depth h + 1 := by
  rw [(refines_arena h).size, depth_scopes]

theorem current_arena (h : History) : (arena h).current = depth h := by
  rw [(refines_arena h).current_eq, depth_scopes]

theorem exists_get? (hi : i ≤ depth h) : ∃ n, (arena h).get? i = some n := by
  refine Arena.get?_of_lt ?_
  rw [size_arena]
  exact Nat.lt_succ_of_le hi

/-- A scope of the arena holds the frame of the stack. -/
theorem frame?_of_get? {n : Arena.Node} (hn : (arena h).get? i = some n) :
    (scopes h).frame? i = some n.toFrame := (refines_arena h).frame?_eq_some hn

/-- A declaration is refused exactly when the scope binds the name already. -/
theorem defineIn_arena (hl : Legal h) (hi : i ≤ depth h) (x : String) (e : Entity) :
    (arena h).defineIn i x e =
      if (boundTo i x h).isSome then .error (.alreadyDeclared x)
      else .ok ((arena h).modify i (·.bind x e)) := by
  obtain ⟨n, hn⟩ := exists_get? hi
  rw [Arena.defineIn, hn, ← find?_eq_boundTo hl (frame?_of_get? hn)]
  rfl

/-- **Nothing that is allowed is refused**, but for the declaration of a name that is declared. -/
theorem apply_arena (hl : Legal h) {op : ScopeOp} (hop : op.Allowed (depth h)) :
    (∃ a, (arena h).apply op = .ok a) ∨ ∃ x, (arena h).apply op = .error (.alreadyDeclared x) := by
  have hdefine : ∀ i x e, i ≤ depth h → (∃ a, (arena h).defineIn i x e = .ok a) ∨
      ∃ x', (arena h).defineIn i x e = .error (.alreadyDeclared x') := by
    intro i x e hi
    rw [defineIn_arena hl hi]
    split
    · exact .inr ⟨x, rfl⟩
    · exact .inl ⟨_, rfl⟩
  have hsize := size_arena h
  cases op with
  | enter kind =>
      obtain ⟨n, hn⟩ := exists_get? (Nat.le_refl (depth h))
      rw [← current_arena] at hn
      exact .inl ⟨_, by simp only [Arena.apply, Arena.enter, hn]; rfl⟩
  | exit =>
      have hpos : 0 < depth h := hop
      exact .inl ⟨_, if_neg (by omega)⟩
  | define x e => exact hdefine _ x e (Nat.le_of_eq (current_arena h))
  | defineIn i x e => exact hdefine i x e hop
  | setFunction i f =>
      obtain ⟨n, hn⟩ := exists_get? hop
      exact .inl ⟨_, by simp only [Arena.apply, Arena.setFunction, hn]; rfl⟩

/-- **A scope that stays open keeps its link**, and its frame is the same with what was written to
    it in the meantime. -/
theorem get?_append (ho : StaysOpen i h later) :
    (arena (later ++ h)).get? i =
      ((arena h).get? i).map fun n => { n with toFrame := writes i h later n.toFrame } := by
  obtain ⟨n, hn⟩ := exists_get? (staysOpen_start ho)
  obtain ⟨m, hm⟩ := exists_get? ho.le
  have hframe : m.toFrame = writes i h later n.toFrame := by
    have happend := frame?_append ho
    rw [frame?_of_get? hm, frame?_of_get? hn] at happend
    exact Option.some.inj happend
  have hlink : m.parent = n.parent :=
    (refines_arena _).parent_unique (refines_arena h).toLinked hm hn
  rw [hm, hn, Option.map_some, ← hframe, ← hlink]

end

/-! ## 2. The stack -/

/-- What the linked scopes after a history have to show. -/
structure Refined (h : History) : Prop where
  /-- The arena holds the frames of the stack under their numbers. -/
  refines : (arena h).Refines (scopes h)
  /-- The open scopes are numbered from the root on, and the current one has the highest number. -/
  stack : (arena h).nodes.size = depth h + 1 ∧ (arena h).current = depth h ∧
    (arena h).depth = depth h ∧ ∀ i, ((arena h).get? i).isSome ↔ i ≤ depth h
  /-- The root is linked to nothing, every other scope to the one below it. -/
  parents : (arena h).parent? 0 = none ∧
    ∀ i, 0 < i → i ≤ depth h → (arena h).parent? i = some (i - 1)
  /-- The search along the links ends, with the result that is computed and with no other. -/
  search : ∀ x r, (arena h).Search x (some (arena h).current) r ↔ (arena h).locate? x = r
  /-- A name denotes what the highest open scope that declares it binds it to, if there is one. -/
  lookup : ∀ x, (∀ e, (arena h).lookup? x = some e ↔ ∃ i ≤ depth h, boundTo i x h = some e ∧
      ∀ j, i < j → j ≤ depth h → boundTo j x h = none) ∧
    ((arena h).lookup? x = none ↔ ∀ i ≤ depth h, boundTo i x h = none)
  bindings : ∀ i n, (arena h).get? i = some n → ∀ x, n.find? x = boundTo i x h
  inLoop : (∀ i n, (arena h).get? i = some n → (n.inLoop = true ↔ LoopAround h i)) ∧
    ((arena h).inLoop = true ↔ LoopAround h (depth h))
  /-- A declaration is refused exactly when its scope binds the name already, nothing else that is
      allowed is refused, and what is refused changes nothing. -/
  declaring : (∀ i x e, i ≤ depth h → (arena h).defineIn i x e =
      if (boundTo i x h).isSome then .error (.alreadyDeclared x)
      else .ok ((arena h).modify i (·.bind x e))) ∧
    (∀ x e, (arena h).define x e = (arena h).defineIn (depth h) x e) ∧
    (∀ op : ScopeOp, op.Allowed (depth h) → (∃ a, (arena h).apply op = .ok a) ∨
      ∃ x, (arena h).apply op = .error (.alreadyDeclared x)) ∧
    ∀ op reason, (arena h).apply op = .error reason → arena (op :: h) = arena h
  /-- As long as a scope is not closed, its number is that of the same scope: it was entered as
      before, it keeps its link and its bindings, and its frame changes by what is written to it
      alone. -/
  kept : ∀ later i, Legal (later ++ h) → StaysOpen i h later →
    openedAs i (later ++ h) = openedAs i h ∧
    (arena (later ++ h)).get? i =
      ((arena h).get? i).map (fun n => { n with toFrame := writes i h later n.toFrame }) ∧
    ∀ x e, boundTo i x h = some e → boundTo i x (later ++ h) = some e
  /-- Where functions are recorded in the bodies that they belong to, the current function is the
      one of the innermost body. -/
  function : Disciplined h →
    (∀ k ≤ depth h, openedAs k h = some .functionBody →
      (∀ j, k < j → j ≤ depth h → openedAs j h ≠ some .functionBody) →
        (arena h).currentFunction = setOn k h) ∧
    ((∀ k ≤ depth h, openedAs k h ≠ some .functionBody) → (arena h).currentFunction = none)

theorem refined_of_legal {h : History} (hl : Legal h) : Refined h where
  refines := refines_arena h
  stack := by
    refine ⟨size_arena h, current_arena h, current_arena h, fun i => ?_⟩
    rw [(refines_arena h).isSome_get?, depth_scopes]
  parents := by
    refine ⟨(refines_arena h).parent?_zero, fun i hpos hi => ?_⟩
    obtain ⟨i, rfl⟩ := Nat.exists_eq_succ_of_ne_zero (Nat.ne_of_gt hpos)
    refine (refines_arena h).parent?_succ ?_
    rw [size_arena]
    exact Nat.lt_succ_of_le hi
  search x r := (refines_arena h).search_iff_locate?
  lookup x := by
    rw [(refines_arena h).lookup?_eq]
    exact ⟨fun _ => lookup?_iff_boundTo hl, lookup?_eq_none_iff hl⟩
  bindings _ _ hn := find?_eq_boundTo hl (frame?_of_get? hn)
  inLoop := by
    refine ⟨fun i n hn => inLoop_iff_loopAround hl (frame?_of_get? hn), ?_⟩
    rw [(refines_arena h).inLoop_eq]
    exact inLoop_iff_loopAround hl (frame?_inner h)
  declaring := by
    refine ⟨fun i x e hi => defineIn_arena hl hi x e, fun x e => ?_,
      fun op hop => apply_arena hl hop, fun op reason hop => ?_⟩
    · rw [Arena.define, current_arena]
    · rw [arena, Arena.perform, hop]
  kept later i hlater hopen := by
    refine ⟨openedAs_append hlater hopen, get?_append hopen, fun x e hx => ?_⟩
    obtain ⟨f, hf⟩ := exists_frame? (staysOpen_start hopen)
    have hlast := frame?_append hopen
    rw [hf, Option.map_some] at hlast
    rw [← find?_eq_boundTo hl hf] at hx
    rw [← find?_eq_boundTo hlater hlast]
    exact find?_writes hx
  function hd := by
    have hfunction : (arena h).currentFunction =
        (bodyAround h (depth h)).bind fun k => setOn k h := by
      rw [(refines_arena h).currentFunction_eq]
      exact function_eq_setOn hl hd (frame?_inner h)
    refine ⟨fun k hk hbody habove => ?_, fun hnone => ?_⟩
    · rw [hfunction, bodyAround_eq_some.mpr ⟨hk, hbody, habove⟩]
      rfl
    · rw [hfunction, bodyAround_eq_none hnone]
      rfl

/-! ## 3. Every analysis -/

/-- Some history of allowed operations leads to the scopes. -/
def Reaches (Γ : Scopes) : Prop := ∃ h : History, Legal h ∧ scopes h = Γ

theorem Reaches.apply {Γ Δ : Scopes} (hΓ : Reaches Γ) (op : ScopeOp) (hop : op.Allowed Γ.depth)
    (h : Γ.apply op = .ok Δ) : Reaches Δ := by
  obtain ⟨past, hl, rfl⟩ := hΓ
  rw [depth_scopes] at hop
  exact ⟨op :: past, ⟨hop, hl⟩, Scopes.perform_of_ok h⟩

/-- The entries of a catalog are declared in the root scope one after the other. -/
theorem reaches_extend_root : ∀ {entries : List (String × Entity)}, (entries.map Prod.fst).Nodup →
    Reaches (Scopes.root.extend entries)
  | [], _ => ⟨[], trivial, rfl⟩
  | (x, e) :: entries, hnd => by
      have hnd := List.nodup_cons.mp hnd
      have hfree : (Scopes.root.extend entries).inner.declares x = false := by
        refine Frame.declares_eq_false.mpr (List.lookup_eq_none_iff.mpr fun b hb => ?_)
        have hb : b ∈ entries := by simpa [Scopes.extend, Scopes.root, Frame.root] using hb
        rw [bne_iff_ne]
        exact fun hx => hnd.1 (List.mem_map.mpr ⟨b, hb, hx.symm⟩)
      refine (reaches_extend_root hnd.2).apply (.define x e) trivial ?_
      rw [Scopes.apply, Scopes.define_eq, hfree]
      rfl

/-- **The scopes of every session that arises come from a history.** -/
theorem reaches_of_arises {c : Catalog} {s : Session} (h : s.Arises c) : Reaches s.scopes := by
  induction h with
  | opened h =>
      obtain ⟨hnd, rfl⟩ := Session.open?_eq_ok_iff.mp h
      refine reaches_extend_root ?_
      rw [List.map_reverse]
      exact (List.reverse_perm _).nodup_iff.mpr hnd
  | move _ hm ih =>
      cases hm with
      | number => exact ih
      | enter kind => exact ih.apply (.enter kind) trivial rfl
      | exit h =>
          refine ih.apply .exit ?_ h
          have hdepth := Scopes.depth_of_exit h
          exact Nat.lt_of_lt_of_eq (Nat.succ_pos _) hdepth.symm
      | declare _ _ h =>
          obtain ⟨f, hf, -, -⟩ := Scopes.defineIn_eq_ok.mp h
          exact ih.apply (.defineIn _ _ _) (Scopes.le_depth_of_frame? hf) h
      | function _ _ h => exact ih.apply (.setFunction _ _) (Nat.le_refl _) h

end History

open History

/-- **The linked scopes refine a stack.** After every legal history they show what the history says.
    The scopes of every session that arises are those of a legal history: what the session takes for
    the scope around another, and finds for a name, is what the links say. -/
theorem scopes_refine_stack :
    (∀ h : History, h.Legal → Refined h) ∧
      ∀ c s, Session.Arises c s → ∃ h : History, h.Legal ∧ (arena h).Refines s.scopes ∧
        (∀ i, s.scopes.parent? i = (arena h).parent? i) ∧
        ∀ x, s.scopes.locate? x = (arena h).locate? x := by
  refine ⟨fun h hl => refined_of_legal hl, fun c s hs => ?_⟩
  obtain ⟨h, hl, hscopes⟩ := reaches_of_arises hs
  have hrefines : (arena h).Refines s.scopes := by
    rw [← hscopes]
    exact refines_arena h
  exact ⟨h, hl, hrefines, fun i => (hrefines.parent?_eq i).symm,
    fun x => (hrefines.locate?_eq x).symm⟩

/-- A variable `x` with a number. -/
def numberedVariable (n : Nat) : Entity := .var ⟨.program n, "x", false, .int⟩

/-- A function in a loop, with a loop in it that is closed again before a block is opened under the
    same number. The second declaration in scope 1 is refused. -/
def functionInLoop : History :=
  [.define "x" (numberedVariable 3), .enter .block, .exit, .enter .loop,
    .defineIn 1 "x" (numberedVariable 2), .setFunction 2 ⟨.program 1, "f", ⟨[], .void⟩⟩,
    .enter .functionBody, .define "x" (numberedVariable 0), .enter .loop]

/-- In the block the name is the last declaration, the loop around the function cannot be left, and
    the function is known; scope 1 has kept its first declaration and its link to the root. -/
theorem scopes_refine_stack_functionInLoop :
    functionInLoop.Legal ∧ functionInLoop.Disciplined ∧
    (arena functionInLoop).lookup? "x" = some (numberedVariable 3) ∧
    (∃ n, (arena functionInLoop).get? 1 = some n ∧ n.find? "x" = some (numberedVariable 0)) ∧
    (arena functionInLoop).parent? 1 = some 0 ∧
    (arena functionInLoop).inLoop = false ∧
    (arena functionInLoop).currentFunction = some ⟨.program 1, "f", ⟨[], .void⟩⟩ := by
  have hl : functionInLoop.Legal := by
    simp [functionInLoop, Legal, ScopeOp.Allowed, depth, ScopeOp.depth]
  have hd : functionInLoop.Disciplined := ⟨rfl, rfl, trivial⟩
  have hrefined := scopes_refine_stack.1 functionInLoop hl
  have hdepth : depth functionInLoop = 3 := rfl
  refine ⟨hl, hd, ?_, ?_, hrefined.parents.2 1 (by decide) (by decide), ?_, ?_⟩
  · refine ((hrefined.lookup "x").1 _).mpr ⟨3, by decide, rfl, fun j hj hj' => ?_⟩
    omega
  · obtain ⟨n, hn⟩ := Option.isSome_iff_exists.mp ((hrefined.stack.2.2.2 1).mpr (by decide))
    exact ⟨n, hn, (hrefined.bindings 1 n hn "x").trans rfl⟩
  · refine Bool.eq_false_iff.mpr fun hloop => ?_
    obtain ⟨j, hj, hopened, hbetween⟩ := hrefined.inLoop.2.mp hloop
    -- the only loop that is still open is scope 1, and scope 2 is the body of a function
    have hcases : j = 0 ∨ j = 1 ∨ j = 2 ∨ j = 3 := by omega
    rcases hcases with rfl | rfl | rfl | rfl
    · cases hopened
    · exact hbetween 2 (by decide) (by decide) rfl
    · cases hopened
    · cases hopened
  · refine (hrefined.function hd).1 2 (by decide) rfl fun j hj hj' => ?_
    obtain rfl : j = 3 := by omega
    decide

end Sema
