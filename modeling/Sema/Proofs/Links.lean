import Sema.Proofs.Operation
import Sema.Scope.Arena

/-!
# The links of the arena

The arena stores with each scope the number of the scope around it, and a name is sought along these
numbers. `Arena.Search` is that search without a bound on its steps: where the links run in a circle
and no scope on it declares the name, there is no result at all. `Arena.Linked` says how the links
run after operations: the root has none, and every other scope is linked to the one below it. So a
search ends, and the bound of `Arena.locateFrom` is never met.

`Arena.Refines` relates an arena to a stack of frames. Every operation is refused on both for the
same reason, or takes a refining arena to a refining arena (`Arena.Refines.apply`), and what can be
asked of an arena has the answer that the stack gives.
-/

namespace Sema

namespace Arena

/-! ## 1. The search along the links -/

/-- What the search for a name comes to, from the scope with the number `next` on. -/
inductive Search (a : Arena) (x : String) : (next : Option Nat) → Option (Nat × Entity) → Prop where
  /-- There is no scope further out. -/
  | out : Search a x none none
  | found {i : Nat} {n : Node} {e : Entity} (hn : a.get? i = some n) (he : n.find? x = some e) :
      Search a x (some i) (some (i, e))
  /-- The scope does not declare the name, and the search goes on where its link leads. -/
  | further {i : Nat} {n : Node} {r : Option (Nat × Entity)} (hn : a.get? i = some n)
      (he : n.find? x = none) (h : Search a x n.parent r) : Search a x (some i) r

variable {a b : Arena} {x : String}

theorem Search.unique {next : Option Nat} {r r' : Option (Nat × Entity)} (h : a.Search x next r)
    (h' : a.Search x next r') : r = r' := by
  induction h with
  | out =>
      cases h'
      rfl
  | found hn he =>
      cases h' with
      | found hn' he' =>
          obtain rfl := Option.some.inj (hn.symm.trans hn')
          rw [Option.some.inj (he.symm.trans he')]
      | further hn' he' _ =>
          obtain rfl := Option.some.inj (hn.symm.trans hn')
          cases he.symm.trans he'
  | further hn he _ ih =>
      cases h' with
      | found hn' he' =>
          obtain rfl := Option.some.inj (hn.symm.trans hn')
          cases he.symm.trans he'
      | further hn' _ h' =>
          obtain rfl := Option.some.inj (hn.symm.trans hn')
          exact ih h'

/-- There is a root, which is linked to nothing, and every other scope is linked to the one below
    it. -/
structure Linked (a : Arena) : Prop where
  nonempty : 0 < a.nodes.size
  root : ∀ n, a.get? 0 = some n → n.parent = none
  parents : ∀ i n, a.get? (i + 1) = some n → n.parent = some i

theorem get?_of_lt {i : Nat} (hi : i < a.nodes.size) : ∃ n, a.get? i = some n :=
  ⟨a.nodes[i], Array.getElem?_eq_getElem hi⟩

theorem lt_of_get? {i : Nat} {n : Node} (h : a.get? i = some n) : i < a.nodes.size := by
  refine Nat.lt_of_not_le fun hle => ?_
  rw [get?, Array.getElem?_eq_none hle] at h
  cases h

theorem locateFrom_none (a : Arena) (x : String) (fuel : Nat) :
    a.locateFrom x fuel none = none := by
  cases fuel <;> rfl

/-- The bounded search looks at one scope as the search does. -/
theorem search_locateFrom_succ {i fuel : Nat} {n : Node} (hn : a.get? i = some n)
    (hrest : n.find? x = none → a.Search x n.parent (a.locateFrom x fuel n.parent)) :
    a.Search x (some i) (a.locateFrom x (fuel + 1) (some i)) := by
  cases he : n.find? x with
  | some e =>
      simp only [locateFrom, hn, he]
      exact .found hn he
  | none =>
      simp only [locateFrom, hn, he]
      exact .further hn he (hrest he)

namespace Linked

theorem current_lt (h : a.Linked) : a.current < a.nodes.size := by
  have hsize := h.nonempty
  unfold current
  omega

/-- **The search ends within as many steps as there are scopes to the root**, and the bounded search
    has its result. -/
theorem search_locateFrom (h : a.Linked) {i : Nat} (hi : i < a.nodes.size) {fuel : Nat}
    (hfuel : i < fuel) : a.Search x (some i) (a.locateFrom x fuel (some i)) := by
  induction i generalizing fuel with
  | zero =>
      obtain ⟨fuel, rfl⟩ := Nat.exists_eq_succ_of_ne_zero (Nat.ne_of_gt hfuel)
      obtain ⟨n, hn⟩ := get?_of_lt hi
      refine search_locateFrom_succ hn fun _ => ?_
      rw [h.root n hn, locateFrom_none]
      exact .out
  | succ i ih =>
      obtain ⟨fuel, rfl⟩ := Nat.exists_eq_succ_of_ne_zero (Nat.ne_zero_of_lt hfuel)
      obtain ⟨n, hn⟩ := get?_of_lt hi
      refine search_locateFrom_succ hn fun _ => ?_
      rw [h.parents i n hn]
      exact ih (by omega) (by omega)

/-- The search from the current scope has one result, which is the one that is computed. -/
theorem search_iff_locate? (h : a.Linked) {r : Option (Nat × Entity)} :
    a.Search x (some a.current) r ↔ a.locate? x = r := by
  have hsearch : a.Search x (some a.current) (a.locate? x) :=
    h.search_locateFrom h.current_lt h.current_lt
  constructor
  · intro hr
    exact hsearch.unique hr
  · intro hr
    rw [← hr]
    exact hsearch

/-- A search passes every scope below its start until it finds the name. -/
theorem passes (h : a.Linked) {i : Nat} {r : Option (Nat × Entity)} (hs : a.Search x (some i) r)
    {k : Nat} {m : Node} (hk : k ≤ i) (hm : a.get? k = some m) (hbefore : ∀ p ∈ r, p.1 < k) :
    m.find? x = none := by
  induction i generalizing r with
  | zero =>
      obtain rfl := Nat.le_zero.mp hk
      cases hs with
      | found hn he => exact absurd (hbefore _ rfl) (Nat.lt_irrefl _)
      | further hn he _ =>
          obtain rfl := Option.some.inj (hn.symm.trans hm)
          exact he
  | succ i ih =>
      cases hs with
      | found hn he =>
          have hlt : i + 1 < k := hbefore _ rfl
          omega
      | further hn he hrest =>
          by_cases hki : k = i + 1
          · subst hki
            obtain rfl := Option.some.inj (hn.symm.trans hm)
            exact he
          · rw [h.parents i _ hn] at hrest
            exact ih hrest (by omega) hbefore

end Linked

/-- What is found is a binding of the scope that it names. -/
theorem Search.binding {next : Option Nat} {r : Option (Nat × Entity)} (h : a.Search x next r)
    {j : Nat} {e : Entity} (hr : r = some (j, e)) :
    ∃ n, a.get? j = some n ∧ n.find? x = some e := by
  induction h with
  | out => cases hr
  | found hn he =>
      cases hr
      exact ⟨_, hn, he⟩
  | further _ _ _ ih => exact ih hr

/-! ## 2. One operation on the array -/

theorem get?_push (a : Arena) (n : Node) (i : Nat) :
    get? ⟨a.nodes.push n⟩ i = if i = a.nodes.size then some n else a.get? i :=
  Array.getElem?_push

theorem get?_pop (a : Arena) {i : Nat} (hi : i < a.nodes.size - 1) :
    get? ⟨a.nodes.pop⟩ i = a.get? i := by
  rw [get?, Array.getElem?_pop, if_pos hi]
  rfl

/-- A changed scope keeps its link, and the others stay as they are. -/
theorem get?_modify (a : Arena) (i : Nat) (change : Frame → Frame) (j : Nat) :
    (a.modify i change).get? j =
      if j = i then (a.get? j).map fun n => { n with toFrame := change n.toFrame }
      else a.get? j := by
  rw [get?, modify, Array.getElem?_modify]
  by_cases hij : i = j
  · rw [if_pos hij, if_pos hij.symm]
    rfl
  · rw [if_neg hij, if_neg fun h => hij h.symm]
    rfl

theorem size_modify (a : Arena) (i : Nat) (change : Frame → Frame) :
    (a.modify i change).nodes.size = a.nodes.size := Array.size_modify

/-- What an operation comes to. -/
def apply (a : Arena) : ScopeOp → Except ScopeError Arena
  | .enter kind => a.enter kind
  | .exit => a.exit?
  | .define x e => a.define x e
  | .defineIn i x e => a.defineIn i x e
  | .setFunction i f => a.setFunction i f

/-- The arena after an operation; one that is refused leaves it as it is. -/
def perform (a : Arena) (op : ScopeOp) : Arena :=
  match a.apply op with
  | .ok b => b
  | .error _ => a

/-! ## 3. Links stay in order -/

namespace Linked

theorem ofRoot : Linked .root where
  nonempty := Nat.one_pos
  root n hn := by
    cases hn
    rfl
  parents i n hn := by
    have hlt := lt_of_get? hn
    have hsize : Arena.root.nodes.size = 1 := rfl
    omega

theorem push (h : a.Linked) (f : Frame) : Linked ⟨a.nodes.push ⟨f, some a.current⟩⟩ where
  nonempty := by
    rw [Array.size_push]
    exact Nat.succ_pos _
  root n hn := by
    rw [get?_push, if_neg (Nat.ne_of_lt h.nonempty)] at hn
    exact h.root n hn
  parents i n hn := by
    rw [get?_push] at hn
    by_cases hi : i + 1 = a.nodes.size
    · rw [if_pos hi] at hn
      obtain rfl := Option.some.inj hn
      refine congrArg some ?_
      unfold current
      omega
    · rw [if_neg hi] at hn
      exact h.parents i n hn

theorem pop (h : a.Linked) (hsize : 1 < a.nodes.size) : Linked ⟨a.nodes.pop⟩ := by
  have hsame : ∀ {i n}, get? ⟨a.nodes.pop⟩ i = some n → a.get? i = some n := by
    intro i n hn
    have hlt := lt_of_get? hn
    rw [Array.size_pop] at hlt
    rw [get?_pop a hlt] at hn
    exact hn
  constructor
  · rw [Array.size_pop]
    omega
  · exact fun n hn => h.root n (hsame hn)
  · exact fun i n hn => h.parents i n (hsame hn)

theorem modify (h : a.Linked) (i : Nat) (change : Frame → Frame) : (a.modify i change).Linked := by
  -- a scope has the link that it had
  have hsame : ∀ {j n}, (a.modify i change).get? j = some n →
      ∃ m, a.get? j = some m ∧ n.parent = m.parent := by
    intro j n hn
    rw [get?_modify] at hn
    by_cases hij : j = i
    · rw [if_pos hij] at hn
      obtain ⟨m, hm, rfl⟩ := Option.map_eq_some_iff.mp hn
      exact ⟨m, hm, rfl⟩
    · rw [if_neg hij] at hn
      exact ⟨n, hn, rfl⟩
  constructor
  · rw [size_modify]
    exact h.nonempty
  · intro n hn
    obtain ⟨m, hm, hlink⟩ := hsame hn
    exact hlink.trans (h.root m hm)
  · intro j n hn
    obtain ⟨m, hm, hlink⟩ := hsame hn
    exact hlink.trans (h.parents j m hm)

/-- The link of a scope is told by its number. -/
theorem parent_unique (h : a.Linked) (h' : b.Linked) {i : Nat} {n m : Node}
    (hn : a.get? i = some n) (hm : b.get? i = some m) : n.parent = m.parent := by
  cases i with
  | zero => rw [h.root n hn, h'.root m hm]
  | succ i => rw [h.parents i n hn, h'.parents i m hm]

theorem parent?_zero (h : a.Linked) : a.parent? 0 = none := by
  obtain ⟨n, hn⟩ := get?_of_lt h.nonempty
  rw [parent?, hn]
  exact h.root n hn

theorem parent?_succ (h : a.Linked) {i : Nat} (hi : i + 1 < a.nodes.size) :
    a.parent? (i + 1) = some i := by
  obtain ⟨n, hn⟩ := get?_of_lt hi
  rw [parent?, hn]
  exact h.parents i n hn

end Linked

/-! ## 4. An arena that behaves like a stack -/

/-- The arena holds the frames of the stack under their numbers, and its links are in order. -/
structure Refines (a : Arena) (s : Scopes) : Prop extends a.Linked where
  size : a.nodes.size = s.depth + 1
  frames : ∀ i, (a.get? i).map Node.toFrame = s.frame? i

/-- An operation comes to the same: it is refused for the same reason, or what it leads to refines
    what it leads to there. -/
inductive Agree : Except ScopeError Arena → Except ScopeError Scopes → Prop where
  | ok {a : Arena} {s : Scopes} (h : a.Refines s) : Agree (.ok a) (.ok s)
  | refused (reason : ScopeError) : Agree (.error reason) (.error reason)

namespace Refines

theorem ofRoot : Refines .root .root where
  toLinked := .ofRoot
  size := rfl
  frames i := by
    cases i with
    | zero => rfl
    | succ i => rfl

variable {s : Scopes}

theorem current_eq (h : a.Refines s) : a.current = s.depth := by
  have hsize := h.size
  unfold current
  omega

/-- A scope of the arena is open, and holds the frame of the stack. -/
theorem frame?_eq_some (h : a.Refines s) {i : Nat} {n : Node} (hn : a.get? i = some n) :
    s.frame? i = some n.toFrame := by
  rw [← h.frames, hn]
  rfl

theorem get?_of_frame? (h : a.Refines s) {i : Nat} {f : Frame} (hf : s.frame? i = some f) :
    ∃ n, a.get? i = some n ∧ n.toFrame = f := by
  rw [← h.frames] at hf
  exact Option.map_eq_some_iff.mp hf

theorem get?_current (h : a.Refines s) : ∃ n, a.get? a.current = some n ∧ n.toFrame = s.inner := by
  rw [h.current_eq]
  exact h.get?_of_frame? s.frame?_depth

theorem push (h : a.Refines s) (kind : ScopeKind) :
    Refines ⟨a.nodes.push ⟨s.inner.child kind, some a.current⟩⟩ (s.enter kind) where
  toLinked := h.toLinked.push _
  size := by rw [Array.size_push, h.size, Scopes.depth_enter]
  frames i := by
    rw [get?_push, Scopes.frame?_enter, h.size]
    by_cases hi : i = s.depth + 1
    · rw [if_pos hi, if_pos hi]
      rfl
    · rw [if_neg hi, if_neg hi]
      exact h.frames i

theorem pop (h : a.Refines s) {t : Scopes} (ht : s.exit? = .ok t) : Refines ⟨a.nodes.pop⟩ t := by
  have hdepth := Scopes.depth_of_exit ht
  have hsize := h.size
  refine ⟨h.toLinked.pop (by omega), by rw [Array.size_pop]; omega, fun i => ?_⟩
  by_cases hi : i ≤ t.depth
  · rw [get?_pop a (by omega), Scopes.frame?_of_exit ht hi]
    exact h.frames i
  · have hnone : get? ⟨a.nodes.pop⟩ i = none := by
      refine Array.getElem?_eq_none ?_
      rw [Array.size_pop]
      omega
    rw [hnone, Scopes.frame?_eq_none (by omega)]
    rfl

theorem modify (h : a.Refines s) (i : Nat) (change : Frame → Frame) :
    (a.modify i change).Refines (s.modify i change) where
  toLinked := h.toLinked.modify i change
  size := by rw [size_modify, Scopes.depth_modify, h.size]
  frames j := by
    rw [get?_modify, Scopes.frame?_modify, ← h.frames]
    by_cases hij : j = i
    · rw [if_pos hij, if_pos hij, Option.map_map, Option.map_map]
      rfl
    · rw [if_neg hij, if_neg hij]

theorem enter (h : a.Refines s) (kind : ScopeKind) : Agree (a.enter kind) (.ok (s.enter kind)) := by
  obtain ⟨n, hn, hinner⟩ := h.get?_current
  simp only [Arena.enter, hn, hinner]
  exact .ok (h.push kind)

theorem exit? (h : a.Refines s) : Agree a.exit? s.exit? := by
  have hsize := h.size
  unfold Arena.exit?
  by_cases hroot : s.depth = 0
  · have hnil : s.outer = [] := List.eq_nil_of_length_eq_zero hroot
    have hexit : s.exit? = .error .atRoot := by
      unfold Scopes.exit?
      rw [hnil]
    rw [if_pos (by omega), hexit]
    exact .refused _
  · obtain ⟨t, ht⟩ := Scopes.exists_exit?_eq_ok (Nat.pos_of_ne_zero hroot)
    rw [if_neg (by omega), ht]
    exact .ok (h.pop ht)

theorem defineIn (h : a.Refines s) (i : Nat) (x : String) (e : Entity) :
    Agree (a.defineIn i x e) (s.defineIn i x e) := by
  unfold Arena.defineIn Scopes.defineIn
  rw [← h.frames, ← h.size]
  cases hn : a.get? i with
  | none => exact .refused _
  | some n =>
      rw [Option.map_some]
      cases hx : n.declares x with
      | true =>
          simp only [hx, if_true]
          exact .refused _
      | false =>
          simp only [hx, Bool.false_eq_true, if_false]
          exact .ok (h.modify i _)

theorem setFunction (h : a.Refines s) (i : Nat) (f : Decl.Function) :
    Agree (a.setFunction i f) (s.setFunction i f) := by
  unfold Arena.setFunction Scopes.setFunction
  rw [← h.frames, ← h.size]
  cases a.get? i with
  | none => exact .refused _
  | some n => exact .ok (h.modify i _)

/-- **One operation**: it comes to the same on the arena and on the stack. -/
theorem apply (h : a.Refines s) (op : ScopeOp) : Agree (a.apply op) (s.apply op) := by
  cases op with
  | enter kind => exact h.enter kind
  | exit => exact h.exit?
  | define x e =>
      rw [Arena.apply, Arena.define, h.current_eq]
      exact h.defineIn s.depth x e
  | defineIn i x e => exact h.defineIn i x e
  | setFunction i f => exact h.setFunction i f

theorem perform (h : a.Refines s) (op : ScopeOp) : (a.perform op).Refines (s.perform op) := by
  have hagree := h.apply op
  unfold Arena.perform Scopes.perform
  cases ha : a.apply op with
  | ok b =>
      rw [ha] at hagree
      cases hs : s.apply op with
      | ok t =>
          rw [hs] at hagree
          cases hagree with
          | ok hbt => exact hbt
      | error reason =>
          rw [hs] at hagree
          cases hagree
  | error reason =>
      rw [ha] at hagree
      cases hs : s.apply op with
      | ok t =>
          rw [hs] at hagree
          cases hagree
      | error reason' => exact h

/-! ## 5. What can be asked -/

theorem isSome_get? (h : a.Refines s) (i : Nat) : (a.get? i).isSome ↔ i ≤ s.depth := by
  rw [← Scopes.isSome_frame?, ← h.frames, Option.isSome_map]

theorem parent?_eq (h : a.Refines s) (i : Nat) : a.parent? i = s.parent? i := by
  have hsize := h.size
  unfold Scopes.parent?
  cases i with
  | zero => rw [h.parent?_zero, if_neg fun hpos => Nat.lt_irrefl 0 hpos.1]
  | succ i =>
      by_cases hi : i + 1 ≤ s.depth
      · rw [if_pos ⟨Nat.succ_pos i, hi⟩]
        exact h.parent?_succ (by omega)
      · have hnone : a.get? (i + 1) = none := Array.getElem?_eq_none (by omega)
        rw [if_neg fun hle => hi hle.2, parent?, hnone]
        rfl

/-- **A name is found along the links where the stack has it.** -/
theorem locate?_eq (h : a.Refines s) (x : String) : a.locate? x = s.locate? x := by
  have hsearch := h.search_iff_locate? (x := x).mpr rfl
  cases hr : a.locate? x with
  | some p =>
      obtain ⟨i, e⟩ := p
      rw [hr] at hsearch
      obtain ⟨n, hn, he⟩ := hsearch.binding rfl
      refine (Scopes.locate?_eq_some.mpr ⟨⟨_, h.frame?_eq_some hn, he⟩, fun j f hij hf => ?_⟩).symm
      obtain ⟨m, hm, rfl⟩ := h.get?_of_frame? hf
      refine h.passes hsearch ?_ hm fun p hp => ?_
      · rw [h.current_eq]
        exact Scopes.le_depth_of_frame? hf
      · cases hp
        exact hij
  | none =>
      rw [hr] at hsearch
      cases hs : s.locate? x with
      | none => rfl
      | some p =>
          obtain ⟨⟨f, hf, he⟩, -⟩ := Scopes.locate?_eq_some.mp hs
          obtain ⟨n, hn, rfl⟩ := h.get?_of_frame? hf
          have hnone := h.passes hsearch (h.current_eq ▸ Scopes.le_depth_of_frame? hf) hn nofun
          cases he.symm.trans hnone

theorem lookup?_eq (h : a.Refines s) (x : String) : a.lookup? x = s.lookup? x := by
  rw [lookup?, Scopes.lookup?, h.locate?_eq]

theorem inLoop_eq (h : a.Refines s) : a.inLoop = s.inLoop := by
  obtain ⟨n, hn, hinner⟩ := h.get?_current
  rw [Arena.inLoop, Scopes.inLoop, hn, ← hinner]
  rfl

theorem currentFunction_eq (h : a.Refines s) : a.currentFunction = s.currentFunction := by
  obtain ⟨n, hn, hinner⟩ := h.get?_current
  rw [Arena.currentFunction, Scopes.currentFunction, hn, ← hinner]
  rfl

end Refines

end Arena

end Sema
