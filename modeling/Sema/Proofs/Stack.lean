import Sema.Proofs.Run

/-!
# The stack, scope by scope

Scopes are addressed by number, and `Scopes.frame?` is what stands under a number. Each operation on
the stack has one equation in this view:

* opening puts a frame under the next number and moves nothing (`Scopes.frame?_enter`);
* closing takes the highest number away (`Scopes.frame?_of_exit`);
* a change of scope `i` is seen at `i` only (`Scopes.frame?_modify`), and declaring a name or
  recording a function is such a change or is refused (`Scopes.defineIn_eq_ok`,
  `Scopes.setFunction_eq_ok`).

A name denotes what the highest scope that declares it binds it to (`Scopes.lookup?_eq_some`).
-/

namespace Sema

/-- What is found under a name is one of the pairs. -/
theorem mem_of_lookup {entries : List (String × Entity)} {x : String} {e : Entity}
    (h : entries.lookup x = some e) : (x, e) ∈ entries := by
  obtain ⟨before, after, hentries, -⟩ := List.lookup_eq_some_iff.mp h
  rw [hentries]
  exact List.mem_append_right _ List.mem_cons_self

namespace Scopes

/-! ## 1. Numbers -/

theorem length_frames (s : Scopes) : s.frames.length = s.depth + 1 := rfl

/-- The frames stand under their numbers when they are counted from the root. -/
theorem frame?_eq_getElem? (s : Scopes) (i : Nat) : s.frame? i = s.frames.reverse[i]? := by
  have hlen := s.length_frames
  unfold frame?
  by_cases h : i ≤ s.depth
  · rw [if_pos h, List.getElem?_reverse (by omega)]
    congr 1
  · rw [if_neg h, List.getElem?_eq_none]
    rw [List.length_reverse]
    omega

/-- The numbers of the open scopes are those up to the current one. -/
theorem isSome_frame? (s : Scopes) (i : Nat) : (s.frame? i).isSome ↔ i ≤ s.depth := by
  have hlen := s.length_frames
  rw [frame?_eq_getElem?, isSome_getElem?, List.length_reverse]
  omega

theorem le_depth_of_frame? {s : Scopes} {i : Nat} {f : Frame} (h : s.frame? i = some f) :
    i ≤ s.depth :=
  (s.isSome_frame? i).mp (by rw [h]; rfl)

theorem frame?_eq_none {s : Scopes} {i : Nat} (h : s.depth < i) : s.frame? i = none :=
  if_neg (Nat.not_le.mpr h)

theorem mem_frames {s : Scopes} {f : Frame} : f ∈ s.frames ↔ ∃ i, s.frame? i = some f := by
  rw [← List.mem_reverse, List.mem_iff_getElem?]
  simp only [frame?_eq_getElem?]

/-- The frame of the current scope on top of those below it. -/
theorem frame?_mk (inner f : Frame) (fs : List Frame) (i : Nat) :
    (Scopes.mk inner (f :: fs)).frame? i =
      if i = fs.length + 1 then some inner else (Scopes.mk f fs).frame? i := by
  have hlen : (Scopes.mk f fs).frames.reverse.length = fs.length + 1 := by simp [frames]
  have hrev : (Scopes.mk inner (f :: fs)).frames.reverse =
      (Scopes.mk f fs).frames.reverse ++ [inner] := by simp [frames]
  rw [frame?_eq_getElem?, frame?_eq_getElem?, hrev]
  by_cases h : i = fs.length + 1
  · subst h
    rw [if_pos rfl, ← hlen, List.getElem?_concat_length]
  · rw [if_neg h]
    by_cases hlt : i < fs.length + 1
    · rw [List.getElem?_append_left (by omega)]
    · rw [List.getElem?_eq_none, List.getElem?_eq_none]
      · omega
      · rw [List.length_append, List.length_singleton]
        omega

/-! ## 2. Opening and closing -/

theorem frame?_enter (s : Scopes) (kind : ScopeKind) (i : Nat) :
    (s.enter kind).frame? i =
      if i = s.depth + 1 then some (s.inner.child kind) else s.frame? i :=
  frame?_mk (s.inner.child kind) s.inner s.outer i

/-- A scope can be closed when there is one around it. -/
theorem exit?_eq_ok {s t : Scopes} : s.exit? = .ok t ↔ s.outer = t.inner :: t.outer := by
  unfold exit?
  cases s.outer with
  | nil => simp
  | cons f fs =>
      obtain ⟨g, gs⟩ := t
      simp

theorem exists_exit?_eq_ok {s : Scopes} (h : 0 < s.depth) : ∃ t, s.exit? = .ok t := by
  obtain ⟨inner, outer⟩ := s
  cases outer with
  | nil => exact absurd h (Nat.lt_irrefl 0)
  | cons f fs => exact ⟨⟨f, fs⟩, rfl⟩

theorem depth_of_exit {s t : Scopes} (h : s.exit? = .ok t) : s.depth = t.depth + 1 := by
  unfold depth
  rw [exit?_eq_ok.mp h]
  rfl

theorem frame?_of_exit {s t : Scopes} (h : s.exit? = .ok t) {i : Nat} (hi : i ≤ t.depth) :
    t.frame? i = s.frame? i := by
  obtain ⟨inner, outer⟩ := s
  obtain rfl : outer = t.inner :: t.outer := exit?_eq_ok.mp h
  have hne : i ≠ t.outer.length + 1 := by
    unfold depth at hi
    omega
  rw [frame?_mk, if_neg hne]

/-! ## 3. Changing a scope -/

@[simp] theorem depth_modify (s : Scopes) (i : Nat) (change : Frame → Frame) :
    (s.modify i change).depth = s.depth := by
  unfold modify
  split
  · rfl
  · split
    · exact List.length_modify ..
    · rfl

theorem frames_modify {s : Scopes} {i : Nat} (change : Frame → Frame) (h : i ≤ s.depth) :
    (s.modify i change).frames = s.frames.modify (s.depth - i) change := by
  unfold modify frames
  by_cases hi : i = s.depth
  · rw [if_pos hi, hi, Nat.sub_self]
    rfl
  · rw [if_neg hi, if_pos (by omega)]
    obtain ⟨k, hk⟩ : ∃ k, s.depth - i = k + 1 := ⟨s.depth - i - 1, by omega⟩
    have hk' : s.depth - 1 - i = k := by omega
    rw [hk, hk']
    rfl

/-- **A change is seen at its own number only.** -/
theorem frame?_modify (s : Scopes) (i : Nat) (change : Frame → Frame) (j : Nat) :
    (s.modify i change).frame? j =
      if j = i then (s.frame? j).map change else s.frame? j := by
  by_cases hj : j ≤ s.depth
  · by_cases hi : i ≤ s.depth
    · have hopen : (s.modify i change).frame? j =
          (s.frames.modify (s.depth - i) change)[s.depth - j]? := by
        unfold frame?
        rw [depth_modify, if_pos hj, frames_modify change hi]
      have hbefore : s.frame? j = s.frames[s.depth - j]? := if_pos hj
      rw [hopen, List.getElem?_modify, hbefore]
      by_cases hji : j = i
      · subst hji
        simp
      · have hne : s.depth - i ≠ s.depth - j := by omega
        simp [hji, hne]
    · have hsame : s.modify i change = s := by
        unfold modify
        rw [if_neg (by omega), if_neg (by omega)]
      rw [hsame, if_neg (by omega)]
  · have hnone := frame?_eq_none (Nat.not_le.mp hj)
    have hnone' : (s.modify i change).frame? j = none :=
      frame?_eq_none (by rw [depth_modify]; exact Nat.not_le.mp hj)
    rw [hnone', hnone]
    simp

/-- A name can be declared in an open scope that does not declare it yet. -/
theorem defineIn_eq_ok {s t : Scopes} {i : Nat} {x : String} {e : Entity} :
    s.defineIn i x e = .ok t ↔
      ∃ f, s.frame? i = some f ∧ f.declares x = false ∧ t = s.modify i (·.bind x e) := by
  unfold defineIn
  cases s.frame? i with
  | none => simp
  | some f =>
      cases h : f.declares x with
      | true => simp [h]
      | false =>
          simp only [Bool.false_eq_true, if_false, Except.ok.injEq, Option.some.injEq,
            exists_eq_left', h, true_and, @eq_comm _ t]

/-- A function can be recorded in any open scope. -/
theorem setFunction_eq_ok {s t : Scopes} {i : Nat} {g : Decl.Function} :
    s.setFunction i g = .ok t ↔
      i ≤ s.depth ∧ t = s.modify i fun frame => { frame with function := some g } := by
  unfold setFunction
  rw [← s.isSome_frame? i]
  cases s.frame? i with
  | none => simp
  | some f => simp [@eq_comm _ t]

/-! ## 4. Names -/

/-- A name is sought in the current scope, and then in those below it. -/
theorem locate?_mk (inner f : Frame) (fs : List Frame) (x : String) :
    (Scopes.mk inner (f :: fs)).locate? x =
      match inner.find? x with
      | some e => some (fs.length + 1, e)
      | none => (Scopes.mk f fs).locate? x := rfl

theorem locate?_root (inner : Frame) (x : String) :
    (Scopes.mk inner []).locate? x = (inner.find? x).map fun e => (0, e) := by
  simp only [locate?, frames, locateIn]
  cases inner.find? x <;> rfl

/-- Scope `i` is the highest that declares a name, and binds it to `e`. -/
def Highest (s : Scopes) (x : String) (i : Nat) (e : Entity) : Prop :=
  (∃ f, s.frame? i = some f ∧ f.find? x = some e) ∧
    ∀ j f, i < j → s.frame? j = some f → f.find? x = none

/-- What the current scope declares hides the rest. -/
theorem highest_of_declared {s : Scopes} {x : String} {i : Nat} {e e' : Entity}
    (hfind : s.inner.find? x = some e') : s.Highest x i e ↔ i = s.depth ∧ e = e' := by
  constructor
  · intro ⟨⟨f, hf, he⟩, habove⟩
    have hle := le_depth_of_frame? hf
    by_cases hi : i = s.depth
    · subst hi
      rw [frame?_depth] at hf
      cases hf
      exact ⟨rfl, Option.some.inj (he.symm.trans hfind)⟩
    · have hnone := habove s.depth s.inner (by omega) s.frame?_depth
      rw [hfind] at hnone
      cases hnone
  · intro ⟨hi, he⟩
    subst hi he
    refine ⟨⟨s.inner, s.frame?_depth, hfind⟩, fun j f hj hf => ?_⟩
    have hle := le_depth_of_frame? hf
    omega

/-- What the current scope does not declare is left to the scopes around it. -/
theorem highest_of_undeclared {inner f : Frame} {fs : List Frame} {x : String} {i : Nat}
    {e : Entity} (hfind : inner.find? x = none) :
    (Scopes.mk inner (f :: fs)).Highest x i e ↔ (Scopes.mk f fs).Highest x i e := by
  have hbelow : ∀ {j g}, (Scopes.mk f fs).frame? j = some g → j ≠ fs.length + 1 := fun hg =>
    Nat.ne_of_lt (Nat.lt_succ_of_le (le_depth_of_frame? hg))
  constructor
  · intro ⟨⟨g, hg, he⟩, habove⟩
    rw [frame?_mk] at hg
    split at hg
    · cases hg
      rw [hfind] at he
      cases he
    · refine ⟨⟨g, hg, he⟩, fun j g' hj hg' => habove j g' hj ?_⟩
      rw [frame?_mk, if_neg (hbelow hg'), hg']
  · intro ⟨⟨g, hg, he⟩, habove⟩
    refine ⟨⟨g, by rw [frame?_mk, if_neg (hbelow hg), hg], he⟩, fun j g' hj hg' => ?_⟩
    rw [frame?_mk] at hg'
    split at hg'
    · cases hg'
      exact hfind
    · exact habove j g' hj hg'

/-- **The highest scope that declares a name says what the name denotes.** -/
theorem locate?_eq_some {x : String} {i : Nat} {e : Entity} : ∀ {s : Scopes},
    s.locate? x = some (i, e) ↔ s.Highest x i e
  | ⟨inner, []⟩ => by
      rw [locate?_root]
      cases hfind : inner.find? x with
      | some e' =>
          rw [highest_of_declared hfind, Option.map_some, Option.some.injEq, Prod.mk.injEq,
            eq_comm, eq_comm (a := e')]
          rfl
      | none =>
          constructor
          · intro h
            cases h
          · intro ⟨⟨f, hf, he⟩, _⟩
            rw [Nat.le_zero.mp (le_depth_of_frame? hf)] at hf
            cases hf
            rw [hfind] at he
            cases he
  | ⟨inner, f :: fs⟩ => by
      rw [locate?_mk]
      cases hfind : inner.find? x with
      | some e' =>
          rw [highest_of_declared hfind, Option.some.injEq, Prod.mk.injEq, eq_comm,
            eq_comm (a := e')]
          rfl
      | none => exact locate?_eq_some.trans (highest_of_undeclared hfind).symm

theorem lookup?_eq_some {s : Scopes} {x : String} {e : Entity} :
    s.lookup? x = some e ↔
      ∃ i, (∃ f, s.frame? i = some f ∧ f.find? x = some e) ∧
        ∀ j f, i < j → s.frame? j = some f → f.find? x = none := by
  unfold lookup?
  rw [Option.map_eq_some_iff]
  constructor
  · intro ⟨⟨i, e'⟩, hfound, he⟩
    cases he
    exact ⟨i, locate?_eq_some.mp hfound⟩
  · intro ⟨i, h⟩
    exact ⟨(i, e), locate?_eq_some.mpr h, rfl⟩

/-- What a name denotes is bound to it in an open scope. -/
theorem mem_bindings_of_lookup? {s : Scopes} {x : String} {e : Entity}
    (h : s.lookup? x = some e) : ∃ i f, s.frame? i = some f ∧ (x, e) ∈ f.bindings := by
  obtain ⟨i, ⟨f, hf, hfind⟩, -⟩ := lookup?_eq_some.mp h
  exact ⟨i, f, hf, mem_of_lookup hfind⟩

/-- A name denotes nothing when no scope declares it. -/
theorem lookup?_eq_none {s : Scopes} {x : String} :
    s.lookup? x = none ↔ ∀ i f, s.frame? i = some f → f.find? x = none := by
  unfold lookup? locate?
  rw [Option.map_eq_none_iff]
  have hall : locateIn x s.frames = none ↔ ∀ f ∈ s.frames, f.find? x = none := by
    induction s.frames with
    | nil => simp [locateIn]
    | cons f fs ih =>
        rw [locateIn, List.forall_mem_cons, ← ih]
        cases f.find? x <;> simp
  rw [hall]
  constructor
  · intro h i f hf
    exact h f (mem_frames.mpr ⟨i, hf⟩)
  · intro h f hf
    obtain ⟨i, hi⟩ := mem_frames.mp hf
    exact h i f hi

theorem lookup?_mk (inner f : Frame) (fs : List Frame) (x : String) :
    (Scopes.mk inner (f :: fs)).lookup? x =
      (inner.find? x).or ((Scopes.mk f fs).lookup? x) := by
  unfold lookup?
  rw [locate?_mk]
  cases inner.find? x <;> rfl

/-- A new scope hides nothing. -/
theorem lookup?_enter (s : Scopes) (kind : ScopeKind) (x : String) :
    (s.enter kind).lookup? x = s.lookup? x := by
  have hempty : (s.inner.child kind).find? x = none := by cases kind <;> rfl
  unfold enter frames
  rw [lookup?_mk, hempty]
  rfl

/-- A declaration in the current scope hides what its name denoted before. -/
theorem lookup?_bind (s : Scopes) (x : String) (e : Entity) (y : String) :
    ({ s with inner := s.inner.bind x e } : Scopes).lookup? y =
      if y = x then some e else s.lookup? y := by
  unfold lookup? locate? frames
  rw [locateIn, locateIn, Frame.find?_bind]
  by_cases hy : y = x
  · rw [if_pos hy, if_pos hy]
    rfl
  · rw [if_neg hy, if_neg hy]

end Scopes

/-- A declaration leaves other names as free or as taken as they were. -/
theorem Frame.declares_bind_of_ne {x y : String} (f : Frame) (e : Entity) (h : y ≠ x) :
    (f.bind x e).declares y = f.declares y := by
  unfold Frame.declares
  rw [Frame.find?_bind, if_neg h]

end Sema
