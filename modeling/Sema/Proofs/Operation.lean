import Sema.Proofs.Stack

/-!
# Operations on the scopes

`ScopeOp` lists what can be done to the scopes: open and close one, declare a name in the current
scope or in any open one, record a function. `Scopes.perform` does it; an operation that is refused
leaves the scopes as they are.

One step is said once, for all operations: the depth changes as `ScopeOp.depth` says, and a scope
that stays open is changed by the writes to it and by nothing else (`Scopes.frame?_perform`). What a
write can change is given by `ScopeOp.on`: a name gets an entity unless it has one, a function is
recorded, and nothing else.
-/

namespace Sema

/-! ## 1. Operations -/

/-- An operation on the scopes. -/
inductive ScopeOp where
  | enter (kind : ScopeKind)
  | exit
  | define (name : String) (e : Entity)
  | defineIn (i : Nat) (name : String) (e : Entity)
  | setFunction (i : Nat) (f : Decl.Function)

/-- What an operation comes to. -/
def Scopes.apply (s : Scopes) : ScopeOp → Except ScopeError Scopes
  | .enter kind => .ok (s.enter kind)
  | .exit => s.exit?
  | .define x e => s.define x e
  | .defineIn i x e => s.defineIn i x e
  | .setFunction i f => s.setFunction i f

/-- The scopes after an operation; one that is refused leaves them as they are. -/
def Scopes.perform (s : Scopes) (op : ScopeOp) : Scopes :=
  match s.apply op with
  | .ok t => t
  | .error _ => s

namespace ScopeOp

/-- The depth after an operation at depth `d`. -/
def depth (d : Nat) : ScopeOp → Nat
  | enter _ => d + 1
  | exit => d - 1
  | define _ _ | defineIn _ _ _ | setFunction _ _ => d

/-- The root is not closed, and only open scopes are addressed. -/
def Allowed (d : Nat) : ScopeOp → Prop
  | exit => 0 < d
  | defineIn i _ _ | setFunction i _ => i ≤ d
  | enter _ | define _ _ => True

/-- Whether an operation at depth `d` opens or closes scope `i`. -/
def turns (d i : Nat) : ScopeOp → Bool
  | enter _ => i == d + 1
  | exit => i == d
  | define _ _ | defineIn _ _ _ | setFunction _ _ => false

/-- What an operation at depth `d` would bind a name to in scope `i`. -/
def binds (d i : Nat) (x : String) : ScopeOp → Option Entity
  | define y e => if i = d ∧ x = y then some e else none
  | defineIn j y e => if i = j ∧ x = y then some e else none
  | enter _ | exit | setFunction _ _ => none

/-- The function that an operation records in scope `i`. -/
def sets (i : Nat) : ScopeOp → Option Decl.Function
  | setFunction j f => if i = j then some f else none
  | enter _ | exit | define _ _ | defineIn _ _ _ => none

/-- What an operation at depth `d` writes to the frame of scope `i`, which stays open. A name that
    is declared keeps its entity. -/
def on (d i : Nat) (op : ScopeOp) (f : Frame) : Frame :=
  match op with
  | define x e => if i = d ∧ f.declares x = false then f.bind x e else f
  | defineIn j x e => if i = j ∧ f.declares x = false then f.bind x e else f
  | setFunction j g => if i = j then { f with function := some g } else f
  | enter _ | exit => f

variable {d i : Nat} {op : ScopeOp} {f : Frame}

/-- A declaration is seen unless the name was declared before. -/
theorem find?_bind_of_free (x : String) (e : Entity) (i j : Nat) (f : Frame) (y : String) :
    (if i = j ∧ f.declares x = false then f.bind x e else f).find? y =
      (f.find? y).or (if i = j ∧ y = x then some e else none) := by
  by_cases hij : i = j
  · by_cases hx : f.declares x = false
    · rw [if_pos ⟨hij, hx⟩, Frame.find?_bind]
      by_cases hy : y = x
      · have hnone : f.find? y = none := by
          rw [hy]
          exact Frame.declares_eq_false.mp hx
        rw [if_pos hy, if_pos ⟨hij, hy⟩, hnone]
        rfl
      · rw [if_neg hy, if_neg fun h => hy h.2, Option.or_none]
    · rw [if_neg fun h => hx h.2]
      by_cases hy : y = x
      · obtain ⟨e', he'⟩ : ∃ e', f.find? y = some e' := by
          rw [hy]
          exact Option.isSome_iff_exists.mp (Bool.of_not_eq_false hx)
        rw [he']
        rfl
      · rw [if_neg fun h => hy h.2, Option.or_none]
  · rw [if_neg fun h => hij h.1, if_neg fun h => hij h.1, Option.or_none]

theorem find?_on (x : String) : (op.on d i f).find? x = (f.find? x).or (op.binds d i x) := by
  cases op with
  | enter kind => exact (Option.or_none).symm
  | exit => exact (Option.or_none).symm
  | define y e => exact find?_bind_of_free y e i d f x
  | defineIn j y e => exact find?_bind_of_free y e i j f x
  | setFunction j g =>
      rw [on, binds, Option.or_none]
      split <;> rfl

theorem inLoop_on : (op.on d i f).inLoop = f.inLoop := by
  cases op with
  | enter kind => rfl
  | exit => rfl
  | define y e | defineIn j y e | setFunction j g =>
      rw [on]
      split <;> rfl

theorem function_on : (op.on d i f).function = (op.sets i).or f.function := by
  cases op with
  | enter kind => rfl
  | exit => rfl
  | define y e | defineIn j y e =>
      rw [on]
      split <;> rfl
  | setFunction j g =>
      rw [on, sets]
      by_cases hij : i = j
      · simp only [if_pos hij, Option.some_or]
      · simp only [if_neg hij, Option.none_or]

end ScopeOp

/-! ## 2. One operation -/

namespace Scopes

variable {s t : Scopes}

theorem perform_of_ok {op : ScopeOp} (h : s.apply op = .ok t) : s.perform op = t := by
  unfold perform
  rw [h]

theorem perform_of_error {op : ScopeOp} {reason : ScopeError} (h : s.apply op = .error reason) :
    s.perform op = s := by
  unfold perform
  rw [h]

/-- A declaration is written to the scope that it addresses, or it is refused. -/
theorem frame?_defineIn (s : Scopes) (i : Nat) (x : String) (e : Entity) (j : Nat) :
    (match s.defineIn i x e with
      | .ok t => t
      | .error _ => s).frame? j =
      (s.frame? j).map fun f => if j = i ∧ f.declares x = false then f.bind x e else f := by
  unfold defineIn
  by_cases hji : j = i
  · subst hji
    cases hf : s.frame? j with
    | none => simpa using hf
    | some f =>
        cases hx : f.declares x with
        | true => simp [hx, hf]
        | false => simp [hx, hf, frame?_modify]
  · have hsame :
        (s.frame? j).map (fun f => if j = i ∧ f.declares x = false then f.bind x e else f) =
          s.frame? j := by simp [hji]
    rw [hsame]
    cases hf : s.frame? i with
    | none => rfl
    | some f =>
        cases hx : f.declares x with
        | true => simp [hx]
        | false => simp [hx, frame?_modify, hji]

theorem depth_defineIn (s : Scopes) (i : Nat) (x : String) (e : Entity) :
    (match s.defineIn i x e with
      | .ok t => t
      | .error _ => s).depth = s.depth := by
  cases h : s.defineIn i x e with
  | ok t =>
      obtain ⟨f, -, -, rfl⟩ := defineIn_eq_ok.mp h
      exact depth_modify s i _
  | error reason => rfl

theorem depth_perform (s : Scopes) (op : ScopeOp) : (s.perform op).depth = op.depth s.depth := by
  cases op with
  | enter kind => rfl
  | exit =>
      cases h : s.apply .exit with
      | ok t =>
          have hexit : s.exit? = .ok t := h
          have hdepth := depth_of_exit hexit
          rw [perform_of_ok h, ScopeOp.depth]
          omega
      | error reason =>
          -- only the root cannot be closed
          have hroot : s.depth = 0 := by
            refine Nat.eq_zero_of_not_pos fun hpos => ?_
            obtain ⟨t, ht⟩ := exists_exit?_eq_ok hpos
            have herror : s.exit? = .error reason := h
            rw [ht] at herror
            cases herror
          rw [perform_of_error h, ScopeOp.depth, hroot]
  | define x e => exact depth_defineIn s s.depth x e
  | defineIn i x e => exact depth_defineIn s i x e
  | setFunction i f =>
      cases h : s.apply (.setFunction i f) with
      | ok t =>
          obtain ⟨-, rfl⟩ := setFunction_eq_ok.mp h
          rw [perform_of_ok h, depth_modify]
          rfl
      | error reason =>
          rw [perform_of_error h]
          rfl

/-- **A scope that stays open is changed by the writes to it, and by nothing else.** -/
theorem frame?_perform (s : Scopes) (op : ScopeOp) {i : Nat} (hi : i ≤ s.depth)
    (hopen : i ≤ op.depth s.depth) :
    (s.perform op).frame? i = (s.frame? i).map (op.on s.depth i) := by
  have hid : (s.frame? i).map (fun f => f) = s.frame? i := Option.map_id'
  cases op with
  | enter kind =>
      show (s.enter kind).frame? i = (s.frame? i).map fun f => f
      rw [frame?_enter, if_neg (by omega), hid]
  | exit =>
      show (s.perform .exit).frame? i = (s.frame? i).map fun f => f
      rw [hid]
      cases h : s.apply .exit with
      | ok t =>
          have hexit : s.exit? = .ok t := h
          have hdepth := depth_of_exit hexit
          have hle : i ≤ t.depth := by
            rw [ScopeOp.depth] at hopen
            omega
          rw [perform_of_ok h, frame?_of_exit hexit hle]
      | error reason => rw [perform_of_error h]
  | define x e => exact frame?_defineIn s s.depth x e i
  | defineIn j x e => exact frame?_defineIn s j x e i
  | setFunction j g =>
      have hfun : (ScopeOp.setFunction j g).on s.depth i =
          fun f => if i = j then { f with function := some g } else f := rfl
      rw [hfun]
      cases h : s.apply (.setFunction j g) with
      | ok t =>
          obtain ⟨-, rfl⟩ := setFunction_eq_ok.mp h
          rw [perform_of_ok h, frame?_modify]
          by_cases hij : i = j
          · simp [hij]
          · simp [hij]
      | error reason =>
          -- only a scope that is not open is refused
          have hij : i ≠ j := by
            intro hij
            rw [hij] at hi
            have hok : s.apply (.setFunction j g) = .ok _ := setFunction_eq_ok.mpr ⟨hi, rfl⟩
            rw [hok] at h
            cases h
          rw [perform_of_error h]
          simp [hij]

end Scopes

end Sema
