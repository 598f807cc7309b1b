import Sema.Proofs.Operation

/-!
# The scopes after any history

A history is a sequence of operations on the scopes that starts with the root alone. What the scopes
show after it can be read off the history itself, without frames:

* `History.openedAs`: as what kind an open scope was entered;
* `History.boundTo`: what a scope binds a name to, the first declaration since the scope was opened;
* `History.setOn`: the function that was recorded last in a scope since it was opened.

Numbers of scopes are used again after a scope is closed, declarations may address scopes below the
current one, and a frame takes its control context once, when it is opened. That the frames show
what the history says goes by one step, `History.frame?_cons`: an operation opens a scope on top, or
it writes to a scope that stays open. All invariants are inductions along it.
-/

namespace Sema

/-! ## 1. What a history says -/

/-- Operations, the newest first. -/
abbrev History := List ScopeOp

namespace History

/-- The scopes after a history. -/
def scopes : History → Scopes
  | [] => .root
  | op :: h => (scopes h).perform op

/-- How deep the current scope is. -/
def depth : History → Nat
  | [] => 0
  | op :: h => op.depth (depth h)

/-- Each operation is allowed where it is performed. -/
def Legal : History → Prop
  | [] => True
  | op :: h => op.Allowed (depth h) ∧ Legal h

/-- As what kind the open scope `i` was entered; the root was not entered. -/
def openedAs (i : Nat) : History → Option ScopeKind
  | [] => none
  | .enter kind :: h => if i = depth h + 1 then some kind else openedAs i h
  | .exit :: h => if i = depth h then none else openedAs i h
  | _ :: h => openedAs i h

/-- What the open scope `i` binds a name to: the first declaration since it was opened. -/
def boundTo (i : Nat) (x : String) : History → Option Entity
  | [] => none
  | op :: h => if op.turns (depth h) i then none else (boundTo i x h).or (op.binds (depth h) i x)

/-- The function that was recorded last in the open scope `i` since it was opened. -/
def setOn (i : Nat) : History → Option Decl.Function
  | [] => none
  | op :: h => if op.turns (depth h) i then none else (op.sets i).or (setOn i h)

/-- Some scope from `i` down was entered as a loop, and none between them as the body of a
    function. -/
def LoopAround (h : History) (i : Nat) : Prop :=
  ∃ j ≤ i, openedAs j h = some .loop ∧
    ∀ k, j < k → k ≤ i → openedAs k h ≠ some .functionBody

/-- The highest scope from `i` down that was entered as the body of a function; the root never
    is. -/
def bodyAround (h : History) : Nat → Option Nat
  | 0 => none
  | i + 1 => if openedAs (i + 1) h = some .functionBody then some (i + 1) else bodyAround h i

/-- Functions are recorded in the current scope only, and only when it was entered as the body of a
    function. -/
def Disciplined : History → Prop
  | [] => True
  | .setFunction i _ :: h =>
      i = depth h ∧ openedAs i h = some .functionBody ∧ Disciplined h
  | _ :: h => Disciplined h

/-- Scope `i` is open after `h` and is not closed by what comes later. -/
def StaysOpen (i : Nat) (h : History) : History → Prop
  | [] => i ≤ depth h
  | op :: later => StaysOpen i h later ∧ i ≤ op.depth (depth (later ++ h))

/-- What the later operations write to the frame of scope `i`. -/
def writes (i : Nat) (h : History) : History → Frame → Frame
  | [], f => f
  | op :: later, f => op.on (depth (later ++ h)) i (writes i h later f)

theorem depth_scopes : ∀ h : History, (scopes h).depth = depth h
  | [] => rfl
  | op :: h => by rw [scopes, Scopes.depth_perform, depth_scopes h, depth]

/-! ## 2. One step of a history -/

section

variable {op : ScopeOp} {h : History} {i : Nat}

/-- **What an operation can do to a scope**: it opens one on top, or leaves it open and writes to
    it. -/
theorem frame?_cons {f : Frame} (hf : (scopes (op :: h)).frame? i = some f) :
    (∃ g, (scopes h).frame? i = some g ∧ i ≤ op.depth (depth h) ∧ f = op.on (depth h) i g) ∨
      ∃ kind, op = .enter kind ∧ i = depth h + 1 ∧ f = (scopes h).inner.child kind := by
  have hle := Scopes.le_depth_of_frame? hf
  rw [depth_scopes, depth] at hle
  by_cases hi : i ≤ depth h
  · left
    have hframe := Scopes.frame?_perform (scopes h) op (i := i)
      (by rw [depth_scopes]; exact hi) (by rw [depth_scopes]; exact hle)
    rw [scopes, hframe, depth_scopes] at hf
    obtain ⟨g, hg, rfl⟩ := Option.map_eq_some_iff.mp hf
    exact ⟨g, hg, hle, rfl⟩
  · -- only a scope that is opened is higher than before
    cases op with
    | enter kind =>
        rw [ScopeOp.depth] at hle
        have htop : i = depth h + 1 := by omega
        have hf : ((scopes h).enter kind).frame? i = some f := hf
        rw [Scopes.frame?_enter, depth_scopes, if_pos htop] at hf
        exact .inr ⟨kind, rfl, htop, (Option.some.inj hf).symm⟩
    | exit | define x e | defineIn j x e | setFunction j g =>
        rw [ScopeOp.depth] at hle
        omega

/-- An operation that leaves a scope open does not turn it, nor any scope below it. -/
theorem turns_eq_false (hallowed : op.Allowed (depth h)) (hi : i ≤ depth h)
    (hopen : i ≤ op.depth (depth h)) {j : Nat} (hj : j ≤ i) : op.turns (depth h) j = false := by
  cases op with
  | enter kind =>
      rw [ScopeOp.turns, beq_eq_false_iff_ne]
      omega
  | exit =>
      rw [ScopeOp.depth] at hopen
      have hpos : 0 < depth h := hallowed
      rw [ScopeOp.turns, beq_eq_false_iff_ne]
      omega
  | define x e | defineIn k x e | setFunction k g => rfl

theorem openedAs_cons (hturns : op.turns (depth h) i = false) :
    openedAs i (op :: h) = openedAs i h := by
  cases op with
  | enter kind =>
      rw [ScopeOp.turns, beq_eq_false_iff_ne] at hturns
      rw [openedAs, if_neg hturns]
  | exit =>
      rw [ScopeOp.turns, beq_eq_false_iff_ne] at hturns
      rw [openedAs, if_neg hturns]
  | define x e | defineIn k x e | setFunction k g => rfl

theorem openedAs_enter (h : History) (kind : ScopeKind) :
    openedAs (depth h + 1) (.enter kind :: h) = some kind := if_pos rfl

/-- The scopes up to `i` are enough to tell whether there is a loop. -/
theorem loopAround_congr {h' : History} (hsame : ∀ j ≤ i, openedAs j h' = openedAs j h) :
    LoopAround h' i ↔ LoopAround h i := by
  constructor
  · intro ⟨j, hj, hloop, hbody⟩
    refine ⟨j, hj, (hsame j hj).symm.trans hloop, fun k hjk hk => ?_⟩
    rw [← hsame k hk]
    exact hbody k hjk hk
  · intro ⟨j, hj, hloop, hbody⟩
    refine ⟨j, hj, (hsame j hj).trans hloop, fun k hjk hk => ?_⟩
    rw [hsame k hk]
    exact hbody k hjk hk

/-- One scope further: a loop, a body that shields the loops around, or a block. -/
theorem loopAround_succ {kind : ScopeKind} (hkind : openedAs (i + 1) h = some kind) :
    LoopAround h (i + 1) ↔ kind = .loop ∨ kind ≠ .functionBody ∧ LoopAround h i := by
  constructor
  · intro ⟨j, hj, hloop, hbody⟩
    by_cases hji : j = i + 1
    · rw [hji, hkind] at hloop
      exact .inl (Option.some.inj hloop)
    · have hle : j ≤ i := by omega
      refine .inr ⟨fun hk => ?_, j, hle, hloop, fun k hjk hk => hbody k hjk (by omega)⟩
      exact hbody (i + 1) (by omega) (Nat.le_refl _) (hkind.trans (congrArg some hk))
  · intro hcases
    rcases hcases with hloop | ⟨hkb, j, hj, hloop, hbody⟩
    · exact ⟨i + 1, Nat.le_refl _, hkind.trans (congrArg some hloop), fun k hk hk' => by omega⟩
    · refine ⟨j, by omega, hloop, fun k hjk hk => ?_⟩
      by_cases hki : k = i + 1
      · rw [hki, hkind]
        exact fun heq => hkb (Option.some.inj heq)
      · exact hbody k hjk (by omega)

theorem openedAs_zero : ∀ h : History, openedAs 0 h = none
  | [] => rfl
  | op :: h => by
      have ih := openedAs_zero h
      cases op with
      | enter kind => rw [openedAs, if_neg (by omega), ih]
      | exit => rw [openedAs, ih, ite_self]
      | define x e | defineIn k x e | setFunction k g => exact ih

theorem bodyAround_self (hi : openedAs i h = some .functionBody) : bodyAround h i = some i := by
  cases i with
  | zero =>
      rw [openedAs_zero] at hi
      cases hi
  | succ i => exact if_pos hi

theorem bodyAround_congr {h' : History} : ∀ {i : Nat},
    (∀ j ≤ i, openedAs j h' = openedAs j h) → bodyAround h' i = bodyAround h i
  | 0, _ => rfl
  | i + 1, hsame => by
      rw [bodyAround, bodyAround, hsame (i + 1) (Nat.le_refl _),
        bodyAround_congr fun j hj => hsame j (Nat.le_succ_of_le hj)]

/-- The body around is entered as such, and none above it is. -/
theorem bodyAround_eq_some {k : Nat} : ∀ {i : Nat}, bodyAround h i = some k ↔
    k ≤ i ∧ openedAs k h = some .functionBody ∧
      ∀ j, k < j → j ≤ i → openedAs j h ≠ some .functionBody
  | 0 => by
      constructor
      · intro hk
        cases hk
      · intro ⟨hk, hbody, _⟩
        rw [Nat.le_zero.mp hk, openedAs_zero] at hbody
        cases hbody
  | i + 1 => by
      rw [bodyAround]
      by_cases htop : openedAs (i + 1) h = some .functionBody
      · rw [if_pos htop]
        constructor
        · intro hk
          cases hk
          exact ⟨Nat.le_refl _, htop, fun j hj hj' => by omega⟩
        · intro ⟨hk, _, habove⟩
          by_cases hki : k = i + 1
          · rw [hki]
          · exact absurd htop (habove (i + 1) (by omega) (Nat.le_refl _))
      · rw [if_neg htop, bodyAround_eq_some]
        constructor
        · intro ⟨hk, hbody, habove⟩
          refine ⟨by omega, hbody, fun j hj hj' => ?_⟩
          by_cases hji : j = i + 1
          · rw [hji]
            exact htop
          · exact habove j hj (by omega)
        · intro ⟨hk, hbody, habove⟩
          have hne : k ≠ i + 1 := fun heq => htop (heq ▸ hbody)
          exact ⟨by omega, hbody, fun j hj hj' => habove j hj (by omega)⟩

theorem bodyAround_eq_none : ∀ {i : Nat},
    (∀ k ≤ i, openedAs k h ≠ some .functionBody) → bodyAround h i = none
  | 0, _ => rfl
  | i + 1, hnone => by
      rw [bodyAround, if_neg (hnone (i + 1) (Nat.le_refl _)),
        bodyAround_eq_none fun k hk => hnone k (Nat.le_succ_of_le hk)]

theorem setOn_cons (hturns : op.turns (depth h) i = false) :
    setOn i (op :: h) = (op.sets i).or (setOn i h) := by
  rw [setOn, hturns]
  rfl

end

/-! ## 3. Every history -/

section

variable {h : History} {i : Nat} {f : Frame}

/-- The root before any operation. -/
theorem frame?_nil (hf : (scopes []).frame? i = some f) : i = 0 ∧ f = .root := by
  have hi : i = 0 := Nat.le_zero.mp (Scopes.le_depth_of_frame? hf)
  subst hi
  exact ⟨rfl, (Option.some.inj hf).symm⟩

theorem le_depth (hf : (scopes h).frame? i = some f) : i ≤ depth h := by
  rw [← depth_scopes]
  exact Scopes.le_depth_of_frame? hf

theorem frame?_inner (h : History) : (scopes h).frame? (depth h) = some (scopes h).inner := by
  rw [← depth_scopes, Scopes.frame?_depth]

/-- **A scope binds what the history says.** -/
theorem find?_eq_boundTo (hl : Legal h) (hf : (scopes h).frame? i = some f) (x : String) :
    f.find? x = boundTo i x h := by
  induction h generalizing i f with
  | nil =>
      obtain ⟨-, rfl⟩ := frame?_nil hf
      rfl
  | cons op h ih =>
      rcases frame?_cons hf with ⟨g, hg, hopen, rfl⟩ | ⟨kind, rfl, rfl, rfl⟩
      · have hturns := turns_eq_false hl.1 (le_depth hg) hopen (Nat.le_refl i)
        rw [ScopeOp.find?_on, ih hl.2 hg, boundTo, hturns]
        rfl
      · have hturns : (ScopeOp.enter kind).turns (depth h) (depth h + 1) = true :=
          beq_self_eq_true _
        rw [boundTo, hturns, if_pos rfl]
        cases kind <;> rfl

/-- **A loop may be left exactly where the history says that there is one around.** -/
theorem inLoop_iff_loopAround (hl : Legal h) (hf : (scopes h).frame? i = some f) :
    f.inLoop = true ↔ LoopAround h i := by
  induction h generalizing i f with
  | nil =>
      obtain ⟨-, rfl⟩ := frame?_nil hf
      constructor
      · intro hloop
        cases hloop
      · intro ⟨j, _, hloop, _⟩
        cases hloop
  | cons op h ih =>
      rcases frame?_cons hf with ⟨g, hg, hopen, rfl⟩ | ⟨kind, rfl, rfl, rfl⟩
      · rw [ScopeOp.inLoop_on, ih hl.2 hg]
        exact (loopAround_congr fun j hj =>
          openedAs_cons (turns_eq_false hl.1 (le_depth hg) hopen hj)).symm
      · -- the new scope takes its context from the one that was current
        have hinner := ih hl.2 (frame?_inner h)
        have hbelow : LoopAround (.enter kind :: h) (depth h) ↔ LoopAround h (depth h) :=
          loopAround_congr fun j hj => openedAs_cons (beq_eq_false_iff_ne.mpr (by omega))
        rw [loopAround_succ (openedAs_enter h kind), hbelow, ← hinner]
        cases kind <;> simp [Frame.child]

theorem Disciplined.tail {op : ScopeOp} (hd : Disciplined (op :: h)) : Disciplined h := by
  cases op with
  | setFunction i g => exact hd.2.2
  | enter kind | exit | define x e | defineIn i x e => exact hd

/-- A function is recorded in a scope only if that is the body of a function itself. -/
theorem Disciplined.sets_or_self {op : ScopeOp} (hd : Disciplined (op :: h)) (i : Nat) :
    op.sets i = none ∨ bodyAround h i = some i := by
  cases op with
  | setFunction j F =>
      by_cases hij : i = j
      · subst hij
        exact .inr (bodyAround_self hd.2.1)
      · exact .inl (if_neg hij)
  | enter kind | exit | define x e | defineIn j x e => exact .inl rfl

/-- No function is recorded below the current scope. -/
theorem Disciplined.sets_below {op : ScopeOp} (hd : Disciplined (op :: h)) (hi : i < depth h) :
    op.sets i = none := by
  cases op with
  | setFunction j F =>
      have hj : j = depth h := hd.1
      exact if_neg (by omega)
  | enter kind | exit | define x e | defineIn j x e => rfl

/-- What is recorded in a scope that stays open is recorded in the body around it. -/
theorem bind_setOn_cons {op : ScopeOp} (hd : Disciplined (op :: h)) (hi : i ≤ depth h)
    (hturns : ∀ j ≤ i, op.turns (depth h) j = false) :
    ((bodyAround (op :: h) i).bind fun k => setOn k (op :: h)) =
      (op.sets i).or ((bodyAround h i).bind fun k => setOn k h) := by
  rw [bodyAround_congr fun j hj => openedAs_cons (hturns j hj)]
  have hsets := hd.sets_or_self i
  cases hk : bodyAround h i with
  | none =>
      rw [hk] at hsets
      rcases hsets with hsets | hsets
      · rw [hsets]
        rfl
      · cases hsets
  | some k =>
      have hki : k ≤ i := (bodyAround_eq_some.mp hk).1
      show setOn k (op :: h) = (op.sets i).or (setOn k h)
      rw [setOn_cons (hturns k hki)]
      by_cases hne : k = i
      · rw [hne]
      · have hnone : op.sets i = none := by
          rcases hsets with hsets | hsets
          · exact hsets
          · rw [hk] at hsets
            exact absurd (Option.some.inj hsets) hne
        rw [hnone, hd.sets_below (by omega)]

/-- In a new scope nothing is recorded yet if it is the body of a function; else the body around it
    is the one around the scope that was current. -/
theorem bind_setOn_enter (hd : Disciplined h) (kind : ScopeKind) :
    ((bodyAround (.enter kind :: h) (depth h + 1)).bind fun k => setOn k (.enter kind :: h)) =
      if kind = .functionBody then none else (bodyAround h (depth h)).bind fun k => setOn k h := by
  rw [bodyAround, openedAs_enter]
  by_cases hkind : kind = .functionBody
  · rw [if_pos hkind, if_pos (congrArg some hkind)]
    exact if_pos (beq_self_eq_true _)
  · rw [if_neg hkind, if_neg fun heq => hkind (Option.some.inj heq)]
    have hd : Disciplined (.enter kind :: h) := hd
    exact bind_setOn_cons hd (Nat.le_refl _) fun j hj => beq_eq_false_iff_ne.mpr (by omega)

/-- **The function of a scope is the one that was recorded in the body around it.** -/
theorem function_eq_setOn (hl : Legal h) (hd : Disciplined h)
    (hf : (scopes h).frame? i = some f) :
    f.function = (bodyAround h i).bind fun k => setOn k h := by
  induction h generalizing i f with
  | nil =>
      obtain ⟨rfl, rfl⟩ := frame?_nil hf
      rfl
  | cons op h ih =>
      rcases frame?_cons hf with ⟨g, hg, hopen, rfl⟩ | ⟨kind, rfl, rfl, rfl⟩
      · have hi := le_depth hg
        rw [ScopeOp.function_on, ih hl.2 hd.tail hg,
          bind_setOn_cons hd hi fun j hj => turns_eq_false hl.1 hi hopen hj]
      · have hinner := ih hl.2 hd.tail (frame?_inner h)
        rw [bind_setOn_enter hd.tail, ← hinner]
        cases kind <;> rfl

/-! ## 4. Later operations -/

variable {later : History}

theorem StaysOpen.le (ho : StaysOpen i h later) : i ≤ depth (later ++ h) := by
  cases later with
  | nil => exact ho
  | cons op later => exact ho.2

theorem staysOpen_start (ho : StaysOpen i h later) : i ≤ depth h := by
  induction later with
  | nil => exact ho
  | cons op later ih => exact ih ho.1

/-- **A scope that stays open is the same scope**, with what was written to it in the meantime. -/
theorem frame?_append (ho : StaysOpen i h later) :
    (scopes (later ++ h)).frame? i = ((scopes h).frame? i).map (writes i h later) := by
  induction later with
  | nil => exact Option.map_id'.symm
  | cons op later ih =>
      have hle := ho.1.le
      have hopen : i ≤ op.depth (depth (later ++ h)) := ho.2
      rw [← depth_scopes] at hle hopen
      show ((scopes (later ++ h)).perform op).frame? i = _
      rw [Scopes.frame?_perform _ op hle hopen, ih ho.1, Option.map_map, depth_scopes]
      rfl

/-- What is bound stays bound. -/
theorem find?_writes {x : String} {e : Entity} (hx : f.find? x = some e) :
    (writes i h later f).find? x = some e := by
  induction later with
  | nil => exact hx
  | cons op later ih =>
      rw [writes, ScopeOp.find?_on, ih]
      rfl

theorem openedAs_append (hl : Legal (later ++ h)) (ho : StaysOpen i h later) :
    openedAs i (later ++ h) = openedAs i h := by
  induction later with
  | nil => rfl
  | cons op later ih =>
      have hturns := turns_eq_false hl.1 ho.1.le ho.2 (Nat.le_refl i)
      exact (openedAs_cons hturns).trans (ih hl.2 ho.1)

/-! ## 5. Names -/

theorem exists_frame? (hi : i ≤ depth h) : ∃ f, (scopes h).frame? i = some f := by
  rw [← depth_scopes, ← Scopes.isSome_frame?] at hi
  exact Option.isSome_iff_exists.mp hi

theorem lookup?_iff_boundTo (hl : Legal h) {x : String} {e : Entity} :
    (scopes h).lookup? x = some e ↔
      ∃ i ≤ depth h, boundTo i x h = some e ∧
        ∀ j, i < j → j ≤ depth h → boundTo j x h = none := by
  rw [Scopes.lookup?_eq_some]
  constructor
  · intro ⟨i, ⟨f, hf, hx⟩, habove⟩
    refine ⟨i, le_depth hf, ?_, fun j hij hj => ?_⟩
    · rw [← find?_eq_boundTo hl hf, hx]
    · obtain ⟨g, hg⟩ := exists_frame? hj
      rw [← find?_eq_boundTo hl hg, habove j g hij hg]
  · intro ⟨i, hi, hx, habove⟩
    obtain ⟨f, hf⟩ := exists_frame? hi
    refine ⟨i, ⟨f, hf, (find?_eq_boundTo hl hf x).trans hx⟩, fun j g hij hg => ?_⟩
    rw [find?_eq_boundTo hl hg]
    exact habove j hij (le_depth hg)

theorem lookup?_eq_none_iff (hl : Legal h) {x : String} :
    (scopes h).lookup? x = none ↔ ∀ i ≤ depth h, boundTo i x h = none := by
  rw [Scopes.lookup?_eq_none]
  constructor
  · intro hnone i hi
    obtain ⟨f, hf⟩ := exists_frame? hi
    rw [← find?_eq_boundTo hl hf, hnone i f hf]
  · intro hnone i f hf
    rw [find?_eq_boundTo hl hf]
    exact hnone i (le_depth hf)

end

end History

end Sema
