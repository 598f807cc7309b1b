import Mathlib.Logic.Function.Defs
import Sema.Scope

/-!
# Scopes with their contents replaced

Names, entities and enclosing functions of open scopes replaced throughout. Scopes are asked for a
name, never for what an entity is, so every operation on them commutes with such a replacement, as
long as it keeps different names apart.
-/

namespace Sema

variable (r : String → String) (φ : Entity → Entity) (ψ : Decl.Function → Decl.Function)

/-- The frame with its names, entities and function replaced. -/
def Frame.transform (g : Frame) : Frame where
  bindings := g.bindings.map fun b => (r b.1, φ b.2)
  inLoop := g.inLoop
  function := g.function.map ψ

/-- The scopes with their names, entities and functions replaced. -/
def Scopes.transform (s : Scopes) : Scopes :=
  ⟨s.inner.transform r φ ψ, s.outer.map (Frame.transform r φ ψ)⟩

/-- Why an operation on scopes is refused, with the name in it replaced. -/
def ScopeError.relabel : ScopeError → ScopeError
  | alreadyDeclared name => alreadyDeclared (r name)
  | reason => reason

@[simp] theorem ScopeError.relabel_id (reason : ScopeError) : reason.relabel id = reason := by
  cases reason <;> rfl

variable {r φ ψ}

/-! ## 1. Frames -/

namespace Frame

theorem find?_transform (hr : r.Injective) (g : Frame) (x : String) :
    (g.transform r φ ψ).find? (r x) = (g.find? x).map φ := by
  show (g.bindings.map _).lookup (r x) = (g.bindings.lookup x).map φ
  induction g.bindings with
  | nil => rfl
  | cons b bs ih =>
      obtain ⟨y, e⟩ := b
      have hxy : (r x == r y) = (x == y) := by
        by_cases h : x = y
        · rw [h, beq_self_eq_true, beq_self_eq_true]
        · rw [beq_false_of_ne h, beq_false_of_ne fun hxy => h (hr hxy)]
      rw [List.map_cons, List.lookup_cons, List.lookup_cons, hxy, ih]
      cases x == y <;> rfl

theorem declares_transform (hr : r.Injective) (g : Frame) (x : String) :
    (g.transform r φ ψ).declares (r x) = g.declares x := by
  rw [declares, declares, find?_transform hr, Option.isSome_map]

theorem transform_child (g : Frame) (kind : ScopeKind) :
    (g.child kind).transform r φ ψ = (g.transform r φ ψ).child kind := by
  cases kind <;> rfl

end Frame

/-! ## 2. Scopes -/

namespace Scopes

theorem depth_transform (s : Scopes) : (s.transform r φ ψ).depth = s.depth := List.length_map _

theorem frames_transform (s : Scopes) :
    (s.transform r φ ψ).frames = s.frames.map (Frame.transform r φ ψ) := rfl

theorem transform_enter (s : Scopes) (kind : ScopeKind) :
    (s.enter kind).transform r φ ψ = (s.transform r φ ψ).enter kind := by
  unfold enter transform
  rw [Frame.transform_child]
  rfl

theorem frame?_transform (s : Scopes) (i : Nat) :
    (s.transform r φ ψ).frame? i = (s.frame? i).map (Frame.transform r φ ψ) := by
  unfold frame?
  rw [depth_transform, frames_transform, List.getElem?_map]
  split <;> rfl

/-- A change of one frame that commutes with the replacement. -/
theorem transform_modify (change change' : Frame → Frame)
    (h : ∀ g, (change g).transform r φ ψ = change' (g.transform r φ ψ)) (s : Scopes) (i : Nat) :
    (s.modify i change).transform r φ ψ = (s.transform r φ ψ).modify i change' := by
  unfold modify
  rw [depth_transform]
  by_cases heq : i = s.depth
  · rw [if_pos heq, if_pos heq]
    unfold transform
    rw [h]
  · rw [if_neg heq, if_neg heq]
    by_cases hlt : i < s.depth
    · rw [if_pos hlt, if_pos hlt]
      unfold transform
      congr 1
      refine List.ext_getElem? fun j => ?_
      simp only [List.getElem?_map, List.getElem?_modify]
      by_cases hj : s.depth - 1 - i = j
      · simp [hj, Function.comp_def, h]
      · simp [hj]
    · rw [if_neg hlt, if_neg hlt]

/-- **Declaring commutes with the replacement**, a refusal included. -/
theorem defineIn_transform (hr : r.Injective) (s : Scopes) (i : Nat) (name : String) (e : Entity) :
    (s.transform r φ ψ).defineIn i (r name) (φ e) =
      ((s.defineIn i name e).map (transform r φ ψ)).mapError (ScopeError.relabel r) := by
  unfold defineIn
  rw [frame?_transform, depth_transform]
  cases s.frame? i with
  | none => rfl
  | some g =>
      simp only [Option.map_some, Frame.declares_transform hr]
      split
      · rfl
      · rw [← transform_modify (·.bind name e) _ fun _ => rfl]
        rfl

theorem setFunction_transform (s : Scopes) (i : Nat) (g : Decl.Function) :
    (s.transform r φ ψ).setFunction i (ψ g) =
      ((s.setFunction i g).map (transform r φ ψ)).mapError (ScopeError.relabel r) := by
  unfold setFunction
  rw [frame?_transform, depth_transform]
  cases s.frame? i with
  | none => rfl
  | some _ =>
      simp only [Option.map_some]
      rw [← transform_modify (fun frame => { frame with function := some g }) _ fun _ => rfl]
      rfl

theorem exit?_transform (s : Scopes) :
    (s.transform r φ ψ).exit? =
      (s.exit?.map (transform r φ ψ)).mapError (ScopeError.relabel r) := by
  obtain ⟨inner, outer⟩ := s
  cases outer <;> rfl

theorem locateIn_transform (hr : r.Injective) (x : String) : ∀ gs : List Frame,
    locateIn (r x) (gs.map (Frame.transform r φ ψ)) =
      (locateIn x gs).map fun found => (found.1, φ found.2)
  | [] => rfl
  | g :: gs => by
      rw [List.map_cons, locateIn, locateIn, Frame.find?_transform hr]
      cases g.find? x with
      | none => exact locateIn_transform hr x gs
      | some e => simp

end Scopes

end Sema
