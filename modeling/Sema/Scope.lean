import Sema.Entity

/-!
# Scopes

The open scopes form a stack of frames: the innermost is current, the outermost is the root and is
never closed. Scopes are numbered from the root, which is scope 0, so the number of the current
scope is the depth of the stack and the parent of scope `i + 1` is scope `i`.

A frame holds the names that its scope declares and the control context: whether a loop may be left
here, and which function is being defined. A new frame takes its context from the frame around it,
as its kind says (`Frame.child`).

A name is resolved from the current scope outward (`Scopes.locate?`); a scope declares a name at
most once (`Scopes.defineIn`), while an inner scope may declare it anew.

Checks are stated over this stack. The scopes are stored in an array instead, each with a link to
the scope around it, and names are sought along the links: `Sema.Scope.Arena` has them in that form,
and that form is proved to refine this one.
-/

namespace Sema

/-- How a scope takes its control context from the scope around it. -/
inductive ScopeKind where
  /-- The body of a branch: the context stays as it is. -/
  | block
  /-- The body of a loop, which may be left. -/
  | loop
  /-- The body of a function: no loop around it may be left from inside. -/
  | functionBody
deriving DecidableEq

/-- The name of a kind of scope. -/
def ScopeKind.text : ScopeKind → String
  | block => "Block"
  | loop => "Loop"
  | functionBody => "FunctionBody"

/-- One scope: its names and its control context. -/
structure Frame where
  bindings : List (String × Entity)
  inLoop : Bool
  function : Option Decl.Function
deriving DecidableEq, Inhabited

namespace Frame

/-- The frame of the root scope. -/
def root : Frame := ⟨[], false, none⟩

/-- The frame of a new scope inside `outer`. -/
def child (outer : Frame) : ScopeKind → Frame
  | .block => ⟨[], outer.inLoop, outer.function⟩
  | .loop => ⟨[], true, outer.function⟩
  | .functionBody => ⟨[], false, none⟩

/-- What the scope itself binds a name to. -/
def find? (f : Frame) (name : String) : Option Entity := f.bindings.lookup name

/-- Whether the scope itself declares a name. -/
def declares (f : Frame) (name : String) : Bool := (f.find? name).isSome

/-- The frame with one more binding. -/
def bind (f : Frame) (name : String) (e : Entity) : Frame :=
  { f with bindings := (name, e) :: f.bindings }

/-- The newest binding of a name is the one that is found. -/
theorem find?_bind (f : Frame) (x y : String) (e : Entity) :
    (f.bind x e).find? y = if y = x then some e else f.find? y := by
  by_cases h : y = x
  · simp [Frame.find?, Frame.bind, h]
  · have hb : (y == x) = false := by simpa using h
    simp [Frame.find?, Frame.bind, List.lookup_cons, h, hb]

end Frame

/-- Why an operation on scopes is refused. -/
inductive ScopeError where
  /-- The scope declares the name already. -/
  | alreadyDeclared (name : String)
  /-- There is no scope with this number among the open ones. -/
  | notOpen (count index : Nat)
  /-- The root scope cannot be closed. -/
  | atRoot
deriving DecidableEq

/-- The wording of a refusal. -/
def ScopeError.message : ScopeError → String
  | alreadyDeclared name => "Identifier " ++ name ++ " already declared"
  | notOpen count index =>
      "index out of bounds: the len is " ++ toString count ++ " but the index is " ++ toString index
  | atRoot => "Cannot exit the root scope"

/-- The open scopes: the current one and those around it, from the inside out. -/
structure Scopes where
  inner : Frame
  outer : List Frame
deriving DecidableEq, Inhabited

namespace Scopes

/-! ## 1. The stack -/

/-- Only the root scope is open. -/
def root : Scopes := ⟨.root, []⟩

/-- The frames from the current scope to the root. -/
def frames (s : Scopes) : List Frame := s.inner :: s.outer

/-- How deep the current scope lies below the root, which is also its number. -/
def depth (s : Scopes) : Nat := s.outer.length

/-- The frame of scope `i`. -/
def frame? (s : Scopes) (i : Nat) : Option Frame :=
  if i ≤ s.depth then s.frames[s.depth - i]? else none

/-- The number of the scope around the open scope `i`; the root has none around it. It is stored
    with the scope in an `Arena`. -/
def parent? (s : Scopes) (i : Nat) : Option Nat :=
  if 0 < i ∧ i ≤ s.depth then some (i - 1) else none

/-- Opens a scope inside the current one. -/
def enter (s : Scopes) (kind : ScopeKind) : Scopes :=
  ⟨s.inner.child kind, s.frames⟩

/-- Closes the current scope unless it is the root. -/
def exit? (s : Scopes) : Except ScopeError Scopes :=
  match s.outer with
  | [] => .error .atRoot
  | f :: fs => .ok ⟨f, fs⟩

/-- Changes the frame of scope `i`; nothing happens when it is not open. -/
def modify (s : Scopes) (i : Nat) (change : Frame → Frame) : Scopes :=
  if i = s.depth then { s with inner := change s.inner }
  else if i < s.depth then { s with outer := s.outer.modify (s.depth - 1 - i) change }
  else s

/-! ## 2. Names -/

/-- The entity that a name denotes among frames from the inside out, with the number of its
    scope. -/
def locateIn (name : String) : List Frame → Option (Nat × Entity)
  | [] => none
  | f :: fs =>
      match f.find? name with
      | some e => some (fs.length, e)
      | none => locateIn name fs

/-- The entity that a name denotes here, with the number of the scope that declares it. -/
def locate? (s : Scopes) (name : String) : Option (Nat × Entity) := locateIn name s.frames

/-- The entity that a name denotes here. -/
def lookup? (s : Scopes) (name : String) : Option Entity := (s.locate? name).map Prod.snd

/-- Declares a name in scope `i`. -/
def defineIn (s : Scopes) (i : Nat) (name : String) (e : Entity) : Except ScopeError Scopes :=
  match s.frame? i with
  | none => .error (.notOpen (s.depth + 1) i)
  | some f =>
      if f.declares name then .error (.alreadyDeclared name)
      else .ok (s.modify i (·.bind name e))

/-- Declares a name in the current scope. -/
def define (s : Scopes) (name : String) (e : Entity) : Except ScopeError Scopes :=
  s.defineIn s.depth name e

/-! ## 3. Control context -/

/-- Records the function whose body scope `i` holds. -/
def setFunction (s : Scopes) (i : Nat) (f : Decl.Function) : Except ScopeError Scopes :=
  match s.frame? i with
  | none => .error (.notOpen (s.depth + 1) i)
  | some _ => .ok (s.modify i (fun frame => { frame with function := some f }))

/-- Whether a loop may be left in the current scope. -/
def inLoop (s : Scopes) : Bool := s.inner.inLoop

/-- The function whose body holds the current scope. -/
def currentFunction (s : Scopes) : Option Decl.Function := s.inner.function

/-! ## 4. The current scope -/

@[simp] theorem depth_enter (s : Scopes) (kind : ScopeKind) :
    (s.enter kind).depth = s.depth + 1 := rfl

/-- Closing undoes opening. -/
@[simp] theorem exit?_enter (s : Scopes) (kind : ScopeKind) : (s.enter kind).exit? = .ok s := rfl

@[simp] theorem frame?_depth (s : Scopes) : s.frame? s.depth = some s.inner := by
  simp [frame?, frames]

/-- **Declaring in the current scope looks at that scope only**, and changes nothing else. -/
theorem define_eq (s : Scopes) (name : String) (e : Entity) :
    s.define name e =
      if s.inner.declares name then .error (.alreadyDeclared name)
      else .ok { s with inner := s.inner.bind name e } := by
  simp [define, defineIn, modify]

end Scopes

end Sema
