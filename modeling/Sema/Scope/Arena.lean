import Sema.Scope

/-!
# Scopes in an arena

The open scopes as they are stored: one after the other in an array, each with a link to the scope
around it (`Arena.Node`). A new scope is put at the end and linked to the one that was last; only
the last scope is ever taken away; and declarations may go to any scope of the array.

A name is sought along the links. The search looks at the current scope, then at the one that its
link names, and so on, until a scope declares the name or has no link (`Arena.locate?`). Nothing in
these definitions says where a link leads, nor that there is a scope at all: a link to a scope
further up, or back to the scope itself, could be written down as well. That no sequence of
operations makes one is proved, and with it that the arena behaves like the stack of `Scopes`.
-/

namespace Sema

/-- A scope with the number of the scope around it. -/
structure Arena.Node extends Frame where
  parent : Option Nat
deriving DecidableEq, Inhabited

/-- The open scopes by number; the last is current. -/
structure Arena where
  nodes : Array Arena.Node
deriving DecidableEq, Inhabited

namespace Arena

/-! ## 1. Opening and closing -/

/-- Only the root scope is open. It has no scope around it. -/
def root : Arena := ⟨#[⟨.root, none⟩]⟩

/-- The number of the innermost scope. -/
def current (a : Arena) : Nat := a.nodes.size - 1

/-- How deep the current scope lies below the root. -/
def depth (a : Arena) : Nat := a.nodes.size - 1

/-- The scope with a number. -/
def get? (a : Arena) (i : Nat) : Option Node := a.nodes[i]?

/-- The link that is stored with scope `i`. -/
def parent? (a : Arena) (i : Nat) : Option Nat := (a.get? i).bind Node.parent

/-- Opens a scope, which is linked to the current one and takes its context from there. -/
def enter (a : Arena) (kind : ScopeKind) : Except ScopeError Arena :=
  match a.get? a.current with
  | none => .error (.notOpen a.nodes.size a.current)
  | some outer => .ok ⟨a.nodes.push ⟨outer.child kind, some a.current⟩⟩

/-- Closes the current scope unless it is the only one. -/
def exit? (a : Arena) : Except ScopeError Arena :=
  if a.nodes.size ≤ 1 then .error .atRoot else .ok ⟨a.nodes.pop⟩

/-- Changes the frame of scope `i` and leaves its link as it is. -/
def modify (a : Arena) (i : Nat) (change : Frame → Frame) : Arena :=
  ⟨a.nodes.modify i fun n => { n with toFrame := change n.toFrame }⟩

/-! ## 2. Names -/

/-- Declares a name in scope `i`. -/
def defineIn (a : Arena) (i : Nat) (name : String) (e : Entity) : Except ScopeError Arena :=
  match a.get? i with
  | none => .error (.notOpen a.nodes.size i)
  | some n =>
      if n.declares name then .error (.alreadyDeclared name)
      else .ok (a.modify i (·.bind name e))

/-- Declares a name in the current scope. -/
def define (a : Arena) (name : String) (e : Entity) : Except ScopeError Arena :=
  a.defineIn a.current name e

/-- Follows the links, from the scope with the number `next` on, to a scope that declares a name.
    After `fuel` scopes the search is given up. -/
def locateFrom (a : Arena) (name : String) : (fuel : Nat) → (next : Option Nat) →
    Option (Nat × Entity)
  | _, none => none
  | 0, some _ => none
  | fuel + 1, some i =>
      match a.get? i with
      | none => none
      | some n =>
          match n.find? name with
          | some e => some (i, e)
          | none => a.locateFrom name fuel n.parent

/-- The entity that a name denotes here, with the number of the scope that declares it. A search
    that looks at more scopes than there are has come back to one of them. -/
def locate? (a : Arena) (name : String) : Option (Nat × Entity) :=
  a.locateFrom name a.nodes.size (some a.current)

/-- The entity that a name denotes here. -/
def lookup? (a : Arena) (name : String) : Option Entity := (a.locate? name).map Prod.snd

/-! ## 3. Control context -/

/-- Records the function whose body scope `i` holds. -/
def setFunction (a : Arena) (i : Nat) (f : Decl.Function) : Except ScopeError Arena :=
  match a.get? i with
  | none => .error (.notOpen a.nodes.size i)
  | some _ => .ok (a.modify i fun frame => { frame with function := some f })

/-- Whether a loop may be left in the current scope. -/
def inLoop (a : Arena) : Bool := (a.get? a.current).any (·.inLoop)

/-- The function whose body holds the current scope. -/
def currentFunction (a : Arena) : Option Decl.Function :=
  (a.get? a.current).bind (·.function)

end Arena

end Sema
