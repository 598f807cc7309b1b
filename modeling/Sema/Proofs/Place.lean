import Sema.Catalog
import Sema.Resolved.Basic

/-!
# Places in a program

A `Place` says how to get from a whole program to a part of it, through the syntax tree and through
the resolved tree alike. It is written from the inside out: its first turn is the last one taken, so
what is left of it without that turn is the place of the part around.

* `Focus.at?`, `Resolved.Focus.at?`: the part at a place;
* `Site`: a declaring node, as the place of a statement and what that statement declares;
* `designated`: the declaration that a name at a place belongs to, found by searching outward, turn
  by turn. Only the syntax tree is looked at.
-/

namespace Sema

/-! ## 1. Places -/

/-- A step from a part of a program to a part inside it. -/
inductive Turn where
  /-- From a block to one of its statements. -/
  | item (i : Nat)
  /-- From a function or a loop to its body. -/
  | body
  /-- From a statement to the `if` that it is. -/
  | branch
  /-- From an `if` to its block. -/
  | consequent
  /-- From an `if` to what follows `else`. -/
  | alternate
  /-- To an expression directly inside. -/
  | part (i : Nat)
deriving DecidableEq

/-- The turns that lead to a part of a program, the last one first. -/
abbrev Place := List Turn

/-- What a statement declares: itself (a variable, a function, the iterator of a loop), or one of
    its parameters. -/
inductive Slot where
  | self
  | parameter (k : Nat)
deriving DecidableEq

/-- A declaring node. -/
structure Site where
  place : Place
  slot : Slot
deriving DecidableEq

/-! ## 2. Parts of the syntax tree -/

/-- A part of a program. -/
inductive Focus where
  | block (body : List Stmt)
  | stmt (stmt : Stmt)
  | branch (branch : Branch)
  | expr (expr : Expr)

/-- The expressions directly inside an expression. -/
def Expr.parts : Expr → List Expr
  | .int _ _ | .float _ _ | .bool _ _ | .str _ _ | .name _ _ | .emptyList _ _ => []
  | .conditional t c a _ => [t, c, a]
  | .logical _ es _ | .list es _ => es
  | .binary _ l r _ | .subscript l r _ => [l, r]
  | .unary _ e _ => [e]
  | .call f es _ => f :: es

/-- The expressions directly inside a statement. -/
def Stmt.parts : Stmt → List Expr
  | .declare _ _ e _ | .step _ e _ | .returnValue e _ | .whileLoop e _ _ | .forEach _ e _ _
  | .eval e _ => [e]
  | .assign t e _ => [t, e]
  | .function _ _ _ _ _ | .exitLoop _ | .returnNothing _ | .branch _ => []

/-- The body of a function or of a loop. -/
def Stmt.body? : Stmt → Option (List Stmt)
  | .function _ _ _ body _ | .whileLoop _ body _ | .forEach _ _ body _ => some body
  | _ => none

namespace Focus

/-- The expressions directly inside. -/
def parts : Focus → List Expr
  | block _ => []
  | stmt s => s.parts
  | branch (.mk t _ _ _) => [t]
  | expr e => e.parts

/-- What follows `else`. -/
def ofAlternate? : Alternate → Option Focus
  | .none => none
  | .block body => some (block body)
  | .elseIf next => some (branch next)

/-- The part that a turn leads to. -/
def child? : Focus → Turn → Option Focus
  | f, .part i => f.parts[i]?.map expr
  | block ss, .item i => ss[i]?.map stmt
  | stmt s, .body => s.body?.map block
  | stmt (.branch b), .branch => some (branch b)
  | branch (.mk _ c _ _), .consequent => some (block c)
  | branch (.mk _ _ a _), .alternate => ofAlternate? a
  | _, _ => none

theorem child?_part (f : Focus) (i : Nat) : f.child? (.part i) = f.parts[i]?.map expr := by
  cases f <;> rfl

/-- The part at a place. -/
def at? (root : Focus) : Place → Option Focus
  | [] => some root
  | t :: outer => (root.at? outer).bind fun f => f.child? t

theorem at?_cons {root f : Focus} {here : Place} (h : root.at? here = some f) (t : Turn) :
    root.at? (t :: here) = f.child? t := by
  rw [at?, h, Option.bind_some]

/-- From a part, the rest of the way leads to what is at the whole way. -/
theorem at?_append {root f : Focus} {here : Place} (h : root.at? here = some f) :
    ∀ q : Place, root.at? (q ++ here) = f.at? q
  | [] => h
  | t :: q => by rw [List.cons_append, at?, at?, at?_append h q]

theorem at?_item {root : Focus} {here : Place} {ss : List Stmt}
    (h : root.at? here = some (.block ss)) (j : Nat) (s : Stmt) (hs : ss[j]? = some s) :
    root.at? (.item (0 + j) :: here) = some (.stmt s) := by
  rw [at?_cons h, Nat.zero_add, child?, hs, Option.map_some]

end Focus

/-! ## 3. Parts of the resolved tree -/

namespace Resolved

/-- A part of a resolved program. -/
inductive Focus where
  | block (body : List Stmt)
  | stmt (stmt : Stmt)
  | branch (branch : Branch)
  | expr (expr : Expr)

/-- The expressions directly inside an expression. -/
def Expr.parts : Expr → List Expr
  | .mk (.int _) _ | .mk (.float _) _ | .mk (.bool _) _ | .mk (.str _) _ | .mk (.entity _) _
  | .mk (.emptyList _) _ => []
  | .mk (.conditional t c a) _ => [t, c, a]
  | .mk (.logical _ es) _ | .mk (.list es) _ => es
  | .mk (.binary _ l r) _ | .mk (.subscript l r) _ => [l, r]
  | .mk (.unary _ e) _ => [e]
  | .mk (.call f es) _ => f :: es

namespace Stmt

/-- The expressions directly inside a statement. -/
def parts : Stmt → List Expr
  | .declare _ e | .step _ e | .returnValue e | .whileLoop e _ | .forEach _ e _ | .eval e => [e]
  | .assign t e => [t, e]
  | .function _ _ _ | .exitLoop | .returnNothing | .branch _ => []

/-- The body of a function or of a loop. -/
def body? : Stmt → Option (List Stmt)
  | .function _ _ body | .whileLoop _ body | .forEach _ _ body => some body
  | _ => none

/-- What a statement declares in a slot. -/
def slot? : Stmt → Slot → Option Entity
  | .declare v _, .self => some (.var v)
  | .function f _ _, .self => some (.func f)
  | .function _ ps _, .parameter k => ps[k]?.map .param
  | .forEach v _ _, .self => some (.var v)
  | _, _ => none

end Stmt

namespace Focus

/-- The expressions directly inside. -/
def parts : Focus → List Expr
  | block _ => []
  | stmt s => s.parts
  | branch (.mk t _ _) => [t]
  | expr e => e.parts

/-- What follows `else`. -/
def ofAlternate? : Alternate → Option Focus
  | .none => none
  | .block body => some (block body)
  | .elseIf next => some (branch next)

/-- The part that a turn leads to. -/
def child? : Focus → Turn → Option Focus
  | f, .part i => f.parts[i]?.map expr
  | block ss, .item i => ss[i]?.map stmt
  | stmt s, .body => s.body?.map block
  | stmt (.branch b), .branch => some (branch b)
  | branch (.mk _ c _), .consequent => some (block c)
  | branch (.mk _ _ a), .alternate => ofAlternate? a
  | _, _ => none

theorem child?_part (g : Focus) (i : Nat) : g.child? (.part i) = g.parts[i]?.map expr := by
  cases g <;> rfl

/-- The part at a place. -/
def at? (root : Focus) : Place → Option Focus
  | [] => some root
  | t :: outer => (root.at? outer).bind fun f => f.child? t

theorem at?_cons {root g : Focus} {here : Place} (h : root.at? here = some g) (t : Turn) :
    root.at? (t :: here) = g.child? t := by
  rw [at?, h, Option.bind_some]

theorem at?_item {root : Focus} {here : Place} {ss : List Stmt}
    (h : root.at? here = some (.block ss)) (j : Nat) (s : Stmt) (hs : ss[j]? = some s) :
    root.at? (.item (0 + j) :: here) = some (.stmt s) := by
  rw [at?_cons h, Nat.zero_add, child?, hs, Option.map_some]

/-- What a turn can lead to. -/
inductive Child : Focus → Turn → Focus → Prop where
  | part {g : Focus} {i : Nat} {e : Expr} (h : g.parts[i]? = some e) : Child g (.part i) (expr e)
  | item {ss : List Stmt} {i : Nat} {s : Stmt} (h : ss[i]? = some s) :
      Child (block ss) (.item i) (stmt s)
  | functionBody {f : Decl.Function} {ps : List Decl.Parameter} {body : List Stmt} :
      Child (stmt (.function f ps body)) .body (block body)
  | whileBody {e : Expr} {body : List Stmt} : Child (stmt (.whileLoop e body)) .body (block body)
  | forBody {v : Decl.Variable} {e : Expr} {body : List Stmt} :
      Child (stmt (.forEach v e body)) .body (block body)
  | branch {b : Branch} : Child (stmt (.branch b)) .branch (branch b)
  | consequent {e : Expr} {c : List Stmt} {a : Alternate} :
      Child (branch (.mk e c a)) .consequent (block c)
  | elseBlock {e : Expr} {c body : List Stmt} :
      Child (branch (.mk e c (.block body))) .alternate (block body)
  | elseIf {e : Expr} {c : List Stmt} {next : Branch} :
      Child (branch (.mk e c (.elseIf next))) .alternate (branch next)

theorem child_of_child? {g g' : Focus} {t : Turn} (h : g.child? t = some g') : g.Child t g' := by
  cases t with
  | part i =>
      rw [child?_part] at h
      obtain ⟨e, he, rfl⟩ := Option.map_eq_some_iff.mp h
      exact .part he
  | item i =>
      cases g with
      | block ss =>
          obtain ⟨s, hs, rfl⟩ := Option.map_eq_some_iff.mp h
          exact .item hs
      | stmt s => cases s <;> cases h
      | branch b => cases b; cases h
      | expr e => cases h
  | body =>
      cases g with
      | stmt s =>
          cases s with
          | function f ps body =>
              cases h
              exact .functionBody
          | whileLoop e body =>
              cases h
              exact .whileBody
          | forEach v e body =>
              cases h
              exact .forBody
          | _ => cases h
      | branch b => cases b; cases h
      | _ => cases h
  | branch =>
      cases g with
      | stmt s =>
          cases s with
          | branch b =>
              cases h
              exact .branch
          | _ => cases h
      | branch b => cases b; cases h
      | _ => cases h
  | consequent =>
      cases g with
      | branch b =>
          cases b
          cases h
          exact .consequent
      | stmt s => cases s <;> cases h
      | _ => cases h
  | alternate =>
      cases g with
      | branch b =>
          obtain ⟨e, c, a⟩ := b
          cases a with
          | none => cases h
          | block body =>
              cases h
              exact .elseBlock
          | elseIf next =>
              cases h
              exact .elseIf
      | stmt s => cases s <;> cases h
      | _ => cases h

/-- What a part declares in a slot; only statements declare something. -/
def slot? : Focus → Slot → Option Entity
  | stmt s, slot => s.slot? slot
  | _, _ => none

/-- What the node at a site declares. -/
def declaredAt? (root : Focus) (site : Site) : Option Entity :=
  (root.at? site.place).bind fun f => f.slot? site.slot

end Focus

end Resolved

/-! ## 4. The declaration that a name belongs to -/

/-- The greatest number below `n` with a property. -/
def nearest (holds : Nat → Bool) : Nat → Option Nat
  | 0 => none
  | n + 1 => if holds n then some n else nearest holds n

/-- The declarations of a name that come into sight when a turn is taken back from the part at
    `here`: in a block, the nearest statement above; around the body of a function, its parameters
    and then the function itself; around the body of a loop, its iterator. -/
def Focus.seek (x : String) (here : Place) : Focus → Turn → Option Site
  | .block ss, .item i =>
      (nearest (fun j => ss[j]?.bind Stmt.declares? == some x) i).map fun j =>
        ⟨.item j :: here, .self⟩
  | .stmt (.function name ps _ _ _), .body =>
      ((nearest (fun k => ps[k]?.map Parameter.name == some x) ps.length).map fun k =>
        ⟨here, .parameter k⟩).or (if x = name then some ⟨here, .self⟩ else none)
  | .stmt (.forEach iterator _ _ _), .body => if x = iterator then some ⟨here, .self⟩ else none
  | _, _ => none

/-- The declaration in a program that a name at a place belongs to: the first one that comes into
    sight on the way out. -/
def designated (p : Program) (x : String) : Place → Option Site
  | [] => none
  | t :: outer =>
      (((Focus.block p).at? outer).bind fun f => f.seek x outer t).or (designated p x outer)

/-- What a designation stands for: what the site declares, and the entry of the catalog where the
    program declares nothing. -/
def meaning (c : Catalog) (R : Resolved.Program) (x : String) (site : Option Site) :
    Option Entity :=
  site.elim (c.get? x) (Resolved.Focus.block R).declaredAt?

end Sema
