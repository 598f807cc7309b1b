import Sema.Ty.Assign

/-!
# Entities

What a name can denote: a variable, a function, a parameter, or a type. The first three come from a
declaration and carry its identity; two references denote the same declaration exactly when
`Entity.is` holds. Content is another matter: `Entity.agrees` compares what was declared and leaves
identities out.
-/

namespace Sema

/-- Which declaration an entity comes from. -/
inductive Identity where
  /-- An entry of a catalog, by its place. -/
  | library (place : Nat)
  /-- A declaration met during analysis, by its number. -/
  | program (serial : Nat)
deriving DecidableEq, Inhabited

/-- The first number above that of a declaration met during analysis. -/
def Identity.next : Identity → Nat
  | library _ => 0
  | program serial => serial + 1

namespace Decl

/-- A variable, a constant or the iterator of a loop. -/
structure Variable where
  identity : Identity
  name : String
  readOnly : Bool
  ty : Ty
deriving DecidableEq, Inhabited

/-- A function. -/
structure Function where
  identity : Identity
  name : String
  signature : Signature
deriving DecidableEq, Inhabited

/-- A parameter, which can be assigned to inside its function. -/
structure Parameter where
  identity : Identity
  name : String
  ty : Ty
deriving DecidableEq, Inhabited

/-- Equal but for identity. -/
def Variable.agrees (v w : Variable) : Bool :=
  v.name == w.name && v.readOnly == w.readOnly && v.ty == w.ty

/-- Equal but for identity. -/
def Function.agrees (f g : Function) : Bool :=
  f.name == g.name && f.signature == g.signature

/-- Equal but for identity. -/
def Parameter.agrees (p q : Parameter) : Bool :=
  p.name == q.name && p.ty == q.ty

end Decl

/-- What a name denotes. -/
inductive Entity where
  | var (declared : Decl.Variable)
  | func (declared : Decl.Function)
  | param (declared : Decl.Parameter)
  /-- A type such as `int`. -/
  | type (meaning : Ty)
deriving DecidableEq, Inhabited

namespace Entity

/-- The type of an entity used as a value. -/
def ty : Entity → Ty
  | var v => v.ty
  | func f => f.signature.ty
  | param p => p.ty
  | type _ => .type

/-- The declared name; a type has its spelling as a name. -/
def name : Entity → String
  | var v => v.name
  | func f => f.name
  | param p => p.name
  | type t => t.text

/-- Which declaration an entity comes from; a type comes from none. -/
def identity? : Entity → Option Identity
  | var v => some v.identity
  | func f => some f.identity
  | param p => some p.identity
  | type _ => none

/-- Only variables can be read-only. -/
def isReadOnly : Entity → Bool
  | var v => v.readOnly
  | _ => false

/-- Both denote the same declaration, or are equivalent types. -/
def is : Entity → Entity → Bool
  | var v, var w => v.identity == w.identity
  | func f, func g => f.identity == g.identity
  | param p, param q => p.identity == q.identity
  | type t, type u => t.same u
  | _, _ => false

/-- Both are declared alike, whichever declarations they come from. -/
def agrees : Entity → Entity → Bool
  | var v, var w => v.agrees w
  | func f, func g => f.agrees g
  | param p, param q => p.agrees q
  | type t, type u => t == u
  | _, _ => false

/-- The text of an entity: `name: type`, or the spelling of a type. -/
def text : Entity → String
  | type t => t.text
  | e => e.name ++ ": " ++ e.ty.text

end Entity

end Sema
