import Sema.Project.Path

/-!
# File systems

A file system is a tree of directories and files together with the current directory. A path is
followed segment by segment from the root or from the current directory; two dots lead to the
directory above, so a path means something only where the directories it names exist.

The current directory may be removed. It then still is a directory, with a directory above it, but
holds nothing and has no path, and nothing that is made later under its name brings it back. A
`Position` therefore keeps the names that lead to what is left, and how far below that it lies.

The tree has directories and files only. Links are left out, and so are permissions; names are
texts, so names whose bytes are no text are left out as well. What the search for a configuration
needs from files is less than a tree, and is had from any source that has it (`FileView`).
-/

namespace Sema

/-- A file or a directory. -/
inductive FileNode where
  | file (bytes : ByteArray)
  | directory (entries : List (String × FileNode))
deriving Inhabited

namespace FileNode

/-- The node at the end of a list of names. -/
def get? (node : FileNode) : List String → Option FileNode
  | [] => some node
  | name :: names =>
      match node with
      | .file _ => none
      | .directory entries =>
          match entries.lookup name with
          | some next => next.get? names
          | none => none

/-- Gives a name inside a directory another node, or none. -/
def setEntry (entries : List (String × FileNode)) (name : String) :
    Option FileNode → List (String × FileNode)
  | some node => (name, node) :: entries.filter (fun e => e.1 != name)
  | none => entries.filter (fun e => e.1 != name)

/-- Puts a node, or none, at the end of a list of names. -/
def set (node : FileNode) (new : Option FileNode) : List String → FileNode
  | [] => new.getD node
  | name :: names =>
      match node with
      | .file bytes => .file bytes
      | .directory entries =>
          match names with
          | [] => .directory (setEntry entries name new)
          | _ =>
              match entries.lookup name with
              | some next => .directory (setEntry entries name (some (next.set new names)))
              | none => .directory entries

end FileNode

/-- Why a file operation fails. -/
inductive FileError where
  | notFound
  | notDirectory
  | isDirectory
  | alreadyExists
  | notEmpty
  | nameTooLong
  | notAllowed
deriving DecidableEq

/-- A place at or below a node of the tree: `names` lead to the node, and `lost` directories lie
    between it and the place, the place included, that have been removed. -/
structure Position where
  names : List String
  lost : Nat
deriving DecidableEq, Inhabited

namespace Position

/-- The position one directory up; above the root is the root. -/
def up (p : Position) : Position :=
  match p.lost with
  | 0 => ⟨p.names.dropLast, 0⟩
  | n + 1 => ⟨p.names, n⟩

/-- A position after the directory at `names` has been removed. -/
def without (p : Position) (names : List String) : Position :=
  if names.isPrefixOf p.names then
    ⟨names.dropLast, p.lost + (p.names.length + 1 - names.length)⟩
  else p

end Position

/-- A tree of files, and the current directory. -/
structure FileSystem where
  root : FileNode
  current : Position

namespace FileSystem

/-- How many bytes a name may have. -/
def maxName : Nat := 255

/-- How many bytes a path may have. -/
def maxPath : Nat := 4095

/-! ## 1. Following paths -/

/-- The node at a position; a removed directory is empty. -/
def node? (fs : FileSystem) (p : Position) : Option FileNode :=
  if p.lost = 0 then fs.root.get? p.names else some (.directory [])

/-- The position one segment further, which has to start from a directory. -/
def follow (fs : FileSystem) (p : Position) (segment : String) : Except FileError Position :=
  match fs.node? p with
  | none => .error .notFound
  | some (.file _) => .error .notDirectory
  | some (.directory entries) =>
      if Path.isIdle segment then .ok p
      else if segment = ".." then .ok p.up
      else if maxName < segment.utf8ByteSize then .error .nameTooLong
      else
        match entries.lookup segment with
        | some _ => .ok ⟨p.names ++ [segment], 0⟩
        | none => .error .notFound

/-- The position after several segments. -/
def followAll (fs : FileSystem) (p : Position) : List String → Except FileError Position
  | [] => .ok p
  | s :: ss => do fs.followAll (← fs.follow p s) ss

/-- Where a path starts, and the segments to follow. -/
def origin (fs : FileSystem) (path : Path) : Position × List String :=
  if path.isAbsolute then (⟨[], 0⟩, path.rest) else (fs.current, path.first :: path.rest)

/-- Refuses texts that no path can have. -/
def admissible (path : Path) : Except FileError Unit :=
  if path = .empty then .error .notFound
  else if path.text.toList.contains '\x00' then .error .notAllowed
  else if maxPath < path.text.utf8ByteSize then .error .nameTooLong
  else .ok ()

/-- The position that a path leads to. -/
def locate (fs : FileSystem) (path : Path) : Except FileError Position := do
  admissible path
  let (start, segments) := fs.origin path
  fs.followAll start segments

/-- The node that a path leads to. -/
def find? (fs : FileSystem) (path : Path) : Option FileNode :=
  match fs.locate path with
  | .ok p => fs.node? p
  | .error _ => none

/-- Whether there is something at a path. -/
def isPresent (fs : FileSystem) (path : Path) : Bool := (fs.find? path).isSome

/-- Whether there is a directory at a path. -/
def isDirectory (fs : FileSystem) (path : Path) : Bool :=
  match fs.find? path with
  | some (.directory _) => true
  | _ => false

/-- The bytes of the file at a path. -/
def bytes? (fs : FileSystem) (path : Path) : Option ByteArray :=
  match fs.find? path with
  | some (.file bytes) => some bytes
  | _ => none

/-- The text of the file at a path, if its bytes are the encoding of one. -/
def readText? (fs : FileSystem) (path : Path) : Option String := do
  String.fromUTF8? (← fs.bytes? path)

/-- The path of the current directory, unless that has been removed. -/
def currentPath? (fs : FileSystem) : Option Path :=
  if fs.current.lost = 0 then
    if fs.current.names.isEmpty then some .root else some ⟨"", fs.current.names⟩
  else none

/-! ## 2. Changing the tree -/

/-- The last name of a path and the directory that holds it. A slash at the end is allowed when
    `slash` is set. -/
def holder (fs : FileSystem) (path : Path) (slash : Bool) :
    Except FileError (Position × String) := do
  admissible path
  let (start, segments) := fs.origin path
  match segments.reverse.dropWhile (· = "") with
  | [] => .error .alreadyExists
  | last :: before =>
      let p ← fs.followAll start before.reverse
      match ← fs.node? p |>.elim (.error .notFound) .ok with
      | .file _ => .error .notDirectory
      | .directory _ =>
          if !slash && segments.getLast? = some "" then .error .isDirectory else .ok (p, last)

/-- Makes one directory. -/
def makeDirectory (fs : FileSystem) (path : Path) : Except FileError FileSystem := do
  let (p, name) ← fs.holder path true
  if name = "." ∨ name = ".." then .error .alreadyExists
  else
    match fs.follow p name with
    | .ok _ => .error .alreadyExists
    | .error .notFound =>
        if p.lost = 0 then
          .ok { fs with root := fs.root.set (some (.directory [])) (p.names ++ [name]) }
        else .error .notFound
    | .error e => .error e

/-- Makes a directory and those above it that are missing, for a path and its parents. What was made
    before a failure stays. -/
def makeDirectoriesOf (fs : FileSystem) : List Path → FileSystem × Bool
  | [] => (fs, false)
  | path :: above =>
      if path = .empty then (fs, true)
      else
        match fs.makeDirectory path with
        | .ok made => (made, true)
        | .error .notFound =>
            match fs.makeDirectoriesOf above with
            | (fs, false) => (fs, false)
            | (fs, true) =>
                match fs.makeDirectory path with
                | .ok made => (made, true)
                | .error _ => (fs, fs.isDirectory path)
        | .error _ => (fs, fs.isDirectory path)

/-- Makes a directory and those above it that are missing. -/
def makeDirectories (fs : FileSystem) (path : Path) : FileSystem × Bool :=
  fs.makeDirectoriesOf path.upward

/-- Removes an empty directory, which may be the current one. -/
def removeDirectory (fs : FileSystem) (path : Path) : Except FileError FileSystem := do
  let (p, name) ← fs.holder path true
  if name = "." then .error .notAllowed
  else if name = ".." then .error .notEmpty
  else
    let target ← fs.follow p name
    match fs.node? target with
    | some (.directory []) =>
        .ok ⟨fs.root.set none target.names, fs.current.without target.names⟩
    | some (.directory _) => .error .notEmpty
    | _ => .error .notDirectory

/-- Writes a file, in place of the one that was there. -/
def writeFile (fs : FileSystem) (path : Path) (bytes : ByteArray) :
    Except FileError FileSystem := do
  let (p, name) ← fs.holder path false
  if name = "." ∨ name = ".." then .error .isDirectory
  else
    match fs.follow p name with
    | .ok target =>
        match fs.node? target with
        | some (.file _) => .ok { fs with root := fs.root.set (some (.file bytes)) target.names }
        | _ => .error .isDirectory
    | .error .notFound =>
        if p.lost = 0 then
          .ok { fs with root := fs.root.set (some (.file bytes)) (p.names ++ [name]) }
        else .error .notFound
    | .error e => .error e

/-- Makes another directory the current one. -/
def changeDirectory (fs : FileSystem) (path : Path) : Except FileError FileSystem := do
  let p ← fs.locate path
  match fs.node? p with
  | some (.directory _) => .ok { fs with current := p }
  | _ => .error .notDirectory

end FileSystem

/-- What can be asked about files without regard to how they are kept: whether there is something at
    a path, and the text of the file there. -/
structure FileView where
  isPresent : Path → Bool
  readText? : Path → Option String

/-- What a file system answers. -/
@[coe] def FileSystem.view (fs : FileSystem) : FileView := ⟨fs.isPresent, fs.readText?⟩

instance : Coe FileSystem FileView := ⟨FileSystem.view⟩

@[simp] theorem FileSystem.readText?_view (fs : FileSystem) (path : Path) :
    (fs : FileView).readText? path = fs.readText? path := rfl

end Sema
