/-!
# Paths

A path is a text of segments with slashes between them. It is absolute when it starts with a slash;
then its first segment is empty. Empty segments and dots after the first segment do not count as
steps of a path.

The parents of a path are found on the text alone (`Path.parents`): each drops the last step and
whatever does not count before it. The parent of a single relative step is the empty path, and
neither the empty path nor the root has a parent. Two dots are a step like any other here.
-/

namespace Sema

/-- A path by the segments of its text. -/
structure Path where
  first : String
  rest : List String
deriving DecidableEq, Inhabited

namespace Path

/-- The segments between slashes. -/
def segments : List Char → List (List Char)
  | [] => [[]]
  | c :: r =>
      if c = '/' then [] :: segments r
      else
        match segments r with
        | s :: ss => (c :: s) :: ss
        | [] => [[c]]

/-- The path with a given text. -/
def ofString (text : String) : Path :=
  match (segments text.toList).map String.ofList with
  | [] => ⟨"", []⟩
  | s :: ss => ⟨s, ss⟩

/-- The segments, each with a slash before it. -/
def textOf : List String → String
  | [] => ""
  | s :: ss => "/" ++ s ++ textOf ss

/-- The text of a path. -/
def text (p : Path) : String := p.first ++ textOf p.rest

/-- The empty path. -/
def empty : Path := ⟨"", []⟩

/-- The root of the file system. -/
def root : Path := ⟨"", [""]⟩

/-- Whether a path starts at the root. -/
def isAbsolute (p : Path) : Bool := p.first = "" && !p.rest.isEmpty

/-- A segment that is no step of its own. -/
def isIdle (segment : String) : Bool := segment = "" || segment = "."

/-- A name inside a directory. A directory whose text is empty or ends with a slash gets no other
    slash. -/
def child (p : Path) (name : String) : Path :=
  if p = empty then ⟨name, []⟩
  else
    match p.rest.getLast? with
    | some "" => ⟨p.first, p.rest.dropLast ++ [name]⟩
    | _ => ⟨p.first, p.rest ++ [name]⟩

/-- The path of a first segment and further segments in reverse, what does not count at the end left
    out. -/
def upTo (first : String) (reversed : List String) : Path :=
  match reversed.dropWhile isIdle with
  | [] => if first = "" then root else ⟨first, []⟩
  | s :: ss => ⟨first, (s :: ss).reverse⟩

/-- The parents, the nearest first, of a first segment and further segments in reverse. -/
def parentsOf (first : String) : List String → List Path
  | [] => if first = "" then [] else [empty]
  | s :: ss => if isIdle s then parentsOf first ss else upTo first ss :: parentsOf first ss

/-- The parents of a path, the nearest first. -/
def parents (p : Path) : List Path := parentsOf p.first p.rest.reverse

/-- The nearest parent. -/
def parent? (p : Path) : Option Path := p.parents.head?

/-- A path and its parents. -/
def upward (p : Path) : List Path := p :: p.parents

/-! ## The text of a path -/

theorem segments_ne_nil : ∀ cs : List Char, segments cs ≠ []
  | [] => by simp [segments]
  | c :: r => by
      unfold segments
      split
      · simp
      · split <;> simp

theorem toList_textOf_segments : ∀ (cs : List Char) (s : List Char) (ss : List (List Char)),
    segments cs = s :: ss → s ++ (textOf (ss.map String.ofList)).toList = cs
  | [], s, ss, h => by
      obtain ⟨rfl, rfl⟩ := List.cons.inj h
      rfl
  | c :: r, s, ss, h => by
      cases hr : segments r with
      | nil => exact absurd hr (segments_ne_nil r)
      | cons t ts =>
          have ih := toList_textOf_segments r t ts hr
          unfold segments at h
          rw [hr] at h
          split at h
          · rename_i hc
            obtain ⟨rfl, rfl⟩ := List.cons.inj h
            simp [textOf, hc, ih]
          · obtain ⟨rfl, rfl⟩ := List.cons.inj h
            simp [ih]

/-- **A path has the text it was made from.** -/
theorem text_ofString (text : String) : (ofString text).text = text := by
  unfold ofString
  cases h : segments text.toList with
  | nil => exact absurd h (segments_ne_nil _)
  | cons s ss =>
      have hs := toList_textOf_segments _ s ss h
      apply String.toList_injective
      simpa [Path.text] using hs

end Path

end Sema
