/-!
# Positions in source text

A `Location` is a line, a column and an offset into the text; a `Span` is the region between two
locations and is carried by every node of a syntax tree. A span reads in two ways:

* as text, `line:column-line:column` (`Span.text`), which leaves the offsets out;
* as an `Extent`, where it begins in the text and how long it is (`Span.extent`), which leaves the
  lines and columns out. A span that ends before it starts has length zero.
-/

namespace Sema

/-- A position in source text. -/
structure Location where
  line : UInt64
  column : UInt64
  offset : UInt64
deriving DecidableEq, Inhabited

namespace Location

/-- The start of the input, where nothing is known about lines. -/
def origin : Location := ⟨0, 0, 0⟩

/-- A position known by its offset only. -/
def ofOffset (offset : UInt64) : Location := ⟨0, 0, offset⟩

/-- The text of a position: `line:column`. -/
def text (l : Location) : String :=
  toString l.line.toNat ++ ":" ++ toString l.column.toNat

end Location

/-- A region of source text. -/
structure Span where
  start : Location
  stop : Location
deriving DecidableEq, Inhabited

/-- A region by its first offset and its length. -/
structure Extent where
  offset : Nat
  length : Nat
deriving DecidableEq

namespace Span

/-- The span of a node that was not read from source text. -/
def origin : Span := ⟨.origin, .origin⟩

/-- A span known by its offsets only. -/
def ofOffsets (start stop : UInt64) : Span := ⟨.ofOffset start, .ofOffset stop⟩

/-- The text of a span: `line:column-line:column`. -/
def text (s : Span) : String :=
  s.start.text ++ "-" ++ s.stop.text

/-- Where a span begins and how long it is; a span that ends before it starts is empty. -/
def extent (s : Span) : Extent :=
  ⟨s.start.offset.toNat, s.stop.offset.toNat - s.start.offset.toNat⟩

end Span

end Sema
