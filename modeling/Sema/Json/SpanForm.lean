import Sema.Json.Value
import Sema.Span

/-!
# The JSON form of positions

A location is an object with the fields `line`, `column` and `offset`, or the array of these three
in order; a span is an object with the fields `start` and `end`, or the array of these two. Each
number is an integer from 0 to 2^64 - 1. Further fields are ignored, and a field that occurs twice
is refused.
-/

namespace Sema

/-- The count that a value is a form of: an integer that fits into 64 bits. -/
def countOfJson? : Json → Option UInt64
  | .int n => if 0 ≤ n ∧ n < UInt64.size then some (UInt64.ofNat n.toNat) else none
  | _ => none

/-- The form of a count. -/
def countToJson (n : UInt64) : Json := .int n.toNat

namespace Location

/-- The canonical form of a location. -/
def toJson (l : Location) : Json :=
  .object [("line", countToJson l.line), ("column", countToJson l.column),
    ("offset", countToJson l.offset)]

/-- The location with three given parts. -/
def ofParts? (line column offset : Json) : Option Location := do
  return ⟨← countOfJson? line, ← countOfJson? column, ← countOfJson? offset⟩

/-- The location that a value is a form of. -/
def ofJson? : Json → Option Location
  | .array [line, column, offset] => ofParts? line column offset
  | .object fields => do
      ofParts? (← Json.field? "line" fields) (← Json.field? "column" fields)
        (← Json.field? "offset" fields)
  | _ => none

end Location

namespace Span

/-- The canonical form of a span. -/
def toJson (s : Span) : Json :=
  .object [("start", s.start.toJson), ("end", s.stop.toJson)]

/-- The span with two given ends. -/
def ofParts? (start stop : Json) : Option Span := do
  return ⟨← Location.ofJson? start, ← Location.ofJson? stop⟩

/-- The span that a value is a form of. -/
def ofJson? : Json → Option Span
  | .array [start, stop] => ofParts? start stop
  | .object fields => do
      ofParts? (← Json.field? "start" fields) (← Json.field? "end" fields)
  | _ => none

end Span

end Sema
