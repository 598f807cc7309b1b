import Sema.Toml.Number

/-!
# Reading dates and times

A moment is a date, a time, or a date and a time with a `T` or a space between them and possibly an
offset from universal time after them. Dates have to exist in the calendar; a minute may have a leap
second. Every reader yields what is left of the text.
-/

namespace Sema.Toml

/-- Exactly `n` decimal digits. -/
def fixedDigits (n : Nat) : Reader Nat := fun cs =>
  let ds := cs.take n
  if ds.length = n ∧ ds.all isDecimal then some (valueOf 10 ds, cs.drop n) else none

/-- Two digits for a number in a range. -/
def twoDigits (least most : Nat) : Reader Nat := fun cs => do
  let (n, r) ← fixedDigits 2 cs
  if least ≤ n ∧ n ≤ most then some (n, r) else none

/-- A given character. -/
def mark (c : Char) : List Char → Option (List Char)
  | d :: r => if c = d then some r else none
  | [] => none

/-- The number of days in a month. -/
def daysIn (year month : Nat) : Nat :=
  if month = 2 then
    if year % 4 = 0 ∧ (year % 100 ≠ 0 ∨ year % 400 = 0) then 29 else 28
  else if month = 4 ∨ month = 6 ∨ month = 9 ∨ month = 11 then 30
  else 31

/-- A date. -/
def date (cs : List Char) : Option (List Char) := do
  let (year, cs) ← fixedDigits 4 cs
  let cs ← mark '-' cs
  let (month, cs) ← twoDigits 1 12 cs
  let cs ← mark '-' cs
  let (day, cs) ← twoDigits 1 31 cs
  if day ≤ daysIn year month then some cs else none

/-- The fraction of a second, if there is one. -/
def dropFraction : List Char → List Char
  | '.' :: r =>
      if (r.takeWhile isDecimal).isEmpty then '.' :: r else r.dropWhile isDecimal
  | cs => cs

/-- A time. -/
def time (cs : List Char) : Option (List Char) := do
  let (_, cs) ← twoDigits 0 23 cs
  let cs ← mark ':' cs
  let (_, cs) ← twoDigits 0 59 cs
  let cs ← mark ':' cs
  let (_, cs) ← twoDigits 0 60 cs
  return dropFraction cs

/-- An offset from universal time, if there is one that is written completely. -/
def dropOffset : List Char → List Char
  | [] => []
  | c :: r =>
      if c = 'Z' ∨ c = 'z' then r
      else if c = '+' ∨ c = '-' then
        let rest := do
          let (_, cs) ← twoDigits 0 23 r
          let cs ← mark ':' cs
          let (_, cs) ← twoDigits 0 59 cs
          return cs
        rest.getD (c :: r)
      else c :: r

/-- The time after a date, if there is one. -/
def dropTimeOfDay : List Char → List Char
  | [] => []
  | c :: r =>
      if c = 'T' ∨ c = 't' ∨ c = ' ' then
        match time r with
        | some rest => dropOffset rest
        | none => c :: r
      else c :: r

/-- A date, a date and a time, or a time. -/
def moment (cs : List Char) : Option (List Char) :=
  match date cs with
  | some rest => some (dropTimeOfDay rest)
  | none => time cs

end Sema.Toml
