/-!
Dates of the Gregorian calendar and moments of a day, with or without an offset from UTC.
-/
namespace RowModel

structure Date where
  year : Nat
  month : Nat
  day : Nat
  deriving DecidableEq, Repr

namespace Date

def isLeap (year : Nat) : Bool :=
  decide (year % 4 = 0) && (decide (year % 100 ≠ 0) || decide (year % 400 = 0))

def monthLengths (year : Nat) : List Nat :=
  [31, if isLeap year then 29 else 28, 31, 30, 31, 30, 31, 31, 30, 31, 30, 31]

/-- The date with these parts, if the calendar has it. Years have at most four digits. -/
def ofParts? (year month day : Nat) : Option Date :=
  if 1 ≤ year ∧ year ≤ 9999 ∧ 1 ≤ month ∧ 1 ≤ day ∧
      day ≤ ((monthLengths year)[month - 1]?).getD 0 then
    some ⟨year, month, day⟩
  else none

/-- Days since the day before the first of January of the year 1. -/
def ordinal (d : Date) : Nat :=
  let before := d.year - 1
  before * 365 + before / 4 - before / 100 + before / 400 +
    ((monthLengths d.year).take (d.month - 1)).foldl (· + ·) 0 + d.day

example : ofParts? 2000 2 29 = some ⟨2000, 2, 29⟩ := by decide
example : ofParts? 1900 2 29 = none := by decide
example : ofParts? 2001 13 1 = none := by decide

end Date

/-- A date with a time of day. `offset` is in minutes east of UTC; without it the moment belongs to
no particular place. -/
structure Moment where
  date : Date
  hour : Nat
  minute : Nat
  second : Nat
  micro : Nat
  offset : Option Int
  deriving DecidableEq, Repr

namespace Moment

/-- The moment with these parts, if the clock has it and the offset is less than a day. -/
def ofParts? (date : Date) (hour minute second micro : Nat) (offset : Option Int) :
    Option Moment :=
  if hour < 24 ∧ minute < 60 ∧ second < 60 ∧ micro < 1000000 ∧
      offset.all (fun o => decide (o.natAbs < 1440)) then
    some ⟨date, hour, minute, second, micro, offset⟩
  else none

/-- Microseconds on the clock of the place, from a fixed start. -/
def localMicros (t : Moment) : Int :=
  (((t.date.ordinal * 24 + t.hour) * 60 + t.minute) * 60 + t.second) * 1000000 + t.micro

/-- Moments with an offset are equal when they are the same instant; one with an offset never equals
one without. -/
def same (s t : Moment) : Bool :=
  match s.offset, t.offset with
  | none, none => s.localMicros == t.localMicros
  | some a, some b => s.localMicros - a * 60000000 == t.localMicros - b * 60000000
  | _, _ => false

end Moment

end RowModel
