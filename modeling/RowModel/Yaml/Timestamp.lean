import RowModel.Calendar
import RowModel.Text.Digit
import RowModel.Yaml.Fault

/-!
Dates and moments as scalars write them. A date alone has two digits for month and day where it is
to be recognised without a tag; with a time, one digit is enough.
-/
namespace RowModel.Yaml

/-- The parts of a written time; `zone` is the offset in minutes. -/
structure ClockText where
  hour : Nat
  minute : Nat
  second : Nat
  fraction : List Char
  zone : Option Int
  deriving DecidableEq, Repr

/-- The parts of a written date. `fullDate` when month and day have two digits. -/
structure Timestamp where
  year : Nat
  month : Nat
  day : Nat
  fullDate : Bool
  clock : Option ClockText
  deriving DecidableEq, Repr

namespace Timestamp

/-- Exactly `n` digits. -/
def digits? (n : Nat) (s : List Char) : Option (Nat × List Char) :=
  let ds := s.take n
  if ds.length = n ∧ ds.all Char.isDigit then some (Text.decimalValue ds, s.drop n) else none

/-- Two digits or, if there is only one, one. -/
def shortNumber? (s : List Char) : Option (Nat × List Char) :=
  (digits? 2 s).orElse fun _ => digits? 1 s

def char? (c : Char) : List Char → Option (List Char)
  | [] => none
  | d :: r => if d = c then some r else none

def skipSpaces (s : List Char) : List Char := s.dropWhile fun c => c == ' ' || c == '\t'

def zone? (s : List Char) : Option (Option Int) :=
  match s with
  | [] => some none
  | _ =>
    match skipSpaces s with
    | ['Z'] => some (some 0)
    | sign :: r =>
      if sign = '+' ∨ sign = '-' then do
        let (hours, r) ← shortNumber? r
        let minutes ← match r with
          | [] => some 0
          | ':' :: r => do
            let (m, r) ← digits? 2 r
            if r.isEmpty then some m else none
          | _ => none
        let offset : Int := hours * 60 + minutes
        some (some (if sign = '-' then -offset else offset))
      else none
    | [] => none

def clock? (s : List Char) : Option ClockText := do
  let (hour, r) ← shortNumber? s
  let (minute, r) ← digits? 2 (← char? ':' r)
  let (second, r) ← digits? 2 (← char? ':' r)
  let (fraction, r) := match r with
    | '.' :: r => (r.takeWhile Char.isDigit, r.dropWhile Char.isDigit)
    | _ => ([], r)
  let zone ← zone? r
  return { hour, minute, second, fraction, zone }

def separated? (s : List Char) : Option (List Char) :=
  match s with
  | c :: r => if c = 'T' ∨ c = 't' then some r
    else if c = ' ' ∨ c = '\t' then some (skipSpaces r) else none
  | [] => none

def parse? (s : List Char) : Option Timestamp := do
  let (year, r) ← digits? 4 s
  let afterYear ← char? '-' r
  let (month, r) ← shortNumber? afterYear
  let afterMonth ← char? '-' r
  let (day, r) ← shortNumber? afterMonth
  let fullDate := afterYear.length = r.length + 5
  match r with
  | [] => return { year, month, day, fullDate, clock := none }
  | _ =>
    let clock ← clock? (← separated? r)
    return { year, month, day, fullDate, clock := some clock }

def isRecognised (t : Timestamp) : Bool := t.clock.isSome || t.fullDate

/-- Microseconds from the digits after the point; more than six are cut off. -/
def micros (fraction : List Char) : Nat :=
  Text.decimalValue ((fraction ++ List.replicate 6 '0').take 6)

def date? (t : Timestamp) : Option Date := Date.ofParts? t.year t.month t.day

def moment? (t : Timestamp) (c : ClockText) : Option Moment := do
  let date ← t.date?
  Moment.ofParts? date c.hour c.minute c.second (micros c.fraction) c.zone

example : (parse? "2001-1-2".toList).map (·.isRecognised) = some false := by decide
example : (parse? "2001-01-02 3:04:05.6 -1:30".toList).bind (·.clock) =
    some ⟨3, 4, 5, ['6'], some (-90)⟩ := by decide

end Timestamp

end RowModel.Yaml
