import RowModel.Decimal.Layout
import RowModel.Machine
import RowModel.Text.Digit
import RowModel.Text.Quoted

/-!
The text of a value: as it stands (a string is its own text) and as it stands inside a message or
another value (a string is quoted, a date names its parts). A whole number that is too long has no
text, and neither has a value that holds one. Each collection that is written takes a nested call, of
which a machine has only so many.
-/
namespace RowModel

/-- Exponents from -4 to 15 are written out, others have a sign and at least two digits. -/
def floatLayout : Decimal.Layout := ⟨-4, 16, 2, "inf", "nan"⟩

def padded (width n : Nat) : String :=
  let s := toString n
  Decimal.Layout.zeros (width - s.length) ++ s

namespace Date

def text (d : Date) : String := padded 4 d.year ++ "-" ++ padded 2 d.month ++ "-" ++ padded 2 d.day

end Date

namespace Moment

def offsetText (o : Int) : String :=
  (if o < 0 then "-" else "+") ++ padded 2 (o.natAbs / 60) ++ ":" ++ padded 2 (o.natAbs % 60)

/-- Date and time with `gap` between them; the fraction is left out when it is zero. -/
def text (gap : String) (t : Moment) : String :=
  t.date.text ++ gap ++ padded 2 t.hour ++ ":" ++ padded 2 t.minute ++ ":" ++ padded 2 t.second ++
    (if t.micro = 0 then "" else "." ++ padded 6 t.micro) ++
    (match t.offset with
      | none => ""
      | some o => offsetText o)

/-- The offset as whole days rounded down and the seconds left. -/
def zoneText (o : Int) : String :=
  if o = 0 then "datetime.timezone.utc"
  else
    let days := o / 1440
    let seconds := o % 1440 * 60
    let parts := (if days = 0 then [] else ["days=" ++ toString days]) ++
      (if seconds = 0 then [] else ["seconds=" ++ toString seconds])
    "datetime.timezone(datetime.timedelta(" ++ ", ".intercalate parts ++ "))"

/-- How deep the values are that write a zone: the zone, and its offset inside unless it is zero. -/
def zoneDepth (t : Moment) : Nat :=
  match t.offset with
  | none => 0
  | some o => if o = 0 then 1 else 2

/-- The parts of the time; zero microseconds, and zero seconds before them, are left out. -/
def partsText (t : Moment) : String :=
  let tail := if t.micro ≠ 0 then [t.second, t.micro] else if t.second ≠ 0 then [t.second] else []
  let parts := [t.date.year, t.date.month, t.date.day, t.hour, t.minute] ++ tail
  let zone := match t.offset with
    | none => ""
    | some o => ", tzinfo=" ++ zoneText o
  "datetime.datetime(" ++ ", ".intercalate (parts.map toString) ++ zone ++ ")"

theorem partsText_ne_empty (t : Moment) : t.partsText ≠ "" := by
  intro h
  exact absurd (String.append_eq_empty_iff.mp h).2 (by decide)

end Moment

/-- Bytes between quotes; what is not printable ASCII is escaped. -/
def bytesText (bs : List UInt8) : String :=
  let cs := bs.map fun b => Char.ofNat b.toNat
  let quote := Text.quoteFor cs
  let shown (c : Char) :=
    if c.toNat < 0x7F then Text.escape quote c else '\\' :: 'x' :: Text.hex 2 c.toNat
  String.ofList ('b' :: quote :: cs.flatMap shown ++ [quote])

namespace Value

def wholeText? (n : Int) : Option String :=
  if n.natAbs < Nat.pow 10 Text.digitLimit then some (toString n) else none

theorem wholeText?_ne_empty {n : Int} : wholeText? n ≠ some "" := by
  rw [wholeText?]
  split
  · cases n <;> simp [toString, Int.repr]
  · simp

section

variable [Machine]

mutual
/-- A value as it stands inside a message or another value, if all numbers in it have a text. The
machine decides in which order the members of a set are written. -/
def inner? : Value → Option String
  | null => some "None"
  | bool b => some (if b then "True" else "False")
  | int n => wholeText? n
  | float x => some (floatLayout.text x)
  | nan _ => some floatLayout.nan
  | str s => some (String.ofList (Text.quoted s.toList))
  | bytes bs => some (bytesText bs)
  | date d =>
    some ("datetime.date(" ++ ", ".intercalate ([d.year, d.month, d.day].map toString) ++ ")")
  | moment t => some t.partsText
  | list items => do return "[" ++ ", ".intercalate (← innerItems? items) ++ "]"
  | map entries => do return "\x7b" ++ ", ".intercalate (← innerEntries? entries) ++ "\x7d"
  | set [] => some "set()"
  | set (v :: r) => do
    let texts ← innerItems? (v :: r)
    return "\x7b" ++ ", ".intercalate (Machine.order (v :: r) texts) ++ "\x7d"
  | pair v w => do return "(" ++ (← inner? v) ++ ", " ++ (← inner? w) ++ ")"
def innerItems? : List Value → Option (List String)
  | [] => some []
  | v :: r => do return (← inner? v) :: (← innerItems? r)
def innerEntries? : List (Value × Value) → Option (List String)
  | [] => some []
  | (k, v) :: r => do return ((← inner? k) ++ ": " ++ (← inner? v)) :: (← innerEntries? r)
end

mutual
/-- Writing a value goes deeper than `n` collections before it meets a number without a text. A set
is written as a list, and the zone of a moment as a value that has a value inside. -/
def exceeds : Nat → Value → Bool
  | n, moment t => decide (n < t.zoneDepth)
  | n, list items => !items.isEmpty && (n == 0 || itemsExceed (n - 1) items)
  | n, map entries => !entries.isEmpty && (n == 0 || entriesExceed (n - 1) entries)
  | n, set items => !items.isEmpty && (decide (n < 2) || itemsExceed (n - 2) items)
  | n, pair v w => n == 0 || exceeds (n - 1) v || v.inner?.isSome && exceeds (n - 1) w
  | _, _ => false
def itemsExceed : Nat → List Value → Bool
  | _, [] => false
  | n, v :: r => exceeds n v || v.inner?.isSome && itemsExceed n r
def entriesExceed : Nat → List (Value × Value) → Bool
  | _, [] => false
  | n, (k, v) :: r =>
    exceeds n k || k.inner?.isSome && (exceeds n v || v.inner?.isSome && entriesExceed n r)
end

def text? : Value → Option String
  | str s => some s
  | date d => some d.text
  | moment t => some (t.text " ")
  | v => v.inner?

def textExceeds (n : Nat) : Value → Bool
  | moment _ => false
  | v => v.exceeds n

@[simp] theorem text?_str (s : String) : (str s).text? = some s := rfl
@[simp] theorem textExceeds_str (n : Nat) (s : String) : (str s).textExceeds n = false := rfl

/-- No value is written as nothing inside another one. -/
theorem inner?_ne_empty (v : Value) : v.inner? ≠ some "" := by
  cases v with
  | null => simp [inner?]
  | bool b => cases b <;> simp [inner?]
  | int n =>
    rw [inner?]
    exact wholeText?_ne_empty
  | float x =>
    have h := Decimal.Layout.text_ne_empty (l := floatLayout) (by decide) (by decide) x
    simpa [inner?] using h
  | nan _ => simp [inner?, floatLayout]
  | str s => simp [inner?, Text.quoted]
  | bytes bs => simp [inner?, bytesText]
  | date d => simp [inner?]
  | moment t => simp [inner?, t.partsText_ne_empty]
  | list items => cases h : innerItems? items <;> simp [inner?, h]
  | map entries => cases h : innerEntries? entries <;> simp [inner?, h]
  | set items =>
    cases items with
    | nil => simp [inner?]
    | cons v r => cases h : innerItems? (v :: r) <;> simp [inner?, h]
  | pair v w => cases hv : inner? v <;> cases hw : inner? w <;> simp [inner?, hv, hw]

/-- No value but the empty text is put into no words. -/
theorem text?_eq_empty_iff {v : Value} : v.text? = some "" ↔ v = str "" := by
  constructor
  · intro h
    cases v with
    | str s =>
      rw [text?_str, Option.some.injEq] at h
      rw [h]
    | date d => simp [text?, Date.text] at h
    | moment t => simp [text?, Moment.text, Date.text] at h
    | _ => exact absurd h (inner?_ne_empty _)
  · rintro rfl
    rfl

end

example : (list [str "a", int 1, null]).text? = some "['a', 1, None]" := by decide +kernel

end Value

end RowModel
