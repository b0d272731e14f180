import RowModel.Text.Base64
import RowModel.Text.Numeral
import RowModel.Value.Basic
import RowModel.Yaml.Tag
import RowModel.Yaml.Timestamp

/-!
The value of a scalar under a tag.
-/
namespace RowModel.Yaml

open Text

def noValue (f : ScalarFault) : Except Fault Value := .error (.noValue f)

def wholeOr (base : Nat) (s : List Char) : Except Fault Int :=
  match wholeNumber? base s with
  | some n => .ok n
  | none => .error (.noValue .noSuchValue)

def decimalOr (s : List Char) : Except Fault Float :=
  match decimal? s with
  | some x => .ok x
  | none => .error (.noValue .noSuchValue)

/-- Places of base sixty, the highest first. -/
def sixties (places : List Int) : Int := places.foldl (fun n p => n * 60 + p) 0

/-- A whole number without its sign: the letter after a leading zero gives the base, a leading zero
alone means base eight, colons base sixty. -/
def unsignedInt (s : List Char) : Except Fault Int :=
  match s with
  | [] => .error (.noValue .empty)
  | ['0'] => .ok 0
  | '0' :: 'b' :: r => wholeOr 2 r
  | '0' :: 'x' :: r => wholeOr 16 r
  | '0' :: _ => wholeOr 8 s
  | _ =>
    if s.contains ':' then ((splitOn ':' s).mapM (wholeOr 10)).map sixties
    else wholeOr 10 s

def intValue (s : List Char) : Except Fault Value :=
  let s := s.filter (· != '_')
  if s.isEmpty then noValue .empty
  else
    let (negative, s) := signed s
    (unsignedInt s).map fun n => .int (if negative then -n else n)

/-- Places of base sixty, the lowest first. A place whose weight is no double cannot be counted. -/
def sixtieths (total : Float) (weight : Nat) : List Float → Except Fault Float
  | [] => .ok total
  | p :: r =>
    if 1024 ≤ weight.log2 then .error (.noValue .tooLarge)
    else sixtieths (total + p * Decimal.ofDecimal false weight 0) (weight * 60) r

def unsignedFloat (s : List Char) : Except Fault Float :=
  if s = ".inf".toList then .ok (Decimal.infinity false)
  else if s.contains ':' then do
    let places ← (splitOn ':' s).mapM decimalOr
    sixtieths 0.0 1 places.reverse
  else decimalOr s

/-- The word for no number always means the same one. What otherwise turns out to be no number has
the mark. -/
def floatValue (mark : Nat) (s : List Char) : Except Fault Value :=
  let s := (s.filter (· != '_')).map Char.toLower
  if s.isEmpty then noValue .empty
  else
    let (negative, s) := signed s
    if s = ".nan".toList then .ok (.nan 0)
    else (unsignedFloat s).map fun x => .ofFloat mark (if negative then -x else x)

def boolValues : List (String × Bool) :=
  [("yes", true), ("no", false), ("true", true), ("false", false), ("on", true), ("off", false)]

def boolValue (s : List Char) : Except Fault Value :=
  match boolValues.lookup (String.ofList (s.map Char.toLower)) with
  | some b => .ok (.bool b)
  | none => noValue .noSuchWord

/-- A date or moment; a line feed may follow it. -/
def timestampValue (s : List Char) : Except Fault Value :=
  let s := if s.getLast? = some '\n' then s.dropLast else s
  match Timestamp.parse? s with
  | none => noValue .notADate
  | some t =>
    match t.clock with
    | none => (t.date?.map Value.date).elim (noValue .noSuchValue) .ok
    | some c => ((t.moment? c).map Value.moment).elim (noValue .noSuchValue) .ok

def binaryValue (s : List Char) : Except Fault Value :=
  if s.all (·.toNat < 128) then
    match base64? s with
    | some bs => .ok (.bytes bs)
    | none => .error .illFormed
  else .error .illFormed

def scalarValue (mark : Nat) (tag : Tag) (s : List Char) : Except Fault Value :=
  match tag with
  | .null => .ok .null
  | .bool => boolValue s
  | .int => intValue s
  | .float => floatValue mark s
  | .binary => binaryValue s
  | .timestamp => timestampValue s
  | .str => .ok (.str (String.ofList s))
  | _ => .error .illFormed

end RowModel.Yaml
