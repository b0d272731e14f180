import RowModel.Decimal.Double
import RowModel.Text.Blank
import RowModel.Text.Digit
import RowModel.Text.Split

/-!
Numbers as people write them: blanks around, a sign, digits of any script. A whole number may begin
with the mark of its base, a decimal one may have a point, an exponent, or be infinite.
-/
namespace RowModel.Text

/-- Whether a blank may stand around a number; the four information separators may not. -/
def isOuterBlank (c : Char) : Bool :=
  isBlank c && !(decide (0x1C ≤ c.toNat) && decide (c.toNat ≤ 0x1F))

/-- A written number without the blanks around it, its digits in ASCII. -/
def numeralChars (s : List Char) : List Char :=
  let s := ((s.dropWhile isOuterBlank).reverse.dropWhile isOuterBlank).reverse
  s.map fun c => match digit? c with
    | some d => Nat.digitChar d
    | none => c

/-- The sign, true for a minus, and what follows it. -/
def signed (s : List Char) : Bool × List Char :=
  match s with
  | '-' :: r => (true, r)
  | '+' :: r => (false, r)
  | _ => (false, s)

def digitIn? (base : Nat) (c : Char) : Option Nat :=
  let c := c.toLower
  let n :=
    if c.isDigit then c.toNat - '0'.toNat
    else if c.isLower then c.toNat - 'a'.toNat + 10 else base
  if n < base then some n else none

def digitsValue? (base value : Nat) : List Char → Option Nat
  | [] => some value
  | c :: r => (digitIn? base c).bind fun d => digitsValue? base (value * base + d) r

def baseMark (base : Nat) : Option Char :=
  if base = 2 then some 'b' else if base = 8 then some 'o'
  else if base = 16 then some 'x' else none

def withoutBaseMark (base : Nat) (s : List Char) : List Char :=
  match s with
  | '0' :: c :: r => if baseMark base = some c.toLower then r else s
  | _ => s

/-- A whole number in a base. Only the digits of decimal ones are limited in number. -/
def wholeNumber? (base : Nat) (s : List Char) : Option Int :=
  let (negative, s) := signed (numeralChars s)
  let s := withoutBaseMark base s
  if s.isEmpty ∨ (base = 10 ∧ digitLimit < s.length) then none
  else (digitsValue? base 0 s).map fun n => if negative then -(n : Int) else n

def exponent? (s : List Char) : Option Int :=
  match s with
  | [] => some 0
  | e :: r =>
    let (negative, ds) := signed r
    if (e = 'e' ∨ e = 'E') ∧ !ds.isEmpty then
      (digitsValue? 10 0 ds).map fun n => if negative then -(n : Int) else n
    else none

def fraction? (negative : Bool) (s : List Char) : Option Float := do
  let whole := s.takeWhile Char.isDigit
  let r := s.dropWhile Char.isDigit
  let (part, r) := match r with
    | '.' :: r => (r.takeWhile Char.isDigit, r.dropWhile Char.isDigit)
    | _ => ([], r)
  let digits := whole ++ part
  if digits.isEmpty then none
  else do
    let e ← exponent? r
    let n ← digitsValue? 10 0 digits
    return Decimal.ofDecimal negative n (e - part.length)

def decimal? (s : List Char) : Option Float :=
  let (negative, s) := signed (numeralChars s)
  let word := String.ofList (s.map Char.toLower)
  if word = "inf" ∨ word = "infinity" then some (Decimal.infinity negative)
  else if word = "nan" then some Decimal.nan
  else fraction? negative s

example : wholeNumber? 16 " -0xfF ".toList = some (-255) := by decide
example : wholeNumber? 10 "1a".toList = none := by decide

end RowModel.Text
