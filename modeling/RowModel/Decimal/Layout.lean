import RowModel.Decimal.Shortest

/-!
The text of a double: its shortest digits, laid out with or without an exponent.
-/
namespace RowModel.Decimal

/-- How digits are laid out. A number whose first digit stands for `10 ^ e` is written without an
exponent when `fewest ≤ e < most`. -/
structure Layout where
  fewest : Int
  most : Int
  exponentDigits : Nat
  infinite : String
  nan : String

namespace Layout

def zeros (n : Nat) : String := String.ofList (List.replicate n '0')

/-- Digits around a point that stands after the first `n`. -/
def pointed (ds : List Char) (n : Nat) : String :=
  if ds.length ≤ n then String.ofList ds ++ zeros (n - ds.length) ++ ".0"
  else String.ofList (ds.take n) ++ "." ++ String.ofList (ds.drop n)

def scientific (l : Layout) (ds : List Char) (e : Int) : String :=
  let mark := if e < 0 then "e-" else "e+"
  let size := toString e.natAbs
  let head := String.ofList (ds.take 1)
  let tail := if ds.length ≤ 1 then "" else "." ++ String.ofList (ds.drop 1)
  head ++ tail ++ mark ++ zeros (l.exponentDigits - size.length) ++ size

def positive (l : Layout) (s : Scaled) : String :=
  let ds := Nat.toDigits 10 s.digits
  let e : Int := s.exponent + ds.length - 1
  let ds := (ds.reverse.dropWhile (· == '0')).reverse
  if e < l.fewest ∨ l.most ≤ e then l.scientific ds e
  else if e < 0 then "0." ++ zeros (-e - 1).toNat ++ String.ofList ds
  else pointed ds (e + 1).toNat

def text (l : Layout) (x : Float) : String :=
  let sign := if isNegative x then "-" else ""
  match magnitude x with
  | .nan => l.nan
  | .infinite => sign ++ l.infinite
  | .finite 0 _ => sign ++ "0.0"
  | .finite m q => sign ++ l.positive (shortest m q)

theorem scientific_ne_empty (l : Layout) (ds : List Char) (e : Int) : l.scientific ds e ≠ "" := by
  simp [scientific]

theorem pointed_ne_empty (ds : List Char) (n : Nat) : pointed ds n ≠ "" := by
  rw [pointed]
  split <;> simp

theorem positive_ne_empty (l : Layout) (s : Scaled) : l.positive s ≠ "" := by
  rw [positive]
  split
  · exact l.scientific_ne_empty _ _
  · split
    · simp
    · exact pointed_ne_empty _ _

/-- Every double has a text when the layout has one for what is no finite number. -/
theorem text_ne_empty {l : Layout} (hi : l.infinite ≠ "") (hn : l.nan ≠ "") (x : Float) :
    l.text x ≠ "" := by
  rw [text]
  split
  · exact hn
  · simp [hi]
  · simp
  · simp [l.positive_ne_empty]

end Layout

end RowModel.Decimal
