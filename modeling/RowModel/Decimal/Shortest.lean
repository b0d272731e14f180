import RowModel.Decimal.Double

/-!
The shortest decimal that reads back as a given double, and of the shortest ones the nearest.
-/
namespace RowModel.Decimal

/-- The number `digits * 10 ^ exponent`. -/
structure Scaled where
  digits : Nat
  exponent : Int
  deriving DecidableEq, Repr

def decimalLength (n : Nat) : Nat := (Nat.toDigits 10 n).length

def leadingExponent (num den : Nat) : Int :=
  let k : Int := (decimalLength num : Int) - decimalLength den
  let (a, b) := inUnits 10 num den k
  if a < b then k - 1 else k

/-- Whether the scaled number is read as the double with these bits. -/
def Scaled.readsAs (s : Scaled) (bits : Nat) : Bool :=
  let (num, den) := powerRatio s.digits 10 s.exponent
  nearestBits num den == bits

/-- The decimal of `count` digits that reads back, the nearer one if both neighbours of the value
do. -/
def onGrid (num den bits count : Nat) : Option Scaled :=
  let k := leadingExponent num den - count + 1
  let (a, b) := inUnits 10 num den k
  let low : Scaled := ⟨a / b, k⟩
  let high : Scaled := ⟨a / b + 1, k⟩
  match low.readsAs bits, high.readsAs bits with
  | true, true => some (if roundDiv a b = a / b then low else high)
  | true, false => some low
  | false, true => some high
  | false, false => none

/-- The shortest decimal for the positive double `m * 2 ^ q`; seventeen digits are always enough. -/
def shortest (m : Nat) (q : Int) : Scaled :=
  let (num, den) := powerRatio m 2 q
  let bits := nearestBits num den
  ((List.range 17).findSome? fun i => onGrid num den bits (i + 1)).getD ⟨m, q⟩

example : shortest 7205759403792794 (-56) = ⟨1, -1⟩ := by decide +kernel
example : shortest 1 (-1074) = ⟨5, -324⟩ := by decide +kernel

end RowModel.Decimal
