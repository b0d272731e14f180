/-!
Doubles as exact numbers: a finite one is a mantissa times a power of two, and a ratio of natural
numbers has a nearest double, a tie going to the even mantissa.
-/
namespace RowModel.Decimal

/-- A double without its sign: `finite m q` is `m * 2 ^ q`. -/
inductive Magnitude where
  | nan
  | infinite
  | finite (mantissa : Nat) (exponent : Int)
  deriving DecidableEq, Repr

def signWeight : Nat := Nat.pow 2 63

/-- The weight of the exponent's lowest bit, which is also that of a full mantissa's leading bit. -/
def leadingWeight : Nat := Nat.pow 2 52

def infiniteBits : Nat := 2047 * leadingWeight

def isNegative (x : Float) : Bool := decide (signWeight ≤ x.toBits.toNat)

def Magnitude.ofBits (bits : Nat) : Magnitude :=
  let exponent : Nat := bits / leadingWeight % 2048
  let fraction := bits % leadingWeight
  if exponent = 2047 then (if fraction = 0 then .infinite else .nan)
  else if exponent = 0 then .finite fraction (-1074)
  else .finite (fraction + leadingWeight) ((exponent : Int) - 1075)

def magnitude (x : Float) : Magnitude := Magnitude.ofBits x.toBits.toNat

/-- The quotient rounded to the nearest whole number, a tie to the even one. -/
def roundDiv (a b : Nat) : Nat :=
  let q := a / b
  let r := a % b
  if 2 * r < b then q else if b < 2 * r then q + 1 else if q % 2 = 0 then q else q + 1

/-- The number `n * base ^ e` as a ratio. -/
def powerRatio (n base : Nat) (e : Int) : Nat × Nat :=
  (n * Nat.pow base e.toNat, Nat.pow base (-e).toNat)

/-- `num / den` in units of `base ^ e`, again as a ratio. -/
def inUnits (base num den : Nat) (e : Int) : Nat × Nat :=
  (num * Nat.pow base (-e).toNat, den * Nat.pow base e.toNat)

/-- The bits of the double nearest to `num / den`; what is too large is infinite. -/
def nearestBits (num den : Nat) : Nat :=
  if num = 0 then 0
  else
    let q : Int := (num.log2 : Int) - den.log2 - 52
    let (a, b) := inUnits 2 num den q
    let q := max (if a < b * leadingWeight then q - 1 else q) (-1074)
    let (a, b) := inUnits 2 num den q
    let m := roundDiv a b
    let bits :=
      if m < leadingWeight then m
      else (q + 1075).toNat * leadingWeight + (m - leadingWeight)
    min bits infiniteBits

def ofSignBits (negative : Bool) (bits : Nat) : Float :=
  Float.ofBits (UInt64.ofNat (if negative then bits + signWeight else bits))

def infinity (negative : Bool) : Float := ofSignBits negative infiniteBits

def nan : Float := ofSignBits false (infiniteBits + leadingWeight / 2)

/-- The double nearest to `± digits * 10 ^ exponent`. Powers of ten far outside the range of doubles
are not computed. -/
def ofDecimal (negative : Bool) (digits : Nat) (exponent : Int) : Float :=
  let top : Int := (Nat.toDigits 10 digits).length + exponent
  if digits = 0 ∨ top < -400 then ofSignBits negative 0
  else if 400 < top then infinity negative
  else
    let (num, den) := powerRatio digits 10 exponent
    ofSignBits negative (nearestBits num den)

example : Magnitude.ofBits (nearestBits 1 10) = .finite 7205759403792794 (-56) := by decide +kernel
example : Magnitude.ofBits (nearestBits 3 2) = .finite 6755399441055744 (-52) := by decide +kernel

end RowModel.Decimal
