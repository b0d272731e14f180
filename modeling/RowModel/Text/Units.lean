/-!
Texts as numbers: code points, and the halves of surrogate pairs, which are no characters. A string
holds a half in a stored form, as U+E000 and a second character; so U+E000 itself is also stored as
two characters, and all others stand for themselves. No stored form begins another one, and stored
forms are ordered as the numbers are, so texts in this form are joined, cut and sorted as if each
number were one character. Halves that a document writes one after the other stay halves, and differ
from the character that they would make together.
-/
namespace RowModel.Text

def isHighHalf (n : Nat) : Bool := decide (0xD800 ≤ n) && decide (n < 0xDC00)
def isLowHalf (n : Nat) : Bool := decide (0xDC00 ≤ n) && decide (n < 0xE000)
def isHalf (n : Nat) : Bool := isHighHalf n || isLowHalf n

def joinHalves (high low : Nat) : Char :=
  Char.ofNat (0x10000 + (high - 0xD800) * 0x400 + (low - 0xDC00))

/-- The first of two characters that store a number. -/
def storeMark : Char := '\ue000'

/-- How far the second one lies above the number. -/
def storeShift : Nat := 0x800

/-- The numbers that two characters store: the halves, and U+E000. -/
def isShifted (n : Nat) : Bool := decide (0xD800 ≤ n) && decide (n ≤ 0xE000)

def unitChars (n : Nat) : List Char :=
  if isShifted n then [storeMark, Char.ofNat (n + storeShift)] else [Char.ofNat n]

def stored (s : List Char) : List Char := s.flatMap fun c => unitChars c.toNat

/-- The stored form of numbers in which two halves that fit are one character. -/
def ofUnits : List Nat → List Char
  | [] => []
  | [n] => unitChars n
  | m :: n :: r =>
    if isHighHalf m && isLowHalf n then joinHalves m n :: ofUnits r
    else unitChars m ++ ofUnits (n :: r)

/-- The number that two characters store, if they store one. -/
def shifted? (c d : Char) : Option Nat :=
  if c = storeMark ∧ isShifted (d.toNat - storeShift) then some (d.toNat - storeShift) else none

def toUnits : List Char → List Nat
  | [] => []
  | [c] => [c.toNat]
  | c :: d :: r =>
    match shifted? c d with
    | some n => n :: toUnits r
    | none => c.toNat :: toUnits (d :: r)

def hexDigit? (c : Char) : Option Nat :=
  if '0' ≤ c ∧ c ≤ '9' then some (c.toNat - '0'.toNat)
  else if 'a' ≤ c ∧ c ≤ 'f' then some (c.toNat - 'a'.toNat + 10)
  else if 'A' ≤ c ∧ c ≤ 'F' then some (c.toNat - 'A'.toNat + 10)
  else none

theorem toNat_ofNat_of_valid {n : Nat} (h : n.isValidChar) : (Char.ofNat n).toNat = n := by
  rw [Char.ofNat, dif_pos h]
  rfl

/-- A stored number is taken back out, whatever follows it. -/
theorem toUnits_unitChars_append {n : Nat} (h : n < 0x110000) (s : List Char) :
    toUnits (unitChars n ++ s) = n :: toUnits s := by
  by_cases hs : isShifted n = true
  · have hn : 0xD800 ≤ n ∧ n ≤ 0xE000 := by simpa [isShifted] using hs
    have hc : (Char.ofNat (n + storeShift)).toNat = n + storeShift := by
      apply toNat_ofNat_of_valid
      unfold Nat.isValidChar storeShift
      omega
    simp [unitChars, hs, toUnits, shifted?, hc]
  · have hv : n.isValidChar := by
      simp only [isShifted, Bool.and_eq_true, decide_eq_true_eq] at hs
      unfold Nat.isValidChar
      omega
    have hc := toNat_ofNat_of_valid hv
    have hm : Char.ofNat n ≠ storeMark := by
      intro he
      rw [he] at hc
      rw [← hc] at hs
      exact hs (by decide)
    cases s with
    | nil => simp [unitChars, hs, toUnits, hc]
    | cons d r => simp [unitChars, hs, toUnits, shifted?, hm, hc]

/-- What is stored is read back. -/
theorem toUnits_flatMap_unitChars {ns : List Nat} (h : ∀ n ∈ ns, n < 0x110000) :
    toUnits (ns.flatMap unitChars) = ns := by
  induction ns with
  | nil => rfl
  | cons n r ih =>
    rw [List.flatMap_cons, toUnits_unitChars_append (h n List.mem_cons_self),
      ih fun m hm => h m (List.mem_cons_of_mem n hm)]

theorem toUnits_stored (s : List Char) : toUnits (stored s) = s.map Char.toNat := by
  rw [stored, ← List.flatMap_map]
  apply toUnits_flatMap_unitChars
  simp only [List.mem_map]
  rintro n ⟨c, -, rfl⟩
  have := c.valid
  simp only [UInt32.isValidChar, Nat.isValidChar] at this
  change c.val.toNat < _
  omega

/-- Characters other than U+E000 stand for themselves. -/
theorem stored_eq_self {s : List Char} (h : storeMark ∉ s) : stored s = s := by
  induction s with
  | nil => rfl
  | cons c r ih =>
    have hc : c ≠ storeMark := fun he => h (he ▸ List.mem_cons_self)
    have hr := ih fun hm => h (List.mem_cons_of_mem c hm)
    have hs : isShifted c.toNat = false := by
      have hv := c.valid
      simp only [UInt32.isValidChar, Nat.isValidChar] at hv
      have hne : c.toNat ≠ 0xE000 := fun he => hc (Char.toNat_inj.1 (he.trans (by decide)))
      simp only [isShifted, Bool.and_eq_false_iff, decide_eq_false_iff_not]
      simp only [Char.toNat] at hne ⊢
      omega
    simp [stored, unitChars, hs] at hr ⊢
    exact hr

example : ofUnits [0x61, 0xD83D, 0xDE00] = ['a', '😀'] := by decide
example : toUnits (unitChars 0xD83D ++ unitChars 0xDE00) = [0xD83D, 0xDE00] := by decide
example : toUnits ['a', '😀'] = [0x61, 0x1F600] := by decide

end RowModel.Text
