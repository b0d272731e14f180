/-!
Bytes written with sixty-four letters, four for three bytes. Other characters are passed over, and a
full padding ends the text.
-/
namespace RowModel.Text

def sextet? (c : Char) : Option Nat :=
  if c.isUpper then some (c.toNat - 'A'.toNat)
  else if c.isLower then some (c.toNat - 'a'.toNat + 26)
  else if c.isDigit then some (c.toNat - '0'.toNat + 52)
  else if c = '+' then some 62
  else if c = '/' then some 63
  else none

/-- The byte that is complete with the letter at place `place` of its four, if one is, where `left`
holds the bits of the letters before. -/
def completed (place left six : Nat) : List UInt8 :=
  if place = 1 then [UInt8.ofNat (left % 64 * 4 + six / 16)]
  else if place = 2 then [UInt8.ofNat (left % 16 * 16 + six / 4)]
  else if place = 3 then [UInt8.ofNat (left % 4 * 64 + six)]
  else []

/-- The bytes from a place among four letters on, after `pads` padding signs. -/
def base64From (place pads left : Nat) : List Char → Option (List UInt8)
  | [] => if place = 0 then some [] else none
  | c :: r =>
    if c = '=' then
      if 2 ≤ place ∧ 4 ≤ place + (pads + 1) then some []
      else base64From place (if 2 ≤ place then pads + 1 else pads) left r
    else match sextet? c with
      | none => base64From place pads left r
      | some six =>
        (base64From ((place + 1) % 4) 0 six r).map (completed place left six ++ ·)

def base64? (s : List Char) : Option (List UInt8) := base64From 0 0 0 s

example : base64? "aGVsbG8=".toList = some [104, 101, 108, 108, 111] := by decide

end RowModel.Text
