import RowModel.Text.Printable
import RowModel.Text.Units

/-!
A text between quotes: single quotes, or double quotes when the text has a single quote and no
double one. The quote, the backslash and what cannot be shown are escaped, and so is a half of a
surrogate pair.
-/
namespace RowModel.Text

/-- `n` in lower-case hexadecimal with at least `width` digits. -/
def hex (width n : Nat) : List Char :=
  let ds := Nat.toDigits 16 n
  List.replicate (width - ds.length) '0' ++ ds

def escape (quote c : Char) : List Char :=
  if c = quote ∨ c = '\\' then ['\\', c]
  else if c = '\n' then ['\\', 'n']
  else if c = '\r' then ['\\', 'r']
  else if c = '\t' then ['\\', 't']
  else if isPrintable c then [c]
  else if c.toNat < 0x100 then '\\' :: 'x' :: hex 2 c.toNat
  else if c.toNat < 0x10000 then '\\' :: 'u' :: hex 4 c.toNat
  else '\\' :: 'U' :: hex 8 c.toNat

def quoteFor (s : List Char) : Char :=
  if s.contains '\'' && !s.contains '"' then '"' else '\''

/-- A text in stored form with every half of a surrogate pair escaped and all else shown in a way of
its own. -/
def withHalves (other : Char → List Char) (s : List Char) : List Char :=
  (toUnits s).flatMap fun n =>
    if isHalf n then '\\' :: 'u' :: hex 4 n else other (Char.ofNat n)

def quoted (s : List Char) : List Char :=
  let q := quoteFor s
  q :: withHalves (escape q) s ++ [q]

example : quoted "it's".toList = "\"it's\"".toList := by decide
example : quoted (unitChars 0xD83D) = "'\\ud83d'".toList := by decide
example : quoted ['a', '\x7f', '\n'] = "'a\\x7f\\n'".toList := by decide

end RowModel.Text
