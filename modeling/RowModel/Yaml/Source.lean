import RowModel.Text.Units

/-!
The characters of a document with their places. Every line end is one line feed, but for the line
and paragraph separators, which stay what they are; the last character is NUL and marks the end.
-/
namespace RowModel.Yaml

structure Located where
  char : Char
  index : Nat
  line : Nat
  column : Nat
  deriving DecidableEq, Repr

abbrev Source := List Located

/-- The mark after the last character; no document can contain it. -/
def endMark : Char := '\x00'

def isBreak (c : Char) : Bool := c == '\n' || c == '\u2028' || c == '\u2029'

def endsLine (c : Char) : Bool := isBreak c || c == endMark

def isSpace (c : Char) : Bool := c == ' ' || c == '\t'

/-- What may follow an indicator: a space, a tab or the end of the line. -/
def isGap (c : Char) : Bool := endsLine c || isSpace c

def isNameChar (c : Char) : Bool := c.isAlphanum || c == '-' || c == '_'

def isAllowed (c : Char) : Bool :=
  let n := c.toNat
  n == 0x9 || n == 0xA || n == 0xD || n == 0x85 || (decide (0x20 ≤ n) && decide (n ≤ 0x7E)) ||
    (decide (0xA0 ≤ n) && decide (n ≤ 0xFFFD)) || decide (0x10000 ≤ n)

/-- Places for the characters of a text. A byte order mark takes no column. -/
def locate (index line column : Nat) : List Char → Source
  | [] => [⟨endMark, index, line, column⟩]
  | '\r' :: '\n' :: r => ⟨'\n', index + 1, line, column⟩ :: locate (index + 2) (line + 1) 0 r
  | c :: r =>
    if c == '\r' || c == '\n' || c == '\x85' then
      ⟨'\n', index, line, column⟩ :: locate (index + 1) (line + 1) 0 r
    else if isBreak c then ⟨c, index, line, column⟩ :: locate (index + 1) (line + 1) 0 r
    else ⟨c, index, line, column⟩ ::
      locate (index + 1) line (if c == '\ufeff' then column else column + 1) r

/-- The places of the characters of a document in stored form, without a byte order mark in front. A
document with a character that may not stand in one has none; a half of a surrogate pair counts as
NUL, which may not. -/
def Source.ofText? (text : List Char) : Option Source :=
  let text := (Text.toUnits text).map Char.ofNat
  if text.all isAllowed then
    some (locate 0 0 0 (if text.head? = some '\ufeff' then text.tail else text))
  else none

namespace Source

def peek (s : Source) : Char := (s.head?.map Located.char).getD endMark

/-- The longest beginning whose characters satisfy `p`, and what follows it. -/
def span (p : Char → Bool) : Source → List Char × Source
  | [] => ([], [])
  | c :: r =>
    if p c.char then
      let (cs, rest) := span p r
      (c.char :: cs, rest)
    else ([], c :: r)

def skip (p : Char → Bool) (s : Source) : Source := s.dropWhile fun c => p c.char

/-- Whether `---` or `...` stands here and ends where a word would end. -/
def atMarker : Source → Bool
  | a :: b :: c :: d :: _ =>
    (a.char == '-' || a.char == '.') && b.char == a.char && c.char == a.char && isGap d.char
  | _ => false

/-- The rest of a line that may hold only spaces and a comment, without its end. -/
def endOfLine? (s : Source) : Option Source :=
  let s := s.skip (· == ' ')
  let s := if s.peek == '#' then s.skip (!endsLine ·) else s
  if isBreak s.peek then some s.tail
  else if s.peek == endMark then some s
  else none

end Source

end RowModel.Yaml
