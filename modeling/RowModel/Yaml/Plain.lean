import RowModel.Yaml.Fold

/-!
Plain scalars: text without quotes, which ends before a comment, before an indicator, or where
the indentation falls back.
-/
namespace RowModel.Yaml

/-- Text without quotes. `crossed` when a line end was passed after the last word. -/
structure Plain where
  text : List Char
  crossed : Bool
  rest : Source

def Plain.prepend (cs : List Char) (p : Plain) : Plain := { p with text := cs ++ p.text }

def isFlowPunctuation (c : Char) : Bool :=
  c == ',' || c == '?' || c == '[' || c == ']' || c == '\x7b' || c == '\x7d'

/-- Characters that, after a colon inside a flow collection, make it an indicator. -/
def isFlowBracket (c : Char) : Bool :=
  c == ',' || c == '[' || c == ']' || c == '\x7b' || c == '\x7d'

/-- Whether a word ends before `c`, which `next` follows. -/
def endsWord (flow : Bool) (c next : Char) : Bool :=
  isGap c || (c == ':' && (isGap next || (flow && isFlowBracket next))) ||
    (flow && isFlowPunctuation c)

/-- Whether no further word begins at `c` after a gap. -/
def endsPlain (flow : Bool) (indent : Nat) (c : Located) (next : Char) : Bool :=
  c.char == '#' || (!flow && decide (c.column < indent)) || endsWord flow c.char next

def scanPlain (flow : Bool) (indent : Nat) : Gap → Source → Plain
  | _, [] => ⟨[], false, []⟩
  | .none, c :: r =>
    if c.char == ' ' then scanPlain flow indent (.spaces [' ']) r
    else if isBreak c.char then scanPlain flow indent (.breaks (some c.char) [] true) r
    else if endsWord flow c.char (Source.peek r) then ⟨[], false, c :: r⟩
    else (scanPlain flow indent .none r).prepend [c.char]
  | .spaces chars, c :: r =>
    if c.char == ' ' then scanPlain flow indent (.spaces (' ' :: chars)) r
    else if isBreak c.char then scanPlain flow indent (.breaks (some c.char) [] true) r
    else if endsPlain flow indent c (Source.peek r) then ⟨[], false, c :: r⟩
    else (scanPlain flow indent .none r).prepend (Gap.text (.spaces chars) ++ [c.char])
  | .breaks first later fresh, c :: r =>
    if fresh && Source.atMarker (c :: r) then ⟨[], true, c :: r⟩
    else if c.char == ' ' then scanPlain flow indent (.breaks first later false) r
    else if isBreak c.char then scanPlain flow indent (.breaks first (c.char :: later) true) r
    else if endsPlain flow indent c (Source.peek r) then ⟨[], true, c :: r⟩
    else (scanPlain flow indent .none r).prepend (Gap.text (.breaks first later fresh) ++ [c.char])

def beginsPlain (flow : Bool) (s : Source) : Bool :=
  let c := s.peek
  let next := Source.peek s.tail
  !(isGap c || "-?:,[]\x7b\x7d#&*!|>'\"%@`".toList.contains c) ||
    (!isGap next && (c == '-' || (!flow && (c == '?' || c == ':'))))

end RowModel.Yaml
