import RowModel.Yaml.Fault
import RowModel.Yaml.Source

/-!
Block scalars: the indented lines after `|` or `>`. The first keeps its line ends, the second folds
those between lines that begin with a word. The header says what happens to the last line ends and
may give the indentation.
-/
namespace RowModel.Yaml

inductive Chomp where
  | strip
  | clip
  | keep
  deriving DecidableEq, Repr

structure BlockHeader where
  chomp : Chomp
  indent : Option Nat
  deriving DecidableEq, Repr

def chomp? (c : Char) : Option Chomp :=
  if c == '+' then some .keep else if c == '-' then some .strip else none

def indentDigit? (c : Char) : Option Nat :=
  if c.isDigit then some (c.toNat - '0'.toNat) else none

/-- The two indicators in either order; an indentation of zero is refused. -/
def blockHeader? (s : Source) : Option (BlockHeader × Source) :=
  let (chomp, s) : Option Chomp × Source := match chomp? s.peek with
    | some c => (some c, s.tail)
    | none => (none, s)
  let (indent, s) : Option Nat × Source := match indentDigit? s.peek with
    | some d => (some d, s.tail)
    | none => (none, s)
  let (chomp, s) : Option Chomp × Source := match chomp, indent, chomp? s.peek with
    | none, some _, some c => (some c, s.tail)
    | _, _, _ => (chomp, s)
  if indent = some 0 then none
  else if s.peek == ' ' || endsLine s.peek then
    s.endOfLine?.map fun s => (⟨chomp.getD .clip, indent⟩, s)
  else none

/-- The empty lines at the start, the widest indentation seen in them, and what follows. -/
def leadingLines (widest : Nat) : Source → List Char × Nat × Source
  | [] => ([], widest, [])
  | c :: r =>
    if c.char == ' ' then leadingLines (max widest (c.column + 1)) r
    else if isBreak c.char then
      let (ends, widest, rest) := leadingLines widest r
      (c.char :: ends, widest, rest)
    else ([], widest, c :: r)

/-- A line that was read: its end, if it has one, and whether it began with a word. -/
structure BlockLine where
  lineEnd : Option Char
  word : Bool
  deriving DecidableEq, Repr

/-- Where the reader of a block scalar stands: in a line, or between lines after the line ends
`later`, the last one first. -/
inductive BlockState where
  | inLine (word : Bool)
  | between (last : Option BlockLine) (later : List Char)
  deriving DecidableEq, Repr

/-- What stands between two lines, the second of which begins with `c`. -/
def joined (fold : Bool) (last : Option BlockLine) (later : List Char) (c : Char) : List Char :=
  match last with
  | none => later
  | some l =>
    if fold && l.lineEnd == some '\n' && l.word && !isSpace c then
      (if later.isEmpty then [' '] else later)
    else l.lineEnd.toList ++ later

def chomped (chomp : Chomp) (last : Option BlockLine) (later : List Char) : List Char :=
  let final := (last.bind BlockLine.lineEnd).toList
  match chomp with
  | .strip => []
  | .clip => final
  | .keep => final ++ later

def blockLines (fold : Bool) (chomp : Chomp) (indent : Nat) :
    BlockState → Source → List Char × Source
  | _, [] => ([], [])
  | .inLine word, c :: r =>
    if isBreak c.char then
      blockLines fold chomp indent (.between (some ⟨some c.char, word⟩) []) r
    else if c.char == endMark then (chomped chomp (some ⟨none, word⟩) [], c :: r)
    else
      let (cs, rest) := blockLines fold chomp indent (.inLine word) r
      (c.char :: cs, rest)
  | .between last later, c :: r =>
    if c.char == ' ' && decide (c.column < indent) then
      blockLines fold chomp indent (.between last later) r
    else if isBreak c.char then
      blockLines fold chomp indent (.between last (c.char :: later)) r
    else if c.column = indent ∧ c.char ≠ endMark then
      let (cs, rest) := blockLines fold chomp indent (.inLine (!isSpace c.char)) r
      (joined fold last later.reverse c.char ++ c.char :: cs, rest)
    else (chomped chomp last later.reverse, c :: r)

/-- The text after `|` or `>` under a parent indented by less than `least`. -/
def scanBlock (fold : Bool) (least : Nat) (s : Source) :
    Except Fault (List Char × Source) :=
  match blockHeader? s with
  | none => .error .illFormed
  | some (header, s) =>
    let least := max least 1
    match header.indent with
    | some d => .ok (blockLines fold header.chomp (least + d - 1) (.between none []) s)
    | none =>
      let (ends, widest, rest) := leadingLines 0 s
      .ok (blockLines fold header.chomp (max least widest) (.between none ends.reverse) rest)

end RowModel.Yaml
