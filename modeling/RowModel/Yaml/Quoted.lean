import RowModel.Text.Units
import RowModel.Yaml.Fault
import RowModel.Yaml.Fold

/-!
Quoted scalars. Between single quotes only the quote itself is written specially, twice; between
double quotes a backslash begins an escape. Line ends are folded in both.
-/
namespace RowModel.Yaml

/-- Where the reader of a quoted scalar stands: at a gap (`Gap.none` inside a word), after the
character that begins an escape, or before the last digits of a character code. -/
inductive QuotedState where
  | gap (gap : Gap)
  | escape
  | code (digits value : Nat)
  deriving DecidableEq, Repr

/-- What a character does: it closes the scalar, is a fault, or adds `units` to the text. -/
inductive QuotedStep where
  | close (units : List Nat)
  | fault (fault : Fault)
  | take (units : List Nat) (next : QuotedState)
  deriving DecidableEq, Repr

def unitsOf (cs : List Char) : List Nat := cs.map Char.toNat

def escapes : List (Char × Nat) :=
  [('0', 0), ('a', 7), ('b', 8), ('t', 9), ('\t', 9), ('n', 10), ('v', 11), ('f', 12), ('r', 13),
   ('e', 27), (' ', 32), ('"', 34), ('\\', 92), ('/', 47), ('N', 0x85), ('_', 0xA0),
   ('L', 0x2028), ('P', 0x2029)]

def codeLengths : List (Char × Nat) := [('x', 2), ('u', 4), ('U', 8)]

def codeUnit (value : Nat) : Except Fault Nat :=
  if value < 0x110000 then .ok value
  else .error (.noValue (if value < 0x80000000 then .noSuchValue else .tooLarge))

/-- A character inside a word, after the units of a gap. `next` follows the character. -/
def wordStep (double : Bool) (before : List Nat) (c next : Char) : QuotedStep :=
  if c == endMark then .fault .illFormed
  else if isSpace c then .take before (.gap (.spaces [c]))
  else if isBreak c then .take before (.gap (.breaks (some c) [] true))
  else if double then
    if c == '"' then .close before
    else if c == '\\' then .take before .escape
    else .take (before ++ [c.toNat]) (.gap .none)
  else if c == '\'' then
    if next == '\'' then .take before .escape else .close before
  else .take (before ++ [c.toNat]) (.gap .none)

/-- The character after the one that begins an escape. -/
def escapeStep (double : Bool) (c : Char) : QuotedStep :=
  if !double then .take [c.toNat] (.gap .none)
  else match escapes.lookup c with
    | some unit => .take [unit] (.gap .none)
    | none => match codeLengths.lookup c with
      | some digits => .take [] (.code digits 0)
      | none => if isBreak c then .take [] (.gap (.breaks none [] true)) else .fault .illFormed

def codeStep (digits value : Nat) (c : Char) : QuotedStep :=
  match Text.hexDigit? c with
  | none => .fault .illFormed
  | some d =>
    let value := value * 16 + d
    if digits ≤ 1 then
      match codeUnit value with
      | .ok unit => .take [unit] (.gap .none)
      | .error f => .fault f
    else .take [] (.code (digits - 1) value)

def quotedStep (double : Bool) (state : QuotedState) (c : Located) (r : Source) : QuotedStep :=
  match state with
  | .gap .none => wordStep double [] c.char r.peek
  | .gap (.spaces chars) =>
    if isSpace c.char then .take [] (.gap (.spaces (c.char :: chars)))
    else if isBreak c.char then .take [] (.gap (.breaks (some c.char) [] true))
    else wordStep double (unitsOf (Gap.text (.spaces chars))) c.char r.peek
  | .gap (.breaks first later fresh) =>
    if fresh && Source.atMarker (c :: r) then .fault .illFormed
    else if isSpace c.char then .take [] (.gap (.breaks first later false))
    else if isBreak c.char then .take [] (.gap (.breaks first (c.char :: later) true))
    else wordStep double (unitsOf (Gap.text (.breaks first later fresh))) c.char r.peek
  | .escape => escapeStep double c.char
  | .code digits value => codeStep digits value c.char

/-- The units up to the closing quote, and what follows the quote. -/
def quotedUnits (double : Bool) : QuotedState → Source → Except Fault (List Nat × Source)
  | _, [] => .error .illFormed
  | state, c :: r =>
    match quotedStep double state c r with
    | .fault f => .error f
    | .close units => .ok (units, r)
    | .take units next =>
      match quotedUnits double next r with
      | .error f => .error f
      | .ok (more, rest) => .ok (units ++ more, rest)

/-- The text after an opening quote, in stored form. Halves of a pair that two escapes name are not
joined. -/
def scanQuoted (double : Bool) (s : Source) : Except Fault (List Char × Source) :=
  match quotedUnits double (.gap .none) s with
  | .error f => .error f
  | .ok (units, rest) => .ok (units.flatMap Text.unitChars, rest)

end RowModel.Yaml
