import RowModel.Yaml.Block
import RowModel.Yaml.Plain
import RowModel.Yaml.Quoted
import RowModel.Yaml.Token

/-!
The tokens of a text. Whether a scalar or a bracket begins a mapping is known only at the colon
after it, so each of them is remembered as a candidate for a key until the line ends; at the colon
the key token is put in front of it.
-/
namespace RowModel.Yaml

/-- A place where a key may turn out to begin: before it stand `position` tokens. It is `required`
to be one when a block mapping would otherwise have to end there. -/
structure Candidate where
  position : Nat
  required : Bool
  index : Nat
  line : Nat
  column : Nat
  deriving DecidableEq, Repr

/-- A key stays on its line and is no longer than 1024 characters. -/
def Candidate.isStale (k : Candidate) (index line : Nat) : Bool :=
  k.line != line || decide (1024 < index - k.index)

/-- How far a text has been read. Tokens are kept with the last one first, `columns` holds the
columns of the open block collections, the innermost first, and `inner` the candidates inside the
open flow collections. -/
structure Scan where
  rest : Source
  tokens : List Token
  columns : List Nat
  outer : Option Candidate
  inner : List (Option Candidate)
  keyAllowed : Bool

namespace Scan

def start (s : Source) : Scan := ⟨s, [], [], none, [], true⟩

def inFlow (s : Scan) : Bool := !s.inner.isEmpty

def candidate (s : Scan) : Option Candidate :=
  match s.inner with
  | [] => s.outer
  | k :: _ => k

def setCandidate (k : Option Candidate) (s : Scan) : Scan :=
  match s.inner with
  | [] => { s with outer := k }
  | _ :: r => { s with inner := k :: r }

def candidates (s : Scan) : List Candidate := (s.outer :: s.inner).filterMap id

def push (t : Token) (s : Scan) : Scan := { s with tokens := t :: s.tokens }

def allow (b : Bool) (s : Scan) : Scan := { s with keyAllowed := b }

def moveTo (rest : Source) (s : Scan) : Scan := { s with rest }

/-- The least column of what belongs to the innermost block collection. -/
def least (s : Scan) : Nat :=
  match s.columns with
  | [] => 0
  | c :: _ => c + 1

/-- Spaces, comments and line ends are passed over; a line end outside flow collections allows a
key. -/
def blankRun (comment : Bool) : Source → Bool × Source
  | [] => (false, [])
  | c :: r =>
    if isBreak c.char then (true, (blankRun false r).2)
    else if comment && c.char != endMark || c.char == ' ' then blankRun comment r
    else if c.char == '#' then blankRun true r
    else (false, c :: r)

def skipBlank (s : Scan) : Scan :=
  let (crossed, rest) := blankRun false s.rest
  { s with rest, keyAllowed := s.keyAllowed || (crossed && !s.inFlow) }

/-- Candidates that can no longer be keys are dropped; one that had to be a key is a fault. -/
def dropStale (s : Scan) : Except Fault Scan :=
  let (index, line) := match s.rest with
    | [] => (0, 0)
    | c :: _ => (c.index, c.line)
  if s.candidates.any fun k => k.isStale index line && k.required then .error .illFormed
  else
    let keep := fun k : Option Candidate => k.filter fun k => !k.isStale index line
    .ok { s with outer := keep s.outer, inner := s.inner.map keep }

/-- Block collections whose column lies to the right of `column` are closed. -/
def closeBlocks (column : Nat) (s : Scan) : Scan :=
  let closed := s.columns.takeWhile (column < ·)
  { s with
    columns := s.columns.dropWhile (column < ·)
    tokens := List.replicate closed.length .blockEnd ++ s.tokens }

def closeAllBlocks (s : Scan) : Scan :=
  if s.inFlow then s
  else { s with columns := [], tokens := List.replicate s.columns.length .blockEnd ++ s.tokens }

def opensBlock (column : Nat) (s : Scan) : Bool :=
  match s.columns with
  | [] => true
  | c :: _ => decide (c < column)

def openBlock (column : Nat) (s : Scan) : Scan := { s with columns := column :: s.columns }

def dropCandidate (s : Scan) : Except Fault Scan :=
  if s.candidate.any (·.required) then .error .illFormed else .ok (s.setCandidate none)

def noteCandidate (s : Scan) : Except Fault Scan :=
  if s.keyAllowed then
    match s.rest with
    | [] => .ok s
    | c :: _ => s.dropCandidate.map (·.setCandidate (some
        { position := s.tokens.length
          required := !s.inFlow && s.columns.head? == some c.column
          index := c.index, line := c.line, column := c.column }))
  else .ok s

/-- The tokens `new`, the last one first, with `position` tokens before them. -/
def insertAt (position : Nat) (new : List Token) (s : Scan) : Scan :=
  let after := s.tokens.length - position
  { s with tokens := s.tokens.take after ++ new ++ s.tokens.drop after }

/-- The end of the block collections before a marker or a directive. -/
def closeDocument (s : Scan) : Except Fault Scan := s.closeAllBlocks.dropCandidate.map (allow false)

/-- `-`, `?` or a colon without a candidate in a block: a new collection may begin with it. -/
def blockIndicator (opening : Token) (column : Nat) (s : Scan) : Except Fault Scan :=
  if s.inFlow then .ok s
  else if !s.keyAllowed then .error .illFormed
  else if s.opensBlock column then .ok ((s.openBlock column).push opening) else .ok s

def openFlow (t : Token) (s : Scan) : Except Fault Scan :=
  s.noteCandidate.map fun s =>
    ({ s with inner := none :: s.inner, keyAllowed := true, rest := s.rest.tail }).push t

/-- A closing bracket; one that closes nothing is a fault. -/
def closeFlow (t : Token) (s : Scan) : Except Fault Scan :=
  match s.inner with
  | [] => .error .illFormed
  | _ :: inner => s.dropCandidate.map fun s =>
      ({ s with inner, keyAllowed := false, rest := s.rest.tail }).push t

def comma (s : Scan) : Except Fault Scan :=
  s.dropCandidate.map fun s => ((s.allow true).moveTo s.rest.tail).push .comma

def entry (column : Nat) (s : Scan) : Except Fault Scan := do
  let s ← s.blockIndicator .blockSequence column
  let s ← s.dropCandidate
  return ((s.allow true).moveTo s.rest.tail).push .entry

def explicitKey (column : Nat) (s : Scan) : Except Fault Scan := do
  let s ← s.blockIndicator .blockMapping column
  let s ← s.dropCandidate
  return ((s.allow (!s.inFlow)).moveTo s.rest.tail).push .key

/-- A colon. The candidate before it becomes a key, and begins a mapping when none is open at its
column. -/
def colon (column : Nat) (s : Scan) : Except Fault Scan :=
  match s.candidate with
  | some k =>
    let s := (s.setCandidate none).allow false
    let s := if !s.inFlow && s.opensBlock k.column then
        (s.openBlock k.column).insertAt k.position [.key, .blockMapping]
      else s.insertAt k.position [.key]
    .ok ((s.moveTo s.rest.tail).push .value)
  | none => do
    let s ← s.blockIndicator .blockMapping column
    let s ← s.dropCandidate
    return ((s.allow (!s.inFlow)).moveTo s.rest.tail).push .value

/-- A token that may begin a key, read by `read` after its first character. -/
def property (read : Source → Except Fault (Token × Source)) (s : Scan) : Except Fault Scan := do
  let s ← s.noteCandidate
  let (t, rest) ← read s.rest.tail
  return ((s.allow false).moveTo rest).push t

def plain (s : Scan) : Except Fault Scan :=
  s.noteCandidate.map fun s =>
    let p := scanPlain s.inFlow s.least .none s.rest
    ((s.allow p.crossed).moveTo p.rest).push (.scalar (Text.stored p.text) true)

def block (fold : Bool) (s : Scan) : Except Fault Scan := do
  let s ← s.dropCandidate
  let (text, rest) ← scanBlock fold s.least s.rest.tail
  return ((s.allow true).moveTo rest).push (.scalar (Text.stored text) false)

def directive (s : Scan) : Except Fault Scan := do
  let s ← s.closeDocument
  let (d, rest) ← scanDirective s.rest.tail
  return (s.moveTo rest).push (.directive d)

def marker (t : Token) (s : Scan) : Except Fault Scan :=
  s.closeDocument.map fun s => (s.moveTo (s.rest.drop 3)).push t

/-- The next token, which begins with `c` and has `next` as its second character. -/
def dispatch (c : Located) (next : Char) (s : Scan) : Except Fault Scan :=
  if c.column = 0 ∧ c.char = '%' then s.directive
  else if c.column = 0 ∧ s.rest.atMarker then
    s.marker (if c.char == '-' then .documentStart else .documentEnd)
  else match c.char with
    | '[' => s.openFlow .flowSequence
    | '\x7b' => s.openFlow .flowMapping
    | ']' => s.closeFlow .flowSequenceEnd
    | '\x7d' => s.closeFlow .flowMappingEnd
    | ',' => s.comma
    | '*' => s.property fun r => (scanAnchor r).map fun (n, r) => (.alias n, r)
    | '&' => s.property fun r => (scanAnchor r).map fun (n, r) => (.anchor n, r)
    | '!' => s.property fun r => (scanTag r).map fun (t, r) => (.tag t, r)
    | '\'' => s.property fun r => (scanQuoted false r).map fun (t, r) => (.scalar t false, r)
    | '"' => s.property fun r => (scanQuoted true r).map fun (t, r) => (.scalar t false, r)
    | ch =>
      if ch == '-' && isGap next then s.entry c.column
      else if ch == '?' && (s.inFlow || isGap next) then s.explicitKey c.column
      else if ch == ':' && (s.inFlow || isGap next) then s.colon c.column
      else if ch == '|' && !s.inFlow then s.block false
      else if ch == '>' && !s.inFlow then s.block true
      else if beginsPlain s.inFlow s.rest then s.plain
      else .error .illFormed

/-- One token further; `none` when the text is at its end. -/
def step (s : Scan) : Except Fault (Option Scan) := do
  let s ← s.skipBlank.dropStale
  match s.rest with
  | [] => return none
  | c :: r =>
    if c.char = endMark then return none
    else
      let s := if s.inFlow then s else s.closeBlocks c.column
      return some (← s.dispatch c (Source.peek r))

/-- The tokens that are known for sure: those before the first candidate. -/
def settled (s : Scan) : List Token :=
  let known := s.candidates.foldl (fun n k => min n k.position) s.tokens.length
  s.tokens.reverse.take known

/-- All tokens of a text, or those before a fault and the fault. -/
def run : Nat → Scan → List Token
  | 0, s => s.tokens.reverse
  | n + 1, s =>
    match s.dropStale with
    | .error f => s.settled ++ [.fault f]
    | .ok s =>
      match s.step with
      | .error f => s.settled ++ [.fault f]
      | .ok (some s) => run n s
      | .ok none =>
        match s.closeAllBlocks.dropCandidate with
        | .error f => s.settled ++ [.fault f]
        | .ok s => s.tokens.reverse ++ [.streamEnd]

end Scan

/-- The tokens of a text. Each one takes at least one character. -/
def Token.ofSource (s : Source) : List Token := Scan.run (s.length + 1) (Scan.start s)

end RowModel.Yaml
