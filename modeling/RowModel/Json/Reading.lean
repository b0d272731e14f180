import RowModel.Json.Tree
import RowModel.Yaml.Node.Read
import RowModel.Yaml.Quoted
import Mathlib.Data.List.Chain

/-!
What the reader of documents makes of a JSON text, and which texts it can read. It folds the lines of
a string, does not join halves that two codes name, and takes a number with an exponent for one only if
it has a point and the exponent a sign. No tab may stand between tokens, no line of a string begin with
a document marker, and a name and its colon belong on one line.
-/
namespace RowModel.Json

open Yaml (Gap isBreak isGap unitsOf)

/-- A character as the reader has it, for whom three characters end a line in the same way. -/
def lineChar (c : Char) : Char := if c = '\r' ∨ c = '\x85' then '\n' else c

def Part.head : Part → Char
  | .char c _ => lineChar c
  | .escape _ _ _ | .code _ _ _ _ _ _ => '\\'

/-- A gap with one more character; nothing if that belongs to a word. -/
def widened (g : Gap) (c : Char) : Option Gap :=
  if c = ' ' then
    match g with
    | .none => some (.spaces [c])
    | .spaces cs => some (.spaces (c :: cs))
    | .breaks first later _ => some (.breaks first later false)
  else if isBreak c then
    match g with
    | .breaks first later _ => some (.breaks first (c :: later) true)
    | _ => some (.breaks (some c) [] true)
  else none

/-- The units of a string once its lines are folded, from a gap on. -/
def foldedUnits (g : Gap) : List Part → List Nat
  | [] => unitsOf g.text
  | p :: ps =>
    match widened g p.head with
    | some g => foldedUnits g ps
    | none => unitsOf g.text ++ p.unit :: foldedUnits .none ps

/-- What the reader takes a string for. -/
def foldedValue (ps : List Part) : String :=
  String.ofList ((foldedUnits .none ps).flatMap Text.unitChars)

def beginsMarker : List Char → Bool
  | a :: b :: c :: d :: _ => (a == '-' || a == '.') && b == a && c == a && isGap d
  | _ => false

/-- Whether no line begins with a document marker; the first one counts if it is `fresh`. -/
def markerFree (fresh : Bool) : List Part → Bool
  | [] => true
  | p :: ps =>
    !(fresh && beginsMarker ((partsText (p :: ps)).map lineChar)) &&
      markerFree (isBreak p.head) ps

namespace Numeral

def isWhole (n : Numeral) : Bool := n.fraction.isNone && n.exponent.isNone

def isRecognised (n : Numeral) : Bool :=
  match n.exponent with
  | none => true
  | some e => n.fraction.isSome && e.sign.isSome

def reading (n : Numeral) : Value :=
  if n.isRecognised then n.value else .str (String.ofList n.text)

end Numeral

/-- What the reader takes leaves for. -/
def read : Leaves := ⟨Numeral.reading, foldedValue⟩

def endsLine (c : Char) : Bool := isBreak (lineChar c)

/-- What stands between the quote that opens a name and the colon. -/
def Label.body (l : Label) : List Char := partsText l.parts ++ '"' :: l.after.chars

/-- Whether a name can be a key: up to its colon it is on one line, and not too long. -/
def Label.isKey (l : Label) : Bool :=
  l.body.all (!endsLine ·) && decide (1 + l.body.length ≤ 1024)

/-- What trees are made of. -/
inductive Piece where
  | blanks (b : Blanks)
  | numeral (n : Numeral)
  | string (ps : List Part)
  | label (l : Label)

def Atom.pieces : Atom → List Piece
  | number n => [.numeral n]
  | _ => []

def Label.pieces (l : Label) : List Piece :=
  [.blanks l.before, .string l.parts, .blanks l.after, .label l]

mutual

def Tree.pieces : Tree → List Piece
  | .atom a => a.pieces
  | .string ps => [.string ps]
  | .emptyArray b => [.blanks b]
  | .array items => items.pieces
  | .emptyObject b => [.blanks b]
  | .object members => members.pieces

def Items.pieces : Items → List Piece
  | .last b t a => .blanks b :: t.pieces ++ [.blanks a]
  | .more b t a others => .blanks b :: t.pieces ++ .blanks a :: others.pieces

def Members.pieces : Members → List Piece
  | .last l b t a => l.pieces ++ .blanks b :: t.pieces ++ [.blanks a]
  | .more l b t a others => l.pieces ++ .blanks b :: t.pieces ++ .blanks a :: others.pieces

end

def Document.pieces (d : Document) : List Piece :=
  .blanks d.before :: d.root.pieces ++ [.blanks d.after]

mutual

def Tree.height : Tree → Nat
  | .atom _ | .string _ => 0
  | .emptyArray _ | .emptyObject _ => 0
  | .array items => items.height + 1
  | .object members => members.height + 1

def Items.height : Items → Nat
  | .last _ t _ => t.height
  | .more _ t _ others => max t.height others.height

def Members.height : Members → Nat
  | .last _ _ t _ => t.height
  | .more _ _ t _ others => max t.height others.height

end

namespace Piece

def isScanned : Piece → Bool
  | blanks b => !b.chars.contains '\t'
  | string ps => markerFree false ps
  | numeral _ | label _ => true

def isKeyed : Piece → Bool
  | label l => l.isKey
  | _ => true

/-- Whether a whole number can be worked with. -/
def isShort : Piece → Bool
  | numeral n => !n.isWhole || decide (n.whole.chars.length ≤ Text.digitLimit)
  | _ => true

end Piece

namespace Document

variable [Machine]

/-- The texts that the reader of documents finds a tree of nodes for. -/
structure IsFound (d : Document) : Prop where
  allowed : ∀ c ∈ d.text, Yaml.isAllowed c = true
  scanned : ∀ p ∈ d.pieces, p.isScanned = true
  keyed : ∀ p ∈ d.pieces, p.isKeyed = true
  shallow : d.root.height ≤ Machine.reading

/-- The texts that it can read: the scalars that it finds have values, too. -/
structure Readable (d : Document) : Prop extends d.IsFound where
  short : ∀ p ∈ d.pieces, p.isShort = true

end Document

/-- Whether of two characters after one another none is a space beside the end of a line. -/
def areSpaced (p q : Part) : Bool :=
  !(p.head == ' ' && isBreak q.head) && !(isBreak p.head && q.head == ' ')

/-- Whether two units are halves that fit. -/
def arePaired (m n : Nat) : Bool := Text.isHighHalf m && Text.isLowHalf n

/-- Strings that the reader takes for what they denote: none of their characters ends a line like a line
feed, no space stands beside one that ends a line, and no two halves fit. -/
structure StringAlike (ps : List Part) : Prop where
  head_ne : ∀ p ∈ ps, p.head ≠ '\n'
  spaced : ps.IsChain fun p q => areSpaced p q = true
  unpaired : (ps.map Part.unit).IsChain fun m n => arePaired m n = false

def Label.name (l : Label) : String := partsValue l.parts

def Members.labels : Members → List Label
  | .last l _ _ _ => [l]
  | .more l _ _ _ others => l :: others.labels

def Members.names (members : Members) : List String := members.labels.map Label.name

def Atom.Alike : Atom → Prop
  | number n => n.isRecognised = true
  | _ => True

mutual

/-- Trees that the reader takes for what they denote. Of several members with one name only the last
value counts. -/
def Tree.Alike : Tree → Prop
  | .atom a => a.Alike
  | .string ps => StringAlike ps
  | .emptyArray _ | .emptyObject _ => True
  | .array items => items.Alike
  | .object members => members.Alike

def Items.Alike : Items → Prop
  | .last _ t _ => t.Alike
  | .more _ t _ others => t.Alike ∧ others.Alike

def Members.Alike : Members → Prop
  | .last l _ t _ => StringAlike l.parts ∧ t.Alike
  | .more l _ t _ others =>
    StringAlike l.parts ∧ (t.Alike ∨ l.name ∈ others.names) ∧ others.Alike

end

end RowModel.Json
