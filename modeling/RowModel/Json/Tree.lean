import RowModel.Json

/-!
JSON texts as trees of what is written: blanks, digits and escapes stand in them as they do in the
text. A tree has one text and denotes one value.
-/
namespace RowModel.Json

structure Blanks where
  chars : List Char
  areBlank : ∀ c ∈ chars, isBlank c = true

structure Digits where
  chars : List Char
  ne_nil : chars ≠ []
  areDigits : ∀ c ∈ chars, c.isDigit = true

structure Exponent where
  capital : Bool
  /-- A written sign, true for a minus. -/
  sign : Option Bool
  digits : Digits

namespace Exponent

def signText : Option Bool → List Char
  | none => []
  | some false => ['+']
  | some true => ['-']

def text (e : Exponent) : List Char :=
  (if e.capital then 'E' else 'e') :: signText e.sign ++ e.digits.chars

def value (e : Exponent) : Int :=
  let n : Int := Text.decimalValue e.digits.chars
  if e.sign = some true then -n else n

end Exponent

/-- A number; only the number zero may begin with the digit zero. -/
structure Numeral where
  negative : Bool
  whole : Digits
  fraction : Option Digits
  exponent : Option Exponent
  no_leading_zero : whole.chars.head? = some '0' → whole.chars.length = 1

namespace Numeral

def signText (n : Numeral) : List Char := if n.negative then ['-'] else []

def fractionText (n : Numeral) : List Char :=
  match n.fraction with
  | none => []
  | some ds => '.' :: ds.chars

def exponentText (n : Numeral) : List Char := (n.exponent.map Exponent.text).getD []

def text (n : Numeral) : List Char :=
  n.signText ++ n.whole.chars ++ n.fractionText ++ n.exponentText

/-- A number without fraction and exponent is a whole one. -/
def value (n : Numeral) : Value :=
  match n.fraction, n.exponent with
  | none, none =>
    let m : Int := Text.decimalValue n.whole.chars
    .int (if n.negative then -m else m)
  | _, _ =>
    let ds := (n.fraction.map Digits.chars).getD []
    .float (Decimal.ofDecimal n.negative (Text.decimalValue (n.whole.chars ++ ds))
      ((n.exponent.map Exponent.value).getD 0 - ds.length))

end Numeral

inductive Atom where
  | null
  | bool (b : Bool)
  | number (n : Numeral)

namespace Atom

def text : Atom → List Char
  | null => ['n', 'u', 'l', 'l']
  | bool true => ['t', 'r', 'u', 'e']
  | bool false => ['f', 'a', 'l', 's', 'e']
  | number n => n.text

end Atom

/-- A character of a string, written as itself or after a backslash. -/
inductive Part where
  | char (c : Char) (h : 0x20 ≤ c.toNat ∧ c ≠ '"' ∧ c ≠ '\\')
  | escape (letter c : Char) (h : escapes.lookup letter = some c)
  | code (a b c d : Char) (n : Nat) (h : hexUnit? a b c d = some n)

namespace Part

def text : Part → List Char
  | char c _ => [c]
  | escape letter _ _ => ['\\', letter]
  | code a b c d _ _ => ['\\', 'u', a, b, c, d]

def unit : Part → Nat
  | char c _ => c.toNat
  | escape _ c _ => c.toNat
  | code _ _ _ _ n _ => n

end Part

/-- What stands between the quotes of a string. -/
def partsText (ps : List Part) : List Char := ps.flatMap Part.text

/-- What a string denotes; the halves of a pair are one character. -/
def partsValue (ps : List Part) : String := String.ofList (Text.ofUnits (ps.map Part.unit))

/-- The name of a member, up to its colon. -/
structure Label where
  before : Blanks
  parts : List Part
  after : Blanks

def Label.text (l : Label) : List Char :=
  l.before.chars ++ '"' :: partsText l.parts ++ '"' :: l.after.chars ++ [':']

mutual

inductive Tree where
  | atom (a : Atom)
  | string (parts : List Part)
  | emptyArray (inside : Blanks)
  | array (items : Items)
  | emptyObject (inside : Blanks)
  | object (members : Members)

inductive Items where
  | last (before : Blanks) (item : Tree) (after : Blanks)
  | more (before : Blanks) (item : Tree) (after : Blanks) (others : Items)

inductive Members where
  | last (label : Label) (before : Blanks) (value : Tree) (after : Blanks)
  | more (label : Label) (before : Blanks) (value : Tree) (after : Blanks) (others : Members)

end

mutual

def Tree.text : Tree → List Char
  | .atom a => a.text
  | .string ps => '"' :: partsText ps ++ ['"']
  | .emptyArray b => '[' :: b.chars ++ [']']
  | .array items => '[' :: items.text
  | .emptyObject b => '\x7b' :: b.chars ++ ['\x7d']
  | .object members => '\x7b' :: members.text

def Items.text : Items → List Char
  | .last b t a => b.chars ++ t.text ++ a.chars ++ [']']
  | .more b t a others => b.chars ++ t.text ++ a.chars ++ ',' :: others.text

def Members.text : Members → List Char
  | .last l b t a => l.text ++ b.chars ++ t.text ++ a.chars ++ ['\x7d']
  | .more l b t a others => l.text ++ b.chars ++ t.text ++ a.chars ++ ',' :: others.text

end

/-- Entries under their keys, of which the last one for a key counts. -/
def enter (es : List (Value × Value)) (entries : List (Value × Value)) : List (Value × Value) :=
  entries.foldl (fun es (k, v) => Value.insert k v es) es

/-- What the leaves of a text stand for. -/
structure Leaves where
  number : Numeral → Value
  string : List Part → String

def Leaves.atom (l : Leaves) : Atom → Value
  | .null => .null
  | .bool b => .bool b
  | .number n => l.number n

mutual

/-- The value of a tree from what its leaves stand for. -/
def Leaves.tree (l : Leaves) : Tree → Value
  | .atom a => l.atom a
  | .string ps => .str (l.string ps)
  | .emptyArray _ => .list []
  | .array items => .list (l.items items)
  | .emptyObject _ => .map []
  | .object members => .map (enter [] (l.members members))

def Leaves.items (l : Leaves) : Items → List Value
  | .last _ t _ => [l.tree t]
  | .more _ t _ others => l.tree t :: l.items others

def Leaves.members (l : Leaves) : Members → List (Value × Value)
  | .last name _ t _ => [(.str (l.string name.parts), l.tree t)]
  | .more name _ t _ others => (.str (l.string name.parts), l.tree t) :: l.members others

end

def denoted : Leaves := ⟨Numeral.value, partsValue⟩

def Tree.value (t : Tree) : Value := denoted.tree t

def Items.values (items : Items) : List Value := denoted.items items

def Members.entries (members : Members) : List (Value × Value) := denoted.members members

structure Document where
  before : Blanks
  root : Tree
  after : Blanks

def Document.text (d : Document) : List Char :=
  d.before.chars ++ d.root.text ++ d.after.chars

end RowModel.Json
