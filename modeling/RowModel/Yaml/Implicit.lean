import RowModel.Text.Split
import RowModel.Text.Units
import RowModel.Yaml.Tag
import RowModel.Yaml.Timestamp

/-!
The tag of a plain scalar, from the shape of its text.
-/
namespace RowModel.Yaml

def boolWords : List (List Char) :=
  ["yes", "Yes", "YES", "no", "No", "NO", "true", "True", "TRUE", "false", "False", "FALSE",
   "on", "On", "ON", "off", "Off", "OFF"].map String.toList

def nullWords : List (List Char) := ["~", "null", "Null", "NULL", ""].map String.toList

def unsigned (s : List Char) : List Char :=
  match s with
  | c :: r => if c = '+' ∨ c = '-' then r else s
  | [] => []

def isDigitMark (c : Char) : Bool := c.isDigit || c == '_'

/-- A digit, then digits and underscores. -/
def isDigitRun (s : List Char) : Bool :=
  match s with
  | c :: r => c.isDigit && r.all isDigitMark
  | [] => false

/-- Up to 59, in one digit or two. -/
def isSixtieth (s : List Char) : Bool :=
  match s with
  | [c] => c.isDigit
  | [c, d] => decide ('0' ≤ c ∧ c ≤ '5') && d.isDigit
  | _ => false

/-- A number to the base sixty: more than one place, the first of them of any size. -/
def isSexagesimal (s : List Char) : Bool :=
  match Text.splitOn ':' s with
  | first :: places => isDigitRun first && !places.isEmpty && places.all isSixtieth
  | [] => false

def isInt (s : List Char) : Bool :=
  let s := unsigned s
  match s with
  | '0' :: 'b' :: r => !r.isEmpty && r.all fun c => c == '0' || c == '1' || c == '_'
  | '0' :: 'x' :: r => !r.isEmpty && r.all fun c => (Text.hexDigit? c).isSome || c == '_'
  | '0' :: r => r.all fun c => decide ('0' ≤ c ∧ c ≤ '7') || c == '_'
  | _ => isDigitRun s || isSexagesimal s

def isExponent (s : List Char) : Bool :=
  match s with
  | [] => true
  | e :: sign :: ds =>
    (e == 'e' || e == 'E') && (sign == '+' || sign == '-') && !ds.isEmpty && ds.all Char.isDigit
  | _ => false

def infinityWords : List (List Char) := [".inf", ".Inf", ".INF"].map String.toList

def nanWords : List (List Char) := [".nan", ".NaN", ".NAN"].map String.toList

/-- A number with a point. A sign stands only before digits and infinity, an exponent not after base
sixty. -/
def isFloat (s : List Char) : Bool :=
  infinityWords.contains (unsigned s) || nanWords.contains s ||
  match Text.cutFirst '.' s with
  | none => false
  | some (whole, part) =>
    let afterDigits := part.dropWhile isDigitMark
    (isDigitRun (unsigned whole) && isExponent afterDigits) ||
      (whole.isEmpty && part.head?.any Char.isDigit && isExponent afterDigits) ||
      (isSexagesimal (unsigned whole) && afterDigits.isEmpty)

def isTimestamp (s : List Char) : Bool := (Timestamp.parse? s).any (·.isRecognised)

/-- A text without the line feed at its end. -/
def withoutFinalBreak (s : List Char) : List Char :=
  if s.getLast? = some '\n' then s.dropLast else s

/-- The tag of a scalar that may stand for something else than text. A line feed at its end makes no
difference, unless there is nothing else. -/
def Tag.implicit (s : List Char) : Tag :=
  if s = ['\n'] then .str
  else
    let s := withoutFinalBreak s
    if boolWords.contains s then .bool
    else if isFloat s then .float
    else if isInt s then .int
    else if s = ['<', '<'] then .merge
    else if nullWords.contains s then .null
    else if isTimestamp s then .timestamp
    else if s = ['='] then .value
    else if [['!'], ['&'], ['*']].contains s then .unknown
    else .str

example : Tag.implicit "1:30".toList = .int := by decide
example : Tag.implicit "1e3".toList = .str := by decide
example : Tag.implicit "1.e+3".toList = .float := by decide
example : Tag.implicit "08".toList = .str := by decide
example : Tag.implicit "null".toList = .null := by decide

end RowModel.Yaml
