import RowModel.Decimal.Double
import RowModel.Text.Digit
import RowModel.Text.Units
import RowModel.Value.Basic

/-!
The value that a JSON text denotes. Objects keep the order of their members, a repeated name keeps
its first place and its last value, and a number without fraction and exponent is a whole number.
-/
namespace RowModel.Json

def isBlank (c : Char) : Bool := c == ' ' || c == '\t' || c == '\n' || c == '\r'

def skip (s : List Char) : List Char := s.dropWhile isBlank

def escapes : List (Char × Char) :=
  [('"', '"'), ('\\', '\\'), ('/', '/'), ('b', '\x08'), ('f', '\x0c'), ('n', '\n'), ('r', '\r'),
   ('t', '\t')]

def hexUnit? (a b c d : Char) : Option Nat := do
  let a ← Text.hexDigit? a
  let b ← Text.hexDigit? b
  let c ← Text.hexDigit? c
  let d ← Text.hexDigit? d
  return ((a * 16 + b) * 16 + c) * 16 + d

/-- The units of a string up to its closing quote, and what follows the quote. -/
def stringUnits : List Char → Option (List Nat × List Char)
  | [] => none
  | '"' :: r => some ([], r)
  | '\\' :: 'u' :: a :: b :: c :: d :: r => do
    let unit ← hexUnit? a b c d
    let (units, rest) ← stringUnits r
    return (unit :: units, rest)
  | '\\' :: e :: r => do
    let c ← escapes.lookup e
    let (units, rest) ← stringUnits r
    return (c.toNat :: units, rest)
  | c :: r =>
    if c.toNat < 0x20 ∨ c = '\\' then none
    else do
      let (units, rest) ← stringUnits r
      return (c.toNat :: units, rest)

/-- The string after an opening quote. -/
def string? (s : List Char) : Option (String × List Char) :=
  (stringUnits s).map fun (units, rest) => (String.ofList (Text.ofUnits units), rest)

def digits (s : List Char) : List Char × List Char :=
  (s.takeWhile Char.isDigit, s.dropWhile Char.isDigit)

/-- The digits of a fraction; without a point there is none. -/
def fraction? (s : List Char) : Option (Option (List Char) × List Char) :=
  match s with
  | '.' :: r =>
    let (ds, rest) := digits r
    if ds.isEmpty then none else some (some ds, rest)
  | _ => some (none, s)

def exponent? (s : List Char) : Option (Option Int × List Char) :=
  match s with
  | e :: r =>
    if e = 'e' ∨ e = 'E' then
      let (negative, r) := match r with
        | '-' :: r => (true, r)
        | '+' :: r => (false, r)
        | _ => (false, r)
      let (ds, rest) := digits r
      if ds.isEmpty then none
      else
        let n : Int := Text.decimalValue ds
        some (some (if negative then -n else n), rest)
    else some (none, s)
  | [] => some (none, s)

def number? (s : List Char) : Option (Value × List Char) := do
  let (negative, s) := match s with
    | '-' :: r => (true, r)
    | _ => (false, s)
  let (whole, r) := digits s
  if whole.isEmpty || (whole.head? == some '0' && whole.length != 1) then none
  else do
    let (part, r) ← fraction? r
    let (exponent, r) ← exponent? r
    match part, exponent with
    | none, none =>
      let n : Int := Text.decimalValue whole
      return (.int (if negative then -n else n), r)
    | _, _ =>
      let ds := part.getD []
      return (.float (Decimal.ofDecimal negative (Text.decimalValue (whole ++ ds))
        (exponent.getD 0 - ds.length)), r)

def word? (s : List Char) : Option (Value × List Char) :=
  match s with
  | 'n' :: 'u' :: 'l' :: 'l' :: r => some (.null, r)
  | 't' :: 'r' :: 'u' :: 'e' :: r => some (.bool true, r)
  | 'f' :: 'a' :: 'l' :: 's' :: 'e' :: r => some (.bool false, r)
  | _ => none

mutual

def value? : Nat → List Char → Option (Value × List Char)
  | 0, _ => none
  | n + 1, s =>
    match skip s with
    | '"' :: r => (string? r).map fun (t, rest) => (.str t, rest)
    | '[' :: r => (items? n true r).map fun (items, rest) => (.list items, rest)
    | '\x7b' :: r => (members? n true [] r).map fun (es, rest) => (.map es, rest)
    | s => (word? s).orElse fun _ => number? s

/-- The items of an array up to its closing bracket; between items there is a comma. -/
def items? : Nat → Bool → List Char → Option (List Value × List Char)
  | 0, _, _ => none
  | n + 1, first, s =>
    match first, skip s with
    | true, ']' :: r => some ([], r)
    | true, s => do
      let (v, r) ← value? n s
      let (vs, rest) ← items? n false r
      return (v :: vs, rest)
    | false, ']' :: r => some ([], r)
    | false, ',' :: r => do
      let (v, r) ← value? n r
      let (vs, rest) ← items? n false r
      return (v :: vs, rest)
    | false, _ => none

/-- The members of an object up to its closing brace, put into those that stand before. -/
def members? : Nat → Bool → List (Value × Value) → List Char →
    Option (List (Value × Value) × List Char)
  | 0, _, _, _ => none
  | n + 1, first, es, s =>
    match first, skip s with
    | _, '\x7d' :: r => some (es, r)
    | true, s => member? n es s
    | false, ',' :: r => member? n es r
    | false, _ => none

def member? : Nat → List (Value × Value) → List Char →
    Option (List (Value × Value) × List Char)
  | 0, _, _ => none
  | n + 1, es, s =>
    match skip s with
    | '"' :: r =>
      match string? r with
      | none => none
      | some (name, r) =>
        match skip r with
        | ':' :: r => do
          let (v, r) ← value? n r
          members? n false (Value.insert (.str name) v es) r
        | _ => none
    | _ => none

end

/-- The value of a text that holds one JSON value and nothing else. -/
def read? (s : List Char) : Option Value :=
  match value? (3 * s.length + 3) s with
  | some (v, rest) => if (skip rest).isEmpty then some v else none
  | none => none

end RowModel.Json
