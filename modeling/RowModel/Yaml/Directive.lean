import RowModel.Text.Digit
import RowModel.Yaml.Property

/-!
Directives before a document: the version of the format, a handle for tags, and others, which are
read over.
-/
namespace RowModel.Yaml

inductive Directive where
  | version (major : Nat)
  | tag (handle stem : List Char)
  | other
  deriving DecidableEq, Repr

/-- A whole number in decimal digits. With too many of them it has no value. -/
def scanNumber (s : Source) : Except Fault (Nat × Source) :=
  let (ds, rest) := s.span Char.isDigit
  if ds.isEmpty then .error .illFormed
  else if Text.digitLimit < ds.length then .error (.noValue .noSuchValue)
  else .ok (Text.decimalValue ds, rest)

def scanVersion (s : Source) : Except Fault (Directive × Source) :=
  match scanNumber (s.skip (· == ' ')) with
  | .error f => .error f
  | .ok (major, s) =>
    if s.peek != '.' then .error .illFormed
    else match scanNumber s.tail with
      | .error f => .error f
      | .ok (_, s) => if endsTag s.peek then .ok (.version major, s) else .error .illFormed

def scanTagDirective (s : Source) : Except Fault (Directive × Source) :=
  let s := s.skip (· == ' ')
  if s.peek != '!' then .error .illFormed
  else match scanHandle s.tail with
    | .error f => .error f
    | .ok (handle, s) =>
      if s.peek != ' ' then .error .illFormed
      else match scanUri (s.skip (· == ' ')) with
        | .error f => .error f
        | .ok (stem, s) =>
          if endsTag s.peek then .ok (.tag handle stem, s) else .error .illFormed

/-- The directive after `%`, with the end of its line. -/
def scanDirective (s : Source) : Except Fault (Directive × Source) :=
  let (name, s) := s.span isNameChar
  if name.isEmpty || !endsTag (Source.peek s) then .error .illFormed
  else
    let read :=
      if name = "YAML".toList then scanVersion s
      else if name = "TAG".toList then scanTagDirective s
      else .ok (.other, Source.skip (!endsLine ·) s)
    match read with
    | .error f => .error f
    | .ok (d, s) =>
      match s.endOfLine? with
      | none => .error .illFormed
      | some s => .ok (d, s)

end RowModel.Yaml
