import RowModel.Text.Units
import RowModel.Yaml.Fault
import RowModel.Yaml.Source

/-!
The names before a node: an anchor or alias, and a tag, which is a handle and a suffix or stands
alone. Bytes of a tag may be written in hexadecimal after a percent sign and are read as UTF-8.
-/
namespace RowModel.Yaml

/-- A tag as it is written; without a handle the suffix is the whole tag. -/
structure TagText where
  handle : Option (List Char)
  suffix : List Char
  deriving DecidableEq, Repr

def endsAnchor (c : Char) : Bool := isGap c || "?:,]\x7d%@`".toList.contains c

def scanAnchor (s : Source) : Except Fault (List Char × Source) :=
  let (name, rest) := s.span isNameChar
  if name.isEmpty || !endsAnchor rest.peek then .error .illFormed else .ok (name, rest)

def isUriChar (c : Char) : Bool :=
  c.isAlphanum || "-;/?:@&=+$,_.!~*'()[]%".toList.contains c

def decodeBytes : List Nat → Except Fault (List Char)
  | [] => .ok []
  | bytes => match String.fromUTF8? (ByteArray.mk (bytes.map UInt8.ofNat).toArray) with
  | some s => .ok s.toList
  | none => .error .illFormed

/-- Characters of a tag after the bytes `pending`, the last one first. -/
def uriChars (pending : List Nat) : Source → Except Fault (List Char × Source)
  | [] => (decodeBytes pending.reverse).map (·, [])
  | c :: r =>
    if c.char == '%' then
      match r with
      | a :: b :: rest =>
        match Text.hexDigit? a.char, Text.hexDigit? b.char with
        | some m, some n => uriChars ((m * 16 + n) :: pending) rest
        | _, _ => .error .illFormed
      | _ => .error .illFormed
    else
      match decodeBytes pending.reverse with
      | .error f => .error f
      | .ok before =>
        if isUriChar c.char then
          match uriChars [] r with
          | .error f => .error f
          | .ok (cs, rest) => .ok (before ++ c.char :: cs, rest)
        else .ok (before, c :: r)

/-- A tag or a part of one; it is never empty. -/
def scanUri (s : Source) : Except Fault (List Char × Source) :=
  if isUriChar s.peek then uriChars [] s else .error .illFormed

/-- What may follow a tag or a directive's name. A tab may not. -/
def endsTag (c : Char) : Bool := c == ' ' || endsLine c

/-- A handle: `!`, or a name between two of them. The first one has been read. -/
def scanHandle (s : Source) : Except Fault (List Char × Source) :=
  if s.peek == ' ' then .ok (['!'], s)
  else
    let (name, rest) := s.span isNameChar
    if rest.peek == '!' then .ok ('!' :: name ++ ['!'], rest.tail) else .error .illFormed

/-- Whether another `!` follows before the tag could end. -/
def hasHandle : Source → Bool
  | [] => false
  | c :: r => if endsTag c.char then false else c.char == '!' || hasHandle r

def tagText (s : Source) : Except Fault (TagText × Source) :=
  if s.peek == '<' then
    match scanUri s.tail with
    | .error f => .error f
    | .ok (suffix, rest) =>
      if rest.peek == '>' then .ok (⟨none, suffix⟩, rest.tail) else .error .illFormed
  else if isGap s.peek then .ok (⟨none, ['!']⟩, s)
  else
    match (if hasHandle s then scanHandle s else .ok (['!'], s)) with
    | .error f => .error f
    | .ok (handle, s) =>
      match scanUri s with
      | .error f => .error f
      | .ok (suffix, rest) => .ok (⟨some handle, suffix⟩, rest)

def scanTag (s : Source) : Except Fault (TagText × Source) :=
  match tagText s with
  | .error f => .error f
  | .ok (tag, rest) => if endsTag rest.peek then .ok (tag, rest) else .error .illFormed

end RowModel.Yaml
