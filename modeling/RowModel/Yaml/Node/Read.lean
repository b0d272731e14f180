import RowModel.Machine
import RowModel.Yaml.Node
import RowModel.Yaml.Token.Scan

/-!
The node that tokens spell. Every reading step looks at the next token alone. Entries may lack a
key, a value or both, and what is missing is null. An alias inside the very collection that its anchor
names makes the document endless.
-/
namespace RowModel.Yaml.Node

/-- The tokens left, the nodes that anchors have named so far, the number of nodes that are complete
and of those that are not. A name is taken from the place of its anchor on, but has no node before
that node is complete. -/
structure Reader where
  tokens : List Token
  anchors : List (List Char × Option Node)
  count : Nat
  depth : Nat

/-- Where a node stands decides which collections may begin there. -/
inductive Place where
  | flow
  | block
  /-- At a key or value of a block mapping, where a sequence needs no indentation. -/
  | part
  deriving DecidableEq, Repr

structure Properties where
  anchor : Option (List Char)
  tag : Option (List Char)
  deriving DecidableEq, Repr

namespace Reader

def dropTo (tokens : List Token) (r : Reader) : Reader := { r with tokens }

def unexpected (r : Reader) : Fault :=
  match r.tokens with
  | .fault f :: _ => f
  | _ => .illFormed

/-- Gives a name its node, or takes it for one that is to come. -/
def name (anchor : Option (List Char)) (node : Option Node) (r : Reader) : Reader :=
  match anchor with
  | none => r
  | some a => { r with anchors := (a, node) :: r.anchors }

def deeper (r : Reader) : Reader := { r with depth := r.depth + 1 }

/-- Completes a node, which gets the next number. -/
def complete (make : Nat → Node) (r : Reader) : Node × Reader :=
  (make (r.count + 1), { r with count := r.count + 1, depth := r.depth - 1 })

def isTaken (anchor : Option (List Char)) (r : Reader) : Bool :=
  anchor.any fun a => (r.anchors.lookup a).isSome

def next (t : Token) (r : Reader) : Bool := r.tokens.head? == some t

def nextIn (ts : List Token) (r : Reader) : Bool := ts.any r.next

/-- Anchor and tag in either order. The tag's handle must be known. -/
def properties (handles : Handles) (r : Reader) : Except Fault (Properties × Reader) :=
  let full (anchor : Option (List Char)) (t : TagText) (ts : List Token) :=
    match t.full? handles with
    | some tag => .ok (⟨anchor, some tag⟩, r.dropTo ts)
    | none => .error .illFormed
  match r.tokens with
  | .anchor a :: .tag t :: ts => full (some a) t ts
  | .tag t :: .anchor a :: ts => full (some a) t ts
  | .anchor _ :: .fault f :: _ => .error f
  | .tag _ :: .fault f :: _ => .error f
  | .anchor a :: ts => .ok (⟨some a, none⟩, r.dropTo ts)
  | .tag t :: ts => full none t ts
  | _ => .ok (⟨none, none⟩, r)

/-- The comma before every entry of a flow collection but the first. -/
def comma (first : Bool) (r : Reader) : Except Fault Reader :=
  match first, r.tokens with
  | true, _ => .ok r
  | false, .comma :: ts => .ok (r.dropTo ts)
  | false, _ => .error r.unexpected

end Reader

abbrev Read (α : Type) := Except Fault (α × Reader)

variable [Machine]

mutual

def read (handles : Handles) : Nat → Place → Reader → Read Node
  | 0, _, _ => .error .illFormed
  | n + 1, place, r =>
    match r.tokens with
    | .alias a :: ts =>
      match r.anchors.lookup a with
      | some (some node) => .ok (node, r.dropTo ts)
      | some none => .error .endless
      | none => .error .illFormed
    | _ =>
      match r.properties handles with
      | .error f => .error f
      | .ok (p, r) =>
        match r.tokens with
        | .fault f :: _ => .error f
        | _ =>
          if Machine.reading < r.depth then .error .tooDeep
          else if r.isTaken p.anchor then .error .illFormed
          else match readContent handles n place p (r.deeper.name p.anchor none) with
            | .error f => .error f
            | .ok (node, r) => .ok (node, r.name p.anchor (some node))

/-- A node after its properties; with properties there may be nothing. -/
def readContent (handles : Handles) : Nat → Place → Properties → Reader → Read Node
  | 0, _, _, _ => .error .illFormed
  | n + 1, place, p, r =>
    match r.tokens with
    | .scalar text plain :: ts =>
      .ok ((r.dropTo ts).complete fun k => scalar k (scalarTag p.tag plain text) text)
    | .flowSequence :: ts =>
      match readFlowItems handles n true (r.dropTo ts) with
      | .error f => .error f
      | .ok (items, r) => .ok (r.complete fun k => sequence k (collectionTag .seq p.tag) items)
    | .flowMapping :: ts =>
      match readFlowEntries handles n true (r.dropTo ts) with
      | .error f => .error f
      | .ok (entries, r) => .ok (r.complete fun k => mapping k (collectionTag .map p.tag) entries)
    | t :: ts =>
      if t = .blockSequence ∧ place ≠ .flow then
        match readBlockItems handles n (r.dropTo ts) with
        | .error f => .error f
        | .ok (items, r) => .ok (r.complete fun k => sequence k (collectionTag .seq p.tag) items)
      else if t = .blockMapping ∧ place ≠ .flow then
        match readBlockEntries handles n (r.dropTo ts) with
        | .error f => .error f
        | .ok (entries, r) => .ok (r.complete fun k => mapping k (collectionTag .map p.tag) entries)
      else if t = .entry ∧ place = .part then
        match readLooseItems handles n r with
        | .error f => .error f
        | .ok (items, r) => .ok (r.complete fun k => sequence k (collectionTag .seq p.tag) items)
      else if p = ⟨none, none⟩ then .error r.unexpected
      else .ok (r.complete fun k => scalar k (scalarTag p.tag true []) [])
    | [] => .error .illFormed

/-- A node, or null before one of the tokens `ends`. -/
def readUnless (handles : Handles) : Nat → List Token → Place → Reader → Read Node
  | 0, _, _, _ => .error .illFormed
  | n + 1, ends, place, r => if r.nextIn ends then .ok (empty, r) else read handles n place r

/-- The value after a key: null when the token for a value is missing. -/
def readValue (handles : Handles) : Nat → List Token → Place → Reader → Read Node
  | 0, _, _, _ => .error .illFormed
  | n + 1, ends, place, r =>
    match r.tokens with
    | .value :: ts => readUnless handles n ends place (r.dropTo ts)
    | _ => .ok (empty, r)

def readBlockItems (handles : Handles) : Nat → Reader → Read (List Node)
  | 0, _ => .error .illFormed
  | n + 1, r =>
    match r.tokens with
    | .entry :: ts =>
      match readUnless handles n [.entry, .blockEnd] .block (r.dropTo ts) with
      | .error f => .error f
      | .ok (item, r) =>
        match readBlockItems handles n r with
        | .error f => .error f
        | .ok (items, r) => .ok (item :: items, r)
    | .blockEnd :: ts => .ok ([], r.dropTo ts)
    | _ => .error r.unexpected

/-- The items of a sequence that stands at the column of its key. -/
def readLooseItems (handles : Handles) : Nat → Reader → Read (List Node)
  | 0, _ => .error .illFormed
  | n + 1, r =>
    match r.tokens with
    | .entry :: ts =>
      match readUnless handles n [.entry, .key, .value, .blockEnd] .block (r.dropTo ts) with
      | .error f => .error f
      | .ok (item, r) =>
        match readLooseItems handles n r with
        | .error f => .error f
        | .ok (items, r) => .ok (item :: items, r)
    | _ => .ok ([], r)

def readBlockEntries (handles : Handles) : Nat → Reader → Read (List (Node × Node))
  | 0, _ => .error .illFormed
  | n + 1, r =>
    match r.tokens with
    | .key :: ts =>
      match readUnless handles n [.key, .value, .blockEnd] .part (r.dropTo ts) with
      | .error f => .error f
      | .ok (key, r) =>
        match readValue handles n [.key, .value, .blockEnd] .part r with
        | .error f => .error f
        | .ok (value, r) =>
          match readBlockEntries handles n r with
          | .error f => .error f
          | .ok (entries, r) => .ok ((key, value) :: entries, r)
    | .blockEnd :: ts => .ok ([], r.dropTo ts)
    | _ => .error r.unexpected

/-- The items of a bracketed sequence; one that has a key is a mapping of one entry. -/
def readFlowItems (handles : Handles) : Nat → Bool → Reader → Read (List Node)
  | 0, _, _ => .error .illFormed
  | n + 1, first, r =>
    match r.tokens with
    | .flowSequenceEnd :: ts => .ok ([], r.dropTo ts)
    | _ =>
      match r.comma first with
      | .error f => .error f
      | .ok r =>
        match r.tokens with
        | .flowSequenceEnd :: ts => .ok ([], r.dropTo ts)
        | _ =>
          match readFlowItem handles n r with
          | .error f => .error f
          | .ok (item, r) =>
            match readFlowItems handles n false r with
            | .error f => .error f
            | .ok (items, r) => .ok (item :: items, r)

def readFlowItem (handles : Handles) : Nat → Reader → Read Node
  | 0, _ => .error .illFormed
  | n + 1, r =>
    match r.tokens with
    | .key :: ts =>
      match readUnless handles n [.value, .comma, .flowSequenceEnd] .flow
          (r.deeper.dropTo ts) with
      | .error f => .error f
      | .ok (key, r) =>
        match readValue handles n [.comma, .flowSequenceEnd] .flow r with
        | .error f => .error f
        | .ok (value, r) => .ok (r.complete fun k => mapping k .map [(key, value)])
    | _ => read handles n .flow r

/-- The entries of a braced mapping; one without a key token is a key without a value. -/
def readFlowEntries (handles : Handles) : Nat → Bool → Reader → Read (List (Node × Node))
  | 0, _, _ => .error .illFormed
  | n + 1, first, r =>
    match r.tokens with
    | .flowMappingEnd :: ts => .ok ([], r.dropTo ts)
    | _ =>
      match r.comma first with
      | .error f => .error f
      | .ok r =>
        match r.tokens with
        | .flowMappingEnd :: ts => .ok ([], r.dropTo ts)
        | _ =>
          match readFlowEntry handles n r with
          | .error f => .error f
          | .ok (entry, r) =>
            match readFlowEntries handles n false r with
            | .error f => .error f
            | .ok (entries, r) => .ok (entry :: entries, r)

def readFlowEntry (handles : Handles) : Nat → Reader → Read (Node × Node)
  | 0, _ => .error .illFormed
  | n + 1, r =>
    match r.tokens with
    | .key :: ts =>
      match readUnless handles n [.value, .comma, .flowMappingEnd] .flow (r.dropTo ts) with
      | .error f => .error f
      | .ok (key, r) =>
        match readValue handles n [.comma, .flowMappingEnd] .flow r with
        | .error f => .error f
        | .ok (value, r) => .ok ((key, value), r)
    | _ =>
      match read handles n .flow r with
      | .error f => .error f
      | .ok (key, r) => .ok ((key, empty), r)

end

/-- The handles that a document's directives declare, and what follows them. -/
def readDirectives (r : Reader) : Except Fault (Handles × Reader) :=
  let isDirective : Token → Option Directive
    | .directive d => some d
    | _ => none
  let declared := (r.tokens.takeWhile fun t => (isDirective t).isSome).filterMap isDirective
  match Handles.ofDirectives? false [] declared with
  | some handles => .ok (handles, r.dropTo (r.tokens.drop declared.length))
  | none => .error .illFormed

def endOfStream (r : Reader) : Except Fault Unit :=
  let r := r.dropTo (r.tokens.dropWhile (· == .documentEnd))
  if r.next .streamEnd then .ok ()
  else match readDirectives r with
    | .error f => .error f
    | .ok (_, r) => .error r.unexpected

def readDocument (fuel : Nat) (r : Reader) : Read Node :=
  match r.tokens with
  | .directive _ :: _ | .documentStart :: _ =>
    match readDirectives r with
    | .error f => .error f
    | .ok (handles, r) =>
      match r.tokens with
      | .documentStart :: ts =>
        let r := r.dropTo ts
        match r.tokens with
        | .directive _ :: _ => .ok (empty, r)
        | _ =>
          readUnless handles fuel [.documentStart, .documentEnd, .streamEnd] .block r
      | _ => .error r.unexpected
  | _ => read defaultHandles fuel .block r

/-- The only document of a stream; none when the stream is empty. -/
def ofTokens (tokens : List Token) : Except Fault (Option Node) :=
  if tokens.head? = some .streamEnd then .ok none
  else
    match readDocument (4 * tokens.length + 8) ⟨tokens, [], 0, 0⟩ with
    | .error f => .error f
    | .ok (node, r) =>
      match endOfStream r with
      | .error f => .error f
      | .ok () => .ok (some node)

end RowModel.Yaml.Node
