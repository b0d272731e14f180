import RowModel.Yaml.Node.Merge
import RowModel.Yaml.Scalar

/-!
The value of a document. A node is built when it is met first, and what was built then stands at all
its places. Scalars are built where they are met. The parts of a collection are met only after all
collections that stand higher, or as high and before it; so of several faults the one nearest to the
root is reported, and of those the first.
-/
namespace RowModel.Yaml

/-- A document of which some nodes, known by their numbers, have been met. -/
structure Draft where
  merges : Merges
  met : List Nat
  /-- The values of the scalars that have been met. -/
  values : List (Nat × Value)
  /-- Collections whose parts have not been met yet, the last one first. -/
  waiting : List Node

namespace Draft

def start : Draft := ⟨.empty, [], [], []⟩

def await (x : Node) (d : Draft) : Draft :=
  { d with met := x.number :: d.met, waiting := x :: d.waiting }

def record (x : Node) (v : Value) (d : Draft) : Draft :=
  { d with met := x.number :: d.met, values := (x.number, v) :: d.values }

end Draft

namespace Node

variable [Machine]

/-- The value of a node under a tag that scalars have. Only a date must be written as a scalar. -/
def scalar? (m : Merges) (x : Node) : Except Fault Value :=
  match x, x.text m Machine.spelling with
  | _, .error f => .error f
  | scalar n _ _, .ok s => scalarValue n (m.tag x) s
  | _, .ok s =>
    if m.tag x == .timestamp then .error (.noValue .notText) else scalarValue x.number (m.tag x) s

abbrev Building := StateT Draft (Except Fault)

def meet (x : Node) : Building Unit := do
  let d ← get
  if d.met.contains x.number then return ()
  else if (d.merges.tag x).isCollection then set (d.await x)
  else set (d.record x (← x.scalar? d.merges))

/-- A collection is no key. -/
def meetEntry (k v : Node) : Building Unit := do
  meet k
  if ((← get).merges.tag k).isCollection then throw .illFormed
  meet v

/-- A row of an ordered mapping is a mapping of one entry, which may have any key. -/
def meetRow (x : Node) : Building Unit := do
  match (← get).merges.entries? x with
  | some [(k, v)] => do meet k; meet v
  | _ => throw .illFormed

/-- The entries of a mapping, from here on with its merge keys carried out. -/
def mergedEntries (x : Node) : Building (List (Node × Node)) := do
  let d ← get
  let (es, merges) ← (x.merged (Machine.merging + 1)).run d.merges
  set { d with merges }
  return es

/-- Meets the parts of a collection, which must be written as its tag demands. -/
def meetParts (x : Node) : Building Unit := do
  match x.tag, x with
  | .seq, sequence _ _ items => items.forM meet
  | .omap, sequence _ _ rows | .pairs, sequence _ _ rows => rows.forM meetRow
  | .map, mapping _ _ _ | .set, mapping _ _ _ =>
    (← mergedEntries x).forM fun (k, v) => meetEntry k v
  | _, _ => throw .illFormed

def meetLevels : Nat → Building Unit
  | 0 => return ()
  | n + 1 => do
    let d ← get
    if d.waiting.isEmpty then return ()
    else
      set { d with waiting := [] }
      d.waiting.reverse.forM meetParts
      meetLevels n

/-- What a mapping's entries are once later ones replace earlier ones with the same key. -/
def mapValue (entries : List (Value × Value)) : Value :=
  .map (entries.foldl (fun es (k, v) => Value.insert k v es) [])

def setValue (entries : List (Value × Value)) : Value :=
  .set ((entries.foldl (fun es (k, v) => Value.insert k v es) []).map Prod.fst)

abbrev Collecting := StateM (List (Nat × Value))

/-- The value of a node all parts of which have been met. -/
def collect (m : Merges) : Nat → Node → Collecting Value
  | 0, _ => return .null
  | n + 1, x => do
    match (← get).lookup x.number with
    | some v => return v
    | none =>
      let entries (x : Node) : Collecting (List (Value × Value)) :=
        ((m.entries? x).getD []).mapM fun (k, v) => return (← collect m n k, ← collect m n v)
      let v ← (match x.tag, x with
        | .seq, sequence _ _ items => do return .list (← items.mapM (collect m n))
        | .map, x => do return mapValue (← entries x)
        | .set, x => do return setValue (← entries x)
        | _, sequence _ _ rows => do
          let rows ← rows.mapM entries
          return .list (rows.flatten.map fun (k, v) => .pair k v)
        | _, _ => return .null)
      modify fun vs => (x.number, v) :: vs
      return v

/-- Meets a document's root and all its parts. The root's number bounds the depth, as the parts of a
node have lower numbers than the node. -/
def meetAll (x : Node) : Building Unit := do
  meet x
  meetLevels (x.number + 1)

def build (x : Node) : Except Fault Value :=
  match (meetAll x).run .start with
  | .error f => .error f
  | .ok ((), d) =>
    let (v, _) := (collect d.merges (x.number + 2) x).run d.values
    .ok v

end Node

end RowModel.Yaml
