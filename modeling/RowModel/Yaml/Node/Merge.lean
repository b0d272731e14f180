import RowModel.Machine
import RowModel.Yaml.Fault
import RowModel.Yaml.Node

/-!
Merge keys. The entry `<<` of a mapping stands for the entries of another mapping, or of several,
which come before the mapping's own; of several mappings the later ones come first. The mappings
that are merged have their own merge keys carried out before.

Where merge keys are carried out the key `=` becomes a text. As a node may stand at several places,
what becomes of it at one is kept and holds for all. A machine follows only so many keys from one
mapping to the next.
-/
namespace RowModel.Yaml

/-- What has become of nodes, by their numbers. -/
structure Merges where
  /-- The entries of mappings whose merge keys have been carried out. -/
  entries : List (Nat × List (Node × Node))
  /-- The keys `=` that have become texts. -/
  texts : List Nat

namespace Merges

def empty : Merges := ⟨[], []⟩

/-- The tag that a node has by now. -/
def tag (m : Merges) (x : Node) : Tag :=
  if x.tag == .value && m.texts.contains x.number then .str else x.tag

def withText (n : Nat) (m : Merges) : Merges := { m with texts := n :: m.texts }

/-- The entries that a mapping has by now. -/
def entries? (m : Merges) : Node → Option (List (Node × Node))
  | .mapping n _ es => some ((m.entries.lookup n).getD es)
  | _ => none

end Merges

namespace Node

mutual
/-- The text of a scalar; a mapping has the text under its key `=`, but not once its merge keys have
been carried out. At most `n` keys are followed. -/
def text (m : Merges) : Nat → Node → Except Fault (List Char)
  | _, scalar _ _ s => .ok s
  | _, sequence _ _ _ => .error .illFormed
  | n, mapping k _ es =>
    if (m.entries.lookup k).isSome then .error .illFormed else valueText m n es
def valueText (m : Merges) : Nat → List (Node × Node) → Except Fault (List Char)
  | _, [] => .error .illFormed
  | n, (k, v) :: r =>
    if m.tag k == .value then
      match n with
      | 0 => .error .tooDeep
      | n + 1 => text m n v
    else valueText m n r
end

abbrev Merging := StateT Merges (Except Fault)

/-- Entries that come before a mapping's own, and its own without merge keys. -/
abbrev Split := List (Node × Node) × List (Node × Node)

mutual
/-- The entries that the value of a merge key stands for: those of a mapping, its merge keys carried
out, or those of several mappings. At most `n` mappings are entered, one from another. -/
def merged : Nat → Node → Merging (List (Node × Node))
  | _, scalar _ _ _ => throw .illFormed
  | n, sequence _ _ items => mergedItems n items
  | 0, mapping _ _ _ => throw .tooDeep
  | n + 1, mapping k _ es => do
    match (← get).entries.lookup k with
    | some done => return done
    | none =>
      let (before, own) ← splitEntries n es
      modify fun m => { m with entries := (k, before ++ own) :: m.entries }
      return before ++ own
/-- The entries of mappings, those of the later ones first. -/
def mergedItems : Nat → List Node → Merging (List (Node × Node))
  | _, [] => return []
  | n, x :: r => do
    if !x.isMapping then throw .illFormed
    let es ← merged n x
    return (← mergedItems n r) ++ es
/-- The entries that merge keys stand for, and the other entries. -/
def splitEntries : Nat → List (Node × Node) → Merging Split
  | _, [] => return ([], [])
  | n, (k, v) :: r => do
    if k.tag == .merge then
      let es ← merged n v
      let (before, own) ← splitEntries n r
      return (es ++ before, own)
    else
      if k.tag == .value then modify (·.withText k.number)
      let (before, own) ← splitEntries n r
      return (before, (k, v) :: own)
end

/-- A mapping without the keys `<<` and `=` stays as it is. -/
theorem splitEntries_of_plain (n : Nat) {es : List (Node × Node)} (m : Merges)
    (h : ∀ e ∈ es, e.1.tag ≠ .merge ∧ e.1.tag ≠ .value) :
    (splitEntries n es).run m = .ok (([], es), m) := by
  induction es with
  | nil => rfl
  | cons e r ih =>
    obtain ⟨k, v⟩ := e
    have hk := h (k, v) List.mem_cons_self
    have hr := ih fun e he => h e (List.mem_cons_of_mem _ he)
    have hm : (k.tag == .merge) = false := by simpa using hk.1
    have hv : (k.tag == .value) = false := by simpa using hk.2
    simp only [splitEntries, hm, hv, Bool.false_eq_true, if_false]
    change ((splitEntries n r).run m).bind _ = _
    rw [hr]
    rfl

end Node

end RowModel.Yaml
