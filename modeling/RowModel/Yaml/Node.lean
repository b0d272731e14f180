import RowModel.Yaml.Implicit

/-!
A document as a tree of tagged, numbered nodes. An alias stands for the very node that its anchor
names, so the tree holds no names, and one node may stand at several places; its number tells it
from all other nodes. The parts of a node have lower numbers than the node.
-/
namespace RowModel.Yaml

inductive Node where
  | scalar (number : Nat) (tag : Tag) (text : List Char)
  | sequence (number : Nat) (tag : Tag) (items : List Node)
  | mapping (number : Nat) (tag : Tag) (entries : List (Node × Node))

namespace Node

/-- What is missing is null. All that is missing has one number. -/
def empty : Node := scalar 0 .null []

instance : Inhabited Node := ⟨empty⟩

def number : Node → Nat
  | scalar n _ _ | sequence n _ _ | mapping n _ _ => n

def tag : Node → Tag
  | scalar _ t _ | sequence _ t _ | mapping _ t _ => t

def isMapping : Node → Bool
  | mapping _ _ _ => true
  | _ => false

/-- The tag of a scalar: the written one; without one, quotes make it a text, and otherwise, or
under the tag `!`, the text decides. -/
def scalarTag (written : Option (List Char)) (plain : Bool) (text : List Char) : Tag :=
  match written with
  | none => if plain then Tag.implicit text else .str
  | some t => if t = ['!'] then Tag.implicit text else Tag.ofFull t

def collectionTag (own : Tag) (written : Option (List Char)) : Tag :=
  match written with
  | none => own
  | some t => if t = ['!'] then own else Tag.ofFull t

end Node

end RowModel.Yaml
