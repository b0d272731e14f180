import RowModel.Yaml.Directive

/-!
Tags that have a meaning, and the handles that abbreviate them.
-/
namespace RowModel.Yaml

inductive Tag where
  | null
  | bool
  | int
  | float
  | binary
  | timestamp
  | omap
  | pairs
  | set
  | str
  | seq
  | map
  | merge
  | value
  | unknown
  deriving DecidableEq, Repr

def Tag.isCollection : Tag → Bool
  | .seq | .map | .set | .omap | .pairs => true
  | _ => false

def standardStem : List Char := "tag:yaml.org,2002:".toList

def standardTags : List (String × Tag) :=
  [("null", .null), ("bool", .bool), ("int", .int), ("float", .float), ("binary", .binary),
   ("timestamp", .timestamp), ("omap", .omap), ("pairs", .pairs), ("set", .set), ("str", .str),
   ("seq", .seq), ("map", .map), ("merge", .merge), ("value", .value)]

def Tag.ofFull (full : List Char) : Tag :=
  match standardTags.find? fun (name, _) => standardStem ++ name.toList == full with
  | some (_, tag) => tag
  | none => .unknown

abbrev Handles := List (List Char × List Char)

def defaultHandles : Handles := [(['!'], ['!']), (['!', '!'], standardStem)]

def TagText.full? (handles : Handles) (t : TagText) : Option (List Char) :=
  match t.handle with
  | none => some t.suffix
  | some h => (handles.lookup h).map (· ++ t.suffix)

/-- The handles that directives declare, with the default ones they do not replace. The version
may be declared once and must be 1, and no handle twice. -/
def Handles.ofDirectives? (version : Bool) (handles : Handles) :
    List Directive → Option Handles
  | [] => some (handles ++ defaultHandles)
  | .version major :: r =>
    if version ∨ major ≠ 1 then none else ofDirectives? true handles r
  | .tag handle stem :: r =>
    if (handles.lookup handle).isSome then none
    else ofDirectives? version (handles ++ [(handle, stem)]) r
  | .other :: r => ofDirectives? version handles r

end RowModel.Yaml
