import RowModel.Name
import RowModel.Settings.Basic
import RowModel.Table
import RowModel.TypeMap

/-!
Struct and enum definitions. A struct has a field for each column, in order; of columns that give
the same identifier the second and later ones are numbered.
-/
namespace RowModel

structure Field where
  name : String
  type : String
  /-- The key under which the field is serialized. -/
  jsonTag : Option String
  deriving DecidableEq, Repr

structure Struct where
  name : String
  fields : List Field
  deriving DecidableEq, Repr

structure Enum where
  name : String
  /-- Labels with their identifiers. -/
  constants : List (String × String)
  deriving DecidableEq, Repr

/-- A column without a name is named by its position, which counts from 1. -/
def tagName (c : Column) (position : Nat) : String :=
  if c.name = "" then "column_" ++ toString position else c.name

/-- The text for the occurrence of a name after `earlier` ones. -/
def numbered (text : String) (earlier : Nat) : String :=
  if earlier = 0 then text else text ++ "_" ++ toString (earlier + 1)

def fieldOf (jsonTags : Bool) (tag : String) (earlier : Nat) (type : String) : Field :=
  ⟨numbered (Name.fieldName tag) earlier, type,
    if jsonTags then some (numbered tag earlier) else none⟩

/-- The fields for columns from a position on, where `seen` holds how often each identifier came
before them. -/
def fieldsFrom (columnType : Column → Except Error String) (jsonTags : Bool) (position : Nat)
    (seen : Table Nat) : List Column → Except Error (List Field)
  | [] => .ok []
  | c :: r =>
    match columnType c with
    | .error e => .error e
    | .ok type =>
      let tag := tagName c position
      let name := Name.fieldName tag
      let earlier := (seen.lookup name).getD 0
      match fieldsFrom columnType jsonTags (position + 1) (Table.put name (earlier + 1) seen) r with
      | .error e => .error e
      | .ok fields => .ok (fieldOf jsonTags tag earlier type :: fields)

def structOf (settings : Settings) (p : Package) (enumTypes : EnumTypes) (name : String)
    (columns : List Column) : Except Error Struct :=
  let columnType := (columnType · (settings.rulesOf p) enumTypes (some p.name))
  (fieldsFrom columnType p.hasJsonTags 1 [] columns).map (Struct.mk name)

def buildStruct (name : String) (columns : List Column) (settings : Settings) (package : String)
    (enumTypes : EnumTypes) : Except Error Struct :=
  match settings.package package with
  | .error e => .error e
  | .ok p => structOf settings p enumTypes name columns

def buildEnum (name : String) (labels : List String) : Enum :=
  ⟨Name.enumTypeName name, labels.map fun l => (l, Name.enumConstant l)⟩

end RowModel
