import RowModel.Imports

/-!
A generator makes the models of one package of its settings, for the enums of one catalog.
-/
namespace RowModel

structure Generator where
  settings : Settings
  package : Package
  enums : List CatalogEnum
  registered : package ∈ settings.packages

namespace Generator

def create (settings : Settings) (name : String) (enums : List CatalogEnum) :
    Except Error Generator :=
  match h : settings.package name with
  | .error e => .error e
  | .ok p => .ok ⟨settings, p, enums, (Settings.package_eq_ok h).1⟩

/-- Every package of the settings has a generator under its name. -/
theorem create_of_mem {settings : Settings} {p : Package} (h : p ∈ settings.packages)
    (enums : List CatalogEnum) : create settings p.name enums = .ok ⟨settings, p, enums, h⟩ := by
  have hp := Settings.package_eq_ok_of_mem h
  rw [create]
  split
  · next e he => cases hp.symm.trans he
  · next q hq =>
    cases hp.symm.trans hq
    rfl

theorem settings_of_create {settings : Settings} {name : String} {enums : List CatalogEnum}
    {g : Generator} (h : create settings name enums = .ok g) : g.settings = settings := by
  rw [create] at h
  split at h
  · cases h
  · cases h
    rfl

def rules (g : Generator) : List Rule := g.settings.rulesOf g.package

def enumTypes (g : Generator) : EnumTypes := g.enums.map fun e => (e.name, Name.enumTypeName e.name)

def columnType (g : Generator) (c : Column) : Except Error String :=
  RowModel.columnType c g.rules g.enumTypes (some g.package.name)

def buildStruct (g : Generator) (name : String) (columns : List Column) : Except Error Struct :=
  structOf g.settings g.package g.enumTypes name columns

/-- The package of a generator is the one that its settings have under the name. -/
theorem buildStruct_byName (g : Generator) (name : String) (columns : List Column) :
    RowModel.buildStruct name columns g.settings g.package.name g.enumTypes =
      g.buildStruct name columns := by
  rw [RowModel.buildStruct, Settings.package_eq_ok_of_mem g.registered]
  rfl

def buildEnums (g : Generator) : List Enum := g.enums.map fun e => buildEnum e.name e.labels

def buildModels (g : Generator) (tables : List (TableRef × List Column)) :
    Except Error (List Struct) :=
  tables.mapM fun (table, columns) => g.buildStruct (Name.modelName table.name) columns

def imports (g : Generator) (structs : List Struct) : ImportSet := collectImports structs g.rules

end Generator

end RowModel
