import RowModel.Proofs.Occurrence
import RowModel.Proofs.Precedence
import Mathlib.Data.List.Basic

/-!
Columns of an enum. The type of such a column is looked up by the name of the enum, while the enum
itself is defined from the list of the catalog; both make the same name of it, so a column that no
rule decides has the type that is defined, also when the catalog has a name twice or a name of a
built-in type. Main result: `Generator.buildEnums_defines`.
-/
namespace RowModel

/-- Whether a rule counts for a column: it fits the column, takes it for an array, or replaces its
SQL type. -/
def Rule.decides (c : Column) (r : Rule) : Bool :=
  r.fits c || r.misfits c || r.replaces c.sqlType c.nullableElement

/-- Where no rule counts, the enums do, and before the built-in types. -/
theorem layeredType_of_enum {own shared : List Rule} {enumTypes : EnumTypes} {package name : String}
    {c : Column} (h : ∀ r ∈ own ++ shared, r.decides c = false)
    (henum : enumTypes.lookup c.sqlType = some name) :
    layeredType own shared enumTypes package c =
      .ok (if c.isArray then "[]" ++ name else name) := by
  simp only [Rule.decides, Bool.or_eq_false_iff] at h
  have hfits : firstRule (Rule.fits c) own shared = none :=
    firstRule_eq_none fun r hr => (h r hr).1.1
  have hmisfits : firstRule (Rule.misfits c) own shared = none :=
    firstRule_eq_none fun r hr => (h r hr).1.2
  have hreplaces : firstRule (Rule.replaces c.sqlType c.nullableElement) own shared = none :=
    firstRule_eq_none fun r hr => (h r hr).2
  rw [layeredType, hfits, hmisfits]
  simp only [layeredElement, hreplaces, henum]

def Enum.columnType (d : Enum) (c : Column) : String := if c.isArray then "[]" ++ d.name else d.name

namespace Generator

variable {g : Generator} {e : CatalogEnum} {c : Column}

def LeavesOpen (g : Generator) (c : Column) : Prop := ∀ r ∈ g.rules, r.decides c = false

instance (g : Generator) (c : Column) : Decidable (g.LeavesOpen c) :=
  inferInstanceAs (Decidable (∀ r ∈ g.rules, _))

/-- The table has for the name of each enum the type name that is made of it. -/
theorem lookup_enumTypes (h : e ∈ g.enums) :
    g.enumTypes.lookup e.name = some (Name.enumTypeName e.name) := by
  have hmem : e.name ∈ g.enums.map CatalogEnum.name := List.mem_map_of_mem h
  have htable : g.enumTypes =
      (g.enums.map CatalogEnum.name).map fun n => (n, Name.enumTypeName n) := by
    rw [enumTypes, List.map_map]
    rfl
  rw [htable]
  exact List.lookup_graph Name.enumTypeName hmem

/-- A column of an enum that no rule counts for has the type of the definition. -/
theorem columnType_of_enum (he : e ∈ g.enums) (hc : c.sqlType = e.name) (h : g.LeavesOpen c) :
    g.columnType c = .ok ((buildEnum e.name e.labels).columnType c) := by
  have henum : g.enumTypes.lookup c.sqlType = some (Name.enumTypeName e.name) := by
    rw [hc]
    exact lookup_enumTypes he
  exact (columnType_append ..).trans (layeredType_of_enum h henum)

/-- A field has the type that was found for the column at its place. -/
theorem type_getElem?_of_columnType {name : String} {columns : List Column} {x : Struct}
    (h : g.buildStruct name columns = .ok x) {i : Nat} (hc : columns[i]? = some c) {type : String}
    (ht : g.columnType c = .ok type) : x.fields[i]?.map Field.type = some type := by
  obtain ⟨f, hf, hfield⟩ := exists_getElem?_of_forall₂ (columnType_fields h) hc
  rw [hf, Option.map_some, Except.ok.inj (hfield.symm.trans ht)]

/-- A definition that holds for an enum: it has a constant for each label, and the columns of the
enum that are left open have its type, by themselves and as fields of a struct. -/
structure Defines (g : Generator) (e : CatalogEnum) (d : Enum) : Prop where
  constants : d.constants = e.labels.map fun label => (label, Name.enumConstant label)
  column : ∀ c : Column, c.sqlType = e.name → g.LeavesOpen c →
    g.columnType c = .ok (d.columnType c)
  field : ∀ c : Column, c.sqlType = e.name → g.LeavesOpen c →
    ∀ name columns x, g.buildStruct name columns = .ok x → ∀ i : Nat, columns[i]? = some c →
      x.fields[i]?.map Field.type = some (d.columnType c)

/-- Each enum of the catalog has its definition, in order. -/
theorem buildEnums_defines (g : Generator) : List.Forall₂ g.Defines g.enums g.buildEnums := by
  rw [buildEnums, List.forall₂_map_right_iff, List.forall₂_same]
  intro e he
  refine ⟨rfl, fun c hc h => columnType_of_enum he hc h, ?_⟩
  intro c hc h name columns x hx i hi
  exact type_getElem?_of_columnType hx hi (columnType_of_enum he hc h)

end Generator

def notesPackage : Package :=
  ⟨"db", .null, .null, .null, none, none, [.type "text" true ⟨"a.com/p", "p.Text"⟩]⟩

/-- A catalog with two enums of one name, which is also the name of a built-in type. -/
def notesGenerator : Generator :=
  ⟨⟨some "1", [notesPackage], [], by decide⟩, notesPackage,
    [⟨"text", ["so so"]⟩, ⟨"app.mood", ["ok"]⟩, ⟨"text", ["top-10", "top-10"]⟩],
    List.mem_singleton.mpr rfl⟩

/-- An array that may be null, which its elements are not. -/
def notesColumn : Column := ⟨"notes", "text", ⟨"public", "foo"⟩, some true, true⟩

theorem buildEnums_defines_notes :
    notesGenerator.LeavesOpen notesColumn ∧
      notesGenerator.buildEnums[2]? =
        some ⟨"Text", [("top-10", "Top10"), ("top-10", "Top10")]⟩ ∧
      notesGenerator.columnType notesColumn = .ok "[]Text" := by
  have hopen : notesGenerator.LeavesOpen notesColumn := by decide
  have hdefined : notesGenerator.buildEnums[2]? =
      some ⟨"Text", [("top-10", "Top10"), ("top-10", "Top10")]⟩ := by decide
  obtain ⟨d, hd, h⟩ := exists_getElem?_of_forall₂ notesGenerator.buildEnums_defines
    (show notesGenerator.enums[2]? = some ⟨"text", ["top-10", "top-10"]⟩ from rfl)
  cases hdefined.symm.trans hd
  exact ⟨hopen, hdefined, h.column notesColumn rfl hopen⟩

end RowModel
