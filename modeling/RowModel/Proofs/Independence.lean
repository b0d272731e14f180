import RowModel.Proofs.Occurrence

/-!
What the answers of a generator depend on: its enums, the name of its package, and the rules that
count for it. Other packages, the version, the paths and the flags of the package make no
difference, but for the flag for tags, which decides the tags alone. Main result:
`Generator.sameButTags_of_equal_rules`, for two settings that may differ in all the rest.
-/
namespace RowModel

def Field.untagged (f : Field) : Field := { f with jsonTag := none }

def Struct.untagged (x : Struct) : Struct := { x with fields := x.fields.map Field.untagged }

theorem Occurrence.untagged_field (jsonTags : Bool) (o : Occurrence) (type : String) :
    (o.field jsonTags type).untagged = o.field false type := rfl

/-- Tags need no imports. -/
theorem collectImports_untagged (xs : List Struct) (rules : List Rule) :
    collectImports (xs.map Struct.untagged) rules = collectImports xs rules := by
  have fields : (xs.map Struct.untagged).flatMap Struct.fields =
      (xs.flatMap Struct.fields).map Field.untagged := by
    rw [List.flatMap_map, List.map_flatMap]
    rfl
  rw [collectImports, collectImports, fields, List.filterMap_map]
  rfl

namespace Generator

/-- Two generators that count the same rules for packages of one name, and have the same enums. -/
structure Agree (g₁ g₂ : Generator) : Prop where
  name : g₁.package.name = g₂.package.name
  rules : g₁.rules = g₂.rules
  enums : g₁.enums = g₂.enums

/-- Two generators that differ in the tags of what they build at most. -/
structure SameButTags (g₁ g₂ : Generator) : Prop where
  structs : ∀ name columns, (g₁.buildStruct name columns).map Struct.untagged =
    (g₂.buildStruct name columns).map Struct.untagged
  models : ∀ tables, (g₁.buildModels tables).map (List.map Struct.untagged) =
    (g₂.buildModels tables).map (List.map Struct.untagged)
  enums : g₁.buildEnums = g₂.buildEnums
  /-- Structs that differ in their tags at most, like those that the two build, import the same. -/
  imports : ∀ xs₁ xs₂ : List Struct, xs₁.map Struct.untagged = xs₂.map Struct.untagged →
    g₁.imports xs₁ = g₂.imports xs₂

variable {g₁ g₂ : Generator}

theorem Agree.columnType (h : Agree g₁ g₂) : g₁.columnType = g₂.columnType := by
  funext c
  rw [Generator.columnType, Generator.columnType, enumTypes, enumTypes, h.name, h.rules, h.enums]

/-- The names and types of fields come from the types of the columns alone. -/
theorem untagged_buildStruct (g : Generator) (name : String) (columns : List Column) :
    (g.buildStruct name columns).map Struct.untagged = (columns.mapM g.columnType).map fun types =>
      ⟨name, List.zipWith (Occurrence.field false) (occurrences columns) types⟩ := by
  rw [buildStruct_eq]
  cases columns.mapM g.columnType with
  | error e => rfl
  | ok types =>
    simp only [Except.map, Struct.untagged, List.map_zipWith, Occurrence.untagged_field]

/-- Generators that agree build the same up to tags. -/
theorem Agree.sameButTags (h : Agree g₁ g₂) : SameButTags g₁ g₂ where
  structs name columns := by rw [untagged_buildStruct, untagged_buildStruct, h.columnType]
  models tables := by
    rw [buildModels, buildModels, map_mapM, map_mapM]
    simp only [untagged_buildStruct, h.columnType]
  enums := by rw [buildEnums, buildEnums, h.enums]
  imports xs₁ xs₂ hx := by
    rw [imports, imports, ← collectImports_untagged, hx, collectImports_untagged, h.rules]

/-- With one flag for tags there is no difference at all. -/
theorem Agree.buildStruct (h : Agree g₁ g₂)
    (ht : g₁.package.hasJsonTags = g₂.package.hasJsonTags) : g₁.buildStruct = g₂.buildStruct := by
  funext name columns
  rw [buildStruct_eq, buildStruct_eq, h.columnType, ht]

/-- Generators for packages of one name with the same rules, in any two settings with the same rules
for all packages, build the same but for the tags, which differ with the flag for tags alone. -/
theorem sameButTags_of_equal_rules {s₁ s₂ : Settings} {p₁ p₂ : Package} (h₁ : p₁ ∈ s₁.packages)
    (h₂ : p₂ ∈ s₂.packages) (hname : p₁.name = p₂.name) (hown : p₁.overrides = p₂.overrides)
    (hshared : s₁.overrides = s₂.overrides) (enums : List CatalogEnum) :
    ∃ g₁ g₂, create s₁ p₁.name enums = .ok g₁ ∧ create s₂ p₂.name enums = .ok g₂ ∧
      SameButTags g₁ g₂ ∧
      (p₁.hasJsonTags = p₂.hasJsonTags →
        (∀ name columns, g₁.buildStruct name columns = g₂.buildStruct name columns) ∧
        ∀ tables, g₁.buildModels tables = g₂.buildModels tables) := by
  have h : Agree ⟨s₁, p₁, enums, h₁⟩ ⟨s₂, p₂, enums, h₂⟩ := by
    refine ⟨hname, ?_, rfl⟩
    rw [rules, rules, Settings.rulesOf, Settings.rulesOf, hown, hshared]
  refine ⟨_, _, create_of_mem h₁ enums, create_of_mem h₂ enums, h.sameButTags, ?_⟩
  intro ht
  have hbuild := h.buildStruct ht
  refine ⟨fun name columns => by rw [hbuild], ?_⟩
  intro tables
  rw [buildModels, buildModels, hbuild]

end Generator

def plainPackage : Package :=
  ⟨"db", .null, .null, .null, some false, none, [.type "text" true ⟨"a.com/p", "p.Text"⟩]⟩

def plainSettings : Settings :=
  ⟨some "1", [plainPackage], [.column ⟨"public", "foo", "a"⟩ ⟨"b.com/q", "q.A"⟩], by decide⟩

def fullPackage : Package := { plainPackage with path := .str "models", emitJsonTags := some true }

def fullSettings : Settings :=
  ⟨none, [⟨"other", .null, .null, .null, none, none, [.type "text" true ⟨"c.com/r", "r.Text"⟩]⟩,
    fullPackage], plainSettings.overrides, by decide⟩

def plainColumn : Column := ⟨"note", "text", ⟨"public", "foo"⟩, some true, false⟩

theorem sameButTags_plain_full :
    plainPackage ∈ plainSettings.packages ∧ fullPackage ∈ fullSettings.packages ∧
      ∃ g₁ g₂, Generator.create plainSettings "db" [] = .ok g₁ ∧
        Generator.create fullSettings "db" [] = .ok g₂ ∧ Generator.SameButTags g₁ g₂ ∧
        g₁.buildStruct "Foo" [plainColumn] = .ok ⟨"Foo", [⟨"Note", "p.Text", none⟩]⟩ ∧
        g₂.buildStruct "Foo" [plainColumn] = .ok ⟨"Foo", [⟨"Note", "p.Text", some "note"⟩]⟩ := by
  have h₁ : plainPackage ∈ plainSettings.packages := List.mem_singleton.mpr rfl
  have h₂ : fullPackage ∈ fullSettings.packages := List.mem_cons_of_mem _ List.mem_cons_self
  obtain ⟨g₁, g₂, hg₁, hg₂, h, -⟩ := Generator.sameButTags_of_equal_rules h₁ h₂ rfl rfl rfl []
  refine ⟨h₁, h₂, g₁, g₂, hg₁, hg₂, h, ?_, ?_⟩
  · cases hg₁
    decide +kernel
  · cases hg₂
    decide +kernel

end RowModel
