import RowModel.Generator
import RowModel.Proofs.Occurrence
import RowModel.Proofs.Precedence
import RowModel.Settings.Load
import Mathlib.Data.List.Forall2

/-!
Which import paths are collected for a struct. The collector sees the types of fields and not the
rules that gave them, so it takes the path of the first rule with the bare type of a field. A rule
that types a column has its own path collected unless an earlier rule with another path has the same
bare type, or when a field of another type needs that path as well.
-/
namespace RowModel

theorem mem_insertText {s t : String} {ts : List String} :
    t ∈ insertText s ts ↔ t = s ∨ t ∈ ts := by
  induction ts with
  | nil => simp [insertText]
  | cons u r ih =>
    rw [insertText]
    split
    · simp
    · split
      · next he => simp [he]
      · rw [List.mem_cons, ih, List.mem_cons]
        exact or_left_comm

/-- Sorting keeps the texts of a list. -/
theorem mem_sortTexts {t : String} {ts : List String} : t ∈ sortTexts ts ↔ t ∈ ts := by
  induction ts with
  | nil => exact Iff.rfl
  | cons s r ih =>
    change t ∈ insertText s (sortTexts r) ↔ t ∈ s :: r
    rw [mem_insertText, ih, List.mem_cons]

def ImportSet.paths (i : ImportSet) : List String := i.std ++ i.packages

/-- The first rule whose target has a bare type. -/
def ruleOfType (rules : List Rule) (bare : String) : Option Rule :=
  rules.find? fun r => bareType r.target.typeName == bare

/-- An earlier rule hides later ones of its bare type. -/
theorem ruleOfType_cons_same (r : Rule) (rest : List Rule) :
    ruleOfType (r :: rest) (bareType r.target.typeName) = some r := by
  simp [ruleOfType]

theorem ruleOfType_cons_other {r : Rule} {bare : String} (h : bareType r.target.typeName ≠ bare)
    (rest : List Rule) : ruleOfType (r :: rest) bare = ruleOfType rest bare := by
  simp [ruleOfType, h]

/-- The bare type of a rule has a first rule, this one or one before it. -/
theorem exists_ruleOfType {rules : List Rule} {r : Rule} (h : r ∈ rules) :
    ∃ first, ruleOfType rules (bareType r.target.typeName) = some first :=
  Option.isSome_iff_exists.mp (List.find?_isSome.mpr ⟨r, h, beq_self_eq_true _⟩)

/-- The path that a field of a bare type needs: that of the first rule with this bare type, or else
the built-in one. -/
def neededPath (rules : List Rule) (bare : String) : Option String :=
  match ruleOfType rules bare with
  | some r => some r.target.importPath
  | none => builtinImport? bare

/-- The table is filled from the last rule to the first, so the first of a bare type stays in it. -/
theorem lookup_overridePaths (rules : List Rule) (bare : String) :
    (overridePaths rules).lookup bare =
      (ruleOfType rules bare).map fun r => r.target.importPath := by
  rw [overridePaths, List.foldl_reverse]
  induction rules with
  | nil => rfl
  | cons r rest ih =>
    rw [List.foldr_cons]
    by_cases hr : bareType r.target.typeName = bare
    · subst hr
      rw [Table.lookup_put_same, ruleOfType_cons_same, Option.map_some]
    · rw [Table.lookup_put_other _ _ _ _ (Ne.symm hr), ruleOfType_cons_other hr, ih]

/-- The table of paths, made from the last rule to the first, has the path of the first rule for a
bare type. -/
theorem importOf?_overridePaths (rules : List Rule) (bare : String) :
    importOf? (overridePaths rules) bare = neededPath rules bare := by
  rw [importOf?, lookup_overridePaths, neededPath]
  cases ruleOfType rules bare <;> rfl

/-- A path is collected exactly when a field needs it. -/
theorem mem_paths_collectImports {structs : List Struct} {rules : List Rule} {path : String} :
    path ∈ (collectImports structs rules).paths ↔
      ∃ x ∈ structs, ∃ f ∈ x.fields, neededPath rules (bareType f.type) = some path := by
  simp only [collectImports, ImportSet.paths, List.mem_append, mem_sortTexts, List.mem_filter,
    List.mem_filterMap, List.mem_flatMap, importOf?_overridePaths]
  constructor
  · rintro (⟨⟨f, ⟨x, hx, hf⟩, he⟩, -⟩ | ⟨⟨f, ⟨x, hx, hf⟩, he⟩, -⟩) <;> exact ⟨x, hx, f, hf, he⟩
  · rintro ⟨x, hx, f, hf, he⟩
    cases hs : isStandard path with
    | true => exact .inl ⟨⟨f, ⟨x, hx, hf⟩, he⟩, rfl⟩
    | false => exact .inr ⟨⟨f, ⟨x, hx, hf⟩, he⟩, rfl⟩

/-- The brackets of an array do not belong to its bare type. -/
@[simp] theorem bareType_brackets (t : String) : bareType ("[]" ++ t) = bareType t := by
  rw [bareType, bareType, String.toList_append]
  rfl

namespace Generator

/-- The target of the rule that types a column, if one does: that of the rule for the column, or
else that of the rule for its SQL type. -/
def override? (g : Generator) (c : Column) : Option Target :=
  match resolveColumn c g.rules (some g.package.name) with
  | .ok (some t) => some t
  | .ok none => resolveType c.sqlType c.nullableElement g.rules
  | .error _ => none

/-- A column that a rule types has the bare type of the rule's target. -/
theorem bareType_of_override? {g : Generator} {c : Column} {t : Target} {type : String}
    (ht : g.override? c = some t) (h : g.columnType c = .ok type) :
    bareType type = bareType t.typeName := by
  rw [override?] at ht
  rw [columnType, RowModel.columnType] at h
  cases hr : resolveColumn c g.rules (some g.package.name) with
  | error e => rw [hr] at ht; cases ht
  | ok found =>
    rw [hr] at ht h
    cases found with
    | some u =>
      cases ht
      cases h
      rfl
    | none =>
      change resolveType c.sqlType c.nullableElement g.rules = some t at ht
      simp only [elementType, ht, Except.map] at h
      cases h
      cases c.isArray <;> simp

/-- A rule that types a column is one of the generator's rules. -/
theorem mem_rules_of_override? {g : Generator} {c : Column} {t : Target}
    (ht : g.override? c = some t) : ∃ r ∈ g.rules, r.target = t := by
  rw [override?, resolveColumn, resolveFrom_eq, resolveType_eq] at ht
  cases hf : g.rules.find? (Rule.fits c) with
  | some r =>
    rw [hf] at ht
    cases ht
    exact ⟨r, List.mem_of_find?_eq_some hf, rfl⟩
  | none =>
    cases hm : g.rules.find? (Rule.misfits c) with
    | some r =>
      rw [hf, hm] at ht
      cases ht
    | none =>
      rw [hf, hm] at ht
      obtain ⟨r, hr, he⟩ := Option.map_eq_some_iff.mp ht
      exact ⟨r, List.mem_of_find?_eq_some hr, he⟩

/-- A field that a rule types has the bare type of the rule's target. -/
theorem exists_field_of_override? {g : Generator} {name : String} {columns : List Column}
    {x : Struct} (h : g.buildStruct name columns = .ok x) {c : Column} (hc : c ∈ columns)
    {t : Target} (ht : g.override? c = some t) :
    ∃ f ∈ x.fields, bareType f.type = bareType t.typeName := by
  obtain ⟨f, hf, htype⟩ := exists_mem_of_forall₂ (columnType_fields h) hc
  exact ⟨f, hf, bareType_of_override? ht htype⟩

/-- The bare type that a rule gives a column has a first rule, this one or one before it. -/
theorem exists_ruleOfType_of_override? {g : Generator} {c : Column} {t : Target}
    (ht : g.override? c = some t) :
    ∃ first, ruleOfType g.rules (bareType t.typeName) = some first := by
  obtain ⟨r, hr, rfl⟩ := mem_rules_of_override? ht
  exact exists_ruleOfType hr

/-- The path of the rule that types a column of a struct is collected exactly when the first rule of
the same bare type has this path, or a field of another bare type needs it. -/
theorem importPath_mem_imports_iff (g : Generator) {name : String} {columns : List Column}
    {x : Struct} (h : g.buildStruct name columns = .ok x) {c : Column} (hc : c ∈ columns)
    {t : Target} (ht : g.override? c = some t) :
    t.importPath ∈ (g.imports [x]).paths ↔
      (∃ first, ruleOfType g.rules (bareType t.typeName) = some first ∧
        first.target.importPath = t.importPath) ∨
      ∃ f ∈ x.fields, bareType f.type ≠ bareType t.typeName ∧
        neededPath g.rules (bareType f.type) = some t.importPath := by
  obtain ⟨first, hfirst⟩ := exists_ruleOfType_of_override? ht
  have hneeded : neededPath g.rules (bareType t.typeName) = some first.target.importPath := by
    rw [neededPath, hfirst]
  rw [imports, mem_paths_collectImports]
  constructor
  · rintro ⟨y, hy, f, hf, hpath⟩
    rw [List.mem_singleton.mp hy] at hf
    by_cases hb : bareType f.type = bareType t.typeName
    · rw [hb, hneeded] at hpath
      exact .inl ⟨first, hfirst, Option.some.inj hpath⟩
    · exact .inr ⟨f, hf, hb, hpath⟩
  · rintro (⟨r, hr, hpath⟩ | ⟨f, hf, -, hpath⟩)
    · obtain ⟨f, hf, hb⟩ := exists_field_of_override? h hc ht
      rw [hfirst] at hr
      cases hr
      exact ⟨x, List.mem_singleton_self x, f, hf, by rw [hb, hneeded, hpath]⟩
    · exact ⟨x, List.mem_singleton_self x, f, hf, hpath⟩

end Generator

def columnEntry (goType column : String) : Value :=
  .map [(.str "go_type", .str goType), (.str "column", .str ("foo." ++ column))]

/-- Settings that give two columns types of one name from different paths. -/
def twinsValue : Value :=
  .map [(.str "packages", .list [.map [(.str "name", .str "db"), (.str "overrides", .list
    [columnEntry "a.com/x/pkg.T" "a", columnEntry "b.com/x/pkg.T" "b"])]])]

def twinsPackage : Package :=
  ⟨"db", .null, .null, .null, some false, some false,
    [.column ⟨"public", "foo", "a"⟩ ⟨"a.com/x/pkg", "pkg.T"⟩,
      .column ⟨"public", "foo", "b"⟩ ⟨"b.com/x/pkg", "pkg.T"⟩]⟩

def twinsSettings : Settings := ⟨some "1", [twinsPackage], [], by decide⟩

def twinsGenerator : Generator := ⟨twinsSettings, twinsPackage, [], List.mem_singleton.mpr rfl⟩

def twinColumn (name : String) : Column := ⟨name, "text", ⟨"public", "foo"⟩, some false, false⟩

def twinColumns : List Column := ["a", "b"].map twinColumn

def twinsStruct : Struct := ⟨"Foo", [⟨"A", "pkg.T", none⟩, ⟨"B", "pkg.T", none⟩]⟩

theorem buildStruct_twinColumns :
    twinsGenerator.buildStruct "Foo" twinColumns = .ok twinsStruct := by decide +kernel

/-- The path of the first of the two types is collected. -/
theorem importPath_mem_imports_twins :
    twinsGenerator.buildStruct "Foo" twinColumns = .ok twinsStruct ∧
      twinColumn "a" ∈ twinColumns ∧
      twinsGenerator.override? (twinColumn "a") = some ⟨"a.com/x/pkg", "pkg.T"⟩ ∧
      "a.com/x/pkg" ∈ (twinsGenerator.imports [twinsStruct]).paths :=
  have hc : twinColumn "a" ∈ twinColumns := List.mem_cons_self
  have hmem := twinsGenerator.importPath_mem_imports_iff buildStruct_twinColumns hc rfl
  ⟨buildStruct_twinColumns, hc, rfl, hmem.mpr (.inl ⟨_, rfl, rfl⟩)⟩

/-- The path of the second is not, though its rule types a column. -/
theorem twins_importPath_lost :
    Settings.ofValue twinsValue = .ok twinsSettings ∧
      Generator.create twinsSettings "db" [] = .ok twinsGenerator ∧
      twinsGenerator.buildStruct "Foo" twinColumns = .ok twinsStruct ∧
      twinColumn "b" ∈ twinColumns ∧
      twinsGenerator.override? (twinColumn "b") = some ⟨"b.com/x/pkg", "pkg.T"⟩ ∧
      "b.com/x/pkg" ∉ (twinsGenerator.imports [twinsStruct]).paths :=
  ⟨rfl, rfl, buildStruct_twinColumns, by decide, rfl, by decide +kernel⟩

end RowModel
