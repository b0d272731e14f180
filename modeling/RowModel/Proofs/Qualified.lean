import RowModel.Proofs.Declaration
import RowModel.Proofs.Identifier
import RowModel.Proofs.ImportPath

/-!
Which types need an import: those that are qualified, and no others. A type comes from a rule, from
an enum or from the built-in table. Targets of declared rules are qualified, enums never are, and
every qualifier of the table has a path. Main result: `Generator.paths_imports_models`, exactly which
paths the models of a generator import.
-/
namespace RowModel

open Text

def IsQualified (type : String) : Prop := '.' ∈ type.toList

instance (type : String) : Decidable (IsQualified type) :=
  inferInstanceAs (Decidable (_ ∈ _))

/-- Brackets and stars hold no point, so a type is qualified when its bare type is. -/
theorem isQualified_bareType {type : String} : IsQualified (bareType type) ↔ IsQualified type := by
  have hmark : '.' ∉ type.toList.takeWhile isTypeMark := by
    intro hmem
    exact absurd (List.all_eq_true.mp List.all_takeWhile '.' hmem) (by decide)
  rw [IsQualified, bareType, String.toList_ofList, IsQualified]
  constructor
  · intro h
    exact (List.dropWhile_sublist isTypeMark).mem h
  · intro h
    rw [← List.takeWhile_append_dropWhile (p := isTypeMark) (l := type.toList)] at h
    exact (List.mem_append.mp h).resolve_left hmark

theorem isQualified_congr {s t : String} (h : bareType s = bareType t) :
    IsQualified s ↔ IsQualified t := by
  rw [← isQualified_bareType, h, isQualified_bareType]

theorem Target.WellFormed.isQualified {t : Target} (h : t.WellFormed) :
    IsQualified t.typeName := by
  obtain ⟨mark, qualifier, name, -, -, -, -, -, htype⟩ := h.qualified
  rw [IsQualified, htype]
  simp

/-- The type name of an enum is never qualified. -/
theorem not_isQualified_enumTypeName (name : String) : ¬ IsQualified (Name.enumTypeName name) :=
  Name.point_not_mem_enumTypeName name

def builtinPairs : List TypePair :=
  [.int16, .int32, .int64, .float32, .float64, .bool, .string, .bytes, .time, .json, .uuid]

theorem pair_mem_builtinPairs : ∀ e ∈ builtinTypes, e.2 ∈ builtinPairs := by
  simp [builtinTypes, builtinPairs]

/-- Every qualifier of the built-in table has a path. -/
theorem builtinImport?_isSome :
    ∀ pair ∈ builtinPairs, ∀ type ∈ [pair.notNull, pair.nullable],
      IsQualified type → (builtinImport? (bareType type)).isSome := by decide +kernel

/-- The qualified types of the built-in table have paths. -/
theorem builtinImport?_pick {e : String × TypePair} (he : e ∈ builtinTypes)
    (nullable : Option Bool) (hq : IsQualified (e.2.pick nullable)) :
    (builtinImport? (bareType (e.2.pick nullable))).isSome := by
  have half : e.2.pick nullable ∈ [e.2.notNull, e.2.nullable] := by
    rw [TypePair.pick]
    split <;> simp
  exact builtinImport?_isSome e.2 (pair_mem_builtinPairs e he) _ half hq

theorem builtinImport?_eq_none {bare : String} (h : ¬ IsQualified bare) :
    builtinImport? bare = none := by
  rw [builtinImport?, cutFirst_eq_none_iff.mpr h]
  rfl

section

variable {rules : List Rule} (hrules : ∀ r ∈ rules, IsQualified r.target.typeName)

include hrules in
/-- No rule with a qualified target has an unqualified bare type. -/
theorem ruleOfType_eq_none {bare : String} (h : ¬ IsQualified bare) :
    ruleOfType rules bare = none := by
  rw [ruleOfType, List.find?_eq_none]
  intro r hr he
  apply h
  rw [← beq_iff_eq.mp he, isQualified_bareType]
  exact hrules r hr

include hrules in
/-- An unqualified type needs no import. -/
theorem neededPath_eq_none {type : String} (h : ¬ IsQualified type) :
    neededPath rules (bareType type) = none := by
  have hbare : ¬ IsQualified (bareType type) := by rwa [isQualified_bareType]
  rw [neededPath, ruleOfType_eq_none hrules hbare]
  exact builtinImport?_eq_none hbare

/-- A type with the bare type of a rule needs the path of the first such rule. -/
theorem neededPath_of_rule {type : String} {r : Rule} (hr : r ∈ rules)
    (h : bareType type = bareType r.target.typeName) :
    ∃ path, neededPath rules (bareType type) = some path := by
  obtain ⟨first, hfirst⟩ := exists_ruleOfType hr
  exact ⟨first.target.importPath, by rw [neededPath, h, hfirst]⟩

theorem neededPath_of_builtin {bare : String} (h : (builtinImport? bare).isSome) :
    ∃ path, neededPath rules bare = some path := by
  rw [neededPath]
  split
  · exact ⟨_, rfl⟩
  · exact Option.isSome_iff_exists.mp h

end

/-- A field alone has the one path that its type needs, or none. -/
theorem paths_collectImports_field (name : String) (f : Field) (rules : List Rule) :
    (collectImports [⟨name, [f]⟩] rules).paths = (neededPath rules (bareType f.type)).toList := by
  simp only [collectImports, ImportSet.paths, List.flatMap_cons, List.flatMap_nil, List.append_nil,
    List.filterMap_cons, List.filterMap_nil, importOf?_overridePaths]
  cases neededPath rules (bareType f.type) with
  | none => rfl
  | some path => cases hs : isStandard path <;> simp [hs, sortTexts, insertText]

namespace Generator

variable {g : Generator} {c : Column} {type : String}

/-- A column that no rule types has the type of an enum or a built-in one. -/
theorem bareType_of_no_override (ht : g.override? c = none) (h : g.columnType c = .ok type) :
    (∃ e ∈ g.enums, bareType type = bareType (Name.enumTypeName e.name)) ∨
      ∃ e ∈ builtinTypes, ∃ n, bareType type = bareType (e.2.pick n) := by
  have wrap (t : String) : bareType (if c.isArray then "[]" ++ t else t) = bareType t := by
    cases c.isArray <;> simp
  rw [override?] at ht
  rw [columnType, RowModel.columnType] at h
  cases hr : resolveColumn c g.rules (some g.package.name) with
  | error e => rw [hr] at h; cases h
  | ok found =>
    rw [hr] at ht h
    cases found with
    | some t => cases ht
    | none =>
      change resolveType c.sqlType c.nullableElement g.rules = none at ht
      simp only [elementType, ht] at h
      cases he : g.enumTypes.lookup c.sqlType with
      | some name =>
        rw [he] at h
        cases h
        obtain ⟨before, after, hlist, -⟩ := List.lookup_eq_some_iff.mp he
        have hmem : (c.sqlType, name) ∈ g.enumTypes := by simp [hlist]
        obtain ⟨e, henum, hpair⟩ := List.mem_map.mp hmem
        obtain ⟨-, rfl⟩ := Prod.mk.injEq .. ▸ hpair
        exact .inl ⟨e, henum, wrap _⟩
      | none =>
        rw [he] at h
        cases hb : builtinTypes.lookup c.sqlType with
        | none => rw [hb] at h; cases h
        | some pair =>
          rw [hb] at h
          cases h
          obtain ⟨before, after, hlist, -⟩ := List.lookup_eq_some_iff.mp hb
          have hmem : (c.sqlType, pair) ∈ builtinTypes := by simp [hlist]
          exact .inr ⟨(c.sqlType, pair), hmem, c.nullableElement, wrap _⟩

/-- The type of a column needs an import when it is qualified. -/
theorem neededPath_of_isQualified (h : g.columnType c = .ok type) (hq : IsQualified type) :
    ∃ path, neededPath g.rules (bareType type) = some path := by
  cases ht : g.override? c with
  | some t =>
    obtain ⟨r, hr, rfl⟩ := mem_rules_of_override? ht
    exact neededPath_of_rule hr (bareType_of_override? ht h)
  | none =>
    rcases bareType_of_no_override ht h with ⟨e, -, he⟩ | ⟨e, hmem, n, he⟩
    · exact absurd ((isQualified_congr he).mp hq) (not_isQualified_enumTypeName e.name)
    · rw [he]
      exact neededPath_of_builtin (builtinImport?_pick hmem n ((isQualified_congr he).mp hq))

/-- Every field of a generator's models has the type of a column. -/
theorem exists_columnType_of_field {tables : List (TableRef × List Column)} {models : List Struct}
    (h : g.buildModels tables = .ok models) {x : Struct} (hx : x ∈ models) {f : Field}
    (hf : f ∈ x.fields) : ∃ c, g.columnType c = .ok f.type := by
  obtain ⟨table, -, hbuild⟩ := exists_mem_of_forall₂ (mapM_eq_ok_iff.mp h).flip hx
  obtain ⟨c, -, hc⟩ := exists_mem_of_forall₂ (columnType_fields hbuild).flip hf
  exact ⟨c, hc⟩

theorem rules_isQualified [Machine] {raw : Value} (hs : Settings.ofValue raw = .ok g.settings) :
    ∀ r ∈ g.rules, IsQualified r.target.typeName := by
  obtain ⟨entries, -, hdeclared⟩ := Settings.ofValue_declared hs
  intro r hr
  exact (hdeclared.rules_wellFormed g.registered hr).target.isQualified

/-- Of the fields of a generator's models each qualified one brings the one path that its type
needs, the first effective rule's of this bare type or else the built-in one of its qualifier; the
others bring none, and there are no further paths. -/
theorem paths_imports_models [Machine] {raw : Value} (hs : Settings.ofValue raw = .ok g.settings)
    {tables : List (TableRef × List Column)} {models : List Struct}
    (h : g.buildModels tables = .ok models) :
    (∀ x ∈ models, ∀ f ∈ x.fields, IsQualified f.type →
      ∃ path, neededPath g.rules (bareType f.type) = some path ∧
        (g.imports [⟨x.name, [f]⟩]).paths = [path]) ∧
    (∀ x ∈ models, ∀ f ∈ x.fields, ¬ IsQualified f.type →
      (g.imports [⟨x.name, [f]⟩]).paths = []) ∧
    ∀ path, path ∈ (g.imports models).paths ↔
      ∃ x ∈ models, ∃ f ∈ x.fields,
        IsQualified f.type ∧ neededPath g.rules (bareType f.type) = some path := by
  have hrules := rules_isQualified hs
  refine ⟨?_, ?_, ?_⟩
  · intro x hx f hf hq
    obtain ⟨c, hc⟩ := exists_columnType_of_field h hx hf
    obtain ⟨path, hpath⟩ := neededPath_of_isQualified hc hq
    exact ⟨path, hpath, by rw [imports, paths_collectImports_field, hpath]; rfl⟩
  · intro x hx f hf hq
    rw [imports, paths_collectImports_field, neededPath_eq_none hrules hq]
    rfl
  · intro path
    rw [imports, mem_paths_collectImports]
    constructor
    · rintro ⟨x, hx, f, hf, hpath⟩
      have hq : IsQualified f.type := by
        by_contra hq
        rw [neededPath_eq_none hrules hq] at hpath
        cases hpath
      exact ⟨x, hx, f, hf, hq, hpath⟩
    · rintro ⟨x, hx, f, hf, -, hpath⟩
      exact ⟨x, hx, f, hf, hpath⟩

end Generator

def pointerValue : Value :=
  .map [(.str "packages", .list [.map [(.str "name", .str "db")]]), (.str "overrides", .list
    [.map [(.str "go_type", .str "*b.com/y.U"), (.str "postgres_type", .str "text")]])]

def pointerPackage : Package := ⟨"db", .null, .null, .null, some false, some false, []⟩

def pointerSettings : Settings :=
  ⟨some "1", [pointerPackage], [.type "text" false ⟨"b.com/y", "*y.U"⟩], by decide⟩

def pointerGenerator : Generator :=
  ⟨pointerSettings, pointerPackage, [⟨"app.mood", ["ok"]⟩], List.mem_singleton.mpr rfl⟩

/-- Types of all four origins: a rule, the built-in table with and without a qualifier, an enum. -/
def feelingColumns : List Column :=
  [⟨"notes", "text", ⟨"public", "feelings"⟩, some true, true⟩,
    ⟨"at", "date", ⟨"public", "feelings"⟩, some true, false⟩,
    ⟨"count", "int", ⟨"public", "feelings"⟩, some false, false⟩,
    ⟨"mood", "app.mood", ⟨"public", "feelings"⟩, some true, true⟩]

def feelingModel : Struct :=
  ⟨"Feeling", [⟨"Notes", "[]*y.U", none⟩, ⟨"At", "sql.NullTime", none⟩, ⟨"Count", "int32", none⟩,
    ⟨"Mood", "[]Mood", none⟩]⟩

theorem paths_imports_feelings :
    Settings.ofValue pointerValue = .ok pointerGenerator.settings ∧
      pointerGenerator.buildModels [(⟨"public", "feelings"⟩, feelingColumns)] =
        .ok [feelingModel] ∧
      (pointerGenerator.imports [⟨"Feeling", [⟨"Mood", "[]Mood", none⟩]⟩]).paths = [] ∧
      "b.com/y" ∈ (pointerGenerator.imports [feelingModel]).paths :=
  have hs : Settings.ofValue pointerValue = .ok pointerGenerator.settings := rfl
  have hm : pointerGenerator.buildModels [(⟨"public", "feelings"⟩, feelingColumns)] =
      .ok [feelingModel] := by decide +kernel
  have h := Generator.paths_imports_models hs hm
  have hx : feelingModel ∈ [feelingModel] := List.mem_singleton_self _
  ⟨hs, hm, h.2.1 feelingModel hx ⟨"Mood", "[]Mood", none⟩ (by simp [feelingModel]) (by decide),
    (h.2.2 "b.com/y").mpr
      ⟨feelingModel, hx, ⟨"Notes", "[]*y.U", none⟩, List.mem_cons_self, by decide,
        by decide +kernel⟩⟩

end RowModel
