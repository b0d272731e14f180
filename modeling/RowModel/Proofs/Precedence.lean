import RowModel.Settings.Basic
import RowModel.TypeMap

/-!
What decides the type of a column. The rules of a package and those for all packages stand in one
list, rules for columns and for SQL types mixed, and the search for a column goes through it once,
with an error in hand that a later rule can still take back. Here the same decision is made layer by
layer, each layer with a search of its own for the first rule of one sort.
-/
namespace RowModel

namespace Rule

def column? : Rule → Option ColumnRef
  | type _ _ _ => none
  | column r _ | array r _ => some r

def isForArrays : Rule → Bool
  | array _ _ => true
  | type _ _ _ | column _ _ => false

/-- Whether a rule names this column in its own shape. -/
def fits (c : Column) (r : Rule) : Bool :=
  r.column? == some c.ref && c.isArray == r.isForArrays

/-- Whether a rule for arrays names this column, which is a scalar. -/
def misfits (c : Column) (r : Rule) : Bool :=
  r.column? == some c.ref && r.isForArrays && !c.isArray

/-- Whether a rule is for a SQL type at a nullability, which must be known. -/
def replaces (sqlType : String) (nullable : Option Bool) : Rule → Bool
  | type s n _ => s == sqlType && some n == nullable
  | column _ _ | array _ _ => false

theorem columnTarget?_eq (c : Column) (r : Rule) :
    r.columnTarget? c = if r.fits c then some r.target else none := by
  cases r <;> simp [columnTarget?, fits, column?, isForArrays, target]

theorem mismatch?_eq (c : Column) (r : Rule) :
    r.mismatch? c = if r.misfits c then some r.target else none := by
  cases r <;> simp [mismatch?, misfits, column?, isForArrays, target]

theorem typeTarget?_eq (sqlType : String) (nullable : Option Bool) (r : Rule) :
    r.typeTarget? sqlType nullable =
      if r.replaces sqlType nullable then some r.target else none := by
  cases r <;> simp [typeTarget?, replaces, target]

/-- A rule that takes a scalar for an array is one for arrays and names the scalar. -/
theorem misfits_iff {c : Column} {r : Rule} :
    r.misfits c = true ↔ c.isArray = false ∧ r = .array c.ref r.target := by
  cases r <;> simp [misfits, column?, isForArrays, target, and_comm]

end Rule

/-- The first of a package's own rules that passes a test, or else the first of the rules for all
packages. -/
def firstRule (test : Rule → Bool) (own shared : List Rule) : Option Rule :=
  (own.find? test).or (shared.find? test)

/-- The type of a column's element: from a rule for its SQL type, else from the enums, else from the
built-in types. -/
def layeredElement (own shared : List Rule) (enumTypes : EnumTypes) (package : String)
    (c : Column) : Except Error String :=
  match firstRule (Rule.replaces c.sqlType c.nullableElement) own shared with
  | some r => .ok r.target.typeName
  | none =>
    match enumTypes.lookup c.sqlType, builtinTypes.lookup c.sqlType with
    | some name, _ => .ok name
    | none, some pair => .ok (if c.nullableElement = some true then pair.nullable else pair.notNull)
    | none, none => .error (.unsupportedType c.sqlType c.ref.text (some package))

/-- The type of a column: from a rule that fits it; an error if rules take the scalar for an array;
else from its element. -/
def layeredType (own shared : List Rule) (enumTypes : EnumTypes) (package : String)
    (c : Column) : Except Error String :=
  match firstRule (Rule.fits c) own shared, firstRule (Rule.misfits c) own shared with
  | some r, _ => .ok r.target.typeName
  | none, some r =>
    .error (.configuration (.arrayOverScalar c.ref) (some package) (some r.target.typeName))
  | none, none =>
    match layeredElement own shared enumTypes package c with
    | .ok element => .ok (if c.isArray then "[]" ++ element else element)
    | .error e => .error e

/-- The first of all rules is the first of the layers. -/
theorem find?_append_eq_firstRule (test : Rule → Bool) (own shared : List Rule) :
    (own ++ shared).find? test = firstRule test own shared := List.find?_append

theorem mem_of_firstRule {test : Rule → Bool} {own shared : List Rule} {r : Rule}
    (h : firstRule test own shared = some r) : r ∈ own ++ shared ∧ test r = true := by
  rw [← find?_append_eq_firstRule] at h
  exact ⟨List.mem_of_find?_eq_some h, List.find?_some h⟩

theorem firstRule_eq_none {test : Rule → Bool} {own shared : List Rule}
    (h : ∀ r ∈ own ++ shared, test r = false) : firstRule test own shared = none := by
  rw [← find?_append_eq_firstRule, List.find?_eq_none]
  intro r hr
  rw [h r hr]
  exact Bool.false_ne_true

/-- The one search for a column: a rule that fits anywhere in the list decides it, and only without
one does the pending target, or the first misfit that follows, make an error. -/
theorem resolveFrom_eq (c : Column) (package : Option String) (pending : Option Target)
    (rules : List Rule) :
    resolveFrom c package pending rules =
      match rules.find? (Rule.fits c),
        pending.or ((rules.find? (Rule.misfits c)).map Rule.target) with
      | some r, _ => .ok (some r.target)
      | none, some t =>
        .error (.configuration (.arrayOverScalar c.ref) package (some t.typeName))
      | none, none => .ok none := by
  induction rules generalizing pending with
  | nil => cases pending <;> rfl
  | cons r rest ih =>
    rw [resolveFrom, Rule.columnTarget?_eq, Rule.mismatch?_eq]
    by_cases hf : r.fits c = true
    · simp [hf]
    · by_cases hm : r.misfits c = true
      · simp only [hf, hm, if_true, ih, List.find?_cons, Option.or_assoc, Option.map_some,
          Option.some_or]
        rfl
      · simp [hf, hm, ih]

/-- The target for a SQL type is that of the first rule which replaces it. -/
theorem resolveType_eq (sqlType : String) (nullable : Option Bool) (rules : List Rule) :
    resolveType sqlType nullable rules =
      (rules.find? (Rule.replaces sqlType nullable)).map Rule.target := by
  induction rules with
  | nil => rfl
  | cons r rest ih =>
    rw [resolveType, List.findSome?_cons, Rule.typeTarget?_eq]
    by_cases hr : r.replaces sqlType nullable = true
    · simp [hr]
    · simpa [hr, resolveType] using ih

/-- A column that no rule names is decided by its SQL type alone. -/
theorem resolveColumn_of_unnamed {c : Column} {rules : List Rule} (package : Option String)
    (h : ∀ r ∈ rules, r.column? ≠ some c.ref) : resolveColumn c rules package = .ok none := by
  have hfits : rules.find? (Rule.fits c) = none := by
    rw [List.find?_eq_none]
    intro r hr
    simp [Rule.fits, h r hr]
  have hmisfits : rules.find? (Rule.misfits c) = none := by
    rw [List.find?_eq_none]
    intro r hr
    simp [Rule.misfits, h r hr]
  rw [resolveColumn, resolveFrom_eq, hfits, hmisfits]
  rfl

/-- The layers of an element's type. -/
theorem elementType_eq (own shared : List Rule) (enumTypes : EnumTypes) (package : String)
    (c : Column) :
    elementType c (own ++ shared) enumTypes (some package) =
      layeredElement own shared enumTypes package c := by
  rw [elementType, layeredElement, resolveType_eq, find?_append_eq_firstRule]
  cases firstRule (Rule.replaces c.sqlType c.nullableElement) own shared with
  | some r => rfl
  | none =>
    cases enumTypes.lookup c.sqlType with
    | some name => rfl
    | none => cases builtinTypes.lookup c.sqlType <;> rfl

/-- The layers of a column's type, for any two lists of rules one after the other. -/
theorem columnType_append (own shared : List Rule) (enumTypes : EnumTypes) (package : String)
    (c : Column) :
    columnType c (own ++ shared) enumTypes (some package) =
      layeredType own shared enumTypes package c := by
  rw [columnType, layeredType, resolveColumn, resolveFrom_eq, elementType_eq,
    find?_append_eq_firstRule, find?_append_eq_firstRule, Option.none_or]
  cases firstRule (Rule.fits c) own shared with
  | some r => rfl
  | none =>
    cases firstRule (Rule.misfits c) own shared with
    | some r => rfl
    | none => cases layeredElement own shared enumTypes package c <;> rfl

/-- An element without a type is of an unknown SQL type. -/
theorem layeredElement_eq_error {own shared : List Rule} {enumTypes : EnumTypes} {package : String}
    {c : Column} {e : Error} (h : layeredElement own shared enumTypes package c = .error e) :
    enumTypes.lookup c.sqlType = none ∧ builtinTypes.lookup c.sqlType = none ∧
      e = .unsupportedType c.sqlType c.ref.text (some package) := by
  rw [layeredElement] at h
  split at h
  · cases h
  · split at h
    · cases h
    · cases h
    · next henum hbuiltin =>
      cases h
      exact ⟨henum, hbuiltin, rfl⟩

/-- The rules that count for a package of the settings decide the type of any column layer by
layer, the package's own rules first in each. -/
theorem columnType_eq_layeredType (s : Settings) {p : Package} (hp : p ∈ s.packages)
    (enumTypes : EnumTypes) (c : Column) :
    ∃ rules, s.rulesFor p.name = .ok rules ∧
      columnType c rules enumTypes (some p.name) =
        layeredType p.overrides s.overrides enumTypes p.name c := by
  refine ⟨s.rulesOf p, ?_, columnType_append p.overrides s.overrides enumTypes p.name c⟩
  rw [Settings.rulesFor, Settings.package_eq_ok_of_mem hp]
  rfl

def mistakenColumn : Column := ⟨"a", "text", ⟨"public", "foo"⟩, some true, false⟩

def mistakingPackage : Package :=
  ⟨"db", .null, .null, .null, none, none,
    [.array mistakenColumn.ref ⟨"a.com/p", "p.List"⟩, .type "text" true ⟨"a.com/p", "p.Text"⟩]⟩

def mistakingSettings : Settings :=
  ⟨some "1", [mistakingPackage], [.column mistakenColumn.ref ⟨"b.com/q", "q.Text"⟩], by decide⟩

theorem columnType_mistakenColumn :
    mistakingPackage ∈ mistakingSettings.packages ∧
      (∃ rules, mistakingSettings.rulesFor "db" = .ok rules ∧
        columnType mistakenColumn rules [] (some "db") =
          layeredType mistakingPackage.overrides mistakingSettings.overrides [] "db"
            mistakenColumn) ∧
      layeredType mistakingPackage.overrides mistakingSettings.overrides [] "db" mistakenColumn =
        .ok "q.Text" :=
  have hp : mistakingPackage ∈ mistakingSettings.packages := List.mem_singleton.mpr rfl
  ⟨hp, columnType_eq_layeredType mistakingSettings hp [] mistakenColumn, rfl⟩

end RowModel
