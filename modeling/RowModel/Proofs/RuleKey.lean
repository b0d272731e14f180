import RowModel.Proofs.Precedence
import Mathlib.Logic.Basic

/-!
What rules are for. Of the rules with one key the first one counts and the others do nothing, and a
column asks for three keys at most: one for its own shape, one that would take it for an array, and
one for its SQL type. So its type depends on the rules through the first of each key alone
(`columnType_eq_typeFrom`), and whether it has a type through the keys alone
(`hasType_iff`).
-/
namespace RowModel

/-- A SQL type at a nullability, or a column in one shape. -/
inductive RuleKey where
  | type (sqlType : String) (nullable : Bool)
  | column (column : ColumnRef)
  | array (column : ColumnRef)
  deriving DecidableEq, Repr

def Rule.key : Rule → RuleKey
  | type s n _ => .type s n
  | column r _ => .column r
  | array r _ => .array r

def keysOf (rules : List Rule) : List RuleKey := rules.map Rule.key

def firstOf (rules : List Rule) (k : RuleKey) : Option Rule := rules.find? fun r => r.key == k

theorem firstOf_eq_none_iff {rules : List Rule} {k : RuleKey} :
    firstOf rules k = none ↔ k ∉ keysOf rules := by
  simp [firstOf, keysOf]

theorem exists_firstOf_iff {rules : List Rule} {k : RuleKey} :
    (∃ r, firstOf rules k = some r) ↔ k ∈ keysOf rules := by
  rw [← Option.isSome_iff_exists, Option.isSome_iff_ne_none, ne_eq, firstOf_eq_none_iff, not_not]

/-- Of two lists the first one counts where it has the key. -/
theorem firstOf_append (before after : List Rule) (k : RuleKey) :
    firstOf (before ++ after) k = (firstOf before k).or (firstOf after k) := List.find?_append

theorem firstOf_cons (r : Rule) (rules : List Rule) (k : RuleKey) :
    firstOf (r :: rules) k = if r.key = k then some r else firstOf rules k := by
  by_cases h : r.key = k <;> simp [firstOf, h]

namespace Column

/-- What a rule is for that fixes the type of the column. -/
def ownKey (c : Column) : RuleKey := if c.isArray then .array c.ref else .column c.ref

/-- What a rule is for that takes the column for an array. -/
def strayKey? (c : Column) : Option RuleKey := if c.isArray then none else some (.array c.ref)

/-- What a rule is for that replaces the SQL type of the column. -/
def typeKey? (c : Column) : Option RuleKey := c.nullableElement.map (.type c.sqlType)

/-- The type of the column's element where no rule replaces its SQL type. -/
def plainType? (c : Column) (enumTypes : EnumTypes) : Option String :=
  (enumTypes.lookup c.sqlType).or ((builtinTypes.lookup c.sqlType).map (·.pick c.nullableElement))

def typeOf (c : Column) (element : String) : String :=
  if c.isArray then "[]" ++ element else element

variable {c : Column}

theorem ownKey_of_scalar (h : c.isArray = false) : c.ownKey = .column c.ref := by
  simp [ownKey, h]

theorem strayKey?_eq_some {k : RuleKey} :
    c.strayKey? = some k ↔ c.isArray = false ∧ k = .array c.ref := by
  cases h : c.isArray <;> simp [strayKey?, h, eq_comm]

/-- What takes a column for an array is never what it is. -/
theorem strayKey?_ne_ownKey (c : Column) : c.strayKey? ≠ some c.ownKey := by
  cases h : c.isArray <;> simp [strayKey?, ownKey, h]

end Column

namespace Rule

theorem fits_eq (c : Column) (r : Rule) : r.fits c = (r.key == c.ownKey) := by
  rw [Bool.eq_iff_iff]
  cases hc : c.isArray <;> cases r <;> simp [fits, column?, isForArrays, key, Column.ownKey, hc]

theorem misfits_eq (c : Column) (r : Rule) : r.misfits c = (some r.key == c.strayKey?) := by
  rw [Bool.eq_iff_iff]
  cases hc : c.isArray <;> cases r <;>
    simp [misfits, column?, isForArrays, key, Column.strayKey?, hc]

theorem replaces_eq (c : Column) (r : Rule) :
    r.replaces c.sqlType c.nullableElement = (some r.key == c.typeKey?) := by
  rw [Bool.eq_iff_iff]
  cases hc : c.nullableElement <;> cases r <;> simp [replaces, key, Column.typeKey?, hc]

end Rule

theorem find?_fits (rules : List Rule) (c : Column) :
    rules.find? (Rule.fits c) = firstOf rules c.ownKey := by
  rw [firstOf, funext (Rule.fits_eq c)]

/-- A search for the rules of a key that may be missing. -/
theorem find?_key? (rules : List Rule) (k : Option RuleKey) :
    (rules.find? fun r => some r.key == k) = k.bind (firstOf rules) := by
  cases k with
  | none => simp
  | some k => rfl

theorem find?_misfits (rules : List Rule) (c : Column) :
    rules.find? (Rule.misfits c) = c.strayKey?.bind (firstOf rules) := by
  rw [funext (Rule.misfits_eq c), find?_key?]

theorem find?_replaces (rules : List Rule) (c : Column) :
    rules.find? (Rule.replaces c.sqlType c.nullableElement) = c.typeKey?.bind (firstOf rules) := by
  rw [funext (Rule.replaces_eq c), find?_key?]

/-- The type of a column's element, from the rules that count. -/
def elementFrom (first : RuleKey → Option Rule) (enumTypes : EnumTypes) (c : Column) :
    Option String :=
  ((c.typeKey?.bind first).map fun r => r.target.typeName).or (c.plainType? enumTypes)

def typeFrom (first : RuleKey → Option Rule) (enumTypes : EnumTypes) (package : Option String)
    (c : Column) : Except Error String :=
  match first c.ownKey, c.strayKey?.bind first, elementFrom first enumTypes c with
  | some r, _, _ => .ok r.target.typeName
  | none, some r, _ =>
    .error (.configuration (.arrayOverScalar c.ref) package (some r.target.typeName))
  | none, none, some element => .ok (c.typeOf element)
  | none, none, none => .error (.unsupportedType c.sqlType c.ref.text package)

/-- The type of an element depends on the rules that count. -/
theorem elementType_eq_elementFrom (c : Column) (rules : List Rule) (enumTypes : EnumTypes)
    (package : Option String) :
    elementType c rules enumTypes package =
      match elementFrom (firstOf rules) enumTypes c with
      | some element => .ok element
      | none => .error (.unsupportedType c.sqlType c.ref.text package) := by
  rw [elementType, resolveType_eq, find?_replaces, elementFrom, Column.plainType?]
  cases c.typeKey?.bind (firstOf rules) with
  | some r => rfl
  | none =>
    cases enumTypes.lookup c.sqlType with
    | some name => rfl
    | none => cases builtinTypes.lookup c.sqlType <;> rfl

/-- The rules that count are all that the type of a column takes from a list of rules. -/
theorem columnType_eq_typeFrom (c : Column) (rules : List Rule) (enumTypes : EnumTypes)
    (package : Option String) :
    columnType c rules enumTypes package = typeFrom (firstOf rules) enumTypes package c := by
  rw [columnType, resolveColumn, resolveFrom_eq, find?_fits, find?_misfits,
    elementType_eq_elementFrom, typeFrom, Option.none_or]
  cases firstOf rules c.ownKey with
  | some r => rfl
  | none =>
    cases c.strayKey?.bind (firstOf rules) with
    | some r => rfl
    | none => cases elementFrom (firstOf rules) enumTypes c <;> rfl

theorem bind_firstOf_eq_none_iff {rules : List Rule} {k : Option RuleKey} :
    k.bind (firstOf rules) = none ↔ ∀ j ∈ k, j ∉ keysOf rules := by
  cases k with
  | none => simp
  | some k => simp [firstOf_eq_none_iff]

/-- An element has no type exactly if no rule replaces it and no table has it. -/
theorem elementFrom_eq_none_iff {rules : List Rule} {enumTypes : EnumTypes} {c : Column} :
    elementFrom (firstOf rules) enumTypes c = none ↔
      (∀ k ∈ c.typeKey?, k ∉ keysOf rules) ∧ c.plainType? enumTypes = none := by
  rw [elementFrom, Option.or_eq_none_iff, Option.map_eq_none_iff, bind_firstOf_eq_none_iff]

def HasType (c : Column) (rules : List Rule) (enumTypes : EnumTypes) (package : Option String) :
    Prop := ∃ type, columnType c rules enumTypes package = .ok type

/-- A column has a type if there is a rule for its own shape, or if no rule takes it for an array
and there is a rule or a plain type for its SQL type. The targets of the rules make no difference. -/
theorem hasType_iff {c : Column} {rules : List Rule} {enumTypes : EnumTypes}
    {package : Option String} :
    HasType c rules enumTypes package ↔
      c.ownKey ∈ keysOf rules ∨
        (∀ k ∈ c.strayKey?, k ∉ keysOf rules) ∧
          ((∃ k ∈ c.typeKey?, k ∈ keysOf rules) ∨ c.plainType? enumTypes ≠ none) := by
  have helement : elementFrom (firstOf rules) enumTypes c ≠ none ↔
      (∃ k ∈ c.typeKey?, k ∈ keysOf rules) ∨ c.plainType? enumTypes ≠ none := by
    rw [ne_eq, elementFrom_eq_none_iff, not_and_or]
    simp only [not_forall, not_not, exists_prop]
  rw [HasType, columnType_eq_typeFrom, typeFrom, ← helement, ← bind_firstOf_eq_none_iff,
    ← exists_firstOf_iff]
  cases firstOf rules c.ownKey with
  | some r => simp
  | none =>
    cases c.strayKey?.bind (firstOf rules) with
    | some r => simp
    | none => cases elementFrom (firstOf rules) enumTypes c <;> simp

end RowModel
