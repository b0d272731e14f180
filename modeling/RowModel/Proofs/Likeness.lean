import RowModel.Proofs.RuleKey

/-!
What the type of a column depends on. Where no rule names the column, its name, table and schema
are read for the text of an error only, and whether an array may be null makes no difference at all.
Main result: `columnType_alike`, for two columns that may differ in all of this.
-/
namespace RowModel

namespace Column

def UnnamedIn (c : Column) (rules : List Rule) : Prop := ∀ r ∈ rules, r.column? ≠ some c.ref

instance (c : Column) (rules : List Rule) : Decidable (c.UnnamedIn rules) :=
  inferInstanceAs (Decidable (∀ r ∈ rules, _))

/-- Two columns of one SQL type, scalars that may be null alike or arrays. -/
structure Alike (c d : Column) : Prop where
  sqlType : c.sqlType = d.sqlType
  isArray : c.isArray = d.isArray
  /-- Of each array it has to be known whether it may be null, not which of the two. -/
  nullable : c.nullable = d.nullable ∨ c.isArray = true ∧ c.nullable.isSome ∧ d.nullable.isSome

/-- Elements of arrays are never null. -/
theorem nullableElement_of_array {c : Column} (h : c.isArray = true) (hknown : c.nullable.isSome) :
    c.nullableElement = some false := by
  obtain ⟨n, hn⟩ := Option.isSome_iff_exists.mp hknown
  simp [nullableElement, hn, h]

theorem Alike.nullableElement {c d : Column} (h : c.Alike d) :
    c.nullableElement = d.nullableElement := by
  rcases h.nullable with hsame | ⟨harray, hc, hd⟩
  · rw [Column.nullableElement, Column.nullableElement, hsame, h.isArray]
  · rw [nullableElement_of_array harray hc, nullableElement_of_array (h.isArray ▸ harray) hd]

end Column

variable {c d : Column} {rules : List Rule}

/-- An element depends on the SQL type and on whether it may be null. -/
theorem elementFrom_congr (hs : c.sqlType = d.sqlType) (hn : c.nullableElement = d.nullableElement)
    (first : RuleKey → Option Rule) (enumTypes : EnumTypes) :
    elementFrom first enumTypes c = elementFrom first enumTypes d := by
  rw [elementFrom, elementFrom, Column.typeKey?, Column.typeKey?, Column.plainType?,
    Column.plainType?, hs, hn]

/-- A column that no rule names has the type of its element. -/
theorem columnType_of_unnamed (h : c.UnnamedIn rules) (enumTypes : EnumTypes)
    (package : Option String) :
    columnType c rules enumTypes package =
      match elementFrom (firstOf rules) enumTypes c with
      | some element => .ok (c.typeOf element)
      | none => .error (.unsupportedType c.sqlType c.ref.text package) := by
  rw [columnType, resolveColumn_of_unnamed package h, elementType_eq_elementFrom]
  cases elementFrom (firstOf rules) enumTypes c <;> rfl

/-- A column that no rule names has the type of all columns like it, or like them none, and then its
error is about the same SQL type and itself. An array has one type whether it may be null or not,
also where rules name it. -/
theorem columnType_alike (rules : List Rule) (enumTypes : EnumTypes) (package : Option String) :
    (∀ c d : Column, c.Alike d → c.UnnamedIn rules → d.UnnamedIn rules →
      (∃ type, columnType c rules enumTypes package = .ok type ∧
        columnType d rules enumTypes package = .ok type) ∨
      columnType c rules enumTypes package =
          .error (.unsupportedType c.sqlType c.ref.text package) ∧
        columnType d rules enumTypes package =
          .error (.unsupportedType c.sqlType d.ref.text package)) ∧
    ∀ c : Column, c.isArray = true → ∀ m n : Bool,
      columnType { c with nullable := some m } rules enumTypes package =
        columnType { c with nullable := some n } rules enumTypes package := by
  constructor
  · intro c d h hc hd
    rw [columnType_of_unnamed hc, columnType_of_unnamed hd,
      elementFrom_congr h.sqlType h.nullableElement]
    cases elementFrom (firstOf rules) enumTypes d with
    | some element =>
      have htype : d.typeOf element = c.typeOf element := by
        rw [Column.typeOf, Column.typeOf, h.isArray]
      exact .inl ⟨c.typeOf element, rfl, congrArg Except.ok htype⟩
    | none => exact .inr ⟨rfl, by rw [h.sqlType]⟩
  · intro c harray m n
    have hm : ({ c with nullable := some m } : Column).nullableElement = some false :=
      Column.nullableElement_of_array harray rfl
    have hn : ({ c with nullable := some n } : Column).nullableElement = some false :=
      Column.nullableElement_of_array harray rfl
    have helement := elementFrom_congr (c := { c with nullable := some m })
      (d := { c with nullable := some n }) rfl (hm.trans hn.symm) (firstOf rules) enumTypes
    rw [columnType_eq_typeFrom, columnType_eq_typeFrom, typeFrom, typeFrom, helement]
    rfl

def tagsColumn : Column := ⟨"tags", "text", ⟨"public", "foo"⟩, some true, true⟩

def labelsColumn : Column := ⟨"labels", "text", ⟨"app", "bar"⟩, some false, true⟩

def textRules : List Rule :=
  [.type "text" true ⟨"a.com/p", "p.Text"⟩, .column ⟨"public", "foo", "note"⟩ ⟨"b.com/q", "q.Note"⟩]

theorem columnType_alike_arrays :
    tagsColumn.Alike labelsColumn ∧ tagsColumn.UnnamedIn textRules ∧
      labelsColumn.UnnamedIn textRules ∧
      columnType tagsColumn textRules [] (some "db") = .ok "[]string" ∧
      columnType labelsColumn textRules [] (some "db") = .ok "[]string" := by
  have halike : tagsColumn.Alike labelsColumn := ⟨rfl, rfl, .inr ⟨rfl, rfl, rfl⟩⟩
  have htags : tagsColumn.UnnamedIn textRules := by decide
  have hlabels : labelsColumn.UnnamedIn textRules := by decide
  have htype : columnType tagsColumn textRules [] (some "db") = .ok "[]string" := rfl
  refine ⟨halike, htags, hlabels, htype, ?_⟩
  obtain ⟨type, hc, hd⟩ | ⟨herror, -⟩ :=
    (columnType_alike textRules [] (some "db")).1 _ _ halike htags hlabels
  · exact hd.trans (hc.symm.trans htype)
  · cases htype.symm.trans herror

end RowModel
