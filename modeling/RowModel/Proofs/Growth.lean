import RowModel.Proofs.RuleKey
import RowModel.Table

/-!
What becomes of a typed column when the settings or the catalog grow. More rules and more enums
never take the type of a column away, with one exception: a rule for an array that names the column,
where the column is a scalar that no rule names as one. Main result: `columnType_grown`.
-/
namespace RowModel

variable {c : Column} {before after : List Rule} {enumTypes : EnumTypes} {package : Option String}

theorem mem_keysOf_insert {r : Rule} {k : RuleKey} :
    k ∈ keysOf (before ++ r :: after) ↔ k = r.key ∨ k ∈ keysOf (before ++ after) := by
  simp only [keysOf, List.map_append, List.map_cons, List.mem_append, List.mem_cons]
  exact or_left_comm

/-- More keys and more plain types leave a typed column typed, if none of the new keys takes it for
an array. -/
theorem HasType.mono {rs₁ rs₂ : List Rule} {enums₁ enums₂ : EnumTypes}
    (h : HasType c rs₁ enums₁ package) (hkeys : ∀ k ∈ keysOf rs₁, k ∈ keysOf rs₂)
    (hstray : ∀ k ∈ c.strayKey?, k ∈ keysOf rs₂ → k ∈ keysOf rs₁)
    (hplain : c.plainType? enums₁ ≠ none → c.plainType? enums₂ ≠ none) :
    HasType c rs₂ enums₂ package := by
  rw [hasType_iff] at h ⊢
  rcases h with hown | ⟨hfree, helement⟩
  · exact .inl (hkeys _ hown)
  · refine .inr ⟨fun k hk hmem => hfree k hk (hstray k hk hmem), ?_⟩
    rcases helement with ⟨k, hk, hmem⟩ | hsome
    · exact .inl ⟨k, hk, hkeys k hmem⟩
    · exact .inr (hplain hsome)

/-- One rule more takes the type of a column away only if it takes the column for an array, and not
even then if there is a rule for the column's own shape. -/
theorem hasType_insert_iff (h : HasType c (before ++ after) enumTypes package) {r : Rule} :
    HasType c (before ++ r :: after) enumTypes package ↔
      c.strayKey? ≠ some r.key ∨ c.ownKey ∈ keysOf (before ++ after) := by
  constructor
  · intro hnew
    by_cases hown : c.ownKey ∈ keysOf (before ++ after)
    · exact .inr hown
    · refine .inl fun hstray => ?_
      rcases hasType_iff.mp hnew with hmem | ⟨hfree, -⟩
      · rcases mem_keysOf_insert.mp hmem with hkey | hmem
        · exact c.strayKey?_ne_ownKey (hkey ▸ hstray)
        · exact hown hmem
      · exact hfree _ hstray (mem_keysOf_insert.mpr (.inl rfl))
  · rintro (hr | hown)
    · refine h.mono (fun k hk => mem_keysOf_insert.mpr (.inr hk)) ?_ id
      intro k hk hmem
      rcases mem_keysOf_insert.mp hmem with rfl | hmem
      · exact absurd hk hr
      · exact hmem
    · exact hasType_iff.mpr (.inl (mem_keysOf_insert.mpr (.inr hown)))

/-- An enum more takes no type away. -/
theorem plainType?_put (name type : String) (h : c.plainType? enumTypes ≠ none) :
    c.plainType? (Table.put name type enumTypes) ≠ none := by
  by_cases hn : c.sqlType = name
  · rw [Column.plainType?, hn, Table.lookup_put_same, Option.some_or]
    exact Option.some_ne_none type
  · rwa [Column.plainType?, Table.lookup_put_other _ _ _ _ hn]

theorem column_mem_keysOf {rules : List Rule} {ref : ColumnRef} :
    .column ref ∈ keysOf rules ↔ ∃ t, .column ref t ∈ rules := by
  constructor
  · intro h
    obtain ⟨r, hr, hkey⟩ := List.mem_map.mp h
    cases r with
    | column ref' t =>
      cases hkey
      exact ⟨t, hr⟩
    | type _ _ _ => cases hkey
    | array _ _ => cases hkey
  · rintro ⟨t, ht⟩
    exact List.mem_map.mpr ⟨_, ht, rfl⟩

/-- A typed scalar that no rule names as one has its type from its SQL type, and loses it to a rule
that takes it for an array. -/
theorem columnType_stray (h : HasType c (before ++ after) enumTypes package)
    (hscalar : c.isArray = false) (hown : .column c.ref ∉ keysOf (before ++ after)) (t : Target) :
    columnType c (before ++ .array c.ref t :: after) enumTypes package =
      .error (.configuration (.arrayOverScalar c.ref) package (some t.typeName)) := by
  have hkey := Column.ownKey_of_scalar hscalar
  have hstray : c.strayKey? = some (.array c.ref) := Column.strayKey?_eq_some.mpr ⟨hscalar, rfl⟩
  have hfree : .array c.ref ∉ keysOf (before ++ after) := by
    rw [hasType_iff, hkey, hstray] at h
    exact (h.resolve_left hown).1 _ rfl
  have hnone : firstOf (before ++ .array c.ref t :: after) (.column c.ref) = none := by
    rw [firstOf_eq_none_iff, mem_keysOf_insert, not_or]
    exact ⟨RuleKey.noConfusion, hown⟩
  have hfirst : firstOf (before ++ .array c.ref t :: after) (.array c.ref) =
      some (.array c.ref t) := by
    -- an earlier rule of this key would have left the column without a type before
    have hbefore : firstOf before (.array c.ref) = none := by
      rw [← firstOf_eq_none_iff, firstOf_append, Option.or_eq_none_iff] at hfree
      exact hfree.1
    rw [firstOf_append, hbefore, Option.none_or, firstOf_cons]
    exact if_pos rfl
  rw [columnType_eq_typeFrom, typeFrom, hkey, hstray, hnone, Option.bind_some, hfirst]
  rfl

/-- A typed column stays typed when a rule for a SQL type or for a scalar is put anywhere between
the rules, and when a name is added to the enums. A rule for an array makes an error of it exactly
if it names the column, which is a scalar that no rule names as one. -/
theorem columnType_grown (h : HasType c (before ++ after) enumTypes package) :
    (∀ s n t, HasType c (before ++ .type s n t :: after) enumTypes package) ∧
    (∀ ref t, HasType c (before ++ .column ref t :: after) enumTypes package) ∧
    (∀ name type, HasType c (before ++ after) (Table.put name type enumTypes) package) ∧
    ∀ ref t e, columnType c (before ++ .array ref t :: after) enumTypes package = .error e ↔
      c.isArray = false ∧ ref = c.ref ∧ (∀ u, .column ref u ∉ before ++ after) ∧
        e = .configuration (.arrayOverScalar ref) package (some t.typeName) := by
  refine ⟨?_, ?_, ?_, ?_⟩
  · intro s n t
    exact (hasType_insert_iff h).mpr
      (.inl fun hk => RuleKey.noConfusion (Column.strayKey?_eq_some.mp hk).2)
  · intro ref t
    exact (hasType_insert_iff h).mpr
      (.inl fun hk => RuleKey.noConfusion (Column.strayKey?_eq_some.mp hk).2)
  · intro name type
    exact h.mono (fun _ hk => hk) (fun _ _ hk => hk) (plainType?_put name type)
  · intro ref t e
    constructor
    · intro he
      have hfails : ¬ HasType c (before ++ .array ref t :: after) enumTypes package := by
        rintro ⟨type, htype⟩
        cases he.symm.trans htype
      rw [hasType_insert_iff h, not_or, not_not, Column.strayKey?_eq_some] at hfails
      obtain ⟨⟨hscalar, href⟩, hown⟩ := hfails
      cases href
      rw [Column.ownKey_of_scalar hscalar] at hown
      rw [columnType_stray h hscalar hown] at he
      cases he
      exact ⟨hscalar, rfl, fun u hu => hown (column_mem_keysOf.mpr ⟨u, hu⟩), rfl⟩
    · rintro ⟨hscalar, rfl, hnone, rfl⟩
      refine columnType_stray h hscalar ?_ t
      rw [column_mem_keysOf]
      rintro ⟨u, hu⟩
      exact hnone u hu

def nullableTextRule : Rule := .type "text" true ⟨"a.com/p", "p.Text"⟩

def otherColumnRule : Rule := .column ⟨"app", "bar", "b"⟩ ⟨"b.com/q", "q.B"⟩

/-- A scalar that no rule names has its type from a rule for its SQL type, and a rule for an array
takes it away. -/
theorem columnType_grown_mistakenColumn :
    HasType mistakenColumn ([nullableTextRule] ++ [otherColumnRule]) [] (some "db") ∧
      HasType mistakenColumn ([nullableTextRule] ++
        .column ⟨"app", "bar", "c"⟩ ⟨"b.com/q", "q.C"⟩ :: [otherColumnRule]) [] (some "db") ∧
      columnType mistakenColumn ([nullableTextRule] ++
          .array mistakenColumn.ref ⟨"a.com/p", "p.List"⟩ :: [otherColumnRule]) [] (some "db") =
        .error
          (.configuration (.arrayOverScalar mistakenColumn.ref) (some "db") (some "p.List")) := by
  have h : HasType mistakenColumn ([nullableTextRule] ++ [otherColumnRule]) [] (some "db") :=
    ⟨"p.Text", rfl⟩
  have hunnamed : ∀ u, .column mistakenColumn.ref u ∉ [nullableTextRule] ++ [otherColumnRule] := by
    intro u hu
    have hmem : RuleKey.column mistakenColumn.ref ∈
        keysOf ([nullableTextRule] ++ [otherColumnRule]) := column_mem_keysOf.mpr ⟨u, hu⟩
    revert hmem
    decide
  obtain ⟨-, hcolumn, -, harray⟩ := columnType_grown h
  exact ⟨h, hcolumn _ _, (harray _ _ _).mpr ⟨rfl, rfl, hunnamed, rfl⟩⟩

end RowModel
