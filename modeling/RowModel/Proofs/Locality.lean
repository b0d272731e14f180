import RowModel.Proofs.Distinct

/-!
Which columns a field depends on. Among columns with names it is those of its own identifier: a
struct of them alone has the same fields for them, so other columns may come and go. A column
without a name takes the name of its place, and the columns before it decide that. What comes after
a column never counts. Main result: `buildStruct_local`.
-/
namespace RowModel

def fieldsOf (identifier : String) (columns : List Column) (fields : List Field) : List Field :=
  ((columns.zip fields).filter fun e => Name.fieldName e.1.name == identifier).map Prod.snd

def columnsOfIdentifier (identifier : String) (columns : List Column) : List Column :=
  columns.filter fun c => Name.fieldName c.name == identifier

section

variable {identifier : String} {c : Column}

theorem fieldsOf_cons_same (h : Name.fieldName c.name = identifier) (columns : List Column)
    (f : Field) (fields : List Field) :
    fieldsOf identifier (c :: columns) (f :: fields) = f :: fieldsOf identifier columns fields := by
  simp [fieldsOf, h]

theorem fieldsOf_cons_other (h : Name.fieldName c.name ≠ identifier) (columns : List Column)
    (f : Field) (fields : List Field) :
    fieldsOf identifier (c :: columns) (f :: fields) = fieldsOf identifier columns fields := by
  simp [fieldsOf, h]

/-- Only the tags of an identifier count for it. -/
theorem identifierCount_filter (tags : List String) (identifier : String) :
    identifierCount (tags.filter fun t => Name.fieldName t == identifier) identifier =
      identifierCount tags identifier := by
  simp [identifierCount, List.countP_filter]

/-- The fields for the occurrences of an identifier are made as if there were no others. -/
theorem fieldsOf_zipWith (make : Occurrence → Column → Field) (identifier : String)
    (columns : List Column) (before : List String) :
    fieldsOf identifier columns
        (List.zipWith make (occurrencesAfter before (columns.map Column.name)) columns) =
      List.zipWith make
        (occurrencesAfter (before.filter fun t => Name.fieldName t == identifier)
          ((columnsOfIdentifier identifier columns).map Column.name))
        (columnsOfIdentifier identifier columns) := by
  induction columns generalizing before with
  | nil => rfl
  | cons c r ih =>
    rw [List.map_cons, occurrencesAfter_cons, List.zipWith_cons_cons]
    by_cases h : Name.fieldName c.name = identifier
    · rw [fieldsOf_cons_same h, ih]
      simp [columnsOfIdentifier, h, identifierCount_filter]
    · rw [fieldsOf_cons_other h, ih]
      simp [columnsOfIdentifier, h]

end

/-- Columns after others go on at the next position. -/
theorem tagNamesFrom_append (position : Nat) (a b : List Column) :
    tagNamesFrom position (a ++ b) =
      tagNamesFrom position a ++ tagNamesFrom (position + a.length) b := by
  induction a generalizing position with
  | nil => simp
  | cons c r ih => simp [ih, Nat.add_assoc, Nat.add_comm 1]

/-- Tags after others count those before them. -/
theorem occurrencesAfter_append (before a b : List String) :
    occurrencesAfter before (a ++ b) =
      occurrencesAfter before a ++ occurrencesAfter (before ++ a) b := by
  induction a generalizing before with
  | nil => simp
  | cons t r ih => simp [ih]

/-- Columns with names are tagged by them, wherever they stand. -/
theorem tagNamesFrom_of_named {columns : List Column} (h : ∀ c ∈ columns, c.name ≠ "")
    (position : Nat) : tagNamesFrom position columns = columns.map Column.name := by
  induction columns generalizing position with
  | nil => rfl
  | cons c r ih =>
    rw [List.forall_mem_cons] at h
    rw [tagNamesFrom_cons, ih h.2, tagName, if_neg h.1, List.map_cons]

/-- The occurrences of columns do not change when others come after them. -/
theorem occurrences_append (a b : List Column) :
    ∃ later, occurrences (a ++ b) = occurrences a ++ later := by
  rw [occurrences, tagNamesFrom_append, occurrencesAfter_append]
  exact ⟨_, rfl⟩

variable {settings : Settings} {p : Package} {enumTypes : EnumTypes} {name package : String}

/-- Columns with names whose types are all found. -/
structure Buildable (settings : Settings) (p : Package) (enumTypes : EnumTypes)
    (columns : List Column) : Prop where
  named : ∀ c ∈ columns, c.name ≠ ""
  typed : ∀ c ∈ columns, ∃ t, columnType c (settings.rulesOf p) enumTypes (some p.name) = .ok t

theorem Buildable.mono {columns fewer : List Column} (h : Buildable settings p enumTypes columns)
    (hsub : fewer ⊆ columns) : Buildable settings p enumTypes fewer where
  named c hc := h.named c (hsub hc)
  typed c hc := h.typed c (hsub hc)

/-- A struct with a field made for each column by itself, but for how often its identifier came. -/
theorem Buildable.exists_make {columns : List Column} (h : Buildable settings p enumTypes columns) :
    ∃ make : Occurrence → Column → Field, ∀ fewer ⊆ columns, ∀ name,
      structOf settings p enumTypes name fewer =
        .ok ⟨name, List.zipWith make (occurrencesAfter [] (fewer.map Column.name)) fewer⟩ := by
  choose! type htype using h.typed
  refine ⟨fun o c => o.field p.hasJsonTags (type c), fun fewer hsub name => ?_⟩
  have hall : List.Forall₂
      (fun c t => columnType c (settings.rulesOf p) enumTypes (some p.name) = .ok t)
      fewer (fewer.map type) := by
    rw [List.forall₂_map_right_iff, List.forall₂_same]
    exact fun c hc => htype c (hsub hc)
  rw [structOf_eq, mapM_eq_ok_iff.mpr hall, occurrences, tagNamesFrom_of_named (h.mono hsub).named]
  simp [Except.map, List.zipWith_map_right]

theorem columnsOfIdentifier_subset (identifier : String) (columns : List Column) :
    columnsOfIdentifier identifier columns ⊆ columns := List.filter_subset_self columns

/-- The fields for the columns of an identifier are the fields of a struct of these columns. -/
theorem Buildable.fieldsOf_eq {columns : List Column} (h : Buildable settings p enumTypes columns)
    (name identifier : String) :
    ∃ x y, structOf settings p enumTypes name columns = .ok x ∧
      structOf settings p enumTypes name (columnsOfIdentifier identifier columns) = .ok y ∧
      fieldsOf identifier columns x.fields = y.fields := by
  obtain ⟨make, hmake⟩ := h.exists_make
  exact ⟨_, _, hmake columns (List.Subset.refl _) name,
    hmake _ (columnsOfIdentifier_subset identifier columns) name,
    fieldsOf_zipWith make identifier columns []⟩

/-- A column of another identifier leaves the fields of an identifier as they are. -/
theorem Buildable.fieldsOf_insert {before after : List Column} {d : Column}
    (h : Buildable settings p enumTypes (before ++ d :: after)) (name : String)
    {identifier : String} (hd : Name.fieldName d.name ≠ identifier) :
    ∃ x y, structOf settings p enumTypes name (before ++ d :: after) = .ok x ∧
      structOf settings p enumTypes name (before ++ after) = .ok y ∧
      fieldsOf identifier (before ++ d :: after) x.fields =
        fieldsOf identifier (before ++ after) y.fields := by
  obtain ⟨make, hmake⟩ := h.exists_make
  have hsub : before ++ after ⊆ before ++ d :: after :=
    List.append_subset.mpr ⟨by simp, by simp⟩
  have hsame : columnsOfIdentifier identifier (before ++ d :: after) =
      columnsOfIdentifier identifier (before ++ after) := by
    simp [columnsOfIdentifier, hd]
  refine ⟨_, _, hmake _ (List.Subset.refl _) name, hmake _ hsub name, ?_⟩
  rw [fieldsOf_zipWith, fieldsOf_zipWith, hsame]

/-- A struct that was built has the struct of the first columns for its beginning. -/
theorem exists_structOf_prefix {columns more : List Column} {x : Struct}
    (h : structOf settings p enumTypes name (columns ++ more) = .ok x) :
    ∃ y, structOf settings p enumTypes name columns = .ok y ∧
      y.fields.length = columns.length ∧ y.fields <+: x.fields := by
  obtain ⟨types, htypes, rfl⟩ := structOf_eq_ok h
  have hfirst := List.forall₂_take columns.length htypes
  rw [List.take_left] at hfirst
  obtain ⟨later, hlater⟩ := occurrences_append columns more
  let make := Occurrence.field p.hasJsonTags
  let firstTypes := types.take columns.length
  have hlen : (occurrences columns).length = firstTypes.length :=
    (length_occurrences columns).trans hfirst.length_eq
  have hfields : List.zipWith make (occurrences (columns ++ more)) types =
      List.zipWith make (occurrences columns) firstTypes ++
        List.zipWith make later (types.drop columns.length) := by
    rw [← List.zipWith_append hlen, ← hlater, List.take_append_drop]
  refine ⟨⟨name, List.zipWith make (occurrences columns) firstTypes⟩, ?_, ?_, ?_⟩
  · rw [structOf_eq, mapM_eq_ok_iff.mpr hfirst]
    rfl
  · rw [List.length_zipWith, ← hlen, Nat.min_self, length_occurrences]
  · exact ⟨_, hfields.symm⟩

/-- The fields of columns with names depend on the columns of their own identifier alone; those of
any columns do not depend on what comes after them. -/
theorem buildStruct_local (hp : p ∈ settings.packages) (enumTypes : EnumTypes) (name : String) :
    (∀ columns, Buildable settings p enumTypes columns → ∀ identifier, ∃ x y,
      buildStruct name columns settings p.name enumTypes = .ok x ∧
      buildStruct name (columnsOfIdentifier identifier columns) settings p.name enumTypes = .ok y ∧
      fieldsOf identifier columns x.fields = y.fields) ∧
    (∀ before d after, Buildable settings p enumTypes (before ++ d :: after) →
      ∀ identifier, Name.fieldName d.name ≠ identifier → ∃ x y,
      buildStruct name (before ++ d :: after) settings p.name enumTypes = .ok x ∧
      buildStruct name (before ++ after) settings p.name enumTypes = .ok y ∧
      fieldsOf identifier (before ++ d :: after) x.fields =
        fieldsOf identifier (before ++ after) y.fields) ∧
    ∀ columns more x, buildStruct name (columns ++ more) settings p.name enumTypes = .ok x →
      ∃ y, buildStruct name columns settings p.name enumTypes = .ok y ∧
        y.fields.length = columns.length ∧ y.fields <+: x.fields := by
  simp only [buildStruct, Settings.package_eq_ok_of_mem hp]
  refine ⟨fun columns h => h.fieldsOf_eq name, ?_, ?_⟩
  · intro before d after h identifier
    exact h.fieldsOf_insert name
  · intro columns more x
    exact exists_structOf_prefix

/-- A column without a name has another place when the column before it is left out. -/
example : (buildStruct "Foo" (["a", ""].map textColumn) taggedSettings "db" []).toOption.map
    (·.fields.map Field.name) = some ["A", "Column2"] ∧
    (buildStruct "Foo" ([""].map textColumn) taggedSettings "db" []).toOption.map
      (·.fields.map Field.name) = some ["Column1"] := by decide +kernel

/-- Of the columns `count`, `count_2` and `count` the first and the last share an identifier, and
their fields are those of a struct without the second. -/
theorem buildStruct_local_countColumns :
    taggedPackage ∈ taggedSettings.packages ∧
      Buildable taggedSettings taggedPackage [] countColumns ∧
      ∃ x y, buildStruct "Foo" countColumns taggedSettings "db" [] = .ok x ∧
        buildStruct "Foo" (["count", "count"].map textColumn) taggedSettings "db" [] = .ok y ∧
        fieldsOf "Count" countColumns x.fields = y.fields := by
  have hp : taggedPackage ∈ taggedSettings.packages := List.mem_singleton.mpr rfl
  have hbuild : Buildable taggedSettings taggedPackage [] countColumns := by
    refine ⟨by decide, ?_⟩
    intro c hc
    obtain ⟨name, -, rfl⟩ := List.mem_map.mp hc
    exact ⟨"string", rfl⟩
  have hsame : columnsOfIdentifier "Count" countColumns = ["count", "count"].map textColumn := by
    decide +kernel
  have h := (buildStruct_local hp [] "Foo").1 countColumns hbuild "Count"
  rw [hsame] at h
  exact ⟨hp, hbuild, h⟩

end RowModel
