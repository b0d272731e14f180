import RowModel.Generator
import RowModel.Proofs.Traversal

/-!
The fields of a struct without the table that counts. Each column is an occurrence of its
identifier, which comes after as many others as there are columns before it with that identifier.
A build finds the types of all columns and pairs them with the occurrences; the table holds at each
point how often each identifier came before.
-/
namespace RowModel

/-- The tag of a column, not yet numbered, with the number of columns before it that give the same
identifier. -/
structure Occurrence where
  tag : String
  earlier : Nat
  deriving DecidableEq, Repr

namespace Occurrence

def identifier (o : Occurrence) : String := Name.fieldName o.tag

def fieldName (o : Occurrence) : String := numbered o.identifier o.earlier

def jsonTag (o : Occurrence) : String := numbered o.tag o.earlier

def field (jsonTags : Bool) (o : Occurrence) (type : String) : Field :=
  fieldOf jsonTags o.tag o.earlier type

@[simp] theorem field_name (jsonTags : Bool) (o : Occurrence) (type : String) :
    (o.field jsonTags type).name = o.fieldName := rfl
@[simp] theorem field_type (jsonTags : Bool) (o : Occurrence) (type : String) :
    (o.field jsonTags type).type = type := rfl
@[simp] theorem field_jsonTag (o : Occurrence) (type : String) :
    (o.field true type).jsonTag = some o.jsonTag := rfl

end Occurrence

def identifierCount (tags : List String) (name : String) : Nat :=
  tags.countP fun t => Name.fieldName t == name

/-- The tags of columns from a position on. -/
def tagNamesFrom (position : Nat) (columns : List Column) : List String :=
  columns.mapIdx fun i c => tagName c (position + i)

def occurrencesAfter (before tags : List String) : List Occurrence :=
  tags.mapIdx fun i t => ⟨t, identifierCount (before ++ tags.take i) (Name.fieldName t)⟩

def occurrences (columns : List Column) : List Occurrence :=
  occurrencesAfter [] (tagNamesFrom 1 columns)

theorem identifierCount_append (a b : List String) (name : String) :
    identifierCount (a ++ b) name = identifierCount a name + identifierCount b name :=
  List.countP_append

@[simp] theorem identifierCount_singleton (t name : String) :
    identifierCount [t] name = if Name.fieldName t = name then 1 else 0 := by
  simp [identifierCount, List.countP_cons]

@[simp] theorem tagNamesFrom_nil (position : Nat) : tagNamesFrom position [] = [] := rfl

@[simp] theorem tagNamesFrom_cons (position : Nat) (c : Column) (r : List Column) :
    tagNamesFrom position (c :: r) = tagName c position :: tagNamesFrom (position + 1) r := by
  simp [tagNamesFrom, List.mapIdx_cons, Nat.add_assoc, Nat.add_comm 1]

@[simp] theorem occurrencesAfter_nil (before : List String) : occurrencesAfter before [] = [] := rfl

@[simp] theorem occurrencesAfter_cons (before : List String) (t : String) (r : List String) :
    occurrencesAfter before (t :: r) =
      ⟨t, identifierCount before (Name.fieldName t)⟩ :: occurrencesAfter (before ++ [t]) r := by
  simp [occurrencesAfter, List.mapIdx_cons]

@[simp] theorem length_occurrences (columns : List Column) :
    (occurrences columns).length = columns.length := by
  simp [occurrences, occurrencesAfter, tagNamesFrom]

/-- An occurrence has all the others of its identifier behind it that came before the tags. -/
theorem count_le_earlier {before tags : List String} {o : Occurrence}
    (h : o ∈ occurrencesAfter before tags) : identifierCount before o.identifier ≤ o.earlier := by
  obtain ⟨i, hi, rfl⟩ := List.mem_mapIdx.mp h
  simp only [Occurrence.identifier, identifierCount_append]
  omega

/-- Of two occurrences of one identifier the later one has more before it. -/
theorem earlier_rises (before tags : List String) :
    (occurrencesAfter before tags).Pairwise
      fun o p => o.identifier = p.identifier → o.earlier < p.earlier := by
  induction tags generalizing before with
  | nil =>
    rw [occurrencesAfter_nil]
    exact .nil
  | cons t r ih =>
    rw [occurrencesAfter_cons]
    refine .cons ?_ (ih (before ++ [t]))
    intro p hp he
    have hle := count_le_earlier hp
    rw [← he] at hle
    simp only [Occurrence.identifier, identifierCount_append, identifierCount_singleton,
      if_true] at hle ⊢
    omega

/-- A table that holds how often each identifier came among the tags. -/
def Tallies (seen : Table Nat) (tags : List String) : Prop :=
  ∀ name, (seen.lookup name).getD 0 = identifierCount tags name

theorem tallies_nil : Tallies [] [] := fun _ => rfl

/-- The table keeps the tally when the count of the next tag's identifier goes up by one. -/
theorem Tallies.next {seen : Table Nat} {tags : List String} (h : Tallies seen tags) (t : String) :
    Tallies
      (Table.put (Name.fieldName t) ((seen.lookup (Name.fieldName t)).getD 0 + 1) seen)
      (tags ++ [t]) := by
  intro name
  rw [identifierCount_append, identifierCount_singleton, ← h name]
  by_cases hn : Name.fieldName t = name
  · subst hn
    simp
  · rw [Table.lookup_put_other _ _ _ _ (Ne.symm hn)]
    simp [hn]

/-- The fields for columns are their occurrences paired with their types, which must all be found. -/
theorem fieldsFrom_eq (columnType : Column → Except Error String) (jsonTags : Bool)
    (columns : List Column) (position : Nat) {seen : Table Nat} {before : List String}
    (h : Tallies seen before) :
    fieldsFrom columnType jsonTags position seen columns =
      (columns.mapM columnType).map
        (List.zipWith (Occurrence.field jsonTags)
          (occurrencesAfter before (tagNamesFrom position columns))) := by
  induction columns generalizing position seen before with
  | nil =>
    rw [fieldsFrom, List.mapM_nil, tagNamesFrom_nil, occurrencesAfter_nil]
    rfl
  | cons c r ih =>
    rw [fieldsFrom]
    cases hc : columnType c with
    | error e =>
      rw [mapM_cons_of_error hc]
      rfl
    | ok type =>
      rw [mapM_cons_of_ok hc]
      simp only [ih (position + 1) (h.next (tagName c position))]
      cases r.mapM columnType with
      | error e => rfl
      | ok types =>
        simp only [Except.map, tagNamesFrom_cons, occurrencesAfter_cons, List.zipWith_cons_cons,
          ← h (Name.fieldName (tagName c position))]
        rfl

/-- A struct is built exactly when all types are found, and then from them and the occurrences. -/
theorem structOf_eq (settings : Settings) (p : Package) (enumTypes : EnumTypes) (name : String)
    (columns : List Column) :
    structOf settings p enumTypes name columns =
      (columns.mapM (columnType · (settings.rulesOf p) enumTypes (some p.name))).map fun types =>
        ⟨name, List.zipWith (Occurrence.field p.hasJsonTags) (occurrences columns) types⟩ := by
  rw [structOf, fieldsFrom_eq _ _ _ _ tallies_nil, occurrences]
  cases columns.mapM (columnType · (settings.rulesOf p) enumTypes (some p.name)) <;> rfl

/-- A struct is made of the occurrences of its columns and their types, once all have one. -/
theorem Generator.buildStruct_eq (g : Generator) (name : String) (columns : List Column) :
    g.buildStruct name columns = (columns.mapM g.columnType).map fun types =>
      ⟨name, List.zipWith (Occurrence.field g.package.hasJsonTags) (occurrences columns) types⟩ :=
  structOf_eq ..

/-- A struct that was built has a type for each column, and the fields of the occurrences. -/
theorem structOf_eq_ok {settings : Settings} {p : Package} {enumTypes : EnumTypes} {name : String}
    {columns : List Column} {x : Struct}
    (h : structOf settings p enumTypes name columns = .ok x) :
    ∃ types, List.Forall₂
        (fun c t => columnType c (settings.rulesOf p) enumTypes (some p.name) = .ok t)
        columns types ∧
      x = ⟨name, List.zipWith (Occurrence.field p.hasJsonTags) (occurrences columns) types⟩ := by
  rw [structOf_eq] at h
  cases hm : columns.mapM (columnType · (settings.rulesOf p) enumTypes (some p.name)) with
  | error e => rw [hm] at h; cases h
  | ok types =>
    rw [hm] at h
    cases h
    exact ⟨types, mapM_eq_ok_iff.mp hm, rfl⟩

/-- What a struct with a type for each column has of its fields without regard to the types. -/
theorem map_zipWith_occurrences {α : Type} {columns : List Column} {types : List String}
    (h : columns.length = types.length) {f : Occurrence → String → Field} {g : Field → α}
    {k : Occurrence → α} (hg : ∀ o t, g (f o t) = k o) :
    (List.zipWith f (occurrences columns) types).map g = (occurrences columns).map k := by
  have hle : (occurrences columns).length ≤ types.length :=
    Nat.le_of_eq ((length_occurrences columns).trans h)
  calc
    (List.zipWith f (occurrences columns) types).map g
        = List.zipWith (fun o _ => k o) (occurrences columns) types := by
      simp only [List.map_zipWith, hg]
    _ = ((List.zip (occurrences columns) types).map Prod.fst).map k := by
      rw [List.map_map, List.zip_eq_zipWith, List.map_zipWith]
      rfl
    _ = (occurrences columns).map k := by rw [List.map_fst_zip hle]

/-- The fields of a struct that was built have the types of its columns. -/
theorem columnType_fields {settings : Settings} {p : Package} {enumTypes : EnumTypes}
    {name : String} {columns : List Column} {x : Struct}
    (h : structOf settings p enumTypes name columns = .ok x) :
    List.Forall₂
      (fun c f => columnType c (settings.rulesOf p) enumTypes (some p.name) = .ok f.type)
      columns x.fields := by
  obtain ⟨types, ht, rfl⟩ := structOf_eq_ok h
  have hle : types.length ≤ (occurrences columns).length :=
    Nat.le_of_eq (ht.length_eq.symm.trans (length_occurrences columns).symm)
  have hmap : (List.zipWith (Occurrence.field p.hasJsonTags) (occurrences columns) types).map
      Field.type = types := by
    calc
      (List.zipWith (Occurrence.field p.hasJsonTags) (occurrences columns) types).map Field.type
          = (List.zip (occurrences columns) types).map Prod.snd := by
        simp only [List.map_zipWith, List.zip_eq_zipWith, Occurrence.field_type]
      _ = types := List.map_snd_zip hle
  rw [← hmap, List.forall₂_map_right_iff] at ht
  exact ht

end RowModel
