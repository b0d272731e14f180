import RowModel.Proofs.Occurrence

/-!
The field at each place of a struct, said of the columns alone: how often an identifier came before
a place is a count over the places before it, with no table that is kept on the way. Places count
from 0, and a column without a name is named by its place counted from 1. Main result:
`buildStruct_eq_ok_iff`, a build gives the one struct that has the right field at each place.
-/
namespace RowModel

def identifierAt? (columns : List Column) (i : Nat) : Option String :=
  columns[i]?.map fun c => Name.fieldName (tagName c (i + 1))

/-- How many of the places before this one have a column with the same identifier. -/
def earlierAt (columns : List Column) (i : Nat) : Nat :=
  (List.range i).countP fun j => identifierAt? columns j == identifierAt? columns i

/-- What the field for the column at a place is. Its name and its tag are numbered if columns before
it give the same identifier; its type is that of the column, which keeps the name that it has. -/
structure IsFieldAt (columnType : Column → Except Error String) (jsonTags : Bool)
    (columns : List Column) (i : Nat) (c : Column) (f : Field) : Prop where
  name : f.name =
    if earlierAt columns i = 0 then Name.fieldName (tagName c (i + 1))
    else Name.fieldName (tagName c (i + 1)) ++ "_" ++ toString (earlierAt columns i + 1)
  jsonTag : f.jsonTag =
    if jsonTags = true then
      some (if earlierAt columns i = 0 then tagName c (i + 1)
        else tagName c (i + 1) ++ "_" ++ toString (earlierAt columns i + 1))
    else none
  type : columnType c = .ok f.type

/-- The field at a place is determined. -/
theorem IsFieldAt.eq {columnType : Column → Except Error String} {jsonTags : Bool}
    {columns : List Column} {i : Nat} {c : Column} {f g : Field}
    (hf : IsFieldAt columnType jsonTags columns i c f)
    (hg : IsFieldAt columnType jsonTags columns i c g) : f = g := by
  have htype : f.type = g.type := Except.ok.inj (hf.type.symm.trans hg.type)
  cases f
  cases g
  rw [Field.mk.injEq]
  exact ⟨hf.name.trans hg.name.symm, htype, hf.jsonTag.trans hg.jsonTag.symm⟩

/-- Counting in the first items of a list is counting over their places. -/
theorem countP_take {α : Type} (test : α → Bool) (l : List α) (i : Nat) :
    (l.take i).countP test = (List.range i).countP fun j => l[j]?.any test := by
  induction i with
  | zero => rfl
  | succ i ih =>
    rw [List.take_add_one, List.range_succ, List.countP_append, List.countP_append, ih]
    cases h : l[i]? <;> simp [h, List.countP_cons]

theorem getElem?_tagNamesFrom (position : Nat) (columns : List Column) (i : Nat) :
    (tagNamesFrom position columns)[i]? = columns[i]?.map (tagName · (position + i)) := by
  rw [tagNamesFrom, List.getElem?_mapIdx]

variable {columns : List Column} {i : Nat} {c : Column}

/-- To count among the tags before a place is to count among the columns before it. -/
theorem identifierCount_take (h : columns[i]? = some c) :
    identifierCount ((tagNamesFrom 1 columns).take i) (Name.fieldName (tagName c (i + 1))) =
      earlierAt columns i := by
  have same (j : Nat) :
      ((tagNamesFrom 1 columns)[j]?.any fun t =>
        Name.fieldName t == Name.fieldName (tagName c (i + 1))) =
      (identifierAt? columns j == identifierAt? columns i) := by
    rw [getElem?_tagNamesFrom, identifierAt?, identifierAt?, h, Nat.add_comm 1 j]
    cases columns[j]? <;> simp
  rw [identifierCount, countP_take, earlierAt]
  simp only [same]

/-- The occurrence at a place. -/
theorem getElem?_occurrences (h : columns[i]? = some c) :
    (occurrences columns)[i]? = some ⟨tagName c (i + 1), earlierAt columns i⟩ := by
  rw [← identifierCount_take h, occurrences, occurrencesAfter, List.getElem?_mapIdx,
    getElem?_tagNamesFrom, h, Nat.add_comm 1 i, List.nil_append]
  rfl

/-- An occurrence with the type of the column at its place makes the field for this place. -/
theorem isFieldAt_field {columnType : Column → Except Error String} {type : String}
    (jsonTags : Bool) (ht : columnType c = .ok type) :
    IsFieldAt columnType jsonTags columns i c
      (Occurrence.field jsonTags ⟨tagName c (i + 1), earlierAt columns i⟩ type) where
  name := rfl
  jsonTag := rfl
  type := ht

/-- Fields that have all their types are made of the occurrences when each is the one for its
place. -/
theorem eq_zipWith_occurrences_iff {columnType : Column → Except Error String} {jsonTags : Bool}
    {types : List String} (ht : List.Forall₂ (fun c t => columnType c = .ok t) columns types)
    {fields : List Field} :
    fields = List.zipWith (Occurrence.field jsonTags) (occurrences columns) types ↔
      fields.length = columns.length ∧ ∀ i c, columns[i]? = some c →
        ∃ f, fields[i]? = some f ∧ IsFieldAt columnType jsonTags columns i c f := by
  have made (i : Nat) (c : Column) (hc : columns[i]? = some c) : ∃ f,
      (List.zipWith (Occurrence.field jsonTags) (occurrences columns) types)[i]? = some f ∧
        IsFieldAt columnType jsonTags columns i c f := by
    obtain ⟨type, htype, hct⟩ := exists_getElem?_of_forall₂ ht hc
    refine ⟨_, ?_, isFieldAt_field jsonTags hct⟩
    rw [List.getElem?_zipWith, getElem?_occurrences hc, htype]
  have hlen : (List.zipWith (Occurrence.field jsonTags) (occurrences columns) types).length =
      columns.length := by
    rw [List.length_zipWith, length_occurrences, ← ht.length_eq, Nat.min_self]
  constructor
  · rintro rfl
    exact ⟨hlen, made⟩
  · rintro ⟨hl, hfields⟩
    apply List.ext_getElem?
    intro i
    cases hc : columns[i]? with
    | none =>
      have hi := List.getElem?_eq_none_iff.mp hc
      rw [List.getElem?_eq_none (hl ▸ hi), List.getElem?_eq_none (hlen ▸ hi)]
    | some c =>
      obtain ⟨f, hf, hfield⟩ := hfields i c hc
      obtain ⟨g, hg, hmade⟩ := made i c hc
      rw [hf, hg, hfield.eq hmade]

/-- The struct of a package for columns is the one with the field for each column at its place, the
types being those that the package's rules give. -/
theorem buildStruct_eq_ok_iff {settings : Settings} {p : Package} (hp : p ∈ settings.packages)
    {name : String} {columns : List Column} {enumTypes : EnumTypes} {x : Struct} :
    buildStruct name columns settings p.name enumTypes = .ok x ↔
      x.name = name ∧ x.fields.length = columns.length ∧
        ∃ rules, settings.rulesFor p.name = .ok rules ∧
          ∀ i c, columns[i]? = some c → ∃ f, x.fields[i]? = some f ∧
            IsFieldAt (columnType · rules enumTypes (some p.name)) p.hasJsonTags columns i c f := by
  have hrules : settings.rulesFor p.name = .ok (settings.rulesOf p) := by
    rw [Settings.rulesFor, Settings.package_eq_ok_of_mem hp]
    rfl
  rw [buildStruct, Settings.package_eq_ok_of_mem hp]
  constructor
  · intro h
    obtain ⟨types, ht, rfl⟩ := structOf_eq_ok h
    obtain ⟨hlen, hfields⟩ := (eq_zipWith_occurrences_iff ht).mp rfl
    exact ⟨rfl, hlen, _, hrules, hfields⟩
  · rintro ⟨rfl, hlen, rules, hr, hfields⟩
    obtain rfl : settings.rulesOf p = rules := Except.ok.inj (hrules.symm.trans hr)
    have ht : List.Forall₂
        (fun c t => columnType c (settings.rulesOf p) enumTypes (some p.name) = .ok t)
        columns (x.fields.map Field.type) := by
      rw [List.forall₂_map_right_iff]
      apply forall₂_of_getElem? hlen.symm
      intro i c hc
      obtain ⟨f, hf, hfield⟩ := hfields i c hc
      exact ⟨f, hf, hfield.type⟩
    have hx := (eq_zipWith_occurrences_iff ht).mpr ⟨hlen, hfields⟩
    change structOf settings p enumTypes x.name columns = .ok x
    rw [structOf_eq, mapM_eq_ok_iff.mpr ht, Except.map, ← hx]

/-- A column named like the place of the unnamed one after it, and two with one identifier. -/
def namesakes : List Column :=
  ["column_2", "", "user_id", "user__id"].map fun n =>
    ⟨n, "text", ⟨"public", "foo"⟩, some false, false⟩

def namesakesPackage : Package :=
  ⟨"db", .null, .null, .null, some true, none,
    [.column ⟨"public", "foo", "column_2"⟩ ⟨"a.com/p", "p.T"⟩]⟩

def namesakesSettings : Settings := ⟨some "1", [namesakesPackage], [], by decide⟩

def namesakesStruct : Struct :=
  ⟨"Foo", [⟨"Column2", "p.T", some "column_2"⟩, ⟨"Column2_2", "string", some "column_2_2"⟩,
    ⟨"UserId", "string", some "user_id"⟩, ⟨"UserId_2", "string", some "user__id_2"⟩]⟩

/-- The unnamed column is numbered after its namesake and is not typed like it. -/
theorem buildStruct_namesakes :
    namesakesPackage ∈ namesakesSettings.packages ∧
      buildStruct "Foo" namesakes namesakesSettings "db" [] = .ok namesakesStruct ∧
      ∃ rules, namesakesSettings.rulesFor "db" = .ok rules ∧
        IsFieldAt (columnType · rules [] (some "db")) true namesakes 1
          ⟨"", "text", ⟨"public", "foo"⟩, some false, false⟩
          ⟨"Column2_2", "string", some "column_2_2"⟩ := by
  have hp : namesakesPackage ∈ namesakesSettings.packages := List.mem_singleton.mpr rfl
  have hx : buildStruct "Foo" namesakes namesakesSettings "db" [] = .ok namesakesStruct := by
    decide +kernel
  obtain ⟨-, -, rules, hrules, hfields⟩ := (buildStruct_eq_ok_iff hp).mp hx
  obtain ⟨f, hf, hfield⟩ := hfields 1 _ rfl
  cases hf
  exact ⟨hp, hx, rules, hrules, hfield⟩

end RowModel
