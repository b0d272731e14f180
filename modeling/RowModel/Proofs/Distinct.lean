import RowModel.Proofs.Identifier
import RowModel.Proofs.Numbering
import RowModel.Proofs.Occurrence
import Mathlib.Data.List.Nodup

/-!
Which texts of a struct are told apart. Field names always are: an identifier holds no underscore,
so a numbered one is none of the others, and of occurrences of one identifier each has its own
number. Tags need not be: they are numbered as names of columns, which may end in a number already.
They are told apart unless a column has the numbered tag of another one for its own name.
-/
namespace RowModel

variable {settings : Settings} {package : String} {enumTypes : EnumTypes} {name : String}
  {columns : List Column} {x : Struct}

/-- A struct that was built belongs to a package of the settings. -/
theorem buildStruct_eq_ok (h : buildStruct name columns settings package enumTypes = .ok x) :
    ∃ p, settings.package package = .ok p ∧
      structOf settings p enumTypes name columns = .ok x := by
  rw [buildStruct] at h
  cases hp : settings.package package with
  | error e => rw [hp] at h; cases h
  | ok p => rw [hp] at h; exact ⟨p, rfl, h⟩

/-- The field names of a struct are those of the occurrences, whatever their types. -/
theorem map_name_fields {p : Package} (h : structOf settings p enumTypes name columns = .ok x) :
    x.fields.map Field.name = (occurrences columns).map Occurrence.fieldName := by
  obtain ⟨types, ht, rfl⟩ := structOf_eq_ok h
  exact map_zipWith_occurrences ht.length_eq (Occurrence.field_name p.hasJsonTags)

theorem map_jsonTag_fields {p : Package} (hp : p.hasJsonTags = true)
    (h : structOf settings p enumTypes name columns = .ok x) :
    x.fields.map Field.jsonTag = ((occurrences columns).map Occurrence.jsonTag).map some := by
  obtain ⟨types, ht, rfl⟩ := structOf_eq_ok h
  rw [hp, List.map_map]
  exact map_zipWith_occurrences ht.length_eq Occurrence.field_jsonTag

/-- Occurrences with one field name are of one identifier, with equally many before them. -/
theorem Occurrence.fieldName_inj {o p : Occurrence} (h : o.fieldName = p.fieldName) :
    o.identifier = p.identifier ∧ o.earlier = p.earlier :=
  numbered_inj_of_no_underscore (Name.underscore_not_mem_fieldName o.tag)
    (Name.underscore_not_mem_fieldName p.tag) h

def textColumn (name : String) : Column := ⟨name, "text", ⟨"public", "foo"⟩, some false, false⟩

def taggedPackage : Package := ⟨"db", .null, .null, .null, some true, none, []⟩

def taggedSettings : Settings := ⟨some "1", [taggedPackage], [], by decide⟩

/-- A repeated column, and one whose own name looks like that of a repeated one. -/
def countColumns : List Column := ["count", "count_2", "count"].map textColumn

def countStruct : Struct :=
  ⟨"Foo", [⟨"Count", "string", some "count"⟩, ⟨"Count2", "string", some "count_2"⟩,
    ⟨"Count_2", "string", some "count_2"⟩]⟩

theorem buildStruct_countColumns :
    buildStruct "Foo" countColumns taggedSettings "db" [] = .ok countStruct := by decide +kernel

/-- No two fields of a struct have one name. -/
theorem fieldNames_nodup (h : buildStruct name columns settings package enumTypes = .ok x) :
    (x.fields.map Field.name).Nodup := by
  obtain ⟨p, -, hx⟩ := buildStruct_eq_ok h
  rw [map_name_fields hx]
  apply List.pairwise_map.mpr
  apply (earlier_rises [] (tagNamesFrom 1 columns)).imp
  intro o q hrises hname
  obtain ⟨hid, hearlier⟩ := Occurrence.fieldName_inj hname
  have hlt := hrises hid
  omega

theorem fieldNames_nodup_countStruct :
    buildStruct "Foo" countColumns taggedSettings "db" [] = .ok countStruct ∧
      (countStruct.fields.map Field.name).Nodup :=
  ⟨buildStruct_countColumns, fieldNames_nodup buildStruct_countColumns⟩

/-- The tag of a column that is the first of its identifier is the numbered tag of another. -/
def TagsClash (columns : List Column) : Prop :=
  ∃ o ∈ occurrences columns, ∃ p ∈ occurrences columns,
    o.earlier = 0 ∧ p.earlier ≠ 0 ∧ o.tag = numbered p.tag p.earlier

instance (columns : List Column) : Decidable (TagsClash columns) :=
  inferInstanceAs (Decidable (∃ o ∈ occurrences columns, _))

theorem Occurrence.jsonTag_of_first {o : Occurrence} (h : o.earlier = 0) : o.jsonTag = o.tag := by
  rw [jsonTag, h, numbered_zero]

/-- One tag for two occurrences of which neither or both are numbered means one column name. -/
theorem Occurrence.tag_eq_of_jsonTag_eq {o p : Occurrence} (h : o.jsonTag = p.jsonTag)
    (hz : o.earlier = 0 ↔ p.earlier = 0) : o.tag = p.tag ∧ o.earlier = p.earlier := by
  by_cases ho : o.earlier = 0
  · have hp := hz.mp ho
    rw [jsonTag_of_first ho, jsonTag_of_first hp] at h
    exact ⟨h, ho.trans hp.symm⟩
  · exact numbered_inj ho (fun hp => ho (hz.mpr hp)) h

/-- Without a clash all tags differ. -/
theorem jsonTags_pairwise_ne (hc : ¬ TagsClash columns) :
    (occurrences columns).Pairwise fun o p => o.jsonTag ≠ p.jsonTag := by
  apply (earlier_rises [] (tagNamesFrom 1 columns)).imp_of_mem
  intro o p ho hp hrises htag
  by_cases hz : o.earlier = 0 ↔ p.earlier = 0
  · obtain ⟨he, hk⟩ := Occurrence.tag_eq_of_jsonTag_eq htag hz
    have hlt := hrises (by rw [Occurrence.identifier, he]; rfl)
    omega
  · -- Just one of the two is numbered, and the other one's name is its numbered tag.
    apply hc
    by_cases hoz : o.earlier = 0
    · have hpz : p.earlier ≠ 0 := fun h => hz ⟨fun _ => h, fun _ => hoz⟩
      rw [Occurrence.jsonTag_of_first hoz] at htag
      exact ⟨o, ho, p, hp, hoz, hpz, htag⟩
    · have hpz : p.earlier = 0 := by
        by_contra h
        exact hz ⟨fun h' => absurd h' hoz, fun h' => absurd h' h⟩
      rw [Occurrence.jsonTag_of_first hpz] at htag
      exact ⟨p, hp, o, ho, hpz, hoz, htag.symm⟩

/-- The tags of a tagged struct differ from each other exactly when no first column of an identifier
is named like the numbered tag of another column. -/
theorem jsonTags_nodup_iff {p : Package} (hp : settings.package package = .ok p)
    (ht : p.hasJsonTags = true)
    (h : buildStruct name columns settings package enumTypes = .ok x) :
    ∃ tags : List String, x.fields.map Field.jsonTag = tags.map some ∧
      (tags.Nodup ↔ ¬ TagsClash columns) := by
  obtain ⟨q, hq, hx⟩ := buildStruct_eq_ok h
  rw [hp] at hq
  cases hq
  refine ⟨_, map_jsonTag_fields ht hx, ?_, ?_⟩
  · rintro hn ⟨o, ho, r, hr, hoz, hrz, he⟩
    have htag : o.jsonTag = r.jsonTag := (Occurrence.jsonTag_of_first hoz).trans he
    have hor := List.inj_on_of_nodup_map hn ho hr htag
    exact hrz (hor ▸ hoz)
  · intro hc
    exact List.pairwise_map.mpr (jsonTags_pairwise_ne hc)

/-- An unnamed column at a place that a column is named for, and a repeated column. -/
def numberedColumns : List Column := ["column_2", "", "count", "count"].map textColumn

def numberedStruct : Struct :=
  ⟨"Foo", [⟨"Column2", "string", some "column_2"⟩, ⟨"Column2_2", "string", some "column_2_2"⟩,
    ⟨"Count", "string", some "count"⟩, ⟨"Count_2", "string", some "count_2"⟩]⟩

theorem jsonTags_nodup_numberedStruct :
    taggedSettings.package "db" = .ok taggedPackage ∧ taggedPackage.hasJsonTags = true ∧
      buildStruct "Foo" numberedColumns taggedSettings "db" [] = .ok numberedStruct ∧
      ∃ tags : List String, numberedStruct.fields.map Field.jsonTag = tags.map some ∧
        (tags.Nodup ↔ ¬ TagsClash numberedColumns) :=
  have hx : buildStruct "Foo" numberedColumns taggedSettings "db" [] = .ok numberedStruct := by
    decide +kernel
  ⟨rfl, rfl, hx, jsonTags_nodup_iff (p := taggedPackage) rfl rfl hx⟩

/-- The second `count` gets the tag of the column that is named `count_2`. -/
theorem countStruct_tags_repeat :
    taggedSettings.package "db" = .ok taggedPackage ∧ taggedPackage.hasJsonTags = true ∧
      buildStruct "Foo" countColumns taggedSettings "db" [] = .ok countStruct ∧
      ¬ (countStruct.fields.map Field.jsonTag).Nodup :=
  ⟨rfl, rfl, buildStruct_countColumns, by decide⟩

end RowModel
