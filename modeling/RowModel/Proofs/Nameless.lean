import RowModel.Proofs.Distinct
import RowModel.Proofs.Position
import RowModel.Proofs.Singular

/-!
Which columns and relations are left without an identifier. Underscores do not come into one, so a
name of nothing but underscores leaves none, and neither does that of a relation whose singular is
such a name. A column without a name is named by its place and always has an identifier. Main
result: `properNames`.
-/
namespace RowModel

open Text

namespace Text

theorem upper_ne_nil (c : Char) : upper c ≠ [] := by
  have hlong : ∀ e ∈ longCapitals, e.2 ≠ [] := by decide +kernel
  have hcapital := hasCapital_upper c
  generalize upper c = s at hcapital ⊢
  cases hcapital with
  | long he => exact mt List.map_eq_nil_iff.mp (hlong _ he)
  | _ => exact List.cons_ne_nil _ _

end Text

def Underscores (s : List Char) : Prop := ∀ c ∈ s, c = '_'

instance (s : List Char) : Decidable (Underscores s) := List.decidableBAll _ s

theorem Underscores.mono {s t : List Char} (h : Underscores s) (hsub : t ⊆ s) : Underscores t :=
  fun c hc => h c (hsub hc)

theorem not_underscores_of_mem {s : List Char} {c : Char} (hc : c ∈ s) (h : c ≠ '_') :
    ¬ Underscores s := fun hs => h (hs c hc)

/-- A name that is there, of underscores alone. -/
def OnlyUnderscores (name : String) : Prop := name ≠ "" ∧ Underscores name.toList

instance (name : String) : Decidable (OnlyUnderscores name) := inferInstanceAs (Decidable (_ ∧ _))

/-- A name that is there and begins with no underscore. -/
def IsProperName (name : String) : Prop := name ≠ "" ∧ name.toList.head? ≠ some '_'

instance (name : String) : Decidable (IsProperName name) := inferInstanceAs (Decidable (_ ∧ _))

namespace Name

theorem joinSegments_underscore_cons (r : List Char) :
    joinSegments ('_' :: r) = joinSegments r := joinSegments_append [] r

theorem exists_joinSegments_cons {c : Char} (h : c ≠ '_') (r : List Char) :
    ∃ t, joinSegments (c :: r) = upper c ++ t := by
  obtain ⟨p, ps, hp⟩ := splitOn_eq_cons '_' r
  refine ⟨p ++ ps.flatMap capitalize, ?_⟩
  rw [joinSegments, splitOn_cons_of_ne h hp, List.flatMap_cons, capitalize_cons, List.append_assoc]

theorem joinSegments_cons_ne_nil {c : Char} (h : c ≠ '_') (r : List Char) :
    joinSegments (c :: r) ≠ [] := by
  obtain ⟨t, ht⟩ := exists_joinSegments_cons h r
  rw [ht]
  exact List.append_ne_nil_of_left_ne_nil (upper_ne_nil c) t

/-- Nothing but underscores leaves nothing. -/
theorem joinSegments_eq_nil_iff {s : List Char} : joinSegments s = [] ↔ Underscores s := by
  induction s with
  | nil => simp [Underscores]
  | cons c r ih =>
    by_cases h : c = '_'
    · subst h
      rw [joinSegments_underscore_cons, ih, Underscores, Underscores, List.forall_mem_cons]
      simp
    · simp [joinSegments_cons_ne_nil h, Underscores, h]

/-- Nothing is left of a name exactly if it holds underscores alone. -/
theorem fieldName_eq_empty_iff {s : String} : fieldName s = "" ↔ Underscores s.toList := by
  rw [← joinSegments_eq_nil_iff, fieldName, ← String.toList_inj, String.toList_ofList]
  rfl

end Name

/-- A text without underscores gives a proper name if it is there, whichever number it gets. -/
theorem isProperName_numbered_iff {s : String} (hs : '_' ∉ s.toList) (k : Nat) :
    IsProperName (numbered s k) ↔ s ≠ "" := by
  by_cases hk : k = 0
  · subst hk
    rw [numbered_zero, IsProperName, and_iff_left_iff_imp]
    intro _ hhead
    exact hs (List.mem_of_head? hhead)
  · have hne : numbered s k ≠ "" := by
      intro h
      have hmem := underscore_mem_numbered hk s
      rw [h] at hmem
      cases hmem
    rw [IsProperName, and_iff_right hne, toList_numbered hk]
    cases htext : s.toList with
    | nil => simp [← String.toList_inj, htext]
    | cons c r =>
      rw [htext, List.mem_cons, not_or] at hs
      simp [← String.toList_inj, htext, Ne.symm hs.1]

theorem underscores_tagName_iff {c : Column} {position : Nat} :
    Underscores (tagName c position).toList ↔ OnlyUnderscores c.name := by
  rw [tagName, OnlyUnderscores]
  split
  · next h =>
    have hc : 'c' ∈ ("column_" ++ toString position).toList := by simp
    exact iff_of_false (not_underscores_of_mem hc (by decide)) fun hname => hname.1 h
  · next h => rw [and_iff_right h]

/-- The identifier of a column is a proper name exactly if the column is not named by underscores
alone. -/
theorem isProperName_tag_iff (c : Column) (position k : Nat) :
    IsProperName (numbered (Name.fieldName (tagName c position)) k) ↔ ¬ OnlyUnderscores c.name := by
  rw [isProperName_numbered_iff (Name.underscore_not_mem_fieldName _), ne_eq,
    Name.fieldName_eq_empty_iff, underscores_tagName_iff]

/-- A field has a proper name exactly if its column is not named by underscores alone. -/
theorem properNames_fields {settings : Settings} {package : String} {enumTypes : EnumTypes}
    {name : String} {columns : List Column} {x : Struct}
    (h : buildStruct name columns settings package enumTypes = .ok x) :
    List.Forall₂ (fun c f => IsProperName f.name ↔ ¬ OnlyUnderscores c.name) columns x.fields := by
  obtain ⟨p, -, hx⟩ := buildStruct_eq_ok h
  obtain ⟨types, ht, rfl⟩ := structOf_eq_ok hx
  obtain ⟨hlen, hfields⟩ := (eq_zipWith_occurrences_iff ht).mp rfl
  apply forall₂_of_getElem? hlen.symm
  intro i c hc
  obtain ⟨f, hf, hfield⟩ := hfields i c hc
  refine ⟨f, hf, ?_⟩
  have hname : f.name = numbered (Name.fieldName (tagName c (i + 1))) (earlierAt columns i) :=
    hfield.name
  rw [hname, isProperName_tag_iff]

namespace Name

/-- A word of underscores with nothing behind them or one `s`. -/
def Vanishes (w : List Char) : Prop :=
  ∃ blank, blank ≠ [] ∧ Underscores blank ∧ (w = blank ∨ w = blank ++ ['s'])

theorem mem_of_vanishes {w : List Char} (h : Vanishes w) : ∀ c ∈ w, c = '_' ∨ c = 's' := by
  obtain ⟨blank, -, hblank, rfl | rfl⟩ := h
  · exact fun c hc => .inl (hblank c hc)
  · intro c hc
    rcases List.mem_append.mp hc with hc | hc
    · exact .inl (hblank c hc)
    · exact .inr (List.mem_singleton.mp hc)

theorem stem_not_underscores : ∀ r ∈ pluralRules, ¬ Underscores r.stem := by decide +kernel

theorem e_mem_ending : ∀ r ∈ pluralRules, 'e' ∈ r.ending.toList := by decide

theorem exists_letter_plural {e : String × String} (he : e ∈ irregularPlurals) :
    ∃ c ∈ e.1.toList, c ≠ '_' ∧ c ≠ 's' := by
  have hany : ∀ e ∈ irregularPlurals, e.1.toList.any (fun c => c != '_' && c != 's') = true := by
    decide +kernel
  simpa using hany e he

/-- Behind its first letter a tabled singular has letters. -/
theorem singular_tail_not_underscores :
    ∀ e ∈ irregularPlurals, ¬ Underscores e.2.toList.tail := by decide +kernel

theorem not_underscores_capitalize {s : List Char} (h : ¬ Underscores s.tail) :
    ¬ Underscores (capitalize s) := by
  cases s with
  | nil => exact h
  | cons c r => exact mt (Underscores.mono · (List.subset_append_right (upper c) r)) h

/-- A word of underscores and `s` alone is no tabled plural, and no special ending fits it. -/
theorem singular_of_few {w : List Char} (h : ∀ c ∈ w, c = '_' ∨ c = 's') :
    singular w = if hasPlainS w then w.dropLast else w := by
  have hirregular : irregularSingular? w = none := by
    rw [irregularSingular?_eq_none_iff]
    intro e he hplural
    obtain ⟨c, hc, hblank, hletter⟩ := exists_letter_plural he
    rw [hplural] at hc
    obtain ⟨d, hd, rfl⟩ := List.mem_map.mp hc
    rcases h d hd with rfl | rfl
    · exact hblank rfl
    · exact hletter rfl
  have hendings : ∀ r ∈ pluralRules, ¬ r.ending.toList <:+ w := by
    intro r hr hsuffix
    rcases h 'e' (hsuffix.subset (e_mem_ending r hr)) with he | he <;> cases he
  rw [singular, hirregular]
  exact regularSingular_of_no_ending hendings

/-- A singular of underscores alone is what is left of a word that vanishes: an irregular one has
letters, and so has a stem. -/
theorem vanishes_of_hasSingular {w s : List Char} (hw : w ≠ []) (h : HasSingular w s)
    (hs : Underscores s) : Vanishes w := by
  cases h with
  | irregular he _ hsingular =>
    have htail := singular_tail_not_underscores _ he
    rcases hsingular with rfl | rfl
    · exact absurd hs (not_underscores_capitalize htail)
    · exact absurd (hs.mono (List.tail_suffix _).subset) htail
  | @ending r v hr _ =>
    exact absurd (hs.mono (List.subset_append_right v r.stem)) (stem_not_underscores r hr)
  | plainS hv _ hsplit => exact ⟨s, hv, hs, .inr hsplit⟩
  | unchanged => exact ⟨w, hw, hs, .inl rfl⟩

/-- The singular of a word has nothing but underscores exactly if the word vanishes. -/
theorem underscores_singular_iff {w : List Char} (hw : w ≠ []) :
    Underscores (singular w) ↔ Vanishes w := by
  constructor
  · intro h
    exact vanishes_of_hasSingular hw (hasSingular_singular w) h
  · intro h
    rw [singular_of_few (mem_of_vanishes h)]
    obtain ⟨blank, hne, hblank, rfl | rfl⟩ := h
    · split
      · next hs =>
        obtain ⟨v, -, -, rfl⟩ := hasPlainS_iff.mp hs
        exact absurd hblank (not_underscores_of_mem (by simp) (by decide : 's' ≠ '_'))
      · exact hblank
    · have hs : hasPlainS (blank ++ ['s']) = true := by
        refine hasPlainS_iff.mpr ⟨blank, hne, ?_, rfl⟩
        intro hlast
        exact absurd (hblank 's' (hlast.subset (List.mem_singleton_self 's'))) (by decide)
      rw [if_pos hs, List.dropLast_concat]
      exact hblank

/-- Nothing is left of the name of a relation exactly if it vanishes. -/
theorem modelName_eq_empty_iff {relation : String} (h : relation ≠ "") :
    modelName relation = "" ↔ Vanishes relation.toList := by
  have hw : relation.toList ≠ [] := mt String.toList_eq_nil_iff.mp h
  rw [modelName, fieldName_eq_empty_iff, singularize, String.toList_ofList,
    underscores_singular_iff hw]

end Name

/-- A model has a name exactly if that of its relation does not vanish. -/
theorem names_models {g : Generator} {tables : List (TableRef × List Column)} {models : List Struct}
    (h : g.buildModels tables = .ok models) :
    List.Forall₂
      (fun t x => t.1.name ≠ "" → (x.name ≠ "" ↔ ¬ Name.Vanishes t.1.name.toList))
      tables models := by
  refine (mapM_eq_ok_iff.mp h).imp ?_
  intro t x hbuild hname
  obtain ⟨types, -, rfl⟩ := structOf_eq_ok hbuild
  exact not_congr (Name.modelName_eq_empty_iff hname)

/-- A field has a proper name unless its column is named by underscores alone, and a model of a
relation with a name has one unless that vanishes in the singular. -/
theorem properNames (columns : List Column) (tables : List (TableRef × List Column)) :
    (∀ settings package enumTypes name x,
      buildStruct name columns settings package enumTypes = .ok x →
        List.Forall₂ (fun c f => IsProperName f.name ↔ ¬ OnlyUnderscores c.name)
          columns x.fields) ∧
    ∀ (g : Generator) models, g.buildModels tables = .ok models →
      List.Forall₂
        (fun t x => t.1.name ≠ "" → (x.name ≠ "" ↔ ¬ Name.Vanishes t.1.name.toList))
        tables models := by
  refine ⟨?_, ?_⟩
  · intro settings package enumTypes name x
    exact properNames_fields
  · intro g models
    exact names_models

def blankColumns : List Column := ["_", "__", "", "_a"].map textColumn

def blankStruct : Struct :=
  ⟨"Foo", [⟨"", "string", some "_"⟩, ⟨"_2", "string", some "___2"⟩,
    ⟨"Column3", "string", some "column_3"⟩, ⟨"A", "string", some "_a"⟩]⟩

/-- A relation whose singular is an underscore, and one with letters. -/
def blankTables : List (TableRef × List Column) :=
  [(⟨"public", "_s"⟩, []), (⟨"public", "authors"⟩, [])]

def blankGenerator : Generator :=
  ⟨taggedSettings, taggedPackage, [], List.mem_singleton.mpr rfl⟩

theorem buildStruct_blankColumns :
    buildStruct "Foo" blankColumns taggedSettings "db" [] = .ok blankStruct := by decide +kernel

theorem buildModels_blankTables :
    blankGenerator.buildModels blankTables = .ok [⟨"", []⟩, ⟨"Author", []⟩] := by decide +kernel

/-- Of the four fields the last two have proper names, and of the two models the last has one. -/
theorem properNames_blankColumns :
    buildStruct "Foo" blankColumns taggedSettings "db" [] = .ok blankStruct ∧
      blankGenerator.buildModels blankTables = .ok [⟨"", []⟩, ⟨"Author", []⟩] ∧
      (IsProperName "Column3" ↔ ¬ OnlyUnderscores "") ∧
      ("Author" ≠ "" ↔ ¬ Name.Vanishes "authors".toList) := by
  obtain ⟨hfields, hmodels⟩ := properNames blankColumns blankTables
  have hstruct := hfields _ _ _ _ _ buildStruct_blankColumns
  have hlist := hmodels _ _ buildModels_blankTables
  rw [blankColumns, blankStruct] at hstruct
  rw [blankTables] at hlist
  obtain _ | ⟨-, _ | ⟨-, _ | ⟨hthird, -⟩⟩⟩ := hstruct
  obtain _ | ⟨-, _ | ⟨hlast, -⟩⟩ := hlist
  exact ⟨buildStruct_blankColumns, buildModels_blankTables, hthird, hlast (by decide)⟩

/-- The first two fields have no proper names, and the first model has none at all. -/
theorem blankColumns_not_proper :
    buildStruct "Foo" blankColumns taggedSettings "db" [] = .ok blankStruct ∧
      (¬ ∀ f ∈ blankStruct.fields, IsProperName f.name) ∧
      blankGenerator.buildModels blankTables = .ok [⟨"", []⟩, ⟨"Author", []⟩] ∧
      "_s" ≠ "" := by
  refine ⟨buildStruct_blankColumns, ?_, buildModels_blankTables, by decide⟩
  intro hall
  have hfirst := hall ⟨"", "string", some "_"⟩ List.mem_cons_self
  exact hfirst.1 rfl

end RowModel
