import RowModel.Proofs.Compound

/-!
Regular plurals. No special ending is the end of another one, so at most one of them fits a word and
their order does not matter: each takes off what the plural has put on. A word that is no tabled
plural and has something before its ending is therefore the regular plural of its singular, and of no
other word. Main result: `singularize_regularPlural`.
-/
namespace RowModel.Name

variable {v w p s : List Char} {r r' : PluralRule}

/-- The ends of words that take `es`. -/
def hisses : List String := ["s", "x", "z", "ch", "sh"]

/-- The ends of words that do not take a plain `s`, which would be read as part of another ending. -/
def closedEnds : List String := ["s", "ie", "se", "xe", "ze", "che", "she"]

/-- By its ending the second word is the plural of the first, or no plural at all. -/
inductive RegularPlural : List Char → List Char → Prop
  | es {w : List Char} {x : String} (hx : x ∈ hisses) (hend : x.toList <:+ w)
    (hlen : x.length < w.length) : RegularPlural w (w ++ ['e', 's'])
  | ies {v : List Char} (hv : v ≠ []) : RegularPlural (v ++ ['y']) (v ++ ['i', 'e', 's'])
  | s {w : List Char} (hw : w ≠ []) (hend : ∀ x ∈ closedEnds, ¬ x.toList <:+ w) :
    RegularPlural w (w ++ ['s'])
  | same {w : List Char} (h : ¬ ['s'] <:+ w ∨ ['s', 's'] <:+ w) : RegularPlural w w

/-- No ending is the end of another one. -/
theorem ending_unique (hr : r ∈ pluralRules) (hr' : r' ∈ pluralRules) (h : r.ending.toList <:+ w)
    (h' : r'.ending.toList <:+ w) : r = r' := by
  have apart : ∀ r ∈ pluralRules, ∀ r' ∈ pluralRules,
      r.ending.toList <:+ r'.ending.toList → r = r' := by decide +kernel
  rcases List.suffix_or_suffix_of_suffix h h' with h | h
  · exact apart r hr r' hr' h
  · exact (apart r' hr' r hr h).symm

/-- Of a word with an ending its rule makes the stem. -/
theorem regularSingular_ending (hr : r ∈ pluralRules) (hv : v ≠ []) :
    regularSingular (v ++ r.ending.toList) = v ++ r.stem := by
  rw [regularSingular]
  split
  · next r' hr' =>
    have hmem := List.mem_of_find?_eq_some hr'
    have hfits' : r'.fits (v ++ r.ending.toList) = true := by simpa using List.find?_some hr'
    rw [ending_unique hmem hr (PluralRule.fits_iff.mp hfits').1 ⟨v, rfl⟩]
    exact PluralRule.apply_append (cut_le_ending r hr) v
  · next hnone => exact absurd (fits_append hr hv) (List.find?_eq_none.mp hnone r hr)

-- The table of endings against those of the words: five endings are a hiss with `es`, and all of
-- them are a closed end with `s`.

theorem rule_of_hiss : ∀ x ∈ hisses, ∃ r ∈ pluralRules,
    r.ending.toList = x.toList ++ ['e', 's'] ∧ r.stem = x.toList := by decide +kernel

/-- Apart from the ending `ies` each special ending is a hiss with `es`. -/
theorem rule_cases : ∀ r ∈ pluralRules,
    (r.ending.toList = ['i', 'e', 's'] ∧ r.stem = ['y']) ∨
      ∃ x ∈ hisses, r.ending.toList = x.toList ++ ['e', 's'] ∧ r.stem = x.toList := by
  decide +kernel

theorem closedEnd_of_rule : ∀ r ∈ pluralRules, ∃ x ∈ closedEnds,
    r.ending.toList = x.toList ++ ['s'] := by decide +kernel

theorem closedEnd_cases : ∀ x ∈ closedEnds, x = "s" ∨ ∃ r ∈ pluralRules,
    r.ending.toList = x.toList ++ ['s'] := by decide +kernel

theorem ending_end : ∀ r ∈ pluralRules,
    ['s'] <:+ r.ending.toList ∧ ¬ ['s', 's'] <:+ r.ending.toList ∧
      2 ≤ r.ending.toList.length := by decide +kernel

/-- The rules lead back from each regular plural. -/
theorem regularSingular_of_regularPlural (h : RegularPlural w p) : regularSingular p = w := by
  cases h with
  | @es _ x hx hend hlen =>
    obtain ⟨r, hr, hending, hstem⟩ := rule_of_hiss x hx
    obtain ⟨v, rfl⟩ := hend
    have hv : v ≠ [] := by
      rintro rfl
      rw [List.nil_append, String.length_toList] at hlen
      exact Nat.lt_irrefl _ hlen
    rw [List.append_assoc, ← hending, regularSingular_ending hr hv, hstem]
  | ies hv => exact regularSingular_ending (r := ⟨"ies", 3, 3, "y"⟩) List.mem_cons_self hv
  | s hw hend =>
    have hs : ¬ ['s'] <:+ w := hend "s" (by decide)
    have hnone : ∀ r ∈ pluralRules, ¬ r.ending.toList <:+ w ++ ['s'] := by
      intro r hr hsuffix
      obtain ⟨x, hx, hending⟩ := closedEnd_of_rule r hr
      rw [hending, append_s_suffix_iff] at hsuffix
      exact hend x hx hsuffix
    have hplain : hasPlainS (w ++ ['s']) = true := hasPlainS_iff.mpr ⟨w, hw, hs, rfl⟩
    rw [regularSingular_of_no_ending hnone, if_pos hplain, List.dropLast_concat]
  | same hs =>
    have hnone : ∀ r ∈ pluralRules, ¬ r.ending.toList <:+ w := by
      intro r hr hsuffix
      obtain ⟨hone, hdouble, hlen⟩ := ending_end r hr
      rcases hs with hs | hs
      · exact hs (hone.trans hsuffix)
      · exact hdouble (List.suffix_of_suffix_length_le hs hsuffix hlen)
    have hplain : ¬ hasPlainS w = true := by
      rw [hasPlainS_iff]
      rintro ⟨v, -, hv, rfl⟩
      rcases hs with hs | hs
      · exact hs (List.suffix_append v ['s'])
      · exact hv (append_s_suffix_iff.mp hs)
    rw [regularSingular_of_no_ending hnone, if_neg hplain]

/-- A word that is no bare ending is the regular plural of what the rules make of it. -/
theorem regularPlural_regularSingular (h : ¬ IsBareEnding p) :
    RegularPlural (regularSingular p) p := by
  obtain ⟨hrule, hletter⟩ := not_or.mp h
  by_cases hending : ∃ r ∈ pluralRules, r.ending.toList <:+ p
  · obtain ⟨r, hr, v, rfl⟩ := hending
    have hv : v ≠ [] := by
      rintro rfl
      exact hrule ⟨r, hr, rfl⟩
    rw [regularSingular_ending hr hv]
    rcases rule_cases r hr with ⟨hies, hstem⟩ | ⟨x, hx, hes, hstem⟩
    · rw [hies, hstem]
      exact .ies hv
    · have hlen : x.length < (v ++ x.toList).length := by
        rw [← String.length_toList]
        exact length_lt_append hv
      rw [hes, hstem, ← List.append_assoc]
      exact .es hx (List.suffix_append v x.toList) hlen
  · have hnone : ∀ r ∈ pluralRules, ¬ r.ending.toList <:+ p := fun r hr hsuffix =>
      hending ⟨r, hr, hsuffix⟩
    rw [regularSingular_of_no_ending hnone]
    split
    · next hplain =>
      obtain ⟨v, hv, hs, rfl⟩ := hasPlainS_iff.mp hplain
      rw [List.dropLast_concat]
      refine .s hv ?_
      intro x hx hsuffix
      rcases closedEnd_cases x hx with rfl | ⟨r, hr, hend⟩
      · exact hs hsuffix
      · apply hnone r hr
        rw [hend, append_s_suffix_iff]
        exact hsuffix
    · next hplain =>
      apply RegularPlural.same
      by_contra hsingle
      obtain ⟨hs, hdouble⟩ := not_or.mp hsingle
      obtain ⟨v, rfl⟩ := not_not.mp hs
      have hv : v ≠ [] := by
        rintro rfl
        exact hletter rfl
      exact hplain (hasPlainS_iff.mpr ⟨v, hv, mt append_s_suffix_iff.mpr hdouble, rfl⟩)

theorem HasSingular.ne_nil (h : HasSingular w s) (hw : w ≠ []) : s ≠ [] := by
  have htable : ∀ e ∈ irregularPlurals, capitalize e.2.toList ≠ [] ∧ e.2.toList ≠ [] := by
    decide +kernel
  have hstems : ∀ r ∈ pluralRules, r.stem ≠ [] := by decide +kernel
  cases h with
  | irregular he _ hs =>
    rcases hs with rfl | rfl
    · exact (htable _ he).1
    · exact (htable _ he).2
  | ending hr _ => exact List.append_ne_nil_of_right_ne_nil _ (hstems _ hr)
  | plainS hv _ _ => exact hv
  | unchanged => exact hw

/-- Something is left of every word. -/
theorem singularize_ne_empty {p : String} (hp : p ≠ "") : singularize p ≠ "" := by
  have hchars : p.toList ≠ [] := mt String.toList_eq_nil_iff.mp hp
  have hsingular := (hasSingular_singular p.toList).ne_nil hchars
  rw [singularize, ne_eq, ← String.toList_inj, String.toList_ofList]
  exact hsingular

/-- A word is the singular of its regular plural unless that is tabled. A word that is neither
tabled nor a bare ending is the regular plural of its singular, and no word loses all its letters. -/
theorem singularize_regularPlural (w p : String) :
    (¬ IsTabled p.toList → RegularPlural w.toList p.toList → singularize p = w) ∧
      (¬ (IsTabled p.toList ∨ IsBareEnding p.toList) →
        RegularPlural (singularize p).toList p.toList) ∧
      (p ≠ "" → singularize p ≠ "") := by
  refine ⟨?_, ?_, singularize_ne_empty⟩
  · intro htabled hplural
    rw [singularize, singular_eq_regularSingular htabled, regularSingular_of_regularPlural hplural,
      String.ofList_toList]
  · intro h
    obtain ⟨htabled, hbare⟩ := not_or.mp h
    rw [singularize, String.toList_ofList, singular_eq_regularSingular htabled]
    exact regularPlural_regularSingular hbare

theorem regularPlural_church : RegularPlural "church".toList "churches".toList :=
  .es (x := "ch") (by decide) ⟨"chur".toList, rfl⟩ (by decide)

theorem regularPlural_category : RegularPlural "category".toList "categories".toList :=
  .ies (v := "categor".toList) (by decide)

theorem regularPlural_author : RegularPlural "author".toList "authors".toList :=
  .s (by decide) (by decide +kernel)

theorem regularPlural_class : RegularPlural "class".toList "class".toList :=
  .same (.inr ⟨"cla".toList, rfl⟩)

/-- A word for each kind of plural, and one that is the plural of its singular. -/
theorem singularize_regularPlural_churches :
    (¬ IsTabled "churches".toList ∧ RegularPlural "church".toList "churches".toList ∧
      singularize "churches" = "church") ∧
    (¬ IsTabled "categories".toList ∧ RegularPlural "category".toList "categories".toList ∧
      singularize "categories" = "category") ∧
    (¬ IsTabled "authors".toList ∧ RegularPlural "author".toList "authors".toList ∧
      singularize "authors" = "author") ∧
    (¬ IsTabled "class".toList ∧ RegularPlural "class".toList "class".toList ∧
      singularize "class" = "class") ∧
    (¬ (IsTabled "boxes".toList ∨ IsBareEnding "boxes".toList) ∧
      RegularPlural (singularize "boxes").toList "boxes".toList) ∧
    "People" ≠ "" ∧ singularize "People" ≠ "" := by
  have hchurches : ¬ IsTabled "churches".toList := by decide +kernel
  have hcategories : ¬ IsTabled "categories".toList := by decide +kernel
  have hauthors : ¬ IsTabled "authors".toList := by decide +kernel
  have hclass : ¬ IsTabled "class".toList := by decide +kernel
  have hboxes : ¬ (IsTabled "boxes".toList ∨ IsBareEnding "boxes".toList) := by decide +kernel
  exact ⟨⟨hchurches, regularPlural_church,
      (singularize_regularPlural _ _).1 hchurches regularPlural_church⟩,
    ⟨hcategories, regularPlural_category,
      (singularize_regularPlural _ _).1 hcategories regularPlural_category⟩,
    ⟨hauthors, regularPlural_author,
      (singularize_regularPlural _ _).1 hauthors regularPlural_author⟩,
    ⟨hclass, regularPlural_class, (singularize_regularPlural _ _).1 hclass regularPlural_class⟩,
    ⟨hboxes, (singularize_regularPlural "" _).2.1 hboxes⟩,
    by decide, (singularize_regularPlural "" _).2.2 (by decide)⟩

end RowModel.Name
