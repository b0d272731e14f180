import RowModel.Proofs.Singular
import Mathlib

/-!
Relations with a name of several words. The plural endings are looked for at the end of the whole
name, which is the end of its last word, but the tabled plurals are whole names, and whether anything
stands before an ending is asked of the whole name too. So a last word has behind others the singular
that it has alone unless it is a tabled plural or an ending with nothing before it. Main result:
`modelName_compound`.
-/
namespace RowModel.Name

open Text

variable {p v w x : List Char}

/-- The singular of a word that stands behind another. -/
def lastSingular (w : List Char) : List Char :=
  match pluralRules.find? (fun r => r.ending.toList.isSuffixOf w) with
  | some r => r.apply w
  | none => if ['s'].isSuffixOf w && !List.isSuffixOf ['s', 's'] w then w.dropLast else w

def IsTabled (w : List Char) : Prop := ∃ e ∈ irregularPlurals, e.1.toList = w.map Char.toLower

instance (w : List Char) : Decidable (IsTabled w) := List.decidableBEx _ _

/-- A plural ending with nothing before it. -/
def IsBareEnding (w : List Char) : Prop := (∃ r ∈ pluralRules, w = r.ending.toList) ∨ w = ['s']

instance (w : List Char) : Decidable (IsBareEnding w) := inferInstanceAs (Decidable (_ ∨ _))

/-- What has no underscore ends a compound exactly if it ends the last word. -/
theorem suffix_behind_iff (h : '_' ∉ x) : x <:+ p ++ '_' :: w ↔ x <:+ w := by
  constructor
  · intro hx
    rcases List.suffix_or_suffix_of_suffix hx (List.suffix_append p ('_' :: w)) with hx | hx
    · rcases List.suffix_cons_iff.mp hx with rfl | hx
      · exact absurd List.mem_cons_self h
      · exact hx
    · exact absurd (hx.subset List.mem_cons_self) h
  · intro hx
    exact hx.trans ((List.suffix_cons '_' w).trans (List.suffix_append p _))

theorem isSuffixOf_behind (h : '_' ∉ x) : x.isSuffixOf (p ++ '_' :: w) = x.isSuffixOf w := by
  rw [Bool.eq_iff_iff, List.isSuffixOf_iff_suffix, List.isSuffixOf_iff_suffix, suffix_behind_iff h]

theorem ending_of_rule : ∀ r ∈ pluralRules,
    '_' ∉ r.ending.toList ∧ r.moreThan = r.ending.toList.length := by decide

/-- A rule asks for something before the ending. -/
theorem fits_append {r : PluralRule} (hr : r ∈ pluralRules) (hv : v ≠ []) :
    r.fits (v ++ r.ending.toList) = true := by
  rw [PluralRule.fits_iff, (ending_of_rule r hr).2]
  exact ⟨⟨v, rfl⟩, length_lt_append hv⟩

/-- Only the bare ending itself is too short for its rule. -/
theorem fits_of_rule {r : PluralRule} (hr : r ∈ pluralRules) (hw : w ≠ r.ending.toList) :
    r.fits w = r.ending.toList.isSuffixOf w := by
  rw [Bool.eq_iff_iff, List.isSuffixOf_iff_suffix]
  constructor
  · intro hfits
    exact (PluralRule.fits_iff.mp hfits).1
  · rintro ⟨v, rfl⟩
    apply fits_append hr
    rintro rfl
    exact hw rfl

theorem regularSingular_of_not_bare (h : ¬ IsBareEnding w) : regularSingular w = lastSingular w := by
  obtain ⟨hrules, hs⟩ := not_or.mp h
  have hfind : pluralRules.find? (·.fits w) =
      pluralRules.find? (fun r => r.ending.toList.isSuffixOf w) := by
    apply List.find?_congr
    intro r hr
    exact fits_of_rule hr fun hw => hrules ⟨r, hr, hw⟩
  have hlen : ['s'].isSuffixOf w = true → 1 < w.length := by
    rw [List.isSuffixOf_iff_suffix]
    rintro ⟨v, rfl⟩
    have hv : v ≠ [] := by
      rintro rfl
      exact hs rfl
    exact length_lt_append (x := ['s']) hv
  have hplain : hasPlainS w = (['s'].isSuffixOf w && !List.isSuffixOf ['s', 's'] w) := by
    rw [hasPlainS]
    cases hsuffix : ['s'].isSuffixOf w with
    | true => rw [decide_eq_true (hlen hsuffix), Bool.and_true]
    | false => rfl
  rw [regularSingular, hfind, hplain]
  rfl

/-- The last word loses its ending, or its plain final `s`, or stays. -/
theorem lastSingular_cases (w : List Char) :
    (∃ r ∈ pluralRules, ∃ v, w = v ++ r.ending.toList ∧ lastSingular w = v ++ r.stem) ∨
      (∃ v, w = v ++ ['s'] ∧ lastSingular w = v) ∨ lastSingular w = w := by
  rw [lastSingular]
  split
  · next r hr =>
    have hmem := List.mem_of_find?_eq_some hr
    have hsuffix : r.ending.toList <:+ w := by simpa using List.find?_some hr
    obtain ⟨v, rfl⟩ := hsuffix
    exact .inl ⟨r, hmem, v, rfl, PluralRule.apply_append (cut_le_ending r hmem) v⟩
  · split
    · next hs =>
      rw [Bool.and_eq_true, List.isSuffixOf_iff_suffix] at hs
      obtain ⟨v, rfl⟩ := hs.1
      exact .inr (.inl ⟨v, rfl, List.dropLast_concat⟩)
    · exact .inr (.inr rfl)

/-- No compound is a tabled plural. -/
theorem not_isTabled_behind (p w : List Char) : irregularSingular? (p ++ '_' :: w) = none := by
  have hletters : ∀ e ∈ irregularPlurals, '_' ∉ e.1.toList := by decide +kernel
  rw [irregularSingular?_eq_none_iff]
  intro e he hplural
  apply hletters e he
  rw [hplural]
  exact List.mem_map.mpr ⟨'_', by simp, rfl⟩

/-- Of a compound only the last word is put into the singular. -/
theorem lastSingular_behind (p w : List Char) :
    lastSingular (p ++ '_' :: w) = p ++ '_' :: lastSingular w := by
  have hfind : pluralRules.find? (fun r => r.ending.toList.isSuffixOf (p ++ '_' :: w)) =
      pluralRules.find? (fun r => r.ending.toList.isSuffixOf w) := by
    apply List.find?_congr
    intro r hr
    exact isSuffixOf_behind (ending_of_rule r hr).1
  have hs : '_' ∉ ['s'] := by decide
  have hss : '_' ∉ ['s', 's'] := by decide
  rw [lastSingular, hfind, isSuffixOf_behind hs, isSuffixOf_behind hss, lastSingular]
  split
  · next r hr =>
    have hcut := cut_le_ending r (List.mem_of_find?_eq_some hr)
    have hsuffix : r.ending.toList <:+ w := by simpa using List.find?_some hr
    obtain ⟨v, rfl⟩ := hsuffix
    have hsplit : p ++ '_' :: (v ++ r.ending.toList) = (p ++ '_' :: v) ++ r.ending.toList := by simp
    rw [hsplit, PluralRule.apply_append hcut, PluralRule.apply_append hcut]
    simp
  · split
    · next hend =>
      rw [Bool.and_eq_true, List.isSuffixOf_iff_suffix] at hend
      obtain ⟨v, rfl⟩ := hend.1
      have hsplit : p ++ '_' :: (v ++ ['s']) = (p ++ '_' :: v) ++ ['s'] := by simp
      rw [hsplit, List.dropLast_concat, List.dropLast_concat]
    · rfl

/-- Behind another word only the ending counts. -/
theorem singular_behind (p w : List Char) :
    singular (p ++ '_' :: w) = p ++ '_' :: lastSingular w := by
  have hbare : ¬ IsBareEnding (p ++ '_' :: w) := by
    have hmem : '_' ∈ p ++ '_' :: w := by simp
    rintro (⟨r, hr, he⟩ | he)
    · rw [he] at hmem
      exact (ending_of_rule r hr).1 hmem
    · rw [he] at hmem
      exact absurd hmem (by decide)
  simp only [singular, not_isTabled_behind, regularSingular_of_not_bare hbare, lastSingular_behind]

theorem singular_eq_regularSingular (h : ¬ IsTabled w) : singular w = regularSingular w := by
  have hnone : irregularSingular? w = none :=
    irregularSingular?_eq_none_iff.mpr fun e he hplural => h ⟨e, he, hplural⟩
  rw [singular, hnone]

theorem singular_eq_lastSingular (h : ¬ (IsTabled w ∨ IsBareEnding w)) :
    singular w = lastSingular w := by
  obtain ⟨htabled, hbare⟩ := not_or.mp h
  rw [singular_eq_regularSingular htabled, regularSingular_of_not_bare hbare]

def lower (s : List Char) : List Char := s.map Char.toLower

/-- Of a tabled plural no ending can be cut so that its singular is left. -/
theorem singular_ne_of_tabled : ∀ e ∈ irregularPlurals, ∀ r ∈ pluralRules,
    (r.ending.toList <:+ e.1.toList → r.apply e.1.toList ≠ e.2.toList) ∧
      e.1.toList.dropLast ≠ e.2.toList ∧ e.1.toList ≠ e.2.toList := by decide +kernel

theorem lower_ending : ∀ r ∈ pluralRules,
    lower r.ending.toList = r.ending.toList ∧ lower r.stem = r.stem := by decide +kernel

/-- The rules never give the tabled singular of a tabled plural. -/
theorem lower_lastSingular_ne {e : String × String} (he : e ∈ irregularPlurals)
    (hw : e.1.toList = lower w) : lower (lastSingular w) ≠ e.2.toList := by
  rcases lastSingular_cases w with ⟨r, hr, v, rfl, hx⟩ | ⟨v, rfl, hx⟩ | hx
  · obtain ⟨hending, hstem⟩ := lower_ending r hr
    have hplural : e.1.toList = lower v ++ r.ending.toList := by
      rw [hw, lower, List.map_append]
      exact congrArg _ hending
    have hlower : lower (v ++ r.stem) = r.apply e.1.toList := by
      rw [hplural, PluralRule.apply_append (cut_le_ending r hr), lower, List.map_append]
      exact congrArg _ hstem
    rw [hx, hlower]
    exact (singular_ne_of_tabled e he r hr).1 ⟨lower v, hplural.symm⟩
  · have hlower : lower v = e.1.toList.dropLast := by
      rw [hw, lower, lower, List.map_append]
      exact List.dropLast_concat.symm
    rw [hx, hlower]
    exact (singular_ne_of_tabled e he ⟨"ies", 3, 3, "y"⟩ List.mem_cons_self).2.1
  · rw [hx, ← hw]
    exact (singular_ne_of_tabled e he ⟨"ies", 3, 3, "y"⟩ List.mem_cons_self).2.2

/-- Small letters for capitals undo what an identifier does to one word in ASCII. -/
theorem lower_joinSegments (h : ∀ c ∈ x, c.toNat < 128 ∧ c ≠ '_') :
    lower (joinSegments x) = lower x := by
  have hone : '_' ∉ x := fun hmem => (h '_' hmem).2 rfl
  rw [joinSegments, splitOn_of_not_mem hone, List.flatMap_singleton]
  cases x with
  | nil => rfl
  | cons c r =>
    have hc := (h c List.mem_cons_self).1
    have hcase := of_toNat_lt (fun c => c.toUpper.toLower = c.toLower) (by decide) hc
    rw [capitalize_cons, upper_of_lt hc]
    simp [lower, hcase]

/-- A character is in ASCII if its small letter is. -/
theorem toNat_lt_of_toLower {c : Char} (h : c.toLower.toNat < 128) : c.toNat < 128 := by
  by_contra hc
  have hsame : c.toLower = c := by
    rw [Char.toLower, dif_neg]
    simp only [ge_iff_le, UInt32.le_iff_toNat_le, not_and]
    change 65 ≤ c.toNat → ¬ c.toNat ≤ 90
    omega
  rw [hsame] at h
  exact hc h

theorem letters_of_tabled {e : String × String} (he : e ∈ irregularPlurals)
    (hw : e.1.toList = lower w) : ∀ c ∈ w, c.toNat < 128 ∧ c ≠ '_' := by
  have hletters : ∀ e ∈ irregularPlurals,
      e.1.toList.all (fun c => c.toNat < 128 && c != '_') = true := by
    decide +kernel
  intro c hc
  have hmem : c.toLower ∈ e.1.toList := by
    rw [hw]
    exact List.mem_map_of_mem hc
  obtain ⟨hlt, hne⟩ : c.toLower.toNat < 128 ∧ c.toLower ≠ '_' := by
    simpa using List.all_eq_true.mp (hletters e he) _ hmem
  refine ⟨toNat_lt_of_toLower hlt, ?_⟩
  rintro rfl
  exact hne rfl

theorem letters_lastSingular (h : ∀ c ∈ w, c.toNat < 128 ∧ c ≠ '_') :
    ∀ c ∈ lastSingular w, c.toNat < 128 ∧ c ≠ '_' := by
  have hstem : ∀ r ∈ pluralRules, r.stem.all (fun c => c.toNat < 128 && c != '_') = true := by
    decide +kernel
  intro c hc
  rcases lastSingular_cases w with ⟨r, hr, v, rfl, hx⟩ | ⟨v, rfl, hx⟩ | hx
  · rw [hx] at hc
    rcases List.mem_append.mp hc with hc | hc
    · exact h c (List.mem_append_left _ hc)
    · simpa using List.all_eq_true.mp (hstem r hr) c hc
  · rw [hx] at hc
    exact h c (List.mem_append_left _ hc)
  · rw [hx] at hc
    exact h c hc

theorem joinSegments_ne_of_isTabled (h : IsTabled w) :
    joinSegments (lastSingular w) ≠ joinSegments (singular w) := by
  have hsingular : ∀ e ∈ irregularPlurals, lower (joinSegments e.2.toList) = e.2.toList ∧
      lower (joinSegments (capitalize e.2.toList)) = e.2.toList := by decide +kernel
  intro heq
  rw [singular] at heq
  split at heq
  · next s hs =>
    obtain ⟨e, he, hw, rfl⟩ := mem_of_irregularSingular? hs
    have hletters := letters_lastSingular (letters_of_tabled he hw)
    apply lower_lastSingular_ne he hw
    rw [← lower_joinSegments hletters, heq]
    split
    · exact (hsingular e he).2
    · exact (hsingular e he).1
  · next hnone =>
    obtain ⟨e, he, hw⟩ := h
    exact absurd hw (irregularSingular?_eq_none_iff.mp hnone e he)

theorem joinSegments_ne_of_isBareEnding (h : IsBareEnding w) :
    joinSegments (lastSingular w) ≠ joinSegments (singular w) := by
  have hrules : ∀ r ∈ pluralRules, joinSegments (lastSingular r.ending.toList) ≠
      joinSegments (singular r.ending.toList) := by decide +kernel
  rcases h with ⟨r, hr, rfl⟩ | rfl
  · exact hrules r hr
  · decide +kernel

/-- The last word alone is put into the same singular, up to its capital, exactly if it is no tabled
plural and no bare ending. -/
theorem joinSegments_lastSingular_iff :
    joinSegments (lastSingular w) = joinSegments (singular w) ↔
      ¬ (IsTabled w ∨ IsBareEnding w) := by
  constructor
  · rintro heq (h | h)
    · exact joinSegments_ne_of_isTabled h heq
    · exact joinSegments_ne_of_isBareEnding h heq
  · intro h
    rw [singular_eq_lastSingular h]

/-- What comes before the last word is named by itself, and the last word by its ending alone; that
is its own name exactly if it is no tabled plural and something stands before its ending. -/
theorem modelName_compound (p w : String) :
    modelName (p ++ "_" ++ w) =
        fieldName p ++ fieldName (String.ofList (lastSingular w.toList)) ∧
      (modelName (p ++ "_" ++ w) = fieldName p ++ modelName w ↔
        ¬ (IsTabled w.toList ∨ IsBareEnding w.toList)) := by
  have hname : modelName (p ++ "_" ++ w) =
      fieldName p ++ fieldName (String.ofList (lastSingular w.toList)) := by
    have hchars : (p ++ "_" ++ w).toList = p.toList ++ '_' :: w.toList := by
      rw [String.toList_append, String.toList_append, List.append_assoc]
      rfl
    rw [modelName, singularize, hchars, singular_behind]
    simp only [fieldName, String.toList_ofList]
    rw [joinSegments_append, String.ofList_append]
  refine ⟨hname, ?_⟩
  rw [hname, ← joinSegments_lastSingular_iff, modelName, singularize]
  simp only [fieldName, String.toList_ofList, ← String.ofList_append, String.ofList_inj,
    List.append_cancel_left_eq]

/-- The plurals of `person` and of `s` are not found behind another word, and the second is then
taken for an ending. -/
theorem compound_people :
    modelName "my_people" = "MyPeople" ∧ fieldName "my" ++ modelName "people" = "MyPerson" ∧
      modelName "x_s" = "X" ∧ fieldName "x" ++ modelName "s" = "XS" ∧
      modelName "book_categories" = fieldName "book" ++ modelName "categories" := by
  decide +kernel

end RowModel.Name
