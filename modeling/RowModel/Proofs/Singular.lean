import RowModel.Name
import Mathlib.Data.List.Basic

/-!
What the singular of a word is. An irregular plural has a tabled one; a special ending leaves its
stem; a plain final `s` comes off; any other word stays. Main result: `hasSingular_singular`.
-/
namespace RowModel.Name

variable {w : List Char}

/-- A rule fits a word that has its ending behind enough other letters. -/
theorem PluralRule.fits_iff {r : PluralRule} :
    r.fits w = true ↔ (∃ v, v ++ r.ending.toList = w) ∧ r.moreThan < w.length := by
  rw [fits, Bool.and_eq_true, List.isSuffixOf_iff_suffix, decide_eq_true_eq]
  rfl

/-- What a rule has in place of the ending. -/
def PluralRule.stem (r : PluralRule) : List Char :=
  r.ending.toList.take (r.ending.length - r.cut) ++ r.tail.toList

theorem PluralRule.apply_append {r : PluralRule} (h : r.cut ≤ r.ending.length) (v : List Char) :
    r.apply (v ++ r.ending.toList) = v ++ r.stem := by
  have hlen : (v ++ r.ending.toList).length - r.cut = v.length + (r.ending.length - r.cut) := by
    rw [List.length_append, String.length_toList, Nat.add_sub_assoc h]
  rw [apply, hlen, List.take_length_add_append, List.append_assoc]
  rfl

theorem cut_le_ending : ∀ r ∈ pluralRules, r.cut ≤ r.ending.length := by decide

theorem length_lt_append {v x : List Char} (hv : v ≠ []) : x.length < (v ++ x).length := by
  have hpos := List.length_pos_iff.mpr hv
  rw [List.length_append]
  omega

theorem append_s_suffix_iff {x : List Char} : x ++ ['s'] <:+ w ++ ['s'] ↔ x <:+ w := by
  rw [List.suffix_append_inj_of_length_eq rfl, and_iff_left rfl]

/-- A final `s` counts when something else than an `s` comes before it. -/
theorem hasPlainS_iff : hasPlainS w = true ↔ ∃ v, v ≠ [] ∧ ¬ ['s'] <:+ v ∧ w = v ++ ['s'] := by
  have hdouble (v : List Char) :
      List.isSuffixOf ['s', 's'] (v ++ ['s']) = false ↔ ¬ ['s'] <:+ v := by
    rw [← Bool.not_eq_true, List.isSuffixOf_iff_suffix]
    exact not_congr (append_s_suffix_iff (x := ['s']))
  simp only [hasPlainS, Bool.and_eq_true, Bool.not_eq_true', decide_eq_true_eq,
    List.isSuffixOf_iff_suffix]
  constructor
  · rintro ⟨⟨⟨v, rfl⟩, hss⟩, hlen⟩
    refine ⟨v, ?_, (hdouble v).mp hss, rfl⟩
    rintro rfl
    simp at hlen
  · rintro ⟨v, hv, hs, rfl⟩
    exact ⟨⟨List.suffix_append v ['s'], (hdouble v).mpr hs⟩, length_lt_append (x := ['s']) hv⟩

/-- An irregular plural is tabled in lower case. -/
theorem mem_of_irregularSingular? {s : List Char} (h : irregularSingular? w = some s) :
    ∃ e ∈ irregularPlurals, e.1.toList = w.map Char.toLower ∧ s = e.2.toList := by
  obtain ⟨e, he, rfl⟩ := Option.map_eq_some_iff.mp h
  exact ⟨e, List.mem_of_find?_eq_some he, by simpa using List.find?_some he, rfl⟩

theorem irregularSingular?_eq_none_iff :
    irregularSingular? w = none ↔ ∀ e ∈ irregularPlurals, e.1.toList ≠ w.map Char.toLower := by
  simp [irregularSingular?]

/-- Where no special ending stands at the end, only a plain final `s` comes off. -/
theorem regularSingular_of_no_ending (h : ∀ r ∈ pluralRules, ¬ r.ending.toList <:+ w) :
    regularSingular w = if hasPlainS w then w.dropLast else w := by
  have hrules : pluralRules.find? (·.fits w) = none := by
    rw [List.find?_eq_none]
    intro r hr hfits
    exact h r hr (PluralRule.fits_iff.mp hfits).1
  simp only [regularSingular, hrules]

inductive HasSingular (w : List Char) : List Char → Prop
  | irregular {e : String × String} {s : List Char} (he : e ∈ irregularPlurals)
    (hplural : e.1.toList = w.map Char.toLower)
    (hs : s = capitalize e.2.toList ∨ s = e.2.toList) : HasSingular w s
  | ending {r : PluralRule} {v : List Char} (hr : r ∈ pluralRules)
    (hw : w = v ++ r.ending.toList) : HasSingular w (v ++ r.stem)
  | plainS {v : List Char} (hv : v ≠ []) (hs : ¬ ['s'] <:+ v) (hw : w = v ++ ['s']) :
    HasSingular w v
  | unchanged : HasSingular w w

/-- The singular of a word comes about in one of these ways. -/
theorem hasSingular_singular (w : List Char) : HasSingular w (singular w) := by
  rw [singular]
  split
  · next s hs =>
    obtain ⟨e, he, hplural, rfl⟩ := mem_of_irregularSingular? hs
    refine .irregular he hplural ?_
    split
    · exact .inl rfl
    · exact .inr rfl
  · rw [regularSingular]
    split
    · next r hr =>
      have hmem := List.mem_of_find?_eq_some hr
      have hfits : r.fits w = true := by simpa using List.find?_some hr
      obtain ⟨⟨v, rfl⟩, -⟩ := PluralRule.fits_iff.mp hfits
      rw [PluralRule.apply_append (cut_le_ending r hmem)]
      exact .ending hmem rfl
    · split
      · next hs =>
        obtain ⟨v, hv, hv', rfl⟩ := hasPlainS_iff.mp hs
        rw [List.dropLast_concat]
        exact .plainS hv hv' rfl
      · exact .unchanged

end RowModel.Name
