import RowModel.Name
import Mathlib

/-!
Identifiers for enum labels. Reading a label character by character gives what the segments of a name
give, once the word separators are underscores and what cannot stand in an identifier is gone. What
comes out is made of ASCII letters and digits and begins with no small letter, and such a text stays
as it is. Main results: `enumConstant_eq_fieldName`, `enumConstant_fixed`.
-/
namespace RowModel.Name

open Text

/-- What becomes of a character of a label that is taken for a name. -/
def nameChar? (c : Char) : Option Char :=
  if c = '-' ∨ c = '_' ∨ c = ':' ∨ c = '/' then some '_'
  else if c.isAlphanum then some c else none

def ofLabel (label : String) : String := String.ofList (label.toList.filterMap nameChar?)

variable {c : Char} {s : List Char}

theorem contains_wordSeparators_iff :
    wordSeparators.contains c = true ↔ c = '-' ∨ c = '_' ∨ c = ':' ∨ c = '/' := by
  simp [wordSeparators]

theorem not_mem_wordSeparators (h : c.isAlphanum = true) : wordSeparators.contains c = false := by
  rw [Bool.eq_false_iff, ne_eq, contains_wordSeparators_iff]
  rintro (rfl | rfl | rfl | rfl) <;> exact absurd h (by decide)

theorem nameChar?_of_separator (h : wordSeparators.contains c = true) :
    nameChar? c = some '_' := if_pos (contains_wordSeparators_iff.mp h)

theorem nameChar?_of_not_separator (h : ¬ wordSeparators.contains c = true) :
    nameChar? c = if c.isAlphanum then some c else none :=
  if_neg (mt contains_wordSeparators_iff.mpr h)

theorem isAlphanum_iff : c.isAlphanum = true ↔
    (65 ≤ c.toNat ∧ c.toNat ≤ 90 ∨ 97 ≤ c.toNat ∧ c.toNat ≤ 122) ∨ 48 ≤ c.toNat ∧ c.toNat ≤ 57 := by
  simp only [Char.isAlphanum, Char.isAlpha, Char.isUpper, Char.isLower, Char.isDigit,
    Bool.or_eq_true, Bool.and_eq_true, decide_eq_true_eq, ge_iff_le, UInt32.le_iff_toNat_le]
  rfl

theorem upper_of_isAlphanum (h : c.isAlphanum = true) : upper c = [c.toUpper] := by
  apply upper_of_lt
  rw [isAlphanum_iff] at h
  omega

/-- A capital letter or digit is no small letter, and every letter or digit has one for its capital. -/
theorem capital_isAlphanum (h : c.isAlphanum = true) :
    c.toUpper.isAlphanum = true ∧ c.toUpper.isLower = false := by
  have hlt : c.toNat < 128 := by
    rw [isAlphanum_iff] at h
    omega
  exact of_toNat_lt (fun c => c.isAlphanum = true →
    c.toUpper.isAlphanum = true ∧ c.toUpper.isLower = false) (by decide) hlt h

theorem toUpper_of_not_isLower (h : c.isLower = false) : c.toUpper = c := by
  rw [Char.toUpper, dif_neg]
  simpa [Char.isLower] using h

/-- The induction runs over all states of the reader: a segment has its capital already unless the
next character kept is the first of it. -/
theorem labelChars_eq {first : List Char} {later : List (List Char)} (fresh : Bool)
    (h : splitOn '_' (s.filterMap nameChar?) = first :: later) :
    labelChars fresh s = (if fresh then capitalize first else first) ++ later.flatMap capitalize := by
  induction s generalizing fresh first later with
  | nil =>
    cases h
    cases fresh <;> rfl
  | cons c r ih =>
    obtain ⟨p, ps, hp⟩ := splitOn_eq_cons '_' (r.filterMap nameChar?)
    rw [labelChars]
    split
    · next hsep =>
      rw [List.filterMap_cons_some (nameChar?_of_separator hsep), splitOn_sep_cons, hp] at h
      cases h
      rw [ih true hp]
      cases fresh <;> rfl
    · next hsep =>
      have hname := nameChar?_of_not_separator hsep
      split
      · next hkept =>
        rw [if_pos hkept] at hname
        have hne : c ≠ '_' := by
          rintro rfl
          exact absurd hkept (by decide)
        rw [List.filterMap_cons_some hname, splitOn_cons_of_ne hne hp] at h
        cases h
        rw [ih false hp, capitalize_cons, upper_of_isAlphanum hkept]
        cases fresh <;> rfl
      · next hdropped =>
        rw [if_neg hdropped] at hname
        rw [List.filterMap_cons_none hname] at h
        exact ih fresh h

/-- To keep the letters of a label is to join the segments of the name made of it. -/
theorem labelChars_eq_joinSegments (s : List Char) :
    labelChars true s = joinSegments (s.filterMap nameChar?) := by
  obtain ⟨p, ps, hp⟩ := splitOn_eq_cons '_' (s.filterMap nameChar?)
  rw [labelChars_eq true hp, joinSegments, hp]
  rfl

theorem nameChar?_of_isAlphanum (h : c.isAlphanum = true) : nameChar? c = some c := by
  rw [nameChar?_of_not_separator (Bool.eq_false_iff.mp (not_mem_wordSeparators h)), if_pos h]

theorem filterMap_nameChar? (h : ∀ c ∈ s, c.isAlphanum = true ∨ c = '_') :
    s.filterMap nameChar? = s := by
  induction s with
  | nil => rfl
  | cons c r ih =>
    obtain ⟨hc, hr⟩ := List.forall_mem_cons.mp h
    have hname : nameChar? c = some c := by
      rcases hc with hc | rfl
      · exact nameChar?_of_isAlphanum hc
      · rfl
    rw [List.filterMap_cons_some hname, ih hr]

/-- The identifier for a label is that of the name which the label is taken for; a label of ASCII
letters, digits and underscores is taken for itself. -/
theorem enumConstant_eq_fieldName (label : String) :
    enumConstant label = fieldName (ofLabel label) ∧
      ((∀ c ∈ label.toList, c.isAlphanum = true ∨ c = '_') →
        enumConstant label = fieldName label) := by
  have h : enumConstant label = fieldName (ofLabel label) := by
    rw [enumConstant, fieldName, ofLabel, String.toList_ofList, labelChars_eq_joinSegments]
  exact ⟨h, fun hplain => by rw [h, ofLabel, filterMap_nameChar? hplain, String.ofList_toList]⟩

theorem enumConstant_eq_fieldName_user_id :
    (∀ c ∈ "_user__id_2".toList, c.isAlphanum = true ∨ c = '_') ∧
      enumConstant "_user__id_2" = fieldName "_user__id_2" ∧
      enumConstant "é-won't:fix" = fieldName (ofLabel "é-won't:fix") ∧
      ofLabel "é-won't:fix" = "_wont_fix" := by
  have hall : "_user__id_2".toList.all (fun c => c.isAlphanum || c == '_') = true := by decide
  have h : ∀ c ∈ "_user__id_2".toList, c.isAlphanum = true ∨ c = '_' := fun c hc => by
    simpa using List.all_eq_true.mp hall c hc
  exact ⟨h, (enumConstant_eq_fieldName _).2 h, (enumConstant_eq_fieldName _).1, by decide⟩

/-- A text of ASCII letters and digits that begins with no small letter. -/
def IsConstantName (x : String) : Prop :=
  (∀ c ∈ x.toList, c.isAlphanum = true) ∧ ∀ c ∈ x.toList.head?, c.isLower = false

theorem mem_labelChars {fresh : Bool} (h : c ∈ labelChars fresh s) : c.isAlphanum = true := by
  induction s generalizing fresh with
  | nil => cases h
  | cons d r ih =>
    rw [labelChars] at h
    split at h
    · exact ih h
    · split at h
      · next hkept =>
        rcases List.mem_cons.mp h with rfl | h
        · split
          · exact (capital_isAlphanum hkept).1
          · exact hkept
        · exact ih h
      · exact ih h

/-- Up to the first character kept the next one is to be a capital. -/
theorem head?_labelChars (h : c ∈ (labelChars true s).head?) : c.isLower = false := by
  induction s with
  | nil => cases h
  | cons d r ih =>
    rw [labelChars] at h
    split at h
    · exact ih h
    · split at h
      · next hkept =>
        cases h
        exact (capital_isAlphanum hkept).2
      · exact ih h

/-- Each identifier of a label is of the form that they have. -/
theorem isConstantName_enumConstant (label : String) : IsConstantName (enumConstant label) := by
  rw [IsConstantName, enumConstant, String.toList_ofList]
  exact ⟨fun _ => mem_labelChars, fun _ => head?_labelChars⟩

/-- Letters and digits inside a word are kept as they are. -/
theorem labelChars_of_isAlphanum (h : ∀ c ∈ s, c.isAlphanum = true) : labelChars false s = s := by
  induction s with
  | nil => rfl
  | cons c r ih =>
    obtain ⟨hc, hr⟩ := List.forall_mem_cons.mp h
    simp only [labelChars, not_mem_wordSeparators hc, hc, Bool.false_eq_true, if_false, if_true,
      ih hr]

/-- A text of that form is its own identifier. -/
theorem enumConstant_of_isConstantName {x : String} (h : IsConstantName x) :
    enumConstant x = x := by
  obtain ⟨hall, hhead⟩ := h
  rw [← String.toList_inj, enumConstant, String.toList_ofList]
  cases hx : x.toList with
  | nil => rfl
  | cons c r =>
    rw [hx] at hall hhead
    obtain ⟨hc, hr⟩ := List.forall_mem_cons.mp hall
    simp only [labelChars, not_mem_wordSeparators hc, hc, Bool.false_eq_true, if_false, if_true,
      labelChars_of_isAlphanum hr, toUpper_of_not_isLower (hhead c rfl)]

/-- No other text is. -/
theorem enumConstant_eq_self_iff {x : String} : enumConstant x = x ↔ IsConstantName x := by
  constructor
  · intro h
    rw [← h]
    exact isConstantName_enumConstant x
  · exact enumConstant_of_isConstantName

/-- The identifiers for labels are exactly the texts that are their own identifiers. -/
theorem enumConstant_fixed (x : String) :
    (enumConstant x = x ↔ IsConstantName x) ∧ IsConstantName (enumConstant x) ∧
      ((∃ label, enumConstant label = x) ↔ enumConstant x = x) ∧
      enumConstant (enumConstant x) = enumConstant x := by
  have hfixed (label : String) : enumConstant (enumConstant label) = enumConstant label :=
    enumConstant_of_isConstantName (isConstantName_enumConstant label)
  refine ⟨enumConstant_eq_self_iff, isConstantName_enumConstant x, ?_, hfixed x⟩
  constructor
  · rintro ⟨label, rfl⟩
    exact hfixed label
  · intro h
    exact ⟨x, h⟩

end RowModel.Name
