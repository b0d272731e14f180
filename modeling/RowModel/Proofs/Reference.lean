import RowModel.Proofs.Acceptance
import Mathlib.Data.List.Basic

/-!
References to columns and their texts. The text of a reference does not tell a point between two
parts from a point in a part, so different references may have one text. But a text with two points
in all is that of one reference only, and these are the texts that are read, with the default schema
put in front where there is one point. Main result: `ColumnRef.parse_roundTrip`.
-/
namespace RowModel

open Text

namespace ColumnRef

def parts (r : ColumnRef) : List String := [r.schema, r.table, r.column]

def WellFormed (r : ColumnRef) : Prop := ∀ part ∈ r.parts, part ≠ "" ∧ '.' ∉ part.toList

structure IsReference (raw : String) : Prop where
  points : raw.toList.count '.' = 1 ∨ raw.toList.count '.' = 2
  parts : ∀ part ∈ splitOn '.' raw.toList, part ≠ []

/-- A reference with its schema, which is the default one where there is none. -/
def normalized (raw : String) : String :=
  if raw.toList.count '.' = 1 then defaultSchema ++ "." ++ raw else raw

variable {raw : String} {package : Option String} {r : ColumnRef}

theorem normalized_of_one (h : raw.toList.count '.' = 1) :
    normalized raw = defaultSchema ++ "." ++ raw := if_pos h

theorem normalized_of_two (h : raw.toList.count '.' = 2) : normalized raw = raw :=
  if_neg (by omega)

theorem toList_text (r : ColumnRef) :
    r.text.toList = r.schema.toList ++ '.' :: (r.table.toList ++ '.' :: r.column.toList) := by
  simp [text]

/-- Two points stand between the parts. -/
theorem count_text (r : ColumnRef) :
    r.text.toList.count '.' =
      r.schema.toList.count '.' + r.table.toList.count '.' + r.column.toList.count '.' + 2 := by
  rw [toList_text, List.count_append, List.count_cons_self, List.count_append,
    List.count_cons_self]
  omega

/-- A reference is written with two points exactly if its parts hold none. -/
theorem count_text_eq_two_iff :
    r.text.toList.count '.' = 2 ↔ ∀ part ∈ r.parts, '.' ∉ part.toList := by
  simp only [parts, List.mem_cons, List.not_mem_nil, or_false, forall_eq_or_imp, forall_eq,
    ← List.count_eq_zero]
  rw [count_text]
  omega

theorem splitOn_text (h : r.text.toList.count '.' = 2) :
    splitOn '.' r.text.toList = r.parts.map String.toList := by
  have hparts := count_text_eq_two_iff.mp h
  simp only [parts, List.mem_cons, List.not_mem_nil, or_false, forall_eq_or_imp,
    forall_eq] at hparts
  obtain ⟨hschema, htable, hcolumn⟩ := hparts
  rw [toList_text, splitOn_append_sep_cons, splitOn_append_sep_cons, splitOn_of_not_mem hschema,
    splitOn_of_not_mem htable, splitOn_of_not_mem hcolumn]
  rfl

theorem ofParts?_parts (r : ColumnRef) : ofParts? (r.parts.map String.toList) = some r := by
  simp [parts, ofParts?]

/-- Two or three parts make a reference, and there are as many as points and one more. -/
theorem exists_ofParts?_iff :
    (∃ ref, ofParts? (splitOn '.' raw.toList) = some ref) ↔
      raw.toList.count '.' = 1 ∨ raw.toList.count '.' = 2 := by
  have hlength := length_splitOn '.' raw.toList
  rw [ofParts?.eq_def]
  split
  · next t c hparts =>
    rw [hparts] at hlength
    simp_all
  · next s t c hparts =>
    rw [hparts] at hlength
    simp_all
  · next htwo hthree =>
    constructor
    · rintro ⟨ref, h⟩
      cases h
    · rintro (hone | hone)
      · obtain ⟨t, c, hparts⟩ := List.length_eq_two.mp (hlength.trans (by rw [hone]))
        exact absurd hparts (htwo t c)
      · obtain ⟨s, t, c, hparts⟩ := List.length_eq_three.mp (hlength.trans (by rw [hone]))
        exact absurd hparts (hthree s t c)

/-- The parts make a reference whose text has the points of the parts and those between them. -/
theorem text_of_ofParts? (h : ofParts? (splitOn '.' raw.toList) = some r) :
    r.text = normalized raw := by
  have hlength := length_splitOn '.' raw.toList
  have hraw := intercalate_splitOn '.' raw.toList
  rw [ofParts?.eq_def] at h
  split at h
  · next t c hparts =>
    cases h
    rw [hparts] at hlength hraw
    rw [normalized_of_one (by simpa using hlength.symm), ← String.toList_inj, toList_text]
    simp [← hraw]
  · next s t c hparts =>
    cases h
    rw [hparts] at hlength hraw
    rw [normalized_of_two (by simpa using hlength.symm), ← String.toList_inj, toList_text]
    simp [← hraw]
  · cases h

theorem splitOn_normalized (h : raw.toList.count '.' = 1) :
    splitOn '.' (normalized raw).toList = defaultSchema.toList :: splitOn '.' raw.toList := by
  have htext : (normalized raw).toList = defaultSchema.toList ++ '.' :: raw.toList := by
    simp [normalized_of_one h]
  rw [htext, splitOn_append_sep_cons, splitOn_of_not_mem (by decide), List.singleton_append]

theorem count_normalized (h : raw.toList.count '.' = 1 ∨ raw.toList.count '.' = 2) :
    (normalized raw).toList.count '.' = 2 := by
  rcases h with hone | htwo
  · have hlength := length_splitOn '.' (normalized raw).toList
    rw [splitOn_normalized hone, List.length_cons, length_splitOn, hone] at hlength
    omega
  · rwa [normalized_of_two htwo]

theorem IsReference.normalized (h : IsReference raw) : IsReference (normalized raw) := by
  refine ⟨.inr (count_normalized h.points), ?_⟩
  rcases h.points with hone | htwo
  · rw [splitOn_normalized hone, List.forall_mem_cons]
    exact ⟨by decide, h.parts⟩
  · rw [normalized_of_two htwo]
    exact h.parts

/-- The reference with a text that has two points is the one that its parts make. -/
theorem ofParts?_of_text (hpoints : raw.toList.count '.' = 1 ∨ raw.toList.count '.' = 2)
    (h : r.text = normalized raw) : ofParts? (splitOn '.' raw.toList) = some r := by
  have hcount : r.text.toList.count '.' = 2 := h ▸ count_normalized hpoints
  have hparts := splitOn_text hcount
  rcases hpoints with hone | htwo
  · rw [h, splitOn_normalized hone] at hparts
    obtain ⟨hschema, htail⟩ := List.cons.inj hparts
    rw [htail, ← ofParts?_parts r]
    simp [parts, ofParts?, String.toList_inj.mp hschema]
  · rw [h, normalized_of_two htwo] at hparts
    rw [hparts, ofParts?_parts]

/-- The parts of a text make a reference exactly if the text has one or two points, and then that of
its normalized form. -/
theorem ofParts?_eq_some_iff :
    ofParts? (splitOn '.' raw.toList) = some r ↔
      (raw.toList.count '.' = 1 ∨ raw.toList.count '.' = 2) ∧ r.text = normalized raw := by
  constructor
  · intro h
    exact ⟨exists_ofParts?_iff.mp ⟨r, h⟩, text_of_ofParts? h⟩
  · rintro ⟨hpoints, h⟩
    exact ofParts?_of_text hpoints h

theorem parse_eq_ok_iff_parts :
    parse raw package = .ok r ↔
      (∀ part ∈ splitOn '.' raw.toList, part ≠ []) ∧ ofParts? (splitOn '.' raw.toList) = some r := by
  have hparts : (∀ part ∈ splitOn '.' raw.toList, part ≠ []) ↔
      ¬ (splitOn '.' raw.toList).any List.isEmpty = true := by
    rw [Bool.not_eq_true, List.any_eq_false]
    simp only [List.isEmpty_iff, ne_eq]
  rw [hparts]
  simp only [parse]
  split
  · next h => simp [h]
  · next h => split <;> simp_all

/-- A reference is read from a text as the one reference with that text, its schema put in front. -/
theorem parse_eq_ok_iff :
    parse raw package = .ok r ↔ IsReference raw ∧ r.text = normalized raw := by
  rw [parse_eq_ok_iff_parts, ofParts?_eq_some_iff]
  constructor
  · rintro ⟨hparts, hpoints, htext⟩
    exact ⟨⟨hpoints, hparts⟩, htext⟩
  · rintro ⟨⟨hpoints, hparts⟩, htext⟩
    exact ⟨hparts, hpoints, htext⟩

/-- A text is accepted exactly if it has the shape of a reference. -/
theorem exists_parse_iff : (∃ ref, parse raw package = .ok ref) ↔ IsReference raw := by
  constructor
  · rintro ⟨ref, h⟩
    exact (parse_eq_ok_iff.mp h).1
  · intro h
    obtain ⟨ref, href⟩ := exists_ofParts?_iff.mpr h.points
    exact ⟨ref, parse_eq_ok_iff_parts.mpr ⟨h.parts, href⟩⟩

/-- Of all references the one that was read is told by its text. -/
theorem eq_iff_text {ref : ColumnRef} (h : parse raw package = .ok ref) (r : ColumnRef) :
    ref = r ↔ r.text = normalized raw := by
  obtain ⟨hraw, htext⟩ := parse_eq_ok_iff.mp h
  constructor
  · rintro rfl
    exact htext
  · intro hr
    exact Except.ok.inj (h.symm.trans (parse_eq_ok_iff.mpr ⟨hraw, hr⟩))

/-- The text of a reference is one with two points and without empty parts exactly if the parts of
the reference are those of the text. -/
theorem isReference_text_iff : IsReference r.text ↔ r.WellFormed := by
  constructor
  · rintro ⟨hpoints, hparts⟩
    have htwo : r.text.toList.count '.' = 2 := by
      have hcount := count_text r
      omega
    rw [splitOn_text htwo, List.forall_mem_map] at hparts
    intro part hpart
    exact ⟨by simpa using hparts part hpart, count_text_eq_two_iff.mp htwo part hpart⟩
  · intro h
    have htwo := count_text_eq_two_iff.mpr fun part hpart => (h part hpart).2
    refine ⟨.inr htwo, ?_⟩
    rw [splitOn_text htwo, List.forall_mem_map]
    intro part hpart
    simpa using (h part hpart).1

/-- A reference that was read has the parts of its own text. -/
theorem parse_wellFormed (h : parse raw package = .ok r) : r.WellFormed := by
  obtain ⟨hraw, htext⟩ := parse_eq_ok_iff.mp h
  rw [← isReference_text_iff, htext]
  exact hraw.normalized

/-- A reference comes back from its text exactly if it is well formed. -/
theorem parse_text_iff : parse r.text package = .ok r ↔ r.WellFormed := by
  rw [parse_eq_ok_iff, isReference_text_iff, and_iff_left_iff_imp]
  intro h
  exact (normalized_of_two (count_text_eq_two_iff.mpr fun part hpart => (h part hpart).2)).symm

variable [Machine]

/-- A rule for a column names exactly the columns with the text that its entry gives. -/
theorem names_iff_text {entry : Value} {rule : Rule} {ref : ColumnRef}
    (h : Rule.parse entry package = .ok rule) (hrule : rule.column? = some ref) :
    ∃ entries raw, entry = .map entries ∧ (Value.get "column" entries).text? = some raw ∧
      ∀ c : Column, rule.column? = some c.ref ↔ c.ref.text = normalized raw := by
  obtain ⟨entries, goType, ⟨rfl, -⟩, -, habout⟩ := Rule.parse_eq_ok_iff.mp h
  have hentry : ColumnEntry package entries ref := by
    cases rule with
    | type _ _ _ => cases hrule
    | column _ _ =>
      cases hrule
      cases habout with
      | column hentry _ => exact hentry
    | array _ _ =>
      cases hrule
      cases habout with
      | array hentry _ => exact hentry
  obtain ⟨raw, hwords, href⟩ := hentry.reference
  refine ⟨entries, raw, rfl, Value.text?_of_wording hwords, ?_⟩
  intro c
  rw [hrule, Option.some.injEq, eq_iff_text href]

/-- A text is read as a reference exactly if it has one or two points and no empty part, and the
reference is then the one with this text; so a rule for a column names the columns with this text.
The text of a reference is read as one, and then as that very reference, exactly if its parts are not
empty and hold no point. -/
theorem parse_roundTrip (raw : String) (package : Option String) :
    ((∃ ref, parse raw package = .ok ref) ↔ IsReference raw) ∧
    (∀ ref, parse raw package = .ok ref → ∀ r : ColumnRef, ref = r ↔ r.text = normalized raw) ∧
    (∀ entry rule ref, Rule.parse entry package = .ok rule → rule.column? = some ref →
      ∃ entries raw, entry = .map entries ∧ (Value.get "column" entries).text? = some raw ∧
        ∀ c : Column, rule.column? = some c.ref ↔ c.ref.text = normalized raw) ∧
    ∀ r : ColumnRef, ((∃ ref, parse r.text package = .ok ref) ↔ r.WellFormed) ∧
      (parse r.text package = .ok r ↔ r.WellFormed) := by
  refine ⟨exists_parse_iff, fun ref h => eq_iff_text h, ?_, ?_⟩
  · intro entry rule ref h hrule
    exact names_iff_text h hrule
  · intro r
    exact ⟨exists_parse_iff.trans isReference_text_iff, parse_text_iff⟩

/-- Two references with one text, which is that of neither of them when it is read. -/
example : (⟨"a.b", "c", "d"⟩ : ColumnRef).text = (⟨"a", "b.c", "d"⟩ : ColumnRef).text ∧
    parse "a.b.c.d" none = .error (.configuration (.malformedRef "a.b.c.d") none none) := by
  decide

end ColumnRef

end RowModel
