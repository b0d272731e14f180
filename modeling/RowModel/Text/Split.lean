/-!
Cutting a text at a separator: at every occurrence, at the first one, at the last one.
What was cut can be put together again, and no piece holds the separator.
-/
namespace RowModel.Text

/-- The pieces between the separators; a text without a separator is one piece. -/
def splitOn (sep : Char) : List Char → List (List Char)
  | [] => [[]]
  | c :: r =>
    if c = sep then [] :: splitOn sep r
    else match splitOn sep r with
      | [] => [[c]]
      | p :: ps => (c :: p) :: ps

@[simp] theorem splitOn_nil (sep : Char) : splitOn sep [] = [[]] := rfl

@[simp] theorem splitOn_sep_cons (sep : Char) (r : List Char) :
    splitOn sep (sep :: r) = [] :: splitOn sep r := by simp [splitOn]

/-- There is always a first piece. -/
theorem splitOn_eq_cons (sep : Char) (s : List Char) : ∃ p ps, splitOn sep s = p :: ps := by
  cases s with
  | nil => exact ⟨[], [], rfl⟩
  | cons c r => rw [splitOn]; split <;> (try split) <;> exact ⟨_, _, rfl⟩

theorem splitOn_cons_of_ne {sep c : Char} (h : c ≠ sep) {r p : List Char} {ps : List (List Char)}
    (hr : splitOn sep r = p :: ps) : splitOn sep (c :: r) = (c :: p) :: ps := by
  simp [splitOn, h, hr]

/-- A separator parts the pieces of what stands before it from the pieces of what follows. -/
theorem splitOn_append_sep_cons (sep : Char) (a b : List Char) :
    splitOn sep (a ++ sep :: b) = splitOn sep a ++ splitOn sep b := by
  induction a with
  | nil => simp
  | cons c r ih =>
    by_cases h : c = sep
    · subst h; simp [ih]
    · obtain ⟨p, ps, hp⟩ := splitOn_eq_cons sep r
      rw [hp] at ih
      rw [List.cons_append, splitOn_cons_of_ne h ih, splitOn_cons_of_ne h hp]
      rfl

/-- No piece holds the separator. -/
theorem sep_not_mem_of_mem_splitOn {sep : Char} {s p : List Char} (h : p ∈ splitOn sep s) :
    sep ∉ p := by
  induction s generalizing p with
  | nil => simp_all
  | cons c r ih =>
    by_cases hc : c = sep
    · subst c
      rw [splitOn_sep_cons, List.mem_cons] at h
      rcases h with rfl | h
      · simp
      · exact ih h
    · obtain ⟨q, qs, hq⟩ := splitOn_eq_cons sep r
      rw [splitOn_cons_of_ne hc hq, List.mem_cons] at h
      rcases h with rfl | h
      · have hr : sep ∉ q := ih (by rw [hq]; exact List.mem_cons_self)
        simp [hr, Ne.symm hc]
      · exact ih (by rw [hq]; exact List.mem_cons_of_mem q h)

/-- The characters of a piece are characters of the text. -/
theorem mem_of_mem_splitOn {sep : Char} {s p : List Char} (h : p ∈ splitOn sep s) {c : Char}
    (hc : c ∈ p) : c ∈ s := by
  induction s generalizing p with
  | nil =>
    rw [splitOn_nil, List.mem_singleton] at h
    rwa [h] at hc
  | cons d r ih =>
    by_cases hd : d = sep
    · subst d
      rw [splitOn_sep_cons, List.mem_cons] at h
      rcases h with rfl | h
      · cases hc
      · exact List.mem_cons_of_mem sep (ih h hc)
    · obtain ⟨q, qs, hq⟩ := splitOn_eq_cons sep r
      rw [hq] at ih
      rw [splitOn_cons_of_ne hd hq, List.mem_cons] at h
      rcases h with rfl | h
      · rcases List.mem_cons.1 hc with rfl | hc
        · exact List.mem_cons_self
        · exact List.mem_cons_of_mem d (ih List.mem_cons_self hc)
      · exact List.mem_cons_of_mem d (ih (List.mem_cons_of_mem q h) hc)

/-- A text without the separator is one piece. -/
theorem splitOn_of_not_mem {sep : Char} {s : List Char} (h : sep ∉ s) : splitOn sep s = [s] := by
  induction s with
  | nil => rfl
  | cons c r ih =>
    rw [List.mem_cons, not_or] at h
    exact splitOn_cons_of_ne (Ne.symm h.1) (ih h.2)

/-- There is one piece more than there are separators. -/
theorem length_splitOn (sep : Char) (s : List Char) :
    (splitOn sep s).length = s.count sep + 1 := by
  induction s with
  | nil => rfl
  | cons c r ih =>
    by_cases hc : c = sep
    · subst hc
      rw [splitOn_sep_cons, List.length_cons, ih, List.count_cons_self]
    · obtain ⟨p, ps, hp⟩ := splitOn_eq_cons sep r
      rw [splitOn_cons_of_ne hc hp, List.count_cons_of_ne hc, ← ih, hp]
      rfl

/-- The pieces with the separator between them are the text. -/
theorem intercalate_splitOn (sep : Char) (s : List Char) :
    List.intercalate [sep] (splitOn sep s) = s := by
  induction s with
  | nil => rfl
  | cons c r ih =>
    obtain ⟨p, ps, hp⟩ := splitOn_eq_cons sep r
    rw [hp] at ih
    by_cases hc : c = sep
    · subst hc
      rw [splitOn_sep_cons, hp, List.intercalate_cons_cons, ih]
      rfl
    · rw [splitOn_cons_of_ne hc hp]
      cases ps with
      | nil => simpa using ih
      | cons q qs => simpa using ih

def cutFirst (sep : Char) : List Char → Option (List Char × List Char)
  | [] => none
  | c :: r =>
    if c = sep then some ([], r) else (cutFirst sep r).map fun (a, b) => (c :: a, b)

def cutLast (sep : Char) : List Char → Option (List Char × List Char)
  | [] => none
  | c :: r =>
    match cutLast sep r with
    | some (a, b) => some (c :: a, b)
    | none => if c = sep then some ([], r) else none

theorem cutFirst_eq_none_iff {sep : Char} {s : List Char} : cutFirst sep s = none ↔ sep ∉ s := by
  induction s with
  | nil => simp [cutFirst]
  | cons c r ih =>
    by_cases h : c = sep
    · simp [cutFirst, h]
    · simp [cutFirst, h, Ne.symm h, ih]

theorem cutLast_eq_none_iff {sep : Char} {s : List Char} : cutLast sep s = none ↔ sep ∉ s := by
  induction s with
  | nil => simp [cutLast]
  | cons c r ih =>
    cases hr : cutLast sep r with
    | none =>
      have := ih.1 hr
      by_cases h : c = sep
      · simp [cutLast, hr, h]
      · simp [cutLast, hr, h, Ne.symm h, this]
    | some p =>
      have : sep ∈ r := Decidable.byContradiction fun hn => by simp [ih.2 hn] at hr
      simp [cutLast, hr, this]

/-- A text is cut at a separator when none comes before it. -/
theorem cutFirst_append_sep_cons {sep : Char} {a : List Char} (h : sep ∉ a) (b : List Char) :
    cutFirst sep (a ++ sep :: b) = some (a, b) := by
  induction a with
  | nil => simp [cutFirst]
  | cons c r ih =>
    rw [List.mem_cons, not_or] at h
    simp [cutFirst, Ne.symm h.1, ih h.2]

/-- A text is cut at the first separator exactly when none comes before it. -/
theorem cutFirst_eq_some_iff {sep : Char} {s a b : List Char} :
    cutFirst sep s = some (a, b) ↔ s = a ++ sep :: b ∧ sep ∉ a := by
  constructor
  · intro h
    induction s generalizing a with
    | nil => simp [cutFirst] at h
    | cons c r ih =>
      rw [cutFirst] at h
      split at h
      · next hc =>
        cases h
        exact ⟨by rw [hc]; rfl, List.not_mem_nil⟩
      · next hc =>
        obtain ⟨⟨a', b'⟩, hr, hcut⟩ := Option.map_eq_some_iff.1 h
        cases hcut
        obtain ⟨rfl, ha⟩ := ih hr
        exact ⟨rfl, List.not_mem_cons_of_ne_of_not_mem (Ne.symm hc) ha⟩
  · rintro ⟨rfl, ha⟩
    exact cutFirst_append_sep_cons ha b

/-- A text is cut at a separator when none follows. -/
theorem cutLast_append_sep_cons {sep : Char} {b : List Char} (h : sep ∉ b) (a : List Char) :
    cutLast sep (a ++ sep :: b) = some (a, b) := by
  induction a with
  | nil => simp [cutLast, cutLast_eq_none_iff.2 h]
  | cons c r ih => simp [cutLast, ih]

/-- A text is cut at the last separator exactly when none follows. -/
theorem cutLast_eq_some_iff {sep : Char} {s a b : List Char} :
    cutLast sep s = some (a, b) ↔ s = a ++ sep :: b ∧ sep ∉ b := by
  constructor
  · intro h
    induction s generalizing a with
    | nil => simp [cutLast] at h
    | cons c r ih =>
      rw [cutLast] at h
      split at h
      · next a' b' hr =>
        cases h
        obtain ⟨rfl, hb⟩ := ih hr
        exact ⟨rfl, hb⟩
      · next hr =>
        split at h
        · next hc =>
          cases h
          exact ⟨by rw [hc]; rfl, cutLast_eq_none_iff.1 hr⟩
        · cases h
  · rintro ⟨rfl, hb⟩
    exact cutLast_append_sep_cons hb a

/-- What follows the last separator, or the whole text when there is none. -/
def afterLast (sep : Char) (s : List Char) : List Char :=
  match cutLast sep s with
  | some (_, b) => b
  | none => s

theorem sep_not_mem_afterLast (sep : Char) (s : List Char) : sep ∉ afterLast sep s := by
  rw [afterLast]
  split
  · next h => exact (cutLast_eq_some_iff.1 h).2
  · next h => exact cutLast_eq_none_iff.1 h

/-- What follows the last separator has all of the text before it that ends there. -/
theorem afterLast_append {sep : Char} {a b : List Char} (ha : a = [] ∨ [sep] <:+ a)
    (hb : sep ∉ b) : afterLast sep (a ++ b) = b := by
  rcases ha with rfl | ⟨c, rfl⟩
  · rw [List.nil_append, afterLast, cutLast_eq_none_iff.2 hb]
  · rw [List.append_assoc, afterLast, List.singleton_append, cutLast_append_sep_cons hb]

/-- What follows the last separator stands at the end. -/
theorem exists_append_afterLast (sep : Char) (s : List Char) :
    ∃ a, (a = [] ∨ [sep] <:+ a) ∧ s = a ++ afterLast sep s := by
  rw [afterLast]
  split
  · next a b h =>
    refine ⟨a ++ [sep], .inr (List.suffix_append a [sep]), ?_⟩
    rw [(cutLast_eq_some_iff.1 h).1, List.append_assoc, List.singleton_append]
  · exact ⟨[], .inl rfl, rfl⟩

/-- What stands before the first separator, or the whole text when there is none. -/
def beforeFirst (sep : Char) (s : List Char) : List Char := s.takeWhile (· ≠ sep)

/-- The text without `p` where it begins with `p`. -/
def dropStart (p s : List Char) : List Char := if p.isPrefixOf s then s.drop p.length else s

/-- The text without `p` where it ends with `p`. -/
def dropEnd (p s : List Char) : List Char :=
  if p.isSuffixOf s then s.take (s.length - p.length) else s

theorem dropStart_eq_iff {p s r : List Char} :
    dropStart p s = r ↔ s = p ++ r ∨ ¬ p <+: s ∧ s = r := by
  rw [dropStart]
  split
  · next h =>
    obtain ⟨t, rfl⟩ := List.isPrefixOf_iff_prefix.1 h
    simp
  · next h =>
    rw [List.isPrefixOf_iff_prefix] at h
    constructor
    · exact fun hr => .inr ⟨h, hr⟩
    · rintro (hr | ⟨-, hr⟩)
      · exact absurd ⟨r, hr.symm⟩ h
      · exact hr

theorem dropEnd_eq_iff {p s r : List Char} :
    dropEnd p s = r ↔ s = r ++ p ∨ ¬ p <:+ s ∧ s = r := by
  rw [dropEnd]
  split
  · next h =>
    obtain ⟨t, rfl⟩ := List.isSuffixOf_iff_suffix.1 h
    simp
  · next h =>
    rw [List.isSuffixOf_iff_suffix] at h
    constructor
    · exact fun hr => .inr ⟨h, hr⟩
    · rintro (hr | ⟨-, hr⟩)
      · exact absurd ⟨r, hr.symm⟩ h
      · exact hr

end RowModel.Text
