import RowModel.Proofs.Nameless

/-!
The identifier for a column or relation is composed of those of its segments. The first character
of a capital form is its own capital form, so an identifier holds no underscore and begins with
such a character, and a text like that is its own identifier. Main result: `fieldName_composes`.
-/
namespace RowModel

namespace Text

namespace CaseRun

/-- The run of one letter; only its place counts. -/
def single (n : Nat) : CaseRun := ⟨n, n, 1, 0⟩

def lowest (r : CaseRun) : Nat := ((r.first : Int) + r.shift).toNat

def highest (r : CaseRun) : Nat := ((r.last : Int) + r.shift).toNat

/-- The capitals of a run stand between the letters of another one, which are every other
character. -/
def fallsBetween (r s : CaseRun) : Bool :=
  decide (s.step = 2) && decide (r.step = 2 ∨ r.first = r.last) && decide (0 < s.first) &&
    decide (((r.first : Int) + r.shift - s.first) % 2 = 1)

/-- No capital of a run is a letter of another one. -/
def clears (r s : CaseRun) : Bool :=
  Nat.blt s.last r.lowest || (Nat.blt r.highest s.first || r.fallsBetween s)

theorem single_has_iff {n m : Nat} : (single n).has m = true ↔ m = n := by
  rw [single, has, Nat.mod_one]
  simp only [Bool.and_eq_true, decide_eq_true_eq, and_true]
  omega

theorem not_has_of_clears {r s : CaseRun} (h : r.clears s = true) {n : Nat}
    (hn : r.has n = true) : s.has ((n : Int) + r.shift).toNat = false := by
  simp only [has, Bool.and_eq_true, decide_eq_true_eq] at hn
  obtain ⟨⟨hfirst, hlast⟩, hstep⟩ := hn
  rw [← Bool.not_eq_true]
  simp only [has, Bool.and_eq_true, decide_eq_true_eq]
  rintro ⟨⟨hafter, hbefore⟩, hplace⟩
  simp only [clears, fallsBetween, lowest, highest, Bool.or_eq_true, Bool.and_eq_true, Nat.blt_eq,
    decide_eq_true_eq] at h
  rcases h with h | h | ⟨⟨⟨htwo, hr⟩, hpos⟩, hodd⟩
  · omega
  · omega
  · -- an even distance from the first letter of `s`, and an odd one by `hodd`
    rw [htwo] at hplace
    rcases hr with hr | hr
    · rw [hr] at hstep
      omega
    · omega

end CaseRun

def asciiRun : CaseRun := ⟨0x61, 0x7A, 1, -32⟩

/-- The letters whose capital form is another text: those of ASCII, those with a long form, and
the runs. -/
def letterRuns : List CaseRun :=
  asciiRun :: longCapitals.map (CaseRun.single ·.1) ++ caseRuns

/-- A code point that is none of these letters. -/
def IsCapital (n : Nat) : Prop := ∀ s ∈ letterRuns, s.has n = false

theorem isCapital_of_clears {r : CaseRun} (h : letterRuns.all (r.clears ·) = true) {n : Nat}
    (hn : r.has n = true) : IsCapital ((n : Int) + r.shift).toNat := fun s hs =>
  CaseRun.not_has_of_clears (List.all_eq_true.mp h s hs) hn

/-- No capital of a run is a letter of any run: the tables are gone through. -/
theorem clears_of_mem_caseRuns : ∀ r ∈ caseRuns, letterRuns.all (r.clears ·) = true := by
  decide +kernel

theorem clears_of_mem_longCapitals : ∀ e ∈ longCapitals,
    e.2.head?.all (fun n => letterRuns.all ((CaseRun.single n).clears ·)) = true := by
  decide +kernel

/-- The first character of a long capital form is a capital. -/
theorem isCapital_of_mem_longCapitals {e : Nat × List Nat} (he : e ∈ longCapitals) {n : Nat}
    (hn : n ∈ e.2.head?) : IsCapital n := by
  have hclears := clears_of_mem_longCapitals e he
  rw [Option.mem_def.mp hn] at hclears
  simpa [CaseRun.single] using isCapital_of_clears hclears (CaseRun.single_has_iff.mpr rfl)

variable {c : Char}

theorem IsCapital.toUpper_eq (h : IsCapital c.toNat) (hlt : c.toNat < 128) : c.toUpper = c := by
  have hsmall : asciiRun.has c.toNat = false := h asciiRun List.mem_cons_self
  exact of_toNat_lt (fun c => asciiRun.has c.toNat = false → c.toUpper = c) (by decide) hlt hsmall

theorem IsCapital.upper_eq (h : IsCapital c.toNat) : upper c = [c] := by
  have hcapital := hasCapital_upper c
  generalize upper c = s at hcapital ⊢
  cases hcapital with
  | ascii hlt => rw [h.toUpper_eq hlt]
  | long he =>
    have hmem : CaseRun.single c.toNat ∈ letterRuns :=
      List.mem_append_left _ (List.mem_cons_of_mem _ (List.mem_map_of_mem he))
    have hother := h _ hmem
    rw [CaseRun.single_has_iff.mpr rfl] at hother
    cases hother
  | run hr hhas =>
    rw [h _ (List.mem_append_right _ hr)] at hhas
    cases hhas
  | own => rfl

/-- A code point that no character has stands for NUL, which is no letter. -/
theorem IsCapital.upper_ofNat {n : Nat} (h : IsCapital n) :
    upper (Char.ofNat n) = [Char.ofNat n] := by
  by_cases hnul : (Char.ofNat n).toNat = 0
  · have hchar : Char.ofNat n = Char.ofNat 0 := by rw [← hnul, Char.ofNat_toNat]
    rw [hchar]
    rfl
  · apply IsCapital.upper_eq
    rw [← eq_toNat_of_ofNat_eq rfl hnul]
    exact h

theorem upper_toUpper (h : c.toNat < 128) : upper c.toUpper = [c.toUpper] :=
  of_toNat_lt (fun c => upper c.toUpper = [c.toUpper]) (by decide +kernel) h

/-- The first character of a capital form is its own capital form. -/
theorem exists_upper_eq_cons (c : Char) : ∃ d r, upper c = d :: r ∧ upper d = [d] := by
  have hcapital := hasCapital_upper c
  have hne := upper_ne_nil c
  generalize hs : upper c = s at hcapital hne ⊢
  cases hcapital with
  | ascii hlt => exact ⟨c.toUpper, [], rfl, upper_toUpper hlt⟩
  | @long cs he =>
    cases cs with
    | nil => exact absurd rfl hne
    | cons n ns =>
      exact ⟨Char.ofNat n, ns.map Char.ofNat, rfl,
        (isCapital_of_mem_longCapitals he rfl).upper_ofNat⟩
  | @run r hr hhas =>
    exact ⟨r.capital c.toNat, [], rfl,
      (isCapital_of_clears (clears_of_mem_caseRuns r hr) hhas).upper_ofNat⟩
  | own => exact ⟨c, [], rfl, hs⟩

end Text

namespace Name

open Text

/-- A text without underscores whose first character is its own capital form. -/
def IsFieldName (x : String) : Prop :=
  '_' ∉ x.toList ∧ ∀ c ∈ x.toList.head?, upper c = [c]

instance (x : String) : Decidable (IsFieldName x) := inferInstanceAs (Decidable (_ ∧ _))

variable {s : List Char}

/-- What begins an identifier begins the capital form of the first character kept. -/
theorem upper_of_mem_head? {c : Char} (h : c ∈ (joinSegments s).head?) : upper c = [c] := by
  induction s with
  | nil => cases h
  | cons d r ih =>
    by_cases hd : d = '_'
    · subst hd
      rw [joinSegments_underscore_cons] at h
      exact ih h
    · obtain ⟨t, ht⟩ := exists_joinSegments_cons hd r
      obtain ⟨e, es, he, hown⟩ := exists_upper_eq_cons d
      rw [ht, he] at h
      cases h
      exact hown

/-- A text without underscores that begins with a capital is one segment, as it stands. -/
theorem joinSegments_eq_self (hblank : '_' ∉ s) (hhead : ∀ c ∈ s.head?, upper c = [c]) :
    joinSegments s = s := by
  rw [joinSegments, splitOn_of_not_mem hblank, List.flatMap_singleton]
  cases s with
  | nil => rfl
  | cons c r =>
    rw [capitalize_cons, hhead c rfl]
    rfl

/-- Each identifier is of the form that identifiers have. -/
theorem isFieldName_fieldName (x : String) : IsFieldName (fieldName x) := by
  refine ⟨underscore_not_mem_fieldName x, ?_⟩
  rw [fieldName, String.toList_ofList]
  exact fun _ => upper_of_mem_head?

/-- A text of the form that identifiers have is its own identifier. -/
theorem fieldName_of_isFieldName {x : String} (h : IsFieldName x) : fieldName x = x := by
  rw [fieldName, joinSegments_eq_self h.1 h.2, String.ofList_toList]

/-- The identifiers are exactly the texts that are their own identifiers. -/
theorem fieldName_eq_self_iff {x : String} : fieldName x = x ↔ IsFieldName x := by
  constructor
  · intro h
    rw [← h]
    exact isFieldName_fieldName x
  · exact fieldName_of_isFieldName

/-- The identifier of a name of two parts is put together from those of the parts. -/
theorem fieldName_append (a b : String) :
    fieldName (a ++ "_" ++ b) = fieldName a ++ fieldName b := by
  have hchars : (a ++ "_" ++ b).toList = a.toList ++ '_' :: b.toList := by
    rw [String.toList_append, String.toList_append, List.append_assoc]
    rfl
  rw [fieldName, hchars, joinSegments_append, String.ofList_append]
  rfl

/-- Two names with an underscore in between have their identifiers one after the other; an
identifier has no underscore and is its own, and so is every text that reads like one. -/
theorem fieldName_composes (a b x : String) :
    fieldName (a ++ "_" ++ b) = fieldName a ++ fieldName b ∧
      '_' ∉ (fieldName x).toList ∧
      fieldName (fieldName x) = fieldName x ∧ (fieldName x = x ↔ IsFieldName x) :=
  ⟨fieldName_append a b, underscore_not_mem_fieldName x,
    fieldName_of_isFieldName (isFieldName_fieldName x), fieldName_eq_self_iff⟩

example : fieldName "ßa_ŉb__ǆ" = "SSaʼNbǄ" := by decide +kernel

end Name

end RowModel
