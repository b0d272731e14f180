import RowModel.Name

/-!
Identifiers for columns, relations and enums hold no underscore and no point of their own: segments
are cut at underscores, and no other character has an underscore or a point in its capital form.
-/
namespace RowModel

namespace Text

/-- A code point that gives a character other than NUL is that character's own. -/
theorem eq_toNat_of_ofNat_eq {n : Nat} {c : Char} (h : Char.ofNat n = c) (hc : c.toNat ≠ 0) :
    n = c.toNat := by
  by_cases hv : n.isValidChar
  · rw [← h, Char.ofNat, dif_pos hv]
    rfl
  · rw [Char.ofNat, dif_neg hv] at h
    exact absurd (h ▸ rfl) hc

/-- The capitals of a run stay on one side of a character. -/
def CaseRun.Misses (x : Char) (r : CaseRun) : Prop :=
  (r.last : Int) + r.shift < x.toNat ∨ (x.toNat : Int) < r.first + r.shift

instance (x : Char) (r : CaseRun) : Decidable (r.Misses x) :=
  inferInstanceAs (Decidable (_ ∨ _))

/-- No other character has this one in its capital form, whichever table gives that form. -/
structure IsNoCapital (x : Char) : Prop where
  not_nul : x.toNat ≠ 0
  ascii : ∀ n < 128, Char.ofNat n ≠ x → (Char.ofNat n).toUpper ≠ x
  runs : ∀ r ∈ caseRuns, r.Misses x
  long : ∀ e ∈ longCapitals, x ∉ e.2.map Char.ofNat

theorem underscore_isNoCapital : IsNoCapital '_' where
  not_nul := by decide
  ascii := by decide
  runs := by decide +kernel
  long := by decide +kernel

theorem point_isNoCapital : IsNoCapital '.' where
  not_nul := by decide
  ascii := by decide
  runs := by decide +kernel
  long := by decide +kernel

variable {x c : Char}

theorem CaseRun.capital_ne {r : CaseRun} (hx : x.toNat ≠ 0) (hr : r.Misses x) {n : Nat}
    (h : r.has n = true) : r.capital n ≠ x := by
  intro he
  have hn := eq_toNat_of_ofNat_eq he hx
  simp only [has, Bool.and_eq_true, decide_eq_true_eq] at h
  obtain ⟨⟨hfirst, hlast⟩, -⟩ := h
  rcases hr with hr | hr <;> omega

/-- A character that is no capital of another one appears in no other capital form. -/
theorem IsNoCapital.not_mem_upper (hx : IsNoCapital x) (h : c ≠ x) : x ∉ upper c := by
  have hcapital := hasCapital_upper c
  generalize upper c = s at hcapital ⊢
  cases hcapital with
  | ascii hlt =>
    have hne := of_toNat_lt (fun c => c ≠ x → c.toUpper ≠ x) hx.ascii hlt h
    simpa using hne.symm
  | long he => exact hx.long _ he
  | run hr hhas => simpa using (CaseRun.capital_ne hx.not_nul (hx.runs _ hr) hhas).symm
  | own => simpa using h.symm

end Text

namespace Name

open Text

variable {x : Char}

theorem not_mem_capitalize (hx : IsNoCapital x) {s : List Char} (h : x ∉ s) :
    x ∉ capitalize s := by
  cases s with
  | nil => simp
  | cons c r =>
    rw [List.mem_cons, not_or] at h
    rw [capitalize_cons, List.mem_append, not_or]
    exact ⟨hx.not_mem_upper (Ne.symm h.1), h.2⟩

/-- A character is in an identifier only if it is in one of the segments. -/
theorem not_mem_joinSegments (hx : IsNoCapital x) {s : List Char}
    (h : ∀ p ∈ splitOn '_' s, x ∉ p) : x ∉ joinSegments s := by
  intro hmem
  obtain ⟨p, hp, hcap⟩ := List.mem_flatMap.mp hmem
  exact not_mem_capitalize hx (h p hp) hcap

theorem underscore_not_mem_joinSegments (s : List Char) : '_' ∉ joinSegments s :=
  not_mem_joinSegments underscore_isNoCapital fun _ hp => sep_not_mem_of_mem_splitOn hp

/-- No identifier holds an underscore. -/
theorem underscore_not_mem_fieldName (s : String) : '_' ∉ (fieldName s).toList := by
  rw [fieldName, String.toList_ofList]
  exact underscore_not_mem_joinSegments s.toList

/-- The type name of an enum holds no point: what stands before the last one is left out. -/
theorem point_not_mem_enumTypeName (name : String) : '.' ∉ (enumTypeName name).toList := by
  rw [enumTypeName, String.toList_ofList]
  apply not_mem_joinSegments point_isNoCapital
  intro p hp hmem
  exact sep_not_mem_afterLast '.' name.toList (mem_of_mem_splitOn hp hmem)

end Name

end RowModel
