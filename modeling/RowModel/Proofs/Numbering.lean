import RowModel.Struct

/-!
Numbering tells texts apart. The number stands behind the last underscore, so a numbered text gives
back both its parts. A text that is not numbered can look like a numbered one, but not if it holds
no underscore at all.
-/
namespace RowModel

open Text

/-- Different numbers have different digits. -/
theorem toDigits_injective {m n : Nat} (h : Nat.toDigits 10 m = Nat.toDigits 10 n) : m = n := by
  rw [← Nat.ofDigitChars_ten_toDigits (n := m), h, Nat.ofDigitChars_ten_toDigits]

@[simp] theorem numbered_zero (s : String) : numbered s 0 = s := rfl

theorem toList_numbered {k : Nat} (hk : k ≠ 0) (s : String) :
    (numbered s k).toList = s.toList ++ '_' :: Nat.toDigits 10 (k + 1) := by
  simp [numbered, hk, Nat.toString_eq_repr]

/-- The last underscore of a numbered text stands between the text and its number. -/
theorem cutLast_numbered {k : Nat} (hk : k ≠ 0) (s : String) :
    cutLast '_' (numbered s k).toList = some (s.toList, Nat.toDigits 10 (k + 1)) := by
  rw [toList_numbered hk]
  exact cutLast_append_sep_cons Nat.underscore_not_in_toDigits s.toList

theorem underscore_mem_numbered {k : Nat} (hk : k ≠ 0) (s : String) :
    '_' ∈ (numbered s k).toList := by
  simp [toList_numbered hk]

/-- Two numbered texts are equal only if their texts and their numbers are. -/
theorem numbered_inj {k l : Nat} (hk : k ≠ 0) (hl : l ≠ 0) {a b : String}
    (h : numbered a k = numbered b l) : a = b ∧ k = l := by
  have hcut := cutLast_numbered hk a
  rw [h, cutLast_numbered hl b, Option.some.injEq, Prod.mk.injEq] at hcut
  have hab : a = b := String.toList_inj.mp hcut.1.symm
  have hkl := toDigits_injective hcut.2
  exact ⟨hab, by omega⟩

/-- Texts without an underscore are told apart by numbering whether they are numbered or not. -/
theorem numbered_inj_of_no_underscore {a b : String} (ha : '_' ∉ a.toList) (hb : '_' ∉ b.toList)
    {k l : Nat} (h : numbered a k = numbered b l) : a = b ∧ k = l := by
  by_cases hk : k = 0
  · by_cases hl : l = 0
    · subst hk hl
      exact ⟨h, rfl⟩
    · subst hk
      rw [numbered_zero] at h
      exact absurd (h ▸ underscore_mem_numbered hl b) ha
  · by_cases hl : l = 0
    · subst hl
      rw [numbered_zero] at h
      exact absurd (h ▸ underscore_mem_numbered hk a) hb
    · exact numbered_inj hk hl h

end RowModel
