import RowModel.Proofs.RuleKey
import Mathlib.Data.List.Induction
import Mathlib.Data.List.Nodup
import Mathlib.Logic.Relation

/-!
Lists of rules that say the same. Only the first rule of each key counts, so a rule that an earlier
one hides may go or be repeated, and rules of different keys may change places. Two lists have the
same rules that count exactly if such edits lead from one to the other, and then no column has
another type, or another error, under one than under the other. Main result:
`sameFirsts_columnType`.
-/
namespace RowModel

/-- The same keys, and for each key the same first rule. -/
structure SameFirsts (rs₁ rs₂ : List Rule) : Prop where
  keys : ∀ k, k ∈ keysOf rs₁ ↔ k ∈ keysOf rs₂
  first : ∀ k ∈ keysOf rs₁, firstOf rs₁ k = firstOf rs₂ k

inductive Edit : List Rule → List Rule → Prop
  /-- A rule goes that has the key of an earlier one. -/
  | drop {before after : List Rule} {r : Rule} (hidden : r.key ∈ keysOf before) :
    Edit (before ++ r :: after) (before ++ after)
  /-- A rule is repeated later on. -/
  | again {before after : List Rule} {r : Rule} (earlier : r ∈ before) :
    Edit (before ++ after) (before ++ r :: after)
  /-- Two neighbours of different keys change places. -/
  | swap {before after : List Rule} {r s : Rule} (distinct : r.key ≠ s.key) :
    Edit (before ++ r :: s :: after) (before ++ s :: r :: after)

variable {rs₁ rs₂ : List Rule}

theorem sameFirsts_iff : SameFirsts rs₁ rs₂ ↔ firstOf rs₁ = firstOf rs₂ := by
  constructor
  · intro h
    funext k
    by_cases hk : k ∈ keysOf rs₁
    · exact h.first k hk
    · rw [firstOf_eq_none_iff.mpr hk, firstOf_eq_none_iff.mpr fun hk' => hk ((h.keys k).mpr hk')]
  · intro h
    refine ⟨fun k => ?_, fun k _ => congrFun h k⟩
    rw [← exists_firstOf_iff, ← exists_firstOf_iff, h]

/-- A rule that an earlier one hides can go. -/
theorem firstOf_drop {before after : List Rule} {r : Rule} (hidden : r.key ∈ keysOf before) :
    firstOf (before ++ r :: after) = firstOf (before ++ after) := by
  funext k
  rw [firstOf_append, firstOf_append, firstOf_cons]
  by_cases hk : r.key = k
  · obtain ⟨s, hs⟩ := exists_firstOf_iff.mpr (hk ▸ hidden)
    rw [hs, Option.some_or, Option.some_or]
  · rw [if_neg hk]

/-- Rules of different keys can change places. -/
theorem firstOf_swap {before after : List Rule} {r s : Rule} (distinct : r.key ≠ s.key) :
    firstOf (before ++ r :: s :: after) = firstOf (before ++ s :: r :: after) := by
  funext k
  rw [firstOf_append, firstOf_append]
  simp only [firstOf_cons]
  by_cases hr : r.key = k
  · have hs : s.key ≠ k := fun h => distinct (hr.trans h.symm)
    rw [if_pos hr, if_neg hs, if_pos hr]
  · rw [if_neg hr, if_neg hr]

theorem Edit.firstOf_eq (h : Edit rs₁ rs₂) : firstOf rs₁ = firstOf rs₂ := by
  cases h with
  | drop hidden => exact firstOf_drop hidden
  | again earlier => exact (firstOf_drop (List.mem_map_of_mem earlier)).symm
  | swap distinct => exact firstOf_swap distinct

abbrev Edited : List Rule → List Rule → Prop := Relation.EqvGen Edit

/-- Edits leave the first rule of each key. -/
theorem Edited.firstOf_eq (h : Edited rs₁ rs₂) : firstOf rs₁ = firstOf rs₂ := by
  induction h with
  | rel _ _ h => exact h.firstOf_eq
  | refl _ => rfl
  | symm _ _ _ ih => exact ih.symm
  | trans _ _ _ _ _ ih₁ ih₂ => exact ih₁.trans ih₂

theorem Edit.cons (h : Edit rs₁ rs₂) (r : Rule) : Edit (r :: rs₁) (r :: rs₂) := by
  cases h with
  | @drop before after s hidden =>
    exact @Edit.drop (r :: before) after s (List.mem_cons_of_mem _ hidden)
  | @again before after s earlier =>
    exact @Edit.again (r :: before) after s (List.mem_cons_of_mem _ earlier)
  | @swap before after s t distinct => exact @Edit.swap (r :: before) after s t distinct

theorem Edit.concat (h : Edit rs₁ rs₂) (r : Rule) : Edit (rs₁ ++ [r]) (rs₂ ++ [r]) := by
  cases h with
  | drop hidden =>
    rw [List.append_assoc, List.append_assoc]
    exact .drop hidden
  | again earlier =>
    rw [List.append_assoc, List.append_assoc]
    exact .again earlier
  | swap distinct =>
    rw [List.append_assoc, List.append_assoc]
    exact .swap distinct

theorem Edited.map {f : List Rule → List Rule} (hf : ∀ a b, Edit a b → Edit (f a) (f b))
    (h : Edited rs₁ rs₂) : Edited (f rs₁) (f rs₂) := by
  induction h with
  | rel _ _ h => exact .rel _ _ (hf _ _ h)
  | refl _ => exact .refl _
  | symm _ _ _ ih => exact .symm _ _ ih
  | trans _ _ _ _ _ ih₁ ih₂ => exact .trans _ _ _ ih₁ ih₂

/-- Rules of different keys may stand in any order. -/
theorem edited_of_perm (h : rs₁.Perm rs₂) (hd : (keysOf rs₁).Nodup) : Edited rs₁ rs₂ := by
  induction h with
  | nil => exact .refl _
  | cons r _ ih =>
    exact (ih (List.nodup_cons.mp hd).2).map fun _ _ h => h.cons r
  | swap r s rest =>
    have hne : s.key ≠ r.key := fun h => (List.nodup_cons.mp hd).1 (h ▸ List.mem_cons_self)
    exact .rel _ _ (@Edit.swap [] rest s r hne)
  | trans h₁ _ ih₁ ih₂ =>
    exact .trans _ _ _ (ih₁ hd) (ih₂ ((h₁.map Rule.key).nodup_iff.mp hd))

/-- Without the rules that do nothing, there is one rule for each key. -/
theorem exists_edited_nodup (rules : List Rule) : ∃ rs, Edited rules rs ∧ (keysOf rs).Nodup := by
  -- from the end, since it is the later rule of a key that goes
  induction rules using List.reverseRecOn with
  | nil => exact ⟨[], .refl _, List.nodup_nil⟩
  | append_singleton rest r ih =>
    obtain ⟨rs, hrs, hd⟩ := ih
    have hlast : Edited (rest ++ [r]) (rs ++ [r]) := hrs.map fun _ _ h => h.concat r
    by_cases hr : r.key ∈ keysOf rs
    · have hdrop : Edited (rs ++ [r]) (rs ++ []) := .rel _ _ (.drop hr)
      rw [List.append_nil] at hdrop
      exact ⟨rs, .trans _ _ _ hlast hdrop, hd⟩
    · refine ⟨rs ++ [r], hlast, ?_⟩
      rw [keysOf, List.map_append, List.nodup_append']
      exact ⟨hd, List.nodup_singleton _, by simpa [keysOf] using hr⟩

theorem mem_iff_firstOf (hd : (keysOf rs₁).Nodup) {r : Rule} :
    r ∈ rs₁ ↔ firstOf rs₁ r.key = some r := by
  constructor
  · intro hr
    obtain ⟨s, hs⟩ := exists_firstOf_iff.mpr (List.mem_map_of_mem (f := Rule.key) hr)
    have hkey : s.key = r.key := by simpa using List.find?_some hs
    rw [hs, List.inj_on_of_nodup_map hd (List.mem_of_find?_eq_some hs) hr hkey]
  · exact List.mem_of_find?_eq_some

/-- Lists with the same first rules can be edited into one another. -/
theorem edited_of_firstOf_eq (h : firstOf rs₁ = firstOf rs₂) : Edited rs₁ rs₂ := by
  -- with one rule for each key, the rules that count are all rules
  obtain ⟨ds₁, h₁, hd₁⟩ := exists_edited_nodup rs₁
  obtain ⟨ds₂, h₂, hd₂⟩ := exists_edited_nodup rs₂
  have hfirst : firstOf ds₁ = firstOf ds₂ := h₁.firstOf_eq.symm.trans (h.trans h₂.firstOf_eq)
  have hperm : ds₁.Perm ds₂ := by
    rw [List.perm_ext_iff_of_nodup (List.Nodup.of_map _ hd₁) (List.Nodup.of_map _ hd₂)]
    intro r
    rw [mem_iff_firstOf hd₁, mem_iff_firstOf hd₂, hfirst]
  exact .trans _ _ _ (.trans _ _ _ h₁ (edited_of_perm hperm hd₁)) (.symm _ _ h₂)

/-- Two lists have the same firsts exactly if edits lead from one to the other. -/
theorem sameFirsts_iff_edited : SameFirsts rs₁ rs₂ ↔ Edited rs₁ rs₂ :=
  sameFirsts_iff.trans ⟨edited_of_firstOf_eq, Edited.firstOf_eq⟩

/-- A choice of keys takes nothing from the rules of the chosen ones. -/
theorem firstOf_filter (test : RuleKey → Bool) (rules : List Rule) (k : RuleKey) :
    firstOf (rules.filter fun r => test r.key) k = if test k then firstOf rules k else none := by
  induction rules with
  | nil => simp [firstOf]
  | cons r rest ih =>
    by_cases hr : r.key = k
    · subst k
      cases ht : test r.key with
      | true => simp [ht, firstOf_cons]
      | false => simpa [ht] using ih
    · cases ht : test r.key with
      | true => simp [ht, firstOf_cons, hr, ih]
      | false => simp [ht, firstOf_cons, hr, ih]

def broughtFirst (test : RuleKey → Bool) (rules : List Rule) : List Rule :=
  rules.filter (fun r => test r.key) ++ rules.filter fun r => !test r.key

/-- Rules of some keys may be brought in front of all others. -/
theorem firstOf_broughtFirst (test : RuleKey → Bool) (rules : List Rule) :
    firstOf (broughtFirst test rules) = firstOf rules := by
  funext k
  rw [broughtFirst, firstOf_append, firstOf_filter, firstOf_filter fun k => !test k]
  cases test k <;> simp

/-- Lists with the same first rules give each column the same type or the same error. Two lists are
of this kind exactly if edits lead from one to the other; and in each list the rules of some keys,
such as those for SQL types, may stand before or after all others. -/
theorem sameFirsts_columnType :
    (∀ rs₁ rs₂ : List Rule, SameFirsts rs₁ rs₂ → ∀ c enumTypes package,
      columnType c rs₁ enumTypes package = columnType c rs₂ enumTypes package) ∧
    (∀ rs₁ rs₂ : List Rule, SameFirsts rs₁ rs₂ ↔ Edited rs₁ rs₂) ∧
    ∀ (test : RuleKey → Bool) (rules : List Rule), SameFirsts rules (broughtFirst test rules) := by
  refine ⟨?_, fun rs₁ rs₂ => sameFirsts_iff_edited, ?_⟩
  · intro rs₁ rs₂ h c enumTypes package
    rw [columnType_eq_typeFrom, columnType_eq_typeFrom, sameFirsts_iff.mp h]
  · intro test rules
    exact sameFirsts_iff.mpr (firstOf_broughtFirst test rules).symm

/-- Two rules for one SQL type, the second hidden, with a rule for an array in between. -/
def mingledRules : List Rule :=
  [.type "text" true ⟨"a.com/p", "p.Text"⟩, .array mistakenColumn.ref ⟨"a.com/p", "p.List"⟩,
    .type "text" true ⟨"b.com/q", "q.Text"⟩]

def sortedRules : List Rule :=
  [.array mistakenColumn.ref ⟨"a.com/p", "p.List"⟩, .type "text" true ⟨"a.com/p", "p.Text"⟩]

theorem edited_mingledRules : Edited mingledRules sortedRules := by
  have hswap : Edit mingledRules (sortedRules ++ [.type "text" true ⟨"b.com/q", "q.Text"⟩]) :=
    @Edit.swap [] _ _ _ (by decide)
  have hdrop : Edit (sortedRules ++ [.type "text" true ⟨"b.com/q", "q.Text"⟩])
      (sortedRules ++ []) := .drop (by decide)
  exact .trans _ _ _ (.rel _ _ hswap) (.rel _ _ hdrop)

theorem sameFirsts_columnType_mingledRules :
    SameFirsts mingledRules sortedRules ∧
      columnType mistakenColumn mingledRules [] (some "db") =
        columnType mistakenColumn sortedRules [] (some "db") ∧
      columnType mistakenColumn sortedRules [] (some "db") =
        .error
          (.configuration (.arrayOverScalar mistakenColumn.ref) (some "db") (some "p.List")) := by
  obtain ⟨hequal, hedited, -⟩ := sameFirsts_columnType
  have hsame := (hedited _ _).mpr edited_mingledRules
  exact ⟨hsame, hequal _ _ hsame mistakenColumn [] (some "db"), rfl⟩

end RowModel
