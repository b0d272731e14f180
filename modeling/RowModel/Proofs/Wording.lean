import RowModel.Override.Parse

/-!
Which values can be put into words. What a value holds decides it: its whole numbers, none of which may
be too long, and how many collections stand inside one another. Main results: `exists_quoting_iff`,
`exists_wording_iff`.
-/
namespace RowModel.Value

mutual

def wholes : Value → List Int
  | int n => [n]
  | list items | set items => itemWholes items
  | map entries => entryWholes entries
  | pair v w => wholes v ++ wholes w
  | _ => []

def itemWholes : List Value → List Int
  | [] => []
  | v :: r => wholes v ++ itemWholes r

def entryWholes : List (Value × Value) → List Int
  | [] => []
  | (k, v) :: r => wholes k ++ wholes v ++ entryWholes r

end

mutual

/-- How many collections stand inside one another. A set that is not empty counts for two, and a moment
for what writes its zone. -/
def depth : Value → Nat
  | moment t => t.zoneDepth
  | list items => if items.isEmpty then 0 else itemDepth items + 1
  | map entries => if entries.isEmpty then 0 else entryDepth entries + 1
  | set items => if items.isEmpty then 0 else itemDepth items + 2
  | pair v w => max (depth v) (depth w) + 1
  | _ => 0

def itemDepth : List Value → Nat
  | [] => 0
  | v :: r => max (depth v) (itemDepth r)

def entryDepth : List (Value × Value) → Nat
  | [] => 0
  | (k, v) :: r => max (max (depth k) (depth v)) (entryDepth r)

end

def IsShort (n : Int) : Prop := n.natAbs < Nat.pow 10 Text.digitLimit

theorem isSome_wholeText?_iff {n : Int} : (wholeText? n).isSome ↔ IsShort n := by
  rw [wholeText?, IsShort]
  split
  · next h => simpa using h
  · next h => simpa using h

variable [Machine]

mutual

/-- A value has a text exactly if its whole numbers have. -/
theorem isSome_inner?_iff (v : Value) : v.inner?.isSome ↔ ∀ n ∈ v.wholes, IsShort n := by
  match v with
  | int n => simp [inner?, wholes, isSome_wholeText?_iff]
  | list items =>
    rw [wholes, ← isSome_innerItems?_iff items, inner?]
    cases innerItems? items <;> simp
  | set [] => simp [inner?, wholes, itemWholes]
  | set (v :: r) =>
    rw [wholes, ← isSome_innerItems?_iff (v :: r), inner?]
    cases innerItems? (v :: r) <;> simp
  | map entries =>
    rw [wholes, ← isSome_innerEntries?_iff entries, inner?]
    cases innerEntries? entries <;> simp
  | pair v w =>
    rw [wholes, List.forall_mem_append, ← isSome_inner?_iff v, ← isSome_inner?_iff w, inner?]
    cases inner? v <;> cases inner? w <;> simp
  | null | bool _ | float _ | nan _ | str _ | bytes _ | date _ | moment _ => simp [inner?, wholes]

theorem isSome_innerItems?_iff (items : List Value) :
    (innerItems? items).isSome ↔ ∀ n ∈ itemWholes items, IsShort n := by
  match items with
  | [] => simp [innerItems?, itemWholes]
  | v :: r =>
    rw [itemWholes, List.forall_mem_append, ← isSome_inner?_iff v, ← isSome_innerItems?_iff r,
      innerItems?]
    cases inner? v <;> cases innerItems? r <;> simp

theorem isSome_innerEntries?_iff (entries : List (Value × Value)) :
    (innerEntries? entries).isSome ↔ ∀ n ∈ entryWholes entries, IsShort n := by
  match entries with
  | [] => simp [innerEntries?, entryWholes]
  | (k, v) :: r =>
    rw [entryWholes, List.forall_mem_append, List.forall_mem_append, ← isSome_inner?_iff k,
      ← isSome_inner?_iff v, ← isSome_innerEntries?_iff r, innerEntries?]
    cases inner? k <;> cases inner? v <;> cases innerEntries? r <;> simp

end

mutual

/-- A value whose whole numbers have a text is written as deep as it is. -/
theorem exceeds_iff (n : Nat) (v : Value) (h : ∀ k ∈ v.wholes, IsShort k) :
    v.exceeds n = true ↔ n < v.depth := by
  match v with
  | moment t => simp [exceeds, depth]
  | list [] | map [] | set [] => simp [exceeds, depth]
  | list (v :: r) =>
    have hitems := itemsExceed_iff (n - 1) (v :: r) h
    simp only [exceeds, depth, List.isEmpty_cons, Bool.not_false, Bool.true_and, Bool.or_eq_true,
      beq_iff_eq, hitems, Bool.false_eq_true, if_false]
    omega
  | map (e :: r) =>
    have hentries := entriesExceed_iff (n - 1) (e :: r) h
    simp only [exceeds, depth, List.isEmpty_cons, Bool.not_false, Bool.true_and, Bool.or_eq_true,
      beq_iff_eq, hentries, Bool.false_eq_true, if_false]
    omega
  | set (v :: r) =>
    have hitems := itemsExceed_iff (n - 2) (v :: r) h
    simp only [exceeds, depth, List.isEmpty_cons, Bool.not_false, Bool.true_and, Bool.or_eq_true,
      decide_eq_true_eq, hitems, Bool.false_eq_true, if_false]
    omega
  | pair v w =>
    obtain ⟨hv, hw⟩ := List.forall_mem_append.mp h
    simp only [exceeds, depth, Bool.or_eq_true, Bool.and_eq_true, beq_iff_eq,
      exceeds_iff (n - 1) v hv, (isSome_inner?_iff v).mpr hv, exceeds_iff (n - 1) w hw, true_and]
    omega
  | null | bool _ | int _ | float _ | nan _ | str _ | bytes _ | date _ => simp [exceeds, depth]

theorem itemsExceed_iff (n : Nat) (items : List Value) (h : ∀ k ∈ itemWholes items, IsShort k) :
    itemsExceed n items = true ↔ n < itemDepth items := by
  match items with
  | [] => simp [itemsExceed, itemDepth]
  | v :: r =>
    obtain ⟨hv, hr⟩ := List.forall_mem_append.mp h
    simp only [itemsExceed, itemDepth, Bool.or_eq_true, Bool.and_eq_true, exceeds_iff n v hv,
      (isSome_inner?_iff v).mpr hv, itemsExceed_iff n r hr, true_and]
    omega

theorem entriesExceed_iff (n : Nat) (entries : List (Value × Value))
    (h : ∀ k ∈ entryWholes entries, IsShort k) :
    entriesExceed n entries = true ↔ n < entryDepth entries := by
  match entries with
  | [] => simp [entriesExceed, entryDepth]
  | (k, v) :: r =>
    obtain ⟨hkv, hr⟩ := List.forall_mem_append.mp h
    obtain ⟨hk, hv⟩ := List.forall_mem_append.mp hkv
    simp only [entriesExceed, entryDepth, Bool.or_eq_true, Bool.and_eq_true, exceeds_iff n k hk,
      exceeds_iff n v hv, (isSome_inner?_iff k).mpr hk, (isSome_inner?_iff v).mpr hv,
      entriesExceed_iff n r hr, true_and]
    omega

end

variable {occasion : Occasion} {v : Value}

/-- A value can be put into words in a message exactly if its whole numbers are short and the machine
can follow its collections. -/
theorem exists_quoting_iff : (∃ s, v.quoting occasion = .ok s) ↔
    (∀ n ∈ v.wholes, IsShort n) ∧ v.depth ≤ Machine.wording occasion := by
  simp only [quoting, worded_eq_ok, exists_and_left, ← Option.isSome_iff_exists]
  rw [and_comm, isSome_inner?_iff]
  refine and_congr_right fun hshort => ?_
  rw [Bool.eq_false_iff, ne_eq, exceeds_iff _ v hshort, Nat.not_lt]

/-- A value as it stands can be put into words under the same conditions; moments always can. -/
theorem exists_wording_iff : (∃ s, v.wording occasion = .ok s) ↔
    (∃ t, v = .moment t) ∨ (∀ n ∈ v.wholes, IsShort n) ∧ v.depth ≤ Machine.wording occasion := by
  cases v with
  | str s => simp [wording, worded_eq_ok, wholes, depth]
  | date d => simp [wording, worded_eq_ok, text?, textExceeds, exceeds, wholes, depth]
  | moment t => simp [wording, worded_eq_ok, text?, textExceeds]
  | _ => exact (exists_quoting_iff (v := _)).trans (by simp)

end RowModel.Value
