/-!
Tables of values by names. A name has one place in a table, and the value that was put there last
counts.
-/
namespace RowModel

/-- Values by names, in the order in which the names came. -/
abbrev Table (α : Type) := List (String × α)

namespace Table

variable {α : Type}

/-- The table with `v` under `k`. A name that is there already keeps its place. -/
def put (k : String) (v : α) : Table α → Table α
  | [] => [(k, v)]
  | (j, w) :: r => if j = k then (k, v) :: r else (j, w) :: put k v r

@[simp] theorem lookup_put_same (k : String) (v : α) (t : Table α) :
    List.lookup k (put k v t) = some v := by
  induction t with
  | nil => simp [put]
  | cons e r ih =>
    obtain ⟨j, w⟩ := e
    by_cases hj : j = k
    · simp [put, hj]
    · simp [put, hj, List.lookup_cons, beq_false_of_ne (Ne.symm hj), ih]

theorem lookup_put_other (k i : String) (v : α) (t : Table α) (h : i ≠ k) :
    List.lookup i (put k v t) = List.lookup i t := by
  induction t with
  | nil => simp [put, h]
  | cons e r ih =>
    obtain ⟨j, w⟩ := e
    by_cases hj : j = k
    · subst j
      simp [put, List.lookup_cons, beq_false_of_ne h]
    · simp only [put, hj, if_false, List.lookup_cons, ih]

end Table

end RowModel
