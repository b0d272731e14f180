import RowModel.Calendar
import RowModel.Decimal.Double

/-!
Values of a settings document before they are given a meaning, with the three questions that are
asked of any of them: does it count as true, are two keys the same, what does a mapping hold under
a name.
-/
namespace RowModel

inductive Value where
  | null
  | bool (b : Bool)
  | int (n : Int)
  /-- A finite or infinite double. -/
  | float (x : Float)
  /-- No number. Two of them are the same only if they have the same mark. -/
  | nan (mark : Nat)
  | str (s : String)
  | bytes (bs : List UInt8)
  | date (d : Date)
  | moment (t : Moment)
  | list (items : List Value)
  | map (entries : List (Value × Value))
  | set (items : List Value)
  | pair (first second : Value)
  deriving Inhabited

namespace Value

/-- Empty texts and collections, zeros, null and false count as false. -/
def truthy : Value → Bool
  | null => false
  | bool b => b
  | int n => n != 0
  | float x => x != 0.0
  | str s => s != ""
  | bytes bs => !bs.isEmpty
  | list items => !items.isEmpty
  | map entries => !entries.isEmpty
  | set items => !items.isEmpty
  | nan _ | date _ | moment _ | pair _ _ => true

/-- The value of a double, which has the mark if it is no number. -/
def ofFloat (mark : Nat) (x : Float) : Value :=
  match Decimal.magnitude x with
  | .nan => nan mark
  | _ => float x

/-- Whether a double is this whole number. -/
def isWhole (x : Float) (n : Int) : Bool :=
  match Decimal.magnitude x with
  | .finite m q =>
    let (num, den) := Decimal.powerRatio m 2 q
    decide (num = n.natAbs * den) && (decide (m = 0) || Decimal.isNegative x == decide (n < 0))
  | _ => false

def number : Value → Value
  | bool b => int (if b then 1 else 0)
  | v => v

/-- Whether two values are one key. Numbers are compared by value whatever their kind, moments as
instants; collections are no keys. -/
def sameKey (v w : Value) : Bool :=
  match v.number, w.number with
  | null, null => true
  | int m, int n => m == n
  | float x, float y => x == y
  | nan m, nan n => m == n
  | int n, float x | float x, int n => isWhole x n
  | str s, str t => s == t
  | bytes a, bytes b => a == b
  | date d, date e => d == e
  | moment s, moment t => s.same t
  | _, _ => false

/-- The entries with `v` under `k`. A key that is there already keeps its place. -/
def insert (k v : Value) : List (Value × Value) → List (Value × Value)
  | [] => [(k, v)]
  | (k₁, v₁) :: r => if k₁.sameKey k then (k₁, v) :: r else (k₁, v₁) :: insert k v r

def find? (name : String) : List (Value × Value) → Option Value
  | [] => none
  | (k, v) :: r => if k.sameKey (str name) then some v else find? name r

/-- What a mapping holds under a name; a missing entry is null. -/
def get (name : String) (entries : List (Value × Value)) : Value := (find? name entries).getD null

@[simp] theorem sameKey_str (s t : String) : (str s).sameKey (str t) = (s == t) := rfl
@[simp] theorem find?_nil (name : String) : find? name [] = none := rfl

theorem find?_insert_self (name : String) (v : Value) (entries : List (Value × Value)) :
    find? name (insert (str name) v entries) = some v := by
  induction entries with
  | nil => simp [insert, find?]
  | cons e r ih =>
    obtain ⟨k, w⟩ := e
    by_cases h : k.sameKey (str name) <;> simp [insert, find?, h, ih]

/-- Nothing but the text itself is the same key as a text. -/
theorem sameKey_str_iff {v : Value} {s : String} : v.sameKey (str s) = true ↔ v = str s := by
  cases v <;> simp [sameKey, number]

/-- Only a text is the same key as a text. -/
theorem str_sameKey_iff {v : Value} {s : String} : (str s).sameKey v = true ↔ v = str s := by
  cases v with
  | str t =>
    rw [sameKey_str, beq_iff_eq, str.injEq]
    exact eq_comm
  | _ => simp [sameKey, number]

theorem find?_insert_of_ne {name : String} {k : Value} (hk : k ≠ str name) (v : Value)
    (entries : List (Value × Value)) :
    find? name (insert k v entries) = find? name entries := by
  induction entries with
  | nil =>
    have hsame : k.sameKey (str name) = false :=
      Bool.eq_false_iff.mpr fun h => hk (sameKey_str_iff.mp h)
    simp [insert, find?, hsame]
  | cons e r ih =>
    obtain ⟨k₁, w⟩ := e
    rw [insert]
    split
    · next h =>
      have hsame : k₁.sameKey (str name) = false := by
        rw [Bool.eq_false_iff]
        intro hname
        rw [sameKey_str_iff.mp hname, str_sameKey_iff] at h
        exact hk h
      simp [find?, hsame]
    · rw [find?, find?, ih]

end Value

end RowModel
