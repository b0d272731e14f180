import RowModel.Error
import RowModel.Override.Basic
import RowModel.Value.Basic

/-!
Settings of a generation run: the packages to be made, each with rules of its own, and the rules for
all of them.
-/
namespace RowModel

/-- A package to be made. Its paths are passed on as they are, and its flags may be left open. -/
structure Package where
  name : String
  path : Value
  queries : Value
  schema : Value
  emitJsonTags : Option Bool
  emitPreparedQueries : Option Bool
  overrides : List Rule

/-- A flag that is left open is off. -/
def Package.hasJsonTags (p : Package) : Bool := p.emitJsonTags.getD false

/-- The first name that was among `seen` or before it in the list. -/
def firstRepeated (seen : List String) : List String → Option String
  | [] => none
  | n :: r => if n ∈ seen then some n else firstRepeated (n :: seen) r

/-- No name repeats exactly if all names differ and are new. -/
theorem firstRepeated_eq_none_iff {seen names : List String} :
    firstRepeated seen names = none ↔ names.Nodup ∧ ∀ n ∈ names, n ∉ seen := by
  induction names generalizing seen with
  | nil => simp [firstRepeated]
  | cons n r ih =>
    by_cases h : n ∈ seen
    · simp [firstRepeated, h]
    · simp only [firstRepeated, h, if_false, ih, List.nodup_cons, List.mem_cons]
      grind

/-- Settings never hold two packages of one name. -/
structure Settings where
  version : Option String
  packages : List Package
  overrides : List Rule
  distinct : (packages.map Package.name).Nodup

namespace Settings

/-- Settings from their parts; a name that comes twice is an error. -/
def ofParts (version : Option String) (packages : List Package) (overrides : List Rule) :
    Except Error Settings :=
  match h : firstRepeated [] (packages.map Package.name) with
  | some n => .error (.configuration (.duplicatePackage n) (some n) none)
  | none => .ok ⟨version, packages, overrides, (firstRepeated_eq_none_iff.1 h).1⟩

def package (s : Settings) (name : String) : Except Error Package :=
  match s.packages.find? (·.name == name) with
  | some p => .ok p
  | none => .error (.configuration (.unknownPackage name) none none)

theorem package_eq_ok {s : Settings} {name : String} {p : Package}
    (h : s.package name = .ok p) : p ∈ s.packages ∧ p.name = name := by
  rw [package] at h
  split at h
  · next q hq =>
    cases h
    exact ⟨List.mem_of_find?_eq_some hq, by simpa using List.find?_some hq⟩
  · cases h

/-- As names differ, a package is found under its own. -/
theorem package_eq_ok_of_mem {s : Settings} {p : Package} (h : p ∈ s.packages) :
    s.package p.name = .ok p := by
  have find {ps : List Package} (hd : (ps.map Package.name).Nodup) (hp : p ∈ ps) :
      ps.find? (·.name == p.name) = some p := by
    induction ps with
    | nil => cases hp
    | cons q r ih =>
      rw [List.map_cons, List.nodup_cons] at hd
      by_cases hq : q.name = p.name
      · rcases List.mem_cons.1 hp with rfl | hp
        · simp
        · exact absurd (List.mem_map.2 ⟨p, hp, hq.symm⟩) hd.1
      · have hr : p ∈ r := (List.mem_cons.1 hp).resolve_left fun h => hq (h ▸ rfl)
        simpa [List.find?_cons, hq] using ih hd.2 hr
  rw [package, find s.distinct h]

/-- The rules that count for a package: its own before those for all. -/
def rulesOf (s : Settings) (p : Package) : List Rule := p.overrides ++ s.overrides

def rulesFor (s : Settings) (name : String) : Except Error (List Rule) :=
  (s.package name).map s.rulesOf

end Settings

end RowModel
