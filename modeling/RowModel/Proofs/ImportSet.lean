import RowModel.Proofs.ImportPath
import Mathlib.Data.List.Sort

/-!
The import set of structs, said without the table of rules and without the collecting loop. Each of
its two lists rises, so it is fixed by its members, and these are the paths that the bare types of
fields need. All that counts of structs is therefore which bare types occur, and the import set of
structs together is the union of theirs. Main result: `collectImports_outcome`.
-/
namespace RowModel

open Text

def HasHost (path : String) : Prop := '.' ∈ beforeFirst '/' path.toList

theorem isStandard_iff {path : String} : isStandard path = true ↔ ¬ HasHost path := by
  simp [isStandard, HasHost]

theorem isStandard_eq_false_iff {path : String} : isStandard path = false ↔ HasHost path := by
  simp [isStandard, HasHost]

/-- The path that a bare type needs: that of the first rule for it, or else the built-in one of what
stands before its first point. -/
inductive NeedsPath (rules : List Rule) (bare : String) : String → Prop
  | rule {before after : List Rule} {r : Rule} (hsplit : rules = before ++ r :: after)
    (hbare : bareType r.target.typeName = bare)
    (hfirst : ∀ q ∈ before, bareType q.target.typeName ≠ bare) :
    NeedsPath rules bare r.target.importPath
  | builtin {qualifier rest path : String} (hnone : ∀ r ∈ rules, bareType r.target.typeName ≠ bare)
    (hsplit : bare = qualifier ++ "." ++ rest) (hfirst : '.' ∉ qualifier.toList)
    (hpath : builtinImports.lookup qualifier = some path) : NeedsPath rules bare path

variable {rules : List Rule} {bare path : String}

/-- The first rule for a bare type has none for it before it. -/
theorem ruleOfType_eq_some_iff {r : Rule} :
    ruleOfType rules bare = some r ↔ bareType r.target.typeName = bare ∧
      ∃ before after, rules = before ++ r :: after ∧
        ∀ q ∈ before, bareType q.target.typeName ≠ bare := by
  simp [ruleOfType, List.find?_eq_some_iff_append]

theorem ruleOfType_eq_none_iff :
    ruleOfType rules bare = none ↔ ∀ r ∈ rules, bareType r.target.typeName ≠ bare := by
  simp [ruleOfType]

/-- A built-in path goes by what stands before the first point. -/
theorem builtinImport?_eq_some_iff :
    builtinImport? bare = some path ↔ ∃ qualifier rest, bare = qualifier ++ "." ++ rest ∧
      '.' ∉ qualifier.toList ∧ builtinImports.lookup qualifier = some path := by
  rw [builtinImport?, Option.bind_eq_some_iff]
  constructor
  · rintro ⟨⟨qualifier, rest⟩, hcut, hpath⟩
    obtain ⟨hsplit, hfirst⟩ := cutFirst_eq_some_iff.mp hcut
    refine ⟨String.ofList qualifier, String.ofList rest, ?_, ?_, hpath⟩
    · rw [← String.toList_inj, hsplit]
      simp
    · rwa [String.toList_ofList]
  · rintro ⟨qualifier, rest, rfl, hfirst, hpath⟩
    refine ⟨(qualifier.toList, rest.toList), cutFirst_eq_some_iff.mpr ⟨?_, hfirst⟩, ?_⟩
    · simp
    · simpa using hpath

/-- The path that is looked up is the one that is needed. -/
theorem neededPath_eq_some_iff : neededPath rules bare = some path ↔ NeedsPath rules bare path := by
  constructor
  · intro h
    rw [neededPath] at h
    split at h
    · next r hr =>
      obtain ⟨hbare, before, after, hsplit, hfirst⟩ := ruleOfType_eq_some_iff.mp hr
      cases h
      exact .rule hsplit hbare hfirst
    · next hnone =>
      obtain ⟨qualifier, rest, hsplit, hfirst, hpath⟩ := builtinImport?_eq_some_iff.mp h
      exact .builtin (ruleOfType_eq_none_iff.mp hnone) hsplit hfirst hpath
  · intro h
    cases h with
    | rule hsplit hbare hfirst =>
      rw [neededPath, ruleOfType_eq_some_iff.mpr ⟨hbare, _, _, hsplit, hfirst⟩]
    | builtin hnone hsplit hfirst hpath =>
      rw [neededPath, ruleOfType_eq_none_iff.mpr hnone]
      exact builtinImport?_eq_some_iff.mpr ⟨_, _, hsplit, hfirst, hpath⟩

/-- A text goes into a rising list where it leaves the list rising. -/
theorem insertText_rises {ts : List String} (h : ts.Pairwise (· < ·)) (s : String) :
    (insertText s ts).Pairwise (· < ·) := by
  induction ts with
  | nil => exact List.pairwise_singleton _ s
  | cons t r ih =>
    obtain ⟨ht, hr⟩ := List.pairwise_cons.mp h
    rw [insertText]
    split
    · next hlt =>
      refine .cons ?_ h
      intro u hu
      rcases List.mem_cons.mp hu with rfl | hu
      · exact hlt
      · exact String.lt_trans hlt (ht u hu)
    · next hnlt =>
      split
      · exact h
      · next hne =>
        refine .cons ?_ (ih hr)
        intro u hu
        rcases mem_insertText.mp hu with rfl | hu
        · by_contra hnlt'
          exact hne (Std.Trichotomous.trichotomous _ _ hnlt hnlt')
        · exact ht u hu

theorem sortTexts_rises (ts : List String) : (sortTexts ts).Pairwise (· < ·) := by
  induction ts with
  | nil => exact .nil
  | cons s r ih => exact insertText_rises ih s

/-- Two rising lists with the same members, one for each kind of path. -/
structure ImportSet.HasPaths (i : ImportSet) (needed : String → Prop) : Prop where
  std_rises : i.std.Pairwise (· < ·)
  packages_rises : i.packages.Pairwise (· < ·)
  mem_std : ∀ path, path ∈ i.std ↔ needed path ∧ ¬ HasHost path
  mem_packages : ∀ path, path ∈ i.packages ↔ needed path ∧ HasHost path

namespace ImportSet

variable {i j : ImportSet} {needed : String → Prop}

theorem HasPaths.disjoint (h : i.HasPaths needed) : i.std.Disjoint i.packages := by
  intro path hstd hpackages
  exact ((h.mem_std path).mp hstd).2 ((h.mem_packages path).mp hpackages).2

/-- The paths fix the set. -/
theorem HasPaths.eq (hi : i.HasPaths needed) (hj : j.HasPaths needed) : i = j := by
  have hstd : i.std = j.std := hi.std_rises.eq_of_mem_iff hj.std_rises fun path =>
    (hi.mem_std path).trans (hj.mem_std path).symm
  have hpackages : i.packages = j.packages :=
    hi.packages_rises.eq_of_mem_iff hj.packages_rises fun path =>
      (hi.mem_packages path).trans (hj.mem_packages path).symm
  cases i
  cases j
  rw [ImportSet.mk.injEq]
  exact ⟨hstd, hpackages⟩

end ImportSet

def bareTypes (structs : List Struct) : List String :=
  (structs.flatMap Struct.fields).map fun f => bareType f.type

theorem mem_bareTypes {structs : List Struct} {bare : String} :
    bare ∈ bareTypes structs ↔ ∃ x ∈ structs, ∃ f ∈ x.fields, bareType f.type = bare := by
  simp only [bareTypes, List.mem_map, List.mem_flatMap]
  constructor
  · rintro ⟨f, ⟨x, hx, hf⟩, hbare⟩
    exact ⟨x, hx, f, hf, hbare⟩
  · rintro ⟨x, hx, f, hf, hbare⟩
    exact ⟨f, ⟨x, hx, hf⟩, hbare⟩

theorem mem_std_collectImports {structs : List Struct} :
    path ∈ (collectImports structs rules).std ↔
      path ∈ (collectImports structs rules).paths ∧ isStandard path = true := by
  simp only [collectImports, ImportSet.paths, List.mem_append, mem_sortTexts, List.mem_filter]
  cases isStandard path <;> simp

theorem mem_packages_collectImports {structs : List Struct} :
    path ∈ (collectImports structs rules).packages ↔
      path ∈ (collectImports structs rules).paths ∧ isStandard path = false := by
  simp only [collectImports, ImportSet.paths, List.mem_append, mem_sortTexts, List.mem_filter]
  cases isStandard path <;> simp

/-- The paths that are collected are those that fields need. -/
theorem hasPaths_collectImports (structs : List Struct) (rules : List Rule) :
    (collectImports structs rules).HasPaths fun path =>
      ∃ x ∈ structs, ∃ f ∈ x.fields, NeedsPath rules (bareType f.type) path := by
  refine ⟨sortTexts_rises _, sortTexts_rises _, ?_, ?_⟩
  · intro path
    simp only [mem_std_collectImports, mem_paths_collectImports, neededPath_eq_some_iff,
      isStandard_iff]
  · intro path
    simp only [mem_packages_collectImports, mem_paths_collectImports, neededPath_eq_some_iff,
      isStandard_eq_false_iff]

/-- It is the bare types alone that count. -/
theorem exists_needsPath_iff {structs : List Struct} :
    (∃ x ∈ structs, ∃ f ∈ x.fields, NeedsPath rules (bareType f.type) path) ↔
      ∃ bare ∈ bareTypes structs, NeedsPath rules bare path := by
  constructor
  · rintro ⟨x, hx, f, hf, hneeds⟩
    exact ⟨_, mem_bareTypes.mpr ⟨x, hx, f, hf, rfl⟩, hneeds⟩
  · rintro ⟨bare, hbare, hneeds⟩
    obtain ⟨x, hx, f, hf, rfl⟩ := mem_bareTypes.mp hbare
    exact ⟨x, hx, f, hf, hneeds⟩

/-- Only the set of bare types counts. -/
theorem collectImports_congr {xs ys : List Struct}
    (h : ∀ bare, bare ∈ bareTypes xs ↔ bare ∈ bareTypes ys) (rules : List Rule) :
    collectImports xs rules = collectImports ys rules := by
  have hneeds (path : String) :
      (∃ x ∈ xs, ∃ f ∈ x.fields, NeedsPath rules (bareType f.type) path) ↔
        ∃ x ∈ ys, ∃ f ∈ x.fields, NeedsPath rules (bareType f.type) path := by
    simp only [exists_needsPath_iff, h]
  have hys := hasPaths_collectImports ys rules
  simp only [← hneeds] at hys
  exact (hasPaths_collectImports xs rules).eq hys

def IsUnion (ts us vs : List String) : Prop :=
  vs.Pairwise (· < ·) ∧ ∀ t, t ∈ vs ↔ t ∈ ts ∨ t ∈ us

/-- The imports of two lists of structs together are those of each. -/
theorem isUnion_collectImports (xs ys : List Struct) (rules : List Rule) :
    IsUnion (collectImports xs rules).std (collectImports ys rules).std
        (collectImports (xs ++ ys) rules).std ∧
      IsUnion (collectImports xs rules).packages (collectImports ys rules).packages
        (collectImports (xs ++ ys) rules).packages := by
  have hboth := hasPaths_collectImports (xs ++ ys) rules
  have hxs := hasPaths_collectImports xs rules
  have hys := hasPaths_collectImports ys rules
  refine ⟨⟨hboth.std_rises, ?_⟩, ⟨hboth.packages_rises, ?_⟩⟩
  · intro path
    rw [hboth.mem_std, hxs.mem_std, hys.mem_std, ← or_and_right]
    simp only [List.mem_append, or_and_right, exists_or]
  · intro path
    rw [hboth.mem_packages, hxs.mem_packages, hys.mem_packages, ← or_and_right]
    simp only [List.mem_append, or_and_right, exists_or]

/-- The import set of structs has the paths that their fields need, each once and in order, those of
the standard library apart. It depends on the bare types that occur, and that of structs together is
the union of theirs. -/
theorem collectImports_outcome (rules : List Rule) :
    (∀ structs, (collectImports structs rules).HasPaths fun path =>
      ∃ x ∈ structs, ∃ f ∈ x.fields, NeedsPath rules (bareType f.type) path) ∧
    (∀ structs,
      (collectImports structs rules).std.Disjoint (collectImports structs rules).packages) ∧
    (∀ xs ys, (∀ bare, bare ∈ bareTypes xs ↔ bare ∈ bareTypes ys) →
      collectImports xs rules = collectImports ys rules) ∧
    ∀ xs ys,
      IsUnion (collectImports xs rules).std (collectImports ys rules).std
          (collectImports (xs ++ ys) rules).std ∧
        IsUnion (collectImports xs rules).packages (collectImports ys rules).packages
          (collectImports (xs ++ ys) rules).packages := by
  refine ⟨fun structs => hasPaths_collectImports structs rules, ?_, ?_, ?_⟩
  · intro structs
    exact (hasPaths_collectImports structs rules).disjoint
  · intro xs ys h
    exact collectImports_congr h rules
  · intro xs ys
    exact isUnion_collectImports xs ys rules

def timesStruct : Struct := ⟨"Bar", [⟨"At", "*time.Time", none⟩, ⟨"Id", "[]uuid.UUID", none⟩]⟩

/-- In another order, and with one of them twice, structs have the same import set. Of the two rules
for `pkg.T` the first has given its path. -/
theorem collectImports_outcome_times :
    (∀ bare, bare ∈ bareTypes [timesStruct, twinsStruct, timesStruct] ↔
      bare ∈ bareTypes [twinsStruct, timesStruct]) ∧
    collectImports [timesStruct, twinsStruct, timesStruct] twinsGenerator.rules =
      ⟨["time"], ["a.com/x/pkg", "github.com/google/uuid"]⟩ := by
  have htimes : bareTypes [timesStruct, twinsStruct, timesStruct] =
      ["time.Time", "uuid.UUID", "pkg.T", "pkg.T", "time.Time", "uuid.UUID"] := by decide +kernel
  have htwins : bareTypes [twinsStruct, timesStruct] =
      ["pkg.T", "pkg.T", "time.Time", "uuid.UUID"] := by decide +kernel
  have hsame (bare : String) : bare ∈ bareTypes [timesStruct, twinsStruct, timesStruct] ↔
      bare ∈ bareTypes [twinsStruct, timesStruct] := by
    rw [htimes, htwins]
    simp only [List.mem_cons, List.not_mem_nil, or_false]
    tauto
  refine ⟨hsame, ?_⟩
  rw [(collectImports_outcome twinsGenerator.rules).2.2.1 _ _ hsame]
  decide +kernel

end RowModel
