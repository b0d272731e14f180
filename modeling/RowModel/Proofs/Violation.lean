import RowModel.Proofs.EntryErrors

/-!
Which settings are accepted, and which fault of the others is reported. The faults come in a fixed
order: those of the lists, those of the packages with their rules, those of the rules for all
packages, and names that come twice. The first one counts, and its error carries the package that it
lies in. One thing comes in between, a value that has no words where it has to be put into words.
Main result: `Settings.answersAsPromised_iff`.
-/
namespace RowModel

theorem nodup_unseen_cons {seen before : List String} {m : String} :
    (m :: before).Nodup ∧ (∀ k ∈ m :: before, k ∉ seen) ↔
      m ∉ seen ∧ before.Nodup ∧ ∀ k ∈ before, k ∉ m :: seen := by
  rw [List.nodup_cons, List.forall_mem_cons]
  simp only [List.mem_cons, not_or]
  constructor
  · rintro ⟨⟨hm, hd⟩, hseen, hunseen⟩
    exact ⟨hseen, hd, fun k hk => ⟨fun h => hm (h ▸ hk), hunseen k hk⟩⟩
  · rintro ⟨hseen, hd, hnew⟩
    exact ⟨⟨fun hm => (hnew m hm).1 rfl, hd⟩, hseen, fun k hk => (hnew k hk).2⟩

/-- The name that is the first to come again. -/
theorem firstRepeated_eq_some_iff {seen names : List String} {n : String} :
    firstRepeated seen names = some n ↔
      ∃ before, before ++ [n] <+: names ∧ (before.Nodup ∧ ∀ m ∈ before, m ∉ seen) ∧
        (n ∈ before ∨ n ∈ seen) := by
  induction names generalizing seen with
  | nil => simp [firstRepeated]
  | cons m rest ih =>
    simp only [append_singleton_prefix_cons]
    rw [firstRepeated]
    by_cases hm : m ∈ seen
    · rw [if_pos hm]
      constructor
      · intro h
        cases h
        exact ⟨[], .inl ⟨rfl, rfl⟩, ⟨List.nodup_nil, List.forall_mem_nil _⟩, .inr hm⟩
      · rintro ⟨before, ⟨rfl, rfl⟩ | ⟨middle, rfl, -⟩, ⟨-, hunseen⟩, -⟩
        · rfl
        · exact absurd hm (hunseen m List.mem_cons_self)
    · have hcame (middle : List String) :
          n ∈ middle ∨ n ∈ m :: seen ↔ n ∈ m :: middle ∨ n ∈ seen := by
        simp only [List.mem_cons, or_assoc, or_left_comm]
      rw [if_neg hm, ih]
      constructor
      · rintro ⟨middle, hp, hnew, hn⟩
        exact ⟨m :: middle, .inr ⟨middle, rfl, hp⟩, nodup_unseen_cons.mpr ⟨hm, hnew⟩,
          (hcame middle).mp hn⟩
      · rintro ⟨before, ⟨rfl, rfl⟩ | ⟨middle, rfl, hp⟩, hnew, hn⟩
        · exact absurd (hn.resolve_left List.not_mem_nil) hm
        · exact ⟨middle, hp, (nodup_unseen_cons.mp hnew).2, (hcame middle).mpr hn⟩

namespace Settings

/-- Parts are refused for the first package whose name came before. -/
theorem ofParts_eq_error_iff {version : Option String} {packages : List Package}
    {rules : List Rule} {e : Error} :
    ofParts version packages rules = .error e ↔
      ∃ before p, before ++ [p] <+: packages ∧ (before.map Package.name).Nodup ∧
        p.name ∈ before.map Package.name ∧
        e = .configuration (.duplicatePackage p.name) (some p.name) none := by
  have hrepeated : ofParts version packages rules = .error e ↔ ∃ n,
      firstRepeated [] (packages.map Package.name) = some n ∧
        e = .configuration (.duplicatePackage n) (some n) none := by
    rw [ofParts]
    split
    · next n hn => simp [hn, eq_comm]
    · next hn => simp [hn]
  rw [hrepeated]
  constructor
  · rintro ⟨n, hn, rfl⟩
    obtain ⟨names, hp, ⟨hd, -⟩, hmem⟩ := firstRepeated_eq_some_iff.mp hn
    obtain ⟨reached, hreached, hnames⟩ := List.prefix_map_iff.mp hp
    obtain ⟨before, last, rfl, rfl, hlast⟩ := List.map_eq_append_iff.mp hnames.symm
    obtain ⟨p, rfl, rfl⟩ := List.map_eq_singleton_iff.mp hlast
    exact ⟨before, p, hreached, hd, by simpa using hmem, rfl⟩
  · rintro ⟨before, p, hp, hd, hmem, rfl⟩
    have hnames : before.map Package.name ++ [p.name] <+: packages.map Package.name := by
      simpa using hp.map Package.name
    have hfirst := firstRepeated_eq_some_iff.mpr
      ⟨_, hnames, ⟨hd, fun _ _ => List.not_mem_nil⟩, .inl hmem⟩
    exact ⟨p.name, hfirst, rfl⟩

theorem exists_ofParts_eq_ok {version : Option String} {packages : List Package} (rules : List Rule)
    (hd : (packages.map Package.name).Nodup) : ∃ s, ofParts version packages rules = .ok s := by
  rw [ofParts]
  split
  · next n hn =>
    rw [firstRepeated_eq_none_iff.mpr ⟨hd, by simp⟩] at hn
    cases hn
  · exact ⟨_, rfl⟩

def HasLists (entries : List (Value × Value)) (rawPackages rawRules : List Value) : Prop :=
  (Value.get "packages" entries).Lists rawPackages ∧ (Value.get "overrides" entries).Lists rawRules

/-- The version of a document is the first one if it has none. -/
def versionValue (entries : List (Value × Value)) : Value :=
  (Value.find? "version" entries).getD (.str "1")

/-- Each package is found under its name, with its own rules before those for all packages, and
nothing else is found. -/
structure Finds (s : Settings) : Prop where
  package : ∀ name p, s.package name = .ok p ↔ p ∈ s.packages ∧ p.name = name
  unknown : ∀ name e, s.package name = .error e ↔
    (∀ p ∈ s.packages, p.name ≠ name) ∧ e = .configuration (.unknownPackage name) none none
  rules : ∀ name rules, s.rulesFor name = .ok rules ↔
    ∃ p ∈ s.packages, p.name = name ∧ rules = p.overrides ++ s.overrides
  noRules : ∀ name e, s.rulesFor name = .error e ↔ s.package name = .error e

theorem package_eq_ok_iff {s : Settings} {name : String} {p : Package} :
    s.package name = .ok p ↔ p ∈ s.packages ∧ p.name = name := by
  constructor
  · exact package_eq_ok
  · rintro ⟨hp, rfl⟩
    exact package_eq_ok_of_mem hp

theorem package_eq_error_iff {s : Settings} {name : String} {e : Error} :
    s.package name = .error e ↔
      (∀ p ∈ s.packages, p.name ≠ name) ∧ e = .configuration (.unknownPackage name) none none := by
  rw [Settings.package]
  split
  · next p hp =>
    have hmem := List.mem_of_find?_eq_some hp
    have hname : p.name = name := by simpa using List.find?_some hp
    simp only [reduceCtorEq, false_iff]
    rintro ⟨hnone, -⟩
    exact hnone p hmem hname
  · next hnone =>
    have hall : ∀ p ∈ s.packages, p.name ≠ name := by simpa using hnone
    rw [Except.error.injEq, eq_comm, and_iff_right hall]

/-- Settings find each of their packages, with its own rules first. -/
theorem finds (s : Settings) : s.Finds where
  package name p := package_eq_ok_iff
  unknown name e := package_eq_error_iff
  rules name rules := by
    constructor
    · intro h
      cases hp : s.package name with
      | error e =>
        rw [rulesFor, hp] at h
        cases h
      | ok p =>
        rw [rulesFor, hp] at h
        cases h
        obtain ⟨hmem, hname⟩ := package_eq_ok hp
        exact ⟨p, hmem, hname, rfl⟩
    · rintro ⟨p, hmem, hname, rfl⟩
      rw [rulesFor, package_eq_ok_iff.mpr ⟨hmem, hname⟩]
      rfl
  noRules name e := map_eq_error_iff

variable [Machine]

/-- A document without a fault declares these packages and rules. -/
structure Accepts (entries : List (Value × Value)) (packages : List Package) (rules : List Rule) :
    Prop where
  eachPackage : ∃ raws, (Value.get "packages" entries).Lists raws ∧
    List.Forall₂ (fun raw p => Package.parse raw = .ok p) raws packages
  eachRule : ∃ raws, (Value.get "overrides" entries).Lists raws ∧
    List.Forall₂ (fun raw r => Rule.parse raw none = .ok r) raws rules
  distinct : (packages.map Package.name).Nodup

/-- The first fault of a document, with the package that its error carries. -/
inductive Violation (entries : List (Value × Value)) : Option String → Error → Prop
  | packagesNotList (h : ∀ raws, ¬ (Value.get "packages" entries).Lists raws) :
    Violation entries none (.configuration .packagesNotList none none)
  | overridesNotList {rawPackages : List Value}
    (hpackages : (Value.get "packages" entries).Lists rawPackages)
    (h : ∀ raws, ¬ (Value.get "overrides" entries).Lists raws) :
    Violation entries none (.configuration .overridesNotList none none)
  | package {rawPackages rawRules : List Value} {raw : Value} {package : Option String} {e : Error}
    (hlists : HasLists entries rawPackages rawRules)
    (hfirst : Reaches Package.parse rawPackages raw) (h : Package.Violation raw package e) :
    Violation entries package e
  | rule {rawPackages rawRules : List Value} {raw : Value} {e : Error}
    (hlists : HasLists entries rawPackages rawRules)
    (hpackages : ∀ raw ∈ rawPackages, ∃ p, Package.parse raw = .ok p)
    (hfirst : Reaches (Rule.parse · none) rawRules raw) (h : Rule.parse raw none = .error e) :
    Violation entries none e
  | duplicate {rawPackages rawRules : List Value} {packages before : List Package} {p : Package}
    (hlists : HasLists entries rawPackages rawRules)
    (hpackages : List.Forall₂ (fun raw p => Package.parse raw = .ok p) rawPackages packages)
    (hrules : ∀ raw ∈ rawRules, ∃ r, Rule.parse raw none = .ok r)
    (hfirst : before ++ [p] <+: packages) (hbefore : (before.map Package.name).Nodup)
    (h : p.name ∈ before.map Package.name) :
    Violation entries (some p.name) (.configuration (.duplicatePackage p.name) (some p.name) none)

/-- A document where nothing is at fault before a value that has to be put into words and has none, and
the error for that. -/
inductive Wordless (entries : List (Value × Value)) (e : Error) : Prop
  | version {rawPackages rawRules : List Value} (hlists : HasLists entries rawPackages rawRules)
    (hwords : (versionValue entries).wording .settings = .error e)
  | packageRule {rawPackages rawRules items : List Value} {raw item : Value} {name : String}
    {fields : List (Value × Value)} (hlists : HasLists entries rawPackages rawRules)
    (hversion : ∃ version, (versionValue entries).wording .settings = .ok version)
    (hfirst : Reaches Package.parse rawPackages raw) (hnamed : Package.Named raw name fields)
    (hitems : (Value.get "overrides" fields).Lists items)
    (hitem : Reaches (Rule.parse · (some name)) items item)
    (hwords : Rule.Wordless item (some name) e)
  | rule {rawPackages rawRules : List Value} {raw : Value}
    (hlists : HasLists entries rawPackages rawRules)
    (hversion : ∃ version, (versionValue entries).wording .settings = .ok version)
    (hpackages : ∀ raw ∈ rawPackages, ∃ p, Package.parse raw = .ok p)
    (hfirst : Reaches (Rule.parse · none) rawRules raw) (hwords : Rule.Wordless raw none e)

variable {entries : List (Value × Value)} {package : Option String} {e : Error}

/-- Once both lists are there, the version comes before the packages and these before the rules. -/
theorem ofEntries_of_lists {rawPackages rawRules : List Value}
    (h : HasLists entries rawPackages rawRules) :
    ofEntries entries = (versionValue entries).wording .settings >>= fun version =>
      rawPackages.mapM Package.parse >>= fun packages =>
        rawRules.mapM (Rule.parse · none) >>= fun rules => ofParts (some version) packages rules := by
  rw [ofEntries, Value.items?_eq_some_iff.mpr h.1, Value.items?_eq_some_iff.mpr h.2]
  rfl

/-- The first fault is reported, if the version has words where there are lists. -/
theorem Violation.ofEntries_eq (h : Violation entries package e)
    (hversion : ∀ rawPackages rawRules, HasLists entries rawPackages rawRules →
      ∃ version, (versionValue entries).wording .settings = .ok version) :
    ofEntries entries = .error e := by
  cases h with
  | packagesNotList h => rw [ofEntries, Value.items?_eq_none_iff.mpr h]
  | overridesNotList hpackages h =>
    rw [ofEntries, Value.items?_eq_some_iff.mpr hpackages, Value.items?_eq_none_iff.mpr h]
  | package hlists hfirst h =>
    obtain ⟨version, hversion⟩ := hversion _ _ hlists
    have hpackages := mapM_eq_error_iff_reaches.mpr
      ⟨_, hfirst, Package.parse_eq_error_iff.mpr ⟨_, h⟩⟩
    rw [ofEntries_of_lists hlists, hversion, hpackages]
    rfl
  | rule hlists hpackages hfirst h =>
    obtain ⟨version, hversion⟩ := hversion _ _ hlists
    obtain ⟨packages, hpackages⟩ := exists_mapM_eq_ok_iff.mpr hpackages
    have hrules := mapM_eq_error_iff_reaches.mpr ⟨_, hfirst, h⟩
    rw [ofEntries_of_lists hlists, hversion, hpackages, hrules]
    rfl
  | duplicate hlists hpackages hrules hfirst hbefore h =>
    obtain ⟨version, hversion⟩ := hversion _ _ hlists
    obtain ⟨rules, hrules⟩ := exists_mapM_eq_ok_iff.mpr hrules
    rw [ofEntries_of_lists hlists, hversion, mapM_eq_ok_iff.mpr hpackages, hrules]
    exact ofParts_eq_error_iff.mpr ⟨_, _, hfirst, hbefore, h, rfl⟩

/-- The lists are looked at before anything else. -/
theorem violation_or_hasLists (entries : List (Value × Value)) :
    (∃ e, Violation entries none e ∧ ofEntries entries = .error e) ∨
      ∃ rawPackages rawRules, HasLists entries rawPackages rawRules := by
  by_cases hp : ∃ rawPackages, (Value.get "packages" entries).Lists rawPackages
  · obtain ⟨rawPackages, hp⟩ := hp
    by_cases hr : ∃ rawRules, (Value.get "overrides" entries).Lists rawRules
    · obtain ⟨rawRules, hr⟩ := hr
      exact .inr ⟨rawPackages, rawRules, hp, hr⟩
    · refine .inl ⟨_, .overridesNotList hp (not_exists.mp hr), ?_⟩
      rw [ofEntries, Value.items?_eq_some_iff.mpr hp,
        Value.items?_eq_none_iff.mpr (not_exists.mp hr)]
  · refine .inl ⟨_, .packagesNotList (not_exists.mp hp), ?_⟩
    rw [ofEntries, Value.items?_eq_none_iff.mpr (not_exists.mp hp)]

/-- The error of a document is that of its first fault, or it is for want of words for the version. -/
theorem violation_of_ofEntries (h : ofEntries entries = .error e) :
    (∃ package, Violation entries package e) ∨ Wordless entries e := by
  rcases violation_or_hasLists entries with ⟨e', hfault, he⟩ | ⟨rawPackages, rawRules, hlists⟩
  · cases h.symm.trans he
    exact .inl ⟨none, hfault⟩
  -- what follows the lists runs in this order: the version, the packages, the rules, the names
  rw [ofEntries_of_lists hlists, bind_eq_error] at h
  rcases h with hversion | ⟨version, -, h⟩
  · exact .inr (.version hlists hversion)
  rcases bind_eq_error.mp h with hpackages | ⟨packages, hpackages, h⟩
  · obtain ⟨raw, hfirst, hraw⟩ := mapM_eq_error_iff_reaches.mp hpackages
    obtain ⟨package, hviolation⟩ := Package.parse_eq_error_iff.mp hraw
    exact .inl ⟨package, .package hlists hfirst hviolation⟩
  rcases bind_eq_error.mp h with hrules | ⟨rules, hrules, h⟩
  · obtain ⟨raw, hfirst, hraw⟩ := mapM_eq_error_iff_reaches.mp hrules
    exact .inl ⟨none, .rule hlists (exists_mapM_eq_ok_iff.mp ⟨packages, hpackages⟩) hfirst hraw⟩
  obtain ⟨before, p, hfirst, hbefore, hmem, rfl⟩ := ofParts_eq_error_iff.mp h
  exact .inl ⟨some p.name, .duplicate hlists (mapM_eq_ok_iff.mp hpackages)
    (exists_mapM_eq_ok_iff.mp ⟨rules, hrules⟩) hfirst hbefore hmem⟩

theorem exists_wording_of_not_wordless {rawPackages rawRules : List Value}
    (hwords : ∀ e, ¬ Wordless entries e) (hlists : HasLists entries rawPackages rawRules) :
    ∃ version, (versionValue entries).wording .settings = .ok version := by
  cases hversion : (versionValue entries).wording .settings with
  | error e => exact absurd (.version hlists hversion) (hwords e)
  | ok version => exact ⟨version, rfl⟩

/-- Where no words are missing, the error of the first fault is one of configuration in the package. -/
theorem Violation.isConfiguration (h : Violation entries package e)
    (hwords : ∀ e, ¬ Wordless entries e) : e.IsConfiguration package := by
  cases h with
  | packagesNotList _ => exact ⟨_, _, rfl⟩
  | overridesNotList _ _ => exact ⟨_, _, rfl⟩
  | package hlists hfirst h =>
    cases h with
    | notMapping _ => exact ⟨_, _, rfl⟩
    | unnamed _ _ => exact ⟨_, _, rfl⟩
    | overridesNotList _ _ => exact ⟨_, _, rfl⟩
    | rule hnamed hitems hitem h =>
      have hversion := exists_wording_of_not_wordless hwords hlists
      exact (Rule.error_of_parse h).resolve_right fun hmissing =>
        hwords _ (.packageRule hlists hversion hfirst hnamed hitems hitem hmissing)
  | rule hlists hpackages hfirst h =>
    have hversion := exists_wording_of_not_wordless hwords hlists
    exact (Rule.error_of_parse h).resolve_right fun hmissing =>
      hwords _ (.rule hlists hversion hpackages hfirst hmissing)
  | duplicate _ _ _ _ _ _ => exact ⟨_, _, rfl⟩

theorem Wordless.isWordless (h : Wordless entries e) : e.IsWordless := by
  cases h with
  | version _ hwords => exact Value.isWordless_of_worded hwords
  | packageRule _ _ _ _ _ _ hwords => exact hwords.isWordless
  | rule _ _ _ _ hwords => exact hwords.isWordless

/-- A wordless document ends with the error for that. -/
theorem Wordless.ofEntries_eq (h : Wordless entries e) : ofEntries entries = .error e := by
  cases h with
  | version hlists hwords =>
    rw [ofEntries_of_lists hlists, hwords]
    rfl
  | packageRule hlists hversion hfirst hnamed hitems hitem hwords =>
    have hfault := Package.Violation.rule hnamed hitems hitem hwords.parse_eq
    exact (Violation.package hlists hfirst hfault).ofEntries_eq fun _ _ _ => hversion
  | rule hlists hversion hpackages hfirst hwords =>
    exact (Violation.rule hlists hpackages hfirst hwords.parse_eq).ofEntries_eq
      fun _ _ _ => hversion

/-- A document without a fault is accepted unless it is wordless. -/
theorem Accepts.exists_ofEntries {packages : List Package} {rules : List Rule}
    (h : Accepts entries packages rules) (hwords : ∀ e, ¬ Wordless entries e) :
    ∃ s, ofEntries entries = .ok s := by
  obtain ⟨rawPackages, hp, hpackages⟩ := h.eachPackage
  obtain ⟨rawRules, hr, hrules⟩ := h.eachRule
  have hlists : HasLists entries rawPackages rawRules := ⟨hp, hr⟩
  obtain ⟨version, hversion⟩ := exists_wording_of_not_wordless hwords hlists
  rw [ofEntries_of_lists hlists, hversion, mapM_eq_ok_iff.mpr hpackages, mapM_eq_ok_iff.mpr hrules]
  exact exists_ofParts_eq_ok rules h.distinct

/-- An accepted document has no fault. -/
theorem accepts_of_ofEntries {s : Settings} (h : ofEntries entries = .ok s) :
    Accepts entries s.packages s.overrides := by
  have hdeclared := ofEntries_declared h
  obtain ⟨rawPackages, hp, -⟩ := hdeclared.packages
  obtain ⟨rawRules, hr, -⟩ := hdeclared.overrides
  have hlists : HasLists entries rawPackages rawRules :=
    ⟨Value.items?_eq_some_iff.mp hp, Value.items?_eq_some_iff.mp hr⟩
  rw [ofEntries_of_lists hlists] at h
  obtain ⟨version, -, h⟩ := bind_eq_ok.mp h
  obtain ⟨packages, hpackages, h⟩ := bind_eq_ok.mp h
  obtain ⟨rules, hrules, h⟩ := bind_eq_ok.mp h
  obtain ⟨-, rfl, rfl⟩ := ofParts_eq_ok h
  exact ⟨⟨rawPackages, hlists.1, mapM_eq_ok_iff.mp hpackages⟩,
    ⟨rawRules, hlists.2, mapM_eq_ok_iff.mp hrules⟩, s.distinct⟩

/-- What is promised of a document: it is accepted if it has no fault; the error of any other is one
of configuration, that of its first fault, and carries the package which this lies in; and all that
was accepted is found. -/
structure AnswersAsPromised (entries : List (Value × Value)) : Prop where
  accepted : (∃ s, ofEntries entries = .ok s) ↔ ∃ packages rules, Accepts entries packages rules
  refused : ∀ e, ofEntries entries = .error e ↔
    ∃ package, e.IsConfiguration package ∧ Violation entries package e
  found : ∀ s, ofEntries entries = .ok s → Accepts entries s.packages s.overrides ∧ s.Finds

/-- The promise is kept for all documents but those where the first that is amiss is a value without
words. -/
theorem answersAsPromised_iff (entries : List (Value × Value)) :
    AnswersAsPromised entries ↔ ¬ ∃ e, Wordless entries e := by
  rw [not_exists]
  constructor
  · intro h e hwords
    obtain ⟨package, hconf, -⟩ := (h.refused e).mp hwords.ofEntries_eq
    exact hwords.isWordless.not_isConfiguration package hconf
  · intro hwords
    refine ⟨⟨?_, ?_⟩, fun e => ⟨?_, ?_⟩, fun s hs => ⟨accepts_of_ofEntries hs, s.finds⟩⟩
    · rintro ⟨s, hs⟩
      exact ⟨s.packages, s.overrides, accepts_of_ofEntries hs⟩
    · rintro ⟨packages, rules, h⟩
      exact h.exists_ofEntries hwords
    · intro h
      rcases violation_of_ofEntries h with ⟨package, hviolation⟩ | hwordless
      · exact ⟨package, hviolation.isConfiguration hwords, hviolation⟩
      · exact absurd hwordless (hwords e)
    · rintro ⟨package, -, hviolation⟩
      exact hviolation.ofEntries_eq fun _ _ hlists => exists_wording_of_not_wordless hwords hlists

end Settings

/-- The first whole number that is too long to be written out, where a column should be named. -/
def longColumn : Value := .int (Nat.pow 10 Text.digitLimit)

def longColumnEntries : List (Value × Value) :=
  [(.str "version", .int 1),
    (.str "packages", .list [.map [(.str "name", .str "db"), (.str "overrides", .list [
      .map [(.str "go_type", .str "a.com/p.T"), (.str "column", longColumn)]])]])]

/-- Its error is none of configuration and carries no package. -/
theorem longColumn_not_promised :
    ¬Settings.AnswersAsPromised longColumnEntries ∧
      Settings.ofEntries longColumnEntries = .error .unwritable := by
  have herror : Settings.ofEntries longColumnEntries = .error .unwritable :=
    eq_error_of_match (by decide +kernel)
  refine ⟨fun h => ?_, herror⟩
  obtain ⟨package, hconf, -⟩ := (h.refused _).mp herror
  have hwordless : Error.unwritable.IsWordless := .inr rfl
  exact hwordless.not_isConfiguration package hconf

end RowModel
