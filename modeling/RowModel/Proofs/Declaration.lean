import RowModel.Proofs.Reference
import RowModel.Proofs.Spelling
import RowModel.Proofs.Traversal
import RowModel.Settings.Load

/-!
What settings declare is well formed. Whatever kinds of values the entries hold, a target that was
read has an import path and a qualified type, a rule for a SQL type names one, and a column reference
has three parts that are not empty and hold no point. Main results: `Rule.parse_wellFormed` for one
entry, `Settings.parse_declared` for a whole document. So no rule reaches a column without a name, or
with a point in its name.
-/
namespace RowModel

open Text

/-- What counts as true is put into some words. -/
theorem Value.words_ne_empty [Machine] {v : Value} {s : String} (ht : v.truthy = true)
    (h : v.text? = some s) : s ≠ "" := by
  rintro rfl
  have hv : v = .str "" := text?_eq_empty_iff.mp h
  rw [hv] at ht
  exact absurd ht (by decide)

namespace Target

/-- An import path, and a type that is qualified and named without points and slashes. A star may
stand in front of the type. -/
structure WellFormed (t : Target) : Prop where
  importPath_ne_empty : t.importPath ≠ ""
  qualified : ∃ mark qualifier name : String,
    (mark = "" ∨ mark = "*") ∧ qualifier ≠ "" ∧ name ≠ "" ∧
      '.' ∉ name.toList ∧ '/' ∉ name.toList ∧ t.typeName = mark ++ qualifier ++ "." ++ name

/-- The parts that spell a target make it well formed. -/
theorem parse_wellFormed {raw : String} {package : Option String} {t : Target}
    (h : parse raw package = .ok t) : t.WellFormed := by
  obtain ⟨s, ⟨hvalid, -⟩, rfl⟩ := exists_spelling (parse_eq_ok_iff.mp h)
  refine ⟨by simp [Spelling.target, hvalid.segment_ne_nil], String.ofList s.mark,
    String.ofList s.qualifier, String.ofList s.name, ?_, by simpa using hvalid.qualifier_ne_nil,
    by simpa using hvalid.name_ne_nil, by simpa using hvalid.point_not_mem_name,
    by simpa using hvalid.slash_not_mem_name, ?_⟩
  · rw [Spelling.mark]
    cases s.starred with
    | true => exact .inr rfl
    | false => exact .inl rfl
  · rw [← String.toList_inj]
    simp [Spelling.target]

end Target

/-- The reference in an entry has parts that are not empty and hold no point. -/
theorem ColumnEntry.wellFormed [Machine] {package : Option String} {entries : List (Value × Value)}
    {ref : ColumnRef} (h : ColumnEntry package entries ref) : ref.WellFormed := by
  obtain ⟨raw, -, href⟩ := h.reference
  exact ColumnRef.parse_wellFormed href

namespace Rule

def WellFormed : Rule → Prop
  | type sqlType _ t => sqlType ≠ "" ∧ t.WellFormed
  | column r t | array r t => r.WellFormed ∧ t.WellFormed

theorem WellFormed.target {r : Rule} (h : r.WellFormed) : r.target.WellFormed := by
  cases r <;> exact h.2

/-- A well-formed rule for a column names a column with well-formed parts. -/
theorem WellFormed.column {r : Rule} (h : r.WellFormed) {c : ColumnRef} (hc : r.column? = some c) :
    c.WellFormed := by
  cases r with
  | type _ _ _ => cases hc
  | column _ _ | array _ _ =>
    cases hc
    exact h.1

/-- Every rule that an entry declares is well formed, whatever the entry holds. -/
theorem parse_wellFormed [Machine] {raw : Value} {package : Option String} {r : Rule}
    (h : parse raw package = .ok r) : r.WellFormed := by
  obtain ⟨entries, goType, -, ht, habout⟩ := parse_eq_ok_iff.mp h
  have htarget := Target.parse_wellFormed ht
  cases r with
  | type sqlType nullable t =>
    cases habout with
    | type hentry =>
      exact ⟨Value.words_ne_empty hentry.isType (Value.text?_of_wording hentry.words), htarget⟩
  | column ref t =>
    cases habout with
    | column hentry _ => exact ⟨hentry.wellFormed, htarget⟩
  | array ref t =>
    cases habout with
    | array hentry _ => exact ⟨hentry.wellFormed, htarget⟩

end Rule

namespace Settings

theorem ofParts_eq_ok {version : Option String} {packages : List Package} {overrides : List Rule}
    {s : Settings} (h : ofParts version packages overrides = .ok s) :
    s.version = version ∧ s.packages = packages ∧ s.overrides = overrides := by
  rw [ofParts] at h
  split at h
  · cases h
  · cases h
    exact ⟨rfl, rfl, rfl⟩

end Settings

section

variable [Machine]

/-- A raw entry declares a well-formed rule. -/
def Rule.DeclaredBy (package : Option String) (raw : Value) (r : Rule) : Prop :=
  Rule.parse raw package = .ok r ∧ r.WellFormed

/-- Raw entries declare rules one by one. -/
theorem declaredBy_of_mapM {package : Option String} {raws : List Value} {rules : List Rule}
    (h : raws.mapM (Rule.parse · package) = .ok rules) :
    List.Forall₂ (Rule.DeclaredBy package) raws rules :=
  (mapM_eq_ok_iff.mp h).imp fun _ _ hr => ⟨hr, Rule.parse_wellFormed hr⟩

/-- A mapping declares a package under a name, with a rule for each entry of its list. -/
def Package.DeclaredBy (raw : Value) (p : Package) : Prop :=
  ∃ entries raws, raw = .map entries ∧ Value.get "name" entries = .str p.name ∧ p.name ≠ "" ∧
    (Value.get "overrides" entries).items? = some raws ∧
    List.Forall₂ (Rule.DeclaredBy (some p.name)) raws p.overrides

theorem Package.ofEntries_eq_ok {entries : List (Value × Value)} {name : String} {p : Package}
    (h : ofEntries entries name = .ok p) :
    p.name = name ∧ ∃ raws, (Value.get "overrides" entries).items? = some raws ∧
      raws.mapM (Rule.parse · (some name)) = .ok p.overrides := by
  rw [ofEntries] at h
  split at h
  · cases h
  · next raws hraws =>
    split at h
    · cases h
    · next rules hrules =>
      cases h
      exact ⟨rfl, raws, hraws, hrules⟩

/-- An accepted package is declared by its raw value. -/
theorem Package.declaredBy_of_parse {raw : Value} {p : Package} (h : Package.parse raw = .ok p) :
    Package.DeclaredBy raw p := by
  rw [parse.eq_def] at h
  split at h
  · next entries =>
    split at h
    · next name hname =>
      split at h
      · cases h
      · next hne =>
        obtain ⟨rfl, raws, hraws, hrules⟩ := ofEntries_eq_ok h
        exact ⟨entries, raws, rfl, hname, hne, hraws, declaredBy_of_mapM hrules⟩
    · cases h
  · cases h

/-- The entries of a document declare settings: a package for each entry of one list, a rule for all
packages for each entry of another. -/
structure Settings.DeclaredBy (entries : List (Value × Value)) (s : Settings) : Prop where
  version : ((Value.find? "version" entries).getD (.str "1")).text? = s.version
  packages : ∃ raws, (Value.get "packages" entries).items? = some raws ∧
    List.Forall₂ Package.DeclaredBy raws s.packages
  names_nodup : (s.packages.map Package.name).Nodup
  overrides : ∃ raws, (Value.get "overrides" entries).items? = some raws ∧
    List.Forall₂ (Rule.DeclaredBy none) raws s.overrides

namespace Settings

/-- Accepted settings are declared by the entries they come from. -/
theorem ofEntries_declared {entries : List (Value × Value)} {s : Settings}
    (h : ofEntries entries = .ok s) : DeclaredBy entries s := by
  rw [ofEntries] at h
  split at h
  · cases h
  · cases h
  · next rawPackages rawRules hpackages hrules =>
    obtain ⟨version, hversion, h⟩ := bind_eq_ok.mp h
    obtain ⟨packages, hps, h⟩ := bind_eq_ok.mp h
    obtain ⟨rules, hrs, h⟩ := bind_eq_ok.mp h
    obtain ⟨hv, rfl, rfl⟩ := ofParts_eq_ok h
    exact {
      version := by rw [hv, Value.text?_of_wording hversion]
      packages := ⟨rawPackages, hpackages,
        (mapM_eq_ok_iff.mp hps).imp fun _ _ hp => Package.declaredBy_of_parse hp⟩
      names_nodup := s.distinct
      overrides := ⟨rawRules, hrules, declaredBy_of_mapM hrs⟩ }

theorem ofValue_declared {raw : Value} {s : Settings} (h : ofValue raw = .ok s) :
    ∃ entries, raw = .map entries ∧ DeclaredBy entries s := by
  rw [ofValue.eq_def] at h
  split at h
  · next entries => exact ⟨entries, rfl, ofEntries_declared h⟩
  · cases h

/-- All rules that count for a declared package are well formed, its own and the shared ones. -/
theorem DeclaredBy.rules_wellFormed {entries : List (Value × Value)} {s : Settings}
    (h : DeclaredBy entries s) {p : Package} (hp : p ∈ s.packages) {r : Rule}
    (hr : r ∈ s.rulesOf p) : r.WellFormed := by
  obtain ⟨rawPackages, -, hpackages⟩ := h.packages
  obtain ⟨rawRules, -, hrules⟩ := h.overrides
  rcases List.mem_append.mp hr with hr | hr
  · obtain ⟨raw, -, entries, raws, -, -, -, -, hown⟩ := exists_mem_of_forall₂ hpackages.flip hp
    obtain ⟨raw, -, -, hwell⟩ := exists_mem_of_forall₂ hown.flip hr
    exact hwell
  · obtain ⟨raw, -, -, hwell⟩ := exists_mem_of_forall₂ hrules.flip hr
    exact hwell

end Settings

/-- With any reader, what is loaded is a mapping whose version is put into words as 1. -/
theorem loadWith_eq_ok_iff {read : String → Except Yaml.Fault Value} {text : String}
    {entries : List (Value × Value)} :
    loadWith read text = .ok entries ↔
      read text = .ok (.map entries) ∧ (Value.get "version" entries).wording .version = .ok "1" := by
  rw [loadWith]
  split
  · next h => simp [h]
  · next h => simp [h]
  · next h => simp [h]
  · next h => simp [h]
  · next loaded h =>
    simp only [h, Except.ok.injEq, Value.map.injEq]
    split
    · next hnull =>
      simp only [reduceCtorEq, false_iff, not_and]
      rintro rfl hv
      rw [hnull] at hv
      exact absurd (Value.text?_of_wording hv) (by simp [Value.text?, Value.inner?])
    · split
      · next e he =>
        simp only [reduceCtorEq, false_iff, not_and]
        rintro rfl hv
        cases he.symm.trans hv
      · next v hv =>
        split
        · next hsupported =>
          have hone : v = "1" := by simpa [supportedVersions] using hsupported
          subst hone
          constructor
          · intro hl
            cases hl
            exact ⟨rfl, hv⟩
          · rintro ⟨rfl, -⟩
            rfl
        · next hsupported =>
          constructor
          · intro hl
            split at hl <;> cases hl
          · rintro ⟨rfl, hone⟩
            cases hv.symm.trans hone
            exact absurd (by decide) hsupported
  · next v hmap h =>
    simp only [h, reduceCtorEq, Except.ok.injEq, false_iff, not_and]
    rintro rfl
    exact absurd rfl (hmap entries)

/-- A document that is loaded has a supported version. -/
theorem version_of_loadWith {read : String → Except Yaml.Fault Value} {text : String}
    {entries : List (Value × Value)} (h : loadWith read text = .ok entries) :
    ∃ version, Value.find? "version" entries = some version ∧ version.text? = some "1" := by
  have hone := Value.text?_of_wording (loadWith_eq_ok_iff.mp h).2
  rw [Value.get] at hone
  cases hfind : Value.find? "version" entries with
  | none =>
    rw [hfind] at hone
    exact absurd hone (by simp [Value.text?, Value.inner?])
  | some version =>
    rw [hfind] at hone
    exact ⟨version, rfl, hone⟩

/-- Settings that a document gives are what its entries declare, each rule well formed and in its
place, however the text was read. So a column with an empty part or a point in a part, such as one
without a name, is never typed by a rule for columns, nor refused for one. -/
theorem Settings.parse_declared {read : String → Except Yaml.Fault Value} {text : String}
    {s : Settings} (h : Settings.parseWith read text = .ok s) :
    s.version = some "1" ∧
      (∃ entries, loadWith read text = .ok entries ∧ DeclaredBy entries s) ∧
      ∀ p ∈ s.packages, ∀ c : Column, (∃ part ∈ c.ref.parts, part = "" ∨ '.' ∈ part.toList) →
        (∀ r ∈ s.rulesOf p, r.column? ≠ some c.ref) ∧
          resolveColumn c (s.rulesOf p) (some p.name) = .ok none := by
  rw [parseWith] at h
  split at h
  · cases h
  · next entries hload =>
    have hdeclared := ofEntries_declared h
    obtain ⟨version, hfind, hone⟩ := version_of_loadWith hload
    have hversion : s.version = some "1" := by
      rw [← hdeclared.version, hfind]
      exact hone
    refine ⟨hversion, ⟨entries, hload, hdeclared⟩, ?_⟩
    intro p hp c hc
    obtain ⟨part, hpart, hbad⟩ := hc
    have hnone : ∀ r ∈ s.rulesOf p, r.column? ≠ some c.ref := by
      intro r hr hname
      have hwell := (hdeclared.rules_wellFormed hp hr).column hname part hpart
      rcases hbad with hempty | hpoint
      · exact hwell.1 hempty
      · exact hwell.2 hpoint
    exact ⟨hnone, resolveColumn_of_unnamed (some p.name) hnone⟩

end

/-- A rule for a column inside a package, and a rule for a SQL type outside of it. -/
def fooDocument : String :=
  "version: 1\npackages:\n- name: db\n  overrides:\n  - go_type: a.com/x/go-pkg.T\n" ++
    "    column: foo.a\noverrides:\n- go_type: '*b.com/y.U'\n  postgres_type: text\n"

def fooRule : Rule := .column ⟨"public", "foo", "a"⟩ ⟨"a.com/x/go-pkg", "pkg.T"⟩

def textRule : Rule := .type "text" false ⟨"b.com/y", "*y.U"⟩

def unnamedColumn : Column := ⟨"", "text", ⟨"public", "foo"⟩, some false, false⟩

theorem fooDocument_declared :
    ∃ s, Settings.parse fooDocument = .ok s ∧
      s.packages.map (fun p => (p.name, p.overrides)) = [("db", [fooRule])] ∧
      s.overrides = [textRule] ∧ s.version = some "1" ∧
      (∃ entries, loadDocument fooDocument = .ok entries ∧ Settings.DeclaredBy entries s) ∧
      ∀ p ∈ s.packages, resolveColumn unnamedColumn (s.rulesOf p) (some p.name) = .ok none := by
  have hrun : (Settings.parse fooDocument).toOption.any (fun s =>
      s.packages.map (fun p => (p.name, p.overrides)) == [("db", [fooRule])] &&
        s.overrides == [textRule]) = true := by decide +kernel
  obtain ⟨s, hs, hrules⟩ := exists_eq_ok_of_any hrun
  simp only [Bool.and_eq_true, beq_iff_eq] at hrules
  obtain ⟨hversion, hdeclared, hunnamed⟩ := Settings.parse_declared hs
  have hempty : ∃ part ∈ unnamedColumn.ref.parts, part = "" ∨ '.' ∈ part.toList :=
    ⟨"", by decide, .inl rfl⟩
  exact ⟨s, hs, hrules.1, hrules.2, hversion, hdeclared,
    fun p hp => (hunnamed p hp unnamedColumn hempty).2⟩

end RowModel
