import RowModel.Proofs.Document.Building
import RowModel.Proofs.Document.Reading
import RowModel.Proofs.EntryErrors

/-!
Which errors loading a document ends with. Apart from entries of a supported version and errors of
configuration there are others, and each of them has its culprit: a scalar without a value, too many
collections inside one another, too many keys that lead from one mapping to the next, or a version that
cannot be written out. Which of several faults is reported depends on the order in which a tree is
built; in a plain tree it does not matter. Main results: `loadsAsPromised_iff`,
`loadsAsPromised_iff_of_plain`.
-/
namespace RowModel

open Yaml

section

variable [Machine]

/-- The version in entries cannot be put into words when it is looked at, or, as it is not supported,
in the message on that. -/
inductive WordlessVersion (entries : List (Value × Value)) : Error → Prop
  | looked {e : Error} (hwords : (Value.get "version" entries).wording .version = .error e) :
    WordlessVersion entries e
  | message {v : String} {e : Error}
    (hversion : (Value.get "version" entries).wording .version = .ok v) (hv : v ∉ supportedVersions)
    (hwords : (Value.get "version" entries).wording .message = .error e) : WordlessVersion entries e

/-- What makes loading a document end with an error that is none of configuration, and that error. -/
inductive Culprit (text : String) : Error → Prop
  /-- The tokens end with a character code or the number of a version that does not exist, and can be
  read up to there. -/
  | token {source : Source} {f : ScalarFault} (hsource : Source.ofText? text.toList = some source)
    (htoken : .fault (.noValue f) ∈ Token.ofSource source)
    (hread : readNode text.toList = .error (.noValue f)) : Culprit text (.scalar f)
  /-- More collections stand around a node than may. -/
  | depth (hread : readNode text.toList = .error .tooDeep) : Culprit text .tooDeep
  /-- A node under the tag of a truth value, a number or a date has no value, and the tree can be built
  up to there. -/
  | node {root x : Node} {f : ScalarFault} {m : Merges}
    (hroot : readNode text.toList = .ok (some root)) (hx : root.Within x)
    (htag : x.tag.mayFail = true) (hvalue : x.scalar? m = .error (.noValue f))
    (hbuild : root.build = .error (.noValue f)) : Culprit text (.scalar f)
  /-- From a mapping more merge keys, or more keys `=`, lead on than may be followed, and the tree can
  be built up to there. -/
  | path {root x : Node} (hroot : readNode text.toList = .ok (some root)) (hx : root.Within x)
    (hpath : x.Leads .merge (Machine.merging + 1) ∨ x.Leads .value (Machine.spelling + 1))
    (hbuild : root.build = .error .tooDeep) : Culprit text .tooDeep
  /-- The value is a mapping, and its version has no words. -/
  | version {entries : List (Value × Value)} {e : Error} (hload : Yaml.load text = .ok (.map entries))
    (hversion : WordlessVersion entries e) : Culprit text e

/-- What loading promises: entries of a supported version or an error of configuration. -/
def LoadsAsPromised (text : String) : Prop :=
  (∃ entries version, loadDocument text = .ok entries ∧
      Value.find? "version" entries = some version ∧ version.text? = some "1") ∨
    ∃ fault package override, loadDocument text = .error (.configuration fault package override)

variable {text : String} {e : Error}

theorem WordlessVersion.isWordless {entries : List (Value × Value)} (h : WordlessVersion entries e) :
    e.IsWordless := by
  cases h with
  | looked hwords | message _ _ hwords => exact Value.isWordless_of_wording hwords

theorem WordlessVersion.ne_null {entries : List (Value × Value)} (h : WordlessVersion entries e) :
    Value.get "version" entries ≠ .null := by
  intro hnull
  cases h with
  | looked hwords | message _ _ hwords =>
    rw [hnull] at hwords
    cases hwords

/-- Each culprit by itself is enough. -/
theorem Culprit.loadDocument_eq (h : Culprit text e) : loadDocument text = .error e := by
  cases h with
  | token _ _ hread | depth hread => simp [loadDocument, loadWith, Yaml.load, hread]
  | node hroot _ _ _ hbuild | path hroot _ _ hbuild =>
    simp [loadDocument, loadWith, Yaml.load, hroot, hbuild]
  | version hload hversion =>
    rw [loadDocument, loadWith, hload]
    dsimp only
    split
    · next hnull => exact absurd hnull hversion.ne_null
    · cases hversion with
      | looked hwords => rw [hwords]
      | message hone hv hwords => simp [hone, hv, hwords]

/-- The error for a culprit is none of configuration. -/
theorem Culprit.not_isConfiguration (h : Culprit text e) {package : Option String} :
    ¬e.IsConfiguration package := by
  cases h with
  | token _ _ _ | depth _ | node _ _ _ _ _ | path _ _ _ _ =>
    rintro ⟨fault, override, h⟩
    cases h
  | version _ hversion => exact hversion.isWordless.not_isConfiguration package

/-- What a document without a value is: ill-formed, with a collection inside itself, or one with a
culprit. -/
inductive Traced (text : String) : Fault → Prop
  | illFormed : Traced text .illFormed
  | endless : Traced text .endless
  | tooDeep (hculprit : Culprit text .tooDeep) : Traced text .tooDeep
  | noValue {f : ScalarFault} (hculprit : Culprit text (.scalar f)) : Traced text (.noValue f)

/-- A document that cannot be read has one of these faults. -/
theorem traced_of_readNode {f : Fault} (h : readNode text.toList = .error f) : Traced text f := by
  have hread := h
  unfold readNode at h
  split at h
  · cases h
    exact .illFormed
  · next source hsource =>
    cases f with
    | illFormed => exact .illFormed
    | endless => exact .endless
    | tooDeep => exact .tooDeep (.depth hread)
    | noValue g =>
      cases Node.foreseen_of_ofTokens h with
      | token htoken => exact .noValue (.token hsource htoken hread)

theorem traced_of_build {root : Node} {f : Fault} (hroot : readNode text.toList = .ok (some root))
    (h : root.build = .error f) : Traced text f := by
  have hbuild := h
  cases Node.fails_of_build (Node.numbered_of_readNode hroot) h with
  | illFormed => exact .illFormed
  | merges hx hpath => exact .tooDeep (.path hroot hx (.inl hpath) hbuild)
  | @scalar x m _ hx hf =>
    rcases (Node.scalar?_meets m x).of_eq_error hf with (rfl | ⟨⟨g, rfl⟩, htag⟩) | ⟨rfl, hpath⟩
    · exact .illFormed
    · exact .noValue (.node hroot hx htag hf hbuild)
    · exact .tooDeep (.path hroot hx (.inr hpath) hbuild)

theorem traced_of_load {f : Fault} (h : Yaml.load text = .error f) : Traced text f := by
  unfold Yaml.load at h
  split at h
  · next f' hread =>
    cases h
    exact traced_of_readNode hread
  · cases h
  · next root hroot => exact traced_of_build hroot h

/-- Every error is one of configuration or has a culprit. -/
theorem culprit_of_loadDocument (hcovered : Yaml.load text ≠ .error .endless)
    (h : loadDocument text = .error e) :
    (∃ fault package override, e = .configuration fault package override) ∨ Culprit text e := by
  rw [loadDocument, loadWith] at h
  split at h
  · cases h
    exact .inl ⟨_, _, _, rfl⟩
  · next hload =>
    cases h
    cases traced_of_load hload with
    | tooDeep hculprit => exact .inr hculprit
  · next hload => exact absurd hload hcovered
  · next hload =>
    cases h
    cases traced_of_load hload with
    | noValue hculprit => exact .inr hculprit
  · next entries hload =>
    split at h
    · cases h
      exact .inl ⟨_, _, _, rfl⟩
    · split at h
      · next e' hwords =>
        cases h
        exact .inr (.version hload (.looked hwords))
      · next v hversion =>
        split at h
        · cases h
        · next hv =>
          split at h
          · next e' hwords =>
            cases h
            exact .inr (.version hload (.message hversion (by simpa using hv) hwords))
          · cases h
            exact .inl ⟨_, _, _, rfl⟩
  · cases h
    exact .inl ⟨_, _, _, rfl⟩

theorem not_loadsAsPromised_of_scalar {f : ScalarFault} (h : loadDocument text = .error (.scalar f)) :
    ¬LoadsAsPromised text := by
  rintro (⟨entries, version, hload, -⟩ | ⟨fault, package, override, hload⟩)
  · cases h.symm.trans hload
  · cases h.symm.trans hload

theorem Culprit.not_loadsAsPromised (h : Culprit text e) : ¬LoadsAsPromised text := by
  rintro (⟨entries, version, hload, -⟩ | ⟨fault, package, override, hload⟩)
  · rw [h.loadDocument_eq] at hload
    cases hload
  · rw [h.loadDocument_eq] at hload
    cases hload
    exact h.not_isConfiguration ⟨fault, override, rfl⟩

theorem culprit_of_not_loadsAsPromised (hcovered : Yaml.load text ≠ .error .endless)
    (h : ¬LoadsAsPromised text) : ∃ e, Culprit text e := by
  cases hload : loadDocument text with
  | ok entries =>
    obtain ⟨version, hfind, hone⟩ := version_of_loadWith hload
    exact absurd (.inl ⟨entries, version, hload, hfind, hone⟩) h
  | error e =>
    rcases culprit_of_loadDocument hcovered hload with ⟨fault, package, override, rfl⟩ | hculprit
    · exact absurd (.inr ⟨fault, package, override, hload⟩) h
    · exact ⟨e, hculprit⟩

/-- In a plain tree no order matters: loading keeps its promise exactly if every scalar has a value
and the version has words where it needs them. -/
theorem loadsAsPromised_iff_of_plain {root : Node} (hroot : readNode text.toList = .ok (some root))
    (hplain : root.Plain) :
    LoadsAsPromised text ↔ (¬∃ f, root.LacksValue f) ∧
      ∀ entries, Yaml.load text = .ok (.map entries) → ¬∃ e, WordlessVersion entries e := by
  have hnumbered := Node.numbered_of_readNode hroot
  have hload : Yaml.load text = root.build := by rw [Yaml.load, hroot]
  constructor
  · intro hkept
    refine ⟨fun hlacks => ?_, fun entries hentries ⟨e, hversion⟩ =>
      (Culprit.version hentries hversion).not_loadsAsPromised hkept⟩
    cases hbuild : root.build with
    | ok v => exact (hplain.build_ok_iff hnumbered).mp ⟨v, hbuild⟩ hlacks
    | error f =>
      obtain ⟨n, t, s, hx, hf⟩ := hplain.lacksValue_of_build hnumbered hbuild
      obtain ⟨⟨g, rfl⟩, htag⟩ :=
        (scalarValue_meets_of_isPlain n (hplain.scalar hx) s).of_eq_error hf
      have hscalar := (hplain.scalar?_eq hx .empty).trans hf
      exact (Culprit.node hroot hx htag hscalar hbuild).not_loadsAsPromised hkept
  · rintro ⟨hvalues, hversion⟩
    obtain ⟨v, hv⟩ := (hplain.build_ok_iff hnumbered).mpr hvalues
    have hcovered : Yaml.load text ≠ .error .endless := by
      rw [hload, hv]
      exact nofun
    by_contra hbroken
    obtain ⟨e, hculprit⟩ := culprit_of_not_loadsAsPromised hcovered hbroken
    cases hculprit with
    | token _ _ hread | depth hread =>
      rw [hroot] at hread
      cases hread
    | node hroot' _ _ _ hbuild | path hroot' _ _ hbuild =>
      cases hroot.symm.trans hroot'
      cases hv.symm.trans hbuild
    | version hentries hwordless => exact hversion _ hentries ⟨e, hwordless⟩

/-- Loading keeps its promise exactly unless the document has a culprit. A document with a collection
inside itself is well formed, but its value is none of those here. -/
theorem loadsAsPromised_iff (hcovered : Yaml.load text ≠ .error .endless) :
    LoadsAsPromised text ↔ ¬∃ e, Culprit text e := by
  constructor
  · rintro hkept ⟨e, hculprit⟩
    exact hculprit.not_loadsAsPromised hkept
  · intro hnone
    by_contra hbroken
    exact hnone (culprit_of_not_loadsAsPromised hcovered hbroken)

end

/-- A date with a month that does not exist. -/
def impossibleDate : String := "version: 1\na: 2001-13-45\n"

theorem loadDocument_impossibleDate :
    loadDocument impossibleDate = .error (.scalar .noSuchValue) :=
  eq_error_of_match (by decide +kernel)

theorem impossibleDate_culprit :
    Yaml.load impossibleDate ≠ .error .endless ∧ Culprit impossibleDate (.scalar .noSuchValue) := by
  have hcovered : Yaml.load impossibleDate ≠ .error .endless := by
    intro hload
    have hloaded := loadDocument_impossibleDate
    rw [loadDocument, loadWith, hload] at hloaded
    cases hloaded
  have hbroken := not_loadsAsPromised_of_scalar loadDocument_impossibleDate
  rw [loadsAsPromised_iff hcovered, not_not] at hbroken
  obtain ⟨e, hculprit⟩ := hbroken
  cases hculprit.loadDocument_eq.symm.trans loadDocument_impossibleDate
  exact ⟨hcovered, hculprit⟩

theorem impossibleDate_not_as_promised :
    ¬LoadsAsPromised impossibleDate ∧
      loadDocument impossibleDate = .error (.scalar .noSuchValue) :=
  ⟨not_loadsAsPromised_of_scalar loadDocument_impossibleDate, loadDocument_impossibleDate⟩

end RowModel
