import RowModel.Proofs.Reference
import RowModel.Proofs.Violation

/-!
Which raw entries declare a rule, and what the others are refused for. Each fault is said of an
entry by itself, whatever else is amiss there. The faults have an order, and the first one that an
entry has is reported, unless the report is about a value that cannot be put into words. Main
result: `Rule.judgedByFirstFault_iff`.
-/
namespace RowModel

open Text

namespace Value

def isMapping : Value → Bool
  | map _ => true
  | _ => false

/-- What a mapping holds under a name; other values hold nothing. -/
def held? (name : String) : Value → Option Value
  | map entries => find? name entries
  | _ => none

def held (name : String) (v : Value) : Value := (v.held? name).getD null

def fullText? : Value → Option String
  | str s => if s = "" then none else some s
  | _ => none

@[simp] theorem isMapping_map (entries : List (Value × Value)) :
    (map entries).isMapping = true := rfl
@[simp] theorem held?_map (name : String) (entries : List (Value × Value)) :
    (map entries).held? name = find? name entries := rfl
@[simp] theorem held_map (name : String) (entries : List (Value × Value)) :
    (map entries).held name = get name entries := rfl

theorem fullText?_eq_some_iff {v : Value} {s : String} :
    v.fullText? = some s ↔ v = str s ∧ s ≠ "" := by
  cases v with
  | str t =>
    simp only [fullText?, Option.ite_none_left_eq_some, Option.some.injEq, str.injEq]
    constructor
    · rintro ⟨ht, rfl⟩
      exact ⟨rfl, ht⟩
    · rintro ⟨rfl, ht⟩
      exact ⟨ht, rfl⟩
  | _ => simp [fullText?]

end Value

instance (raw : String) : Decidable (ColumnRef.IsReference raw) :=
  decidable_of_iff
    ((raw.toList.count '.' = 1 ∨ raw.toList.count '.' = 2) ∧
      ∀ part ∈ splitOn '.' raw.toList, part ≠ [])
    ⟨fun h => ⟨h.1, h.2⟩, fun h => ⟨h.points, h.parts⟩⟩

/-- A text that is no reference is refused for an empty part, or else for its shape. -/
theorem ColumnRef.parse_of_not_isReference {text : String} {package : Option String}
    (h : ¬ IsReference text) :
    ColumnRef.parse text package = .error (.configuration
      (if [] ∈ splitOn '.' text.toList then .emptyRefPart text else .malformedRef text)
      package none) := by
  have hempty : (splitOn '.' text.toList).any List.isEmpty = true ↔
      [] ∈ splitOn '.' text.toList := by simp
  simp only [ColumnRef.parse, hempty]
  split
  · rfl
  · next hparts =>
    cases hof : ColumnRef.ofParts? (splitOn '.' text.toList) with
    | none => rfl
    | some ref =>
      refine absurd ⟨ColumnRef.exists_ofParts?_iff.mp ⟨ref, hof⟩, ?_⟩ h
      rintro part hmem rfl
      exact hparts hmem

namespace Rule

def goType? (raw : Value) : Option String := (raw.held "go_type").fullText?

theorem goType?_of_declares {raw : Value} {goType : String} {entries : List (Value × Value)}
    (h : Declares raw goType entries) : goType? raw = some goType := by
  obtain ⟨rfl, hget, hne⟩ := h
  exact Value.fullText?_eq_some_iff.mpr ⟨hget, hne⟩

theorem declares_of_goType? {goType : String} {entries : List (Value × Value)}
    (h : goType? (.map entries) = some goType) : Declares (.map entries) goType entries := by
  obtain ⟨hget, hne⟩ := Value.fullText?_eq_some_iff.mp h
  exact ⟨rfl, hget, hne⟩

inductive Fault where
  | notMapping
  | noTarget
  | bothCriteria
  | noCriterion
  | malformedTarget
  | misplaced
  | malformedRef
  deriving DecidableEq, Repr

variable [Machine]

namespace Fault

/-- The faults as they are looked for. -/
def inOrder : List Fault :=
  [notMapping, noTarget, bothCriteria, noCriterion, malformedTarget, misplaced, malformedRef]

/-- Whether an entry has a fault, whatever others it has. -/
def isIn (raw : Value) : Fault → Bool
  | notMapping => !raw.isMapping
  | noTarget => (goType? raw).isNone
  | bothCriteria => (raw.held "column").truthy && (raw.held "postgres_type").truthy
  | noCriterion => !(raw.held "column").truthy && !(raw.held "postgres_type").truthy
  | malformedTarget => !(goType? raw).any fun s => (Target.parse? (strip s.toList)).isSome
  | misplaced => (raw.held? (if (raw.held "column").truthy then "null" else "array")).isSome
  | malformedRef =>
    (raw.held "column").truthy &&
      !(raw.held "column").text?.any fun text => decide (ColumnRef.IsReference text)

/-- The error for a fault of an entry: it is about settings, unless a value that it tells has no
words. -/
def report (raw : Value) (package : Option String) : Fault → Error
  | notMapping => .configuration .overrideNotMapping package none
  | noTarget => .configuration .missingTarget package none
  | bothCriteria =>
    match (raw.held "column").quoting (.conflict package) with
    | .error e => e
    | .ok c =>
      match (raw.held "postgres_type").quoting (.conflict package) with
      | .error e => e
      | .ok s => .configuration (.bothCriteria c s) package (goType? raw)
  | noCriterion => .configuration .noCriterion package (goType? raw)
  | malformedTarget => .configuration .malformedTarget package (goType? raw)
  | misplaced =>
    .configuration
      (if (raw.held "column").truthy then .misplacedNull else .misplacedArray) package (goType? raw)
  | malformedRef =>
    match (raw.held "column").wording (.entry package) with
    | .error e => e
    | .ok text =>
      .configuration
        (if [] ∈ splitOn '.' text.toList then .emptyRefPart text else .malformedRef text)
        package none

end Fault

def firstFault? (raw : Value) : Option Fault := Fault.inOrder.find? (Fault.isIn raw)

variable {raw : Value} {package : Option String} {e : Error} {goType : String}
  {entries : List (Value × Value)} {t : Target}

/-- The faults that an entry with a target can have, in their order. -/
theorem firstFault?_of_declares (h : Declares raw goType entries) :
    firstFault? raw = [Fault.bothCriteria, .noCriterion, .malformedTarget, .misplaced,
      .malformedRef].find? (Fault.isIn raw) := by
  have hmapping : Fault.isIn raw .notMapping = false := by
    rw [Fault.isIn, h.1]
    rfl
  have htarget : Fault.isIn raw .noTarget = false := by
    rw [Fault.isIn, goType?_of_declares h]
    rfl
  rw [firstFault?, Fault.inOrder, List.find?_cons_of_neg (by simp [hmapping]),
    List.find?_cons_of_neg (by simp [htarget])]

theorem parse_of_no_goType (hraw : raw.isMapping = true) (h : goType? raw = none) :
    parse raw package = .error (.configuration .missingTarget package none) := by
  cases raw with
  | map entries =>
    rw [parse]
    split
    · next goType hget =>
      split
      · rfl
      · next hne => cases h.symm.trans (Value.fullText?_eq_some_iff.mpr ⟨hget, hne⟩)
    · rfl
  | _ => cases hraw

section

variable (hd : Declares raw goType entries) {f : Fault} (h : firstFault? raw = some f)

include hd h

/-- With one criterion, a target that cannot be read is the next fault. -/
theorem parse_of_targetFault
    (hone : (raw.held "postgres_type").truthy = !(raw.held "column").truthy)
    (htarget : Target.parse? (strip goType.toList) = none) :
    parse raw package = .error (f.report raw package) := by
  have hgo := goType?_of_declares hd
  have hf : Fault.malformedTarget = f := by
    rw [firstFault?_of_declares hd] at h
    simpa [Fault.isIn, hone, hgo, htarget] using h
  subst hf
  rw [parse_of_declares hd, ofEntries]
  obtain ⟨rfl, -, -⟩ := hd
  simp only [Value.held_map] at hone
  cases hcolumn : (Value.get "column" entries).truthy <;>
    simp [hone, hcolumn, Target.parse, htarget, Fault.report, hgo]

variable (htarget : Target.parse? (strip goType.toList) = some t)

include htarget

/-- An entry about a column can have a misplaced key or else a malformed reference. -/
theorem parse_of_columnFault (hcolumn : (raw.held "column").truthy = true)
    (htype : (raw.held "postgres_type").truthy = false) :
    parse raw package = .error (f.report raw package) := by
  have hgo := goType?_of_declares hd
  rw [firstFault?_of_declares hd] at h
  rw [parse_of_declares hd, ofEntries, Target.parse_eq_ok_iff.mpr htarget]
  obtain ⟨rfl, -, -⟩ := hd
  simp only [Value.held_map] at hcolumn htype
  simp only [hcolumn, htype]
  cases hnull : Value.find? "null" entries with
  | some v =>
    obtain rfl : Fault.misplaced = f := by
      simpa [Fault.isIn, hcolumn, htype, hgo, htarget, hnull] using h
    simp [Fault.report, hgo, ofColumn, hnull, hcolumn]
  | none =>
    have hlast : (Value.get "column" entries).text?.any
        (fun text => decide (ColumnRef.IsReference text)) = false ∧ Fault.malformedRef = f := by
      simpa [Fault.isIn, hcolumn, htype, hgo, htarget, hnull] using h
    obtain ⟨href, rfl⟩ := hlast
    cases hwords : (Value.get "column" entries).wording (.entry package) with
    | error e => simp [Fault.report, ofColumn, hnull, hwords]
    | ok text =>
      have hnot : ¬ ColumnRef.IsReference text := by
        simpa [Value.text?_of_wording hwords] using href
      simp [Fault.report, ofColumn, hnull, hwords, ColumnRef.parse_of_not_isReference hnot]

/-- An entry about a SQL type can have a misplaced key. -/
theorem parse_of_typeFault (hcolumn : (raw.held "column").truthy = false)
    (htype : (raw.held "postgres_type").truthy = true) :
    parse raw package = .error (f.report raw package) := by
  have hgo := goType?_of_declares hd
  rw [firstFault?_of_declares hd] at h
  rw [parse_of_declares hd, ofEntries, Target.parse_eq_ok_iff.mpr htarget]
  obtain ⟨rfl, -, -⟩ := hd
  simp only [Value.held_map] at hcolumn htype
  have hlast : (Value.find? "array" entries).isSome = true ∧ Fault.misplaced = f := by
    simpa [Fault.isIn, hcolumn, htype, hgo, htarget] using h
  obtain ⟨harray, rfl⟩ := hlast
  simp [hcolumn, htype, Fault.report, hgo, ofType, harray]

end

/-- An entry with a target is refused for the first of the faults that it can have. -/
theorem parse_of_declaredFault (hd : Declares raw goType entries) {f : Fault}
    (h : firstFault? raw = some f) :
    parse raw package = .error (f.report raw package) := by
  have hgo := goType?_of_declares hd
  have hfault := h
  rw [firstFault?_of_declares hd] at hfault
  cases hcolumn : (raw.held "column").truthy <;>
    cases htype : (raw.held "postgres_type").truthy
  case true.true =>
    obtain rfl : Fault.bothCriteria = f := by simpa [Fault.isIn, hcolumn, htype] using hfault
    rw [parse_of_declares hd, ofEntries]
    obtain ⟨rfl, -, -⟩ := hd
    simp only [Value.held_map] at hcolumn htype
    cases hcword : (Value.get "column" entries).quoting (.conflict package) with
    | error e => simp [hcolumn, htype, bothCriteria, Fault.report, hcword]
    | ok column =>
      cases htword : (Value.get "postgres_type" entries).quoting (.conflict package) <;>
        simp [hcolumn, htype, bothCriteria, Fault.report, hgo, hcword, htword]
  case false.false =>
    obtain rfl : Fault.noCriterion = f := by simpa [Fault.isIn, hcolumn, htype] using hfault
    rw [parse_of_declares hd, ofEntries]
    obtain ⟨rfl, -, -⟩ := hd
    simp only [Value.held_map] at hcolumn htype
    simp [hcolumn, htype, Fault.report, hgo]
  case true.false =>
    cases htarget : Target.parse? (strip goType.toList) with
    | none => exact parse_of_targetFault hd h (by rw [hcolumn, htype]; rfl) htarget
    | some t => exact parse_of_columnFault hd h htarget hcolumn htype
  case false.true =>
    cases htarget : Target.parse? (strip goType.toList) with
    | none => exact parse_of_targetFault hd h (by rw [hcolumn, htype]; rfl) htarget
    | some t => exact parse_of_typeFault hd h htarget hcolumn htype

/-- An entry with a fault is refused with the error for the first one. -/
theorem parse_of_firstFault {f : Fault} (h : firstFault? raw = some f) :
    parse raw package = .error (f.report raw package) := by
  cases raw with
  | map entries =>
    cases hgo : goType? (.map entries) with
    | none =>
      obtain rfl : Fault.noTarget = f := by
        simpa [firstFault?, Fault.inOrder, Fault.isIn, hgo] using h
      exact parse_of_no_goType rfl hgo
    | some goType => exact parse_of_declaredFault (declares_of_goType? hgo) h
  | _ =>
    cases h
    rfl

/-- What is asked of an entry: a target, and either a column and nothing that only a SQL type has,
or a SQL type and nothing that only a column has. -/
structure IsDeclaration (raw : Value) (package : Option String) : Prop where
  mapping : ∃ entries, raw = .map entries
  target : ∃ goType t, raw.held "go_type" = .str goType ∧ goType ≠ "" ∧
    Target.parse goType package = .ok t
  criterion :
    ((raw.held "column").truthy = true ∧ (raw.held "postgres_type").truthy = false ∧
      raw.held? "null" = none ∧ ∃ text ref, (raw.held "column").text? = some text ∧
        ColumnRef.parse text package = .ok ref) ∨
    ((raw.held "column").truthy = false ∧ (raw.held "postgres_type").truthy = true ∧
      raw.held? "array" = none)

theorem IsDeclaration.declares (h : IsDeclaration raw package) :
    ∃ entries goType t, Declares raw goType entries ∧ Target.parse goType package = .ok t := by
  obtain ⟨entries, rfl⟩ := h.mapping
  obtain ⟨goType, t, hget, hne, ht⟩ := h.target
  exact ⟨entries, goType, t, ⟨rfl, hget, hne⟩, ht⟩

theorem IsDeclaration.firstFault?_eq (h : IsDeclaration raw package) : firstFault? raw = none := by
  obtain ⟨entries, goType, t, hd, ht⟩ := h.declares
  have hgo := goType?_of_declares hd
  have htarget := Target.parse_eq_ok_iff.mp ht
  rw [firstFault?_of_declares hd]
  rcases h.criterion with ⟨hcolumn, htype, hnull, htext⟩ | ⟨hcolumn, htype, harray⟩
  · obtain ⟨text, ref, hwords, href⟩ := htext
    have hreference := ColumnRef.exists_parse_iff.mp ⟨ref, href⟩
    simp [Fault.isIn, hcolumn, htype, hgo, htarget, hnull, hwords, hreference]
  · simp [Fault.isIn, hcolumn, htype, hgo, htarget, harray]

/-- An entry without a fault has all that is asked of it. -/
theorem isDeclaration_of_firstFault? (h : firstFault? raw = none) (package : Option String) :
    IsDeclaration raw package := by
  have free (f : Fault) : Fault.isIn raw f = false := by
    have hmem : f ∈ Fault.inOrder := by cases f <;> decide
    simpa using List.find?_eq_none.mp h f hmem
  have hmapping : raw.isMapping = true := by simpa [Fault.isIn] using free .notMapping
  obtain ⟨goType, hgo⟩ : ∃ goType, goType? raw = some goType := by
    simpa [Fault.isIn, ← Option.isSome_iff_ne_none, Option.isSome_iff_exists] using free .noTarget
  obtain ⟨t, ht⟩ : ∃ t, Target.parse? (strip goType.toList) = some t := by
    simpa [Fault.isIn, hgo, Option.isSome_iff_exists] using free .malformedTarget
  obtain ⟨hget, hne⟩ := Value.fullText?_eq_some_iff.mp hgo
  have hboth := free .bothCriteria
  have hneither := free .noCriterion
  have hplace := free .misplaced
  have hshape := free .malformedRef
  refine ⟨?_, ⟨goType, t, hget, hne, Target.parse_eq_ok_iff.mpr ht⟩, ?_⟩
  · cases raw with
    | map entries => exact ⟨entries, rfl⟩
    | _ => cases hmapping
  · cases hcolumn : (raw.held "column").truthy with
    | true =>
      have htype : (raw.held "postgres_type").truthy = false := by
        simpa [Fault.isIn, hcolumn] using hboth
      have hnull : raw.held? "null" = none := by simpa [Fault.isIn, hcolumn] using hplace
      obtain ⟨text, hwords, hreference⟩ : ∃ text, (raw.held "column").text? = some text ∧
          ColumnRef.IsReference text := by
        simpa [Fault.isIn, hcolumn, Option.any_eq_true] using hshape
      obtain ⟨ref, href⟩ := ColumnRef.exists_parse_iff.mpr hreference
      exact .inl ⟨rfl, htype, hnull, text, ref, hwords, href⟩
    | false =>
      have htype : (raw.held "postgres_type").truthy = true := by
        simpa [Fault.isIn, hcolumn] using hneither
      have harray : raw.held? "array" = none := by simpa [Fault.isIn, hcolumn] using hplace
      exact .inr ⟨rfl, htype, harray⟩

/-- A declaration is an entry without a fault. -/
theorem isDeclaration_iff : IsDeclaration raw package ↔ firstFault? raw = none :=
  ⟨IsDeclaration.firstFault?_eq, fun h => isDeclaration_of_firstFault? h package⟩

/-- A declaration is accepted, unless its column or its SQL type cannot be put into words. -/
theorem IsDeclaration.exists_parse (h : IsDeclaration raw package)
    (hwords : ∀ e, ¬ Wordless raw package e) : ∃ r, parse raw package = .ok r := by
  obtain ⟨entries, goType, t, hd, ht⟩ := h.declares
  have htarget := Target.parse_eq_ok_iff.mp ht
  have hraw := hd.1
  subst hraw
  rw [parse_of_declares hd]
  rcases h.criterion with ⟨hcolumn, htype, hnull, hreference⟩ | ⟨hcolumn, htype, harray⟩
  · obtain ⟨text, ref, htext, href⟩ := hreference
    cases hword : (Value.get "column" entries).wording (.entry package) with
    | error e => exact absurd (.column hd hcolumn htype htarget hnull hword) (hwords e)
    | ok raw =>
      have hsame : text = raw := Option.some.inj (htext.symm.trans (Value.text?_of_wording hword))
      subst hsame
      exact ⟨_, ofEntries_of_columnEntry ht ⟨hcolumn, htype, hnull, text, hword, href⟩⟩
  · cases hword : (Value.get "postgres_type" entries).wording (.entry package) with
    | error e => exact absurd (.type hd hcolumn htype htarget harray hword) (hwords e)
    | ok sqlType => exact ⟨_, ofEntries_of_typeEntry ht ⟨hcolumn, htype, harray, hword⟩⟩

/-- What is promised of an entry: it is accepted if it is a declaration, as the rule for what it is
about; the error of any other is one of configuration, that of its first fault, and carries the
package. -/
structure JudgedByFirstFault (raw : Value) (package : Option String) : Prop where
  accepted : (∃ r, parse raw package = .ok r) ↔ IsDeclaration raw package
  declared : ∀ r, parse raw package = .ok r ↔ ∃ entries goType, Declares raw goType entries ∧
    Target.parse goType package = .ok r.target ∧ IsAbout package entries r.key
  refused : ∀ e, parse raw package = .error e ↔
    ∃ f, firstFault? raw = some f ∧ f.report raw package = e
  configuration : ∀ e, parse raw package = .error e → e.IsConfiguration package

/-- The promise is kept for all entries but those where a value that has to be put into words has
none. -/
theorem judgedByFirstFault_iff (raw : Value) (package : Option String) :
    JudgedByFirstFault raw package ↔ ¬ ∃ e, Wordless raw package e := by
  rw [not_exists]
  constructor
  · intro h e hwords
    exact hwords.isWordless.not_isConfiguration package (h.configuration e hwords.parse_eq)
  · intro hwords
    refine ⟨⟨?_, fun h => h.exists_parse hwords⟩, fun r => parse_eq_ok_iff, fun e => ⟨?_, ?_⟩, ?_⟩
    · rintro ⟨r, hr⟩
      cases hfirst : firstFault? raw with
      | none => exact isDeclaration_iff.mpr hfirst
      | some f => cases hr.symm.trans (parse_of_firstFault hfirst)
    · intro h
      cases hfirst : firstFault? raw with
      | none =>
        obtain ⟨r, hr⟩ := (isDeclaration_iff.mpr hfirst).exists_parse hwords
        cases h.symm.trans hr
      | some f => exact ⟨f, rfl, Except.error.inj ((parse_of_firstFault hfirst).symm.trans h)⟩
    · rintro ⟨f, hfirst, rfl⟩
      exact parse_of_firstFault hfirst
    · intro e h
      exact (error_of_parse h).resolve_right (hwords e)

end Rule

/-- An entry with three faults. -/
example : Rule.firstFault? (.map [(.str "go_type", .str "T"), (.str "column", .str "a."),
    (.str "null", .bool false)]) = some .malformedTarget := by decide +kernel

/-- An entry that is well-formed but for its column reference, which is a number without words. -/
def longColumnEntry : Value :=
  .map [(.str "go_type", .str "a.com/p.T"), (.str "column", longColumn)]

/-- Its one fault is the reference, and yet its error is none of configuration. -/
theorem longColumnEntry_not_judged :
    Rule.firstFault? longColumnEntry = some .malformedRef ∧
      Rule.parse longColumnEntry none = .error .unwritable ∧
      ¬ Rule.JudgedByFirstFault longColumnEntry none := by
  have htext : longColumn.text? = none := by decide +kernel
  have hwords : longColumn.wording (.entry none) = .error .unwritable := by
    rw [Value.wording, htext]
    rfl
  have hd : Rule.Declares longColumnEntry "a.com/p.T" _ := ⟨rfl, rfl, by decide⟩
  have htruthy : longColumn.truthy = true := by decide +kernel
  have hwordless : Rule.Wordless longColumnEntry none .unwritable :=
    .column hd htruthy rfl rfl rfl hwords
  refine ⟨by decide +kernel, hwordless.parse_eq, fun h => ?_⟩
  exact hwordless.isWordless.not_isConfiguration none (h.configuration _ hwordless.parse_eq)

end RowModel
