import RowModel.Proofs.Declaration

/-!
Why a raw entry declares no rule, or no package. The faults of an entry are looked for in a fixed
order, and the first one gives the error. It is one of configuration that carries the package of the
entry, but for one kind: a value of a rule has to be put into words and there are none, because a
whole number in it is too long or it is too deep. Main results: `Rule.error_of_parse`,
`Package.parse_eq_error_iff`.
-/
namespace RowModel

open Text

def Value.Lists (v : Value) (items : List Value) : Prop :=
  v = .list items ∨ v.truthy = false ∧ items = []

theorem Value.items?_eq_some_iff {v : Value} {items : List Value} :
    v.items? = some items ↔ v.Lists items := by
  cases v with
  | list raws =>
    constructor
    · intro h
      cases h
      exact .inl rfl
    · rintro (h | ⟨hfalsy, rfl⟩)
      · cases h
        rfl
      · have hraws : raws = [] := by simpa [truthy] using hfalsy
        rw [hraws]
        rfl
  | _ => simp only [items?, Lists, reduceCtorEq, false_or, Option.ite_none_left_eq_some,
      Bool.not_eq_true, Option.some.injEq, @eq_comm _ items]

/-- Neither a list nor nothing at all. -/
theorem Value.items?_eq_none_iff {v : Value} : v.items? = none ↔ ∀ items, ¬ v.Lists items := by
  simp only [Option.eq_none_iff_forall_ne_some, ne_eq, Value.items?_eq_some_iff]

def Error.IsConfiguration (package : Option String) (e : Error) : Prop :=
  ∃ fault override, e = .configuration fault package override

/-- An error for want of words is none of configuration. -/
theorem Error.IsWordless.not_isConfiguration {e : Error} (h : e.IsWordless)
    (package : Option String) : ¬ e.IsConfiguration package := by
  rintro ⟨fault, override, rfl⟩
  rcases h with h | h <;> cases h

theorem Target.isConfiguration_of_parse {raw : String} {package : Option String} {e : Error}
    (h : Target.parse raw package = .error e) : e.IsConfiguration package := by
  rw [parse] at h
  split at h
  · cases h
  · cases h
    exact ⟨_, _, rfl⟩

theorem ColumnRef.isConfiguration_of_parse {raw : String} {package : Option String} {e : Error}
    (h : ColumnRef.parse raw package = .error e) : e.IsConfiguration package := by
  simp only [parse] at h
  split at h
  · cases h
    exact ⟨_, _, rfl⟩
  · split at h
    · cases h
    · cases h
      exact ⟨_, _, rfl⟩

namespace Rule

variable [Machine]

/-- An entry where nothing is at fault before a value that has to be put into words and has none, and
the error for that. -/
inductive Wordless (raw : Value) (package : Option String) (e : Error) : Prop
  | conflict {entries : List (Value × Value)} {goType : String} (h : Declares raw goType entries)
    (hcolumn : (Value.get "column" entries).truthy = true)
    (htype : (Value.get "postgres_type" entries).truthy = true)
    (hwords : (Value.get "column" entries).quoting (.conflict package) = .error e ∨
      (∃ c, (Value.get "column" entries).quoting (.conflict package) = .ok c) ∧
        (Value.get "postgres_type" entries).quoting (.conflict package) = .error e)
  | column {entries : List (Value × Value)} {goType : String} {t : Target}
    (h : Declares raw goType entries)
    (hcolumn : (Value.get "column" entries).truthy = true)
    (htype : (Value.get "postgres_type" entries).truthy = false)
    (htarget : Target.parse? (strip goType.toList) = some t)
    (hnull : Value.find? "null" entries = none)
    (hwords : (Value.get "column" entries).wording (.entry package) = .error e)
  | type {entries : List (Value × Value)} {goType : String} {t : Target}
    (h : Declares raw goType entries)
    (hcolumn : (Value.get "column" entries).truthy = false)
    (htype : (Value.get "postgres_type" entries).truthy = true)
    (htarget : Target.parse? (strip goType.toList) = some t)
    (harray : Value.find? "array" entries = none)
    (hwords : (Value.get "postgres_type" entries).wording (.entry package) = .error e)

variable {raw : Value} {package : Option String} {e : Error}

theorem Wordless.isWordless (h : Wordless raw package e) : e.IsWordless := by
  cases h with
  | conflict _ _ _ hwords =>
    rcases hwords with hw | ⟨-, hw⟩ <;> exact Value.isWordless_of_worded hw
  | column _ _ _ _ _ hwords => exact Value.isWordless_of_worded hwords
  | type _ _ _ _ _ hwords => exact Value.isWordless_of_worded hwords

theorem Wordless.parse_eq (h : Wordless raw package e) : parse raw package = .error e := by
  cases h with
  | conflict h hcolumn htype hwords =>
    rw [parse_of_declares h, ofEntries]
    rcases hwords with hw | ⟨⟨c, hc⟩, hw⟩
    · simp [hcolumn, htype, bothCriteria, hw]
    · simp [hcolumn, htype, bothCriteria, hc, hw]
  | column h hcolumn htype htarget hnull hwords =>
    rw [parse_of_declares h, ofEntries]
    simp [hcolumn, htype, Target.parse, htarget, ofColumn, hnull, hwords]
  | type h hcolumn htype htarget harray hwords =>
    rw [parse_of_declares h, ofEntries]
    simp [hcolumn, htype, Target.parse, htarget, ofType, harray, hwords]

theorem error_of_ofColumn {entries : List (Value × Value)} {column : Value} {goType : String}
    {t : Target} (h : ofColumn entries column goType t package = .error e) :
    e.IsConfiguration package ∨
      Value.find? "null" entries = none ∧ column.wording (.entry package) = .error e := by
  rw [ofColumn] at h
  split at h
  · cases h
    exact .inl ⟨_, _, rfl⟩
  · next hnull =>
    split at h
    · next hwords =>
      cases h
      exact .inr ⟨by simpa using hnull, hwords⟩
    · split at h
      · next href =>
        cases h
        exact .inl (ColumnRef.isConfiguration_of_parse href)
      · cases h

theorem error_of_ofType {entries : List (Value × Value)} {sqlType : Value} {goType : String}
    {t : Target} (h : ofType entries sqlType goType t package = .error e) :
    e.IsConfiguration package ∨
      Value.find? "array" entries = none ∧ sqlType.wording (.entry package) = .error e := by
  rw [ofType] at h
  split at h
  · cases h
    exact .inl ⟨_, _, rfl⟩
  · next harray =>
    split at h
    · next hwords =>
      cases h
      exact .inr ⟨by simpa using harray, hwords⟩
    · cases h

/-- The column is put into words before the SQL type. -/
theorem bothCriteria_cases (column sqlType : Value) (goType : String) (package : Option String) :
    (bothCriteria column sqlType goType package).IsConfiguration package ∨
      column.quoting (.conflict package) = .error (bothCriteria column sqlType goType package) ∨
      (∃ c, column.quoting (.conflict package) = .ok c) ∧
        sqlType.quoting (.conflict package) =
          .error (bothCriteria column sqlType goType package) := by
  rw [bothCriteria]
  cases hc : column.quoting (.conflict package) with
  | error e => exact .inr (.inl rfl)
  | ok c =>
    cases hs : sqlType.quoting (.conflict package) with
    | error e => exact .inr (.inr ⟨⟨c, rfl⟩, rfl⟩)
    | ok s => exact .inl ⟨_, _, rfl⟩

/-- An entry that declares a target is refused with an error of configuration or for want of words.
-/
theorem error_of_declares {goType : String} {entries : List (Value × Value)}
    (hd : Declares raw goType entries) (h : ofEntries entries goType package = .error e) :
    e.IsConfiguration package ∨ Wordless raw package e := by
  simp only [ofEntries] at h
  split at h
  · next hcolumn htype =>
    cases h
    exact (bothCriteria_cases _ _ goType package).imp_right fun hwords =>
      .conflict hd hcolumn htype hwords
  · cases h
    exact .inl ⟨_, _, rfl⟩
  · next hcolumn htype =>
    split at h
    · next ht =>
      cases h
      exact .inl (Target.isConfiguration_of_parse ht)
    · next t ht =>
      have htarget := Target.parse_eq_ok_iff.mp ht
      exact (error_of_ofColumn h).imp_right fun hw =>
        .column hd hcolumn htype htarget hw.1 hw.2
  · next hcolumn htype =>
    split at h
    · next ht =>
      cases h
      exact .inl (Target.isConfiguration_of_parse ht)
    · next t ht =>
      have htarget := Target.parse_eq_ok_iff.mp ht
      exact (error_of_ofType h).imp_right fun hw =>
        .type hd hcolumn htype htarget hw.1 hw.2

/-- A raw entry is refused with an error of configuration in the package, or for want of words. -/
theorem error_of_parse (h : parse raw package = .error e) :
    e.IsConfiguration package ∨ Wordless raw package e := by
  rw [parse.eq_def] at h
  split at h
  · split at h
    · next hget =>
      split at h
      · cases h
        exact .inl ⟨_, _, rfl⟩
      · next hne => exact error_of_declares ⟨rfl, hget, hne⟩ h
    · cases h
      exact .inl ⟨_, _, rfl⟩
  · cases h
    exact .inl ⟨_, _, rfl⟩

/-- The errors of the other kind are those of entries where only words are missing. -/
theorem wordless_iff : Wordless raw package e ↔ parse raw package = .error e ∧ e.IsWordless := by
  constructor
  · intro h
    exact ⟨h.parse_eq, h.isWordless⟩
  · rintro ⟨h, hwordless⟩
    exact (error_of_parse h).resolve_left (hwordless.not_isConfiguration package)

end Rule

namespace Package

/-- A mapping that declares a package under this name. -/
def Named (raw : Value) (name : String) (entries : List (Value × Value)) : Prop :=
  raw = .map entries ∧ Value.get "name" entries = .str name ∧ name ≠ ""

variable [Machine]

/-- The first fault of a raw package, with the package that its error carries: none until there is a
name. -/
inductive Violation (raw : Value) : Option String → Error → Prop
  | notMapping (h : ∀ entries, raw ≠ .map entries) :
    Violation raw none (.configuration .packageNotMapping none none)
  | unnamed {entries : List (Value × Value)} (hraw : raw = .map entries)
    (h : ∀ name, Value.get "name" entries = .str name → name = "") :
    Violation raw none (.configuration .missingPackageName none none)
  | overridesNotList {name : String} {entries : List (Value × Value)}
    (hnamed : Named raw name entries)
    (h : ∀ items, ¬ (Value.get "overrides" entries).Lists items) :
    Violation raw (some name) (.configuration .overridesNotList (some name) none)
  | rule {name : String} {entries : List (Value × Value)} {items : List Value} {item : Value}
    {e : Error} (hnamed : Named raw name entries)
    (hitems : (Value.get "overrides" entries).Lists items)
    (hfirst : Reaches (Rule.parse · (some name)) items item)
    (h : Rule.parse item (some name) = .error e) : Violation raw (some name) e

variable {raw : Value} {package : Option String} {e : Error}

theorem parse_of_named {name : String} {entries : List (Value × Value)}
    (h : Named raw name entries) : parse raw = ofEntries entries name := by
  obtain ⟨rfl, hget, hne⟩ := h
  simp only [parse, hget, if_neg hne]

theorem Violation.parse_eq (h : Violation raw package e) : parse raw = .error e := by
  cases h with
  | notMapping h =>
    cases raw with
    | map entries => exact absurd rfl (h entries)
    | _ => rfl
  | @unnamed entries hraw h =>
    subst hraw
    rw [parse]
    split
    · next name hname => rw [if_pos (h name hname)]
    · rfl
  | overridesNotList hnamed h =>
    rw [parse_of_named hnamed, ofEntries, Value.items?_eq_none_iff.mpr h]
  | rule hnamed hitems hfirst h =>
    have hrules := mapM_eq_error_iff_reaches.mpr ⟨_, hfirst, h⟩
    rw [parse_of_named hnamed, ofEntries, Value.items?_eq_some_iff.mpr hitems]
    simp only [hrules]

theorem violation_of_parse (h : parse raw = .error e) : ∃ package, Violation raw package e := by
  rw [parse.eq_def] at h
  split at h
  · next entries =>
    split at h
    · next name hname =>
      split at h
      · next hempty =>
        cases h
        refine ⟨none, .unnamed rfl ?_⟩
        intro name' hname'
        rw [hname] at hname'
        cases hname'
        exact hempty
      · next hne =>
        have hnamed : Named (.map entries) name entries := ⟨rfl, hname, hne⟩
        rw [ofEntries] at h
        split at h
        · next hitems =>
          cases h
          exact ⟨some name, .overridesNotList hnamed (Value.items?_eq_none_iff.mp hitems)⟩
        · next items hitems =>
          split at h
          · next hrules =>
            cases h
            obtain ⟨item, hfirst, hitem⟩ := mapM_eq_error_iff_reaches.mp hrules
            exact ⟨some name, .rule hnamed (Value.items?_eq_some_iff.mp hitems) hfirst hitem⟩
          · cases h
    · next hname =>
      cases h
      refine ⟨none, .unnamed rfl ?_⟩
      intro name hget
      exact absurd hget (hname name)
  · next hmap =>
    cases h
    exact ⟨none, .notMapping hmap⟩

/-- A raw package is refused with the error of its first fault and with no other. -/
theorem parse_eq_error_iff : parse raw = .error e ↔ ∃ package, Violation raw package e := by
  constructor
  · exact violation_of_parse
  · rintro ⟨package, h⟩
    exact h.parse_eq

end Package

end RowModel
