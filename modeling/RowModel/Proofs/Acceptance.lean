import RowModel.Override.Parse
import RowModel.Proofs.RuleKey

/-!
Which entries are accepted, and as which rules. An entry that declares a target is accepted for what
it is about, a column in one shape or a SQL type at a nullability; the rule has that for its key, and
the target. Main result: `Rule.parse_eq_ok_iff`.
-/
namespace RowModel

/-- A rule is what it is for and its target. -/
theorem Rule.eq_iff_key {r r' : Rule} : r = r' ↔ r.key = r'.key ∧ r.target = r'.target := by
  cases r <;> cases r' <;> simp [Rule.key, Rule.target, and_assoc]

/-- A mapping that declares a rule with this target. -/
def Rule.Declares (raw : Value) (goType : String) (entries : List (Value × Value)) : Prop :=
  raw = .map entries ∧ Value.get "go_type" entries = .str goType ∧ goType ≠ ""

variable [Machine]

/-- An entry about a column, and about nothing that only a SQL type has. -/
structure ColumnEntry (package : Option String) (entries : List (Value × Value))
    (ref : ColumnRef) : Prop where
  isColumn : (Value.get "column" entries).truthy = true
  isNoType : (Value.get "postgres_type" entries).truthy = false
  noNull : Value.find? "null" entries = none
  reference : ∃ raw, (Value.get "column" entries).wording (.entry package) = .ok raw ∧
    ColumnRef.parse raw package = .ok ref

/-- An entry about a SQL type, and about nothing that only a column has. -/
structure TypeEntry (package : Option String) (entries : List (Value × Value)) (sqlType : String) :
    Prop where
  isNoColumn : (Value.get "column" entries).truthy = false
  isType : (Value.get "postgres_type" entries).truthy = true
  noArray : Value.find? "array" entries = none
  words : (Value.get "postgres_type" entries).wording (.entry package) = .ok sqlType

inductive IsAbout (package : Option String) (entries : List (Value × Value)) : RuleKey → Prop
  | column {ref : ColumnRef} (h : ColumnEntry package entries ref)
    (harray : (Value.get "array" entries).truthy = false) : IsAbout package entries (.column ref)
  | array {ref : ColumnRef} (h : ColumnEntry package entries ref)
    (harray : (Value.get "array" entries).truthy = true) : IsAbout package entries (.array ref)
  | type {sqlType : String} (h : TypeEntry package entries sqlType) :
    IsAbout package entries (.type sqlType (Value.get "null" entries).truthy)

namespace Rule

variable {raw : Value} {package : Option String} {entries : List (Value × Value)}
  {goType : String} {t : Target} {r : Rule}

theorem parse_of_declares {goType : String} {entries : List (Value × Value)}
    (h : Declares raw goType entries) : parse raw package = ofEntries entries goType package := by
  obtain ⟨rfl, hget, hne⟩ := h
  simp only [parse, hget, if_neg hne]

theorem isAbout_of_ofColumn (hcolumn : (Value.get "column" entries).truthy = true)
    (htype : (Value.get "postgres_type" entries).truthy = false)
    (h : ofColumn entries (Value.get "column" entries) goType t package = .ok r) :
    r.target = t ∧ IsAbout package entries r.key := by
  rw [ofColumn] at h
  split at h
  · cases h
  · next hnull =>
    split at h
    · cases h
    · next reference hwords =>
      split at h
      · cases h
      · next ref href =>
        have hentry : ColumnEntry package entries ref :=
          ⟨hcolumn, htype, by simpa using hnull, reference, hwords, href⟩
        cases h
        split
        · next harray => exact ⟨rfl, .array hentry harray⟩
        · next harray => exact ⟨rfl, .column hentry (by simpa using harray)⟩

theorem isAbout_of_ofType (hcolumn : (Value.get "column" entries).truthy = false)
    (htype : (Value.get "postgres_type" entries).truthy = true)
    (h : ofType entries (Value.get "postgres_type" entries) goType t package = .ok r) :
    r.target = t ∧ IsAbout package entries r.key := by
  rw [ofType] at h
  split at h
  · cases h
  · next harray =>
    split at h
    · cases h
    · next sqlType hwords =>
      cases h
      exact ⟨rfl, .type ⟨hcolumn, htype, by simpa using harray, hwords⟩⟩

/-- What an accepted entry is about is the key of its rule. -/
theorem isAbout_of_ofEntries (h : ofEntries entries goType package = .ok r) :
    Target.parse goType package = .ok r.target ∧ IsAbout package entries r.key := by
  simp only [ofEntries] at h
  split at h
  · cases h
  · cases h
  · next hcolumn htype =>
    split at h
    · cases h
    · next t ht =>
      obtain ⟨rfl, habout⟩ := isAbout_of_ofColumn hcolumn htype h
      exact ⟨ht, habout⟩
  · next hcolumn htype =>
    split at h
    · cases h
    · next t ht =>
      obtain ⟨rfl, habout⟩ := isAbout_of_ofType hcolumn htype h
      exact ⟨ht, habout⟩

theorem ofEntries_of_columnEntry {ref : ColumnRef} (ht : Target.parse goType package = .ok t)
    (h : ColumnEntry package entries ref) :
    ofEntries entries goType package =
      .ok (if (Value.get "array" entries).truthy then .array ref t else .column ref t) := by
  obtain ⟨hcolumn, htype, hnull, reference, hwords, href⟩ := h
  simp [ofEntries, hcolumn, htype, ht, ofColumn, hnull, hwords, href]

theorem ofEntries_of_typeEntry {sqlType : String} (ht : Target.parse goType package = .ok t)
    (h : TypeEntry package entries sqlType) :
    ofEntries entries goType package =
      .ok (.type sqlType (Value.get "null" entries).truthy t) := by
  simp [ofEntries, h.isNoColumn, h.isType, ht, ofType, h.noArray, h.words]

/-- An entry that is about the key of a rule, and has its target, declares the rule. -/
theorem ofEntries_of_isAbout (ht : Target.parse goType package = .ok r.target)
    (h : IsAbout package entries r.key) : ofEntries entries goType package = .ok r := by
  cases r with
  | column ref t =>
    cases h with
    | column h harray => rw [ofEntries_of_columnEntry ht h, harray]; rfl
  | array ref t =>
    cases h with
    | array h harray => rw [ofEntries_of_columnEntry ht h, harray]; rfl
  | type sqlType nullable t =>
    cases h with
    | type h => exact ofEntries_of_typeEntry ht h

/-- An entry is accepted as a rule if it declares its target and is about what the rule is for. -/
theorem parse_eq_ok_iff :
    parse raw package = .ok r ↔ ∃ entries goType, Declares raw goType entries ∧
      Target.parse goType package = .ok r.target ∧ IsAbout package entries r.key := by
  constructor
  · intro h
    rw [parse.eq_def] at h
    split at h
    · next entries =>
      split at h
      · next goType hget =>
        split at h
        · cases h
        · next hne =>
          obtain ⟨ht, habout⟩ := isAbout_of_ofEntries h
          exact ⟨entries, goType, ⟨rfl, hget, hne⟩, ht, habout⟩
      · cases h
    · cases h
  · rintro ⟨entries, goType, hd, ht, habout⟩
    rw [parse_of_declares hd, ofEntries_of_isAbout ht habout]

end Rule

end RowModel
