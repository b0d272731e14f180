import RowModel.Proofs.Reference
import RowModel.Proofs.Spelling

/-!
Which entries are the same rule. A rule keeps of its entry no more than what the entry declares, a
target and what it is for; and it keeps all of that, although blanks, affixes of a package and the
default schema are taken for granted on the way. Main result: `Rule.eq_iff_declareSame`.
-/
namespace RowModel

open Text

inductive EntryKind where
  | column
  | array
  | type
  deriving DecidableEq, Repr

def entryKind (entries : List (Value × Value)) : EntryKind :=
  if (Value.get "column" entries).truthy then
    if (Value.get "array" entries).truthy then .array else .column
  else .type

def RuleKey.kind : RuleKey → EntryKind
  | .type _ _ => .type
  | .column _ => .column
  | .array _ => .array

namespace Target

/-- Nothing but blanks at both ends is lost when a target is read. -/
theorem eq_iff_strip {raw raw' : String} {package package' : Option String} {t t' : Target}
    (h : parse raw package = .ok t) (h' : parse raw' package' = .ok t') :
    t = t' ↔ strip raw.toList = strip raw'.toList := by
  rw [parse_eq_ok_iff] at h h'
  constructor
  · intro he
    obtain ⟨s, ⟨hvalid, htext⟩, rfl⟩ := exists_spelling h
    obtain ⟨s', ⟨hvalid', htext'⟩, rfl⟩ := exists_spelling h'
    rw [← htext, ← htext', hvalid.target_inj hvalid' he]
  · intro he
    rw [he, h', Option.some.injEq] at h
    exact h.symm

end Target

section

variable [Machine]

/-- Two entries name one column, a schema put in front where there is none. -/
def NameSameColumn (e e' : List (Value × Value)) : Prop :=
  ∃ raw raw', (Value.get "column" e).text? = some raw ∧
    (Value.get "column" e').text? = some raw' ∧
      ColumnRef.normalized raw = ColumnRef.normalized raw'

def NameSameType (e e' : List (Value × Value)) : Prop :=
  (∃ sqlType, (Value.get "postgres_type" e).text? = some sqlType ∧
    (Value.get "postgres_type" e').text? = some sqlType) ∧
  (Value.get "null" e).truthy = (Value.get "null" e').truthy

structure ShareSubject (e e' : List (Value × Value)) : Prop where
  kind : entryKind e = entryKind e'
  column : entryKind e ≠ .type → NameSameColumn e e'
  type : entryKind e = .type → NameSameType e e'

theorem shareSubject_iff_of_column {e e' : List (Value × Value)} (h : entryKind e = entryKind e')
    (hne : entryKind e ≠ .type) : ShareSubject e e' ↔ NameSameColumn e e' := by
  constructor
  · intro hshare
    exact hshare.column hne
  · intro hcolumn
    exact ⟨h, fun _ => hcolumn, fun htype => absurd htype hne⟩

theorem shareSubject_iff_of_type {e e' : List (Value × Value)} (h : entryKind e = .type)
    (h' : entryKind e' = .type) : ShareSubject e e' ↔ NameSameType e e' := by
  constructor
  · intro hshare
    exact hshare.type h
  · intro htype
    exact ⟨h.trans h'.symm, fun hne => absurd h hne, fun _ => htype⟩

def DeclareSame (e e' : List (Value × Value)) : Prop :=
  (∃ goType goType', Value.get "go_type" e = .str goType ∧ Value.get "go_type" e' = .str goType' ∧
    strip goType.toList = strip goType'.toList) ∧
  ShareSubject e e'

namespace IsAbout

variable {package package' : Option String} {e e' : List (Value × Value)} {k k' : RuleKey}

/-- The kind of an entry is that of what it is about. -/
theorem entryKind_eq (h : IsAbout package e k) : entryKind e = k.kind := by
  cases h with
  | column h harray => simp [entryKind, h.isColumn, harray, RuleKey.kind]
  | array h harray => simp [entryKind, h.isColumn, harray, RuleKey.kind]
  | type h => simp [entryKind, h.isNoColumn, RuleKey.kind]

/-- Two entries have one reference exactly if they name one column. -/
theorem ref_eq_iff {ref ref' : ColumnRef} (h : ColumnEntry package e ref)
    (h' : ColumnEntry package' e' ref') : ref = ref' ↔ NameSameColumn e e' := by
  obtain ⟨raw, hwords, href⟩ := h.reference
  obtain ⟨raw', hwords', href'⟩ := h'.reference
  have htext' := (ColumnRef.parse_eq_ok_iff.mp href').2
  rw [ColumnRef.eq_iff_text href, htext']
  constructor
  · intro he
    exact ⟨raw, raw', Value.text?_of_wording hwords, Value.text?_of_wording hwords', he.symm⟩
  · rintro ⟨raw₁, raw₁', hwords₁, hwords₁', he⟩
    rw [Value.text?_of_wording hwords, Option.some.injEq] at hwords₁
    rw [Value.text?_of_wording hwords', Option.some.injEq] at hwords₁'
    rw [hwords₁, hwords₁', he]

theorem sqlType_eq_iff {sqlType sqlType' : String} (h : TypeEntry package e sqlType)
    (h' : TypeEntry package' e' sqlType') :
    RuleKey.type sqlType (Value.get "null" e).truthy =
        .type sqlType' (Value.get "null" e').truthy ↔ NameSameType e e' := by
  rw [RuleKey.type.injEq, NameSameType, Value.text?_of_wording h.words,
    Value.text?_of_wording h'.words]
  simp [eq_comm]

/-- The key of a rule is what its entry is about. -/
theorem key_eq_iff (h : IsAbout package e k) (h' : IsAbout package' e' k') :
    k = k' ↔ ShareSubject e e' := by
  have hk := h.entryKind_eq
  have hk' := h'.entryKind_eq
  -- keys of two kinds differ, and so do what their entries are about
  by_cases hkind : k.kind = k'.kind
  · have hsame : entryKind e = entryKind e' := hk.trans (hkind.trans hk'.symm)
    cases h with
    | column h _ =>
      cases h' with
      | column h' _ =>
        rw [RuleKey.column.injEq, ref_eq_iff h h', shareSubject_iff_of_column hsame]
        exact hk ▸ EntryKind.noConfusion
      | array _ _ => cases hkind
      | type _ => cases hkind
    | array h _ =>
      cases h' with
      | column _ _ => cases hkind
      | array h' _ =>
        rw [RuleKey.array.injEq, ref_eq_iff h h', shareSubject_iff_of_column hsame]
        exact hk ▸ EntryKind.noConfusion
      | type _ => cases hkind
    | type h =>
      cases h' with
      | column _ _ => cases hkind
      | array _ _ => cases hkind
      | type h' => rw [sqlType_eq_iff h h', shareSubject_iff_of_type hk hk']
  · refine iff_of_false ?_ ?_
    · rintro rfl
      exact hkind rfl
    · intro hshare
      exact hkind (hk.symm.trans (hshare.kind.trans hk'))

end IsAbout

/-- Accepted entries are one rule exactly if they declare the same. In particular no two targets
become one: texts that are read as one target are the same but for the blanks around them. -/
theorem Rule.eq_iff_declareSame {raw raw' : Value} {package package' : Option String} {r r' : Rule}
    (h : parse raw package = .ok r) (h' : parse raw' package' = .ok r') :
    (r = r' ↔ ∃ e e', raw = .map e ∧ raw' = .map e' ∧ DeclareSame e e') ∧
    ∀ goType goType' package package' t, Target.parse goType package = .ok t →
      Target.parse goType' package' = .ok t → strip goType.toList = strip goType'.toList := by
  refine ⟨?_, fun _ _ _ _ _ ht ht' => (Target.eq_iff_strip ht ht').mp rfl⟩
  obtain ⟨e, goType, ⟨rfl, hget, -⟩, ht, habout⟩ := parse_eq_ok_iff.mp h
  obtain ⟨e', goType', ⟨rfl, hget', -⟩, ht', habout'⟩ := parse_eq_ok_iff.mp h'
  rw [eq_iff_key, habout.key_eq_iff habout', Target.eq_iff_strip ht ht']
  constructor
  · rintro ⟨hsubject, hstrip⟩
    exact ⟨e, e', rfl, rfl, ⟨goType, goType', hget, hget', hstrip⟩, hsubject⟩
  · rintro ⟨d, d', he, he', ⟨g, g', hg, hg', hstrip⟩, hsubject⟩
    cases he
    cases he'
    cases hget.symm.trans hg
    cases hget'.symm.trans hg'
    exact ⟨hsubject, hstrip⟩

end

/-- An entry for an array that leaves out what is taken for granted. -/
def terseEntries : List (Value × Value) :=
  [(.str "go_type", .str " *a.com/x/go-p.T"), (.str "column", .str "foo.a"),
    (.str "array", .int 1)]

def fullEntries : List (Value × Value) :=
  [(.str "array", .bool true), (.str "postgres_type", .str ""),
    (.str "column", .str "public.foo.a"), (.str "go_type", .str "*a.com/x/go-p.T\n")]

theorem eq_iff_declareSame_full :
    Rule.parse (.map terseEntries) none =
        .ok (.array ⟨"public", "foo", "a"⟩ ⟨"a.com/x/go-p", "*p.T"⟩) ∧
      Rule.parse (.map fullEntries) (some "db") =
        .ok (.array ⟨"public", "foo", "a"⟩ ⟨"a.com/x/go-p", "*p.T"⟩) ∧
      DeclareSame terseEntries fullEntries := by
  have h : Rule.parse (.map terseEntries) none =
      .ok (.array ⟨"public", "foo", "a"⟩ ⟨"a.com/x/go-p", "*p.T"⟩) := by decide +kernel
  have h' : Rule.parse (.map fullEntries) (some "db") =
      .ok (.array ⟨"public", "foo", "a"⟩ ⟨"a.com/x/go-p", "*p.T"⟩) := by decide +kernel
  obtain ⟨e, e', he, he', hsame⟩ := (Rule.eq_iff_declareSame h h').1.mp rfl
  cases he
  cases he'
  exact ⟨h, h', hsame⟩

end RowModel
