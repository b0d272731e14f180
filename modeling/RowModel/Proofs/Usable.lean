import RowModel.Proofs.Spelling

/-!
Which targets can be used as they stand: those with one point in their type, with a qualifier that
is free of the affixes which no identifier has, and with a star in front only where one was declared.
An affix is left out once, a point inside the last segment stays, and so does a star behind the
path; so a target that was read need not be usable. Main result: `Target.usable_iff`, exactly when
it is.
-/
namespace RowModel

open Text

/-! What leaving out the affixes of a segment does to its points, its affixes and its stars. -/

/-- Two letters and the hyphen behind them stand in front of a text up to a hyphen, or they are all
of it but for their own. -/
theorem hyphened_prefix_iff {a b : Char} (ha : a ≠ '-') (hb : b ≠ '-') (q r : List Char) :
    [a, b, '-'] <+: q ++ '-' :: r ↔ [a, b, '-'] <+: q ∨ q = [a, b] := by
  match q with
  | [] => simp [List.cons_prefix_cons, ha]
  | [c] => simp [List.cons_prefix_cons, hb]
  | [c, d] => simp [List.cons_prefix_cons, eq_comm]
  | c :: d :: e :: q => simp [List.cons_prefix_cons]

/-- With an affix at its end a text has one in front if it had, or if it is `go` alone. -/
theorem go_prefix_append_iff {q : List Char} :
    "go-".toList <+: q ++ "-go".toList ↔ "go-".toList <+: q ∨ q = "go".toList :=
  hyphened_prefix_iff (by decide) (by decide) q ['g', 'o']

theorem go_suffix_append_iff {q : List Char} :
    "-go".toList <:+ "go-".toList ++ q ↔ "-go".toList <:+ q ∨ q = "go".toList := by
  have hmirror := hyphened_prefix_iff (by decide : 'o' ≠ '-') (by decide : 'g' ≠ '-') q.reverse
    ['o', 'g']
  rw [List.reverse_eq_iff] at hmirror
  rw [← List.reverse_prefix, ← List.reverse_prefix, List.reverse_append]
  exact hmirror

namespace Trims

variable {segment qualifier : List Char} (h : Trims segment qualifier)

include h

theorem point_mem_iff : '.' ∈ segment ↔ '.' ∈ qualifier := by
  obtain ⟨inner, hstart, hend⟩ := h
  have hinner : '.' ∈ segment ↔ '.' ∈ inner := by
    rcases hstart with rfl | ⟨-, rfl⟩ <;> simp
  rw [hinner]
  rcases hend with rfl | ⟨-, rfl⟩ <;> simp

/-- A star comes to stand in front of the qualifier from the front of the segment, or from behind
the affix there. -/
theorem star_iff (hne : qualifier ≠ []) :
    ['*'] <+: qualifier ↔ "*".toList <+: segment ∨ "go-*".toList <+: segment := by
  obtain ⟨inner, hstart, hend⟩ := h
  have hinner : ['*'] <+: qualifier ↔ ['*'] <+: inner := by
    rcases hend with rfl | ⟨-, rfl⟩
    · cases qualifier with
      | nil => exact absurd rfl hne
      | cons c r => simp [List.cons_prefix_cons]
    · exact Iff.rfl
  rw [hinner]
  rcases hstart with rfl | ⟨hgo, rfl⟩
  · simp [List.cons_prefix_cons]
  · have hno : ¬ "go-*".toList <+: segment := by
      intro hstar
      exact hgo ((List.prefix_append "go-".toList ['*']).trans hstar)
    rw [or_iff_left hno]
    exact Iff.rfl

/-- The qualifier has an affix left exactly if the segment has it twice, one after the other. Only
of `go-go-go` is nothing left but the middle. -/
theorem affixes_iff :
    ¬ "go-".toList <+: qualifier ∧ ¬ "-go".toList <:+ qualifier ↔
      segment = "go-go-go".toList ∨
        ¬ "go-go-".toList <+: segment ∧ ¬ "-go-go".toList <:+ segment := by
  have hstarts : "go-go-".toList = "go-".toList ++ "go-".toList := rfl
  have hends : "-go-go".toList = "-go".toList ++ "-go".toList := rfl
  -- the segment has both affixes, the one in front, the one at the end, or none
  obtain ⟨inner, rfl | ⟨hgo, rfl⟩, rfl | ⟨hend, rfl⟩⟩ := h
  · have hmiddle : "go-".toList ++ (qualifier ++ "-go".toList) = "go-go-go".toList ↔
        qualifier = "go".toList := by
      rw [show "go-go-go".toList = "go-".toList ++ ("go".toList ++ "-go".toList) from rfl,
        List.append_right_inj, List.append_left_inj]
    rw [hmiddle, hstarts, hends, List.prefix_append_right_inj, go_prefix_append_iff,
      ← List.append_assoc, List.suffix_append_self_iff, go_suffix_append_iff]
    by_cases hgo : qualifier = "go".toList
    · rw [hgo]
      decide
    · simp only [hgo, or_false, false_or]
  · have hmiddle : "go-".toList ++ inner ≠ "go-go-go".toList := by
      intro he
      have hinner : inner = "go".toList ++ "-go".toList := List.append_cancel_left he
      exact hend (hinner ▸ List.suffix_append _ _)
    have hfree : ¬ "-go-go".toList <:+ "go-".toList ++ inner := by
      intro htwice
      rcases go_suffix_append_iff.mp ((List.suffix_append _ _).trans (hends ▸ htwice)) with hs | hs
      · exact hend hs
      · rw [hs] at htwice
        exact absurd htwice (by decide)
    rw [hstarts, List.prefix_append_right_inj, or_iff_right hmiddle, and_iff_left hend,
      and_iff_left hfree]
  · have hmiddle : qualifier ++ "-go".toList ≠ "go-go-go".toList := by
      intro he
      exact hgo (he ▸ ⟨"go-go".toList, rfl⟩)
    have hfree : ¬ "go-".toList <+: qualifier := fun hs =>
      hgo (hs.trans (List.prefix_append _ _))
    have hfree' : ¬ "go-go-".toList <+: qualifier ++ "-go".toList := fun hs =>
      hgo ((List.prefix_append _ _).trans (hstarts ▸ hs))
    rw [hends, List.suffix_append_self_iff, or_iff_right hmiddle, and_iff_right hfree,
      and_iff_right hfree']
  · have hfree : ¬ "go-go-".toList <+: segment := fun hs =>
      hgo ((List.prefix_append _ _).trans (hstarts ▸ hs))
    have hfree' : ¬ "-go-go".toList <:+ segment := fun hs =>
      hend ((List.suffix_append _ _).trans (hends ▸ hs))
    exact iff_of_true ⟨hgo, hend⟩ (.inr ⟨hfree, hfree'⟩)

end Trims

namespace Target

def unstarred (t : Target) : List Char := (splitMark t.typeName.toList).2

theorem isPointer_iff {t : Target} : t.isPointer = true ↔ ['*'] <+: t.typeName.toList := by
  rw [isPointer, beq_iff_eq]
  cases t.typeName.toList with
  | nil => simp
  | cons c r => simp [List.cons_prefix_cons, @eq_comm _ '*']

/-- One point, with a qualifier before it that has none of the affixes; and a star in front of the
type exactly if there is one in front of the text. -/
structure Usable (t : Target) (raw : String) : Prop where
  qualified : ∃ qualifier name, t.unstarred = qualifier ++ '.' :: name ∧
    '.' ∉ qualifier ∧ '.' ∉ name ∧ ¬ "go-".toList <+: qualifier ∧ ¬ "-go".toList <:+ qualifier
  pointer : t.isPointer = true ↔ ['*'] <+: strip raw.toList

/-- The point of a usable type is its last one. -/
theorem usable_iff_cut {t : Target} {raw : String} :
    t.Usable raw ↔
      (∃ cut ∈ cutLast '.' t.unstarred, '.' ∉ cut.1 ∧ ¬ "go-".toList <+: cut.1 ∧
        ¬ "-go".toList <:+ cut.1) ∧
      (t.isPointer = true ↔ ['*'] <+: strip raw.toList) := by
  constructor
  · rintro ⟨⟨qualifier, name, he, hpoint, hname, hfree⟩, hpointer⟩
    exact ⟨⟨(qualifier, name), cutLast_eq_some_iff.mpr ⟨he, hname⟩, hpoint, hfree⟩, hpointer⟩
  · rintro ⟨⟨⟨qualifier, name⟩, hcut, hpoint, hfree⟩, hpointer⟩
    obtain ⟨he, hname⟩ := cutLast_eq_some_iff.mp hcut
    exact ⟨⟨qualifier, name, he, hpoint, hname, hfree⟩, hpointer⟩

instance (t : Target) (raw : String) : Decidable (t.Usable raw) :=
  decidable_of_iff _ usable_iff_cut.symm

end Target

namespace Spelling

/-- A segment without points, without an affix that comes twice, and without a star that could be
taken for a mark. -/
structure Plain (s : Spelling) : Prop where
  point : '.' ∉ s.segment
  affixes : s.segment = "go-go-go".toList ∨
    ¬ "go-go-".toList <+: s.segment ∧ ¬ "-go-go".toList <:+ s.segment
  star : s.starred = true ∨ ¬ "*".toList <+: s.segment ∧ ¬ "go-*".toList <+: s.segment

variable {s : Spelling}

namespace Valid

theorem star_prefix_text_iff (h : s.Valid) : ['*'] <+: s.text ↔ s.starred = true := by
  rw [text, mark]
  cases hs : s.starred with
  | true => simp
  | false => simpa using h.star hs

/-- The target is for a pointer if there is a mark, or a star at the front of the qualifier. -/
theorem isPointer_target_iff (h : s.Valid) :
    s.target.isPointer = true ↔ s.starred = true ∨ ['*'] <+: s.qualifier := by
  rw [Target.isPointer_iff, target, String.toList_ofList, mark]
  cases s.starred with
  | true => simp
  | false =>
    obtain ⟨c, r, hq⟩ := List.exists_cons_of_ne_nil h.qualifier_ne_nil
    simp [hq, List.cons_prefix_cons]

theorem unstarred_target (h : s.Valid) (hstar : s.starred = true ∨ ¬ ['*'] <+: s.qualifier) :
    s.target.unstarred = s.qualifier ++ '.' :: s.name := by
  rw [Target.unstarred, target, String.toList_ofList, mark]
  cases hs : s.starred with
  | true => rfl
  | false =>
    rw [hs] at hstar
    have hfront : ¬ ['*'] <+: s.qualifier ++ '.' :: s.name := by
      obtain ⟨c, r, hq⟩ := List.exists_cons_of_ne_nil h.qualifier_ne_nil
      simpa [hq, List.cons_prefix_cons] using hstar
    exact congrArg Prod.snd (Target.splitMark_of_not_star hfront)

end Valid

/-- The star in front of a type is the mark exactly if the segment brings none there. -/
theorem star_iff (h : s.Valid) :
    (s.target.isPointer = true ↔ s.starred = true) ↔
      s.starred = true ∨ ¬ "*".toList <+: s.segment ∧ ¬ "go-*".toList <+: s.segment := by
  rw [h.isPointer_target_iff, h.qualifier.star_iff h.qualifier_ne_nil]
  cases s.starred <;> simp

/-- A target is usable exactly if its spelling is plain. -/
theorem usable_target_iff {raw : String} (h : s.Spells (strip raw.toList)) :
    s.target.Usable raw ↔ s.Plain := by
  obtain ⟨hvalid, htext⟩ := h
  -- only where the mark is the one star in front is the type behind it the qualified name
  have hpointer : (s.target.isPointer = true ↔ ['*'] <+: strip raw.toList) ↔
      s.starred = true ∨ ¬ "*".toList <+: s.segment ∧ ¬ "go-*".toList <+: s.segment := by
    rw [← htext, hvalid.star_prefix_text_iff, star_iff hvalid]
  have hunstarred (hstar : s.starred = true ∨
      ¬ "*".toList <+: s.segment ∧ ¬ "go-*".toList <+: s.segment) :
      s.target.unstarred = s.qualifier ++ '.' :: s.name := by
    apply hvalid.unstarred_target
    rwa [hvalid.qualifier.star_iff hvalid.qualifier_ne_nil, not_or]
  constructor
  · rintro ⟨⟨qualifier, name, he, hpoint, hname, hfree⟩, hstar⟩
    have hplain := hpointer.mp hstar
    have hcut := congrArg (cutLast '.') ((hunstarred hplain).symm.trans he)
    rw [cutLast_append_sep_cons hvalid.point_not_mem_name, cutLast_append_sep_cons hname,
      Option.some.injEq, Prod.mk.injEq] at hcut
    obtain ⟨rfl, -⟩ := hcut
    exact ⟨mt hvalid.qualifier.point_mem_iff.mp hpoint, hvalid.qualifier.affixes_iff.mp hfree,
      hplain⟩
  · rintro ⟨hpoint, haffixes, hstar⟩
    exact ⟨⟨s.qualifier, s.name, hunstarred hstar, mt hvalid.qualifier.point_mem_iff.mpr hpoint,
      hvalid.point_not_mem_name, hvalid.qualifier.affixes_iff.mpr haffixes⟩, hpointer.mpr hstar⟩

end Spelling

/-- A target that was read is usable exactly if the text spells it with a plain segment. -/
theorem Target.usable_iff {raw : String} {package : Option String} {t : Target}
    (h : Target.parse raw package = .ok t) :
    t.Usable raw ↔ ∃ s : Spelling, s.Spells (strip raw.toList) ∧ s.Plain := by
  have hread := parse_eq_ok_iff.mp h
  obtain ⟨s, hs, rfl⟩ := exists_spelling hread
  rw [Spelling.usable_target_iff hs]
  constructor
  · intro hplain
    exact ⟨s, hs, hplain⟩
  · rintro ⟨s', hs', hplain⟩
    rwa [hs.1.text_inj hs'.1 (hs.2.trans hs'.2.symm)]

def markedText : String := " *gopkg.in/v2.1/go-go-go.T"

def markedTarget : Target := ⟨"gopkg.in/v2.1/go-go-go", "*go.T"⟩

theorem usable_markedTarget :
    Target.parse markedText none = .ok markedTarget ∧
      (∃ s : Spelling, s.Spells (strip markedText.toList) ∧ s.Plain) ∧
      markedTarget.Usable markedText := by
  have h : Target.parse markedText none = .ok markedTarget := by decide
  have husable : markedTarget.Usable markedText := by decide
  exact ⟨h, (Target.usable_iff h).mp husable, husable⟩

def repeatedAffix : Target := ⟨"github.com/x/go-go-y", "go-y.T"⟩

def pointedSegment : Target := ⟨"gopkg.in/yaml.v3", "yaml.v3.Node"⟩

def strayStar : Target := ⟨"a.com/*x", "*x.T"⟩

/-- An affix that comes twice leaves one in the qualifier, a point in the last segment one more in
the type, and a star at its front makes a pointer that nobody declared. -/
theorem repeatedAffix_not_usable :
    (Target.parse "github.com/x/go-go-y.T" none = .ok repeatedAffix ∧
      ¬ repeatedAffix.Usable "github.com/x/go-go-y.T") ∧
    (Target.parse "gopkg.in/yaml.v3.Node" none = .ok pointedSegment ∧
      ¬ pointedSegment.Usable "gopkg.in/yaml.v3.Node") ∧
    (Target.parse "a.com/*x.T" none = .ok strayStar ∧ ¬ strayStar.Usable "a.com/*x.T") := by
  decide

end RowModel
