import RowModel.Override.Parse
import Mathlib.Data.List.Basic

/-!
How a target is spelled. A text without blanks around it spells a target in one way at most: a star
that may stand in front, the path up to the last slash, the segment of the package, the name behind
the last point. The path and the segment are kept in the import path, so the spelling can be told
from the target as well, although an affix of the segment does not reach the type. Main result:
`Target.parse_outcome`.
-/
namespace RowModel

open Text

/-- What is left of a segment without one `go-` in front and then without one `-go` at the end, each
where there is one. -/
def Trims (segment qualifier : List Char) : Prop :=
  ∃ inner,
    (segment = "go-".toList ++ inner ∨ ¬ "go-".toList <+: segment ∧ segment = inner) ∧
      (inner = qualifier ++ "-go".toList ∨ ¬ "-go".toList <:+ inner ∧ inner = qualifier)

/-- The qualifier is what is left of a segment without affixes. -/
theorem qualifierOf_eq_iff {segment qualifier : List Char} :
    qualifierOf segment = qualifier ↔ Trims segment qualifier := by
  rw [qualifierOf, dropEnd_eq_iff]
  constructor
  · intro h
    exact ⟨dropStart "go-".toList segment, dropStart_eq_iff.mp rfl, h⟩
  · rintro ⟨inner, hstart, hend⟩
    rwa [dropStart_eq_iff.mpr hstart]

structure Spelling where
  starred : Bool
  path : List Char
  segment : List Char
  qualifier : List Char
  name : List Char

theorem Target.splitMark_of_not_star {w : List Char} (h : ¬ ['*'] <+: w) :
    splitMark w = ([], w) := by
  unfold splitMark
  split
  · next r => exact absurd ⟨r, rfl⟩ h
  · rfl

namespace Spelling

def mark (s : Spelling) : List Char := if s.starred then ['*'] else []

def body (s : Spelling) : List Char := s.path ++ s.segment ++ '.' :: s.name

def text (s : Spelling) : List Char := s.mark ++ s.body

/-- The target keeps the affixes of the segment in its path and leaves them out of its type. -/
def target (s : Spelling) : Target :=
  ⟨String.ofList (s.path ++ s.segment),
    String.ofList (s.mark ++ s.qualifier ++ '.' :: s.name)⟩

structure Valid (s : Spelling) : Prop where
  /-- A star in front is the mark. -/
  star : s.starred = false → ¬ ['*'] <+: s.body
  path : s.path = [] ∨ ['/'] <:+ s.path
  segment : '/' ∉ s.segment
  qualifier : Trims s.segment s.qualifier
  qualifier_ne_nil : s.qualifier ≠ []
  name_ne_nil : s.name ≠ []
  point_not_mem_name : '.' ∉ s.name
  slash_not_mem_name : '/' ∉ s.name

def Spells (s : Spelling) (text : List Char) : Prop := s.Valid ∧ s.text = text

variable {s s' : Spelling}

theorem mark_inj (h : s.mark = s'.mark) : s.starred = s'.starred := by
  cases hs : s.starred <;> cases hs' : s'.starred <;> simp_all [mark]

namespace Valid

theorem splitMark_text (h : s.Valid) : Target.splitMark s.text = (s.mark, s.body) := by
  rw [text, mark]
  cases hs : s.starred with
  | true => rfl
  | false => exact Target.splitMark_of_not_star (h.star hs)

theorem cutLast_body (h : s.Valid) : cutLast '.' s.body = some (s.path ++ s.segment, s.name) :=
  cutLast_append_sep_cons h.point_not_mem_name _

/-- The last segment is where the package and the type are named. -/
theorem afterLast_body (h : s.Valid) : afterLast '/' s.body = s.segment ++ '.' :: s.name := by
  rw [body, List.append_assoc]
  apply afterLast_append h.path
  simp [h.segment, h.slash_not_mem_name]

theorem qualifierOf_segment (h : s.Valid) : qualifierOf s.segment = s.qualifier :=
  qualifierOf_eq_iff.mpr h.qualifier

theorem segment_ne_nil (h : s.Valid) : s.segment ≠ [] := by
  intro hnil
  apply h.qualifier_ne_nil
  rw [← h.qualifierOf_segment, hnil]
  rfl

/-- What a valid spelling spells is its target. -/
theorem parse?_text (h : s.Valid) : Target.parse? s.text = some s.target := by
  have hcut : cutLast '.' (s.segment ++ '.' :: s.name) = some (s.segment, s.name) :=
    cutLast_append_sep_cons h.point_not_mem_name _
  simp [Target.parse?, h.splitMark_text, h.cutLast_body, h.afterLast_body, hcut,
    h.qualifierOf_segment, h.segment_ne_nil, h.qualifier_ne_nil, h.name_ne_nil, target]

/-- An import path has one last segment. -/
theorem importPath_inj (h : s.Valid) (h' : s'.Valid)
    (he : s.path ++ s.segment = s'.path ++ s'.segment) :
    s.path = s'.path ∧ s.segment = s'.segment := by
  have hsegment : s.segment = s'.segment := by
    have hlast := congrArg (afterLast '/') he
    rwa [afterLast_append h.path h.segment, afterLast_append h'.path h'.segment] at hlast
  rw [hsegment] at he
  exact ⟨List.append_cancel_right he, hsegment⟩

/-- A text has one spelling at most. -/
theorem eq_of_parts (h : s.Valid) (h' : s'.Valid) (hmark : s.mark = s'.mark)
    (hpath : s.path ++ s.segment = s'.path ++ s'.segment) (hname : s.name = s'.name) : s = s' := by
  have hstarred := mark_inj hmark
  obtain ⟨hpath, hsegment⟩ := h.importPath_inj h' hpath
  have hqualifier : s.qualifier = s'.qualifier := by
    rw [← h.qualifierOf_segment, hsegment, h'.qualifierOf_segment]
  cases s
  cases s'
  simp_all

/-- A text is spelled in one way. -/
theorem text_inj (h : s.Valid) (h' : s'.Valid) (he : s.text = s'.text) : s = s' := by
  have hsplit := congrArg Target.splitMark he
  rw [h.splitMark_text, h'.splitMark_text, Prod.mk.injEq] at hsplit
  obtain ⟨hmark, hbody⟩ := hsplit
  have hcut := congrArg (cutLast '.') hbody
  rw [h.cutLast_body, h'.cutLast_body, Option.some.injEq, Prod.mk.injEq] at hcut
  exact h.eq_of_parts h' hmark hcut.1 hcut.2

/-- A target is spelled in one way: the segment in its path gives the qualifier of its type, so what
stands in front of that is the mark. -/
theorem target_inj (h : s.Valid) (h' : s'.Valid) (he : s.target = s'.target) : s = s' := by
  simp only [target, Target.mk.injEq, String.ofList_inj] at he
  obtain ⟨hpath, htype⟩ := he
  have hqualifier : s.qualifier = s'.qualifier := by
    rw [← h.qualifierOf_segment, (h.importPath_inj h' hpath).2, h'.qualifierOf_segment]
  have hcut := congrArg (cutLast '.') htype
  rw [cutLast_append_sep_cons h.point_not_mem_name,
    cutLast_append_sep_cons h'.point_not_mem_name, Option.some.injEq, Prod.mk.injEq,
    hqualifier] at hcut
  exact h.eq_of_parts h' (List.append_cancel_right hcut.1) hpath hcut.2

end Valid

end Spelling

namespace Target

theorem not_star_of_splitMark {w : List Char} (h : (splitMark w).1 = []) : ¬ ['*'] <+: w := by
  rintro ⟨r, rfl⟩
  cases h

/-- A target is made of a path up to the last point and of the two parts of the last segment. -/
theorem parse?_eq_some {s : List Char} {t : Target} (h : parse? s = some t) :
    ∃ path after segment name,
      cutLast '.' (splitMark s).2 = some (path, after) ∧
        cutLast '.' (afterLast '/' (splitMark s).2) = some (segment, name) ∧
        path ≠ [] ∧ qualifierOf segment ≠ [] ∧ name ≠ [] ∧
        t = ⟨String.ofList path,
          String.ofList ((splitMark s).1 ++ qualifierOf segment ++ '.' :: name)⟩ := by
  simp only [parse?] at h
  split at h
  · next path after segment name hpath hsegment =>
    split at h
    · cases h
    · next hne =>
      simp only [Bool.or_eq_true, List.isEmpty_iff, not_or] at hne
      obtain ⟨⟨hp, hq⟩, hn⟩ := hne
      cases h
      exact ⟨path, after, segment, name, hpath, hsegment, hp, hq, hn, rfl⟩
  · cases h

/-- A text that is read as a target spells it. -/
theorem exists_spelling {w : List Char} {t : Target} (h : parse? w = some t) :
    ∃ s : Spelling, s.Spells w ∧ s.target = t := by
  obtain ⟨importPath, after, segment, name, hpath, hsegment, -, hqualifier, hname, rfl⟩ :=
    parse?_eq_some h
  obtain ⟨path, hclosed, hbody⟩ := exists_append_afterLast '/' (splitMark w).2
  obtain ⟨hlast, hpoint⟩ := cutLast_eq_some_iff.mp hsegment
  have hslash := sep_not_mem_afterLast '/' (splitMark w).2
  rw [hlast] at hbody hslash
  rw [hbody, ← List.append_assoc, cutLast_append_sep_cons hpoint, Option.some.injEq,
    Prod.mk.injEq] at hpath
  simp only [List.mem_append, List.mem_cons, not_or] at hslash
  let s : Spelling :=
    ⟨(splitMark w).1 == ['*'], path, segment, qualifierOf segment, name⟩
  have hmark : s.mark = (splitMark w).1 := by
    rcases splitMark_fst w with hm | hm <;> simp [s, Spelling.mark, hm]
  have htext : s.text = w := by
    rw [Spelling.text, hmark, Spelling.body, List.append_assoc, ← hbody, splitMark_append]
  refine ⟨s, ⟨?_, htext⟩, ?_⟩
  · refine ⟨?_, hclosed, hslash.1, qualifierOf_eq_iff.mp rfl, hqualifier, hname, hpoint,
      hslash.2.2⟩
    intro hs
    have hnil : s.mark = [] := by rw [Spelling.mark, hs]; rfl
    have hbody' : s.body = w := by rw [← htext, Spelling.text, hnil, List.nil_append]
    rw [hbody']
    exact not_star_of_splitMark (hmark ▸ hnil)
  · rw [Spelling.target, hmark, ← hpath.1]

/-- A text is a target exactly if it has a spelling. -/
theorem parse?_eq_some_iff {w : List Char} {t : Target} :
    parse? w = some t ↔ ∃ s : Spelling, s.Spells w ∧ s.target = t := by
  constructor
  · exact exists_spelling
  · rintro ⟨s, ⟨hvalid, rfl⟩, rfl⟩
    exact hvalid.parse?_text

theorem parse?_eq_none_iff {w : List Char} :
    parse? w = none ↔ ¬ ∃ s : Spelling, s.Spells w := by
  constructor
  · rintro h ⟨s, hs⟩
    rw [parse?_eq_some_iff.mpr ⟨s, hs, rfl⟩] at h
    cases h
  · intro h
    cases hp : parse? w with
    | none => rfl
    | some t =>
      obtain ⟨s, hs, -⟩ := exists_spelling hp
      exact absurd ⟨s, hs⟩ h

/-- A text is read as a target exactly if it spells one once the blanks around it are gone, which it
does in one way only. The error for any other text carries the text as it was given. -/
theorem parse_outcome (raw : String) (package : Option String) :
    (∀ t, parse raw package = .ok t ↔
      ∃ s : Spelling, s.Spells (strip raw.toList) ∧ s.target = t) ∧
    (∀ s s' : Spelling, s.Spells (strip raw.toList) → s'.Spells (strip raw.toList) → s = s') ∧
    ∀ e, parse raw package = .error e ↔
      (¬ ∃ s : Spelling, s.Spells (strip raw.toList)) ∧
        e = .configuration .malformedTarget package (some raw) := by
  refine ⟨?_, ?_, ?_⟩
  · intro t
    rw [parse_eq_ok_iff, parse?_eq_some_iff]
  · rintro s s' ⟨hvalid, htext⟩ ⟨hvalid', htext'⟩
    exact hvalid.text_inj hvalid' (htext.trans htext'.symm)
  · intro e
    rw [← parse?_eq_none_iff, parse]
    cases parse? (strip raw.toList) <;> simp [eq_comm]

/-- Affixes that overlap: `go-` is left out first, and `go` has no `-go` at its end. -/
example : parse " a.com/x.y/go-go.T" none = .ok ⟨"a.com/x.y/go-go", "go.T"⟩ := by decide

end Target

end RowModel
