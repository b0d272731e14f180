import RowModel.Proofs.Json.Quoted
import Mathlib.Data.List.Count

/-!
When the reader of documents takes a string for what it denotes (`foldedValue_eq_iff`). It never makes
more of a string than stands in it: folding drops spaces and characters that end lines, joining halves
leaves one character of two.
-/
namespace RowModel.Json

open Yaml (Gap isBreak unitsOf)

/-- The numbers of a string in which two halves that fit are one. -/
def joined : List Nat → List Nat
  | [] => []
  | [n] => [n]
  | m :: n :: r =>
    if arePaired m n then (Text.joinHalves m n).toNat :: joined r else m :: joined (n :: r)

variable {m n : Nat} {us : List Nat} {ps : List Part} {g : Gap}

theorem toNat_joinHalves (h : arePaired m n = true) : 0x10000 ≤ (Text.joinHalves m n).toNat := by
  simp only [arePaired, Text.isHighHalf, Text.isLowHalf, Bool.and_eq_true, decide_eq_true_eq] at h
  rw [Text.joinHalves, Text.toNat_ofNat_of_valid]
  · omega
  · right
    omega

theorem unitChars_toNat {c : Char} (h : 0x10000 ≤ c.toNat) : Text.unitChars c.toNat = [c] := by
  have hshifted : Text.isShifted c.toNat = false := by
    simp only [Text.isShifted, Bool.and_eq_false_iff, decide_eq_false_iff_not]
    omega
  rw [Text.unitChars, hshifted, if_neg Bool.false_ne_true, Char.ofNat_toNat]

/-- To join halves and to store numbers are two steps. -/
theorem ofUnits_eq (us : List Nat) : Text.ofUnits us = (joined us).flatMap Text.unitChars := by
  induction us using joined.induct with
  | case1 => rfl
  | case2 n => simp [Text.ofUnits, joined]
  | case3 m n r h ih =>
    have hunit := unitChars_toNat (toNat_joinHalves h)
    have hpair : (Text.isHighHalf m && Text.isLowHalf n) = true := h
    rw [Text.ofUnits, joined, if_pos hpair, if_pos h, List.flatMap_cons, hunit, ih]
    rfl
  | case4 m n r h ih =>
    have hpair : ¬(Text.isHighHalf m && Text.isLowHalf n) = true := h
    rw [Text.ofUnits, joined, if_neg hpair, if_neg h, List.flatMap_cons, ih]

/-- Only halves are joined, to characters beyond the first plane. -/
theorem count_joined {v : Nat} (hv : v < 0xD800) (us : List Nat) :
    (joined us).count v = us.count v := by
  induction us using joined.induct with
  | case1 => rfl
  | case2 n => rfl
  | case3 m n r h ih =>
    have hjoined := toNat_joinHalves h
    simp only [arePaired, Text.isHighHalf, Text.isLowHalf, Bool.and_eq_true, decide_eq_true_eq] at h
    rw [joined, if_pos (by simp [arePaired, Text.isHighHalf, Text.isLowHalf, h]),
      List.count_cons_of_ne (by omega), List.count_cons_of_ne (by omega),
      List.count_cons_of_ne (by omega), ih]
  | case4 m n r h ih =>
    rw [joined, if_neg h, List.count_cons, List.count_cons, ih]

theorem length_joined (us : List Nat) : (joined us).length ≤ us.length := by
  induction us using joined.induct with
  | case1 => exact Nat.le_refl _
  | case2 n => exact Nat.le_refl _
  | case3 m n r h ih =>
    rw [joined, if_pos h, List.length_cons, List.length_cons, List.length_cons]
    omega
  | case4 m n r h ih =>
    rw [joined, if_neg h, List.length_cons, List.length_cons]
    omega

/-- Where no two halves fit none are joined. -/
theorem joined_eq_self_iff : joined us = us ↔ us.IsChain fun m n => arePaired m n = false := by
  induction us using joined.induct with
  | case1 => simp [joined]
  | case2 n => simp [joined]
  | case3 m n r h ih =>
    have hlength := length_joined r
    rw [joined, if_pos h, List.isChain_cons_cons]
    constructor
    · intro heq
      have := congrArg List.length heq
      simp only [List.length_cons] at this
      omega
    · intro hchain
      exact absurd (h.symm.trans hchain.1) nofun
  | case4 m n r h ih =>
    rw [joined, if_neg h, List.isChain_cons_cons, List.cons.injEq, ih]
    simp [Bool.not_eq_true _ ▸ h]

/-- What begins a string begins it still, or a joined character does. -/
theorem head_joined : ∀ k ∈ (joined us).head?, us.head? = some k ∨ 0x10000 ≤ k := by
  intro k hk
  match us with
  | [] => cases hk
  | [n] => exact .inl hk
  | m :: n :: r =>
    rw [joined] at hk
    split at hk
    · next h =>
      rw [List.head?_cons, Option.mem_some_iff] at hk
      exact .inr (hk ▸ toNat_joinHalves h)
    · exact .inl hk

/-- Once halves are joined no two fit. -/
theorem unpaired_joined (us : List Nat) : (joined us).IsChain fun m n => arePaired m n = false := by
  induction us using joined.induct with
  | case1 => exact .nil
  | case2 n => exact .singleton n
  | case3 m n r h ih =>
    have hjoined := toNat_joinHalves h
    rw [joined, if_pos h, List.isChain_cons]
    refine ⟨fun k _ => ?_, ih⟩
    simp only [arePaired, Text.isHighHalf, Bool.and_eq_false_iff, decide_eq_false_iff_not]
    omega
  | case4 m n r h ih =>
    rw [joined, if_neg h, List.isChain_cons]
    refine ⟨fun k hk => ?_, ih⟩
    rcases head_joined k hk with heq | hlarge
    · cases heq
      exact Bool.eq_false_iff.mpr h
    · simp only [arePaired, Text.isLowHalf, Bool.and_eq_false_iff, decide_eq_false_iff_not]
      omega

/-- A gap of spaces, or of line and paragraph separators. -/
def IsTidy : Gap → Prop
  | .none => True
  | .spaces cs => cs ≠ [] ∧ ∀ c ∈ cs, c = ' '
  | .breaks (some first) later _ =>
    (first ≠ '\n' ∧ isBreak first = true) ∧ ∀ c ∈ later, isBreak c = true
  | .breaks Option.none _ _ => False

/-- The character `c` after a gap changes nothing before it, nor does the gap change it. -/
def Follows (g : Gap) (c : Char) : Prop :=
  match g with
  | .none => True
  | .spaces _ => isBreak c = false
  | .breaks _ _ _ => c ≠ ' '

theorem folded_eq {first : Char} (h : first ≠ '\n') (later : List Char) :
    Yaml.folded first later = first :: later := if_pos h

/-- A space never belongs to a word. -/
theorem widened_space (g : Gap) : widened g ' ' = some (match g with
    | .none => .spaces [' ']
    | .spaces cs => .spaces (' ' :: cs)
    | .breaks first later _ => .breaks first later false) := by
  cases g <;> rfl

theorem widened_break {c : Char} (hb : isBreak c = true) (g : Gap) : widened g c = some (match g with
    | .breaks first later _ => .breaks first (c :: later) true
    | _ => .breaks (some c) [] true) := by
  have hspace : c ≠ ' ' := by
    rintro rfl
    cases hb
  unfold widened
  rw [if_neg hspace, if_pos hb]
  cases g <;> rfl

/-- A part that makes a gap longer is the character that it stands for. -/
theorem Part.unit_of_head {p : Part} (h : p.head ≠ '\\') (hne : p.head ≠ '\n') :
    p.unit = p.head.toNat := by
  cases p with
  | char c hc =>
    by_cases hend : c = '\r' ∨ c = '\x85'
    · exact absurd (if_pos hend) hne
    · rw [head, lineChar, if_neg hend, unit]
  | escape | code => exact absurd rfl h

/-- Only a space or the end of a line makes a gap longer. -/
theorem space_or_break {c : Char} {g' : Gap} (hw : widened g c = some g') :
    c = ' ' ∨ isBreak c = true := by
  by_contra h
  rw [not_or, Bool.not_eq_true] at h
  rw [widened_eq_none.mpr h] at hw
  cases hw

theorem count_unit_cons (v u : Nat) (us : List Nat) :
    (u :: us).count v = [u].count v + us.count v := by
  rw [← List.count_append, List.singleton_append]

def spaces (us : List Nat) : Nat := us.count 32

/-- A part that makes a tidy gap longer is kept, or folding drops a space. -/
theorem widened_tidy {p : Part} {g' : Gap} (hg : IsTidy g) (hw : widened g p.head = some g')
    (hne : p.head ≠ '\n') : IsTidy g' ∧
      (Follows g p.head → unitsOf g'.text = unitsOf g.text ++ [p.unit] ∧
        ∀ q : Part, Follows g' q.head ↔ areSpaced p q = true) ∧
      (¬Follows g p.head → spaces (unitsOf g'.text) < spaces (unitsOf g.text) + spaces [p.unit]) := by
  by_cases hspace : p.head = ' '
  · have hunit : p.unit = 32 := by rw [p.unit_of_head (by rw [hspace]; decide) hne, hspace]; rfl
    have hbreak : isBreak ' ' = false := by decide
    rw [hspace, widened_space] at hw
    rw [hspace, hunit]
    cases g with
    | none =>
      cases hw
      refine ⟨⟨by simp, by simp⟩, fun _ => ⟨rfl, fun q => ?_⟩, fun h => absurd trivial h⟩
      simp [Follows, areSpaced, hspace, hbreak]
    | spaces cs =>
      cases hw
      refine ⟨⟨by simp, List.forall_mem_cons.mpr ⟨rfl, hg.2⟩⟩, fun _ => ⟨?_, fun q => ?_⟩,
        fun h => absurd hbreak h⟩
      · simp [Gap.text, unitsOf]
      · simp [Follows, areSpaced, hspace, hbreak]
    | breaks first later fresh =>
      cases first with
      | none => exact hg.elim
      | some first =>
        cases hw
        exact ⟨hg, fun h => absurd rfl h, fun _ => by simp [Gap.text, spaces]⟩
  · have hbreak := (space_or_break hw).resolve_left hspace
    have hunit : p.unit = p.head.toNat :=
      p.unit_of_head (fun h => by rw [h] at hbreak; cases hbreak) hne
    rw [widened_break hbreak] at hw
    cases g with
    | none =>
      cases hw
      refine ⟨⟨⟨hne, hbreak⟩, List.forall_mem_nil _⟩, fun _ => ⟨?_, fun q => ?_⟩,
        fun h => absurd trivial h⟩
      · simp [Gap.text, unitsOf, folded_eq hne, hunit]
      · simp [Follows, areSpaced, hspace, hbreak]
    | spaces cs =>
      cases hw
      refine ⟨⟨⟨hne, hbreak⟩, List.forall_mem_nil _⟩,
        fun h => absurd (h.symm.trans hbreak) Bool.false_ne_true, fun _ => ?_⟩
      obtain ⟨c, cs, rfl⟩ := List.exists_cons_of_ne_nil hg.1
      have hmem : 32 ∈ unitsOf (Gap.spaces (c :: cs)).text :=
        List.mem_map.mpr ⟨' ', by simp [Gap.text, hg.2 c], rfl⟩
      have hpos : 0 < spaces (unitsOf (Gap.spaces (c :: cs)).text) := List.count_pos_iff.mpr hmem
      have htext : unitsOf (Gap.breaks (some p.head) [] true).text = [p.unit] := by
        simp [Gap.text, unitsOf, folded_eq hne, hunit]
      dsimp only
      rw [htext]
      omega
    | breaks first later fresh =>
      cases first with
      | none => exact hg.elim
      | some first =>
        cases hw
        refine ⟨⟨hg.1, List.forall_mem_cons.mpr ⟨hbreak, hg.2⟩⟩, fun _ => ⟨?_, fun q => ?_⟩,
          fun h => absurd hspace h⟩
        · simp [Gap.text, unitsOf, folded_eq hg.1.1, hunit]
        · simp [Follows, areSpaced, hspace, hbreak]

theorem follows_of_word {c : Char} (hspace : c ≠ ' ') (hbreak : isBreak c = false) : Follows g c := by
  cases g with
  | none => trivial
  | spaces cs => exact hbreak
  | breaks first later fresh => exact hspace

/-- What stands for a tidy gap, and a string without line feeds after it, has at most their spaces. If
it has them all, nothing was dropped. -/
theorem spaces_foldedUnits (hg : IsTidy g) (hps : ∀ p ∈ ps, p.head ≠ '\n') :
    spaces (foldedUnits g ps) ≤ spaces (unitsOf g.text) + spaces (ps.map Part.unit) ∧
      (spaces (foldedUnits g ps) = spaces (unitsOf g.text) + spaces (ps.map Part.unit) →
        (∀ p ∈ ps.head?, Follows g p.head) ∧ ps.IsChain fun p q => areSpaced p q = true) := by
  induction ps generalizing g with
  | nil => simp [foldedUnits, spaces]
  | cons p ps ih =>
    obtain ⟨hp, hrest⟩ := List.forall_mem_cons.mp hps
    have hcons : spaces ((p :: ps).map Part.unit) = spaces [p.unit] + spaces (ps.map Part.unit) :=
      count_unit_cons _ _ _
    rw [hcons, foldedUnits, List.isChain_cons, List.head?_cons]
    cases hw : widened g p.head with
    | some g' =>
      obtain ⟨hg', hkept, hdropped⟩ := widened_tidy hg hw hp
      obtain ⟨hle, heq⟩ := ih hg' hrest
      by_cases hf : Follows g p.head
      · obtain ⟨htext, hnext⟩ := hkept hf
        have hspaces : spaces (unitsOf g'.text) = spaces (unitsOf g.text) + spaces [p.unit] := by
          rw [htext]
          exact List.count_append
        dsimp only
        refine ⟨by omega, fun h => ?_⟩
        obtain ⟨hfollows, hchain⟩ := heq (by omega)
        exact ⟨fun q hq => Option.some.inj hq ▸ hf, fun q hq => (hnext q).mp (hfollows q hq), hchain⟩
      · have hlt := hdropped hf
        dsimp only
        exact ⟨by omega, fun h => by omega⟩
    | none =>
      obtain ⟨hspace, hbreak⟩ := widened_eq_none.mp hw
      obtain ⟨hle, heq⟩ := ih (g := .none) trivial hrest
      have hword : spaces (unitsOf g.text ++ p.unit :: foldedUnits .none ps) =
          spaces (unitsOf g.text) + (spaces [p.unit] + spaces (foldedUnits .none ps)) :=
        List.count_append.trans (congrArg _ (count_unit_cons _ _ _))
      have hnone : spaces (unitsOf Gap.none.text) = 0 := rfl
      dsimp only
      rw [hword]
      refine ⟨by omega, fun h => ?_⟩
      obtain ⟨-, hchain⟩ := heq (by omega)
      refine ⟨fun q hq => Option.some.inj hq ▸ follows_of_word hspace hbreak, fun q _ => ?_, hchain⟩
      simp [areSpaced, hspace, hbreak]

/-- Where no space stands beside the end of a line nothing is dropped. -/
theorem foldedUnits_of_spaced (hg : IsTidy g) (hps : ∀ p ∈ ps, p.head ≠ '\n')
    (hfollows : ∀ p ∈ ps.head?, Follows g p.head)
    (hspaced : ps.IsChain fun p q => areSpaced p q = true) :
    foldedUnits g ps = unitsOf g.text ++ ps.map Part.unit := by
  induction ps generalizing g with
  | nil => simp [foldedUnits]
  | cons p ps ih =>
    obtain ⟨hp, hrest⟩ := List.forall_mem_cons.mp hps
    rw [List.isChain_cons] at hspaced
    rw [foldedUnits]
    cases hw : widened g p.head with
    | some g' =>
      obtain ⟨hg', hkept, -⟩ := widened_tidy hg hw hp
      obtain ⟨htext, hnext⟩ := hkept (hfollows p rfl)
      have hih := ih hg' hrest (fun q hq => (hnext q).mpr (hspaced.1 q hq)) hspaced.2
      dsimp only
      rw [hih, htext]
      simp
    | none =>
      have hih := ih (g := .none) trivial hrest (fun _ _ => trivial) hspaced.2
      dsimp only
      rw [hih]
      rfl

def nextLines (us : List Nat) : Nat := us.count 0x85

/-- What the reader meets as a line feed is a next-line character. -/
theorem Part.unit_of_newline {p : Part} (h : p.head = '\n') : p.unit = 0x85 := by
  cases p with
  | char c hc =>
    rw [head, lineChar] at h
    split at h
    · next hend =>
      rcases hend with rfl | rfl
      · exact absurd hc.1 (by decide)
      · rfl
    · rw [h] at hc
      exact absurd hc.1 (by decide)
  | escape | code => cases h

def IsClean : Gap → Prop
  | .none => True
  | .spaces cs => '\x85' ∉ cs
  | .breaks first later _ => '\x85' ∉ first.toList ∧ '\x85' ∉ later

theorem IsClean.widened {c : Char} {g' : Gap} (hg : IsClean g) (hw : widened g c = some g') :
    IsClean g' := by
  have hc : '\x85' ≠ c := by
    rintro rfl
    rw [widened_eq_none.mpr (by decide)] at hw
    cases hw
  rcases space_or_break hw with rfl | hbreak
  · rw [widened_space] at hw
    cases g <;> cases hw
    · simp [IsClean]
    · simpa [IsClean] using hg
    · exact hg
  · rw [widened_break hbreak] at hw
    cases g <;> cases hw
    · simp [IsClean, hc]
    · simp [IsClean, hc]
    · exact ⟨hg.1, by simp [hc, hg.2]⟩

/-- A clean gap leaves no next-line character in the text. -/
theorem IsClean.nextLines_text (hg : IsClean g) : nextLines (unitsOf g.text) = 0 := by
  have hnot : '\x85' ∉ g.text := by
    match g with
    | .none => simp [Gap.text]
    | .spaces cs => simpa [Gap.text, IsClean] using hg
    | .breaks Option.none later _ => simpa [Gap.text, IsClean] using hg
    | .breaks (some first) later _ =>
      have hfirst : '\x85' ≠ first := fun h => hg.1 (by rw [h]; exact List.mem_singleton_self first)
      rw [Gap.text, Yaml.folded]
      split
      · simpa [hfirst] using hg.2
      · split
        · decide
        · simpa using hg.2
  rw [nextLines, List.count_eq_zero]
  intro hmem
  obtain ⟨c, hc, heq⟩ := List.mem_map.mp hmem
  have hchar : c = '\x85' := Char.toNat_inj.mp heq
  exact hnot (hchar ▸ hc)

theorem Part.nextLines_unit (p : Part) {g' : Gap} (hw : widened g p.head = some g') :
    nextLines [p.unit] = if (p.head == '\n') = true then 1 else 0 := by
  by_cases hne : p.head = '\n'
  · rw [p.unit_of_newline hne, hne]
    rfl
  · have hslash : p.head ≠ '\\' ∧ p.head ≠ '\x85' := by
      constructor <;> intro h <;> rw [h, widened_eq_none.mpr (by decide)] at hw <;> cases hw
    have hunit : p.unit ≠ 0x85 := by
      rw [p.unit_of_head hslash.1 hne]
      exact fun h => hslash.2 (Char.toNat_inj.mp h)
    rw [if_neg (by simpa using hne), nextLines, List.count_eq_zero]
    exact fun h => hunit (List.mem_singleton.mp h).symm

/-- The reader makes no next-line characters, and drops those that stand in a string. -/
theorem nextLines_foldedUnits (ps : List Part) (hg : IsClean g) :
    nextLines (foldedUnits g ps) + ps.countP (fun p => p.head == '\n') =
      nextLines (ps.map Part.unit) := by
  induction ps generalizing g with
  | nil => simpa [foldedUnits, nextLines] using hg.nextLines_text
  | cons p ps ih =>
    have hcons : nextLines ((p :: ps).map Part.unit) =
        nextLines [p.unit] + nextLines (ps.map Part.unit) := count_unit_cons _ _ _
    rw [hcons, foldedUnits, List.countP_cons]
    cases hw : widened g p.head with
    | some g' =>
      have hih := ih (hg.widened hw)
      have hunit := p.nextLines_unit hw
      dsimp only
      omega
    | none =>
      have hih := ih (g := .none) trivial
      obtain ⟨-, hbreak⟩ := widened_eq_none.mp hw
      have hne : ¬(p.head == '\n') = true := by
        intro h
        rw [beq_iff_eq.mp h] at hbreak
        cases hbreak
      have hword : nextLines (unitsOf g.text ++ p.unit :: foldedUnits .none ps) =
          nextLines (unitsOf g.text) + (nextLines [p.unit] + nextLines (foldedUnits .none ps)) :=
        List.count_append.trans (congrArg _ (count_unit_cons _ _ _))
      have htext := hg.nextLines_text
      dsimp only
      rw [hword, if_neg hne]
      omega

/-- A folded string has the units that it denotes exactly if nothing was dropped and no two halves
fit. -/
theorem foldedUnits_eq_joined_iff :
    foldedUnits .none ps = joined (ps.map Part.unit) ↔ StringAlike ps := by
  constructor
  · intro heq
    have hnext := nextLines_foldedUnits ps (g := .none) trivial
    rw [heq, nextLines, count_joined (by omega), nextLines] at hnext
    have hhead : ∀ p ∈ ps, p.head ≠ '\n' := by
      have hzero : ps.countP (fun p => p.head == '\n') = 0 := by omega
      simpa [List.countP_eq_zero] using hzero
    have hspaces := (spaces_foldedUnits (g := .none) trivial hhead).2
    rw [heq, spaces, count_joined (by omega)] at hspaces
    obtain ⟨-, hspaced⟩ := hspaces (by simp [spaces, Gap.text, unitsOf])
    have hunits := foldedUnits_of_spaced (g := .none) trivial hhead (fun _ _ => trivial) hspaced
    exact ⟨hhead, hspaced, joined_eq_self_iff.mp (heq.symm.trans hunits)⟩
  · intro h
    rw [foldedUnits_of_spaced (g := .none) trivial h.head_ne (fun _ _ => trivial) h.spaced,
      joined_eq_self_iff.mpr h.unpaired]
    rfl

theorem toNat_lt (c : Char) : c.toNat < 0x110000 := by
  have hvalid := c.valid
  simp only [UInt32.isValidChar, Nat.isValidChar] at hvalid
  change c.val.toNat < _
  omega

theorem Part.unit_lt (p : Part) : p.unit < 0x110000 := by
  cases p with
  | char c hc => exact toNat_lt c
  | escape letter c h => exact toNat_lt c
  | code a b c d n h =>
    obtain ⟨w, x, y, z, ha, hb, hc, hd, rfl⟩ := hexUnit?_eq_some h
    have := hexDigit_lt ha
    have := hexDigit_lt hb
    have := hexDigit_lt hc
    have := hexDigit_lt hd
    rw [unit]
    omega

theorem unitsOf_lt (cs : List Char) : ∀ u ∈ unitsOf cs, u < 0x110000 := by
  intro u hu
  obtain ⟨c, -, rfl⟩ := List.mem_map.mp hu
  exact toNat_lt c

theorem foldedUnits_lt (ps : List Part) : ∀ g, ∀ u ∈ foldedUnits g ps, u < 0x110000 := by
  induction ps with
  | nil => exact fun g => unitsOf_lt g.text
  | cons p ps ih =>
    intro g
    rw [foldedUnits]
    split
    · exact ih _
    · rw [List.forall_mem_append, List.forall_mem_cons]
      exact ⟨unitsOf_lt g.text, p.unit_lt, ih .none⟩

theorem joined_lt (h : ∀ u ∈ us, u < 0x110000) : ∀ u ∈ joined us, u < 0x110000 := by
  induction us using joined.induct with
  | case1 => exact h
  | case2 n => exact h
  | case3 m n r hpair ih =>
    simp only [List.forall_mem_cons] at h
    rw [joined, if_pos hpair, List.forall_mem_cons]
    exact ⟨toNat_lt _, ih h.2.2⟩
  | case4 m n r hpair ih =>
    rw [List.forall_mem_cons] at h
    rw [joined, if_neg hpair, List.forall_mem_cons]
    exact ⟨h.1, ih h.2⟩

/-- The reader has the units of a string, once its lines are folded. -/
theorem toUnits_foldedValue (ps : List Part) :
    Text.toUnits (foldedValue ps).toList = foldedUnits .none ps := by
  rw [foldedValue, String.toList_ofList, Text.toUnits_flatMap_unitChars (foldedUnits_lt ps .none)]

/-- A string denotes its units, with halves joined. -/
theorem toUnits_partsValue (ps : List Part) :
    Text.toUnits (partsValue ps).toList = joined (ps.map Part.unit) := by
  have hunits : ∀ u ∈ ps.map Part.unit, u < 0x110000 := by
    intro u hu
    obtain ⟨p, -, rfl⟩ := List.mem_map.mp hu
    exact p.unit_lt
  rw [partsValue, String.toList_ofList, ofUnits_eq, Text.toUnits_flatMap_unitChars (joined_lt hunits)]

/-- Strings that one is read as and another denotes are equal if their units are. -/
theorem foldedValue_eq_partsValue_iff (ps qs : List Part) :
    foldedValue ps = partsValue qs ↔ foldedUnits .none ps = joined (qs.map Part.unit) := by
  constructor
  · intro h
    rw [← toUnits_foldedValue, h, toUnits_partsValue]
  · intro h
    rw [foldedValue, partsValue, h, ofUnits_eq]

/-- The strings that the reader takes for what they denote. -/
theorem foldedValue_eq_iff (ps : List Part) : foldedValue ps = partsValue ps ↔ StringAlike ps :=
  (foldedValue_eq_partsValue_iff ps ps).trans foldedUnits_eq_joined_iff

/-- On one line no space stands beside the end of a line. -/
theorem spaced_of_oneLine (hline : ∀ p ∈ ps, isBreak p.head = false) :
    ps.IsChain fun p q => areSpaced p q = true := by
  induction ps with
  | nil => exact .nil
  | cons p ps ih =>
    obtain ⟨hp, hps⟩ := List.forall_mem_cons.mp hline
    refine List.isChain_cons.mpr ⟨fun q hq => ?_, ih hps⟩
    simp [areSpaced, hp, hps q (List.mem_of_mem_head? hq)]

/-- A string on one line that is read as what another one denotes is read as what it denotes. -/
theorem stringAlike_of_oneLine {qs : List Part} (hline : ∀ p ∈ ps, isBreak p.head = false)
    (h : foldedValue ps = partsValue qs) : StringAlike ps := by
  have hhead : ∀ p ∈ ps, p.head ≠ '\n' := by
    intro p hp heq
    have hbreak := hline p hp
    rw [heq] at hbreak
    cases hbreak
  have hspaced := spaced_of_oneLine hline
  have hunits := foldedUnits_of_spaced (g := .none) trivial hhead (fun _ _ => trivial) hspaced
  rw [foldedValue_eq_partsValue_iff, hunits] at h
  refine ⟨hhead, hspaced, ?_⟩
  have hchain := unpaired_joined (qs.map Part.unit)
  rwa [← h] at hchain

/-- A name that can be a key is on one line. -/
theorem Label.oneLine {l : Label} (h : l.isKey = true) : ∀ p ∈ l.parts, isBreak p.head = false := by
  rw [isKey, Bool.and_eq_true] at h
  intro p hp
  cases p with
  | char c hc =>
    have hmem : c ∈ l.body :=
      List.mem_append_left _ (List.mem_flatMap.mpr ⟨.char c hc, hp, List.mem_singleton_self c⟩)
    simpa [endsLine, Part.head] using List.all_eq_true.mp h.1 c hmem
  | escape | code => rfl

end RowModel.Json
