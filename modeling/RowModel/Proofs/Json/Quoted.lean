import RowModel.Json.Reading
import RowModel.Proofs.Json.Leaf

/-!
The strings of a JSON text as the reader of documents scans them. Up to the closing quote it gives the
units of the folded string, and a fault where a line begins with a document marker
(`scanQuoted_parts`).
-/
namespace RowModel.Json

open Yaml (Gap Located QuotedState QuotedStep Source isBreak isGap isSpace locate unitsOf)

variable {i l k : Nat} {t r : List Char}

/-- Places go on over a text by its characters, and to another line exactly where a line ends. -/
structure Placed (text : List Char) (i l i' l' : Nat) : Prop where
  index : i' = i + text.length
  line : l ≤ l'
  same : l' = l ↔ text.all (!endsLine ·) = true

theorem Placed.nil (i l : Nat) : Placed [] i l i l := ⟨rfl, Nat.le_refl l, by simp⟩

theorem Placed.append {i₁ l₁ i₂ l₂ i₃ l₃ : Nat} {s t : List Char} (h : Placed s i₁ l₁ i₂ l₂)
    (h' : Placed t i₂ l₂ i₃ l₃) : Placed (s ++ t) i₁ l₁ i₃ l₃ where
  index := by rw [h'.index, h.index, List.length_append, Nat.add_assoc]
  line := Nat.le_trans h.line h'.line
  same := by
    rw [List.all_append, Bool.and_eq_true, ← h.same, ← h'.same]
    have := h.line
    have := h'.line
    omega

theorem Placed.cons {c : Char} {i₁ l₁ i₂ l₂ i₃ l₃ : Nat} {t : List Char}
    (h : Placed [c] i₁ l₁ i₂ l₂) (h' : Placed t i₂ l₂ i₃ l₃) : Placed (c :: t) i₁ l₁ i₃ l₃ :=
  h.append h'

/-- A character that does not begin a pair of line ends is one place. -/
theorem locate_cons {c : Char} (hc : c ≠ '\r') (i l k : Nat) (t : List Char) :
    ∃ l' k', locate i l k (c :: t) = ⟨lineChar c, i, l, k⟩ :: locate (i + 1) l' k' t ∧
      Placed [c] i l (i + 1) l' := by
  by_cases hend : c = '\n' ∨ c = '\x85'
  · refine ⟨l + 1, 0, ?_, rfl, Nat.le_succ l, ?_⟩
    · rcases hend with rfl | rfl <;> rfl
    · rcases hend with rfl | rfl <;> simp [endsLine, lineChar, isBreak]
  · rw [not_or] at hend
    have hline : lineChar c = c := by simp [lineChar, hc, hend.2]
    by_cases hb : isBreak c = true
    · refine ⟨l + 1, 0, ?_, rfl, Nat.le_succ l, by simp [endsLine, hline, hb]⟩
      rw [locate, if_neg (by simp [hc, hend]), if_pos hb, hline]
      exact fun _ h => absurd h hc
    · refine ⟨l, if c == '\ufeff' then k else k + 1, ?_, rfl, Nat.le_refl l,
        by simp [endsLine, hline, hb]⟩
      rw [locate, if_neg (by simp [hc, hend]), if_neg hb, hline]
      exact fun _ h => absurd h hc

theorem exists_placed (text : List Char) (i l : Nat) : ∃ i' l', Placed text i l i' l' := by
  by_cases h : text.all (!endsLine ·) = true
  · exact ⟨_, l, rfl, Nat.le_refl l, iff_of_true rfl h⟩
  · exact ⟨_, l + 1, rfl, Nat.le_succ l, iff_of_false (Nat.succ_ne_self l) h⟩

theorem hexDigit_ne_return {c : Char} {n : Nat} (h : Text.hexDigit? c = some n) : c ≠ '\r' := by
  rintro rfl
  cases h

theorem hexUnit?_eq_some {a b c d : Char} {n : Nat} (h : hexUnit? a b c d = some n) :
    ∃ w x y z, Text.hexDigit? a = some w ∧ Text.hexDigit? b = some x ∧ Text.hexDigit? c = some y ∧
      Text.hexDigit? d = some z ∧ n = ((w * 16 + x) * 16 + y) * 16 + z := by
  obtain ⟨w, ha, h⟩ := Option.bind_eq_some_iff.mp h
  obtain ⟨x, hb, h⟩ := Option.bind_eq_some_iff.mp h
  obtain ⟨y, hc, h⟩ := Option.bind_eq_some_iff.mp h
  obtain ⟨z, hd, h⟩ := Option.bind_eq_some_iff.mp h
  exact ⟨w, x, y, z, ha, hb, hc, hd, (Option.some.inj h).symm⟩

/-- A letter after a backslash means the same to the reader. -/
theorem escapes_lookup {letter c : Char} (h : escapes.lookup letter = some c) :
    Yaml.escapes.lookup letter = some c.toNat ∧ lineChar letter = letter ∧ letter ≠ '\r' := by
  have hall : ∀ e ∈ escapes,
      Yaml.escapes.lookup e.1 = some e.2.toNat ∧ lineChar e.1 = e.1 ∧ e.1 ≠ '\r' := by decide
  obtain ⟨before, after, he, -⟩ := List.lookup_eq_some_iff.mp h
  exact hall (letter, c) (he ▸ List.mem_append_right before List.mem_cons_self)

/-- The characters of a string have no pair of line ends. -/
theorem Part.ne_return (p : Part) : ∀ c ∈ p.text, c ≠ '\r' := by
  cases p with
  | char c h =>
    intro d hd
    rw [List.mem_singleton.mp hd]
    rintro rfl
    exact absurd h.1 (by decide)
  | escape letter c h =>
    rw [text, List.forall_mem_cons, List.forall_mem_singleton]
    exact ⟨by decide, (escapes_lookup h).2.2⟩
  | code a b c d n h =>
    obtain ⟨w, x, y, z, ha, hb, hc, hd, -⟩ := hexUnit?_eq_some h
    simp only [text, List.forall_mem_cons]
    exact ⟨by decide, by decide, hexDigit_ne_return ha, hexDigit_ne_return hb,
      hexDigit_ne_return hc, hexDigit_ne_return hd, List.forall_mem_nil _⟩

/-- The reader has the characters up to the closing quote as it takes them. -/
theorem map_char_locate {u : List Char} (hu : ∀ c ∈ u, c ≠ '\r') (i l k : Nat) (r : List Char) :
    ∃ more, (locate i l k (u ++ '"' :: r)).map Located.char = u.map lineChar ++ '"' :: more := by
  induction u generalizing i l k with
  | nil =>
    obtain ⟨l', k', h, -⟩ := locate_cons (c := '"') (by decide) i l k r
    exact ⟨_, by rw [List.nil_append, h]; rfl⟩
  | cons c u ih =>
    obtain ⟨hc, hu⟩ := List.forall_mem_cons.mp hu
    obtain ⟨l', k', h, -⟩ := locate_cons hc i l k (u ++ '"' :: r)
    obtain ⟨more, hmore⟩ := ih hu (i + 1) l' k'
    exact ⟨more, by rw [List.cons_append, h, List.map_cons, hmore]; rfl⟩

theorem atMarker_eq (s : Source) : s.atMarker = beginsMarker (s.map Located.char) := by
  match s with
  | [] | [_] | [_, _] | [_, _, _] | _ :: _ :: _ :: _ :: _ => rfl

/-- A quote is no part of a marker and does not end one. -/
theorem beginsMarker_append (u more : List Char) :
    beginsMarker (u ++ '"' :: more) = beginsMarker u := by
  have hquote : ∀ {a : Char}, (a == '-' || a == '.') = true → ('"' == a) = false := by
    intro a ha
    rcases Bool.or_eq_true _ _ ▸ ha with ha | ha <;> rw [beq_iff_eq.mp ha] <;> decide
  match u, more with
  | _ :: _ :: _ :: _ :: _, _ => rfl
  | [], [] | [], [_] | [], [_, _] | [], _ :: _ :: _ :: _ => rfl
  | [_], [] | [_], [_] | [_, _], [] => rfl
  | [a], _ :: _ :: _ | [a, _], _ :: _ =>
    simp only [List.cons_append, List.nil_append, beginsMarker]
    cases ha : (a == '-' || a == '.') with
    | false => simp
    | true => simp [hquote ha]
  | [a, b, c], _ =>
    simp [List.cons_append, List.nil_append, beginsMarker, Yaml.isGap, Yaml.endsLine, isBreak, isSpace,
      Yaml.endMark]

def isFresh : Gap → Bool
  | .breaks _ _ fresh => fresh
  | _ => false

theorem isFresh_of_widened {g g' : Gap} {c : Char} (h : widened g c = some g') :
    isFresh g' = isBreak c := by
  unfold widened at h
  split at h
  · next hc =>
    subst hc
    cases g <;> cases h <;> rfl
  · split at h
    · next hb =>
      rw [hb]
      cases g <;> cases h <;> rfl
    · cases h

/-- A character that belongs to a word is no space and ends no line. -/
theorem widened_eq_none {g : Gap} {c : Char} : widened g c = none ↔ c ≠ ' ' ∧ isBreak c = false := by
  unfold widened
  constructor
  · intro h
    split at h
    · cases g <;> cases h
    · next hc =>
      split at h
      · cases g <;> cases h
      · next hb => exact ⟨hc, Bool.eq_false_iff.mpr hb⟩
  · rintro ⟨hc, hb⟩
    simp [hc, hb]

variable {g : Gap} {x : Located} {s : Source}

theorem isSpace_eq {c : Char} (h : c ≠ '\t') : isSpace c = decide (c = ' ') := by
  rw [isSpace, beq_false_of_ne h, Bool.or_false]
  rfl

/-- A document marker at the beginning of a line is a fault. -/
theorem quotedStep_marker (hfresh : isFresh g = true) (hm : Source.atMarker (x :: s) = true) :
    Yaml.quotedStep true (.gap g) x s = .fault .illFormed := by
  match g with
  | .breaks first later fresh =>
    obtain rfl : fresh = true := hfresh
    simp [Yaml.quotedStep, hm]

/-- A character makes a gap longer or is read as part of a word. -/
theorem quotedStep_gap (hx : x.char ≠ '\t' ∧ x.char ≠ Yaml.endMark)
    (hm : (isFresh g && Source.atMarker (x :: s)) = false) :
    Yaml.quotedStep true (.gap g) x s =
      match widened g x.char with
      | some g => .take [] (.gap g)
      | none => Yaml.wordStep true (unitsOf g.text) x.char s.peek := by
  have hspace := isSpace_eq hx.1
  by_cases hc : x.char = ' '
  · simp only [hc, decide_true] at hspace
    match g with
    | .none => simp [Yaml.quotedStep, Yaml.wordStep, hc, widened, hspace, Yaml.endMark]
    | .spaces cs => simp [Yaml.quotedStep, hc, widened, hspace]
    | .breaks first later fresh =>
      have hm' : (fresh && Source.atMarker (x :: s)) = false := hm
      simp [Yaml.quotedStep, hm', hc, widened, hspace]
  · simp only [hc, decide_false] at hspace
    by_cases hb : isBreak x.char = true
    · match g with
      | .none => simp [Yaml.quotedStep, Yaml.wordStep, hc, widened, hspace, hb, hx.2]
      | .spaces cs => simp [Yaml.quotedStep, hc, widened, hspace, hb]
      | .breaks first later fresh =>
        have hm' : (fresh && Source.atMarker (x :: s)) = false := hm
        simp [Yaml.quotedStep, hm', hc, widened, hspace, hb]
    · match g with
      | .none => simp [Yaml.quotedStep, hc, widened, hb, unitsOf, Gap.text]
      | .spaces cs => simp [Yaml.quotedStep, hc, widened, hspace, hb]
      | .breaks first later fresh =>
        have hm' : (fresh && Source.atMarker (x :: s)) = false := hm
        simp [Yaml.quotedStep, hm', hc, widened, hspace, hb, Gap.text]

/-- What is read of a string: units and the rest, or a fault. -/
abbrev Scanned := Except Yaml.Fault (List Nat × Source)

def prepend (us : List Nat) (read : Scanned) : Scanned :=
  read.map fun (more, rest) => (us ++ more, rest)

theorem quotedUnits_take {state : QuotedState} (us : List Nat) (next : QuotedState)
    (h : Yaml.quotedStep true state x s = .take us next) :
    Yaml.quotedUnits true state (x :: s) = prepend us (Yaml.quotedUnits true next s) := by
  rw [Yaml.quotedUnits, h]
  dsimp only
  cases Yaml.quotedUnits true next s with
  | error f => rfl
  | ok read => rfl

theorem quotedUnits_fault {state : QuotedState} {f : Yaml.Fault}
    (h : Yaml.quotedStep true state x s = .fault f) :
    Yaml.quotedUnits true state (x :: s) = .error f := by
  rw [Yaml.quotedUnits, h]

theorem quotedUnits_close {state : QuotedState} {us : List Nat}
    (h : Yaml.quotedStep true state x s = .close us) :
    Yaml.quotedUnits true state (x :: s) = .ok (us, s) := by
  rw [Yaml.quotedUnits, h]

@[simp] theorem prepend_nil (read : Scanned) : prepend [] read = read := by
  cases read <;> rfl

@[simp] theorem prepend_prepend (us vs : List Nat) (read : Scanned) :
    prepend us (prepend vs read) = prepend (us ++ vs) read := by
  cases read with
  | error f => rfl
  | ok read => simp [prepend, Except.map]

theorem hexDigit_lt {c : Char} {n : Nat} (h : Text.hexDigit? c = some n) : n < 16 := by
  simp only [Text.hexDigit?, Char.le_def, UInt32.le_iff_toNat_le] at h
  have hdigits : '0'.val.toNat = 48 ∧ '9'.val.toNat = 57 ∧ 'a'.val.toNat = 97 ∧
    'f'.val.toNat = 102 ∧ 'A'.val.toNat = 65 ∧ 'F'.val.toNat = 70 := by decide
  simp only [Char.toNat, hdigits] at h
  split at h
  · cases h
    omega
  · split at h
    · cases h
      omega
    · split at h <;> cases h
      omega

theorem lineChar_hexDigit {c : Char} {n : Nat} (h : Text.hexDigit? c = some n) :
    lineChar c = c := by
  have hnext : c ≠ '\x85' := by
    rintro rfl
    cases h
  simp [lineChar, hexDigit_ne_return h, hnext]

theorem codeUnit_of_lt {n : Nat} (h : n < 0x110000) : Yaml.codeUnit n = .ok n := if_pos h

theorem quotedUnits_digit {c : Char} {d : Nat} (h : Text.hexDigit? c = some d) (digits value : Nat)
    (i l k : Nat) (t : List Char) :
    ∃ l' k', Yaml.quotedUnits true (.code (digits + 2) value) (locate i l k (c :: t)) =
        Yaml.quotedUnits true (.code (digits + 1) (value * 16 + d)) (locate (i + 1) l' k' t) ∧
      Placed [c] i l (i + 1) l' := by
  obtain ⟨l', k', hlocate, hplaced⟩ := locate_cons (hexDigit_ne_return h) i l k t
  refine ⟨l', k', ?_, hplaced⟩
  rw [hlocate, quotedUnits_take [] (.code (digits + 1) (value * 16 + d)), prepend_nil]
  rw [lineChar_hexDigit h]
  simp [Yaml.quotedStep, Yaml.codeStep, h]

/-- The four digits of a code give its unit. -/
theorem quotedUnits_code {a b c d : Char} {n : Nat} (h : hexUnit? a b c d = some n)
    (i l k : Nat) (t : List Char) :
    ∃ l' k', Yaml.quotedUnits true (.code 4 0) (locate i l k (a :: b :: c :: d :: t)) =
        prepend [n] (Yaml.quotedUnits true (.gap .none) (locate (i + 4) l' k' t)) ∧
      Placed [a, b, c, d] i l (i + 4) l' := by
  obtain ⟨w, x, y, z, ha, hb, hc, hd, rfl⟩ := hexUnit?_eq_some h
  obtain ⟨l₁, k₁, h₁, hp₁⟩ := quotedUnits_digit ha 2 0 i l k (b :: c :: d :: t)
  obtain ⟨l₂, k₂, h₂, hp₂⟩ := quotedUnits_digit hb 1 (0 * 16 + w) (i + 1) l₁ k₁ (c :: d :: t)
  obtain ⟨l₃, k₃, h₃, hp₃⟩ :=
    quotedUnits_digit hc 0 ((0 * 16 + w) * 16 + x) (i + 1 + 1) l₂ k₂ (d :: t)
  obtain ⟨l₄, k₄, hlocate, hp₄⟩ := locate_cons (hexDigit_ne_return hd) (i + 1 + 1 + 1) l₃ k₃ t
  refine ⟨l₄, k₄, ?_, hp₁.cons (hp₂.cons (hp₃.cons hp₄))⟩
  have hlt : ((w * 16 + x) * 16 + y) * 16 + z < 0x110000 := by
    have := hexDigit_lt ha
    have := hexDigit_lt hb
    have := hexDigit_lt hc
    have := hexDigit_lt hd
    omega
  rw [h₁, h₂, h₃, hlocate]
  refine quotedUnits_take _ _ ?_
  rw [lineChar_hexDigit hd]
  simp [Yaml.quotedStep, Yaml.codeStep, hd, codeUnit_of_lt hlt]

/-- An escape gives its unit. -/
theorem quotedUnits_escape {letter c : Char} (h : escapes.lookup letter = some c)
    (i l k : Nat) (t : List Char) :
    ∃ l' k', Yaml.quotedUnits true .escape (locate i l k (letter :: t)) =
        prepend [c.toNat] (Yaml.quotedUnits true (.gap .none) (locate (i + 1) l' k' t)) ∧
      Placed [letter] i l (i + 1) l' := by
  obtain ⟨hlookup, hline, hreturn⟩ := escapes_lookup h
  obtain ⟨l', k', hlocate, hplaced⟩ := locate_cons hreturn i l k t
  refine ⟨l', k', ?_, hplaced⟩
  rw [hlocate, hline]
  refine quotedUnits_take _ _ ?_
  simp [Yaml.quotedStep, Yaml.escapeStep, hlookup]

theorem quotedUnits_u (i l k : Nat) (t : List Char) :
    ∃ l' k', Yaml.quotedUnits true .escape (locate i l k ('u' :: t)) =
        Yaml.quotedUnits true (.code 4 0) (locate (i + 1) l' k' t) ∧
      Placed ['u'] i l (i + 1) l' := by
  obtain ⟨l', k', hlocate, hplaced⟩ := locate_cons (c := 'u') (by decide) i l k t
  refine ⟨l', k', ?_, hplaced⟩
  rw [hlocate, quotedUnits_take [] (.code 4 0) (by rfl), prepend_nil]

/-- A character that may stand in a string. -/
theorem ne_of_char {c : Char} (h : 0x20 ≤ c.toNat) :
    c ≠ '\t' ∧ c ≠ '\n' ∧ c ≠ '\r' ∧ c ≠ Yaml.endMark := by
  refine ⟨?_, ?_, ?_, ?_⟩
  all_goals
    rintro rfl
    exact absurd h (by decide)

theorem lineChar_ne {c : Char} (h : 0x20 ≤ c.toNat) :
    lineChar c ≠ '\t' ∧ lineChar c ≠ Yaml.endMark := by
  obtain ⟨htab, -, -, hend⟩ := ne_of_char h
  unfold lineChar
  split
  · decide
  · exact ⟨htab, hend⟩

/-- What is read as part of a word is read as it is. -/
theorem lineChar_of_widened {c : Char} (h : widened g (lineChar c) = none) :
    lineChar c = c := by
  obtain ⟨-, hb⟩ := widened_eq_none.mp h
  unfold lineChar at hb ⊢
  split
  · next hend =>
    rw [if_pos hend] at hb
    cases hb
  · rfl

/-- What a word may go on with. -/
theorem wordStep_of_widened {c next : Char} (hc : c ≠ '\t' ∧ c ≠ Yaml.endMark)
    (h : widened g c = none) (before : List Nat) :
    Yaml.wordStep true before c next =
      if c == '"' then .close before
      else if c == '\\' then .take before .escape
      else .take (before ++ [c.toNat]) (.gap .none) := by
  obtain ⟨hspace, hb⟩ := widened_eq_none.mp h
  simp [Yaml.wordStep, hc.2, isSpace_eq hc.1, hspace, hb]

/-- Characters that are no spaces and end no line are read as they are, after the gap. -/
theorem quotedUnits_char {c : Char} (hc : 0x20 ≤ c.toNat ∧ c ≠ '"' ∧ c ≠ '\\')
    (hw : widened g (lineChar c) = none) {i l k : Nat}
    (hm : (isFresh g && Source.atMarker (⟨lineChar c, i, l, k⟩ :: s)) = false) :
    Yaml.quotedUnits true (.gap g) (⟨lineChar c, i, l, k⟩ :: s) =
      prepend (unitsOf g.text ++ [c.toNat]) (Yaml.quotedUnits true (.gap .none) s) := by
  refine quotedUnits_take _ _ ?_
  rw [quotedStep_gap (lineChar_ne hc.1) hm]
  simp only [hw]
  rw [wordStep_of_widened (lineChar_ne hc.1) hw, lineChar_of_widened hw]
  simp [hc]

/-- A backslash begins an escape after the gap. -/
theorem quotedUnits_backslash {i l k : Nat}
    (hm : (isFresh g && Source.atMarker (⟨'\\', i, l, k⟩ :: s)) = false) :
    Yaml.quotedUnits true (.gap g) (⟨'\\', i, l, k⟩ :: s) =
      prepend (unitsOf g.text) (Yaml.quotedUnits true .escape s) := by
  have hw : widened g '\\' = none := widened_eq_none.mpr (by decide)
  refine quotedUnits_take _ _ ?_
  rw [quotedStep_gap (by simp [Yaml.endMark]) hm]
  simp only [hw]
  rw [wordStep_of_widened (by simp [Yaml.endMark]) hw]
  rfl

/-- At the closing quote the last gap is added to the text. -/
theorem quotedUnits_quote {i l k : Nat} (r : Source) :
    Yaml.quotedUnits true (.gap g) (⟨'"', i, l, k⟩ :: r) = .ok (unitsOf g.text, r) := by
  have hw : widened g '"' = none := widened_eq_none.mpr (by decide)
  have hm : Source.atMarker (⟨'"', i, l, k⟩ :: r) = false := by
    rw [atMarker_eq]
    exact beginsMarker_append [] _
  refine quotedUnits_close ?_
  rw [quotedStep_gap (by simp [Yaml.endMark]) (by rw [hm, Bool.and_false])]
  simp only [hw]
  rw [wordStep_of_widened (by simp [Yaml.endMark]) hw]
  rfl

/-- The next character of a string, where no marker stands. -/
theorem quotedUnits_part (p : Part) (g : Gap) (i l k : Nat) (t : List Char)
    (hm : (isFresh g && Source.atMarker (locate i l k (p.text ++ t))) = false) :
    ∃ i' l' k', Yaml.quotedUnits true (.gap g) (locate i l k (p.text ++ t)) =
        (match widened g p.head with
        | some g => Yaml.quotedUnits true (.gap g) (locate i' l' k' t)
        | none => prepend (unitsOf g.text ++ [p.unit])
            (Yaml.quotedUnits true (.gap .none) (locate i' l' k' t))) ∧
      Placed p.text i l i' l' := by
  cases p with
  | char c hc =>
    obtain ⟨l', k', hlocate, hplaced⟩ := locate_cons (ne_of_char hc.1).2.2.1 i l k t
    refine ⟨i + 1, l', k', ?_, hplaced⟩
    simp only [Part.text, List.cons_append, List.nil_append, Part.head, Part.unit] at hm ⊢
    rw [hlocate] at hm ⊢
    split
    · next g' hw =>
      rw [quotedUnits_take [] (.gap g'), prepend_nil]
      rw [quotedStep_gap (lineChar_ne hc.1) hm]
      simp only [hw]
    · next hw => exact quotedUnits_char hc hw hm
  | escape letter c h =>
    obtain ⟨l₁, k₁, hlocate, hp₁⟩ := locate_cons (c := '\\') (by decide) i l k (letter :: t)
    obtain ⟨l₂, k₂, hescape, hp₂⟩ := quotedUnits_escape h (i + 1) l₁ k₁ t
    refine ⟨i + 1 + 1, l₂, k₂, ?_, hp₁.cons hp₂⟩
    have hw : widened g '\\' = none := widened_eq_none.mpr (by decide)
    simp only [Part.text, List.cons_append, List.nil_append, Part.head, Part.unit, hw] at hm ⊢
    rw [hlocate] at hm ⊢
    rw [← prepend_prepend, ← hescape]
    exact quotedUnits_backslash hm
  | code a b c d n h =>
    obtain ⟨l₁, k₁, hlocate, hp₁⟩ :=
      locate_cons (c := '\\') (by decide) i l k ('u' :: a :: b :: c :: d :: t)
    obtain ⟨l₂, k₂, hu, hp₂⟩ := quotedUnits_u (i + 1) l₁ k₁ (a :: b :: c :: d :: t)
    obtain ⟨l₃, k₃, hcode, hp₃⟩ := quotedUnits_code h (i + 1 + 1) l₂ k₂ t
    refine ⟨i + 1 + 1 + 4, l₃, k₃, ?_, hp₁.cons (hp₂.cons hp₃)⟩
    have hw : widened g '\\' = none := widened_eq_none.mpr (by decide)
    simp only [Part.text, List.cons_append, List.nil_append, Part.head, Part.unit, hw] at hm ⊢
    rw [hlocate] at hm ⊢
    rw [← prepend_prepend, ← hcode, ← hu]
    exact quotedUnits_backslash hm

theorem atMarker_parts (ps : List Part) (i l k : Nat) (r : List Char) :
    Source.atMarker (locate i l k (partsText ps ++ '"' :: r)) =
      beginsMarker ((partsText ps).map lineChar) := by
  have hreturn : ∀ c ∈ partsText ps, c ≠ '\r' := by
    intro c hc
    obtain ⟨p, -, hp⟩ := List.mem_flatMap.mp hc
    exact p.ne_return c hp
  obtain ⟨more, hmore⟩ := map_char_locate hreturn i l k r
  rw [atMarker_eq, hmore, beginsMarker_append]

/-- From a gap on a string is folded up to its closing quote, unless a line begins with a marker. -/
theorem quotedUnits_parts (ps : List Part) (g : Gap) (i l k : Nat) (r : List Char) :
    ∃ i' l' k', Yaml.quotedUnits true (.gap g) (locate i l k (partsText ps ++ '"' :: r)) =
        (if markerFree (isFresh g) ps then .ok (foldedUnits g ps, locate i' l' k' r)
        else .error .illFormed) ∧
      Placed (partsText ps ++ ['"']) i l i' l' := by
  induction ps generalizing g i l k with
  | nil =>
    obtain ⟨l', k', hlocate, hplaced⟩ := locate_cons (c := '"') (by decide) i l k r
    refine ⟨i + 1, l', k', ?_, hplaced⟩
    change Yaml.quotedUnits true (.gap g) (locate i l k ('"' :: r)) = _
    rw [hlocate]
    exact quotedUnits_quote _
  | cons p ps ih =>
    have hmark := atMarker_parts (p :: ps) i l k r
    cases hm : isFresh g && beginsMarker ((partsText (p :: ps)).map lineChar) with
    | true =>
      obtain ⟨hfresh, hbegins⟩ := Bool.and_eq_true_iff.mp hm
      obtain ⟨i', l', hplaced⟩ := exists_placed (partsText (p :: ps) ++ ['"']) i l
      refine ⟨i', l', 0, ?_, hplaced⟩
      rw [hbegins] at hmark
      rw [markerFree, hm, Bool.not_true, Bool.false_and, if_neg Bool.false_ne_true]
      cases hs : locate i l k (partsText (p :: ps) ++ '"' :: r) with
      | nil => rfl
      | cons x s => exact quotedUnits_fault (quotedStep_marker hfresh (hs ▸ hmark))
    | false =>
      rw [partsText_cons] at hmark ⊢
      obtain ⟨i₁, l₁, k₁, hstep, hp₁⟩ :=
        quotedUnits_part p g i l k (partsText ps ++ '"' :: r) (by rw [hmark]; exact hm)
      rw [hstep, markerFree, hm, Bool.not_false, Bool.true_and, foldedUnits]
      cases hw : widened g p.head with
      | some g' =>
        obtain ⟨i₂, l₂, k₂, hrest, hp₂⟩ := ih g' i₁ l₁ k₁
        rw [isFresh_of_widened hw] at hrest
        refine ⟨i₂, l₂, k₂, hrest, ?_⟩
        rw [partsText_cons]
        exact hp₁.append hp₂
      | none =>
        obtain ⟨i₂, l₂, k₂, hrest, hp₂⟩ := ih .none i₁ l₁ k₁
        have hfresh : isBreak p.head = isFresh .none := (widened_eq_none.mp hw).2
        refine ⟨i₂, l₂, k₂, ?_, ?_⟩
        · simp only [hrest, ← hfresh]
          split
          · simp [prepend, Except.map]
          · rfl
        · rw [partsText_cons]
          exact hp₁.append hp₂

/-- A string is scanned as its folded value, unless a line begins with a marker. -/
theorem scanQuoted_parts (ps : List Part) (i l k : Nat) (r : List Char) :
    ∃ i' l' k', Yaml.scanQuoted true (locate i l k (partsText ps ++ '"' :: r)) =
        (if markerFree false ps then .ok ((foldedValue ps).toList, locate i' l' k' r)
        else .error .illFormed) ∧
      Placed (partsText ps ++ ['"']) i l i' l' := by
  obtain ⟨i', l', k', hunits, hplaced⟩ := quotedUnits_parts ps .none i l k r
  refine ⟨i', l', k', ?_, hplaced⟩
  rw [Yaml.scanQuoted, hunits, foldedValue, String.toList_ofList]
  change _ = if markerFree (isFresh .none) ps = true then _ else _
  cases markerFree (isFresh .none) ps <;> rfl

end RowModel.Json
