import RowModel.Json.Reading
import RowModel.Proofs.Double
import RowModel.Proofs.Json.Leaf
import RowModel.Yaml.Scalar

/-!
The words and numbers of a JSON text as plain scalars: the tag that the reader of documents gives them
and their value under it (`scalarValue_atom`).
-/
namespace RowModel.Json

open Yaml (Tag)

theorem mem_digits {c : Char} (h : c.isDigit = true) :
    c ∈ ['0', '1', '2', '3', '4', '5', '6', '7', '8', '9'] := by
  have hlt : c.toNat < 58 := by
    simp only [Char.isDigit, Bool.and_eq_true, decide_eq_true_eq, ge_iff_le,
      UInt32.le_iff_toNat_le] at h
    exact Nat.lt_succ_of_le h.2
  have hall : ∀ n < 58, (Char.ofNat n).isDigit = true →
      Char.ofNat n ∈ ['0', '1', '2', '3', '4', '5', '6', '7', '8', '9'] := by decide
  have hc := hall c.toNat hlt
  rw [Char.ofNat_toNat] at hc
  exact hc h

/-- What holds of the ten digits. -/
theorem of_digit {p : Char → Bool}
    (h : ['0', '1', '2', '3', '4', '5', '6', '7', '8', '9'].all p = true) {c : Char}
    (hc : c.isDigit = true) : p c = true :=
  List.all_eq_true.mp h c (mem_digits hc)

/-- No sign stands before digits. -/
theorem unsigned_digits (ds : Digits) (r : List Char) :
    Yaml.unsigned (ds.chars ++ r) = ds.chars ++ r := by
  obtain ⟨c, t, hc, hdigit⟩ := ds.exists_cons
  obtain ⟨hminus, hplus⟩ := digit_ne_sign hdigit
  rw [hc, List.cons_append, Yaml.unsigned, if_neg (not_or.mpr ⟨hplus, hminus⟩)]

theorem signed_digits (ds : Digits) (r : List Char) :
    Text.signed (ds.chars ++ r) = (false, ds.chars ++ r) := by
  obtain ⟨c, t, hc, hdigit⟩ := ds.exists_cons
  obtain ⟨hminus, hplus⟩ := digit_ne_sign hdigit
  rw [hc, List.cons_append, Text.signed.eq_def]
  split
  · next heq => cases heq; exact absurd rfl hminus
  · next heq => cases heq; exact absurd rfl hplus
  · rfl

namespace Numeral

variable (n : Numeral)

/-- Without its sign a number is what follows the sign. -/
theorem unsigned_text : Yaml.unsigned n.text = n.unsignedText := by
  rw [text_eq, signText]
  split
  · rfl
  · exact unsigned_digits n.whole _

theorem signed_text : Text.signed n.text = (n.negative, n.unsignedText) := by
  rw [text_eq, signText]
  split
  · next h => rw [h]; rfl
  · next h =>
    rw [Bool.eq_false_iff.mpr h]
    exact signed_digits n.whole _

theorem isEmpty_text : n.text.isEmpty = false := by
  obtain ⟨c, r, hc, -⟩ := n.exists_head
  rw [text_eq, hc]
  simp

/-- Fraction and exponent begin with their marks. -/
theorem tail_head : ∀ c ∈ (n.fractionText ++ n.exponentText).head?,
    c = '.' ∨ c = 'e' ∨ c = 'E' := by
  rw [fractionText, exponentText]
  cases n.fraction with
  | some ds =>
    rintro _ ⟨⟩
    exact .inl rfl
  | none =>
    cases n.exponent with
    | none => simp
    | some e =>
      simp only [Option.map_some, Option.getD_some, Exponent.text, List.cons_append,
        List.nil_append, List.head?_cons, Option.mem_some_iff]
      rintro _ rfl
      cases e.capital <;> simp

theorem tail_eq_nil : n.fractionText ++ n.exponentText = [] ↔ n.isWhole = true := by
  rw [fractionText, exponentText, isWhole]
  cases n.fraction <;> cases n.exponent <;> simp [Exponent.text]

/-- A leading zero is the only digit. -/
theorem whole_eq_zero {r : List Char} (h : n.whole.chars = '0' :: r) : r = [] := by
  have hlen := n.no_leading_zero (by rw [h]; rfl)
  rw [h, List.length_cons] at hlen
  exact List.eq_nil_of_length_eq_zero (Nat.succ.inj hlen)

theorem not_mem_text {c : Char} (h : isNumeric c = false) : c ∉ n.text ∧ c ∉ n.unsignedText := by
  constructor
  · intro hc
    rw [n.isNumeric_of_mem_text hc] at h
    cases h
  · intro hc
    rw [n.isNumeric_of_mem hc] at h
    cases h

theorem isSexagesimal_of_not_mem {s : List Char} (h : ':' ∉ s) : Yaml.isSexagesimal s = false := by
  simp [Yaml.isSexagesimal, Text.splitOn_of_not_mem h]

theorem isDigitRun_digits (ds : Digits) : Yaml.isDigitRun ds.chars = true := by
  obtain ⟨c, r, hc, hdigit⟩ := ds.exists_cons
  rw [hc, Yaml.isDigitRun, hdigit, Bool.true_and, List.all_eq_true]
  intro d hd
  rw [Yaml.isDigitMark, ds.areDigits d (hc ▸ List.mem_cons_of_mem c hd), Bool.true_or]

/-- Whether a number is a whole one is seen at what follows its first digits. -/
theorem tail_cases : (n.isWhole = true ∧ n.unsignedText = n.whole.chars) ∨
    n.isWhole = false ∧ ∃ c r, n.unsignedText = n.whole.chars ++ c :: r ∧
      (c = '.' ∨ c = 'e' ∨ c = 'E') := by
  have hhead := n.tail_head
  have hnil := n.tail_eq_nil
  rw [unsignedText]
  cases htail : n.fractionText ++ n.exponentText with
  | nil => exact .inl ⟨hnil.mp htail, List.append_nil _⟩
  | cons c r =>
    rw [htail] at hhead hnil
    refine .inr ⟨Bool.eq_false_iff.mpr fun h => ?_, c, r, rfl, hhead c rfl⟩
    cases hnil.mpr h

/-- A point or an exponent ends the run of digits. -/
theorem isDigitRun_append {c : Char} {r : List Char} (ds : Digits) (hc : c = '.' ∨ c = 'e' ∨ c = 'E') :
    Yaml.isDigitRun (ds.chars ++ c :: r) = false := by
  obtain ⟨d, t, hd, -⟩ := ds.exists_cons
  have hmark : Yaml.isDigitMark c = false := by rcases hc with rfl | rfl | rfl <;> rfl
  simp [hd, Yaml.isDigitRun, hmark]

/-- The reader finds a whole number where there is neither fraction nor exponent. -/
theorem isInt_text : Yaml.isInt n.text = n.isWhole := by
  have hcolon : ':' ∉ n.unsignedText := (n.not_mem_text (by decide)).2
  rw [Yaml.isInt, unsigned_text]
  obtain ⟨d, t, hd, -⟩ := n.whole.exists_cons
  by_cases hzero : d = '0'
  · subst hzero
    obtain rfl := n.whole_eq_zero hd
    rcases n.tail_cases with ⟨hwhole, htext⟩ | ⟨hwhole, c, r, htext, hc⟩
    · rw [htext, hd, hwhole]
      rfl
    · rw [htext, hd, hwhole]
      rcases hc with rfl | rfl | rfl <;> rfl
  · have hrun : Yaml.isDigitRun n.unsignedText = n.isWhole := by
      rcases n.tail_cases with ⟨hwhole, htext⟩ | ⟨hwhole, c, r, htext, hc⟩
      · rw [htext, hwhole, isDigitRun_digits]
      · rw [htext, hwhole, isDigitRun_append n.whole hc]
    obtain ⟨r, htext⟩ : ∃ r, n.unsignedText = d :: r := ⟨_, by rw [unsignedText, hd]; rfl⟩
    have hother := isSexagesimal_of_not_mem hcolon
    rw [htext] at hrun hother ⊢
    split
    · next heq => cases heq; exact absurd rfl hzero
    · next heq => cases heq; exact absurd rfl hzero
    · next heq => cases heq; exact absurd rfl hzero
    · rw [hrun, hother, Bool.or_false]

/-- It asks for the sign of an exponent. -/
theorem isExponent_text : Yaml.isExponent n.exponentText = n.exponent.all (·.sign.isSome) := by
  rw [exponentText]
  cases n.exponent with
  | none => rfl
  | some e =>
    obtain ⟨capital, sign, ds⟩ := e
    obtain ⟨c, r, hc, hdigit⟩ := ds.exists_cons
    have hall : ds.chars.all Char.isDigit = true := List.all_eq_true.mpr ds.areDigits
    obtain ⟨hminus, hplus⟩ := digit_ne_sign hdigit
    cases sign with
    | none =>
      simp [Exponent.text, Exponent.signText, hc, Yaml.isExponent, hminus, hplus]
    | some negative =>
      cases negative <;> cases capital <;>
        simp [Exponent.text, Exponent.signText, Yaml.isExponent, ds.ne_nil, hall]

/-- Words do not begin like numbers. -/
theorem not_mem_words (words : List (List Char))
    (h : words.all (fun w => w.head?.all fun c => !c.isDigit && c != '-') = true) :
    words.contains n.text = false ∧ words.contains n.unsignedText = false := by
  have hword : ∀ c r, c.isDigit = true ∨ c = '-' → words.contains (c :: r) = false := by
    intro c r hc
    rw [Bool.eq_false_iff, ne_eq, List.contains_iff_mem]
    intro hmem
    have hhead : c.isDigit = false ∧ c ≠ '-' := by simpa using List.all_eq_true.mp h _ hmem
    rcases hc with hc | hc
    · exact Bool.false_ne_true (hhead.1.symm.trans hc)
    · exact hhead.2 hc
  obtain ⟨c, r, hc, hdigit⟩ := n.exists_head
  rw [text_eq, signText, hc]
  refine ⟨?_, hword c r (.inl hdigit)⟩
  split
  · exact hword '-' (c :: r) (.inr rfl)
  · exact hword c r (.inl hdigit)

theorem not_mem_signText {c : Char} (h : c ≠ '-') : c ∉ n.signText := by
  rw [signText]
  split
  · rwa [List.mem_singleton]
  · exact List.not_mem_nil

theorem not_mem_digits {c : Char} (h : c.isDigit = false) (ds : Digits) : c ∉ ds.chars := by
  intro hc
  rw [ds.areDigits c hc] at h
  cases h

theorem not_mem_exponentText {c : Char} (h : c.isDigit = false)
    (hc : c ≠ '-' ∧ c ≠ '+' ∧ c ≠ 'e' ∧ c ≠ 'E') : c ∉ n.exponentText := by
  intro hmem
  rcases n.mem_exponent hmem with hd | hd
  · rw [hd] at h
    cases h
  · rcases hd with rfl | rfl | rfl | rfl <;> simp at hc

/-- A number is cut at its point. -/
theorem cutFirst_text : Text.cutFirst '.' n.text =
    n.fraction.map fun ds => (n.signText ++ n.whole.chars, ds.chars ++ n.exponentText) := by
  have hsign := n.not_mem_signText (c := '.') (by decide)
  have hwhole := not_mem_digits (c := '.') rfl n.whole
  have hexponent := n.not_mem_exponentText (c := '.') rfl (by decide)
  rw [text, fractionText]
  cases n.fraction with
  | none =>
    rw [Text.cutFirst_eq_none_iff.mpr]
    · rfl
    · simp [hsign, hwhole, hexponent]
  | some ds =>
    have hfront : '.' ∉ n.signText ++ n.whole.chars := by simp [hsign, hwhole]
    rw [List.append_assoc, List.cons_append]
    exact Text.cutFirst_append_sep_cons hfront _

theorem dropWhile_isDigitMark (ds : Digits) :
    (ds.chars ++ n.exponentText).dropWhile Yaml.isDigitMark = n.exponentText := by
  rw [List.dropWhile_append_of_pos]
  · rw [exponentText]
    cases n.exponent with
    | none => rfl
    | some e =>
      obtain ⟨capital, sign, digits⟩ := e
      cases capital <;> rfl
  · intro c hc
    rw [Yaml.isDigitMark, ds.areDigits c hc, Bool.true_or]

theorem unsigned_front : Yaml.unsigned (n.signText ++ n.whole.chars) = n.whole.chars := by
  rw [signText]
  split
  · rfl
  · simpa using unsigned_digits n.whole []

/-- It asks for a point, and for the sign of an exponent. -/
theorem isFloat_text :
    Yaml.isFloat n.text = (n.fraction.isSome && n.exponent.all (·.sign.isSome)) := by
  have hinfinity : Yaml.infinityWords.contains (Yaml.unsigned n.text) = false := by
    rw [unsigned_text]
    exact (n.not_mem_words _ (by decide)).2
  have hnan := (n.not_mem_words Yaml.nanWords (by decide)).1
  have hfront : (n.signText ++ n.whole.chars).isEmpty = false := by simp [n.whole.ne_nil]
  rw [Yaml.isFloat, hinfinity, hnan, Bool.false_or, Bool.false_or, cutFirst_text]
  cases n.fraction with
  | none => rfl
  | some ds =>
    simp only [Option.map_some, Option.isSome_some, Bool.true_and]
    rw [n.dropWhile_isDigitMark, unsigned_front, isDigitRun_digits, hfront,
      isSexagesimal_of_not_mem (not_mem_digits rfl n.whole), isExponent_text]
    simp

/-- After its first digits a number has no minus, unless the first of them is one itself. -/
theorem head_drop_ne (h : (n.text.take 4).all Char.isDigit = true) :
    ∀ c ∈ (n.text.drop 4).head?, c ≠ '-' := by
  have htext : n.text = n.unsignedText := by
    rw [text_eq, signText] at h ⊢
    cases hn : n.negative with
    | true => simp [hn] at h
    | false => rfl
  rw [htext] at h ⊢
  have hdigit : ∀ c ∈ (n.whole.chars.drop 4).head?, c ≠ '-' := by
    intro c hc
    exact (digit_ne_sign (n.whole.areDigits c (List.mem_of_mem_drop (List.mem_of_head? hc)))).1
  rcases n.tail_cases with ⟨-, htail⟩ | ⟨-, c, r, htail, hc⟩
  · rw [htail]
    exact hdigit
  · rw [htail] at h ⊢
    have hnot : c.isDigit = false ∧ c ≠ '-' := by rcases hc with rfl | rfl | rfl <;> decide
    by_cases hlong : 4 ≤ n.whole.chars.length
    · rw [List.drop_append_of_le_length hlong]
      cases hdrop : n.whole.chars.drop 4 with
      | nil =>
        rintro _ ⟨⟩
        exact hnot.2
      | cons d t =>
        rw [hdrop] at hdigit
        exact hdigit
    · have hmem : c ∈ (n.whole.chars ++ c :: r).take 4 := by
        rw [List.take_append, List.mem_append]
        obtain ⟨k, hk⟩ : ∃ k, 4 - n.whole.chars.length = k + 1 :=
          ⟨4 - n.whole.chars.length - 1, by omega⟩
        rw [hk, List.take_succ_cons]
        exact .inr List.mem_cons_self
      rw [List.all_eq_true.mp h c hmem] at hnot
      cases hnot.1

/-- No date begins like a number. -/
theorem isTimestamp_text : Yaml.isTimestamp n.text = false := by
  have hparse : Yaml.Timestamp.parse? n.text = none := by
    rw [Yaml.Timestamp.parse?, Yaml.Timestamp.digits?]
    split
    · next h =>
      have hhead := n.head_drop_ne h.2
      have hchar : Yaml.Timestamp.char? '-' (n.text.drop 4) = none := by
        rw [Yaml.Timestamp.char?.eq_def]
        split
        · rfl
        · next d t heq => exact if_neg (hhead d (by rw [heq]; rfl))
      simp [hchar]
    · rfl
  rw [Yaml.isTimestamp, hparse]
  rfl

theorem withoutFinalBreak_text : Yaml.withoutFinalBreak n.text = n.text := by
  have hbreak := (n.not_mem_text (c := '\n') rfl).1
  rw [Yaml.withoutFinalBreak, if_neg]
  intro h
  exact hbreak (List.mem_of_getLast? h)

/-- A number is tagged as one where the reader recognises it. -/
theorem implicit_text : Tag.implicit n.text =
    if n.isRecognised then if n.isWhole then .int else .float else .str := by
  obtain ⟨c, r, hc, hdigit⟩ := n.exists_head
  have hbool := (n.not_mem_words Yaml.boolWords (by decide)).1
  have hnull := (n.not_mem_words Yaml.nullWords (by decide)).1
  have hne : ∀ s : List Char, s.all (!isNumeric ·) = true → n.text ≠ s := by
    rintro s hs rfl
    have hmem : c ∈ n.text := by
      rw [text_eq, hc]
      simp
    have hnumeric := List.all_eq_true.mp hs c hmem
    simp [isNumeric, hdigit] at hnumeric
  have hbreak := hne ['\n'] rfl
  have hmerge := hne ['<', '<'] rfl
  have hvalue := hne ['='] rfl
  have hunknown : [['!'], ['&'], ['*']].contains n.text = false := by
    simp [hne ['!'] rfl, hne ['&'] rfl, hne ['*'] rfl]
  rw [Tag.implicit, if_neg hbreak, withoutFinalBreak_text]
  simp only [hbool, hnull, hmerge, hvalue, hunknown, isTimestamp_text, isFloat_text, isInt_text,
    Bool.false_eq_true, if_false]
  rw [isRecognised, isWhole]
  cases n.fraction with
  | none => cases n.exponent <;> simp
  | some ds =>
    cases n.exponent with
    | none => simp
    | some e => cases e.sign <;> simp

theorem filter_of_not_mem {c : Char} {s : List Char} (h : c ∉ s) : s.filter (· != c) = s := by
  rw [List.filter_eq_self]
  rintro d hd
  rw [bne_iff_ne]
  rintro rfl
  exact h hd

end Numeral

/-- A digit is no blank and stands for itself. -/
theorem digit_facts {c : Char} (h : c.isDigit = true) :
    Text.isOuterBlank c = false ∧ Text.digit? c = some (c.toNat - '0'.toNat) ∧
      Nat.digitChar (c.toNat - '0'.toNat) = c ∧ Text.digitIn? 10 c = some (c.toNat - '0'.toNat) := by
  have hall := of_digit (p := fun c => !Text.isOuterBlank c &&
    Text.digit? c == some (c.toNat - '0'.toNat) &&
    Nat.digitChar (c.toNat - '0'.toNat) == c &&
    Text.digitIn? 10 c == some (c.toNat - '0'.toNat)) (by decide) h
  simpa [and_assoc] using hall

/-- A text that begins and ends with digits, and where no digits of other scripts stand. -/
theorem numeralChars_of_ends {s : List Char} (hhead : ∀ c ∈ s.head?, c.isDigit = true)
    (hlast : ∀ c ∈ s.getLast?, c.isDigit = true)
    (hall : ∀ c ∈ s, c.isDigit = true ∨ Text.digit? c = none) : Text.numeralChars s = s := by
  have hdrop : ∀ t : List Char, (∀ c ∈ t.head?, c.isDigit = true) →
      t.dropWhile Text.isOuterBlank = t := fun t ht =>
    (takeWhile_of_head fun c hc => (digit_facts (ht c hc)).1).2
  rw [Text.numeralChars, hdrop s hhead, hdrop s.reverse (by rwa [List.head?_reverse]),
    List.reverse_reverse]
  conv => rhs; rw [← List.map_id s]
  refine List.map_congr_left fun c hc => ?_
  rcases hall c hc with hd | hd
  · obtain ⟨-, hdigit, hchar, -⟩ := digit_facts hd
    rw [hdigit]
    exact hchar
  · rw [hd]
    rfl

theorem digitsValue_eq {ds : List Char} (h : ∀ c ∈ ds, c.isDigit = true) (value : Nat) :
    Text.digitsValue? 10 value ds =
      some (ds.foldl (fun n d => n * 10 + (d.toNat - '0'.toNat)) value) := by
  induction ds generalizing value with
  | nil => rfl
  | cons c ds ih =>
    obtain ⟨hc, hds⟩ := List.forall_mem_cons.mp h
    rw [Text.digitsValue?, (digit_facts hc).2.2.2, Option.bind_some, ih hds, List.foldl_cons]

theorem digitsValue_decimalValue {ds : List Char} (h : ∀ c ∈ ds, c.isDigit = true) :
    Text.digitsValue? 10 0 ds = some (Text.decimalValue ds) := digitsValue_eq h 0

theorem numeralChars_digits (ds : Digits) : Text.numeralChars ds.chars = ds.chars :=
  numeralChars_of_ends (fun c hc => ds.areDigits c (List.mem_of_head? hc))
    (fun c hc => ds.areDigits c (List.mem_of_getLast? hc)) fun c hc => .inl (ds.areDigits c hc)

/-- Digits are a whole number if there are not too many. -/
theorem wholeOr_digits (ds : Digits) : Yaml.wholeOr 10 ds.chars =
    if ds.chars.length ≤ Text.digitLimit then .ok (Text.decimalValue ds.chars : Int)
    else .error (.noValue .noSuchValue) := by
  have hsigned := signed_digits ds []
  rw [List.append_nil] at hsigned
  have hmark : Text.withoutBaseMark 10 ds.chars = ds.chars := by
    rw [Text.withoutBaseMark.eq_def]
    split
    · exact if_neg (by simp [Text.baseMark])
    · rfl
  rw [Yaml.wholeOr, Text.wholeNumber?, numeralChars_digits, hsigned]
  simp only [hmark, ds.isEmpty_chars, digitsValue_decimalValue ds.areDigits]
  by_cases hlimit : ds.chars.length ≤ Text.digitLimit
  · rw [if_pos hlimit]
    simp [Nat.not_lt.mpr hlimit]
  · rw [if_neg hlimit]
    simp [Nat.lt_of_not_le hlimit]

namespace Numeral

variable (n : Numeral)

theorem unsignedInt_whole : Yaml.unsignedInt n.whole.chars =
    if n.whole.chars.length ≤ Text.digitLimit then .ok (Text.decimalValue n.whole.chars : Int)
    else .error (.noValue .noSuchValue) := by
  have hcolon : n.whole.chars.contains ':' = false := by
    rw [Bool.eq_false_iff, ne_eq, List.contains_iff_mem]
    exact not_mem_digits rfl n.whole
  obtain ⟨c, r, hc, -⟩ := n.whole.exists_cons
  by_cases hzero : c = '0'
  · subst hzero
    rw [hc, n.whole_eq_zero hc]
    rfl
  · have hwhole := wholeOr_digits n.whole
    rw [hc] at hcolon hwhole ⊢
    rw [Yaml.unsignedInt.eq_def]
    split
    · next heq => cases heq
    · next heq => cases heq; exact absurd rfl hzero
    · next heq => cases heq; exact absurd rfl hzero
    · next heq => cases heq; exact absurd rfl hzero
    · next heq => cases heq; exact absurd rfl hzero
    · rw [hcolon, hwhole]
      rfl

theorem value_of_isWhole (h : n.isWhole = true) :
    n.value = .int (if n.negative then -(Text.decimalValue n.whole.chars : Int)
      else Text.decimalValue n.whole.chars) := by
  rw [isWhole, Bool.and_eq_true, Option.isNone_iff_eq_none, Option.isNone_iff_eq_none] at h
  rw [value, h.1, h.2]

theorem unsignedText_of_isWhole (h : n.isWhole = true) : n.unsignedText = n.whole.chars := by
  rcases n.tail_cases with ⟨-, htext⟩ | ⟨hnot, -⟩
  · exact htext
  · rw [h] at hnot
    cases hnot

/-- A whole number has its value if it is not too long. -/
theorem intValue_text (h : n.isWhole = true) : Yaml.intValue n.text =
    if n.whole.chars.length ≤ Text.digitLimit then .ok n.value
    else .error (.noValue .noSuchValue) := by
  rw [Yaml.intValue, filter_of_not_mem (n.not_mem_text rfl).1]
  simp only [n.isEmpty_text, Bool.false_eq_true, if_false, signed_text, n.unsignedText_of_isWhole h,
    unsignedInt_whole, n.value_of_isWhole h]
  by_cases hlimit : n.whole.chars.length ≤ Text.digitLimit
  · rw [if_pos hlimit, if_pos hlimit]
    rfl
  · rw [if_neg hlimit, if_neg hlimit]
    rfl

def fractionDigits : List Char := (n.fraction.map Digits.chars).getD []

theorem isDigit_fractionDigits : ∀ c ∈ n.fractionDigits, c.isDigit = true := by
  rw [fractionDigits]
  cases n.fraction with
  | none => exact List.forall_mem_nil _
  | some ds => exact ds.areDigits

def exponentValue : Int := (n.exponent.map Exponent.value).getD 0

/-- The exponent has its value. -/
theorem exponent?_exponentText : Text.exponent? n.exponentText = some n.exponentValue := by
  rw [exponentText, exponentValue]
  cases n.exponent with
  | none => rfl
  | some e =>
    obtain ⟨capital, sign, ds⟩ := e
    have hsigned : Text.signed (Exponent.signText sign ++ ds.chars) =
        (decide (sign = some true), ds.chars) := by
      cases sign with
      | none => simpa [Exponent.signText] using signed_digits ds []
      | some negative => cases negative <;> rfl
    have hletter : (if capital then 'E' else 'e') = 'e' ∨ (if capital then 'E' else 'e') = 'E' := by
      cases capital <;> decide
    simp only [Option.map_some, Option.getD_some, Exponent.text, List.cons_append, Text.exponent?,
      hsigned, hletter, ds.isEmpty_chars, digitsValue_decimalValue ds.areDigits, Exponent.value]
    simp

/-- The point and the digits after it, if there are any. -/
theorem tail_point :
    (∃ r, n.fractionText ++ n.exponentText = '.' :: r ∧
      digits r = (n.fractionDigits, n.exponentText)) ∨
    (∀ r, n.exponentText ≠ '.' :: r) ∧ n.fractionDigits = [] ∧ n.fractionText = [] := by
  obtain ⟨hdigit, hpoint⟩ := n.exponentText_append (r := []) ⟨nofun, nofun⟩
  rw [List.append_nil] at hdigit hpoint
  rw [fractionText, fractionDigits]
  cases n.fraction with
  | some ds => exact .inl ⟨_, rfl, digits_append ds.areDigits hdigit⟩
  | none => exact .inr ⟨fun r hr => hpoint '.' (by rw [hr]; rfl) rfl, rfl, rfl⟩

/-- A number without its sign, cut at point and exponent. -/
theorem fraction?_unsignedText : Text.fraction? false n.unsignedText =
    some (Decimal.ofDecimal false (Text.decimalValue (n.whole.chars ++ n.fractionDigits))
      (n.exponentValue - n.fractionDigits.length)) := by
  have htail : NoDigit (n.fractionText ++ n.exponentText) := by
    simpa using n.fractionText_append (r := []) ⟨nofun, nofun⟩
  obtain ⟨htake, hdrop⟩ := Prod.mk.inj (digits_append n.whole.areDigits htail)
  have hempty : (n.whole.chars ++ n.fractionDigits).isEmpty = false := by
    simp [n.whole.ne_nil]
  have hvalue : Text.digitsValue? 10 0 (n.whole.chars ++ n.fractionDigits) =
      some (Text.decimalValue (n.whole.chars ++ n.fractionDigits)) := by
    refine digitsValue_decimalValue fun c hc => ?_
    rcases List.mem_append.mp hc with hc | hc
    · exact n.whole.areDigits c hc
    · exact n.isDigit_fractionDigits c hc
  rw [unsignedText, Text.fraction?]
  simp only [htake, hdrop]
  rcases n.tail_point with ⟨r, hr, hdigits⟩ | ⟨hpoint, hnone, hfraction⟩
  · obtain ⟨hdigits, hrest⟩ := Prod.mk.inj hdigits
    rw [hr]
    simp only [hdigits, hrest, hempty, exponent?_exponentText, hvalue]
    rfl
  · rw [hnone] at hempty hvalue ⊢
    rw [hfraction, List.nil_append]
    split
    · next heq => exact absurd heq (hpoint _)
    · simp only [hempty, exponent?_exponentText, hvalue]
      rfl

theorem getLast_digits (ds : Digits) (s : List Char) :
    ∀ c ∈ (s ++ ds.chars).getLast?, c.isDigit = true := by
  intro c hc
  rw [Option.mem_def, List.getLast?_append_of_ne_nil _ ds.ne_nil] at hc
  exact ds.areDigits c (List.mem_of_getLast? hc)

/-- A number ends with a digit. -/
theorem getLast_unsignedText : ∀ c ∈ n.unsignedText.getLast?, c.isDigit = true := by
  obtain ⟨ds, s, hs⟩ : ∃ (ds : Digits) (s : List Char), n.unsignedText = s ++ ds.chars := by
    rw [unsignedText, fractionText, exponentText]
    cases n.exponent with
    | some e => exact ⟨e.digits, n.whole.chars ++ (_ ++ _ :: Exponent.signText e.sign),
        by simp [Exponent.text]; rfl⟩
    | none =>
      cases n.fraction with
      | some ds => exact ⟨ds, n.whole.chars ++ ['.'], by simp⟩
      | none => exact ⟨n.whole, [], by simp⟩
  rw [hs]
  exact getLast_digits ds s

/-- A decimal number is rounded once, with all its digits. -/
theorem decimal?_unsignedText : Text.decimal? n.unsignedText =
    some (Decimal.ofDecimal false (Text.decimalValue (n.whole.chars ++ n.fractionDigits))
      (n.exponentValue - n.fractionDigits.length)) := by
  obtain ⟨c, r, hc, hdigit⟩ := n.exists_head
  have hnumeral : Text.numeralChars n.unsignedText = n.unsignedText := by
    refine numeralChars_of_ends ?_ n.getLast_unsignedText fun c hc => ?_
    · rw [hc]
      rintro _ ⟨⟩
      exact hdigit
    · have hnumeric := n.isNumeric_of_mem hc
      simp only [isNumeric, Bool.or_eq_true, beq_iff_eq] at hnumeric
      rcases hnumeric with ((((h | rfl) | rfl) | rfl) | rfl) | rfl
      · exact .inl h
      all_goals exact .inr (by decide)
  have hsigned : Text.signed n.unsignedText = (false, n.unsignedText) := signed_digits n.whole _
  have hword : ∀ s : String, s.toList.head?.any (fun d => !d.isDigit) = true →
      String.ofList (n.unsignedText.map Char.toLower) ≠ s := by
    rintro _ hs rfl
    have hlower := of_digit (p := fun c => c.toLower == c) (by decide) hdigit
    rw [hc, String.toList_ofList, List.map_cons, beq_iff_eq.mp hlower] at hs
    simp [hdigit] at hs
  rw [Text.decimal?, hnumeral, hsigned]
  dsimp only
  rw [if_neg (not_or.mpr ⟨hword _ (by decide), hword _ (by decide)⟩), if_neg (hword _ (by decide)),
    fraction?_unsignedText]

def lowered : Numeral :=
  { n with exponent := n.exponent.map fun e => { e with capital := false } }

theorem map_toLower_digits {s : List Char} (h : ∀ c ∈ s, c.isDigit = true) :
    s.map Char.toLower = s := by
  conv => rhs; rw [← List.map_id s]
  refine List.map_congr_left fun c hc => ?_
  exact beq_iff_eq.mp (of_digit (p := fun c => c.toLower == c) (by decide) (h c hc))

theorem map_toLower_text : n.text.map Char.toLower = n.lowered.text := by
  have hsign : n.signText.map Char.toLower = n.signText := by
    rw [signText]
    split <;> rfl
  have hfraction : n.fractionText.map Char.toLower = n.fractionText := by
    rw [fractionText]
    cases n.fraction with
    | none => rfl
    | some ds => exact congrArg _ (map_toLower_digits ds.areDigits)
  have hexponent : n.exponentText.map Char.toLower = n.lowered.exponentText := by
    rw [exponentText, exponentText, lowered]
    cases n.exponent with
    | none => rfl
    | some e =>
      obtain ⟨capital, sign, ds⟩ := e
      have hsign : (Exponent.signText sign).map Char.toLower = Exponent.signText sign := by
        cases sign with
        | none => rfl
        | some negative => cases negative <;> rfl
      simp only [Option.map_some, Option.getD_some, Exponent.text, List.cons_append, List.map_cons,
        List.map_append, hsign, map_toLower_digits ds.areDigits]
      cases capital <;> rfl
  rw [text, List.map_append, List.map_append, List.map_append, hsign, hfraction, hexponent,
    map_toLower_digits n.whole.areDigits]
  rfl

theorem value_lowered : n.lowered.value = n.value := by
  obtain ⟨negative, whole, fraction, exponent, h⟩ := n
  cases fraction <;> cases exponent <;> rfl

/-- A number with a fraction or an exponent denotes the double next to it. -/
theorem value_of_not_isWhole (h : n.isWhole = false) :
    n.value = .float (Decimal.ofDecimal n.negative
      (Text.decimalValue (n.whole.chars ++ n.fractionDigits))
      (n.exponentValue - n.fractionDigits.length)) := by
  rw [isWhole] at h
  rw [value, fractionDigits, exponentValue]
  cases hf : n.fraction with
  | some ds => cases n.exponent <;> rfl
  | none =>
    cases he : n.exponent with
    | some e => rfl
    | none =>
      rw [hf, he] at h
      cases h

theorem unsignedFloat_unsignedText : Yaml.unsignedFloat n.unsignedText =
    .ok (Decimal.ofDecimal false (Text.decimalValue (n.whole.chars ++ n.fractionDigits))
      (n.exponentValue - n.fractionDigits.length)) := by
  have hword := (n.not_mem_words [".inf".toList] (by decide)).2
  have hcolon : n.unsignedText.contains ':' = false := by
    rw [Bool.eq_false_iff, ne_eq, List.contains_iff_mem]
    exact (n.not_mem_text rfl).2
  rw [Yaml.unsignedFloat, if_neg (by simpa using hword), hcolon, Yaml.decimalOr,
    decimal?_unsignedText]
  rfl

/-- A number with fraction or exponent has its value. -/
theorem floatValue_text (h : n.isWhole = false) (mark : Nat) :
    Yaml.floatValue mark n.text = .ok n.value := by
  have hunder := filter_of_not_mem (n.not_mem_text (c := '_') rfl).1
  have hword := (n.lowered.not_mem_words [".nan".toList] (by decide)).2
  have hlowered : n.lowered.isWhole = false := by
    rw [← h, isWhole, isWhole, lowered]
    cases n.exponent <;> rfl
  rw [Yaml.floatValue, hunder, map_toLower_text, ← value_lowered,
    value_of_not_isWhole _ hlowered]
  simp only [isEmpty_text, Bool.false_eq_true, if_false, signed_text, unsignedFloat_unsignedText]
  rw [if_neg (by simpa using hword)]
  obtain ⟨b, hb, hbits⟩ := Decimal.exists_bits
    (Text.decimalValue (n.lowered.whole.chars ++ n.lowered.fractionDigits))
    (n.lowered.exponentValue - n.lowered.fractionDigits.length)
  rw [hbits false, hbits n.lowered.negative]
  cases n.lowered.negative with
  | false => exact congrArg Except.ok (Decimal.ofFloat_ofSignBits mark false hb)
  | true =>
    simp only [if_true, Except.map, Decimal.neg_ofSignBits hb]
    exact congrArg Except.ok (Decimal.ofFloat_ofSignBits mark true hb)

/-- A number is read as the reader takes it, unless it is a whole one of too many digits. -/
theorem scalarValue_text (mark : Nat) : Yaml.scalarValue mark (Tag.implicit n.text) n.text =
    if (Piece.numeral n).isShort then .ok n.reading else .error (.noValue .noSuchValue) := by
  rw [implicit_text, reading, Piece.isShort]
  cases hwhole : n.isWhole with
  | true =>
    have hrecognised : n.isRecognised = true := by
      rw [isWhole, Bool.and_eq_true, Option.isNone_iff_eq_none, Option.isNone_iff_eq_none] at hwhole
      rw [isRecognised, hwhole.2]
    simp only [hrecognised, if_true, Bool.not_true, Bool.false_or, decide_eq_true_eq]
    exact n.intValue_text hwhole
  | false =>
    simp only [Bool.not_false, Bool.true_or, if_true, Bool.false_eq_true, if_false]
    cases n.isRecognised with
    | true => exact n.floatValue_text hwhole mark
    | false => rfl

end Numeral

/-- A word or number is read as the reader takes it. -/
theorem scalarValue_atom (mark : Nat) (a : Atom) :
    Yaml.scalarValue mark (Tag.implicit a.text) a.text =
      if a.pieces.all Piece.isShort then .ok (read.atom a) else .error (.noValue .noSuchValue) := by
  match a with
  | .null | .bool true | .bool false => rfl
  | .number n => simpa [Atom.pieces, Atom.text, read, Leaves.atom] using n.scalarValue_text mark

end RowModel.Json
