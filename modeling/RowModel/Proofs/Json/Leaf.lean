import RowModel.Json.Tree
import RowModel.Text.Numeral
import Mathlib.Data.List.Basic

/-!
The leaves of JSON texts: blanks, numbers and strings. What is read of a leaf is what its parts spell,
and a leaf that is spelled is read where nothing that follows could belong to it.
-/
namespace RowModel.Json

variable {s r rest : List Char}

def NoDigit (s : List Char) : Prop := ∀ c ∈ s.head?, c.isDigit = false

/-- Nothing comes first that a number could go on with. -/
def EndsNumber (s : List Char) : Prop :=
  NoDigit s ∧ ∀ c ∈ s.head?, c ≠ '.' ∧ c ≠ 'e' ∧ c ≠ 'E'

def NoBlank (s : List Char) : Prop := ∀ c ∈ s.head?, isBlank c = false

theorem takeWhile_of_head {p : Char → Bool} (h : ∀ c ∈ s.head?, p c = false) :
    s.takeWhile p = [] ∧ s.dropWhile p = s := by
  cases s with
  | nil => exact ⟨rfl, rfl⟩
  | cons c r =>
    have hc : p c = false := h c rfl
    simp [hc]

/-- Digits end where no digit comes first. -/
theorem digits_append {ds : List Char} (hds : ∀ c ∈ ds, c.isDigit = true) (h : NoDigit s) :
    digits (ds ++ s) = (ds, s) := by
  obtain ⟨htake, hdrop⟩ := takeWhile_of_head h
  rw [digits, List.takeWhile_append_of_pos hds, List.dropWhile_append_of_pos hds, htake, hdrop,
    List.append_nil]

theorem mem_takeWhile {p : Char → Bool} {c : Char} (h : c ∈ s.takeWhile p) : p c = true := by
  induction s with
  | nil => cases h
  | cons d r ih =>
    rw [List.takeWhile_cons] at h
    split at h
    · next hd =>
      rcases List.mem_cons.mp h with rfl | h
      · exact hd
      · exact ih h
    · cases h

/-- The digits in front of a text. -/
theorem exists_digits (hne : (digits s).1.isEmpty = false) :
    ∃ ds : Digits, (digits s).1 = ds.chars ∧ s = ds.chars ++ (digits s).2 :=
  ⟨⟨s.takeWhile Char.isDigit, fun h => by simp [digits, h] at hne, fun _ => mem_takeWhile⟩, rfl,
    List.takeWhile_append_dropWhile.symm⟩

theorem Digits.isEmpty_chars (ds : Digits) : ds.chars.isEmpty = false := by
  rw [Bool.eq_false_iff, ne_eq, List.isEmpty_iff]
  exact ds.ne_nil

/-- What is passed over before a token are blanks. -/
theorem exists_skip (s : List Char) : ∃ b : Blanks, s = b.chars ++ skip s :=
  ⟨⟨s.takeWhile isBlank, fun _ => mem_takeWhile⟩, List.takeWhile_append_dropWhile.symm⟩

/-- Neither a sign nor a digit. -/
theorem digit_ne_sign {c : Char} (h : c.isDigit = true) : c ≠ '-' ∧ c ≠ '+' := by
  constructor <;> rintro rfl <;> exact absurd h (by decide)

theorem Digits.exists_cons (ds : Digits) : ∃ c r, ds.chars = c :: r ∧ c.isDigit = true := by
  obtain ⟨c, r, hc⟩ := List.exists_cons_of_ne_nil ds.ne_nil
  exact ⟨c, r, hc, ds.areDigits c (hc ▸ List.mem_cons_self)⟩

theorem exponent?_text (e : Exponent) (h : NoDigit r) :
    exponent? (e.text ++ r) = some (some e.value, r) := by
  obtain ⟨capital, sign, ds⟩ := e
  have hdigits := digits_append ds.areDigits h
  have hempty := ds.isEmpty_chars
  have hletter : (if capital then 'E' else 'e') = 'e' ∨ (if capital then 'E' else 'e') = 'E' := by
    cases capital <;> decide
  obtain ⟨c, t, hc, hdigit⟩ := ds.exists_cons
  obtain ⟨hminus, hplus⟩ := digit_ne_sign hdigit
  unfold exponent?
  simp only [Exponent.text, List.cons_append, if_pos hletter]
  match sign with
  | some true => simp [Exponent.signText, Exponent.value, hdigits, ds.ne_nil]
  | some false => simp [Exponent.signText, Exponent.value, hdigits, ds.ne_nil]
  | none =>
    rw [hc, List.cons_append] at hdigits
    simp [Exponent.signText, Exponent.value, hc, hminus, hplus, hdigits]

theorem exponent?_absent (h : ∀ c ∈ r.head?, c ≠ 'e' ∧ c ≠ 'E') : exponent? r = some (none, r) := by
  cases r with
  | nil => rfl
  | cons c t =>
    obtain ⟨hsmall, hcapital⟩ := h c rfl
    simp only [exponent?.eq_def, if_neg (not_or.mpr ⟨hsmall, hcapital⟩)]

theorem exponent?_cons {c : Char} (hc : c = 'e' ∨ c = 'E') (s : List Char) :
    exponent? (c :: s) =
      (let (negative, s) := Text.signed s
      let (ds, rest) := digits s
      if ds.isEmpty then none
      else
        let n : Int := Text.decimalValue ds
        some (some (if negative then -n else n), rest)) := by
  rw [exponent?.eq_def]
  simp only [if_pos hc]
  rfl

theorem exists_sign (s : List Char) : ∃ sign u, s = Exponent.signText sign ++ u ∧
    Text.signed s = (decide (sign = some true), u) := by
  unfold Text.signed
  split
  · exact ⟨some true, _, rfl, rfl⟩
  · exact ⟨some false, _, rfl, rfl⟩
  · exact ⟨none, s, rfl, rfl⟩

/-- An exponent that was read is the text of one, or there is none. -/
theorem exists_exponent {e : Option Int} (h : exponent? s = some (e, r)) :
    ∃ x : Option Exponent, s = (x.map Exponent.text).getD [] ++ r ∧ x.map Exponent.value = e := by
  cases s with
  | nil =>
    cases h
    exact ⟨none, rfl, rfl⟩
  | cons c t =>
    by_cases hc : c = 'e' ∨ c = 'E'
    · obtain ⟨sign, u, rfl, hsign⟩ := exists_sign t
      rw [exponent?_cons hc, hsign] at h
      dsimp only at h
      split at h
      · cases h
      · next hne =>
        rw [Bool.not_eq_true] at hne
        obtain ⟨ds, hds, hu⟩ := exists_digits hne
        cases h
        obtain ⟨capital, rfl⟩ : ∃ capital : Bool, c = if capital then 'E' else 'e' := by
          rcases hc with rfl | rfl
          · exact ⟨false, rfl⟩
          · exact ⟨true, rfl⟩
        refine ⟨some ⟨capital, sign, ds⟩, ?_, ?_⟩
        · conv => lhs; rw [hu]
          simp [Exponent.text]
        · simp [Exponent.value, hds]
    · rw [not_or] at hc
      rw [exponent?_absent (by rintro _ ⟨⟩; exact hc)] at h
      cases h
      exact ⟨none, rfl, rfl⟩

theorem fraction?_text (ds : Digits) (h : NoDigit r) :
    fraction? ('.' :: ds.chars ++ r) = some (some ds.chars, r) := by
  rw [List.cons_append, fraction?, digits_append ds.areDigits h]
  simp only [ds.isEmpty_chars, Bool.false_eq_true, if_false]

theorem fraction?_absent (h : ∀ c ∈ r.head?, c ≠ '.') : fraction? r = some (none, r) := by
  unfold fraction?
  split
  · exact absurd rfl (h '.' rfl)
  · rfl

theorem exists_fraction {part : Option (List Char)} (h : fraction? s = some (part, r)) :
    ∃ f : Option Digits, s = ((f.map fun ds => '.' :: ds.chars).getD []) ++ r ∧
      f.map Digits.chars = part := by
  unfold fraction? at h
  split at h
  · dsimp only at h
    split at h
    · cases h
    · next hne =>
      rw [Bool.not_eq_true] at hne
      obtain ⟨ds, hds, hu⟩ := exists_digits hne
      cases h
      refine ⟨some ds, ?_, congrArg some hds.symm⟩
      conv => lhs; rw [hu]
      rfl
  · cases h
    exact ⟨none, rfl, rfl⟩

namespace Numeral

theorem fractionText_eq (n : Numeral) :
    n.fractionText = (n.fraction.map fun ds => '.' :: ds.chars).getD [] := by
  rw [fractionText]
  cases n.fraction <;> rfl

/-- The value by the digits of the fraction and by the exponent, where they are there. -/
theorem value_eq (n : Numeral) :
    some (n.value, r) =
      (match n.fraction.map Digits.chars, n.exponent.map Exponent.value with
      | none, none =>
        let m : Int := Text.decimalValue n.whole.chars
        some (Value.int (if n.negative then -m else m), r)
      | _, _ =>
        let ds := (n.fraction.map Digits.chars).getD []
        some (.float (Decimal.ofDecimal n.negative (Text.decimalValue (n.whole.chars ++ ds))
          ((n.exponent.map Exponent.value).getD 0 - ds.length)), r)) := by
  rw [value]
  cases n.fraction <;> cases n.exponent <;> rfl

end Numeral

/-- What begins with an exponent or ends a number begins with no digit and no point. -/
theorem Numeral.exponentText_append (n : Numeral) (h : EndsNumber r) :
    NoDigit (n.exponentText ++ r) ∧ ∀ c ∈ (n.exponentText ++ r).head?, c ≠ '.' := by
  rw [exponentText]
  cases n.exponent with
  | none => exact ⟨h.1, fun c hc => (h.2 c hc).1⟩
  | some e =>
    simp only [Option.map_some, Option.getD_some, Exponent.text, List.cons_append, NoDigit,
      List.head?_cons, Option.mem_some_iff]
    cases e.capital <;> exact ⟨by rintro _ rfl; decide, by rintro _ rfl; decide⟩

theorem Numeral.exponent?_text (n : Numeral) (h : EndsNumber r) :
    exponent? (n.exponentText ++ r) = some (n.exponent.map Exponent.value, r) := by
  rw [exponentText]
  cases n.exponent with
  | none => exact exponent?_absent fun c hc => (h.2 c hc).2
  | some e => exact Json.exponent?_text e h.1

theorem Numeral.fraction?_text (n : Numeral) (h : EndsNumber r) :
    fraction? (n.fractionText ++ (n.exponentText ++ r)) =
      some (n.fraction.map Digits.chars, n.exponentText ++ r) := by
  obtain ⟨hdigit, hpoint⟩ := n.exponentText_append h
  rw [fractionText_eq]
  cases n.fraction with
  | none => exact fraction?_absent hpoint
  | some ds => exact Json.fraction?_text ds hdigit

theorem Numeral.fractionText_append (n : Numeral) (h : EndsNumber r) :
    NoDigit (n.fractionText ++ (n.exponentText ++ r)) := by
  rw [fractionText_eq]
  cases n.fraction with
  | none => exact (n.exponentText_append h).1
  | some ds =>
    rintro _ ⟨⟩
    decide

/-- A number with its sign taken off. -/
def unsigned? (negative : Bool) (s : List Char) : Option (Value × List Char) :=
  let (whole, r) := digits s
  if whole.isEmpty || (whole.head? == some '0' && whole.length != 1) then none
  else do
    let (part, r) ← fraction? r
    let (exponent, r) ← exponent? r
    match part, exponent with
    | none, none =>
      let n : Int := Text.decimalValue whole
      return (.int (if negative then -n else n), r)
    | _, _ =>
      let ds := part.getD []
      return (.float (Decimal.ofDecimal negative (Text.decimalValue (whole ++ ds))
        (exponent.getD 0 - ds.length)), r)

theorem number?_minus (s : List Char) : number? ('-' :: s) = unsigned? true s := rfl

theorem number?_of_head (h : ∀ c ∈ s.head?, c ≠ '-') : number? s = unsigned? false s := by
  unfold number?
  split
  next negative u hsign =>
    split at hsign
    · exact absurd rfl (h '-' rfl)
    · cases hsign
      rfl

theorem Numeral.unsigned?_text (n : Numeral) (h : EndsNumber r) :
    unsigned? n.negative (n.whole.chars ++ (n.fractionText ++ (n.exponentText ++ r))) =
      some (n.value, r) := by
  have hdigits := digits_append n.whole.areDigits (n.fractionText_append h)
  have hzero : (n.whole.chars.isEmpty ||
      (n.whole.chars.head? == some '0' && n.whole.chars.length != 1)) = false := by
    rw [n.whole.isEmpty_chars, Bool.false_or, Bool.and_eq_false_iff, or_iff_not_imp_left]
    intro hhead
    have hone := n.no_leading_zero (by simpa using hhead)
    simpa using hone
  simp only [unsigned?, hdigits, hzero, Bool.false_eq_true, if_false, n.fraction?_text h,
    n.exponent?_text h, Option.bind_eq_bind, Option.bind_some]
  rw [n.value_eq]
  rfl

/-- The text of a number is read where it ends. -/
theorem Numeral.number?_text (n : Numeral) (h : EndsNumber r) :
    number? (n.text ++ r) = some (n.value, r) := by
  rw [← n.unsigned?_text h, text, List.append_assoc, List.append_assoc, List.append_assoc, signText]
  cases n.negative with
  | true => exact number?_minus _
  | false =>
    obtain ⟨c, t, hc, hdigit⟩ := n.whole.exists_cons
    refine number?_of_head ?_
    rw [hc]
    rintro _ ⟨⟩
    exact (digit_ne_sign hdigit).1

theorem exists_unsigned {negative : Bool} {v : Value} (h : unsigned? negative s = some (v, r)) :
    ∃ n : Numeral, n.negative = negative ∧
      s = n.whole.chars ++ n.fractionText ++ n.exponentText ++ r ∧ n.value = v := by
  unfold unsigned? at h
  dsimp only at h
  split at h
  · cases h
  · next hwhole =>
    rw [Bool.not_eq_true, Bool.or_eq_false_iff] at hwhole
    obtain ⟨hne, hzero⟩ := hwhole
    obtain ⟨ds, hds, hu⟩ := exists_digits hne
    obtain ⟨⟨part, r₁⟩, hfraction, h⟩ := Option.bind_eq_some_iff.mp h
    obtain ⟨⟨exponent, r₂⟩, hexponent, h⟩ := Option.bind_eq_some_iff.mp h
    obtain ⟨f, hf, rfl⟩ := exists_fraction hfraction
    obtain ⟨e, he, rfl⟩ := exists_exponent hexponent
    have hlead : ds.chars.head? = some '0' → ds.chars.length = 1 := by
      intro hhead
      rw [hds, hhead] at hzero
      simpa using hzero
    let n : Numeral := ⟨negative, ds, f, e, hlead⟩
    have hn : some (n.value, r₂) = some (v, r) := by
      rw [n.value_eq, ← h, hds]
      rfl
    cases hn
    refine ⟨n, rfl, ?_, rfl⟩
    dsimp only at he
    rw [hu, hf, he, n.fractionText_eq]
    simp [n, Numeral.exponentText]

/-- A number that was read is the text of one. -/
theorem exists_numeral {v : Value} (h : number? s = some (v, r)) :
    ∃ n : Numeral, s = n.text ++ r ∧ n.value = v := by
  by_cases hs : ∃ u, s = '-' :: u
  · obtain ⟨u, rfl⟩ := hs
    obtain ⟨n, hn, rfl, hv⟩ := exists_unsigned h
    exact ⟨n, by simp [Numeral.text, Numeral.signText, hn], hv⟩
  · rw [number?_of_head] at h
    · obtain ⟨n, hn, rfl, hv⟩ := exists_unsigned h
      exact ⟨n, by simp [Numeral.text, Numeral.signText, hn], hv⟩
    · rintro c hc rfl
      cases s with
      | nil => cases hc
      | cons d u =>
        cases hc
        exact hs ⟨u, rfl⟩

variable {units : List Nat}

theorem stringUnits_char {c : Char} (h : 0x20 ≤ c.toNat ∧ c ≠ '"' ∧ c ≠ '\\')
    (hs : stringUnits s = some (units, r)) : stringUnits (c :: s) = some (c.toNat :: units, r) := by
  obtain ⟨hprint, hquote, hslash⟩ := h
  rw [stringUnits.eq_def]
  split
  · next heq => cases heq
  · next heq => cases heq; exact absurd rfl hquote
  · next heq => cases heq; exact absurd rfl hslash
  · next heq => cases heq; exact absurd rfl hslash
  · next heq =>
    cases heq
    rw [if_neg (by simp only [not_or, hslash, not_false_eq_true, and_true]; omega), hs]
    rfl

/-- A letter that names a character is not the one before a code. -/
theorem escape_ne_u {letter c : Char} (h : escapes.lookup letter = some c) : letter ≠ 'u' := by
  rintro rfl
  cases h

theorem stringUnits_escape {letter c : Char} (h : escapes.lookup letter = some c)
    (hs : stringUnits s = some (units, r)) :
    stringUnits ('\\' :: letter :: s) = some (c.toNat :: units, r) := by
  rw [stringUnits.eq_def]
  split
  · next heq => cases heq
  · next heq => cases heq
  · next heq => cases heq; exact absurd rfl (escape_ne_u h)
  · next heq =>
    cases heq
    rw [h, hs]
    rfl
  · next hne heq =>
    cases heq
    exact absurd rfl (hne _ _ rfl)

theorem stringUnits_code {a b c d : Char} {n : Nat} (h : hexUnit? a b c d = some n)
    (hs : stringUnits s = some (units, r)) :
    stringUnits ('\\' :: 'u' :: a :: b :: c :: d :: s) = some (n :: units, r) := by
  rw [stringUnits, h, hs]
  rfl

theorem partsText_cons (p : Part) (ps : List Part) (r : List Char) :
    partsText (p :: ps) ++ r = p.text ++ (partsText ps ++ r) := by
  rw [partsText, List.flatMap_cons, List.append_assoc]
  rfl

/-- Every string is read up to its closing quote. -/
theorem stringUnits_parts (ps : List Part) (r : List Char) :
    stringUnits (partsText ps ++ '"' :: r) = some (ps.map Part.unit, r) := by
  induction ps with
  | nil => rfl
  | cons p ps ih =>
    rw [partsText_cons]
    cases p with
    | char c h => exact stringUnits_char h ih
    | escape letter c h => exact stringUnits_escape h ih
    | code a b c d n h => exact stringUnits_code h ih

/-- A string that was read is written in parts. -/
theorem exists_parts (h : stringUnits s = some (units, r)) :
    ∃ ps : List Part, s = partsText ps ++ '"' :: r ∧ ps.map Part.unit = units := by
  fun_induction stringUnits s generalizing units with
  | case1 => cases h
  | case2 r' =>
    cases h
    exact ⟨[], rfl, rfl⟩
  | case3 a b c d r' ih =>
    obtain ⟨n, hn, h⟩ := Option.bind_eq_some_iff.mp h
    obtain ⟨⟨us, rest⟩, hus, h⟩ := Option.bind_eq_some_iff.mp h
    cases h
    obtain ⟨ps, rfl, rfl⟩ := ih hus
    exact ⟨.code a b c d n hn :: ps, rfl, rfl⟩
  | case4 letter r' hu ih =>
    obtain ⟨c, hc, h⟩ := Option.bind_eq_some_iff.mp h
    obtain ⟨⟨us, rest⟩, hus, h⟩ := Option.bind_eq_some_iff.mp h
    cases h
    obtain ⟨ps, rfl, rfl⟩ := ih hus
    exact ⟨.escape letter c hc :: ps, rfl, rfl⟩
  | case5 c r' h₁ h₂ h₃ hbad => cases h
  | case6 c r' hquote hcode hescape hgood ih =>
    obtain ⟨⟨us, rest⟩, hus, h⟩ := Option.bind_eq_some_iff.mp h
    cases h
    obtain ⟨ps, rfl, rfl⟩ := ih hus
    rw [not_or, Nat.not_lt] at hgood
    exact ⟨.char c ⟨hgood.1, fun he => hquote he, hgood.2⟩ :: ps, rfl, rfl⟩

theorem string?_text (ps : List Part) (r : List Char) :
    string? (partsText ps ++ '"' :: r) = some (partsValue ps, r) := by
  rw [string?, stringUnits_parts]
  rfl

theorem exists_string {t : String} (h : string? s = some (t, r)) :
    ∃ ps : List Part, s = partsText ps ++ '"' :: r ∧ partsValue ps = t := by
  obtain ⟨⟨units, rest⟩, hunits, h⟩ := Option.map_eq_some_iff.mp h
  cases h
  obtain ⟨ps, hs, rfl⟩ := exists_parts hunits
  exact ⟨ps, hs, rfl⟩

theorem word?_of_head (h : ∀ c ∈ s.head?, c ≠ 'n' ∧ c ≠ 't' ∧ c ≠ 'f') : word? s = none := by
  unfold word?
  split
  · exact absurd rfl (h 'n' rfl).1
  · exact absurd rfl (h 't' rfl).2.1
  · exact absurd rfl (h 'f' rfl).2.2
  · rfl

def atom? (s : List Char) : Option (Value × List Char) := (word? s).orElse fun _ => number? s

/-- A word or number is read where it ends. -/
theorem Atom.atom?_text (a : Atom) (h : EndsNumber r) :
    atom? (a.text ++ r) = some (denoted.atom a, r) := by
  match a with
  | .null => rfl
  | .bool true => rfl
  | .bool false => rfl
  | .number n =>
    have hword : word? (n.text ++ r) = none := by
      apply word?_of_head
      obtain ⟨c, t, hc, hdigit⟩ := n.whole.exists_cons
      rw [Numeral.text, Numeral.signText, hc]
      split
      · rintro _ ⟨⟩
        decide
      · rintro _ ⟨⟩
        refine ⟨?_, ?_, ?_⟩ <;> rintro rfl <;> exact absurd hdigit (by decide)
    rw [atom?, Atom.text, hword]
    exact n.number?_text h

/-- A word or number that was read is the text of one. -/
theorem exists_atom {v : Value} (h : atom? s = some (v, r)) :
    ∃ a : Atom, s = a.text ++ r ∧ denoted.atom a = v := by
  unfold atom? word? at h
  split at h
  · cases h
    exact ⟨.null, rfl, rfl⟩
  · cases h
    exact ⟨.bool true, rfl, rfl⟩
  · cases h
    exact ⟨.bool false, rfl, rfl⟩
  · obtain ⟨n, hs, hv⟩ := exists_numeral h
    exact ⟨.number n, hs, hv⟩

def isNumeric (c : Char) : Bool :=
  c.isDigit || c == '-' || c == '+' || c == '.' || c == 'e' || c == 'E'

namespace Numeral

variable (n : Numeral)

def unsignedText : List Char := n.whole.chars ++ (n.fractionText ++ n.exponentText)

theorem text_eq : n.text = n.signText ++ n.unsignedText := by
  simp [text, unsignedText]

/-- A number begins with a digit, or with a minus before it. -/
theorem exists_head : ∃ c r, n.unsignedText = c :: r ∧ c.isDigit = true := by
  obtain ⟨c, r, hc, hdigit⟩ := n.whole.exists_cons
  exact ⟨c, r ++ (n.fractionText ++ n.exponentText), by rw [unsignedText, hc]; rfl, hdigit⟩

theorem isNumeric_of_mem_fraction {c : Char} (h : c ∈ n.fractionText) :
    c.isDigit = true ∨ c = '.' := by
  rw [fractionText] at h
  split at h
  · cases h
  · next ds _ =>
    rcases List.mem_cons.mp h with rfl | h
    · exact .inr rfl
    · exact .inl (ds.areDigits c h)

theorem mem_exponent {c : Char} (h : c ∈ n.exponentText) :
    c.isDigit = true ∨ c = '-' ∨ c = '+' ∨ c = 'e' ∨ c = 'E' := by
  rw [exponentText] at h
  cases he : n.exponent with
  | none =>
    rw [he] at h
    cases h
  | some e =>
    obtain ⟨capital, sign, ds⟩ := e
    rw [he] at h
    have hsign : ∀ c ∈ Exponent.signText sign, c = '-' ∨ c = '+' := by
      match sign with
      | none | some false | some true => simp [Exponent.signText]
    simp only [Option.map_some, Option.getD_some, Exponent.text, List.cons_append, List.mem_cons,
      List.mem_append] at h
    rcases h with h | h | h
    · cases capital <;> simp [h]
    · rcases hsign c h with rfl | rfl <;> simp
    · exact .inl (ds.areDigits c h)

theorem isNumeric_of_mem {c : Char} (h : c ∈ n.unsignedText) : isNumeric c = true := by
  rw [unsignedText, List.mem_append, List.mem_append] at h
  rcases h with h | h | h
  · simp [isNumeric, n.whole.areDigits c h]
  · rcases n.isNumeric_of_mem_fraction h with h | rfl
    · simp [isNumeric, h]
    · rfl
  · rcases n.mem_exponent h with h | rfl | rfl | rfl | rfl
    · simp [isNumeric, h]
    all_goals rfl

theorem isNumeric_of_mem_text {c : Char} (h : c ∈ n.text) : isNumeric c = true := by
  rw [text_eq, List.mem_append] at h
  rcases h with h | h
  · rw [signText] at h
    split at h
    · rw [List.mem_singleton.mp h]
      rfl
    · cases h
  · exact n.isNumeric_of_mem h

end Numeral

end RowModel.Json
