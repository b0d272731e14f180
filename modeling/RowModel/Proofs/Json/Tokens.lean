import RowModel.Proofs.Document.Flow
import RowModel.Proofs.Json.Grammar
import RowModel.Proofs.Json.Quoted

/-!
The tokens that the reader of documents finds in a JSON text. It finds those that the tree spells, or
it never comes to the end of the stream (`Document.ofSource_text`).
-/
namespace RowModel.Json

open Yaml (Located Scan Source Token endMark isBreak locate)
open Yaml.Scan (Doomed Ends Fits Gives blankRun EndsFiller IsFiller isWordChar)

def Label.tokens (l : Label) : List Token :=
  (if l.isKey then [.key] else []) ++ [.scalar (foldedValue l.parts).toList false, .value]

mutual

def Tree.tokens : Tree → List Token
  | .atom a => [.scalar a.text true]
  | .string ps => [.scalar (foldedValue ps).toList false]
  | .emptyArray _ => [.flowSequence, .flowSequenceEnd]
  | .array items => .flowSequence :: items.tokens
  | .emptyObject _ => [.flowMapping, .flowMappingEnd]
  | .object members => .flowMapping :: members.tokens

def Items.tokens : Items → List Token
  | .last _ t _ => t.tokens ++ [.flowSequenceEnd]
  | .more _ t _ others => t.tokens ++ .comma :: others.tokens

def Members.tokens : Members → List Token
  | .last l _ t _ => l.tokens ++ t.tokens ++ [.flowMappingEnd]
  | .more l _ t _ others => l.tokens ++ t.tokens ++ .comma :: others.tokens

end

variable {i l k : Nat} {r v : List Char}

/-- Characters between tokens, and their places, which go on to that of what follows. -/
structure Filler (bs : Source) (i l l' : Nat) : Prop where
  filler : ∀ x ∈ bs, IsFiller x
  index : ∀ x ∈ bs, x.index ≤ i
  least : ∀ x ∈ bs, l ≤ x.line
  most : ∀ x ∈ bs, x.line ≤ l'

theorem Filler.cons {x : Located} {bs : Source} {i l₀ l l' : Nat} (hx : IsFiller x)
    (hindex : x.index ≤ i) (hleast : l₀ ≤ x.line) (hmost : x.line ≤ l) (h : Filler bs i l l')
    (hl : l ≤ l') :
    Filler (x :: bs) i l₀ l' where
  filler := List.forall_mem_cons.mpr ⟨hx, h.filler⟩
  index := List.forall_mem_cons.mpr ⟨hindex, h.index⟩
  least := List.forall_mem_cons.mpr ⟨hleast, fun y hy => by have := h.least y hy; omega⟩
  most := List.forall_mem_cons.mpr ⟨by omega, h.most⟩

/-- A return that no line feed follows ends a line. -/
theorem locate_return (h : r.head? ≠ some '\n') (i l k : Nat) :
    locate i l k ('\r' :: r) = ⟨'\n', i, l, k⟩ :: locate (i + 1) (l + 1) 0 r := by
  rw [locate]
  · rfl
  · rintro _ - rfl
    exact h rfl

theorem placed_return (i l : Nat) : Placed ['\r'] i l (i + 1) (l + 1) :=
  ⟨rfl, Nat.le_succ l, by simp [endsLine, lineChar, isBreak]⟩

theorem placed_pair (i l : Nat) : Placed ['\r', '\n'] i l (i + 2) (l + 1) :=
  ⟨rfl, Nat.le_succ l, by simp [endsLine, lineChar, isBreak]⟩

/-- A blank other than a tab is passed over, and so is a pair of line ends. -/
theorem locate_blank {c : Char} (hc : isBlank c = true) (htab : c ≠ '\t')
    (hr : c = '\r' → r.head? ≠ some '\n') (i l k : Nat) :
    ∃ x l' k', locate i l k (c :: r) = x :: locate (i + 1) l' k' r ∧ IsFiller x ∧
      x.index = i ∧ x.line = l ∧ Placed [c] i l (i + 1) l' := by
  by_cases hreturn : c = '\r'
  · subst hreturn
    exact ⟨_, _, _, locate_return (hr rfl) i l k, .inr rfl, rfl, rfl, placed_return i l⟩
  · obtain ⟨l', k', hlocate, hplaced⟩ := locate_cons hreturn i l k r
    refine ⟨_, l', k', hlocate, ?_, rfl, rfl, hplaced⟩
    simp only [isBlank, Bool.or_eq_true, beq_iff_eq] at hc
    rcases hc with ((rfl | rfl) | rfl) | rfl
    · exact .inl rfl
    · exact absurd rfl htab
    · exact .inr rfl
    · exact absurd rfl hreturn

/-- Blanks without a tab are passed over. -/
theorem locate_filler (cs : List Char) (hcs : ∀ c ∈ cs, isBlank c = true ∧ c ≠ '\t')
    (hr : r.head? ≠ some '\n') (i l k : Nat) :
    ∃ bs i' l' k', locate i l k (cs ++ r) = bs ++ locate i' l' k' r ∧ Filler bs i' l l' ∧
      Placed cs i l i' l' := by
  match cs with
  | [] => exact ⟨[], i, l, k, rfl, ⟨nofun, nofun, nofun, nofun⟩, .nil i l⟩
  | c :: cs =>
    obtain ⟨hc, htail⟩ := List.forall_mem_cons.mp hcs
    by_cases hpair : c = '\r' ∧ ∃ cs', cs = '\n' :: cs'
    · obtain ⟨rfl, cs, rfl⟩ := hpair
      obtain ⟨bs, i', l', k', hlocate, hfiller, hplaced⟩ := locate_filler cs
        (List.forall_mem_cons.mp htail).2 hr (i + 2) (l + 1) 0
      refine ⟨⟨'\n', i + 1, l, k⟩ :: bs, i', l', k', ?_, ?_, (placed_pair i l).append hplaced⟩
      · change locate i l k ('\r' :: '\n' :: (cs ++ r)) = _
        rw [locate, hlocate]
        rfl
      · have := hplaced.index
        exact hfiller.cons (.inr rfl) (by dsimp only; omega) (Nat.le_refl l) (Nat.le_succ l)
          hplaced.line
    · have hnext : c = '\r' → (cs ++ r).head? ≠ some '\n' := by
        intro hreturn hhead
        cases cs with
        | nil => exact hr hhead
        | cons d cs => exact hpair ⟨hreturn, cs, by rw [Option.some.inj hhead]⟩
      obtain ⟨x, l₁, k₁, hstep, hx, hindex, hline, hplaced₁⟩ := locate_blank hc.1 hc.2 hnext i l k
      obtain ⟨bs, i', l', k', hlocate, hfiller, hplaced⟩ := locate_filler cs htail hr (i + 1) l₁ k₁
      refine ⟨x :: bs, i', l', k', ?_, ?_, hplaced₁.cons hplaced⟩
      · rw [List.cons_append, hstep, hlocate]
        rfl
      · have := hplaced.index
        exact hfiller.cons hx (by omega) (Nat.le_of_eq hline.symm) (hline ▸ hplaced₁.line) hplaced.line
  termination_by cs.length

/-- At a tab the scanner stops. -/
theorem locate_tab {cs : List Char} (hcs : ∀ c ∈ cs, isBlank c = true) (htab : '\t' ∈ cs)
    (r : List Char) (i l k : Nat) :
    ∃ bs x s, locate i l k (cs ++ r) = bs ++ x :: s ∧ (∀ y ∈ bs, IsFiller y) ∧ x.char = '\t' := by
  obtain ⟨before, after, rfl, hbefore⟩ := List.eq_append_cons_of_mem htab
  obtain ⟨bs, i', l', k', hlocate, hfiller, -⟩ := locate_filler before
    (fun c hc => ⟨hcs c (List.mem_append_left _ hc), fun h => hbefore (h ▸ hc)⟩)
    (r := '\t' :: (after ++ r)) (by simp) i l k
  obtain ⟨l₁, k₁, htab, -⟩ := locate_cons (c := '\t') (by decide) i' l' k' (after ++ r)
  refine ⟨bs, ⟨'\t', i', l', k'⟩, locate (i' + 1) l₁ k₁ (after ++ r), ?_, hfiller.filler, rfl⟩
  rw [List.append_assoc, List.cons_append, hlocate, htab]
  rfl

/-- The scanner has found tokens and stands before a text. -/
structure Stands (depth : Nat) (tokens : List Token) (text : List Char) (s : Scan) : Prop where
  fits : Fits depth s
  found : s.tokens.reverse = tokens
  before : ∃ i l k, (blankRun false s.rest).2 = (blankRun false (locate i l k text)).2

variable {d : Nat} {ts : List Token} {t : Token} {s s' : Scan} {c : Char}

theorem Stands.of_gives (h : Gives s d (locate i l k r) ts s') : Stands d ts.reverse r s' where
  fits := h.fits
  found := by rw [h.tokens]
  before := ⟨i, l, k, by rw [h.rest]⟩

theorem Stands.next {d' : Nat} (h : Stands d ts v s)
    (hg : Gives s d' (locate i l k r) (t :: s.tokens) s') : Stands d' (ts ++ [t]) r s' := by
  have hstands := Stands.of_gives hg
  rwa [List.reverse_cons, h.found] at hstands

theorem isBlank_chars (b : Blanks) (htab : '\t' ∉ b.chars) :
    ∀ c ∈ b.chars, isBlank c = true ∧ c ≠ '\t' :=
  fun c hc => ⟨b.areBlank c hc, fun h => htab (h ▸ hc)⟩

/-- Blanks are passed over, but for a tab. -/
theorem Stands.blanks {b : Blanks} (h : Stands d ts (b.chars ++ r) s) (hr : r.head? ≠ some '\n') :
    (Piece.blanks b).isScanned = true ∧ Stands d ts r s ∨
      (Piece.blanks b).isScanned = false ∧ Doomed s := by
  obtain ⟨i, l, k, hbefore⟩ := h.before
  by_cases htab : '\t' ∈ b.chars
  · obtain ⟨bs, x, rest, hlocate, hbs, hx⟩ := locate_tab b.areBlank htab r i l k
    refine .inr ⟨by simp [Piece.isScanned, htab], h.fits.doomed_of_tab (c := x) (r := rest) ?_ hx⟩
    rw [hbefore, hlocate, Yaml.Scan.blankRun_filler hbs, Yaml.Scan.blankRun_cons]
    rw [hx]
    decide
  · obtain ⟨bs, i', l', k', hlocate, hfiller, -⟩ :=
      locate_filler b.chars (isBlank_chars b htab) hr i l k
    refine .inl ⟨by simp [Piece.isScanned, htab], h.fits, h.found, i', l', k', ?_⟩
    rw [hbefore, hlocate, Yaml.Scan.blankRun_filler hfiller.filler]

/-- Blanks are passed over if there is no tab among them. -/
theorem Stands.after_blanks {b : Blanks} {p : Prop} {post : Scan → Prop}
    (h : Stands d ts (b.chars ++ r) s) (hr : r.head? ≠ some '\n')
    (h' : Stands d ts r s → Ends p post s) :
    Ends ((Piece.blanks b).isScanned = true ∧ p) post s := by
  rcases h.blanks hr with ⟨hscanned, hs⟩ | ⟨hscanned, hdoomed⟩
  · exact (h' hs).of_iff ⟨fun hp => ⟨hscanned, hp⟩, fun hp => hp.2⟩
  · exact .doomed hdoomed fun hp => Bool.false_ne_true (hscanned.symm.trans hp.1)

def BeginsToken (c : Char) : Prop := lineChar c = c ∧ c ≠ '\r' ∧ EndsFiller c

instance (c : Char) : Decidable (BeginsToken c) := inferInstanceAs (Decidable (_ ∧ _ ∧ _))

/-- The scanner looks at the character that comes next. -/
theorem Stands.head (h : Stands d ts (c :: r) s) (hc : BeginsToken c) :
    ∃ i l k l' k', (blankRun false s.rest).2 = ⟨c, i, l, k⟩ :: locate (i + 1) l' k' r ∧
      Placed [c] i l (i + 1) l' := by
  obtain ⟨i, l, k, hbefore⟩ := h.before
  obtain ⟨l', k', hlocate, hplaced⟩ := locate_cons hc.2.1 i l k r
  refine ⟨i, l, k, l', k', ?_, hplaced⟩
  rw [hbefore, hlocate, hc.1]
  exact Yaml.Scan.blankRun_cons hc.2.2 _

/-- An opening bracket goes one collection deeper, where a key may stand. -/
theorem Stands.opens (h : Stands d ts (c :: r) s)
    (hc : c = '[' ∧ t = .flowSequence ∨ c = '\x7b' ∧ t = .flowMapping) :
    ∃ s', Scan.Reaches s s' ∧ Stands (d + 1) (ts ++ [t]) r s' ∧ s'.keyAllowed = true := by
  have hbegins : BeginsToken c := by
    rcases hc with ⟨rfl, -⟩ | ⟨rfl, -⟩ <;> decide
  obtain ⟨i, l, k, l', k', hhead, -⟩ := h.head hbegins
  obtain ⟨s', hgives, hkey⟩ := h.fits.opens hhead hc
  exact ⟨s', hgives.reaches, h.next hgives, hkey⟩

theorem Stands.closes (h : Stands (d + 1) ts (c :: r) s)
    (hc : c = ']' ∧ t = .flowSequenceEnd ∨ c = '\x7d' ∧ t = .flowMappingEnd) :
    Ends True (Stands d (ts ++ [t]) r) s := by
  have hbegins : BeginsToken c := by
    rcases hc with ⟨rfl, -⟩ | ⟨rfl, -⟩ <;> decide
  obtain ⟨i, l, k, l', k', hhead, -⟩ := h.head hbegins
  obtain ⟨s', hgives⟩ := h.fits.closes hhead hc
  exact .after hgives.reaches (.done (h.next hgives))

theorem Stands.comma (h : Stands d ts (',' :: r) s) :
    Ends True (fun s' => Stands d (ts ++ [.comma]) r s' ∧ s'.keyAllowed = true) s := by
  obtain ⟨i, l, k, l', k', hhead, -⟩ := h.head (by decide)
  obtain ⟨s', hgives, hkey⟩ := h.fits.separates hhead rfl
  exact .after hgives.reaches (.done ⟨h.next hgives, hkey⟩)

/-- A string that has been read is a candidate for a key: its token has a position, its characters end
where the rest of the text begins. -/
def Noted (position : Nat) (text rest : List Char) (s : Scan) : Prop :=
  ∃ i l k i' l' k', s.candidate = some ⟨position, false, i, l, k⟩ ∧ s.rest = locate i' l' k' rest ∧
    Placed text i l i' l'

/-- A string is read unless a line begins with a marker. -/
theorem Stands.string {ps : List Part} (h : Stands d ts ('"' :: (partsText ps ++ '"' :: v)) s) :
    Ends (markerFree false ps = true) (fun s' =>
      Stands d (ts ++ [.scalar (foldedValue ps).toList false]) v s' ∧
        (s.keyAllowed = true → Noted ts.length ('"' :: (partsText ps ++ ['"'])) v s')) s := by
  obtain ⟨i, l, k, l₁, k₁, hhead, hquote⟩ := h.head (by decide)
  obtain ⟨i', l', k', hscan, hplaced⟩ := scanQuoted_parts ps (i + 1) l₁ k₁ v
  cases hmarker : markerFree false ps with
  | false =>
    rw [hmarker] at hscan
    exact .doomed (h.fits.doomed_of_quote hhead rfl hscan) Bool.false_ne_true
  | true =>
    rw [hmarker, if_pos rfl] at hscan
    obtain ⟨s', hgives, hcandidate⟩ :=
      h.fits.quotes hhead rfl hscan (Yaml.Scan.length_scanQuoted hscan)
    refine .after hgives.reaches ((Ends.done ⟨h.next hgives, fun hkey => ?_⟩).of_iff (by simp))
    refine ⟨i, l, k, i', l', k', ?_, hgives.rest, hquote.cons hplaced⟩
    rw [hcandidate, Yaml.Scan.noted, Yaml.Scan.ready_keyAllowed hkey, if_pos rfl,
      Yaml.Scan.candidate_setCandidate, Yaml.Scan.ready_tokens, ← h.found, List.length_reverse]

/-- A candidate that is stale before characters that are passed over is stale after them. -/
theorem Filler.isStale {bs rest : Source} {x : Located} {k : Yaml.Candidate} {i l l' : Nat}
    (h : Filler bs i l l') (hk : k.line ≤ l) (hx : x.index = i ∧ x.line = l')
    (hstale : k.isStale (Yaml.Scan.place (bs ++ x :: rest)).1 (Yaml.Scan.place (bs ++ x :: rest)).2 =
      true) : k.isStale i l' = true := by
  cases bs with
  | nil => rwa [← hx.1, ← hx.2]
  | cons y bs =>
    have hindex := h.index y List.mem_cons_self
    have hleast := h.least y List.mem_cons_self
    have hmost := h.most y List.mem_cons_self
    simp only [List.cons_append, Yaml.Scan.place, Yaml.Candidate.isStale, Bool.or_eq_true, bne_iff_ne,
      decide_eq_true_eq] at hstale ⊢
    rcases hstale with hline | hlength
    · exact .inl fun h => hline (by omega)
    · have hlong := of_decide_eq_true hlength
      exact .inr (by omega)

/-- The name is stale at its colon exactly if it is no key. -/
theorem Label.isStale_eq {l : Label} {i line i' line' : Nat} (position column : Nat)
    (h : Placed ('"' :: (partsText l.parts ++ ['"']) ++ l.after.chars) i line i' line') :
    Yaml.Candidate.isStale ⟨position, false, i, line, column⟩ i' line' = !l.isKey := by
  have hindex := h.index
  have hsame := h.same
  have hquote : endsLine '"' = false := by decide
  have hbody : '"' :: (partsText l.parts ++ ['"']) ++ l.after.chars = '"' :: l.body := by
    simp [Label.body]
  rw [hbody, List.length_cons] at hindex
  rw [hbody, List.all_cons, hquote, Bool.not_false, Bool.true_and] at hsame
  have hnext : i' - i = 1 + l.body.length := by omega
  rw [Yaml.Candidate.isStale, hnext, Label.isKey, Bool.not_and, ← decide_not]
  congr 1
  · cases hall : l.body.all (!endsLine ·) with
    | true => simp [hsame.mpr hall]
    | false =>
      rw [hall] at hsame
      exact bne_iff_ne.mpr fun h => Bool.false_ne_true (hsame.mp h.symm)
  · exact decide_eq_decide.mpr Nat.not_le.symm

/-- A name that is a key is still a candidate at its colon. -/
theorem Noted.candidate_ready {l : Label} {position : Nat}
    (h : Noted position ('"' :: (partsText l.parts ++ ['"'])) (l.after.chars ++ ':' :: r) s)
    (htab : '\t' ∉ l.after.chars) :
    ∃ k, k.position = position ∧ s.ready.candidate = if l.isKey then some k else none := by
  obtain ⟨i, line, column, i₁, l₁, k₁, hcandidate, hrest, hplaced⟩ := h
  obtain ⟨bs, i₂, l₂, k₂, hlocate, hfiller, hafter⟩ := locate_filler l.after.chars
    (isBlank_chars l.after htab) (r := ':' :: r) (by simp) i₁ l₁ k₁
  obtain ⟨l₃, k₃, hcolon, -⟩ := locate_cons (c := ':') (by decide) i₂ l₂ k₂ r
  refine ⟨⟨position, false, i, line, column⟩, rfl, ?_⟩
  rw [Yaml.Scan.candidate_ready, hcandidate, hrest, hlocate, Yaml.Scan.blankRun_filler hfiller.filler,
    hcolon, Yaml.Scan.blankRun_cons (show EndsFiller ':' by decide)]
  change Yaml.Scan.keep i₂ l₂ _ = _
  rw [Yaml.Scan.keep_keep (hfiller.isStale hplaced.line ⟨rfl, rfl⟩)]
  have hstale := Label.isStale_eq position column (hplaced.append hafter)
  rw [Yaml.Scan.keep, Option.filter, hstale, Bool.not_not]

/-- After its blanks the colon makes a key of the name, if it can be one. -/
theorem Stands.colon {l : Label} (h : Stands (d + 1) (ts ++ [t]) (l.after.chars ++ ':' :: v) s)
    (hn : Noted ts.length ('"' :: (partsText l.parts ++ ['"'])) (l.after.chars ++ ':' :: v) s) :
    Ends ((Piece.blanks l.after).isScanned = true)
      (Stands (d + 1) (ts ++ ((if l.isKey then [.key] else []) ++ [t, .value])) v) s := by
  rcases h.blanks (by simp) with ⟨hscanned, h'⟩ | ⟨hscanned, hdoomed⟩
  · obtain ⟨k, hposition, hready⟩ := hn.candidate_ready (by simpa [Piece.isScanned] using hscanned)
    obtain ⟨i, line, column, l₁, k₁, hhead, -⟩ := h'.head (by decide)
    have htokens : s.tokens = t :: ts.reverse := by
      rw [← List.reverse_reverse s.tokens, h.found, List.reverse_append]
      rfl
    refine Ends.of_iff ?_ (iff_of_true trivial hscanned)
    cases hkey : l.isKey with
    | true =>
      rw [hkey] at hready
      obtain ⟨s', hgives⟩ := h'.fits.names hhead rfl hready htokens (by simpa using hposition)
      refine .after hgives.reaches (.done ?_)
      simpa using Stands.of_gives hgives
    | false =>
      rw [hkey] at hready
      obtain ⟨s', hgives⟩ := h'.fits.values hhead rfl hready
      rw [htokens] at hgives
      refine .after hgives.reaches (.done ?_)
      simpa using Stands.of_gives hgives
  · exact .doomed hdoomed fun h => Bool.false_ne_true (hscanned.symm.trans h)

/-- A name and its colon are found if the name holds no document marker. -/
theorem Stands.label {l : Label} (h : Stands (d + 1) ts (l.text ++ v) s) (hkey : s.keyAllowed = true) :
    Ends (∀ p ∈ l.pieces, p.isScanned = true) (Stands (d + 1) (ts ++ l.tokens) v) s := by
  have hbefore : Stands (d + 1) ts
      (l.before.chars ++ '"' :: (partsText l.parts ++ '"' :: (l.after.chars ++ ':' :: v))) s := by
    simpa [Label.text] using h
  refine (hbefore.after_blanks (by simp) fun h => h.string.bind fun s' hs =>
    hs.1.colon (hs.2 hkey)).of_iff ?_
  simp [Label.pieces, Piece.isScanned]

/-- What ends a word: after blanks a comma or a closing bracket. -/
def Stops (v : List Char) : Prop :=
  ∃ (b : Blanks) (c : Char) (r : List Char), v = b.chars ++ c :: r ∧ (c = ',' ∨ c = ']' ∨ c = '\x7d')

theorem Stops.locate (h : Stops v) (i l k : Nat) :
    ∃ bs x rest, locate i l k v = bs ++ x :: rest ∧ (∀ y ∈ bs, IsFiller y) ∧ EndsFiller x.char ∧
      ∀ next, Yaml.endsWord true x.char next = true := by
  obtain ⟨b, c, r, rfl, hc⟩ := h
  by_cases htab : '\t' ∈ b.chars
  · obtain ⟨bs, x, rest, hlocate, hbs, hx⟩ := locate_tab b.areBlank htab (c :: r) i l k
    exact ⟨bs, x, rest, hlocate, hbs, by rw [hx]; decide, fun next => by rw [hx]; rfl⟩
  · have hne : c ≠ '\n' ∧ c ≠ '\r' ∧ lineChar c = c ∧ EndsFiller c := by
      rcases hc with rfl | rfl | rfl <;> decide
    obtain ⟨bs, i', l', k', hlocate, hfiller, -⟩ :=
      locate_filler b.chars (isBlank_chars b htab) (r := c :: r) (by simp [hne]) i l k
    obtain ⟨l₁, k₁, hhead, -⟩ := locate_cons hne.2.1 i' l' k' r
    refine ⟨bs, _, _, by rw [hlocate, hhead], hfiller.filler, by rw [hne.2.2.1]; exact hne.2.2.2, ?_⟩
    intro next
    rw [hne.2.2.1]
    rcases hc with rfl | rfl | rfl <;> simp [Yaml.endsWord, Yaml.isFlowPunctuation]

theorem isAlphanum_of_isDigit {c : Char} (h : c.isDigit = true) : c.isAlphanum = true := by
  rw [Char.isAlphanum, h, Bool.or_true]

theorem Atom.isWordChar (a : Atom) : ∀ c ∈ a.text, isWordChar c = true := by
  match a with
  | .null | .bool true | .bool false => exact List.all_eq_true.mp rfl
  | .number n =>
    intro c hc
    have hnumeric := n.isNumeric_of_mem_text hc
    simp only [isNumeric, Bool.or_eq_true, beq_iff_eq] at hnumeric
    rcases hnumeric with ((((hdigit | rfl) | rfl) | rfl) | rfl) | rfl
    · exact Yaml.Scan.isWordChar_of_isAlphanum (isAlphanum_of_isDigit hdigit)
    all_goals decide

/-- A word or a number begins as a plain scalar may begin. -/
theorem Atom.beginsWord (a : Atom) : ∃ c u, a.text = c :: u ∧
    (c.isAlphanum = true ∨ c = '-' ∧ ∃ e w, u = e :: w ∧ e.isAlphanum = true) := by
  match a with
  | .null | .bool true | .bool false => exact ⟨_, _, rfl, .inl (by decide)⟩
  | .number n =>
    obtain ⟨e, w, hw, hdigit⟩ := n.exists_head
    have halphanum := isAlphanum_of_isDigit hdigit
    rw [text, n.text_eq, hw, Numeral.signText]
    split
    · exact ⟨'-', e :: w, rfl, .inr ⟨rfl, e, w, rfl, halphanum⟩⟩
    · exact ⟨e, w, rfl, .inl halphanum⟩

theorem ne_of_isWordChar {e : Char} (h : isWordChar c = true) (he : isWordChar e = false) : c ≠ e :=
  ne_of_apply_ne isWordChar (by rw [h, he]; exact nofun)

theorem lineChar_of_isWordChar (h : isWordChar c = true) : c ≠ '\r' ∧ lineChar c = c := by
  have hreturn := ne_of_isWordChar h (e := '\r') (by decide)
  have hnext := ne_of_isWordChar h (e := '\x85') (by decide)
  exact ⟨hreturn, by simp [lineChar, hreturn, hnext]⟩

theorem endsFiller_of_isWordChar (h : isWordChar c = true) : EndsFiller c :=
  ⟨ne_of_isWordChar h (by decide), (Yaml.Scan.not_ends_of_isWordChar h).2.1,
    ne_of_isWordChar h (by decide)⟩

/-- Words stand where they are, one character after another. -/
theorem locate_word {w : List Char} (hw : ∀ c ∈ w, isWordChar c = true) (v : List Char) (i l k : Nat) :
    ∃ xs i' l' k', locate i l k (w ++ v) = xs ++ locate i' l' k' v ∧ xs.map Located.char = w := by
  induction w generalizing i l k with
  | nil => exact ⟨[], i, l, k, rfl, rfl⟩
  | cons c w ih =>
    obtain ⟨hc, hw⟩ := List.forall_mem_cons.mp hw
    obtain ⟨hreturn, hline⟩ := lineChar_of_isWordChar hc
    obtain ⟨l₁, k₁, hhead, -⟩ := locate_cons hreturn i l k (w ++ v)
    obtain ⟨xs, i', l', k', hlocate, hxs⟩ := ih hw (i + 1) l₁ k₁
    refine ⟨⟨c, i, l, k⟩ :: xs, i', l', k', ?_, by rw [List.map_cons, hxs]⟩
    rw [List.cons_append, hhead, hlocate, hline, List.cons_append]

/-- A word or number is a plain scalar with its own text. -/
theorem Stands.atom {a : Atom} (hv : Stops v) (h : Stands (d + 1) ts (a.text ++ v) s) :
    Ends True (Stands (d + 1) (ts ++ [.scalar a.text true]) v) s := by
  obtain ⟨i, l, k, hbefore⟩ := h.before
  obtain ⟨xs, i', l', k', hlocate, hxs⟩ := locate_word a.isWordChar v i l k
  obtain ⟨bs, y, rest, hstop, hbs, hy, hends⟩ := hv.locate i' l' k'
  have hwords : ∀ x ∈ xs, Yaml.Scan.isWordChar x.char = true := fun x hx =>
    a.isWordChar x.char (hxs ▸ List.mem_map_of_mem hx)
  obtain ⟨crossed, bs', hplain, hbs', hlength⟩ := Yaml.Scan.scanPlain_filler hbs hy hends .none rest
  obtain ⟨c, u, hc, hbegins⟩ := a.beginsWord
  obtain ⟨x, xs, rfl, rfl, rfl⟩ := List.map_eq_cons_iff.mp (hxs.trans hc)
  have hx := hwords x List.mem_cons_self
  have hhead : (blankRun false s.rest).2 = x :: (xs ++ (bs ++ y :: rest)) := by
    rw [hbefore, hlocate, hstop]
    exact Yaml.Scan.blankRun_cons (endsFiller_of_isWordChar hx) _
  have hnext : Yaml.Scan.beginsWord x.char (Source.peek (xs ++ (bs ++ y :: rest))) = true := by
    rcases hbegins with hfirst | ⟨hminus, e, w, hsecond, halphanum⟩
    · simp [Yaml.Scan.beginsWord, hfirst]
    · obtain ⟨z, zs, rfl, rfl, -⟩ := List.map_eq_cons_iff.mp hsecond
      simp [Yaml.Scan.beginsWord, hminus, Source.peek, halphanum]
  have hword := Yaml.Scan.scanPlain_word hwords (bs ++ y :: rest)
  rw [hplain, hxs] at hword
  have hstored : Text.stored a.text = a.text :=
    Text.stored_eq_self fun hm => absurd (a.isWordChar _ hm) (by decide)
  obtain ⟨s', hgives⟩ := h.fits.words hhead hnext hword (by simp; omega)
  refine .after hgives.reaches (.done ⟨hgives.fits, ?_, i', l', k', ?_⟩)
  · rw [hgives.tokens, List.reverse_cons, h.found, List.append_nil, hstored]
  · rw [hgives.rest, hstop, Yaml.Scan.blankRun_filler hbs, Yaml.Scan.blankRun_filler hbs']

theorem Tree.head_ne (t : Tree) (r : List Char) : (t.text ++ r).head? ≠ some '\n' := by
  intro h
  exact Bool.noConfusion (t.noBlank r '\n' h)

/-- Brackets with nothing but blanks between them. -/
theorem Stands.enclosed {b : Blanks} {e : Char} {t' : Token}
    (h : Stands d ts (c :: (b.chars ++ e :: v)) s)
    (hc : c = '[' ∧ t = .flowSequence ∨ c = '\x7b' ∧ t = .flowMapping)
    (he : e = ']' ∧ t' = .flowSequenceEnd ∨ e = '\x7d' ∧ t' = .flowMappingEnd) :
    Ends ((Piece.blanks b).isScanned = true) (Stands d (ts ++ [t, t']) v) s := by
  obtain ⟨s₁, hreach, hs₁, -⟩ := h.opens hc
  have hne : e ≠ '\n' := by
    rcases he with ⟨rfl, -⟩ | ⟨rfl, -⟩ <;> decide
  refine .after hreach ((hs₁.after_blanks (by simpa using hne) fun h => h.closes he).imp ?_
    |>.of_iff (and_iff_left trivial))
  intro s' h'
  simpa using h'

theorem stops_inside (d : Nat) (b : Blanks) (hc : c = ',' ∨ c = ']' ∨ c = '\x7d') :
    0 < d + 1 ∧ Stops (b.chars ++ c :: r) :=
  ⟨Nat.succ_pos d, b, c, r, rfl, hc⟩

def Tree.isObject : Tree → Bool
  | .emptyObject _ | .object _ => true
  | _ => false

mutual

/-- Of a tree the scanner finds its tokens, or it stops within it. A word is found inside brackets,
where something ends it. -/
theorem Tree.ends (t : Tree) {d : Nat} {ts : List Token} {v : List Char} {s : Scan}
    (ht : t.isObject = true ∨ 0 < d ∧ Stops v) (h : Stands d ts (t.text ++ v) s) :
    Ends (∀ p ∈ t.pieces, p.isScanned = true) (Stands d (ts ++ t.tokens) v) s := by
  match t with
  | .atom a =>
    obtain ⟨hd, hv⟩ := ht.resolve_left nofun
    obtain ⟨e, rfl⟩ := Nat.exists_eq_add_one.mpr hd
    refine (h.atom hv).of_iff ?_
    cases a <;> simp [Tree.pieces, Atom.pieces, Piece.isScanned]
  | .string ps =>
    have hstring : Stands d ts ('"' :: (partsText ps ++ '"' :: v)) s := by
      simpa [Tree.text] using h
    refine (hstring.string.imp fun s' h => h.1).of_iff ?_
    simp [Tree.pieces, Piece.isScanned]
  | .emptyArray b =>
    have hopen : Stands d ts ('[' :: (b.chars ++ ']' :: v)) s := by
      simpa [Tree.text] using h
    refine .of_iff (hopen.enclosed (.inl ⟨rfl, rfl⟩) (.inl ⟨rfl, rfl⟩)) ?_
    simp [Tree.pieces]
  | .array items =>
    obtain ⟨s₁, hreach, hs₁, -⟩ := h.opens (.inl ⟨rfl, rfl⟩)
    refine .after hreach ((items.ends hs₁).imp fun s' h' => ?_)
    simpa [Tree.tokens] using h'
  | .emptyObject b =>
    have hopen : Stands d ts ('\x7b' :: (b.chars ++ '\x7d' :: v)) s := by
      simpa [Tree.text] using h
    refine .of_iff (hopen.enclosed (.inr ⟨rfl, rfl⟩) (.inr ⟨rfl, rfl⟩)) ?_
    simp [Tree.pieces]
  | .object members =>
    obtain ⟨s₁, hreach, hs₁, hkey⟩ := h.opens (.inr ⟨rfl, rfl⟩)
    refine .after hreach ((members.ends hs₁ hkey).imp fun s' h' => ?_)
    simpa [Tree.tokens] using h'

/-- The tokens of items are found if those of all pieces are. -/
theorem Items.ends (items : Items) {d : Nat} {ts : List Token} {v : List Char} {s : Scan}
    (h : Stands (d + 1) ts (items.text ++ v) s) :
    Ends (∀ p ∈ items.pieces, p.isScanned = true) (Stands d (ts ++ items.tokens) v) s := by
  match items with
  | .last b t a =>
    have h' : Stands (d + 1) ts (b.chars ++ (t.text ++ (a.chars ++ ']' :: v))) s := by
      simpa [Items.text] using h
    refine .of_iff (h'.after_blanks (t.head_ne _) fun h =>
      (t.ends (.inr (stops_inside d a (by simp))) h).bind fun s h =>
      h.after_blanks (by simp) fun h => (h.closes (.inl ⟨rfl, rfl⟩)).imp fun s h => ?_) ?_
    · simpa [Items.tokens] using h
    · simp [Items.pieces, or_imp, forall_and]
  | .more b t a others =>
    have h' : Stands (d + 1) ts (b.chars ++ (t.text ++ (a.chars ++ ',' :: (others.text ++ v)))) s := by
      simpa [Items.text] using h
    refine .of_iff (h'.after_blanks (t.head_ne _) fun h =>
      (t.ends (.inr (stops_inside d a (by simp))) h).bind fun s h =>
      h.after_blanks (by simp) fun h => h.comma.bind fun s h => (others.ends h.1).imp fun s h => ?_) ?_
    · simpa [Items.tokens] using h
    · simp [Items.pieces, or_imp, forall_and]

/-- Members are found where a key may begin. -/
theorem Members.ends (members : Members) {d : Nat} {ts : List Token} {v : List Char} {s : Scan}
    (h : Stands (d + 1) ts (members.text ++ v) s) (hkey : s.keyAllowed = true) :
    Ends (∀ p ∈ members.pieces, p.isScanned = true) (Stands d (ts ++ members.tokens) v) s := by
  match members with
  | .last l b t a =>
    have h' : Stands (d + 1) ts (l.text ++ (b.chars ++ (t.text ++ (a.chars ++ '\x7d' :: v)))) s := by
      simpa [Members.text] using h
    refine .of_iff ((h'.label hkey).bind fun s h => h.after_blanks (t.head_ne _) fun h =>
      (t.ends (.inr (stops_inside d a (by simp))) h).bind fun s h => h.after_blanks (by simp) fun h =>
      (h.closes (.inr ⟨rfl, rfl⟩)).imp fun s h => ?_) ?_
    · simpa [Members.tokens] using h
    · simp [Members.pieces, or_imp, forall_and]
  | .more l b t a others =>
    have h' : Stands (d + 1) ts
        (l.text ++ (b.chars ++ (t.text ++ (a.chars ++ ',' :: (others.text ++ v))))) s := by
      simpa [Members.text] using h
    refine .of_iff ((h'.label hkey).bind fun s h => h.after_blanks (t.head_ne _) fun h =>
      (t.ends (.inr (stops_inside d a (by simp))) h).bind fun s h => h.after_blanks (by simp) fun h =>
      h.comma.bind fun s h => (others.ends h.1 h.2).imp fun s h => ?_) ?_
    · simpa [Members.tokens] using h
    · simp [Members.pieces, or_imp, forall_and]

end

/-- The scanner before it has read anything. -/
theorem stands_start (text : List Char) : Stands 0 [] text (Scan.start (locate 0 0 0 text)) where
  fits := ⟨rfl, rfl, nofun, nofun⟩
  found := rfl
  before := ⟨0, 0, 0, rfl⟩

/-- The tokens of a text that denotes an object, if blanks and strings are such that the scanner finds
them; else it stops before the end. -/
theorem Document.ofSource_text (doc : Document) (ht : doc.root.isObject = true) :
    (∀ p ∈ doc.pieces, p.isScanned = true) ∧
        Token.ofSource (locate 0 0 0 doc.text) = doc.root.tokens ++ [.streamEnd] ∨
      (¬∀ p ∈ doc.pieces, p.isScanned = true) ∧
        .streamEnd ∉ Token.ofSource (locate 0 0 0 doc.text) := by
  have hstart : Stands 0 [] (doc.before.chars ++ (doc.root.text ++ (doc.after.chars ++ [])))
      (Scan.start (locate 0 0 0 doc.text)) := by
    simpa [Document.text] using stands_start doc.text
  have hends : Ends (∀ p ∈ doc.pieces, p.isScanned = true) (Stands 0 doc.root.tokens [])
      (Scan.start (locate 0 0 0 doc.text)) := by
    refine .of_iff (hstart.after_blanks (doc.root.head_ne _) fun h => (doc.root.ends (.inl ht) h).bind
      fun s h => h.after_blanks (by simp) fun h => .done ?_) ?_
    · simpa using h
    · simp [Document.pieces, or_imp, forall_and]
  rcases hends with ⟨hp, s', ⟨k, hk, hrun⟩, hs'⟩ | ⟨hp, hdoomed⟩
  · refine .inl ⟨hp, ?_⟩
    obtain ⟨i, l, column, hbefore⟩ := hs'.before
    have hlength : k ≤ (locate 0 0 0 doc.text).length := Nat.le_of_add_right_le hk
    obtain ⟨m, hm⟩ : ∃ m, (locate 0 0 0 doc.text).length + 1 = m + 1 + k :=
      ⟨(locate 0 0 0 doc.text).length - k, by omega⟩
    rw [Token.ofSource, hm, hrun, hs'.fits.run_end hbefore rfl, hs'.found]
  · exact .inr ⟨hp, hdoomed _ (Nat.lt_succ_self _)⟩

end RowModel.Json
