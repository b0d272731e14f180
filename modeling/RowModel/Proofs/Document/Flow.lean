import RowModel.Proofs.Document.Scanning

/-!
What the scanner does with each token inside brackets: the state that it comes to, or that it meets a
fault. Between tokens it passes over spaces and line ends, and a plain scalar ends before them.
-/
namespace RowModel.Yaml.Scan

variable {d : Nat} {s s' : Scan}

section

variable {c : Located} {r : Source} {t : Token}

theorem length_blankRun (comment : Bool) (r : Source) : (blankRun comment r).2.length ≤ r.length := by
  induction r generalizing comment with
  | nil => exact Nat.le_refl 0
  | cons c r ih =>
    rw [blankRun]
    split
    · exact Nat.le_succ_of_le (ih false)
    · split
      · exact Nat.le_succ_of_le (ih comment)
      · split
        · exact Nat.le_succ_of_le (ih true)
        · exact Nat.le_refl _

/-- A step reads a token and comes to a state that fits. -/
structure Gives (s : Scan) (depth : Nat) (rest : Source) (tokens : List Token) (s' : Scan) : Prop where
  reaches : Reaches s s'
  fits : Fits depth s'
  rest : s'.rest = rest
  tokens : s'.tokens = tokens

/-- A token that is found at the next character is one step of the run. -/
theorem Fits.reaches (h : Fits d s) (hrest : (blankRun false s.rest).2 = c :: r)
    (hc : c.char ≠ endMark) (hstep : s.ready.dispatch c (Source.peek r) = .ok s')
    (hlength : s'.rest.length ≤ r.length) : Reaches s s' := by
  refine ⟨1, ?_, fun n => ?_⟩
  · have hrun := length_blankRun false s.rest
    rw [hrest, List.length_cons] at hrun
    omega
  · rw [h.run_succ hrest hc, hstep]

theorem Fits.gives (h : Fits d s) (hrest : (blankRun false s.rest).2 = c :: r) (hc : c.char ≠ endMark)
    (hstep : s.ready.dispatch c (Source.peek r) = .ok s') {e : Nat} {rest : Source}
    {tokens : List Token} (hfits : Fits e s') (hrest' : s'.rest = rest) (htokens : s'.tokens = tokens)
    (hlength : rest.length ≤ r.length) : Gives s e rest tokens s' :=
  ⟨h.reaches hrest hc hstep (hrest' ▸ hlength), hfits, hrest', htokens⟩

theorem Fits.doomed (h : Fits d s) {f : Fault} (hrest : (blankRun false s.rest).2 = c :: r)
    (hc : c.char ≠ endMark) (hstep : s.ready.dispatch c (Source.peek r) = .error f) : Doomed s := by
  intro n hn
  obtain ⟨m, rfl⟩ : ∃ m, n = m + 1 := ⟨n - 1, by omega⟩
  rw [h.run_succ hrest hc, hstep]
  intro hmem
  rcases List.mem_append.mp hmem with hmem | hmem
  · exact h.running (List.mem_reverse.mp (List.mem_of_mem_take hmem))
  · cases List.mem_singleton.mp hmem

theorem not_atMarker (hc : c.char ≠ '-' ∧ c.char ≠ '.') (r : Source) :
    Source.atMarker (c :: r) = false := by
  unfold Source.atMarker
  split
  · next heq =>
    cases heq
    simp [hc]
  · rfl

/-- A bracket opens a collection. -/
theorem Fits.openFlow (h : Fits d s) (hrest : s.rest = c :: r) (ht : t ≠ .streamEnd) :
    ∃ s', s.openFlow t = .ok s' ∧ Fits (d + 1) s' ∧ s'.rest = r ∧ s'.tokens = t :: s.tokens ∧
      s'.keyAllowed = true := by
  have hnoted := h.noted c
  refine ⟨{ s.noted c with
    inner := none :: (s.noted c).inner, keyAllowed := true, rest := (s.noted c).rest.tail
    tokens := t :: (s.noted c).tokens }, ?_, ⟨?_, ?_, ?_, ?_⟩, ?_, ?_, rfl⟩
  · rw [Scan.openFlow, h.noteCandidate hrest]
    rfl
  · exact hnoted.columns
  · rw [List.length_cons, hnoted.depth]
  · intro k hk
    refine hnoted.free k (mem_candidates.mpr ?_)
    rcases mem_candidates.mp hk with hk | hk
    · exact .inl hk
    · exact .inr (List.mem_of_ne_of_mem (Option.some_ne_none k) hk)
  · intro hm
    exact (List.mem_cons.mp hm).elim (fun hm => ht hm.symm) hnoted.running
  · rw [noted_rest, hrest, List.tail_cons]
  · rw [noted_tokens]

/-- A bracket closes a collection. -/
theorem Fits.closeFlow (h : Fits (d + 1) s) (hrest : s.rest = c :: r) (ht : t ≠ .streamEnd) :
    ∃ s', s.closeFlow t = .ok s' ∧ Fits d s' ∧ s'.rest = r ∧ s'.tokens = t :: s.tokens := by
  have hdropped := h.dropped
  obtain ⟨k, inner, hinner⟩ := List.exists_cons_of_length_eq_add_one h.depth
  refine ⟨{ s.setCandidate none with
    inner := inner, keyAllowed := false, rest := (s.setCandidate none).rest.tail
    tokens := t :: (s.setCandidate none).tokens }, ?_, ⟨?_, ?_, ?_, ?_⟩, ?_, ?_⟩
  · rw [Scan.closeFlow, hinner]
    simp only [h.dropCandidate]
    rfl
  · exact hdropped.columns
  · have hdepth := h.depth
    rw [hinner, List.length_cons] at hdepth
    exact Nat.succ.inj hdepth
  · intro j hj
    have hfree := hdropped.free
    simp only [Scan.setCandidate, hinner, mem_candidates] at hj hfree
    exact hfree j (hj.imp_right (List.mem_cons_of_mem _))
  · intro hm
    exact (List.mem_cons.mp hm).elim (fun hm => ht hm.symm) hdropped.running
  · rw [setCandidate_rest, hrest, List.tail_cons]
  · rw [setCandidate_tokens]

/-- A comma; after it a key may follow. -/
theorem Fits.comma (h : Fits d s) (hrest : s.rest = c :: r) :
    ∃ s', s.comma = .ok s' ∧ Fits d s' ∧ s'.rest = r ∧ s'.tokens = .comma :: s.tokens ∧
      s'.keyAllowed = true := by
  refine ⟨(((s.setCandidate none).allow true).moveTo (s.setCandidate none).rest.tail).push .comma,
    ?_, h.dropped.moved (by nofun) true _, ?_, ?_, rfl⟩
  · rw [Scan.comma, h.dropCandidate]
    rfl
  · change (s.setCandidate none).rest.tail = r
    rw [setCandidate_rest, hrest, List.tail_cons]
  · change Token.comma :: (s.setCandidate none).tokens = _
    rw [setCandidate_tokens]

theorem inFlow_of_fits (h : Fits (d + 1) s) : s.inFlow = true := by
  obtain ⟨k, inner, hinner⟩ := List.exists_cons_of_length_eq_add_one h.depth
  rw [inFlow, hinner]
  rfl

/-- A token that may begin a key. -/
theorem Fits.property (h : Fits d s) (hrest : s.rest = c :: r) (ht : t ≠ .streamEnd) {rest : Source}
    (read : Source → Except Fault (Token × Source)) (hread : read r = .ok (t, rest)) :
    ∃ s', s.property read = .ok s' ∧ Fits d s' ∧ s'.rest = rest ∧ s'.tokens = t :: s.tokens ∧
      s'.candidate = (s.noted c).candidate := by
  refine ⟨(((s.noted c).allow false).moveTo rest).push t, ?_, (h.noted c).moved ht false _, rfl, ?_,
    rfl⟩
  · change (s.noteCandidate >>= fun s => _) = _
    rw [h.noteCandidate hrest]
    change (read (s.noted c).rest.tail >>= fun _ => _) = _
    rw [noted_rest, hrest, List.tail_cons, hread]
    rfl
  · change t :: (s.noted c).tokens = _
    rw [noted_tokens]

theorem Fits.property_error (h : Fits d s) (hrest : s.rest = c :: r) {f : Fault}
    (read : Source → Except Fault (Token × Source)) (hread : read r = .error f) :
    s.property read = .error f := by
  change (s.noteCandidate >>= fun s => _) = _
  rw [h.noteCandidate hrest]
  change (read (s.noted c).rest.tail >>= fun _ => _) = _
  rw [noted_rest, hrest, List.tail_cons, hread]
  rfl

/-- A plain scalar inside brackets. -/
theorem Fits.plain (h : Fits (d + 1) s) (hrest : s.rest = c :: r) {text : List Char} {crossed : Bool}
    {rest : Source} (hplain : scanPlain true 0 .none (c :: r) = ⟨text, crossed, rest⟩) :
    ∃ s', s.plain = .ok s' ∧ Fits (d + 1) s' ∧ s'.rest = rest ∧
      s'.tokens = .scalar (Text.stored text) true :: s.tokens := by
  have hnoted := h.noted c
  have hleast : (s.noted c).least = 0 := by rw [least, hnoted.columns]
  refine ⟨(((s.noted c).allow crossed).moveTo rest).push (.scalar (Text.stored text) true), ?_,
    (h.noted c).moved (by nofun) crossed _, rfl, ?_⟩
  · rw [Scan.plain, h.noteCandidate hrest]
    simp only [Except.map, inFlow_of_fits hnoted, hleast, noted_rest, hrest, hplain]
  · change _ :: (s.noted c).tokens = _
    rw [noted_tokens]

/-- At a colon the candidate before it, which is the last token, becomes a key. -/
theorem Fits.colon_key (h : Fits (d + 1) s) (hrest : s.rest = c :: r) {k : Candidate}
    (hk : s.candidate = some k) {ts : List Token} (htokens : s.tokens = t :: ts)
    (hposition : k.position = ts.length) (column : Nat) :
    ∃ s', s.colon column = .ok s' ∧ Fits (d + 1) s' ∧ s'.rest = r ∧
      s'.tokens = .value :: t :: .key :: ts := by
  have hflow : inFlow (s.setCandidate none) = true := inFlow_of_fits h.dropped
  have hallowed : inFlow ((s.setCandidate none).allow false) = true := hflow
  have hinserted : insertAt k.position [.key] (s.setCandidate none) =
      { s.setCandidate none with tokens := t :: .key :: ts } := by
    rw [insertAt, setCandidate_tokens, htokens, hposition, List.length_cons, Nat.add_sub_cancel_left]
    rfl
  refine ⟨{ s.setCandidate none with
      rest := r, tokens := .value :: t :: .key :: ts, keyAllowed := false },
    ?_, ⟨h.dropped.columns, h.dropped.depth, h.dropped.free, ?_⟩, rfl, rfl⟩
  · rw [Scan.colon, hk]
    simp only [hallowed, Bool.not_true, Bool.false_and, Bool.false_eq_true, if_false]
    change Except.ok (Scan.push _ (Scan.moveTo
      (insertAt k.position [.key] (s.setCandidate none)).rest.tail
      (Scan.allow false (insertAt k.position [.key] (s.setCandidate none))))) = _
    rw [hinserted]
    change Except.ok ({ s.setCandidate none with
      rest := (s.setCandidate none).rest.tail, tokens := _, keyAllowed := _ } : Scan) = _
    rw [setCandidate_rest, hrest, List.tail_cons]
    rfl
  · have hrunning := h.running
    rw [htokens] at hrunning
    simpa using hrunning

/-- A colon without a candidate. -/
theorem Fits.colon_value (h : Fits (d + 1) s) (hrest : s.rest = c :: r) (hk : s.candidate = none)
    (column : Nat) :
    ∃ s', s.colon column = .ok s' ∧ Fits (d + 1) s' ∧ s'.rest = r ∧
      s'.tokens = .value :: s.tokens := by
  refine ⟨(((s.setCandidate none).allow false).moveTo r).push .value, ?_,
    h.dropped.moved (by nofun) false _, rfl, ?_⟩
  · rw [Scan.colon, hk]
    simp only [blockIndicator, inFlow_of_fits h, if_true]
    change (s.dropCandidate >>= fun s => _) = _
    rw [h.dropCandidate]
    change Except.ok (((Scan.allow _ (s.setCandidate none)).moveTo
      (s.setCandidate none).rest.tail).push _) = _
    rw [setCandidate_rest, hrest, List.tail_cons, inFlow_of_fits h.dropped]
    rfl
  · change _ :: (s.setCandidate none).tokens = _
    rw [setCandidate_tokens]

/-- At the end of the text the stream ends. -/
theorem Fits.run_end (h : Fits 0 s) (hrest : (blankRun false s.rest).2 = [c]) (hc : c.char = endMark)
    (n : Nat) : run (n + 1) s = s.tokens.reverse ++ [.streamEnd] := by
  have hready : s.fresh.skipBlank.fresh.rest = [c] := hrest
  have hstep : s.fresh.step = .ok none := by
    rw [step, h.fresh.skipBlank.dropStale, ok_bind, hready]
    exact if_pos hc
  have hclosed : s.fresh.closeAllBlocks = s.fresh := by
    have hinner : s.fresh.inner = [] := List.length_eq_zero_iff.mp h.fresh.depth
    rw [closeAllBlocks, if_neg (by rw [inFlow, hinner]; decide), h.fresh.columns]
    exact congrArg (Scan.mk _ _ · _ _ _) h.fresh.columns.symm
  rw [run, h.dropStale]
  dsimp only
  rw [hstep]
  dsimp only
  rw [hclosed, h.fresh.dropCandidate]
  simp
  rfl

/-- An opening bracket goes one collection deeper. -/
theorem Fits.opens (h : Fits d s) (hrest : (blankRun false s.rest).2 = c :: r)
    (hc : c.char = '[' ∧ t = .flowSequence ∨ c.char = '\x7b' ∧ t = .flowMapping) :
    ∃ s', Gives s (d + 1) r (t :: s.tokens) s' ∧ s'.keyAllowed = true := by
  have hready : s.ready.rest = c :: r := hrest
  have ht : t ≠ .streamEnd ∧ c.char ≠ endMark ∧ c.char ≠ '-' ∧ c.char ≠ '.' := by
    rcases hc with ⟨hc, rfl⟩ | ⟨hc, rfl⟩ <;> rw [hc] <;> decide
  obtain ⟨s', hopen, hfits, hrest', htokens, hkey⟩ := h.ready.openFlow hready ht.1
  have hstep : s.ready.dispatch c (Source.peek r) = .ok s' := by
    have hmarker := not_atMarker ht.2.2 r
    rw [← hopen]
    rcases hc with ⟨hc, rfl⟩ | ⟨hc, rfl⟩ <;> simp [dispatch, hrest, hc, hmarker]
  exact ⟨s', h.gives hrest ht.2.1 hstep hfits hrest' htokens (Nat.le_refl _), hkey⟩

/-- A closing bracket comes back from it. -/
theorem Fits.closes (h : Fits (d + 1) s) (hrest : (blankRun false s.rest).2 = c :: r)
    (hc : c.char = ']' ∧ t = .flowSequenceEnd ∨ c.char = '\x7d' ∧ t = .flowMappingEnd) :
    ∃ s', Gives s d r (t :: s.tokens) s' := by
  have hready : s.ready.rest = c :: r := hrest
  have ht : t ≠ .streamEnd ∧ c.char ≠ endMark ∧ c.char ≠ '-' ∧ c.char ≠ '.' := by
    rcases hc with ⟨hc, rfl⟩ | ⟨hc, rfl⟩ <;> rw [hc] <;> decide
  obtain ⟨s', hclose, hfits, hrest', htokens⟩ := h.ready.closeFlow hready ht.1
  have hstep : s.ready.dispatch c (Source.peek r) = .ok s' := by
    have hmarker := not_atMarker ht.2.2 r
    rw [← hclose]
    rcases hc with ⟨hc, rfl⟩ | ⟨hc, rfl⟩ <;> simp [dispatch, hrest, hc, hmarker]
  exact ⟨s', h.gives hrest ht.2.1 hstep hfits hrest' htokens (Nat.le_refl _)⟩

theorem Fits.separates (h : Fits d s) (hrest : (blankRun false s.rest).2 = c :: r)
    (hc : c.char = ',') : ∃ s', Gives s d r (.comma :: s.tokens) s' ∧ s'.keyAllowed = true := by
  have hready : s.ready.rest = c :: r := hrest
  obtain ⟨s', hcomma, hfits, hrest', htokens, hkey⟩ := h.ready.comma hready
  have hstep : s.ready.dispatch c (Source.peek r) = .ok s' := by
    have hmarker := not_atMarker (c := c) (by rw [hc]; decide) r
    rw [← hcomma]
    simp [dispatch, hrest, hc, hmarker]
  exact ⟨s', h.gives hrest (by rw [hc]; decide) hstep hfits hrest' htokens (Nat.le_refl _), hkey⟩

/-- No token begins with a tab. -/
theorem Fits.doomed_of_tab (h : Fits d s) (hrest : (blankRun false s.rest).2 = c :: r)
    (hc : c.char = '\t') : Doomed s := by
  have hmarker := not_atMarker (c := c) (by rw [hc]; decide) r
  have hbegins : ∀ flow, beginsPlain flow (c :: r) = false := by
    intro flow
    simp [beginsPlain, Source.peek, hc, isGap, isSpace]
  refine h.doomed hrest (by rw [hc]; decide) (f := .illFormed) ?_
  simp [dispatch, hrest, hc, hmarker, hbegins]

def readQuoted (r : Source) : Except Fault (Token × Source) :=
  (scanQuoted true r).map fun (t, r) => (.scalar t false, r)

theorem dispatch_quote (hrest : (blankRun false s.rest).2 = c :: r) (hc : c.char = '"') :
    s.ready.dispatch c (Source.peek r) = s.ready.property readQuoted := by
  have hmarker := not_atMarker (c := c) (by rw [hc]; decide) r
  simp [dispatch, hrest, hc, hmarker]
  rfl

/-- A quote begins a string, which may begin a key. -/
theorem Fits.quotes (h : Fits d s) (hrest : (blankRun false s.rest).2 = c :: r) (hc : c.char = '"')
    {text : List Char} {rest : Source} (hread : scanQuoted true r = .ok (text, rest))
    (hlength : rest.length ≤ r.length) :
    ∃ s', Gives s d rest (.scalar text false :: s.tokens) s' ∧
      s'.candidate = (s.ready.noted c).candidate := by
  have hready : s.ready.rest = c :: r := hrest
  obtain ⟨s', hproperty, hfits, hrest', htokens, hcandidate⟩ := h.ready.property hready (by nofun)
    (t := .scalar text false) readQuoted (by rw [readQuoted, hread]; rfl)
  have hstep := (dispatch_quote hrest hc).trans hproperty
  exact ⟨s', h.gives hrest (by rw [hc]; decide) hstep hfits hrest' htokens hlength, hcandidate⟩

theorem Fits.doomed_of_quote (h : Fits d s) (hrest : (blankRun false s.rest).2 = c :: r)
    (hc : c.char = '"') {f : Fault} (hread : scanQuoted true r = .error f) : Doomed s := by
  have hready : s.ready.rest = c :: r := hrest
  have hproperty := h.ready.property_error hready readQuoted (f := f) (by rw [readQuoted, hread]; rfl)
  exact h.doomed hrest (by rw [hc]; decide) ((dispatch_quote hrest hc).trans hproperty)

def isWordChar (c : Char) : Bool := c.isAlphanum || c == '+' || c == '-' || c == '.'

def beginsWord (c next : Char) : Bool := c.isAlphanum || c == '-' && next.isAlphanum

theorem ne_of_isAlphanum {c d : Char} (h : c.isAlphanum = true) (hd : d.isAlphanum = false) :
    c ≠ d := by
  rintro rfl
  exact Bool.false_ne_true (hd.symm.trans h)

def indicators : List Char :=
  ['\n', '\u2028', '\u2029', endMark, ' ', '\t', ':', ',', '?', '[', ']', '\x7b', '\x7d', '#', '&', '*',
    '!', '|', '>', '\'', '"', '%', '@', '\x60']

theorem beq_indicator {c : Char} (h : isWordChar c = true) : ∀ d ∈ indicators, (c == d) = false := by
  have hnot : indicators.all (fun d => !isWordChar d) = true := by decide
  intro d hd
  refine beq_false_of_ne ?_
  rintro rfl
  have hc := List.all_eq_true.mp hnot c hd
  rw [h] at hc
  cases hc

/-- A word goes on with each of its characters. -/
theorem not_ends_of_isWordChar {c : Char} (h : isWordChar c = true) :
    (c == ' ') = false ∧ isBreak c = false ∧ ∀ next, endsWord true c next = false := by
  have hne := beq_indicator h
  simp only [indicators, List.forall_mem_cons] at hne
  refine ⟨hne.2.2.2.2.1, ?_, fun next => ?_⟩ <;>
    simp [isBreak, endsWord, isGap, endsLine, isSpace, isFlowPunctuation, hne]

theorem isWordChar_of_beginsWord {c next : Char} (h : beginsWord c next = true) :
    isWordChar c = true := by
  simp only [beginsWord, Bool.or_eq_true, Bool.and_eq_true] at h
  simp only [isWordChar, Bool.or_eq_true]
  exact h.elim (fun h => .inl (.inl (.inl h))) fun h => .inl (.inr h.1)

theorem isGap_of_isWordChar {c : Char} (h : isWordChar c = true) : isGap c = false := by
  have hne := beq_indicator h
  simp only [indicators, List.forall_mem_cons] at hne
  simp [isGap, endsLine, isBreak, isSpace, hne]

theorem isWordChar_of_isAlphanum {c : Char} (h : c.isAlphanum = true) : isWordChar c = true := by
  simp [isWordChar, h]

/-- Where a word begins, so does a plain scalar, in a flow collection and outside. -/
theorem beginsPlain_of_beginsWord (h : beginsWord c.char (Source.peek r) = true) (flow : Bool) :
    beginsPlain flow (c :: r) = true := by
  have hgap := isGap_of_isWordChar (isWordChar_of_beginsWord h)
  have hne := beq_indicator (isWordChar_of_beginsWord h)
  simp only [indicators, List.forall_mem_cons, beq_eq_false_iff_ne] at hne
  simp only [beginsWord, Bool.or_eq_true, Bool.and_eq_true, beq_iff_eq] at h
  rcases h with h | ⟨hminus, hnext⟩
  · simp [beginsPlain, Source.peek, hgap, hne, ne_of_isAlphanum h (d := '-') (by decide)]
  · have hnextGap := isGap_of_isWordChar (isWordChar_of_isAlphanum hnext)
    rw [Source.peek] at hnextGap
    simp [beginsPlain, Source.peek, hminus, hnextGap]

theorem not_atMarker_of_beginsWord (h : beginsWord c.char (Source.peek r) = true) :
    Source.atMarker (c :: r) = false := by
  simp only [beginsWord, Bool.or_eq_true, Bool.and_eq_true, beq_iff_eq] at h
  rcases h with h | ⟨hminus, hnext⟩
  · exact not_atMarker ⟨ne_of_isAlphanum h (by decide), ne_of_isAlphanum h (by decide)⟩ r
  · unfold Source.atMarker
    split
    · next a b _ _ _ heq =>
      cases heq
      have hne : b.char ≠ '-' := ne_of_isAlphanum hnext (by decide)
      simp [hminus, hne]
    · rfl

/-- A word is a plain scalar. -/
theorem Fits.words (h : Fits (d + 1) s) (hrest : (blankRun false s.rest).2 = c :: r)
    (hc : beginsWord c.char (Source.peek r) = true) {text : List Char} {crossed : Bool} {rest : Source}
    (hplain : scanPlain true 0 .none (c :: r) = ⟨text, crossed, rest⟩)
    (hlength : rest.length ≤ r.length) :
    ∃ s', Gives s (d + 1) rest (.scalar (Text.stored text) true :: s.tokens) s' := by
  have hready : s.ready.rest = c :: r := hrest
  obtain ⟨s', hscan, hfits, hrest', htokens⟩ := h.ready.plain hready hplain
  have hne := beq_indicator (isWordChar_of_beginsWord hc)
  simp only [indicators, List.forall_mem_cons, beq_eq_false_iff_ne] at hne
  have hentry : (c.char == '-' && isGap (Source.peek r)) = false := by
    simp only [beginsWord, Bool.or_eq_true, Bool.and_eq_true, beq_iff_eq] at hc
    rcases hc with hc | ⟨-, hnext⟩
    · simp [ne_of_isAlphanum hc (d := '-') (by decide)]
    · simp [isGap_of_isWordChar (isWordChar_of_isAlphanum hnext)]
  have hstep : s.ready.dispatch c (Source.peek r) = .ok s' := by
    rw [dispatch, if_neg (by simp [hne]), hready, not_atMarker_of_beginsWord hc,
      if_neg (by simp)]
    simp [hne, hentry, inFlow_of_fits h.ready, beginsPlain_of_beginsWord hc, hscan]
  exact ⟨s', h.gives hrest hne.2.2.2.1 hstep hfits hrest' htokens hlength⟩

/-- A colon makes a key of the string before it that is still a candidate. -/
theorem Fits.names (h : Fits (d + 1) s) (hrest : (blankRun false s.rest).2 = c :: r)
    (hc : c.char = ':') {k : Candidate} (hk : s.ready.candidate = some k) {ts : List Token}
    (htokens : s.tokens = t :: ts) (hposition : k.position = ts.length) :
    ∃ s', Gives s (d + 1) r (.value :: t :: .key :: ts) s' := by
  have hready : s.ready.rest = c :: r := hrest
  obtain ⟨s', hcolon, hfits, hrest', htokens'⟩ :=
    h.ready.colon_key hready hk htokens hposition c.column
  have hstep : s.ready.dispatch c (Source.peek r) = .ok s' := by
    have hmarker := not_atMarker (c := c) (by rw [hc]; decide) r
    rw [← hcolon]
    simp [dispatch, hrest, hc, hmarker, inFlow_of_fits h.ready]
  exact ⟨s', h.gives hrest (by rw [hc]; decide) hstep hfits hrest' htokens' (Nat.le_refl _)⟩

/-- A colon after a string that is no candidate any more. -/
theorem Fits.values (h : Fits (d + 1) s) (hrest : (blankRun false s.rest).2 = c :: r)
    (hc : c.char = ':') (hk : s.ready.candidate = none) :
    ∃ s', Gives s (d + 1) r (.value :: s.tokens) s' := by
  have hready : s.ready.rest = c :: r := hrest
  obtain ⟨s', hcolon, hfits, hrest', htokens'⟩ := h.ready.colon_value hready hk c.column
  have hstep : s.ready.dispatch c (Source.peek r) = .ok s' := by
    have hmarker := not_atMarker (c := c) (by rw [hc]; decide) r
    rw [← hcolon]
    simp [dispatch, hrest, hc, hmarker, inFlow_of_fits h.ready]
  exact ⟨s', h.gives hrest (by rw [hc]; decide) hstep hfits hrest' htokens' (Nat.le_refl _)⟩

theorem candidate_fresh (s : Scan) :
    s.fresh.candidate = keep (place s.rest).1 (place s.rest).2 s.candidate := by
  rcases s with ⟨rest, tokens, columns, outer, _ | ⟨k, inner⟩, keyAllowed⟩ <;> rfl

/-- A candidate is still one before the next character unless blanks have made it stale. -/
theorem candidate_ready (s : Scan) :
    s.ready.candidate = keep (place (blankRun false s.rest).2).1 (place (blankRun false s.rest).2).2
      (keep (place s.rest).1 (place s.rest).2 s.candidate) := by
  rw [ready, candidate_fresh]
  change keep _ _ s.fresh.candidate = _
  rw [candidate_fresh]
  rfl

end

theorem length_quotedUnits {double : Bool} {state : QuotedState} {rest : Source} {us : List Nat}
    (h : quotedUnits double state r = .ok (us, rest)) : rest.length ≤ r.length := by
  induction r generalizing state us with
  | nil => cases h
  | cons c r ih =>
    rw [quotedUnits] at h
    split at h
    · cases h
    · cases h
      exact Nat.le_succ _
    · split at h
      · cases h
      · next hread =>
        cases h
        exact Nat.le_succ_of_le (ih hread)

/-- Reading a string leaves no more than there was. -/
theorem length_scanQuoted {double : Bool} {rest : Source} {text : List Char}
    (h : scanQuoted double r = .ok (text, rest)) : rest.length ≤ r.length := by
  unfold scanQuoted at h
  split at h
  · cases h
  · next hunits =>
    cases h
    exact length_quotedUnits hunits

/-- A candidate that is dropped is dropped later as well. -/
theorem keep_keep {i l i' l' : Nat} {k : Candidate}
    (h : k.isStale i l = true → k.isStale i' l' = true) :
    keep i' l' (keep i l (some k)) = keep i' l' (some k) := by
  unfold keep
  cases hk : k.isStale i l with
  | true => simp [Option.filter, hk, h hk]
  | false => simp [Option.filter, hk]

/-- Characters that the scanner passes over between tokens. -/
def IsFiller (x : Located) : Prop := x.char = ' ' ∨ isBreak x.char = true

/-- Characters where it stops; after a number sign a comment would follow. -/
def EndsFiller (c : Char) : Prop := c ≠ ' ' ∧ isBreak c = false ∧ c ≠ '#'

instance (c : Char) : Decidable (EndsFiller c) := inferInstanceAs (Decidable (_ ∧ _ ∧ _))

section

variable {bs r : Source} {c : Located} {xs : Source}

/-- Characters between tokens are passed over. -/
theorem blankRun_filler (hbs : ∀ x ∈ bs, IsFiller x) (r : Source) :
    (blankRun false (bs ++ r)).2 = (blankRun false r).2 := by
  induction bs with
  | nil => rfl
  | cons x bs ih =>
    obtain ⟨hx, hbs⟩ := List.forall_mem_cons.mp hbs
    rw [List.cons_append, blankRun]
    split
    · exact ih hbs
    · next hbreak =>
      rw [if_pos (by simp [hx.resolve_right hbreak]), ih hbs]

theorem blankRun_cons (hc : EndsFiller c.char) (r : Source) : (blankRun false (c :: r)).2 = c :: r := by
  rw [blankRun, if_neg (by simp [hc.2.1]), if_neg (by simp [hc.1]), if_neg (by simp [hc.2.2])]

/-- A plain scalar goes over the characters of a word. -/
theorem scanPlain_word (hxs : ∀ x ∈ xs, isWordChar x.char = true) (r : Source) :
    scanPlain true 0 .none (xs ++ r) = (scanPlain true 0 .none r).prepend (xs.map Located.char) := by
  induction xs with
  | nil => rfl
  | cons x xs ih =>
    obtain ⟨hx, hxs⟩ := List.forall_mem_cons.mp hxs
    obtain ⟨hspace, hbreak, hword⟩ := not_ends_of_isWordChar hx
    rw [List.cons_append, scanPlain, hspace, hbreak, hword, ih hxs]
    rfl

/-- A plain scalar ends before what stands between tokens, up to a character that ends words. -/
theorem scanPlain_filler (hbs : ∀ x ∈ bs, IsFiller x) (hfiller : EndsFiller c.char)
    (hc : ∀ next, endsWord true c.char next = true) (g : Gap) (r : Source) :
    ∃ crossed bs', scanPlain true 0 g (bs ++ c :: r) = ⟨[], crossed, bs' ++ c :: r⟩ ∧
      (∀ x ∈ bs', IsFiller x) ∧ bs'.length ≤ bs.length := by
  induction bs generalizing g with
  | nil =>
    have hplain : ∀ next, endsPlain true 0 c next = true := by simp [endsPlain, hc]
    obtain ⟨hspace, hbreak, -⟩ := hfiller
    cases g with
    | none => exact ⟨false, [], by simp [scanPlain, hspace, hbreak, hc], nofun, Nat.le_refl _⟩
    | spaces cs => exact ⟨false, [], by simp [scanPlain, hspace, hbreak, hplain], nofun, Nat.le_refl _⟩
    | breaks first later fresh =>
      exact ⟨true, [], by simp [scanPlain, hspace, hbreak, hplain], nofun, Nat.le_refl _⟩
  | cons x bs ih =>
    obtain ⟨hx, hbs⟩ := List.forall_mem_cons.mp hbs
    have hmarker : Source.atMarker (x :: (bs ++ c :: r)) = false := by
      refine not_atMarker ?_ _
      rcases hx with hx | hx
      · rw [hx]
        decide
      · constructor <;> intro hc <;> rw [hc] at hx <;> cases hx
    obtain ⟨g', hstep⟩ : ∃ g', scanPlain true 0 g (x :: (bs ++ c :: r)) =
        scanPlain true 0 g' (bs ++ c :: r) := by
      by_cases hspace : x.char = ' '
      · cases g <;> exact ⟨_, by simp [scanPlain, hspace, hmarker]; rfl⟩
      · have hbreak := hx.resolve_left hspace
        cases g <;> exact ⟨_, by simp [scanPlain, hspace, hbreak, hmarker]; rfl⟩
    obtain ⟨crossed, bs', hscan, hbs', hlength⟩ := ih hbs g'
    exact ⟨crossed, bs', hstep.trans hscan, hbs', Nat.le_succ_of_le hlength⟩

end

end RowModel.Yaml.Scan
