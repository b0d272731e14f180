import RowModel.Yaml.Token.Scan

/-!
Steps of the scanner where no block collection is open and no candidate has to be a key. There the
scanner cannot fail before it looks at the next character, so a run is told by what each token does:
it reaches a further state, or it meets a fault and never comes to the end of the stream.
-/
namespace RowModel.Yaml.Scan

/-- No block collection is open, and none of the candidates has to be a key. -/
structure Fits (depth : Nat) (s : Scan) : Prop where
  columns : s.columns = []
  depth : s.inner.length = depth
  free : ∀ k ∈ s.candidates, k.required = false
  running : .streamEnd ∉ s.tokens

/-- A run comes from one state to another, in no more steps than characters are read. -/
def Reaches (s s' : Scan) : Prop :=
  ∃ k, k + s'.rest.length ≤ s.rest.length ∧ ∀ n, run (n + k) s = run n s'

/-- A run does not come to the end of the stream. -/
def Doomed (s : Scan) : Prop := ∀ n, s.rest.length < n → .streamEnd ∉ run n s

/-- A run comes to a state that meets a condition if `p` holds, and else is doomed. -/
def Ends (p : Prop) (post : Scan → Prop) (s : Scan) : Prop :=
  (p ∧ ∃ s', Reaches s s' ∧ post s') ∨ ¬p ∧ Doomed s

variable {d : Nat} {s s' s'' : Scan} {p q : Prop} {post post' : Scan → Prop}

theorem Reaches.refl (s : Scan) : Reaches s s := ⟨0, by omega, fun _ => rfl⟩

/-- Runs one after the other are a run. -/
theorem Reaches.trans (h : Reaches s s') (h' : Reaches s' s'') : Reaches s s'' := by
  obtain ⟨j, hj, hrun⟩ := h
  obtain ⟨k, hk, hrun'⟩ := h'
  refine ⟨k + j, by omega, fun n => ?_⟩
  rw [← Nat.add_assoc, hrun, hrun']

theorem Reaches.doomed (h : Reaches s s') (h' : Doomed s') : Doomed s := by
  obtain ⟨k, hk, hrun⟩ := h
  intro n hn
  obtain ⟨m, rfl⟩ : ∃ m, n = m + k := ⟨n - k, by omega⟩
  rw [hrun]
  exact h' m (by omega)

theorem Ends.done (h : post s) : Ends True post s := .inl ⟨trivial, s, .refl s, h⟩

theorem Ends.of_iff (h : Ends p post s) (hpq : p ↔ q) : Ends q post s := by
  rwa [← propext hpq]

theorem Ends.imp (h : Ends p post s) (h' : ∀ s', post s' → post' s') : Ends p post' s :=
  h.imp_left fun ⟨hp, s', hreach, hpost⟩ => ⟨hp, s', hreach, h' s' hpost⟩

/-- Of two runs after one another both must come through. -/
theorem Ends.bind (h : Ends p post s) (h' : ∀ s', post s' → Ends q post' s') :
    Ends (p ∧ q) post' s := by
  rcases h with ⟨hp, s₁, hreach, hpost⟩ | ⟨hp, hdoomed⟩
  · rcases h' s₁ hpost with ⟨hq, s₂, hreach', hpost'⟩ | ⟨hq, hdoomed⟩
    · exact .inl ⟨⟨hp, hq⟩, s₂, hreach.trans hreach', hpost'⟩
    · exact .inr ⟨fun h => hq h.2, hreach.doomed hdoomed⟩
  · exact .inr ⟨fun h => hp h.1, hdoomed⟩

theorem Ends.after (h : Reaches s s') (h' : Ends p post s') : Ends p post s := by
  rcases h' with ⟨hp, s₂, hreach, hpost⟩ | ⟨hp, hdoomed⟩
  · exact .inl ⟨hp, s₂, h.trans hreach, hpost⟩
  · exact .inr ⟨hp, h.doomed hdoomed⟩

theorem Ends.doomed (h : Doomed s) (hp : ¬p) : Ends p post s := .inr ⟨hp, h⟩

/-- The candidate that stays one where the text has been read up to a place. -/
def keep (index line : Nat) (k : Option Candidate) : Option Candidate :=
  k.filter fun k => !k.isStale index line

def place (s : Source) : Nat × Nat :=
  match s with
  | [] => (0, 0)
  | c :: _ => (c.index, c.line)

/-- Without the candidates that can no longer be keys. -/
def fresh (s : Scan) : Scan :=
  { s with
    outer := keep (place s.rest).1 (place s.rest).2 s.outer
    inner := s.inner.map (keep (place s.rest).1 (place s.rest).2) }

/-- Where the scanner looks at the next character. -/
def ready (s : Scan) : Scan := s.fresh.skipBlank.fresh

theorem mem_candidates {k : Candidate} :
    k ∈ s.candidates ↔ s.outer = some k ∨ some k ∈ s.inner := by
  simp [candidates, eq_comm]

theorem eq_some_of_keep {index line : Nat} {k : Option Candidate} {j : Candidate}
    (h : keep index line k = some j) : k = some j := (Option.filter_eq_some_iff.mp h).1

/-- Candidates that are dropped leave a state that fits. -/
theorem Fits.fresh (h : Fits d s) : Fits d s.fresh where
  columns := h.columns
  depth := by rw [Scan.fresh, List.length_map, h.depth]
  free k hk := by
    refine h.free k (mem_candidates.mpr ?_)
    rcases mem_candidates.mp hk with hk | hk
    · exact .inl (eq_some_of_keep hk)
    · obtain ⟨j, hj, hkeep⟩ := List.mem_map.mp hk
      exact .inr (eq_some_of_keep hkeep ▸ hj)
  running := h.running

/-- Where no candidate has to be a key, dropping stale ones is no fault. -/
theorem Fits.dropStale (h : Fits d s) : s.dropStale = .ok s.fresh := by
  have hany : ∀ index line,
      (s.candidates.any fun k => k.isStale index line && k.required) = false := by
    intro index line
    rw [List.any_eq_false]
    intro k hk
    simp [h.free k hk]
  unfold Scan.dropStale
  cases hrest : s.rest with
  | nil => simp [hany, Scan.fresh, place, hrest, keep]
  | cons c r => simp [hany, Scan.fresh, place, hrest, keep]

theorem Fits.skipBlank (h : Fits d s) : Fits d s.skipBlank :=
  ⟨h.columns, h.depth, h.free, h.running⟩

theorem Fits.ready (h : Fits d s) : Fits d s.ready := h.fresh.skipBlank.fresh

@[simp] theorem ready_rest (s : Scan) : s.ready.rest = (blankRun false s.rest).2 := rfl

@[simp] theorem ready_tokens (s : Scan) : s.ready.tokens = s.tokens := rfl

theorem ready_keyAllowed (h : s.keyAllowed = true) : s.ready.keyAllowed = true := by
  change (s.keyAllowed || _) = true
  rw [h, Bool.true_or]

theorem closeBlocks_eq (h : s.columns = []) (column : Nat) : s.closeBlocks column = s := by
  simp [closeBlocks, h]
  rw [← h]

theorem ok_bind {α β : Type} (a : α) (f : α → Except Fault β) : (.ok a >>= f) = f a := rfl

/-- A run looks at the next character, if there is one. -/
theorem Fits.run_succ (h : Fits d s) {c : Located} {r : Source}
    (hrest : (blankRun false s.rest).2 = c :: r) (hc : c.char ≠ endMark) (n : Nat) :
    run (n + 1) s =
      match s.ready.dispatch c (Source.peek r) with
      | .error f => s.fresh.settled ++ [.fault f]
      | .ok s' => run n s' := by
  have hready : s.fresh.skipBlank.fresh.rest = c :: r := hrest
  have hclose : (if s.ready.inFlow then s.ready else s.ready.closeBlocks c.column) = s.ready := by
    split
    · rfl
    · exact closeBlocks_eq h.ready.columns _
  have hstep : s.fresh.step = s.ready.dispatch c (Source.peek r) >>= fun s => .ok (some s) := by
    rw [step, h.fresh.skipBlank.dropStale, ok_bind, hready]
    dsimp only
    rw [if_neg hc]
    change dispatch c (Source.peek r)
      (if s.ready.inFlow then s.ready else s.ready.closeBlocks c.column) >>= _ = _
    rw [hclose]
    rfl
  rw [run, h.dropStale]
  dsimp only
  rw [hstep]
  cases s.ready.dispatch c (Source.peek r) <;> rfl

def noted (c : Located) (s : Scan) : Scan :=
  if s.keyAllowed then s.setCandidate (some ⟨s.tokens.length, false, c.index, c.line, c.column⟩) else s

section

variable {k : Option Candidate} {c : Located} {r : Source}

@[simp] theorem setCandidate_rest (k : Option Candidate) (s : Scan) :
    (s.setCandidate k).rest = s.rest := by
  unfold setCandidate
  split <;> rfl

@[simp] theorem setCandidate_tokens (k : Option Candidate) (s : Scan) :
    (s.setCandidate k).tokens = s.tokens := by
  unfold setCandidate
  split <;> rfl

@[simp] theorem setCandidate_columns (k : Option Candidate) (s : Scan) :
    (s.setCandidate k).columns = s.columns := by
  unfold setCandidate
  split <;> rfl

@[simp] theorem candidate_setCandidate (k : Option Candidate) (s : Scan) :
    (s.setCandidate k).candidate = k := by
  cases hinner : s.inner <;> simp [setCandidate, candidate, hinner]

@[simp] theorem setCandidate_setCandidate (j k : Option Candidate) (s : Scan) :
    (s.setCandidate j).setCandidate k = s.setCandidate k := by
  cases hinner : s.inner <;> simp [setCandidate, hinner]

@[simp] theorem length_inner_setCandidate (k : Option Candidate) (s : Scan) :
    (s.setCandidate k).inner.length = s.inner.length := by
  cases hinner : s.inner <;> simp [setCandidate, hinner]

/-- A candidate that need not be a key may be noted. -/
theorem Fits.setCandidate (h : Fits d s) (hk : ∀ j ∈ k, j.required = false) :
    Fits d (s.setCandidate k) where
  columns := by rw [setCandidate_columns, h.columns]
  depth := by rw [length_inner_setCandidate, h.depth]
  free j hj := by
    have hfree := h.free
    simp only [mem_candidates] at hj hfree
    unfold Scan.setCandidate at hj
    split at hj
    · rcases hj with hj | hj
      · exact hk j hj
      · exact hfree j (.inr hj)
    · next hinner =>
      rcases hj with hj | hj
      · exact hfree j (.inl hj)
      · rcases List.mem_cons.mp hj with hj | hj
        · exact hk j hj.symm
        · exact hfree j (.inr (hinner ▸ List.mem_cons_of_mem _ hj))
  running := by rw [setCandidate_tokens]; exact h.running

theorem Fits.dropped (h : Fits d s) : Fits d (s.setCandidate none) :=
  h.setCandidate fun _ hj => nomatch hj

theorem candidate_mem {j : Candidate} (h : s.candidate = some j) : j ∈ s.candidates := by
  rw [mem_candidates]
  unfold candidate at h
  split at h
  · exact .inl h
  · next hinner => exact .inr (hinner ▸ h ▸ List.mem_cons_self)

/-- Where no candidate has to be a key, giving one up is no fault. -/
theorem Fits.dropCandidate (h : Fits d s) : s.dropCandidate = .ok (s.setCandidate none) := by
  unfold Scan.dropCandidate
  cases hk : s.candidate with
  | none => rfl
  | some j => simp [h.free j (candidate_mem hk)]

/-- What comes next is noted as a candidate if a key may stand there. -/
theorem Fits.noteCandidate (h : Fits d s) (hrest : s.rest = c :: r) :
    s.noteCandidate = .ok (s.noted c) := by
  unfold Scan.noteCandidate noted
  rw [hrest, h.dropCandidate, h.columns]
  split
  · change Except.ok ((s.setCandidate none).setCandidate _) = _
    rw [setCandidate_setCandidate]
    simp
  · rfl

theorem Fits.noted (h : Fits d s) (c : Located) : Fits d (s.noted c) := by
  unfold Scan.noted
  split
  · exact h.setCandidate (by rintro _ ⟨⟩; rfl)
  · exact h

@[simp] theorem noted_rest (c : Located) (s : Scan) : (s.noted c).rest = s.rest := by
  unfold noted
  split <;> simp

@[simp] theorem noted_tokens (c : Located) (s : Scan) : (s.noted c).tokens = s.tokens := by
  unfold noted
  split <;> simp

theorem Fits.moved (h : Fits d s) {t : Token} (ht : t ≠ .streamEnd) (b : Bool) (rest : Source) :
    Fits d (((s.allow b).moveTo rest).push t) where
  columns := h.columns
  depth := h.depth
  free := h.free
  running hm := by
    rcases List.mem_cons.mp hm with hm | hm
    · exact ht hm.symm
    · exact h.running hm

end

end RowModel.Yaml.Scan
