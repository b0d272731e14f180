import RowModel.Proofs.Json.Leaf

/-!
The reader of JSON and the trees agree: a text has a value exactly when a tree spells it, and the value
is that of the tree (`read?_eq_some_iff`). A text is read with as many steps as it has characters.
-/
namespace RowModel.Json

variable {n : Nat} {s r : List Char}

theorem noBlank_skip (s : List Char) : NoBlank (skip s) := by
  intro c hc
  have h := List.head?_dropWhile_not isBlank s
  rw [Option.mem_def, skip] at hc
  rwa [hc] at h

theorem skip_of_noBlank (h : NoBlank s) : skip s = s := (takeWhile_of_head h).2

@[simp] theorem skip_skip (s : List Char) : skip (skip s) = skip s :=
  skip_of_noBlank (noBlank_skip s)

/-- Blanks before a value make no difference. -/
theorem value?_skip (n : Nat) (s : List Char) : value? n (skip s) = value? n s := by
  cases n with
  | zero => rfl
  | succ n =>
    rw [value?.eq_def, value?.eq_def n.succ s]
    dsimp only
    rw [skip_skip]

theorem value?_string (h : skip s = '"' :: r) :
    value? (n + 1) s = (string? r).map fun (t, rest) => (.str t, rest) := by
  rw [value?.eq_def]
  simp only [h]

theorem value?_array (h : skip s = '[' :: r) :
    value? (n + 1) s = (items? n true r).map fun (items, rest) => (.list items, rest) := by
  rw [value?.eq_def]
  simp only [h]

theorem value?_object (h : skip s = '\x7b' :: r) :
    value? (n + 1) s = (members? n true [] r).map fun (es, rest) => (.map es, rest) := by
  rw [value?.eq_def]
  simp only [h]

theorem value?_atom (h : ∀ c ∈ (skip s).head?, c ≠ '"' ∧ c ≠ '[' ∧ c ≠ '\x7b') :
    value? (n + 1) s = atom? (skip s) := by
  rw [value?.eq_def]
  dsimp only
  split
  · next heq => rw [heq] at h; exact absurd rfl (h _ rfl).1
  · next heq => rw [heq] at h; exact absurd rfl (h _ rfl).2.1
  · next heq => rw [heq] at h; exact absurd rfl (h _ rfl).2.2
  · rfl

/-- What begins a tree is neither a blank nor the end of a collection. -/
theorem Atom.exists_cons (a : Atom) : ∃ c t, a.text = c :: t ∧
    (c ≠ '"' ∧ c ≠ '[' ∧ c ≠ '\x7b') ∧ isBlank c = false ∧ c ≠ ']' ∧ c ≠ '\x7d' := by
  match a with
  | .null => exact ⟨_, _, rfl, by decide, by decide, by decide, by decide⟩
  | .bool true => exact ⟨_, _, rfl, by decide, by decide, by decide, by decide⟩
  | .bool false => exact ⟨_, _, rfl, by decide, by decide, by decide, by decide⟩
  | .number m =>
    obtain ⟨c, t, hc, hdigit⟩ := m.whole.exists_cons
    cases hm : m.negative with
    | true =>
      refine ⟨'-', m.whole.chars ++ m.fractionText ++ m.exponentText, ?_, by decide, by decide,
        by decide, by decide⟩
      simp [Atom.text, Numeral.text, Numeral.signText, hm]
    | false =>
      refine ⟨c, t ++ m.fractionText ++ m.exponentText, ?_, ?_, ?_, ?_, ?_⟩
      · simp [Atom.text, Numeral.text, Numeral.signText, hm, hc]
      · refine ⟨?_, ?_, ?_⟩
        all_goals
          rintro rfl
          exact absurd hdigit (by decide)
      · rw [Bool.eq_false_iff]
        intro hblank
        simp only [isBlank, Bool.or_eq_true, beq_iff_eq] at hblank
        rcases hblank with ((rfl | rfl) | rfl) | rfl <;> exact absurd hdigit (by decide)
      · rintro rfl
        exact absurd hdigit (by decide)
      · rintro rfl
        exact absurd hdigit (by decide)

/-- A tree begins with a character that is no blank and closes nothing. -/
theorem Tree.exists_cons (t : Tree) : ∃ c u, t.text = c :: u ∧
    isBlank c = false ∧ c ≠ ']' ∧ c ≠ '\x7d' := by
  cases t with
  | atom a =>
    obtain ⟨c, u, hc, -, hrest⟩ := a.exists_cons
    exact ⟨c, u, by rw [Tree.text, hc], hrest⟩
  | string | emptyArray | array | emptyObject | object =>
    exact ⟨_, _, rfl, by decide, by decide, by decide⟩

theorem Tree.noBlank (t : Tree) (r : List Char) : NoBlank (t.text ++ r) := by
  obtain ⟨c, u, hc, hblank, -⟩ := t.exists_cons
  rw [hc]
  rintro _ ⟨⟩
  exact hblank

theorem Tree.length_pos (t : Tree) : 0 < t.text.length := by
  obtain ⟨c, u, hc, -⟩ := t.exists_cons
  rw [hc]
  exact Nat.succ_pos _

/-- What follows a value in a collection is no part of a number. -/
theorem endsNumber_append (b : Blanks) (h : EndsNumber r) : EndsNumber (b.chars ++ r) := by
  obtain ⟨chars, hchars⟩ := b
  cases chars with
  | nil => exact h
  | cons c cs =>
    have hblank := hchars c List.mem_cons_self
    simp only [isBlank, Bool.or_eq_true, beq_iff_eq] at hblank
    constructor
    · rintro _ ⟨⟩
      rcases hblank with ((rfl | rfl) | rfl) | rfl <;> decide
    · rintro _ ⟨⟩
      rcases hblank with ((rfl | rfl) | rfl) | rfl <;> decide

theorem endsNumber_comma (s : List Char) : EndsNumber (',' :: s) :=
  ⟨by rintro _ ⟨⟩; decide, by rintro _ ⟨⟩; decide⟩

theorem endsNumber_bracket (s : List Char) : EndsNumber (']' :: s) :=
  ⟨by rintro _ ⟨⟩; decide, by rintro _ ⟨⟩; decide⟩

theorem endsNumber_brace (s : List Char) : EndsNumber ('\x7d' :: s) :=
  ⟨by rintro _ ⟨⟩; decide, by rintro _ ⟨⟩; decide⟩

theorem noBlank_cons {c : Char} (h : isBlank c = false) (s : List Char) : NoBlank (c :: s) := by
  rintro _ ⟨⟩
  exact h

theorem endsNumber_nil : EndsNumber [] := ⟨nofun, nofun⟩

def itemsAfter? (n : Nat) (s : List Char) : Option (List Value × List Char) := do
  let (v, r) ← value? n s
  let (vs, rest) ← items? n false r
  return (v :: vs, rest)

theorem items?_first (h : ∀ c ∈ (skip s).head?, c ≠ ']') :
    items? (n + 1) true s = itemsAfter? n s := by
  rw [items?.eq_def]
  dsimp only
  split
  · next heq => rw [heq] at h; exact absurd rfl (h _ rfl)
  · rw [value?_skip]
    rfl
  all_goals contradiction

theorem items?_comma (h : skip s = ',' :: r) :
    items? (n + 1) false s = itemsAfter? n r := by
  rw [items?.eq_def]
  simp only [h]
  rfl

theorem items?_bracket (h : skip s = ']' :: r) (first : Bool) :
    items? (n + 1) first s = some ([], r) := by
  rw [items?.eq_def]
  cases first <;> simp only [h]

theorem members?_brace (h : skip s = '\x7d' :: r) (first : Bool) (es : List (Value × Value)) :
    members? (n + 1) first es s = some (es, r) := by
  rw [members?.eq_def]
  cases first <;> simp only [h]

theorem members?_first (h : ∀ c ∈ (skip s).head?, c ≠ '\x7d') (es : List (Value × Value)) :
    members? (n + 1) true es s = member? n es (skip s) := by
  rw [members?.eq_def]
  dsimp only
  split
  · next heq => rw [heq] at h; exact absurd rfl (h _ rfl)
  · rfl
  all_goals contradiction

theorem members?_comma (h : skip s = ',' :: r) (es : List (Value × Value)) :
    members? (n + 1) false es s = member? n es r := by
  rw [members?.eq_def]
  simp only [h]

/-- A member is a name, a colon and a value, and the other members follow. -/
theorem member?_eq {t : String} {u v : List Char} (h : skip s = '"' :: u)
    (ht : string? u = some (t, v)) (hv : skip v = ':' :: r) (es : List (Value × Value)) :
    member? (n + 1) es s =
      (value? n r).bind fun (x, r) => members? n false (Value.insert (.str t) x es) r := by
  rw [member?.eq_def]
  simp only [h, ht, hv]
  rfl

theorem skip_blanks (b : Blanks) (s : List Char) : skip (b.chars ++ s) = skip s := by
  rw [skip, List.dropWhile_append_of_pos b.areBlank]
  rfl

theorem value?_blanks (b : Blanks) (s : List Char) : value? n (b.chars ++ s) = value? n s := by
  rw [← value?_skip, skip_blanks, value?_skip]

theorem skip_cons {c : Char} (h : isBlank c = false) (s : List Char) : skip (c :: s) = c :: s :=
  skip_of_noBlank (noBlank_cons h s)

theorem skip_blanks_cons {c : Char} (h : isBlank c = false) (b : Blanks) (s : List Char) :
    skip (b.chars ++ c :: s) = c :: s := by
  rw [skip_blanks, skip_cons h]

theorem skip_tree (b : Blanks) (t : Tree) (r : List Char) :
    skip (b.chars ++ (t.text ++ r)) = t.text ++ r := by
  rw [skip_blanks, skip_of_noBlank (t.noBlank r)]

/-- The name and the colon are read of a member. -/
theorem member?_label (l : Label) (es : List (Value × Value)) (r : List Char) :
    member? (n + 1) es (l.text ++ r) =
      (value? n r).bind fun (x, r) =>
        members? n false (Value.insert (.str (partsValue l.parts)) x es) r := by
  refine member?_eq (u := partsText l.parts ++ '"' :: (l.after.chars ++ ':' :: r)) ?_
    (string?_text l.parts _) (skip_blanks_cons (by decide) l.after r) es
  rw [Label.text]
  simp only [List.append_assoc, List.cons_append, List.nil_append]
  exact skip_blanks_cons (by decide) l.before _

theorem Items.length_pos (items : Items) : 0 < items.text.length := by
  cases items with
  | last | more =>
    simp only [Items.text, List.length_append, List.length_cons]
    omega

theorem Members.length_pos (members : Members) : 0 < members.text.length := by
  cases members with
  | last | more =>
    simp only [Members.text, List.length_append, List.length_cons]
    omega

theorem Label.length_text (l : Label) : 3 ≤ l.text.length := by
  simp [Label.text]
  omega

/-- An array that has items does not end at once, nor an object that has members. -/
theorem Items.head_skip (items : Items) (r : List Char) :
    ∀ c ∈ (skip (items.text ++ r)).head?, c ≠ ']' := by
  have hcons : ∀ (b : Blanks) (t : Tree) (u : List Char),
      ∀ c ∈ (skip (b.chars ++ (t.text ++ u))).head?, c ≠ ']' := by
    intro b t u
    obtain ⟨c, v, hc, -, hne, -⟩ := t.exists_cons
    rw [skip_tree, hc]
    rintro _ ⟨⟩
    exact hne
  cases items with
  | last b t a =>
    rw [Items.text]
    simp only [List.append_assoc]
    exact hcons b t _
  | more b t a others =>
    rw [Items.text]
    simp only [List.append_assoc]
    exact hcons b t _

theorem Label.skip_text (l : Label) (r : List Char) : ∃ u, skip (l.text ++ r) = '"' :: u := by
  rw [Label.text]
  simp only [List.append_assoc, List.cons_append]
  exact ⟨_, skip_blanks_cons (by decide) l.before _⟩

theorem Members.head_skip (members : Members) (r : List Char) :
    ∀ c ∈ (skip (members.text ++ r)).head?, c ≠ '\x7d' := by
  obtain ⟨u, hu⟩ : ∃ u, skip (members.text ++ r) = '"' :: u := by
    cases members with
    | last l b t a =>
      rw [Members.text]
      simp only [List.append_assoc]
      exact l.skip_text _
    | more l b t a others =>
      rw [Members.text]
      simp only [List.append_assoc]
      exact l.skip_text _
  rw [hu]
  rintro _ ⟨⟩
  decide

theorem member?_skip (es : List (Value × Value)) (s : List Char) :
    member? n es (skip s) = member? n es s := by
  cases n with
  | zero => rfl
  | succ n =>
    rw [member?.eq_def, member?.eq_def n.succ es s]
    dsimp only
    rw [skip_skip]

mutual

/-- The text of a tree is read, where a number could not go on, with as much fuel as it has
characters. -/
theorem Tree.value?_text (t : Tree) {n : Nat} {r : List Char} (hn : t.text.length ≤ n)
    (hr : EndsNumber r) : value? n (t.text ++ r) = some (t.value, r) := by
  obtain ⟨n, rfl⟩ : ∃ m, n = m + 1 :=
    Nat.exists_eq_add_one.mpr (Nat.lt_of_lt_of_le t.length_pos hn)
  have hskip : skip (t.text ++ r) = t.text ++ r := skip_of_noBlank (t.noBlank r)
  match t with
  | .atom a =>
    rw [Tree.text] at hskip ⊢
    obtain ⟨c, u, hc, hfirst, -⟩ := a.exists_cons
    rw [value?_atom, hskip]
    · exact a.atom?_text hr
    · rw [hskip, hc]
      rintro _ ⟨⟩
      exact hfirst
  | .string ps =>
    have htext : (Tree.string ps).text ++ r = '"' :: (partsText ps ++ '"' :: r) := by
      simp [Tree.text]
    rw [htext] at hskip ⊢
    rw [value?_string hskip, string?_text]
    rfl
  | .emptyArray b =>
    have htext : (Tree.emptyArray b).text ++ r = '[' :: (b.chars ++ ']' :: r) := by
      simp [Tree.text]
    rw [htext] at hskip ⊢
    rw [Tree.text] at hn
    obtain ⟨n, rfl⟩ : ∃ m, n = m + 1 := Nat.exists_eq_add_one.mpr (by simp at hn; omega)
    rw [value?_array hskip, items?_bracket (skip_blanks_cons (by decide) b r)]
    rfl
  | .array items =>
    rw [Tree.text, List.cons_append] at hskip ⊢
    rw [Tree.text, List.length_cons, Nat.add_le_add_iff_right] at hn
    obtain ⟨n, rfl⟩ : ∃ m, n = m + 1 :=
      Nat.exists_eq_add_one.mpr (Nat.lt_of_lt_of_le items.length_pos hn)
    rw [value?_array hskip, items?_first (items.head_skip r), items.itemsAfter?_text hn]
    rfl
  | .emptyObject b =>
    have htext : (Tree.emptyObject b).text ++ r = '\x7b' :: (b.chars ++ '\x7d' :: r) := by
      simp [Tree.text]
    rw [htext] at hskip ⊢
    rw [Tree.text] at hn
    obtain ⟨n, rfl⟩ : ∃ m, n = m + 1 := Nat.exists_eq_add_one.mpr (by simp at hn; omega)
    rw [value?_object hskip, members?_brace (skip_blanks_cons (by decide) b r)]
    rfl
  | .object members =>
    rw [Tree.text, List.cons_append] at hskip ⊢
    rw [Tree.text, List.length_cons, Nat.add_le_add_iff_right] at hn
    obtain ⟨n, rfl⟩ : ∃ m, n = m + 1 :=
      Nat.exists_eq_add_one.mpr (Nat.lt_of_lt_of_le members.length_pos hn)
    rw [value?_object hskip, members?_first (members.head_skip r), member?_skip,
      members.member?_text hn]
    rfl

/-- So are the items of an array. -/
theorem Items.itemsAfter?_text (items : Items) {n : Nat} {r : List Char}
    (hn : items.text.length ≤ n + 1) :
    itemsAfter? n (items.text ++ r) = some (items.values, r) := by
  match items with
  | .last b t a =>
    rw [Items.text] at hn ⊢
    simp only [List.length_append, List.length_singleton] at hn
    have ht := t.length_pos
    have hvalue : value? n (t.text ++ (a.chars ++ ']' :: r)) = some (t.value, _) :=
      t.value?_text (by omega) (endsNumber_append a (endsNumber_bracket r))
    obtain ⟨n, rfl⟩ : ∃ m, n = m + 1 := Nat.exists_eq_add_one.mpr (by omega)
    simp only [List.append_assoc, List.cons_append, List.nil_append, itemsAfter?]
    rw [value?_blanks, hvalue]
    simp only [Option.bind_eq_bind, Option.bind_some]
    rw [items?_bracket (skip_blanks_cons (by decide) a r)]
    rfl
  | .more b t a others =>
    rw [Items.text] at hn ⊢
    simp only [List.length_append, List.length_cons] at hn
    have ht := t.length_pos
    have hvalue : value? n (t.text ++ (a.chars ++ ',' :: (others.text ++ r))) =
        some (t.value, _) :=
      t.value?_text (by omega) (endsNumber_append a (endsNumber_comma _))
    obtain ⟨n, rfl⟩ : ∃ m, n = m + 1 := Nat.exists_eq_add_one.mpr (by omega)
    simp only [List.append_assoc, List.cons_append, itemsAfter?]
    rw [value?_blanks, hvalue]
    simp only [Option.bind_eq_bind, Option.bind_some]
    rw [items?_comma (skip_blanks_cons (by decide) a _), others.itemsAfter?_text (by omega)]
    rfl

/-- So are the members of an object, entered into those before them. -/
theorem Members.member?_text (members : Members) {n : Nat} {r : List Char}
    {es : List (Value × Value)} (hn : members.text.length ≤ n + 1) :
    member? n es (members.text ++ r) = some (enter es members.entries, r) := by
  match members with
  | .last l b t a =>
    rw [Members.text] at hn ⊢
    simp only [List.length_append, List.length_singleton] at hn
    have hl := l.length_text
    have ht := t.length_pos
    obtain ⟨n, rfl⟩ : ∃ m, n = m + 2 := ⟨n - 2, by omega⟩
    have hvalue : value? (n + 1) (t.text ++ (a.chars ++ '\x7d' :: r)) = some (t.value, _) :=
      t.value?_text (by omega) (endsNumber_append a (endsNumber_brace r))
    simp only [List.append_assoc, List.cons_append, List.nil_append]
    rw [member?_label, value?_blanks, hvalue, Option.bind_some]
    dsimp only
    rw [members?_brace (skip_blanks_cons (by decide) a r)]
    rfl
  | .more l b t a others =>
    rw [Members.text] at hn ⊢
    simp only [List.length_append, List.length_cons] at hn
    have hl := l.length_text
    have ht := t.length_pos
    obtain ⟨n, rfl⟩ : ∃ m, n = m + 2 := ⟨n - 2, by omega⟩
    have hvalue : value? (n + 1) (t.text ++ (a.chars ++ ',' :: (others.text ++ r))) =
        some (t.value, _) :=
      t.value?_text (by omega) (endsNumber_append a (endsNumber_comma _))
    simp only [List.append_assoc, List.cons_append]
    rw [member?_label, value?_blanks, hvalue, Option.bind_some]
    dsimp only
    rw [members?_comma (skip_blanks_cons (by decide) a _), others.member?_text (by omega)]
    rfl

end

/-- After blanks a character comes. -/
def LeadsTo (s : List Char) (c : Char) (r : List Char) : Prop := ∃ b : Blanks, s = b.chars ++ c :: r

def SpellsItems (s : List Char) (vs : List Value) (r : List Char) : Prop :=
  ∃ items : Items, s = items.text ++ r ∧ items.values = vs

def SpellsMembers (es : List (Value × Value)) (s : List Char) (fs : List (Value × Value))
    (r : List Char) : Prop :=
  ∃ members : Members, s = members.text ++ r ∧ enter es members.entries = fs

/-- What the readers of values and of what stands in brackets have read with this much fuel. -/
structure Spelled (n : Nat) : Prop where
  value : ∀ {s v r}, value? n s = some (v, r) →
    ∃ (b : Blanks) (t : Tree), s = b.chars ++ t.text ++ r ∧ t.value = v
  firstItems : ∀ {s vs r}, items? n true s = some (vs, r) →
    LeadsTo s ']' r ∧ vs = [] ∨ SpellsItems s vs r
  items : ∀ {s vs r}, items? n false s = some (vs, r) →
    LeadsTo s ']' r ∧ vs = [] ∨ ∃ u, LeadsTo s ',' u ∧ SpellsItems u vs r
  firstMembers : ∀ {s es fs r}, members? n true es s = some (fs, r) →
    LeadsTo s '\x7d' r ∧ fs = es ∨ SpellsMembers es s fs r
  members : ∀ {s es fs r}, members? n false es s = some (fs, r) →
    LeadsTo s '\x7d' r ∧ fs = es ∨ ∃ u, LeadsTo s ',' u ∧ SpellsMembers es u fs r
  member : ∀ {s es fs r}, member? n es s = some (fs, r) → SpellsMembers es s fs r

theorem leadsTo_of_skip {c : Char} {u : List Char} (h : skip s = c :: u) : LeadsTo s c u := by
  obtain ⟨b, hb⟩ := exists_skip s
  exact ⟨b, h ▸ hb⟩

theorem ne_of_head {c : Char} (h : ¬∃ u, s = c :: u) : ∀ d ∈ s.head?, d ≠ c := by
  cases s with
  | nil => exact nofun
  | cons d u =>
    rintro _ ⟨⟩ rfl
    exact h ⟨u, rfl⟩

/-- Items that were read are the text of items. -/
theorem Spelled.itemsAfter (h : Spelled n) {vs : List Value}
    (hs : itemsAfter? n s = some (vs, r)) : SpellsItems s vs r := by
  obtain ⟨⟨v, u⟩, hvalue, hs⟩ := Option.bind_eq_some_iff.mp hs
  obtain ⟨⟨ws, rest⟩, hitems, hs⟩ := Option.bind_eq_some_iff.mp hs
  cases hs
  obtain ⟨b, t, rfl, rfl⟩ := h.value hvalue
  rcases h.items hitems with ⟨⟨a, rfl⟩, rfl⟩ | ⟨_, ⟨a, rfl⟩, others, rfl, rfl⟩
  · exact ⟨.last b t a, by simp [Items.text], rfl⟩
  · exact ⟨.more b t a others, by simp [Items.text], rfl⟩

theorem Spelled.succ_firstItems (h : Spelled n) {vs : List Value}
    (hs : items? (n + 1) true s = some (vs, r)) : LeadsTo s ']' r ∧ vs = [] ∨ SpellsItems s vs r := by
  by_cases hend : ∃ u, skip s = ']' :: u
  · obtain ⟨u, hu⟩ := hend
    rw [items?_bracket hu] at hs
    cases hs
    exact .inl ⟨leadsTo_of_skip hu, rfl⟩
  · rw [items?_first (ne_of_head hend)] at hs
    exact .inr (h.itemsAfter hs)

theorem Spelled.succ_items (h : Spelled n) {vs : List Value}
    (hs : items? (n + 1) false s = some (vs, r)) :
    LeadsTo s ']' r ∧ vs = [] ∨ ∃ u, LeadsTo s ',' u ∧ SpellsItems u vs r := by
  by_cases hend : ∃ u, skip s = ']' :: u
  · obtain ⟨u, hu⟩ := hend
    rw [items?_bracket hu] at hs
    cases hs
    exact .inl ⟨leadsTo_of_skip hu, rfl⟩
  · by_cases hcomma : ∃ u, skip s = ',' :: u
    · obtain ⟨u, hu⟩ := hcomma
      rw [items?_comma hu] at hs
      exact .inr ⟨u, leadsTo_of_skip hu, h.itemsAfter hs⟩
    · rw [items?.eq_def] at hs
      dsimp only at hs
      split at hs
      · contradiction
      · contradiction
      · next u _ heq => exact absurd ⟨u, heq⟩ hend
      · next u _ heq => exact absurd ⟨u, heq⟩ hcomma
      · cases hs

theorem Spelled.succ_firstMembers (h : Spelled n) {es fs : List (Value × Value)}
    (hs : members? (n + 1) true es s = some (fs, r)) :
    LeadsTo s '\x7d' r ∧ fs = es ∨ SpellsMembers es s fs r := by
  by_cases hend : ∃ u, skip s = '\x7d' :: u
  · obtain ⟨u, hu⟩ := hend
    rw [members?_brace hu] at hs
    cases hs
    exact .inl ⟨leadsTo_of_skip hu, rfl⟩
  · rw [members?_first (ne_of_head hend), member?_skip] at hs
    exact .inr (h.member hs)

theorem Spelled.succ_members (h : Spelled n) {es fs : List (Value × Value)}
    (hs : members? (n + 1) false es s = some (fs, r)) :
    LeadsTo s '\x7d' r ∧ fs = es ∨ ∃ u, LeadsTo s ',' u ∧ SpellsMembers es u fs r := by
  by_cases hend : ∃ u, skip s = '\x7d' :: u
  · obtain ⟨u, hu⟩ := hend
    rw [members?_brace hu] at hs
    cases hs
    exact .inl ⟨leadsTo_of_skip hu, rfl⟩
  · by_cases hcomma : ∃ u, skip s = ',' :: u
    · obtain ⟨u, hu⟩ := hcomma
      rw [members?_comma hu] at hs
      exact .inr ⟨u, leadsTo_of_skip hu, h.member hs⟩
    · rw [members?.eq_def] at hs
      dsimp only at hs
      split at hs
      · next u heq => exact absurd ⟨u, heq⟩ hend
      · contradiction
      · next u _ heq => exact absurd ⟨u, heq⟩ hcomma
      · cases hs

theorem Spelled.succ_member (h : Spelled n) {es fs : List (Value × Value)}
    (hs : member? (n + 1) es s = some (fs, r)) : SpellsMembers es s fs r := by
  rw [member?.eq_def] at hs
  dsimp only at hs
  split at hs
  · next u hu =>
    split at hs
    · cases hs
    · next t v ht =>
      split at hs
      · next w hw =>
        obtain ⟨⟨x, y⟩, hvalue, hs⟩ := Option.bind_eq_some_iff.mp hs
        obtain ⟨before, rfl⟩ := leadsTo_of_skip hu
        obtain ⟨ps, rfl, rfl⟩ := exists_string ht
        obtain ⟨after, rfl⟩ := leadsTo_of_skip hw
        obtain ⟨b, tree, rfl, rfl⟩ := h.value hvalue
        rcases h.members hs with ⟨⟨a, rfl⟩, rfl⟩ | ⟨_, ⟨a, rfl⟩, others, rfl, rfl⟩
        · exact ⟨.last ⟨before, ps, after⟩ b tree a, by simp [Members.text, Label.text], rfl⟩
        · exact ⟨.more ⟨before, ps, after⟩ b tree a others,
            by simp [Members.text, Label.text], rfl⟩
      · cases hs
  · cases hs

/-- A value that was read is that of a tree after blanks. -/
theorem Spelled.succ_value (h : Spelled n) {v : Value} (hs : value? (n + 1) s = some (v, r)) :
    ∃ (b : Blanks) (t : Tree), s = b.chars ++ t.text ++ r ∧ t.value = v := by
  rw [value?.eq_def] at hs
  dsimp only at hs
  split at hs
  · next u hu =>
    obtain ⟨⟨t, rest⟩, ht, hs⟩ := Option.map_eq_some_iff.mp hs
    cases hs
    obtain ⟨b, rfl⟩ := leadsTo_of_skip hu
    obtain ⟨ps, rfl, rfl⟩ := exists_string ht
    exact ⟨b, .string ps, by simp [Tree.text], rfl⟩
  · next u hu =>
    obtain ⟨⟨vs, rest⟩, hitems, hs⟩ := Option.map_eq_some_iff.mp hs
    cases hs
    obtain ⟨b, rfl⟩ := leadsTo_of_skip hu
    rcases h.firstItems hitems with ⟨⟨a, rfl⟩, rfl⟩ | ⟨items, rfl, rfl⟩
    · exact ⟨b, .emptyArray a, by simp [Tree.text], rfl⟩
    · exact ⟨b, .array items, by simp [Tree.text], rfl⟩
  · next u hu =>
    obtain ⟨⟨es, rest⟩, hmembers, hs⟩ := Option.map_eq_some_iff.mp hs
    cases hs
    obtain ⟨b, rfl⟩ := leadsTo_of_skip hu
    rcases h.firstMembers hmembers with ⟨⟨a, rfl⟩, rfl⟩ | ⟨members, rfl, rfl⟩
    · exact ⟨b, .emptyObject a, by simp [Tree.text], rfl⟩
    · exact ⟨b, .object members, by simp [Tree.text], rfl⟩
  · obtain ⟨b, hb⟩ := exists_skip s
    obtain ⟨a, ha, rfl⟩ := exists_atom hs
    exact ⟨b, .atom a, by rw [hb, ha, List.append_assoc]; rfl, rfl⟩

/-- Whatever has been read is spelled by a tree, by induction on the fuel. -/
theorem spelled (n : Nat) : Spelled n := by
  induction n with
  | zero => constructor <;> intros <;> contradiction
  | succ n ih =>
    exact {
      value := ih.succ_value
      firstItems := ih.succ_firstItems
      items := ih.succ_items
      firstMembers := ih.succ_firstMembers
      members := ih.succ_members
      member := ih.succ_member }

/-- The reader gives a text the value of the trees that spell it, and no other text has one. -/
theorem read?_eq_some_iff {v : Value} :
    read? s = some v ↔ ∃ d : Document, d.text = s ∧ d.root.value = v := by
  constructor
  · intro h
    rw [read?] at h
    split at h
    · next w rest hvalue =>
      split at h
      · next hrest =>
        cases h
        obtain ⟨b, t, rfl, rfl⟩ := (spelled _).value hvalue
        obtain ⟨a, ha⟩ := exists_skip rest
        rw [List.isEmpty_iff.mp hrest, List.append_nil] at ha
        exact ⟨⟨b, t, a⟩, by rw [ha]; rfl, rfl⟩
      · cases h
    · cases h
  · rintro ⟨d, rfl, rfl⟩
    have hends : EndsNumber d.after.chars := by
      simpa using endsNumber_append d.after endsNumber_nil
    have hskip : skip d.after.chars = [] := by
      simpa [skip] using skip_blanks d.after []
    rw [read?, Document.text, List.append_assoc, value?_blanks, d.root.value?_text ?_ hends]
    · simp [hskip]
    · simp only [List.length_append]
      omega

end RowModel.Json
