import RowModel.Proofs.Document.Reading
import RowModel.Proofs.Json.Tokens

/-!
The nodes that the tokens of a JSON text spell. The tree of nodes is that of the text if each name is a
key and the collections are not too deep inside one another; else reading fails
(`Document.readNode_stored`).
-/
namespace RowModel.Json

open Yaml (Node Source Tag Token locate)
open Yaml.Node (Place Read Reader readContent readFlowEntries readFlowEntry readFlowItem
  readFlowItems readUnless readValue)

def IsText (ps : List Part) (x : Node) : Prop := ∃ n, x = .scalar n .str (foldedValue ps).toList

mutual

/-- A node is that of a tree, whatever its number. -/
def Tree.Mirrors : Tree → Node → Prop
  | .atom a, x => ∃ n, x = .scalar n (Tag.implicit a.text) a.text
  | .string ps, x => IsText ps x
  | .emptyArray _, x => ∃ n, x = .sequence n .seq []
  | .array items, x => ∃ n xs, x = .sequence n .seq xs ∧ items.Mirrors xs
  | .emptyObject _, x => ∃ n, x = .mapping n .map []
  | .object members, x => ∃ n es, x = .mapping n .map es ∧ members.Mirrors es

def Items.Mirrors : Items → List Node → Prop
  | .last _ t _, xs => ∃ x, xs = [x] ∧ t.Mirrors x
  | .more _ t _ others, xs => ∃ x ys, xs = x :: ys ∧ t.Mirrors x ∧ others.Mirrors ys

def Members.Mirrors : Members → List (Node × Node) → Prop
  | .last l _ t _, es => ∃ k x, es = [(k, x)] ∧ IsText l.parts k ∧ t.Mirrors x
  | .more l _ t _ others, es =>
    ∃ k x fs, es = (k, x) :: fs ∧ IsText l.parts k ∧ t.Mirrors x ∧ others.Mirrors fs

end

/-- Reading gives what meets a condition and leaves these tokens if `p` holds, and else it fails. -/
def Gets {α : Type} (p : Prop) (post : α → Prop) (tokens : List Token) (depth : Nat) (x : Read α) :
    Prop :=
  (p ∧ ∃ a count, x = .ok (a, ⟨tokens, [], count, depth⟩) ∧ post a) ∨ ¬p ∧ ∃ f, x = .error f

def Opens (t : Token) : Prop :=
  (∃ text plain, t = .scalar text plain) ∨ t = .flowSequence ∨ t = .flowMapping

theorem Gets.of_iff {α : Type} {p q : Prop} {post : α → Prop} {ts : List Token} {depth : Nat}
    {x : Read α} (h : Gets p post ts depth x) (hpq : p ↔ q) : Gets q post ts depth x := by
  rwa [← propext hpq]

theorem Gets.imp {α : Type} {p : Prop} {post post' : α → Prop} {ts : List Token} {depth : Nat}
    {x : Read α} (h : Gets p post ts depth x) (h' : ∀ a, post a → post' a) :
    Gets p post' ts depth x :=
  h.imp_left fun ⟨hp, a, count, heq, hpost⟩ => ⟨hp, a, count, heq, h' a hpost⟩

section

variable [Machine] {handles : Yaml.Handles} {n count depth : Nat} {ts : List Token} {t : Token}

/-- Where no properties stand, the content of a node is read unless it is too deep. -/
theorem read_eq (ht : Opens t) (n : Nat) (place : Place) :
    Node.read handles (n + 1) place ⟨t :: ts, [], count, depth⟩ =
      if Machine.reading < depth then .error .tooDeep
      else readContent handles n place ⟨none, none⟩ ⟨t :: ts, [], count, depth + 1⟩ := by
  rcases ht with ⟨text, plain, rfl⟩ | rfl | rfl
  all_goals
    rw [Node.read]
    simp only [Reader.properties, Reader.isTaken, Option.any_none, Bool.false_eq_true, if_false,
      Reader.deeper, Reader.name]
    congr 1
    split <;> next h => exact h.symm

theorem read_scalar (n : Nat) (place : Place) (text : List Char) (plain : Bool) :
    Node.read handles (n + 2) place ⟨.scalar text plain :: ts, [], count, depth⟩ =
      if Machine.reading < depth then .error .tooDeep
      else .ok (.scalar (count + 1) (Node.scalarTag none plain text) text,
        ⟨ts, [], count + 1, depth⟩) := by
  rw [read_eq (.inl ⟨text, plain, rfl⟩), readContent]
  rfl

/-- An item of an array is read, and then the others. -/
theorem readFlowItems_cons (ht : Opens t) (n : Nat) (first : Bool) :
    readFlowItems handles (n + 2) first
        ⟨(if first then [] else [.comma]) ++ t :: ts, [], count, depth⟩ =
      match Node.read handles n .flow ⟨t :: ts, [], count, depth⟩ with
      | .error f => .error f
      | .ok (item, r) =>
        match readFlowItems handles (n + 1) false r with
        | .error f => .error f
        | .ok (items, r) => .ok (item :: items, r) := by
  rcases ht with ⟨text, plain, rfl⟩ | rfl | rfl
  all_goals
    cases first
    all_goals
      rw [readFlowItems]
      rfl

/-- A member with a key is read, and then the others. -/
theorem readFlowEntries_key (ht : Opens t) (n : Nat) (first : Bool) (text : List Char) :
    readFlowEntries handles (n + 5) first
        ⟨(if first then [] else [.comma]) ++ .key :: .scalar text false :: .value :: t :: ts, [], count,
          depth⟩ =
      if Machine.reading < depth then .error .tooDeep
      else
        match Node.read handles (n + 1) .flow ⟨t :: ts, [], count + 1, depth⟩ with
        | .error f => .error f
        | .ok (x, r) =>
          match readFlowEntries handles (n + 4) false r with
          | .error f => .error f
          | .ok (es, r) => .ok ((.scalar (count + 1) .str text, x) :: es, r) := by
  have hends : ∀ m, readUnless handles (m + 1) [.comma, .flowMappingEnd] .flow
      ⟨t :: ts, [], count + 1, depth⟩ = Node.read handles m .flow ⟨t :: ts, [], count + 1, depth⟩ := by
    intro m
    rw [readUnless, if_neg]
    rcases ht with ⟨_, _, rfl⟩ | rfl | rfl <;> simp [Reader.nextIn, Reader.next]
  have hkey : readUnless handles (n + 3) [.value, .comma, .flowMappingEnd] .flow
      ⟨.scalar text false :: .value :: t :: ts, [], count, depth⟩ =
      Node.read handles (n + 2) .flow ⟨.scalar text false :: .value :: t :: ts, [], count, depth⟩ := by
    rw [readUnless, if_neg]
    simp [Reader.nextIn, Reader.next]
  have hentry : readFlowEntry handles (n + 4)
      ⟨.key :: .scalar text false :: .value :: t :: ts, [], count, depth⟩ =
      if Machine.reading < depth then .error .tooDeep
      else
        match Node.read handles (n + 1) .flow ⟨t :: ts, [], count + 1, depth⟩ with
        | .error f => .error f
        | .ok (x, r) => .ok ((.scalar (count + 1) .str text, x), r) := by
    rw [readFlowEntry]
    simp only [Reader.dropTo, hkey, read_scalar]
    by_cases hd : Machine.reading < depth
    · simp only [if_pos hd]
    · simp only [if_neg hd, readValue, Reader.dropTo, hends]
      rfl
  cases first
  all_goals
    rw [readFlowEntries]
    simp only [Reader.comma, Reader.dropTo, if_true, Bool.false_eq_true, if_false, List.cons_append,
      List.nil_append, hentry]
    by_cases hd : Machine.reading < depth
    · simp only [if_pos hd]
    · simp only [if_neg hd]
      cases Node.read handles (n + 1) .flow ⟨t :: ts, [], count + 1, depth⟩ <;> rfl

/-- A name that is no key is not followed by a comma. -/
theorem readFlowEntries_value (handles : Yaml.Handles) (n : Nat) (first : Bool) (text : List Char)
    (ts : List Token) (count depth : Nat) :
    ∃ f, readFlowEntries handles (n + 4) first
        ⟨(if first then [] else [.comma]) ++ .scalar text false :: .value :: ts, [], count, depth⟩ =
      .error f := by
  have hrest : readFlowEntries handles (n + 3) false ⟨.value :: ts, [], count + 1, depth⟩ =
      .error .illFormed := by
    rw [readFlowEntries]
    rfl
  cases first
  all_goals
    rw [readFlowEntries]
    simp only [Reader.comma, Reader.dropTo, if_true, Bool.false_eq_true, if_false, List.cons_append,
      List.nil_append, readFlowEntry, read_scalar]
    by_cases hd : Machine.reading < depth
    · simp only [if_pos hd]
      exact ⟨_, rfl⟩
    · simp only [if_neg hd, hrest]
      exact ⟨_, rfl⟩

variable {rest : List Token} {p q : Prop}

/-- A scalar is read if it does not stand too deep. -/
theorem gets_scalar (n : Nat) (place : Place) (text : List Char) (plain : Bool) :
    Gets (depth ≤ Machine.reading) (fun x => ∃ k, x = .scalar k (Node.scalarTag none plain text) text) ts
      depth (Node.read handles (n + 2) place ⟨.scalar text plain :: ts, [], count, depth⟩) := by
  rw [read_scalar]
  by_cases hd : Machine.reading < depth
  · exact .inr ⟨Nat.not_le.mpr hd, _, if_pos hd⟩
  · exact .inl ⟨Nat.not_lt.mp hd, _, _, if_neg hd, _, rfl⟩

/-- Brackets around items make a sequence, unless it is too deep. -/
theorem Gets.sequence {post : List Node → Prop}
    (h : Gets p post rest (depth + 1) (readFlowItems handles n true ⟨ts, [], count, depth + 1⟩))
    (place : Place) :
    Gets (depth ≤ Machine.reading ∧ p) (fun x => ∃ k xs, x = .sequence k .seq xs ∧ post xs) rest depth
      (Node.read handles (n + 2) place ⟨.flowSequence :: ts, [], count, depth⟩) := by
  rw [read_eq (.inr (.inl rfl))]
  by_cases hd : Machine.reading < depth
  · exact .inr ⟨fun hp => absurd hp.1 (Nat.not_le.mpr hd), _, if_pos hd⟩
  · rw [if_neg hd, readContent]
    simp only [Reader.dropTo]
    rcases h with ⟨hp, xs, count', heq, hpost⟩ | ⟨hp, f, heq⟩
    · simp only [heq]
      exact .inl ⟨⟨Nat.not_lt.mp hd, hp⟩, _, _, rfl, _, xs, rfl, hpost⟩
    · simp only [heq]
      exact .inr ⟨fun h => hp h.2, f, rfl⟩

/-- Braces around members make a mapping, unless it is too deep. -/
theorem Gets.mapping {post : List (Node × Node) → Prop}
    (h : Gets p post rest (depth + 1) (readFlowEntries handles n true ⟨ts, [], count, depth + 1⟩))
    (place : Place) :
    Gets (depth ≤ Machine.reading ∧ p) (fun x => ∃ k es, x = .mapping k .map es ∧ post es) rest depth
      (Node.read handles (n + 2) place ⟨.flowMapping :: ts, [], count, depth⟩) := by
  rw [read_eq (.inr (.inr rfl))]
  by_cases hd : Machine.reading < depth
  · exact .inr ⟨fun hp => absurd hp.1 (Nat.not_le.mpr hd), _, if_pos hd⟩
  · rw [if_neg hd, readContent]
    simp only [Reader.dropTo]
    rcases h with ⟨hp, es, count', heq, hpost⟩ | ⟨hp, f, heq⟩
    · simp only [heq]
      exact .inl ⟨⟨Nat.not_lt.mp hd, hp⟩, _, _, rfl, _, es, rfl, hpost⟩
    · simp only [heq]
      exact .inr ⟨fun h => hp h.2, f, rfl⟩

/-- An item and those after it. -/
theorem Gets.items {post : Node → Prop} {others : List Node → Prop} (first : Bool)
    {after : List Token} (ht : Opens t)
    (h : Gets p post after depth (Node.read handles n .flow ⟨t :: ts, [], count, depth⟩))
    (h' : ∀ count, Gets q others rest depth
      (readFlowItems handles (n + 1) false ⟨after, [], count, depth⟩)) :
    Gets (p ∧ q) (fun xs => ∃ x ys, xs = x :: ys ∧ post x ∧ others ys) rest depth
      (readFlowItems handles (n + 2) first
        ⟨(if first then [] else [.comma]) ++ t :: ts, [], count, depth⟩) := by
  rw [readFlowItems_cons ht]
  rcases h with ⟨hp, x, count', heq, hpost⟩ | ⟨hp, f, heq⟩
  · simp only [heq]
    rcases h' count' with ⟨hq, ys, count'', heq', hothers⟩ | ⟨hq, f, heq'⟩
    · simp only [heq']
      exact .inl ⟨⟨hp, hq⟩, _, _, rfl, x, ys, rfl, hpost, hothers⟩
    · simp only [heq']
      exact .inr ⟨fun h => hq h.2, f, rfl⟩
  · simp only [heq]
    exact .inr ⟨fun h => hp h.1, f, rfl⟩

/-- A member and those after it. -/
theorem Gets.members {l : Label} {post : Node → Prop} {others : List (Node × Node) → Prop}
    (first : Bool) {after : List Token} (ht : Opens t)
    (h : ∀ count, Gets p post after depth
      (Node.read handles (n + 1) .flow ⟨t :: ts, [], count, depth⟩))
    (h' : ∀ count, Gets q others rest depth
      (readFlowEntries handles (n + 4) false ⟨after, [], count, depth⟩)) :
    Gets (l.isKey = true ∧ depth ≤ Machine.reading ∧ p ∧ q)
      (fun es => ∃ k x fs, es = (k, x) :: fs ∧ IsText l.parts k ∧ post x ∧ others fs) rest depth
      (readFlowEntries handles (n + 5) first
        ⟨(if first then [] else [.comma]) ++ (l.tokens ++ t :: ts), [], count, depth⟩) := by
  cases hkey : l.isKey with
  | false =>
    obtain ⟨f, hf⟩ := readFlowEntries_value handles (n + 1) first (foldedValue l.parts).toList (t :: ts)
      count depth
    refine .inr ⟨fun h => Bool.false_ne_true h.1, f, ?_⟩
    rw [Label.tokens, hkey]
    exact hf
  | true =>
    rw [Label.tokens, hkey, if_pos rfl]
    simp only [List.cons_append, List.nil_append]
    rw [readFlowEntries_key ht]
    by_cases hd : Machine.reading < depth
    · exact .inr ⟨fun h => absurd h.2.1 (Nat.not_le.mpr hd), _, if_pos hd⟩
    · rw [if_neg hd]
      rcases h (count + 1) with ⟨hp, x, count', heq, hpost⟩ | ⟨hp, f, heq⟩
      · simp only [heq]
        rcases h' count' with ⟨hq, fs, count'', heq', hothers⟩ | ⟨hq, f, heq'⟩
        · simp only [heq']
          exact .inl ⟨⟨trivial, Nat.not_lt.mp hd, hp, hq⟩, _, _, rfl, _, x, fs, rfl, ⟨_, rfl⟩, hpost,
            hothers⟩
        · simp only [heq']
          exact .inr ⟨fun h => hq h.2.2.2, f, rfl⟩
      · simp only [heq]
        exact .inr ⟨fun h => hp h.2.2.1, f, rfl⟩

end

theorem Tree.exists_tokens (t : Tree) : ∃ u ts, t.tokens = u :: ts ∧ Opens u := by
  cases t with
  | atom a => exact ⟨_, _, rfl, .inl ⟨_, _, rfl⟩⟩
  | string ps => exact ⟨_, _, rfl, .inl ⟨_, _, rfl⟩⟩
  | emptyArray | array => exact ⟨_, _, rfl, .inr (.inl rfl)⟩
  | emptyObject | object => exact ⟨_, _, rfl, .inr (.inr rfl)⟩

/-- What is one level deeper may stand around one collection less. -/
theorem deeper_iff {limit depth height : Nat} (p : Prop) :
    depth ≤ limit ∧ p ∧ depth + 1 + height ≤ limit ↔
      p ∧ depth + (height + 1) ≤ limit :=
  ⟨fun ⟨_, hp, h⟩ => ⟨hp, by omega⟩, fun ⟨hp, h⟩ => ⟨by omega, hp, by omega⟩⟩

/-- Of several nodes the deepest counts. -/
theorem deepest_iff {limit depth height height' : Nat} (p p' : Prop) :
    (p ∧ depth + height ≤ limit) ∧ p' ∧ depth + height' ≤ limit ↔
      (p ∧ p') ∧ depth + max height height' ≤ limit :=
  ⟨fun ⟨⟨hp, h⟩, hp', h'⟩ => ⟨⟨hp, hp'⟩, by omega⟩,
    fun ⟨⟨hp, hp'⟩, h⟩ => ⟨⟨hp, by omega⟩, hp', by omega⟩⟩

theorem Tree.tokens_pos (t : Tree) : 0 < t.tokens.length := by
  obtain ⟨u, ts, hts, -⟩ := t.exists_tokens
  rw [hts]
  exact Nat.succ_pos _

/-- The name stands as deep as its value. -/
theorem member_iff {limit depth height : Nat} (p q : Prop) :
    p ∧ depth ≤ limit ∧ q ∧ depth + height ≤ limit ↔
      (p ∧ q) ∧ depth + height ≤ limit :=
  ⟨fun ⟨hp, _, hq, h⟩ => ⟨⟨hp, hq⟩, h⟩, fun ⟨⟨hp, hq⟩, h⟩ => ⟨hp, by omega, hq, h⟩⟩

@[simp] theorem Piece.isKeyed_blanks (b : Blanks) : (blanks b).isKeyed = true := rfl

/-- Of a name only its own piece can keep it from being a key. -/
theorem Label.isKeyed_pieces (l : Label) : (∀ p ∈ l.pieces, p.isKeyed = true) ↔ l.isKey = true := by
  simp [pieces, Piece.isKeyed]

theorem Label.length_tokens (l : Label) : 2 ≤ l.tokens.length := by
  simp [Label.tokens]

section

variable [Machine]

mutual

/-- From the tokens of a tree its nodes are read, if they can be. -/
theorem Tree.read_tokens (t : Tree) (handles : Yaml.Handles) {n : Nat} (hn : 4 * t.tokens.length ≤ n)
    (place : Place) (rest : List Token) (count depth : Nat) :
    Gets ((∀ p ∈ t.pieces, p.isKeyed = true) ∧ depth + t.height ≤ Machine.reading) t.Mirrors rest depth
      (Node.read handles n place ⟨t.tokens ++ rest, [], count, depth⟩) := by
  obtain ⟨m, rfl⟩ : ∃ m, n = m + 2 := ⟨n - 2, by have := t.tokens_pos; omega⟩
  match t with
  | .atom a =>
    refine (gets_scalar m place a.text true).of_iff ?_
    cases a <;> simp [Tree.pieces, Atom.pieces, Piece.isKeyed, Tree.height]
  | .string ps =>
    refine (gets_scalar m place (foldedValue ps).toList false).of_iff ?_
    simp [Tree.pieces, Piece.isKeyed, Tree.height]
  | .emptyArray b =>
    have hnone : Gets True (· = []) rest (depth + 1)
        (readFlowItems handles m true ⟨[.flowSequenceEnd] ++ rest, [], count, depth + 1⟩) := by
      obtain ⟨k, rfl⟩ : ∃ k, m = k + 1 := ⟨m - 1, by simp [Tree.tokens] at hn; omega⟩
      exact .inl ⟨trivial, [], count, by rw [readFlowItems]; rfl, rfl⟩
    have hread := hnone.sequence place
    simp only [exists_eq_right] at hread
    refine Gets.of_iff hread ?_
    simp [Tree.pieces, Piece.isKeyed, Tree.height]
  | .array items =>
    have hitems := items.read_tokens handles (n := m) (by simp [Tree.tokens] at hn; omega) true rest
      count (depth + 1)
    exact (hitems.sequence place).of_iff (deeper_iff _)
  | .emptyObject b =>
    have hnone : Gets True (· = []) rest (depth + 1)
        (readFlowEntries handles m true ⟨[.flowMappingEnd] ++ rest, [], count, depth + 1⟩) := by
      obtain ⟨k, rfl⟩ : ∃ k, m = k + 1 := ⟨m - 1, by simp [Tree.tokens] at hn; omega⟩
      exact .inl ⟨trivial, [], count, by rw [readFlowEntries]; rfl, rfl⟩
    have hread := hnone.mapping place
    simp only [exists_eq_right] at hread
    refine Gets.of_iff hread ?_
    simp [Tree.pieces, Piece.isKeyed, Tree.height]
  | .object members =>
    have hmembers := members.read_tokens handles (n := m) (by simp [Tree.tokens] at hn; omega) true
      rest count (depth + 1)
    exact (hmembers.mapping place).of_iff (deeper_iff _)

theorem Items.read_tokens (items : Items) (handles : Yaml.Handles) {n : Nat}
    (hn : 4 * items.tokens.length ≤ n) (first : Bool) (rest : List Token) (count depth : Nat) :
    Gets ((∀ p ∈ items.pieces, p.isKeyed = true) ∧ depth + items.height ≤ Machine.reading) items.Mirrors rest
      depth (readFlowItems handles n first
        ⟨(if first then [] else [.comma]) ++ (items.tokens ++ rest), [], count, depth⟩) := by
  match items with
  | .last b t a =>
    obtain ⟨m, rfl⟩ : ∃ m, n = m + 2 := ⟨n - 2, by simp [Items.tokens] at hn; omega⟩
    obtain ⟨u, us, hu, hopens⟩ := t.exists_tokens
    have hread := t.read_tokens handles (n := m) (by simp [Items.tokens] at hn; omega) .flow
      (.flowSequenceEnd :: rest) count depth
    have hend : ∀ count, Gets True (· = []) rest depth
        (readFlowItems handles (m + 1) false ⟨.flowSequenceEnd :: rest, [], count, depth⟩) :=
      fun count => .inl ⟨trivial, [], count, by rw [readFlowItems]; rfl, rfl⟩
    have htokens : (Items.last b t a).tokens ++ rest = u :: (us ++ .flowSequenceEnd :: rest) := by
      simp [Items.tokens, hu]
    rw [hu] at hread
    rw [htokens]
    refine (Gets.items first hopens hread hend).imp ?_ |>.of_iff ?_
    · rintro _ ⟨x, _, rfl, hx, rfl⟩
      exact ⟨x, rfl, hx⟩
    · simp [Items.pieces, Items.height, Piece.isKeyed, or_imp, forall_and]
  | .more b t a others =>
    obtain ⟨m, rfl⟩ : ∃ m, n = m + 2 := ⟨n - 2, by simp [Items.tokens] at hn; omega⟩
    obtain ⟨u, us, hu, hopens⟩ := t.exists_tokens
    have hread := t.read_tokens handles (n := m) (by simp [Items.tokens] at hn; omega) .flow
      (.comma :: (others.tokens ++ rest)) count depth
    have hothers := others.read_tokens handles (n := m + 1) (by simp [Items.tokens] at hn; omega) false
      rest
    have htokens : (Items.more b t a others).tokens ++ rest =
        u :: (us ++ .comma :: (others.tokens ++ rest)) := by
      simp [Items.tokens, hu]
    rw [hu] at hread
    rw [htokens]
    refine (Gets.items first hopens hread fun count => hothers count depth).of_iff ?_
    rw [deepest_iff]
    simp [Items.pieces, Items.height, Piece.isKeyed, or_imp, forall_and]

theorem Members.read_tokens (members : Members) (handles : Yaml.Handles) {n : Nat}
    (hn : 4 * members.tokens.length ≤ n) (first : Bool) (rest : List Token) (count depth : Nat) :
    Gets ((∀ p ∈ members.pieces, p.isKeyed = true) ∧ depth + members.height ≤ Machine.reading)
      members.Mirrors rest depth (readFlowEntries handles n first
        ⟨(if first then [] else [.comma]) ++ (members.tokens ++ rest), [], count, depth⟩) := by
  match members with
  | .last l b t a =>
    have hlabel := l.length_tokens
    obtain ⟨m, rfl⟩ : ∃ m, n = m + 5 := ⟨n - 5, by simp [Members.tokens] at hn; omega⟩
    obtain ⟨u, us, hu, hopens⟩ := t.exists_tokens
    have hread := t.read_tokens handles (n := m + 1) (by simp [Members.tokens] at hn; omega) .flow
      (.flowMappingEnd :: rest)
    have hend : ∀ count, Gets True (· = []) rest depth
        (readFlowEntries handles (m + 4) false ⟨.flowMappingEnd :: rest, [], count, depth⟩) :=
      fun count => .inl ⟨trivial, [], count, by rw [readFlowEntries]; rfl, rfl⟩
    have htokens : (Members.last l b t a).tokens ++ rest =
        l.tokens ++ u :: (us ++ .flowMappingEnd :: rest) := by
      simp [Members.tokens, hu]
    rw [hu] at hread
    rw [htokens]
    refine (Gets.members first hopens (fun count => hread count depth) hend).imp ?_
      |>.of_iff ?_
    · rintro _ ⟨k, x, _, rfl, hk, hx, rfl⟩
      exact ⟨k, x, rfl, hk, hx⟩
    · simp only [Members.pieces, Members.height, List.forall_mem_append, List.forall_mem_cons,
        List.not_mem_nil, false_implies, implies_true, l.isKeyed_pieces, Piece.isKeyed_blanks, and_true,
        true_and]
      exact member_iff _ _
  | .more l b t a others =>
    have hlabel := l.length_tokens
    obtain ⟨m, rfl⟩ : ∃ m, n = m + 5 := ⟨n - 5, by simp [Members.tokens] at hn; omega⟩
    obtain ⟨u, us, hu, hopens⟩ := t.exists_tokens
    have hread := t.read_tokens handles (n := m + 1) (by simp [Members.tokens] at hn; omega) .flow
      (.comma :: (others.tokens ++ rest))
    have hothers := others.read_tokens handles (n := m + 4)
      (by simp [Members.tokens] at hn; omega) false rest
    have htokens : (Members.more l b t a others).tokens ++ rest =
        l.tokens ++ u :: (us ++ .comma :: (others.tokens ++ rest)) := by
      simp [Members.tokens, hu]
    rw [hu] at hread
    rw [htokens]
    refine (Gets.members first hopens (fun count => hread count depth)
      fun count => hothers count depth).of_iff ?_
    rw [deepest_iff, member_iff]
    simp only [Members.pieces, Members.height, List.forall_mem_append, List.forall_mem_cons,
      l.isKeyed_pieces, Piece.isKeyed_blanks, true_and, and_assoc]

end

/-- Without the end of the stream tokens spell no document. -/
theorem streamEnd_of_ofTokens {tokens : List Token} {x : Option Node}
    (h : Node.ofTokens tokens = .ok x) : .streamEnd ∈ tokens := by
  unfold Node.ofTokens at h
  split at h
  · next hhead => exact List.mem_of_mem_head? hhead
  · have hread := Node.keeps_readDocument (4 * tokens.length + 8) (Node.fits_start tokens)
    split at h
    · cases h
    · next node r hr =>
      rw [hr] at hread
      obtain ⟨nodes, hnodes, -⟩ := hread
      split at h
      · cases h
      · next hend =>
        unfold Node.endOfStream at hend
        dsimp only at hend
        split at hend
        · next hnext =>
          have hhead : (r.tokens.dropWhile (· == .documentEnd)).head? = some .streamEnd := by
            simpa [Reader.next, Reader.dropTo] using hnext
          exact hnodes.tokens.mem ((List.dropWhile_suffix _).mem (List.mem_of_mem_head? hhead))
        · split at hend <;> cases hend

/-- The document that the tokens of an object spell. -/
theorem Tree.ofTokens_tokens {t : Tree} (ht : t.isObject = true) :
    ((∀ p ∈ t.pieces, p.isKeyed = true) ∧ t.height ≤ Machine.reading) ∧
        (∃ x, Node.ofTokens (t.tokens ++ [.streamEnd]) = .ok (some x) ∧ t.Mirrors x) ∨
      ¬((∀ p ∈ t.pieces, p.isKeyed = true) ∧ t.height ≤ Machine.reading) ∧
        ∀ x, Node.ofTokens (t.tokens ++ [.streamEnd]) ≠ .ok x := by
  obtain ⟨ts, hts⟩ : ∃ ts, t.tokens = .flowMapping :: ts := by
    match t with
    | .emptyObject _ | .object _ => exact ⟨_, rfl⟩
  have hread := t.read_tokens Yaml.defaultHandles
    (n := 4 * (t.tokens ++ [Token.streamEnd]).length + 8) (by simp; omega) .block [.streamEnd] 0 0
  rw [Nat.zero_add] at hread
  have hhead : (t.tokens ++ [Token.streamEnd]).head? ≠ some .streamEnd := by simp [hts]
  have hdocument : Node.readDocument (4 * (t.tokens ++ [Token.streamEnd]).length + 8)
      ⟨t.tokens ++ [.streamEnd], [], 0, 0⟩ =
      Node.read Yaml.defaultHandles (4 * (t.tokens ++ [Token.streamEnd]).length + 8) .block
        ⟨t.tokens ++ [.streamEnd], [], 0, 0⟩ := by
    rw [hts]
    rfl
  rcases hread with ⟨hp, x, count, heq, hx⟩ | ⟨hp, f, heq⟩
  · refine .inl ⟨hp, x, ?_, hx⟩
    rw [Node.ofTokens, if_neg hhead, hdocument, heq]
    rfl
  · refine .inr ⟨hp, fun x h => ?_⟩
    rw [Node.ofTokens, if_neg hhead, hdocument, heq] at h
    cases h

end

theorem Document.head_text {doc : Document} (ht : doc.root.isObject = true) :
    doc.text.head? ≠ some '\ufeff' := by
  obtain ⟨u, hu⟩ : ∃ u, doc.root.text = '\x7b' :: u := by
    match doc.root, ht with
    | .emptyObject _, _ | .object _, _ => exact ⟨_, rfl⟩
  intro h
  rw [Document.text, hu] at h
  cases hchars : doc.before.chars with
  | nil =>
    rw [hchars] at h
    cases h
  | cons c r =>
    have hblank := doc.before.areBlank c (hchars ▸ List.mem_cons_self)
    rw [hchars] at h
    cases h
    cases hblank

/-- The source of a text in stored form. -/
theorem ofText?_stored {s : List Char} (hs : s.head? ≠ some '\ufeff') :
    Source.ofText? (Text.stored s) = if s.all Yaml.isAllowed then some (locate 0 0 0 s) else none := by
  have hchars : (Text.toUnits (Text.stored s)).map Char.ofNat = s := by
    rw [Text.toUnits_stored, List.map_map]
    simp [Function.comp_def]
  simp only [Source.ofText?, hchars, if_neg hs]

/-- The tree of nodes of a text that denotes an object, if there is one. -/
theorem Document.readNode_stored [Machine] (doc : Document) (ht : doc.root.isObject = true) :
    doc.IsFound ∧ (∃ x, Yaml.readNode (Text.stored doc.text) = .ok (some x) ∧ doc.root.Mirrors x) ∨
      ¬doc.IsFound ∧ ∀ x, Yaml.readNode (Text.stored doc.text) ≠ .ok x := by
  have hkeyed : (∀ p ∈ doc.pieces, p.isKeyed = true) ↔ ∀ p ∈ doc.root.pieces, p.isKeyed = true := by
    simp [Document.pieces, or_imp, forall_and]
  rw [Yaml.readNode, ofText?_stored (Document.head_text ht)]
  by_cases hallowed : doc.text.all Yaml.isAllowed = true
  · rw [if_pos hallowed]
    dsimp only
    rcases doc.ofSource_text ht with ⟨hscanned, htokens⟩ | ⟨hscanned, hend⟩
    · rw [htokens]
      rcases Tree.ofTokens_tokens ht with ⟨⟨hkeys, hheight⟩, hx⟩ | ⟨hp, hx⟩
      · exact .inl ⟨⟨List.all_eq_true.mp hallowed, hscanned, hkeyed.mpr hkeys, hheight⟩, hx⟩
      · exact .inr ⟨fun h => hp ⟨hkeyed.mp h.keyed, h.shallow⟩, hx⟩
    · exact .inr ⟨fun h => hscanned h.scanned, fun x hx => hend (streamEnd_of_ofTokens hx)⟩
  · rw [if_neg hallowed]
    exact .inr ⟨fun h => hallowed (List.all_eq_true.mpr h.allowed), fun x h => by cases h⟩

end RowModel.Json
