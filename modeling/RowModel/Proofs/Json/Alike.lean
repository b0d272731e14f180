import RowModel.Proofs.Document.Holding
import RowModel.Proofs.Json.Folding

/-!
When the reader of documents takes a JSON text for what it denotes: exactly if the tree is alike
(`Tree.read_eq_iff`). Of entries with one key only the last value counts.
-/
namespace RowModel.Json

open Value (find?)

/-- Entries that differ in what the first entry under a name holds. -/
inductive Differ (name : String) : List (Value × Value) → List (Value × Value) → Prop
  | here (v w : Value) (r : List (Value × Value)) :
    Differ name ((.str name, v) :: r) ((.str name, w) :: r)
  | there {e : Value × Value} {es fs : List (Value × Value)} (he : e.1 ≠ .str name)
    (h : Differ name es fs) : Differ name (e :: es) (e :: fs)

/-- Entries with the same keys, and with the same values where none of the entries after them has the
key. -/
def SameEntries : List (Value × Value) → List (Value × Value) → Prop
  | [], [] => True
  | (k, v) :: es, (k', v') :: fs =>
    k = k' ∧ (v = v' ∨ k' ∈ fs.map Prod.fst) ∧ SameEntries es fs
  | _, _ => False

def HasNames (es : List (Value × Value)) : Prop := ∀ e ∈ es, ∃ name, e.1 = .str name

variable {es fs acc acc' : List (Value × Value)} {k v w : Value} {name : String}

/-- Two values under one name make entries differ there. -/
theorem differ_insert (name : String) (v w : Value) (acc : List (Value × Value)) :
    Differ name (Value.insert (.str name) v acc) (Value.insert (.str name) w acc) := by
  induction acc with
  | nil => exact .here v w []
  | cons e r ih =>
    obtain ⟨k, u⟩ := e
    rw [Value.insert, Value.insert]
    by_cases hk : k = .str name
    · subst hk
      rw [if_pos (by simp), if_pos (by simp)]
      exact .here v w r
    · rw [if_neg (mt Value.sameKey_str_iff.mp hk), if_neg (mt Value.sameKey_str_iff.mp hk)]
      exact .there hk ih

/-- An entry with another key leaves the difference. -/
theorem Differ.insert_of_ne (h : Differ name es fs) (hk : k ≠ .str name) (v : Value) :
    Differ name (Value.insert k v es) (Value.insert k v fs) := by
  induction h with
  | here u w r =>
    have hsame : ¬(Value.str name).sameKey k = true := mt Value.str_sameKey_iff.mp hk
    rw [Value.insert, Value.insert, if_neg hsame, if_neg hsame]
    exact .here u w _
  | there he h ih =>
    rw [Value.insert, Value.insert]
    split
    · exact .there he h
    · exact .there he ih

theorem Differ.insert_self (h : Differ name es fs) (v : Value) :
    Value.insert (.str name) v es = Value.insert (.str name) v fs := by
  induction h with
  | here u w r => simp [Value.insert]
  | there he h ih =>
    have hsame := mt Value.sameKey_str_iff.mp he
    rw [Value.insert, Value.insert, if_neg hsame, if_neg hsame, ih]

/-- What is entered again later does not count. -/
theorem Differ.enter (h : Differ name acc acc') (hmem : .str name ∈ fs.map Prod.fst) :
    enter acc fs = enter acc' fs := by
  induction fs generalizing acc acc' with
  | nil => cases hmem
  | cons f fs ih =>
    obtain ⟨k, v⟩ := f
    change Json.enter (Value.insert k v acc) fs = Json.enter (Value.insert k v acc') fs
    by_cases hk : k = .str name
    · rw [hk, h.insert_self]
    · exact ih (h.insert_of_ne hk v) (List.mem_of_ne_of_mem (Ne.symm hk) hmem)

theorem find?_enter_insert (h : .str name ∉ fs.map Prod.fst) (v : Value) :
    find? name (enter (Value.insert (.str name) v acc) fs) = some v := by
  have habsent : ∀ e ∈ fs, e.1 ≠ .str name := fun e he heq =>
    h (List.mem_map.mpr ⟨e, he, heq⟩)
  rw [enter, Value.find?_foldl_insert_of_absent habsent, Value.find?_insert_self]

/-- Entries that differ only where a later one has the key are entered alike. -/
theorem SameEntries.enter (h : SameEntries es fs) (hfs : HasNames fs) (acc : List (Value × Value)) :
    enter acc es = enter acc fs := by
  induction es generalizing fs acc with
  | nil =>
    cases fs with
    | nil => rfl
    | cons f fs => exact h.elim
  | cons e es ih =>
    match fs with
    | [] => exact h.elim
    | f :: fs =>
      obtain ⟨k, v⟩ := e
      obtain ⟨k', w⟩ := f
      obtain ⟨rfl, hvalue, hrest⟩ := h
      obtain ⟨⟨name, hname⟩, hnames⟩ := List.forall_mem_cons.mp hfs
      obtain rfl : k = .str name := hname
      change Json.enter (Value.insert (.str name) v acc) es =
        Json.enter (Value.insert (.str name) w acc) fs
      rw [ih hrest hnames]
      rcases hvalue with rfl | hmem
      · rfl
      · exact (differ_insert name v w acc).enter hmem

/-- Entries that hold the same under each name are the same, if their keys are. -/
theorem sameEntries_of_find? (hkeys : es.map Prod.fst = fs.map Prod.fst) (hfs : HasNames fs)
    (h : ∀ name, find? name (enter acc es) = find? name (enter acc' fs)) : SameEntries es fs := by
  induction es generalizing fs acc acc' with
  | nil =>
    obtain rfl := List.map_eq_nil_iff.mp hkeys.symm
    trivial
  | cons e es ih =>
    obtain ⟨f, fs, rfl, hkey, hrest⟩ := List.map_eq_cons_iff.mp hkeys.symm
    obtain ⟨k, v⟩ := e
    obtain ⟨k', w⟩ := f
    obtain ⟨⟨name, hname⟩, hnames⟩ := List.forall_mem_cons.mp hfs
    obtain rfl : k' = k := hkey
    obtain rfl : k' = .str name := hname
    refine ⟨rfl, ?_, ih hrest.symm hnames h⟩
    by_cases hmem : .str name ∈ fs.map Prod.fst
    · exact .inr hmem
    · have hlast := h name
      change find? name (Json.enter (Value.insert (.str name) v acc) es) =
        find? name (Json.enter (Value.insert (.str name) w acc') fs) at hlast
      rw [find?_enter_insert hmem, find?_enter_insert (hrest ▸ hmem)] at hlast
      exact .inl (Option.some.inj hlast)

/-- A name is held exactly if it is entered. -/
theorem mem_keys_of_find? (h : find? name (enter [] es) ≠ none) : .str name ∈ es.map Prod.fst := by
  by_contra hmem
  have habsent : ∀ e ∈ es, e.1 ≠ .str name := fun e he heq =>
    hmem (List.mem_map.mpr ⟨e, he, heq⟩)
  exact h ((Value.find?_foldl_insert_of_absent habsent []).trans (Value.find?_nil name))

theorem find?_enter_ne_none (h : .str name ∈ es.map Prod.fst) (acc : List (Value × Value)) :
    find? name (enter acc es) ≠ none := by
  induction es generalizing acc with
  | nil => cases h
  | cons e es ih =>
    obtain ⟨k, v⟩ := e
    by_cases hmem : .str name ∈ es.map Prod.fst
    · exact ih hmem _
    · have hk : k = .str name := by
        rcases List.mem_cons.mp h with hk | h
        · exact hk.symm
        · exact absurd h hmem
      subst hk
      change find? name (Json.enter (Value.insert (.str name) v acc) es) ≠ none
      rw [find?_enter_insert hmem]
      exact nofun

theorem Numeral.value_ne_str (n : Numeral) (name : String) : n.value ≠ .str name := by
  unfold Numeral.value
  split <;> exact nofun

theorem Numeral.value_ne_map (n : Numeral) (es : List (Value × Value)) : n.value ≠ .map es := by
  unfold Numeral.value
  split <;> exact nofun

theorem Numeral.reading_eq_iff (n : Numeral) : n.reading = n.value ↔ n.isRecognised = true := by
  constructor
  · intro h
    by_contra hn
    rw [reading, if_neg hn] at h
    exact n.value_ne_str _ h.symm
  · intro h
    rw [reading, if_pos h]

theorem Atom.read_eq_iff (a : Atom) : Json.read.atom a = denoted.atom a ↔ a.Alike := by
  match a with
  | .null | .bool _ => exact iff_of_true rfl trivial
  | .number n => exact n.reading_eq_iff

theorem Label.key_eq_iff (l : Label) :
    Value.str (foldedValue l.parts) = .str l.name ↔ StringAlike l.parts :=
  Value.str.injEq _ _ ▸ foldedValue_eq_iff l.parts

namespace Leaves

variable (l : Leaves)

theorem keys_members : ∀ members : Members,
    (l.members members).map Prod.fst = members.labels.map fun name => .str (l.string name.parts)
  | .last .. => rfl
  | .more _ _ _ _ others => congrArg (_ :: ·) (keys_members others)

theorem hasNames_members (members : Members) : HasNames (l.members members) := by
  intro e he
  have hkey := List.mem_map_of_mem (f := Prod.fst) he
  rw [keys_members] at hkey
  obtain ⟨name, -, hname⟩ := List.mem_map.mp hkey
  exact ⟨_, hname.symm⟩

theorem mem_keys_members {members : Members} {name : String} :
    .str name ∈ (l.members members).map Prod.fst ↔
      ∃ label ∈ members.labels, l.string label.parts = name := by
  simp [keys_members]

end Leaves

theorem mem_names {members : Members} {name : String} :
    name ∈ members.names ↔ .str name ∈ (denoted.members members).map Prod.fst := by
  rw [Leaves.mem_keys_members]
  exact List.mem_map

theorem Members.label_mem_pieces : ∀ {members : Members} {l : Label},
    l ∈ members.labels → .label l ∈ members.pieces
  | .last .., _, h => by
    rw [List.mem_singleton.mp h]
    simp [Members.pieces, Label.pieces]
  | .more _ _ _ _ others, _, h => by
    rcases List.mem_cons.mp h with rfl | h
    · simp [Members.pieces, Label.pieces]
    · simp [Members.pieces, others.label_mem_pieces h]

/-- Names that can be keys are read as what they denote if each is read as what some name denotes. -/
theorem keys_eq_of_found {members : Members} (hk : ∀ p ∈ members.pieces, p.isKeyed = true)
    (h : enter [] (Json.read.members members) = enter [] (denoted.members members)) :
    (Json.read.members members).map Prod.fst = (denoted.members members).map Prod.fst := by
  rw [Leaves.keys_members, Leaves.keys_members]
  refine List.map_congr_left fun l hl => congrArg Value.str ?_
  have hfound := find?_enter_ne_none (Json.read.mem_keys_members.mpr ⟨l, hl, rfl⟩) []
  rw [h] at hfound
  obtain ⟨l', -, hl'⟩ := denoted.mem_keys_members.mp (mem_keys_of_find? hfound)
  have hkey : l.isKey = true := hk _ (Members.label_mem_pieces hl)
  exact (foldedValue_eq_iff _).mpr (stringAlike_of_oneLine (Label.oneLine hkey) hl'.symm)

mutual

/-- A tree whose names can be keys is read as what it denotes exactly if it is alike. -/
theorem Tree.read_eq_iff : ∀ t : Tree, (∀ p ∈ t.pieces, p.isKeyed = true) →
    (Json.read.tree t = t.value ↔ t.Alike)
  | .atom a, _ => a.read_eq_iff
  | .string ps, _ => Value.str.injEq _ _ ▸ foldedValue_eq_iff ps
  | .emptyArray _, _ | .emptyObject _, _ => iff_of_true rfl trivial
  | .array items, hk => Value.list.injEq _ _ ▸ items.read_eq_iff hk
  | .object members, hk => by
    refine Iff.trans (Value.map.injEq _ _ ▸ ?_) (members.read_same_iff hk)
    constructor
    · intro h
      exact sameEntries_of_find? (keys_eq_of_found hk h) (denoted.hasNames_members _)
        fun name => congrArg (find? name) h
    · intro h
      exact h.enter (denoted.hasNames_members _) []

/-- An array is read for what it denotes exactly if all its items are. -/
theorem Items.read_eq_iff : ∀ items : Items, (∀ p ∈ items.pieces, p.isKeyed = true) →
    (Json.read.items items = items.values ↔ items.Alike)
  | .last b t a, hk => by
    have ht := t.read_eq_iff fun p hp => hk p (by simp [Items.pieces, hp])
    exact (List.cons_eq_cons.trans (and_iff_left rfl)).trans ht
  | .more b t a others, hk => by
    have ht := t.read_eq_iff fun p hp => hk p (by simp [Items.pieces, hp])
    have hothers := others.read_eq_iff fun p hp => hk p (by simp [Items.pieces, hp])
    exact List.cons_eq_cons.trans (and_congr ht hothers)

/-- An object is read for what it denotes exactly if all members are whose values count. -/
theorem Members.read_same_iff : ∀ members : Members, (∀ p ∈ members.pieces, p.isKeyed = true) →
    (SameEntries (Json.read.members members) members.entries ↔ members.Alike)
  | .last l b t a, hk => by
    have ht := t.read_eq_iff fun p hp => hk p (by simp [Members.pieces, hp])
    have hvalue := (or_iff_left (b := Value.str l.name ∈ []) List.not_mem_nil).trans ht
    exact and_congr l.key_eq_iff ((and_iff_left trivial).trans hvalue)
  | .more l b t a others, hk => by
    have ht := t.read_eq_iff fun p hp => hk p (by simp [Members.pieces, hp])
    have hothers := others.read_same_iff fun p hp => hk p (by simp [Members.pieces, hp])
    exact and_congr l.key_eq_iff (and_congr (or_congr ht mem_names.symm) hothers)

end

end RowModel.Json
