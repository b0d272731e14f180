import RowModel.Proofs.Document.Collected

/-!
What a mapping of a document holds under a name. Only the last of its own entries whose key spells the
name counts, whatever merge keys put before them.
-/
namespace RowModel

namespace Value

/-- An item of the list that a mapping holds under a name. -/
def itemAt? (name : String) (i : Nat) : Value → Option Value
  | map entries =>
    match find? name entries with
    | some (list items) => items[i]?
    | _ => none
  | _ => none

variable {name : String} {kvs : List (Value × Value)}

theorem itemAt?_eq_some {i : Nat} {v item : Value} (h : v.itemAt? name i = some item) :
    ∃ entries items, v = map entries ∧ find? name entries = some (list items) ∧
      items[i]? = some item := by
  unfold itemAt? at h
  split at h
  · split at h
    · next entries _ items hfind => exact ⟨entries, items, rfl, hfind, h⟩
    · cases h
  · cases h

/-- Entries with other keys change nothing under a name. -/
theorem find?_foldl_insert_of_absent (h : ∀ e ∈ kvs, e.1 ≠ str name) (acc : List (Value × Value)) :
    find? name (kvs.foldl (fun es (k, v) => insert k v es) acc) = find? name acc := by
  induction kvs generalizing acc with
  | nil => rfl
  | cons e r ih =>
    obtain ⟨he, hr⟩ := List.forall_mem_cons.mp h
    rw [List.foldl_cons, ih hr, find?_insert_of_ne he]

/-- The last entry with a name counts. -/
theorem find?_foldl_insert_of_last (h : ∀ e ∈ kvs, e.1 ≠ str name) (before : List (Value × Value))
    (v : Value) (acc : List (Value × Value)) :
    find? name ((before ++ (str name, v) :: kvs).foldl (fun es (k, v) => insert k v es) acc) =
      some v := by
  rw [List.foldl_append, List.foldl_cons, find?_foldl_insert_of_absent h, find?_insert_self]

end Value

namespace Yaml

namespace Node

/-- A scalar with this text that counts as a text. -/
def Spells (name : String) (x : Node) : Prop := ∃ n, x = scalar n .str name.toList

variable [Machine]

/-- A node that may turn out to be this text, whatever its tag and its kind. -/
def MaySpell (name : String) (x : Node) : Prop := ∃ m, x.scalar? m = .ok (.str name)

/-- A value stands under a name: after its entry none has a key that may be the name. -/
def Holds (name : String) (v : Node) (es : List (Node × Node)) : Prop :=
  ∃ before k after, es = before ++ (k, v) :: after ∧ k.Spells name ∧
    ∀ e ∈ after, ¬e.1.MaySpell name

/-- A mapping holds a sequence under a name, and in it an item at a place. -/
def HasItem (name : String) (i : Nat) (x item : Node) : Prop :=
  ∃ n es m items, x = mapping n .map es ∧ Holds name (sequence m .seq items) es ∧
    items[i]? = some item

theorem Holds.own {name : String} {v : Node} {es : List (Node × Node)} (h : Holds name v es) :
    Holds name v (ownEntries es) := by
  obtain ⟨before, k, after, rfl, ⟨n, rfl⟩, hafter⟩ := h
  refine ⟨ownEntries before, scalar n .str name.toList, ownEntries after, ?_, ⟨n, rfl⟩,
    fun e he => hafter e (mem_of_mem_ownEntries he)⟩
  rw [ownEntries, List.filter_append, List.filter_cons_of_pos (by rfl)]
  rfl

end Node

open Node

namespace Draft

def mapEntries (d : Draft) (es : List (Node × Node)) : List (Value × Value) :=
  (es.map fun e => (d.value e.1, d.value e.2)).foldl (fun es (k, v) => Value.insert k v es) []

variable [Machine] {root x : Node} {d : Draft} {name : String}

/-- A scalar that spells a text has it for its value. -/
theorem Sound.value_of_spells (hd : d.Sound root [] 0) (hroot : root.Numbered)
    (hx : Within root x) (hmet : x.number ∈ d.met) (h : x.Spells name) : d.value x = .str name := by
  obtain ⟨n, rfl⟩ := h
  obtain ⟨m, hm⟩ := hd.value_scalar hroot hx hmet rfl
  rw [← Except.ok.inj hm, String.ofList_toList]

theorem Sound.value_ne (hd : d.Sound root [] 0) (hroot : root.Numbered) (hx : Within root x)
    (hmet : x.number ∈ d.met) (h : ¬x.MaySpell name) : d.value x ≠ .str name := by
  intro hv
  cases hc : x.tag.isCollection with
  | false =>
    obtain ⟨m, hm⟩ := hd.value_scalar hroot hx hmet hc
    exact h ⟨m, hv ▸ hm⟩
  | true =>
    rw [hd.value_of_collection hroot hx hc] at hv
    unfold collected at hv
    split at hv <;> cases hv

/-- What a mapping of the tree holds under a name, its value holds there, too. -/
theorem Sound.find?_of_holds (hd : d.Sound root [] 0) (hroot : root.Numbered) {v : Node}
    {es : List (Node × Node)} (hes : ∀ y ∈ entryParts es, Within root y ∧ y.number ∈ d.met)
    (h : Holds name v es) (before : List (Node × Node)) :
    Value.find? name (d.mapEntries (before ++ es)) = some (d.value v) := by
  obtain ⟨front, k, after, rfl, hk, hafter⟩ := h
  obtain ⟨hkw, hkm⟩ := hes k (mem_entryParts.mpr ⟨(k, v), by simp, .inl rfl⟩)
  rw [mapEntries, ← List.append_assoc, List.map_append, List.map_cons,
    hd.value_of_spells hroot hkw hkm hk]
  refine Value.find?_foldl_insert_of_last ?_ _ _ _
  intro e he
  obtain ⟨e', he', rfl⟩ := List.mem_map.mp he
  obtain ⟨hw, hm⟩ := hes e'.1 (mem_entryParts.mpr ⟨e', by simp [he'], .inl rfl⟩)
  exact hd.value_ne hroot hw hm (hafter e' he')

/-- A name that no key may be is not found in the value. -/
theorem Sound.find?_of_absent (hd : d.Sound root [] 0) (hroot : root.Numbered)
    {es : List (Node × Node)} (hes : ∀ y ∈ entryParts es, Within root y ∧ y.number ∈ d.met)
    (h : ∀ e ∈ es, ¬e.1.MaySpell name) : Value.find? name (d.mapEntries es) = none := by
  refine (Value.find?_foldl_insert_of_absent ?_ []).trans (Value.find?_nil name)
  intro e he
  obtain ⟨e', he', rfl⟩ := List.mem_map.mp he
  obtain ⟨hw, hm⟩ := hes e'.1 (mem_entryParts.mpr ⟨e', he', .inl rfl⟩)
  exact hd.value_ne hroot hw hm (h e' he')

/-- A mapping has the values of its own entries after those of others, and of its own alone when it
has no merge key. -/
theorem Sound.value_eq_map (hd : d.Sound root [] 0) (hroot : root.Numbered) {n : Nat}
    {es : List (Node × Node)} (hx : Within root (mapping n .map es)) (hmet : n ∈ d.met) :
    ∃ before, d.value (mapping n .map es) = .map (d.mapEntries (before ++ ownEntries es)) ∧
      (∀ y ∈ entryParts (ownEntries es), Within root y ∧ y.number ∈ d.met) ∧
      ((∀ e ∈ es, e.1.tag ≠ .merge) → before = []) := by
  obtain ⟨before, hvalue, hall, hplain⟩ := hd.value_mapping hroot hx hmet
  refine ⟨before, hvalue, ?_, hplain⟩
  intro y hy
  obtain ⟨e, he, hye⟩ := mem_entryParts.mp hy
  have hw := hx.of_mem_entries (mem_of_mem_ownEntries he)
  have hm := hall e he
  rcases hye with rfl | rfl
  · exact ⟨hw.1, hm.1⟩
  · exact ⟨hw.2, hm.2⟩

/-- An item of the tree is at the same place in the value of the root. -/
theorem Sound.value_of_hasItem (hd : d.Sound root [] 0) (hroot : root.Numbered)
    (hx : Within root x) (hmet : x.number ∈ d.met) {i : Nat} {item : Node}
    (h : x.HasItem name i item) :
    (d.value x).itemAt? name i = some (d.value item) ∧ Within root item ∧ item.number ∈ d.met := by
  obtain ⟨n, es, m, items, rfl, hholds, hitem⟩ := h
  obtain ⟨before, hvalue, hown, -⟩ := hd.value_eq_map hroot hx hmet
  have hfind := hd.find?_of_holds hroot hown hholds.own before
  obtain ⟨front, k, after, hes, -, -⟩ := hholds.own
  obtain ⟨hsw, hsm⟩ := hown (sequence m .seq items)
    (mem_entryParts.mpr ⟨(k, sequence m .seq items), by simp [hes], .inr rfl⟩)
  obtain ⟨hlist, hmets⟩ := hd.value_sequence hroot hsw hsm
  rw [hlist] at hfind
  have hmem := List.mem_of_getElem? hitem
  refine ⟨?_, hsw.part hmem, hmets item hmem⟩
  rw [hvalue, Value.itemAt?, hfind]
  exact (List.getElem?_map ..).trans (congrArg (Option.map d.value) hitem)

end Draft

end Yaml

end RowModel
