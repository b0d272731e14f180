import RowModel.Proofs.Document.Meeting

/-!
The value of a tree without the table of values already collected. A node that was met as a scalar
has the value recorded for it, and a collection the value made of those of its parts. As nodes are
known by their numbers, looking a value up in the table gives what collecting it again would.
-/
namespace RowModel.Yaml

open Node

namespace Draft

def entryValues (d : Draft) (value : Node → Value) (x : Node) : List (Value × Value) :=
  ((d.merges.entries? x).getD []).map fun e => (value e.1, value e.2)

/-- The value of a collection from the values of its parts. -/
def collected (d : Draft) (value : Node → Value) (x : Node) : Value :=
  match x.tag, x with
  | .seq, .sequence _ _ items => .list (items.map value)
  | .map, x => mapValue (d.entryValues value x)
  | .set, x => setValue (d.entryValues value x)
  | _, .sequence _ _ rows =>
    .list ((rows.map (d.entryValues value)).flatten.map fun (k, v) => .pair k v)
  | _, _ => .null

def valueFrom (d : Draft) (value : Node → Value) (x : Node) : Value :=
  (d.values.lookup x.number).getD (d.collected value x)

/-- The value of a node with a number below a bound. -/
def valueBelow (d : Draft) : Nat → Node → Value
  | 0 => fun _ => .null
  | n + 1 => d.valueFrom (d.valueBelow n)

def value (d : Draft) (x : Node) : Value := d.valueBelow (x.number + 1) x

variable {root x : Node} {d : Draft} {f g : Node → Value}

theorem entryValues_congr (hm : d.merges.Sound root) (hroot : root.Numbered) (hx : Within root x)
    (h : ∀ y, Within root y → y.number < x.number → f y = g y) :
    d.entryValues f x = d.entryValues g x := by
  unfold entryValues
  cases hes : d.merges.entries? x with
  | none => rfl
  | some es =>
    have hb := hm.below hroot hx hes
    refine List.map_congr_left fun e he => ?_
    obtain ⟨hk, hkn⟩ := hb e.1 (mem_entryParts.mpr ⟨e, he, .inl rfl⟩)
    obtain ⟨hv, hvn⟩ := hb e.2 (mem_entryParts.mpr ⟨e, he, .inr rfl⟩)
    rw [h e.1 hk hkn, h e.2 hv hvn]

/-- The value of a node depends on nodes of lower numbers only. -/
theorem valueFrom_congr (hm : d.merges.Sound root) (hroot : root.Numbered) (hx : Within root x)
    (h : ∀ y, Within root y → y.number < x.number → f y = g y) :
    d.valueFrom f x = d.valueFrom g x := by
  have hes := entryValues_congr hm hroot hx h
  have hcollected : d.collected f x = d.collected g x := by
    unfold collected
    split
    · next n t items _ =>
      exact congrArg Value.list
        (List.map_congr_left fun y hy => h y (hx.part hy) (hroot.part_lt hx hy))
    · rw [hes]
    · rw [hes]
    · next n t rows _ _ _ =>
      have hrows : rows.map (d.entryValues f) = rows.map (d.entryValues g) :=
        List.map_congr_left fun y hy => entryValues_congr hm hroot (hx.part hy)
          fun z hz hlt => h z hz (Nat.lt_trans hlt (hroot.part_lt hx hy))
      rw [hrows]
    · rfl
  rw [valueFrom, valueFrom, hcollected]

/-- Any bound above the number gives the same value. -/
theorem valueBelow_eq (hm : d.merges.Sound root) (hroot : root.Numbered) {n n' : Nat}
    (hx : Within root x) (hn : x.number < n) (hn' : x.number < n') :
    d.valueBelow n x = d.valueBelow n' x := by
  induction n generalizing n' x with
  | zero => cases hn
  | succ n ih =>
    cases n' with
    | zero => cases hn'
    | succ n' =>
      exact valueFrom_congr hm hroot hx fun y hy hlt =>
        ih hy (Nat.lt_of_lt_of_le hlt (Nat.le_of_lt_succ hn))
          (Nat.lt_of_lt_of_le hlt (Nat.le_of_lt_succ hn'))

/-- The value of a node is made of the values of its parts. -/
theorem value_eq (hm : d.merges.Sound root) (hroot : root.Numbered) (hx : Within root x) :
    d.value x = d.valueFrom d.value x :=
  valueFrom_congr hm hroot hx fun _ hy hlt => valueBelow_eq hm hroot hy hlt (Nat.lt_succ_self _)

theorem value_of_recorded (hm : d.merges.Sound root) (hroot : root.Numbered) (hx : Within root x)
    {v : Value} (hv : d.values.lookup x.number = some v) : d.value x = v := by
  rw [value_eq hm hroot hx, valueFrom, hv, Option.getD_some]

theorem value_of_unrecorded (hm : d.merges.Sound root) (hroot : root.Numbered)
    (hx : Within root x) (hnone : d.values.lookup x.number = none) :
    d.value x = d.collected d.value x := by
  rw [value_eq hm hroot hx, valueFrom, hnone, Option.getD_none]

/-- A table of values that holds what has been recorded for scalars, and for any node its value. -/
structure Tabulates (d : Draft) (root : Node) (vs : List (Nat × Value)) : Prop where
  recorded : ∀ {n v}, d.values.lookup n = some v → vs.lookup n = some v
  value : ∀ {x v}, Within root x → vs.lookup x.number = some v → d.value x = v

/-- What is missing in the table is no scalar with a value recorded. -/
theorem Tabulates.unrecorded {vs : List (Nat × Value)} (h : d.Tabulates root vs) {n : Nat}
    (hnone : vs.lookup n = none) : d.values.lookup n = none := by
  rw [Option.eq_none_iff_forall_ne_some]
  intro v hv
  rw [h.recorded hv] at hnone
  cases hnone

theorem Tabulates.record {vs : List (Nat × Value)} (h : d.Tabulates root vs)
    (hroot : root.Numbered) (hx : Within root x) :
    d.Tabulates root ((x.number, d.value x) :: vs) where
  recorded {n v} hl := by
    have hv := h.recorded hl
    rw [List.lookup_cons]
    split
    · next hn =>
      rw [beq_iff_eq] at hn
      rw [hn] at hv
      rw [h.value hx hv]
    · exact hv
  value {y v} hy hl := by
    rw [List.lookup_cons] at hl
    split at hl
    · next hn =>
      rw [beq_iff_eq] at hn
      rw [hroot.eq_of_number hy hx hn]
      exact Option.some.inj hl
    · exact h.value hy hl

end Draft

/-- A run that gives this result whatever table it begins with, and keeps what holds of tables. -/
def Yields {σ α : Type} (inv : σ → Prop) (x : StateM σ α) (a : α) : Prop :=
  ∀ s, inv s → (x.run s).1 = a ∧ inv (x.run s).2

namespace Yields

variable {σ α β : Type} {inv : σ → Prop}

theorem pure (a : α) : Yields inv (pure a) a := fun _ hs => ⟨rfl, hs⟩

theorem bind {x : StateM σ α} {f : α → StateM σ β} {a : α} {b : β} (hx : Yields inv x a)
    (hf : Yields inv (f a) b) : Yields inv (x >>= f) b := by
  intro s hs
  obtain ⟨ha, hs'⟩ := hx s hs
  have hb := hf _ hs'
  rw [← ha] at hb
  exact hb

theorem get {f : σ → StateM σ α} {a : α} (h : ∀ s, inv s → Yields inv (f s) a) :
    Yields inv (get >>= f) a := fun s hs => h s hs s hs

theorem modify {f : σ → σ} (h : ∀ s, inv s → inv (f s)) : Yields inv (modify f) ⟨⟩ :=
  fun s hs => ⟨rfl, h s hs⟩

theorem mapM {f : α → StateM σ β} {g : α → β} {l : List α} (h : ∀ a ∈ l, Yields inv (f a) (g a)) :
    Yields inv (l.mapM f) (l.map g) := by
  induction l with
  | nil => exact pure []
  | cons a l ih =>
    rw [List.mapM_cons]
    refine (h a List.mem_cons_self).bind ?_
    exact (ih fun b hb => h b (List.mem_cons_of_mem a hb)).bind (pure _)

end Yields

namespace Node

open Draft

variable {root x : Node} {d : Draft} {n : Nat}

/-- The entries of a mapping are collected once the nodes of smaller numbers can be. -/
theorem entries_yields {inv : List (Nat × Value) → Prop}
    {f : Node → StateM (List (Nat × Value)) Value} (hm : d.merges.Sound root)
    (hroot : root.Numbered) (hx : Within root x) (hn : x.number ≤ n)
    (h : ∀ y, Within root y → y.number < n → Yields inv (f y) (d.value y)) :
    Yields inv (((d.merges.entries? x).getD []).mapM fun e => return (← f e.1, ← f e.2))
      (d.entryValues d.value x) := by
  unfold entryValues
  cases hes : d.merges.entries? x with
  | none => exact .pure []
  | some es =>
    have hb := (hm.below hroot hx hes).mono hn
    refine Yields.mapM fun e he => ?_
    obtain ⟨hk, hkn⟩ := hb e.1 (mem_entryParts.mpr ⟨e, he, .inl rfl⟩)
    obtain ⟨hv, hvn⟩ := hb e.2 (mem_entryParts.mpr ⟨e, he, .inr rfl⟩)
    exact (h _ hk hkn).bind ((h _ hv hvn).bind (.pure _))

/-- Whatever the table holds of a tree already, collecting gives the value of a node and keeps the
table right. -/
theorem collect_yields (hm : d.merges.Sound root) (hroot : root.Numbered) (hx : Within root x)
    (hn : x.number < n) : Yields (d.Tabulates root) (collect d.merges n x) (d.value x) := by
  induction n generalizing x with
  | zero => cases hn
  | succ n ih =>
    have hparts : ∀ y, Within root y → y.number < x.number →
        Yields (d.Tabulates root) (collect d.merges n y) (d.value y) := fun y hy hlt =>
      ih hy (Nat.lt_of_lt_of_le hlt (Nat.le_of_lt_succ hn))
    rw [collect]
    refine .get fun vs hvs => ?_
    split
    · next v hv =>
      rw [hvs.value hx hv]
      exact .pure v
    · next hnone =>
      refine Yields.bind ?_
        (Yields.bind (.modify fun vs hvs => hvs.record hroot hx) (.pure (d.value x)))
      rw [value_of_unrecorded hm hroot hx (hvs.unrecorded hnone)]
      have hitems : ∀ {n t items}, x = sequence n t items → ∀ y ∈ items,
          Within root y ∧ y.number < x.number := by
        rintro n t items rfl y hy
        exact ⟨hx.part hy, hroot.part_lt hx hy⟩
      split
      · next n t items ht =>
        obtain rfl : t = .seq := ht
        refine (Yields.mapM fun y hy => ?_).bind (.pure _)
        exact hparts y (hitems rfl y hy).1 (hitems rfl y hy).2
      · next ht =>
        simp only [collected, ht]
        exact (entries_yields hm hroot hx (Nat.le_refl _) hparts).bind (.pure _)
      · next ht =>
        simp only [collected, ht]
        exact (entries_yields hm hroot hx (Nat.le_refl _) hparts).bind (.pure _)
      · next n t rows hseq hmap hset =>
        simp only [collected]
        refine (Yields.mapM fun y hy => ?_).bind (.pure _)
        obtain ⟨hw, hlt⟩ := hitems rfl y hy
        exact entries_yields hm hroot hw (Nat.le_of_lt hlt) hparts
      · next hseq hmap hset hrows =>
        simp only [collected]
        exact .pure _

variable [Machine]

/-- The value of a root is that in the draft with all its parts met. -/
theorem build_eq_ok (hroot : root.Numbered) {v : Value} (h : root.build = .ok v) :
    ∃ d : Draft, d.Sound root [] 0 ∧ root.number ∈ d.met ∧ v = d.value root := by
  unfold build at h
  split at h
  · cases h
  · next d hd =>
    obtain ⟨hsound, hmet⟩ := (meetAll_ensures hroot).of_run hd
    have htable : d.Tabulates root d.values := ⟨id, fun hx => value_of_recorded hsound.merges hroot hx⟩
    obtain ⟨hvalue, -⟩ := collect_yields hsound.merges hroot .root
      (Nat.lt_succ_of_lt (Nat.lt_succ_self _)) d.values htable
    refine ⟨d, hsound, hmet, ?_⟩
    rw [← hvalue]
    exact (Except.ok.inj h).symm

end Node

namespace Draft

variable [Machine] {root x : Node} {d : Draft}

/-- When nothing waits and nothing is pending, each collection that was met is done with. -/
theorem Sound.done (hd : d.Sound root [] 0) (hx : Within root x) (hmet : x.number ∈ d.met)
    (hc : x.tag.isCollection = true) : d.Done x := by
  rcases hd.collection hx hmet hc with hp | hw | hdone
  · cases hp
  · exact absurd (hd.waiting hw).2.1 (Nat.not_lt_zero _)
  · exact hdone

theorem Sound.value_of_collection (hd : d.Sound root [] 0) (hroot : root.Numbered)
    (hx : Within root x) (hc : x.tag.isCollection = true) : d.value x = d.collected d.value x := by
  refine value_of_unrecorded hd.merges hroot hx ?_
  rw [Option.eq_none_iff_forall_ne_some]
  intro v hv
  rw [(hd.values hx hv).2] at hc
  cases hc

/-- In the end a scalar that was met has the value that it had at some time on the way. -/
theorem Sound.value_scalar (hd : d.Sound root [] 0) (hroot : root.Numbered) (hx : Within root x)
    (hmet : x.number ∈ d.met) (hc : x.tag.isCollection = false) :
    ∃ m, x.scalar? m = .ok (d.value x) := by
  obtain ⟨v, m, hl, hv⟩ := hd.scalar hx hmet hc
  exact ⟨m, by rw [hv, value_of_recorded hd.merges hroot hx hl]⟩

theorem Sound.value_sequence (hd : d.Sound root [] 0) (hroot : root.Numbered) {n : Nat}
    {items : List Node} (hx : Within root (sequence n .seq items)) (hmet : n ∈ d.met) :
    d.value (sequence n .seq items) = .list (items.map d.value) ∧ ∀ y ∈ items, y.number ∈ d.met :=
  ⟨hd.value_of_collection hroot hx rfl, hd.done hx hmet rfl⟩

/-- In the end a mapping holds its own entries, after entries that come from merge keys. -/
theorem Sound.value_mapping (hd : d.Sound root [] 0) (hroot : root.Numbered) {n : Nat}
    {es : List (Node × Node)} (hx : Within root (mapping n .map es)) (hmet : n ∈ d.met) :
    ∃ before,
      d.value (mapping n .map es) =
        mapValue ((before ++ ownEntries es).map fun e => (d.value e.1, d.value e.2)) ∧
      (∀ e ∈ ownEntries es, e.1.number ∈ d.met ∧ e.2.number ∈ d.met) ∧
      ((∀ e ∈ es, e.1.tag ≠ .merge) → before = []) := by
  obtain ⟨done, hdone, hall⟩ := hd.done hx hmet rfl
  obtain ⟨before, rfl, -, hplain⟩ := hd.merges.split hx hdone
  refine ⟨before, ?_, fun e he => hall e (List.mem_append_right before he), hplain⟩
  rw [hd.value_of_collection hroot hx rfl]
  simp only [collected, entryValues, Merges.entries?, tag, hdone, Option.getD_some]

end Draft

namespace Node

variable [Machine] {root : Node}

theorem fails_of_build (hroot : root.Numbered) {f : Fault} (h : root.build = .error f) :
    root.Fails f := by
  unfold build at h
  split at h
  · next f' hf =>
    cases h
    exact (meetAll_ensures hroot).of_error hf
  · cases h

end Node

end RowModel.Yaml
