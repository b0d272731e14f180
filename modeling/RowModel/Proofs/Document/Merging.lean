import RowModel.Proofs.Document.Tree
import RowModel.Proofs.Ensures
import RowModel.Yaml.Node.Merge

/-!
What merge keys leave of a mapping. Its own entries without merge keys stay, in their order, and
before them come entries of the nodes that merge keys name, all of which have lower numbers. What has
been recorded of a mapping stays recorded. Merging fails where the tree is ill-formed, or where more
merge keys lead from one mapping to the next than may be followed.
-/
namespace RowModel.Yaml

namespace Node

/-- The entries that are no merge keys. -/
def ownEntries (es : List (Node × Node)) : List (Node × Node) := es.filter fun e => e.1.tag != .merge

/-- Entries are made of nodes of a tree that have lower numbers. -/
def Below (root : Node) (n : Nat) (es : List (Node × Node)) : Prop :=
  ∀ y ∈ entryParts es, Within root y ∧ y.number < n

/-- So many keys of a tag lead on from a node, each from a mapping to its value or to an item of
that. -/
inductive Leads (t : Tag) : Nat → Node → Prop
  | start (x : Node) : Leads t 0 x
  | item {n k : Nat} {u : Tag} {items : List Node} {x : Node} (hx : x ∈ items) (h : Leads t n x) :
    Leads t n (sequence k u items)
  | key {n k : Nat} {u : Tag} {es : List (Node × Node)} {e : Node × Node} (he : e ∈ es)
    (htag : e.1.tag = t) (h : Leads t n e.2) : Leads t (n + 1) (mapping k u es)

/-- A fault that tells of an ill-formed tree, or of a path that is too long. -/
def Strays (path : Prop) (f : Fault) : Prop := f = .illFormed ∨ f = .tooDeep ∧ path

theorem Strays.mono {path path' : Prop} {f : Fault} (h : Strays path f) (himp : path → path') :
    Strays path' f :=
  h.imp_right fun hd => ⟨hd.1, himp hd.2⟩

variable {root : Node} {n n' : Nat} {es es' : List (Node × Node)}

theorem ownEntries_of_no_merge (h : ∀ e ∈ es, e.1.tag ≠ .merge) : ownEntries es = es := by
  rw [ownEntries, List.filter_eq_self]
  intro e he
  exact bne_iff_ne.mpr (h e he)

theorem mem_of_mem_ownEntries {e : Node × Node} (h : e ∈ ownEntries es) : e ∈ es :=
  (List.mem_filter.mp h).1

theorem Below.nil : Below root n [] := List.forall_mem_nil _

theorem Below.mono (h : Below root n es) (hle : n ≤ n') : Below root n' es := by
  intro y hy
  obtain ⟨hw, hlt⟩ := h y hy
  exact ⟨hw, Nat.lt_of_lt_of_le hlt hle⟩

theorem Below.append (h : Below root n es) (h' : Below root n es') : Below root n (es ++ es') := by
  intro y hy
  rw [entryParts, List.flatMap_append] at hy
  rcases List.mem_append.mp hy with hy | hy
  · exact h y hy
  · exact h' y hy

theorem below_cons {e : Node × Node} : Below root n (e :: es) ↔
    (Within root e.1 ∧ e.1.number < n) ∧ (Within root e.2 ∧ e.2.number < n) ∧ Below root n es := by
  simp only [Below, entryParts_cons, List.forall_mem_cons]

theorem Below.own (h : Below root n es) : Below root n (ownEntries es) := by
  intro y hy
  obtain ⟨e, he, hy⟩ := mem_entryParts.mp hy
  exact h y (mem_entryParts.mpr ⟨e, mem_of_mem_ownEntries he, hy⟩)

theorem Numbered.below (h : root.Numbered) {t : Tag} (hx : Within root (mapping n t es)) :
    Below root n es :=
  fun _ hy => ⟨hx.part hy, h.part_lt hx hy⟩

end Node

open Node

namespace Merges

structure Grows (m m' : Merges) : Prop where
  lookup : ∀ {n es}, m.entries.lookup n = some es → m'.entries.lookup n = some es

/-- What is recorded of a mapping in the tree of a root is its own entries after others. -/
structure Sound (root : Node) (m : Merges) : Prop where
  split : ∀ {n t es done}, Within root (.mapping n t es) → m.entries.lookup n = some done →
    ∃ before, done = before ++ ownEntries es ∧ Below root n before ∧
      ((∀ e ∈ es, e.1.tag ≠ .merge) → before = [])

variable {root : Node} {m m' m'' : Merges}

theorem Grows.refl (m : Merges) : m.Grows m := ⟨fun h => h⟩

theorem Grows.trans (h : m.Grows m') (h' : m'.Grows m'') : m.Grows m'' :=
  ⟨fun hl => h'.lookup (h.lookup hl)⟩

theorem sound_empty (root : Node) : Sound root empty := ⟨fun _ h => nomatch h⟩

/-- Whether a node is a collection does not depend on what has become of it. -/
@[simp] theorem isCollection_tag (m : Merges) (x : Node) :
    (m.tag x).isCollection = x.tag.isCollection := by
  unfold tag
  split
  · next h =>
    rw [Bool.and_eq_true, beq_iff_eq] at h
    rw [h.1]
    rfl
  · rfl

/-- The entries that a mapping has by now are made of nodes with lower numbers. -/
theorem Sound.below (h : Sound root m) (hroot : root.Numbered) {x : Node} (hx : Within root x)
    {es : List (Node × Node)} (hes : m.entries? x = some es) : Below root x.number es := by
  match x with
  | .scalar _ _ _ => cases hes
  | .sequence _ _ _ => cases hes
  | .mapping n t own =>
    cases hes
    cases hdone : m.entries.lookup n with
    | none => exact hroot.below hx
    | some done =>
      obtain ⟨before, rfl, hb, -⟩ := h.split hx hdone
      exact hb.append (hroot.below hx).own

/-- A mapping's entries are recorded when nothing was known of them. -/
theorem Sound.record (h : Sound root m) (hroot : root.Numbered) {n : Nat} {t : Tag}
    {es before : List (Node × Node)} (hx : Within root (.mapping n t es)) (hb : Below root n before)
    (hplain : (∀ e ∈ es, e.1.tag ≠ .merge) → before = []) :
    Sound root { m with entries := (n, before ++ ownEntries es) :: m.entries } := by
  constructor
  intro n' t' es' done hx' hdone
  rw [List.lookup_cons] at hdone
  split at hdone
  · next hn =>
    rw [beq_iff_eq] at hn
    cases hdone
    cases hroot.eq_of_number hx hx' hn.symm
    exact ⟨before, rfl, hb, hplain⟩
  · exact h.split hx' hdone

/-- A mapping without a record may get one. -/
theorem Grows.record (h : m.Grows m') {n : Nat} (hn : m.entries.lookup n = none)
    (es : List (Node × Node)) : m.Grows { m' with entries := (n, es) :: m'.entries } := by
  constructor
  intro n' es' hl
  rw [List.lookup_cons]
  split
  · next he =>
    rw [beq_iff_eq] at he
    rw [he, hn] at hl
    cases hl
  · exact h.lookup hl

end Merges

namespace Node

open Merges (Sound Grows)

variable {root : Node}

mutual

/-- Merging fails in an ill-formed tree or on a path that is too long; otherwise what it gives are
nodes of lower numbers, and it is recorded. -/
theorem merged_ensures (hroot : root.Numbered) (n : Nat) (x : Node) (hx : Within root x) (m : Merges)
    (hm : Sound root m) :
    Ensures (Strays (Leads .merge n x)) m (x.merged n) fun es m' =>
      Sound root m' ∧ m.Grows m' ∧ Below root x.number es ∧
        (x.isMapping → m'.entries.lookup x.number = some es) := by
  match n, x with
  | n, scalar k t s => exact .throw (.inl rfl)
  | n, sequence k t items =>
    have hitems := mergedItems_ensures hroot n items k
      (fun y hy => ⟨hx.part hy, hroot.part_lt hx hy⟩) m hm
    rw [merged]
    refine (hitems.weaken fun f hf => hf.mono fun ⟨y, hy, h⟩ => .item hy h).mono ?_
    rintro es m' ⟨hm', hgrows, hb⟩
    exact ⟨hm', hgrows, hb, nofun⟩
  | 0, mapping k t es => exact .throw (.inr ⟨rfl, .start _⟩)
  | n + 1, mapping k t es =>
    rw [merged]
    refine .bind (.get ?_)
    split
    · next done hdone =>
      obtain ⟨before, rfl, hb, -⟩ := hm.split hx hdone
      exact .pure ⟨hm, .refl m, hb.append (hroot.below hx).own, fun _ => hdone⟩
    · next hnone =>
      have hsplit := splitEntries_ensures hroot n es k (hroot.below hx) m hm
      refine .bind ((hsplit.weaken fun f hf => hf.mono fun ⟨e, he, ht, h⟩ => .key he ht h).mono ?_)
      rintro ⟨before, own⟩ m' ⟨hm', hgrows, hb, rfl, hplain⟩
      refine .bind (.modify (.pure ⟨hm'.record hroot hx hb hplain, hgrows.record hnone _,
        hb.append (hroot.below hx).own, fun _ => ?_⟩))
      exact List.lookup_cons_self

theorem mergedItems_ensures (hroot : root.Numbered) (n : Nat) (items : List Node) (k : Nat)
    (hitems : ∀ y ∈ items, Within root y ∧ y.number < k) (m : Merges) (hm : Sound root m) :
    Ensures (Strays (∃ y ∈ items, Leads .merge n y)) m (mergedItems n items) fun es m' =>
      Sound root m' ∧ m.Grows m' ∧ Below root k es := by
  match items with
  | [] => exact .pure ⟨hm, .refl m, .nil⟩
  | x :: r =>
    obtain ⟨⟨hx, hn⟩, hr⟩ := List.forall_mem_cons.mp hitems
    rw [mergedItems]
    split
    · exact .bind (.throw (.inl rfl))
    · have hfirst := merged_ensures hroot n x hx m hm
      refine .bind ((hfirst.weaken fun f hf => hf.mono fun h => ⟨x, List.mem_cons_self, h⟩).mono ?_)
      rintro es m' ⟨hm', hgrows, hb, -⟩
      have hrest := mergedItems_ensures hroot n r k hr m' hm'
      refine .bind ((hrest.weaken fun f hf => hf.mono fun ⟨y, hy, h⟩ =>
        ⟨y, List.mem_cons_of_mem x hy, h⟩).mono ?_)
      rintro es' m'' ⟨hm'', hgrows', hb'⟩
      exact .pure ⟨hm'', hgrows.trans hgrows', hb'.append (hb.mono (Nat.le_of_lt hn))⟩

/-- Splitting gives the own entries apart, and nothing else where there is no merge key. -/
theorem splitEntries_ensures (hroot : root.Numbered) (n : Nat) (es : List (Node × Node)) (k : Nat)
    (hes : Below root k es) (m : Merges) (hm : Sound root m) :
    Ensures (Strays (∃ e ∈ es, e.1.tag = .merge ∧ Leads .merge n e.2)) m (splitEntries n es)
      fun split m' =>
        Sound root m' ∧ m.Grows m' ∧ Below root k split.1 ∧ split.2 = ownEntries es ∧
          ((∀ e ∈ es, e.1.tag ≠ .merge) → split.1 = []) := by
  match es with
  | [] => exact .pure ⟨hm, .refl m, .nil, rfl, fun _ => rfl⟩
  | (x, v) :: r =>
    obtain ⟨-, ⟨hv, hn⟩, hr⟩ := below_cons.mp hes
    -- the other entries fail as the whole list may
    have hothers : ∀ m', Sound root m' →
        Ensures (Strays (∃ e ∈ (x, v) :: r, e.1.tag = .merge ∧ Leads .merge n e.2)) m'
          (splitEntries n r) fun split m'' =>
            Sound root m'' ∧ m'.Grows m'' ∧ Below root k split.1 ∧ split.2 = ownEntries r ∧
              ((∀ e ∈ r, e.1.tag ≠ .merge) → split.1 = []) := fun m' hm' =>
      (splitEntries_ensures hroot n r k hr m' hm').weaken fun f hf => hf.mono fun ⟨e, he, h⟩ =>
        ⟨e, List.mem_cons_of_mem _ he, h⟩
    rw [splitEntries]
    split
    · next hx =>
      rw [beq_iff_eq] at hx
      have hmerged := merged_ensures hroot n v hv m hm
      refine .bind ((hmerged.weaken fun f hf => hf.mono fun h =>
        ⟨(x, v), List.mem_cons_self, hx, h⟩).mono ?_)
      rintro es m' ⟨hm', hgrows, hb, -⟩
      refine .bind ((hothers m' hm').mono ?_)
      rintro ⟨before, own⟩ m'' ⟨hm'', hgrows', hb', rfl, -⟩
      refine .pure ⟨hm'', hgrows.trans hgrows', (hb.mono (Nat.le_of_lt hn)).append hb', ?_, fun hplain => ?_⟩
      · simp [ownEntries, hx]
      · exact absurd hx (hplain _ List.mem_cons_self)
    · next hx =>
      rw [beq_iff_eq] at hx
      have hrest : ∀ m', Sound root m' → m.Grows m' →
          Ensures (Strays (∃ e ∈ (x, v) :: r, e.1.tag = .merge ∧ Leads .merge n e.2)) m' (do
            let (before, own) ← splitEntries n r
            return (before, (x, v) :: own)) fun split m'' =>
              Sound root m'' ∧ m.Grows m'' ∧ Below root k split.1 ∧
                split.2 = ownEntries ((x, v) :: r) ∧
                ((∀ e ∈ (x, v) :: r, e.1.tag ≠ .merge) → split.1 = []) := by
        intro m' hm' hgrows
        refine .bind ((hothers m' hm').mono ?_)
        rintro ⟨before, own⟩ m'' ⟨hm'', hgrows', hb, rfl, hplain⟩
        refine .pure ⟨hm'', hgrows.trans hgrows', hb, ?_, fun h => ?_⟩
        · simp [ownEntries, hx]
        · exact hplain (List.forall_mem_cons.mp h).2
      split
      · exact .bind (.modify (hrest _ ⟨hm.split⟩ ⟨fun h => h⟩))
      · exact hrest m hm (.refl m)

end

end Node

end RowModel.Yaml
