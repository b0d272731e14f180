import RowModel.Proofs.Document.Merging
import RowModel.Yaml.Node.Build

/-!
What the builder of documents keeps to while it goes through the levels of a tree. A scalar that has
been met has its value; a collection that has been met waits or has all its parts met. The numbers of
what waits get lower with each level, so in the end nothing waits.

The builder fails only where the tree is ill-formed, where one of its nodes has no value as a scalar,
or where too many merge keys lead from one mapping to the next.
-/
namespace RowModel.Yaml

open Node

namespace Draft

/-- All parts of a collection have been met. Rows have no such condition. -/
def Done (d : Draft) (x : Node) : Prop :=
  match x.tag, x with
  | .seq, .sequence _ _ items => ∀ y ∈ items, y.number ∈ d.met
  | .map, .mapping n _ _ | .set, .mapping n _ _ =>
    ∃ es, d.merges.entries.lookup n = some es ∧ ∀ e ∈ es, e.1.number ∈ d.met ∧ e.2.number ∈ d.met
  | .omap, .sequence _ _ _ | .pairs, .sequence _ _ _ => True
  | _, _ => False

structure Grows (d d' : Draft) : Prop where
  merges : d.merges.Grows d'.merges
  met : ∀ {n}, n ∈ d.met → n ∈ d'.met
  values : ∀ {n v}, d.values.lookup n = some v → d'.values.lookup n = some v

variable {x : Node} {d d' d'' : Draft}

theorem Grows.refl (d : Draft) : d.Grows d := ⟨.refl _, id, id⟩

theorem Grows.trans (h : d.Grows d') (h' : d'.Grows d'') : d.Grows d'' :=
  ⟨h.merges.trans h'.merges, fun hn => h'.met (h.met hn), fun hl => h'.values (h.values hl)⟩

theorem Done.mono (h : d.Done x) (hg : d.Grows d') : d'.Done x := by
  unfold Done at *
  split at h
  · exact fun y hy => hg.met (h y hy)
  · obtain ⟨es, hes, hall⟩ := h
    exact ⟨es, hg.merges.lookup hes, fun e he => ⟨hg.met (hall e he).1, hg.met (hall e he).2⟩⟩
  · obtain ⟨es, hes, hall⟩ := h
    exact ⟨es, hg.merges.lookup hes, fun e he => ⟨hg.met (hall e he).1, hg.met (hall e he).2⟩⟩
  · trivial
  · trivial
  · exact h

theorem grows_await (x : Node) (d : Draft) : d.Grows (d.await x) :=
  ⟨.refl _, List.mem_cons_of_mem _, id⟩

end Draft

variable [Machine]

inductive Node.Fails (root : Node) : Fault → Prop
  | illFormed : Fails root .illFormed
  /-- From a mapping more merge keys lead on than may be followed. -/
  | merges {x : Node} (hx : Within root x) (hpath : Leads .merge (Machine.merging + 1) x) :
    Fails root .tooDeep
  | scalar {x : Node} {m : Merges} {f : Fault} (hx : Within root x) (h : x.scalar? m = .error f) :
    Fails root f

namespace Draft

/-- A draft of a tree. The parts of the nodes `pending` are about to be met; what waits has numbers
below a bound. -/
structure Sound (root : Node) (pending : List Node) (bound : Nat) (d : Draft) : Prop where
  merges : d.merges.Sound root
  scalar : ∀ {x}, Within root x → x.number ∈ d.met → x.tag.isCollection = false →
    ∃ v m, d.values.lookup x.number = some v ∧ x.scalar? m = .ok v
  collection : ∀ {x}, Within root x → x.number ∈ d.met → x.tag.isCollection = true →
    x ∈ pending ∨ x ∈ d.waiting ∨ d.Done x
  values : ∀ {x v}, Within root x → d.values.lookup x.number = some v →
    x.number ∈ d.met ∧ x.tag.isCollection = false
  waiting : ∀ {x}, x ∈ d.waiting → Within root x ∧ x.number < bound ∧ x.tag.isCollection = true

variable {root x : Node} {pending : List Node} {bound : Nat} {d : Draft}

theorem sound_start (root : Node) (bound : Nat) : Sound root [] bound start where
  merges := Merges.sound_empty root
  scalar _ h := nomatch h
  collection _ h := nomatch h
  values _ h := nomatch h
  waiting h := nomatch h

/-- A collection that is met waits for its parts. -/
theorem Sound.await (h : Sound root pending bound d) (hroot : root.Numbered) (hx : Within root x)
    (hn : x.number < bound) (hc : x.tag.isCollection = true) :
    Sound root pending bound (d.await x) where
  merges := h.merges
  scalar {y} hy hmet hs := by
    rcases List.mem_cons.mp hmet with he | hmet
    · rw [hroot.eq_of_number hy hx he, hc] at hs
      cases hs
    · exact h.scalar hy hmet hs
  collection {y} hy hmet hs := by
    rcases List.mem_cons.mp hmet with he | hmet
    · rw [hroot.eq_of_number hy hx he]
      exact .inr (.inl List.mem_cons_self)
    · rcases h.collection hy hmet hs with hp | hw | hd
      · exact .inl hp
      · exact .inr (.inl (List.mem_cons_of_mem _ hw))
      · exact .inr (.inr (hd.mono (grows_await x d)))
  values hy hl := (h.values hy hl).imp_left (List.mem_cons_of_mem _)
  waiting {y} hy := by
    rcases List.mem_cons.mp hy with rfl | hy
    · exact ⟨hx, hn, hc⟩
    · exact h.waiting hy

theorem Sound.grows_record (h : Sound root pending bound d) (hx : Within root x)
    (hmet : x.number ∉ d.met) (v : Value) : d.Grows (d.record x v) where
  merges := .refl _
  met := List.mem_cons_of_mem _
  values {n w} hl := by
    rw [record, List.lookup_cons]
    split
    · next he =>
      rw [beq_iff_eq] at he
      subst he
      exact absurd (h.values hx hl).1 hmet
    · exact hl

/-- A scalar that is met is recorded with its value. -/
theorem Sound.record (h : Sound root pending bound d) (hroot : root.Numbered) (hx : Within root x)
    (hmet : x.number ∉ d.met) (hs : x.tag.isCollection = false) {v : Value} {m : Merges}
    (hv : x.scalar? m = .ok v) : Sound root pending bound (d.record x v) where
  merges := h.merges
  scalar {y} hy hmet' hs' := by
    rcases List.mem_cons.mp hmet' with he | hmet'
    · rw [hroot.eq_of_number hy hx he]
      exact ⟨v, m, List.lookup_cons_self, hv⟩
    · obtain ⟨w, m', hl, hw⟩ := h.scalar hy hmet' hs'
      exact ⟨w, m', (h.grows_record hx hmet v).values hl, hw⟩
  collection {y} hy hmet' hs' := by
    rcases List.mem_cons.mp hmet' with he | hmet'
    · rw [hroot.eq_of_number hy hx he, hs] at hs'
      cases hs'
    · exact (h.collection hy hmet' hs').imp_right
        fun hw => hw.imp_right fun hd => hd.mono (h.grows_record hx hmet v)
  values {y w} hy hl := by
    rw [Draft.record, List.lookup_cons] at hl
    split at hl
    · next he =>
      rw [beq_iff_eq] at he
      rw [hroot.eq_of_number hy hx he]
      exact ⟨List.mem_cons_self, hs⟩
    · exact (h.values hy hl).imp_left (List.mem_cons_of_mem _)
  waiting := h.waiting

/-- A level begins with all that waits, and then nothing waits. -/
theorem Sound.begin {n : Nat} (h : Sound root [] (n + 1) d) :
    Sound root d.waiting n { d with waiting := [] } where
  merges := h.merges
  scalar := h.scalar
  collection {x} hx hmet hc := by
    rcases h.collection hx hmet hc with hp | hw | hdone
    · cases hp
    · exact .inl hw
    · exact .inr (.inr hdone)
  values := h.values
  waiting hw := absurd hw List.not_mem_nil

/-- A level ends when all it began with is done. -/
theorem Sound.finish (h : Sound root pending bound d) (hdone : ∀ x ∈ pending, d.Done x) :
    Sound root [] bound d :=
  { h with
    collection := fun hx hmet hc => .inr <| by
      rcases h.collection hx hmet hc with hp | hw
      · exact .inr (hdone _ hp)
      · exact hw }

end Draft

namespace Node

open Draft

variable {root x : Node} {pending : List Node} {bound : Nat} {d : Draft}

/-- Meeting a node keeps the draft sound, and then the node has been met. -/
theorem meet_ensures (hroot : root.Numbered) (hx : Within root x) (hn : x.number < bound)
    (hd : d.Sound root pending bound) :
    Ensures root.Fails d (meet x) fun _ d' =>
      d'.Sound root pending bound ∧ d.Grows d' ∧ x.number ∈ d'.met := by
  rw [meet]
  refine .bind (.get ?_)
  split
  · next hmet => exact .pure ⟨hd, .refl d, List.contains_iff_mem.mp hmet⟩
  · next hmet =>
    have hmet : x.number ∉ d.met := fun h => hmet (List.contains_iff_mem.mpr h)
    split
    · next hc =>
      rw [Merges.isCollection_tag] at hc
      exact .set ⟨hd.await hroot hx hn hc, grows_await x d, List.mem_cons_self⟩
    · next hc =>
      rw [Merges.isCollection_tag, Bool.not_eq_true] at hc
      refine .bind (.lift ?_ ?_)
      · intro f hf
        exact .scalar hx hf
      · intro v hv
        exact .set ⟨hd.record hroot hx hmet hc hv, hd.grows_record hx hmet v, List.mem_cons_self⟩

theorem meetEntry_ensures (hroot : root.Numbered) {k v : Node}
    (hk : Within root k ∧ k.number < bound) (hv : Within root v ∧ v.number < bound)
    (hd : d.Sound root pending bound) :
    Ensures root.Fails d (meetEntry k v) fun _ d' =>
      d'.Sound root pending bound ∧ d.Grows d' ∧ k.number ∈ d'.met ∧ v.number ∈ d'.met := by
  rw [meetEntry]
  refine .bind ((meet_ensures hroot hk.1 hk.2 hd).mono ?_)
  rintro _ d₁ ⟨hd₁, hg₁, hk₁⟩
  refine .bind (.get ?_)
  split
  · exact .bind (.throw .illFormed)
  · refine (meet_ensures hroot hv.1 hv.2 hd₁).mono ?_
    rintro _ d₂ ⟨hd₂, hg₂, hv₂⟩
    exact ⟨hd₂, hg₁.trans hg₂, hg₂.met hk₁, hv₂⟩

theorem meetRow_ensures (hroot : root.Numbered) (hx : Within root x) (hn : x.number ≤ bound)
    (hd : d.Sound root pending bound) :
    Ensures root.Fails d (meetRow x) fun _ d' => d'.Sound root pending bound ∧ d.Grows d' := by
  rw [meetRow]
  refine .bind (.get ?_)
  split
  · next k v hes =>
    obtain ⟨hk, hv, -⟩ := below_cons.mp ((hd.merges.below hroot hx hes).mono hn)
    refine .bind ((meet_ensures hroot hk.1 hk.2 hd).mono ?_)
    rintro _ d₁ ⟨hd₁, hg₁, -⟩
    refine (meet_ensures hroot hv.1 hv.2 hd₁).mono ?_
    rintro _ d₂ ⟨hd₂, hg₂, -⟩
    exact ⟨hd₂, hg₁.trans hg₂⟩
  · exact .throw .illFormed

/-- The entries of a mapping are nodes of the tree with lower numbers, and are recorded for it. -/
theorem mergedEntries_ensures (hroot : root.Numbered) (hx : Within root x)
    (hd : d.Sound root pending bound) :
    Ensures root.Fails d (mergedEntries x) fun es d' =>
      d'.Sound root pending bound ∧ d.Grows d' ∧ Below root x.number es ∧
        (x.isMapping → d'.merges.entries.lookup x.number = some es) := by
  have hm := merged_ensures hroot (Machine.merging + 1) x hx d.merges hd.merges
  rw [mergedEntries]
  refine .bind (.get (.bind (.lift ?_ ?_)))
  · intro f hf
    rcases hm.of_error hf with rfl | ⟨rfl, hpath⟩
    · exact .illFormed
    · exact .merges hx hpath
  · rintro ⟨es, m⟩ hes
    obtain ⟨hsound, hgrows, hb, hl⟩ := hm.of_run hes
    have hg : d.Grows { d with merges := m } := ⟨hgrows, id, id⟩
    refine .bind (.set (.pure ⟨⟨hsound, hd.scalar, ?_, hd.values, hd.waiting⟩, hg, hb, hl⟩))
    intro y hy hmet hc
    exact (hd.collection hy hmet hc).imp_right fun hw => hw.imp_right fun hdone => hdone.mono hg

theorem meetItems_ensures (hroot : root.Numbered) {items : List Node}
    (hitems : ∀ y ∈ items, Within root y ∧ y.number < bound) (hd : d.Sound root pending bound) :
    Ensures root.Fails d (items.forM meet) fun _ d' =>
      d'.Sound root pending bound ∧ d.Grows d' ∧ ∀ y ∈ items, y.number ∈ d'.met :=
  .forM (Sound root pending bound) Grows (fun y d => y.number ∈ d.met) .refl .trans
    (fun hy hg => hg.met hy)
    (fun y hy _ hd => meet_ensures hroot (hitems y hy).1 (hitems y hy).2 hd) hd

theorem meetRows_ensures (hroot : root.Numbered) {rows : List Node}
    (hrows : ∀ y ∈ rows, Within root y ∧ y.number < bound) (hd : d.Sound root pending bound) :
    Ensures root.Fails d (rows.forM meetRow) fun _ d' =>
      d'.Sound root pending bound ∧ d.Grows d' := by
  refine (Ensures.forM (Sound root pending bound) Grows (fun _ _ => True) .refl .trans
    (fun h _ => h) (fun y hy d hd => ?_) hd).mono fun _ _ h => ⟨h.1, h.2.1⟩
  obtain ⟨hy, hn⟩ := hrows y hy
  exact (meetRow_ensures hroot hy (Nat.le_of_lt hn) hd).mono fun _ _ h => ⟨h.1, h.2, trivial⟩

theorem meetEntries_ensures (hroot : root.Numbered) {n : Nat} {t : Tag} {es : List (Node × Node)}
    (hx : Within root (mapping n t es)) (hn : n ≤ bound) (hd : d.Sound root pending bound) :
    Ensures root.Fails d
      (mergedEntries (mapping n t es) >>= fun es => es.forM fun (k, v) => meetEntry k v)
      fun _ d' => d'.Sound root pending bound ∧ d.Grows d' ∧
        ∃ es, d'.merges.entries.lookup n = some es ∧
          ∀ e ∈ es, e.1.number ∈ d'.met ∧ e.2.number ∈ d'.met := by
  refine .bind ((mergedEntries_ensures hroot hx hd).mono ?_)
  rintro es d₁ ⟨hd₁, hg₁, hb, hl⟩
  have hes : ∀ e ∈ es, (Within root e.1 ∧ e.1.number < bound) ∧ Within root e.2 ∧ e.2.number < bound :=
    fun e he => ⟨hb.mono hn _ (mem_entryParts.mpr ⟨e, he, .inl rfl⟩),
      hb.mono hn _ (mem_entryParts.mpr ⟨e, he, .inr rfl⟩)⟩
  refine (Ensures.forM (Sound root pending bound) Grows
    (fun e d => e.1.number ∈ d.met ∧ e.2.number ∈ d.met) .refl .trans
    (fun he hg => ⟨hg.met he.1, hg.met he.2⟩)
    (fun e he _ hd => meetEntry_ensures hroot (hes e he).1 (hes e he).2 hd) hd₁).mono ?_
  rintro _ d₂ ⟨hd₂, hg₂, hall⟩
  exact ⟨hd₂, hg₁.trans hg₂, es, hg₂.merges.lookup (hl rfl), hall⟩

/-- Meeting its parts is all that a collection waits for. -/
theorem meetParts_ensures (hroot : root.Numbered) (hx : Within root x) (hn : x.number ≤ bound)
    (hd : d.Sound root pending bound) :
    Ensures root.Fails d (meetParts x) fun _ d' =>
      d'.Sound root pending bound ∧ d.Grows d' ∧ d'.Done x := by
  have hparts : ∀ y ∈ x.parts, Within root y ∧ y.number < bound := fun y hy =>
    ⟨hx.part hy, Nat.lt_of_lt_of_le (hroot.part_lt hx hy) hn⟩
  unfold meetParts
  split
  · next n t items ht =>
    obtain rfl : t = .seq := ht
    exact meetItems_ensures hroot hparts hd
  · next n t rows ht =>
    obtain rfl : t = .omap := ht
    exact (meetRows_ensures hroot hparts hd).mono fun _ _ h => ⟨h.1, h.2, trivial⟩
  · next n t rows ht =>
    obtain rfl : t = .pairs := ht
    exact (meetRows_ensures hroot hparts hd).mono fun _ _ h => ⟨h.1, h.2, trivial⟩
  · next n t es ht =>
    obtain rfl : t = .map := ht
    exact meetEntries_ensures hroot hx hn hd
  · next n t es ht =>
    obtain rfl : t = .set := ht
    exact meetEntries_ensures hroot hx hn hd
  · exact .throw .illFormed

/-- The numbers of what waits bound the levels, however meeting the parts of a collection may fail. -/
theorem meetLevels_of_parts {fail : Fault → Prop}
    (hparts : ∀ {x pending bound d}, Within root x → x.number ≤ bound →
      x.tag.isCollection = true → Sound root pending bound d →
      Ensures fail d (meetParts x) fun _ d' =>
        d'.Sound root pending bound ∧ d.Grows d' ∧ d'.Done x)
    (n : Nat) (hd : d.Sound root [] n) :
    Ensures fail d (meetLevels n) fun _ d' => d'.Sound root [] 0 ∧ d.Grows d' := by
  induction n generalizing d with
  | zero => exact .pure ⟨hd, .refl d⟩
  | succ n ih =>
    rw [meetLevels]
    refine .bind (.get ?_)
    split
    · next he =>
      rw [List.isEmpty_iff] at he
      exact .pure ⟨{ hd with waiting := by rw [he]; exact nofun }, .refl d⟩
    · have hlevel : ∀ y ∈ d.waiting.reverse, ∀ d', Sound root d.waiting n d' →
          Ensures fail d' (meetParts y) fun _ d'' =>
            d''.Sound root d.waiting n ∧ d'.Grows d'' ∧ d''.Done y := by
        intro y hy d' hd'
        obtain ⟨hwithin, hlt, hc⟩ := hd.waiting (List.mem_reverse.mp hy)
        exact hparts hwithin (Nat.le_of_lt_succ hlt) hc hd'
      refine .bind (.set (.bind ((Ensures.forM (Sound root d.waiting n) Grows (fun y d => d.Done y)
        .refl .trans Done.mono hlevel hd.begin).mono ?_)))
      rintro _ d₁ ⟨hd₁, hg₁, hdone⟩
      have hd₁' := hd₁.finish fun y hy => hdone y (List.mem_reverse.mpr hy)
      refine (ih hd₁').mono ?_
      rintro _ d₂ ⟨hd₂, hg₂⟩
      have hg₀ : d.Grows { d with waiting := [] } := ⟨.refl _, id, id⟩
      exact ⟨hd₂, hg₀.trans (hg₁.trans hg₂)⟩

/-- With as many levels as there are numbers below a bound, nothing waits in the end. -/
theorem meetLevels_ensures (hroot : root.Numbered) (n : Nat) (hd : d.Sound root [] n) :
    Ensures root.Fails d (meetLevels n) fun _ d' => d'.Sound root [] 0 ∧ d.Grows d' :=
  meetLevels_of_parts (fun hx hn _ hd => meetParts_ensures hroot hx hn hd) n hd

/-- In the end the root has been met and nothing waits. -/
theorem meetAll_ensures (hroot : root.Numbered) :
    Ensures root.Fails .start (meetAll root) fun _ d =>
      d.Sound root [] 0 ∧ root.number ∈ d.met := by
  rw [meetAll]
  refine .bind ((meet_ensures hroot .root (Nat.lt_succ_self _) (sound_start root _)).mono ?_)
  rintro _ d₁ ⟨hd₁, -, hmet⟩
  refine (meetLevels_ensures hroot _ hd₁).mono ?_
  rintro _ d₂ ⟨hd₂, hg₂⟩
  exact ⟨hd₂, hg₂.met hmet⟩

end Node

end RowModel.Yaml
