import RowModel.Proofs.Document.Collected
import RowModel.Proofs.Document.Valueless

/-!
Plain trees: sequences and mappings that are written as such, keys that are scalars, and scalars that
stand for text, words, numbers and dates. Such a tree has a value exactly if every scalar in it has one.
Main result: `Plain.build_ok_iff`.
-/
namespace RowModel.Yaml

open Node

namespace Node

theorem text_scalar (m : Merges) (limit n : Nat) (t : Tag) (s : List Char) :
    text m limit (scalar n t s) = .ok s := by
  rw [text.eq_def]

structure Plain (root : Node) : Prop where
  scalar : ∀ {n t s}, Within root (scalar n t s) → t.isPlain = true
  sequence : ∀ {n t items}, Within root (sequence n t items) → t = .seq
  mapping : ∀ {n t es}, Within root (mapping n t es) →
    t = .map ∧ ∀ e ∈ es, e.1.tag.isCollection = false

/-- A scalar of a tree has no value, for this reason. -/
def LacksValue (root : Node) (f : Fault) : Prop :=
  ∃ n t s, Within root (.scalar n t s) ∧ scalarValue n t s = .error f

variable {root x : Node} {d : Draft}

theorem Plain.isPlain_tag (hp : root.Plain) (hx : Within root x) (hc : x.tag.isCollection = false) :
    x.tag.isPlain = true := by
  cases x with
  | scalar n t s => exact hp.scalar hx
  | sequence n t items =>
    cases hp.sequence hx
    cases hc
  | mapping n t es =>
    cases (hp.mapping hx).1
    cases hc

/-- No key of a plain tree is a merge key or leads to a text. -/
theorem Plain.key_tag (hp : root.Plain) {n : Nat} {t : Tag} {es : List (Node × Node)}
    (hx : Within root (.mapping n t es)) {e : Node × Node} (he : e ∈ es) :
    e.1.tag ≠ .merge ∧ e.1.tag ≠ .value := by
  have hplain := hp.isPlain_tag (hx.of_mem_entries he).1 ((hp.mapping hx).2 e he)
  exact (Tag.of_isPlain hplain).2.symm

/-- A mapping without merge keys keeps its entries. -/
theorem merged_plain (hp : root.Plain) (limit : Nat) {n : Nat} {t : Tag} {es : List (Node × Node)}
    (hx : Within root (.mapping n t es)) {m : Merges} (hm : m.Sound root) :
    Ensures (fun _ => False) m (merged (limit + 1) (.mapping n t es)) fun es' _ => es' = es := by
  have hmerge : ∀ e ∈ es, e.1.tag ≠ .merge := fun e he => (hp.key_tag hx he).1
  rw [merged]
  refine .bind (.get ?_)
  split
  · next done hdone =>
    obtain ⟨before, rfl, -, hbefore⟩ := hm.split hx hdone
    refine .pure ?_
    rw [hbefore hmerge, List.nil_append, ownEntries_of_no_merge hmerge]
  · exact .bind (.of_eq_ok (splitEntries_of_plain limit m fun e he => hp.key_tag hx he)
      (.bind (.modify (.pure rfl))))

variable [Machine]

/-- The scalars of a plain tree have their own text under their own tag. -/
theorem Plain.scalar?_eq (hp : root.Plain) {n : Nat} {t : Tag} {s : List Char}
    (hx : Within root (.scalar n t s)) (m : Merges) :
    (Node.scalar n t s).scalar? m = scalarValue n t s := by
  have hvalue := (Tag.of_isPlain (hp.scalar hx)).2.1
  have htag : m.tag (.scalar n t s) = t := by simp [Merges.tag, tag, hvalue]
  simp only [scalar?, text_scalar, htag]

/-- A node of a plain tree can be met unless a scalar has no value. -/
theorem meet_plain (hp : root.Plain) (hx : Within root x) (d : Draft) :
    Ensures root.LacksValue d (meet x) fun _ _ => True := by
  rw [meet]
  refine .bind (.get ?_)
  split
  · exact .pure trivial
  · split
    · exact .set trivial
    · next hc =>
      refine .bind (.lift ?_ fun _ _ => .set trivial)
      intro f hf
      rw [Merges.isCollection_tag] at hc
      cases x with
      | scalar n t s => exact ⟨n, t, s, hx, (hp.scalar?_eq hx d.merges).symm.trans hf⟩
      | sequence n t items =>
        cases hp.sequence hx
        exact absurd rfl hc
      | mapping n t es =>
        cases (hp.mapping hx).1
        exact absurd rfl hc

theorem meetEntry_plain (hp : root.Plain) {k v : Node} (hk : Within root k) (hv : Within root v)
    (hc : k.tag.isCollection = false) (d : Draft) :
    Ensures root.LacksValue d (meetEntry k v) fun _ _ => True := by
  rw [meetEntry]
  refine .bind ((meet_plain hp hk d).mono fun _ d₁ _ => .bind (.get ?_))
  rw [Merges.isCollection_tag, hc]
  exact meet_plain hp hv d₁

theorem mergedEntries_plain (hp : root.Plain) {n : Nat} {t : Tag} {es : List (Node × Node)}
    (hx : Within root (.mapping n t es)) (hd : d.merges.Sound root) :
    Ensures (fun _ => False) d (mergedEntries (.mapping n t es)) fun es' _ => es' = es := by
  have hmerged := merged_plain hp Machine.merging hx hd
  rw [mergedEntries]
  refine .bind (.get (.bind (.lift (fun f hf => hmerged.of_error hf) ?_)))
  rintro ⟨es', m⟩ hes'
  exact .bind (.set (.pure (hmerged.of_run hes')))

/-- The parts of a collection in a plain tree can be met unless a scalar has no value. -/
theorem meetParts_plain (hp : root.Plain) (hx : Within root x) (hd : d.merges.Sound root)
    (hc : x.tag.isCollection = true) :
    Ensures root.LacksValue d (meetParts x) fun _ _ => True := by
  match x with
  | .scalar n t s =>
    have hplain := (Tag.of_isPlain (hp.scalar hx)).1
    exact absurd hc (Bool.eq_false_iff.mp hplain)
  | .sequence n t items =>
    cases hp.sequence hx
    exact (Ensures.forM (fun _ => True) (fun _ _ => True) (fun _ _ => True) (fun _ => trivial)
      (fun _ _ => trivial) (fun _ _ => trivial)
      (fun y hy d _ => (meet_plain hp (hx.part hy) d).mono fun _ _ _ => ⟨trivial, trivial, trivial⟩)
      trivial).mono fun _ _ _ => trivial
  | .mapping n t es =>
    obtain ⟨rfl, hkeys⟩ := hp.mapping hx
    have hentries : Ensures root.LacksValue d (mergedEntries (.mapping n .map es)) fun es' _ =>
        es' = es := (mergedEntries_plain hp hx hd).weaken fun _ => False.elim
    refine .bind (hentries.mono ?_)
    rintro _ d₁ rfl
    refine (Ensures.forM (fun _ => True) (fun _ _ => True) (fun _ _ => True) (fun _ => trivial)
      (fun _ _ => trivial) (fun _ _ => trivial) (fun e he d _ => ?_) trivial).mono fun _ _ _ => trivial
    obtain ⟨hk, hv⟩ := hx.of_mem_entries he
    exact (meetEntry_plain hp hk hv (hkeys e he) d).mono fun _ _ _ => ⟨trivial, trivial, trivial⟩

/-- A plain tree without a value has a scalar without one. -/
theorem Plain.lacksValue_of_build (hp : root.Plain) (hroot : root.Numbered) {f : Fault}
    (h : root.build = .error f) : root.LacksValue f := by
  have hall : Ensures root.LacksValue .start (meetAll root) fun _ _ => True := by
    rw [meetAll]
    refine .bind (((meet_ensures hroot .root (Nat.lt_succ_self _)
      (Draft.sound_start root _)).failing (meet_plain hp .root _)).mono ?_)
    rintro _ d₁ ⟨hd₁, -, -⟩
    refine (meetLevels_of_parts (fun hx hn hc hd => ?_) _ hd₁).mono fun _ _ _ => trivial
    exact (meetParts_ensures hroot hx hn hd).failing (meetParts_plain hp hx hd.merges hc)
  rw [build] at h
  split at h
  · next f' hrun =>
    cases h
    exact hall.of_error hrun
  · cases h

/-- Every node of a plain tree is met. -/
theorem Plain.met (hp : root.Plain) (hroot : root.Numbered) (hd : d.Sound root [] 0)
    (hmet : root.number ∈ d.met) (hx : Within root x) : x.number ∈ d.met := by
  induction hx with
  | root => exact hmet
  | @part x y hx hpart ih =>
    cases x with
    | scalar n t s => cases hpart
    | sequence n t items =>
      cases hp.sequence hx
      exact (hd.value_sequence hroot hx ih).2 y hpart
    | mapping n t es =>
      cases (hp.mapping hx).1
      obtain ⟨-, -, hall, -⟩ := hd.value_mapping hroot hx ih
      rw [ownEntries_of_no_merge fun e he => (hp.key_tag hx he).1] at hall
      obtain ⟨e, he, rfl | rfl⟩ := mem_entryParts.mp hpart
      · exact (hall e he).1
      · exact (hall e he).2

/-- A plain tree has a value exactly if all its scalars have. -/
theorem Plain.build_ok_iff (hp : root.Plain) (hroot : root.Numbered) :
    (∃ v, root.build = .ok v) ↔ ¬∃ f, root.LacksValue f := by
  constructor
  · rintro ⟨v, hv⟩ ⟨f, n, t, s, hx, hf⟩
    obtain ⟨d, hd, hmet, -⟩ := build_eq_ok hroot hv
    obtain ⟨m, hm⟩ :=
      hd.value_scalar hroot hx (hp.met hroot hd hmet hx) (Tag.of_isPlain (hp.scalar hx)).1
    rw [hp.scalar?_eq hx, hf] at hm
    cases hm
  · intro hall
    cases h : root.build with
    | ok v => exact ⟨v, rfl⟩
    | error f => exact absurd ⟨f, hp.lacksValue_of_build hroot h⟩ hall

end Node

end RowModel.Yaml
