import RowModel.Proofs.Document.Building
import RowModel.Proofs.Document.Holding
import RowModel.Proofs.Json.Nodes
import RowModel.Proofs.Json.Scalar

/-!
What the reader of documents makes of a JSON text that denotes an object: it can read it, and then takes
it for what `read` says, or it fails (`Document.load_stored_iff`).
-/
namespace RowModel.Json

open Yaml (Draft Node Tag)
open Yaml.Node (Numbered Within)

variable {root : Node} {d : Draft}

theorem IsText.spells {ps : List Part} {x : Node} (h : IsText ps x) : x.Spells (foldedValue ps) := h

theorem Atom.isPlain_tag (a : Atom) : (Tag.implicit a.text).isPlain = true := by
  match a with
  | .null | .bool true | .bool false => decide
  | .number n =>
    rw [Atom.text, Numeral.implicit_text]
    split
    · split <;> rfl
    · rfl

/-- The scalar of a word or number. -/
theorem Atom.scalar?_eq [Machine] (a : Atom) (m : Yaml.Merges) (n : Nat) :
    Node.scalar? m (.scalar n (Tag.implicit a.text) a.text) =
      if a.pieces.all Piece.isShort then .ok (read.atom a) else .error (.noValue .noSuchValue) := by
  have htag : m.tag (.scalar n (Tag.implicit a.text) a.text) = Tag.implicit a.text := by
    simp [Yaml.Merges.tag, Node.tag, (Tag.of_isPlain a.isPlain_tag).2.1]
  rw [← scalarValue_atom n a]
  simp [Node.scalar?, Node.text_scalar, htag]

@[simp] theorem Piece.isShort_blanks (b : Blanks) : (blanks b).isShort = true := rfl

@[simp] theorem Piece.isShort_string (ps : List Part) : (string ps).isShort = true := rfl

@[simp] theorem Piece.isShort_label (l : Label) : (label l).isShort = true := rfl

/-- The keys of an object are texts. -/
theorem Members.isText_of_mirrors (members : Members) {es : List (Node × Node)}
    (h : members.Mirrors es) : ∀ e ∈ es, ∃ ps, IsText ps e.1 := by
  match members with
  | .last l b t a =>
    obtain ⟨k, x, rfl, hk, -⟩ := h
    exact List.forall_mem_singleton.mpr ⟨_, hk⟩
  | .more l b t a others =>
    obtain ⟨k, x, fs, rfl, hk, -, hfs⟩ := h
    exact List.forall_mem_cons.mpr ⟨⟨_, hk⟩, others.isText_of_mirrors hfs⟩

/-- A node with all its parts stands for values of a JSON text, and its numbers have values. -/
inductive IsPart : Node → Prop
  | atom {a : Atom} (n : Nat) (hshort : a.pieces.all Piece.isShort = true) :
    IsPart (.scalar n (Tag.implicit a.text) a.text)
  | text (n : Nat) (s : List Char) : IsPart (.scalar n .str s)
  | sequence (n : Nat) {xs : List Node} (hitems : ∀ x ∈ xs, IsPart x) : IsPart (.sequence n .seq xs)
  | mapping (n : Nat) {es : List (Node × Node)} (hkeys : ∀ e ∈ es, ∃ ps, IsText ps e.1)
    (hvalues : ∀ e ∈ es, IsPart e.2) : IsPart (.mapping n .map es)

mutual

/-- A tree whose numbers are short enough has nodes with values. -/
theorem Tree.isPart_of_mirrors (t : Tree) {x : Node} (h : t.Mirrors x)
    (hshort : ∀ p ∈ t.pieces, p.isShort = true) : IsPart x := by
  match t with
  | .atom a =>
    obtain ⟨n, rfl⟩ := h
    exact .atom n (List.all_eq_true.mpr hshort)
  | .string ps =>
    obtain ⟨n, rfl⟩ := h
    exact .text n _
  | .emptyArray _ =>
    obtain ⟨n, rfl⟩ := h
    exact .sequence n (List.forall_mem_nil _)
  | .array items =>
    obtain ⟨n, xs, rfl, hxs⟩ := h
    exact .sequence n (items.isPart_of_mirrors hxs fun p hp => hshort p (by simp [Tree.pieces, hp]))
  | .emptyObject _ =>
    obtain ⟨n, rfl⟩ := h
    exact .mapping n (List.forall_mem_nil _) (List.forall_mem_nil _)
  | .object members =>
    obtain ⟨n, es, rfl, hes⟩ := h
    exact .mapping n (members.isText_of_mirrors hes)
      (members.isPart_of_mirrors hes fun p hp => hshort p (by simp [Tree.pieces, hp]))

theorem Items.isPart_of_mirrors (items : Items) {xs : List Node} (h : items.Mirrors xs)
    (hshort : ∀ p ∈ items.pieces, p.isShort = true) : ∀ x ∈ xs, IsPart x := by
  match items with
  | .last b t a =>
    obtain ⟨x, rfl, hx⟩ := h
    exact List.forall_mem_singleton.mpr
      (t.isPart_of_mirrors hx fun p hp => hshort p (by simp [Items.pieces, hp]))
  | .more b t a others =>
    obtain ⟨x, ys, rfl, hx, hys⟩ := h
    exact List.forall_mem_cons.mpr
      ⟨t.isPart_of_mirrors hx fun p hp => hshort p (by simp [Items.pieces, hp]),
        others.isPart_of_mirrors hys fun p hp => hshort p (by simp [Items.pieces, hp])⟩

theorem Members.isPart_of_mirrors (members : Members) {es : List (Node × Node)}
    (h : members.Mirrors es) (hshort : ∀ p ∈ members.pieces, p.isShort = true) :
    ∀ e ∈ es, IsPart e.2 := by
  match members with
  | .last l b t a =>
    obtain ⟨k, x, rfl, -, hx⟩ := h
    exact List.forall_mem_singleton.mpr
      (t.isPart_of_mirrors hx fun p hp => hshort p (by simp [Members.pieces, hp]))
  | .more l b t a others =>
    obtain ⟨k, x, fs, rfl, -, hx, hfs⟩ := h
    exact List.forall_mem_cons.mpr
      ⟨t.isPart_of_mirrors hx fun p hp => hshort p (by simp [Members.pieces, hp]),
        others.isPart_of_mirrors hfs fun p hp => hshort p (by simp [Members.pieces, hp])⟩

end

/-- The parts of such a node are such nodes. -/
theorem IsPart.within {x : Node} (h : IsPart root) (hx : Within root x) : IsPart x := by
  induction hx with
  | root => exact h
  | @part x y _ hpart ih =>
    cases ih with
    | atom | text => cases hpart
    | sequence n hitems => exact hitems y hpart
    | mapping n hkeys hvalues =>
      obtain ⟨e, he, rfl | rfl⟩ := Node.mem_entryParts.mp hpart
      · obtain ⟨ps, k, hk⟩ := hkeys e he
        exact hk ▸ .text k _
      · exact hvalues e he

/-- Their tree is plain. -/
theorem IsPart.plain (h : IsPart root) : root.Plain where
  scalar hx := by
    cases h.within hx with
    | @atom a => exact a.isPlain_tag
    | text => rfl
  sequence hx := by
    cases h.within hx with
    | sequence => rfl
  mapping hx := by
    cases h.within hx with
    | mapping n hkeys hvalues =>
      refine ⟨rfl, fun e he => ?_⟩
      obtain ⟨ps, k, hk⟩ := hkeys e he
      rw [hk]
      rfl

/-- Its scalars have values. -/
theorem IsPart.not_lacksValue (h : IsPart root) {f : Yaml.Fault} : ¬root.LacksValue f := by
  rintro ⟨n, t, s, hx, hf⟩
  cases h.within hx with
  | @atom a _ hshort =>
    rw [scalarValue_atom, if_pos hshort] at hf
    cases hf
  | text => cases hf

section

variable [Machine]

mutual

/-- The nodes of a tree have values if its numbers have, and then the values that `read` says. -/
theorem Tree.value_of_mirrors (t : Tree) {x : Node} (hd : d.Sound root [] 0) (hroot : root.Numbered)
    (h : t.Mirrors x) (hx : Within root x) (hmet : x.number ∈ d.met) :
    (∀ p ∈ t.pieces, p.isShort = true) ∧ d.value x = read.tree t := by
  match t with
  | .atom a =>
    obtain ⟨n, rfl⟩ := h
    obtain ⟨m, hm⟩ := hd.value_scalar hroot hx hmet (Tag.of_isPlain a.isPlain_tag).1
    rw [a.scalar?_eq] at hm
    split at hm
    · next hshort =>
      exact ⟨List.all_eq_true.mp hshort, (Except.ok.inj hm).symm⟩
    · cases hm
  | .string ps =>
    refine ⟨by simp [Tree.pieces], ?_⟩
    exact hd.value_of_spells hroot hx hmet h.spells
  | .emptyArray b =>
    obtain ⟨n, rfl⟩ := h
    refine ⟨by simp [Tree.pieces], ?_⟩
    exact (hd.value_sequence hroot hx hmet).1
  | .array items =>
    obtain ⟨n, xs, rfl, hxs⟩ := h
    obtain ⟨hvalue, hmets⟩ := hd.value_sequence hroot hx hmet
    obtain ⟨hshort, hvalues⟩ := items.values_of_mirrors hd hroot hxs
      fun y hy => ⟨hx.part hy, hmets y hy⟩
    exact ⟨hshort, by rw [hvalue, hvalues]; rfl⟩
  | .emptyObject b =>
    obtain ⟨n, rfl⟩ := h
    refine ⟨by simp [Tree.pieces], ?_⟩
    obtain ⟨before, hvalue, -, hbefore⟩ := hd.value_eq_map hroot hx hmet
    rw [hvalue, hbefore nofun]
    rfl
  | .object members =>
    obtain ⟨n, es, rfl, hes⟩ := h
    obtain ⟨before, hvalue, hown, hbefore⟩ := hd.value_eq_map hroot hx hmet
    have hmerge : ∀ e ∈ es, e.1.tag ≠ .merge := by
      intro e he
      obtain ⟨ps, k, hk⟩ := members.isText_of_mirrors hes e he
      rw [hk]
      exact nofun
    rw [Yaml.Node.ownEntries_of_no_merge hmerge] at hvalue hown
    obtain ⟨hshort, hentries⟩ := members.entries_of_mirrors hd hroot hes hown
    refine ⟨hshort, ?_⟩
    rw [hvalue, hbefore hmerge, List.nil_append, Draft.mapEntries, hentries]
    rfl

theorem Items.values_of_mirrors (items : Items) {xs : List Node} (hd : d.Sound root [] 0)
    (hroot : root.Numbered) (h : items.Mirrors xs)
    (hxs : ∀ x ∈ xs, Within root x ∧ x.number ∈ d.met) :
    (∀ p ∈ items.pieces, p.isShort = true) ∧ xs.map d.value = read.items items := by
  match items with
  | .last b t a =>
    obtain ⟨x, rfl, hx⟩ := h
    obtain ⟨hw, hmet⟩ := List.forall_mem_singleton.mp hxs
    obtain ⟨hshort, hvalue⟩ := t.value_of_mirrors hd hroot hx hw hmet
    refine ⟨?_, by rw [List.map_singleton, hvalue]; rfl⟩
    simpa [Items.pieces, or_imp, forall_and] using hshort
  | .more b t a others =>
    obtain ⟨x, ys, rfl, hx, hys⟩ := h
    obtain ⟨⟨hw, hmet⟩, hrest⟩ := List.forall_mem_cons.mp hxs
    obtain ⟨hshort, hvalue⟩ := t.value_of_mirrors hd hroot hx hw hmet
    obtain ⟨hshorts, hvalues⟩ := others.values_of_mirrors hd hroot hys hrest
    refine ⟨?_, by rw [List.map_cons, hvalue, hvalues]; rfl⟩
    simpa [Items.pieces, or_imp, forall_and] using ⟨hshort, hshorts⟩

theorem Members.entries_of_mirrors (members : Members) {es : List (Node × Node)}
    (hd : d.Sound root [] 0) (hroot : root.Numbered) (h : members.Mirrors es)
    (hes : ∀ y ∈ Node.entryParts es, Within root y ∧ y.number ∈ d.met) :
    (∀ p ∈ members.pieces, p.isShort = true) ∧
      (es.map fun e => (d.value e.1, d.value e.2)) = read.members members := by
  match members with
  | .last l b t a =>
    obtain ⟨k, x, rfl, hk, hx⟩ := h
    simp only [Node.entryParts_cons, List.forall_mem_cons] at hes
    obtain ⟨⟨hkw, hkm⟩, ⟨hw, hmet⟩, -⟩ := hes
    have hname := hd.value_of_spells hroot hkw hkm hk.spells
    obtain ⟨hshort, hvalue⟩ := t.value_of_mirrors hd hroot hx hw hmet
    refine ⟨?_, by rw [List.map_singleton, hname, hvalue]; rfl⟩
    simpa [Members.pieces, Label.pieces, or_imp, forall_and] using hshort
  | .more l b t a others =>
    obtain ⟨k, x, fs, rfl, hk, hx, hfs⟩ := h
    simp only [Node.entryParts_cons, List.forall_mem_cons] at hes
    obtain ⟨⟨hkw, hkm⟩, ⟨hw, hmet⟩, hrest⟩ := hes
    have hname := hd.value_of_spells hroot hkw hkm hk.spells
    obtain ⟨hshort, hvalue⟩ := t.value_of_mirrors hd hroot hx hw hmet
    obtain ⟨hshorts, hentries⟩ := others.entries_of_mirrors hd hroot hfs hrest
    refine ⟨?_, by rw [List.map_cons, hname, hvalue, hentries]; rfl⟩
    simpa [Members.pieces, Label.pieces, or_imp, forall_and] using ⟨hshort, hshorts⟩

end

end

theorem Document.isShort_pieces (doc : Document) :
    (∀ p ∈ doc.pieces, p.isShort = true) ↔ ∀ p ∈ doc.root.pieces, p.isShort = true := by
  simp [Document.pieces, or_imp, forall_and]

/-- A text that denotes an object is read if it can be, and then as `read` says. -/
theorem Document.load_stored_iff [Machine] (doc : Document) (ht : doc.root.isObject = true) (v : Value) :
    Yaml.load (String.ofList (Text.stored doc.text)) = .ok v ↔
      doc.Readable ∧ read.tree doc.root = v := by
  rw [Yaml.load, String.toList_ofList]
  rcases doc.readNode_stored ht with ⟨hfound, x, hx, hmirrors⟩ | ⟨hfound, hx⟩
  · have hroot := Node.numbered_of_readNode hx
    rw [hx]
    dsimp only
    constructor
    · intro hbuild
      obtain ⟨d, hd, hmet, rfl⟩ := Node.build_eq_ok hroot hbuild
      obtain ⟨hshort, hvalue⟩ := doc.root.value_of_mirrors hd hroot hmirrors .root hmet
      exact ⟨⟨hfound, doc.isShort_pieces.mpr hshort⟩, hvalue.symm⟩
    · rintro ⟨hreadable, rfl⟩
      have hshort := doc.isShort_pieces.mp hreadable.short
      have hpart : IsPart x := doc.root.isPart_of_mirrors hmirrors hshort
      obtain ⟨v, hv⟩ := (hpart.plain.build_ok_iff hroot).mpr fun ⟨f, hf⟩ => hpart.not_lacksValue hf
      obtain ⟨d, hd, hmet, rfl⟩ := Node.build_eq_ok hroot hv
      rw [hv, (doc.root.value_of_mirrors hd hroot hmirrors .root hmet).2]
  · refine ⟨fun hload => ?_, fun h => absurd h.1.toIsFound hfound⟩
    split at hload
    · cases hload
    · next hnone => exact absurd hnone (hx none)
    · next node hnode => exact absurd hnode (hx (some node))

end RowModel.Json
