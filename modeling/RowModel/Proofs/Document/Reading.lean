import RowModel.Proofs.Document.Register
import RowModel.Yaml.Document

/-!
Every reading step keeps the register of nodes, one lemma for each kind of step. So a tree that has
been read is numbered, and tokens that cannot be read are ill-formed, go too deep, have a collection
inside itself or hold a fault.
-/
namespace RowModel.Yaml.Node

section

variable {r : Reader}

/-- Directives that cannot be read make a document ill-formed and nothing worse. -/
theorem eq_illFormed_of_readDirectives {f : Fault} (h : readDirectives r = .error f) :
    f = .illFormed := by
  unfold readDirectives at h
  dsimp only at h
  split at h <;> cases h
  rfl

theorem eq_dropTo_of_readDirectives {handles : Handles} {r' : Reader}
    (h : readDirectives r = .ok (handles, r')) : ∃ k, r' = r.dropTo (r.tokens.drop k) := by
  unfold readDirectives at h
  dsimp only at h
  split at h <;> cases h
  exact ⟨_, rfl⟩

theorem foreseen_of_endOfStream {f : Fault} (h : endOfStream r = .error f) :
    Foreseen r.tokens f := by
  unfold endOfStream at h
  dsimp only at h
  have hs : (r.dropTo (r.tokens.dropWhile (· == .documentEnd))).tokens <:+ r.tokens :=
    List.dropWhile_suffix _
  split at h
  · cases h
  · split at h
    · next f' hf =>
      cases h
      exact eq_illFormed_of_readDirectives hf ▸ .illFormed
    · next handles r' hr' =>
      cases h
      obtain ⟨k, rfl⟩ := eq_dropTo_of_readDirectives hr'
      exact (Reader.foreseen_unexpected _).of_suffix ((List.drop_suffix k _).trans hs)

end

section

variable [Machine] {handles : Handles} {n : Nat} {nodes : List Node} {r : Reader}

/-- Every reading function with this fuel keeps the register. -/
structure Reads (handles : Handles) (n : Nat) : Prop where
  node : ∀ place, Keeps ([·]) (read handles n place)
  content : ∀ place p, Keeps ([·]) (readContent handles n place p)
  unlessEnd : ∀ ends place, Keeps ([·]) (readUnless handles n ends place)
  value : ∀ ends place, Keeps ([·]) (readValue handles n ends place)
  blockItems : Keeps id (readBlockItems handles n)
  looseItems : Keeps id (readLooseItems handles n)
  blockEntries : Keeps entryParts (readBlockEntries handles n)
  flowItems : ∀ first, Keeps id (readFlowItems handles n first)
  flowItem : Keeps ([·]) (readFlowItem handles n)
  flowEntries : ∀ first, Keeps entryParts (readFlowEntries handles n first)
  flowEntry : Keeps (fun e => [e.1, e.2]) (readFlowEntry handles n)

theorem keeps_readUnless (h : Reads handles n) (ends : List Token) (place : Place) :
    Keeps ([·]) (readUnless handles (n + 1) ends place) := by
  intro nodes r hr
  rw [readUnless]
  split
  · exact .ok (.refl hr) hr.registered_empty
  · exact h.node place hr

theorem keeps_readValue (h : Reads handles n) (ends : List Token) (place : Place) :
    Keeps ([·]) (readValue handles (n + 1) ends place) := by
  intro nodes r hr
  rw [readValue]
  split
  · next ts hts =>
    have hd := hr.next hts
    exact .further hd (h.unlessEnd ends place hd.fits)
  · exact .ok (.refl hr) hr.registered_empty

theorem keeps_readBlockItems (h : Reads handles n) : Keeps id (readBlockItems handles (n + 1)) := by
  intro nodes r hr
  rw [readBlockItems]
  split
  · next ts hts =>
    have hd := hr.next hts
    refine .further hd (Outcome.elim (h.unlessEnd _ _ hd.fits) (fun _ hf => hf) ?_)
    intro item nodes₁ r₁ h₁ hitem
    dsimp only
    refine .further h₁ (Outcome.elim (h.blockItems h₁.fits) (fun _ hf => hf) ?_)
    intro items nodes₂ r₂ h₂ hitems
    exact .ok h₂ (h₂.registered_append hitem hitems)
  · next ts hts => exact .ok (hr.next hts) (List.forall_mem_nil _)
  · exact r.foreseen_unexpected

theorem keeps_readLooseItems (h : Reads handles n) : Keeps id (readLooseItems handles (n + 1)) := by
  intro nodes r hr
  rw [readLooseItems]
  split
  · next ts hts =>
    have hd := hr.next hts
    refine .further hd (Outcome.elim (h.unlessEnd _ _ hd.fits) (fun _ hf => hf) ?_)
    intro item nodes₁ r₁ h₁ hitem
    dsimp only
    refine .further h₁ (Outcome.elim (h.looseItems h₁.fits) (fun _ hf => hf) ?_)
    intro items nodes₂ r₂ h₂ hitems
    exact .ok h₂ (h₂.registered_append hitem hitems)
  · exact .ok (.refl hr) (List.forall_mem_nil _)

theorem keeps_readBlockEntries (h : Reads handles n) :
    Keeps entryParts (readBlockEntries handles (n + 1)) := by
  intro nodes r hr
  rw [readBlockEntries]
  split
  · next ts hts =>
    have hd := hr.next hts
    refine .further hd (Outcome.elim (h.unlessEnd _ _ hd.fits) (fun _ hf => hf) ?_)
    intro key nodes₁ r₁ h₁ hkey
    dsimp only
    refine .further h₁ (Outcome.elim (h.value _ _ h₁.fits) (fun _ hf => hf) ?_)
    intro value nodes₂ r₂ h₂ hvalue
    dsimp only
    refine .further h₂ (Outcome.elim (h.blockEntries h₂.fits) (fun _ hf => hf) ?_)
    intro entries nodes₃ r₃ h₃ hentries
    exact .ok h₃ (h₃.registered_append (h₂.registered_append hkey hvalue) hentries)
  · next ts hts => exact .ok (hr.next hts) (List.forall_mem_nil _)
  · exact r.foreseen_unexpected

/-- The items of a bracketed sequence keep the register if what is read with less fuel does. -/
theorem keeps_readFlowItems (h : Reads handles n) (first : Bool) :
    Keeps id (readFlowItems handles (n + 1) first) := by
  intro nodes r hr
  rw [readFlowItems]
  split
  · next ts hts => exact .ok (hr.next hts) (List.forall_mem_nil _)
  · split
    · next f hf => exact Reader.foreseen_of_comma hf
    · next r₁ hr₁ =>
      have hc := hr.of_comma hr₁
      refine .further hc ?_
      split
      · next ts hts =>
        exact .ok (hc.fits.next hts) (List.forall_mem_nil _)
      · refine Outcome.elim (h.flowItem hc.fits) (fun _ hf => hf) ?_
        intro item nodes₂ r₂ h₂ hitem
        dsimp only
        refine .further h₂ (Outcome.elim (h.flowItems _ h₂.fits) (fun _ hf => hf) ?_)
        intro items nodes₃ r₃ h₃ hitems
        exact .ok h₃ (h₃.registered_append hitem hitems)

theorem keeps_readFlowItem (h : Reads handles n) : Keeps ([·]) (readFlowItem handles (n + 1)) := by
  intro nodes r hr
  rw [readFlowItem]
  split
  · next ts hts =>
    have hd := hr.deeper.trans (hr.deeper.fits.next hts)
    refine .further hd (Outcome.elim (h.unlessEnd _ _ hd.fits) (fun _ hf => hf) ?_)
    intro key nodes₁ r₁ h₁ hkey
    dsimp only
    refine .further h₁ (Outcome.elim (h.value _ _ h₁.fits) (fun _ hf => hf) ?_)
    intro value nodes₂ r₂ h₂ hvalue
    have hparts := h₂.registered_append hkey hvalue
    exact .further h₂ (.complete h₂.fits rfl hparts)
  · exact h.node _ hr

theorem keeps_readFlowEntries (h : Reads handles n) (first : Bool) :
    Keeps entryParts (readFlowEntries handles (n + 1) first) := by
  intro nodes r hr
  rw [readFlowEntries]
  split
  · next ts hts => exact .ok (hr.next hts) (List.forall_mem_nil _)
  · split
    · next f hf => exact Reader.foreseen_of_comma hf
    · next r₁ hr₁ =>
      have hc := hr.of_comma hr₁
      refine .further hc ?_
      split
      · next ts hts =>
        exact .ok (hc.fits.next hts) (List.forall_mem_nil _)
      · refine Outcome.elim (h.flowEntry hc.fits) (fun _ hf => hf) ?_
        intro entry nodes₂ r₂ h₂ hentry
        dsimp only
        refine .further h₂ (Outcome.elim (h.flowEntries _ h₂.fits) (fun _ hf => hf) ?_)
        intro entries nodes₃ r₃ h₃ hentries
        exact .ok h₃ (h₃.registered_append hentry hentries)

theorem keeps_readFlowEntry (h : Reads handles n) :
    Keeps (fun e => [e.1, e.2]) (readFlowEntry handles (n + 1)) := by
  intro nodes r hr
  rw [readFlowEntry]
  split
  · next ts hts =>
    have hd := hr.next hts
    refine .further hd (Outcome.elim (h.unlessEnd _ _ hd.fits) (fun _ hf => hf) ?_)
    intro key nodes₁ r₁ h₁ hkey
    dsimp only
    refine .further h₁ (Outcome.elim (h.value _ _ h₁.fits) (fun _ hf => hf) ?_)
    intro value nodes₂ r₂ h₂ hvalue
    exact .ok h₂ (h₂.registered_append hkey hvalue)
  · refine Outcome.elim (h.node _ hr) (fun _ hf => hf) ?_
    intro key nodes₁ r₁ h₁ hkey
    exact .ok h₁ ((Further.refl h₁.fits).registered_append hkey h₁.fits.registered_empty)

/-- So does a node after its properties, which gets its number here. -/
theorem keeps_readContent (h : Reads handles n) (place : Place) (p : Properties) :
    Keeps ([·]) (readContent handles (n + 1) place p) := by
  intro nodes r hr
  rw [readContent]
  split
  · next text plain ts hts =>
    have hd := hr.next hts
    exact .further hd (.complete hd.fits rfl (List.forall_mem_nil _))
  · next ts hts =>
    have hd := hr.next hts
    refine .further hd (Outcome.elim (h.flowItems _ hd.fits) (fun _ hf => hf) ?_)
    intro items nodes₁ r₁ h₁ hitems
    exact .further h₁ (.complete h₁.fits rfl hitems)
  · next ts hts =>
    have hd := hr.next hts
    refine .further hd (Outcome.elim (h.flowEntries _ hd.fits) (fun _ hf => hf) ?_)
    intro entries nodes₁ r₁ h₁ hentries
    exact .further h₁ (.complete h₁.fits rfl hentries)
  · next t ts _ _ _ hts =>
    have hd := hr.next hts
    split
    · refine .further hd (Outcome.elim (h.blockItems hd.fits) (fun _ hf => hf) ?_)
      intro items nodes₁ r₁ h₁ hitems
      exact .further h₁ (.complete h₁.fits rfl hitems)
    · split
      · refine .further hd (Outcome.elim (h.blockEntries hd.fits) (fun _ hf => hf) ?_)
        intro entries nodes₁ r₁ h₁ hentries
        exact .further h₁ (.complete h₁.fits rfl hentries)
      · split
        · refine Outcome.elim (h.looseItems hr) (fun _ hf => hf) ?_
          intro items nodes₁ r₁ h₁ hitems
          exact .further h₁ (.complete h₁.fits rfl hitems)
        · split
          · exact r.foreseen_unexpected
          · exact .complete hr rfl (List.forall_mem_nil _)
  · exact .illFormed

/-- So does a node with its properties; an alias is in the register already. -/
theorem keeps_read (h : Reads handles n) (place : Place) :
    Keeps ([·]) (read handles (n + 1) place) := by
  intro nodes r hr
  rw [read]
  split
  · next a ts hts =>
    split
    · next node hnode =>
      obtain ⟨before, after, hmem, -⟩ := List.lookup_eq_some_iff.mp hnode
      have hx := hr.anchors (hmem ▸ List.mem_append_right before List.mem_cons_self)
      exact .ok (hr.next hts) (List.forall_mem_singleton.mpr hx)
    · exact .endless
    · exact .illFormed
  · split
    · next f hf => exact Reader.foreseen_of_properties hf
    · next p r₁ hp =>
      have h₁ := hr.of_properties hp
      refine .further h₁ ?_
      split
      · next f ts hts => exact .token (hts ▸ List.mem_cons_self)
      · split
        · exact .tooDeep
        · split
          · exact .illFormed
          · have hn := h₁.fits.deeper.trans (h₁.fits.deeper.fits.name p.anchor none nofun)
            refine .further hn (Outcome.elim (h.content _ _ hn.fits) (fun _ hf => hf) ?_)
            intro node nodes₂ r₂ h₂ hnode
            have hnode' := List.forall_mem_singleton.mp hnode
            exact .ok (h₂.trans (h₂.fits.name p.anchor (some node) (by simpa using hnode'))) hnode

/-- Every reading function keeps the register, by induction on the fuel. -/
theorem reads (handles : Handles) (n : Nat) : Reads handles n := by
  induction n with
  | zero => constructor <;> intros <;> intro nodes r _ <;> exact .illFormed
  | succ n ih =>
    exact {
      node := keeps_read ih
      content := keeps_readContent ih
      unlessEnd := keeps_readUnless ih
      value := keeps_readValue ih
      blockItems := keeps_readBlockItems ih
      looseItems := keeps_readLooseItems ih
      blockEntries := keeps_readBlockEntries ih
      flowItems := keeps_readFlowItems ih
      flowItem := keeps_readFlowItem ih
      flowEntries := keeps_readFlowEntries ih
      flowEntry := keeps_readFlowEntry ih }

/-- A document keeps the register. -/
theorem keeps_readDocument (fuel : Nat) : Keeps ([·]) (readDocument fuel) := by
  intro nodes r hr
  unfold readDocument
  split
  case h_3 => exact (reads _ _).node _ hr
  -- Directives and the marker begin a document in the same way.
  all_goals
    split
    · next f hf => exact eq_illFormed_of_readDirectives hf ▸ .illFormed
    · next handles r₁ hr₁ =>
      obtain ⟨k, rfl⟩ := eq_dropTo_of_readDirectives hr₁
      have h₁ := hr.dropTo (List.drop_suffix k r.tokens)
      refine .further h₁ ?_
      split
      · next ts hts =>
        have hd := h₁.fits.next hts
        dsimp only
        split
        · exact .ok hd hd.fits.registered_empty
        · exact .further hd ((reads _ _).unlessEnd _ _ hd.fits)
      · exact Reader.foreseen_unexpected _

end

variable [Machine]

/-- A tree that has been read is numbered. -/
theorem numbered_of_readNode {text : List Char} {root : Node} (h : readNode text = .ok (some root)) :
    root.Numbered := by
  unfold readNode at h
  split at h
  · cases h
  · next source _ =>
    unfold ofTokens at h
    split at h
    · cases h
    · have hread := keeps_readDocument (4 * (Token.ofSource source).length + 8)
        (fits_start (Token.ofSource source))
      split at h
      · cases h
      · next node r hr =>
        rw [hr] at hread
        obtain ⟨nodes, hnodes, hnode⟩ := hread
        split at h <;> cases h
        exact hnodes.fits.register.numbered (List.forall_mem_singleton.mp hnode)

/-- Tokens that cannot be read are ill-formed, go too deep, have no end or hold a fault. -/
theorem foreseen_of_ofTokens {tokens : List Token} {f : Fault} (h : ofTokens tokens = .error f) :
    Foreseen tokens f := by
  unfold ofTokens at h
  split at h
  · cases h
  · have hread := keeps_readDocument (4 * tokens.length + 8) (fits_start tokens)
    split at h
    · next f' hf =>
      cases h
      rw [hf] at hread
      exact hread
    · next node r hr =>
      rw [hr] at hread
      obtain ⟨nodes, hnodes, -⟩ := hread
      split at h
      · next f' hf =>
        cases h
        exact (foreseen_of_endOfStream hf).of_suffix hnodes.tokens
      · cases h

end RowModel.Yaml.Node
