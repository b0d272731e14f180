import RowModel.Proofs.Document.Tree
import RowModel.Yaml.Node.Read

/-!
A register of the nodes that a reader has completed, each at the place of its number. A reading step
keeps it when it only adds to it and all that the step gives is in it; a step that fails is at a loss
with the tokens, has gone too deep, has met a collection inside itself or a fault among the tokens.
-/
namespace RowModel.Yaml.Node

/-- The register has the node at the place of its number. -/
def Registered (nodes : List Node) (x : Node) : Prop := nodes[x.number]? = some x

/-- Every node is at the place of its number, and its parts are at lower ones. -/
structure IsRegister (nodes : List Node) : Prop where
  empty : Registered nodes Node.empty
  number : ∀ {i : Nat} {x : Node}, nodes[i]? = some x → x.number = i
  parts : ∀ {i : Nat} {x y : Node}, nodes[i]? = some x → y ∈ x.parts →
    y.number < i ∧ Registered nodes y

theorem Registered.grown {nodes nodes' : List Node} {x : Node} (h : Registered nodes x)
    (hp : nodes <+: nodes') : Registered nodes' x := by
  obtain ⟨more, rfl⟩ := hp
  have hlt := (List.getElem?_eq_some_iff.mp h).1
  rw [Registered, List.getElem?_append_left hlt]
  exact h

namespace IsRegister

variable {nodes : List Node} {root : Node}

theorem start : IsRegister [Node.empty] where
  empty := rfl
  number {i x} h := by
    obtain ⟨hi, rfl⟩ := List.getElem?_eq_some_iff.mp h
    obtain rfl : i = 0 := by simpa using hi
    rfl
  parts {i x y} h hy := by
    obtain ⟨hi, rfl⟩ := List.getElem?_eq_some_iff.mp h
    obtain rfl : i = 0 := by simpa using hi
    cases hy

/-- A register grows by a node whose parts it has. -/
theorem push (h : IsRegister nodes) {x : Node} (hn : x.number = nodes.length)
    (hparts : ∀ y ∈ x.parts, Registered nodes y) : IsRegister (nodes ++ [x]) := by
  have hp : nodes <+: nodes ++ [x] := List.prefix_append nodes [x]
  have hcases : ∀ {i y}, (nodes ++ [x])[i]? = some y →
      nodes[i]? = some y ∨ i = nodes.length ∧ y = x := by
    intro i y hi
    rw [List.getElem?_append] at hi
    split at hi
    · exact .inl hi
    · next hle =>
      obtain ⟨hlt, rfl⟩ := List.getElem?_eq_some_iff.mp hi
      rw [List.length_singleton] at hlt
      exact .inr ⟨by omega, by simp⟩
  refine ⟨h.empty.grown hp, fun hi => ?_, fun hi hy => ?_⟩
  · rcases hcases hi with hi | ⟨rfl, rfl⟩
    · exact h.number hi
    · exact hn
  · rcases hcases hi with hi | ⟨rfl, rfl⟩
    · obtain ⟨hlt, hy⟩ := h.parts hi hy
      exact ⟨hlt, hy.grown hp⟩
    · have hy := hparts _ hy
      exact ⟨(List.getElem?_eq_some_iff.mp hy).1, hy.grown hp⟩

/-- With a node all nodes of its tree are in the register. -/
theorem registered_of_within (h : IsRegister nodes) (hroot : Registered nodes root) {x : Node}
    (hx : Within root x) : Registered nodes x := by
  induction hx with
  | root => exact hroot
  | part _ hpart ih => exact (h.parts ih hpart).2

/-- A tree in a register is numbered: a node is known by its number, and its parts have lower ones.
-/
theorem numbered (h : IsRegister nodes) (hroot : Registered nodes root) : root.Numbered where
  part_lt hx hy := (h.parts (h.registered_of_within hroot hx) hy).1
  eq_of_number {x y} hx hy hn := by
    have hrx := h.registered_of_within hroot hx
    have hry := h.registered_of_within hroot hy
    rw [Registered, hn, hry] at hrx
    exact (Option.some.inj hrx).symm

end IsRegister

/-- What a step may fail with while it looks at tokens. -/
inductive Foreseen (tokens : List Token) : Fault → Prop
  | illFormed : Foreseen tokens .illFormed
  | tooDeep : Foreseen tokens .tooDeep
  | endless : Foreseen tokens .endless
  | token {f : Fault} (h : .fault f ∈ tokens) : Foreseen tokens f

/-- A register of all nodes that a reader has completed. -/
structure Fits (nodes : List Node) (r : Reader) : Prop where
  register : IsRegister nodes
  length : nodes.length = r.count + 1
  anchors : ∀ {a x}, (a, some x) ∈ r.anchors → Registered nodes x

/-- A reader has come further and its register has grown. -/
structure Further (nodes : List Node) (r : Reader) (nodes' : List Node) (r' : Reader) : Prop where
  tokens : r'.tokens <:+ r.tokens
  nodes : nodes <+: nodes'
  fits : Fits nodes' r'

/-- What a step from a reader may give; `held` are the nodes in its result. -/
def Outcome {α : Type} (held : α → List Node) (nodes : List Node) (r : Reader) : Read α → Prop
  | .error f => Foreseen r.tokens f
  | .ok (a, r') => ∃ nodes', Further nodes r nodes' r' ∧ ∀ x ∈ held a, Registered nodes' x

def Keeps {α : Type} (held : α → List Node) (step : Reader → Read α) : Prop :=
  ∀ {nodes r}, Fits nodes r → Outcome held nodes r (step r)

theorem Foreseen.of_suffix {ts ts' : List Token} {f : Fault} (h : Foreseen ts' f)
    (hs : ts' <:+ ts) : Foreseen ts f := by
  cases h with
  | illFormed => exact .illFormed
  | tooDeep => exact .tooDeep
  | endless => exact .endless
  | token h => exact .token (hs.mem h)

theorem Reader.foreseen_unexpected (r : Reader) : Foreseen r.tokens r.unexpected := by
  unfold Reader.unexpected
  split
  · next f ts h => exact .token (h ▸ List.mem_cons_self)
  · exact .illFormed

theorem Reader.foreseen_of_comma {r : Reader} {first : Bool} {f : Fault}
    (h : r.comma first = .error f) : Foreseen r.tokens f := by
  unfold Reader.comma at h
  split at h
  · cases h
  · cases h
  · cases h
    exact r.foreseen_unexpected

theorem Reader.foreseen_of_properties {r : Reader} {handles : Handles} {f : Fault}
    (h : r.properties handles = .error f) : Foreseen r.tokens f := by
  unfold Reader.properties at h
  dsimp only at h
  split at h
  · split at h <;> cases h
    exact .illFormed
  · split at h <;> cases h
    exact .illFormed
  · next hts =>
    cases h
    exact .token (by rw [hts]; simp)
  · next hts =>
    cases h
    exact .token (by rw [hts]; simp)
  · cases h
  · split at h <;> cases h
    exact .illFormed
  · cases h

section

variable {α : Type} {held : α → List Node}
variable {nodes nodes' nodes'' : List Node} {r r' r'' : Reader}

theorem Further.refl (h : Fits nodes r) : Further nodes r nodes r :=
  ⟨List.suffix_rfl, List.prefix_rfl, h⟩

theorem Further.trans (h : Further nodes r nodes' r') (h' : Further nodes' r' nodes'' r'') :
    Further nodes r nodes'' r'' :=
  ⟨h'.tokens.trans h.tokens, h.nodes.trans h'.nodes, h'.fits⟩

theorem Fits.dropTo (h : Fits nodes r) {ts : List Token} (hs : ts <:+ r.tokens) :
    Further nodes r nodes (r.dropTo ts) :=
  ⟨hs, List.prefix_rfl, h.register, h.length, h.anchors⟩

theorem Fits.next (h : Fits nodes r) {t : Token} {ts : List Token} (hts : r.tokens = t :: ts) :
    Further nodes r nodes (r.dropTo ts) :=
  h.dropTo (hts ▸ List.suffix_cons t ts)

theorem Fits.deeper (h : Fits nodes r) : Further nodes r nodes r.deeper :=
  ⟨List.suffix_rfl, List.prefix_rfl, h.register, h.length, h.anchors⟩

theorem Fits.of_comma (hr : Fits nodes r) {first : Bool} (h : r.comma first = .ok r') :
    Further nodes r nodes r' := by
  unfold Reader.comma at h
  split at h
  · cases h
    exact .refl hr
  · next ts hts =>
    cases h
    exact hr.next hts
  · cases h

theorem Fits.of_properties (hr : Fits nodes r) {handles : Handles} {p : Properties}
    (h : r.properties handles = .ok (p, r')) : Further nodes r nodes r' := by
  unfold Reader.properties at h
  dsimp only at h
  split at h
  · next hts =>
    split at h <;> cases h
    exact hr.dropTo (by rw [hts]; exact ⟨[_, _], rfl⟩)
  · next hts =>
    split at h <;> cases h
    exact hr.dropTo (by rw [hts]; exact ⟨[_, _], rfl⟩)
  · cases h
  · cases h
  · next hts =>
    cases h
    exact hr.dropTo (by rw [hts]; exact ⟨[_], rfl⟩)
  · next hts =>
    split at h <;> cases h
    exact hr.dropTo (by rw [hts]; exact ⟨[_], rfl⟩)
  · cases h
    exact .refl hr

/-- To give a name to a node of the register is a step forward. -/
theorem Fits.name (hr : Fits nodes r) (anchor : Option (List Char)) (node : Option Node)
    (hnode : ∀ x ∈ node, Registered nodes x) : Further nodes r nodes (r.name anchor node) := by
  unfold Reader.name
  split
  · exact .refl hr
  · refine ⟨List.suffix_rfl, List.prefix_rfl, hr.register, hr.length, ?_⟩
    intro a x hx
    rcases List.mem_cons.mp hx with h | hx
    · cases h
      exact hnode x rfl
    · exact hr.anchors hx

/-- What was in the register before a step is in it with what the step gives. -/
theorem Further.registered_append (h : Further nodes r nodes' r') {xs ys : List Node}
    (hxs : ∀ x ∈ xs, Registered nodes x) (hys : ∀ y ∈ ys, Registered nodes' y) :
    ∀ x ∈ xs ++ ys, Registered nodes' x := by
  intro x hx
  rcases List.mem_append.mp hx with hx | hx
  · exact (hxs x hx).grown h.nodes
  · exact hys x hx

/-- What may come of a step later may come of it now. -/
theorem Outcome.further (h : Further nodes r nodes' r') {read : Read α}
    (hr : Outcome held nodes' r' read) : Outcome held nodes r read := by
  match read, hr with
  | .error f, hf => exact Foreseen.of_suffix hf h.tokens
  | .ok (a, r''), ⟨nodes'', h', ha⟩ => exact ⟨nodes'', h.trans h', ha⟩

theorem Outcome.ok (h : Further nodes r nodes' r') {a : α}
    (ha : ∀ x ∈ held a, Registered nodes' x) : Outcome held nodes r (.ok (a, r')) :=
  ⟨nodes', h, ha⟩

/-- A step fails as foreseen, or gives something that is in a larger register. -/
@[elab_as_elim]
theorem Outcome.elim {motive : Read α → Prop} {read : Read α} (h : Outcome held nodes r read)
    (error : ∀ f, Foreseen r.tokens f → motive (.error f))
    (ok : ∀ a nodes' r', Further nodes r nodes' r' → (∀ x ∈ held a, Registered nodes' x) →
      motive (.ok (a, r'))) : motive read := by
  match read, h with
  | .error f, hf => exact error f hf
  | .ok (a, r'), ⟨nodes', h', ha⟩ => exact ok a nodes' r' h' ha

theorem Fits.registered_empty (h : Fits nodes r) : ∀ x ∈ [Node.empty], Registered nodes x :=
  List.forall_mem_singleton.mpr h.register.empty

/-- A node is completed: it gets the next number and goes into the register. -/
theorem Outcome.complete (h : Fits nodes r) {make : Nat → Node}
    (hn : (make (r.count + 1)).number = r.count + 1)
    (hparts : ∀ y ∈ (make (r.count + 1)).parts, Registered nodes y) :
    Outcome ([·]) nodes r (.ok (r.complete make)) := by
  have hx : Registered (nodes ++ [make (r.count + 1)]) (make (r.count + 1)) := by
    rw [Registered, hn, ← h.length, List.getElem?_concat_length]
  refine ⟨_, ⟨List.suffix_rfl, List.prefix_append _ _, ?_, ?_, ?_⟩, List.forall_mem_singleton.mpr hx⟩
  · exact h.register.push (by rw [hn, h.length]) hparts
  · rw [List.length_append, h.length]
    rfl
  · intro a x ha
    exact (h.anchors ha).grown (List.prefix_append _ _)

end

theorem fits_start (tokens : List Token) : Fits [Node.empty] ⟨tokens, [], 0, 0⟩ :=
  ⟨.start, rfl, fun h => nomatch h⟩

end RowModel.Yaml.Node
