import RowModel.Yaml.Node

/-!
A document as what its root is made of. The nodes of a document are told apart by their numbers, and
a node has a higher number than its parts; so whatever is kept by number is kept by node.
-/
namespace RowModel.Yaml.Node

mutual
def decEq : (x y : Node) → Decidable (x = y)
  | scalar n t s, scalar n' t' s' =>
    if h : n = n' ∧ t = t' ∧ s = s' then .isTrue (by rw [h.1, h.2.1, h.2.2])
    else .isFalse (by simpa using h)
  | sequence n t xs, sequence n' t' ys =>
    if h : n = n' ∧ t = t' then
      match decEqItems xs ys with
      | .isTrue hs => .isTrue (by rw [h.1, h.2, hs])
      | .isFalse hs => .isFalse (by simp [hs])
    else .isFalse (by simpa using fun hn ht => absurd ⟨hn, ht⟩ h)
  | mapping n t es, mapping n' t' fs =>
    if h : n = n' ∧ t = t' then
      match decEqEntries es fs with
      | .isTrue hs => .isTrue (by rw [h.1, h.2, hs])
      | .isFalse hs => .isFalse (by simp [hs])
    else .isFalse (by simpa using fun hn ht => absurd ⟨hn, ht⟩ h)
  | scalar _ _ _, sequence _ _ _ | scalar _ _ _, mapping _ _ _
  | sequence _ _ _, scalar _ _ _ | sequence _ _ _, mapping _ _ _
  | mapping _ _ _, scalar _ _ _ | mapping _ _ _, sequence _ _ _ => .isFalse nofun
def decEqItems : (xs ys : List Node) → Decidable (xs = ys)
  | [], [] => .isTrue rfl
  | [], _ :: _ | _ :: _, [] => .isFalse nofun
  | x :: xs, y :: ys =>
    match decEq x y, decEqItems xs ys with
    | .isTrue h, .isTrue hs => .isTrue (by rw [h, hs])
    | .isFalse h, _ => .isFalse (by simp [h])
    | _, .isFalse hs => .isFalse (by simp [hs])
def decEqEntries : (es fs : List (Node × Node)) → Decidable (es = fs)
  | [], [] => .isTrue rfl
  | [], _ :: _ | _ :: _, [] => .isFalse nofun
  | (k, v) :: es, (k', v') :: fs =>
    match decEq k k', decEq v v', decEqEntries es fs with
    | .isTrue hk, .isTrue hv, .isTrue hs => .isTrue (by rw [hk, hv, hs])
    | .isFalse hk, _, _ => .isFalse (by simp [hk])
    | _, .isFalse hv, _ => .isFalse (by simp [hv])
    | _, _, .isFalse hs => .isFalse (by simp [hs])
end

instance : DecidableEq Node := decEq

def entryParts (es : List (Node × Node)) : List Node := es.flatMap fun e => [e.1, e.2]

def parts : Node → List Node
  | scalar _ _ _ => []
  | sequence _ _ items => items
  | mapping _ _ es => entryParts es

/-- A node stands somewhere in the tree of another. -/
inductive Within (root : Node) : Node → Prop
  | root : Within root root
  | part {x y : Node} : Within root x → y ∈ x.parts → Within root y

structure Numbered (root : Node) : Prop where
  part_lt : ∀ {x y}, Within root x → y ∈ x.parts → y.number < x.number
  eq_of_number : ∀ {x y}, Within root x → Within root y → x.number = y.number → x = y

@[simp] theorem parts_scalar (n : Nat) (t : Tag) (s : List Char) : (scalar n t s).parts = [] := rfl
@[simp] theorem parts_sequence (n : Nat) (t : Tag) (items : List Node) :
    (sequence n t items).parts = items := rfl
@[simp] theorem parts_mapping (n : Nat) (t : Tag) (es : List (Node × Node)) :
    (mapping n t es).parts = entryParts es := rfl

@[simp] theorem number_scalar (n : Nat) (t : Tag) (s : List Char) :
    (scalar n t s).number = n := rfl
@[simp] theorem number_sequence (n : Nat) (t : Tag) (items : List Node) :
    (sequence n t items).number = n := rfl
@[simp] theorem number_mapping (n : Nat) (t : Tag) (es : List (Node × Node)) :
    (mapping n t es).number = n := rfl

@[simp] theorem entryParts_nil : entryParts [] = [] := rfl
@[simp] theorem entryParts_cons (e : Node × Node) (es : List (Node × Node)) :
    entryParts (e :: es) = e.1 :: e.2 :: entryParts es := rfl

/-- The parts of a mapping are the two nodes of each of its entries. -/
theorem mem_entryParts {es : List (Node × Node)} {y : Node} :
    y ∈ entryParts es ↔ ∃ e ∈ es, y = e.1 ∨ y = e.2 := by
  simp [entryParts, List.mem_flatMap]

/-- The nodes of the entries of a mapping stand in the tree. -/
theorem Within.of_mem_entries {root : Node} {n : Nat} {t : Tag} {es : List (Node × Node)}
    (h : Within root (mapping n t es)) {e : Node × Node} (he : e ∈ es) :
    Within root e.1 ∧ Within root e.2 :=
  ⟨h.part (mem_entryParts.mpr ⟨e, he, .inl rfl⟩), h.part (mem_entryParts.mpr ⟨e, he, .inr rfl⟩)⟩

end RowModel.Yaml.Node
