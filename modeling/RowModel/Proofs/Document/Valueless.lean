import RowModel.Proofs.Document.Merging
import RowModel.Yaml.Node.Build

/-!
Which nodes may have no value. A node that is taken for a scalar is ill-formed or lacks a value, and a
value can be lacking only under the tag of a truth value, of a number or of a date.
-/
namespace RowModel.Yaml

def IsNoValue (e : Fault) : Prop := ∃ f, e = .noValue f

/-- Tags of scalars that may have no value. -/
def Tag.mayFail : Tag → Bool
  | .bool | .int | .float | .timestamp => true
  | _ => false

/-- Tags that no scalar is ill-formed under. -/
def Tag.isPlain : Tag → Bool
  | .null | .str | .bool | .int | .float | .timestamp => true
  | _ => false

/-- A plain tag is no collection, no merge key and no key for a text. -/
theorem Tag.of_isPlain {t : Tag} (h : t.isPlain = true) :
    t.isCollection = false ∧ t ≠ .value ∧ t ≠ .merge := by
  cases t with
  | null | str | bool | int | float | timestamp => exact ⟨rfl, nofun, nofun⟩
  | binary | omap | pairs | set | seq | map | merge | value | unknown => cases h

theorem wholeOr_meets (base : Nat) (s : List Char) :
    Meets IsNoValue (wholeOr base s) fun _ => True := by
  unfold wholeOr
  split
  · exact .ok trivial
  · exact .error ⟨_, rfl⟩

theorem decimalOr_meets (s : List Char) : Meets IsNoValue (decimalOr s) fun _ => True := by
  unfold decimalOr
  split
  · exact .ok trivial
  · exact .error ⟨_, rfl⟩

theorem unsignedInt_meets (s : List Char) : Meets IsNoValue (unsignedInt s) fun _ => True := by
  unfold unsignedInt
  split
  · exact .error ⟨_, rfl⟩
  · exact .ok trivial
  · exact wholeOr_meets _ _
  · exact wholeOr_meets _ _
  · exact wholeOr_meets _ _
  · split
    · exact (Meets.mapM fun _ _ => wholeOr_meets _ _).map
    · exact wholeOr_meets _ _

theorem intValue_meets (s : List Char) : Meets IsNoValue (intValue s) fun _ => True := by
  unfold intValue
  dsimp only
  split
  · exact .error ⟨_, rfl⟩
  · exact (unsignedInt_meets _).map

/-- Places of base sixty have a value unless a weight is too large, whatever has been added up. -/
theorem sixtieths_meets (places : List Float) (total : Float) (weight : Nat) :
    Meets IsNoValue (sixtieths total weight places) fun _ => True := by
  induction places generalizing total weight with
  | nil => exact .ok trivial
  | cons p r ih =>
    rw [sixtieths]
    split
    · exact .error ⟨_, rfl⟩
    · exact ih _ _

theorem unsignedFloat_meets (s : List Char) : Meets IsNoValue (unsignedFloat s) fun _ => True := by
  unfold unsignedFloat
  split
  · exact .ok trivial
  · split
    · exact .bind ((Meets.mapM fun _ _ => decimalOr_meets _).mono fun _ _ => sixtieths_meets _ _ _)
    · exact decimalOr_meets s

theorem floatValue_meets (mark : Nat) (s : List Char) :
    Meets IsNoValue (floatValue mark s) fun _ => True := by
  unfold floatValue
  dsimp only
  split
  · exact .error ⟨_, rfl⟩
  · split
    · exact .ok trivial
    · exact (unsignedFloat_meets _).map

theorem boolValue_meets (s : List Char) : Meets IsNoValue (boolValue s) fun _ => True := by
  unfold boolValue
  split
  · exact .ok trivial
  · exact .error ⟨_, rfl⟩

theorem timestampValue_meets (s : List Char) :
    Meets IsNoValue (timestampValue s) fun _ => True := by
  unfold timestampValue
  dsimp only
  split
  · exact .error ⟨_, rfl⟩
  · next t _ =>
    split
    · cases t.date?.map Value.date with
      | none => exact .error ⟨_, rfl⟩
      | some v => exact .ok trivial
    · next c _ =>
      cases (t.moment? c).map Value.moment with
      | none => exact .error ⟨_, rfl⟩
      | some v => exact .ok trivial

theorem binaryValue_meets (s : List Char) :
    Meets (· = .illFormed) (binaryValue s) fun _ => True := by
  unfold binaryValue
  split
  · split
    · exact .ok trivial
    · exact .error rfl
  · exact .error rfl

/-- Under a plain tag a scalar has a value or lacks one, and it lacks none under `null` and `str`. -/
theorem scalarValue_meets_of_isPlain (mark : Nat) {tag : Tag} (h : tag.isPlain = true)
    (s : List Char) :
    Meets (fun e => IsNoValue e ∧ tag.mayFail = true) (scalarValue mark tag s) fun _ => True := by
  cases tag with
  | null | str => exact .ok trivial
  | bool => exact (boolValue_meets s).weaken fun _ h => ⟨h, rfl⟩
  | int => exact (intValue_meets s).weaken fun _ h => ⟨h, rfl⟩
  | float => exact (floatValue_meets mark s).weaken fun _ h => ⟨h, rfl⟩
  | timestamp => exact (timestampValue_meets s).weaken fun _ h => ⟨h, rfl⟩
  | binary | omap | pairs | set | seq | map | merge | value | unknown => cases h

def Lacks (tag : Tag) (e : Fault) : Prop := e = .illFormed ∨ IsNoValue e ∧ tag.mayFail = true

/-- Under any other tag a scalar has a value or is ill-formed. -/
theorem scalarValue_meets (mark : Nat) (tag : Tag) (s : List Char) :
    Meets (Lacks tag) (scalarValue mark tag s) fun _ => True := by
  cases tag with
  | null | str | bool | int | float | timestamp =>
    exact (scalarValue_meets_of_isPlain mark rfl s).weaken fun _ h => .inr h
  | binary => exact (binaryValue_meets s).weaken fun _ h => .inl h
  | omap | pairs | set | seq | map | merge | value | unknown => exact .error (.inl rfl)

/-- A tag by now that lets a scalar lack a value is the tag it had. -/
theorem Merges.mayFail_tag {m : Merges} {x : Node} (h : (m.tag x).mayFail = true) :
    x.tag.mayFail = true := by
  unfold tag at h
  split at h
  · cases h
  · exact h

theorem Merges.tag_eq_value {m : Merges} {x : Node} (h : m.tag x = .value) : x.tag = .value := by
  unfold tag at h
  split at h
  · cases h
  · exact h

namespace Node

mutual

/-- A text is missing where the tree is ill-formed, or where more keys `=` lead on than may be
followed. -/
theorem text_meets (m : Merges) (n : Nat) (x : Node) :
    Meets (Strays (Leads .value (n + 1) x)) (x.text m n) fun _ => True := by
  match x with
  | scalar _ _ s => exact .ok trivial
  | sequence _ _ _ => exact .error (.inl rfl)
  | mapping k t es =>
    rw [text]
    split
    · exact .error (.inl rfl)
    · exact (valueText_meets m n es).weaken fun _ hf =>
        hf.mono fun ⟨e, he, htag, h⟩ => .key he htag h

/-- Among entries the first key `=` decides, and its value is one key further on. -/
theorem valueText_meets (m : Merges) (n : Nat) (es : List (Node × Node)) :
    Meets (Strays (∃ e ∈ es, e.1.tag = .value ∧ Leads .value n e.2)) (valueText m n es)
      fun _ => True := by
  match es with
  | [] => exact .error (.inl rfl)
  | (k, v) :: r =>
    rw [valueText.eq_def]
    dsimp only
    split
    · next hk =>
      have htag := Merges.tag_eq_value (beq_iff_eq.mp hk)
      match n with
      | 0 => exact .error (.inr ⟨rfl, (k, v), List.mem_cons_self, htag, .start v⟩)
      | n + 1 =>
        exact (text_meets m n v).weaken fun _ hf =>
          hf.mono fun h => ⟨(k, v), List.mem_cons_self, htag, h⟩
    · exact (valueText_meets m n r).weaken fun _ hf =>
        hf.mono fun ⟨e, he, h⟩ => ⟨e, List.mem_cons_of_mem _ he, h⟩

end

/-- A node that is taken for a scalar is ill-formed, has its text too far away, or lacks a value
under a tag that allows it. -/
theorem scalar?_meets [Machine] (m : Merges) (x : Node) :
    Meets (fun f => Lacks x.tag f ∨ f = .tooDeep ∧ Leads .value (Machine.spelling + 1) x)
      (x.scalar? m) fun _ => True := by
  unfold scalar?
  split
  · next f hf =>
    rcases (text_meets m Machine.spelling _).of_eq_error hf with rfl | hdeep
    · exact .error (.inl (.inl rfl))
    · exact .error (.inr hdeep)
  · next n t s text _ =>
    exact (scalarValue_meets n _ _).weaken fun _ h =>
      .inl (h.imp_right (.imp_right Merges.mayFail_tag))
  · split
    · next ht =>
      rw [beq_iff_eq] at ht
      exact .error (.inl (.inr ⟨⟨_, rfl⟩, Merges.mayFail_tag (by rw [ht]; rfl)⟩))
    · exact (scalarValue_meets _ _ _).weaken fun _ h =>
        .inl (h.imp_right (.imp_right Merges.mayFail_tag))

end Node

end RowModel.Yaml
