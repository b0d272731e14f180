import Mathlib.Data.List.Forall2

/-!
Going through a list with a function that can fail. The first failure is that of the whole, and
without one each item gives its result in its place.
-/
namespace RowModel

variable {α β γ ε : Type}

/-- A step that has a result comes after one that has. -/
theorem bind_eq_ok {x : Except ε α} {f : α → Except ε β} {b : β} :
    x >>= f = .ok b ↔ ∃ a, x = .ok a ∧ f a = .ok b := by
  cases x with
  | error e =>
    constructor
    · intro h
      cases h
    · rintro ⟨a, ha, -⟩
      cases ha
  | ok a =>
    constructor
    · intro h
      exact ⟨a, rfl, h⟩
    · rintro ⟨a', ha, h⟩
      cases ha
      exact h

/-- An error of two steps is that of the first, or that of the second after a result of the first. -/
theorem bind_eq_error {x : Except ε α} {f : α → Except ε β} {e : ε} :
    x >>= f = .error e ↔ x = .error e ∨ ∃ a, x = .ok a ∧ f a = .error e := by
  cases x with
  | error e' =>
    constructor
    · intro h
      cases h
      exact .inl rfl
    · rintro (h | ⟨a, ha, -⟩)
      · cases h
        rfl
      · cases ha
  | ok a =>
    constructor
    · intro h
      exact .inr ⟨a, rfl, h⟩
    · rintro (h | ⟨a', ha, h⟩)
      · cases h
      · cases ha
        exact h

theorem map_eq_error_iff {x : Except ε α} {f : α → β} {e : ε} :
    x.map f = .error e ↔ x = .error e := by
  cases x <;> simp [Except.map]

theorem exists_map_eq_ok_iff {x : Except ε α} {f : α → β} :
    (∃ b, x.map f = .ok b) ↔ ∃ a, x = .ok a := by
  cases x <;> simp [Except.map]

/-- What passes a test is a result. -/
theorem exists_eq_ok_of_any {x : Except ε α} {test : α → Bool} (h : x.toOption.any test = true) :
    ∃ a, x = .ok a ∧ test a = true := by
  cases x with
  | error e => cases h
  | ok a => exact ⟨a, rfl, h⟩

/-- An error is known without comparing results. -/
theorem eq_error_of_match {x : Except ε α} {e : ε}
    (h : (match x with
      | .ok _ => none
      | .error e => some e) = some e) : x = .error e := by
  cases x with
  | ok a => cases h
  | error e' => rw [Option.some.inj h]

theorem mapM_cons_of_error {f : α → Except ε β} {a : α} {e : ε} (h : f a = .error e)
    (r : List α) : (a :: r).mapM f = .error e := by
  rw [List.mapM_cons, h]
  rfl

theorem mapM_cons_of_ok {f : α → Except ε β} {a : α} {b : β} (h : f a = .ok b) (r : List α) :
    (a :: r).mapM f = (r.mapM f).map (b :: ·) := by
  rw [List.mapM_cons, h]
  cases r.mapM f <;> rfl

/-- A list of results is the whole result exactly when each item gives the one in its place. -/
theorem mapM_eq_ok_iff {f : α → Except ε β} {as : List α} {bs : List β} :
    as.mapM f = .ok bs ↔ List.Forall₂ (fun a b => f a = .ok b) as bs := by
  induction as generalizing bs with
  | nil =>
    rw [List.mapM_nil, List.forall₂_nil_left_iff]
    exact ⟨fun h => by cases h; rfl, fun h => by rw [h]; rfl⟩
  | cons a r ih =>
    cases ha : f a with
    | error e =>
      rw [mapM_cons_of_error ha]
      constructor
      · intro h
        cases h
      · rintro (_ | ⟨h, -⟩)
        rw [ha] at h
        cases h
    | ok b =>
      rw [mapM_cons_of_ok ha, List.forall₂_cons_left_iff]
      constructor
      · intro h
        cases hr : r.mapM f with
        | error e => rw [hr] at h; cases h
        | ok cs =>
          rw [hr] at h
          cases h
          exact ⟨b, cs, ha, ih.mp hr, rfl⟩
      · rintro ⟨c, cs, hc, hr, rfl⟩
        rw [ha] at hc
        cases hc
        rw [ih.mpr hr]
        rfl

theorem exists_mapM_eq_ok_iff {f : α → Except ε β} {as : List α} :
    (∃ bs, as.mapM f = .ok bs) ↔ ∀ a ∈ as, ∃ b, f a = .ok b := by
  induction as with
  | nil => exact ⟨fun _ => List.forall_mem_nil _, fun _ => ⟨[], rfl⟩⟩
  | cons a r ih =>
    rw [List.forall_mem_cons, ← ih]
    cases ha : f a with
    | error e =>
      rw [mapM_cons_of_error ha]
      simp
    | ok b =>
      rw [mapM_cons_of_ok ha, exists_map_eq_ok_iff]
      simp

/-- A beginning that ends with one item is that item alone or the first item and a beginning of the
rest. -/
theorem append_singleton_prefix_cons {before r : List α} {a b : α} :
    before ++ [b] <+: a :: r ↔
      (before = [] ∧ b = a) ∨ ∃ rest, before = a :: rest ∧ rest ++ [b] <+: r := by
  cases before with
  | nil => simp
  | cons c rest =>
    rw [List.cons_append, List.cons_prefix_cons]
    simp

/-- The error of the whole is that of the first item with one. What follows this item does not
count. -/
theorem mapM_eq_error_iff {f : α → Except ε β} {as : List α} {e : ε} :
    as.mapM f = .error e ↔
      ∃ before a, before ++ [a] <+: as ∧ (∀ b ∈ before, ∃ r, f b = .ok r) ∧ f a = .error e := by
  induction as with
  | nil =>
    constructor
    · intro h
      cases h
    · rintro ⟨before, a, hp, -⟩
      simp at hp
  | cons a r ih =>
    simp only [append_singleton_prefix_cons]
    cases ha : f a with
    | error e' =>
      rw [mapM_cons_of_error ha]
      constructor
      · intro h
        cases h
        exact ⟨[], a, .inl ⟨rfl, rfl⟩, List.forall_mem_nil _, ha⟩
      · rintro ⟨before, b, ⟨rfl, rfl⟩ | ⟨rest, rfl, -⟩, hbefore, hb⟩
        · cases ha.symm.trans hb
          rfl
        · obtain ⟨c, hc⟩ := hbefore a List.mem_cons_self
          cases ha.symm.trans hc
    | ok c =>
      rw [mapM_cons_of_ok ha, map_eq_error_iff, ih]
      constructor
      · rintro ⟨rest, b, hp, hrest, hb⟩
        exact ⟨a :: rest, b, .inr ⟨rest, rfl, hp⟩, List.forall_mem_cons.mpr ⟨⟨c, ha⟩, hrest⟩, hb⟩
      · rintro ⟨before, b, ⟨rfl, rfl⟩ | ⟨rest, rfl, hp⟩, hbefore, hb⟩
        · cases ha.symm.trans hb
        · exact ⟨rest, b, hp, (List.forall_mem_cons.mp hbefore).2, hb⟩

/-- The items before this one give a result each, so that going through the list comes to it. -/
def Reaches (f : α → Except ε β) (as : List α) (a : α) : Prop :=
  ∃ before, before ++ [a] <+: as ∧ ∀ b ∈ before, ∃ r, f b = .ok r

/-- The error is that of the first item without a result. -/
theorem mapM_eq_error_iff_reaches {f : α → Except ε β} {as : List α} {e : ε} :
    as.mapM f = .error e ↔ ∃ a, Reaches f as a ∧ f a = .error e := by
  rw [mapM_eq_error_iff]
  constructor
  · rintro ⟨before, a, hp, hbefore, he⟩
    exact ⟨a, ⟨before, hp, hbefore⟩, he⟩
  · rintro ⟨a, ⟨before, hp, hbefore⟩, he⟩
    exact ⟨before, a, hp, hbefore, he⟩

/-- What is made of each result can be made of all results in the end. -/
theorem mapM_map_eq (f : α → Except ε β) (k : α → β → γ) (as : List α) :
    (as.mapM fun a => (f a).map (k a)) = (as.mapM f).map (List.zipWith k as) := by
  induction as with
  | nil => rfl
  | cons a r ih =>
    rw [List.mapM_cons, List.mapM_cons, ih]
    cases f a with
    | error e => rfl
    | ok b => cases r.mapM f <;> rfl

/-- What is done to each result may be done on the way. -/
theorem map_mapM (f : α → Except ε β) (k : β → γ) (as : List α) :
    (as.mapM f).map (List.map k) = as.mapM fun a => (f a).map k := by
  induction as with
  | nil => rfl
  | cons a r ih =>
    rw [List.mapM_cons, List.mapM_cons, ← ih]
    cases f a with
    | error e => rfl
    | ok b => cases r.mapM f <;> rfl

/-- Lists gone through one after the other are gone through as one. -/
theorem mapM_flatMap (f : β → Except ε γ) (g : α → List β) (as : List α) :
    (as.flatMap g).mapM f = (as.mapM fun a => (g a).mapM f).map List.flatten := by
  induction as with
  | nil => rfl
  | cons a r ih =>
    rw [List.flatMap_cons, List.mapM_append, List.mapM_cons, ih]
    cases (g a).mapM f with
    | error e => rfl
    | ok b => cases r.mapM fun a => (g a).mapM f <;> rfl

/-- Each item on the left of two lists that are related place by place has one on the right. -/
theorem exists_mem_of_forall₂ {R : α → β → Prop} {as : List α} {bs : List β}
    (h : List.Forall₂ R as bs) {a : α} (ha : a ∈ as) : ∃ b ∈ bs, R a b := by
  induction h with
  | nil => cases ha
  | @cons a' b as' bs' hab _ ih =>
    cases ha with
    | head => exact ⟨b, List.mem_cons_self, hab⟩
    | tail _ ha =>
      obtain ⟨b', hb', hr⟩ := ih ha
      exact ⟨b', List.mem_cons_of_mem b hb', hr⟩

theorem exists_getElem?_of_forall₂ {R : α → β → Prop} {as : List α} {bs : List β}
    (h : List.Forall₂ R as bs) {i : Nat} {a : α} (ha : as[i]? = some a) :
    ∃ b, bs[i]? = some b ∧ R a b := by
  induction h generalizing i with
  | nil => cases ha
  | @cons a' b as' bs' hab _ ih =>
    cases i with
    | zero =>
      cases ha
      exact ⟨b, rfl, hab⟩
    | succ i => exact ih ha

/-- Lists of one length are related if they are place by place. -/
theorem forall₂_of_getElem? {R : α → β → Prop} {as : List α} {bs : List β}
    (hlen : as.length = bs.length)
    (h : ∀ (i : Nat) (a : α), as[i]? = some a → ∃ b, bs[i]? = some b ∧ R a b) :
    List.Forall₂ R as bs := by
  induction as generalizing bs with
  | nil =>
    cases bs with
    | nil => exact .nil
    | cons b bs => cases hlen
  | cons a as ih =>
    cases bs with
    | nil => cases hlen
    | cons b bs =>
      obtain ⟨b', hb, hr⟩ := h 0 a rfl
      cases hb
      exact .cons hr (ih (Nat.succ.inj hlen) fun i a' ha' => h (i + 1) a' ha')

end RowModel
