import Mathlib.Data.List.Basic

/-!
Runs that can fail, with and without a state. What a run ensures is a condition on its result, and on
the state after it, and one on the error it may fail with; there is a rule for each way of putting
runs together.
-/
namespace RowModel

variable {σ ε α β : Type}

/-- A result meets one condition, an error the other. -/
def Meets (fail : ε → Prop) (x : Except ε α) (post : α → Prop) : Prop :=
  match x with
  | .error e => fail e
  | .ok a => post a

namespace Meets

variable {fail : ε → Prop} {x : Except ε α} {post : α → Prop}

theorem of_eq_ok (h : Meets fail x post) {a : α} (hx : x = .ok a) : post a := by
  rw [hx] at h
  exact h

theorem of_eq_error (h : Meets fail x post) {e : ε} (hx : x = .error e) : fail e := by
  rw [hx] at h
  exact h

theorem mono {post' : α → Prop} (h : Meets fail x post) (himp : ∀ a, post a → post' a) :
    Meets fail x post' := by
  unfold Meets at *
  split at h
  · exact h
  · exact himp _ h

theorem weaken {fail' : ε → Prop} (h : Meets fail x post) (himp : ∀ e, fail e → fail' e) :
    Meets fail' x post := by
  unfold Meets at *
  split at h
  · exact himp _ h
  · exact h

theorem ok {a : α} (h : post a) : Meets fail (.ok a) post := h

theorem error {e : ε} (h : fail e) : Meets fail (.error e) post := h

theorem bind {f : α → Except ε β} {post' : β → Prop}
    (h : Meets fail x fun a => Meets fail (f a) post') : Meets fail (x >>= f) post' := by
  cases x with
  | error e => exact h
  | ok a => exact h

theorem map {f : α → β} {post' : β → Prop} (h : Meets fail x fun a => post' (f a)) :
    Meets fail (x.map f) post' := by
  cases x with
  | error e => exact h
  | ok a => exact h

/-- A step for each item fails only as a step does. -/
theorem mapM {f : α → Except ε β} {l : List α} (h : ∀ a ∈ l, Meets fail (f a) fun _ => True) :
    Meets fail (l.mapM f) fun _ => True := by
  induction l with
  | nil => exact .ok trivial
  | cons a l ih =>
    rw [List.mapM_cons]
    refine .bind ((h a List.mem_cons_self).mono fun b _ => .bind ?_)
    exact (ih fun b hb => h b (List.mem_cons_of_mem a hb)).mono fun _ _ => .ok trivial

end Meets

def Ensures (fail : ε → Prop) (s : σ) (x : StateT σ (Except ε) α) (post : α → σ → Prop) : Prop :=
  Meets fail (x.run s) fun p => post p.1 p.2

namespace Ensures

variable {fail : ε → Prop} {s s' : σ} {x : StateT σ (Except ε) α} {post : α → σ → Prop}

theorem of_run (h : Ensures fail s x post) {a : α} (hr : x.run s = .ok (a, s')) : post a s' :=
  h.of_eq_ok hr

theorem of_eq_ok {a : α} (h : x.run s = .ok (a, s')) (hpost : post a s') : Ensures fail s x post := by
  rw [Ensures, h]
  exact hpost

theorem of_error (h : Ensures fail s x post) {e : ε} (hr : x.run s = .error e) : fail e :=
  h.of_eq_error hr

theorem mono {post' : α → σ → Prop} (h : Ensures fail s x post)
    (himp : ∀ a s', post a s' → post' a s') : Ensures fail s x post' :=
  Meets.mono h fun p => himp p.1 p.2

theorem weaken {fail' : ε → Prop} (h : Ensures fail s x post) (himp : ∀ e, fail e → fail' e) :
    Ensures fail' s x post :=
  Meets.weaken h himp

/-- What a run ensures when it does not fail may be shown apart from what it fails with. -/
theorem failing {fail' : ε → Prop} (h : Ensures fail s x post)
    (h' : Ensures fail' s x fun _ _ => True) : Ensures fail' s x post := by
  unfold Ensures Meets at *
  split at h
  · next hrun => rwa [hrun] at h'
  · exact h

theorem pure {a : α} (h : post a s) : Ensures fail s (pure a) post := h

theorem throw {e : ε} (h : fail e) : Ensures fail s (throw e) post := h

theorem bind {f : α → StateT σ (Except ε) β} {post' : β → σ → Prop}
    (h : Ensures fail s x fun a s' => Ensures fail s' (f a) post') :
    Ensures fail s (x >>= f) post' := by
  rw [Ensures, StateT.run_bind]
  exact Meets.bind h

theorem get {post : σ → σ → Prop} (h : post s s) : Ensures fail s get post := h

theorem set {post : PUnit → σ → Prop} (h : post ⟨⟩ s') : Ensures fail s (set s') post := h

theorem modify {f : σ → σ} {post : PUnit → σ → Prop} (h : post ⟨⟩ (f s)) :
    Ensures fail s (modify f) post := h

/-- A result that does not come from the state. -/
theorem lift {e : Except ε α} (herror : ∀ f, e = .error f → fail f)
    (hok : ∀ a, e = .ok a → post a s) : Ensures fail s (liftM e) post := by
  cases e with
  | error f => exact herror f rfl
  | ok a => exact hok a rfl

/-- A step for each item of a list. Each step keeps `inv` and goes on by `grows`, under which what
steps have ensured stays true. -/
theorem forM (inv : σ → Prop) (grows : σ → σ → Prop) (done : α → σ → Prop)
    (refl : ∀ s, grows s s) (trans : ∀ {s₁ s₂ s₃}, grows s₁ s₂ → grows s₂ s₃ → grows s₁ s₃)
    (mono : ∀ {a s₁ s₂}, done a s₁ → grows s₁ s₂ → done a s₂)
    {f : α → StateT σ (Except ε) PUnit} {l : List α}
    (step : ∀ a ∈ l, ∀ s, inv s → Ensures fail s (f a) fun _ s' => inv s' ∧ grows s s' ∧ done a s')
    (hs : inv s) :
    Ensures fail s (l.forM f) fun _ s' => inv s' ∧ grows s s' ∧ ∀ a ∈ l, done a s' := by
  induction l generalizing s with
  | nil => exact .pure ⟨hs, refl s, List.forall_mem_nil _⟩
  | cons a l ih =>
    refine .bind ((step a List.mem_cons_self s hs).mono ?_)
    rintro _ s₁ ⟨hinv, hgrows, hdone⟩
    refine (ih (fun b hb => step b (List.mem_cons_of_mem a hb)) hinv).mono ?_
    rintro _ s₂ ⟨hinv', hgrows', hall⟩
    exact ⟨hinv', trans hgrows hgrows', List.forall_mem_cons.mpr ⟨mono hdone hgrows', hall⟩⟩

end Ensures

end RowModel
