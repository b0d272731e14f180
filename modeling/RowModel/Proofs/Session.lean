import RowModel.Proofs.Traversal
import RowModel.Session

/-!
What a session keeps. A step does what its answer says and nothing else, so an error changes nothing.
A whole run is then known from its answers, requests that end with an error can be left out of it, and
all that is built comes from packages of the settings. Main results: `after_eq_foldl_absorb`,
`run_granted`, `Faithful.after`.
-/
namespace RowModel.Session

/-- The session once an answer, or an error, has been given. -/
def absorb (s : Session) : Except Error Answer → Session
  | .error _ => s
  | .ok (.opened g) => { s with generator := some g }
  | .ok (.struct x) => { s with built := s.built ++ [x] }
  | .ok (.models xs) => { s with built := s.built ++ xs }
  | .ok (.enums _) | .ok (.columnType _) | .ok (.imports _) | .ok (.rules _) => s
  | .ok .forgotten => { s with built := [] }

def after (s : Session) : List Request → Session
  | [] => s
  | r :: rs => (s.step r).2.after rs

/-- The requests that do not end with an error. -/
def granted (s : Session) : List Request → List Request
  | [] => []
  | r :: rs =>
    if (s.step r).1.isOk then r :: (s.step r).2.granted rs else (s.step r).2.granted rs

variable {s t : Session} {r : Request} {a : Answer} {e : Error} {g : Generator}

/-- Everything that a request can do. A generator is opened with the settings of the session, and
structs come from the generator that is open. -/
inductive Performs (s : Session) : Answer → Session → Prop
  | opened {g : Generator} (hsettings : g.settings = s.settings) :
    Performs s (.opened g) { s with generator := some g }
  | struct {g : Generator} {name : String} {columns : List Column} {x : Struct}
    (hcurrent : s.generator = some g) (hbuild : g.buildStruct name columns = .ok x) :
    Performs s (.struct x) { s with built := s.built ++ [x] }
  | models {g : Generator} {tables : List (TableRef × List Column)} {xs : List Struct}
    (hcurrent : s.generator = some g) (hbuild : g.buildModels tables = .ok xs) :
    Performs s (.models xs) { s with built := s.built ++ xs }
  | told {a : Answer} (hsame : s.absorb (.ok a) = s) : Performs s a s
  | forgotten : Performs s .forgotten { s with built := [] }

theorem current_eq_ok (h : s.current = .ok g) : s.generator = some g := by
  rw [current] at h
  split at h
  · next hg => rw [hg, Except.ok.inj h]
  · cases h

/-- A request that is answered did one of these things. -/
theorem performs_of_perform (h : s.perform r = .ok (a, t)) : Performs s a t := by
  cases r with
  | openPackage package enums =>
    obtain ⟨g, hg, h⟩ := bind_eq_ok.mp h
    cases h
    exact .opened (Generator.settings_of_create hg)
  | struct name columns =>
    obtain ⟨g, hg, h⟩ := bind_eq_ok.mp h
    obtain ⟨x, hx, h⟩ := bind_eq_ok.mp h
    cases h
    exact .struct (current_eq_ok hg) hx
  | models tables =>
    obtain ⟨g, hg, h⟩ := bind_eq_ok.mp h
    obtain ⟨xs, hxs, h⟩ := bind_eq_ok.mp h
    cases h
    exact .models (current_eq_ok hg) hxs
  | enums | imports =>
    obtain ⟨g, -, h⟩ := bind_eq_ok.mp h
    cases h
    exact .told rfl
  | columnType column =>
    obtain ⟨g, -, h⟩ := bind_eq_ok.mp h
    obtain ⟨type, -, h⟩ := bind_eq_ok.mp h
    cases h
    exact .told rfl
  | rules package =>
    obtain ⟨rules, -, h⟩ := bind_eq_ok.mp h
    cases h
    exact .told rfl
  | forget =>
    cases h
    exact .forgotten

/-- What was done can be told from the answer. -/
theorem Performs.absorb_eq (h : Performs s a t) : s.absorb (.ok a) = t := by
  cases h with
  | told hsame => exact hsame
  | opened _ | struct _ _ | models _ _ | forgotten => rfl

/-- A step gives an error and leaves the session as it is, or performs its request. -/
theorem step_cases (s : Session) (r : Request) :
    (∃ e, s.step r = (.error e, s)) ∨ ∃ a t, s.step r = (.ok a, t) ∧ Performs s a t := by
  rw [step]
  split
  · next a t h => exact .inr ⟨a, t, rfl, performs_of_perform h⟩
  · next e _ => exact .inl ⟨e, rfl⟩

/-- A step that fails changes nothing. -/
theorem step_of_error (h : (s.step r).1 = .error e) : (s.step r).2 = s := by
  obtain ⟨e', hstep⟩ | ⟨a, t, hstep, -⟩ := step_cases s r
  · rw [hstep]
  · rw [hstep] at h
    cases h

/-- What a step changes is in its answer. -/
theorem step_snd (s : Session) (r : Request) : (s.step r).2 = s.absorb (s.step r).1 := by
  obtain ⟨e, hstep⟩ | ⟨a, t, hstep, hperforms⟩ := step_cases s r
  · rw [hstep, absorb]
  · rw [hstep]
    exact hperforms.absorb_eq.symm

@[simp] theorem run_nil (s : Session) : s.run [] = [] := rfl

@[simp] theorem run_cons (s : Session) (r : Request) (rs : List Request) :
    s.run (r :: rs) = (s.step r).1 :: (s.step r).2.run rs := rfl

@[simp] theorem after_nil (s : Session) : s.after [] = s := rfl

@[simp] theorem after_cons (s : Session) (r : Request) (rs : List Request) :
    s.after (r :: rs) = (s.step r).2.after rs := rfl

/-- The session at the end of a run is known from the answers alone. -/
theorem after_eq_foldl_absorb (s : Session) (rs : List Request) :
    s.after rs = (s.run rs).foldl absorb s := by
  induction rs generalizing s with
  | nil => rfl
  | cons r rs ih => rw [after_cons, run_cons, List.foldl_cons, ← step_snd, ih]

/-- A run goes on where another one ended. -/
theorem run_append (s : Session) (rs qs : List Request) :
    s.run (rs ++ qs) = s.run rs ++ (s.after rs).run qs := by
  induction rs generalizing s with
  | nil => rfl
  | cons r rs ih => simp only [List.cons_append, run_cons, after_cons, ih]

/-- Requests that end with an error can be left out: the others get the answers that they got, and the
session ends as it did. -/
theorem run_granted (s : Session) (rs : List Request) :
    s.run (s.granted rs) = (s.run rs).filter Except.isOk ∧
      s.after (s.granted rs) = s.after rs := by
  induction rs generalizing s with
  | nil => exact ⟨rfl, rfl⟩
  | cons r rs ih =>
    obtain ⟨hrun, hafter⟩ := ih (s.step r).2
    rw [granted, run_cons, after_cons]
    split
    · next hok => exact ⟨by rw [run_cons, hrun, List.filter_cons_of_pos hok], hafter⟩
    · next hfailed =>
      have hsame : (s.step r).2 = s := by
        cases hstep : (s.step r).1 with
        | ok a => exact absurd (by rw [hstep]; rfl) hfailed
        | error e => exact step_of_error hstep
      rw [hsame] at hrun hafter ⊢
      exact ⟨by rw [hrun, List.filter_cons_of_neg hfailed], hafter⟩

/-- A session that works with the settings it began with. -/
structure Faithful (settings : Settings) (s : Session) : Prop where
  settings_eq : s.settings = settings
  generator : ∀ g, s.generator = some g → g.settings = settings
  built : ∀ x ∈ s.built, ∃ g : Generator, g.settings = settings ∧
    ∃ name columns, g.buildStruct name columns = .ok x

/-- A session begins so. -/
theorem faithful_start (settings : Settings) : Faithful settings (start settings) where
  settings_eq := rfl
  generator := by
    intro g hg
    cases hg
  built := by
    intro x hx
    cases hx

variable {settings : Settings}

/-- What is built comes from the open generator, which has the settings. -/
theorem Faithful.performs (hs : Faithful settings s) (h : Performs s a t) : Faithful settings t := by
  cases h with
  | opened hsettings =>
    refine { hs with generator := ?_ }
    rintro g ⟨⟩
    exact hsettings.trans hs.settings_eq
  | @struct g name columns x hcurrent hbuild =>
    refine { hs with built := fun y hy => ?_ }
    rcases List.mem_append.mp hy with hy | hy
    · exact hs.built y hy
    · rw [List.mem_singleton.mp hy]
      exact ⟨g, hs.generator g hcurrent, name, columns, hbuild⟩
  | @models g tables xs hcurrent hbuild =>
    refine { hs with built := fun y hy => ?_ }
    rcases List.mem_append.mp hy with hy | hy
    · exact hs.built y hy
    · obtain ⟨table, -, htable⟩ := exists_mem_of_forall₂ (mapM_eq_ok_iff.mp hbuild).flip hy
      exact ⟨g, hs.generator g hcurrent, _, _, htable⟩
  | told _ => exact hs
  | forgotten => exact { hs with built := fun x hx => nomatch hx }

theorem Faithful.step (hs : Faithful settings s) (r : Request) : Faithful settings (s.step r).2 := by
  obtain ⟨e, hstep⟩ | ⟨a, t, hstep, hperforms⟩ := step_cases s r
  · rwa [hstep]
  · rw [hstep]
    exact hs.performs hperforms

/-- However long a session is: its settings stay, the open generator has them, and every struct that
is kept was built with them. -/
theorem Faithful.after (hs : Faithful settings s) (rs : List Request) :
    Faithful settings (s.after rs) := by
  induction rs generalizing s with
  | nil => exact hs
  | cons r rs ih => exact ih (hs.step r)

end RowModel.Session
