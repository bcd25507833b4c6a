import ControlStore.Error

/-! Procedures that check and write step by step. When a check fails, the state is there as the
writes before it left it. -/

namespace ControlStore

/-- What is done to a state, up to the check that fails. -/
abbrev Procedure (σ α : Type) : Type := EStateM Error σ α

namespace Procedure

variable {σ α β : Type} {s s' : σ}

/-- The state that a procedure leaves, and its answer or its error. -/
def perform (x : Procedure σ α) (s : σ) : σ × Except Error α :=
  match x.run s with
  | .ok a after => (after, .ok a)
  | .error e after => (after, .error e)

theorem perform_of_ok {x : Procedure σ α} {a : α} (h : x.run s = .ok a s') :
    x.perform s = (s', .ok a) := by
  rw [perform, h]

theorem perform_of_error {x : Procedure σ α} {e : Error} (h : x.run s = .error e s') :
    x.perform s = (s', .error e) := by
  rw [perform, h]

theorem run_bind_of_ok {x : Procedure σ α} (f : α → Procedure σ β) {a : α}
    (h : x.run s = .ok a s') : (x >>= f).run s = (f a).run s' := by
  show EStateM.bind x f s = f a s'
  unfold EStateM.bind
  rw [show x s = .ok a s' from h]

theorem run_bind_of_error {x : Procedure σ α} (f : α → Procedure σ β) {e : Error}
    (h : x.run s = .error e s') : (x >>= f).run s = .error e s' := by
  show EStateM.bind x f s = .error e s'
  unfold EStateM.bind
  rw [show x s = .error e s' from h]

theorem perform_bind_of_ok {x : Procedure σ α} (f : α → Procedure σ β) {a : α}
    (h : x.run s = .ok a s') : (x >>= f).perform s = (f a).perform s' := by
  rw [perform, run_bind_of_ok f h]
  rfl

theorem perform_bind_of_error {x : Procedure σ α} (f : α → Procedure σ β) {e : Error}
    (h : x.run s = .error e s') : (x >>= f).perform s = (s', .error e) :=
  perform_of_error (run_bind_of_error f h)

/-- A check that fails ends the procedure, and the state is as it was then. -/
theorem run_bind_of_check {x : Procedure σ Unit} (f : Unit → Procedure σ β) {c : Prop} [Decidable c]
    {e : Error} (h : x.run s = if c then .error e s else .ok () s) :
    (x >>= f).run s = if c then .error e s else (f ()).run s := by
  by_cases hc : c
  · rw [if_pos hc] at h ⊢
    exact run_bind_of_error f h
  · rw [if_neg hc] at h ⊢
    exact run_bind_of_ok f h

/-- A loop that changes one part of the state. -/
theorem run_forM_modify {γ : Type} (part : σ → α) (put : σ → α → σ)
    (hpart : ∀ s x, part (put s x) = x) (hput : ∀ s x y, put (put s x) y = put s y)
    (hself : ∀ s, put s (part s) = s) (change : α → γ → α) (cs : List γ) (s : σ) :
    (cs.forM fun c => (modify fun s => put s (change (part s) c) : Procedure σ Unit)).run s =
      .ok () (put s (cs.foldl change (part s))) := by
  induction cs generalizing s with
  | nil => exact congrArg (EStateM.Result.ok ()) (hself s).symm
  | cons c rest ih =>
    refine (ih (put s (change (part s) c))).trans ?_
    rw [hpart, hput, List.foldl_cons]

/-- A procedure that never changes the state. -/
def Reads (x : Procedure σ α) : Prop := ∀ s, (x.perform s).1 = s

/-- A procedure that never fails. -/
def Succeeds (x : Procedure σ α) : Prop := ∀ s, ∃ a s', x.run s = .ok a s'

/-- A procedure that fails only with the state that it began with. -/
def Clean (x : Procedure σ α) : Prop := ∀ s e, (x.perform s).2 = .error e → (x.perform s).1 = s

theorem Reads.clean {x : Procedure σ α} (h : Reads x) : Clean x := fun s _ _ => h s

theorem Succeeds.clean {x : Procedure σ α} (h : Succeeds x) : Clean x := by
  intro s e he
  obtain ⟨a, s', hrun⟩ := h s
  rw [perform_of_ok hrun] at he
  cases he

theorem reads_ofExcept (r : Except Error α) : Reads (ofExcept r : Procedure σ α) := by
  intro s
  cases r <;> rfl

theorem reads_throw (e : Error) : Reads (throw e : Procedure σ α) := fun _ => rfl

theorem reads_throw_if (c : Prop) [Decidable c] (e : Error) :
    Reads (if c then throw e else pure () : Procedure σ Unit) := by
  intro s
  split <;> rfl

theorem Clean.of_get {f : σ → Procedure σ α} (h : ∀ s, Clean (f s)) : Clean (get >>= f) :=
  fun s => h s s

theorem Clean.ite {c : Prop} [Decidable c] {x y : Procedure σ α} (hx : Clean x) (hy : Clean y) :
    Clean (if c then x else y) := by
  split
  · exact hx
  · exact hy

theorem Reads.of_get {f : σ → Procedure σ α} (h : ∀ s, Reads (f s)) : Reads (get >>= f) :=
  fun s => h s s

/-- Checks may come before what is clean. -/
theorem Reads.bind {x : Procedure σ α} (hx : Reads x) {f : α → Procedure σ β}
    (hf : ∀ a, Clean (f a)) : Clean (x >>= f) := by
  intro s e he
  have hs := hx s
  cases hrun : x.run s with
  | error e' s' =>
    rw [perform_of_error hrun] at hs
    rw [perform_bind_of_error f hrun]
    exact hs
  | ok a s' =>
    have hs' : s' = s := by
      rw [perform_of_ok hrun] at hs
      exact hs
    subst hs'
    rw [perform_bind_of_ok f hrun] at he ⊢
    exact hf a s' e he

/-- What comes last may write, as it never fails. -/
theorem Clean.bind {x : Procedure σ α} (hx : Clean x) {f : α → Procedure σ β}
    (hf : ∀ a, Succeeds (f a)) : Clean (x >>= f) := by
  intro s e he
  cases hrun : x.run s with
  | error e' s' =>
    have hs := hx s e'
    rw [perform_of_error hrun] at hs
    rw [perform_bind_of_error f hrun]
    exact hs rfl
  | ok a s' =>
    obtain ⟨b, t, hok⟩ := hf a s'
    rw [perform_bind_of_ok f hrun, perform_of_ok hok] at he
    cases he

end Procedure

end ControlStore
