import Mathlib.Data.List.Forall2

/-! Results of computations that may fail. -/

namespace ControlStore

theorem bind_eq_ok {ε α β : Type} {x : Except ε α} {g : α → Except ε β} {b : β} :
    x >>= g = .ok b ↔ ∃ a, x = .ok a ∧ g a = .ok b := by
  cases x with
  | error e => simp [bind, Except.bind]
  | ok a => simp [bind, Except.bind]

theorem map_eq_ok {ε α β : Type} {x : Except ε α} {g : α → β} {b : β} :
    g <$> x = .ok b ↔ ∃ a, x = .ok a ∧ g a = b := by
  cases x with
  | error e => simp [Functor.map, Except.map]
  | ok a => simp [Functor.map, Except.map]

theorem bind_eq_error {ε α β : Type} {x : Except ε α} {g : α → Except ε β} {e : ε} :
    x >>= g = .error e ↔ x = .error e ∨ ∃ a, x = .ok a ∧ g a = .error e := by
  cases x with
  | error e' => simp [bind, Except.bind]
  | ok a => simp [bind, Except.bind]

theorem map_eq_error {ε α β : Type} {x : Except ε α} {g : α → β} {e : ε} :
    g <$> x = .error e ↔ x = .error e := by
  cases x with
  | error e' => simp [Functor.map, Except.map]
  | ok a => simp [Functor.map, Except.map]

/-- What is done to the answer does not matter to what stands beside it. -/
theorem map_snd_map {ε α β γ : Type} (x : Except ε (α × γ)) (f : α → β) :
    (x.map (Prod.map f id)).map Prod.snd = x.map Prod.snd := by
  cases x with
  | error e => rfl
  | ok p => rfl

/-- A computation whose result passes a check has one. -/
theorem exists_ok_of_any {ε α : Type} {x : Except ε α} {p : α → Bool}
    (h : x.toOption.any p = true) : ∃ a, x = .ok a ∧ p a = true := by
  cases x with
  | error e => cases h
  | ok a => exact ⟨a, rfl, h⟩

theorem mapM_ok_getElem? {ε α β : Type} (g : α → Except ε β) (xs : List α) (ys : List β)
    (h : xs.mapM g = .ok ys) (i : Nat) (x : α) (hx : xs[i]? = some x) :
    ∃ y, g x = .ok y ∧ ys[i]? = some y := by
  induction xs generalizing ys i with
  | nil => simp at hx
  | cons a r ih =>
    rw [List.mapM_cons] at h
    obtain ⟨b, ha, h⟩ := bind_eq_ok.mp h
    obtain ⟨bs, hr, h⟩ := bind_eq_ok.mp h
    cases h
    cases i with
    | zero =>
      have hax : a = x := by simpa using hx
      exact ⟨b, hax ▸ ha, rfl⟩
    | succ i => simpa using ih bs hr i (by simpa using hx)

theorem mapM_eq_ok_iff {ε α β : Type} {g : α → Except ε β} {xs : List α} {ys : List β} :
    xs.mapM g = .ok ys ↔ List.Forall₂ (fun x y => g x = .ok y) xs ys := by
  induction xs generalizing ys with
  | nil =>
    constructor
    · intro h
      cases h
      exact .nil
    · intro h
      cases h
      rfl
  | cons x rest ih =>
    rw [List.mapM_cons, bind_eq_ok, List.forall₂_cons_left_iff]
    constructor
    · rintro ⟨y, hx, h⟩
      obtain ⟨others, hrest, heq⟩ := bind_eq_ok.mp h
      cases heq
      exact ⟨y, others, hx, ih.mp hrest, rfl⟩
    · rintro ⟨y, others, hx, hrest, rfl⟩
      exact ⟨y, hx, bind_eq_ok.mpr ⟨others, ih.mpr hrest, rfl⟩⟩

/-- A traversal fails as its first element that fails. -/
theorem mapM_eq_error_iff {ε α β : Type} {g : α → Except ε β} {xs : List α} {e : ε} :
    xs.mapM g = .error e ↔
      ∃ before x after, xs = before ++ x :: after ∧ (∀ y ∈ before, ∃ b, g y = .ok b) ∧
        g x = .error e := by
  induction xs with
  | nil =>
    constructor
    · intro h
      cases h
    · rintro ⟨before, x, after, hsplit, -⟩
      simp at hsplit
  | cons x rest ih =>
    have hcons : (x :: rest).mapM g = g x >>= fun b => (b :: ·) <$> rest.mapM g := by
      rw [List.mapM_cons]
      rfl
    rw [hcons, bind_eq_error]
    simp only [map_eq_error, ih]
    constructor
    · rintro (hx | ⟨b, hb, before, y, after, rfl, hbefore, hy⟩)
      · exact ⟨[], x, rest, rfl, List.forall_mem_nil _, hx⟩
      · exact ⟨x :: before, y, after, rfl, List.forall_mem_cons.mpr ⟨⟨b, hb⟩, hbefore⟩, hy⟩
    · rintro ⟨before, y, after, hsplit, hbefore, hy⟩
      cases before with
      | nil =>
        obtain ⟨rfl, -⟩ := List.cons.inj hsplit
        exact .inl hy
      | cons first before =>
        obtain ⟨rfl, hrest⟩ := List.cons.inj hsplit
        obtain ⟨⟨b, hb⟩, hbefore⟩ := List.forall_mem_cons.mp hbefore
        exact .inr ⟨b, hb, before, y, after, hrest, hbefore, hy⟩

theorem mapM_ok_length {ε α β : Type} (g : α → Except ε β) (xs : List α) (ys : List β)
    (h : xs.mapM g = .ok ys) : ys.length = xs.length :=
  (mapM_eq_ok_iff.mp h).length_eq.symm

/-- What a traversal fails with is the failure of some element. -/
theorem exists_of_mapM_error {ε α β : Type} (g : α → Except ε β) (xs : List α) (e : ε)
    (h : xs.mapM g = .error e) : ∃ x ∈ xs, g x = .error e := by
  obtain ⟨before, x, after, rfl, -, hx⟩ := mapM_eq_error_iff.mp h
  exact ⟨x, List.mem_append_right before List.mem_cons_self, hx⟩

theorem exists_mapM_ok {ε α β : Type} (g : α → Except ε β) (xs : List α)
    (h : ∀ x ∈ xs, ∃ y, g x = .ok y) : ∃ ys, xs.mapM g = .ok ys := by
  cases hresult : xs.mapM g with
  | ok ys => exact ⟨ys, rfl⟩
  | error e =>
    obtain ⟨x, hx, hfails⟩ := exists_of_mapM_error g xs e hresult
    obtain ⟨y, hy⟩ := h x hx
    cases hfails.symm.trans hy

theorem mapM_map_congr {ε α β γ : Type} {f : α → β} {g : β → Except ε γ} {h : α → Except ε γ}
    (xs : List α) (hg : ∀ x ∈ xs, g (f x) = h x) : (xs.map f).mapM g = xs.mapM h := by
  induction xs with
  | nil => rfl
  | cons a r ih =>
    rw [List.map_cons, List.mapM_cons, List.mapM_cons, hg a List.mem_cons_self,
      ih fun x hx => hg x (List.mem_cons_of_mem a hx)]

/-- What every step of a fold keeps holds at its end. -/
theorem foldlM_invariant {ε α β : Type} {f : β → α → Except ε β} (I : β → Prop)
    (hstep : ∀ b a b', I b → f b a = .ok b' → I b') (xs : List α) {b b' : β} (hb : I b)
    (h : xs.foldlM f b = .ok b') : I b' := by
  induction xs generalizing b with
  | nil =>
    cases h
    exact hb
  | cons a r ih =>
    rw [List.foldlM_cons] at h
    obtain ⟨c, hc, h⟩ := bind_eq_ok.mp h
    exact ih (hstep b a c hb hc) h

end ControlStore
