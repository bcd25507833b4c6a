import ControlStore.Proofs.Text

/-! Numbers in place of a pattern. Greater numbers give another text, since no number gets shorter
as it grows: what follows it moves to the right or stays, and texts of one length have every number
in one place. -/

namespace ControlStore.Text

section pattern

variable {p t : List Char}

theorem replaceAll_nil (p t : List Char) : replaceAll p t [] = [] := by rw [replaceAll]

theorem replaceAll_pattern_append (hp : p ≠ []) (r : List Char) :
    replaceAll p t (p ++ r) = t ++ replaceAll p t r := by
  obtain ⟨c, q, rfl⟩ := List.exists_cons_of_ne_nil hp
  have hprefix : (c :: q).isPrefixOf (c :: (q ++ r)) = true :=
    List.isPrefixOf_iff_prefix.mpr (List.prefix_append (c :: q) r)
  rw [List.cons_append, replaceAll, if_pos ⟨hp, hprefix⟩, ← List.cons_append, List.drop_left]

theorem replaceAll_cons {c : Char} {r : List Char} (h : p.isPrefixOf (c :: r) = false) :
    replaceAll p t (c :: r) = c :: replaceAll p t r := by
  rw [replaceAll, if_neg]
  rintro ⟨-, hprefix⟩
  exact Bool.false_ne_true (h.symm.trans hprefix)

theorem isPrefixOf_eq_false {c : Char} {r : List Char} (hp : p ≠ []) (hc : c ∉ p) :
    p.isPrefixOf (c :: r) = false := by
  obtain ⟨d, q, rfl⟩ := List.exists_cons_of_ne_nil hp
  have hne : (d == c) = false := by
    rw [beq_eq_false_iff_ne]
    rintro rfl
    exact hc List.mem_cons_self
  rw [List.isPrefixOf_cons_cons, hne, Bool.false_and]

theorem replaceAll_of_not_occurs {s : List Char} (h : occurs p s = false) :
    replaceAll p t s = s := by
  induction s with
  | nil => exact replaceAll_nil p t
  | cons c r ih =>
    rw [occurs, Bool.or_eq_false_iff] at h
    rw [replaceAll_cons h.1, ih h.2]

/-- A text that shares no character with the pattern is passed over. -/
theorem replaceAll_append (hp : p ≠ []) {a : List Char} (ha : ∀ c ∈ a, c ∉ p) (r : List Char) :
    replaceAll p t (a ++ r) = a ++ replaceAll p t r := by
  induction a with
  | nil => rfl
  | cons c a ih =>
    rw [List.forall_mem_cons] at ha
    rw [List.cons_append, replaceAll_cons (isPrefixOf_eq_false hp ha.1), ih ha.2]
    rfl

theorem occurs_append (hp : p ≠ []) {a : List Char} (ha : ∀ c ∈ a, c ∉ p) (r : List Char) :
    occurs p (a ++ r) = occurs p r := by
  induction a with
  | nil => rfl
  | cons c a ih =>
    rw [List.forall_mem_cons] at ha
    rw [List.cons_append, occurs, isPrefixOf_eq_false hp ha.1, Bool.false_or, ih ha.2]

/-- A pattern without the separator stands before it as it stands alone. -/
theorem isPrefixOf_append_sep {c : Char} (hc : c ∉ p) (a b : List Char) :
    p.isPrefixOf (a ++ c :: b) = p.isPrefixOf a := by
  induction p generalizing a with
  | nil => simp
  | cons d q ih =>
    rw [List.mem_cons, not_or] at hc
    cases a with
    | nil => exact isPrefixOf_eq_false (List.cons_ne_nil d q) (by simp [hc])
    | cons e a =>
      rw [List.cons_append, List.isPrefixOf_cons_cons, List.isPrefixOf_cons_cons, ih hc.2]

theorem occurs_append_sep {c : Char} (hp : p ≠ []) (hc : c ∉ p) (a b : List Char) :
    occurs p (a ++ c :: b) = (occurs p a || occurs p b) := by
  induction a with
  | nil =>
    have hnil : occurs p [] = false := by
      rw [occurs, List.isEmpty_eq_false_iff]
      exact hp
    rw [hnil, List.nil_append, occurs, isPrefixOf_eq_false hp hc]
  | cons d a ih =>
    rw [List.cons_append, occurs, occurs, ← List.cons_append, isPrefixOf_append_sep hc, ih,
      Bool.or_assoc]

/-- Both sides of a separator are replaced on their own. -/
theorem replaceAll_append_sep {c : Char} (hp : p ≠ []) (hc : c ∉ p) (a b : List Char) :
    replaceAll p t (a ++ c :: b) = replaceAll p t a ++ c :: replaceAll p t b := by
  fun_induction replaceAll p t a with
  | case1 => exact replaceAll_cons (isPrefixOf_eq_false hp hc)
  | case2 d r hprefix ih =>
    obtain ⟨r', hr'⟩ := List.isPrefixOf_iff_prefix.mp hprefix.2
    rw [← hr', List.drop_left] at ih ⊢
    rw [List.append_assoc, replaceAll_pattern_append hp, ih, List.append_assoc]
  | case3 d r hprefix ih =>
    have hwhole : p.isPrefixOf (d :: (r ++ c :: b)) = false := by
      rw [← List.cons_append, isPrefixOf_append_sep hc, Bool.eq_false_iff]
      exact fun hstands => hprefix ⟨hp, hstands⟩
    rw [List.cons_append, replaceAll_cons hwhole, ih]
    rfl

theorem mem_replaceAll {c : Char} {s : List Char} (h : c ∈ replaceAll p t s) : c ∈ s ∨ c ∈ t := by
  fun_induction replaceAll p t s with
  | case1 => cases h
  | case2 d r hprefix ih =>
    rcases List.mem_append.mp h with h | h
    · exact .inr h
    · exact (ih h).imp_left List.mem_of_mem_drop
  | case3 d r hprefix ih =>
    rcases List.mem_cons.mp h with rfl | h
    · exact .inl List.mem_cons_self
    · exact (ih h).imp_left (List.mem_cons_of_mem d)

end pattern

theorem toDigits_injective {n m : Nat} (h : Nat.toDigits 10 n = Nat.toDigits 10 m) : n = m :=
  calc
    n = Nat.ofDigitChars 10 (Nat.toDigits 10 n) 0 := Nat.ofDigitChars_ten_toDigits.symm
    _ = Nat.ofDigitChars 10 (Nat.toDigits 10 m) 0 := by rw [h]
    _ = m := Nat.ofDigitChars_ten_toDigits

theorem length_toDigits_mono {n m : Nat} (h : n ≤ m) :
    (Nat.toDigits 10 n).length ≤ (Nat.toDigits 10 m).length := by
  have hm : m < 10 ^ (Nat.toDigits 10 m).length :=
    (Nat.length_toDigits_le_iff (by decide) Nat.length_toDigits_pos).mp le_rfl
  exact (Nat.length_toDigits_le_iff (by decide) Nat.length_toDigits_pos).mpr (h.trans_lt hm)

theorem isDigit_of_mem_toDigits {n : Nat} {c : Char} (h : c ∈ Nat.toDigits 10 n) :
    c.isDigit = true := Nat.isDigit_of_mem_toDigits (by decide) (by decide) h

/-- The second text is the first one with some numbers in it made greater. -/
inductive Grown : Nat → List Char → List Char → Prop
  | nil : Grown 0 [] []
  | char {k : Nat} {s s' : List Char} (c : Char) (h : Grown k s s') : Grown k (c :: s) (c :: s')
  | number {k : Nat} {s s' : List Char} {n m : Nat} (hnm : n < m) (h : Grown k s s') :
    Grown (k + 1) (Nat.toDigits 10 n ++ s) (Nat.toDigits 10 m ++ s')

namespace Grown

variable {k : Nat} {s s' : List Char}

theorem refl (s : List Char) : Grown 0 s s := by
  induction s with
  | nil => exact nil
  | cons c r ih => exact ih.char c

theorem length_le (h : Grown k s s') : s.length ≤ s'.length := by
  induction h with
  | nil => exact le_rfl
  | char c h ih => exact Nat.succ_le_succ ih
  | number hnm h ih =>
    rw [List.length_append, List.length_append]
    exact Nat.add_le_add (length_toDigits_mono hnm.le) ih

/-- Texts in which a number has grown differ. -/
theorem eq_zero (h : Grown k s s') (heq : s = s') : k = 0 := by
  induction h with
  | nil => rfl
  | char c h ih => exact ih (List.cons.inj heq).2
  | @number k s s' n m hnm h ih =>
    have hnumber := length_toDigits_mono hnm.le
    have hrest := h.length_le
    have hsum := congrArg List.length heq
    rw [List.length_append, List.length_append] at hsum
    have hdigits : Nat.toDigits 10 n = Nat.toDigits 10 m :=
      (List.append_inj heq (by omega)).1
    exact absurd (toDigits_injective hdigits) (Nat.ne_of_lt hnm)

theorem exists_digit (h : Grown (k + 1) s s') : ∃ c ∈ s, c.isDigit = true := by
  generalize hk : k + 1 = k' at h
  induction h with
  | nil => cases hk
  | char c h ih =>
    obtain ⟨d, hd, hdigit⟩ := ih hk
    exact ⟨d, List.mem_cons_of_mem c hd, hdigit⟩
  | @number k s s' n m hnm h ih =>
    obtain ⟨d, ds, hds⟩ := List.exists_cons_of_ne_nil (Nat.toDigits_ne_nil (n := n) (b := 10))
    have hd : d ∈ Nat.toDigits 10 n := hds ▸ List.mem_cons_self
    exact ⟨d, List.mem_append_left _ hd, isDigit_of_mem_toDigits hd⟩

/-- A pattern without digits stands in both texts or in neither, and the same grows behind it. -/
theorem isPrefixOf {p : List Char} (hp : ∀ c ∈ p, c.isDigit = false) (h : Grown k s s') :
    p.isPrefixOf s = p.isPrefixOf s' ∧ ∀ r, s = p ++ r → ∃ r', s' = p ++ r' ∧ Grown k r r' := by
  induction p generalizing s s' with
  | nil =>
    refine ⟨by simp, ?_⟩
    rintro r rfl
    exact ⟨s', rfl, h⟩
  | cons d q ih =>
    rw [List.forall_mem_cons] at hp
    cases h with
    | nil => simp
    | char c h =>
      obtain ⟨hsame, hrest⟩ := ih hp.2 h
      refine ⟨?_, ?_⟩
      · rw [List.isPrefixOf_cons_cons, List.isPrefixOf_cons_cons, hsame]
      · intro r hr
        obtain ⟨rfl, htail⟩ := List.cons.inj hr
        obtain ⟨r', rfl, hgrown⟩ := hrest r htail
        exact ⟨r', rfl, hgrown⟩
    | @number k s s' n m hnm h =>
      have hnot (i : Nat) (r : List Char) :
          (d :: q).isPrefixOf (Nat.toDigits 10 i ++ r) = false := by
        obtain ⟨e, es, hes⟩ := List.exists_cons_of_ne_nil (Nat.toDigits_ne_nil (n := i) (b := 10))
        have he : e.isDigit = true := isDigit_of_mem_toDigits (hes ▸ List.mem_cons_self)
        have hne : (d == e) = false := by
          rw [beq_eq_false_iff_ne]
          rintro rfl
          exact Bool.false_ne_true (hp.1.symm.trans he)
        rw [hes, List.cons_append, List.isPrefixOf_cons_cons, hne, Bool.false_and]
      refine ⟨by rw [hnot, hnot], ?_⟩
      intro r hr
      have hprefix := hnot n s
      rw [hr, List.isPrefixOf_iff_prefix.mpr (List.prefix_append _ r)] at hprefix
      cases hprefix

/-- Numbers in place of a pattern grow with the other ones, and more have grown if it occurs. -/
theorem replaceAll {p : List Char} (hne : p ≠ []) (hp : ∀ c ∈ p, c.isDigit = false) {n m : Nat}
    (hnm : n < m) (h : Grown k s s') :
    ∃ j, Grown (k + j) (replaceAll p (Nat.toDigits 10 n) s) (replaceAll p (Nat.toDigits 10 m) s') ∧
      (occurs p s = true → 0 < j) := by
  -- A match may take several steps of the relation at once; what is left of the text is shorter.
  induction hlength : s.length using Nat.strong_induction_on generalizing k s s' with
  | _ length ih =>
    cases h with
    | nil =>
      refine ⟨0, ?_, ?_⟩
      · rw [replaceAll_nil, replaceAll_nil]
        exact nil
      · intro hoccurs
        simp [occurs, hne] at hoccurs
    | @char k r r' c h =>
      obtain ⟨hsame, hrest⟩ := (h.char c).isPrefixOf hp
      cases hprefix : p.isPrefixOf (c :: r) with
      | true =>
        obtain ⟨rest, hr⟩ := List.isPrefixOf_iff_prefix.mp hprefix
        obtain ⟨rest', hr', hgrown⟩ := hrest rest hr.symm
        have hshorter : rest.length < length := by
          have hpos : 0 < p.length := List.length_pos_iff.mpr hne
          rw [← hr, List.length_append] at hlength
          omega
        obtain ⟨j, hgrown, -⟩ := ih _ hshorter hgrown rfl
        refine ⟨j + 1, ?_, fun _ => Nat.succ_pos j⟩
        rw [← hr, hr', replaceAll_pattern_append hne, replaceAll_pattern_append hne]
        exact hgrown.number hnm
      | false =>
        obtain ⟨j, hgrown, hoccurs⟩ := ih _ (by simp at hlength; omega) h rfl
        refine ⟨j, ?_, ?_⟩
        · rw [replaceAll_cons hprefix, replaceAll_cons (hsame ▸ hprefix)]
          exact hgrown.char c
        · rw [occurs, hprefix, Bool.false_or]
          exact hoccurs
    | @number k r r' i i' hi h =>
      have hdigits (i : Nat) : ∀ c ∈ Nat.toDigits 10 i, c ∉ p := by
        intro c hc hmem
        exact Bool.false_ne_true ((hp c hmem).symm.trans (isDigit_of_mem_toDigits hc))
      have hshorter : r.length < length := by
        have hpos : 0 < (Nat.toDigits 10 i).length := Nat.length_toDigits_pos
        rw [List.length_append] at hlength
        omega
      obtain ⟨j, hgrown, hoccurs⟩ := ih _ hshorter h rfl
      refine ⟨j, ?_, ?_⟩
      · rw [replaceAll_append hne (hdigits i), replaceAll_append hne (hdigits i'),
          Nat.add_right_comm]
        exact hgrown.number hi
      · rw [occurs_append hne (hdigits i)]
        exact hoccurs

end Grown

end ControlStore.Text
