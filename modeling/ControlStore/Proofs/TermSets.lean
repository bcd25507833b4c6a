import ControlStore.Proofs.Terms

/-! Words of terms in any order. A list of terms has a word if each of them has one, and its bits
are those of their words, so that neither the order of the terms nor a repetition matters. A list
without a word fails as its first term without one does. -/

namespace ControlStore

namespace Signals

variable {s : Signals} {terms xs ys : List String} {w : Word}

/-- Every term has a word, and the bits of all these words are the bits of one. -/
structure Combines (s : Signals) (terms : List String) (w : Word) : Prop where
  resolved : ∀ t ∈ terms, ∃ v, s.resolveTerm t = .ok v
  bits : ∀ k, w.test k = true ↔ ∃ t ∈ terms, ∃ v, s.resolveTerm t = .ok v ∧ v.test k = true

theorem Combines.congr (h : s.Combines xs w) (hsame : ∀ t, t ∈ xs ↔ t ∈ ys) : s.Combines ys w := by
  constructor
  · intro t ht
    exact h.resolved t ((hsame t).mpr ht)
  · intro k
    simp only [h.bits k, hsame]

/-- There is only one word with these bits. -/
theorem Combines.unique {a b : Word} (ha : s.Combines terms a) (hb : s.Combines terms b) :
    a = b := by
  apply Word.eq_of_test
  intro k
  rw [Bool.eq_iff_iff, ha.bits k, hb.bits k]

theorem combines_nil : s.Combines [] Word.zero := by
  constructor
  · intro t ht
    cases ht
  · intro k
    simp [Word.test_zero]

theorem Combines.cons {t : String} {rest : List String} {a b : Word}
    (ha : s.resolveTerm t = .ok a) (hb : s.Combines rest b) :
    s.Combines (t :: rest) (a ||| b) := by
  constructor
  · exact List.forall_mem_cons.mpr ⟨⟨a, ha⟩, hb.resolved⟩
  · intro k
    have hfirst : (∃ v, s.resolveTerm t = .ok v ∧ v.test k = true) ↔ a.test k = true := by
      simp [ha]
    rw [Word.test_or, Bool.or_eq_true, hb.bits k, ← hfirst]
    simp only [List.mem_cons, exists_eq_or_imp]

theorem combines_of_build (h : s.build terms = .ok w) : s.Combines terms w := by
  induction terms generalizing w with
  | nil =>
    cases h
    exact combines_nil
  | cons t rest ih =>
    obtain ⟨a, b, ha, hb, rfl⟩ := build_cons_eq_ok.mp h
    exact Combines.cons ha (ih hb)

theorem build_eq_mapM (terms : List String) :
    s.build terms = List.foldr (· ||| ·) Word.zero <$> terms.mapM s.resolveTerm := by
  induction terms with
  | nil => rfl
  | cons t rest ih =>
    rw [build_cons, ih, List.mapM_cons]
    cases s.resolveTerm t with
    | error e => rfl
    | ok a => cases rest.mapM s.resolveTerm <;> rfl

/-- The word is missing because of the first term that has none. -/
theorem build_eq_error_iff {e : Error} :
    s.build terms = .error e ↔
      ∃ before t after, terms = before ++ t :: after ∧
        (∀ u ∈ before, ∃ v, s.resolveTerm u = .ok v) ∧ s.resolveTerm t = .error e := by
  rw [build_eq_mapM, map_eq_error, mapM_eq_error_iff]

theorem exists_build_of_resolved (h : ∀ t ∈ terms, ∃ v, s.resolveTerm t = .ok v) :
    ∃ w, s.build terms = .ok w := by
  cases hbuild : s.build terms with
  | ok w => exact ⟨w, rfl⟩
  | error e =>
    obtain ⟨before, t, after, rfl, -, ht⟩ := build_eq_error_iff.mp hbuild
    obtain ⟨v, hv⟩ := h t (List.mem_append_right before List.mem_cons_self)
    cases ht.symm.trans hv

theorem build_eq_ok_iff : s.build terms = .ok w ↔ s.Combines terms w := by
  constructor
  · exact combines_of_build
  · intro h
    obtain ⟨w', hw'⟩ := exists_build_of_resolved h.resolved
    rw [hw', h.unique (combines_of_build hw')]

/-- A list of terms has the word that combines theirs, whichever signals there are. Lists of the
same terms have the same word or both have none; two lists after one another have the OR of their
words, and have a word only if both do; and the error of a list is that of its first term without a
word. -/
theorem words_of_term_sets (s : Signals) :
    (∀ terms w, s.build terms = .ok w ↔ s.Combines terms w) ∧
    (∀ xs ys, (∀ t, t ∈ xs ↔ t ∈ ys) → ∀ w, s.build xs = .ok w ↔ s.build ys = .ok w) ∧
    (∀ xs ys w, s.build (xs ++ ys) = .ok w ↔
      ∃ a b, s.build xs = .ok a ∧ s.build ys = .ok b ∧ w = a ||| b) ∧
    (∀ terms e, s.build terms = .error e ↔
      ∃ before t after, terms = before ++ t :: after ∧
        (∀ u ∈ before, ∃ v, s.resolveTerm u = .ok v) ∧ s.resolveTerm t = .error e) := by
  refine ⟨fun _ _ => build_eq_ok_iff, ?_, fun _ _ _ => build_append_eq_ok,
    fun _ _ => build_eq_error_iff⟩
  intro xs ys hsame w
  rw [build_eq_ok_iff, build_eq_ok_iff]
  constructor
  · intro h
    exact h.congr hsame
  · intro h
    exact h.congr fun t => (hsame t).symm

/-- A line, a field and a composite with both, in another order and with one of them twice. -/
theorem words_of_term_sets_reordered :
    (∀ t, t ∈ ["F=5", "A", "X", "A"] ↔ t ∈ ["X", "A", "F=5"]) ∧
    withNamedValues.build ["F=5", "A", "X", "A"] = .ok (Word.ofNat 0x51) ∧
    withNamedValues.build ["X", "A", "F=5"] = .ok (Word.ofNat 0x51) := by
  have hsame : ∀ t, t ∈ ["F=5", "A", "X", "A"] ↔ t ∈ ["X", "A", "F=5"] := by
    intro t
    simp only [List.mem_cons, List.not_mem_nil, or_false]
    tauto
  have hbuild : withNamedValues.build ["F=5", "A", "X", "A"] = .ok (Word.ofNat 0x51) := by
    decide +kernel
  exact ⟨hsame, hbuild, ((words_of_term_sets withNamedValues).2.1 _ _ hsame _).mp hbuild⟩

end Signals

end ControlStore
