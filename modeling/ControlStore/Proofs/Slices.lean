import ControlStore.Flags
import Mathlib.Algebra.BigOperators.GroupWithZero.Finset
import Mathlib.Algebra.BigOperators.Intervals
import Mathlib.Data.Nat.Bitwise

/-! The slices of a condition. A condition selects each slice in which one of its literals holds,
whatever their order, and their number depends only on how many bits the literals ask about, unless
both values of a bit will do. -/

namespace ControlStore

/-- The bits that literals of the condition ask about. -/
def Condition.bits (c : Condition) : Finset Nat := (c.literals.map Literal.bit).toFinset

/-- Some bit may have either value. -/
def Condition.TakesBoth (c : Condition) : Prop :=
  ∃ bit, ⟨bit, false⟩ ∈ c.literals ∧ ⟨bit, true⟩ ∈ c.literals

/-- How many values of a bit no literal asks for. -/
def Condition.spare (c : Condition) (bit : Nat) : Nat :=
  [false, true].countP fun value => !c.literals.contains ⟨bit, value⟩

/-- A condition holds in a slice that has a bit with the value that a literal asks for. -/
theorem Condition.holds_iff (c : Condition) (slice : Nat) :
    c.holds slice = true ↔ ∃ l ∈ c.literals, slice.testBit l.bit = l.value := by
  simp [Condition.holds, Literal.holds]

/-- The numbers below `2 ^ (n + 1)` are those below `2 ^ n`, without and with bit `n`. -/
theorem range_two_pow_succ (n : Nat) :
    List.range (2 ^ (n + 1)) =
      List.range (2 ^ n) ++ (List.range (2 ^ n)).map (2 ^ n + ·) := by
  rw [Nat.pow_succ, Nat.mul_two, List.range_add]

/-- A bit that is the same in all of some numbers is allowed in all of them or in none. -/
theorem countP_allowed_place (allowed : Nat → Bool → Bool) (n : Nat) (b : Bool) (place : Nat → Nat)
    (hbit : ∀ s < 2 ^ n, (place s).testBit n = b)
    (hlow : ∀ s < 2 ^ n, ∀ i < n, (place s).testBit i = s.testBit i) :
    (List.range (2 ^ n)).countP
        (fun s => decide (∀ i < n + 1, allowed i ((place s).testBit i) = true)) =
      if allowed n b then
        (List.range (2 ^ n)).countP (fun s => decide (∀ i < n, allowed i (s.testBit i) = true))
      else 0 := by
  have hsplit : ∀ s ∈ List.range (2 ^ n),
      ((∀ i < n + 1, allowed i ((place s).testBit i) = true) ↔
        (∀ i < n, allowed i (s.testBit i) = true) ∧ allowed n b = true) := by
    intro s hs
    have hs : s < 2 ^ n := List.mem_range.mp hs
    rw [Nat.forall_lt_succ_right, hbit s hs]
    refine and_congr_left fun _ => forall₂_congr fun i hi => ?_
    rw [hlow s hs i hi]
  by_cases hallowed : allowed n b = true
  · rw [if_pos hallowed]
    apply List.countP_congr
    intro s hs
    rw [decide_eq_true_eq, decide_eq_true_eq, hsplit s hs]
    exact and_iff_left hallowed
  · rw [if_neg hallowed, List.countP_eq_zero]
    intro s hs
    rw [decide_eq_true_eq, hsplit s hs]
    exact fun h => hallowed h.2

/-- If each bit has some values that it may have, the numbers with such bits are as many as there
are ways to choose a value for each bit. -/
theorem countP_allowed (allowed : Nat → Bool → Bool) (n : Nat) :
    (List.range (2 ^ n)).countP (fun s => decide (∀ i < n, allowed i (s.testBit i) = true)) =
      ∏ i ∈ Finset.range n, [false, true].countP (allowed i) := by
  -- A further bit doubles the numbers, and changes nothing about the bits below it.
  induction n with
  | zero => simp
  | succ n ih =>
    have hlower := countP_allowed_place allowed n false id
      (fun s hs => Nat.testBit_lt_two_pow hs) (fun s _ i _ => rfl)
    have hupper := countP_allowed_place allowed n true (2 ^ n + ·)
      (by
        intro s hs
        rw [Nat.testBit_two_pow_add_eq, Nat.testBit_lt_two_pow hs]
        rfl)
      (fun s _ i hi => Nat.testBit_two_pow_add_gt hi s)
    rw [ih] at hlower hupper
    calc (List.range (2 ^ (n + 1))).countP
          (fun s => decide (∀ i < n + 1, allowed i (s.testBit i) = true))
        = (if allowed n false then ∏ i ∈ Finset.range n, [false, true].countP (allowed i) else 0) +
          (if allowed n true then ∏ i ∈ Finset.range n, [false, true].countP (allowed i) else 0) := by
          rw [range_two_pow_succ, List.countP_append, List.countP_map, ← hlower, ← hupper]
          rfl
      _ = (∏ i ∈ Finset.range n, [false, true].countP (allowed i)) *
          [false, true].countP (allowed n) := by
          cases hfalse : allowed n false <;> cases htrue : allowed n true <;>
            simp [hfalse, htrue, Nat.mul_two]
      _ = ∏ i ∈ Finset.range (n + 1), [false, true].countP (allowed i) :=
          (Finset.prod_range_succ _ n).symm

namespace Condition

variable {c : Condition} {n : Nat}

/-- A slice is missed if none of its bits has a value that a literal asks for. -/
theorem not_holds_iff (hc : ∀ l ∈ c.literals, l.bit < n) (slice : Nat) :
    ¬ c.holds slice = true ↔ ∀ i < n, (!c.literals.contains ⟨i, slice.testBit i⟩) = true := by
  rw [holds_iff]
  simp only [Bool.not_eq_true', List.contains_eq_mem, decide_eq_false_iff_not]
  constructor
  · intro hno i _ hmem
    exact hno ⟨_, hmem, rfl⟩
  · rintro hno ⟨l, hl, hvalue⟩
    apply hno l.bit (hc l hl)
    rw [hvalue]
    exact hl

theorem mem_bits (c : Condition) (bit : Nat) :
    bit ∈ c.bits ↔ ⟨bit, false⟩ ∈ c.literals ∨ ⟨bit, true⟩ ∈ c.literals := by
  rw [bits, List.mem_toFinset, List.mem_map]
  constructor
  · rintro ⟨⟨bit', value⟩, hl, rfl⟩
    cases value with
    | false => exact .inl hl
    | true => exact .inr hl
  · rintro (hl | hl)
    · exact ⟨_, hl, rfl⟩
    · exact ⟨_, hl, rfl⟩

theorem bits_subset_range (hc : ∀ l ∈ c.literals, l.bit < n) : c.bits ⊆ Finset.range n := by
  intro bit hbit
  rw [bits, List.mem_toFinset, List.mem_map] at hbit
  obtain ⟨l, hl, rfl⟩ := hbit
  exact Finset.mem_range.mpr (hc l hl)

theorem prod_spare_of_takesBoth (hc : ∀ l ∈ c.literals, l.bit < n) (h : c.TakesBoth) :
    ∏ i ∈ Finset.range n, c.spare i = 0 := by
  obtain ⟨bit, hfalse, htrue⟩ := h
  apply Finset.prod_eq_zero (Finset.mem_range.mpr (hc _ hfalse))
  simp [spare, hfalse, htrue]

theorem spare_of_not_takesBoth (h : ¬ c.TakesBoth) (bit : Nat) :
    c.spare bit = if bit ∈ c.bits then 1 else 2 := by
  have hboth : ¬ (⟨bit, false⟩ ∈ c.literals ∧ ⟨bit, true⟩ ∈ c.literals) :=
    fun hboth => h ⟨bit, hboth⟩
  have hmem := c.mem_bits bit
  by_cases hfalse : ⟨bit, false⟩ ∈ c.literals <;> by_cases htrue : ⟨bit, true⟩ ∈ c.literals <;>
    simp_all [spare]

/-- Each bit that is asked about leaves one value, and each of the others two. -/
theorem prod_spare_of_not_takesBoth (hc : ∀ l ∈ c.literals, l.bit < n) (h : ¬ c.TakesBoth) :
    ∏ i ∈ Finset.range n, c.spare i = 2 ^ (n - c.bits.card) := by
  calc ∏ i ∈ Finset.range n, c.spare i
      = ∏ i ∈ Finset.range n, if i ∈ c.bits then 1 else 2 :=
        Finset.prod_congr rfl fun i _ => spare_of_not_takesBoth h i
    _ = 2 ^ (Finset.range n \ c.bits).card := by
        rw [Finset.prod_ite, Finset.prod_const_one, Finset.prod_const, one_mul,
          Finset.sdiff_eq_filter]
    _ = 2 ^ (n - c.bits.card) := by
        rw [Finset.card_sdiff_of_subset (bits_subset_range hc), Finset.card_range]

end Condition

namespace Flags

variable {f : Flags} {c : Condition}

theorem mem_matching (f : Flags) (c : Condition) (slice : Nat) :
    slice ∈ f.matching c ↔
      slice < 2 ^ f.bits ∧ ∃ l ∈ c.literals, slice.testBit l.bit = l.value := by
  rw [matching, List.mem_filter, c.holds_iff, slices, List.mem_range, sliceCount,
    Nat.one_shiftLeft]

theorem pairwise_matching (f : Flags) (c : Condition) : (f.matching c).Pairwise (· < ·) :=
  List.Pairwise.filter _ List.pairwise_lt_range

/-- Only which literals there are matters, not where and how often. -/
theorem matching_congr {c' : Condition} (h : ∀ l, l ∈ c'.literals ↔ l ∈ c.literals) :
    f.matching c' = f.matching c := by
  apply List.filter_congr
  intro slice _
  rw [Bool.eq_iff_iff, c'.holds_iff, c.holds_iff]
  simp only [h]

/-- The slices of a condition and those that it misses are all there are. -/
theorem length_matching (hc : ∀ l ∈ c.literals, l.bit < f.bits) :
    (f.matching c).length = 2 ^ f.bits - ∏ i ∈ Finset.range f.bits, c.spare i := by
  have hall : 2 ^ f.bits = (f.matching c).length +
      (List.range (2 ^ f.bits)).countP (fun s => decide ¬ c.holds s = true) := by
    have hcount := List.length_eq_countP_add_countP c.holds (l := List.range (2 ^ f.bits))
    rw [List.length_range, List.countP_eq_length_filter] at hcount
    rw [matching, slices, sliceCount, Nat.one_shiftLeft]
    exact hcount
  have hmissed : (List.range (2 ^ f.bits)).countP (fun s => decide ¬ c.holds s = true) =
      ∏ i ∈ Finset.range f.bits, c.spare i := by
    refine Eq.trans ?_ (countP_allowed (fun i v => !c.literals.contains ⟨i, v⟩) f.bits)
    apply List.countP_congr
    intro s _
    rw [decide_eq_true_eq, decide_eq_true_eq]
    exact Condition.not_holds_iff hc s
  omega

end Flags

end ControlStore
