import ControlStore.Proofs.Signals
import Mathlib.Order.Bounds.Defs

/-! Words as numbers. A word that was put together in any way has no zero limb at the top, although
only numbers and exclusive ORs drop such limbs, and all that is asked of it can be read off the
number that the same operations on numbers give. -/

namespace ControlStore

namespace Limbs

/-- ORs a value into the limb at an index. A list that ends before it is filled up with zeros. -/
def orAt (l : List UInt64) (i : Nat) (x : UInt64) : List UInt64 :=
  (l ++ List.replicate (i + 1 - l.length) 0).modify i (· ||| x)

/-- Sets a bit in the limb that it belongs to. -/
def put (l : List UInt64) (k : Nat) : List UInt64 :=
  orAt l (k / 64) (UInt64.ofNat (1 <<< (k % 64)))

theorem combine_nil (f : UInt64 → UInt64 → UInt64) (a : List UInt64) : combine f a [] = a := by
  cases a <;> rfl

/-- To change one limb is to OR with a list that has nothing else in it. -/
theorem orAt_eq_combine (l : List UInt64) (i : Nat) (x : UInt64) :
    orAt l i x = combine (· ||| ·) l (List.replicate i 0 ++ [x]) := by
  induction i generalizing l with
  | zero =>
    cases l with
    | nil => simp [orAt, combine]
    | cons y r => simp [orAt, combine, combine_nil]
  | succ i ih =>
    cases l with
    | nil =>
      have hnil : orAt [] (i + 1) x = 0 :: orAt [] i x := by
        simp [orAt, List.replicate_succ]
      rw [hnil, ih, List.replicate_succ]
      rfl
    | cons y r =>
      have hcons : orAt (y :: r) (i + 1) x = y :: orAt r i x := by
        simp [orAt]
      rw [hcons, ih, List.replicate_succ, List.cons_append, combine, UInt64.or_zero]

theorem put_eq_combine_bit (l : List UInt64) (k : Nat) :
    put l k = combine (· ||| ·) l (bit k) := orAt_eq_combine l _ _

end Limbs

namespace Word

theorem limbs_set (w : Word) (k : Nat) : (w.set k).limbs = Limbs.put w.limbs k :=
  (Limbs.put_eq_combine_bit w.limbs k).symm

theorem limbs_field (lsb width value : Nat) :
    (field lsb width value).limbs =
      (List.range (min width 64)).foldl
        (fun l i => if value.testBit i then Limbs.put l (lsb + i) else l) [] := by
  have hstep (w : Word) (i : Nat) :
      (if value.testBit i then Limbs.put w.limbs (lsb + i) else w.limbs) =
        (if value.testBit i then w.set (lsb + i) else w).limbs := by
    split
    · exact (limbs_set w (lsb + i)).symm
    · rfl
  exact (List.foldl_hom limbs hstep).symm

/-- The two halves of a number are its limbs, but for zeros at the top. -/
theorem limbs_ofNat_of_lt {n : Nat} (h : n < 2 ^ 128) :
    (ofNat n).limbs = Limbs.trim [UInt64.ofNat n, UInt64.ofNat (n >>> 64)] := by
  let w : Word := ⟨Limbs.trim [UInt64.ofNat n, UInt64.ofNat (n >>> 64)], Limbs.trimmed_trim _⟩
  have hhigh : n / 2 ^ 64 < 2 ^ 64 := by omega
  have hw : w.toNat = n := by
    show Limbs.toNat (Limbs.trim _) = n
    rw [Limbs.toNat_trim, Limbs.toNat_cons, Limbs.toNat_cons, Limbs.toNat, Nat.mul_zero,
      Nat.add_zero, Nat.shiftRight_eq_div_pow, UInt64.toNat_ofNat_of_lt' hhigh, UInt64.toNat_ofNat']
    exact Nat.mod_add_div n (2 ^ 64)
  have hsame : ofNat n = w := toNat_injective ((toNat_ofNat n).trans hw.symm)
  exact congrArg limbs hsame

theorem isLeast_bitWidth (w : Word) : IsLeast {b | w.toNat < 2 ^ b} w.bitWidth :=
  ⟨(bitWidth_le_iff w _).mp le_rfl, fun b hb => (bitWidth_le_iff w b).mpr hb⟩

theorem isZero_iff (w : Word) : w.isZero = true ↔ w.toNat = 0 := by
  constructor
  · intro h
    have hnil : w.limbs = [] := List.isEmpty_iff.mp h
    rw [toNat, hnil, Limbs.toNat]
  · intro h
    have hzero : w = zero := toNat_injective h
    rw [hzero]
    rfl

/-- A word has as many limbs as its bits need. -/
theorem length_limbs_le_iff (w : Word) (n : Nat) : w.limbs.length ≤ n ↔ w.bitWidth ≤ 64 * n := by
  unfold bitWidth
  split
  · rename_i h
    simp [List.getLast?_eq_none_iff.mp h]
  · rename_i top h
    have htop : top ≠ 0 := fun hz => w.trimmed (hz ▸ h)
    have hne : top.toNat ≠ 0 := fun hz => htop (UInt64.toNat_inj.mp hz)
    have hlog : top.toNat.log2 < 64 := (Nat.log2_lt hne).mpr top.toNat_lt
    have hpos : 0 < w.limbs.length := List.length_pos_of_mem (List.mem_of_getLast? h)
    omega

/-- A word of two limbs at most is the number that they are the halves of. -/
theorem toNat_eq_or (w : Word) (h : w.limbs.length ≤ 2) :
    w.toNat = (w.limb 0).toNat ||| (w.limb 1).toNat <<< 64 := by
  have hsum : w.toNat = (w.limb 1).toNat <<< 64 + (w.limb 0).toNat := by
    rw [Nat.shiftLeft_eq, Nat.mul_comm, Nat.add_comm]
    unfold toNat limb
    match w.limbs, h with
    | [], _ => rfl
    | [x], _ => rfl
    | [x, y], _ => rfl
  rw [hsum, Nat.shiftLeft_add_eq_or_of_lt (w.limb 0).toNat_lt, Nat.or_comm]

theorem toNat128?_eq (w : Word) :
    w.toNat128? = if w.toNat < 2 ^ 128 then some w.toNat else none := by
  have hlength : 2 < w.limbs.length ↔ ¬ w.toNat < 2 ^ 128 := by
    rw [← bitWidth_le_iff w 128, ← Nat.not_le]
    exact not_congr (length_limbs_le_iff w 2)
  unfold toNat128?
  by_cases h : w.toNat < 2 ^ 128
  · rw [if_neg (fun hmore => hlength.mp hmore h), if_pos h]
    rw [w.toNat_eq_or (Nat.not_lt.mp fun hmore => hlength.mp hmore h)]
  · rw [if_pos (hlength.mpr h), if_neg h]

end Word

/-- How a word is put together. -/
inductive Construction
  | zero
  | bit (k : Nat)
  | integer (n : BitVec 128)
  | field (lsb width value : Nat)
  | set (a : Construction) (k : Nat)
  | or (a b : Construction)
  | xor (a b : Construction)
deriving DecidableEq

namespace Construction

/-- The word that results. -/
def word : Construction → Word
  | zero => Word.zero
  | bit k => Word.bit k
  | integer n => Word.ofNat n.toNat
  | field lsb width value => Word.field lsb width value
  | set a k => a.word.set k
  | or a b => a.word ||| b.word
  | xor a b => a.word ^^^ b.word

/-- The same with lists of limbs that promise nothing. Zeros at the top are dropped from the two
halves of an integer and after an exclusive OR, and nowhere else. -/
def limbs : Construction → List UInt64
  | zero => []
  | bit k => Limbs.put [] k
  | integer n => Limbs.trim [UInt64.ofNat n.toNat, UInt64.ofNat (n.toNat >>> 64)]
  | field lsb width value =>
    (List.range (min width 64)).foldl
      (fun l i => if value.testBit i then Limbs.put l (lsb + i) else l) []
  | set a k => Limbs.put a.limbs k
  | or a b => Limbs.combine (· ||| ·) a.limbs b.limbs
  | xor a b => Limbs.trim (Limbs.combine (· ^^^ ·) a.limbs b.limbs)

/-- The same with numbers. -/
def number : Construction → Nat
  | zero => 0
  | bit k => 2 ^ k
  | integer n => n.toNat
  | field lsb width value => value % 2 ^ min width 64 * 2 ^ lsb
  | set a k => a.number ||| 2 ^ k
  | or a b => a.number ||| b.number
  | xor a b => a.number ^^^ b.number

/-- No bit is set at or above a position. -/
def Within (m : Nat) : Construction → Prop
  | zero => True
  | bit k => k < m
  | integer _ => True
  | field lsb width value => ∀ i < min width 64, value.testBit i = true → lsb + i < m
  | set a k => a.Within m ∧ k < m
  | or a b => a.Within m ∧ b.Within m
  | xor a b => a.Within m ∧ b.Within m

theorem limbs_word (e : Construction) : e.word.limbs = e.limbs := by
  induction e with
  | zero => rfl
  | bit k => exact (Limbs.put_eq_combine_bit [] k).symm
  | integer n => exact Word.limbs_ofNat_of_lt n.isLt
  | field lsb width value => exact Word.limbs_field lsb width value
  | set a k ih => rw [word, Word.limbs_set, ih, limbs]
  | or a b iha ihb =>
    show Limbs.combine (· ||| ·) a.word.limbs b.word.limbs = _
    rw [iha, ihb, limbs]
  | xor a b iha ihb =>
    show Limbs.trim (Limbs.combine (· ^^^ ·) a.word.limbs b.word.limbs) = _
    rw [iha, ihb, limbs]

theorem toNat_word (e : Construction) : e.word.toNat = e.number := by
  induction e with
  | zero => rfl
  | bit k => exact Word.toNat_bit k
  | integer n => exact Word.toNat_ofNat n.toNat
  | field lsb width value => exact Word.toNat_field lsb width value
  | set a k ih => rw [word, Word.toNat_set, ih, number]
  | or a b iha ihb => rw [word, Word.toNat_or, iha, ihb, number]
  | xor a b iha ihb => rw [word, Word.toNat_xor, iha, ihb, number]

theorem number_lt {m : Nat} (hm : 128 ≤ m) {e : Construction} (h : e.Within m) :
    e.number < 2 ^ m := by
  have hbit {k : Nat} (hk : k < m) : 2 ^ k < 2 ^ m := Nat.pow_lt_pow_right (by decide) hk
  induction e with
  | zero => exact Nat.two_pow_pos m
  | bit k => exact hbit h
  | integer n => exact n.isLt.trans_le (Nat.pow_le_pow_right (by decide) hm)
  | field lsb width value =>
    apply Nat.lt_pow_two_of_testBit
    intro k hk
    by_contra hset
    rw [Bool.not_eq_false, number, Nat.testBit_mul_two_pow, Nat.testBit_mod_two_pow,
      Bool.and_eq_true, Bool.and_eq_true, decide_eq_true_eq, decide_eq_true_eq] at hset
    obtain ⟨hlsb, hwidth, hbit⟩ := hset
    have hbelow := h (k - lsb) hwidth hbit
    omega
  | set a k ih => exact Nat.or_lt_two_pow (ih h.1) (hbit h.2)
  | or a b iha ihb => exact Nat.or_lt_two_pow (iha h.1) (ihb h.2)
  | xor a b iha ihb => exact Nat.xor_lt_two_pow (iha h.1) (ihb h.2)

/-- However a word is put together, its top limb is not zero, the limbs stand for the number that
the same operations on numbers give, and the bits, the width, the test for zero, the integer and the
equality of words are those of numbers. Bits below the highest position there is never make a word
too wide for its width to be such a position. -/
theorem numbers_of_constructions (e : Construction) :
    e.word.limbs = e.limbs ∧ e.limbs.getLast? ≠ some 0 ∧ Limbs.toNat e.limbs = e.number ∧
    (∀ k, e.word.test k = e.number.testBit k) ∧
    IsLeast {b | e.number < 2 ^ b} e.word.bitWidth ∧
    (e.word.isZero = true ↔ e.number = 0) ∧
    e.word.toNat128? = (if e.number < 2 ^ 128 then some e.number else none) ∧
    (∀ e' : Construction, e.word = e'.word ↔ e.number = e'.number) ∧
    (e.Within Line.maxPosition → e.word.bitWidth ≤ Line.maxPosition) := by
  have hnumber := e.toNat_word
  refine ⟨e.limbs_word, ?_, ?_, ?_, ?_, ?_, ?_, ?_, ?_⟩
  · rw [← e.limbs_word]
    exact e.word.trimmed
  · rw [← e.limbs_word]
    exact hnumber
  · intro k
    rw [Word.test_eq, hnumber]
  · rw [← hnumber]
    exact e.word.isLeast_bitWidth
  · rw [← hnumber]
    exact e.word.isZero_iff
  · rw [← hnumber]
    exact e.word.toNat128?_eq
  · intro e'
    rw [← hnumber, ← e'.toNat_word]
    exact Word.toNat_injective.eq_iff.symm
  · intro hwithin
    rw [Word.bitWidth_le_iff, hnumber]
    exact number_lt (by decide) hwithin

/-- Two of four limbs cancel, and a field straddles the two that are left. -/
def cancelled : Construction :=
  xor (or (field 60 8 0xAB) (set (bit 250) 200)) (set (bit 200) 250)

theorem numbers_of_cancelled :
    cancelled.Within Line.maxPosition ∧ cancelled.word.limbs = [0xB000000000000000, 0xA] ∧
    cancelled.word.bitWidth ≤ Line.maxPosition ∧
    cancelled.word.toNat128? = some (0xAB * 2 ^ 60) := by
  have hwithin : cancelled.Within Line.maxPosition := by
    have hone : 200 < Line.maxPosition := by decide
    have hother : 250 < Line.maxPosition := by decide
    have hfield : Within Line.maxPosition (field 60 8 0xAB) := by
      intro i hi _
      omega
    exact ⟨⟨hfield, hother, hone⟩, hone, hother⟩
  obtain ⟨hlimbs, -, -, -, -, -, hinteger, -, hwidth⟩ := numbers_of_constructions cancelled
  refine ⟨hwithin, ?_, hwidth hwithin, ?_⟩
  · rw [hlimbs]
    decide +kernel
  · rw [hinteger]
    decide +kernel

end Construction

end ControlStore
