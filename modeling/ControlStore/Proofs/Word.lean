import ControlStore.Word
import Mathlib.Data.Nat.Bitwise

/-! The number of a word. Every operation on words is the operation of the same name on numbers, and
a number has one word only. -/

namespace ControlStore.Limbs

theorem toNat_cons (x : UInt64) (r : List UInt64) :
    toNat (x :: r) = x.toNat + 2 ^ 64 * toNat r := rfl

/-- Bit `k` of the number is bit `k % 64` of limb `k / 64`. -/
theorem testBit_toNat (l : List UInt64) (k : Nat) :
    (toNat l).testBit k = (l.getD (k / 64) 0).toNat.testBit (k % 64) := by
  induction l generalizing k with
  | nil => simp [toNat]
  | cons x r ih =>
    have hx : x.toNat < 2 ^ 64 := x.toNat_lt
    rw [toNat_cons, Nat.add_comm, Nat.testBit_two_pow_mul_add _ hx]
    by_cases hk : k < 64
    · rw [if_pos hk, Nat.div_eq_of_lt hk, Nat.mod_eq_of_lt hk, List.getD_cons_zero]
    · have hd : k / 64 = (k - 64) / 64 + 1 := by omega
      have hm : k % 64 = (k - 64) % 64 := by omega
      rw [if_neg hk, ih, hd, hm, List.getD_cons_succ]

theorem getD_combine (f : UInt64 → UInt64 → UInt64) (hl : ∀ x, f 0 x = x) (hr : ∀ x, f x 0 = x)
    (a b : List UInt64) (i : Nat) :
    (combine f a b).getD i 0 = f (a.getD i 0) (b.getD i 0) := by
  induction a generalizing b i with
  | nil => simp [combine, hl]
  | cons x a ih =>
    cases b with
    | nil => simp [combine, hr]
    | cons y b =>
      cases i with
      | zero => simp [combine]
      | succ i => simpa [combine] using ih b i

theorem toNat_combine_or (a b : List UInt64) :
    toNat (combine (· ||| ·) a b) = toNat a ||| toNat b := by
  apply Nat.eq_of_testBit_eq
  intro k
  rw [Nat.testBit_or, testBit_toNat, testBit_toNat, testBit_toNat,
    getD_combine _ (fun _ => UInt64.zero_or) (fun _ => UInt64.or_zero), UInt64.toNat_or,
    Nat.testBit_or]

theorem toNat_combine_xor (a b : List UInt64) :
    toNat (combine (· ^^^ ·) a b) = toNat a ^^^ toNat b := by
  apply Nat.eq_of_testBit_eq
  intro k
  rw [Nat.testBit_xor, testBit_toNat, testBit_toNat, testBit_toNat,
    getD_combine _ (fun _ => UInt64.zero_xor) (fun _ => UInt64.xor_zero), UInt64.toNat_xor,
    Nat.testBit_xor]

theorem toNat_trim (l : List UInt64) : toNat (trim l) = toNat l := by
  induction l with
  | nil => rfl
  | cons x r ih =>
    rw [trim]
    split
    · rename_i hr
      rw [hr] at ih
      have hz : toNat r = 0 := ih.symm
      split
      · rename_i hx
        simp [toNat, hz, hx]
      · simp [toNat, hz]
    · rename_i y r' hr
      rw [hr] at ih
      rw [toNat_cons, ih, toNat_cons]

theorem toNat_ofNat (n : Nat) : toNat (ofNat n) = n := by
  induction n using Nat.strongRecOn with
  | _ n ih =>
    rw [ofNat]
    split
    · rename_i hn
      rw [hn, toNat]
    · have hlt : n / base < n := by unfold base; omega
      rw [toNat, ih _ hlt, UInt64.toNat_ofNat']
      exact Nat.mod_add_div n base

/-- A number has no other trimmed limbs than its own. -/
theorem ofNat_toNat {l : List UInt64} (h : Trimmed l) : ofNat (toNat l) = l := by
  induction l with
  | nil => simp [toNat, ofNat]
  | cons x r ih =>
    have hr : Trimmed r := by
      cases r with
      | nil => exact trimmed_nil
      | cons y r => exact trimmed_cons.mp h
    have hx : x.toNat < base := x.toNat_lt
    have hdiv : (x.toNat + base * toNat r) / base = toNat r := by
      rw [Nat.add_mul_div_left _ _ (by decide), Nat.div_eq_of_lt hx, Nat.zero_add]
    have hmod : UInt64.ofNat (x.toNat + base * toNat r) = x := by
      apply UInt64.toNat_inj.mp
      rw [UInt64.toNat_ofNat']
      show (x.toNat + base * toNat r) % base = x.toNat
      rw [Nat.add_mul_mod_self_left, Nat.mod_eq_of_lt hx]
    have hne : x.toNat + base * toNat r ≠ 0 := by
      intro hz
      have hx0 : x = 0 := UInt64.toNat_inj.mp (by simpa using (by omega : x.toNat = 0))
      have hr0 : toNat r = 0 := by
        rcases Nat.mul_eq_zero.mp (by omega : base * toNat r = 0) with hb | hr0
        · exact absurd hb (by decide)
        · exact hr0
      have hnil : r = [] := by rw [← ih hr, hr0, ofNat, if_pos rfl]
      exact h (by rw [hnil, hx0, List.getLast?_singleton])
    rw [toNat, ofNat, if_neg hne, hmod, hdiv, ih hr]

theorem toNat_replicate_zero_append (n : Nat) (l : List UInt64) :
    toNat (List.replicate n 0 ++ l) = base ^ n * toNat l := by
  induction n with
  | zero => simp
  | succ n ih =>
    rw [List.replicate_succ, List.cons_append, toNat, ih, Nat.pow_succ, Nat.mul_comm (base ^ n) base,
      Nat.mul_assoc]
    simp

theorem toNat_bit (k : Nat) : toNat (bit k) = 2 ^ k := by
  have hlt : 2 ^ (k % 64) < 2 ^ 64 :=
    Nat.pow_lt_pow_right (by decide) (Nat.mod_lt _ (by decide))
  have hbase : base ^ (k / 64) = 2 ^ (64 * (k / 64)) := by rw [Nat.pow_mul]; rfl
  rw [bit, toNat_replicate_zero_append, toNat, toNat, Nat.one_shiftLeft,
    UInt64.toNat_ofNat_of_lt' hlt, hbase, Nat.mul_zero, Nat.add_zero, ← Nat.pow_add,
    Nat.div_add_mod]

/-- The top limb decides the order of magnitude. -/
theorem log2_toNat (l : List UInt64) (top : UInt64) (hl : l.getLast? = some top) (ht : top ≠ 0) :
    toNat l ≠ 0 ∧ (toNat l).log2 = (l.length - 1) * 64 + top.toNat.log2 := by
  induction l with
  | nil => simp at hl
  | cons x r ih =>
    cases r with
    | nil =>
      have hx : x = top := by simpa using hl
      have hz : x.toNat ≠ 0 := fun h => ht (hx ▸ UInt64.toNat_inj.mp h)
      subst hx
      simpa [toNat] using hz
    | cons y r =>
      rw [List.getLast?_cons_cons] at hl
      obtain ⟨hne, hlog⟩ := ih hl
      have hx : x.toNat < 2 ^ 64 := x.toNat_lt
      have hne' : toNat (x :: y :: r) ≠ 0 := by rw [toNat_cons]; omega
      refine ⟨hne', ?_⟩
      obtain ⟨hlo, hhi⟩ := (Nat.log2_eq_iff hne).mp hlog
      have hlen : (x :: y :: r).length - 1 = (y :: r).length - 1 + 1 := by simp
      rw [Nat.log2_eq_iff hne', toNat_cons, hlen]
      have hpow (e : Nat) : 2 ^ (((y :: r).length - 1 + 1) * 64 + e) =
          2 ^ 64 * 2 ^ (((y :: r).length - 1) * 64 + e) := by
        rw [← Nat.pow_add]
        congr 1
        omega
      rw [Nat.add_assoc, hpow, hpow]
      rw [Nat.add_assoc] at hhi
      constructor
      · calc
          _ ≤ 2 ^ 64 * toNat (y :: r) := Nat.mul_le_mul_left _ hlo
          _ ≤ _ := Nat.le_add_left _ _
      · calc
          x.toNat + 2 ^ 64 * toNat (y :: r) < 2 ^ 64 * (toNat (y :: r) + 1) := by omega
          _ ≤ _ := Nat.mul_le_mul_left _ hhi

end ControlStore.Limbs

namespace ControlStore.Word

theorem toNat_injective : Function.Injective toNat := by
  intro a b h
  have hl : a.limbs = b.limbs := by
    rw [← Limbs.ofNat_toNat a.trimmed, ← Limbs.ofNat_toNat b.trimmed]
    exact congrArg Limbs.ofNat h
  cases a
  cases b
  simpa using hl

@[simp]
theorem toNat_zero : zero.toNat = 0 := rfl

@[simp]
theorem toNat_ofNat (n : Nat) : (ofNat n).toNat = n := Limbs.toNat_ofNat n

@[simp]
theorem toNat_bit (k : Nat) : (bit k).toNat = 2 ^ k := Limbs.toNat_bit k

@[simp]
theorem toNat_or (a b : Word) : (a ||| b).toNat = a.toNat ||| b.toNat :=
  Limbs.toNat_combine_or a.limbs b.limbs

@[simp]
theorem toNat_xor (a b : Word) : (a ^^^ b).toNat = a.toNat ^^^ b.toNat :=
  (Limbs.toNat_trim _).trans (Limbs.toNat_combine_xor a.limbs b.limbs)

@[simp]
theorem toNat_set (w : Word) (k : Nat) : (w.set k).toNat = w.toNat ||| 2 ^ k := by
  rw [set, toNat_or, toNat_bit]

theorem or_assoc (a b c : Word) : a ||| b ||| c = a ||| (b ||| c) := by
  apply toNat_injective
  rw [toNat_or, toNat_or, toNat_or, toNat_or, Nat.or_assoc]

theorem or_zero (w : Word) : w ||| zero = w := by
  apply toNat_injective
  rw [toNat_or, toNat_zero, Nat.or_zero]

theorem zero_or (w : Word) : zero ||| w = w := by
  apply toNat_injective
  rw [toNat_or, toNat_zero, Nat.zero_or]

theorem testBit_toNat (w : Word) (k : Nat) :
    w.toNat.testBit k = (w.limb (k / 64)).toNat.testBit (k % 64) :=
  Limbs.testBit_toNat w.limbs k

/-- The width is the least number of bits that holds the word. -/
theorem bitWidth_le_iff (w : Word) (n : Nat) : w.bitWidth ≤ n ↔ w.toNat < 2 ^ n := by
  unfold bitWidth
  split
  · rename_i h
    rw [List.getLast?_eq_none_iff] at h
    have hz : w.toNat = 0 := by rw [toNat, h, Limbs.toNat]
    rw [hz]
    exact ⟨fun _ => Nat.two_pow_pos n, fun _ => Nat.zero_le n⟩
  · rename_i top h
    have htop : top ≠ 0 := fun hz => w.trimmed (hz ▸ h)
    obtain ⟨hne, hlog⟩ := Limbs.log2_toNat w.limbs top h htop
    rw [toNat, ← Nat.log2_lt hne, hlog]
    omega

theorem testBit_field_fold (lsb value n k : Nat) :
    ((List.range n).foldl (fun w i => if value.testBit i then w.set (lsb + i) else w)
      zero).toNat.testBit k = (decide (lsb ≤ k ∧ k < lsb + n) && value.testBit (k - lsb)) := by
  induction n with
  | zero =>
    have hk : ¬(lsb ≤ k ∧ k < lsb) := by omega
    simp [hk]
  | succ n ih =>
    rw [List.range_succ, List.foldl_append, List.foldl_cons, List.foldl_nil]
    by_cases hkn : k = lsb + n
    · have hnew : (lsb ≤ k ∧ k < lsb + (n + 1)) := by omega
      have hold : ¬(lsb ≤ k ∧ k < lsb + n) := by omega
      have hsub : k - lsb = n := by omega
      rw [decide_eq_true hnew, hsub, Bool.true_and]
      split
      · rename_i hv
        rw [toNat_set, Nat.testBit_or, ← hkn, Nat.testBit_two_pow_self, Bool.or_true, hv]
      · rename_i hv
        rw [ih, decide_eq_false hold, Bool.false_and]
        simpa using hv
    · have hiff : (lsb ≤ k ∧ k < lsb + (n + 1)) ↔ (lsb ≤ k ∧ k < lsb + n) := by omega
      rw [decide_eq_decide.mpr hiff, ← ih]
      split
      · rw [toNat_set, Nat.testBit_or, Nat.testBit_two_pow_of_ne (Ne.symm hkn), Bool.or_false]
      · rfl

theorem toNat_field (lsb width value : Nat) :
    (field lsb width value).toNat = value % 2 ^ min width 64 * 2 ^ lsb := by
  apply Nat.eq_of_testBit_eq
  intro k
  rw [field, testBit_field_fold, Nat.testBit_mul_two_pow, Nat.testBit_mod_two_pow]
  by_cases hk : lsb ≤ k
  · have hiff : (lsb ≤ k ∧ k < lsb + min width 64) ↔ k - lsb < min width 64 := by omega
    rw [decide_eq_decide.mpr hiff, decide_eq_true hk, Bool.true_and]
  · simp [hk]

theorem toNat_mask (width : Nat) (hw : width < 64) :
    ((1 : UInt64) <<< UInt64.ofNat width - 1).toNat = 2 ^ width - 1 := by
  have hlt : 2 ^ width < 2 ^ 64 := Nat.pow_lt_pow_right (by decide) hw
  have hpow : ((1 : UInt64) <<< UInt64.ofNat width).toNat = 2 ^ width := by
    rw [UInt64.toNat_shiftLeft, UInt64.toNat_ofNat_of_lt' (by omega : width < 2 ^ 64),
      Nat.mod_eq_of_lt hw,
      UInt64.toNat_one, Nat.one_shiftLeft, Nat.mod_eq_of_lt hlt]
  have hle : (1 : UInt64) ≤ (1 : UInt64) <<< UInt64.ofNat width := by
    rw [UInt64.le_iff_toNat_le, hpow]
    exact Nat.one_le_two_pow
  rw [UInt64.toNat_sub_of_le _ _ hle, hpow, UInt64.toNat_one]

theorem testBit_shiftLeft_limb (x : UInt64) (k i : Nat) (hk : k < 64) (hi : i < 64) :
    (x <<< UInt64.ofNat k).toNat.testBit i = (decide (k ≤ i) && x.toNat.testBit (i - k)) := by
  rw [UInt64.toNat_shiftLeft, UInt64.toNat_ofNat_of_lt' (by omega : k < 2 ^ 64),
    Nat.mod_eq_of_lt hk, Nat.testBit_mod_two_pow, Nat.testBit_shiftLeft, decide_eq_true hi,
    Bool.true_and]

/-- The two limbs that bits may straddle, shifted against each other. -/
theorem testBit_straddle (w : Word) (lsb i : Nat) (hi : i < 64) :
    (w.limb (lsb / 64) >>> UInt64.ofNat (lsb % 64) |||
      if lsb % 64 = 0 then 0
      else w.limb (lsb / 64 + 1) <<< UInt64.ofNat (64 - lsb % 64)).toNat.testBit i =
    w.toNat.testBit (lsb + i) := by
  have hmod : lsb % 64 < 64 := Nat.mod_lt _ (by decide)
  rw [UInt64.toNat_or, Nat.testBit_or, UInt64.toNat_shiftRight,
    UInt64.toNat_ofNat_of_lt' (by omega : lsb % 64 < 2 ^ 64), Nat.mod_eq_of_lt hmod,
    Nat.testBit_shiftRight, testBit_toNat]
  -- The bit comes from the lower limb up to its end, and from the next one after that.
  by_cases hlow : lsb % 64 + i < 64
  · have hd : (lsb + i) / 64 = lsb / 64 := by omega
    have hm : (lsb + i) % 64 = lsb % 64 + i := by omega
    rw [hd, hm]
    split
    · simp
    · rename_i h0
      have hhi : ¬ 64 - lsb % 64 ≤ i := by omega
      rw [testBit_shiftLeft_limb _ _ i (by omega) hi, decide_eq_false hhi, Bool.false_and,
        Bool.or_false]
  · have hd : (lsb + i) / 64 = lsb / 64 + 1 := by omega
    have hm : (lsb + i) % 64 = i - (64 - lsb % 64) := by omega
    have hlimb : (w.limb (lsb / 64)).toNat.testBit (lsb % 64 + i) = false :=
      Nat.testBit_lt_two_pow (lt_of_lt_of_le (UInt64.toNat_lt _)
        (Nat.pow_le_pow_right (by decide) (by omega)))
    have h0 : lsb % 64 ≠ 0 := by omega
    have hhi : 64 - lsb % 64 ≤ i := by omega
    rw [hd, hm, hlimb, if_neg h0, testBit_shiftLeft_limb _ _ i (by omega) hi, decide_eq_true hhi,
      Bool.true_and, Bool.false_or]

/-- Taking out bits is a shift and a remainder, also across a limb boundary. -/
theorem toNat_extract (w : Word) (lsb width : Nat) (hw : width ≤ 64) :
    (w.extract lsb width).toNat = w.toNat / 2 ^ lsb % 2 ^ width := by
  apply Nat.eq_of_testBit_eq
  intro i
  rw [Nat.testBit_mod_two_pow, Nat.testBit_div_two_pow, Nat.add_comm i lsb]
  dsimp only [extract]
  split
  · by_cases hi : i < 64
    · rw [testBit_straddle w lsb i hi]
      simp [show i < width by omega]
    · have hbig := Nat.testBit_lt_two_pow (lt_of_lt_of_le (UInt64.toNat_lt
        (w.limb (lsb / 64) >>> UInt64.ofNat (lsb % 64) |||
          if lsb % 64 = 0 then 0
          else w.limb (lsb / 64 + 1) <<< UInt64.ofNat (64 - lsb % 64)))
        (Nat.pow_le_pow_right (by decide) (by omega : 64 ≤ i)))
      rw [hbig]
      simp [show ¬ i < width by omega]
  · rename_i hlt
    rw [UInt64.toNat_and, toNat_mask width (by omega), Nat.testBit_and,
      Nat.testBit_two_pow_sub_one]
    by_cases hi : i < width
    · rw [testBit_straddle w lsb i (by omega), Bool.and_comm]
    · simp [hi]

/-- One more piece on top of the low pieces of a word. -/
theorem toNat_or_piece (w acc : Word) (width i : Nat) (hw : width ≤ 64)
    (hacc : acc.toNat = w.toNat % 2 ^ (i * width)) :
    (acc ||| field (i * width) width (w.extract (i * width) width).toNat).toNat =
      w.toNat % 2 ^ ((i + 1) * width) := by
  have hlt : acc.toNat < 2 ^ (i * width) := by
    rw [hacc]
    exact Nat.mod_lt _ (Nat.two_pow_pos _)
  have hpiece := toNat_extract w (i * width) width hw
  rw [toNat_or, toNat_field, Nat.min_eq_left hw, hpiece, Nat.mod_mod, Nat.or_comm, Nat.mul_comm]
  calc 2 ^ (i * width) * (w.toNat / 2 ^ (i * width) % 2 ^ width) ||| acc.toNat
      = 2 ^ (i * width) * (w.toNat / 2 ^ (i * width) % 2 ^ width) + acc.toNat :=
        (Nat.two_pow_add_eq_or_of_lt hlt _).symm
    _ = w.toNat % (2 ^ (i * width) * 2 ^ width) := by
        rw [hacc, Nat.mod_mul, Nat.add_comm]
    _ = w.toNat % 2 ^ ((i + 1) * width) := by
        rw [Nat.add_mul, Nat.one_mul, Nat.pow_add]

end ControlStore.Word
