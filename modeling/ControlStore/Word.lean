import ControlStore.Text

/-!
Control words: the signal bits asserted during one micro-step, in 64-bit limbs, least significant
limb first. The top limb of a word is never zero, so a number has one word and equal words have
equal limbs.
-/

namespace ControlStore

namespace Limbs

/-- The number of values of a limb. -/
def base : Nat := 0x10000000000000000

/-- The number that limbs stand for. -/
def toNat : List UInt64 → Nat
  | [] => 0
  | x :: r => x.toNat + base * toNat r

/-- The top limb is not zero. -/
def Trimmed (l : List UInt64) : Prop := l.getLast? ≠ some 0

instance (l : List UInt64) : Decidable (Trimmed l) :=
  inferInstanceAs (Decidable (l.getLast? ≠ some 0))

/-- Drops the zero limbs at the top. -/
def trim : List UInt64 → List UInt64
  | [] => []
  | x :: r =>
    match trim r with
    | [] => if x = 0 then [] else [x]
    | y :: r' => x :: y :: r'

/-- Limb by limb, the longer list as it is above the shorter one. -/
def combine (f : UInt64 → UInt64 → UInt64) : List UInt64 → List UInt64 → List UInt64
  | [], b => b
  | a, [] => a
  | x :: a, y :: b => f x y :: combine f a b

/-- The limbs of a number. -/
def ofNat (n : Nat) : List UInt64 :=
  if n = 0 then [] else UInt64.ofNat n :: ofNat (n / base)
termination_by n
decreasing_by
  unfold base
  omega

theorem trimmed_nil : Trimmed [] := by simp [Trimmed]

theorem trimmed_singleton {x : UInt64} (h : x ≠ 0) : Trimmed [x] := by simpa [Trimmed] using h

theorem trimmed_cons {x y : UInt64} {r : List UInt64} :
    Trimmed (x :: y :: r) ↔ Trimmed (y :: r) := by
  simp [Trimmed, List.getLast?_cons_cons]

theorem trimmed_cons_of_ne_nil {x : UInt64} {r : List UInt64} (hr : r ≠ []) (h : Trimmed r) :
    Trimmed (x :: r) := by
  cases r with
  | nil => exact absurd rfl hr
  | cons y r => exact trimmed_cons.mpr h

theorem trimmed_trim (l : List UInt64) : Trimmed (trim l) := by
  induction l with
  | nil => exact trimmed_nil
  | cons x r ih =>
    rw [trim]
    split
    · split
      · exact trimmed_nil
      · exact trimmed_singleton ‹_›
    · rename_i h
      rw [h] at ih
      exact trimmed_cons.mpr ih

theorem or_ne_zero_left {x y : UInt64} (h : x ≠ 0) : x ||| y ≠ 0 := by
  intro hz
  apply h
  have h' := congrArg UInt64.toNat hz
  rw [UInt64.toNat_or] at h'
  have hx : x.toNat = 0 := by
    have : x.toNat ≤ x.toNat ||| y.toNat := Nat.left_le_or
    have h0 : (0 : UInt64).toNat = 0 := rfl
    omega
  exact UInt64.toNat_inj.mp hx

theorem combine_or_ne_nil {a b : List UInt64} (h : a ≠ []) : combine (· ||| ·) a b ≠ [] := by
  cases a <;> cases b <;> simp_all [combine]

theorem combine_or_ne_nil_right {a b : List UInt64} (h : b ≠ []) : combine (· ||| ·) a b ≠ [] := by
  cases a <;> cases b <;> simp_all [combine]

theorem trimmed_or {a b : List UInt64} (ha : Trimmed a) (hb : Trimmed b) :
    Trimmed (combine (· ||| ·) a b) := by
  induction a generalizing b with
  | nil => simpa [combine] using hb
  | cons x a ih =>
    cases b with
    | nil => simpa [combine] using ha
    | cons y b =>
      rw [combine]
      by_cases hab : a = [] ∧ b = []
      · obtain ⟨rfl, rfl⟩ := hab
        have hx : x ≠ 0 := by simpa [Trimmed] using ha
        exact trimmed_singleton (or_ne_zero_left hx)
      · have ha' : Trimmed a := by
          cases a with
          | nil => exact trimmed_nil
          | cons z a => exact trimmed_cons.mp ha
        have hb' : Trimmed b := by
          cases b with
          | nil => exact trimmed_nil
          | cons z b => exact trimmed_cons.mp hb
        apply trimmed_cons_of_ne_nil _ (ih ha' hb')
        by_cases h : a = []
        · exact combine_or_ne_nil_right (fun hb0 => hab ⟨h, hb0⟩)
        · exact combine_or_ne_nil h

theorem trimmed_ofNat (n : Nat) : Trimmed (ofNat n) := by
  induction n using Nat.strongRecOn with
  | _ n ih =>
    rw [ofNat]
    split
    · exact trimmed_nil
    · rename_i hn
      by_cases hz : n / base = 0
      · rw [hz, ofNat, if_pos rfl]
        apply trimmed_singleton
        intro h
        have h' := congrArg UInt64.toNat h
        have hlt : n < 2 ^ 64 := by unfold base at hz; omega
        rw [UInt64.toNat_ofNat_of_lt' hlt] at h'
        exact hn h'
      · apply trimmed_cons_of_ne_nil _ (ih _ (by unfold base; omega))
        rw [ofNat, if_neg hz]
        simp

/-- The limbs of a single bit. -/
def bit (k : Nat) : List UInt64 :=
  List.replicate (k / 64) (0 : UInt64) ++ [UInt64.ofNat (1 <<< (k % 64))]

theorem trimmed_bit (k : Nat) : Trimmed (bit k) := by
  have hlt : 1 <<< (k % 64) < 2 ^ 64 := by
    rw [Nat.one_shiftLeft]
    exact Nat.pow_lt_pow_right (by omega) (Nat.mod_lt _ (by omega))
  have hpos : 0 < 1 <<< (k % 64) := by
    rw [Nat.one_shiftLeft]
    exact Nat.two_pow_pos _
  simp only [Trimmed, bit, List.getLast?_append, List.getLast?_singleton, Option.some_or, ne_eq,
    Option.some.injEq]
  intro h
  have h' := congrArg UInt64.toNat h
  rw [UInt64.toNat_ofNat_of_lt' hlt] at h'
  have h0 : (0 : UInt64).toNat = 0 := rfl
  omega

end Limbs

/-- The signal bits of one micro-step. -/
structure Word where
  limbs : List UInt64
  trimmed : Limbs.Trimmed limbs
deriving DecidableEq

namespace Word

def toNat (w : Word) : Nat := Limbs.toNat w.limbs

def zero : Word := ⟨[], Limbs.trimmed_nil⟩

instance : Inhabited Word := ⟨zero⟩

def ofNat (n : Nat) : Word := ⟨Limbs.ofNat n, Limbs.trimmed_ofNat n⟩

def bit (k : Nat) : Word := ⟨Limbs.bit k, Limbs.trimmed_bit k⟩

protected def or (a b : Word) : Word :=
  ⟨Limbs.combine (· ||| ·) a.limbs b.limbs, Limbs.trimmed_or a.trimmed b.trimmed⟩

protected def xor (a b : Word) : Word :=
  ⟨Limbs.trim (Limbs.combine (· ^^^ ·) a.limbs b.limbs), Limbs.trimmed_trim _⟩

instance : OrOp Word := ⟨Word.or⟩

instance : XorOp Word := ⟨Word.xor⟩

def isZero (w : Word) : Bool := w.limbs.isEmpty

def set (w : Word) (k : Nat) : Word := w ||| bit k

/-- The limb at an index, zero above the top. -/
def limb (w : Word) (i : Nat) : UInt64 := w.limbs.getD i 0

def test (w : Word) (k : Nat) : Bool := (w.limb (k / 64)).toNat.testBit (k % 64)

/-- The low bits of a value, at most 64 of them, placed from `lsb` up. -/
def field (lsb width value : Nat) : Word :=
  (List.range (min width 64)).foldl
    (fun w i => if value.testBit i then w.set (lsb + i) else w) zero

/-- The number of bits needed to hold the word. -/
def bitWidth (w : Word) : Nat :=
  match w.limbs.getLast? with
  | none => 0
  | some top => (w.limbs.length - 1) * 64 + (top.toNat.log2 + 1)

/-- The bits from `lsb` up as an integer, at most 64 of them. They may straddle two limbs. -/
def extract (w : Word) (lsb width : Nat) : UInt64 :=
  let offset := lsb % 64
  let low := w.limb (lsb / 64) >>> UInt64.ofNat offset
  let high := if offset = 0 then 0 else w.limb (lsb / 64 + 1) <<< UInt64.ofNat (64 - offset)
  let value := low ||| high
  if 64 ≤ width then value else value &&& ((1 <<< UInt64.ofNat width) - 1)

/-- The word as a number of at most 128 bits, which are those of two limbs. -/
def toNat128? (w : Word) : Option Nat :=
  if 2 < w.limbs.length then none else some ((w.limb 0).toNat ||| (w.limb 1).toNat <<< 64)

/-- The hexadecimal digits of limbs, all but the top limb at full length. -/
def hexDigits (limbs : List UInt64) : List Char :=
  match limbs.reverse with
  | [] => ['0']
  | top :: rest => Nat.toDigits 16 top.toNat ++ rest.flatMap (fun x => Text.padded 16 16 x.toNat)

instance : ToString Word where
  toString w := String.ofList ('0' :: 'x' :: hexDigits w.limbs)

end Word

end ControlStore
