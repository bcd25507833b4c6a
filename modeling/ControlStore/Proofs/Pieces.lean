import ControlStore.Proofs.Text
import ControlStore.Proofs.Word

/-! Words in pieces. Bits are taken out of a word by a shift and a remainder wherever they lie, so
the lanes of a word make up the word as soon as there are enough of them. The text of a word is made
up of the texts of its limbs, and it is the one hexadecimal numeral of the number of the word. -/

namespace ControlStore.Text

/-- A hexadecimal numeral in lower case, with no zero in front of another digit. -/
structure Hexadecimal (s : List Char) (n : Nat) : Prop where
  ne_nil : s ≠ []
  digits : ∀ c ∈ s, c ∈ "0123456789abcdef".toList
  lead : s.head? = some '0' → s = ['0']
  value : digits? 16 s = some n

/-- The number that digits make up when they follow those of another number. -/
def readOn? (radix k : Nat) (s : List Char) : Option Nat :=
  s.foldlM (fun n c => (digit? radix c).map (fun d => n * radix + d)) k

theorem readOn?_cons {radix k d : Nat} {c : Char} (hc : digit? radix c = some d) (r : List Char) :
    readOn? radix k (c :: r) = readOn? radix (k * radix + d) r := by
  rw [readOn?, List.foldlM_cons, hc]
  rfl

/-- The number before counts as much more as there are digits. -/
theorem readOn?_eq {radix n : Nat} {s : List Char} (h : digits? radix s = some n) (k : Nat) :
    readOn? radix k s = some (k * radix ^ s.length + n) := by
  have hgrow (s : List Char) (j k v : Nat) (hv : readOn? radix k s = some v) :
      readOn? radix (j + k) s = some (j * radix ^ s.length + v) := by
    induction s generalizing j k with
    | nil =>
      obtain rfl : k = v := Option.some.inj hv
      rw [List.length_nil, Nat.pow_zero, Nat.mul_one]
      rfl
    | cons c r ih =>
      cases hc : digit? radix c with
      | none =>
        rw [readOn?, List.foldlM_cons, hc] at hv
        cases hv
      | some d =>
        rw [readOn?_cons hc] at hv ⊢
        have hnext := ih (j * radix) (k * radix + d) hv
        rw [← Nat.add_assoc, ← Nat.add_mul] at hnext
        rw [hnext, List.length_cons, Nat.pow_succ, Nat.mul_assoc, Nat.mul_comm radix]
  exact hgrow s k 0 n h

theorem exists_digit_of_mem {c : Char} (h : c ∈ "0123456789abcdef".toList) :
    ∃ d, d < 16 ∧ c = d.digitChar := by
  have hall : "0123456789abcdef".toList = (List.range 16).map Nat.digitChar := by decide
  rw [hall] at h
  obtain ⟨d, hd, rfl⟩ := List.mem_map.mp h
  exact ⟨d, List.mem_range.mp hd, rfl⟩

theorem digitChar_mem {d : Nat} (hd : d < 16) : d.digitChar ∈ "0123456789abcdef".toList := by
  have hall : ∀ k : Fin 16, Nat.digitChar k ∈ "0123456789abcdef".toList := by decide
  exact hall ⟨d, hd⟩

/-- Digits that follow those of a number other than zero go on with its numeral. -/
theorem toDigits_append {s : List Char} {k n : Nat} (hk : 0 < k)
    (hs : ∀ c ∈ s, c ∈ "0123456789abcdef".toList) (h : readOn? 16 k s = some n) :
    Nat.toDigits 16 k ++ s = Nat.toDigits 16 n := by
  induction s generalizing k with
  | nil =>
    obtain rfl : k = n := Option.some.inj h
    exact List.append_nil _
  | cons c r ih =>
    obtain ⟨hc, hr⟩ := List.forall_mem_cons.mp hs
    obtain ⟨d, hd, rfl⟩ := exists_digit_of_mem hc
    rw [readOn?_cons (digit?_digitChar 16 d hd (by decide))] at h
    calc Nat.toDigits 16 k ++ d.digitChar :: r
        = (Nat.toDigits 16 k ++ Nat.toDigits 16 d) ++ r := by
          rw [Nat.toDigits_of_lt_base hd, List.append_assoc, List.singleton_append]
      _ = Nat.toDigits 16 (k * 16 + d) ++ r := by
          rw [Nat.toDigits_append_toDigits (by decide) hk hd, Nat.mul_comm]
      _ = Nat.toDigits 16 n := ih (by omega) hr h

theorem hexadecimal_toDigits (n : Nat) : Hexadecimal (Nat.toDigits 16 n) n := by
  refine ⟨Nat.toDigits_ne_nil, ?_, ?_, digits?_toDigits 16 n (by decide) (by decide)⟩
  · intro c hc
    obtain ⟨d, hd, rfl⟩ := mem_toDigits 16 n (by decide) c hc
    exact digitChar_mem hd
  · induction n using Nat.strongRecOn with
    | _ n ih =>
      rw [Nat.toDigits_eq_if (by decide)]
      split
      · intro hhead
        rw [Option.some.inj hhead]
      · -- The first of several digits is the first digit of the sixteenth part.
        intro hhead
        rw [List.head?_append_of_ne_nil _ Nat.toDigits_ne_nil] at hhead
        have hzero := digits?_toDigits 16 (n / 16) (by decide) (by decide)
        rw [ih (n / 16) (by omega) hhead] at hzero
        have hnone : 0 = n / 16 := Option.some.inj hzero
        omega

/-- A number has exactly one numeral. -/
theorem hexadecimal_iff {s : List Char} {n : Nat} : Hexadecimal s n ↔ s = Nat.toDigits 16 n := by
  constructor
  · intro h
    cases s with
    | nil => exact absurd rfl h.ne_nil
    | cons c r =>
      obtain ⟨hc, hr⟩ := List.forall_mem_cons.mp h.digits
      obtain ⟨d, hd, rfl⟩ := exists_digit_of_mem hc
      have hvalue : readOn? 16 0 (d.digitChar :: r) = some n := h.value
      rw [readOn?_cons (digit?_digitChar 16 d hd (by decide)), Nat.zero_mul, Nat.zero_add] at hvalue
      by_cases hpos : 0 < d
      · rw [← toDigits_append hpos hr hvalue, Nat.toDigits_of_lt_base hd, List.singleton_append]
      · -- A zero is the only digit there is.
        obtain rfl : d = 0 := by omega
        obtain rfl : r = [] := (List.cons.inj (h.lead rfl)).2
        obtain rfl : 0 = n := Option.some.inj hvalue
        rfl
  · rintro rfl
    exact hexadecimal_toDigits n

end ControlStore.Text

namespace ControlStore.Word

/-- Pieces of one width, taken out of a word from the lowest up and each put back in its place. -/
def reassembled (w : Word) (width count : Nat) : Word :=
  (List.range count).foldl
    (fun acc i => acc ||| field (i * width) width (w.extract (i * width) width).toNat) zero

theorem toNat_reassembled (w : Word) (width count : Nat) (hw : width ≤ 64) :
    (w.reassembled width count).toNat = w.toNat % 2 ^ (count * width) := by
  induction count with
  | zero => simp [reassembled, Nat.mod_one]
  | succ n ih =>
    have hstep : w.reassembled width (n + 1) = w.reassembled width n |||
        field (n * width) width (w.extract (n * width) width).toNat := by
      rw [reassembled, List.range_succ, List.foldl_append]
      rfl
    rw [hstep]
    exact toNat_or_piece w _ width n hw ih

/-- Bits of a word are taken out by a shift and a remainder, at any place and up to a whole limb of
them. Pieces that are put together again give the word exactly if no bit lies above them. -/
theorem pieces_of_word (w : Word) (width : Nat) (h : width ≤ 64) :
    (∀ lsb, (w.extract lsb width).toNat = w.toNat / 2 ^ lsb % 2 ^ width) ∧
    (∀ count, w.reassembled width count = w ↔ w.toNat < 2 ^ (width * count)) := by
  constructor
  · intro lsb
    exact toNat_extract w lsb width h
  · intro count
    have hvalue := toNat_reassembled w width count h
    rw [Nat.mul_comm] at hvalue
    constructor
    · intro hsame
      rw [hsame] at hvalue
      rw [hvalue]
      exact Nat.mod_lt _ (Nat.two_pow_pos _)
    · intro hlt
      apply toNat_injective
      rw [hvalue]
      exact Nat.mod_eq_of_lt hlt

/-- A word of seventy bits. -/
def seventyBits : Word := ofNat 0x2BF000000000000001

/-- Lanes of five bits straddle the two limbs. Fourteen of them hold the word, and thirteen do
not. -/
theorem pieces_of_seventyBits :
    5 ≤ 64 ∧ (seventyBits.extract 60 5).toNat = 31 ∧
      seventyBits.reassembled 5 14 = seventyBits ∧ seventyBits.reassembled 5 13 ≠ seventyBits := by
  obtain ⟨hextract, hwhole⟩ := pieces_of_word seventyBits 5 (by decide)
  have hnumber : seventyBits.toNat = 0x2BF000000000000001 := toNat_ofNat _
  refine ⟨by decide, ?_, ?_, ?_⟩
  · rw [hextract, hnumber]
    decide
  · apply (hwhole 14).mpr
    rw [hnumber]
    decide
  · intro hsame
    have hlt := (hwhole 13).mp hsame
    rw [hnumber] at hlt
    exact absurd hlt (by decide)

/-- The limbs below the top one are read on after it, each at full length. -/
theorem readOn?_limbs (rest high : List UInt64) :
    Text.readOn? 16 (Limbs.toNat high) (rest.flatMap fun x => Text.padded 16 16 x.toNat) =
      some (Limbs.toNat (rest.reverse ++ high)) := by
  induction rest generalizing high with
  | nil => rfl
  | cons x r ih =>
    have hx : x.toNat < 16 ^ 16 := x.toNat_lt
    have hlength : (Text.padded 16 16 x.toNat).length = 16 :=
      Text.length_padded (by decide) (by decide) hx
    have hdigits : Text.digits? 16 (Text.padded 16 16 x.toNat) = some x.toNat :=
      Text.digits?_padded (by decide) (by decide) 16 x.toNat
    have hlimb := Text.readOn?_eq hdigits (Limbs.toNat high)
    have hnumber : Limbs.toNat high * 16 ^ 16 + x.toNat = Limbs.toNat (x :: high) := by
      rw [Limbs.toNat, Nat.add_comm, Nat.mul_comm]
      rfl
    rw [hlength, hnumber] at hlimb
    rw [List.flatMap_cons, Text.readOn?, List.foldlM_append, ← Text.readOn?, hlimb,
      List.reverse_cons, List.append_assoc, List.singleton_append]
    exact ih (x :: high)

/-- The digits of the limbs are those of the number. -/
theorem hexDigits_limbs (w : Word) : hexDigits w.limbs = Nat.toDigits 16 w.toNat := by
  rw [toNat]
  have htrimmed := w.trimmed
  generalize w.limbs = limbs at htrimmed ⊢
  rw [Limbs.Trimmed, ← List.head?_reverse] at htrimmed
  rw [← List.reverse_reverse limbs, hexDigits, List.reverse_reverse]
  generalize limbs.reverse = reversed at htrimmed ⊢
  cases reversed with
  | nil => rfl
  | cons top rest =>
    have htop : 0 < top.toNat := by
      apply Nat.pos_of_ne_zero
      intro hzero
      exact htrimmed (congrArg some (UInt64.toNat_inj.mp hzero))
    have hdigits : ∀ c ∈ rest.flatMap (fun x => Text.padded 16 16 x.toNat),
        c ∈ "0123456789abcdef".toList := by
      intro c hc
      obtain ⟨x, -, hc⟩ := List.mem_flatMap.mp hc
      obtain ⟨d, hd, rfl⟩ := Text.mem_padded (by decide) hc
      exact Text.digitChar_mem hd
    have hvalue := readOn?_limbs rest [top]
    rw [Limbs.toNat, Limbs.toNat, Nat.mul_zero, Nat.add_zero, ← List.reverse_cons] at hvalue
    exact Text.toDigits_append htop hdigits hvalue

theorem toString_eq (w : Word) :
    toString w = "0x" ++ String.ofList (Nat.toDigits 16 w.toNat) := by
  show String.ofList ('0' :: 'x' :: hexDigits w.limbs) = _
  rw [hexDigits_limbs, ← String.toList_inj]
  simp

theorem ofList_append_injective {p : String} {s s' : List Char}
    (h : p ++ String.ofList s = p ++ String.ofList s') : s = s' := by
  have hlists := congrArg String.toList h
  simpa using hlists

/-- The text of a word is the hexadecimal numeral of its number after `0x`: of all texts, only one is
that numeral, and it is read back as the number. Two words have the same text only if they are the
same. -/
theorem text_of_word (w : Word) :
    (∃ s, toString w = "0x" ++ String.ofList s ∧ Text.digits? 16 s = some w.toNat ∧
      ∀ s', Text.Hexadecimal s' w.toNat ↔ s' = s) ∧
    (toString w = "0x0" ↔ w.toNat = 0) ∧
    (∀ w' : Word, toString w = toString w' ↔ w = w') := by
  have hsame (n : Nat) : toString w = "0x" ++ String.ofList (Nat.toDigits 16 n) ↔ w.toNat = n := by
    rw [toString_eq]
    constructor
    · intro h
      have hdigits := congrArg (Text.digits? 16) (ofList_append_injective h)
      rw [Text.digits?_toDigits 16 _ (by decide) (by decide),
        Text.digits?_toDigits 16 _ (by decide) (by decide)] at hdigits
      exact Option.some.inj hdigits
    · rintro rfl
      rfl
  refine ⟨⟨Nat.toDigits 16 w.toNat, toString_eq w, ?_, ?_⟩, ?_, ?_⟩
  · exact Text.digits?_toDigits 16 w.toNat (by decide) (by decide)
  · intro s'
    exact Text.hexadecimal_iff
  · exact hsame 0
  · intro w'
    rw [toString_eq w', hsame, toNat_injective.eq_iff]

example : toString (bit 64 ||| bit 1) = "0x10000000000000002" := by decide +kernel

end ControlStore.Word
