import ControlStore.Layout
import Mathlib

/-! Addresses as numbers. Encoding is an order isomorphism between the addresses that fit a layout,
compared field by field, and the numbers below its size. -/

namespace ControlStore

theorem Address.get_set (a : Address) (f g : AddressField) (v : Nat) :
    (a.set f v).get g = if g = f then v else a.get g := by
  cases f <;> cases g <;> rfl

theorem Address.ext_get {a b : Address} (h : ∀ f, a.get f = b.get f) : a = b := by
  cases a
  cases b
  have hs := h .flags
  have ho := h .opcode
  have ht := h .step
  have hl := h .lane
  simp only [Address.get] at hs ho ht hl
  simp [hs, ho, ht, hl]

namespace Layout

/-- The bits of an address below a field: the widths of the fields that follow it. -/
def shift (l : Layout) (f : AddressField) : Nat :=
  totalWidth (l.fields.reverse.takeWhile fun p => p.1 != f)

/-- The values of an address in the order of the fields. -/
def values (l : Layout) (a : Address) : List Nat := l.fields.map fun p => a.get p.1

/-- The number with the field values as its digits. -/
def placeValue (a : Address) : List (AddressField × Nat) → Nat
  | [] => 0
  | p :: r => a.get p.1 * 2 ^ totalWidth r + placeValue a r

theorem totalWidth_cons (p : AddressField × Nat) (r : List (AddressField × Nat)) :
    totalWidth (p :: r) = p.2 + totalWidth r := rfl

theorem totalWidth_eq_sum (fields : List (AddressField × Nat)) :
    totalWidth fields = (fields.map Prod.snd).sum := by
  induction fields with
  | nil => rfl
  | cons p r ih => rw [totalWidth_cons, ih, List.map_cons, List.sum_cons]

theorem totalWidth_reverse (fields : List (AddressField × Nat)) :
    totalWidth fields.reverse = totalWidth fields := by
  rw [totalWidth_eq_sum, totalWidth_eq_sum, List.map_reverse, List.sum_reverse]

theorem placeValue_lt (a : Address) (fields : List (AddressField × Nat))
    (hf : ∀ p ∈ fields, a.get p.1 < 2 ^ p.2) : placeValue a fields < 2 ^ totalWidth fields := by
  induction fields with
  | nil => simp [placeValue, totalWidth]
  | cons p r ih =>
    have hr := ih fun q hq => hf q (List.mem_cons_of_mem _ hq)
    have hp : a.get p.1 + 1 ≤ 2 ^ p.2 := hf p List.mem_cons_self
    calc
      a.get p.1 * 2 ^ totalWidth r + placeValue a r
        < (a.get p.1 + 1) * 2 ^ totalWidth r := by rw [Nat.add_mul]; omega
      _ ≤ 2 ^ p.2 * 2 ^ totalWidth r := Nat.mul_le_mul_right _ hp
      _ = 2 ^ totalWidth (p :: r) := by rw [totalWidth_cons, Nat.pow_add]

/-- Digits followed by smaller ones compare like the digits, then like what follows. -/
theorem digit_add_lt_iff {x y u v t : Nat} (hu : u < t) (hv : v < t) :
    x * t + u < y * t + v ↔ x < y ∨ x = y ∧ u < v := by
  rcases Nat.lt_trichotomy x y with h | h | h
  · have hxy : (x + 1) * t ≤ y * t := Nat.mul_le_mul_right _ h
    rw [Nat.add_mul] at hxy
    exact ⟨fun _ => Or.inl h, fun _ => by omega⟩
  · subst h
    simp
  · have hxy : (y + 1) * t ≤ x * t := Nat.mul_le_mul_right _ h
    rw [Nat.add_mul] at hxy
    constructor
    · intro hlt
      omega
    · rintro (hlt | ⟨heq, -⟩) <;> omega

theorem placeValue_lt_iff (a b : Address) (fields : List (AddressField × Nat))
    (ha : ∀ p ∈ fields, a.get p.1 < 2 ^ p.2) (hb : ∀ p ∈ fields, b.get p.1 < 2 ^ p.2) :
    placeValue a fields < placeValue b fields ↔
      List.Lex (· < ·) (fields.map fun p => a.get p.1) (fields.map fun p => b.get p.1) := by
  induction fields with
  | nil => simp [placeValue]
  | cons p r ih =>
    obtain ⟨-, ha'⟩ := List.forall_mem_cons.mp ha
    obtain ⟨-, hb'⟩ := List.forall_mem_cons.mp hb
    rw [placeValue, placeValue, digit_add_lt_iff (placeValue_lt a r ha') (placeValue_lt b r hb'),
      ih ha' hb', List.map_cons, List.map_cons, List.cons_lex_cons_iff]

theorem placeValue_injective (a b : Address) (fields : List (AddressField × Nat))
    (ha : ∀ p ∈ fields, a.get p.1 < 2 ^ p.2) (hb : ∀ p ∈ fields, b.get p.1 < 2 ^ p.2)
    (h : placeValue a fields = placeValue b fields) : ∀ p ∈ fields, a.get p.1 = b.get p.1 := by
  induction fields with
  | nil => simp
  | cons q r ih =>
    obtain ⟨-, ha'⟩ := List.forall_mem_cons.mp ha
    obtain ⟨-, hb'⟩ := List.forall_mem_cons.mp hb
    have hla := placeValue_lt a r ha'
    have hlb := placeValue_lt b r hb'
    rw [placeValue, placeValue] at h
    have hab := (digit_add_lt_iff (x := a.get q.1) (y := b.get q.1) hla hlb).not.mp (by omega)
    have hba := (digit_add_lt_iff (x := b.get q.1) (y := a.get q.1) hlb hla).not.mp (by omega)
    have hq : a.get q.1 = b.get q.1 := by omega
    rw [hq] at h
    intro p hp
    rcases List.mem_cons.mp hp with rfl | hp
    · exact hq
    · exact ih ha' hb' (Nat.add_left_cancel h) p hp

theorem shift_takeWhile_cons_of_mem {p : AddressField × Nat} {r : List (AddressField × Nat)}
    {f : AddressField} (hf : f ∈ r.map Prod.fst) :
    (p :: r).reverse.takeWhile (fun q => q.1 != f) = r.reverse.takeWhile fun q => q.1 != f := by
  obtain ⟨q, hq, rfl⟩ := List.mem_map.mp hf
  rw [List.reverse_cons, List.takeWhile_append, if_neg]
  intro hlen
  have hall := List.takeWhile_eq_self_iff.mp
    (List.IsPrefix.eq_of_length (List.takeWhile_prefix _) hlen)
  simpa using hall q (List.mem_reverse.mpr hq)

theorem shift_takeWhile_cons_self {p : AddressField × Nat} {r : List (AddressField × Nat)}
    (hp : p.1 ∉ r.map Prod.fst) :
    (p :: r).reverse.takeWhile (fun q => q.1 != p.1) = r.reverse := by
  have hr : ∀ q ∈ r.reverse, (q.1 != p.1) = true := by
    intro q hq
    have hne : q.1 ≠ p.1 := fun h => hp (h ▸ List.mem_map_of_mem (List.mem_reverse.mp hq))
    simpa using hne
  rw [List.reverse_cons, List.takeWhile_append_of_pos hr]
  simp

/-- The digits of a number, each at the shift of its field. -/
theorem placeValue_eq_sum (a : Address) (fields : List (AddressField × Nat))
    (hn : (fields.map Prod.fst).Nodup) :
    placeValue a fields = (fields.map fun p => a.get p.1 *
      2 ^ totalWidth (fields.reverse.takeWhile fun q => q.1 != p.1)).sum := by
  induction fields with
  | nil => rfl
  | cons p r ih =>
    rw [List.map_cons, List.nodup_cons] at hn
    have hr : (r.map fun q => a.get q.1 *
        2 ^ totalWidth ((p :: r).reverse.takeWhile fun s => s.1 != q.1)) =
        r.map fun q => a.get q.1 * 2 ^ totalWidth (r.reverse.takeWhile fun s => s.1 != q.1) := by
      apply List.map_congr_left
      intro q hq
      rw [shift_takeWhile_cons_of_mem (List.mem_map_of_mem hq)]
    rw [List.map_cons, List.sum_cons, hr, ← ih hn.2, shift_takeWhile_cons_self hn.1,
      totalWidth_reverse, placeValue]

theorem digits_cons (p : AddressField × Nat) (r : List (AddressField × Nat)) (n : Nat) :
    digits (p :: r) n =
      ((digits r n).1.set p.1 ((digits r n).2 % p.2), (digits r n).2 / p.2) := rfl

theorem digits_snd (fields : List (AddressField × Nat)) (n : Nat) :
    (digits (fields.map fun p => (p.1, 1 <<< p.2)) n).2 = n / 2 ^ totalWidth fields := by
  induction fields with
  | nil => simp [digits, totalWidth]
  | cons p r ih =>
    rw [List.map_cons, digits_cons, ih, Nat.one_shiftLeft, totalWidth_cons, Nat.pow_add,
      Nat.div_div_eq_div_mul, Nat.mul_comm]

theorem digits_absent (fields : List (AddressField × Nat)) (n : Nat) (f : AddressField)
    (hf : f ∉ fields.map Prod.fst) :
    (digits (fields.map fun p => (p.1, 1 <<< p.2)) n).1.get f = 0 := by
  induction fields with
  | nil => cases f <;> rfl
  | cons p r ih =>
    rw [List.map_cons, List.mem_cons, not_or] at hf
    rw [List.map_cons, digits_cons, Address.get_set, if_neg hf.1, ih hf.2]

theorem digits_fit (fields : List (AddressField × Nat)) (n : Nat)
    (hn : (fields.map Prod.fst).Nodup) (p : AddressField × Nat) (hp : p ∈ fields) :
    (digits (fields.map fun q => (q.1, 1 <<< q.2)) n).1.get p.1 < 2 ^ p.2 := by
  induction fields with
  | nil => simp at hp
  | cons q r ih =>
    rw [List.map_cons, List.nodup_cons] at hn
    rw [List.map_cons, digits_cons, Address.get_set]
    rcases List.mem_cons.mp hp with rfl | hr
    · rw [if_pos rfl, Nat.one_shiftLeft]
      exact Nat.mod_lt _ (Nat.two_pow_pos _)
    · have hne : p.1 ≠ q.1 := fun h => hn.1 (h ▸ List.mem_map_of_mem hr)
      rw [if_neg hne]
      exact ih hn.2 hr

theorem placeValue_set_of_absent (a : Address) (fields : List (AddressField × Nat))
    (f : AddressField) (v : Nat) (hf : f ∉ fields.map Prod.fst) :
    placeValue (a.set f v) fields = placeValue a fields := by
  induction fields with
  | nil => rfl
  | cons p r ih =>
    rw [List.map_cons, List.mem_cons, not_or] at hf
    rw [placeValue, placeValue, ih hf.2, Address.get_set, if_neg (Ne.symm hf.1)]

/-- The digits of a number make up the number, as far as the fields reach. -/
theorem placeValue_digits (fields : List (AddressField × Nat)) (n : Nat)
    (hn : (fields.map Prod.fst).Nodup) :
    placeValue (digits (fields.map fun p => (p.1, 1 <<< p.2)) n).1 fields =
      n % 2 ^ totalWidth fields := by
  induction fields with
  | nil => simp [placeValue, totalWidth, Nat.mod_one]
  | cons p r ih =>
    rw [List.map_cons, List.nodup_cons] at hn
    rw [List.map_cons, digits_cons, placeValue, Address.get_set, if_pos rfl,
      placeValue_set_of_absent _ _ _ _ hn.1, ih hn.2, digits_snd, Nat.one_shiftLeft,
      totalWidth_cons, Nat.add_comm p.2, Nat.pow_add, Nat.mod_mul, Nat.mul_comm, Nat.add_comm]

theorem nodup_fields (l : Layout) : (l.fields.map Prod.fst).Nodup := by
  rw [List.nodup_iff_count_le_one]
  intro f
  have hcount : (l.fields.map Prod.fst).count f = occurrences l.fields f := by
    rw [List.count_eq_countP, List.countP_map]
    rfl
  rw [hcount]
  have hw := l.wellFormed
  cases f with
  | flags => exact hw.flags_once.le
  | lane => exact hw.lane_at_most_once
  | opcode => exact hw.opcode_once.le
  | step => exact hw.step_once.le

theorem width_of_mem (l : Layout) (p : AddressField × Nat) (hp : p ∈ l.fields) :
    l.width p.1 = p.2 := by
  unfold width
  split
  · rename_i f w h
    have hmem : (f, w) ∈ l.fields := List.mem_of_find?_eq_some h
    have hf : f = p.1 := by simpa using List.find?_some h
    have hq := List.inj_on_of_nodup_map l.nodup_fields hmem hp hf
    rw [← hq]
  · rename_i h
    exact absurd (List.find?_eq_none.mp h p hp) (by simp)

theorem width_of_absent (l : Layout) (f : AddressField) (hf : f ∉ l.fields.map Prod.fst) :
    l.width f = 0 := by
  unfold width
  split
  · rename_i g w h
    have hg : g = f := by simpa using List.find?_some h
    exact absurd (List.mem_map_of_mem (f := Prod.fst) (List.mem_of_find?_eq_some h)) (hg ▸ hf)
  · rfl

theorem mem_fields_of_ne_lane (l : Layout) (f : AddressField) (hf : f ≠ .lane) :
    f ∈ l.fields.map Prod.fst := by
  have hocc : 0 < occurrences l.fields f := by
    have hw := l.wellFormed
    cases f with
    | flags => exact hw.flags_once.ge
    | lane => exact absurd rfl hf
    | opcode => exact hw.opcode_once.ge
    | step => exact hw.step_once.ge
  obtain ⟨p, hp, heq⟩ := List.countP_pos_iff.mp hocc
  exact List.mem_map.mpr ⟨p, hp, by simpa using heq⟩

theorem width_le (l : Layout) (p : AddressField × Nat) (hp : p ∈ l.fields) : p.2 ≤ maxBits := by
  have hle (fields : List (AddressField × Nat)) (h : p ∈ fields) : p.2 ≤ totalWidth fields := by
    induction fields with
    | nil => cases h
    | cons q r ih =>
      rw [totalWidth_cons]
      rcases List.mem_cons.mp h with rfl | h
      · exact Nat.le_add_right _ _
      · exact (ih h).trans (Nat.le_add_left _ _)
  exact (hle l.fields hp).trans l.wellFormed.total_le

theorem width_le_maxBits (l : Layout) (f : AddressField) : l.width f ≤ maxBits := by
  by_cases hf : f ∈ l.fields.map Prod.fst
  · obtain ⟨p, hp, rfl⟩ := List.mem_map.mp hf
    rw [width_of_mem l p hp]
    exact l.width_le p hp
  · rw [width_of_absent l f hf]
    exact Nat.zero_le _

theorem checkField_of_wellFormed (fields : List (AddressField × Nat)) (h : WellFormed fields)
    (f : AddressField) : checkField fields f = .ok () := by
  have hle : occurrences fields f ≤ 1 := by
    cases f with
    | flags => exact h.flags_once.le
    | lane => exact h.lane_at_most_once
    | opcode => exact h.opcode_once.le
    | step => exact h.step_once.le
  have hpos : ¬(occurrences fields f = 0 ∧ f ≠ .lane) := by
    rintro ⟨hzero, hlane⟩
    cases f with
    | flags => exact absurd (h.flags_once.symm.trans hzero) (by decide)
    | lane => exact hlane rfl
    | opcode => exact absurd (h.opcode_once.symm.trans hzero) (by decide)
    | step => exact absurd (h.step_once.symm.trans hzero) (by decide)
  rw [checkField, if_neg (Nat.not_lt.mpr hle), if_neg hpos]

/-- The fields of a layout pass their own check. -/
theorem ofFields_fields (l : Layout) : ofFields l.fields = .ok l := by
  have hwidths : checkWidths l.fields = .ok () := by
    have hfind : l.fields.find? (fun p => decide (maxBits < p.2)) = none := by
      rw [List.find?_eq_none]
      intro p hp
      have := width_le l p hp
      simpa using this
    rw [checkWidths, hfind]
    exact if_neg (Nat.not_lt.mpr l.wellFormed.total_le)
  have hcheck : check l.fields = .ok () := by
    simp only [check, checkField_of_wellFormed l.fields l.wellFormed, hwidths]
    rfl
  unfold ofFields
  split
  · rename_i e he
    rw [hcheck] at he
    cases he
  · rfl

theorem count_eq (l : Layout) (f : AddressField) : l.count f = 2 ^ l.width f := Nat.one_shiftLeft _

theorem count_pos (l : Layout) (f : AddressField) : 0 < l.count f := by
  rw [count_eq]
  exact Nat.two_pow_pos _

theorem size_eq (l : Layout) : l.size = 2 ^ l.totalBits := Nat.one_shiftLeft _

/-- Every value is below the number of values of its field. -/
def Fits (l : Layout) (a : Address) : Prop := ∀ f, a.get f < l.count f

theorem Fits.mem {l : Layout} {a : Address} (h : l.Fits a) :
    ∀ p ∈ l.fields, a.get p.1 < 2 ^ p.2 := by
  intro p hp
  have := h p.1
  rwa [count_eq, width_of_mem l p hp] at this

/-- One step of the encoder: the number so far with one more digit. -/
def takeUp (a : Address) (n : Nat) (p : AddressField × Nat) : Except Error Nat :=
  if 2 ^ p.2 ≤ a.get p.1 then .error (.outOfRange (.field p.1) (a.get p.1) (2 ^ p.2))
  else .ok (n * 2 ^ p.2 + a.get p.1)

theorem encode_eq (l : Layout) (a : Address) :
    l.encode a = (l.fields.foldlM (takeUp a) 0).bind fun n =>
      if l.width .lane = 0 ∧ a.lane ≠ 0 then .error (.outOfRange (.field .lane) a.lane 1)
      else .ok n := by
  have hstep : (fun (n : Nat) (p : AddressField × Nat) =>
      if 1 <<< p.2 ≤ a.get p.1 then
        (.error (.outOfRange (.field p.1) (a.get p.1) (1 <<< p.2)) : Except Error Nat)
      else .ok ((n <<< p.2) + a.get p.1)) = takeUp a := by
    funext n p
    simp only [takeUp, Nat.shiftLeft_eq, Nat.one_mul]
  rw [← hstep]
  rfl

theorem encode_fold_ok (a : Address) (fields : List (AddressField × Nat)) (n : Nat)
    (hf : ∀ p ∈ fields, a.get p.1 < 2 ^ p.2) :
    fields.foldlM (takeUp a) n = .ok (n * 2 ^ totalWidth fields + placeValue a fields) := by
  induction fields generalizing n with
  | nil => simp [totalWidth, placeValue]; rfl
  | cons p r ih =>
    have hp : takeUp a n p = .ok (n * 2 ^ p.2 + a.get p.1) :=
      if_neg (Nat.not_le.mpr (hf p List.mem_cons_self))
    have hr := ih (n * 2 ^ p.2 + a.get p.1) fun q hq => hf q (List.mem_cons_of_mem _ hq)
    rw [List.foldlM_cons, hp]
    show List.foldlM (takeUp a) _ r = _
    rw [hr, placeValue, totalWidth_cons, Nat.pow_add, Nat.add_mul, Nat.mul_assoc, Nat.add_assoc]

/-- The encoder stops at the first digit that is too large. -/
theorem encode_fold_error (a : Address) (fields : List (AddressField × Nat)) (n : Nat)
    (hf : ∃ p ∈ fields, 2 ^ p.2 ≤ a.get p.1) :
    ∃ p ∈ fields, 2 ^ p.2 ≤ a.get p.1 ∧
      fields.foldlM (takeUp a) n = .error (.outOfRange (.field p.1) (a.get p.1) (2 ^ p.2)) := by
  induction fields generalizing n with
  | nil => simp at hf
  | cons q r ih =>
    by_cases hq : 2 ^ q.2 ≤ a.get q.1
    · refine ⟨q, List.mem_cons_self, hq, ?_⟩
      rw [List.foldlM_cons, takeUp, if_pos hq]
      rfl
    · obtain ⟨p, hp, hle⟩ := hf
      have hpr : p ∈ r := by
        rcases List.mem_cons.mp hp with rfl | hpr
        · exact absurd hle hq
        · exact hpr
      obtain ⟨p', hp', hle', heq⟩ := ih (n * 2 ^ q.2 + a.get q.1) ⟨p, hpr, hle⟩
      refine ⟨p', List.mem_cons_of_mem _ hp', hle', ?_⟩
      rw [List.foldlM_cons, takeUp, if_neg hq]
      exact heq

theorem encode_of_fits (l : Layout) (a : Address) (h : l.Fits a) :
    l.encode a = .ok (placeValue a l.fields) := by
  have hlane : ¬(l.width .lane = 0 ∧ a.lane ≠ 0) := by
    rintro ⟨hw, hne⟩
    have hlt := h .lane
    rw [count_eq, hw] at hlt
    exact hne (Nat.lt_one_iff.mp hlt)
  rw [encode_eq, encode_fold_ok a l.fields 0 h.mem, Nat.zero_mul, Nat.zero_add]
  exact if_neg hlane

/-- An address that does not fit is refused for a field in which it does not. -/
theorem encode_of_not_fits (l : Layout) (a : Address) (h : ¬ l.Fits a) :
    ∃ f, l.count f ≤ a.get f ∧
      l.encode a = .error (.outOfRange (.field f) (a.get f) (l.count f)) := by
  by_cases hf : ∃ p ∈ l.fields, 2 ^ p.2 ≤ a.get p.1
  · obtain ⟨p, hp, hle, heq⟩ := encode_fold_error a l.fields 0 hf
    have hc : l.count p.1 = 2 ^ p.2 := by rw [count_eq, width_of_mem l p hp]
    refine ⟨p.1, hc ▸ hle, ?_⟩
    rw [encode_eq, heq, hc]
    rfl
  · have hfit : ∀ p ∈ l.fields, a.get p.1 < 2 ^ p.2 := by
      intro p hp
      exact Nat.not_le.mp fun hle => hf ⟨p, hp, hle⟩
    obtain ⟨f, hle⟩ := not_forall.mp h
    have habsent : f ∉ l.fields.map Prod.fst := by
      intro hmem
      obtain ⟨p, hp, rfl⟩ := List.mem_map.mp hmem
      rw [count_eq, width_of_mem l p hp] at hle
      exact hle (hfit p hp)
    have hlane : f = .lane := by
      by_contra hne
      exact habsent (l.mem_fields_of_ne_lane f hne)
    subst hlane
    have hw := l.width_of_absent .lane habsent
    have hc : l.count .lane = 1 := by rw [count_eq, hw, Nat.pow_zero]
    rw [hc] at hle
    refine ⟨.lane, by rw [hc]; omega, ?_⟩
    have hne : a.lane ≠ 0 := fun hz => hle (by rw [Address.get, hz]; exact Nat.one_pos)
    rw [encode_eq, encode_fold_ok a l.fields 0 hfit, hc]
    exact if_pos ⟨hw, hne⟩

theorem encode_eq_ok_iff (l : Layout) (a : Address) (n : Nat) :
    l.encode a = .ok n ↔ l.Fits a ∧ placeValue a l.fields = n := by
  by_cases h : l.Fits a
  · rw [encode_of_fits l a h]
    exact ⟨fun heq => ⟨h, by simpa using heq⟩, fun heq => by rw [heq.2]⟩
  · obtain ⟨f, -, heq⟩ := encode_of_not_fits l a h
    rw [heq]
    exact ⟨fun hno => by simp at hno, fun hfit => absurd hfit.1 h⟩

/-- The address that a number below the size stands for. -/
theorem digits_fits (l : Layout) (n : Nat) : l.Fits (digits l.radices n).1 := by
  intro f
  by_cases hf : f ∈ l.fields.map Prod.fst
  · obtain ⟨p, hp, rfl⟩ := List.mem_map.mp hf
    rw [count_eq, width_of_mem l p hp]
    exact digits_fit l.fields n l.nodup_fields p hp
  · rw [count_eq]
    exact (digits_absent l.fields n f hf).trans_lt (Nat.two_pow_pos _)

theorem encode_digits (l : Layout) (n : Nat) (hn : n < l.size) :
    l.encode (digits l.radices n).1 = .ok n := by
  have hlt : n < 2 ^ totalWidth l.fields := by rwa [size_eq] at hn
  rw [encode_of_fits l _ (l.digits_fits n), radices, placeValue_digits l.fields n l.nodup_fields,
    Nat.mod_eq_of_lt hlt]

theorem encode_lt_size (l : Layout) (a : Address) (n : Nat) (h : l.encode a = .ok n) :
    n < l.size := by
  obtain ⟨hf, rfl⟩ := (encode_eq_ok_iff l a n).mp h
  rw [size_eq]
  exact placeValue_lt a l.fields hf.mem

theorem encode_injective (l : Layout) (a b : Address) (n : Nat) (ha : l.encode a = .ok n)
    (hb : l.encode b = .ok n) : a = b := by
  obtain ⟨hfa, hva⟩ := (encode_eq_ok_iff l a n).mp ha
  obtain ⟨hfb, hvb⟩ := (encode_eq_ok_iff l b n).mp hb
  apply Address.ext_get
  intro f
  by_cases hf : f ∈ l.fields.map Prod.fst
  · obtain ⟨p, hp, rfl⟩ := List.mem_map.mp hf
    exact placeValue_injective a b l.fields hfa.mem hfb.mem (hva.trans hvb.symm) p hp
  · have hc : l.count f = 1 := by rw [count_eq, l.width_of_absent f hf, Nat.pow_zero]
    have hla := hfa f
    have hlb := hfb f
    omega

theorem digits_encode (l : Layout) (a : Address) (n : Nat) (h : l.encode a = .ok n) :
    (digits l.radices n).1 = a :=
  encode_injective l _ _ n (encode_digits l n (encode_lt_size l a n h)) h

theorem decode_of_lt (l : Layout) (n : Nat) (hn : n < l.size) :
    l.decode n = .ok (digits l.radices n).1 := if_neg (Nat.not_le.mpr hn)

/-- Addresses that fit the fields of a layout and numbers below its size correspond one to one:
encoding places every value at the shift of its field, decoding takes it back, and the order of
numbers is that of the field values, the first field first. -/
theorem encode_order_isomorphism (l : Layout) :
    (∀ a, (∃ n, l.encode a = .ok n) ↔ ∀ f, a.get f < 2 ^ l.width f) ∧
    (∀ a n, l.encode a = .ok n →
      n = (l.fields.map fun p => a.get p.1 * 2 ^ l.shift p.1).sum ∧ n < l.size ∧
        l.decode n = .ok a) ∧
    (∀ n, n < l.size → ∃ a, l.decode n = .ok a ∧ l.encode a = .ok n) ∧
    (∀ n, l.size ≤ n → l.decode n = .error (.outOfRange .address n l.size)) ∧
    (∀ a b m n, l.encode a = .ok m → l.encode b = .ok n →
      (List.Lex (· < ·) (l.values a) (l.values b) ↔ m < n)) := by
  refine ⟨?_, ?_, ?_, ?_, ?_⟩
  · intro a
    have hfits : l.Fits a ↔ ∀ f, a.get f < 2 ^ l.width f := by simp only [Fits, count_eq]
    rw [← hfits]
    constructor
    · rintro ⟨n, hn⟩
      exact ((encode_eq_ok_iff l a n).mp hn).1
    · intro h
      exact ⟨_, encode_of_fits l a h⟩
  · intro a n h
    have hlt := encode_lt_size l a n h
    refine ⟨?_, hlt, ?_⟩
    · obtain ⟨-, rfl⟩ := (encode_eq_ok_iff l a n).mp h
      exact placeValue_eq_sum a l.fields l.nodup_fields
    · rw [decode_of_lt l n hlt, digits_encode l a n h]
  · intro n hn
    exact ⟨_, decode_of_lt l n hn, encode_digits l n hn⟩
  · intro n hn
    exact if_pos hn
  · intro a b m n ha hb
    obtain ⟨hfa, rfl⟩ := (encode_eq_ok_iff l a m).mp ha
    obtain ⟨hfb, rfl⟩ := (encode_eq_ok_iff l b n).mp hb
    exact (placeValue_lt_iff a b l.fields hfa.mem hfb.mem).symm

end Layout

end ControlStore
