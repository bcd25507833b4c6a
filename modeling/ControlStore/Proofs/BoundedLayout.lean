import ControlStore.Proofs.Address
import ControlStore.Proofs.Reading

/-! Layouts in numbers of 32 bits. A sum or a shift that does not fit has no result there, and on a
layout that was accepted everything has one: the checks let only few bits through. -/

namespace ControlStore

namespace Bounded

/-- A number of at most 32 bits. -/
def fit? (n : Nat) : Option Nat := if n < Text.limit32 then some n else none

def add? (a b : Nat) : Option Nat := fit? (a + b)

def sub? (a b : Nat) : Option Nat := if b ≤ a then some (a - b) else none

def sum? (ns : List Nat) : Option Nat := ns.foldlM add? 0

/-- No bit may be lost at the top, and a number cannot be shifted by its own length. -/
def shiftLeft? (n k : Nat) : Option Nat := if k < 32 then fit? (n <<< k) else none

def shiftRight? (n k : Nat) : Option Nat := if k < 32 then some (n >>> k) else none

theorem sum?_eq {ns : List Nat} (h : ns.sum < Text.limit32) : sum? ns = some ns.sum := by
  have hfrom (k : Nat) (hk : k + ns.sum < Text.limit32) : ns.foldlM add? k = some (k + ns.sum) := by
    clear h
    induction ns generalizing k with
    | nil => rfl
    | cons n r ih =>
      rw [List.sum_cons, ← Nat.add_assoc] at hk
      have hn : add? k n = some (k + n) := if_pos ((Nat.le_add_right _ _).trans_lt hk)
      rw [List.foldlM_cons, hn, List.sum_cons, ← Nat.add_assoc]
      exact ih (k + n) hk
  have hzero := hfrom 0 (by rwa [Nat.zero_add])
  rwa [Nat.zero_add] at hzero

/-- What fits before a shift fits after it as long as both together stay within the limit. -/
theorem shiftLeft?_eq {n k bits : Nat} (hn : n < 2 ^ bits) (h : bits + k < 32) :
    shiftLeft? n k = some (n * 2 ^ k) := by
  have hk : k < 32 := by omega
  have hfit : n * 2 ^ k < Text.limit32 := by
    calc n * 2 ^ k
        < 2 ^ bits * 2 ^ k := Nat.mul_lt_mul_of_pos_right hn (Nat.two_pow_pos k)
      _ = 2 ^ (bits + k) := (Nat.pow_add 2 bits k).symm
      _ ≤ 2 ^ 32 := Nat.pow_le_pow_right (by decide) h.le
  rw [shiftLeft?, if_pos hk, Nat.shiftLeft_eq]
  exact if_pos hfit

theorem one_shiftLeft?_eq {k : Nat} (h : k ≤ Layout.maxBits) : shiftLeft? 1 k = some (2 ^ k) := by
  have hone : 1 < 2 ^ 1 := by decide
  have hk : 1 + k < 32 := by
    have hmax : Layout.maxBits = 24 := rfl
    omega
  rw [shiftLeft?_eq hone hk, Nat.one_mul]

end Bounded

namespace Layout

open Bounded

def checkWidths? (fields : List (AddressField × Nat)) : Option (Except Error Unit) :=
  match fields.find? (fun p => decide (maxBits < p.2)) with
  | some (f, w) => some (.error (.invalid (.fieldTooWide f w maxBits)))
  | none => do
    let total ← sum? (fields.map Prod.snd)
    if maxBits < total then return .error (.invalid (.layoutTooWide total maxBits))
    return .ok ()

/-- How often the fields occur, before their widths are looked at. -/
def checkFields (fields : List (AddressField × Nat)) : Except Error Unit := do
  checkField fields .flags
  checkField fields .lane
  checkField fields .opcode
  checkField fields .step

def ofFields? (fields : List (AddressField × Nat)) :
    Option (Except Error (List (AddressField × Nat))) :=
  match checkFields fields with
  | .error e => some (.error e)
  | .ok _ => (checkWidths? fields).map fun checked => checked.map fun _ => fields

def totalBits? (l : Layout) : Option Nat := sum? (l.fields.map Prod.snd)

def shift? (l : Layout) (f : AddressField) : Option Nat :=
  sum? ((l.fields.reverse.takeWhile fun p => p.1 != f).map Prod.snd)

def size? (l : Layout) : Option Nat := do
  let bits ← l.totalBits?
  shiftLeft? 1 bits

def count? (l : Layout) (f : AddressField) : Option Nat := shiftLeft? 1 (l.width f)

/-- The number so far is shifted, and the next value fills the bits that this makes free. -/
def encodeFields? (a : Address) (n : Nat) :
    List (AddressField × Nat) → Option (Except Error Nat)
  | [] => some (.ok n)
  | p :: r => do
    let limit ← shiftLeft? 1 p.2
    if limit ≤ a.get p.1 then return .error (.outOfRange (.field p.1) (a.get p.1) limit)
    let shifted ← shiftLeft? n p.2
    encodeFields? a (shifted ||| a.get p.1) r

def encode? (l : Layout) (a : Address) : Option (Except Error Nat) := do
  let encoded ← encodeFields? a 0 l.fields
  return encoded.bind fun n =>
    if l.width .lane = 0 ∧ a.lane ≠ 0 then .error (.outOfRange (.field .lane) a.lane 1) else .ok n

def value? (l : Layout) (n : Nat) (f : AddressField) : Option Nat := do
  let place ← l.shift? f
  let shifted ← shiftRight? n place
  let limit ← shiftLeft? 1 (l.width f)
  let mask ← sub? limit 1
  return shifted &&& mask

def decode? (l : Layout) (n : Nat) : Option (Except Error Address) := do
  let size ← l.size?
  if size ≤ n then return .error (.outOfRange .address n size)
  let slice ← l.value? n .flags
  let opcode ← l.value? n .opcode
  let step ← l.value? n .step
  let lane ← l.value? n .lane
  return .ok { slice, opcode, step, lane }

/-- There are as many fields as they occur. -/
theorem length_eq_occurrences (fields : List (AddressField × Nat)) :
    fields.length = occurrences fields .flags + occurrences fields .lane +
      occurrences fields .opcode + occurrences fields .step := by
  induction fields with
  | nil => rfl
  | cons p r ih =>
    obtain ⟨f, w⟩ := p
    simp only [occurrences, List.countP_cons, List.length_cons] at ih ⊢
    rw [ih]
    cases f <;> simp <;> omega

/-- Without a repeated field and without a wide one there is not much to add up. -/
theorem sum_lt_limit {fields : List (AddressField × Nat)}
    (hocc : ∀ f, occurrences fields f ≤ 1)
    (hwide : fields.find? (fun p => decide (maxBits < p.2)) = none) :
    (fields.map Prod.snd).sum < Text.limit32 := by
  have hlength : (fields.map Prod.snd).length ≤ 4 := by
    rw [List.length_map, length_eq_occurrences]
    have hflags := hocc .flags
    have hlane := hocc .lane
    have hopcode := hocc .opcode
    have hstep := hocc .step
    omega
  have hle : ∀ w ∈ fields.map Prod.snd, w ≤ maxBits := by
    intro w hw
    obtain ⟨p, hp, rfl⟩ := List.mem_map.mp hw
    simpa using List.find?_eq_none.mp hwide p hp
  calc (fields.map Prod.snd).sum
      ≤ (fields.map Prod.snd).length * maxBits := by
        simpa using List.sum_le_card_nsmul _ maxBits hle
    _ ≤ 4 * maxBits := Nat.mul_le_mul_right _ hlength
    _ < Text.limit32 := by decide

theorem checkWidths?_eq {fields : List (AddressField × Nat)}
    (hocc : ∀ f, occurrences fields f ≤ 1) : checkWidths? fields = some (checkWidths fields) := by
  cases hwide : fields.find? (fun p => decide (maxBits < p.2)) with
  | some p => simp only [checkWidths?, checkWidths, hwide]
  | none =>
    have htotal : sum? (fields.map Prod.snd) = some (totalWidth fields) := by
      rw [totalWidth_eq_sum]
      exact sum?_eq (sum_lt_limit hocc hwide)
    simp only [checkWidths?, checkWidths, hwide, htotal]
    show (if maxBits < totalWidth fields then _ else _) = _
    split <;> rfl

theorem occurrences_of_checkFields {fields : List (AddressField × Nat)} {u : Unit}
    (h : checkFields fields = .ok u) (f : AddressField) : occurrences fields f ≤ 1 := by
  obtain ⟨_, hflags, h⟩ := bind_eq_ok.mp h
  obtain ⟨_, hlane, h⟩ := bind_eq_ok.mp h
  obtain ⟨_, hopcode, hstep⟩ := bind_eq_ok.mp h
  cases f with
  | flags => exact (checkField_eq_ok hflags).1
  | lane => exact (checkField_eq_ok hlane).1
  | opcode => exact (checkField_eq_ok hopcode).1
  | step => exact (checkField_eq_ok hstep).1

/-- The checks of the fields come before the sum. -/
theorem ofFields?_eq (fields : List (AddressField × Nat)) :
    ofFields? fields = some ((ofFields fields).map Layout.fields) := by
  have hcheck : check fields = checkFields fields >>= fun _ => checkWidths fields := by
    simp only [check, checkFields, bind_assoc]
  have hmap : (ofFields fields).map Layout.fields = (check fields).map fun _ => fields := by
    unfold ofFields
    split
    · rename_i e he
      simp only [he]
      rfl
    · rename_i u hu
      simp only [hu]
      rfl
  rw [hmap, hcheck, ofFields?]
  cases hf : checkFields fields with
  | error e => rfl
  | ok u =>
    rw [checkWidths?_eq (occurrences_of_checkFields hf)]
    rfl

theorem ofFields_eq_ok_iff {fields : List (AddressField × Nat)} {l : Layout} :
    ofFields fields = .ok l ↔ l.fields = fields := by
  constructor
  · intro h
    unfold ofFields at h
    split at h
    · cases h
    · cases h
      rfl
  · rintro rfl
    exact l.ofFields_fields

theorem totalBits_le (l : Layout) : l.totalBits ≤ maxBits := l.wellFormed.total_le

theorem shift_le (l : Layout) (f : AddressField) : l.shift f ≤ l.totalBits := by
  have hsub := (List.takeWhile_sublist (l := l.fields.reverse) fun p => p.1 != f).map Prod.snd
  calc l.shift f
      = ((l.fields.reverse.takeWhile fun p => p.1 != f).map Prod.snd).sum := totalWidth_eq_sum _
    _ ≤ (l.fields.reverse.map Prod.snd).sum := hsub.sum_le_sum fun _ _ => Nat.zero_le _
    _ = l.totalBits := by rw [← totalWidth_eq_sum, totalWidth_reverse, totalBits]

theorem totalBits?_eq (l : Layout) : l.totalBits? = some l.totalBits := by
  have hsum : (l.fields.map Prod.snd).sum = l.totalBits := (totalWidth_eq_sum l.fields).symm
  rw [totalBits?, ← hsum]
  apply sum?_eq
  rw [hsum]
  exact l.totalBits_le.trans_lt (by decide)

theorem shift?_eq (l : Layout) (f : AddressField) : l.shift? f = some (l.shift f) := by
  have hsum : ((l.fields.reverse.takeWhile fun p => p.1 != f).map Prod.snd).sum = l.shift f :=
    (totalWidth_eq_sum _).symm
  rw [shift?, ← hsum]
  apply sum?_eq
  rw [hsum]
  exact ((l.shift_le f).trans l.totalBits_le).trans_lt (by decide)

theorem size?_eq (l : Layout) : l.size? = some l.size := by
  rw [size?, totalBits?_eq, size_eq]
  exact one_shiftLeft?_eq l.totalBits_le

theorem count?_eq (l : Layout) (f : AddressField) : l.count? f = some (l.count f) := by
  rw [count?, count_eq]
  exact one_shiftLeft?_eq (l.width_le_maxBits f)

/-- As many bits are in use as the fields so far are wide. -/
theorem encodeFields?_eq (a : Address) (fields : List (AddressField × Nat)) (n bits : Nat)
    (hn : n < 2 ^ bits) (h : bits + totalWidth fields ≤ maxBits) :
    encodeFields? a n fields = some (fields.foldlM (takeUp a) n) := by
  induction fields generalizing n bits with
  | nil => rfl
  | cons p r ih =>
    rw [totalWidth_cons, ← Nat.add_assoc] at h
    have hbits : bits + p.2 ≤ maxBits := (Nat.le_add_right _ _).trans h
    have hlimit := one_shiftLeft?_eq ((Nat.le_add_left p.2 bits).trans hbits)
    have hshift := shiftLeft?_eq hn (hbits.trans_lt (by decide : maxBits < 32))
    rw [List.foldlM_cons, encodeFields?, hlimit, hshift, takeUp]
    by_cases hv : 2 ^ p.2 ≤ a.get p.1
    · simp only [if_pos hv, Option.bind_eq_bind, Option.bind_some]
      rfl
    · have hlt : a.get p.1 < 2 ^ p.2 := Nat.not_le.mp hv
      have hor : n * 2 ^ p.2 ||| a.get p.1 = n * 2 ^ p.2 + a.get p.1 := by
        rw [Nat.mul_comm]
        exact (Nat.two_pow_add_eq_or_of_lt hlt n).symm
      have hnext : n * 2 ^ p.2 + a.get p.1 < 2 ^ (bits + p.2) := by
        calc n * 2 ^ p.2 + a.get p.1
            < n * 2 ^ p.2 + 2 ^ p.2 := Nat.add_lt_add_left hlt _
          _ = (n + 1) * 2 ^ p.2 := (Nat.succ_mul n _).symm
          _ ≤ 2 ^ bits * 2 ^ p.2 := Nat.mul_le_mul_right _ hn
          _ = 2 ^ (bits + p.2) := (Nat.pow_add 2 bits p.2).symm
      simp only [if_neg hv, Option.bind_eq_bind, Option.bind_some, hor]
      exact ih _ (bits + p.2) hnext h

theorem encode?_eq (l : Layout) (a : Address) : l.encode? a = some (l.encode a) := by
  have hbits : 0 + totalWidth l.fields ≤ maxBits := by
    rw [Nat.zero_add]
    exact l.totalBits_le
  have hfields := encodeFields?_eq a l.fields 0 0 Nat.one_pos hbits
  rw [encode?, hfields, encode_eq]
  rfl

/-- Each digit of a number stands at the shift of its field. -/
theorem digits_get (fields : List (AddressField × Nat)) (n : Nat)
    (hn : (fields.map Prod.fst).Nodup) (p : AddressField × Nat) (hp : p ∈ fields) :
    (digits (fields.map fun q => (q.1, 1 <<< q.2)) n).1.get p.1 =
      n / 2 ^ totalWidth (fields.reverse.takeWhile fun q => q.1 != p.1) % 2 ^ p.2 := by
  induction fields with
  | nil => cases hp
  | cons q r ih =>
    rw [List.map_cons, List.nodup_cons] at hn
    rw [List.map_cons, digits_cons, Address.get_set]
    rcases List.mem_cons.mp hp with rfl | hr
    · rw [if_pos rfl, digits_snd, shift_takeWhile_cons_self hn.1, totalWidth_reverse,
        Nat.one_shiftLeft]
    · have hmem : p.1 ∈ r.map Prod.fst := List.mem_map_of_mem hr
      have hne : p.1 ≠ q.1 := fun h => hn.1 (h ▸ hmem)
      rw [if_neg hne, ih hn.2 hr, shift_takeWhile_cons_of_mem hmem]

theorem digits_get_shift (l : Layout) (n : Nat) (f : AddressField) :
    (digits l.radices n).1.get f = n / 2 ^ l.shift f % 2 ^ l.width f := by
  by_cases hf : f ∈ l.fields.map Prod.fst
  · obtain ⟨p, hp, rfl⟩ := List.mem_map.mp hf
    rw [width_of_mem l p hp]
    exact digits_get l.fields n l.nodup_fields p hp
  · rw [width_of_absent l f hf, Nat.pow_zero, Nat.mod_one]
    exact digits_absent l.fields n f hf

theorem value?_eq (l : Layout) (n : Nat) (f : AddressField) :
    l.value? n f = some ((digits l.radices n).1.get f) := by
  have hplace : l.shift f < 32 := ((l.shift_le f).trans l.totalBits_le).trans_lt (by decide)
  have hshift : shiftRight? n (l.shift f) = some (n / 2 ^ l.shift f) := by
    rw [shiftRight?, if_pos hplace, Nat.shiftRight_eq_div_pow]
  have hmask : sub? (2 ^ l.width f) 1 = some (2 ^ l.width f - 1) := if_pos Nat.one_le_two_pow
  rw [digits_get_shift, ← Nat.and_two_pow_sub_one_eq_mod]
  simp only [value?, shift?_eq, hshift, one_shiftLeft?_eq (l.width_le_maxBits f), hmask,
    Option.bind_eq_bind, Option.bind_some]
  rfl

theorem decode?_eq (l : Layout) (n : Nat) : l.decode? n = some (l.decode n) := by
  have hsize := l.size?_eq
  unfold decode? decode
  rw [hsize]
  by_cases h : l.size ≤ n
  · simp only [if_pos h, Option.bind_eq_bind, Option.bind_some]
    rfl
  · simp only [if_neg h, value?_eq, Option.bind_eq_bind, Option.bind_some]
    rfl

/-- The text of a list of words, any blanks between one and the next, but at least one. -/
inductive Joined : List (List Char) → List Char → Prop
  | single (w : List Char) : Joined [w] w
  | cons (w gap : List Char) {rest : List (List Char)} {text : List Char} (hgap : Text.Blanks gap)
      (hne : gap ≠ []) (h : Joined rest text) : Joined (w :: rest) (w ++ gap ++ text)

theorem Joined.words {ws : List (List Char)} {text : List Char} (h : Joined ws text)
    (hws : ∀ w ∈ ws, Text.Token w) : Text.words text = ws := by
  induction h with
  | single w => exact (hws w List.mem_cons_self).words
  | cons w gap hgap hne _ ih =>
    have hlast : ∀ c ∈ (w ++ gap).getLast?, Text.isBlank c = true := by
      intro c hc
      rw [List.getLast?_append_of_ne_nil w hne] at hc
      exact hgap c (List.mem_of_mem_getLast? hc)
    have hfirst : ∀ c ∈ gap.head?, Text.isBlank c = true :=
      fun c hc => hgap c (List.mem_of_mem_head? hc)
    rw [Text.words_append_left _ _ hlast, Text.words_append_right _ _ hfirst,
      Text.words_of_blanks hgap, (hws w List.mem_cons_self).words,
      ih fun v hv => hws v (List.mem_cons_of_mem w hv)]
    simp

/-- The terms of a layout, as `name:width`. -/
def terms (l : Layout) : List (List Char) :=
  l.fields.map fun p => Written.pairText p.1.name.toList p.2

/-- A layout is made of exactly the fields that occur as often as they must and whose widths stay
within the limit together, added up without a bound. Within 32 bits nothing is lost on the way, nor
in any function of the layout, and its terms are read back whatever blanks join them. -/
theorem accepted_layouts :
    (∀ fields, (∃ l, ofFields fields = .ok l) ↔
      occurrences fields .flags = 1 ∧ occurrences fields .opcode = 1 ∧
        occurrences fields .step = 1 ∧ occurrences fields .lane ≤ 1 ∧
        (fields.map Prod.snd).sum ≤ 24) ∧
    (∀ fields l, ofFields fields = .ok l ↔ l.fields = fields) ∧
    (∀ fields, ofFields? fields = some ((ofFields fields).map Layout.fields)) ∧
    (∀ l : Layout, l.totalBits? = some l.totalBits ∧ l.size? = some l.size ∧
      (∀ f, l.shift? f = some (l.shift f)) ∧ (∀ f, l.count? f = some (l.count f)) ∧
      (∀ a, l.encode? a = some (l.encode a)) ∧ (∀ n, l.decode? n = some (l.decode n))) ∧
    (∀ (l : Layout) (text : List Char), Joined l.terms text →
      read (String.ofList text) = .ok l) := by
  refine ⟨?_, ?_, ofFields?_eq, ?_, ?_⟩
  · intro fields
    rw [← totalWidth_eq_sum]
    constructor
    · rintro ⟨l, h⟩
      obtain rfl := ofFields_eq_ok_iff.mp h
      have hw := l.wellFormed
      exact ⟨hw.flags_once, hw.opcode_once, hw.step_once, hw.lane_at_most_once, hw.total_le⟩
    · rintro ⟨hflags, hopcode, hstep, hlane, htotal⟩
      exact ⟨⟨fields, hflags, hlane, hopcode, hstep, htotal⟩, ofFields_eq_ok_iff.mpr rfl⟩
  · intro fields l
    exact ofFields_eq_ok_iff
  · intro l
    exact ⟨l.totalBits?_eq, l.size?_eq, l.shift?_eq, l.count?_eq, l.encode?_eq, l.decode?_eq⟩
  · intro l text h
    apply Written.read_of_words
    apply h.words
    intro w hw
    exact (Written.layoutText_parts l w hw).2

/-- Flags, a lane, an opcode and a step in ten bits. -/
def tenBits : Layout where
  fields := [(.flags, 2), (.lane, 1), (.opcode, 4), (.step, 3)]
  wellFormed := ⟨by decide, by decide, by decide, by decide, by decide⟩

/-- Tabs, line feeds and wide spaces join terms as well. -/
theorem accepted_tenBits :
    Joined tenBits.terms "flags:2\t lane:1\u3000opcode:4\nstep:3".toList ∧
      read "flags:2\t lane:1\u3000opcode:4\nstep:3" = .ok tenBits := by
  have hjoined : Joined tenBits.terms "flags:2\t lane:1\u3000opcode:4\nstep:3".toList :=
    .cons "flags:2".toList ['\t', ' '] (by decide) (by decide)
      (.cons "lane:1".toList ['\u3000'] (by decide) (by decide)
        (.cons "opcode:4".toList ['\n'] (by decide) (by decide) (.single "step:3".toList)))
  obtain ⟨-, -, -, -, hread⟩ := accepted_layouts
  have htext := hread tenBits _ hjoined
  rw [String.ofList_toList] at htext
  exact ⟨hjoined, htext⟩

end Layout

end ControlStore
