import ControlStore.Proofs.Address
import ControlStore.Proofs.Outcome
import ControlStore.Proofs.Table
import ControlStore.Proofs.Word
import ControlStore.Rom

/-! Lanes hold whole words. What a table burns into images is what is read back from them, in every
arrangement and order. -/

namespace ControlStore.RomFormat

/-- The conditions under which a format suits a layout. -/
structure Suits (f : RomFormat) (l : Layout) : Prop where
  laneWidth_pos : 1 ≤ f.laneWidth
  laneWidth_le : f.laneWidth ≤ 8
  laneCount_pos : 1 ≤ f.laneCount
  laneCount_le : f.laneCount ≤ maxLanes
  banked : f.arrangement = .banked → l.width .lane ≠ 0 ∧ l.count .lane = f.laneCount
  unbanked : f.arrangement ≠ .banked → l.width .lane = 0

theorem suits_of_check (f : RomFormat) (l : Layout) (h : f.check l = .ok ()) : f.Suits l := by
  unfold check at h
  split at h
  · cases h
  rename_i hwidth
  split at h
  · cases h
  rename_i hcount
  split at h
  · rename_i harr
    split at h
    · cases h
    · rename_i hlane
      rw [not_or, not_not] at hlane
      exact ⟨by omega, by omega, by omega, by omega, fun _ => hlane, fun hne => absurd harr hne⟩
  · rename_i harr
    split at h
    · cases h
    · rename_i hlane
      exact ⟨by omega, by omega, by omega, by omega, fun heq => absurd heq harr,
        fun _ => not_not.mp hlane⟩

theorem check_of_suits (f : RomFormat) (l : Layout) (h : f.Suits l) : f.check l = .ok () := by
  have hwidth := h.laneWidth_le
  have hcount := h.laneCount_le
  have hwidth' := h.laneWidth_pos
  have hcount' := h.laneCount_pos
  rw [check, if_neg (by omega), if_neg (by omega)]
  split
  · rename_i harr
    obtain ⟨hne, heq⟩ := h.banked harr
    exact if_neg (by simp [hne, heq])
  · rename_i harr
    exact if_neg (not_not.mpr (h.unbanked harr))

theorem check_eq_error {f : RomFormat} {l : Layout} {e : Error} (h : f.check l = .error e) :
    ∃ why, e = .invalid why := by
  unfold check at h
  split at h
  · exact ⟨_, (Except.error.inj h).symm⟩
  split at h
  · exact ⟨_, (Except.error.inj h).symm⟩
  split at h
  · split at h
    · exact ⟨_, (Except.error.inj h).symm⟩
    · cases h
  · split at h
    · exact ⟨_, (Except.error.inj h).symm⟩
    · cases h

theorem position_lt (f : RomFormat) (lane : Nat) (h : lane < f.laneCount) :
    f.position lane < f.laneCount := by
  unfold position
  split <;> omega

/-- The place of a lane and the lane at a place are found the same way. -/
theorem position_position (f : RomFormat) (lane : Nat) (h : lane < f.laneCount) :
    f.position (f.position lane) = lane := by
  unfold position
  cases f.order with
  | lowFirst => rfl
  | highFirst =>
    show f.laneCount - 1 - (f.laneCount - 1 - lane) = lane
    omega

theorem toNat_laneByte (f : RomFormat) (w : Word) (lane : Nat) (h : f.laneWidth ≤ 8) :
    (f.laneByte w lane).toNat = w.toNat / 2 ^ (lane * f.laneWidth) % 2 ^ f.laneWidth := by
  have hlt : w.toNat / 2 ^ (lane * f.laneWidth) % 2 ^ f.laneWidth < 2 ^ 8 :=
    lt_of_lt_of_le (Nat.mod_lt _ (Nat.two_pow_pos _)) (Nat.pow_le_pow_right (by decide) h)
  rw [laneByte, UInt64.toNat_toUInt8, Word.toNat_extract _ _ _ (by omega), Nat.mod_eq_of_lt hlt]

theorem burn_eq_ok (f : RomFormat) (t : Table) (l : Layout) (images : List RomImage)
    (h : f.burn t l = .ok images) :
    f.Suits l ∧ f.requiredWidth t ≤ f.capacity ∧
      ∃ words, f.stored t l = .ok words ∧ images = f.images words := by
  obtain ⟨_, hc, h⟩ := bind_eq_ok.mp h
  by_cases hw : f.capacity < f.requiredWidth t
  · rw [if_pos hw] at h
    cases h
  · rw [if_neg hw] at h
    obtain ⟨words, hs, h⟩ := bind_eq_ok.mp h
    cases h
    exact ⟨suits_of_check f l hc, Nat.not_lt.mp hw, words, hs, rfl⟩

/-- The word of an address that fits is stored, inverted where active low, at its number. -/
theorem stored_at (f : RomFormat) (t : Table) (l : Layout) (words : Array (Word × Nat))
    (h : f.stored t l = .ok words) (a : Address) (n : Nat) (ha : l.encode a = .ok n) :
    ∃ w, t.word a.slice a.opcode a.step = .ok w ∧ words[n]? = some (w ^^^ f.activeLow, a.lane) := by
  have hn : n < l.size := Layout.encode_lt_size l a n ha
  have hd : (Layout.digits l.radices n).1 = a := Layout.digits_encode l a n ha
  rw [stored, Array.mapM_eq_mapM_toList] at h
  obtain ⟨ws, hws, h⟩ := map_eq_ok.mp h
  subst h
  obtain ⟨x, hx, hget⟩ := mapM_ok_getElem? _ _ ws hws n n (by simp [hn])
  obtain ⟨w, hw, hx⟩ := bind_eq_ok.mp hx
  cases hx
  rw [hd] at hw hget
  exact ⟨w, hw, by simpa using hget⟩

/-- A table that has a word for every address of the layout can be stored. -/
theorem stored_of_words (f : RomFormat) (t : Table) (l : Layout)
    (h : ∀ a, l.Fits a → ∃ w, t.word a.slice a.opcode a.step = .ok w) :
    ∃ words, f.stored t l = .ok words := by
  rw [stored, Array.mapM_eq_mapM_toList]
  obtain ⟨ws, hws⟩ := exists_mapM_ok (fun n => do
      let a := (Layout.digits l.radices n).1
      let w ← t.word a.slice a.opcode a.step
      return (w ^^^ f.activeLow, a.lane)) (Array.range l.size).toList (by
    intro n _
    obtain ⟨w, hw⟩ := h _ (l.digits_fits n)
    exact ⟨_, bind_eq_ok.mpr ⟨w, hw, rfl⟩⟩)
  exact ⟨ws.toArray, map_eq_ok.mpr ⟨ws, hws, rfl⟩⟩

theorem exists_stored (f : RomFormat) (t : Table) (l : Layout) (hs : l.count .flags ≤ t.slices)
    (ho : l.count .opcode ≤ t.opcodes) (ht : l.count .step ≤ t.config.steps) :
    ∃ words, f.stored t l = .ok words :=
  stored_of_words f t l fun _ hfits => t.exists_word _ _ _ ((hfits .flags).trans_le hs)
    ((hfits .opcode).trans_le ho) ((hfits .step).trans_le ht)

theorem burn_of_stored (f : RomFormat) (t : Table) (l : Layout) (words : Array (Word × Nat))
    (hsuits : f.Suits l) (hwidth : f.requiredWidth t ≤ f.capacity)
    (hwords : f.stored t l = .ok words) : f.burn t l = .ok (f.images words) := by
  rw [burn, check_of_suits f l hsuits, hwords]
  show (if f.capacity < f.requiredWidth t then _ else _) = _
  rw [if_neg (Nat.not_lt.mpr hwidth)]
  rfl

/-- A table as large as the layout can be burnt into lanes that hold its words. -/
theorem exists_burn (f : RomFormat) (t : Table) (l : Layout) (hsuits : f.Suits l)
    (hwidth : f.requiredWidth t ≤ f.capacity) (hs : l.count .flags ≤ t.slices)
    (ho : l.count .opcode ≤ t.opcodes) (ht : l.count .step ≤ t.config.steps) :
    ∃ images, f.burn t l = .ok images := by
  obtain ⟨words, hwords⟩ := exists_stored f t l hs ho ht
  exact ⟨f.images words, burn_of_stored f t l words hsuits hwidth hwords⟩

/-- A new table can be burnt into lanes that hold the pad word and the inverted bits. -/
theorem exists_burn_new (f : RomFormat) (l : Layout) (config : TableConfig) (hsuits : f.Suits l)
    (hpad : config.pad.bitWidth ≤ f.capacity) (hlow : f.activeLow.bitWidth ≤ f.capacity)
    (hsteps : config.steps = l.count .step) :
    ∃ t images, Table.new (l.count .flags) (l.count .opcode) config = .ok t ∧
      f.burn t l = .ok images := by
  obtain ⟨t, hnew, hslices, hopcodes, hconfig, hwidth⟩ :=
    Table.exists_new (l.count .flags) (l.count .opcode) config (hsteps ▸ l.count_pos .step)
  have hholds : f.requiredWidth t ≤ f.capacity := Nat.max_le.mpr ⟨hwidth.trans hpad, hlow⟩
  have hsame : l.count .step ≤ t.config.steps := by rw [hconfig, hsteps]
  obtain ⟨images, himages⟩ := exists_burn f t l hsuits hholds hslices.ge hopcodes.ge hsame
  exact ⟨t, images, hnew, himages⟩

theorem getElem?_flatMap_block {α β : Type} (xs : List α) (g : α → List β) (k : Nat)
    (hk : ∀ x, (g x).length = k) (i j : Nat) (hj : j < k) :
    (xs.flatMap g)[i * k + j]? = xs[i]?.bind fun x => (g x)[j]? := by
  induction xs generalizing i with
  | nil => simp
  | cons x r ih =>
    rw [List.flatMap_cons]
    cases i with
    | zero =>
      rw [List.getElem?_append_left (by rw [hk]; omega)]
      simp
    | succ i =>
      have hle : (g x).length ≤ (i + 1) * k + j := by rw [hk, Nat.add_mul]; omega
      have hsub : (i + 1) * k + j - (g x).length = i * k + j := by rw [hk, Nat.add_mul]; omega
      rw [List.getElem?_append_right hle, hsub, ih, List.getElem?_cons_succ]

theorem lane_at_place (f : RomFormat) (lane : Nat) (h : lane < f.laneCount) :
    ((List.range f.laneCount).map f.position)[f.position lane]? = some lane := by
  rw [List.getElem?_map, List.getElem?_range (position_lt f lane h), Option.map_some,
    position_position f lane h]

theorem interleaved_byte (f : RomFormat) (harr : f.arrangement = .interleaved)
    (words : Array (Word × Nat)) (n bank lane : Nat) (v : Word) (hv : words[n]? = some (v, bank))
    (hlane : lane < f.laneCount) :
    ((f.images words).head?.bind fun image => image.bytes[n * f.laneCount + f.position lane]?) =
      some (f.laneByte v lane) := by
  simp only [images, harr, List.head?_cons, Option.bind_some]
  rw [← Array.getElem?_toList, Array.toList_flatMap,
    getElem?_flatMap_block words.toList _ f.laneCount (by simp) n _ (position_lt f lane hlane),
    Array.getElem?_toList, hv, Option.bind_some, Array.toList_map, List.getElem?_map,
    List.toList_toArray, lane_at_place f lane hlane, Option.map_some]

theorem split_byte (f : RomFormat) (harr : f.arrangement = .split) (words : Array (Word × Nat))
    (n bank lane : Nat) (v : Word) (hv : words[n]? = some (v, bank)) (hlane : lane < f.laneCount) :
    ((f.images words)[f.position lane]?.bind fun image => image.bytes[n]?) =
      some (f.laneByte v lane) := by
  simp only [images, harr]
  rw [List.getElem?_map, lane_at_place f lane hlane, Option.map_some, Option.bind_some,
    Array.getElem?_map, hv, Option.map_some]

theorem banked_byte (f : RomFormat) (harr : f.arrangement = .banked) (words : Array (Word × Nat))
    (n lane : Nat) (v : Word) (hv : words[n]? = some (v, f.position lane))
    (hlane : lane < f.laneCount) :
    ((f.images words).head?.bind fun image => image.bytes[n]?) = some (f.laneByte v lane) := by
  simp only [images, harr, List.head?_cons, Option.bind_some]
  rw [Array.getElem?_map, hv, Option.map_some, position_position f lane hlane]

/-- The address with another lane fits as soon as its other values do and the lane does. -/
theorem fits_with_lane (l : Layout) (a : Address) (lane : Nat) (hs : a.slice < l.count .flags)
    (ho : a.opcode < l.count .opcode) (ht : a.step < l.count .step) (hl : lane < l.count .lane) :
    l.Fits { a with lane } := by
  intro f
  cases f with
  | flags => exact hs
  | lane => exact hl
  | opcode => exact ho
  | step => exact ht

/-- Every lane of a word in the table is stored in the images. -/
theorem storedByte?_burn (f : RomFormat) (t : Table) (l : Layout) (images : List RomImage)
    (h : f.burn t l = .ok images) (a : Address) (hs : a.slice < l.count .flags)
    (ho : a.opcode < l.count .opcode) (ht : a.step < l.count .step) :
    ∃ w, t.word a.slice a.opcode a.step = .ok w ∧ ∀ lane, lane < f.laneCount →
      f.storedByte? images l a lane = .ok (some (f.laneByte (w ^^^ f.activeLow) lane)) := by
  obtain ⟨hsuits, -, words, hwords, rfl⟩ := burn_eq_ok f t l images h
  have hat (lane : Nat) (hl : lane < l.count .lane) :
      ∃ n w, l.encode { a with lane } = .ok n ∧ t.word a.slice a.opcode a.step = .ok w ∧
        words[n]? = some (w ^^^ f.activeLow, lane) := by
    have henc := l.encode_of_fits _ (fits_with_lane l a lane hs ho ht hl)
    obtain ⟨w, hw, hget⟩ := stored_at f t l words hwords _ _ henc
    exact ⟨_, w, henc, hw, hget⟩
  obtain ⟨n, w, henc, hw, hget⟩ := hat 0 (l.count_pos .lane)
  refine ⟨w, hw, ?_⟩
  intro lane hlane
  dsimp only [storedByte?]
  split
  · rename_i harr
    rw [henc]
    exact congrArg Except.ok (interleaved_byte f harr words n 0 lane _ hget hlane)
  · rename_i harr
    rw [henc]
    exact congrArg Except.ok (split_byte f harr words n 0 lane _ hget hlane)
  · rename_i harr
    have hplace : f.position lane < l.count .lane := by
      rw [(hsuits.banked harr).2]
      exact position_lt f lane hlane
    obtain ⟨n', w', henc', hw', hget'⟩ := hat (f.position lane) hplace
    rw [hw] at hw'
    cases hw'
    rw [henc']
    exact congrArg Except.ok (banked_byte f harr words n' lane _ hget' hlane)

end ControlStore.RomFormat
