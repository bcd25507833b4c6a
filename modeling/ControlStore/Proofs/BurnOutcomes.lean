import ControlStore.Proofs.Lanes

/-! What becomes of burning. A format may not suit the layout, the words may be wider than all lanes
together, and the table may lack addresses that the layout has. These are found in this order, each
with an error of its own, and a table in whose way none of them stands is burnt. -/

namespace ControlStore

namespace Table

/-- Only an address outside the table has no word. -/
theorem word_eq_error {t : Table} {slice opcode step : Nat} {e : Error}
    (h : t.word slice opcode step = .error e) :
    ∃ quantity value limit, e = .outOfRange quantity value limit := by
  by_cases hstep : step < t.config.steps
  · rw [word, dif_pos hstep] at h
    by_cases hslice : slice < t.slices
    · by_cases hopcode : opcode < t.opcodes
      · rw [sequence_of_lt t slice opcode hslice hopcode] at h
        cases h
      · rw [sequence_of_opcode_le t slice opcode hslice (Nat.not_lt.mp hopcode)] at h
        cases h
        exact ⟨_, _, _, rfl⟩
    · rw [sequence_of_slice_le t slice opcode (Nat.not_lt.mp hslice)] at h
      cases h
      exact ⟨_, _, _, rfl⟩
  · rw [word, dif_neg hstep] at h
    cases h
    exact ⟨_, _, _, rfl⟩

theorem lt_of_word_eq_ok {t : Table} {slice opcode step : Nat} {w : Word}
    (h : t.word slice opcode step = .ok w) :
    slice < t.slices ∧ opcode < t.opcodes ∧ step < t.config.steps := by
  by_cases hstep : step < t.config.steps
  · rw [word, dif_pos hstep] at h
    obtain ⟨s, hs, -⟩ := bind_eq_ok.mp h
    obtain ⟨hslice, hopcode⟩ := lt_of_sequence_eq_ok t slice opcode s hs
    exact ⟨hslice, hopcode, hstep⟩
  · rw [word, dif_neg hstep] at h
    cases h

end Table

namespace RomFormat

variable {f : RomFormat} {t : Table} {l : Layout}

/-- The lanes are too narrow, too wide, too few or too many, or they and the lane field of the
addresses do not go together. -/
def Unsuited (f : RomFormat) (l : Layout) : Prop :=
  f.laneWidth < 1 ∨ 8 < f.laneWidth ∨ f.laneCount < 1 ∨ 1024 < f.laneCount ∨
  (f.arrangement = .banked ∧ (l.width .lane = 0 ∨ 2 ^ l.width .lane ≠ f.laneCount)) ∨
  (f.arrangement ≠ .banked ∧ l.width .lane ≠ 0)

/-- The layout has a slice, an opcode or a step that the table has not. -/
def Lacks (t : Table) (l : Layout) : Prop :=
  t.slices < l.count .flags ∨ t.opcodes < l.count .opcode ∨ t.config.steps < l.count .step

theorem unsuited_iff_not_suits : f.Unsuited l ↔ ¬ f.Suits l := by
  constructor
  · intro h hsuits
    have hwidth := hsuits.laneWidth_pos
    have hwidth' := hsuits.laneWidth_le
    have hcount := hsuits.laneCount_pos
    have hcount' : f.laneCount ≤ 1024 := hsuits.laneCount_le
    rcases h with h | h | h | h | ⟨hbanked, h⟩ | ⟨hbanked, h⟩
    · omega
    · omega
    · omega
    · omega
    · obtain ⟨hfield, hlanes⟩ := hsuits.banked hbanked
      rw [Layout.count_eq] at hlanes
      exact h.elim hfield fun hne => hne hlanes
    · exact h (hsuits.unbanked hbanked)
  · intro hnot
    by_contra h
    simp only [Unsuited, not_or, not_and, not_not] at h
    obtain ⟨hwidth, hwidth', hcount, hcount', hbanked, hunbanked⟩ := h
    apply hnot
    refine ⟨by omega, by omega, by omega, Nat.not_lt.mp hcount', ?_, hunbanked⟩
    intro harr
    rw [Layout.count_eq]
    exact hbanked harr

theorem burn_of_unsuited (h : f.Unsuited l) : ∃ why, f.burn t l = .error (.invalid why) := by
  cases hcheck : f.check l with
  | ok _ => exact absurd (suits_of_check f l hcheck) (unsuited_iff_not_suits.mp h)
  | error e =>
    obtain ⟨why, rfl⟩ := check_eq_error hcheck
    refine ⟨why, ?_⟩
    rw [burn, hcheck]
    rfl

theorem burn_of_overflow (hsuits : f.Suits l) (hwidth : f.capacity < f.requiredWidth t) :
    f.burn t l = .error (.wordOverflow (f.requiredWidth t) f.capacity) := by
  rw [burn, check_of_suits f l hsuits]
  show (if f.capacity < f.requiredWidth t then _ else _) = _
  rw [if_pos hwidth]
  rfl

theorem burn_of_stored_error {e : Error} (hsuits : f.Suits l)
    (hwidth : f.requiredWidth t ≤ f.capacity) (hstored : f.stored t l = .error e) :
    f.burn t l = .error e := by
  rw [burn, check_of_suits f l hsuits, hstored]
  show (if f.capacity < f.requiredWidth t then _ else _) = _
  rw [if_neg (Nat.not_lt.mpr hwidth)]
  rfl

/-- The first address without a word ends the burning. -/
theorem exists_of_stored_error {e : Error} (h : f.stored t l = .error e) :
    ∃ a, l.Fits a ∧ t.word a.slice a.opcode a.step = .error e := by
  rw [stored, Array.mapM_eq_mapM_toList] at h
  obtain ⟨n, -, hn⟩ := exists_of_mapM_error _ _ e (map_eq_error.mp h)
  refine ⟨(Layout.digits l.radices n).1, l.digits_fits n, ?_⟩
  rcases bind_eq_error.mp hn with hword | ⟨w, -, hw⟩
  · exact hword
  · cases hw

/-- Every address of the layout is asked for, so a table that can be stored lacks none. -/
theorem not_lacks_of_stored {words : Array (Word × Nat)} (h : f.stored t l = .ok words) :
    ¬ Lacks t l := by
  have hin (a : Address) (hfits : l.Fits a) :
      a.slice < t.slices ∧ a.opcode < t.opcodes ∧ a.step < t.config.steps := by
    obtain ⟨w, hw, -⟩ := stored_at f t l words h a _ (l.encode_of_fits a hfits)
    exact Table.lt_of_word_eq_ok hw
  have hfits (a : Address) (hs : a.slice < l.count .flags) (ho : a.opcode < l.count .opcode)
      (ht : a.step < l.count .step) : l.Fits { a with lane := 0 } :=
    fits_with_lane l a 0 hs ho ht (l.count_pos .lane)
  have hflags := l.count_pos .flags
  have hopcode := l.count_pos .opcode
  have hstep := l.count_pos .step
  rintro (hlt | hlt | hlt)
  · exact absurd (hin _ (hfits { slice := t.slices } hlt hopcode hstep)).1 (lt_irrefl _)
  · exact absurd (hin _ (hfits { opcode := t.opcodes } hflags hlt hstep)).2.1 (lt_irrefl _)
  · exact absurd (hin _ (hfits { step := t.config.steps } hflags hopcode hlt)).2.2 (lt_irrefl _)

theorem burn_of_lacks (hsuits : f.Suits l) (hwidth : f.requiredWidth t ≤ f.capacity)
    (hlacks : Lacks t l) :
    ∃ quantity value limit, f.burn t l = .error (.outOfRange quantity value limit) := by
  cases hstored : f.stored t l with
  | ok words => exact absurd hlacks (not_lacks_of_stored hstored)
  | error e =>
    obtain ⟨a, -, hword⟩ := exists_of_stored_error hstored
    obtain ⟨quantity, value, limit, rfl⟩ := Table.word_eq_error hword
    exact ⟨quantity, value, limit, burn_of_stored_error hsuits hwidth hstored⟩

/-- The four ways in which burning ends. -/
theorem burn_cases (f : RomFormat) (t : Table) (l : Layout) :
    (f.Unsuited l ∧ ∃ why, f.burn t l = .error (.invalid why)) ∨
    (¬ f.Unsuited l ∧ f.capacity < f.requiredWidth t ∧
      f.burn t l = .error (.wordOverflow (f.requiredWidth t) f.capacity)) ∨
    (¬ f.Unsuited l ∧ f.requiredWidth t ≤ f.capacity ∧ Lacks t l ∧
      ∃ quantity value limit, f.burn t l = .error (.outOfRange quantity value limit)) ∨
    (¬ f.Unsuited l ∧ f.requiredWidth t ≤ f.capacity ∧ ¬ Lacks t l ∧
      ∃ images, f.burn t l = .ok images) := by
  by_cases hunsuited : f.Unsuited l
  · exact .inl ⟨hunsuited, burn_of_unsuited hunsuited⟩
  have hsuits : f.Suits l := by
    by_contra hnot
    exact hunsuited (unsuited_iff_not_suits.mpr hnot)
  by_cases hwidth : f.capacity < f.requiredWidth t
  · exact .inr (.inl ⟨hunsuited, hwidth, burn_of_overflow hsuits hwidth⟩)
  have hwidth := Nat.not_lt.mp hwidth
  by_cases hlacks : Lacks t l
  · exact .inr (.inr (.inl ⟨hunsuited, hwidth, hlacks, burn_of_lacks hsuits hwidth hlacks⟩))
  · obtain ⟨hslices, hopcodes, hsteps⟩ :
        l.count .flags ≤ t.slices ∧ l.count .opcode ≤ t.opcodes ∧
          l.count .step ≤ t.config.steps := by
      simpa only [Lacks, not_or, Nat.not_lt] using hlacks
    exact .inr (.inr (.inr ⟨hunsuited, hwidth, hlacks,
      exists_burn f t l hsuits hwidth hslices hopcodes hsteps⟩))

/-- Burning is refused if and only if the format does not suit the layout. Otherwise it overflows if
and only if the widest word of the table or the inverted bits take more than all lanes hold, and
says how much. Otherwise an address is out of range if and only if the table is smaller than the
layout in slices, opcodes or steps, and in all other cases there are images. -/
theorem burn_outcomes (f : RomFormat) (t : Table) (l : Layout) :
    ((∃ why, f.burn t l = .error (.invalid why)) ↔ f.Unsuited l) ∧
    (∀ width capacity, f.burn t l = .error (.wordOverflow width capacity) ↔
      ¬ f.Unsuited l ∧ width = max t.maxWordWidth f.activeLow.bitWidth ∧
        capacity = f.laneWidth * f.laneCount ∧ capacity < width) ∧
    ((∃ quantity value limit, f.burn t l = .error (.outOfRange quantity value limit)) ↔
      ¬ f.Unsuited l ∧ max t.maxWordWidth f.activeLow.bitWidth ≤ f.laneWidth * f.laneCount ∧
        Lacks t l) ∧
    ((∃ images, f.burn t l = .ok images) ↔
      ¬ f.Unsuited l ∧ max t.maxWordWidth f.activeLow.bitWidth ≤ f.laneWidth * f.laneCount ∧
        ¬ Lacks t l) := by
  have hcapacity : f.capacity = f.laneWidth * f.laneCount := rfl
  have hrequired : f.requiredWidth t = max t.maxWordWidth f.activeLow.bitWidth := rfl
  have hcases := burn_cases f t l
  rw [hcapacity, hrequired] at hcases
  generalize max t.maxWordWidth f.activeLow.bitWidth = required at hcases ⊢
  generalize f.laneWidth * f.laneCount = room at hcases ⊢
  rcases hcases with ⟨hunsuited, why, h⟩ | ⟨hsuited, hwidth, h⟩ |
    ⟨hsuited, hwidth, hlacks, quantity, value, limit, h⟩ | ⟨hsuited, hwidth, hlacks, images, h⟩
  · simp [h, hunsuited]
  · have hnot : ¬ required ≤ room := Nat.not_le.mpr hwidth
    simp only [h, hsuited, hnot]
    refine ⟨by simp, ?_, by simp, by simp⟩
    intro width capacity
    constructor
    · intro heq
      cases heq
      exact ⟨not_false, rfl, rfl, hwidth⟩
    · rintro ⟨-, rfl, rfl, -⟩
      rfl
  · simp [h, hsuited, hwidth, hlacks]
  · simp [h, hsuited, hwidth, hlacks]

end RomFormat

end ControlStore
