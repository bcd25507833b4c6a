import ControlStore.Proofs.Arrangements
import ControlStore.Proofs.Sections

/-! What every bit of an image says. A bit that belongs to no line is zero; a bit of a line is that
of the word in the table, inverted if the line is active low. -/

namespace ControlStore

theorem Word.test_xor (a b : Word) (k : Nat) : (a ^^^ b).test k = (a.test k ^^ b.test k) := by
  rw [test_eq, test_eq, test_eq, toNat_xor, Nat.testBit_xor]

theorem RomFormat.testBit_laneByte (f : RomFormat) (w : Word) (lane offset : Nat)
    (h : f.laneWidth ≤ 8) :
    (f.laneByte w lane).toNat.testBit offset =
      (decide (offset < f.laneWidth) && w.test (lane * f.laneWidth + offset)) := by
  rw [toNat_laneByte f w lane h, Nat.testBit_mod_two_pow, Nat.testBit_div_two_pow, Word.test_eq]
  congr 2
  omega

/-- Every byte of the images is the stored byte of an address and a lane. -/
theorem RomFormat.exists_address_of_mem_images {f : RomFormat} {t : Table} {l : Layout}
    {images : List RomImage} (h : f.burn t l = .ok images) {image : RomImage}
    (himage : image ∈ images) {b : UInt8} (hb : b ∈ image.bytes) :
    ∃ a lane, l.Fits a ∧ lane < f.laneCount ∧ f.storedByte? images l a lane = .ok (some b) := by
  obtain ⟨hsuits, -, words, hwords, rfl⟩ := burn_eq_ok f t l images h
  obtain ⟨⟨v, bank⟩, hmem, place, rfl, hany, hbank⟩ := exists_place_of_mem_images himage hb
  obtain ⟨n, hn, hget⟩ := Array.getElem_of_mem hmem
  have hsize : n < l.size := size_stored f t l words hwords ▸ hn
  have hfits := l.digits_fits n
  have hencode := l.encode_digits n hsize
  obtain ⟨w, hw, hword⟩ := stored_at f t l words hwords _ n hencode
  rw [Array.getElem?_eq_getElem hn, hget] at hword
  obtain ⟨rfl, rfl⟩ := Prod.mk.inj (Option.some.inj hword)
  have hplace : place < f.laneCount := by
    by_cases harr : f.arrangement = .banked
    · rw [hbank harr, ← (hsuits.banked harr).2]
      exact hfits .lane
    · exact hany harr
  obtain ⟨w', hw', hbyte⟩ :=
    storedByte?_burn f t l _ h _ (hfits .flags) (hfits .opcode) (hfits .step)
  obtain rfl := Except.ok.inj (hw.symm.trans hw')
  have hlane := position_lt f place hplace
  exact ⟨_, f.position place, hfits, hlane, hbyte _ hlane⟩

namespace Target

/-- A byte stores a lane of a word of the target: the bits of lines as they are in the word, or
inverted where the line is active low, and zeros besides. -/
structure StoresLane (t : Target) (w : Word) (lane : Nat) (b : UInt8) : Prop where
  unclaimed : ∀ offset, (∀ l ∈ t.signals.lines, ¬ l.Owns (lane * t.format.laneWidth + offset)) →
    b.toNat.testBit offset = false
  beyond : ∀ offset, t.format.laneWidth ≤ offset → b.toNat.testBit offset = false
  activeLow : ∀ offset, offset < t.format.laneWidth → ∀ l ∈ t.signals.lines, l.activeLow = true →
    l.Owns (lane * t.format.laneWidth + offset) →
    b.toNat.testBit offset = !w.test (lane * t.format.laneWidth + offset)
  activeHigh : ∀ offset, offset < t.format.laneWidth → ∀ l ∈ t.signals.lines, l.activeLow = false →
    l.Owns (lane * t.format.laneWidth + offset) →
    b.toNat.testBit offset = w.test (lane * t.format.laneWidth + offset)

theorem Sound.storesLane {t : Target} (h : t.Sound) {w : Word} (hw : t.signals.Covers w)
    (hwidth : t.format.laneWidth ≤ 8) (lane : Nat) :
    t.StoresLane w lane (t.format.laneByte (w ^^^ t.format.activeLow) lane) := by
  have hbit (offset : Nat) :
      (t.format.laneByte (w ^^^ t.format.activeLow) lane).toNat.testBit offset =
        (decide (offset < t.format.laneWidth) &&
          (w.test (lane * t.format.laneWidth + offset) ^^
            t.signals.activeLow.test (lane * t.format.laneWidth + offset))) := by
    rw [t.format.testBit_laneByte _ lane offset hwidth, Word.test_xor, h.activeLow]
  have hline (offset : Nat) (hlt : offset < t.format.laneWidth) (l : Line)
      (hl : l ∈ t.signals.lines) (howns : l.Owns (lane * t.format.laneWidth + offset)) :
      (t.format.laneByte (w ^^^ t.format.activeLow) lane).toNat.testBit offset =
        (w.test (lane * t.format.laneWidth + offset) ^^ l.activeLow) := by
    rw [hbit, h.signals.test_activeLow_of_owns hl howns, decide_eq_true hlt, Bool.true_and]
  refine ⟨?_, ?_, ?_, ?_⟩
  · -- Neither the word nor the inverted bits reach beyond the lines.
    intro offset hnone
    rw [hbit, hw.test_eq_false hnone, t.signals.covers_activeLow.test_eq_false hnone]
    exact Bool.and_false _
  · intro offset hle
    rw [hbit, decide_eq_false (Nat.not_lt.mpr hle), Bool.false_and]
  · intro offset hlt l hl hlow howns
    rw [hline offset hlt l hl howns, hlow, Bool.xor_true]
  · intro offset hlt l hl hhigh howns
    rw [hline offset hlt l hl howns, hhigh, Bool.xor_false]

end Target

/-- Whatever file a target comes from, each lane of each of its addresses is stored bit by bit as
the lines of the target say, with zeros where there is no line, and there is nothing else in its
images. -/
theorem Source.stored_bits_of_target (lines : List InputLine) (targets : List Target)
    (h : (compile lines).result = .ok targets) (t : Target) (ht : t ∈ targets)
    (images : List RomImage) (himages : t.images = .ok images) :
    (∀ a : Address, a.slice < t.layout.count .flags → a.opcode < t.layout.count .opcode →
      a.step < t.layout.count .step →
      ∃ w, t.table.word a.slice a.opcode a.step = .ok w ∧ ∀ lane, lane < t.format.laneCount →
        ∃ b, t.format.storedByte? images t.layout a lane = .ok (some b) ∧ t.StoresLane w lane b) ∧
    (∀ image ∈ images, ∀ b ∈ image.bytes, ∃ a lane, t.layout.Fits a ∧ lane < t.format.laneCount ∧
      t.format.storedByte? images t.layout a lane = .ok (some b)) := by
  have hsound : t.Sound := by
    obtain ⟨i, hi, rfl⟩ := List.getElem_of_mem ht
    have hall := forall₂_sections h
    exact (hall.get (hall.length_eq ▸ hi) hi).sound
  obtain ⟨hsuits, -⟩ := RomFormat.burn_eq_ok _ _ _ images himages
  constructor
  · intro a hs ho hstep
    obtain ⟨w, hw, hbyte⟩ := RomFormat.storedByte?_burn _ _ _ images himages a hs ho hstep
    refine ⟨w, hw, ?_⟩
    intro lane hlane
    exact ⟨_, hbyte lane hlane,
      hsound.storesLane (hsound.suited.words.word hw) hsuits.laneWidth_le lane⟩
  · intro image himage b hb
    exact RomFormat.exists_address_of_mem_images himages himage hb

/-- Lines with gaps between them, one of them active low, in lanes of five bits. -/
def Source.linesWithGaps : List InputLine :=
  ["@ A:1 /B:3 F/2:6", "! layout flags:1 opcode:1 step:1", "! flags Z:0", "! lane-width 5",
    "^ Z=0 : A B | F=2", "= A"].map fun s => .text s.toList

/-- The low lane of a word without `A` and `B`: the bit of `B` idles high, and all others are zero,
for want of a line, of the signal or of room in the lane. -/
theorem Source.stored_bits_of_linesWithGaps :
    ∃ t images, (compile linesWithGaps).result = .ok [t] ∧ t.images = .ok images ∧
      t.table.word 0 1 1 = .ok (Word.ofNat 128) ∧
      ∃ b, t.format.storedByte? images t.layout { opcode := 1, step := 1 } 0 = .ok (some b) ∧
        (List.range 8).map b.toNat.testBit =
          [false, false, false, true, false, false, false, false] := by
  have hno : ∀ part ∈ sections (readLines linesWithGaps), ¬ Sets part "lanes" := by decide +kernel
  -- The rest of the target cannot be evaluated, since rows are kept in a hash map.
  have hfacts : (compile linesWithGaps).result.toOption.any (fun targets =>
      decide (targets.length = 1 ∧ ∀ t ∈ targets,
        (t.layout.count .flags = 2 ∧ t.layout.count .opcode = 2 ∧ t.layout.count .step = 2 ∧
          t.layout.width .lane = 0) ∧
        (t.format.laneWidth = 5 ∧ t.format.laneCount = 2 ∧ t.format.arrangement = .interleaved) ∧
        t.signals.lines = [⟨"A", 1, 1, false⟩, ⟨"B", 3, 1, true⟩, ⟨"F", 6, 2, false⟩] ∧
        t.table.word 0 1 1 = .ok (Word.ofNat 128))) = true := by decide +kernel
  obtain ⟨targets, h, hfacts⟩ := exists_ok_of_any hfacts
  obtain ⟨hlength, hfacts⟩ := of_decide_eq_true hfacts
  obtain ⟨t, rfl⟩ := List.length_eq_one_iff.mp hlength
  obtain ⟨⟨hflags, hopcode, hstep, hlane⟩, ⟨hwidth, hcount, harr⟩, hlines, hword⟩ :=
    hfacts t List.mem_cons_self
  have hall := forall₂_sections h
  obtain ⟨part, hmem, hpart⟩ : ∃ part ∈ sections (readLines linesWithGaps), Describes part t := by
    generalize sections (readLines linesWithGaps) = parts at hall
    obtain ⟨part, rest, hpart, -, rfl⟩ := List.forall₂_cons_right_iff.mp hall
    exact ⟨part, List.mem_cons_self, hpart⟩
  have hwidths : 1 ≤ t.format.laneWidth ∧ t.format.laneWidth ≤ 8 := by omega
  obtain ⟨images, himages⟩ := hpart.sound.exists_images hlane
    (hpart.lanes (hno part hmem) hlane) hwidths.1 hwidths.2 (by rw [harr]; decide)
  obtain ⟨hstored, -⟩ :=
    stored_bits_of_target linesWithGaps [t] h t List.mem_cons_self images himages
  obtain ⟨w, hw, hlanes⟩ := hstored { opcode := 1, step := 1 } (by rw [hflags]; decide)
    (by rw [hopcode]; decide) (by rw [hstep]; decide)
  obtain rfl := Except.ok.inj (hword.symm.trans hw)
  obtain ⟨b, hbyte, hbits⟩ := hlanes 0 (by omega)
  refine ⟨t, images, h, himages, hword, b, hbyte, ?_⟩
  have hfree (offset : Nat) (hne : offset ≠ 1 ∧ offset ≠ 3 ∧ offset < 6) :
      b.toNat.testBit offset = false := by
    apply hbits.unclaimed
    rw [hlines, hwidth]
    simp only [List.forall_mem_cons, Line.Owns]
    exact ⟨by omega, by omega, by omega, List.forall_mem_nil _⟩
  have hA : b.toNat.testBit 1 = false := by
    rw [hbits.activeHigh 1 (by omega) ⟨"A", 1, 1, false⟩ (by simp [hlines]) rfl
      (by simp [Line.Owns]), hwidth]
    decide +kernel
  have hB : b.toNat.testBit 3 = true := by
    rw [hbits.activeLow 3 (by omega) ⟨"B", 3, 1, true⟩ (by simp [hlines]) rfl
      (by simp [Line.Owns]), hwidth]
    decide +kernel
  have hbeyond (offset : Nat) (hle : 5 ≤ offset) : b.toNat.testBit offset = false :=
    hbits.beyond offset (by omega)
  simp [List.range, List.range.loop, hfree, hA, hB, hbeyond]

end ControlStore
