import ControlStore.Proofs.Lanes
import ControlStore.Target

/-! Three arrangements of the same lanes. Split images say what each lane holds, and the
interleaved and the banked image hold the bytes of the split ones at other places. -/

namespace ControlStore

namespace Layout

theorem occurrences_filter (fields : List (AddressField × Nat)) (f g : AddressField) :
    occurrences (fields.filter fun p => p.1 != g) f = if f = g then 0 else occurrences fields f := by
  rw [occurrences, List.countP_filter]
  split
  · rename_i heq
    rw [List.countP_eq_zero]
    intro p _
    simp [heq]
  · rename_i hne
    rw [occurrences]
    apply List.countP_congr
    intro p _
    simp only [Bool.and_eq_true, beq_iff_eq, bne_iff_ne]
    exact ⟨And.left, fun heq => ⟨heq, heq ▸ hne⟩⟩

theorem totalWidth_filter_le (fields : List (AddressField × Nat))
    (keep : AddressField × Nat → Bool) : totalWidth (fields.filter keep) ≤ totalWidth fields := by
  rw [totalWidth_eq_sum, totalWidth_eq_sum]
  exact (List.filter_sublist.map Prod.snd).sum_le_sum fun _ _ => Nat.zero_le _

/-- The same layout with its lane field removed. -/
def withoutLane (l : Layout) : Layout where
  fields := l.fields.filter fun p => p.1 != .lane
  wellFormed := by
    have h := l.wellFormed
    refine ⟨?_, ?_, ?_, ?_, (totalWidth_filter_le _ _).trans h.total_le⟩
    · rw [occurrences_filter]
      exact h.flags_once
    · rw [occurrences_filter]
      exact Nat.zero_le _
    · rw [occurrences_filter]
      exact h.opcode_once
    · rw [occurrences_filter]
      exact h.step_once

theorem width_withoutLane (l : Layout) (f : AddressField) :
    l.withoutLane.width f = if f = .lane then 0 else l.width f := by
  split
  · -- No field with this name is left, and an absent field has no width.
    rename_i heq
    apply width_of_absent
    intro hmem
    obtain ⟨p, hp, rfl⟩ := List.mem_map.mp hmem
    have hne := (List.mem_filter.mp hp).2
    simp [heq] at hne
  · rename_i hne
    obtain ⟨p, hp, rfl⟩ := List.mem_map.mp (l.mem_fields_of_ne_lane f hne)
    have hp' : p ∈ l.withoutLane.fields := List.mem_filter.mpr ⟨hp, by simpa using hne⟩
    rw [width_of_mem l p hp, width_of_mem _ p hp']

/-- An address fits without a lane field if it has no lane and fits with the field. -/
theorem fits_withoutLane (l : Layout) (a : Address) :
    l.withoutLane.Fits a ↔ a.lane = 0 ∧ l.Fits a := by
  have hcount (f : AddressField) : l.withoutLane.count f = if f = .lane then 1 else l.count f := by
    rw [count_eq, width_withoutLane]
    split
    · rfl
    · exact (l.count_eq f).symm
  constructor
  · intro h
    have hlane : a.get .lane = 0 := by simpa [hcount] using h .lane
    refine ⟨hlane, ?_⟩
    intro f
    by_cases hf : f = .lane
    · rw [hf, hlane]
      exact l.count_pos .lane
    · simpa [hcount, hf] using h f
  · rintro ⟨hlane, h⟩ f
    rw [hcount]
    split
    · rename_i hf
      subst hf
      exact Nat.lt_one_iff.mpr hlane
    · exact h f

end Layout

namespace RomFormat

/-- The same lanes in one image each. -/
def asSplit (f : RomFormat) : RomFormat := { f with arrangement := .split }

/-- A byte of one of several images. -/
def byteAt (images : List RomImage) (place n : Nat) : Option UInt8 :=
  images[place]?.bind fun image => image.bytes[n]?

theorem Suits.asSplit {f : RomFormat} {l l' : Layout} (h : f.Suits l)
    (hlane : l'.width .lane = 0) : f.asSplit.Suits l' :=
  ⟨h.laneWidth_pos, h.laneWidth_le, h.laneCount_pos, h.laneCount_le, nofun, fun _ => hlane⟩

theorem size_stored (f : RomFormat) (t : Table) (l : Layout) (words : Array (Word × Nat))
    (h : f.stored t l = .ok words) : words.size = l.size := by
  rw [stored, Array.mapM_eq_mapM_toList] at h
  obtain ⟨ws, hws, rfl⟩ := map_eq_ok.mp h
  have hlength := mapM_ok_length _ _ ws hws
  simpa using hlength

theorem word_of_stored (f : RomFormat) (t : Table) (l : Layout) (words : Array (Word × Nat))
    (h : f.stored t l = .ok words) (a : Address) (ha : l.Fits a) :
    ∃ w, t.word a.slice a.opcode a.step = .ok w := by
  obtain ⟨w, hw, -⟩ := stored_at f t l words h a _ (l.encode_of_fits a ha)
  exact ⟨w, hw⟩

theorem split_image (f : RomFormat) (harr : f.arrangement = .split) (words : Array (Word × Nat))
    (place : Nat) (h : place < f.laneCount) :
    (f.images words)[place]? = some
      { lane := some (f.position place)
        bytes := words.map fun w => f.laneByte w.1 (f.position place) } := by
  simp only [images, harr]
  rw [List.getElem?_map, List.getElem?_map, List.getElem?_range h]
  rfl

/-- The byte at a place of a split image is that of the lane that belongs there. -/
theorem byteAt_split (f : RomFormat) (words : Array (Word × Nat)) (place n bank : Nat) (v : Word)
    (h : place < f.laneCount) (hv : words[n]? = some (v, bank)) :
    byteAt (f.asSplit.images words) place n = some (f.laneByte v (f.position place)) := by
  have hbyte := split_byte f.asSplit rfl words n bank (f.position place) v hv (position_lt f place h)
  rw [show f.asSplit.position (f.position place) = place from position_position f place h] at hbyte
  exact hbyte

/-- A byte of an image is that of a lane of some word: of any lane, or of the one in the bank of the
word. -/
theorem exists_place_of_mem_images {f : RomFormat} {words : Array (Word × Nat)} {image : RomImage}
    {b : UInt8} (himage : image ∈ f.images words) (hb : b ∈ image.bytes) :
    ∃ w ∈ words, ∃ place, b = f.laneByte w.1 (f.position place) ∧
      (f.arrangement ≠ .banked → place < f.laneCount) ∧
      (f.arrangement = .banked → place = w.2) := by
  cases harr : f.arrangement with
  | interleaved =>
    simp only [images, harr, List.mem_singleton] at himage
    subst himage
    obtain ⟨w, hw, hb⟩ := Array.mem_flatMap.mp hb
    obtain ⟨lane, hlane, rfl⟩ := Array.mem_map.mp hb
    obtain ⟨place, hplace, rfl⟩ := List.mem_map.mp (List.mem_toArray.mp hlane)
    exact ⟨w, hw, place, rfl, fun _ => List.mem_range.mp hplace, by simp⟩
  | split =>
    simp only [images, harr] at himage
    obtain ⟨lane, hlane, rfl⟩ := List.mem_map.mp himage
    obtain ⟨place, hplace, rfl⟩ := List.mem_map.mp hlane
    obtain ⟨w, hw, rfl⟩ := Array.mem_map.mp hb
    exact ⟨w, hw, place, rfl, fun _ => List.mem_range.mp hplace, by simp⟩
  | banked =>
    simp only [images, harr, List.mem_singleton] at himage
    subst himage
    obtain ⟨w, hw, rfl⟩ := Array.mem_map.mp hb
    exact ⟨w, hw, w.2, rfl, fun hne => absurd rfl hne, fun _ => rfl⟩

theorem mem_images {f : RomFormat} {words : Array (Word × Nat)} {image : RomImage} {b : UInt8}
    (himage : image ∈ f.images words) (hb : b ∈ image.bytes) : ∃ v lane, b = f.laneByte v lane := by
  obtain ⟨w, -, place, heq, -⟩ := exists_place_of_mem_images himage hb
  exact ⟨w.1, f.position place, heq⟩

theorem size_interleaved (f : RomFormat) (words : Array (Word × Nat)) (lanes : Array Nat) :
    (words.flatMap fun w => lanes.map (f.laneByte w.1)).size = words.size * lanes.size := by
  rw [← Array.length_toList, Array.toList_flatMap, List.length_flatMap]
  simp

theorem sum_size_images (f : RomFormat) (words : Array (Word × Nat)) :
    ((f.images words).map fun image => image.bytes.size).sum = words.size * f.bytesPerAddress := by
  cases harr : f.arrangement with
  | interleaved =>
    simp only [images, bytesPerAddress, harr, List.map_cons, List.map_nil, List.sum_singleton,
      size_interleaved, List.size_toArray, List.length_map, List.length_range]
  | split => simp [images, bytesPerAddress, harr, Function.comp_def, Nat.mul_comm]
  | banked => simp [images, bytesPerAddress, harr]

/-- One image for each place, with the lane that belongs there. -/
theorem burn_split (f : RomFormat) (t : Table) (l : Layout) (images : List RomImage)
    (h : f.burn t l = .ok images) (harr : f.arrangement = .split) (place : Nat)
    (hplace : place < f.laneCount) :
    ∃ image, images[place]? = some image ∧ image.lane = some (f.position place) ∧
      image.bytes.size = l.size ∧
      ∀ n, n < l.size → ∃ a w, l.decode n = .ok a ∧ t.word a.slice a.opcode a.step = .ok w ∧
        image.bytes[n]? = some (f.laneByte (w ^^^ f.activeLow) (f.position place)) := by
  obtain ⟨-, -, words, hwords, rfl⟩ := burn_eq_ok f t l images h
  refine ⟨_, split_image f harr words place hplace, rfl, ?_, ?_⟩
  · rw [Array.size_map]
    exact size_stored f t l words hwords
  · intro n hn
    obtain ⟨w, hw, hget⟩ := stored_at f t l words hwords _ n (l.encode_digits n hn)
    refine ⟨_, w, l.decode_of_lt n hn, hw, ?_⟩
    rw [Array.getElem?_map, hget]
    rfl

/-- One image, in which the bytes of the split images take turns. -/
theorem burn_interleaved (f : RomFormat) (t : Table) (l : Layout) (images : List RomImage)
    (h : f.burn t l = .ok images) (harr : f.arrangement = .interleaved) :
    ∃ image split, images = [image] ∧ image.bytes.size = l.size * f.laneCount ∧
      f.asSplit.burn t l = .ok split ∧
      ∀ n place, n < l.size → place < f.laneCount →
        image.bytes[n * f.laneCount + place]? = byteAt split place n := by
  obtain ⟨hsuits, hwidth, words, hwords, rfl⟩ := burn_eq_ok f t l images h
  have hlane : l.width .lane = 0 := hsuits.unbanked (by simp [harr])
  have himages : f.images words = [⟨none, words.flatMap fun w =>
      ((List.range f.laneCount).map f.position).toArray.map (f.laneByte w.1)⟩] := by
    simp only [images, harr]
  refine ⟨_, f.asSplit.images words, himages, ?_, ?_, ?_⟩
  · rw [size_interleaved, size_stored f t l words hwords]
    simp
  · exact burn_of_stored f.asSplit t l words (hsuits.asSplit hlane) hwidth hwords
  · intro n place hn hplace
    obtain ⟨w, -, hget⟩ := stored_at f t l words hwords _ n (l.encode_digits n hn)
    have hbyte := interleaved_byte f harr words n _ (f.position place) _ hget
      (position_lt f place hplace)
    rw [position_position f place hplace, himages] at hbyte
    rw [byteAt_split f words place n _ _ hplace hget]
    exact hbyte

/-- One image, in which the lane field of an address selects among the split images. -/
theorem burn_banked (f : RomFormat) (t : Table) (l : Layout) (images : List RomImage)
    (h : f.burn t l = .ok images) (harr : f.arrangement = .banked) :
    ∃ image split, images = [image] ∧ image.bytes.size = l.size ∧
      f.asSplit.burn t l.withoutLane = .ok split ∧
      ∀ a, l.Fits a → ∃ n m, l.encode a = .ok n ∧
        l.withoutLane.encode { a with lane := 0 } = .ok m ∧
        image.bytes[n]? = byteAt split a.lane m := by
  obtain ⟨hsuits, hwidth, words, hwords, rfl⟩ := burn_eq_ok f t l images h
  have himages :
      f.images words = [⟨none, words.map fun w => f.laneByte w.1 (f.position w.2)⟩] := by
    simp only [images, harr]
  obtain ⟨words', hwords'⟩ := stored_of_words f t l.withoutLane fun a ha =>
    word_of_stored f t l words hwords a ((l.fits_withoutLane a).mp ha).2
  have hlane : l.withoutLane.width .lane = 0 := l.width_withoutLane .lane
  refine ⟨_, f.asSplit.images words', himages, ?_, ?_, ?_⟩
  · rw [Array.size_map]
    exact size_stored f t l words hwords
  · exact burn_of_stored f.asSplit t _ words' (hsuits.asSplit hlane) hwidth hwords'
  · intro a hfits
    have hplace : a.lane < f.laneCount := (hsuits.banked harr).2 ▸ hfits .lane
    have hfirst := fits_with_lane l a 0 (hfits .flags) (hfits .opcode) (hfits .step)
      (l.count_pos .lane)
    have henc := l.encode_of_fits a hfits
    have henc' := l.withoutLane.encode_of_fits _ ((l.fits_withoutLane _).mpr ⟨rfl, hfirst⟩)
    obtain ⟨w, hw, hget⟩ := stored_at f t l words hwords a _ henc
    obtain ⟨w', hw', hget'⟩ := stored_at f t _ words' hwords' _ _ henc'
    cases hw.symm.trans hw'
    refine ⟨_, _, henc, henc', ?_⟩
    rw [byteAt_split f words' a.lane _ _ _ hplace hget', Array.getElem?_map, hget]
    rfl

/-- Wherever the lanes are arranged, they hold the same bytes. A split image holds one lane of every
word, the first image the lane that comes first; an interleaved image has the bytes that the split
images have at an address side by side; a banked one has them where the lane field tells the images
apart. -/
theorem lanes_in_place (f : RomFormat) (t : Table) (l : Layout) (images : List RomImage)
    (h : f.burn t l = .ok images) :
    (f.arrangement = .split → images.length = f.laneCount ∧
      ∀ place, place < f.laneCount → ∃ image lane, images[place]? = some image ∧
        image.lane = some lane ∧
        lane = (if f.order = .lowFirst then place else f.laneCount - 1 - place) ∧
        image.bytes.size = l.size ∧
        ∀ n, n < l.size → ∃ a w b, l.decode n = .ok a ∧
          t.word a.slice a.opcode a.step = .ok w ∧ image.bytes[n]? = some b ∧
          b.toNat = (w.toNat ^^^ f.activeLow.toNat) / 2 ^ (lane * f.laneWidth) %
            2 ^ f.laneWidth) ∧
    (f.arrangement = .interleaved → ∃ image split, images = [image] ∧
      image.bytes.size = l.size * f.laneCount ∧ f.asSplit.burn t l = .ok split ∧
      ∀ n place, n < l.size → place < f.laneCount →
        image.bytes[n * f.laneCount + place]? = byteAt split place n) ∧
    (f.arrangement = .banked → ∃ image split, images = [image] ∧ image.bytes.size = l.size ∧
      f.asSplit.burn t l.withoutLane = .ok split ∧
      ∀ slice opcode step place, slice < l.count .flags → opcode < l.count .opcode →
        step < l.count .step → place < f.laneCount →
        ∃ n m, l.encode ⟨slice, opcode, step, place⟩ = .ok n ∧
          l.withoutLane.encode ⟨slice, opcode, step, 0⟩ = .ok m ∧
          image.bytes[n]? = byteAt split place m) ∧
    (∀ image ∈ images, ∀ b ∈ image.bytes, b.toNat < 2 ^ f.laneWidth) ∧
    ∀ target : Target, target.layout = l → target.format = f →
      (images.map fun image => image.bytes.size).sum = target.imageSize := by
  obtain ⟨hsuits, -, words, hwords, himages⟩ := burn_eq_ok f t l images h
  refine ⟨?_, burn_interleaved f t l images h, ?_, ?_, ?_⟩
  · intro harr
    refine ⟨by simp [himages, RomFormat.images, harr], ?_⟩
    intro place hplace
    obtain ⟨image, hget, hlane, hsize, hbytes⟩ := burn_split f t l images h harr place hplace
    refine ⟨image, _, hget, hlane, ?_, hsize, ?_⟩
    · unfold position
      cases f.order <;> rfl
    · intro n hn
      obtain ⟨a, w, ha, hw, hbyte⟩ := hbytes n hn
      refine ⟨a, w, _, ha, hw, hbyte, ?_⟩
      rw [toNat_laneByte f _ _ hsuits.laneWidth_le, Word.toNat_xor]
  · intro harr
    obtain ⟨image, split, himage, hsize, hsplit, hbytes⟩ := burn_banked f t l images h harr
    refine ⟨image, split, himage, hsize, hsplit, ?_⟩
    intro slice opcode step place hs ho ht hplace
    exact hbytes _ (fits_with_lane l ⟨slice, opcode, step, 0⟩ place hs ho ht
      ((hsuits.banked harr).2 ▸ hplace))
  · intro image himage b hb
    obtain ⟨v, lane, rfl⟩ := mem_images (himages ▸ himage) hb
    rw [toNat_laneByte f v lane hsuits.laneWidth_le]
    exact Nat.mod_lt _ (Nat.two_pow_pos _)
  · rintro target rfl rfl
    rw [himages, sum_size_images, size_stored _ _ _ words hwords, Target.imageSize]

/-- Two banks of five bits, the high one first, and the two images they are the same as. -/
theorem lanes_in_place_banked :
    ∃ (l : Layout) (t : Table) (image high low : RomImage),
      l.fields = [(.flags, 0), (.lane, 1), (.opcode, 1), (.step, 1)] ∧
      Table.new 1 2 { steps := 2, pad := Word.bit 7 } = .ok t ∧
      RomFormat.burn ⟨5, 2, .banked, .highFirst, Word.bit 3⟩ t l = .ok [image] ∧
      RomFormat.burn ⟨5, 2, .split, .highFirst, Word.bit 3⟩ t l.withoutLane = .ok [high, low] ∧
      image.bytes.size = 8 ∧ high.lane = some 1 ∧ low.lane = some 0 ∧
      image.bytes[6]? = low.bytes[2]? := by
  let l : Layout := ⟨[(.flags, 0), (.lane, 1), (.opcode, 1), (.step, 1)],
    ⟨by decide, by decide, by decide, by decide, by decide⟩⟩
  let f : RomFormat := ⟨5, 2, .banked, .highFirst, Word.bit 3⟩
  have hsuits : f.Suits l :=
    ⟨by decide, by decide, by decide, by decide, fun _ => by decide, fun h => absurd rfl h⟩
  obtain ⟨t, images, hnew, himages⟩ := exists_burn_new f l { steps := 2, pad := Word.bit 7 } hsuits
    (by decide) (by decide) (by decide)
  obtain ⟨-, -, hbanked, -, -⟩ := lanes_in_place f t l images himages
  obtain ⟨image, split, rfl, hsize, hsplit, hbytes⟩ := hbanked rfl
  obtain ⟨hlanes, -⟩ := lanes_in_place f.asSplit t l.withoutLane split hsplit
  obtain ⟨hlength, hplaces⟩ := hlanes rfl
  obtain ⟨high, low, rfl⟩ := List.length_eq_two.mp hlength
  obtain ⟨_, _, hfirst, hhigh, rfl, -⟩ := hplaces 0 (by decide)
  obtain ⟨_, _, hsecond, hlow, rfl, -⟩ := hplaces 1 (by decide)
  cases hfirst
  cases hsecond
  obtain ⟨n, m, hn, hm, hbyte⟩ :=
    hbytes 0 1 0 1 (by decide) (by decide) (by decide) (by decide)
  have henc : l.encode ⟨0, 1, 0, 1⟩ = .ok 6 := by decide
  have henc' : l.withoutLane.encode ⟨0, 1, 0, 0⟩ = .ok 2 := by decide
  cases hn.symm.trans henc
  cases hm.symm.trans henc'
  exact ⟨l, t, image, high, low, rfl, hnew, himages, hsplit, hsize, hhigh, hlow, hbyte⟩

end RomFormat

end ControlStore
