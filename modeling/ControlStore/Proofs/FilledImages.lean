import ControlStore.Proofs.Arrangements

/-! Images that are filled byte by byte. They begin blank, each with the label that belongs to its
place, and every lane of every address is then written at the place of the lane. What comes out are
the images of a table, since lanes and places change into each other the same way. -/

namespace ControlStore.RomFormat

/-- Images for some number of addresses, with nothing written to them. -/
def blank (f : RomFormat) (addresses : Nat) : List RomImage :=
  match f.arrangement with
  | .interleaved => [{ lane := none, bytes := Array.replicate (addresses * f.laneCount) 0 }]
  | .split => (List.range f.laneCount).map fun place =>
      { lane := some (f.position place), bytes := Array.replicate addresses 0 }
  | .banked => [{ lane := none, bytes := Array.replicate addresses 0 }]

/-- Writes a byte to one of several images. -/
def writeByte (images : List RomImage) (place n : Nat) (b : UInt8) : List RomImage :=
  images.modify place fun image => { image with bytes := image.bytes.setIfInBounds n b }

/-- Writes all that an address has. -/
def fillAddress (f : RomFormat) (images : List RomImage) (n : Nat) (w : Word × Nat) :
    List RomImage :=
  match f.arrangement with
  | .interleaved => (List.range f.laneCount).foldl (fun images lane =>
      writeByte images 0 (n * f.laneCount + f.position lane) (f.laneByte w.1 lane)) images
  | .split => (List.range f.laneCount).foldl (fun images lane =>
      writeByte images (f.position lane) n (f.laneByte w.1 lane)) images
  | .banked => writeByte images 0 n (f.laneByte w.1 (f.position w.2))

/-- The stored word of an address, and its bank. -/
def fetch (f : RomFormat) (t : Table) (l : Layout) (n : Nat) : Except Error (Word × Nat) := do
  let a ← l.decode n
  let w ← t.word a.slice a.opcode a.step
  return (w ^^^ f.activeLow, a.lane)

/-- The images of a table, address by address. -/
def burnInPlace (f : RomFormat) (t : Table) (l : Layout) : Except Error (List RomImage) := do
  f.check l
  if f.capacity < f.requiredWidth t then throw (.wordOverflow (f.requiredWidth t) f.capacity)
  (List.range l.size).foldlM (fun images n => do
    let w ← f.fetch t l n
    return f.fillAddress images n w) (f.blank l.size)

/-- The bytes that an address has, each with its image and its place there. -/
def bytesOf (f : RomFormat) (n : Nat) (w : Word × Nat) : List (Nat × Nat × UInt8) :=
  match f.arrangement with
  | .interleaved => (List.range f.laneCount).map fun lane =>
      (0, n * f.laneCount + f.position lane, f.laneByte w.1 lane)
  | .split => (List.range f.laneCount).map fun lane => (f.position lane, n, f.laneByte w.1 lane)
  | .banked => [(0, n, f.laneByte w.1 (f.position w.2))]

/-- The bytes that some words have, one address after the other. -/
def bytesOfAll (f : RomFormat) (words : List (Word × Nat)) : List (Nat × Nat × UInt8) :=
  words.zipIdx.flatMap fun p => f.bytesOf p.2 p.1

def writeAll (images : List RomImage) (bytes : List (Nat × Nat × UInt8)) : List RomImage :=
  bytes.foldl (fun images p => writeByte images p.1 p.2.1 p.2.2) images

theorem fillAddress_eq (f : RomFormat) (images : List RomImage) (n : Nat) (w : Word × Nat) :
    f.fillAddress images n w = writeAll images (f.bytesOf n w) := by
  unfold fillAddress bytesOf writeAll
  cases f.arrangement with
  | interleaved =>
    dsimp only
    rw [List.foldl_map]
  | split =>
    dsimp only
    rw [List.foldl_map]
  | banked => rfl

theorem foldl_fillAddress (f : RomFormat) (images : List RomImage) (words : List (Word × Nat)) :
    words.zipIdx.foldl (fun images p => f.fillAddress images p.2 p.1) images =
      writeAll images (f.bytesOfAll words) := by
  rw [writeAll, bytesOfAll, List.foldl_flatMap]
  simp only [fillAddress_eq]
  rfl

theorem byteAt_writeByte (images : List RomImage) (place n : Nat) (b : UInt8) (place' n' : Nat) :
    byteAt (writeByte images place n b) place' n' =
      if place = place' ∧ n = n' ∧ (byteAt images place' n').isSome then some b
      else byteAt images place' n' := by
  rw [byteAt, writeByte, List.getElem?_modify, byteAt]
  by_cases hplace : place = place'
  · subst hplace
    cases images[place]? with
    | none => simp
    | some image =>
      simp only [if_true, Option.map_eq_map, Option.map_some, Option.bind_some, true_and]
      rw [Array.getElem?_setIfInBounds]
      by_cases hn : n = n'
      · subst hn
        by_cases hsize : n < image.bytes.size <;> simp [hsize]
      · simp [hn]
  · simp [hplace]

/-- Writing keeps the labels and the sizes of images. -/
def shape (image : RomImage) : Option Nat × Nat := (image.lane, image.bytes.size)

theorem map_shape_writeAll (images : List RomImage) (bytes : List (Nat × Nat × UInt8)) :
    (writeAll images bytes).map shape = images.map shape := by
  induction bytes generalizing images with
  | nil => rfl
  | cons p rest ih =>
    refine (ih (writeByte images p.1 p.2.1 p.2.2)).trans ?_
    apply List.ext_getElem?
    intro place
    rw [List.getElem?_map, List.getElem?_map, writeByte, List.getElem?_modify]
    cases images[place]? with
    | none => rfl
    | some image => by_cases h : p.1 = place <;> simp [h, shape]

/-- A byte that is written, and never as another byte, is there in the end. -/
theorem byteAt_writeAll {images : List RomImage} {bytes : List (Nat × Nat × UInt8)}
    {place n : Nat} {b : UInt8} (hcell : (byteAt images place n).isSome)
    (hsame : ∀ b', (place, n, b') ∈ bytes → b' = b)
    (hwritten : (place, n, b) ∈ bytes ∨ byteAt images place n = some b) :
    byteAt (writeAll images bytes) place n = some b := by
  induction bytes generalizing images with
  | nil => exact hwritten.resolve_left List.not_mem_nil
  | cons p rest ih =>
    obtain ⟨place', n', b'⟩ := p
    have hnext := byteAt_writeByte images place' n' b' place n
    refine ih ?_ (fun b' hb' => hsame b' (List.mem_cons_of_mem _ hb')) ?_
    · rw [hnext]
      split
      · rfl
      · exact hcell
    · by_cases hhere : place' = place ∧ n' = n
      · obtain ⟨rfl, rfl⟩ := hhere
        rw [hnext, if_pos ⟨rfl, rfl, hcell⟩, hsame b' List.mem_cons_self]
        exact .inr rfl
      · rw [hnext, if_neg fun h => hhere ⟨h.1, h.2.1⟩]
        refine hwritten.imp_left fun hmem => (List.mem_cons.mp hmem).resolve_left ?_
        rintro ⟨⟩
        exact hhere ⟨rfl, rfl⟩

theorem isSome_byteAt_iff (images : List RomImage) (place n : Nat) :
    (byteAt images place n).isSome ↔ ∃ p, (images.map shape)[place]? = some p ∧ n < p.2 := by
  rw [byteAt, List.getElem?_map]
  cases images[place]? with
  | none => simp
  | some image => simp [shape]

/-- Images of one shape are the same if all bytes of the one are those of the other. -/
theorem eq_of_byteAt {images images' : List RomImage}
    (hshape : images.map shape = images'.map shape)
    (hbytes : ∀ place n b, byteAt images' place n = some b → byteAt images place n = some b) :
    images = images' := by
  apply List.ext_getElem?
  intro place
  have hplace : images[place]?.map shape = images'[place]?.map shape := by
    rw [← List.getElem?_map, ← List.getElem?_map, hshape]
  cases h' : images'[place]? with
  | none =>
    rw [h'] at hplace
    exact Option.map_eq_none_iff.mp hplace
  | some image' =>
    rw [h'] at hplace
    obtain ⟨image, h, hsame⟩ := Option.map_eq_some_iff.mp hplace
    obtain ⟨hlane, hsize⟩ := Prod.ext_iff.mp hsame
    rw [h]
    have heq : image.bytes = image'.bytes := by
      refine Array.ext hsize fun n hn hn' => ?_
      have hb : byteAt images place n = some image'.bytes[n] := by
        refine hbytes place n _ ?_
        rw [byteAt, h', Option.bind_some, Array.getElem?_eq_getElem hn']
      rw [byteAt, h, Option.bind_some] at hb
      exact Array.getElem_eq_iff.mpr hb
    obtain ⟨lane, bytes⟩ := image
    obtain ⟨lane', bytes'⟩ := image'
    cases hlane
    cases heq
    rfl

theorem map_shape_images (f : RomFormat) (words : Array (Word × Nat)) :
    (f.images words).map shape = (f.blank words.size).map shape := by
  unfold images blank
  cases f.arrangement with
  | interleaved =>
    simp only [List.map_cons, List.map_nil, shape, size_interleaved, List.size_toArray,
      List.length_map, List.length_range, Array.size_replicate]
  | split => simp [shape]
  | banked => simp [shape]

theorem mem_bytesOfAll (f : RomFormat) (words : List (Word × Nat)) (p : Nat × Nat × UInt8) :
    p ∈ f.bytesOfAll words ↔ ∃ n w, words[n]? = some w ∧ p ∈ f.bytesOf n w := by
  rw [bytesOfAll, List.mem_flatMap]
  constructor
  · rintro ⟨⟨w, n⟩, hw, hp⟩
    exact ⟨n, w, List.mem_zipIdx_iff_getElem?.mp hw, hp⟩
  · rintro ⟨n, w, hw, hp⟩
    exact ⟨(w, n), List.mem_zipIdx_iff_getElem?.mpr hw, hp⟩

theorem mem_bytesOf_interleaved (f : RomFormat) (harr : f.arrangement = .interleaved) (n : Nat)
    (w : Word × Nat) {lane : Nat} (hlane : lane < f.laneCount) :
    (0, n * f.laneCount + f.position lane, f.laneByte w.1 lane) ∈ f.bytesOf n w := by
  rw [bytesOf, harr]
  exact List.mem_map.mpr ⟨lane, List.mem_range.mpr hlane, rfl⟩

theorem mem_bytesOf_split (f : RomFormat) (harr : f.arrangement = .split) (n : Nat)
    (w : Word × Nat) {lane : Nat} (hlane : lane < f.laneCount) :
    (f.position lane, n, f.laneByte w.1 lane) ∈ f.bytesOf n w := by
  rw [bytesOf, harr]
  exact List.mem_map.mpr ⟨lane, List.mem_range.mpr hlane, rfl⟩

theorem mem_bytesOf_banked (f : RomFormat) (harr : f.arrangement = .banked) (n : Nat)
    (w : Word × Nat) : (0, n, f.laneByte w.1 (f.position w.2)) ∈ f.bytesOf n w := by
  rw [bytesOf, harr]
  exact List.mem_singleton.mpr rfl

/-- A byte that is written is that of the images. -/
theorem byteAt_of_mem (f : RomFormat) (words : Array (Word × Nat)) {place n : Nat} {b : UInt8}
    (h : (place, n, b) ∈ f.bytesOfAll words.toList) : byteAt (f.images words) place n = some b := by
  obtain ⟨m, w, hw, hmem⟩ := (f.mem_bytesOfAll words.toList (place, n, b)).mp h
  rw [Array.getElem?_toList] at hw
  unfold bytesOf at hmem
  cases harr : f.arrangement with
  | interleaved =>
    rw [harr] at hmem
    obtain ⟨lane, hlane, heq⟩ := List.mem_map.mp hmem
    cases heq
    rw [byteAt, ← List.head?_eq_getElem?]
    exact f.interleaved_byte harr words m w.2 lane w.1 hw (List.mem_range.mp hlane)
  | split =>
    rw [harr] at hmem
    obtain ⟨lane, hlane, heq⟩ := List.mem_map.mp hmem
    cases heq
    exact f.split_byte harr words n w.2 lane w.1 hw (List.mem_range.mp hlane)
  | banked =>
    rw [harr] at hmem
    cases List.mem_singleton.mp hmem
    rw [byteAt, images, harr]
    show (words.map fun w => f.laneByte w.1 (f.position w.2))[n]? = _
    rw [Array.getElem?_map, hw, Option.map_some]

/-- Every byte of the images is written: the lane at a place is the one whose place it is. -/
theorem exists_mem_of_isSome (f : RomFormat) (words : Array (Word × Nat)) {place n : Nat}
    (h : (byteAt (f.images words) place n).isSome) :
    ∃ b, (place, n, b) ∈ f.bytesOfAll words.toList := by
  rw [isSome_byteAt_iff, map_shape_images] at h
  obtain ⟨p, hp, hn⟩ := h
  have hwritten {m : Nat} (hm : m < words.size) {b : UInt8}
      (hmem : (place, n, b) ∈ f.bytesOf m words[m]) :
      ∃ b, (place, n, b) ∈ f.bytesOfAll words.toList := by
    refine ⟨b, (f.mem_bytesOfAll words.toList _).mpr ⟨m, words[m], ?_, hmem⟩⟩
    rw [Array.getElem?_toList, Array.getElem?_eq_getElem hm]
  cases harr : f.arrangement with
  | interleaved =>
    rw [blank, harr] at hp
    obtain ⟨rfl, rfl⟩ : place = 0 ∧ p = (none, words.size * f.laneCount) := by
      simpa [shape, List.getElem?_singleton, eq_comm] using hp
    have hlanes : 0 < f.laneCount := Nat.pos_of_ne_zero fun h => by simp [h] at hn
    have hplace := Nat.mod_lt n hlanes
    have haddress : n / f.laneCount < words.size := (Nat.div_lt_iff_lt_mul hlanes).mpr hn
    have hmem := f.mem_bytesOf_interleaved harr (n / f.laneCount) words[n / f.laneCount]
      (f.position_lt _ hplace)
    rw [f.position_position _ hplace, Nat.div_add_mod'] at hmem
    exact hwritten haddress hmem
  | split =>
    rw [blank, harr] at hp
    obtain ⟨hplace, rfl⟩ : place < f.laneCount ∧ p = (some (f.position place), words.size) := by
      rw [List.getElem?_map, List.getElem?_map] at hp
      by_cases hplace : place < f.laneCount
      · rw [List.getElem?_range hplace] at hp
        simpa [shape, hplace, eq_comm] using hp
      · rw [List.getElem?_eq_none (by simpa using hplace)] at hp
        cases hp
    have hmem := f.mem_bytesOf_split harr n words[n] (f.position_lt _ hplace)
    rw [f.position_position _ hplace] at hmem
    exact hwritten hn hmem
  | banked =>
    rw [blank, harr] at hp
    obtain ⟨rfl, rfl⟩ : place = 0 ∧ p = (none, words.size) := by
      simpa [shape, List.getElem?_singleton, eq_comm] using hp
    exact hwritten hn (f.mem_bytesOf_banked harr n words[n])

/-- What is written to blank images makes them the images of the words. -/
theorem writeAll_blank (f : RomFormat) (words : Array (Word × Nat)) :
    writeAll (f.blank words.size) (f.bytesOfAll words.toList) = f.images words := by
  have hshape : (writeAll (f.blank words.size) (f.bytesOfAll words.toList)).map shape =
      (f.images words).map shape := by
    rw [map_shape_writeAll, map_shape_images]
  refine eq_of_byteAt hshape fun place n b hb => ?_
  have hsome : (byteAt (f.images words) place n).isSome := by
    rw [hb]
    rfl
  have hsame (b' : UInt8) (hb' : (place, n, b') ∈ f.bytesOfAll words.toList) : b' = b := by
    have hbyte := f.byteAt_of_mem words hb'
    rw [hb] at hbyte
    exact (Option.some.inj hbyte).symm
  obtain ⟨b', hb'⟩ := f.exists_mem_of_isSome words hsome
  refine byteAt_writeAll ?_ hsame (.inl (hsame b' hb' ▸ hb'))
  rw [isSome_byteAt_iff, ← map_shape_images, ← isSome_byteAt_iff]
  exact hsome

/-- A loop over numbers that fetches a word for each is a loop over the words and their numbers. -/
theorem foldlM_range' {ε α β : Type} (fetch : Nat → Except ε α) (fill : β → Nat → α → β)
    (start size : Nat) (b : β) :
    (List.range' start size).foldlM (fun b n => do
        let a ← fetch n
        return fill b n a) b =
      ((List.range' start size).mapM fetch).map fun as =>
        (as.zipIdx start).foldl (fun b p => fill b p.2 p.1) b := by
  induction size generalizing start b with
  | zero => rfl
  | succ size ih =>
    rw [List.range'_succ, List.foldlM_cons, List.mapM_cons]
    cases fetch start with
    | error e => rfl
    | ok a =>
      refine (ih (start + 1) (fill b start a)).trans ?_
      show _ = Except.map _ ((List.range' (start + 1) size).mapM fetch >>= fun as => pure (a :: as))
      cases (List.range' (start + 1) size).mapM fetch <;> rfl

theorem stored_eq (f : RomFormat) (t : Table) (l : Layout) :
    f.stored t l = ((List.range l.size).mapM (f.fetch t l)).map List.toArray := by
  have hfetch : (List.range l.size).mapM (f.fetch t l) =
      (List.range l.size).mapM fun n => do
        let a := (Layout.digits l.radices n).1
        let w ← t.word a.slice a.opcode a.step
        return (w ^^^ f.activeLow, a.lane) := by
    refine (congrArg (·.mapM (f.fetch t l)) (List.map_id (List.range l.size)).symm).trans ?_
    refine mapM_map_congr (List.range l.size) fun n hn => ?_
    rw [id, fetch, l.decode_of_lt n (List.mem_range.mp hn)]
    rfl
  rw [hfetch, stored, Array.mapM_eq_mapM_toList, Array.toList_range]
  rfl

/-- Filling images byte by byte burns the table: the labels, the bytes and the errors are the
same. -/
theorem burn_eq_burnInPlace (f : RomFormat) (t : Table) (l : Layout) :
    f.burn t l = f.burnInPlace t l := by
  have hloop : (List.range l.size).foldlM (fun images n => do
        let w ← f.fetch t l n
        return f.fillAddress images n w) (f.blank l.size) =
      (f.stored t l).map f.images := by
    rw [stored_eq, List.range_eq_range', foldlM_range' (f.fetch t l) f.fillAddress]
    cases hwords : (List.range' 0 l.size).mapM (f.fetch t l) with
    | error e => rfl
    | ok words =>
      have hsize : words.toArray.size = l.size := by
        rw [List.size_toArray, mapM_ok_length _ _ words hwords, List.length_range']
      refine congrArg Except.ok ((f.foldl_fillAddress (f.blank l.size) words).trans ?_)
      rw [← hsize]
      exact f.writeAll_blank words.toArray
  rw [burn, burnInPlace, hloop]
  cases f.check l with
  | error e => rfl
  | ok _ =>
    show (if f.capacity < f.requiredWidth t then _ else _) =
      if f.capacity < f.requiredWidth t then _ else _
    refine if_congr Iff.rfl rfl ?_
    cases f.stored t l <;> rfl

end ControlStore.RomFormat
