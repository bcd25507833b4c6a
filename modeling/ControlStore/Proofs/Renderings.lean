import ControlStore.Proofs.LaneNames
import ControlStore.Proofs.LogisimImage
import ControlStore.Proofs.ReadWidth

/-! What the files of a target say. Raw images are the bytes. The formats that put a byte on each
line write it with a fixed number of digits: two in hexadecimal, and in binary as many as a lane has
bits, since no byte of an image is wider than a lane. Whatever the format, the bytes are read back
from the file alone. -/

namespace ControlStore.FileFormat

open Text

/-- A line is a byte in a radix, with a number of digits that are in upper case. -/
structure Spells (radix width : Nat) (line : List Char) (b : UInt8) : Prop where
  length : line.length = width
  digits : ∀ c ∈ line, c ∈ "0123456789ABCDEF".toList.take radix
  value : digits? radix line = some b.toNat

/-- A file has one line for each byte, in order, and nothing else. -/
def BytePerLine (radix width : Nat) (contents : ByteArray) (bytes : Array UInt8) : Prop :=
  ∃ ls, contents = (String.ofList (ended ls)).toUTF8 ∧
    List.Forall₂ (Spells radix width) ls bytes.toList

theorem renderLines_eq (s : UInt8 → List Char) (bytes : Array UInt8) :
    renderLines (fun b => String.ofList (s b ++ ['\n'])) bytes =
      String.ofList (ended (bytes.toList.map s)) := by
  have hfold (l : List UInt8) (text : String) :
      l.foldl (fun text b => text ++ String.ofList (s b ++ ['\n'])) text =
        text ++ String.ofList (ended (l.map s)) := by
    induction l generalizing text with
    | nil => simp [ended]
    | cons b l ih =>
      rw [List.foldl_cons, ih, List.map_cons, ended_cons, String.append_assoc,
        ← String.ofList_append, List.append_assoc]
      rfl
  rw [renderLines, ← Array.foldl_toList, hfold, String.empty_append]

theorem spells_hex (b : UInt8) : Spells 16 2 ((padded 16 2 b.toNat).map Char.toUpper) b := by
  have hdigit : ∀ k : Fin 16, (Nat.digitChar k).toUpper ∈ "0123456789ABCDEF".toList := by decide
  have hvalue : ∀ k : Fin 16, digit? 16 (Nat.digitChar k).toUpper = some k.val := by decide
  have hb : b.toNat < 256 := b.toNat_lt
  have hhigh : b.toNat / 16 < 16 := by omega
  have hlow : b.toNat % 16 < 16 := by omega
  have hline : (padded 16 2 b.toNat).map Char.toUpper =
      [(b.toNat / 16).digitChar.toUpper, (b.toNat % 16).digitChar.toUpper] := by
    rw [Entry.padded_byte]
    rfl
  rw [hline]
  refine ⟨rfl, ?_, ?_⟩
  · exact List.forall_mem_cons.mpr
      ⟨hdigit ⟨_, hhigh⟩, List.forall_mem_singleton.mpr (hdigit ⟨_, hlow⟩)⟩
  · have hdigits : digits? 16
        [(b.toNat / 16).digitChar.toUpper, (b.toNat % 16).digitChar.toUpper] =
          some ((0 * 16 + b.toNat / 16) * 16 + b.toNat % 16) := by
      simp [digits?, hvalue ⟨_, hhigh⟩, hvalue ⟨_, hlow⟩]
    rw [hdigits, Nat.zero_mul, Nat.zero_add, Nat.div_add_mod']

theorem spells_binary {width : Nat} (hw : 0 < width) {b : UInt8} (hb : b.toNat < 2 ^ width) :
    Spells 2 width (padded 2 width b.toNat) b := by
  have hdigit : ∀ k : Fin 2, Nat.digitChar k ∈ "0123456789ABCDEF".toList.take 2 := by decide
  refine ⟨length_padded (by decide) hw hb, ?_, digits?_padded (by decide) (by decide) width b.toNat⟩
  intro c hc
  obtain ⟨d, hd, rfl⟩ := mem_padded (by decide) hc
  exact hdigit ⟨d, hd⟩

/-- The bytes of lines that are numbers in a radix. -/
def readLines? (radix : Nat) (s : List Char) : Option (List UInt8) :=
  (lines (· == '\n') s).mapM fun line => UInt8.ofNat <$> digits? radix line

/-- The bytes in a file, which is read on its own. -/
def read? (f : FileFormat) (contents : ByteArray) : Option (List UInt8) :=
  match f with
  | binary => some contents.data.toList
  | hex => do readLines? 16 (← String.fromUTF8? contents).toList
  | logisim => do readImage? (← String.fromUTF8? contents).toList
  | logix => do readLines? 2 (← String.fromUTF8? contents).toList

theorem fromUTF8?_toUTF8 (s : String) : String.fromUTF8? s.toUTF8 = some s :=
  dif_pos s.isValidUTF8

theorem Spells.newline_not_mem {radix width : Nat} {line : List Char} {b : UInt8}
    (h : Spells radix width line b) : '\n' ∉ line := by
  intro hmem
  have hdigit := List.mem_of_mem_take (h.digits _ hmem)
  exact absurd hdigit (by decide)

theorem mapM_digits? {radix width : Nat} {ls : List (List Char)} {l : List UInt8}
    (h : List.Forall₂ (Spells radix width) ls l) :
    ls.mapM (fun line => UInt8.ofNat <$> digits? radix line) = some l := by
  induction h with
  | nil => rfl
  | cons hline _ ih =>
    rw [List.mapM_cons, hline.value, ih]
    simp

theorem readLines?_ended {radix width : Nat} {ls : List (List Char)} {l : List UInt8}
    (h : List.Forall₂ (Spells radix width) ls l) : readLines? radix (ended ls) = some l := by
  have hended : List.Forall₂ (fun line b => '\n' ∉ line ∧ Spells radix width line b) ls l :=
    h.imp fun _ _ hline => ⟨hline.newline_not_mem, hline⟩
  have hlines : lines (· == '\n') (ended ls) = ls :=
    lines_flatten '\n' rfl ls fun line hline =>
      eq_char_eq_false (((List.forall₂_and_left _ _).mp hended).1 line hline)
  rw [readLines?, hlines, mapM_digits? h]

theorem readImage?_logisimText (bytes : Array UInt8) :
    readImage? (logisimText bytes).toList = some bytes.toList := by
  obtain ⟨l⟩ := bytes
  obtain ⟨ls, hentries, hfilled, htext⟩ := exists_lines l
  rw [htext, readImage?_ended hfilled, hentries, Entry.bytes_ofRuns, (runs_spec l).2]

theorem BytePerLine.read {radix width : Nat} {contents : ByteArray} {bytes : Array UInt8}
    (h : BytePerLine radix width contents bytes) :
    (String.fromUTF8? contents).bind (fun text => readLines? radix text.toList) =
      some bytes.toList := by
  obtain ⟨ls, rfl, hls⟩ := h
  rw [fromUTF8?_toUTF8, Option.bind_some, String.toList_ofList, readLines?_ended hls]

theorem render_hex (width : Nat) (bytes : Array UInt8) :
    BytePerLine 16 2 (hex.render width bytes) bytes := by
  refine ⟨_, congrArg String.toUTF8 (renderLines_eq _ bytes), ?_⟩
  rw [List.forall₂_map_left_iff, List.forall₂_same]
  exact fun b _ => spells_hex b

theorem render_logix {width : Nat} (hw : 0 < width) {bytes : Array UInt8}
    (hbytes : ∀ b ∈ bytes, b.toNat < 2 ^ width) :
    BytePerLine 2 width (logix.render width bytes) bytes := by
  refine ⟨_, congrArg String.toUTF8 (renderLines_eq _ bytes), ?_⟩
  rw [List.forall₂_map_left_iff, List.forall₂_same]
  exact fun b hb => spells_binary hw (hbytes b (Array.mem_toList_iff.mp hb))

theorem read?_render {width : Nat} (hw : 0 < width) {bytes : Array UInt8}
    (hbytes : ∀ b ∈ bytes, b.toNat < 2 ^ width) (f : FileFormat) :
    f.read? (f.render width bytes) = some bytes.toList := by
  cases f with
  | binary => rfl
  | hex => exact (render_hex width bytes).read
  | logisim =>
    show (String.fromUTF8? (logisimText bytes).toUTF8).bind _ = _
    rw [fromUTF8?_toUTF8, Option.bind_some, readImage?_logisimText]
  | logix => exact (render_logix hw hbytes).read

end ControlStore.FileFormat

namespace ControlStore.Target

open FileFormat

variable {t : Target} {images : List RomImage}

theorem contents_render (t : Target) (images : List RomImage) (f : FileFormat) :
    (t.render images f).map Prod.snd =
      images.map fun image => f.render t.format.laneWidth image.bytes := by
  rw [render_eq_zip, List.map_snd_zip (by simp [fileNames])]

/-- What holds of every rendered image holds of the files. -/
theorem forall₂_render {f : FileFormat} {P : ByteArray → RomImage → Prop}
    (h : ∀ image ∈ images, P (f.render t.format.laneWidth image.bytes) image) :
    List.Forall₂ (fun file image => P file.2 image) (t.render images f) images := by
  have hcontents : List.Forall₂ P ((t.render images f).map Prod.snd) images := by
    rw [contents_render, List.forall₂_map_left_iff, List.forall₂_same]
    exact h
  exact List.forall₂_map_left_iff.mp hcontents

/-- No byte is wider than a lane. -/
theorem byte_lt (h : t.images = .ok images) {image : RomImage} (himage : image ∈ images)
    {b : UInt8} (hb : b ∈ image.bytes) : b.toNat < 2 ^ t.format.laneWidth := by
  obtain ⟨hsuits, -, words, -, rfl⟩ := RomFormat.burn_eq_ok _ _ _ _ h
  obtain ⟨v, lane, rfl⟩ := RomFormat.mem_images himage hb
  rw [RomFormat.toNat_laneByte _ v lane hsuits.laneWidth_le]
  exact Nat.mod_lt _ (Nat.two_pow_pos _)

theorem forall₂_read? (h : t.images = .ok images) (f : FileFormat) :
    List.Forall₂ (fun file image => f.read? file.2 = some image.bytes.toList)
      (t.render images f) images := by
  refine forall₂_render (P := fun contents image => f.read? contents = some image.bytes.toList) ?_
  intro image himage
  exact read?_render (laneWidth_pos h) (fun b hb => byte_lt h himage hb) f

/-- The files give back the images in their order. Raw files are the bytes, hexadecimal files have
a line of two digits for each byte and binary ones a line with a digit for each bit of a lane; and
in every format equal files, of whatever targets, come from equal bytes. -/
theorem files_give_back_images (t : Target) (images : List RomImage) (h : t.images = .ok images) :
    List.Forall₂ (fun file image => file.2 = ⟨image.bytes⟩) (t.render images .binary) images ∧
    List.Forall₂ (fun file image => BytePerLine 16 2 file.2 image.bytes)
      (t.render images .hex) images ∧
    List.Forall₂ (fun file image => BytePerLine 2 t.format.laneWidth file.2 image.bytes)
      (t.render images .logix) images ∧
    ∀ f : FileFormat,
      List.Forall₂ (fun file image => f.read? file.2 = some image.bytes.toList)
        (t.render images f) images ∧
      ∀ (other : Target) (images' : List RomImage), other.images = .ok images' →
        ∀ p ∈ (t.render images f).zip images, ∀ q ∈ (other.render images' f).zip images',
          p.1.2 = q.1.2 → p.2.bytes = q.2.bytes := by
  refine ⟨?_, ?_, ?_, fun f => ⟨forall₂_read? h f, ?_⟩⟩
  · exact forall₂_render (P := fun contents image => contents = ⟨image.bytes⟩) fun _ _ => rfl
  · exact forall₂_render (P := fun contents image => BytePerLine 16 2 contents image.bytes)
      fun image _ => render_hex t.format.laneWidth image.bytes
  · refine forall₂_render
      (P := fun contents image => BytePerLine 2 t.format.laneWidth contents image.bytes) ?_
    intro image himage
    exact render_logix (laneWidth_pos h) fun b hb => byte_lt h himage hb
  · -- Equal files are read as the same bytes.
    intro other images' h' p hp q hq hsame
    have hread := (List.forall₂_iff_zip.mp (forall₂_read? h f)).2 hp
    have hread' := (List.forall₂_iff_zip.mp (forall₂_read? h' f)).2 hq
    rw [hsame, hread'] at hread
    exact (Array.toList_inj.mp (Option.some.inj hread)).symm

/-- Two lanes of three bits in one image, the high one first, of a word that has bit 4 alone. -/
theorem files_give_back_images_highFirst : ∃ (t : Target) (images : List RomImage),
    t.format = ⟨3, 2, .interleaved, .highFirst, Word.bit 4⟩ ∧ t.images = .ok images ∧
    images = [⟨none, #[2, 0]⟩] ∧
    List.Forall₂ (fun file image => BytePerLine 2 3 file.2 image.bytes)
      (t.render images .logix) images ∧
    List.Forall₂ (fun file image => logisim.read? file.2 = some image.bytes.toList)
      (t.render images .logisim) images := by
  have hburn : (Table.new 1 1 { steps := 1 } >>= fun table =>
      RomFormat.burn ⟨3, 2, .interleaved, .highFirst, Word.bit 4⟩ table Table.singleAddress) =
        .ok [⟨none, #[2, 0]⟩] := by
    decide +kernel
  obtain ⟨table, -, himages⟩ := bind_eq_ok.mp hburn
  let t : Target :=
    ⟨"", {}, ⟨0, []⟩, Table.singleAddress, table, ⟨3, 2, .interleaved, .highFirst, Word.bit 4⟩,
      "rom.bin"⟩
  obtain ⟨-, -, hlogix, hfiles⟩ := files_give_back_images t _ himages
  exact ⟨t, _, rfl, himages, rfl, hlogix, (hfiles .logisim).1⟩

/-- The digits are as many as the lane has bits, also for small bytes. -/
example : logix.render 4 #[5, 1] = "0101\n0001\n".toUTF8 := by decide +kernel

end ControlStore.Target
