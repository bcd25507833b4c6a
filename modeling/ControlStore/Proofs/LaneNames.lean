import ControlStore.Proofs.Arrangements
import ControlStore.Proofs.Replacement

/-! The names of the files that hold one lane each. A pattern gives every lane a name of its own. A
text format puts its extension in place of the one a name has, and so the lanes keep names of their
own unless the pattern has its placeholders in the extension alone. -/

namespace ControlStore.Text

theorem cutLast_append {c : Char} (a : List Char) {b : List Char} (hb : c ∉ b) :
    cutLast c (a ++ c :: b) = some (a, c :: b) := by
  have hreverse : (a ++ c :: b).reverse = b.reverse ++ c :: a.reverse := by simp
  have hnot : ∀ x ∈ b.reverse, (x != c) = true := by
    intro x hx
    rw [bne, eq_char_eq_false hb x (List.mem_reverse.mp hx)]
    rfl
  have htake : (a ++ c :: b).reverse.takeWhile (· != c) = b.reverse := by
    rw [hreverse, List.takeWhile_append_of_pos hnot]
    simp
  have hdrop : (a ++ c :: b).reverse.dropWhile (· != c) = c :: a.reverse := by
    rw [hreverse, List.dropWhile_append_of_pos hnot]
    simp
  rw [cutLast, htake, hdrop]
  simp

theorem cutLast_of_not_mem {c : Char} {s : List Char} (h : c ∉ s) : cutLast c s = none := by
  have hdrop : s.reverse.dropWhile (· != c) = [] := by
    rw [List.dropWhile_eq_nil_iff]
    intro x hx
    rw [bne, eq_char_eq_false h x (List.mem_reverse.mp hx)]
    rfl
  rw [cutLast, hdrop]

theorem exists_last {c : Char} {s : List Char} (h : c ∈ s) : ∃ a b, s = a ++ c :: b ∧ c ∉ b := by
  obtain ⟨b, a, hs, hb⟩ := List.eq_append_cons_of_mem (List.mem_reverse.mpr h)
  refine ⟨a.reverse, b.reverse, ?_, ?_⟩
  · rw [← List.reverse_reverse s, hs]
    simp
  · simpa using hb

theorem utf8ByteSize_cons (c : Char) (r : List Char) :
    (String.ofList (c :: r)).utf8ByteSize = c.utf8Size + (String.ofList r).utf8ByteSize := by
  have happend : String.ofList (c :: r) = String.singleton c ++ String.ofList r := by simp
  rw [happend, String.utf8ByteSize_append, String.utf8ByteSize_singleton]

theorem utf8ByteSize_reverse (s : List Char) :
    (String.ofList s.reverse).utf8ByteSize = (String.ofList s).utf8ByteSize := by
  induction s with
  | nil => rfl
  | cons c r ih =>
    rw [List.reverse_cons, String.ofList_append, String.utf8ByteSize_append, ih, utf8ByteSize_cons,
      utf8ByteSize_cons, Nat.add_comm]
    rfl

/-- As many bytes as a text has are the text. -/
theorem dropBytes_append (a r : List Char) :
    dropBytes (String.ofList a).utf8ByteSize (a ++ r) = r := by
  induction a with
  | nil => cases r <;> simp [dropBytes]
  | cons c a ih =>
    have hpos : c.utf8Size + (String.ofList a).utf8ByteSize ≠ 0 := by
      have := c.utf8Size_pos
      omega
    rw [List.cons_append, utf8ByteSize_cons, dropBytes, if_neg hpos, Nat.add_sub_cancel_left, ih]

theorem dropBytesRight_append (r a : List Char) :
    dropBytesRight (String.ofList a).utf8ByteSize (r ++ a) = r := by
  rw [dropBytesRight, List.reverse_append, ← utf8ByteSize_reverse, dropBytes_append,
    List.reverse_reverse]

end ControlStore.Text

namespace ControlStore.Path

open Text

/-- A name is a path with one component if it has no slash and not only dots. -/
theorem fileName?_of_plain {s : List Char} (hslash : '/' ∉ s) (hplain : ∃ c ∈ s, c ≠ '.') :
    fileName? s = some s := by
  obtain ⟨c, hc, hne⟩ := hplain
  have hnil : s.isEmpty = false := by
    rw [List.isEmpty_eq_false_iff]
    exact List.ne_nil_of_mem hc
  have hdot : (s != ['.']) = true := by
    rw [bne_iff_ne]
    rintro rfl
    exact hne (List.mem_singleton.mp hc)
  have hdots : (s != ['.', '.']) = true := by
    rw [bne_iff_ne]
    rintro rfl
    simp at hc
    exact hne hc
  simp [fileName?, components, parts, splitOn_of_not_mem '/' s hslash, hnil, hdot, hdots]

/-- Without a dot that ends a stem, a name gets the extension added. -/
theorem withExtension_of_no_stem {s : List Char} (hslash : '/' ∉ s) (hplain : ∃ c ∈ s, c ≠ '.')
    (hstem : '.' ∉ s ∨ ∃ b, s = '.' :: b ∧ '.' ∉ b) (e : List Char) :
    withExtension s e = s ++ '.' :: e := by
  have hnone : extension? s = none := by
    rw [extension?, fileName?_of_plain hslash hplain]
    rcases hstem with h | ⟨b, rfl, hb⟩
    · simp [cutLast_of_not_mem h]
    · have hcut : cutLast '.' ('.' :: b) = some ([], '.' :: b) := cutLast_append [] hb
      simp [hcut]
  rw [withExtension, hnone]

/-- What follows the last dot gives way to the extension. -/
theorem withExtension_append {a b : List Char} (hslash : '/' ∉ a ++ '.' :: b)
    (hplain : ∃ c ∈ a ++ '.' :: b, c ≠ '.') (ha : a ≠ []) (hb : '.' ∉ b) (e : List Char) :
    withExtension (a ++ '.' :: b) e = a ++ '.' :: e := by
  have hsome : extension? (a ++ '.' :: b) = some b := by
    rw [extension?, fileName?_of_plain hslash hplain]
    simp [cutLast_append a hb, ha]
  have hdrop : dropBytesRight (String.ofList b).utf8ByteSize (a ++ '.' :: b) = a ++ ['.'] := by
    rw [List.append_cons, dropBytesRight_append]
  rw [withExtension, hsome]
  dsimp only
  rw [hdrop, List.append_assoc]
  rfl

end ControlStore.Path

namespace ControlStore.Target

open Text

def placeholders : List (List Char) := [lanePlaceholder, lowPlaceholder, highPlaceholder]

def hasPlaceholder (s : List Char) : Bool := placeholders.any fun p => occurs p s

/-- The text with the numbers of a lane in place of the placeholders. -/
def filled (width lane : Nat) (s : List Char) : List Char :=
  replaceAll highPlaceholder (Nat.toDigits 10 (lane * width + width - 1))
    (replaceAll lowPlaceholder (Nat.toDigits 10 (lane * width))
      (replaceAll lanePlaceholder (Nat.toDigits 10 lane) s))

/-- The text with the number of a lane after an underscore, before the last dot if there is one. -/
def numbered (lane : Nat) (s : List Char) : List Char :=
  match cutLast '.' s with
  | some (before, after) => before ++ '_' :: Nat.toDigits 10 lane ++ after
  | none => s ++ '_' :: Nat.toDigits 10 lane

theorem laneFileName_eq (pattern : String) (width lane : Nat) :
    laneFileName pattern width lane = String.ofList
      (if hasPlaceholder pattern.toList then filled width lane pattern.toList
        else numbered lane pattern.toList) := by
  have hdigits (n : Nat) : (toString n).toList = Nat.toDigits 10 n := by simp
  simp only [laneFileName, hdigits]
  by_cases h : hasPlaceholder pattern.toList = true
  · rw [if_pos h]
    exact if_pos h
  · rw [if_neg h]
    refine (if_neg h).trans ?_
    unfold numbered
    cases cutLast '.' pattern.toList <;> rfl

theorem placeholder_spec : ∀ p ∈ placeholders,
    p ≠ [] ∧ p.all (fun c => !c.isDigit) = true ∧ '.' ∉ p := by decide

theorem lanePlaceholder_mem : lanePlaceholder ∈ placeholders := by decide

theorem lowPlaceholder_mem : lowPlaceholder ∈ placeholders := by decide

theorem highPlaceholder_mem : highPlaceholder ∈ placeholders := by decide

section placeholders

variable {p : List Char} (hp : p ∈ placeholders)
include hp

theorem ne_nil_of_placeholder : p ≠ [] := (placeholder_spec p hp).1

theorem not_isDigit_of_placeholder : ∀ c ∈ p, c.isDigit = false := by
  intro c hc
  simpa using List.all_eq_true.mp (placeholder_spec p hp).2.1 c hc

theorem dot_not_mem_placeholder : '.' ∉ p := (placeholder_spec p hp).2.2

end placeholders

variable {width : Nat} {s : List Char}

theorem mem_filled {lane : Nat} {c : Char} (h : c ∈ filled width lane s) :
    c ∈ s ∨ c.isDigit = true := by
  rcases mem_replaceAll h with h | h
  · rcases mem_replaceAll h with h | h
    · exact (mem_replaceAll h).imp_right isDigit_of_mem_toDigits
    · exact .inr (isDigit_of_mem_toDigits h)
  · exact .inr (isDigit_of_mem_toDigits h)

theorem filled_of_no_placeholder (h : hasPlaceholder s = false) (width lane : Nat) :
    filled width lane s = s := by
  have hnot (p : List Char) (hp : p ∈ placeholders) : occurs p s = false := by
    rw [← Bool.not_eq_true]
    exact List.any_eq_false.mp h p hp
  rw [filled, replaceAll_of_not_occurs (hnot _ lanePlaceholder_mem),
    replaceAll_of_not_occurs (hnot _ lowPlaceholder_mem),
    replaceAll_of_not_occurs (hnot _ highPlaceholder_mem)]

/-- Both sides of a dot are filled on their own. -/
theorem filled_append_dot (width lane : Nat) (a b : List Char) :
    filled width lane (a ++ '.' :: b) = filled width lane a ++ '.' :: filled width lane b := by
  have hdot {p : List Char} (hp : p ∈ placeholders) (t a b : List Char) :
      replaceAll p t (a ++ '.' :: b) = replaceAll p t a ++ '.' :: replaceAll p t b :=
    replaceAll_append_sep (ne_nil_of_placeholder hp) (dot_not_mem_placeholder hp) a b
  rw [filled, hdot lanePlaceholder_mem, hdot lowPlaceholder_mem, hdot highPlaceholder_mem]
  rfl

theorem hasPlaceholder_append_dot (a b : List Char) :
    hasPlaceholder (a ++ '.' :: b) = (hasPlaceholder a || hasPlaceholder b) := by
  have hdot {p : List Char} (hp : p ∈ placeholders) :
      occurs p (a ++ '.' :: b) = (occurs p a || occurs p b) :=
    occurs_append_sep (ne_nil_of_placeholder hp) (dot_not_mem_placeholder hp) a b
  rw [Bool.eq_iff_iff, Bool.or_eq_true, hasPlaceholder, hasPlaceholder, hasPlaceholder,
    List.any_eq_true, List.any_eq_true, List.any_eq_true]
  constructor
  · rintro ⟨p, hp, h⟩
    rw [hdot hp, Bool.or_eq_true] at h
    exact h.imp (fun ha => ⟨p, hp, ha⟩) (fun hb => ⟨p, hp, hb⟩)
  · rintro (⟨p, hp, h⟩ | ⟨p, hp, h⟩)
    · exact ⟨p, hp, by rw [hdot hp, h, Bool.true_or]⟩
    · exact ⟨p, hp, by rw [hdot hp, h, Bool.or_true]⟩

/-- All numbers of a later lane are greater. -/
theorem grown_filled (hw : 0 < width) {lane other : Nat} (h : lane < other) (s : List Char) :
    ∃ k, Grown k (filled width lane s) (filled width other s) ∧
      (hasPlaceholder s = true → 0 < k) := by
  have hlow : lane * width < other * width := Nat.mul_lt_mul_of_pos_right h hw
  have hhigh : lane * width + width - 1 < other * width + width - 1 := by omega
  have hgrown {p : List Char} (hp : p ∈ placeholders) {n m : Nat} (hnm : n < m) {k : Nat}
      {s s' : List Char} (h : Grown k s s') := h.replaceAll (ne_nil_of_placeholder hp)
    (not_isDigit_of_placeholder hp) hnm
  obtain ⟨i, hlanes, hi⟩ := hgrown lanePlaceholder_mem h (Grown.refl s)
  obtain ⟨j, hlows, hj⟩ := hgrown lowPlaceholder_mem hlow hlanes
  obtain ⟨k, hhighs, hk⟩ := hgrown highPlaceholder_mem hhigh hlows
  refine ⟨_, hhighs, ?_⟩
  intro hs
  by_contra hnone
  have hfirst : occurs lanePlaceholder s = false := by
    rw [← Bool.not_eq_true]
    intro hoccurs
    have := hi hoccurs
    omega
  rw [replaceAll_of_not_occurs hfirst] at hj hk
  have hsecond : occurs lowPlaceholder s = false := by
    rw [← Bool.not_eq_true]
    intro hoccurs
    have := hj hoccurs
    omega
  rw [replaceAll_of_not_occurs hsecond] at hk
  have hthird : occurs highPlaceholder s = false := by
    rw [← Bool.not_eq_true]
    intro hoccurs
    have := hk hoccurs
    omega
  simp [hasPlaceholder, placeholders, hfirst, hsecond, hthird] at hs

theorem filled_injective (hw : 0 < width) (hs : hasPlaceholder s = true) :
    Function.Injective fun lane => filled width lane s := by
  apply Function.Injective.of_lt_imp_ne
  intro lane other h heq
  obtain ⟨k, hgrown, hpos⟩ := grown_filled hw h s
  exact Nat.ne_of_gt (hpos hs) (hgrown.eq_zero heq)

theorem exists_digit_filled (hw : 0 < width) (hs : hasPlaceholder s = true) (lane : Nat) :
    ∃ c ∈ filled width lane s, c.isDigit = true := by
  obtain ⟨k, hgrown, hpos⟩ := grown_filled hw (Nat.lt_succ_self lane) s
  obtain ⟨j, rfl⟩ := Nat.exists_eq_succ_of_ne_zero (Nat.ne_of_gt (hpos hs))
  exact hgrown.exists_digit

/-- A number between two texts tells lanes apart. -/
theorem number_injective (a b : List Char) :
    Function.Injective fun lane => a ++ '_' :: Nat.toDigits 10 lane ++ b := by
  intro lane other h
  have hnumber := List.append_cancel_left (List.append_cancel_right h)
  exact toDigits_injective (List.cons.inj hnumber).2

theorem numbered_of_dot {a b : List Char} (hb : '.' ∉ b) (lane : Nat) :
    numbered lane (a ++ '.' :: b) = a ++ '_' :: Nat.toDigits 10 lane ++ '.' :: b := by
  rw [numbered, cutLast_append a hb]

theorem numbered_of_no_dot (h : '.' ∉ s) (lane : Nat) :
    numbered lane s = s ++ '_' :: Nat.toDigits 10 lane ++ [] := by
  rw [numbered, cutLast_of_not_mem h, List.append_nil]

theorem numbered_injective (s : List Char) : Function.Injective fun lane => numbered lane s := by
  by_cases hdot : '.' ∈ s
  · obtain ⟨a, b, rfl, hb⟩ := exists_last hdot
    simpa only [numbered_of_dot hb] using number_injective a ('.' :: b)
  · simpa only [numbered_of_no_dot hdot] using number_injective s []

theorem laneFileName_injective (hw : 0 < width) (pattern : String) :
    Function.Injective (laneFileName pattern width) := by
  intro lane other h
  rw [laneFileName_eq, laneFileName_eq] at h
  have hchars := String.ofList_injective h
  split at hchars
  · rename_i hs
    exact filled_injective hw hs hchars
  · exact numbered_injective pattern.toList hchars

variable {t : Target} {images : List RomImage}

/-- The images of split lanes are named for the lanes in the order of their places. -/
theorem fileNames_split (h : t.images = .ok images) (hsplit : t.format.arrangement = .split) :
    t.fileNames images = (List.range t.format.laneCount).map fun place =>
      laneFileName t.output t.format.laneWidth (t.format.position place) := by
  obtain ⟨-, -, words, -, rfl⟩ := RomFormat.burn_eq_ok _ _ _ _ h
  simp [fileNames, RomFormat.images, hsplit, Function.comp_def]

theorem laneWidth_pos (h : t.images = .ok images) : 0 < t.format.laneWidth :=
  (RomFormat.burn_eq_ok _ _ _ _ h).1.laneWidth_pos

/-- Every format that suits a layout is that of some target with images. -/
theorem exists_images {l : Layout} {f : RomFormat} (hsuits : f.Suits l)
    (hlow : f.activeLow.bitWidth ≤ f.capacity) (pattern : String) :
    ∃ (t : Target) (images : List RomImage), t.layout = l ∧ t.format = f ∧ t.output = pattern ∧
      t.images = .ok images := by
  obtain ⟨table, images, -, himages⟩ := RomFormat.exists_burn_new f l { steps := l.count .step }
    hsuits (Nat.zero_le _) hlow rfl
  exact ⟨⟨"", {}, ⟨0, []⟩, l, table, f, pattern⟩, images, rfl, rfl, rfl, himages⟩

/-- Names that tell lanes apart tell the places of lanes apart. -/
theorem nodup_places {α : Type} {g : Nat → α} (hg : Function.Injective g) (f : RomFormat) :
    ((List.range f.laneCount).map fun place => g (f.position place)).Nodup := by
  refine List.Nodup.map_on ?_ List.nodup_range
  intro place hplace other hother heq
  have hposition : f.position place = f.position other := hg heq
  rw [← f.position_position place (List.mem_range.mp hplace), hposition,
    f.position_position other (List.mem_range.mp hother)]

/-- Whatever the pattern, there is a file name for each lane and no two of them are the same. -/
theorem fileNames_nodup (t : Target) (images : List RomImage) (h : t.images = .ok images)
    (hsplit : t.format.arrangement = .split) :
    (t.fileNames images).length = t.format.laneCount ∧ (t.fileNames images).Nodup := by
  rw [fileNames_split h hsplit]
  exact ⟨by simp, nodup_places (laneFileName_injective (laneWidth_pos h) t.output) t.format⟩

/-- A layout with an address for each of two opcodes. -/
def twoAddresses : Layout :=
  ⟨[(.flags, 0), (.opcode, 1), (.step, 0)], ⟨by decide, by decide, by decide, by decide, by decide⟩⟩

/-- Three numbers without separators, from `551159` for the highest lane to `004` for the lowest. -/
theorem fileNames_nodup_adjacent : ∃ (t : Target) (images : List RomImage),
    t.format = ⟨5, 12, .split, .highFirst, Word.bit 3⟩ ∧
    t.output = "\x7blo\x7d\x7blane\x7d\x7bhi\x7d" ∧
    t.images = .ok images ∧ (t.fileNames images).length = 12 ∧ (t.fileNames images).Nodup := by
  obtain ⟨t, images, -, hformat, houtput, himages⟩ :=
    exists_images (l := twoAddresses) (f := ⟨5, 12, .split, .highFirst, Word.bit 3⟩)
      ⟨by decide, by decide, by decide, by decide, by decide, fun _ => by decide⟩
      (by decide) "\x7blo\x7d\x7blane\x7d\x7bhi\x7d"
  obtain ⟨hlength, hnodup⟩ := fileNames_nodup t images himages (by rw [hformat])
  rw [hformat] at hlength
  exact ⟨t, images, hformat, houtput, himages, hlength, hnodup⟩

/-- The placeholders stand behind the last dot alone, and that dot does not lead the name. -/
def OnlyInExtension (s : List Char) : Prop :=
  ∃ a b, s = a ++ '.' :: b ∧ '.' ∉ b ∧ a ≠ [] ∧ hasPlaceholder a = false ∧
    hasPlaceholder b = true

theorem onlyInExtension_append {a b : List Char} (hb : '.' ∉ b) :
    OnlyInExtension (a ++ '.' :: b) ↔
      a ≠ [] ∧ hasPlaceholder a = false ∧ hasPlaceholder b = true := by
  constructor
  · rintro ⟨a', b', heq, hb', hstem⟩
    have hcut := cutLast_append a hb
    rw [heq, cutLast_append a' hb'] at hcut
    cases hcut
    exact hstem
  · intro hstem
    exact ⟨a, b, rfl, hb, hstem⟩

theorem slash_not_mem_filled (h : '/' ∉ s) (width lane : Nat) : '/' ∉ filled width lane s := by
  intro hmem
  rcases mem_filled hmem with hmem | hdigit
  · exact h hmem
  · exact absurd hdigit (by decide)

theorem dot_not_mem_filled (h : '.' ∉ s) (width lane : Nat) : '.' ∉ filled width lane s := by
  intro hmem
  rcases mem_filled hmem with hmem | hdigit
  · exact h hmem
  · exact absurd hdigit (by decide)

theorem ne_dot_of_digit (h : ∃ c ∈ s, c.isDigit = true) : ∃ c ∈ s, c ≠ '.' := by
  obtain ⟨c, hc, hdigit⟩ := h
  refine ⟨c, hc, ?_⟩
  rintro rfl
  exact absurd hdigit (by decide)

/-- With placeholders in the extension alone all lanes get one name. -/
theorem withExtension_of_onlyInExtension (hw : 0 < width) (hslash : '/' ∉ s)
    (hs : OnlyInExtension s) (e : List Char) :
    ∃ name, ∀ lane, Path.withExtension (filled width lane s) e = name := by
  obtain ⟨a, b, rfl, hb, ha, hstem, hextension⟩ := hs
  refine ⟨a ++ '.' :: e, fun lane => ?_⟩
  have hslash' := slash_not_mem_filled hslash width lane
  have hdigit : ∃ c ∈ filled width lane (a ++ '.' :: b), c.isDigit = true := by
    refine exists_digit_filled hw ?_ lane
    rw [hasPlaceholder_append_dot, hextension, Bool.or_true]
  rw [filled_append_dot, filled_of_no_placeholder hstem] at hslash' hdigit ⊢
  exact Path.withExtension_append hslash' (ne_dot_of_digit hdigit) ha
    (dot_not_mem_filled hb width lane) e

/-- Otherwise the extension comes after a stem that tells the lanes apart. -/
theorem exists_stem_of_placeholder (hw : 0 < width) (hslash : '/' ∉ s)
    (hplaceholder : hasPlaceholder s = true) (hs : ¬ OnlyInExtension s) (e : List Char) :
    ∃ stem : Nat → List Char, Function.Injective stem ∧
      ∀ lane, Path.withExtension (filled width lane s) e = stem lane ++ '.' :: e := by
  have hslash' := slash_not_mem_filled hslash width
  have hplain (lane : Nat) := ne_dot_of_digit (exists_digit_filled hw hplaceholder lane)
  by_cases hdot : '.' ∈ s
  · obtain ⟨a, b, rfl, hb⟩ := exists_last hdot
    by_cases ha : a = []
    · -- The only dot leads the name, which is kept whole.
      subst ha
      refine ⟨_, filled_injective hw hplaceholder, fun lane => ?_⟩
      refine Path.withExtension_of_no_stem (hslash' lane) (hplain lane) (.inr ?_) e
      refine ⟨_, ?_, dot_not_mem_filled hb width lane⟩
      rw [filled_append_dot, filled_of_no_placeholder (by decide)]
      rfl
    · have hstem : hasPlaceholder a = true := by
        by_contra hstem
        rw [Bool.not_eq_true] at hstem
        rw [hasPlaceholder_append_dot, hstem, Bool.false_or] at hplaceholder
        exact hs ((onlyInExtension_append hb).mpr ⟨ha, hstem, hplaceholder⟩)
      refine ⟨_, filled_injective hw hstem, fun lane => ?_⟩
      have hslash' := hslash' lane
      have hplain := hplain lane
      rw [filled_append_dot] at hslash' hplain ⊢
      have hne : filled width lane a ≠ [] := by
        obtain ⟨c, hc, -⟩ := exists_digit_filled hw hstem lane
        exact List.ne_nil_of_mem hc
      exact Path.withExtension_append hslash' hplain hne (dot_not_mem_filled hb width lane) e
  · refine ⟨_, filled_injective hw hplaceholder, fun lane => ?_⟩
    exact Path.withExtension_of_no_stem (hslash' lane) (hplain lane)
      (.inl (dot_not_mem_filled hdot width lane)) e

theorem not_mem_number {c : Char} (hdigit : c.isDigit = false) (hne : c ≠ '_') {a b : List Char}
    (ha : c ∉ a) (hb : c ∉ b) (lane : Nat) : c ∉ a ++ '_' :: Nat.toDigits 10 lane ++ b := by
  have hnumber : c ∉ Nat.toDigits 10 lane :=
    fun hmem => Bool.false_ne_true (hdigit.symm.trans (isDigit_of_mem_toDigits hmem))
  simp [ha, hb, hne, hnumber]

theorem exists_stem_of_number (hslash : '/' ∉ s) (e : List Char) :
    ∃ stem : Nat → List Char, Function.Injective stem ∧
      ∀ lane, Path.withExtension (numbered lane s) e = stem lane ++ '.' :: e := by
  by_cases hdot : '.' ∈ s
  · obtain ⟨a, b, rfl, hb⟩ := exists_last hdot
    rw [List.mem_append, not_or] at hslash
    have hstem := number_injective a []
    simp only [List.append_nil] at hstem
    refine ⟨_, hstem, fun lane => ?_⟩
    have hslash' := not_mem_number (by decide) (by decide) hslash.1 hslash.2 lane
    rw [numbered_of_dot hb]
    exact Path.withExtension_append hslash' ⟨'_', by simp, by decide⟩ (by simp) hb e
  · refine ⟨_, numbered_injective s, fun lane => ?_⟩
    have hslash' := not_mem_number (by decide) (by decide) hslash List.not_mem_nil lane
    have hdot' := not_mem_number (by decide) (by decide) hdot List.not_mem_nil lane
    rw [← numbered_of_no_dot hdot] at hslash' hdot'
    have hplain : ∃ c ∈ numbered lane s, c ≠ '.' := by
      rw [numbered_of_no_dot hdot]
      exact ⟨'_', by simp, by decide⟩
    exact Path.withExtension_of_no_stem hslash' hplain (.inl hdot') e

/-- Unless the placeholders are in the extension alone, the names of lanes keep stems of their own
under the extension of a format. -/
theorem exists_stem (hw : 0 < width) (hslash : '/' ∉ s) (hs : ¬ OnlyInExtension s)
    (e : List Char) :
    ∃ stem : Nat → List Char, Function.Injective stem ∧
      ∀ lane, Path.withExtension
        (if hasPlaceholder s then filled width lane s else numbered lane s) e =
          stem lane ++ '.' :: e := by
  by_cases hplaceholder : hasPlaceholder s = true
  · simp only [hplaceholder, if_true]
    exact exists_stem_of_placeholder hw hslash hplaceholder hs e
  · simp only [hplaceholder]
    exact exists_stem_of_number hslash e

theorem exists_extension {f : FileFormat} (hf : f ≠ .binary) : ∃ e, ∀ s,
    f.fileName (String.ofList s) = String.ofList (Path.withExtension s e) := by
  cases f with
  | binary => exact absurd rfl hf
  | hex => exact ⟨"hex".toList, fun s => by simp [FileFormat.fileName, FileFormat.extension?]⟩
  | logisim =>
    exact ⟨"logisim".toList, fun s => by simp [FileFormat.fileName, FileFormat.extension?]⟩
  | logix => exact ⟨"logix".toList, fun s => by simp [FileFormat.fileName, FileFormat.extension?]⟩

theorem hasPlaceholder_of_onlyInExtension (h : OnlyInExtension s) : hasPlaceholder s = true := by
  obtain ⟨a, b, rfl, -, -, -, hb⟩ := h
  rw [hasPlaceholder_append_dot, hb, Bool.or_true]

theorem fileName_of_onlyInExtension (hw : 0 < width) {pattern : String}
    (hslash : '/' ∉ pattern.toList) (hs : OnlyInExtension pattern.toList) {f : FileFormat}
    (hf : f ≠ .binary) : ∃ name, ∀ lane, f.fileName (laneFileName pattern width lane) = name := by
  obtain ⟨e, he⟩ := exists_extension hf
  obtain ⟨name, hname⟩ := withExtension_of_onlyInExtension hw hslash hs e
  refine ⟨String.ofList name, fun lane => ?_⟩
  rw [laneFileName_eq, if_pos (hasPlaceholder_of_onlyInExtension hs), he, hname]

theorem fileName_injective (hw : 0 < width) {pattern : String} (hslash : '/' ∉ pattern.toList)
    (hs : ¬ OnlyInExtension pattern.toList) {f : FileFormat} (hf : f ≠ .binary) :
    Function.Injective fun lane => f.fileName (laneFileName pattern width lane) := by
  obtain ⟨e, he⟩ := exists_extension hf
  obtain ⟨stem, hstem, hnames⟩ := exists_stem hw hslash hs e
  intro lane other h
  dsimp only at h
  rw [laneFileName_eq, laneFileName_eq, he, he, hnames, hnames] at h
  exact hstem (List.append_cancel_right (String.ofList_injective h))

/-- The files are the names and the contents side by side. -/
theorem render_eq_zip (t : Target) (images : List RomImage) (f : FileFormat) :
    t.render images f = ((t.fileNames images).map f.fileName).zip
      (images.map fun image => f.render t.format.laneWidth image.bytes) := by
  have hcontents : (images.map fun image => f.render t.format.laneWidth image.bytes) =
      (images.map RomImage.bytes).map (f.render t.format.laneWidth) := by
    rw [List.map_map]
    rfl
  rw [hcontents, List.zip_map]
  rfl

theorem names_render (t : Target) (images : List RomImage) (f : FileFormat) :
    (t.render images f).map Prod.fst = (t.fileNames images).map f.fileName := by
  rw [render_eq_zip, List.map_fst_zip (by simp [fileNames])]

/-- The files of a text format have names of their own, one for each lane, if and only if there is
one lane alone or the placeholders are not in the extension alone. -/
theorem render_names_nodup_iff (t : Target) (images : List RomImage) (f : FileFormat)
    (h : t.images = .ok images) (hsplit : t.format.arrangement = .split)
    (hslash : '/' ∉ t.output.toList) (hf : f ≠ .binary) :
    ((t.render images f).map Prod.fst).Nodup ↔
      t.format.laneCount = 1 ∨ ¬ OnlyInExtension t.output.toList := by
  have hw := laneWidth_pos h
  have hcount : 1 ≤ t.format.laneCount := (RomFormat.burn_eq_ok _ _ _ _ h).1.laneCount_pos
  rw [names_render, fileNames_split h hsplit, List.map_map]
  constructor
  · intro hnodup
    by_cases hs : OnlyInExtension t.output.toList
    · obtain ⟨name, hname⟩ := fileName_of_onlyInExtension hw hslash hs hf
      have hsame : (List.range t.format.laneCount).map (f.fileName ∘ fun place =>
          laneFileName t.output t.format.laneWidth (t.format.position place)) =
            List.replicate t.format.laneCount name := by
        simp [Function.comp_def, hname]
      rw [hsame, List.nodup_replicate] at hnodup
      exact .inl (Nat.le_antisymm hnodup hcount)
    · exact .inr hs
  · rintro (hone | hs)
    · rw [hone]
      exact List.nodup_singleton _
    · exact nodup_places (fileName_injective hw hslash hs hf) t.format

/-- The lane stands in the stem and its bits in the extension. -/
theorem render_names_nodup_stem : ∃ (t : Target) (images : List RomImage),
    t.format = ⟨8, 11, .split, .lowFirst, Word.zero⟩ ∧
    t.output = "rom.\x7blane\x7d.\x7blo\x7d" ∧ t.images = .ok images ∧
    '/' ∉ t.output.toList ∧ FileFormat.hex ≠ .binary ∧
    ((t.render images .hex).map Prod.fst).Nodup := by
  obtain ⟨t, images, -, hformat, houtput, himages⟩ :=
    exists_images (l := twoAddresses) (f := ⟨8, 11, .split, .lowFirst, Word.zero⟩)
      ⟨by decide, by decide, by decide, by decide, by decide, fun _ => by decide⟩
      (by decide) "rom.\x7blane\x7d.\x7blo\x7d"
  have hslash : '/' ∉ t.output.toList := by
    rw [houtput]
    decide
  have hstem : ¬ OnlyInExtension t.output.toList := by
    rw [houtput]
    intro h
    obtain ⟨-, hnone, -⟩ := (onlyInExtension_append (a := "rom.\x7blane\x7d".toList)
      (b := "\x7blo\x7d".toList) (by decide)).mp h
    exact absurd hnone (by decide)
  have hnodup := (render_names_nodup_iff t images .hex himages (by rw [hformat]) hslash
    (by decide)).mpr (.inr hstem)
  exact ⟨t, images, hformat, houtput, himages, hslash, by decide, hnodup⟩

/-- With the lane in the extension alone, the second of two lanes takes the file of the first. -/
theorem render_names_repeated : ∃ (t : Target) (images : List RomImage),
    t.format = ⟨8, 2, .split, .lowFirst, Word.zero⟩ ∧ t.output = "rom.\x7blane\x7d" ∧
    t.images = .ok images ∧ (t.render images .hex).map Prod.fst = ["rom.hex", "rom.hex"] ∧
    ¬ ((t.render images .hex).map Prod.fst).Nodup := by
  obtain ⟨t, images, -, hformat, houtput, himages⟩ :=
    exists_images (l := twoAddresses) (f := ⟨8, 2, .split, .lowFirst, Word.zero⟩)
      ⟨by decide, by decide, by decide, by decide, by decide, fun _ => by decide⟩
      (by decide) "rom.\x7blane\x7d"
  have hnames : (t.render images .hex).map Prod.fst = ["rom.hex", "rom.hex"] := by
    rw [names_render, fileNames_split himages (by rw [hformat]), hformat, houtput]
    decide +kernel
  exact ⟨t, images, hformat, houtput, himages, hnames, by rw [hnames]; decide⟩

end ControlStore.Target
