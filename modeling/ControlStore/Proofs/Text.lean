import ControlStore.Text
import Mathlib

/-! Text that was put together from pieces comes apart into the same pieces. -/

namespace ControlStore.Text

/-- The characters of names. -/
def isNameChar (c : Char) : Bool := c.isAlphanum || c == '_'

/-- The text is made of name characters and some others. -/
def Over (others s : List Char) : Prop := ∀ c ∈ s, isNameChar c = true ∨ c ∈ others

def Blanks (s : List Char) : Prop := ∀ c ∈ s, isBlank c = true

def Solid (s : List Char) : Prop := ∀ c ∈ s, isBlank c = false

def Starts (s : List Char) : Prop := ∀ c ∈ s.head?, isBlank c = false

def Ends (s : List Char) : Prop := ∀ c ∈ s.getLast?, isBlank c = false

-- The instances are named: there are finitely many characters, and to try them all takes too long.
instance (others s : List Char) : Decidable (Over others s) := List.decidableBAll _ s

instance (s : List Char) : Decidable (Blanks s) := List.decidableBAll _ s

instance (s : List Char) : Decidable (Solid s) := List.decidableBAll _ s

instance (s : List Char) : Decidable (Ends s) := Option.decidableForallMem s.getLast?

/-- No end of the text is blank. -/
structure Snug (s : List Char) : Prop where
  starts : Starts s
  ends : Ends s

/-- A text without blanks. -/
structure Token (s : List Char) : Prop where
  ne_nil : s ≠ []
  solid : Solid s

theorem isBlank_of_isNameChar (c : Char) (h : isNameChar c = true) : isBlank c = false := by
  have hnum : (65 ≤ c.toNat ∧ c.toNat ≤ 90) ∨ (97 ≤ c.toNat ∧ c.toNat ≤ 122) ∨
      (48 ≤ c.toNat ∧ c.toNat ≤ 57) ∨ c.toNat = 95 := by
    simp only [isNameChar, Char.isAlphanum, Char.isAlpha, Char.isUpper, Char.isLower, Char.isDigit,
      Bool.or_eq_true, Bool.and_eq_true, decide_eq_true_eq, beq_iff_eq, UInt32.le_iff_toNat_le,
      ge_iff_le] at h
    rcases h with ((h | h) | h) | h
    · exact Or.inl h
    · exact Or.inr (Or.inl h)
    · exact Or.inr (Or.inr (Or.inl h))
    · exact Or.inr (Or.inr (Or.inr (by rw [h]; rfl)))
  simp only [isBlank, Bool.or_eq_false_iff, Bool.and_eq_false_iff, decide_eq_false_iff_not,
    beq_eq_false_iff_ne]
  omega

theorem isBlank_space : isBlank ' ' = true := by decide

theorem blanks_nil : Blanks [] := by decide

theorem blanks_space : Blanks [' '] := by decide

theorem Blanks.not_mem {s : List Char} (h : Blanks s) {c : Char} (hc : isBlank c = false) :
    c ∉ s := by
  intro hmem
  rw [h c hmem] at hc
  cases hc

theorem Over.nil (others : List Char) : Over others [] := by
  intro c hc
  cases hc

theorem Over.cons {others s : List Char} {c : Char} (hc : isNameChar c = true ∨ c ∈ others)
    (hs : Over others s) : Over others (c :: s) := List.forall_mem_cons.mpr ⟨hc, hs⟩

theorem Over.append {others s t : List Char} (hs : Over others s) (ht : Over others t) :
    Over others (s ++ t) := by
  intro c hc
  rcases List.mem_append.mp hc with h | h
  · exact hs c h
  · exact ht c h

theorem Over.mono {others others' s : List Char} (hs : Over others s)
    (h : others ⊆ others') : Over others' s :=
  fun c hc => (hs c hc).imp_right fun hc => h hc

theorem Over.intercalate {others sep : List Char} {parts : List (List Char)}
    (hsep : Over others sep) (hparts : ∀ p ∈ parts, Over others p) :
    Over others (sep.intercalate parts) := by
  induction parts with
  | nil => exact Over.nil others
  | cons p rest ih =>
    have hp := hparts p List.mem_cons_self
    have hrest := ih fun q hq => hparts q (List.mem_cons_of_mem p hq)
    cases rest with
    | nil => simpa using hp
    | cons q rest =>
      rw [List.intercalate_cons_cons]
      exact (hp.append hsep).append hrest

theorem Over.not_mem {others s : List Char} (hs : Over others s) (c : Char)
    (hc : isNameChar c = false ∧ c ∉ others) : c ∉ s := by
  intro hmem
  rcases hs c hmem with h | h
  · rw [hc.1] at h
    exact Bool.false_ne_true h
  · exact hc.2 h

/-- Without blanks among the other characters there are none at all. -/
theorem Over.token {others s : List Char} (hs : Over others s) (hne : s ≠ [])
    (hothers : Solid others) : Token s :=
  ⟨hne, fun c hc => (hs c hc).elim (isBlank_of_isNameChar c) (hothers c)⟩

theorem Ends.append {s t : List Char} (hs : Ends s) (ht : Ends t) : Ends (s ++ t) := by
  intro c hc
  rw [List.getLast?_append] at hc
  cases hlast : t.getLast? with
  | none =>
    rw [hlast] at hc
    exact hs c (by simpa using hc)
  | some d =>
    rw [hlast] at hc
    exact ht c (by rw [hlast]; simpa using hc)

theorem Ends.append_of_ne_nil {s t : List Char} (ht : Ends t) (hne : t ≠ []) : Ends (s ++ t) := by
  intro c hc
  rw [List.getLast?_append_of_ne_nil s hne] at hc
  exact ht c hc

theorem Ends.cons {s : List Char} {c : Char} (hc : isBlank c = false) (hs : Ends s) :
    Ends (c :: s) := by
  have hsingle : Ends [c] := by
    intro d hd
    have heq : c = d := by simpa using hd
    exact heq ▸ hc
  exact hsingle.append hs

theorem Ends.intercalate {sep : List Char} {parts : List (List Char)} (hsep : Ends sep)
    (hparts : ∀ p ∈ parts, Ends p) : Ends (sep.intercalate parts) := by
  induction parts with
  | nil =>
    intro c hc
    simp at hc
  | cons p rest ih =>
    have hp := hparts p List.mem_cons_self
    have hrest := ih fun q hq => hparts q (List.mem_cons_of_mem p hq)
    cases rest with
    | nil => simpa using hp
    | cons q rest =>
      rw [List.intercalate_cons_cons]
      exact (hp.append hsep).append hrest

theorem Token.snug {s : List Char} (h : Token s) : Snug s :=
  ⟨fun c hc => h.solid c (List.mem_of_mem_head? hc),
    fun c hc => h.solid c (List.mem_of_mem_getLast? hc)⟩

theorem exists_intercalate_cons (sep p : List Char) (rest : List (List Char)) :
    ∃ tail, sep.intercalate (p :: rest) = p ++ tail := by
  cases rest with
  | nil => exact ⟨[], by simp⟩
  | cons q rest => exact ⟨_, by rw [List.intercalate_cons_cons, List.append_assoc]⟩

/-- Joined texts have the ends of the first and the last of them. -/
theorem Snug.intercalate {sep : List Char} {parts : List (List Char)}
    (hparts : ∀ p ∈ parts, p ≠ [] ∧ Snug p) : Snug (sep.intercalate parts) := by
  induction parts with
  | nil => exact ⟨fun c hc => by simp at hc, fun c hc => by simp at hc⟩
  | cons p rest ih =>
    obtain ⟨hne, hp⟩ := hparts p List.mem_cons_self
    have hrest := ih fun q hq => hparts q (List.mem_cons_of_mem p hq)
    constructor
    · intro c hc
      obtain ⟨tail, htail⟩ := exists_intercalate_cons sep p rest
      rw [htail, List.head?_append_of_ne_nil _ hne] at hc
      exact hp.starts c hc
    · cases rest with
      | nil => simpa using hp.ends
      | cons q rest =>
        obtain ⟨hq, -⟩ := hparts q (List.mem_cons_of_mem p List.mem_cons_self)
        obtain ⟨tail, htail⟩ := exists_intercalate_cons sep q rest
        rw [List.intercalate_cons_cons]
        apply hrest.ends.append_of_ne_nil
        rw [htail]
        exact List.append_ne_nil_of_left_ne_nil hq tail

theorem dropWhile_blanks_append (blanks s : List Char) (h : Blanks blanks) :
    (blanks ++ s).dropWhile isBlank = s.dropWhile isBlank := by
  induction blanks with
  | nil => rfl
  | cons c r ih =>
    rw [List.cons_append, List.dropWhile_cons_of_pos (h c List.mem_cons_self)]
    exact ih fun d hd => h d (List.mem_cons_of_mem c hd)

/-- Blanks around a text go when it is trimmed. -/
theorem trim_pad (before s after : List Char) (hb : Blanks before) (ha : Blanks after) :
    trim (before ++ s ++ after) = trim s := by
  have hafter : Blanks after.reverse :=
    fun c hc => ha c (List.mem_reverse.mp hc)
  have hnil : after.dropWhile isBlank = [] := by
    simpa using dropWhile_blanks_append after [] ha
  unfold trim
  rw [List.append_assoc, dropWhile_blanks_append before _ hb, List.dropWhile_append]
  split
  · rename_i hempty
    rw [hnil, List.isEmpty_iff.mp hempty]
  · rw [List.reverse_append, dropWhile_blanks_append _ _ hafter]

theorem dropWhile_of_starts (s : List Char) (h : Starts s) :
    s.dropWhile isBlank = s := by
  cases s with
  | nil => rfl
  | cons c r =>
    have hc : isBlank c = false := h c rfl
    rw [List.dropWhile_cons_of_neg (by rw [hc]; exact Bool.false_ne_true)]

theorem Snug.trim {s : List Char} (h : Snug s) : trim s = s := by
  have hends : Starts s.reverse := by
    intro c hc
    rw [List.head?_reverse] at hc
    exact h.ends c hc
  rw [Text.trim, dropWhile_of_starts s h.starts, dropWhile_of_starts _ hends, List.reverse_reverse]

section pieces

variable {α : Type} {sep : α → Bool}

theorem pieces_cons_of_sep (c : α) (s : List α) (h : sep c = true) :
    pieces sep (c :: s) = [] :: pieces sep s := if_pos h

theorem pieces_cons_of_not_sep (c : α) (s w : List α) (ws : List (List α)) (h : sep c = false)
    (hs : pieces sep s = w :: ws) : pieces sep (c :: s) = (c :: w) :: ws := by
  have hc : ¬ sep c = true := by
    rw [h]
    exact Bool.false_ne_true
  unfold pieces at hs ⊢
  rw [List.foldr_cons, hs, if_neg hc]

theorem exists_pieces_cons (sep : α → Bool) (s : List α) : ∃ w ws, pieces sep s = w :: ws := by
  induction s with
  | nil => exact ⟨[], [], rfl⟩
  | cons c r ih =>
    obtain ⟨w, ws, hr⟩ := ih
    cases hc : sep c with
    | true => exact ⟨[], pieces sep r, pieces_cons_of_sep c r hc⟩
    | false => exact ⟨c :: w, ws, pieces_cons_of_not_sep c r w ws hc hr⟩

/-- Where two texts meet, the last piece of one and the first of the other become one. -/
theorem pieces_append_pieces {s t x y : List α} {xs ys : List (List α)}
    (hs : pieces sep s = xs ++ [x]) (ht : pieces sep t = y :: ys) :
    pieces sep (s ++ t) = xs ++ (x ++ y) :: ys := by
  induction s generalizing xs x with
  | nil =>
    have hnil : [[]] = xs ++ [x] := hs
    obtain ⟨rfl, rfl⟩ : xs = [] ∧ x = [] := by
      cases xs <;> simp_all
    exact ht
  | cons c r ih =>
    obtain ⟨w, ws, hr⟩ := exists_pieces_cons sep r
    cases hc : sep c with
    | true =>
      rw [pieces_cons_of_sep c r hc, hr] at hs
      cases xs with
      | nil => simp at hs
      | cons x' xs =>
        obtain ⟨rfl, hrest⟩ := List.cons.inj hs
        rw [List.cons_append, pieces_cons_of_sep c _ hc, ih (hr.trans hrest)]
        rfl
    | false =>
      rw [pieces_cons_of_not_sep c r w ws hc hr] at hs
      rw [List.cons_append]
      cases xs with
      | nil =>
        obtain ⟨rfl, rfl⟩ := List.cons.inj hs
        have hnext : pieces sep (r ++ t) = [] ++ (w ++ y) :: ys := ih hr
        exact pieces_cons_of_not_sep c _ _ _ hc hnext
      | cons x' xs =>
        obtain ⟨rfl, rfl⟩ := List.cons.inj hs
        have hnext : pieces sep (r ++ t) = (w :: xs) ++ (x ++ y) :: ys := ih hr
        exact pieces_cons_of_not_sep c _ _ _ hc hnext

/-- A separator between two texts keeps their pieces apart. -/
theorem pieces_append_sep (a b : List α) (c : α) (hc : sep c = true) :
    pieces sep (a ++ c :: b) = pieces sep a ++ pieces sep b := by
  have hne : pieces sep a ≠ [] := by
    obtain ⟨w, ws, h⟩ := exists_pieces_cons sep a
    rw [h]
    exact List.cons_ne_nil w ws
  obtain ⟨xs, x, ha⟩ := (List.eq_nil_or_concat' (pieces sep a)).resolve_left hne
  rw [pieces_append_pieces ha (pieces_cons_of_sep c b hc), ha]
  simp

theorem pieces_of_no_sep (a : List α) (ha : ∀ x ∈ a, sep x = false) : pieces sep a = [a] := by
  induction a with
  | nil => rfl
  | cons x r ih =>
    have hr := ih fun y hy => ha y (List.mem_cons_of_mem x hy)
    exact pieces_cons_of_not_sep x r r [] (ha x List.mem_cons_self) hr

theorem pieces_append (a s : List α) (c : α) (ha : ∀ x ∈ a, sep x = false) (hc : sep c = true) :
    pieces sep (a ++ c :: s) = a :: pieces sep s := by
  rw [pieces_append_sep a s c hc, pieces_of_no_sep a ha]
  rfl

theorem pieces_intercalate_flatMap (c : α) (hc : sep c = true) (parts : List (List α))
    (hne : parts ≠ []) : pieces sep ([c].intercalate parts) = parts.flatMap (pieces sep) := by
  induction parts with
  | nil => exact absurd rfl hne
  | cons p rest ih =>
    cases rest with
    | nil => simp
    | cons q rest =>
      rw [List.intercalate_cons_cons, List.append_assoc, List.singleton_append,
        pieces_append_sep p _ c hc, ih (List.cons_ne_nil q rest)]
      rfl

theorem pieces_intercalate (c : α) (hc : sep c = true) (parts : List (List α)) (hne : parts ≠ [])
    (hparts : ∀ p ∈ parts, ∀ x ∈ p, sep x = false) : pieces sep ([c].intercalate parts) = parts := by
  rw [pieces_intercalate_flatMap c hc parts hne,
    List.flatMap_congr fun p hp => pieces_of_no_sep p (hparts p hp)]
  exact List.flatMap_singleton' parts

/-- Lines with their ends after them are read back as lines. -/
theorem lines_flatten (c : α) (hc : sep c = true) (ls : List (List α))
    (hls : ∀ l ∈ ls, ∀ x ∈ l, sep x = false) :
    lines sep (ls.map (· ++ [c])).flatten = ls := by
  have hpieces : pieces sep (ls.map (· ++ [c])).flatten = ls ++ [[]] := by
    induction ls with
    | nil => rfl
    | cons l rest ih =>
      rw [List.map_cons, List.flatten_cons, List.append_assoc, List.singleton_append,
        pieces_append l _ c (hls l List.mem_cons_self) hc,
        ih fun m hm => hls m (List.mem_cons_of_mem l hm), List.cons_append]
  simp [lines, hpieces]

/-- The pieces of a text are its lines and, after a last end, an empty piece. -/
theorem pieces_eq_lines_append (sep : α → Bool) (s : List α) :
    ∃ more, (more = [] ∨ more = [[]]) ∧ pieces sep s = lines sep s ++ more := by
  dsimp only [lines]
  split
  · rename_i hlast
    exact ⟨[[]], .inr rfl, (List.dropLast_append_getLast? [] hlast).symm⟩
  · exact ⟨[], .inl rfl, (List.append_nil _).symm⟩

/-- The lines of two texts with an end between them. If the first has a last end of its own, an
empty line comes between its lines and those of the second. -/
theorem lines_append_sep (a b : List α) (c : α) (hc : sep c = true) :
    ∃ between, (between = [] ∨ between = [[]]) ∧
      lines sep (a ++ c :: b) = lines sep a ++ between ++ lines sep b := by
  obtain ⟨between, hbetween, ha⟩ := pieces_eq_lines_append sep a
  refine ⟨between, hbetween, ?_⟩
  have hne : pieces sep b ≠ [] := by
    obtain ⟨w, ws, hb⟩ := exists_pieces_cons sep b
    rw [hb]
    exact List.cons_ne_nil w ws
  rw [← ha]
  dsimp only [lines]
  rw [pieces_append_sep a b c hc, List.getLast?_append_of_ne_nil _ hne,
    List.dropLast_append_of_ne_nil hne]
  split <;> rfl

theorem length_pieces (sep : α → Bool) (s : List α) :
    (pieces sep s).length = s.countP sep + 1 := by
  induction s with
  | nil => rfl
  | cons c r ih =>
    obtain ⟨w, ws, hr⟩ := exists_pieces_cons sep r
    cases hc : sep c with
    | true => rw [pieces_cons_of_sep c r hc, List.length_cons, ih, List.countP_cons_of_pos hc]
    | false =>
      have hcount : (c :: r).countP sep = r.countP sep := by simp [hc]
      rw [pieces_cons_of_not_sep c r w ws hc hr, hcount, ← ih, hr]
      rfl

/-- There is a line for each end, and one more if the text does not end with one. -/
theorem length_lines (sep : α → Bool) (s : List α) :
    (lines sep s).length = s.countP sep + if s.getLast?.all sep then 0 else 1 := by
  have hlength := length_pieces sep s
  rcases List.eq_nil_or_concat s with rfl | ⟨r, c, rfl⟩
  · rfl
  rw [List.concat_eq_append] at hlength ⊢
  rw [List.getLast?_concat, Option.all_some]
  obtain ⟨w, ws, hr⟩ := exists_pieces_cons sep r
  have hne : pieces sep r ≠ [] := by
    rw [hr]
    exact List.cons_ne_nil w ws
  obtain ⟨xs, x, hlast⟩ := (List.eq_nil_or_concat' (pieces sep r)).resolve_left hne
  cases hc : sep c with
  | true =>
    have hpieces : pieces sep (r ++ [c]) = pieces sep r ++ [[]] := pieces_append_sep r [] c hc
    rw [hpieces, List.length_append, List.length_singleton] at hlength
    simp only [lines, hpieces, List.getLast?_concat, List.dropLast_concat, if_true]
    omega
  | false =>
    have hpieces : pieces sep (r ++ [c]) = xs ++ [x ++ [c]] :=
      pieces_append_pieces hlast (pieces_of_no_sep [c] (List.forall_mem_singleton.mpr hc))
    obtain ⟨d, rest, hd⟩ := List.exists_cons_of_ne_nil (List.append_ne_nil_of_right_ne_nil x
      (List.cons_ne_nil c []))
    have hlines : lines sep (r ++ [c]) = pieces sep (r ++ [c]) := by simp [lines, hpieces, hd]
    rw [hlines, hlength, if_neg Bool.false_ne_true]

end pieces

theorem eq_char_eq_false {c : Char} {s : List Char} (h : c ∉ s) : ∀ x ∈ s, (x == c) = false := by
  intro x hx
  rw [beq_eq_false_iff_ne]
  rintro rfl
  exact h hx

theorem splitOn_append (c : Char) (a s : List Char) (ha : c ∉ a) :
    splitOn c (a ++ c :: s) = a :: splitOn c s :=
  pieces_append a s c (eq_char_eq_false ha) (beq_self_eq_true c)

theorem splitOn_of_not_mem (c : Char) (a : List Char) (ha : c ∉ a) : splitOn c a = [a] :=
  pieces_of_no_sep a (eq_char_eq_false ha)

/-- The text is these parts with a separator between any two of them and none inside. -/
structure Separated (c : Char) (s : List Char) (parts : List (List Char)) : Prop where
  ne_nil : parts ≠ []
  not_mem : ∀ p ∈ parts, c ∉ p
  eq_intercalate : s = [c].intercalate parts

theorem exists_separated (c : Char) (s : List Char) : ∃ parts, Separated c s parts := by
  induction s with
  | nil => exact ⟨[[]], by simp, by simp, by simp⟩
  | cons d r ih =>
    obtain ⟨parts, hne, hparts, rfl⟩ := ih
    obtain ⟨p, rest, rfl⟩ := List.exists_cons_of_ne_nil hne
    obtain ⟨hp, hrest⟩ := List.forall_mem_cons.mp hparts
    by_cases hd : d = c
    · -- A separator in front ends an empty part.
      refine ⟨[] :: p :: rest, List.cons_ne_nil _ _, ?_, ?_⟩
      · exact List.forall_mem_cons.mpr ⟨List.not_mem_nil, hparts⟩
      · rw [List.intercalate_cons_cons, hd]
        rfl
    · refine ⟨(d :: p) :: rest, List.cons_ne_nil _ _, ?_, ?_⟩
      · refine List.forall_mem_cons.mpr ⟨?_, hrest⟩
        exact List.not_mem_cons_of_ne_of_not_mem (Ne.symm hd) hp
      · cases rest with
        | nil => simp
        | cons q rest =>
          rw [List.intercalate_cons_cons, List.intercalate_cons_cons]
          rfl

theorem splitOn_eq_iff {c : Char} {s : List Char} {parts : List (List Char)} :
    splitOn c s = parts ↔ Separated c s parts := by
  have hback {parts : List (List Char)} (h : Separated c s parts) : splitOn c s = parts := by
    rw [h.eq_intercalate, splitOn]
    refine pieces_intercalate c ?_ parts h.ne_nil ?_
    · exact beq_self_eq_true c
    · exact fun p hp => eq_char_eq_false (h.not_mem p hp)
  constructor
  · rintro rfl
    obtain ⟨parts, hparts⟩ := exists_separated c s
    rw [hback hparts]
    exact hparts
  · exact hback

/-- Blanks around the separators and at the ends do not matter to the trimmed pieces. -/
theorem map_trim_splitOn (c : Char) (hc : isBlank c = false) (left right : List Char)
    (hleft : Blanks left) (hright : Blanks right) (parts : List (List Char)) (hne : parts ≠ [])
    (hparts : ∀ p ∈ parts, c ∉ p) (before after : List Char) (hb : Blanks before)
    (ha : Blanks after) :
    (splitOn c (before ++ (left ++ c :: right).intercalate parts ++ after)).map trim =
      parts.map trim := by
  -- The blanks in front vary: a separator leaves those right of it to the rest.
  induction parts generalizing before with
  | nil => exact absurd rfl hne
  | cons p rest ih =>
    have hp := hparts p List.mem_cons_self
    cases rest with
    | nil =>
      have hnone : c ∉ before ++ p ++ after := by
        simp [hp, hb.not_mem hc, ha.not_mem hc]
      rw [List.intercalate_singleton, splitOn_of_not_mem c _ hnone, List.map_singleton,
        trim_pad before p after hb ha, List.map_singleton]
    | cons q rest =>
      have hnone : c ∉ before ++ p ++ left := by
        simp [hp, hb.not_mem hc, hleft.not_mem hc]
      have hsplit : before ++ (left ++ c :: right).intercalate (p :: q :: rest) ++ after =
          (before ++ p ++ left) ++
            c :: (right ++ (left ++ c :: right).intercalate (q :: rest) ++ after) := by
        rw [List.intercalate_cons_cons]
        simp
      rw [hsplit, splitOn_append c _ _ hnone, List.map_cons, trim_pad before p left hb hleft,
        ih (List.cons_ne_nil q rest) (fun r hr => hparts r (List.mem_cons_of_mem p hr)) right hright]
      rfl

theorem words_of_blank (c : Char) (s : List Char) (hc : isBlank c = true) :
    words (c :: s) = words s := by
  rw [words, pieces_cons_of_sep c s hc]
  rfl

theorem words_intercalate (ws : List (List Char)) (h : ∀ w ∈ ws, Token w) :
    words ([' '].intercalate ws) = ws := by
  cases ws with
  | nil => rfl
  | cons w rest =>
    rw [words, pieces_intercalate ' ' isBlank_space (w :: rest) (List.cons_ne_nil w rest)
      fun p hp => (h p hp).solid, List.filter_eq_self]
    intro p hp
    simp [(h p hp).ne_nil]

theorem Token.words {w : List Char} (h : Token w) : words w = [w] := by
  simpa using words_intercalate [w] (by simpa using h)

theorem words_append_of_blank (a b : List Char) (c : Char) (hc : isBlank c = true) :
    words (a ++ c :: b) = words a ++ words b := by
  rw [words, pieces_append_sep a b c hc, List.filter_append]
  rfl

/-- Words do not run on where one of two texts has a blank or nothing to add. -/
theorem words_append_right (a b : List Char) (hb : ∀ c ∈ b.head?, isBlank c = true) :
    words (a ++ b) = words a ++ words b := by
  cases b with
  | nil => simp [words, pieces]
  | cons c r =>
    have hc : isBlank c = true := hb c rfl
    rw [words_append_of_blank a r c hc, words_of_blank c r hc]

theorem words_append_left (a b : List Char) (ha : ∀ c ∈ a.getLast?, isBlank c = true) :
    words (a ++ b) = words a ++ words b := by
  rcases List.eq_nil_or_concat a with rfl | ⟨r, c, rfl⟩
  · rfl
  · have hc : isBlank c = true := ha c (by simp)
    rw [List.concat_eq_append, List.append_assoc, List.singleton_append,
      words_append_of_blank r b c hc, words_append_of_blank r [] c hc]
    simp [words, pieces]

theorem words_of_blanks {s : List Char} (h : Blanks s) : words s = [] := by
  induction s with
  | nil => rfl
  | cons c r ih =>
    obtain ⟨hc, hr⟩ := List.forall_mem_cons.mp h
    rw [words_of_blank c r hc, ih hr]

/-- A text is its trimmed text with blanks around it. -/
theorem exists_trim_pad (s : List Char) :
    ∃ before after, Blanks before ∧ Blanks after ∧ s = before ++ trim s ++ after := by
  have hblanks (t : List Char) : Blanks (t.takeWhile isBlank) := by
    intro c hc
    exact List.mem_takeWhile_imp hc
  refine ⟨s.takeWhile isBlank, ((s.dropWhile isBlank).reverse.takeWhile isBlank).reverse,
    hblanks s, ?_, ?_⟩
  · intro c hc
    exact hblanks _ c (List.mem_reverse.mp hc)
  · rw [trim, List.append_assoc, ← List.reverse_append, List.takeWhile_append_dropWhile,
      List.reverse_reverse, List.takeWhile_append_dropWhile]

theorem words_trim (s : List Char) : words (trim s) = words s := by
  obtain ⟨before, after, hb, ha, heq⟩ := exists_trim_pad s
  have hlast : ∀ c ∈ before.getLast?, isBlank c = true :=
    fun c hc => hb c (List.mem_of_mem_getLast? hc)
  have hfirst : ∀ c ∈ after.head?, isBlank c = true := fun c hc => ha c (List.mem_of_mem_head? hc)
  conv_rhs => rw [heq]
  rw [List.append_assoc, words_append_left _ _ hlast, words_append_right _ _ hfirst,
    words_of_blanks hb, words_of_blanks ha]
  simp

theorem starts_trim (s : List Char) : Starts (trim s) := by
  intro c hc
  have hparts : trim s ++ ((s.dropWhile isBlank).reverse.takeWhile isBlank).reverse =
      s.dropWhile isBlank := by
    rw [trim, ← List.reverse_append, List.takeWhile_append_dropWhile, List.reverse_reverse]
  have hhead : (s.dropWhile isBlank).head? = some c := by
    rw [← hparts, List.head?_append, Option.mem_def.mp hc]
    rfl
  have hnot := List.head?_dropWhile_not isBlank s
  rw [hhead] at hnot
  simpa using hnot

theorem ends_trim (s : List Char) : Ends (trim s) := by
  intro c hc
  rw [trim, List.getLast?_reverse] at hc
  have hnot := List.head?_dropWhile_not isBlank (s.dropWhile isBlank).reverse
  rw [hc] at hnot
  simpa using hnot

theorem snug_trim (s : List Char) : Snug (trim s) := ⟨starts_trim s, ends_trim s⟩

theorem words_cons {c : Char} (r : List Char) (hc : isBlank c = false) :
    ∃ w ws, words (c :: r) = (c :: w) :: ws := by
  obtain ⟨w, ws, hr⟩ := exists_pieces_cons isBlank r
  refine ⟨w, ws.filter (fun w => !w.isEmpty), ?_⟩
  rw [words, pieces_cons_of_not_sep c r w ws hc hr]
  rfl

theorem cutAt_append (sep : Char → Bool) (a s : List Char) (c : Char)
    (ha : ∀ x ∈ a, sep x = false) (hc : sep c = true) :
    cutAt sep (a ++ c :: s) = some (a, s) := by
  have hnot : ∀ x ∈ a, (!sep x) = true := by
    intro x hx
    rw [ha x hx]
    rfl
  have hdrop : (a ++ c :: s).dropWhile (fun x => !sep x) = c :: s := by
    rw [List.dropWhile_append_of_pos hnot]
    simp [hc]
  have htake : (a ++ c :: s).takeWhile (fun x => !sep x) = a := by
    rw [List.takeWhile_append_of_pos hnot]
    simp [hc]
  simp [cutAt, hdrop, htake]

/-- The parts of a text that was cut make up the text, and the first has no separator. -/
theorem eq_of_cutAt {sep : Char → Bool} {s a b : List Char} (h : cutAt sep s = some (a, b)) :
    (∀ x ∈ a, sep x = false) ∧ ∃ c, sep c = true ∧ s = a ++ c :: b := by
  unfold cutAt at h
  split at h
  · cases h
  rename_i c rest hdrop
  cases h
  constructor
  · intro x hx
    simpa using List.mem_takeWhile_imp hx
  · refine ⟨c, ?_, ?_⟩
    · have hhead := List.head?_dropWhile_not (fun x => !sep x) s
      rw [hdrop] at hhead
      simpa using hhead
    · rw [← hdrop, List.takeWhile_append_dropWhile]

theorem eq_of_cut {c : Char} {s a b : List Char} (h : cut c s = some (a, b)) :
    c ∉ a ∧ s = a ++ c :: b := by
  obtain ⟨ha, d, hd, rfl⟩ := eq_of_cutAt h
  have hc : d = c := by simpa using hd
  subst hc
  refine ⟨?_, rfl⟩
  intro hmem
  simpa using ha d hmem

theorem cut_append (c : Char) (a s : List Char) (ha : c ∉ a) : cut c (a ++ c :: s) = some (a, s) :=
  cutAt_append (· == c) a s c (eq_char_eq_false ha) (beq_self_eq_true c)

theorem cut_of_not_mem (c : Char) (a : List Char) (ha : c ∉ a) : cut c a = none := by
  have hdrop : a.dropWhile (fun x => !(x == c)) = [] := by
    rw [List.dropWhile_eq_nil_iff]
    intro x hx
    rw [eq_char_eq_false ha x hx]
    rfl
  simp [cut, cutAt, hdrop]

/-- To trim a text first makes no difference to the trimmed parts that it is cut into. -/
theorem cut_trim {c : Char} {s a b : List Char} (hc : isBlank c = false)
    (h : cut c s = some (a, b)) :
    ∃ a' b', cut c (trim s) = some (a', b') ∧ trim a' = trim a ∧ trim b' = trim b := by
  obtain ⟨ha, rfl⟩ := eq_of_cut h
  obtain ⟨before, after, hbefore, hafter, hpad⟩ := exists_trim_pad (a ++ c :: b)
  have hmem : c ∈ trim (a ++ c :: b) := by
    have hall : c ∈ before ++ trim (a ++ c :: b) ++ after := by
      rw [← hpad]
      simp
    simpa [hbefore.not_mem hc, hafter.not_mem hc] using hall
  obtain ⟨a', b', htrim, ha'⟩ := List.eq_append_cons_of_mem hmem
  have hcut : cut c (before ++ a' ++ c :: (b' ++ after)) = some (before ++ a', b' ++ after) := by
    apply cut_append
    simp [hbefore.not_mem hc, ha']
  have hsame : before ++ a' ++ c :: (b' ++ after) = a ++ c :: b := by
    rw [hpad, htrim]
    simp
  rw [hsame, cut_append c a b ha] at hcut
  obtain ⟨rfl, rfl⟩ := Prod.mk.inj (Option.some.inj hcut)
  refine ⟨a', b', ?_, ?_, ?_⟩
  · rw [htrim, cut_append c a' b' ha']
  · simpa using (trim_pad before a' [] hbefore blanks_nil).symm
  · simpa using (trim_pad [] b' after blanks_nil hafter).symm

theorem takeWhile_ne_of_not_mem (c : Char) (a : List Char) (ha : c ∉ a) :
    a.takeWhile (· != c) = a := by
  rw [List.takeWhile_eq_self_iff]
  intro x hx
  rw [bne, eq_char_eq_false ha x hx]
  rfl

theorem digit?_digitChar (radix d : Nat) (h : d < radix) (hr : radix ≤ 16) :
    digit? radix d.digitChar = some d := by
  have hvalue : ∀ k : Fin 16, digit? 16 (Nat.digitChar k) = some k.val := by decide
  have hfilter : digit? radix d.digitChar =
      (digit? 16 d.digitChar).filter (fun n => decide (n < radix)) := by
    dsimp only [digit?]
    rw [Option.filter_filter]
    congr 1
    funext n
    rw [← Bool.decide_and, decide_eq_decide]
    omega
  rw [hfilter, hvalue ⟨d, by omega⟩]
  simp [h]

theorem mem_toDigits (radix n : Nat) (hr : 1 < radix) (c : Char) (hc : c ∈ Nat.toDigits radix n) :
    ∃ d, d < radix ∧ c = d.digitChar := by
  induction n using Nat.strongRecOn with
  | _ n ih =>
    rw [Nat.toDigits_eq_if hr] at hc
    split at hc
    · rename_i hlt
      exact ⟨n, hlt, List.mem_singleton.mp hc⟩
    · rename_i hle
      rcases List.mem_append.mp hc with h | h
      · exact ih (n / radix) (Nat.div_lt_self (by omega) hr) h
      · exact ⟨n % radix, Nat.mod_lt n (by omega), List.mem_singleton.mp h⟩

theorem over_toDigits (radix n : Nat) (hr : 1 < radix) (hr' : radix ≤ 16) (others : List Char) :
    Over others (Nat.toDigits radix n) := by
  intro c hc
  obtain ⟨d, hd, rfl⟩ := mem_toDigits radix n hr c hc
  have hname : ∀ k : Fin 16, isNameChar (Nat.digitChar k) = true := by decide
  exact Or.inl (hname ⟨d, by omega⟩)

theorem digits?_toDigits (radix n : Nat) (hr : 1 < radix) (hr' : radix ≤ 16) :
    digits? radix (Nat.toDigits radix n) = some n := by
  induction n using Nat.strongRecOn with
  | _ n ih =>
    rw [Nat.toDigits_eq_if hr]
    split
    · rename_i hlt
      simp [digits?, digit?_digitChar radix n hlt hr']
    · rename_i hle
      have hmod : n % radix < radix := Nat.mod_lt n (by omega)
      have hinit := ih (n / radix) (Nat.div_lt_self (by omega) hr)
      unfold digits? at hinit ⊢
      rw [List.foldlM_append, hinit]
      simp [digit?_digitChar radix _ hmod hr', Nat.div_add_mod']

/-- A number is read from its digits. -/
theorem number?_toDigits (radix limit n : Nat) (hr : 1 < radix) (hr' : radix ≤ 16) (hn : n < limit) :
    number? radix limit (Nat.toDigits radix n) = some n := by
  have hplus : '+' ∉ Nat.toDigits radix n :=
    (over_toDigits radix n hr hr' []).not_mem '+' (by decide)
  have hne : Nat.toDigits radix n ≠ [] := Nat.toDigits_ne_nil
  have hdigits := digits?_toDigits radix n hr hr'
  revert hplus hne hdigits
  generalize Nat.toDigits radix n = s
  intro hplus hne hdigits
  unfold number?
  split
  · exact absurd List.mem_cons_self hplus
  · simp [hne, hdigits, hn]

theorem digits?_padded {radix : Nat} (hr : 1 < radix) (hr' : radix ≤ 16) (width n : Nat) :
    digits? radix (padded radix width n) = some n := by
  have hzeros (k : Nat) : digits? radix (List.replicate k '0') = some 0 := by
    have hzero : digit? radix '0' = some 0 := digit?_digitChar radix 0 (by omega) hr'
    induction k with
    | zero => rfl
    | succ k ih =>
      rw [digits?] at ih
      rw [digits?, List.replicate_succ, List.foldlM_cons, hzero]
      simpa using ih
  have hzeros := hzeros (width - (Nat.toDigits radix n).length)
  have hdigits := digits?_toDigits radix n hr hr'
  unfold digits? at hzeros hdigits ⊢
  rw [padded, List.foldlM_append, hzeros]
  exact hdigits

theorem length_padded {radix width n : Nat} (hr : 1 < radix) (hw : 0 < width)
    (hn : n < radix ^ width) : (padded radix width n).length = width := by
  have hlength := (Nat.length_toDigits_le_iff hr hw).mpr hn
  rw [padded, List.length_append, List.length_replicate]
  omega

theorem mem_padded {radix : Nat} (hr : 1 < radix) {width n : Nat} {c : Char}
    (hc : c ∈ padded radix width n) : ∃ d, d < radix ∧ c = d.digitChar := by
  rcases List.mem_append.mp hc with hzero | hdigit
  · exact ⟨0, by omega, List.eq_of_mem_replicate hzero⟩
  · exact mem_toDigits radix n hr c hdigit

/-- The text writes a number in decimal. Zeros may lead it. -/
structure Decimal (text : String) (n : Nat) : Prop where
  ne_empty : text ≠ ""
  digits : ∀ c ∈ text.toList, c.isDigit = true
  value : Nat.ofDigitChars 10 text.toList 0 = n

instance (text : String) (n : Nat) : Decidable (Decimal text n) :=
  decidable_of_iff
    (text ≠ "" ∧ text.toList.all Char.isDigit = true ∧ Nat.ofDigitChars 10 text.toList 0 = n)
    ⟨fun h => ⟨h.1, List.all_eq_true.mp h.2.1, h.2.2⟩,
      fun h => ⟨h.ne_empty, List.all_eq_true.mpr h.digits, h.value⟩⟩

/-- The same with one plus sign, which may stand in front. -/
def Signed (text : String) (n : Nat) : Prop :=
  Decimal text n ∨ ∃ digits, text = "+" ++ digits ∧ Decimal digits n

/-- Letters count from ten, so that none of them is a decimal digit. -/
theorem digit?_ten (c : Char) :
    digit? 10 c = if c.isDigit then some (c.toNat - '0'.toNat) else none := by
  have hchar (a b : Char) : a ≤ b ↔ a.toNat ≤ b.toNat := Iff.rfl
  have hdigit : c.isDigit = true ↔ '0'.toNat ≤ c.toNat ∧ c.toNat ≤ '9'.toNat :=
    Char.isDigit_iff_toNat
  have hzero : '0'.toNat = 48 := rfl
  have hnine : '9'.toNat = 57 := rfl
  have ha : 'a'.toNat = 97 := rfl
  have hA : 'A'.toNat = 65 := rfl
  unfold digit?
  simp only [Bool.and_eq_true, decide_eq_true_eq, hchar]
  by_cases h : c.isDigit = true
  · obtain ⟨hlow, hhigh⟩ := hdigit.mp h
    have hlt : c.toNat - 48 < 10 := by omega
    rw [if_pos ⟨hlow, hhigh⟩, if_pos h]
    simp [hlt]
  · have hno : ¬('0'.toNat ≤ c.toNat ∧ c.toNat ≤ '9'.toNat) := fun hc => h (hdigit.mpr hc)
    rw [if_neg hno, if_neg h, Option.filter_eq_none_iff]
    intro d hd
    have hten : ¬ d < 10 := by
      split at hd
      · obtain rfl := Option.some.inj hd
        omega
      split at hd
      · obtain rfl := Option.some.inj hd
        omega
      · cases hd
    simpa using hten

theorem foldlM_digits_eq_some_iff (s : List Char) (k n : Nat) :
    s.foldlM (fun n c => (digit? 10 c).map (fun d => n * 10 + d)) k = some n ↔
      (∀ c ∈ s, c.isDigit = true) ∧ Nat.ofDigitChars 10 s k = n := by
  induction s generalizing k with
  | nil => simp [Nat.ofDigitChars]
  | cons c r ih =>
    rw [List.foldlM_cons, digit?_ten, List.forall_mem_cons]
    by_cases hc : c.isDigit = true
    · have hcons : Nat.ofDigitChars 10 (c :: r) k =
          Nat.ofDigitChars 10 r (k * 10 + (c.toNat - '0'.toNat)) := by
        rw [Nat.mul_comm k 10]
        rfl
      rw [if_pos hc, hcons]
      simpa [hc] using ih (k * 10 + (c.toNat - '0'.toNat))
    · simp [hc]

theorem decimal_toString (n : Nat) : Decimal (toString n) n := by
  have htext : (toString n).toList = Nat.toDigits 10 n := by
    rw [Nat.toString_eq_repr, Nat.toList_repr]
  refine ⟨?_, ?_, ?_⟩
  · intro hempty
    rw [hempty] at htext
    exact Nat.toDigits_ne_nil htext.symm
  · intro c hc
    rw [htext] at hc
    exact Nat.isDigit_of_mem_toDigits (by decide) (by decide) hc
  · rw [htext]
    exact Nat.ofDigitChars_toDigits (by decide) (by decide)

theorem not_decimal_plus (digits : String) (n : Nat) : ¬ Decimal ("+" ++ digits) n := by
  intro h
  have hplus : ('+').isDigit = true := h.digits '+' (by simp)
  exact absurd hplus (by decide)

theorem Signed.unique {text : String} {n m : Nat} (hn : Signed text n) (hm : Signed text m) :
    n = m := by
  rcases hn with hn | ⟨digits, rfl, hn⟩
  · rcases hm with hm | ⟨digits, rfl, -⟩
    · exact hn.value.symm.trans hm.value
    · exact absurd hn (not_decimal_plus digits n)
  · rcases hm with hm | ⟨digits', heq, hm⟩
    · exact absurd hm (not_decimal_plus digits m)
    · have hsame : digits.toList = digits'.toList := by
        simpa using congrArg String.toList heq
      exact hn.value.symm.trans (hsame ▸ hm.value)

theorem digits?_eq_some_iff_decimal {text : String} (hne : text ≠ "") (n : Nat) :
    digits? 10 text.toList = some n ↔ Decimal text n := by
  rw [digits?, foldlM_digits_eq_some_iff]
  exact ⟨fun h => ⟨hne, h.1, h.2⟩, fun h => ⟨h.digits, h.value⟩⟩

/-- Digits are read up to the limit. Without any there is no number. -/
theorem filter_digits?_eq_some_iff (digits : String) (n : Nat) :
    (if digits.toList.isEmpty then none
      else (digits? 10 digits.toList).filter fun n => decide (n < limit64)) = some n ↔
      n < 2 ^ 64 ∧ Decimal digits n := by
  by_cases hne : digits = ""
  · subst hne
    have hno : ¬ Decimal "" n := fun h => h.ne_empty rfl
    simp [hno]
  · have hlist : ¬ digits.toList.isEmpty = true := by simpa using hne
    rw [if_neg hlist, Option.filter_eq_some_iff, digits?_eq_some_iff_decimal hne, and_comm]
    exact and_congr_left fun _ => decide_eq_true_iff

/-- What is read as a number: digits in decimal after at most one plus sign, below the limit. -/
theorem nat64?_eq_some_iff (text : String) (n : Nat) :
    nat64? text.toList = some n ↔ n < 2 ^ 64 ∧ Signed text n := by
  unfold nat64? number?
  split
  · rename_i rest hplus
    have htext : text = "+" ++ String.ofList rest := by
      rw [← String.toList_inj, hplus]
      simp
    have hread := filter_digits?_eq_some_iff (String.ofList rest) n
    rw [String.toList_ofList] at hread
    rw [hread]
    constructor
    · rintro ⟨hlt, hdigits⟩
      exact ⟨hlt, .inr ⟨_, htext, hdigits⟩⟩
    · rintro ⟨hlt, hdecimal | ⟨digits, heq, hdigits⟩⟩
      · rw [htext] at hdecimal
        exact absurd hdecimal (not_decimal_plus _ n)
      · have hsame : String.ofList rest = digits := by
          have hboth := congrArg String.toList (htext.symm.trans heq)
          rw [← String.toList_inj]
          simpa using hboth
        exact ⟨hlt, hsame ▸ hdigits⟩
  · rename_i hplus
    rw [filter_digits?_eq_some_iff]
    constructor
    · rintro ⟨hlt, hdecimal⟩
      exact ⟨hlt, .inl hdecimal⟩
    · rintro ⟨hlt, hdecimal | ⟨digits, rfl, -⟩⟩
      · exact ⟨hlt, hdecimal⟩
      · exact (hplus digits.toList (by simp)).elim

theorem nat64?_of_decimal {text : String} {n : Nat} (h : Decimal text n) :
    nat64? text.toList = if n < 2 ^ 64 then some n else none := by
  split
  · rename_i hlt
    exact (nat64?_eq_some_iff text n).mpr ⟨hlt, .inl h⟩
  · rename_i hge
    rw [Option.eq_none_iff_forall_ne_some]
    intro m hm
    obtain ⟨hlt, hsigned⟩ := (nat64?_eq_some_iff text m).mp hm
    exact hge (Signed.unique hsigned (.inl h) ▸ hlt)

end ControlStore.Text
