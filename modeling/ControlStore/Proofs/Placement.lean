import ControlStore.Proofs.Signals
import Mathlib.Order.Bounds.Basic

/-! Where lines go. Whether a line can be defined depends on the bits it asks for and on those that
other lines have, and a line that is pushed always finds its bits free. -/

namespace ControlStore

namespace Line

variable {a b : Line}

theorem overlaps_eq_true_iff (ha : a.bit + a.width ≤ Signals.maxBits)
    (hb : b.bit + b.width ≤ Signals.maxBits) :
    a.overlaps b = true ↔ a.bit < b.bit + b.width ∧ b.bit < a.bit + a.width := by
  rw [overlaps, Bool.and_eq_true, decide_eq_true_eq, decide_eq_true_eq, stop_eq a ha, stop_eq b hb]

/-- The lowest bit that overlapping lines share is the first one of the line that starts later. -/
theorem isLeast_shared (ha : a.bit + a.width ≤ Signals.maxBits)
    (hb : b.bit + b.width ≤ Signals.maxBits) (hawidth : 1 ≤ a.width) (hbwidth : 1 ≤ b.width)
    (h : a.overlaps b = true) : IsLeast {k | a.Owns k ∧ b.Owns k} (max b.bit a.bit) := by
  rw [overlaps_eq_true_iff ha hb] at h
  constructor
  · constructor
    · exact ⟨le_max_right _ _, by omega⟩
    · exact ⟨le_max_left _ _, by omega⟩
  · rintro k ⟨⟨hak, -⟩, hbk, -⟩
    exact max_le hbk hak

end Line

namespace Signals

/-- Of all lines this is the first to have a bit in common with another one. -/
def FirstSharing (s : Signals) (l first : Line) : Prop :=
  ∃ earlier later, s.lines = earlier ++ first :: later ∧ (∃ k, first.Owns k ∧ l.Owns k) ∧
    ∀ other ∈ earlier, ∀ k, ¬(other.Owns k ∧ l.Owns k)

/-- A request for a line fails if the line passes the limit. If it does not, the request fails with
the first line that shares a bit, and with the lowest bit they share. Otherwise the line is added and
its bits are given back. -/
structure Decided (s : Signals) (l : Line) (result : Except Error (Word × Signals)) : Prop where
  range : ∀ why, result = .error (.invalid why) ↔
    maxBits < l.bit + l.width ∧ why = .lineRange l.name l.bit maxBits
  overlap : ∀ name other bit, result = .error (.overlappingLine name other bit) ↔
    l.bit + l.width ≤ maxBits ∧ name = l.name ∧
      ∃ first, s.FirstSharing l first ∧ other = first.name ∧
        IsLeast {k | first.Owns k ∧ l.Owns k} bit
  ok : ∀ w s', result = .ok (w, s') ↔
    l.bit + l.width ≤ maxBits ∧ (∀ other ∈ s.lines, ∀ k, ¬(other.Owns k ∧ l.Owns k)) ∧
      (∀ k, w.test k = true ↔ l.Owns k) ∧ s' = { s with lines := s.lines ++ [l] }

/-- A line is placed right above all others. It fails if it passes the limit and in no other way.
Otherwise the position that is given back is the width before, and the name leads to a line with its
first bit there. -/
structure Stacked (s : Signals) (l : Line) (result : Except Error (Nat × Signals)) : Prop where
  above : ∀ other ∈ s.lines, ∀ k, other.Owns k → k < s.width
  free : ∀ name other bit, result ≠ .error (.overlappingLine name other bit)
  fails : (∃ e, result = .error e) ↔ maxBits < s.width + l.width
  ok : ∀ bit s', result = .ok (bit, s') → bit = s.width ∧ s'.lines = s.lines ++ [l] ∧
    s'.line l.name = .ok l ∧ l.bit = bit ∧ s'.width = bit + l.width

section Insert

variable {s : Signals} {l : Line}

theorem checkNew_of_new (hvalid : ValidName l.name) (hnew : s.contains l.name = false) :
    s.checkNew l.name = .ok () := by
  rw [checkNew, (checkName_eq_ok_iff l.name).mpr hvalid, hnew]
  rfl

theorem insert_of_range (hcheck : s.checkNew l.name = .ok ())
    (hrange : maxBits < l.bit + l.width) :
    s.insert l = .error (.invalid (.lineRange l.name l.bit maxBits)) := by
  rw [insert, hcheck]
  simp only [if_pos hrange]
  rfl

theorem insert_of_overlap (hcheck : s.checkNew l.name = .ok ())
    (hrange : l.bit + l.width ≤ maxBits) {other : Line}
    (hfind : s.lines.find? (fun other => other.overlaps l) = some other) :
    s.insert l = .error (.overlappingLine l.name other.name (max l.bit other.bit)) := by
  rw [insert, hcheck, hfind]
  simp only [if_neg (Nat.not_lt.mpr hrange)]
  rfl

theorem insert_of_free (hcheck : s.checkNew l.name = .ok ()) (hrange : l.bit + l.width ≤ maxBits)
    (hfind : s.lines.find? (fun other => other.overlaps l) = none) :
    s.insert l = .ok (l.mask, { s with lines := s.lines ++ [l] }) := by
  rw [insert, hcheck, hfind]
  simp only [if_neg (Nat.not_lt.mpr hrange)]
  rfl

theorem Sound.overlaps_iff (hs : s.Sound) (hrange : l.bit + l.width ≤ maxBits)
    (hwidth : 1 ≤ l.width) {other : Line} (hother : other ∈ s.lines) :
    other.overlaps l = true ↔ ∃ k, other.Owns k ∧ l.Owns k := by
  have hbelow := hs.below other hother
  constructor
  · intro h
    exact ⟨_, (Line.isLeast_shared hbelow hrange (hs.width other hother).1 hwidth h).1⟩
  · rintro ⟨k, ⟨hok, hko⟩, hlk, hkl⟩
    rw [Line.overlaps_eq_true_iff hbelow hrange]
    omega

theorem Sound.find?_eq_some_iff (hs : s.Sound) (hrange : l.bit + l.width ≤ maxBits)
    (hwidth : 1 ≤ l.width) (first : Line) :
    s.lines.find? (fun other => other.overlaps l) = some first ↔ s.FirstSharing l first := by
  rw [List.find?_eq_some_iff_append]
  constructor
  · rintro ⟨hfirst, earlier, later, hlines, hearlier⟩
    refine ⟨earlier, later, hlines, ?_, ?_⟩
    · exact (hs.overlaps_iff hrange hwidth (by simp [hlines])).mp hfirst
    · intro other hother k hk
      have hover := (hs.overlaps_iff hrange hwidth (by simp [hlines, hother])).mpr ⟨k, hk⟩
      simpa [hover] using hearlier other hother
  · rintro ⟨earlier, later, hlines, hfirst, hearlier⟩
    refine ⟨?_, earlier, later, hlines, ?_⟩
    · exact (hs.overlaps_iff hrange hwidth (by simp [hlines])).mpr hfirst
    · intro other hother
      rw [Bool.not_eq_true', ← Bool.not_eq_true,
        hs.overlaps_iff hrange hwidth (by simp [hlines, hother])]
      exact fun ⟨k, hk⟩ => hearlier other hother k hk

theorem Sound.find?_eq_none_iff (hs : s.Sound) (hrange : l.bit + l.width ≤ maxBits)
    (hwidth : 1 ≤ l.width) :
    s.lines.find? (fun other => other.overlaps l) = none ↔
      ∀ other ∈ s.lines, ∀ k, ¬(other.Owns k ∧ l.Owns k) := by
  rw [List.find?_eq_none]
  refine forall₂_congr fun other hother => ?_
  rw [hs.overlaps_iff hrange hwidth hother, not_exists]

theorem decided_of_range (hrange : maxBits < l.bit + l.width) :
    s.Decided l (.error (.invalid (.lineRange l.name l.bit maxBits))) := by
  have hnot : ¬ l.bit + l.width ≤ maxBits := Nat.not_le.mpr hrange
  refine ⟨?_, fun name other bit => ⟨nofun, fun h => absurd h.1 hnot⟩,
    fun w s' => ⟨nofun, fun h => absurd h.1 hnot⟩⟩
  intro why
  rw [Except.error.injEq, Error.invalid.injEq, eq_comm]
  exact ⟨fun h => ⟨hrange, h⟩, And.right⟩

theorem Sound.decided_of_firstSharing (hs : s.Sound) (hrange : l.bit + l.width ≤ maxBits)
    (hwidth : 1 ≤ l.width) {first : Line} (hfirst : s.FirstSharing l first) :
    s.Decided l (.error (.overlappingLine l.name first.name (max l.bit first.bit))) := by
  have hfind := (hs.find?_eq_some_iff hrange hwidth first).mpr hfirst
  have hmem : first ∈ s.lines := List.mem_of_find?_eq_some hfind
  have hover : first.overlaps l = true := by simpa using List.find?_some hfind
  have hleast :=
    Line.isLeast_shared (hs.below first hmem) hrange (hs.width first hmem).1 hwidth hover
  refine ⟨fun why => ⟨nofun, fun h => absurd h.1 (Nat.not_lt.mpr hrange)⟩, ?_, ?_⟩
  · intro name other bit
    constructor
    · intro h
      cases h
      exact ⟨hrange, rfl, first, hfirst, rfl, hleast⟩
    · rintro ⟨-, rfl, first', hfirst', rfl, hleast'⟩
      have hsame := (hs.find?_eq_some_iff hrange hwidth first').mpr hfirst'
      obtain rfl := Option.some.inj (hfind.symm.trans hsame)
      rw [hleast.unique hleast']
  · intro w s'
    refine ⟨nofun, ?_⟩
    rintro ⟨-, hfree, -⟩
    obtain ⟨-, -, -, ⟨k, hk⟩, -⟩ := hfirst
    exact absurd hk (hfree first hmem k)

theorem decided_of_free (hrange : l.bit + l.width ≤ maxBits)
    (hfree : ∀ other ∈ s.lines, ∀ k, ¬(other.Owns k ∧ l.Owns k)) :
    s.Decided l (.ok (l.mask, { s with lines := s.lines ++ [l] })) := by
  refine ⟨fun why => ⟨nofun, fun h => absurd h.1 (Nat.not_lt.mpr hrange)⟩, ?_, ?_⟩
  · intro name other bit
    refine ⟨nofun, ?_⟩
    rintro ⟨-, -, first, ⟨earlier, later, hlines, ⟨k, hk⟩, -⟩, -⟩
    exact absurd hk (hfree first (by simp [hlines]) k)
  · intro w s'
    constructor
    · intro h
      cases h
      exact ⟨hrange, hfree, l.test_mask_iff hrange, rfl⟩
    · rintro ⟨-, -, hw, rfl⟩
      have hmask : l.mask = w := Word.eq_of_test fun k => by
        rw [Bool.eq_iff_iff, l.test_mask_iff hrange, hw]
      rw [hmask]

/-- Adding a line with a new name is decided by its bits. -/
theorem Sound.decided (hs : s.Sound) (hvalid : ValidName l.name) (hnew : s.contains l.name = false)
    (hwidth : 1 ≤ l.width) : s.Decided l (s.insert l) := by
  have hcheck := checkNew_of_new hvalid hnew
  by_cases hrange : l.bit + l.width ≤ maxBits
  · cases hfind : s.lines.find? (fun other => other.overlaps l) with
    | some first =>
      rw [insert_of_overlap hcheck hrange hfind]
      exact hs.decided_of_firstSharing hrange hwidth
        ((hs.find?_eq_some_iff hrange hwidth first).mp hfind)
    | none =>
      rw [insert_of_free hcheck hrange hfind]
      exact decided_of_free hrange ((hs.find?_eq_none_iff hrange hwidth).mp hfind)
  · rw [insert_of_range hcheck (Nat.not_le.mp hrange)]
    exact decided_of_range (Nat.not_le.mp hrange)

theorem width_concat (s : Signals) (l : Line) :
    width { s with lines := s.lines ++ [l] } = max s.width l.stop := by
  rw [width, List.foldl_append]
  rfl

/-- A line right above all others has all its bits for itself. -/
theorem Sound.stacked (hs : s.Sound) (hvalid : ValidName l.name) (hnew : s.contains l.name = false)
    (hwidth : 1 ≤ l.width ∧ l.width ≤ 64) (hbit : l.bit = s.width) :
    s.Stacked l ((s.insert l).map fun p => (s.width, p.2)) := by
  have hdecided := hs.decided hvalid hnew hwidth.1
  have habove : ∀ other ∈ s.lines, ∀ k, other.Owns k → k < s.width := by
    intro other hother k hk
    have hstop := (width_le_iff s s.width).mp le_rfl other hother
    rw [other.stop_eq (hs.below other hother)] at hstop
    exact hk.2.trans_le hstop
  have hfree : ∀ other ∈ s.lines, ∀ k, ¬(other.Owns k ∧ l.Owns k) := by
    rintro other hother k ⟨hother', hk⟩
    have hlow := habove other hother k hother'
    have hhigh := hk.1
    omega
  refine ⟨habove, ?_, ?_, ?_⟩
  · intro name other bit h
    obtain ⟨-, -, first, ⟨earlier, later, hlines, ⟨k, hk⟩, -⟩, -⟩ :=
      (hdecided.overlap name other bit).mp (map_eq_error.mp h)
    exact hfree first (by simp [hlines]) k hk
  · rw [← hbit]
    constructor
    · rintro ⟨e, he⟩
      by_contra hrange
      have hok := (hdecided.ok _ _).mpr
        ⟨Nat.not_lt.mp hrange, hfree, l.test_mask_iff (Nat.not_lt.mp hrange), rfl⟩
      rw [map_eq_error.mp he] at hok
      cases hok
    · intro hrange
      exact ⟨_, map_eq_error.mpr ((hdecided.range _).mpr ⟨hrange, rfl⟩)⟩
  · intro bit s' h
    obtain ⟨⟨w, _⟩, hinsert, heq⟩ := map_eq_ok.mp h
    cases heq
    have hsound := hs.insert hwidth hinsert
    obtain ⟨hrange, -, -, rfl⟩ := (hdecided.ok w _).mp hinsert
    refine ⟨rfl, rfl, (hsound.line_eq_ok_iff l.name l).mpr ⟨by simp, rfl⟩, hbit, ?_⟩
    rw [width_concat, l.stop_eq hrange, hbit]
    exact max_eq_right (Nat.le_add_right _ _)

end Insert

/-- After any requests to empty signals, what becomes of a line with a valid name that is not given
yet is decided by its bits: it fails if it passes the limit, otherwise with the first line that
shares a bit and with the lowest such bit, and otherwise it is added and its bits are given back. A
line that is pushed goes right above all others, fails only if it passes the limit, and otherwise
gives back the width there was before. -/
theorem lines_are_placed (commands : List SignalCommand) (name : String) (hvalid : ValidName name)
    (hnew : (after {} commands).contains name = false) :
    (∀ bit, (after {} commands).Decided { name, bit, width := 1 }
      ((after {} commands).define name bit)) ∧
    (∀ bit, (after {} commands).Decided { name, bit, width := 1, activeLow := true }
      ((after {} commands).defineActiveLow name bit)) ∧
    (∀ bit width, 1 ≤ width → width ≤ 64 → (after {} commands).Decided { name, bit, width }
      ((after {} commands).defineField name bit width)) ∧
    (∀ width activeLow, 1 ≤ width → width ≤ 64 → (after {} commands).Stacked
      { name, bit := (after {} commands).width, width, activeLow := activeLow && decide (width = 1) }
      ((after {} commands).push name width activeLow)) := by
  have hsound : (after {} commands).Sound := sound_empty.after commands
  refine ⟨?_, ?_, ?_, ?_⟩
  · intro bit
    exact hsound.decided hvalid hnew le_rfl
  · intro bit
    exact hsound.decided hvalid hnew le_rfl
  · intro bit width hpos hle
    rw [defineField, if_neg (by omega)]
    exact hsound.decided hvalid hnew hpos
  · intro width activeLow hpos hle
    rw [push_eq, if_neg (by omega)]
    exact hsound.stacked hvalid hnew ⟨hpos, hle⟩ rfl

/-- A field, a line above it and one that leaves a gap. -/
def gappedCommands : List SignalCommand :=
  [.defineField "ALU" 4 4, .push "CARRY" 1 true, .define "HALT" 20]

/-- A line in the middle of a field, one past the limit, one in the gap, and a field above all. -/
theorem lines_are_placed_gapped :
    ValidName "LD_A" ∧ (after {} gappedCommands).contains "LD_A" = false ∧
    (after {} gappedCommands).define "LD_A" 6 = .error (.overlappingLine "LD_A" "ALU" 6) ∧
    (after {} gappedCommands).defineField "LD_A" 1020 5 =
      .error (.invalid (.lineRange "LD_A" 1020 maxBits)) ∧
    (∃ s', (after {} gappedCommands).defineActiveLow "LD_A" 9 = .ok (Word.bit 9, s')) ∧
    ∃ s', (after {} gappedCommands).push "LD_A" 3 false = .ok (21, s') ∧ s'.width = 24 := by
  have hvalid : ValidName "LD_A" := (checkName_eq_ok_iff "LD_A").mp rfl
  have hnew : (after {} gappedCommands).contains "LD_A" = false := rfl
  have hlines : (after {} gappedCommands).lines =
      [⟨"ALU", 4, 4, false⟩, ⟨"CARRY", 8, 1, true⟩, ⟨"HALT", 20, 1, false⟩] := rfl
  obtain ⟨hdefine, hlow, hfield, hpush⟩ := lines_are_placed gappedCommands "LD_A" hvalid hnew
  refine ⟨hvalid, hnew, ?_, ?_, ?_, ?_⟩
  · refine ((hdefine 6).overlap _ _ _).mpr ⟨by decide, rfl, ⟨"ALU", 4, 4, false⟩, ?_, rfl, ?_⟩
    · exact ⟨[], _, hlines, ⟨6, ⟨by decide, by decide⟩, by decide, by decide⟩, by simp⟩
    · exact ⟨⟨⟨by decide, by decide⟩, by decide, by decide⟩, fun k hk => hk.2.1⟩
  · exact ((hfield 1020 5 (by decide) (by decide)).range _).mpr ⟨by decide, rfl⟩
  · refine ⟨_, ((hlow 9).ok _ _).mpr ⟨by decide, ?_, ?_, rfl⟩⟩
    · rw [hlines]
      rintro other hother k ⟨⟨hok, hko⟩, hlk, hkl⟩
      simp only [List.mem_cons, List.not_mem_nil, or_false] at hother
      rcases hother with rfl | rfl | rfl <;> simp only at hok hko hlk hkl <;> omega
    · intro k
      rw [Word.test_eq, Word.toNat_bit, Nat.testBit_two_pow, decide_eq_true_eq]
      exact ⟨fun h => ⟨h.le, by simp only; omega⟩, fun h => le_antisymm h.1 (Nat.le_of_lt_succ h.2)⟩
  · have hstacked := hpush 3 false (by decide) (by decide)
    cases hresult : (after {} gappedCommands).push "LD_A" 3 false with
    | error e =>
      have hrange := hstacked.fails.mp ⟨e, hresult⟩
      exact absurd hrange (by decide)
    | ok p =>
      obtain ⟨bit, s'⟩ := p
      obtain ⟨hbit, -, -, -, hwidth⟩ := hstacked.ok bit s' hresult
      have hold : (after {} gappedCommands).width = 21 := rfl
      rw [hold] at hbit
      subst hbit
      exact ⟨s', rfl, hwidth⟩

end Signals

end ControlStore
