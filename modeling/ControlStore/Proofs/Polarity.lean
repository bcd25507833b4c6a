import ControlStore.Proofs.Signals

/-! Which bits idle high. A line is driven low only if it is a single bit: a field that is asked for
with the polarity of an active-low line is defined all the same, and idles low. -/

namespace ControlStore

/-- The request asks for a line that is driven low when asserted. -/
def SignalCommand.asksLow : SignalCommand → Bool
  | .defineActiveLow _ _ => true
  | .push _ _ activeLow => activeLow
  | _ => false

namespace Signals

variable {s : Signals}

/-- One of the requests succeeds, and what it does is to add the line. -/
def Introduces (s : Signals) (commands : List SignalCommand) (c : SignalCommand) (l : Line) : Prop :=
  ∃ before rest s', commands = before ++ c :: rest ∧ (s.after before).run c = .ok s' ∧
    s'.lines = (s.after before).lines ++ [l]

theorem line?_of_lines {c : SignalCommand} {s' : Signals} {l : Line} (h : s.run c = .ok s')
    (hl : s'.lines = s.lines ++ [l]) : c.line? s = some l := by
  rw [lines_run h, List.append_cancel_left_eq] at hl
  exact Option.toList_eq_singleton_iff.mp hl

/-- A line is driven low if that was asked for and it is a single bit. -/
theorem activeLow_of_line? {c : SignalCommand} {l : Line} (h : c.line? s = some l) :
    l.activeLow = (c.asksLow && decide (l.width = 1)) := by
  cases c <;> cases h <;> rfl

theorem Introduces.activeLow {commands : List SignalCommand} {c : SignalCommand} {l : Line}
    (h : s.Introduces commands c l) : l.activeLow = (c.asksLow && decide (l.width = 1)) := by
  obtain ⟨before, rest, s', -, hrun, hlines⟩ := h
  exact activeLow_of_line? (line?_of_lines hrun hlines)

theorem introduces_cons (first : SignalCommand) (rest : List SignalCommand) (c : SignalCommand)
    (l : Line) :
    s.Introduces (first :: rest) c l ↔
      (c = first ∧ ∃ s', s.run first = .ok s' ∧ s'.lines = s.lines ++ [l]) ∨
        (s.next first).Introduces rest c l := by
  constructor
  · rintro ⟨before, later, s', heq, hrun, hlines⟩
    cases before with
    | nil =>
      obtain ⟨rfl, rfl⟩ := List.cons.inj heq
      exact .inl ⟨rfl, s', hrun, hlines⟩
    | cons _ before =>
      obtain ⟨rfl, hrest⟩ := List.cons.inj heq
      exact .inr ⟨before, later, s', hrest, hrun, hlines⟩
  · rintro (⟨rfl, s', hrun, hlines⟩ | ⟨before, later, s', rfl, hrun, hlines⟩)
    · exact ⟨[], rest, s', rfl, hrun, hlines⟩
    · exact ⟨first :: before, later, s', rfl, hrun, hlines⟩

theorem mem_lines_next (s : Signals) (c : SignalCommand) (l : Line) :
    l ∈ (s.next c).lines ↔ l ∈ s.lines ∨ ∃ s', s.run c = .ok s' ∧ s'.lines = s.lines ++ [l] := by
  cases hrun : s.run c with
  | error e =>
    rw [next_of_error hrun]
    simp
  | ok s' =>
    rw [next_of_ok hrun, lines_run hrun]
    cases hl : c.line? s with
    | none => simp [lines_run hrun, hl]
    | some l' => simp [lines_run hrun, hl, eq_comm]

/-- Every line was there from the start or was introduced by one of the requests. -/
theorem mem_lines_after (s : Signals) (commands : List SignalCommand) (l : Line) :
    l ∈ (s.after commands).lines ↔ l ∈ s.lines ∨ ∃ c, s.Introduces commands c l := by
  induction commands generalizing s with
  | nil => simp [after, Introduces]
  | cons first rest ih =>
    show l ∈ ((s.next first).after rest).lines ↔ _
    simp only [ih, mem_lines_next, introduces_cons, exists_or, exists_eq_left, or_assoc]

/-- After any requests to empty signals, a bit idles high if and only if it is one of a line that was
introduced by a request for an active-low line and that is a single bit. The bits of a field idle low
even if the request asked for the other. -/
theorem activeLow_after_requests (commands : List SignalCommand) :
    (∀ k, (after {} commands).activeLow.test k = true ↔
      ∃ c l, Introduces {} commands c l ∧ c.asksLow = true ∧ l.width = 1 ∧ l.Owns k) ∧
    (∀ c l k, Introduces {} commands c l → c.asksLow = true → l.width ≠ 1 → l.Owns k →
      (after {} commands).activeLow.test k = false) := by
  have hsound : (after {} commands).Sound := sound_empty.after commands
  have hmem (l : Line) : l ∈ (after {} commands).lines ↔ ∃ c, Introduces {} commands c l := by
    rw [mem_lines_after]
    exact or_iff_right List.not_mem_nil
  constructor
  · intro k
    rw [test_activeLow]
    constructor
    · rintro ⟨l, hl, hlow, hmask⟩
      obtain ⟨c, hc⟩ := (hmem l).mp hl
      rw [hc.activeLow, Bool.and_eq_true, decide_eq_true_eq] at hlow
      exact ⟨c, l, hc, hlow.1, hlow.2, l.owns_of_test_mask k hmask⟩
    · rintro ⟨c, l, hc, hasks, hwidth, howns⟩
      have hl : l ∈ (after {} commands).lines := (hmem l).mpr ⟨c, hc⟩
      refine ⟨l, hl, ?_, hsound.test_mask hl howns⟩
      rw [hc.activeLow, hasks, hwidth]
      rfl
  · intro c l k hc _ hwidth howns
    rw [hsound.test_activeLow_of_owns ((hmem l).mpr ⟨c, hc⟩) howns, hc.activeLow]
    simp [hwidth]

/-- A field that is pushed as active low is there, and its bits idle low. -/
theorem activeLow_of_pushed_field :
    Introduces {} [.push "SEL" 2 true] (.push "SEL" 2 true) ⟨"SEL", 0, 2, false⟩ ∧
    (after {} [.push "SEL" 2 true]).activeLow = Word.zero ∧
    ¬ ∀ k, (after {} [.push "SEL" 2 true]).activeLow.test k = true ↔
      ∃ c l, Introduces {} [.push "SEL" 2 true] c l ∧ c.asksLow = true ∧ l.Owns k := by
  have hpushed :
      Introduces {} [.push "SEL" 2 true] (.push "SEL" 2 true) ⟨"SEL", 0, 2, false⟩ :=
    ⟨[], [], { lines := [⟨"SEL", 0, 2, false⟩] }, rfl, rfl, rfl⟩
  have hzero : (after {} [.push "SEL" 2 true]).activeLow = Word.zero := rfl
  refine ⟨hpushed, hzero, ?_⟩
  intro hall
  have hlow := (hall 0).mpr ⟨_, _, hpushed, rfl, by decide, by decide⟩
  rw [hzero, Word.test_zero] at hlow
  cases hlow

end Signals

end ControlStore
