import ControlStore.Proofs.Outcome
import ControlStore.Table
import Mathlib.Data.Nat.Basic

/-! What a table reads, and the bound on all words it holds. -/

namespace ControlStore.Table

/-- The words of a sequence take no more than some number of bits. -/
def Within {n : Nat} (b : Nat) (s : Vector Word n) : Prop := ∀ w ∈ s, w.bitWidth ≤ b

/-- A fold stays below a bound if its start and all its elements do. -/
theorem foldl_le_iff {α : Type} {f : Nat → α → Nat} {P : α → Prop} {b : Nat}
    (hf : ∀ w x, f w x ≤ b ↔ w ≤ b ∧ P x) (l : List α) (init : Nat) :
    l.foldl f init ≤ b ↔ init ≤ b ∧ ∀ x ∈ l, P x := by
  induction l generalizing init with
  | nil => simp
  | cons x r ih =>
    rw [List.foldl_cons, ih, hf, List.forall_mem_cons]
    exact and_assoc

theorem sequenceWidth_le_iff {n : Nat} (s : Vector Word n) (b : Nat) :
    sequenceWidth s ≤ b ↔ Within b s := by
  rw [sequenceWidth, ← Vector.foldl_toList, foldl_le_iff (P := fun w => w.bitWidth ≤ b)]
  · simp [Within]
  · intro w x
    exact Nat.max_le

/-- The cells of a row, or the reservations, folded to the width of the widest word. -/
theorem foldl_cells_le_iff {n m : Nat} (cells : Vector (Option (Vector Word n)) m) (init b : Nat) :
    cells.foldl (fun w c => max w ((c.map sequenceWidth).getD 0)) init ≤ b ↔
      init ≤ b ∧ ∀ s, some s ∈ cells → Within b s := by
  have hcell (w : Nat) (c : Option (Vector Word n)) :
      max w ((c.map sequenceWidth).getD 0) ≤ b ↔ w ≤ b ∧ ∀ s, c = some s → Within b s := by
    rw [Nat.max_le]
    cases c with
    | none => simp
    | some s => simp [sequenceWidth_le_iff]
  rw [← Vector.foldl_toList, foldl_le_iff hcell]
  simp only [Vector.mem_toList_iff]
  exact and_congr_right fun _ =>
    ⟨fun h s hs => h (some s) hs s rfl, fun h c hc s hs => h s (hs ▸ hc)⟩

/-- The width of the widest word is the least bound on the words of all templates, reservations and
cells. -/
theorem maxWordWidth_le_iff (t : Table) (b : Nat) :
    t.maxWordWidth ≤ b ↔ (∀ s ∈ t.templates, Within b s) ∧ (∀ s, some s ∈ t.reserved → Within b s) ∧
      ∀ (opcode : Nat) (row : Vector (Option (Vector Word t.config.steps)) t.slices),
        t.rows[opcode]? = some row → ∀ s, some s ∈ row → Within b s := by
  have hrow (w : Nat) (p : Nat × Vector (Option (Vector Word t.config.steps)) t.slices) :
      p.2.foldl (fun w c => max w ((c.map sequenceWidth).getD 0)) w ≤ b ↔
        w ≤ b ∧ ∀ s, some s ∈ p.2 → Within b s := foldl_cells_le_iff p.2 w b
  have htemplate (w : Nat) (s : Vector Word t.config.steps) :
      max w (sequenceWidth s) ≤ b ↔ w ≤ b ∧ Within b s := by
    rw [Nat.max_le, sequenceWidth_le_iff]
  dsimp only [maxWordWidth]
  rw [Std.HashMap.fold_eq_foldl_toList, foldl_le_iff hrow, foldl_cells_le_iff,
    ← Vector.foldl_toList, foldl_le_iff htemplate]
  simp only [Nat.zero_le, true_and, Vector.mem_toList_iff, Prod.forall,
    Std.HashMap.mem_toList_iff_getElem?_eq_some, and_assoc]

theorem checkOpcode_of_lt (t : Table) (opcode : Nat) (h : opcode < t.opcodes) :
    t.checkOpcode opcode = .ok () := if_neg (Nat.not_le.mpr h)

theorem checkOpcode_of_le (t : Table) (opcode : Nat) (h : t.opcodes ≤ opcode) :
    t.checkOpcode opcode = .error (.outOfRange (.field .opcode) opcode t.opcodes) := if_pos h

theorem checkOpcode_bind {α : Type} (t : Table) (opcode : Nat) (x : Unit → Except Error α) :
    (t.checkOpcode opcode >>= x) =
      if t.opcodes ≤ opcode then .error (.outOfRange (.field .opcode) opcode t.opcodes)
      else x () := by
  by_cases ho : t.opcodes ≤ opcode
  · rw [checkOpcode_of_le t opcode ho, if_pos ho]
    rfl
  · rw [checkOpcode_of_lt t opcode (Nat.not_le.mp ho), if_neg ho]
    rfl

theorem sequence_of_lt (t : Table) (slice opcode : Nat) (hs : slice < t.slices)
    (ho : opcode < t.opcodes) :
    t.sequence slice opcode =
      .ok (t.reserved[slice].getD ((t.cell slice opcode).getD t.templates[slice])) := by
  rw [sequence, dif_pos hs, checkOpcode_of_lt t opcode ho]
  cases t.reserved[slice] <;> rfl

theorem sequence_of_opcode_le (t : Table) (slice opcode : Nat) (hs : slice < t.slices)
    (ho : t.opcodes ≤ opcode) :
    t.sequence slice opcode = .error (.outOfRange (.field .opcode) opcode t.opcodes) := by
  rw [sequence, dif_pos hs, checkOpcode_of_le t opcode ho]
  rfl

theorem sequence_of_slice_le (t : Table) (slice opcode : Nat) (hs : t.slices ≤ slice) :
    t.sequence slice opcode = .error (.outOfRange (.field .flags) slice t.slices) := by
  rw [sequence, dif_neg (Nat.not_lt.mpr hs)]

theorem lt_of_sequence_eq_ok (t : Table) (slice opcode : Nat) (s : Vector Word t.config.steps)
    (h : t.sequence slice opcode = .ok s) : slice < t.slices ∧ opcode < t.opcodes := by
  by_cases hs : slice < t.slices
  · refine ⟨hs, ?_⟩
    by_contra ho
    rw [sequence_of_opcode_le t slice opcode hs (Nat.not_lt.mp ho)] at h
    cases h
  · rw [sequence_of_slice_le t slice opcode (Nat.not_lt.mp hs)] at h
    cases h

/-- Every word of a template, a reservation or a cell has some property. -/
structure Holds (P : Word → Prop) (t : Table) : Prop where
  templates : ∀ s ∈ t.templates, ∀ w ∈ s, P w
  reserved : ∀ s, some s ∈ t.reserved → ∀ w ∈ s, P w
  rows : ∀ (opcode : Nat) (row : Vector (Option (Vector Word t.config.steps)) t.slices),
    t.rows[opcode]? = some row → ∀ s, some s ∈ row → ∀ w ∈ s, P w

/-- Whatever is read stands in a template, a reservation or a cell. -/
theorem Holds.sequence {P : Word → Prop} {t : Table} (h : t.Holds P) {slice opcode : Nat}
    {s : Vector Word t.config.steps} (hread : t.sequence slice opcode = .ok s) :
    ∀ w ∈ s, P w := by
  obtain ⟨hs, ho⟩ := lt_of_sequence_eq_ok t slice opcode s hread
  rw [sequence_of_lt t slice opcode hs ho] at hread
  cases hr : t.reserved[slice] with
  | some s' =>
    have heq : s' = s := by simpa [hr] using hread
    exact heq ▸ h.reserved s' (hr ▸ Vector.getElem_mem hs)
  | none =>
    cases hc : t.cell slice opcode with
    | none =>
      have heq : t.templates[slice] = s := by simpa [hr, hc] using hread
      exact heq ▸ h.templates _ (Vector.getElem_mem hs)
    | some s' =>
      have heq : s' = s := by simpa [hr, hc] using hread
      obtain ⟨row, hrow, hcell⟩ := Option.bind_eq_some_iff.mp hc
      rw [Vector.getElem?_eq_getElem hs] at hcell
      have hmem : row[slice] = some s' := by simpa using hcell
      exact heq ▸ h.rows opcode row hrow s' (hmem ▸ Vector.getElem_mem hs)

theorem Holds.word {P : Word → Prop} {t : Table} (h : t.Holds P) {slice opcode step : Nat}
    {w : Word} (hread : t.word slice opcode step = .ok w) : P w := by
  unfold Table.word at hread
  split at hread
  · rename_i hstep
    obtain ⟨s, hs, heq⟩ := bind_eq_ok.mp hread
    cases heq
    exact h.sequence hs _ (Vector.getElem_mem hstep)
  · cases hread

theorem word_bitWidth_le (t : Table) (slice opcode step : Nat) (w : Word)
    (h : t.word slice opcode step = .ok w) : w.bitWidth ≤ t.maxWordWidth := by
  obtain ⟨htemplates, hreserved, hrows⟩ := (maxWordWidth_le_iff t t.maxWordWidth).mp le_rfl
  have hholds : t.Holds fun w => w.bitWidth ≤ t.maxWordWidth := ⟨htemplates, hreserved, hrows⟩
  exact hholds.word h

theorem exists_word (t : Table) (slice opcode step : Nat) (hs : slice < t.slices)
    (ho : opcode < t.opcodes) (ht : step < t.config.steps) :
    ∃ w, t.word slice opcode step = .ok w := by
  rw [word, dif_pos ht, sequence_of_lt t slice opcode hs ho]
  exact ⟨_, rfl⟩

theorem toList_fit (c : TableConfig) (steps : List Word) :
    (c.fit steps).toList = (steps ++ List.replicate c.steps c.pad).take c.steps := by
  have hmin : min (c.steps - steps.length) c.steps = c.steps - steps.length := by omega
  show steps.take c.steps ++ List.replicate (c.steps - steps.length) c.pad = _
  rw [List.take_append, List.take_replicate, hmin]

theorem row_eq_cell (t : Table) (slice opcode : Nat) (hs : slice < t.slices) :
    (t.row opcode)[slice] = t.cell slice opcode := by
  unfold row cell
  rw [Std.HashMap.getD_eq_getD_getElem?]
  cases t.rows[opcode]? with
  | none => simp
  | some row => simp [hs]

/-- A definition changes one opcode, and that only where the slice is not reserved. -/
theorem cell_writeRow (t : Table) (opcode : Nat)
    (f : Nat → Option (Vector Word t.config.steps) → Option (Vector Word t.config.steps))
    (slice o : Nat) (hs : slice < t.slices) :
    (t.writeRow opcode f).cell slice o =
      if o = opcode ∧ t.reserved[slice] = none then f slice (t.cell slice o)
      else t.cell slice o := by
  unfold writeRow
  show ((t.rows.insert opcode _)[o]?.bind fun row => row[slice]?.join) = _
  rw [Std.HashMap.getElem?_insert]
  by_cases ho : o = opcode
  · subst ho
    cases hr : t.reserved[slice] with
    | none => simp [hs, hr, row_eq_cell]
    | some s => simp [hs, hr, row_eq_cell]
  · have hne : (opcode == o) = false := by simpa using Ne.symm ho
    rw [hne]
    simp only [ho, false_and, if_false]
    rfl

theorem isDefined_writeRow (t : Table) (opcode : Nat)
    (f : Nat → Option (Vector Word t.config.steps) → Option (Vector Word t.config.steps)) (o : Nat) :
    (t.writeRow opcode f).isDefined o = (opcode == o || t.isDefined o) :=
  Std.HashMap.contains_insert

theorem define_eq (t : Table) (opcode : Nat) (steps : List Word) :
    t.define opcode steps =
      if t.opcodes ≤ opcode then .error (.outOfRange (.field .opcode) opcode t.opcodes)
      else if t.isDefined opcode ∧ t.config.redefine = .reject then
        .error (.duplicateDefinition opcode)
      else .ok (t.writeRow opcode fun _ _ => some (t.config.fit steps)) := by
  rw [define, checkOpcode_bind]
  congr 1

theorem defineWhen_eq (t : Table) (condition : Condition) (opcode : Nat) (steps : List Word)
    (fallback : Option (List Word)) :
    t.defineWhen condition opcode steps fallback =
      if t.opcodes ≤ opcode then .error (.outOfRange (.field .opcode) opcode t.opcodes)
      else .ok (t.writeRow opcode fun slice old =>
        if condition.holds slice then some (t.config.fit steps)
        else match fallback.map t.config.fit with
          | some s => some s
          | none => if t.config.fallback = .reset then none else old) :=
  t.checkOpcode_bind opcode _

theorem seek_eq (t : Table) (opcode : Nat) :
    t.seek opcode =
      if t.opcodes ≤ opcode then .error (.outOfRange (.field .opcode) opcode t.opcodes)
      else .ok { t with cursor := opcode } :=
  t.checkOpcode_bind opcode _

theorem toList_fit_nil (c : TableConfig) :
    (c.fit []).toList = List.replicate c.steps c.pad := by
  rw [toList_fit, List.nil_append, List.take_replicate, Nat.min_self]

theorem perform_of_error (t : Table) (command : TableCommand) (e : Error)
    (h : (t.perform command).2 = .error e) : (t.perform command).1 = t := by
  unfold perform at h ⊢
  split
  · rename_i after hrun
    rw [hrun] at h
    cases h
  · rfl

theorem cell_of_row {t : Table} {slice opcode : Nat}
    {row : Vector (Option (Vector Word t.config.steps)) t.slices} {s : Vector Word t.config.steps}
    (hs : slice < t.slices) (hrow : t.rows[opcode]? = some row) (h : row[slice] = some s) :
    t.cell slice opcode = some s := by
  rw [cell, hrow, Option.bind_some, Vector.getElem?_eq_getElem hs, h]
  rfl

theorem exists_row_of_cell {t : Table} {slice opcode : Nat} {s : Vector Word t.config.steps}
    (hs : slice < t.slices) (h : t.cell slice opcode = some s) :
    ∃ row, t.rows[opcode]? = some row ∧ some s ∈ row := by
  obtain ⟨row, hrow, hcell⟩ := Option.bind_eq_some_iff.mp h
  rw [Vector.getElem?_eq_getElem hs] at hcell
  have hget : row[slice] = some s := hcell
  exact ⟨row, hrow, hget ▸ Vector.getElem_mem hs⟩

/-- The same bound slice by slice. -/
theorem maxWordWidth_le_iff_slices (t : Table) (b : Nat) :
    t.maxWordWidth ≤ b ↔ ∀ slice (h : slice < t.slices), Within b t.templates[slice] ∧
      (∀ s, t.reserved[slice] = some s → Within b s) ∧
      ∀ opcode s, t.cell slice opcode = some s → Within b s := by
  rw [maxWordWidth_le_iff]
  constructor
  · rintro ⟨htemplates, hreserved, hrows⟩ slice h
    refine ⟨htemplates _ (Vector.getElem_mem h), ?_, ?_⟩
    · intro s hs
      exact hreserved s (hs ▸ Vector.getElem_mem h)
    · intro opcode s hs
      obtain ⟨row, hrow, hmem⟩ := exists_row_of_cell h hs
      exact hrows opcode row hrow s hmem
  · intro hall
    refine ⟨?_, ?_, ?_⟩
    · intro s hs
      obtain ⟨slice, h, rfl⟩ := Vector.getElem_of_mem hs
      exact (hall slice h).1
    · intro s hs
      obtain ⟨slice, h, heq⟩ := Vector.getElem_of_mem hs
      exact (hall slice h).2.1 s heq
    · intro opcode row hrow s hs
      obtain ⟨slice, h, heq⟩ := Vector.getElem_of_mem hs
      exact (hall slice h).2.2 opcode s (cell_of_row h hrow heq)

end ControlStore.Table

namespace ControlStore

/-- The words that a request brings. -/
def TableCommand.words : TableCommand → List Word
  | template _ steps => steps
  | reserve _ steps => steps
  | define _ steps => steps
  | defineWhen _ _ steps fallback => steps ++ fallback.getD []
  | seek _ => []
  | defineNext steps => steps
  | defineNextWhen _ steps fallback => steps ++ fallback.getD []

namespace Table

theorem maxWordWidth_le_of_holds {t : Table} {b : Nat} (h : t.Holds fun w => w.bitWidth ≤ b) :
    t.maxWordWidth ≤ b :=
  (maxWordWidth_le_iff t b).mpr ⟨h.templates, h.reserved, h.rows⟩

theorem Holds.mono {P Q : Word → Prop} {t : Table} (h : t.Holds P) (hpq : ∀ w, P w → Q w) :
    t.Holds Q :=
  ⟨fun s hs w hw => hpq w (h.templates s hs w hw), fun s hs w hw => hpq w (h.reserved s hs w hw),
    fun opcode row hrow s hs w hw => hpq w (h.rows opcode row hrow s hs w hw)⟩

theorem mem_fit {c : TableConfig} {steps : List Word} {w : Word} (h : w ∈ c.fit steps) :
    w ∈ steps ∨ w = c.pad := by
  rw [← Vector.mem_toList_iff, toList_fit] at h
  rcases List.mem_append.mp (List.mem_of_mem_take h) with h | h
  · exact .inl h
  · exact .inr (List.eq_of_mem_replicate h)

theorem define_eq_ok {t t' : Table} {opcode : Nat} {steps : List Word}
    (h : t.define opcode steps = .ok t') :
    opcode < t.opcodes ∧ ∃ f, t' = t.writeRow opcode f ∧ ∀ slice old s, f slice old = some s →
      old = some s ∨ ∃ steps', steps' ⊆ steps ∧ s = t.config.fit steps' := by
  rw [define_eq] at h
  split at h
  · cases h
  rename_i hopcode
  split at h
  · cases h
  cases h
  refine ⟨Nat.not_le.mp hopcode, _, rfl, ?_⟩
  intro slice old s hs
  exact .inr ⟨steps, List.Subset.refl _, (Option.some.inj hs).symm⟩

theorem defineWhen_eq_ok {t t' : Table} {condition : Condition} {opcode : Nat} {steps : List Word}
    {fallback : Option (List Word)} (h : t.defineWhen condition opcode steps fallback = .ok t') :
    opcode < t.opcodes ∧ ∃ f, t' = t.writeRow opcode f ∧ ∀ slice old s, f slice old = some s →
      old = some s ∨ ∃ steps', steps' ⊆ steps ++ fallback.getD [] ∧ s = t.config.fit steps' := by
  rw [defineWhen_eq] at h
  split at h
  · cases h
  rename_i hopcode
  cases h
  refine ⟨Nat.not_le.mp hopcode, _, rfl, ?_⟩
  intro slice old s hs
  split at hs
  · exact .inr ⟨steps, List.subset_append_left _ _, (Option.some.inj hs).symm⟩
  cases fallback with
  | some other => exact .inr ⟨other, List.subset_append_right _ _, (Option.some.inj hs).symm⟩
  | none =>
    by_cases hreset : t.config.fallback = .reset
    · simp [hreset] at hs
    · simp only [Option.map_none, hreset, if_false] at hs
      exact .inl hs

/-- Whatever a request does: it changes templates, or reservations, or the cursor, or the cells of
one opcode in range, which take what they held or a sequence that the request brings. -/
theorem run_eq_ok {t t' : Table} {c : TableCommand} (h : t.run c = .ok t') :
    (∃ condition, t' = t.setTemplate condition c.words) ∨
    (∃ condition, t' = t.reserve condition c.words) ∨
    (∃ cursor, t' = { t with cursor }) ∨
    (∃ opcode f cursor, opcode < t.opcodes ∧ t' = { t.writeRow opcode f with cursor } ∧
      ∀ slice old s, f slice old = some s →
        old = some s ∨ ∃ steps, steps ⊆ c.words ∧ s = t.config.fit steps) := by
  cases c with
  | template condition steps =>
    cases h
    exact .inl ⟨condition, rfl⟩
  | reserve condition steps =>
    cases h
    exact .inr (.inl ⟨condition, rfl⟩)
  | seek opcode =>
    rw [run, seek_eq] at h
    split at h
    · cases h
    cases h
    exact .inr (.inr (.inl ⟨opcode, rfl⟩))
  | define opcode steps =>
    obtain ⟨hopcode, f, rfl, hf⟩ := define_eq_ok h
    exact .inr (.inr (.inr ⟨opcode, f, t.cursor, hopcode, rfl, hf⟩))
  | defineWhen condition opcode steps fallback =>
    obtain ⟨hopcode, f, rfl, hf⟩ := defineWhen_eq_ok h
    exact .inr (.inr (.inr ⟨opcode, f, t.cursor, hopcode, rfl, hf⟩))
  | defineNext steps =>
    obtain ⟨t'', ht, rfl⟩ := map_eq_ok.mp h
    obtain ⟨hopcode, f, rfl, hf⟩ := define_eq_ok ht
    exact .inr (.inr (.inr ⟨t.cursor, f, t.cursor + 1, hopcode, rfl, hf⟩))
  | defineNextWhen condition steps fallback =>
    obtain ⟨t'', ht, rfl⟩ := map_eq_ok.mp h
    obtain ⟨hopcode, f, rfl, hf⟩ := defineWhen_eq_ok ht
    exact .inr (.inr (.inr ⟨t.cursor, f, t.cursor + 1, hopcode, rfl, hf⟩))

theorem counts_run {t t' : Table} {c : TableCommand} (h : t.run c = .ok t') :
    t'.config = t.config ∧ t'.slices = t.slices ∧ t'.opcodes = t.opcodes := by
  rcases run_eq_ok h with ⟨condition, rfl⟩ | ⟨condition, rfl⟩ | ⟨cursor, rfl⟩ |
    ⟨opcode, f, cursor, -, rfl, -⟩ <;> exact ⟨rfl, rfl, rfl⟩

theorem steps_pos_of_new {slices opcodes : Nat} {config : TableConfig} {t : Table}
    (h : new slices opcodes config = .ok t) : 0 < config.steps := by
  by_contra hzero
  rw [new, if_pos (Nat.eq_zero_of_not_pos hzero)] at h
  cases h

theorem counts_new {slices opcodes : Nat} {config : TableConfig} {t : Table}
    (h : new slices opcodes config = .ok t) :
    t.config = config ∧ t.slices = slices ∧ t.opcodes = opcodes := by
  unfold new at h
  split at h
  · cases h
  cases h
  exact ⟨rfl, rfl, rfl⟩

theorem holds_new {P : Word → Prop} {slices opcodes : Nat} {config : TableConfig} {t : Table}
    (h : new slices opcodes config = .ok t) (hpad : P config.pad) : t.Holds P := by
  unfold new at h
  split at h
  · cases h
  cases h
  refine ⟨?_, ?_, ?_⟩
  · intro s hs w hw
    rw [(Vector.mem_replicate.mp hs).2] at hw
    rcases mem_fit hw with hw | rfl
    · cases hw
    · exact hpad
  · intro s hs
    simp at hs
  · intro opcode row hrow
    simp at hrow

/-- A new table has the counts it is asked for and holds nothing wider than the pad word. -/
theorem exists_new (slices opcodes : Nat) (config : TableConfig) (h : 0 < config.steps) :
    ∃ t, new slices opcodes config = .ok t ∧ t.slices = slices ∧ t.opcodes = opcodes ∧
      t.config = config ∧ t.maxWordWidth ≤ config.pad.bitWidth := by
  obtain ⟨t, ht⟩ : ∃ t, new slices opcodes config = .ok t := ⟨_, if_neg (Nat.ne_of_gt h)⟩
  obtain ⟨hconfig, hslices, hopcodes⟩ := counts_new ht
  exact ⟨t, ht, hslices, hopcodes, hconfig, maxWordWidth_le_of_holds (holds_new ht le_rfl)⟩

theorem Holds.row {P : Word → Prop} {t : Table} (h : t.Holds P) (opcode : Nat)
    (s : Vector Word t.config.steps) (hs : some s ∈ t.row opcode) : ∀ w ∈ s, P w := by
  rw [Table.row, Std.HashMap.getD_eq_getD_getElem?] at hs
  cases hrow : t.rows[opcode]? with
  | none => simp [hrow] at hs
  | some row =>
    rw [hrow] at hs
    exact h.rows opcode row hrow s hs

/-- Words keep coming from requests and the pad word only. -/
theorem Holds.run {P : Word → Prop} {t t' : Table} {c : TableCommand} (ht : t.Holds P)
    (hpad : P t.config.pad) (hwords : ∀ w ∈ c.words, P w) (h : t.run c = .ok t') : t'.Holds P := by
  have hfit (steps : List Word) (hsub : steps ⊆ c.words) : ∀ w ∈ t.config.fit steps, P w := by
    intro w hw
    rcases mem_fit hw with hw | rfl
    · exact hwords w (hsub hw)
    · exact hpad
  rcases run_eq_ok h with ⟨condition, rfl⟩ | ⟨condition, rfl⟩ | ⟨cursor, rfl⟩ |
    ⟨opcode, f, cursor, -, rfl, hf⟩
  · refine ⟨?_, ht.reserved, ht.rows⟩
    intro s hs
    obtain ⟨slice, hslice, heq⟩ := Vector.mem_mapIdx.mp hs
    split at heq
    · exact heq ▸ hfit _ (List.Subset.refl _)
    · exact heq ▸ ht.templates _ (Vector.getElem_mem hslice)
  · refine ⟨ht.templates, ?_, ht.rows⟩
    intro s hs
    obtain ⟨slice, hslice, heq⟩ := Vector.mem_mapIdx.mp hs
    split at heq
    · exact Option.some.inj heq ▸ hfit _ (List.Subset.refl _)
    · exact ht.reserved s (heq ▸ Vector.getElem_mem hslice)
  · exact ⟨ht.templates, ht.reserved, ht.rows⟩
  · refine ⟨ht.templates, ht.reserved, ?_⟩
    intro o row hrow s hs
    have hget : (t.rows.insert opcode _)[o]? = some row := hrow
    rw [Std.HashMap.getElem?_insert] at hget
    split at hget
    · obtain rfl := Option.some.inj hget
      obtain ⟨slice, hslice, heq⟩ := Vector.mem_mapFinIdx.mp hs
      have hcell : (t.row opcode)[slice] = some s ∨ ∃ steps, steps ⊆ c.words ∧
          s = t.config.fit steps := by
        split at heq
        · exact .inl heq
        · exact hf slice _ s heq
      rcases hcell with hold | ⟨steps, hsub, rfl⟩
      · exact ht.row opcode s (hold ▸ Vector.getElem_mem hslice)
      · exact hfit steps hsub
    · exact ht.rows o row hget s hs

end Table

end ControlStore
