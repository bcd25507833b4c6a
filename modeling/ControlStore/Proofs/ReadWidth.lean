import ControlStore.Proofs.BurnOutcomes
import ControlStore.Proofs.DenseTable
import Mathlib.Data.Finset.Lattice.Fold
import Mathlib.Data.Finset.Range

/-! The words that addresses read and the words that a table counts. The width of a table is that of
its widest template, reservation or cell, and not all of these are read: a slice that is reserved
hides its template and its cells, and a slice with a cell for every opcode hides its template. A
table is as wide as what is read from it if and only if nothing hidden is wider, and only hidden
words can make lanes too few that hold every word of the images. -/

namespace ControlStore

namespace Table

/-- The width of the word at an address, zero outside the table. -/
def widthAt (t : Table) (slice opcode step : Nat) : Nat :=
  match t.word slice opcode step with
  | .ok w => w.bitWidth
  | .error _ => 0

/-- The width of the widest word that some address reads, zero if there are no addresses. -/
def readWidth (t : Table) : Nat :=
  (Finset.range t.slices).sup fun slice =>
    (Finset.range t.opcodes).sup fun opcode =>
      (Finset.range t.config.steps).sup fun step => t.widthAt slice opcode step

/-- A sequence that stands in the table where no address reads it. -/
inductive Hidden (t : Table) : Vector Word t.config.steps → Prop
  | template (slice : Nat) (h : slice < t.slices)
    (hidden : t.reserved[slice] ≠ none ∨ ∀ opcode < t.opcodes, t.cell slice opcode ≠ none) :
    Hidden t t.templates[slice]
  | cell (slice opcode : Nat) (h : slice < t.slices) (s : Vector Word t.config.steps)
    (hreserved : t.reserved[slice] ≠ none) (hcell : t.cell slice opcode = some s) : Hidden t s
  | reserved (slice : Nat) (h : slice < t.slices) (s : Vector Word t.config.steps)
    (hreserved : t.reserved[slice] = some s) (hopcodes : t.opcodes = 0) : Hidden t s

variable {t : Table} {b : Nat}

theorem readWidth_le_iff :
    t.readWidth ≤ b ↔
      ∀ slice opcode step w, t.word slice opcode step = .ok w → w.bitWidth ≤ b := by
  simp only [readWidth, Finset.sup_le_iff, Finset.mem_range]
  constructor
  · intro h slice opcode step w hw
    obtain ⟨hslice, hopcode, hstep⟩ := lt_of_word_eq_ok hw
    have hwidth := h slice hslice opcode hopcode step hstep
    rwa [widthAt, hw] at hwidth
  · intro h slice hslice opcode hopcode step hstep
    obtain ⟨w, hw⟩ := t.exists_word slice opcode step hslice hopcode hstep
    rw [widthAt, hw]
    exact h slice opcode step w hw

theorem readWidth_le_maxWordWidth (t : Table) : t.readWidth ≤ t.maxWordWidth :=
  readWidth_le_iff.mpr fun slice opcode step w hw => word_bitWidth_le t slice opcode step w hw

/-- A sequence that is read counts with all its words. -/
theorem within_of_sequence {slice opcode : Nat} {s : Vector Word t.config.steps}
    (hs : t.sequence slice opcode = .ok s) (hread : t.readWidth ≤ b) : Within b s := by
  intro w hw
  obtain ⟨step, hstep, rfl⟩ := Vector.getElem_of_mem hw
  apply readWidth_le_iff.mp hread slice opcode step
  rw [word, dif_pos hstep, hs]
  rfl

theorem sequence_of_reserved {slice opcode : Nat} {s : Vector Word t.config.steps}
    (hs : slice < t.slices) (ho : opcode < t.opcodes) (h : t.reserved[slice] = some s) :
    t.sequence slice opcode = .ok s := by
  rw [sequence_of_lt t slice opcode hs ho, h]
  rfl

theorem sequence_of_cell {slice opcode : Nat} {s : Vector Word t.config.steps}
    (hs : slice < t.slices) (ho : opcode < t.opcodes) (hfree : t.reserved[slice] = none)
    (h : t.cell slice opcode = some s) : t.sequence slice opcode = .ok s := by
  rw [sequence_of_lt t slice opcode hs ho, hfree, h]
  rfl

theorem sequence_of_template {slice opcode : Nat} (hs : slice < t.slices)
    (ho : opcode < t.opcodes) (hfree : t.reserved[slice] = none)
    (h : t.cell slice opcode = none) : t.sequence slice opcode = .ok t.templates[slice] := by
  rw [sequence_of_lt t slice opcode hs ho, hfree, h]
  rfl

section held

variable (hread : t.readWidth ≤ b) (hhidden : ∀ s, t.Hidden s → Within b s)

include hread hhidden

theorem within_template (slice : Nat) (hs : slice < t.slices) : Within b t.templates[slice] := by
  by_cases hfree : t.reserved[slice] = none
  · by_cases hall : ∀ opcode < t.opcodes, t.cell slice opcode ≠ none
    · exact hhidden _ (.template slice hs (.inr hall))
    · -- Some opcode has no cell here, and it reads the template.
      obtain ⟨opcode, ho, hcell⟩ : ∃ opcode < t.opcodes, t.cell slice opcode = none := by
        simpa using hall
      exact within_of_sequence (sequence_of_template hs ho hfree hcell) hread
  · exact hhidden _ (.template slice hs (.inl hfree))

theorem within_reserved (slice : Nat) (hs : slice < t.slices) {s : Vector Word t.config.steps}
    (h : t.reserved[slice] = some s) : Within b s := by
  by_cases hopcodes : t.opcodes = 0
  · exact hhidden s (.reserved slice hs s h hopcodes)
  · exact within_of_sequence (sequence_of_reserved hs (Nat.pos_of_ne_zero hopcodes) h) hread

theorem within_cell (slice opcode : Nat) (hs : slice < t.slices) (ho : opcode < t.opcodes)
    {s : Vector Word t.config.steps} (h : t.cell slice opcode = some s) : Within b s := by
  by_cases hfree : t.reserved[slice] = none
  · exact within_of_sequence (sequence_of_cell hs ho hfree h) hread
  · exact hhidden s (.cell slice opcode hs s hfree h)

end held

/-- Nothing hidden is wider than all that the table counts. -/
theorem within_of_hidden {s : Vector Word t.config.steps} (h : t.Hidden s)
    (hwidth : t.maxWordWidth ≤ b) : Within b s := by
  obtain ⟨htemplates, hreserved, hrows⟩ := (maxWordWidth_le_iff t b).mp hwidth
  cases h with
  | template slice hs _ => exact htemplates _ (Vector.getElem_mem hs)
  | cell slice opcode hs s _ hcell =>
    obtain ⟨row, hrow, hmem⟩ := exists_row_of_cell hs hcell
    exact hrows opcode row hrow s hmem
  | reserved slice hs s h _ => exact hreserved s (h ▸ Vector.getElem_mem hs)

/-- Only opcodes that the table has are defined. -/
def DefinedInRange (t : Table) : Prop := ∀ opcode, t.isDefined opcode = true → opcode < t.opcodes

theorem definedInRange_new {slices opcodes : Nat} {config : TableConfig}
    (h : new slices opcodes config = .ok t) : t.DefinedInRange := by
  unfold new at h
  split at h
  · cases h
  cases h
  intro opcode hdefined
  simp [isDefined] at hdefined

theorem DefinedInRange.run {t' : Table} {c : TableCommand} (ht : t.DefinedInRange)
    (h : t.run c = .ok t') : t'.DefinedInRange := by
  rcases run_eq_ok h with ⟨condition, rfl⟩ | ⟨condition, rfl⟩ | ⟨cursor, rfl⟩ |
    ⟨opcode, f, cursor, hopcode, rfl, -⟩
  · exact ht
  · exact ht
  · exact ht
  · intro o ho
    have hor : (opcode == o || t.isDefined o) = true :=
      (isDefined_writeRow t opcode f o).symm.trans ho
    rcases Bool.or_eq_true_iff.mp hor with heq | hdefined
    · rw [← beq_iff_eq.mp heq]
      exact hopcode
    · exact ht o hdefined

theorem DefinedInRange.perform (ht : t.DefinedInRange) (c : TableCommand) :
    (t.perform c).1.DefinedInRange := by
  unfold Table.perform
  split
  · rename_i next hrun
    exact ht.run hrun
  · exact ht

theorem DefinedInRange.after (ht : t.DefinedInRange) (commands : List TableCommand) :
    (after Table.perform t commands).DefinedInRange := by
  induction commands generalizing t with
  | nil => exact ht
  | cons c rest ih => exact ih (ht.perform c)

/-- The table comes from a new one by requests, some of which may have failed. -/
def Reachable (t : Table) : Prop :=
  ∃ slices opcodes config start, Table.new slices opcodes config = .ok start ∧
    ∃ commands, t = ControlStore.after Table.perform start commands

theorem Reachable.definedInRange (h : t.Reachable) : t.DefinedInRange := by
  obtain ⟨slices, opcodes, config, start, hnew, commands, rfl⟩ := h
  exact (definedInRange_new hnew).after commands

/-- A bound holds for all that a table counts if and only if it holds for all that is read and for
all that is hidden. -/
theorem maxWordWidth_le_iff_read (ht : t.DefinedInRange) (b : Nat) :
    t.maxWordWidth ≤ b ↔ t.readWidth ≤ b ∧ ∀ s, t.Hidden s → Within b s := by
  constructor
  · intro hwidth
    exact ⟨t.readWidth_le_maxWordWidth.trans hwidth, fun s hs => within_of_hidden hs hwidth⟩
  · rintro ⟨hread, hhidden⟩
    rw [maxWordWidth_le_iff]
    refine ⟨?_, ?_, ?_⟩
    · intro s hs
      obtain ⟨slice, hslice, rfl⟩ := Vector.getElem_of_mem hs
      exact within_template hread hhidden slice hslice
    · intro s hs
      obtain ⟨slice, hslice, hget⟩ := Vector.getElem_of_mem hs
      exact within_reserved hread hhidden slice hslice hget
    · intro opcode row hrow s hs
      obtain ⟨slice, hslice, hget⟩ := Vector.getElem_of_mem hs
      have hdefined : t.isDefined opcode = true := by
        rw [isDefined, Std.HashMap.contains_eq_isSome_getElem?, hrow]
        rfl
      exact within_cell hread hhidden slice opcode hslice (ht opcode hdefined)
        (cell_of_row hslice hrow hget)

theorem maxWordWidth_eq_readWidth_iff (ht : t.DefinedInRange) :
    t.maxWordWidth = t.readWidth ↔ ∀ s, t.Hidden s → Within t.readWidth s := by
  constructor
  · intro heq
    exact ((maxWordWidth_le_iff_read ht t.readWidth).mp heq.le).2
  · intro hhidden
    apply Nat.le_antisymm
    · exact (maxWordWidth_le_iff_read ht t.readWidth).mpr ⟨le_rfl, hhidden⟩
    · exact t.readWidth_le_maxWordWidth

/-- Where the lanes hold all that is read and the inverted bits, burning overflows if and only if
something hidden does not fit them. -/
theorem burn_overflow_iff_hidden (ht : t.DefinedInRange) {f : RomFormat} {l : Layout}
    (hsuits : f.Suits l) (hread : t.readWidth ≤ f.capacity)
    (hlow : f.activeLow.bitWidth ≤ f.capacity) :
    (∃ width capacity, f.burn t l = .error (.wordOverflow width capacity)) ↔
      ∃ s, t.Hidden s ∧ ¬ Within f.capacity s := by
  have hrequired : f.requiredWidth t ≤ f.capacity ↔ ∀ s, t.Hidden s → Within f.capacity s := by
    rw [RomFormat.requiredWidth, Nat.max_le, maxWordWidth_le_iff_read ht]
    exact ⟨fun h => h.1.2, fun h => ⟨⟨hread, h⟩, hlow⟩⟩
  have hsome : (∃ s, t.Hidden s ∧ ¬ Within f.capacity s) ↔
      ¬ ∀ s, t.Hidden s → Within f.capacity s := by
    simp only [not_forall, exists_prop]
  rw [hsome, ← hrequired, Nat.not_le]
  constructor
  · rintro ⟨width, capacity, hburn⟩
    rcases RomFormat.burn_cases f t l with ⟨-, why, h⟩ | ⟨-, hover, -⟩ |
      ⟨-, -, -, quantity, value, limit, h⟩ | ⟨-, -, -, images, h⟩
    · cases h.symm.trans hburn
    · exact hover
    · cases h.symm.trans hburn
    · cases h.symm.trans hburn
  · intro hover
    exact ⟨_, _, RomFormat.burn_of_overflow hsuits hover⟩

/-- In every table that requests lead to, the widest word that is counted is the widest one that is
read or hidden. So it is the widest that is read if and only if nothing hidden is wider, and lanes
that hold all that is read overflow if and only if they are too few for something hidden. -/
theorem maxWordWidth_of_reachable (t : Table) (h : t.Reachable) :
    (∀ b, t.maxWordWidth ≤ b ↔ t.readWidth ≤ b ∧ ∀ s, t.Hidden s → Within b s) ∧
    (t.maxWordWidth = t.readWidth ↔ ∀ s, t.Hidden s → Within t.readWidth s) ∧
    (∀ (f : RomFormat) (l : Layout), f.Suits l → t.readWidth ≤ f.capacity →
      f.activeLow.bitWidth ≤ f.capacity →
      ((∃ width capacity, f.burn t l = .error (.wordOverflow width capacity)) ↔
        ∃ s, t.Hidden s ∧ ¬ Within f.capacity s)) := by
  have hrange := h.definedInRange
  refine ⟨maxWordWidth_le_iff_read hrange, maxWordWidth_eq_readWidth_iff hrange, ?_⟩
  intro f l hsuits hread hlow
  exact burn_overflow_iff_hidden hrange hsuits hread hlow

/-- A template of nine bits, and then a definition of the only opcode. -/
def coveredTemplate : List TableCommand := [.template none [Word.bit 8], .define 0 [Word.bit 0]]

/-- A layout with one address. -/
def singleAddress : Layout :=
  ⟨[(.flags, 0), (.opcode, 0), (.step, 0)], ⟨by decide, by decide, by decide, by decide, by decide⟩⟩

/-- The template is hidden and takes nine bits, the only word that is read takes one, and a lane of
eight bits is too narrow for the table. -/
theorem maxWordWidth_of_coveredTemplate :
    ∃ t : Table, t.Reachable ∧ t.slices = 1 ∧ t.opcodes = 1 ∧ t.config.steps = 1 ∧
      t.word 0 0 0 = .ok (Word.bit 0) ∧ t.readWidth = 1 ∧ t.maxWordWidth = 9 ∧
      RomFormat.burn {} t singleAddress = .error (.wordOverflow 9 8) := by
  have hrun : (Table.new 1 1 { steps := 1 }).toOption.any (fun start =>
      let t := after perform start coveredTemplate
      decide (t.slices = 1 ∧ t.opcodes = 1 ∧ t.config.steps = 1 ∧
        t.word 0 0 0 = .ok (Word.bit 0) ∧ t.readWidth = 1 ∧ t.maxWordWidth = 9 ∧
        RomFormat.burn {} t singleAddress = .error (.wordOverflow 9 8))) = true := by
    decide +kernel
  obtain ⟨start, hnew, hfacts⟩ := exists_ok_of_any hrun
  exact ⟨_, ⟨1, 1, { steps := 1 }, start, hnew, coveredTemplate, rfl⟩, of_decide_eq_true hfacts⟩

/-- Something hidden is to blame for that. -/
theorem exists_hidden_of_coveredTemplate :
    ∃ t : Table, t.Reachable ∧ t.maxWordWidth ≠ t.readWidth ∧
      ∃ s, t.Hidden s ∧ ¬ Within t.readWidth s := by
  have hrun : (Table.new 1 1 { steps := 1 }).toOption.any (fun start =>
      let t := after perform start coveredTemplate
      decide (t.maxWordWidth ≠ t.readWidth)) = true := by
    decide +kernel
  obtain ⟨start, hnew, hne⟩ := exists_ok_of_any hrun
  have hreachable : (after perform start coveredTemplate).Reachable :=
    ⟨1, 1, { steps := 1 }, start, hnew, coveredTemplate, rfl⟩
  have hne := of_decide_eq_true hne
  refine ⟨_, hreachable, hne, ?_⟩
  obtain ⟨-, hiff, -⟩ := maxWordWidth_of_reachable _ hreachable
  by_contra hnone
  apply hne
  apply hiff.mpr
  intro s hs
  by_contra hwide
  exact hnone ⟨s, hs, hwide⟩

end Table

end ControlStore
