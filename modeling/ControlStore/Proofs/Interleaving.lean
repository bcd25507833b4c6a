import ControlStore.Proofs.DenseTable

/-! Requests about different things are independent. A run that is cut down to its requests about
the templates, the reservations or one opcode answers these as the whole run does, and so two runs
that order them alike read alike. -/

namespace ControlStore

/-- What a request is about. -/
inductive Concern
  | templates
  | reservations
  | opcode (opcode : Nat)
deriving DecidableEq

/-- What a request says it is about. Those that move or use the cursor say nothing. -/
def TableCommand.concern : TableCommand → Option Concern
  | template .. => some .templates
  | reserve .. => some .reservations
  | define opcode _ => some (.opcode opcode)
  | defineWhen _ opcode _ _ => some (.opcode opcode)
  | seek _ => none
  | defineNext _ => none
  | defineNextWhen .. => none

def TableCommand.isAbout (k : Concern) (c : TableCommand) : Bool := c.concern = some k

/-- Both runs make the same requests about each thing in the same order, and no others. -/
structure Interleaved (first second : List TableCommand) : Prop where
  concerned : ∀ c ∈ first ++ second, c.concern ≠ none
  same : ∀ k, first.filter (·.isAbout k) = second.filter (·.isAbout k)

/-- The requests of a run about one thing, each with its answer and the cursor after it. -/
def answersAbout {σ : Type} (perform : σ → TableCommand → σ × Except Error (Option Nat))
    (cursor : σ → Nat) (k : Concern) (s : σ) (commands : List TableCommand) :
    List (TableCommand × Except Error (Option Nat) × Nat) :=
  (commands.zip (transcript perform cursor s commands)).filter fun p => p.1.isAbout k

namespace DenseTable

/-- What two plain tables share that are the same to requests about one thing. A request about an
opcode is skipped in reserved slices, so there the cells may differ: the second table, which no one
reserved anything in, has the cells that the first one has in its free slices. -/
def Same (d d' : DenseTable) : Concern → Prop
  | .templates => d.template = d'.template
  | .reservations => d.reserved = d'.reserved
  | .opcode o => (o ∈ d.named ↔ o ∈ d'.named) ∧ (∀ slice, d'.reserved slice = none) ∧
      ∀ slice, d.reserved slice = none → d.cell slice o = d'.cell slice o

structure Alike (k : Concern) (d d' : DenseTable) : Prop where
  slices : d.slices = d'.slices
  opcodes : d.opcodes = d'.opcodes
  config : d.config = d'.config
  cursor : d.cursor = d'.cursor
  same : d.Same d' k

variable {k : Concern} {d d' : DenseTable}

theorem Alike.fitted (h : Alike k d d') (steps : List Word) : d.fitted steps = d'.fitted steps := by
  rw [DenseTable.fitted, DenseTable.fitted, h.config]

theorem Alike.write {o : Nat} (h : Alike (.opcode o) d d')
    (contents : Nat → Option (List Word) → Option (List Word)) :
    Alike (.opcode o) (d.write o contents) (d'.write o contents) := by
  obtain ⟨-, hfree', hcell⟩ := h.same
  refine ⟨h.slices, h.opcodes, h.config, h.cursor, ?_, hfree', ?_⟩
  · simp [DenseTable.write]
  · -- A write leaves reservations alone, so the slice was free and held the same in both tables.
    intro slice hfree
    have hfree : d.reserved slice = none := hfree
    simp only [DenseTable.write, hfree, hfree' slice, hcell slice hfree]

/-- Writing the cells of an opcode changes nothing for other requests. -/
theorem Alike.write_left {o : Nat} (h : Alike k d d') (hk : k ≠ .opcode o)
    (contents : Nat → Option (List Word) → Option (List Word)) :
    Alike k (d.write o contents) d' := by
  refine ⟨h.slices, h.opcodes, h.config, h.cursor, ?_⟩
  cases k with
  | templates => exact h.same
  | reservations => exact h.same
  | opcode o' =>
    have hne : o' ≠ o := fun heq => hk (congrArg _ heq)
    obtain ⟨hnamed, hfree', hcell⟩ := h.same
    refine ⟨?_, hfree', ?_⟩
    · simpa [DenseTable.write, hne] using hnamed
    · intro slice hfree
      simpa [DenseTable.write, hne] using hcell slice hfree

/-- A request is answered alike by tables that are the same to it. -/
theorem Alike.perform (h : Alike k d d') {c : TableCommand} (hc : c.isAbout k) :
    (d.perform c).2 = (d'.perform c).2 ∧ Alike k (d.perform c).1 (d'.perform c).1 := by
  have hk : c.concern = some k := by simpa [TableCommand.isAbout] using hc
  cases c with
  | template condition steps =>
    cases hk
    refine ⟨rfl, h.slices, h.opcodes, h.config, h.cursor, ?_⟩
    have htemplate : d.template = d'.template := h.same
    simp only [Same, DenseTable.perform, htemplate, h.fitted]
  | reserve condition steps =>
    cases hk
    refine ⟨rfl, h.slices, h.opcodes, h.config, h.cursor, ?_⟩
    have hreserved : d.reserved = d'.reserved := h.same
    simp only [Same, DenseTable.perform, hreserved, h.fitted]
  | define o steps =>
    cases hk
    simp only [DenseTable.perform, DenseTable.define, h.opcodes, h.config, h.same.1, h.fitted]
    split
    · exact ⟨rfl, h⟩
    split
    · exact ⟨rfl, h⟩
    · dsimp only [answering]
      exact ⟨rfl, h.write _⟩
  | defineWhen condition o steps fallback =>
    cases hk
    simp only [DenseTable.perform, DenseTable.defineWhen, h.opcodes, h.config, h.fitted]
    split
    · exact ⟨rfl, h⟩
    · dsimp only [answering]
      exact ⟨rfl, h.write _⟩
  | seek o => cases hk
  | defineNext steps => cases hk
  | defineNextWhen condition steps fallback => cases hk

/-- A request about something else makes no difference. -/
theorem Alike.perform_left (h : Alike k d d') {c : TableCommand} (hconcern : c.concern ≠ none)
    (hc : ¬ c.isAbout k) : Alike k (d.perform c).1 d' := by
  have hk : c.concern ≠ some k := by simpa [TableCommand.isAbout] using hc
  cases c with
  | template condition steps =>
    refine ⟨h.slices, h.opcodes, h.config, h.cursor, ?_⟩
    cases k with
    | templates => exact absurd rfl hk
    | reservations => exact h.same
    | opcode o => exact h.same
  | reserve condition steps =>
    refine ⟨h.slices, h.opcodes, h.config, h.cursor, ?_⟩
    cases k with
    | templates => exact h.same
    | reservations => exact absurd rfl hk
    | opcode o =>
      obtain ⟨hnamed, hfree', hcell⟩ := h.same
      refine ⟨hnamed, hfree', ?_⟩
      intro slice hfree
      refine hcell slice ?_
      by_cases hholds : condition.holds slice
      · simp [DenseTable.perform, hholds] at hfree
      · simpa [DenseTable.perform, hholds] using hfree
  | define o steps =>
    have hne : k ≠ .opcode o := fun heq => hk (congrArg some heq.symm)
    simp only [DenseTable.perform, DenseTable.define]
    split
    · exact h
    split
    · exact h
    · dsimp only [answering]
      exact h.write_left hne _
  | defineWhen condition o steps fallback =>
    have hne : k ≠ .opcode o := fun heq => hk (congrArg some heq.symm)
    simp only [DenseTable.perform, DenseTable.defineWhen]
    split
    · exact h
    · dsimp only [answering]
      exact h.write_left hne _
  | seek o => exact absurd rfl hconcern
  | defineNext steps => exact absurd rfl hconcern
  | defineNextWhen condition steps fallback => exact absurd rfl hconcern

/-- The requests of a run that are about one thing are answered as in the run of these alone. -/
theorem Alike.run (h : Alike k d d') (commands : List TableCommand)
    (hconcern : ∀ c ∈ commands, c.concern ≠ none) :
    answersAbout DenseTable.perform DenseTable.cursor k d commands =
        (commands.filter (·.isAbout k)).zip
          (transcript DenseTable.perform DenseTable.cursor d' (commands.filter (·.isAbout k))) ∧
      Alike k (after DenseTable.perform d commands)
        (after DenseTable.perform d' (commands.filter (·.isAbout k))) := by
  induction commands generalizing d d' with
  | nil => exact ⟨rfl, h⟩
  | cons c rest ih =>
    have hrest : ∀ c ∈ rest, c.concern ≠ none := fun c hc => hconcern c (List.mem_cons_of_mem _ hc)
    by_cases hc : c.isAbout k
    · obtain ⟨hanswer, hnext⟩ := h.perform hc
      obtain ⟨hanswers, hlast⟩ := ih hnext hrest
      rw [List.filter_cons_of_pos hc]
      refine ⟨?_, hlast⟩
      simp only [answersAbout, transcript, List.zip_cons_cons, List.filter_cons, hc, if_true,
        hanswer, hnext.cursor]
      exact congrArg _ hanswers
    · obtain ⟨hanswers, hlast⟩ := ih (h.perform_left (hconcern c List.mem_cons_self) hc) hrest
      rw [List.filter_cons_of_neg hc]
      refine ⟨?_, hlast⟩
      simp only [answersAbout, transcript, List.zip_cons_cons, List.filter_cons, hc]
      exact hanswers

theorem alike_new (slices opcodes : Nat) (config : TableConfig) (k : Concern) :
    Alike k (new slices opcodes config) (new slices opcodes config) := by
  refine ⟨rfl, rfl, rfl, rfl, ?_⟩
  cases k with
  | templates => rfl
  | reservations => rfl
  | opcode o => exact ⟨Iff.rfl, fun _ => rfl, fun _ _ => rfl⟩

/-- A table reads what the requests about its templates, about its reservations and about the
opcode have led to, each of them made alone. -/
theorem sequence_of_alike {parts : Concern → DenseTable} (h : ∀ k, Alike k d (parts k))
    (h' : ∀ k, Alike k d' (parts k)) (slice opcode : Nat) :
    d.sequence slice opcode = d'.sequence slice opcode := by
  have hslices : d.slices = d'.slices := (h .templates).slices.trans (h' .templates).slices.symm
  have hopcodes : d.opcodes = d'.opcodes :=
    (h .templates).opcodes.trans (h' .templates).opcodes.symm
  have htemplate : d.template = d'.template :=
    (h .templates).same.trans (h' .templates).same.symm
  have hreserved : d.reserved = d'.reserved :=
    (h .reservations).same.trans (h' .reservations).same.symm
  simp only [DenseTable.sequence, hslices, hopcodes, htemplate, hreserved]
  -- Cells need not agree under a reservation, but nothing is read of them there.
  cases hr : d'.reserved slice with
  | some s => rfl
  | none =>
    have hcell : d.cell slice opcode = d'.cell slice opcode :=
      ((h (.opcode opcode)).same.2.2 slice (hreserved ▸ hr)).trans
        ((h' (.opcode opcode)).same.2.2 slice hr).symm
    rw [hcell]

end DenseTable

namespace Table

/-- However the requests about the templates, about the reservations and about each opcode are
interleaved, each is answered the same, and the same sequences are read in the end. -/
theorem reads_of_interleaved (slices opcodes : Nat) (config : TableConfig) (t : Table)
    (hnew : Table.new slices opcodes config = .ok t) (first second : List TableCommand)
    (h : Interleaved first second) :
    (∀ k, answersAbout Table.perform Table.cursor k t first =
        answersAbout Table.perform Table.cursor k t second) ∧
      ∀ slice opcode,
        ((after Table.perform t first).sequence slice opcode).map Vector.toList =
          ((after Table.perform t second).sequence slice opcode).map Vector.toList := by
  obtain ⟨t', ht', hshows⟩ := DenseTable.shows_new slices opcodes config (steps_pos_of_new hnew)
  cases hnew.symm.trans ht'
  have hfirst (k : Concern) := (DenseTable.alike_new slices opcodes config k).run first
    fun c hc => h.concerned c (List.mem_append_left _ hc)
  have hsecond (k : Concern) := (DenseTable.alike_new slices opcodes config k).run second
    fun c hc => h.concerned c (List.mem_append_right _ hc)
  simp only [← h.same] at hsecond
  obtain ⟨hanswers, hlast⟩ := hshows.run first
  obtain ⟨hanswers', hlast'⟩ := hshows.run second
  refine ⟨?_, ?_⟩
  · intro k
    rw [answersAbout, answersAbout, hanswers, hanswers']
    exact (hfirst k).1.trans (hsecond k).1.symm
  · intro slice opcode
    rw [hlast.sequence, hlast'.sequence]
    exact DenseTable.sequence_of_alike (fun k => (hfirst k).2) (fun k => (hsecond k).2) slice opcode

/-- Slice one is reserved before any opcode is defined, and opcode one defined twice. -/
def reservedFirst : List TableCommand :=
  [.reserve ⟨[⟨0, true⟩]⟩ [Word.bit 0], .define 1 [Word.bit 1], .define 0 [Word.bit 2],
    .template none [Word.bit 3], .define 1 [], .defineWhen ⟨[⟨0, false⟩]⟩ 0 [] none]

/-- The same requests with the reservation at the end. -/
def reservedLast : List TableCommand :=
  [.template none [Word.bit 3], .define 0 [Word.bit 2], .defineWhen ⟨[⟨0, false⟩]⟩ 0 [] none,
    .define 1 [Word.bit 1], .define 1 [], .reserve ⟨[⟨0, true⟩]⟩ [Word.bit 0]]

theorem reads_of_reservedLast :
    ∃ t, Table.new 2 2 { steps := 1, fallback := .reset, redefine := .reject } = .ok t ∧
      Interleaved reservedFirst reservedLast ∧
      (∀ k, answersAbout Table.perform Table.cursor k t reservedFirst =
        answersAbout Table.perform Table.cursor k t reservedLast) ∧
      ∀ slice opcode,
        ((after Table.perform t reservedFirst).sequence slice opcode).map Vector.toList =
          ((after Table.perform t reservedLast).sequence slice opcode).map Vector.toList := by
  have h : Interleaved reservedFirst reservedLast := by
    refine ⟨by decide, ?_⟩
    intro k
    rcases k with _ | _ | (_ | _ | o) <;> rfl
  obtain ⟨t, ht⟩ : ∃ t, Table.new 2 2
      { steps := 1, fallback := .reset, redefine := .reject } = .ok t := ⟨_, rfl⟩
  exact ⟨t, ht, h, reads_of_interleaved 2 2 _ t ht _ _ h⟩

end Table

end ControlStore
