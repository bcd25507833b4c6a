import ControlStore.Proofs.Table

/-! A table told plainly: one cell for every slice and opcode, unset until a definition writes it.
The table with its rows and vectors answers every run of requests as the plain one does. -/

namespace ControlStore

/-- The plain table. Cells, templates and reservations are functions of the slice. -/
structure DenseTable where
  slices : Nat
  opcodes : Nat
  config : TableConfig
  template : Nat → List Word
  reserved : Nat → Option (List Word)
  cell : Nat → Nat → Option (List Word)
  /-- The opcodes that successful definitions have named. -/
  named : List Nat
  cursor : Nat

namespace DenseTable

def new (slices opcodes : Nat) (config : TableConfig) : DenseTable :=
  { slices, opcodes, config
    template := fun _ => List.replicate config.steps config.pad
    reserved := fun _ => none
    cell := fun _ _ => none
    named := []
    cursor := 0 }

/-- A sequence followed by as many pad words as it takes, cut at the step count. -/
def fitted (d : DenseTable) (steps : List Word) : List Word :=
  (steps ++ List.replicate d.config.steps d.config.pad).take d.config.steps

/-- Gives the cells of an opcode new contents in all slices but the reserved ones. -/
def write (d : DenseTable) (opcode : Nat)
    (contents : Nat → Option (List Word) → Option (List Word)) : DenseTable :=
  { d with
    cell := fun slice o =>
      if o = opcode ∧ d.reserved slice = none then contents slice (d.cell slice o)
      else d.cell slice o
    named := opcode :: d.named }

def define (d : DenseTable) (opcode : Nat) (steps : List Word) : Except Error DenseTable :=
  if d.opcodes ≤ opcode then .error (.outOfRange (.field .opcode) opcode d.opcodes)
  else if opcode ∈ d.named ∧ d.config.redefine = .reject then .error (.duplicateDefinition opcode)
  else .ok (d.write opcode fun _ _ => some (d.fitted steps))

def defineWhen (d : DenseTable) (condition : Condition) (opcode : Nat) (steps : List Word)
    (fallback : Option (List Word)) : Except Error DenseTable :=
  if d.opcodes ≤ opcode then .error (.outOfRange (.field .opcode) opcode d.opcodes)
  else .ok (d.write opcode fun slice old =>
    if condition.holds slice then some (d.fitted steps)
    else match fallback, d.config.fallback with
      | some other, _ => some (d.fitted other)
      | none, .reset => none
      | none, .preserve => old)

def seek (d : DenseTable) (opcode : Nat) : Except Error DenseTable :=
  if d.opcodes ≤ opcode then .error (.outOfRange (.field .opcode) opcode d.opcodes)
  else .ok { d with cursor := opcode }

/-- The table after a request and the answer to it. Nothing changes if the request fails. -/
def answering (d : DenseTable) (result : Except Error DenseTable) (answer : Option Nat) :
    DenseTable × Except Error (Option Nat) :=
  match result with
  | .ok after => (after, .ok answer)
  | .error e => (d, .error e)

def advance (d : DenseTable) : DenseTable := { d with cursor := d.cursor + 1 }

def perform (d : DenseTable) : TableCommand → DenseTable × Except Error (Option Nat)
  | .template condition steps =>
    ({ d with
      template := fun slice =>
        if condition.all (fun c => c.holds slice) then d.fitted steps else d.template slice },
      .ok none)
  | .reserve condition steps =>
    ({ d with
      reserved := fun slice =>
        if condition.holds slice then some (d.fitted steps) else d.reserved slice },
      .ok none)
  | .define opcode steps => d.answering (d.define opcode steps) none
  | .defineWhen condition opcode steps fallback =>
    d.answering (d.defineWhen condition opcode steps fallback) none
  | .seek opcode => d.answering (d.seek opcode) none
  | .defineNext steps => d.answering ((d.define d.cursor steps).map advance) (some d.cursor)
  | .defineNextWhen condition steps fallback =>
    d.answering ((d.defineWhen condition d.cursor steps fallback).map advance) (some d.cursor)

/-- The sequence of an instruction: a reserved slice reads the same for all opcodes, an unset cell
reads the template its slice has by then. -/
def sequence (d : DenseTable) (slice opcode : Nat) : Except Error (List Word) :=
  if d.slices ≤ slice then .error (.outOfRange (.field .flags) slice d.slices)
  else if d.opcodes ≤ opcode then .error (.outOfRange (.field .opcode) opcode d.opcodes)
  else .ok ((d.reserved slice).getD ((d.cell slice opcode).getD (d.template slice)))

/-- The word of one micro-step. -/
def word (d : DenseTable) (slice opcode step : Nat) : Except Error Word :=
  if d.config.steps ≤ step then .error (.outOfRange (.field .step) step d.config.steps)
  else (d.sequence slice opcode).map fun s => s.getD step d.config.pad

/-- No word of a template, a reservation or a cell is wider. -/
def Within (d : DenseTable) (b : Nat) : Prop :=
  ∀ slice < d.slices, (∀ w ∈ d.template slice, w.bitWidth ≤ b) ∧
    (∀ s, d.reserved slice = some s → ∀ w ∈ s, w.bitWidth ≤ b) ∧
    ∀ opcode s, d.cell slice opcode = some s → ∀ w ∈ s, w.bitWidth ≤ b

/-- The plain table agrees with a table on everything that can be asked of it. -/
structure Shows (d : DenseTable) (t : Table) : Prop where
  slices : d.slices = t.slices
  opcodes : d.opcodes = t.opcodes
  config : d.config = t.config
  template : ∀ slice (h : slice < t.slices), d.template slice = t.templates[slice].toList
  reserved : ∀ slice (h : slice < t.slices),
    d.reserved slice = t.reserved[slice].map Vector.toList
  cell : ∀ slice opcode, slice < t.slices →
    d.cell slice opcode = (t.cell slice opcode).map Vector.toList
  named : ∀ opcode, opcode ∈ d.named ↔ t.isDefined opcode
  cursor : d.cursor = t.cursor

end DenseTable

/-- The table that requests made one after another lead to. -/
def after {σ : Type} (perform : σ → TableCommand → σ × Except Error (Option Nat)) (s : σ)
    (commands : List TableCommand) : σ :=
  commands.foldl (fun s c => (perform s c).1) s

/-- The answers to requests made one after another, each with the cursor after it. -/
def transcript {σ : Type} (perform : σ → TableCommand → σ × Except Error (Option Nat))
    (cursor : σ → Nat) (s : σ) : List TableCommand → List (Except Error (Option Nat) × Nat)
  | [] => []
  | c :: rest =>
    ((perform s c).2, cursor (perform s c).1) :: transcript perform cursor (perform s c).1 rest

/-- Tables that agree and that every request leaves so answer whole runs of requests alike. -/
theorem run_of_perform {σ τ : Type} {perform : σ → TableCommand → σ × Except Error (Option Nat)}
    {perform' : τ → TableCommand → τ × Except Error (Option Nat)} {cursor : σ → Nat}
    {cursor' : τ → Nat} {Agree : σ → τ → Prop}
    (hperform : ∀ s t c, Agree s t →
      (perform s c).2 = (perform' t c).2 ∧ Agree (perform s c).1 (perform' t c).1)
    (hcursor : ∀ s t, Agree s t → cursor s = cursor' t) {s : σ} {t : τ} (h : Agree s t)
    (commands : List TableCommand) :
    transcript perform cursor s commands = transcript perform' cursor' t commands ∧
      Agree (after perform s commands) (after perform' t commands) := by
  induction commands generalizing s t with
  | nil => exact ⟨rfl, h⟩
  | cons c rest ih =>
    obtain ⟨hanswer, hnext⟩ := hperform s t c h
    obtain ⟨hrest, hlast⟩ := ih hnext
    refine ⟨?_, hlast⟩
    rw [transcript, transcript, hanswer, hcursor _ _ hnext, hrest]

namespace DenseTable

theorem fitted_eq (d : DenseTable) (t : Table) (h : d.Shows t) (steps : List Word) :
    d.fitted steps = (t.config.fit steps).toList := by
  rw [Table.toList_fit, fitted, h.config]

theorem shows_new (slices opcodes : Nat) (config : TableConfig) (hsteps : 0 < config.steps) :
    ∃ t, Table.new slices opcodes config = .ok t ∧ (new slices opcodes config).Shows t := by
  refine ⟨_, if_neg (Nat.ne_of_gt hsteps), rfl, rfl, rfl, ?_, ?_, ?_, ?_, rfl⟩
  · intro slice h
    simp [new, Table.toList_fit_nil]
  · intro slice h
    simp [new]
  · intro slice opcode h
    simp [new, Table.cell]
  · intro opcode
    simp [new, Table.isDefined]

theorem Shows.write {d : DenseTable} {t : Table} (h : d.Shows t) (opcode : Nat)
    (contents : Nat → Option (List Word) → Option (List Word))
    (f : Nat → Option (Vector Word t.config.steps) → Option (Vector Word t.config.steps))
    (hf : ∀ slice old, contents slice (old.map Vector.toList) = (f slice old).map Vector.toList) :
    (d.write opcode contents).Shows (t.writeRow opcode f) := by
  refine ⟨h.slices, h.opcodes, h.config, h.template, h.reserved, ?_, ?_, h.cursor⟩
  · intro slice o hs
    have hfree : d.reserved slice = none ↔ t.reserved[slice] = none := by
      rw [h.reserved slice hs, Option.map_eq_none_iff]
    rw [Table.cell_writeRow t opcode f slice o hs]
    dsimp only [DenseTable.write]
    simp only [hfree, h.cell slice o hs, hf]
    split <;> rfl
  · intro o
    rw [Table.isDefined_writeRow]
    show o ∈ opcode :: d.named ↔ _
    rw [List.mem_cons, h.named o, Bool.or_eq_true, beq_iff_eq, eq_comm]

theorem Shows.advance {d : DenseTable} {t : Table} (h : d.Shows t) : d.advance.Shows t.advance :=
  ⟨h.slices, h.opcodes, h.config, h.template, h.reserved, h.cell, h.named,
    congrArg (· + 1) h.cursor⟩

/-- Both results are the same error, or tables that agree. -/
inductive Agree : Except Error DenseTable → Except Error Table → Prop
  | error (e : Error) : Agree (.error e) (.error e)
  | ok {d : DenseTable} {t : Table} (h : d.Shows t) : Agree (.ok d) (.ok t)

theorem Shows.define {d : DenseTable} {t : Table} (h : d.Shows t) (opcode : Nat)
    (steps : List Word) : Agree (d.define opcode steps) (t.define opcode steps) := by
  rw [Table.define_eq, DenseTable.define]
  simp only [h.opcodes, h.named opcode, h.config]
  split
  · exact .error _
  split
  · exact .error _
  · exact .ok (h.write _ _ _ fun _ _ => congrArg some (fitted_eq d t h steps))

theorem Shows.defineWhen {d : DenseTable} {t : Table} (h : d.Shows t) (condition : Condition)
    (opcode : Nat) (steps : List Word) (fallback : Option (List Word)) :
    Agree (d.defineWhen condition opcode steps fallback)
      (t.defineWhen condition opcode steps fallback) := by
  rw [Table.defineWhen_eq, DenseTable.defineWhen]
  simp only [h.opcodes, h.config]
  split
  · exact .error _
  · refine .ok (h.write _ _ _ ?_)
    intro slice old
    by_cases hc : condition.holds slice
    · simp only [hc, if_true]
      exact congrArg some (fitted_eq d t h steps)
    · simp only [hc]
      cases fallback with
      | some other => exact congrArg some (fitted_eq d t h other)
      | none => cases t.config.fallback <;> rfl

theorem Shows.seek {d : DenseTable} {t : Table} (h : d.Shows t) (opcode : Nat) :
    Agree (d.seek opcode) (t.seek opcode) := by
  rw [Table.seek_eq, DenseTable.seek]
  by_cases ho : t.opcodes ≤ opcode
  · rw [if_pos ho, if_pos (h.opcodes ▸ ho), h.opcodes]
    exact .error _
  · rw [if_neg ho, if_neg (h.opcodes ▸ ho)]
    exact .ok ⟨h.slices, h.opcodes, h.config, h.template, h.reserved, h.cell, h.named, rfl⟩

theorem Agree.advance {r : Except Error DenseTable} {s : Except Error Table} (h : Agree r s) :
    Agree (r.map DenseTable.advance) (s.map Table.advance) := by
  cases h with
  | error e => exact .error e
  | ok h => exact .ok h.advance

/-- Results that agree give the same answer and lead on to tables that agree. -/
theorem Agree.answering {d : DenseTable} {t : Table} (h : d.Shows t)
    {r : Except Error DenseTable} {c : TableCommand} (hr : Agree r (t.run c)) (answer : Option Nat)
    (ha : answer = t.answer c) :
    (d.answering r answer).2 = (t.perform c).2 ∧ (d.answering r answer).1.Shows (t.perform c).1 := by
  unfold Table.perform
  generalize t.run c = s at hr
  cases hr with
  | error e => exact ⟨rfl, h⟩
  | ok h' => exact ⟨congrArg Except.ok ha, h'⟩

/-- One request. -/
theorem Shows.perform {d : DenseTable} {t : Table} (h : d.Shows t) (c : TableCommand) :
    (d.perform c).2 = (t.perform c).2 ∧ (d.perform c).1.Shows (t.perform c).1 := by
  cases c with
  | template condition steps =>
    refine ⟨rfl, h.slices, h.opcodes, h.config, ?_, h.reserved, h.cell, h.named, h.cursor⟩
    intro slice hs
    have hget : (t.setTemplate condition steps).templates[slice] =
        if condition.all (fun c => c.holds slice) then t.config.fit steps
        else t.templates[slice] := Vector.getElem_mapIdx hs
    show (if _ then _ else _) = (t.setTemplate condition steps).templates[slice].toList
    rw [hget, fitted_eq d t h steps, h.template slice hs]
    split <;> rfl
  | reserve condition steps =>
    refine ⟨rfl, h.slices, h.opcodes, h.config, h.template, ?_, h.cell, h.named, h.cursor⟩
    intro slice hs
    have hget : (t.reserve condition steps).reserved[slice] =
        if condition.holds slice then some (t.config.fit steps) else t.reserved[slice] :=
      Vector.getElem_mapIdx hs
    show (if _ then _ else _) = (t.reserve condition steps).reserved[slice].map Vector.toList
    rw [hget, fitted_eq d t h steps, h.reserved slice hs]
    split <;> rfl
  | define opcode steps => exact (h.define opcode steps).answering h none rfl
  | defineWhen condition opcode steps fallback =>
    exact (h.defineWhen condition opcode steps fallback).answering h none rfl
  | seek opcode => exact (h.seek opcode).answering h none rfl
  | defineNext steps =>
    have hnext : Agree ((d.define d.cursor steps).map DenseTable.advance)
        (t.run (.defineNext steps)) := h.cursor ▸ (h.define d.cursor steps).advance
    exact hnext.answering h (some d.cursor) (congrArg some h.cursor)
  | defineNextWhen condition steps fallback =>
    have hnext : Agree ((d.defineWhen condition d.cursor steps fallback).map DenseTable.advance)
        (t.run (.defineNextWhen condition steps fallback)) :=
      h.cursor ▸ (h.defineWhen condition d.cursor steps fallback).advance
    exact hnext.answering h (some d.cursor) (congrArg some h.cursor)

/-- A run of requests, from what each of them does. -/
theorem Shows.run {d : DenseTable} {t : Table} (h : d.Shows t) (commands : List TableCommand) :
    transcript Table.perform Table.cursor t commands =
        transcript DenseTable.perform DenseTable.cursor d commands ∧
      (after DenseTable.perform d commands).Shows (after Table.perform t commands) := by
  obtain ⟨hanswers, hlast⟩ :=
    run_of_perform (fun _ _ c h => h.perform c) (fun _ _ h => h.cursor) h commands
  exact ⟨hanswers.symm, hlast⟩

theorem Shows.sequence {d : DenseTable} {t : Table} (h : d.Shows t) (slice opcode : Nat) :
    (t.sequence slice opcode).map Vector.toList = d.sequence slice opcode := by
  rw [DenseTable.sequence, h.slices, h.opcodes]
  by_cases hs : t.slices ≤ slice
  · rw [if_pos hs, Table.sequence_of_slice_le t slice opcode hs]
    rfl
  by_cases ho : t.opcodes ≤ opcode
  · rw [if_neg hs, if_pos ho, Table.sequence_of_opcode_le t slice opcode (Nat.not_le.mp hs) ho]
    rfl
  have hlt : slice < t.slices := Nat.not_le.mp hs
  rw [if_neg hs, if_neg ho, Table.sequence_of_lt t slice opcode hlt (Nat.not_le.mp ho),
    h.reserved slice hlt, h.cell slice opcode hlt, h.template slice hlt]
  cases t.reserved[slice] with
  | some s => rfl
  | none => cases t.cell slice opcode <;> rfl

theorem Shows.word {d : DenseTable} {t : Table} (h : d.Shows t) (slice opcode step : Nat) :
    t.word slice opcode step = d.word slice opcode step := by
  rw [DenseTable.word, ← h.sequence slice opcode, h.config]
  by_cases hstep : step < t.config.steps
  · rw [Table.word, dif_pos hstep, if_neg (Nat.not_le.mpr hstep)]
    cases t.sequence slice opcode with
    | error e => rfl
    | ok s =>
      have hget : s.toList.getD step t.config.pad = s[step] := by
        simp [hstep]
      exact congrArg Except.ok hget.symm
  · rw [Table.word, dif_neg hstep, if_pos (Nat.not_lt.mp hstep)]

theorem Shows.maxWordWidth_le_iff {d : DenseTable} {t : Table} (h : d.Shows t) (b : Nat) :
    t.maxWordWidth ≤ b ↔ d.Within b := by
  have hsome (x : Option (Vector Word t.config.steps)) :
      (∀ s, x = some s → Table.Within b s) ↔
        ∀ s, x.map Vector.toList = some s → ∀ w ∈ s, w.bitWidth ≤ b := by
    cases x with
    | none => simp
    | some s => simp [Table.Within]
  rw [Table.maxWordWidth_le_iff_slices, Within, h.slices]
  refine forall₂_congr fun slice hs => ?_
  rw [h.template slice hs, h.reserved slice hs, hsome]
  simp only [h.cell slice _ hs, hsome, Vector.mem_toList_iff]
  rfl

/-- A table answers every run of requests as the plain table does, moves its cursor with it and
reads the same sequences and words after it. A request that fails leaves the table as it was. -/
theorem table_refines_dense (slices opcodes : Nat) (config : TableConfig)
    (hsteps : 0 < config.steps) :
    ∃ t, Table.new slices opcodes config = .ok t ∧ ∀ commands : List TableCommand,
      transcript Table.perform Table.cursor t commands =
        transcript DenseTable.perform DenseTable.cursor (new slices opcodes config) commands ∧
      (∀ slice opcode,
        ((after Table.perform t commands).sequence slice opcode).map Vector.toList =
          (after DenseTable.perform (new slices opcodes config) commands).sequence slice opcode) ∧
      (∀ slice opcode step,
        (after Table.perform t commands).word slice opcode step =
          (after DenseTable.perform (new slices opcodes config) commands).word slice opcode step) ∧
      ∀ command e, ((after Table.perform t commands).perform command).2 = .error e →
        ((after Table.perform t commands).perform command).1 = after Table.perform t commands := by
  obtain ⟨t, ht, hshows⟩ := shows_new slices opcodes config hsteps
  refine ⟨t, ht, fun commands => ?_⟩
  obtain ⟨hanswers, hlast⟩ := hshows.run commands
  refine ⟨hanswers, hlast.sequence, hlast.word, ?_⟩
  intro command e he
  exact Table.perform_of_error _ command e he

/-- A template given late shows where a cell was reset, and not where one was written. -/
theorem late_template_shows :
    ∃ t, Table.new 2 2 { steps := 2, fallback := .reset, redefine := .reject } = .ok t ∧
      transcript Table.perform Table.cursor t
          [.defineNext [Word.bit 0], .defineNext [Word.bit 1],
            .defineWhen ⟨[⟨0, true⟩]⟩ 1 [Word.bit 2] none, .template none [Word.bit 3],
            .define 1 [], .defineNext []] =
        [(.ok (some 0), 1), (.ok (some 1), 2), (.ok none, 2), (.ok none, 2),
          (.error (.duplicateDefinition 1), 2),
          (.error (.outOfRange (.field .opcode) 2 2), 2)] ∧
      ((after Table.perform t
          [.defineNext [Word.bit 0], .defineNext [Word.bit 1],
            .defineWhen ⟨[⟨0, true⟩]⟩ 1 [Word.bit 2] none,
            .template none [Word.bit 3]]).sequence 0 1).map Vector.toList =
        .ok [Word.bit 3, Word.zero] := by
  obtain ⟨t, ht, hrun⟩ := table_refines_dense 2 2
    { steps := 2, fallback := .reset, redefine := .reject } (by decide)
  refine ⟨t, ht, ?_, ?_⟩
  · rw [(hrun _).1]
    decide
  · rw [(hrun _).2.1]
    decide

end DenseTable

end ControlStore
