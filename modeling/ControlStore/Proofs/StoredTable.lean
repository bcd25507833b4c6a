import ControlStore.Proofs.Procedures
import ControlStore.Proofs.DenseTable
import Std.Data.HashSet

/-! A table with its indices. Sequences are kept in the order in which they were written, and
templates, reservations and cells are positions among them. A request checks and writes step by
step, and the table that it leaves is there also when it fails. -/

namespace ControlStore

structure StoredTable where
  config : TableConfig
  slices : Nat
  opcodes : Nat
  /-- Every sequence that was ever written. The first one has pad words only. -/
  arena : Array (List Word)
  templates : Array Nat
  reserved : Array (Option Nat)
  overrides : Std.HashMap (Nat × Nat) Nat
  defined : Std.HashSet Nat
  cursor : Nat

namespace StoredTable

open Procedure

def new (slices opcodes : Nat) (config : TableConfig) : Except Error StoredTable :=
  if config.steps = 0 then .error (.invalid .noSteps)
  else .ok {
    config, slices, opcodes
    arena := #[List.replicate config.steps config.pad]
    templates := Array.replicate slices 0
    reserved := Array.replicate slices none
    overrides := {}
    defined := {}
    cursor := 0 }

/-- The first words of a sequence, followed by pad words up to the step count. -/
def fit (s : StoredTable) (steps : List Word) : List Word :=
  let kept := steps.take s.config.steps
  kept ++ List.replicate (s.config.steps - kept.length) s.config.pad

/-- Adds a sequence to those that were written and gives its position. -/
def store (steps : List Word) : Procedure StoredTable Nat := do
  let s ← get
  set { s with arena := s.arena.push (s.fit steps) }
  return s.arena.size

def checkOpcode (opcode : Nat) : Procedure StoredTable Unit := do
  let s ← get
  if s.opcodes ≤ opcode then throw (.outOfRange (.field .opcode) opcode s.opcodes)

/-- A defined opcode may have to stay as it is. -/
def checkRedefinition (opcode : Nat) : Procedure StoredTable Unit := do
  let s ← get
  if s.defined.contains opcode ∧ s.config.redefine = .reject then
    throw (.duplicateDefinition opcode)

/-- The slices where a condition holds, or all of them. -/
def matching (s : StoredTable) (condition : Option Condition) : List Nat :=
  (List.range s.slices).filter fun slice => condition.all fun c => c.holds slice

/-- The slices that are not reserved. -/
def writable (s : StoredTable) : List Nat :=
  (List.range s.slices).filter fun slice => (s.reserved[slice]?.join).isNone

def setTemplate (condition : Option Condition) (steps : List Word) :
    Procedure StoredTable Unit := do
  let index ← store steps
  ((← get).matching condition).forM fun slice =>
    modify fun s => { s with templates := s.templates.setIfInBounds slice index }

def reserve (condition : Condition) (steps : List Word) : Procedure StoredTable Unit := do
  let index ← store steps
  ((← get).matching (some condition)).forM fun slice =>
    modify fun s => { s with reserved := s.reserved.setIfInBounds slice (some index) }

/-- Changes the overrides of an opcode, slice by slice where nothing is reserved. -/
def overwrite (opcode : Nat)
    (change : Std.HashMap (Nat × Nat) Nat → Nat × Nat → Std.HashMap (Nat × Nat) Nat) :
    Procedure StoredTable Unit := do
  (← get).writable.forM fun slice =>
    modify fun s => { s with overrides := change s.overrides (slice, opcode) }
  modify fun s => { s with defined := s.defined.insert opcode }

def define (opcode : Nat) (steps : List Word) : Procedure StoredTable Unit := do
  checkOpcode opcode
  checkRedefinition opcode
  let index ← store steps
  overwrite opcode fun overrides key => overrides.insert key index

/-- What a conditional definition does to the override of one slice. -/
def changeWhen (condition : Condition) (matched : Nat) (other : Option Nat) (policy : Fallback)
    (overrides : Std.HashMap (Nat × Nat) Nat) (key : Nat × Nat) : Std.HashMap (Nat × Nat) Nat :=
  if condition.holds key.1 then overrides.insert key matched
  else match other, policy with
    | some index, _ => overrides.insert key index
    | none, .reset => overrides.erase key
    | none, .preserve => overrides

def defineWhen (condition : Condition) (opcode : Nat) (steps : List Word)
    (fallback : Option (List Word)) : Procedure StoredTable Unit := do
  checkOpcode opcode
  let matched ← store steps
  let other ← fallback.mapM store
  let policy := (← get).config.fallback
  overwrite opcode (changeWhen condition matched other policy)

def seek (opcode : Nat) : Procedure StoredTable Unit := do
  checkOpcode opcode
  modify fun s => { s with cursor := opcode }

/-- Defines the opcode at the cursor and gives it. -/
def defineNext (definition : Nat → Procedure StoredTable Unit) : Procedure StoredTable Nat := do
  let opcode := (← get).cursor
  definition opcode
  modify fun s => { s with cursor := s.cursor + 1 }
  return opcode

def request : TableCommand → Procedure StoredTable (Option Nat)
  | .template condition steps => do
    setTemplate condition steps
    return none
  | .reserve condition steps => do
    reserve condition steps
    return none
  | .define opcode steps => do
    define opcode steps
    return none
  | .defineWhen condition opcode steps fallback => do
    defineWhen condition opcode steps fallback
    return none
  | .seek opcode => do
    seek opcode
    return none
  | .defineNext steps => do
    return some (← defineNext fun opcode => define opcode steps)
  | .defineNextWhen condition steps fallback => do
    return some (← defineNext fun opcode => defineWhen condition opcode steps fallback)

/-- The table that a request leaves, and the answer or the error. -/
def perform (s : StoredTable) (c : TableCommand) : StoredTable × Except Error (Option Nat) :=
  (request c).perform s

/-- The position of the sequence that an instruction reads. -/
def index (s : StoredTable) (slice opcode : Nat) : Except Error Nat :=
  if s.slices ≤ slice then .error (.outOfRange (.field .flags) slice s.slices)
  else if s.opcodes ≤ opcode then .error (.outOfRange (.field .opcode) opcode s.opcodes)
  else .ok (s.reserved[slice]?.join.getD
    (s.overrides[(slice, opcode)]?.getD (s.templates.getD slice 0)))

def sequence (s : StoredTable) (slice opcode : Nat) : Except Error (List Word) :=
  (s.index slice opcode).map fun index => s.arena.getD index []

def word (s : StoredTable) (slice opcode step : Nat) : Except Error Word :=
  if s.config.steps ≤ step then .error (.outOfRange (.field .step) step s.config.steps)
  else (s.sequence slice opcode).map fun sequence => sequence.getD step s.config.pad

/-- The positions that anything refers to. -/
def referred (s : StoredTable) : List Nat :=
  s.templates.toList ++ s.reserved.toList.filterMap id ++ s.overrides.toList.map Prod.snd

def maxWordWidth (s : StoredTable) : Nat :=
  (s.referred.flatMap fun index => s.arena.getD index []).foldl (fun w x => max w x.bitWidth) 0

theorem run_checkOpcode (s : StoredTable) (opcode : Nat) :
    (checkOpcode opcode).run s =
      if s.opcodes ≤ opcode then .error (.outOfRange (.field .opcode) opcode s.opcodes) s
      else .ok () s := by
  show (if s.opcodes ≤ opcode then _ else _ : Procedure StoredTable Unit) s = _
  split <;> rfl

theorem run_checkRedefinition (s : StoredTable) (opcode : Nat) :
    (checkRedefinition opcode).run s =
      if s.defined.contains opcode ∧ s.config.redefine = .reject then
        .error (.duplicateDefinition opcode) s
      else .ok () s := by
  show (if s.defined.contains opcode ∧ s.config.redefine = .reject then _ else _ :
    Procedure StoredTable Unit) s = _
  split <;> rfl

/-- The table with one more sequence. -/
def stored (s : StoredTable) (steps : List Word) : StoredTable :=
  { s with arena := s.arena.push (s.fit steps) }

theorem run_store (s : StoredTable) (steps : List Word) :
    (store steps).run s = .ok s.arena.size (s.stored steps) := rfl

theorem run_setTemplate (s : StoredTable) (condition : Option Condition) (steps : List Word) :
    (setTemplate condition steps).run s = .ok ()
      { s.stored steps with
        templates := (s.matching condition).foldl
          (fun templates slice => templates.setIfInBounds slice s.arena.size) s.templates } :=
  run_forM_modify templates (fun s templates => { s with templates }) (fun _ _ => rfl)
    (fun _ _ _ => rfl) (fun _ => rfl)
    (fun templates slice => templates.setIfInBounds slice s.arena.size) (s.matching condition)
    (s.stored steps)

theorem run_reserve (s : StoredTable) (condition : Condition) (steps : List Word) :
    (reserve condition steps).run s = .ok ()
      { s.stored steps with
        reserved := (s.matching (some condition)).foldl
          (fun reserved slice => reserved.setIfInBounds slice (some s.arena.size)) s.reserved } :=
  run_forM_modify reserved (fun s reserved => { s with reserved }) (fun _ _ => rfl)
    (fun _ _ _ => rfl) (fun _ => rfl)
    (fun reserved slice => reserved.setIfInBounds slice (some s.arena.size))
    (s.matching (some condition)) (s.stored steps)

/-- The table with new overrides for an opcode. -/
def overwritten (s : StoredTable) (opcode : Nat)
    (change : Std.HashMap (Nat × Nat) Nat → Nat × Nat → Std.HashMap (Nat × Nat) Nat) :
    StoredTable :=
  { s with
    overrides := s.writable.foldl (fun overrides slice => change overrides (slice, opcode))
      s.overrides
    defined := s.defined.insert opcode }

theorem run_overwrite (s : StoredTable) (opcode : Nat)
    (change : Std.HashMap (Nat × Nat) Nat → Nat × Nat → Std.HashMap (Nat × Nat) Nat) :
    (overwrite opcode change).run s = .ok () (s.overwritten opcode change) := by
  have hloop := run_forM_modify overrides (fun s overrides => { s with overrides }) (fun _ _ => rfl)
    (fun _ _ _ => rfl) (fun _ => rfl) (fun overrides slice => change overrides (slice, opcode))
    s.writable s
  exact run_bind_of_ok
    (fun _ => modify fun s => { s with defined := s.defined.insert opcode }) hloop

theorem run_define (s : StoredTable) (opcode : Nat) (steps : List Word) :
    (define opcode steps).run s =
      if s.opcodes ≤ opcode then .error (.outOfRange (.field .opcode) opcode s.opcodes) s
      else if s.defined.contains opcode ∧ s.config.redefine = .reject then
        .error (.duplicateDefinition opcode) s
      else .ok () ((s.stored steps).overwritten opcode
        fun overrides key => overrides.insert key s.arena.size) := by
  rw [define, run_bind_of_check _ (run_checkOpcode s opcode),
    run_bind_of_check _ (run_checkRedefinition s opcode), run_bind_of_ok _ (run_store s steps),
    run_overwrite]

/-- The sequences of a conditional definition are stored one after the other. -/
def storedAll (s : StoredTable) (steps : List Word) (fallback : Option (List Word)) : StoredTable :=
  fallback.elim (s.stored steps) (s.stored steps).stored

theorem run_defineWhen (s : StoredTable) (condition : Condition) (opcode : Nat) (steps : List Word)
    (fallback : Option (List Word)) :
    (defineWhen condition opcode steps fallback).run s =
      if s.opcodes ≤ opcode then .error (.outOfRange (.field .opcode) opcode s.opcodes) s
      else .ok () ((s.storedAll steps fallback).overwritten opcode
        (changeWhen condition s.arena.size (fallback.map fun _ => (s.stored steps).arena.size)
          s.config.fallback)) := by
  rw [defineWhen, run_bind_of_check _ (run_checkOpcode s opcode),
    run_bind_of_ok _ (run_store s steps)]
  apply if_congr Iff.rfl rfl
  cases fallback with
  | none => exact run_overwrite (s.stored steps) opcode _
  | some other => exact run_overwrite ((s.stored steps).stored other) opcode _

theorem run_seek (s : StoredTable) (opcode : Nat) :
    (seek opcode).run s =
      if s.opcodes ≤ opcode then .error (.outOfRange (.field .opcode) opcode s.opcodes) s
      else .ok () { s with cursor := opcode } := by
  rw [seek, run_bind_of_check _ (run_checkOpcode s opcode)]
  rfl

theorem reads_checkOpcode (opcode : Nat) : Reads (checkOpcode opcode) :=
  .of_get fun s => reads_throw_if (s.opcodes ≤ opcode) _

theorem reads_checkRedefinition (opcode : Nat) : Reads (checkRedefinition opcode) :=
  .of_get fun s => reads_throw_if (s.defined.contains opcode ∧ s.config.redefine = .reject) _

theorem succeeds_setTemplate (condition : Option Condition) (steps : List Word) :
    Succeeds (setTemplate condition steps) := fun s => ⟨_, _, run_setTemplate s condition steps⟩

theorem succeeds_reserve (condition : Condition) (steps : List Word) :
    Succeeds (reserve condition steps) := fun s => ⟨_, _, run_reserve s condition steps⟩

theorem clean_define (opcode : Nat) (steps : List Word) : Clean (define opcode steps) := by
  refine (reads_checkOpcode opcode).bind fun _ => (reads_checkRedefinition opcode).bind fun _ => ?_
  refine Succeeds.clean fun s => ?_
  exact ⟨_, _, (run_bind_of_ok _ (run_store s steps)).trans (run_overwrite _ opcode _)⟩

theorem clean_defineWhen (condition : Condition) (opcode : Nat) (steps : List Word)
    (fallback : Option (List Word)) : Clean (defineWhen condition opcode steps fallback) := by
  refine (reads_checkOpcode opcode).bind fun _ => Succeeds.clean fun s => ?_
  cases fallback with
  | none =>
    exact ⟨_, _, (run_bind_of_ok _ (run_store s steps)).trans (run_overwrite _ opcode _)⟩
  | some other =>
    exact ⟨_, _, (run_bind_of_ok _ (run_store s steps)).trans (run_overwrite _ opcode _)⟩

theorem clean_seek (opcode : Nat) : Clean (seek opcode) :=
  (reads_checkOpcode opcode).bind fun _ => Succeeds.clean fun _ => ⟨_, _, rfl⟩

theorem clean_defineNext {definition : Nat → Procedure StoredTable Unit}
    (h : ∀ opcode, Clean (definition opcode)) : Clean (defineNext definition) :=
  .of_get fun s => (h s.cursor).bind fun _ _ => ⟨_, _, rfl⟩

/-- Every request checks all that it checks before it writes. -/
theorem clean_request (c : TableCommand) : Clean (request c) := by
  cases c with
  | template condition steps =>
    exact (succeeds_setTemplate condition steps).clean.bind fun _ _ => ⟨_, _, rfl⟩
  | reserve condition steps =>
    exact (succeeds_reserve condition steps).clean.bind fun _ _ => ⟨_, _, rfl⟩
  | define opcode steps => exact (clean_define opcode steps).bind fun _ _ => ⟨_, _, rfl⟩
  | defineWhen condition opcode steps fallback =>
    exact (clean_defineWhen condition opcode steps fallback).bind fun _ _ => ⟨_, _, rfl⟩
  | seek opcode => exact (clean_seek opcode).bind fun _ _ => ⟨_, _, rfl⟩
  | defineNext steps =>
    exact (clean_defineNext fun opcode => clean_define opcode steps).bind fun _ _ => ⟨_, _, rfl⟩
  | defineNextWhen condition steps fallback =>
    exact (clean_defineNext fun opcode => clean_defineWhen condition opcode steps fallback).bind
      fun _ _ => ⟨_, _, rfl⟩

end StoredTable

end ControlStore
