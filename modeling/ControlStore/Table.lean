import ControlStore.Event
import ControlStore.Flags
import ControlStore.Word
import Std.Data.HashMap

/-!
Instruction tables. For every flag slice and opcode a table holds a sequence of micro-steps of one
fixed length. A slice has a template, which is read wherever nothing else was written; a reserved
slice reads the same sequence for every opcode and is no longer written; a definition writes the
cells of one opcode, in all slices or in those where a condition holds. Cells are kept in one row
per defined opcode.
-/

namespace ControlStore

/-- What a conditional definition without a fallback does where its condition fails. -/
inductive Fallback
  | preserve
  | reset
deriving DecidableEq

def Fallback.read : String → Except Error Fallback
  | "preserve" => .ok .preserve
  | "reset" => .ok .reset
  | text => .error (.invalid (.fallbackPolicy text))

/-- What an unconditional definition of a defined opcode does. -/
inductive Redefine
  | replace
  | warn
  | reject
deriving DecidableEq

def Redefine.read : String → Except Error Redefine
  | "replace" => .ok .replace
  | "warn" => .ok .warn
  | "reject" => .ok .reject
  | text => .error (.invalid (.redefinePolicy text))

structure TableConfig where
  /-- The number of micro-steps of every instruction. -/
  steps : Nat
  /-- The word that fills short sequences. -/
  pad : Word := Word.zero
  fallback : Fallback := .preserve
  redefine : Redefine := .replace
deriving DecidableEq

/-- A sequence cut or filled up to the step count. -/
def TableConfig.fit (c : TableConfig) (steps : List Word) : Vector Word c.steps :=
  ⟨(steps.take c.steps ++ List.replicate (c.steps - steps.length) c.pad).toArray, by simp; omega⟩

structure Table where
  config : TableConfig
  slices : Nat
  opcodes : Nat
  templates : Vector (Vector Word config.steps) slices
  reserved : Vector (Option (Vector Word config.steps)) slices
  rows : Std.HashMap Nat (Vector (Option (Vector Word config.steps)) slices)
  cursor : Nat

/-- A request to a table. The forms without an opcode define the one at the cursor. -/
inductive TableCommand
  | template (condition : Option Condition) (steps : List Word)
  | reserve (condition : Condition) (steps : List Word)
  | define (opcode : Nat) (steps : List Word)
  | defineWhen (condition : Condition) (opcode : Nat) (steps : List Word)
      (fallback : Option (List Word))
  | seek (opcode : Nat)
  | defineNext (steps : List Word)
  | defineNextWhen (condition : Condition) (steps : List Word) (fallback : Option (List Word))
deriving DecidableEq

namespace Table

/-- A table in which every step of every instruction is the pad word. -/
def new (slices opcodes : Nat) (config : TableConfig) : Except Error Table :=
  if config.steps = 0 then .error (.invalid .noSteps)
  else .ok {
    config, slices, opcodes
    templates := Vector.replicate slices (config.fit [])
    reserved := Vector.replicate slices none
    rows := {}
    cursor := 0 }

def checkOpcode (t : Table) (opcode : Nat) : Except Error Unit :=
  if t.opcodes ≤ opcode then .error (.outOfRange (.field .opcode) opcode t.opcodes) else .ok ()

/-- The opcode has been defined, with or without a condition. -/
def isDefined (t : Table) (opcode : Nat) : Bool := t.rows.contains opcode

/-- The cells of an opcode, one for each slice. -/
def row (t : Table) (opcode : Nat) : Vector (Option (Vector Word t.config.steps)) t.slices :=
  t.rows.getD opcode (Vector.replicate t.slices none)

/-- What was written for a slice and an opcode. -/
def cell (t : Table) (slice opcode : Nat) : Option (Vector Word t.config.steps) :=
  t.rows[opcode]?.bind fun row => row[slice]?.join

/-- Gives new templates to the slices where a condition holds, or to all of them. -/
def setTemplate (t : Table) (condition : Option Condition) (steps : List Word) : Table :=
  let sequence := t.config.fit steps
  { t with
    templates := t.templates.mapIdx fun slice old =>
      if condition.all (fun c => c.holds slice) then sequence else old }

/-- Reserves the slices where a condition holds. -/
def reserve (t : Table) (condition : Condition) (steps : List Word) : Table :=
  let sequence := t.config.fit steps
  { t with
    reserved := t.reserved.mapIdx fun slice old =>
      if condition.holds slice then some sequence else old }

/-- Changes the cells of an opcode in the slices that are not reserved. -/
def writeRow (t : Table) (opcode : Nat)
    (f : Nat → Option (Vector Word t.config.steps) → Option (Vector Word t.config.steps)) : Table :=
  -- The row is entered even if every slice is reserved, since the opcode counts as defined then.
  { t with
    rows := t.rows.insert opcode ((t.row opcode).mapFinIdx fun slice old h =>
      if t.reserved[slice].isSome then old else f slice old) }

def define (t : Table) (opcode : Nat) (steps : List Word) : Except Error Table := do
  t.checkOpcode opcode
  if t.isDefined opcode ∧ t.config.redefine = .reject then throw (.duplicateDefinition opcode)
  let sequence := t.config.fit steps
  return t.writeRow opcode fun _ _ => some sequence

def defineWhen (t : Table) (condition : Condition) (opcode : Nat) (steps : List Word)
    (fallback : Option (List Word)) : Except Error Table := do
  t.checkOpcode opcode
  let sequence := t.config.fit steps
  let otherwise := fallback.map t.config.fit
  return t.writeRow opcode fun slice old =>
    if condition.holds slice then some sequence
    else match otherwise with
      | some s => some s
      | none => if t.config.fallback = .reset then none else old

def seek (t : Table) (opcode : Nat) : Except Error Table := do
  t.checkOpcode opcode
  return { t with cursor := opcode }

def advance (t : Table) : Table := { t with cursor := t.cursor + 1 }

def run (t : Table) : TableCommand → Except Error Table
  | .template condition steps => .ok (t.setTemplate condition steps)
  | .reserve condition steps => .ok (t.reserve condition steps)
  | .define opcode steps => t.define opcode steps
  | .defineWhen condition opcode steps fallback => t.defineWhen condition opcode steps fallback
  | .seek opcode => t.seek opcode
  | .defineNext steps => (t.define t.cursor steps).map advance
  | .defineNextWhen condition steps fallback =>
    (t.defineWhen condition t.cursor steps fallback).map advance

/-- The opcode that a command answers with, which is the one it defines at the cursor. -/
def answer (t : Table) : TableCommand → Option Nat
  | .defineNext _ => some t.cursor
  | .defineNextWhen .. => some t.cursor
  | _ => none

/-- Carries out a request: the table after it, which is the same one if the request fails, and the
answer. -/
def perform (t : Table) (command : TableCommand) : Table × Except Error (Option Nat) :=
  match t.run command with
  | .ok after => (after, .ok (t.answer command))
  | .error e => (t, .error e)

/-- The number of slices for which a test holds. -/
def countSlices (t : Table) (p : Nat → Bool) : Nat := (List.range t.slices).countP p

/-- The warning about a sequence that is too long. -/
def truncation (t : Table) (purpose : Purpose) (steps : List Word) : List Event :=
  if t.config.steps < steps.length then [.truncated purpose steps.length t.config.steps] else []

def defineEvents (t : Table) (opcode : Nat) (steps : List Word) : List Event :=
  (if t.isDefined opcode ∧ t.config.redefine = .warn then [.redefined opcode] else []) ++
    t.truncation (.opcode opcode) steps ++ [.defined opcode steps.length]

def defineWhenEvents (t : Table) (condition : Condition) (opcode : Nat) (steps : List Word)
    (fallback : Option (List Word)) : List Event :=
  t.truncation (.opcode opcode) steps ++
    (fallback.map (t.truncation (.opcode opcode))).getD [] ++
    [.definedWhen opcode
      (t.countSlices fun slice => !(t.reserved[slice]?.join).isSome && condition.holds slice)]

/-- The events of a command that succeeds. -/
def events (t : Table) : TableCommand → List Event
  | .template _ steps => t.truncation .template steps
  | .reserve condition steps =>
    t.truncation .reservation steps ++ [.reserving (t.countSlices condition.holds)]
  | .define opcode steps => t.defineEvents opcode steps
  | .defineWhen condition opcode steps fallback =>
    t.defineWhenEvents condition opcode steps fallback
  | .seek _ => []
  | .defineNext steps => t.defineEvents t.cursor steps
  | .defineNextWhen condition steps fallback =>
    t.defineWhenEvents condition t.cursor steps fallback

/-- The sequence of an instruction: that of a reserved slice, or what was written, or the
template. -/
def sequence (t : Table) (slice opcode : Nat) : Except Error (Vector Word t.config.steps) :=
  if h : slice < t.slices then do
    t.checkOpcode opcode
    match t.reserved[slice] with
    | some s => return s
    | none => return (t.cell slice opcode).getD t.templates[slice]
  else .error (.outOfRange (.field .flags) slice t.slices)

/-- The word of one micro-step. -/
def word (t : Table) (slice opcode step : Nat) : Except Error Word :=
  if h : step < t.config.steps then do
    let s ← t.sequence slice opcode
    return s[step]
  else .error (.outOfRange (.field .step) step t.config.steps)

/-- The widest of some words. -/
def sequenceWidth {n : Nat} (s : Vector Word n) : Nat := s.foldl (fun w x => max w x.bitWidth) 0

/-- The widest word of any template, reservation or cell. -/
def maxWordWidth (t : Table) : Nat :=
  let templates := t.templates.foldl (fun w s => max w (sequenceWidth s)) 0
  let reserved := t.reserved.foldl (fun w s => max w ((s.map sequenceWidth).getD 0)) templates
  t.rows.fold (fun w _ row =>
    row.foldl (fun w cell => max w ((cell.map sequenceWidth).getD 0)) w) reserved

end Table

end ControlStore
