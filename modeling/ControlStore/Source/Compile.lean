import ControlStore.Source.Reader
import ControlStore.Target

/-!
Compiling a definition file: its statements are carried out one after another on the signals, the
abbreviated sequences and the target being drafted. The settings of a target are fixed by its first
statement about the table; a target is complete when the next one starts or the file ends.
-/

namespace ControlStore.Source

/-- How far a target is: its settings are still open, with or without a layout, or its table
exists. -/
inductive Stage
  | settings (layout : Option Layout)
  | sealed (layout : Layout) (table : Table)

def Stage.isSealed : Stage → Bool
  | settings _ => false
  | sealed _ _ => true

/-- The target being built. -/
structure Draft where
  name : String := "microcode"
  named : Bool := false
  flags : Flags := { bits := 0 }
  pad : Word := Word.zero
  lanes : Option Nat := none
  laneWidth : Nat := 8
  arrangement : Arrangement := .interleaved
  order : LaneOrder := .lowFirst
  fallback : Fallback := .preserve
  redefine : Redefine := .replace
  output : Option String := none
  stage : Stage := .settings none

namespace Draft

/-- The layout and the table of a target, which is sealed if it was not, and the events of that. -/
def sealed (d : Draft) : Except Fault (Layout × Table × List Event) :=
  match d.stage with
  | .sealed l t => .ok (l, t, [])
  | .settings none => .error (.noLayout d.name)
  | .settings (some l) => do
    let config : TableConfig :=
      { steps := l.count .step, pad := d.pad, fallback := d.fallback, redefine := d.redefine }
    let t ← ofEngine (Table.new (l.count .flags) (l.count .opcode) config)
    return (l, t,
      [.targetStarted d.name l.totalBits (l.count .flags) (l.count .opcode) (l.count .step)])

/-- The lanes asked for, or one for each value of the lane field, or as many as the signals need. -/
def laneCount (d : Draft) (l : Layout) (signals : Signals) : Nat :=
  match d.lanes with
  | some n => n
  | none =>
    if 0 < l.width .lane then l.count .lane
    else
      let unit := max d.laneWidth 1
      (max signals.width 1 + (unit - 1)) / unit

/-- The finished target. -/
def close (d : Draft) (signals : Signals) : Except Fault (Target × List Event) := do
  let (layout, table, events) ← d.sealed
  let lanes := d.laneCount layout signals
  let target : Target := {
    name := d.name
    signals, layout, table
    flags := d.flags
    format := {
      laneWidth := d.laneWidth
      laneCount := lanes
      arrangement := d.arrangement
      order := d.order
      activeLow := signals.activeLow }
    output := d.output.getD (d.name ++ ".bin") }
  return (target, events ++ [.targetCompleted d.name lanes])

/-- Names flag bits one after another. -/
def defineFlags (flags : Flags) (terms : List (Except Fault (String × Nat))) : Except Fault Flags :=
  terms.foldlM (fun flags term => do
    let (name, bit) ← term
    ofEngine (flags.define name bit)) flags

/-- Makes a setting while they are open. A layout brings fresh flags with it. -/
def set (d : Draft) (layout : Option Layout) (signals : Signals) : Setting → Except Fault Draft
  | .layout l =>
    .ok { d with flags := { bits := l.width .flags }, stage := .settings (some l) }
  | .flags terms =>
    match layout with
    | none => .error .flagsBeforeLayout
    | some _ => do
      let flags ← defineFlags d.flags terms
      return { d with flags }
  | .pad terms => do
    let pad ← ofEngine (signals.build terms)
    return { d with pad }
  | .lanes n => .ok { d with lanes := some n }
  | .laneWidth n => .ok { d with laneWidth := n }
  | .arrangement a => .ok { d with arrangement := a }
  | .order o => .ok { d with order := o }
  | .fallback p => .ok { d with fallback := p }
  | .redefine p => .ok { d with redefine := p }
  | .output s => .ok { d with output := some s }

end Draft

/-- All that the statements so far have built. -/
structure State where
  signals : Signals := {}
  sequences : List (String × List Word) := []
  draft : Draft := {}
  targets : List Target := []

namespace State

/-- The words of a step that is not a fill. -/
def stepWords (s : State) : Step → Except Fault (List Word)
  | .terms terms => do
    let w ← ofEngine (s.signals.build terms)
    return [w]
  | .splice name =>
    match s.sequences.lookup name with
    | some words => .ok words
    | none => .error (.undefinedSequence name)
  | .partialSplice text => .error (.partialReference text)
  | .fill => .ok []

/-- Adds the words of a step to those before a fill or, once there was one, to those after it. -/
def addStep (s : State) (fillAllowed : Bool) (acc : List Word × Option (List Word)) (step : Step) :
    Except Fault (List Word × Option (List Word)) := do
  if step = .fill then
    if !fillAllowed then throw .fillInSequence
    if acc.2.isSome then throw .repeatedFill
    return (acc.1, some [])
  else
    let words ← s.stepWords step
    match acc.2 with
    | none => return (acc.1 ++ words, none)
    | some after => return (acc.1, some (after ++ words))

/-- The words before a fill and, if there is one, those after it. -/
def splitWords (s : State) (fillAllowed : Bool) (steps : List Step) :
    Except Fault (List Word × Option (List Word)) :=
  steps.foldlM (s.addStep fillAllowed) ([], none)

/-- The words of steps for a table. A fill takes as many pad words as bring what follows it to the
end. -/
def words (s : State) (config : TableConfig) (steps : List Step) : Except Fault (List Word) := do
  match ← s.splitWords true steps with
  | (before, none) => return before
  | (before, some after) =>
    let gap := config.steps - (before.length + after.length)
    return before ++ List.replicate gap config.pad ++ after

def condition (s : State) (text : String) : Except Fault Condition :=
  ofEngine (s.draft.flags.readCondition text)

/-- The command to the table that a statement stands for. -/
def command (s : State) (config : TableConfig) : TableStatement → Except Fault TableCommand
  | .template none steps => do
    return .template none (← s.words config steps)
  | .template (some text) steps => do
    let c ← s.condition text
    return .template (some c) (← s.words config steps)
  | .reserve text steps => do
    let c ← s.condition text
    return .reserve c (← s.words config steps)
  | .seek opcode => .ok (.seek opcode)
  | .define steps => do
    return .defineNext (← s.words config steps)
  | .defineWhen text steps none => do
    let c ← s.condition text
    return .defineNextWhen c (← s.words config steps) none
  | .defineWhen text steps (some fallback) => do
    let c ← s.condition text
    let w ← s.words config steps
    return .defineNextWhen c w (some (← s.words config fallback))

/-- Adds a declared line, above all others unless it has a bit of its own. -/
def declare (signals : Signals) (d : Declaration) : Except Error Signals :=
  match d.bit with
  | none => (signals.push d.name d.width d.activeLow).map Prod.snd
  | some bit =>
    (if 1 < d.width then signals.defineField d.name bit d.width
    else if d.activeLow then signals.defineActiveLow d.name bit
    else signals.define d.name bit).map Prod.snd

/-- Carries out a statement: the state after it and its events. -/
def exec (s : State) : Statement → Except Fault (State × List Event)
  | .fail f => .error f
  | .declare d => do
    let signals ← ofEngine (declare s.signals d)
    return ({ s with signals }, s.signals.events signals)
  | .nameValues field names => do
    if (s.signals.line? field).isNone then throw (.undefinedField field)
    let signals ← ofEngine (s.signals.nameValues field names)
    return ({ s with signals }, [])
  | .compose name terms => do
    let (_, signals) ← ofEngine (s.signals.compose name terms)
    return ({ s with signals }, [])
  | .abbreviate name steps => do
    if (s.sequences.lookup name).isSome then throw (.repeatedSequence name)
    let (words, _) ← s.splitWords false steps
    return ({ s with sequences := s.sequences ++ [(name, words)] }, [])
  | .startTarget name =>
    if s.draft.named || s.draft.stage.isSealed then do
      let (target, events) ← s.draft.close s.signals
      return ({ s with draft := { name, named := true }, targets := s.targets ++ [target] }, events)
    else
      -- Settings made before the first name belong to the target that it names.
      .ok ({ s with draft := { s.draft with name, named := true } }, [])
  | .setting key value =>
    match s.draft.stage with
    | .sealed _ _ => .error (.lateSetting key s.draft.name)
    | .settings layout => do
      -- That settings are closed is reported before anything that is wrong with the value.
      let draft ← s.draft.set layout s.signals (← value)
      return ({ s with draft }, [])
  | .seal => do
    let (layout, table, events) ← s.draft.sealed
    return ({ s with draft := { s.draft with stage := .sealed layout table } }, events)
  | .table statement => do
    let (layout, table, events) ← s.draft.sealed
    let command ← s.command table.config statement
    let after ← ofEngine (table.run command)
    return ({ s with draft := { s.draft with stage := .sealed layout after } },
      events ++ table.events command)

/-- Carries out statements up to the first fault. -/
def run (log : Array Event) (s : State) :
    List (Nat × Statement) → Array Event × Except SourceError State
  | [] => (log, .ok s)
  | (line, statement) :: rest =>
    match s.exec statement with
    | .error fault => (log, .error { line, fault })
    | .ok (s, events) => run (log ++ events) s rest

end State

/-- What a compilation reported and what came of it. -/
structure Outcome where
  log : List Event
  result : Except SourceError (List Target)

/-- The targets of a definition file. The last of them is complete when the lines end. -/
def compile (lines : List InputLine) : Outcome :=
  match State.run #[] {} (readLines lines) with
  | (log, .error e) => { log := log.toList, result := .error e }
  | (log, .ok s) =>
    match s.draft.close s.signals with
    | .error fault => { log := log.toList, result := .error { line := lines.length, fault } }
    | .ok (target, events) =>
      { log := log.toList ++ events, result := .ok (s.targets ++ [target]) }

def compileText (s : String) : Outcome := compile (InputLine.ofText s)

def compileBytes (bytes : ByteArray) : Outcome := compile (InputLine.ofBytes bytes)

end ControlStore.Source
