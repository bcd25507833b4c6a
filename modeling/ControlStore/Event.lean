import ControlStore.Error

/-!
What a compilation reports while it runs: events with a level and the part they come from.
-/

namespace ControlStore

inductive Level
  | debug
  | info
  | warn
deriving DecidableEq

namespace Level

def rank : Level → Nat
  | debug => 0
  | info => 1
  | warn => 2

def label : Level → String
  | debug => "DEBUG"
  | info => "INFO"
  | warn => "WARN"

end Level

/-- The part of the compiler an event comes from. -/
inductive Topic
  | signals
  | table
  | source
  | files
  | command
deriving DecidableEq

/-- What a sequence of micro-steps was given for. -/
inductive Purpose
  | template
  | reservation
  | opcode (opcode : Nat)
deriving DecidableEq

def Purpose.text : Purpose → String
  | template => "template"
  | reservation => "reserved sequence"
  | opcode n => s!"opcode {opcodeText n}"

inductive Event
  | lineDefined (name : String) (bit stop : Nat)
  | truncated (purpose : Purpose) (given kept : Nat)
  | redefined (opcode : Nat)
  | reserving (slices : Nat)
  | defined (opcode steps : Nat)
  | definedWhen (opcode slices : Nat)
  | targetStarted (name : String) (addressBits slices opcodes steps : Nat)
  | targetCompleted (name : String) (lanes : Nat)
  | wrote (path : String) (bytes : Nat)
  | rendered (target : String) (images : Nat)
deriving DecidableEq

namespace Event

def level : Event → Level
  | lineDefined .. => .debug
  | truncated .. => .warn
  | redefined .. => .warn
  | reserving .. => .debug
  | defined .. => .debug
  | definedWhen .. => .debug
  | targetStarted .. => .debug
  | targetCompleted .. => .debug
  | wrote .. => .info
  | rendered .. => .info

def topic : Event → Topic
  | lineDefined .. => .signals
  | truncated .. => .table
  | redefined .. => .table
  | reserving .. => .table
  | defined .. => .table
  | definedWhen .. => .table
  | targetStarted .. => .source
  | targetCompleted .. => .source
  | wrote .. => .files
  | rendered .. => .command

def message : Event → String
  | lineDefined name bit stop => s!"control line {name} at bits {bit}..{stop}"
  | truncated purpose given kept =>
    s!"{purpose.text} has {given} micro-steps, truncating to {kept}"
  | redefined opcode => s!"opcode {opcodeText opcode} redefined"
  | reserving slices => s!"reserving {slices} flag slices"
  | defined opcode steps => s!"opcode {opcodeText opcode}: {steps} steps"
  | definedWhen opcode slices =>
    s!"opcode {opcodeText opcode}: conditional on {slices} flag slices"
  | targetStarted name addressBits slices opcodes steps =>
    s!"target {name}: {addressBits} address bits, {slices} flag slices, " ++
      s!"{opcodes} opcodes, {steps} steps"
  | targetCompleted name lanes => s!"target {name} complete, {lanes} lanes"
  | wrote path bytes => s!"wrote {path} ({bytes} bytes)"
  | rendered target images => s!"{target}: {images} image(s)"

/-- The lines of the message. Those after the first are indented, so that none of them is taken for
an event of its own. -/
def lines (e : Event) : List String :=
  match Text.splitOn '\n' e.message.toList with
  | [] => []
  | first :: rest => String.ofList first :: rest.map fun line => "    " ++ String.ofList line

end Event

/-- The events at a level or above. -/
def shown (level : Level) (events : List Event) : List Event :=
  events.filter (fun e => decide (level.rank ≤ e.level.rank))

end ControlStore
