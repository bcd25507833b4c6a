import ControlStore.Event
import ControlStore.Word

/-!
The signals of a control word. Lines and fields own ranges of bits that never overlap; composites
name the OR of other signals and may share bits with anything; the values of a field may have names.
A word is built from terms, each a signal or a field with a value.
-/

namespace ControlStore

/-- A control line: a single bit, or a field of several bits. -/
structure Line where
  name : String
  bit : Nat
  width : Nat
  activeLow : Bool := false
deriving DecidableEq

namespace Line

/-- The highest bit position there is. -/
def maxPosition : Nat := 0xFFFFFFFF

/-- One past the highest bit of the line, as far as positions go. -/
def stop (l : Line) : Nat := min (l.bit + l.width) maxPosition

def overlaps (a b : Line) : Bool := decide (a.bit < b.stop) && decide (b.bit < a.stop)

/-- The word with all bits of the line set. -/
def mask (l : Line) : Word := (List.range' l.bit (l.stop - l.bit)).foldl Word.set Word.zero

def event (l : Line) : Event := .lineDefined l.name l.bit l.stop

end Line

/-- The defined signals. Lines stand in the order of their definition. -/
structure Signals where
  lines : List Line := []
  composites : List (String × Word) := []
  valueNames : List (String × List String) := []

/-- A request to define or name something. -/
inductive SignalCommand
  | define (name : String) (bit : Nat)
  | defineActiveLow (name : String) (bit : Nat)
  | defineField (name : String) (lsb width : Nat)
  | push (name : String) (width : Nat) (activeLow : Bool)
  | compose (name : String) (terms : List String)
  | nameValues (field : String) (names : List String)
deriving DecidableEq

/-- What a request answers with: the bits that have the name now, or the position of the line. -/
inductive SignalAnswer
  | word (w : Word)
  | position (bit : Nat)
  | done
deriving DecidableEq

namespace Signals

/-- The position that no line may pass. -/
def maxBits : Nat := 1024

def line? (s : Signals) (name : String) : Option Line :=
  s.lines.find? (fun l => l.name == name)

def line (s : Signals) (name : String) : Except Error Line :=
  match s.line? name with
  | some l => .ok l
  | none => .error (.unknownSignal name)

def contains (s : Signals) (name : String) : Bool :=
  (s.line? name).isSome || (s.composites.lookup name).isSome

/-- One past the highest bit of any line. -/
def width (s : Signals) : Nat := s.lines.foldl (fun w l => max w l.stop) 0

/-- The bits that idle high. -/
def activeLow (s : Signals) : Word :=
  (s.lines.filter Line.activeLow).foldl (fun w l => w ||| l.mask) Word.zero

/-- The bits of a line, field or composite. -/
def resolve (s : Signals) (name : String) : Except Error Word :=
  match s.line? name with
  | some l => .ok l.mask
  | none =>
    match s.composites.lookup name with
    | some w => .ok w
    | none => .error (.unknownSignal name)

/-- The value that a text means for a field: the index of a value name, or else a number. -/
def value (s : Signals) (field text : String) : Except Error Nat :=
  match ((s.valueNames.lookup field).getD []).idxOf? text with
  | some i => .ok i
  | none =>
    match Text.nat64? text.toList with
    | some n => .ok n
    | none => .error (.invalid (.valueText text field))

/-- The bits of a term: a signal, or a field and its value with `=` between them. -/
def resolveTerm (s : Signals) (term : String) : Except Error Word :=
  match Text.cut '=' term.toList with
  | none => s.resolve term
  | some (name, text) => do
    let name := String.ofList name
    let l ← s.line name
    let v ← s.value name (String.ofList text)
    if l.width < 64 ∧ 1 <<< l.width ≤ v then
      .error (.fieldValue name v l.width)
    else
      .ok (Word.field l.bit l.width v)

/-- The OR of terms. -/
def build (s : Signals) (terms : List String) : Except Error Word :=
  terms.foldlM (fun w t => do
    let v ← s.resolveTerm t
    return w ||| v) Word.zero

/-- Signal names are made of letters, digits and underscores, and not of digits alone. -/
def checkName (name : String) : Except Error Unit :=
  if !Text.isName name.toList then .error (.invalid (.lineName name))
  else if Text.isNumeral name.toList then .error (.invalid (.numeralLineName name))
  else .ok ()

/-- A name that may still be given to a signal. -/
def checkNew (s : Signals) (name : String) : Except Error Unit := do
  checkName name
  if s.contains name then throw (.duplicateSignal name)

/-- Adds a line and gives its bits. Its name must be new and its bits free and below the limit. -/
def insert (s : Signals) (l : Line) : Except Error (Word × Signals) := do
  s.checkNew l.name
  if maxBits < l.bit + l.width then throw (.invalid (.lineRange l.name l.bit maxBits))
  match s.lines.find? (fun other => other.overlaps l) with
  | some other => throw (.overlappingLine l.name other.name (max l.bit other.bit))
  | none => return (l.mask, { s with lines := s.lines ++ [l] })

/-- Adds a single bit. -/
def define (s : Signals) (name : String) (bit : Nat) : Except Error (Word × Signals) :=
  s.insert { name, bit, width := 1 }

/-- Adds a single bit that is driven low when asserted. -/
def defineActiveLow (s : Signals) (name : String) (bit : Nat) : Except Error (Word × Signals) :=
  s.insert { name, bit, width := 1, activeLow := true }

/-- Adds a field of 1 to 64 bits. -/
def defineField (s : Signals) (name : String) (lsb width : Nat) : Except Error (Word × Signals) :=
  if width = 0 ∨ 64 < width then .error (.invalid (.fieldWidth name))
  else s.insert { name, bit := lsb, width }

/-- Adds a line or field above all others and gives its position. Only a single bit keeps its
polarity. -/
def push (s : Signals) (name : String) (width : Nat) (activeLow : Bool) :
    Except Error (Nat × Signals) := do
  let bit := s.width
  let (_, after) ←
    if width = 1 then
      if activeLow then s.defineActiveLow name bit else s.define name bit
    else s.defineField name bit width
  return (bit, after)

/-- Names the OR of terms and gives its bits. -/
def compose (s : Signals) (name : String) (terms : List String) :
    Except Error (Word × Signals) := do
  s.checkNew name
  let w ← s.build terms
  return (w, { s with composites := s.composites ++ [(name, w)] })

/-- Value names are not numerals and do not repeat; `seen` holds the names before `names`. -/
def checkValueNames (field : String) (seen : List String) : List String → Except Error Unit
  | [] => .ok ()
  | name :: rest =>
    if Text.isNumeral name.toList then .error (.invalid (.numeralValueName name))
    else if seen.contains name then .error (.invalid (.repeatedValueName name field))
    else checkValueNames field (name :: seen) rest

/-- Names the values of a field from zero up, in place of the names it had. -/
def nameValues (s : Signals) (field : String) (names : List String) : Except Error Signals := do
  let l ← s.line field
  if l.width = 1 then throw (.invalid (.notMultibit field))
  if 1 <<< l.width < names.length then
    throw (.invalid (.tooManyValueNames field (1 <<< l.width)))
  checkValueNames field [] names
  return { s with valueNames := (field, names) :: s.valueNames.filter (fun p => p.1 != field) }

/-- Carries out a request: the answer to it and the signals after it. -/
def respond (s : Signals) : SignalCommand → Except Error (SignalAnswer × Signals)
  | .define name bit => (s.define name bit).map (Prod.map .word id)
  | .defineActiveLow name bit => (s.defineActiveLow name bit).map (Prod.map .word id)
  | .defineField name lsb width => (s.defineField name lsb width).map (Prod.map .word id)
  | .push name width activeLow => (s.push name width activeLow).map (Prod.map .position id)
  | .compose name terms => (s.compose name terms).map (Prod.map .word id)
  | .nameValues field names => (s.nameValues field names).map fun after => (.done, after)

def run (s : Signals) (c : SignalCommand) : Except Error Signals := (s.respond c).map Prod.snd

/-- The signals after a request, which are the same ones if it fails, and the answer. -/
def perform (s : Signals) (c : SignalCommand) : Signals × Except Error SignalAnswer :=
  match s.respond c with
  | .ok (answer, after) => (after, .ok answer)
  | .error e => (s, .error e)

/-- The events of the definitions that lead from some signals to more of them. -/
def events (before after : Signals) : List Event :=
  (after.lines.drop before.lines.length).map Line.event

end Signals

end ControlStore
