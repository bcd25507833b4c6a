import ControlStore.DiskError
import ControlStore.Error

/-!
What can be wrong with a line of a definition file.
-/

namespace ControlStore.Source

inductive Fault
  | undecodable
  | unreadable (cause : DiskError)
  | lineStart (c : Char)
  | bitPosition (bit line : String)
  | fieldForm (term : String)
  | fieldWidth (width name : String)
  | zeroWidth (name : String)
  | activeLowField (name : String)
  | missingFieldName
  | undefinedField (name : String)
  | compositeForm (text : String)
  | sequenceForm (text : String)
  | sequenceName (name : String)
  | repeatedSequence (name : String)
  | missingSetting
  | missingValue (key : String)
  | lateSetting (key target : String)
  | unknownSetting (key : String)
  | settingNumber (text key : String)
  | laneCount (count limit : Nat)
  | flagsBeforeLayout
  | flagForm (term : String)
  | noLayout (target : String)
  | conditionForm (text : String) (fallback : Bool)
  | missingAddress
  | addressForm (text : String)
  | fillInSequence
  | repeatedFill
  | partialReference (text : String)
  | undefinedSequence (name : String)
  | engine (e : Error)
deriving DecidableEq

namespace Fault

def message : Fault → String
  | undecodable => "Failed to read line: stream did not contain valid UTF-8"
  | unreadable cause => s!"Failed to read line: {cause.message}"
  | lineStart c => s!"Invalid line start '{c}'"
  | bitPosition bit line => s!"Invalid bit position '{bit}' for control line '{line}'"
  | fieldForm term => s!"Invalid multibit term '{term}', expected format 'name/width'"
  | fieldWidth width name => s!"Invalid width '{width}' in multibit term '{name}'"
  | zeroWidth name => s!"Width cannot be zero in multibit term '{name}'"
  | activeLowField name => s!"Multibit term '{name}' cannot be active low"
  | missingFieldName => "Missing multibit term name after '~'"
  | undefinedField name => s!"Undefined term '{name}' in alias definition"
  | compositeForm text => s!"Invalid composite '{text}', expected format 'NAME = signals'"
  | sequenceForm text => s!"Invalid macro '{text}', expected format 'NAME = steps'"
  | sequenceName name => s!"Invalid macro name '{name}', must be alphanumeric"
  | repeatedSequence name => s!"Macro '{name}' defined more than once"
  | missingSetting => "Missing setting name after '!'"
  | missingValue key => s!"Missing value for setting '{key}'"
  | lateSetting key target =>
    s!"Setting '{key}' must precede the definitions of target '{target}'"
  | unknownSetting key => s!"Unknown setting '{key}'"
  | settingNumber text key => s!"Invalid number '{text}' for setting '{key}'"
  | laneCount count limit => s!"Lane count {count} must be between 1 and {limit}"
  | flagsBeforeLayout => "Setting 'flags' must follow 'layout'"
  | flagForm term => s!"Invalid flag '{term}', expected format 'name:bit'"
  | noLayout target => s!"Target '{target}' has no address layout, expected '! layout'"
  | conditionForm text true =>
    s!"Invalid conditional '{text}', expected format 'flags : steps' or 'flags : steps : fallback'"
  | conditionForm text false =>
    s!"Invalid conditional '{text}', expected format 'flags : steps'"
  | missingAddress => "Missing address after '>'"
  | addressForm text => s!"Invalid address format '{text}'"
  | fillInSequence => "'..' is not allowed in macro definitions"
  | repeatedFill => "'..' may appear only once in a step sequence"
  | partialReference text => s!"Macro reference '{text}' must be a whole step"
  | undefinedSequence name => s!"Undefined macro '{name}'"
  | engine e => e.message

end Fault

end ControlStore.Source

namespace ControlStore

/-- A fault and the line it was found on. -/
structure SourceError where
  line : Nat
  fault : Source.Fault
deriving DecidableEq

def SourceError.message (e : SourceError) : String := s!"Error on line {e.line}: {e.fault.message}"

end ControlStore
