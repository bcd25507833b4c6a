import ControlStore.AddressField
import ControlStore.Text

/-!
What can go wrong with signals, flags, addresses, instruction tables and ROM formats, and the
wording of each cause.
-/

namespace ControlStore

/-- Two hexadecimal digits at least, as opcodes are written. -/
def opcodeText (opcode : Nat) : String :=
  String.ofList ('0' :: 'x' :: Text.padded 16 2 opcode)

/-- Why a configuration is refused. -/
inductive Invalid
  | fieldWidth (name : String)
  | lineName (name : String)
  | numeralLineName (name : String)
  | lineRange (name : String) (bit limit : Nat)
  | notMultibit (name : String)
  | tooManyValueNames (name : String) (limit : Nat)
  | numeralValueName (name : String)
  | repeatedValueName (name field : String)
  | valueText (value field : String)
  | flagConflict (name other : String) (bit : Nat)
  | flagTerm (term : String)
  | flagValue (value term : String)
  | addressField (name : String)
  | repeatedField (field : AddressField)
  | missingField (field : AddressField)
  | fieldTooWide (field : AddressField) (width limit : Nat)
  | layoutTooWide (width limit : Nat)
  | layoutTerm (term : String)
  | layoutWidth (width term : String)
  | fallbackPolicy (text : String)
  | redefinePolicy (text : String)
  | arrangement (text : String)
  | laneOrder (text : String)
  | noSteps
  | laneWidth (width : Nat)
  | laneCount (count limit : Nat)
  | bankedLanes (count : Nat)
  | laneFieldNotBanked
  | imageMismatch
  | unknownTarget (name : String)
  | missingTarget (name : String)
deriving DecidableEq

namespace Invalid

def message : Invalid → String
  | fieldWidth name => s!"Width of field '{name}' must be between 1 and 64"
  | lineName name => s!"Invalid control line name '{name}', must be alphanumeric"
  | numeralLineName name => s!"Control line name '{name}' cannot be all numerals"
  | lineRange name bit limit =>
    s!"Control line '{name}' at bit {bit} exceeds the {limit}-bit control word"
  | notMultibit name =>
    s!"Control line '{name}' is not a multibit term and cannot have aliases"
  | tooManyValueNames name limit =>
    s!"Too many aliases for multibit term '{name}', expected at most {limit} aliases"
  | numeralValueName name => s!"Alias name '{name}' cannot be all numerals"
  | repeatedValueName name field =>
    s!"Alias '{name}' defined more than once for multibit term '{field}'"
  | valueText value field => s!"Invalid value '{value}' for multibit term '{field}'"
  | flagConflict name other bit =>
    s!"Flag '{name}' conflicts with flag '{other}' at bit {bit}"
  | flagTerm term =>
    s!"Invalid flag condition '{term}', expected format 'flag=0' or 'flag=1'"
  | flagValue value term => s!"Invalid flag value '{value}' in condition '{term}'"
  | addressField name => s!"Unknown address field '{name}'"
  | repeatedField field => s!"Address field '{field.name}' appears more than once"
  | missingField field => s!"Address layout is missing the '{field.name}' field"
  | fieldTooWide field width limit =>
    s!"Address field '{field.name}' is {width} bits wide, at most {limit} supported"
  | layoutTooWide width limit =>
    s!"Address layout is {width} bits wide, at most {limit} supported"
  | layoutTerm term => s!"Invalid layout field '{term}', expected format 'name:width'"
  | layoutWidth width term => s!"Invalid width '{width}' in layout field '{term}'"
  | fallbackPolicy text =>
    s!"Unknown fallback policy '{text}', expected 'preserve' or 'reset'"
  | redefinePolicy text =>
    s!"Unknown redefinition policy '{text}', expected 'replace', 'warn' or 'reject'"
  | arrangement text =>
    s!"Unknown lane layout '{text}', expected 'interleaved', 'split' or 'banked'"
  | laneOrder text =>
    s!"Unknown byte order '{text}', expected 'low-first' or 'high-first'"
  | noSteps => "Instructions need at least one micro-step"
  | laneWidth width => s!"Lane width {width} must be between 1 and 8 bits"
  | laneCount count limit => s!"Lane count {count} must be between 1 and {limit}"
  | bankedLanes count =>
    s!"Banked layout needs a lane address field selecting {count} lanes"
  | laneFieldNotBanked => "A lane address field requires the banked lane layout"
  | imageMismatch => "Image set does not match the lane layout"
  | unknownTarget name => s!"Unknown built-in target '{name}'"
  | missingTarget name => s!"Definition file has no target named '{name}'"

end Invalid

/-- The quantities that are checked against a limit. -/
inductive Quantity
  | flagBit
  | address
  | field (field : AddressField)
deriving DecidableEq

def Quantity.name : Quantity → String
  | flagBit => "flag bit"
  | address => "address"
  | field f => f.name

inductive Error
  | unknownSignal (name : String)
  | unknownFlag (name : String)
  | duplicateSignal (name : String)
  | overlappingLine (name other : String) (bit : Nat)
  | fieldValue (name : String) (value width : Nat)
  | wordOverflow (width capacity : Nat)
  | outOfRange (quantity : Quantity) (value limit : Nat)
  | duplicateDefinition (opcode : Nat)
  | invalid (why : Invalid)
deriving DecidableEq

namespace Error

def message : Error → String
  | unknownSignal name => s!"Unknown control signal '{name}'"
  | unknownFlag name => s!"Unknown flag '{name}'"
  | duplicateSignal name => s!"Control line '{name}' defined more than once"
  | overlappingLine name other bit =>
    s!"Control line '{name}' overlaps '{other}' at bit {bit}"
  | fieldValue name value width =>
    s!"Value '{value}' exceeds width {width} of multibit term '{name}'"
  | wordOverflow width capacity =>
    s!"Control word is {width} bits wide but the lanes hold only {capacity} bits"
  | outOfRange quantity value limit =>
    s!"{quantity.name} {value} out of range, limit is {limit}"
  | duplicateDefinition opcode => s!"Opcode {opcodeText opcode} defined more than once"
  | invalid why => s!"Invalid configuration: {why.message}"

end Error

end ControlStore
