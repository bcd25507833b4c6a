import ControlStore.Source.Fault
import ControlStore.Text.Quoted

/-!
Everything for which a run of the compiler can end early, worded for a reader or with the names of
its parts.
-/

namespace ControlStore

inductive Failure
  | engine (e : Error)
  | source (e : SourceError)
  | disk (path : String) (cause : DiskError)
deriving DecidableEq

namespace Error

/-- The error with the names of its parts. -/
def detail : Error → String
  | unknownSignal name => s!"UnknownSignal({Text.quoted name})"
  | unknownFlag name => s!"UnknownFlag({Text.quoted name})"
  | duplicateSignal name => s!"DuplicateSignal({Text.quoted name})"
  | overlappingLine name other bit =>
    "OverlappingLine \x7b " ++
      s!"name: {Text.quoted name}, other: {Text.quoted other}, bit: {bit}" ++ " \x7d"
  | fieldValue name value width =>
    "FieldValue \x7b " ++ s!"name: {Text.quoted name}, value: {value}, width: {width}" ++ " \x7d"
  | wordOverflow width capacity =>
    "ControlWordOverflow \x7b " ++ s!"width: {width}, capacity: {capacity}" ++ " \x7d"
  | outOfRange quantity value limit =>
    "AddressRange \x7b " ++
      s!"field: {Text.quoted quantity.name}, value: {value}, limit: {limit}" ++ " \x7d"
  | duplicateDefinition opcode => s!"DuplicateDefinition({opcode})"
  | invalid why => s!"Config({Text.quoted why.message})"

end Error

def SourceError.detail (e : SourceError) : String :=
  "Parse(ParseError \x7b " ++
    s!"line_number: {e.line}, message: {Text.quoted e.fault.message}" ++ " \x7d)"

/-- A name with a zero character has no number of the system. -/
def DiskError.detail (e : DiskError) : String :=
  let message := Text.quoted e.text
  if e = .zeroInName then
    "Error \x7b " ++ s!"kind: {e.kind}, message: {message}" ++ " \x7d"
  else
    "Os \x7b " ++ s!"code: {e.code}, kind: {e.kind}, message: {message}" ++ " \x7d"

namespace Failure

def message : Failure → String
  | engine e => e.message
  | source e => e.message
  | disk path cause => s!"I/O error on '{path}': {cause.message}"

def detail : Failure → String
  | engine e => e.detail
  | source e => e.detail
  | disk path cause =>
    "Io \x7b " ++ s!"path: {Text.quoted path}, source: {cause.detail}" ++ " \x7d"

end Failure

end ControlStore
