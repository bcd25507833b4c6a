import ControlStore.FileFormat

/-!
The arguments of the command line.
-/

namespace ControlStore

structure Options where
  input : Option String := none
  targets : List String := []
  output : Option String := none
  format : Option FileFormat := none
  list : Bool := false
  verbosity : Nat := 0

inductive Request
  | run (options : Options)
  | version
  | help
  | misuse

namespace Options

inductive Switch
  | input
  | target
  | output
  | format
  | list
  | verbose
  | version
  | help
deriving DecidableEq

namespace Switch

def all : List Switch := [input, target, output, format, list, verbose, version, help]

def long : Switch → String
  | input => "input"
  | target => "target"
  | output => "output"
  | format => "format"
  | list => "list"
  | verbose => "verbose"
  | version => "version"
  | help => "help"

def short : Switch → Char
  | input => 'i'
  | target => 't'
  | output => 'o'
  | format => 'f'
  | list => 'l'
  | verbose => 'v'
  | version => 'V'
  | help => 'h'

def takesValue : Switch → Bool
  | input | target | output | format => true
  | list | verbose | version | help => false

end Switch

/-- What an argument is made of. Several short switches may share one argument. -/
inductive Token
  | switch (s : Switch) (value : Option String)
  | bare (text : String)
  | endOfSwitches
  | unknown
deriving DecidableEq

/-- The rest of an argument after a short switch is its value; an equals sign may stand between. -/
def attached : List Char → Option String
  | [] => none
  | '=' :: rest => some (String.ofList rest)
  | rest => some (String.ofList rest)

def shortTokens : List Char → List Token
  | [] => []
  | c :: rest =>
    match Switch.all.find? (fun s => s.short == c) with
    | none => [.unknown]
    | some s =>
      if s.takesValue then [.switch s (attached rest)] else .switch s none :: shortTokens rest

def longToken (name : List Char) (value : Option (List Char)) : Token :=
  match Switch.all.find? (fun s => s.long.toList == name) with
  | none => .unknown
  | some s =>
    if s.takesValue || value.isNone then .switch s (value.map String.ofList) else .unknown

def tokens (argument : String) : List Token :=
  match argument.toList with
  | ['-', '-'] => [.endOfSwitches]
  | '-' :: '-' :: rest =>
    match Text.cut '=' rest with
    | none => [longToken rest none]
    | some (name, value) => [longToken name (some value)]
  | ['-'] => [.bare argument]
  | '-' :: rest => shortTokens rest
  | _ => [.bare argument]

/-- Takes the value of a switch. Only targets may be given more than once, and paths are not
empty. -/
def withValue (o : Options) (s : Switch) (value : String) : Option Options :=
  match s with
  | .input => if o.input.isSome || value.isEmpty then none else some { o with input := some value }
  | .target => some { o with targets := o.targets ++ [value] }
  | .output =>
    if o.output.isSome || value.isEmpty then none else some { o with output := some value }
  | .format =>
    if o.format.isSome then none
    else (FileFormat.ofName? value).map fun f => { o with format := some f }
  | _ => none

/-- Reads tokens from left to right. The first mistake, and a request for the version or for help,
ends that; an input file and built-in targets exclude each other, which shows at the end. -/
def readTokens (o : Options) : List Token → Request
  | [] => if o.input.isSome && !o.targets.isEmpty then .misuse else .run o
  | .switch .version _ :: _ => .version
  | .switch .help _ :: _ => .help
  | .switch .list _ :: rest => if o.list then .misuse else readTokens { o with list := true } rest
  | .switch .verbose _ :: rest => readTokens { o with verbosity := o.verbosity + 1 } rest
  | .switch s (some value) :: rest =>
    match o.withValue s value with
    | some o => readTokens o rest
    | none => .misuse
  | .switch s none :: .bare value :: rest =>
    match o.withValue s value with
    | some o => readTokens o rest
    | none => .misuse
  | [.endOfSwitches] => if o.input.isSome && !o.targets.isEmpty then .misuse else .run o
  | _ => .misuse

def read (arguments : List String) : Request := readTokens {} (arguments.flatMap tokens)

end Options

end ControlStore
