import ControlStore.Catalog
import ControlStore.Files
import ControlStore.Options

/-!
The command: it compiles a definition file or built-in targets and writes their images. Nothing is
written unless all targets compile and burn.
-/

namespace ControlStore

/-- What a run of the command shows. -/
structure Report where
  code : Nat
  stdout : String := ""
  stderr : List String := []
  log : List Event := []

namespace Command

variable {m : Type → Type} [Monad m] [Disk m]

def versionText : String := "microcode 0.1.0\n"

/-- The built-in targets, one to a line, descriptions in one column. -/
def listText : String :=
  Catalog.entries.foldl (fun text e =>
    text ++ e.name ++ String.ofList (List.replicate (14 - e.name.length) ' ') ++ " " ++
      e.description ++ "\n") ""

def helpText : String :=
  "Compiles microcode definitions into ROM images\n\n" ++
  "  -i, --input PATH     definition file (standard input if there is none)\n" ++
  "  -t, --target NAME    built-in target, may be repeated\n" ++
  "  -o, --output DIR     directory of the images\n" ++
  "  -f, --format FORMAT  binary, hex, logisim or logix\n" ++
  "  -l, --list           list the built-in targets\n" ++
  "  -v, --verbose        log more, may be repeated\n" ++
  "  -V, --version        print the version\n" ++
  "  -h, --help           print this text\n"

def usageText : String := "error: invalid arguments, see --help"

/-- The least level of the events that are shown. -/
def level (o : Options) : Level :=
  match o.verbosity with
  | 0 => .warn
  | 1 => .info
  | _ => .debug

/-- Loads built-in targets up to the first that there is not. -/
def loadAll : List String → List Event × Except Failure (List Target)
  | [] => ([], .ok [])
  | name :: rest =>
    match Catalog.load name with
    | (events, .error f) => (events, .error f)
    | (events, .ok t) =>
      let (more, result) := loadAll rest
      (events ++ more, result.map fun others => t :: others)

def compile (lines : List Source.InputLine) : List Event × Except Failure (List Target) :=
  let outcome := Source.compile lines
  (outcome.log, outcome.result.mapError Failure.source)

/-- The targets that the options ask for. -/
def load (o : Options) (stdin : ByteArray) : m (List Event × Except Failure (List Target)) := do
  if !o.targets.isEmpty then return loadAll o.targets
  match o.input with
  | none => return compile (Source.InputLine.ofBytes stdin)
  | some path =>
    match ← Disk.read path with
    | .ok bytes => return compile (Source.InputLine.ofBytes bytes)
    | .error (.atOpen cause) => return ([], .error (.disk path cause))
    | .error (.atRead before cause) => return compile (Source.InputLine.ofBrokenBytes before cause)

/-- The files of all targets, up to the first that does not burn. -/
def render (dir : String) (f : FileFormat) :
    List Target → List Event × Except Failure (List (String × ByteArray))
  | [] => ([], .ok [])
  | t :: rest =>
    match t.images with
    | .error e => ([], .error (.engine e))
    | .ok images =>
      let files := t.render images f
      let (events, result) := render dir f rest
      (.rendered t.name files.length :: events,
        result.map fun others => Files.below dir files ++ others)

/-- Compiles, renders and writes. -/
def produce (o : Options) (stdin : ByteArray) : m (List Event × Except Failure Unit) := do
  let dir := o.output.getD "."
  match ← load o stdin with
  | (events, .error f) => return (events, .error f)
  | (events, .ok targets) =>
    match render dir (o.format.getD .binary) targets with
    | (more, .error f) => return (events ++ more, .error f)
    | (more, .ok files) =>
      match ← Disk.makeDirs dir with
      | .error cause => return (events ++ more, .error (.disk dir cause))
      | .ok _ => do
        let (written, result) ← Files.write files
        return (events ++ more ++ written, result)

def execute (arguments : List String) (stdin : ByteArray) : m Report := do
  match Options.read arguments with
  | .misuse => return { code := 2, stderr := [usageText] }
  | .version => return { code := 0, stdout := versionText }
  | .help => return { code := 0, stdout := helpText }
  | .run o =>
    if o.list then return { code := 0, stdout := listText }
    let (events, result) ← produce o stdin
    let log := shown (level o) events
    match result with
    | .ok _ => return { code := 0, log }
    | .error f => return { code := 1, stderr := ["Error: " ++ f.detail], log }

end Command

end ControlStore
