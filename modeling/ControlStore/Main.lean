import ControlStore.Command

/-!
The program: the command on the files of the machine.
-/

namespace ControlStore

/-- The cause of a failed operation by the number that the system gave it. -/
def DiskError.ofCode (code : UInt32) (text : String) : DiskError :=
  match code.toNat with
  | 2 => .notFound
  | 16 => .busy
  | 17 => .alreadyExists
  | 20 => .notADirectory
  | 21 => .isADirectory
  | 36 => .nameTooLong
  | n => .other n text

def DiskError.ofSystem : IO.Error → DiskError
  | .noFileOrDirectory _ code text => .ofCode code text
  | .alreadyExists _ code text => .ofCode code text
  | .resourceBusy code text => .ofCode code text
  | .inappropriateType _ code text => .ofCode code text
  | .invalidArgument _ code text => .ofCode code text
  | .permissionDenied _ code text => .ofCode code text
  | e => .other 0 e.toString

def attempt {α : Type} (action : IO α) : IO (Except DiskError α) := do
  try
    let a ← action
    return .ok a
  catch e => return .error (.ofSystem e)

/-- Reads to the end, or as far as it goes. -/
partial def readOn (read : IO ByteArray) (bytes : ByteArray) :
    IO (ByteArray × Except DiskError Unit) := do
  match ← attempt read with
  | .error cause => return (bytes, .error cause)
  | .ok more => if more.isEmpty then return (bytes, .ok ()) else readOn read (bytes ++ more)

/-- Opens a file before it is read, so that a directory shows as one. -/
def readFile (path : String) : IO (Except ReadFailure ByteArray) := do
  match ← attempt (IO.FS.Handle.mk path .read) with
  | .error e => return .error (.atOpen e)
  | .ok handle =>
    match ← readOn (handle.read 65536) .empty with
    | (bytes, .ok _) => return .ok bytes
    | (bytes, .error cause) => return .error (.atRead bytes cause)

instance : Disk IO where
  write path contents := attempt (IO.FS.writeBinFile path contents)
  remove path := do
    let _ ← attempt (IO.FS.removeFile path)
  rename source target := attempt (IO.FS.rename source target)
  makeDirs path := attempt (IO.FS.createDirAll path)
  read path := readFile path

def Topic.label : Topic → String
  | signals => "signals"
  | table => "table"
  | source => "source"
  | files => "files"
  | command => "command"

/-- Reads the standard input to its end. -/
def readInput : IO ByteArray := do
  match ← readOn ((← IO.getStdin).read 65536) .empty with
  | (bytes, .ok _) => return bytes
  | (_, .error cause) => throw (IO.userError cause.message)

end ControlStore

open ControlStore in
def main (arguments : List String) : IO UInt32 := do
  let stdin ←
    match Options.read arguments with
    | .run o =>
      if o.list || o.input.isSome || !o.targets.isEmpty then pure ByteArray.empty
      else readInput
    | _ => pure ByteArray.empty
  let report ← Command.execute arguments stdin
  for e in report.log do
    IO.eprintln ("[" ++ e.level.label ++ " " ++ e.topic.label ++ "] " ++ "\n".intercalate e.lines)
  for line in report.stderr do
    IO.eprintln line
  IO.print report.stdout
  return UInt32.ofNat report.code
