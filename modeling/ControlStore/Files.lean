import ControlStore.Disk
import ControlStore.Event
import ControlStore.Failure
import ControlStore.Path
import ControlStore.Target

/-!
Writing a set of files. All of them are written under other names first and then renamed, so that
nothing is replaced before everything is written.
-/

namespace ControlStore.Files

variable {m : Type → Type} [Monad m] [Disk m]

/-- Writes every file under its staging name. If one cannot be written, it goes again and so do
those before it. -/
def stage (staged : List String) : List (String × ByteArray) → m (Except Failure Unit)
  | [] => pure (.ok ())
  | (path, contents) :: rest => do
    let place := Path.staging path
    match ← Disk.write place contents with
    | .ok _ => stage (staged ++ [place]) rest
    | .error cause => do
      Disk.remove place
      staged.forM Disk.remove
      return .error (.disk place cause)

/-- Renames the staged files one after another. The first that cannot be renamed is removed, and the
files after it stay under their staging names. -/
def commit : List (String × ByteArray) → m (List Event × Except Failure Unit)
  | [] => pure ([], .ok ())
  | (path, contents) :: rest => do
    match ← Disk.rename (Path.staging path) path with
    | .ok _ => do
      let (events, result) ← commit rest
      return (.wrote path contents.size :: events, result)
    | .error cause => do
      Disk.remove (Path.staging path)
      return ([], .error (.disk path cause))

def write (files : List (String × ByteArray)) : m (List Event × Except Failure Unit) := do
  match ← stage [] files with
  | .ok _ => commit files
  | .error f => return ([], .error f)

/-- The files with their names below a directory. -/
def below (dir : String) (files : List (String × ByteArray)) : List (String × ByteArray) :=
  files.map fun (name, contents) => (Path.join dir name, contents)

/-- Writes named images into a directory and gives the paths. -/
def writeImages (dir : String) (images : List (String × Array UInt8)) (f : FileFormat)
    (width : Nat) : m (List Event × Except Failure (List String)) := do
  let files := below dir (Target.renderNamed images f width)
  let (events, result) ← write files
  return (events, result.map fun _ => files.map Prod.fst)

/-- Writes the images of a target into a directory and gives the paths. -/
def generate (dir : String) (t : Target) (f : FileFormat) :
    m (List Event × Except Failure (List String)) := do
  match t.images with
  | .error e => return ([], .error (.engine e))
  | .ok images =>
    writeImages dir ((t.fileNames images).zip (images.map RomImage.bytes)) f t.format.laneWidth

/-- Does the same for targets in order, up to the first that fails. -/
def generateAll (dir : String) (f : FileFormat) :
    List Target → m (List Event × Except Failure (List String))
  | [] => pure ([], .ok [])
  | t :: rest => do
    match ← generate dir t f with
    | (events, .error e) => return (events, .error e)
    | (events, .ok paths) => do
      let (more, result) ← generateAll dir f rest
      return (events ++ more, result.map fun others => paths ++ others)

end ControlStore.Files
