import ControlStore.DiskError

/-!
The operations on files that the compiler needs. They are asked of whatever monad it runs in, so
that one definition serves a tree of files held in memory and the files of the machine.
-/

namespace ControlStore

/-- A file cannot be opened, or it is open and cannot be read beyond some bytes. -/
inductive ReadFailure
  | atOpen (cause : DiskError)
  | atRead (before : ByteArray) (cause : DiskError)

class Disk (m : Type → Type) where
  /-- Creates a file or replaces its contents. -/
  write : String → ByteArray → m (Except DiskError Unit)
  /-- Removes a file. What is no file stays. -/
  remove : String → m Unit
  /-- Moves a file, in place of a file that is there. -/
  rename : String → String → m (Except DiskError Unit)
  /-- Creates a directory and those above it, as far as they are missing. -/
  makeDirs : String → m (Except DiskError Unit)
  read : String → m (Except ReadFailure ByteArray)

end ControlStore
