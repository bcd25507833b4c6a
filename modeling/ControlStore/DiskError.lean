/-!
The causes for which operations on files fail, with the number and the wording of the operating
system.
-/

namespace ControlStore

inductive DiskError
  | notFound
  | busy
  | alreadyExists
  | notADirectory
  | isADirectory
  | nameTooLong
  | zeroInName
  | other (code : Nat) (text : String)
deriving DecidableEq

namespace DiskError

def code : DiskError → Nat
  | notFound => 2
  | busy => 16
  | alreadyExists => 17
  | notADirectory => 20
  | isADirectory => 21
  | nameTooLong => 36
  | zeroInName => 22
  | other code _ => code

def kind : DiskError → String
  | notFound => "NotFound"
  | busy => "ResourceBusy"
  | alreadyExists => "AlreadyExists"
  | notADirectory => "NotADirectory"
  | isADirectory => "IsADirectory"
  | nameTooLong => "InvalidFilename"
  | zeroInName => "InvalidInput"
  | other .. => "Other"

def text : DiskError → String
  | notFound => "No such file or directory"
  | busy => "Device or resource busy"
  | alreadyExists => "File exists"
  | notADirectory => "Not a directory"
  | isADirectory => "Is a directory"
  | nameTooLong => "File name too long"
  | zeroInName => "file name contained an unexpected NUL byte"
  | other _ text => text

/-- The text of the system with its number. A name with a zero character never gets to the
system. -/
def message : DiskError → String
  | zeroInName => zeroInName.text
  | e => s!"{e.text} (os error {e.code})"

end DiskError

end ControlStore
