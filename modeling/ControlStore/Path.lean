import ControlStore.Text

/-!
File paths as texts: slashes divide components, and neither empty components nor single dots count.
-/

namespace ControlStore.Path

/-- The components between slashes, without the empty ones. -/
def parts (path : List Char) : List (List Char) :=
  (Text.splitOn '/' path).filter (fun p => !p.isEmpty)

/-- The components that name something. -/
def components (path : List Char) : List (List Char) :=
  (parts path).filter (fun p => p != ['.'])

def isAbsolute (path : List Char) : Bool := path.head? == some '/'

/-- The last component, unless it leads upwards. -/
def fileName? (path : List Char) : Option (List Char) :=
  (components path).getLast?.filter (fun p => p != ['.', '.'])

/-- What follows the last dot of the file name, unless that dot leads the name. -/
def extension? (path : List Char) : Option (List Char) := do
  let name ← fileName? path
  let (stem, rest) ← Text.cutLast '.' name
  if stem.isEmpty then none else some (rest.drop 1)

/-- The path with another extension. As many bytes as the old extension has are taken off the end of
the whole path, slashes and dots after the file name included. -/
def withExtension (path extension : List Char) : List Char :=
  match extension? path with
  | some old => Text.dropBytesRight (String.ofList old).utf8ByteSize path ++ extension
  | none => path ++ '.' :: extension

/-- A path below a directory. An absolute path stays as it is. -/
def join (dir path : String) : String :=
  if isAbsolute path.toList then path
  else if dir.isEmpty || dir.toList.getLast? == some '/' then dir ++ path
  else dir ++ "/" ++ path

/-- The path without its last component, if it has one. -/
def parent? (path : List Char) : Option (List Char) :=
  match components path with
  | [] => if (parts path).isEmpty then none else some []
  | c :: cs =>
    let rest := List.intercalate ['/'] (c :: cs).dropLast
    some (if isAbsolute path then '/' :: rest else rest)

/-- Where a file is written before it takes its place. -/
def staging (path : String) : String := path ++ ".tmp"

end ControlStore.Path
