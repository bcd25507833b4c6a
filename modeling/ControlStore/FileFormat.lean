import ControlStore.Path

/-!
The formats an image file can have: raw bytes, one hexadecimal byte to a line, the run-length coded
memory image that Logisim loads, and one binary number to a line.
-/

namespace ControlStore

inductive FileFormat
  | binary
  | hex
  | logisim
  | logix
deriving DecidableEq

namespace FileFormat

def all : List FileFormat := [binary, hex, logisim, logix]

def name : FileFormat → String
  | binary => "binary"
  | hex => "hex"
  | logisim => "logisim"
  | logix => "logix"

def ofName? (s : String) : Option FileFormat := all.find? (fun f => f.name == s)

/-- The extension of the files. Raw images keep their own. -/
def extension? : FileFormat → Option String
  | binary => none
  | hex => some "hex"
  | logisim => some "logisim"
  | logix => some "logix"

/-- A file name with the extension of the format. -/
def fileName (f : FileFormat) (name : String) : String :=
  match f.extension? with
  | none => name
  | some e => String.ofList (Path.withExtension name.toList e.toList)

/-- One line for each byte. -/
def renderLines (line : UInt8 → String) (bytes : Array UInt8) : String :=
  bytes.foldl (fun text b => text ++ line b) ""

def hexLine (b : UInt8) : String :=
  String.ofList ((Text.padded 16 2 b.toNat).map Char.toUpper ++ ['\n'])

def logixLine (width : Nat) (b : UInt8) : String :=
  String.ofList (Text.padded 2 width b.toNat ++ ['\n'])

/-- The maximal runs of equal bytes, with their lengths. -/
def runs (bytes : Array UInt8) : List (Nat × UInt8) :=
  bytes.foldr (fun b acc =>
    match acc with
    | (n, c) :: rest => if b = c then (n + 1, c) :: rest else (1, b) :: acc
    | [] => [(1, b)]) []

/-- The shortest run that is written as one entry. -/
def minRun : Nat := 4

/-- The entries of a run: one for all its bytes if it is long enough, else one for each. -/
def runEntries (run : Nat × UInt8) : List String :=
  let byte := String.ofList (Text.padded 16 2 run.2.toNat)
  if minRun ≤ run.1 then [s!"{run.1}*{byte}"] else List.replicate run.1 byte

def entriesPerLine : Nat := 16

/-- Entries with blanks between them, a fixed number to a line. -/
def entryLines (entries : List String) : String :=
  let (text, count) := entries.foldl (fun (acc : String × Nat) e =>
    let gap := if acc.2 = 0 then "" else if acc.2 % entriesPerLine = 0 then "\n" else " "
    (acc.1 ++ gap ++ e, acc.2 + 1)) ("", 0)
  if count = 0 then "" else text ++ "\n"

def logisimText (bytes : Array UInt8) : String :=
  "v2.0 raw\n" ++ entryLines ((runs bytes).flatMap runEntries)

/-- The contents of the file for an image. The width is the least number of binary digits. -/
def render (f : FileFormat) (width : Nat) (bytes : Array UInt8) : ByteArray :=
  match f with
  | binary => ⟨bytes⟩
  | hex => (renderLines hexLine bytes).toUTF8
  | logisim => (logisimText bytes).toUTF8
  | logix => (renderLines (logixLine width) bytes).toUTF8

end FileFormat

end ControlStore
