import ControlStore.Source.Statement
import ControlStore.Text

/-!
Reading the lines of a definition file as statements.
-/

namespace ControlStore.Source

/-- A line of input: text, or what stands in its way. -/
inductive InputLine
  | text (chars : List Char)
  | undecodable
  | unreadable (cause : DiskError)
deriving DecidableEq

namespace InputLine

def ofText (s : String) : List InputLine := (Text.lines (· == '\n') s.toList).map .text

def decode (line : List UInt8) : InputLine :=
  match String.fromUTF8? ⟨line.toArray⟩ with
  | some s => .text s.toList
  | none => .undecodable

/-- Lines of bytes are decoded one by one, so that a broken line leaves those before it alone. -/
def ofBytes (bytes : ByteArray) : List InputLine :=
  (Text.lines (· == 10) bytes.data.toList).map decode

/-- The lines of a file that cannot be read beyond some bytes. A line that had not ended by then is
lost. -/
def ofBrokenBytes (before : ByteArray) (cause : DiskError) : List InputLine :=
  (Text.pieces (· == 10) before.data.toList).dropLast.map decode ++ [.unreadable cause]

end InputLine

/-- Reads the steps between bars. A lone dash and nothing at all are steps without terms. -/
def readStep (s : List Char) : Step :=
  match s with
  | ['.', '.'] => .fill
  | '%' :: name =>
    if name.any Text.isBlank then .partialSplice (String.ofList s) else .splice (String.ofList name)
  | ['-'] => .terms []
  | _ => .terms ((Text.words s).map String.ofList)

def readSteps (s : List Char) : List Step :=
  (Text.splitOn '|' s).map fun step => readStep (Text.trim step)

/-- Reads `name/width`, or a name alone for a single bit. -/
def readFieldForm (s : List Char) : Except Fault (String × Nat) :=
  match Text.cut '/' s with
  | none => .ok (String.ofList s, 1)
  | some (name, width) =>
    if width.contains '/' then .error (.fieldForm (String.ofList s))
    else match Text.nat32? width with
      | none => .error (.fieldWidth (String.ofList width) (String.ofList name))
      | some 0 => .error (.zeroWidth (String.ofList name))
      | some w => .ok (String.ofList name, w)

/-- Takes off the slash in front of an active-low line. -/
def readPolarity : List Char → Bool × List Char
  | '/' :: rest => (true, rest)
  | s => (false, s)

/-- Takes off the bit of a line after a colon. -/
def readPosition (s : List Char) : Except Fault (List Char × Option Nat) :=
  match Text.cut ':' s with
  | none => .ok (s, none)
  | some (line, bit) =>
    match Text.nat32? bit with
    | none => .error (.bitPosition (String.ofList bit) (String.ofList line))
    | some b => .ok (line, some b)

/-- Reads a control line: a slash in front if it is active low, and its bit after a colon. -/
def readDeclaration (s : List Char) : Except Fault Declaration := do
  let (activeLow, s) := readPolarity s
  let (s, bit) ← readPosition s
  let (name, width) ← readFieldForm s
  if activeLow ∧ 1 < width then throw (.activeLowField name)
  return { name, width, bit, activeLow }

def readDeclarations (s : List Char) : List Statement :=
  (Text.words s).map fun w =>
    match readDeclaration w with
    | .ok d => .declare d
    | .error f => .fail f

def readValueNames (s : List Char) : Statement :=
  match (Text.words s).map String.ofList with
  | [] => .fail .missingFieldName
  | field :: names => .nameValues field names

def readComposite (s : List Char) : Statement :=
  match Text.cut '=' s with
  | none => .fail (.compositeForm (String.ofList (Text.trim s)))
  | some (name, terms) =>
    .compose (String.ofList (Text.trim name)) ((Text.words terms).map String.ofList)

def readAbbreviation (s : List Char) : Statement :=
  match Text.cut '=' s with
  | none => .fail (.sequenceForm (String.ofList (Text.trim s)))
  | some (name, steps) =>
    let name := Text.trim name
    if Text.isName name then .abbreviate (String.ofList name) (readSteps steps)
    else .fail (.sequenceName (String.ofList name))

/-- Reads `name:bit`. -/
def readFlag (s : List Char) : Except Fault (String × Nat) :=
  match Text.cut ':' s with
  | none => .error (.flagForm (String.ofList s))
  | some (name, bit) =>
    match Text.nat32? bit with
    | none => .error (.flagForm (String.ofList s))
    | some b => .ok (String.ofList name, b)

def readSettingNumber (key : String) (s : List Char) : Except Fault Nat :=
  match Text.nat32? s with
  | some n => .ok n
  | none => .error (.settingNumber (String.ofList s) key)

/-- A result of the engine with its error as a fault. -/
def ofEngine {α : Type} (r : Except Error α) : Except Fault α := r.mapError Fault.engine

def readSettingValue (key : String) (s : List Char) : Except Fault Setting :=
  match key with
  | "layout" => do
    let l ← ofEngine (Layout.read (String.ofList s))
    return .layout l
  | "flags" => .ok (.flags ((Text.words s).map readFlag))
  | "pad" => .ok (.pad ((Text.words s).map String.ofList))
  | "lanes" => do
    let n ← readSettingNumber key s
    if n < 1 ∨ RomFormat.maxLanes < n then throw (.laneCount n RomFormat.maxLanes)
    return .lanes n
  | "lane-width" => do
    let n ← readSettingNumber key s
    return .laneWidth n
  | "lane-layout" => do
    let a ← ofEngine (Arrangement.read (String.ofList s))
    return .arrangement a
  | "byte-order" => do
    let o ← ofEngine (LaneOrder.read (String.ofList s))
    return .order o
  | "fallback" => do
    let p ← ofEngine (Fallback.read (String.ofList s))
    return .fallback p
  | "redefine" => do
    let p ← ofEngine (Redefine.read (String.ofList s))
    return .redefine p
  | "output" => .ok (.output (String.ofList s))
  | _ => .error (.unknownSetting key)

/-- Reads a key and, after the first blank, its value. -/
def readSetting (s : List Char) : Statement :=
  let s := Text.trim s
  let (key, value) := (Text.cutAt Text.isBlank s).getD (s, [])
  let value := Text.trim value
  let key := String.ofList key
  if key.isEmpty then .fail .missingSetting
  else if value.isEmpty then .fail (.missingValue key)
  else if key == "name" then .startTarget (String.ofList value)
  else .setting key (readSettingValue key value)

def readTemplate (s : List Char) : Statement :=
  match Text.splitOn ':' s with
  | [steps] => .table (.template none (readSteps steps))
  | [condition, steps] =>
    .table (.template (some (String.ofList (Text.trim condition))) (readSteps steps))
  | _ => .fail (.conditionForm (String.ofList (Text.trim s)) false)

def readReservation (s : List Char) : Statement :=
  match Text.splitOn ':' s with
  | [condition, steps] =>
    .table (.reserve (String.ofList (Text.trim condition)) (readSteps steps))
  | _ => .fail (.conditionForm (String.ofList (Text.trim s)) false)

def readConditional (s : List Char) : Statement :=
  match Text.splitOn ':' s with
  | [condition, steps] =>
    .table (.defineWhen (String.ofList (Text.trim condition)) (readSteps steps) none)
  | [condition, steps, fallback] =>
    .table (.defineWhen (String.ofList (Text.trim condition)) (readSteps steps)
      (some (readSteps fallback)))
  | _ => .fail (.conditionForm (String.ofList (Text.trim s)) true)

/-- The radix of a number, which a letter in front of it may tell, and its digits. -/
def readRadix : List Char → Nat × List Char
  | 'h' :: digits => (16, digits)
  | 'd' :: digits => (10, digits)
  | 'b' :: digits => (2, digits)
  | digits => (10, digits)

/-- Reads an opcode: hexadecimal after `h`, binary after `b`, else decimal, also after `d`. -/
def readAddress (s : List Char) : List Statement :=
  let s := Text.trim s
  if s.isEmpty then [.fail .missingAddress]
  else
    let (radix, digits) := readRadix s
    match Text.number? radix Text.limit32 digits with
    | none => [.fail (.addressForm (String.ofList digits))]
    | some n => [.seal, .table (.seek n)]

/-- The statements of a line without its comment. Whatever is about the table fixes the settings of
the target first, even if it fails then. -/
def readLine (s : List Char) : List Statement :=
  match Text.trim (s.takeWhile (· != '#')) with
  | [] => []
  | c :: rest =>
    match c with
    | '@' => readDeclarations rest
    | '~' => [readValueNames rest]
    | '$' => [readComposite rest]
    | '%' => [readAbbreviation rest]
    | '!' => [readSetting rest]
    | '*' => [.seal, readTemplate rest]
    | '^' => [.seal, readReservation rest]
    | '>' => readAddress rest
    | '=' => [.seal, .table (.define (readSteps rest))]
    | '?' => [.seal, readConditional rest]
    | _ => [.fail (.lineStart c)]

/-- Byte order marks may lead the first line. -/
def isByteOrderMark (c : Char) : Bool := c == '\ufeff'

/-- The statements of the line with a number. -/
def readInputLine (number : Nat) : InputLine → List Statement
  | .text s => readLine (if number = 1 then s.dropWhile isByteOrderMark else s)
  | .undecodable => [.fail .undecodable]
  | .unreadable cause => [.fail (.unreadable cause)]

/-- All statements with the numbers of their lines, counted from one. -/
def readLines (lines : List InputLine) : List (Nat × Statement) :=
  (lines.zipIdx 1).flatMap fun (line, number) =>
    (readInputLine number line).map fun s => (number, s)

end ControlStore.Source
