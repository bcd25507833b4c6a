import ControlStore.FileFormat
import ControlStore.Rom
import ControlStore.Signals

/-!
A target: a complete ROM with its signals, flags, address layout and instruction table, and how it
is laid out in files.
-/

namespace ControlStore

structure Target where
  name : String
  signals : Signals
  flags : Flags
  layout : Layout
  table : Table
  format : RomFormat
  /-- The file name, in which placeholders may stand for the lane and its lowest and highest bit. -/
  output : String

namespace Target

def images (t : Target) : Except Error (List RomImage) := t.format.burn t.table t.layout

/-- The bytes of all images together. -/
def imageSize (t : Target) : Nat := t.layout.size * t.format.bytesPerAddress

def lanePlaceholder : List Char := "\x7blane\x7d".toList

def lowPlaceholder : List Char := "\x7blo\x7d".toList

def highPlaceholder : List Char := "\x7bhi\x7d".toList

/-- The file name for one lane. Without placeholders the lane's number goes before the last dot. -/
def laneFileName (pattern : String) (laneWidth lane : Nat) : String :=
  let s := pattern.toList
  let number := (toString lane).toList
  let low := (toString (lane * laneWidth)).toList
  let high := (toString (lane * laneWidth + laneWidth - 1)).toList
  if [lanePlaceholder, lowPlaceholder, highPlaceholder].any (fun p => Text.occurs p s) then
    String.ofList (Text.replaceAll highPlaceholder high
      (Text.replaceAll lowPlaceholder low (Text.replaceAll lanePlaceholder number s)))
  else match Text.cutLast '.' s with
    | some (before, after) => String.ofList (before ++ '_' :: number ++ after)
    | none => String.ofList (s ++ '_' :: number)

/-- The file names of the images, before a format changes the extension. -/
def fileNames (t : Target) (images : List RomImage) : List String :=
  images.map fun image =>
    match image.lane with
    | some lane => laneFileName t.output t.format.laneWidth lane
    | none => t.output

/-- Names and contents of the files for named images. -/
def renderNamed (images : List (String × Array UInt8)) (f : FileFormat) (width : Nat) :
    List (String × ByteArray) :=
  images.map fun (name, bytes) => (f.fileName name, f.render width bytes)

/-- The files for the images of a target. -/
def render (t : Target) (images : List RomImage) (f : FileFormat) : List (String × ByteArray) :=
  renderNamed ((t.fileNames images).zip (images.map RomImage.bytes)) f t.format.laneWidth

end Target

end ControlStore
