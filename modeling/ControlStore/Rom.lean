import ControlStore.Layout
import ControlStore.Table

/-!
ROM images. A control word is cut into lanes of a few bits, lane 0 the least significant, and
active-low bits are inverted. The lanes of an address stand side by side in one image, or in one
image for each lane, or in banks of one image that the lane field of the address selects.
-/

namespace ControlStore

/-- Where the lanes of a word are stored. -/
inductive Arrangement
  | interleaved
  | split
  | banked
deriving DecidableEq

namespace Arrangement

def name : Arrangement → String
  | interleaved => "interleaved"
  | split => "split"
  | banked => "banked"

def read : String → Except Error Arrangement
  | "interleaved" => .ok .interleaved
  | "split" => .ok .split
  | "banked" => .ok .banked
  | text => .error (.invalid (.arrangement text))

end Arrangement

/-- Which lane comes first. -/
inductive LaneOrder
  | lowFirst
  | highFirst
deriving DecidableEq

namespace LaneOrder

def name : LaneOrder → String
  | lowFirst => "low-first"
  | highFirst => "high-first"

def read : String → Except Error LaneOrder
  | "low-first" => .ok .lowFirst
  | "high-first" => .ok .highFirst
  | text => .error (.invalid (.laneOrder text))

end LaneOrder

structure RomFormat where
  laneWidth : Nat := 8
  laneCount : Nat := 1
  arrangement : Arrangement := .interleaved
  order : LaneOrder := .lowFirst
  /-- The bits that are inverted in the images. -/
  activeLow : Word := Word.zero
deriving DecidableEq

/-- One image. An image that holds a single lane says which. -/
structure RomImage where
  lane : Option Nat
  bytes : Array UInt8
deriving DecidableEq

namespace RomFormat

def maxLanes : Nat := 1024

/-- The bits that all lanes hold together. -/
def capacity (f : RomFormat) : Nat := f.laneWidth * f.laneCount

/-- The place of a lane among the lanes of an address, and the lane at a place. -/
def position (f : RomFormat) (lane : Nat) : Nat :=
  match f.order with
  | .lowFirst => lane
  | .highFirst => f.laneCount - 1 - lane

/-- The bytes of an address in all images together. -/
def bytesPerAddress (f : RomFormat) : Nat :=
  match f.arrangement with
  | .banked => 1
  | _ => f.laneCount

/-- Lanes are 1 to 8 bits wide, there are 1 to 1024 of them, and the address has a lane field if and
only if it selects among banks. -/
def check (f : RomFormat) (l : Layout) : Except Error Unit :=
  if f.laneWidth < 1 ∨ 8 < f.laneWidth then .error (.invalid (.laneWidth f.laneWidth))
  else if f.laneCount < 1 ∨ maxLanes < f.laneCount then
    .error (.invalid (.laneCount f.laneCount maxLanes))
  else match f.arrangement with
    | .banked =>
      if l.width .lane = 0 ∨ l.count .lane ≠ f.laneCount then
        .error (.invalid (.bankedLanes f.laneCount))
      else .ok ()
    | _ => if l.width .lane ≠ 0 then .error (.invalid .laneFieldNotBanked) else .ok ()

/-- The bits of one lane of a word. -/
def laneByte (f : RomFormat) (w : Word) (lane : Nat) : UInt8 :=
  (w.extract (lane * f.laneWidth) f.laneWidth).toUInt8

/-- The stored word and the bank of every address, in order. -/
def stored (f : RomFormat) (t : Table) (l : Layout) : Except Error (Array (Word × Nat)) :=
  let radices := l.radices
  (Array.range l.size).mapM fun n => do
    let a := (Layout.digits radices n).1
    let w ← t.word a.slice a.opcode a.step
    return (w ^^^ f.activeLow, a.lane)

/-- The images that hold some words. -/
def images (f : RomFormat) (words : Array (Word × Nat)) : List RomImage :=
  -- The lanes in the order of their places.
  let lanes := (List.range f.laneCount).map f.position
  match f.arrangement with
  | .interleaved =>
    let lanes := lanes.toArray
    [{ lane := none, bytes := words.flatMap fun w => lanes.map (f.laneByte w.1) }]
  | .split =>
    lanes.map fun lane =>
      { lane := some lane, bytes := words.map fun w => f.laneByte w.1 lane }
  | .banked => [{ lane := none, bytes := words.map fun w => f.laneByte w.1 (f.position w.2) }]

/-- The widest word the lanes have to hold. -/
def requiredWidth (f : RomFormat) (t : Table) : Nat := max t.maxWordWidth f.activeLow.bitWidth

/-- The images of a table. -/
def burn (f : RomFormat) (t : Table) (l : Layout) : Except Error (List RomImage) := do
  f.check l
  if f.capacity < f.requiredWidth t then throw (.wordOverflow (f.requiredWidth t) f.capacity)
  return f.images (← f.stored t l)

/-- The stored byte of one lane of an address, if the images have it. -/
def storedByte? (f : RomFormat) (images : List RomImage) (l : Layout) (a : Address) (lane : Nat) :
    Except Error (Option UInt8) :=
  let place := f.position lane
  match f.arrangement with
  | .interleaved => do
    let n ← l.encode { a with lane := 0 }
    return images.head?.bind fun image => image.bytes[n * f.laneCount + place]?
  | .split => do
    let n ← l.encode { a with lane := 0 }
    return images[place]?.bind fun image => image.bytes[n]?
  | .banked => do
    let n ← l.encode { a with lane := place }
    return images.head?.bind fun image => image.bytes[n]?

/-- Puts the lanes from `lane` up, as many as `remaining`, into a word. -/
def readLanes (f : RomFormat) (images : List RomImage) (l : Layout) (a : Address) :
    (remaining lane : Nat) → Word → Except Error Word
  | 0, _, w => .ok w
  | remaining + 1, lane, w => do
    match ← f.storedByte? images l a lane with
    | none => throw (.invalid .imageMismatch)
    | some byte =>
      readLanes f images l a remaining (lane + 1)
        (w ||| Word.field (lane * f.laneWidth) f.laneWidth byte.toNat)

/-- The control word that images hold for an address, whose lane does not matter. -/
def readWord (f : RomFormat) (images : List RomImage) (l : Layout) (a : Address) :
    Except Error Word := do
  let w ← f.readLanes images l a f.laneCount 0 Word.zero
  return w ^^^ f.activeLow

end RomFormat

end ControlStore
