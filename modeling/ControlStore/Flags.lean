import ControlStore.Error
import ControlStore.Text

/-!
Status flags. A flag slice is one assignment of all flag bits, written as the number they make up. A
condition is an OR of literals `flag=value` and selects the slices in which some literal holds.
-/

namespace ControlStore

structure Flag where
  name : String
  bit : Nat
deriving DecidableEq

/-- One flag bit and the value asked of it. The bit is below 32, as slices are numbers of 32 bits. -/
structure Literal where
  bit : Nat
  value : Bool
deriving DecidableEq

/-- The slice has the value at the bit. Of a bit that no slice has this would ask for zero. -/
def Literal.holds (l : Literal) (slice : Nat) : Bool := slice.testBit l.bit == l.value

/-- An OR of literals. Without literals it holds nowhere. -/
structure Condition where
  literals : List Literal
deriving DecidableEq

def Condition.holds (c : Condition) (slice : Nat) : Bool := c.literals.any (fun l => l.holds slice)

/-- The named bits of a flag field of `bits` bits. -/
structure Flags where
  bits : Nat
  flags : List Flag := []
deriving DecidableEq

namespace Flags

def sliceCount (f : Flags) : Nat := 1 <<< f.bits

def slices (f : Flags) : List Nat := List.range f.sliceCount

/-- Names a bit. Names and bits are used once. -/
def define (f : Flags) (name : String) (bit : Nat) : Except Error Flags :=
  if f.bits ≤ bit then .error (.outOfRange .flagBit bit f.bits)
  else match f.flags.find? (fun g => g.name == name || g.bit == bit) with
    | some g => .error (.invalid (.flagConflict name g.name g.bit))
    | none => .ok { f with flags := f.flags ++ [{ name, bit }] }

def bitOf (f : Flags) (name : String) : Except Error Nat :=
  match f.flags.find? (fun g => g.name == name) with
  | some g => .ok g.bit
  | none => .error (.unknownFlag name)

def literal (f : Flags) (name : String) (value : Bool) : Except Error Literal := do
  return { bit := ← f.bitOf name, value }

/-- Reads `name=0` or `name=1`, blanks allowed around both parts. -/
def readLiteral (f : Flags) (term : List Char) : Except Error Literal :=
  match Text.cut '=' term with
  | none => .error (.invalid (.flagTerm (String.ofList term)))
  | some (name, value) =>
    let name := String.ofList (Text.trim name)
    match Text.trim value with
    | ['0'] => f.literal name false
    | ['1'] => f.literal name true
    | other => .error (.invalid (.flagValue (String.ofList other) (String.ofList term)))

/-- Reads a condition: literals with commas between them. -/
def readCondition (f : Flags) (text : String) : Except Error Condition := do
  let literals ← (Text.splitOn ',' text.toList).mapM (fun term => f.readLiteral (Text.trim term))
  return { literals }

/-- The slices in which a condition holds, ascending. -/
def matching (f : Flags) (c : Condition) : List Nat := f.slices.filter c.holds

end Flags

/-- A slice in binary. -/
def sliceText (slice : Nat) : String := String.ofList ('0' :: 'b' :: Nat.toDigits 2 slice)

end ControlStore
