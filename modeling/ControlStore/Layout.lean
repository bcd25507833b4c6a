import ControlStore.Error
import ControlStore.Text

/-!
Address layouts: the fields of a ROM address, most significant first, with their widths. Encoding
strings the field values together and decoding takes them apart again.
-/

namespace ControlStore

/-- An address by the values of its fields. -/
structure Address where
  slice : Nat := 0
  opcode : Nat := 0
  step : Nat := 0
  lane : Nat := 0
deriving DecidableEq

namespace Address

def get (a : Address) : AddressField → Nat
  | .flags => a.slice
  | .lane => a.lane
  | .opcode => a.opcode
  | .step => a.step

def set (a : Address) (f : AddressField) (v : Nat) : Address :=
  match f with
  | .flags => { a with slice := v }
  | .lane => { a with lane := v }
  | .opcode => { a with opcode := v }
  | .step => { a with step := v }

end Address

namespace Layout

/-- The widest address there may be. -/
def maxBits : Nat := 24

/-- How often a field occurs. -/
def occurrences (fields : List (AddressField × Nat)) (f : AddressField) : Nat :=
  fields.countP (fun p => p.1 == f)

def totalWidth (fields : List (AddressField × Nat)) : Nat := fields.foldr (fun p n => p.2 + n) 0

/-- Flags, opcode and step occur once, a lane at most once, and the widths stay within the limit. -/
structure WellFormed (fields : List (AddressField × Nat)) : Prop where
  flags_once : occurrences fields .flags = 1
  lane_at_most_once : occurrences fields .lane ≤ 1
  opcode_once : occurrences fields .opcode = 1
  step_once : occurrences fields .step = 1
  total_le : totalWidth fields ≤ maxBits

/-- Every field but the lane must occur, and none twice. -/
def checkField (fields : List (AddressField × Nat)) (f : AddressField) : Except Error Unit :=
  if 1 < occurrences fields f then .error (.invalid (.repeatedField f))
  else if occurrences fields f = 0 ∧ f ≠ .lane then .error (.invalid (.missingField f))
  else .ok ()

/-- Each field by itself and then all of them together stay within the limit. -/
def checkWidths (fields : List (AddressField × Nat)) : Except Error Unit :=
  -- A single field is tried first, so that the error names it.
  match fields.find? (fun p => decide (maxBits < p.2)) with
  | some (f, w) => .error (.invalid (.fieldTooWide f w maxBits))
  | none =>
    if maxBits < totalWidth fields then
      .error (.invalid (.layoutTooWide (totalWidth fields) maxBits))
    else .ok ()

def check (fields : List (AddressField × Nat)) : Except Error Unit := do
  checkField fields .flags
  checkField fields .lane
  checkField fields .opcode
  checkField fields .step
  checkWidths fields

theorem checkField_eq_ok {fields : List (AddressField × Nat)} {f : AddressField} {u : Unit}
    (h : checkField fields f = .ok u) :
    occurrences fields f ≤ 1 ∧ (f ≠ .lane → occurrences fields f = 1) := by
  unfold checkField at h
  split at h
  · cases h
  · split at h
    · cases h
    · rename_i h1 h0
      refine ⟨by omega, fun hf => ?_⟩
      have : occurrences fields f ≠ 0 := fun hz => h0 ⟨hz, hf⟩
      omega

theorem checkWidths_eq_ok {fields : List (AddressField × Nat)} {u : Unit}
    (h : checkWidths fields = .ok u) : totalWidth fields ≤ maxBits := by
  unfold checkWidths at h
  split at h
  · cases h
  · split at h
    · cases h
    · omega

theorem wellFormed_of_check {fields : List (AddressField × Nat)} {u : Unit}
    (h : check fields = .ok u) : WellFormed fields := by
  unfold check at h
  cases hf : checkField fields .flags with
  | error e => rw [hf] at h; cases h
  | ok _ =>
    cases hl : checkField fields .lane with
    | error e => rw [hf, hl] at h; cases h
    | ok _ =>
      cases ho : checkField fields .opcode with
      | error e => rw [hf, hl, ho] at h; cases h
      | ok _ =>
        cases hs : checkField fields .step with
        | error e => rw [hf, hl, ho, hs] at h; cases h
        | ok _ =>
          rw [hf, hl, ho, hs] at h
          exact ⟨(checkField_eq_ok hf).2 (by decide), (checkField_eq_ok hl).1,
            (checkField_eq_ok ho).2 (by decide), (checkField_eq_ok hs).2 (by decide),
            checkWidths_eq_ok h⟩

end Layout

/-- The fields of an address, most significant first. -/
structure Layout where
  fields : List (AddressField × Nat)
  wellFormed : Layout.WellFormed fields
deriving DecidableEq

namespace Layout

def ofFields (fields : List (AddressField × Nat)) : Except Error Layout :=
  match h : check fields with
  | .error e => .error e
  | .ok _ => .ok ⟨fields, wellFormed_of_check h⟩

def readField (name : String) : Except Error AddressField :=
  match AddressField.ofName? name with
  | some f => .ok f
  | none => .error (.invalid (.addressField name))

/-- Reads `name:width`. -/
def readTerm (term : List Char) : Except Error (AddressField × Nat) :=
  match Text.cut ':' term with
  | none => .error (.invalid (.layoutTerm (String.ofList term)))
  | some (name, width) =>
    match Text.nat32? width with
    | none => .error (.invalid (.layoutWidth (String.ofList width) (String.ofList term)))
    | some w => do
      let f ← readField (String.ofList name)
      return (f, w)

/-- Reads fields with blanks between them. -/
def read (text : String) : Except Error Layout := do
  let fields ← (Text.words text.toList).mapM readTerm
  ofFields fields

def width (l : Layout) (f : AddressField) : Nat :=
  match l.fields.find? (fun p => p.1 == f) with
  | some (_, w) => w
  | none => 0

def totalBits (l : Layout) : Nat := totalWidth l.fields

/-- The number of addresses. -/
def size (l : Layout) : Nat := 1 <<< l.totalBits

/-- The number of values of a field. -/
def count (l : Layout) (f : AddressField) : Nat := 1 <<< l.width f

/-- The number with the field values as its digits. Each must fit its field, and there is no lane
but zero without a lane field. -/
def encode (l : Layout) (a : Address) : Except Error Nat := do
  let n ← l.fields.foldlM (fun n (f, w) =>
    if 1 <<< w ≤ a.get f then .error (.outOfRange (.field f) (a.get f) (1 <<< w))
    else .ok ((n <<< w) + a.get f)) 0
  if l.width .lane = 0 ∧ a.lane ≠ 0 then throw (.outOfRange (.field .lane) a.lane 1)
  return n

/-- The fields with the numbers of their values. -/
def radices (l : Layout) : List (AddressField × Nat) :=
  l.fields.map fun p => (p.1, 1 <<< p.2)

/-- The field values of a number, taken off from the least significant field up, and what is left of
the number then. -/
def digits (radices : List (AddressField × Nat)) (n : Nat) : Address × Nat :=
  radices.foldr (fun p acc => (acc.1.set p.1 (acc.2 % p.2), acc.2 / p.2)) ({}, n)

def decode (l : Layout) (n : Nat) : Except Error Address :=
  if l.size ≤ n then .error (.outOfRange .address n l.size)
  else .ok (digits l.radices n).1

end Layout

end ControlStore
