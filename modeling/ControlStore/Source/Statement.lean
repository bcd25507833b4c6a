import ControlStore.Layout
import ControlStore.Rom
import ControlStore.Source.Fault
import ControlStore.Table

/-!
The statements of the definition language. The first character of a line says what the line states:

* `@` declares control lines: `A`, `/B` active low, `C/4` a field, `D:12` at a bit,
* `~` names the values of a field,
* `$` defines a composite: `AB = A B`,
* `%` abbreviates a sequence of steps: `FETCH = A | B C`,
* `!` makes a setting,
* `*` sets the template of all slices or of those where a condition holds,
* `^` reserves slices,
* `>` moves the cursor,
* `=` defines the instruction at the cursor,
* `?` defines it where a condition holds.

Steps have bars between them. A step is a list of terms, a reference to an abbreviated sequence, or
two dots, which fill up with the pad word. A malformed piece of a line is read as a statement that
fails, in its place among the other statements of the line.
-/

namespace ControlStore.Source

inductive Step
  | terms (terms : List String)
  | splice (name : String)
  | partialSplice (text : String)
  | fill
deriving DecidableEq

structure Declaration where
  name : String
  width : Nat
  bit : Option Nat
  activeLow : Bool
deriving DecidableEq

inductive Setting
  | layout (layout : Layout)
  | flags (flags : List (Except Fault (String × Nat)))
  | pad (terms : List String)
  | lanes (count : Nat)
  | laneWidth (width : Nat)
  | arrangement (arrangement : Arrangement)
  | order (order : LaneOrder)
  | fallback (fallback : Fallback)
  | redefine (redefine : Redefine)
  | output (pattern : String)

/-- A statement about the instruction table of the current target. -/
inductive TableStatement
  | template (condition : Option String) (steps : List Step)
  | reserve (condition : String) (steps : List Step)
  | seek (opcode : Nat)
  | define (steps : List Step)
  | defineWhen (condition : String) (steps : List Step) (fallback : Option (List Step))
deriving DecidableEq

inductive Statement
  | fail (fault : Fault)
  | declare (declaration : Declaration)
  | nameValues (field : String) (names : List String)
  | compose (name : String) (terms : List String)
  | abbreviate (name : String) (steps : List Step)
  | startTarget (name : String)
  | setting (key : String) (value : Except Fault Setting)
  | seal
  | table (statement : TableStatement)

end ControlStore.Source
