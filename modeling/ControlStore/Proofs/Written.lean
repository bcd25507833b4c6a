import ControlStore.Layout
import ControlStore.Table

/-! Definition files as they are written. Names, terms, steps and conditions have one spelling, and
each statement has a line of its own. -/

namespace ControlStore.Written

structure Name where
  chars : List Char
  isName : Text.isName chars = true

def Name.string (n : Name) : String := String.ofList n.chars

structure Numeral where
  chars : List Char
  ne_nil : chars ≠ []
  isNumeral : Text.isNumeral chars = true

/-- A signal, or a field with a value. -/
structure Term where
  name : Name
  value : Option Numeral

/-- The terms of a step. A step without terms is a dash or is left empty. -/
structure Step where
  terms : List Term
  dash : Bool

/-- A flag and the value asked of it. -/
structure Literal where
  flag : Name
  value : Bool

abbrev Steps := { steps : List Step // steps ≠ [] }

abbrev Condition := { literals : List Literal // literals ≠ [] }

/-- A control line. Without a width it is a single bit, without a position it comes on top. -/
structure Declaration where
  name : Name
  width : Option UInt32
  bit : Option UInt32
  activeLow : Bool
  width_pos : ∀ w ∈ width, 0 < w.toNat
  activeLow_single : activeLow = true → ∀ w ∈ width, w.toNat = 1

/-- How a number is marked. -/
inductive Mark
  | none
  | decimal
  | hexadecimal
  | binary

/-- A statement about the table. -/
inductive TableClause
  | template (condition : Option Condition) (steps : Steps)
  | reserve (condition : Condition) (steps : Steps)
  | seek (mark : Mark) (opcode : UInt32)
  | define (steps : Steps)
  | defineWhen (condition : Condition) (steps : Steps) (fallback : Option Steps)

inductive Clause
  | declare (declaration : Declaration)
  | compose (name : Name) (terms : List Term)
  | table (clause : TableClause)

/-- A policy of the table. -/
inductive Policy
  | fallback (policy : Fallback)
  | redefine (policy : Redefine)

/-- Names flag bits one after another. -/
def nameFlags (flags : Flags) (names : List (Name × Nat)) : Except Error Flags :=
  names.foldlM (fun flags p => flags.define p.1.string p.2) flags

/-- A definition file: the layout, names for flag bits of the layout, policies, and then any
statements. -/
structure Program where
  layout : Layout
  names : List (Name × Nat)
  flags : Flags
  named : nameFlags { bits := layout.width .flags } names = .ok flags
  policies : List Policy
  clauses : List Clause

/-- A text with a blank before it, unless it is empty. -/
def lead : List Char → List Char
  | [] => []
  | c :: r => ' ' :: c :: r

/-- An optional text with a character before it. -/
def marked (c : Char) : Option (List Char) → List Char
  | none => []
  | some s => c :: s

def numeral (n : UInt32) : List Char := Nat.toDigits 10 n.toNat

namespace Term

def text (t : Term) : List Char := t.name.chars ++ marked '=' (t.value.map Numeral.chars)

def string (t : Term) : String := String.ofList t.text

end Term

def termsText (terms : List Term) : List Char := [' '].intercalate (terms.map Term.text)

namespace Step

def text (s : Step) : List Char :=
  match s.terms, s.dash with
  | [], true => ['-']
  | terms, _ => termsText terms

def strings (s : Step) : List String := s.terms.map Term.string

end Step

def Steps.text (s : Steps) : List Char :=
  [' ', '|'].intercalate (s.val.map fun step => lead step.text)

def Literal.text (l : Literal) : List Char := l.flag.chars ++ ['=', if l.value then '1' else '0']

def Condition.text (c : Condition) : List Char := [',', ' '].intercalate (c.val.map Literal.text)

namespace Declaration

def size (d : Declaration) : Nat := (d.width.map UInt32.toNat).getD 1

def form (d : Declaration) : List Char := d.name.chars ++ marked '/' (d.width.map numeral)

def text (d : Declaration) : List Char :=
  (if d.activeLow then ['/'] else []) ++ (d.form ++ marked ':' (d.bit.map numeral))

end Declaration

namespace Mark

def text : Mark → List Char
  | none => []
  | decimal => ['d']
  | hexadecimal => ['h']
  | binary => ['b']

def radix : Mark → Nat
  | none => 10
  | decimal => 10
  | hexadecimal => 16
  | binary => 2

end Mark

def TableClause.text : TableClause → List Char
  | template none steps => '*' :: steps.text
  | template (some c) steps => '*' :: ' ' :: (c.text ++ [' ', ':'] ++ steps.text)
  | reserve c steps => '^' :: ' ' :: (c.text ++ [' ', ':'] ++ steps.text)
  | seek mark opcode => '>' :: ' ' :: (mark.text ++ Nat.toDigits mark.radix opcode.toNat)
  | define steps => '=' :: steps.text
  | defineWhen c steps none => '?' :: ' ' :: (c.text ++ [' ', ':'] ++ steps.text)
  | defineWhen c steps (some fallback) =>
    '?' :: ' ' :: (c.text ++ [' ', ':'] ++ (steps.text ++ ' ' :: ':' :: fallback.text))

/-- The line of a statement. -/
def Clause.text : Clause → List Char
  | declare d => '@' :: ' ' :: d.text
  | compose name terms => '$' :: ' ' :: (name.chars ++ [' ', '='] ++ lead (termsText terms))
  | table c => c.text

namespace Policy

def key : Policy → String
  | fallback _ => "fallback"
  | redefine _ => "redefine"

def value : Policy → String
  | fallback .preserve => "preserve"
  | fallback .reset => "reset"
  | redefine .replace => "replace"
  | redefine .warn => "warn"
  | redefine .reject => "reject"

end Policy

/-- A name and a number. -/
def pairText (name : List Char) (n : Nat) : List Char := name ++ ':' :: Nat.toDigits 10 n

def layoutText (l : Layout) : List Char :=
  [' '].intercalate (l.fields.map fun p => pairText p.1.name.toList p.2)

def flagsText (names : List (Name × Nat)) : List Char :=
  [' '].intercalate (names.map fun p => pairText p.1.chars p.2)

def settingText (key : String) (value : List Char) : List Char :=
  '!' :: ' ' :: (key.toList ++ ' ' :: value)

namespace Program

/-- The lines before the statements. There is none for flags if none is named. -/
def header (p : Program) : List (List Char) :=
  settingText "layout" (layoutText p.layout) ::
    ((if p.names.isEmpty then [] else [settingText "flags" (flagsText p.names)]) ++
      p.policies.map fun q => settingText q.key q.value.toList)

def lines (p : Program) : List (List Char) := p.header ++ p.clauses.map Clause.text

def text (p : Program) : String := String.ofList (p.lines.map (· ++ ['\n'])).flatten

end Program

end ControlStore.Written
