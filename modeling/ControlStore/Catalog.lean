import ControlStore.Catalog.D1
import ControlStore.Catalog.D2
import ControlStore.Catalog.EightBit
import ControlStore.Catalog.Flisp
import ControlStore.Failure
import ControlStore.Source.Compile

/-!
The built-in targets and the definition files they come from.
-/

namespace ControlStore.Catalog

structure Entry where
  name : String
  description : String
  source : String

def entries : List Entry :=
  [ { name := "beneater-8bit"
      description := "Ben Eater's 8-bit computer, two 8-bit EEPROMs in one image"
      source := eightBitSource },
    { name := "flisp"
      description := "FLISP, 48-bit control word in six 8-bit ROMs"
      source := flispSource },
    { name := "d1"
      description := "D1 instruction ROM, 40-bit control word"
      source := d1Source },
    { name := "d1-interrupt"
      description := "D1 interrupt entry ROM"
      source := d1Source },
    { name := "d2"
      description := "D2 with interrupt mode, 64-bit control word"
      source := d2Source } ]

def find? (name : String) : Option Entry := entries.find? (fun e => e.name == name)

/-- Compiles the definition file of an entry and picks its target. -/
def Entry.load (e : Entry) : List Event × Except Failure Target :=
  let outcome := Source.compileText e.source
  (outcome.log,
    match outcome.result with
    | .error f => .error (.source f)
    | .ok targets =>
      match targets.find? (fun t => t.name == e.name) with
      | some t => .ok t
      | none => .error (.engine (.invalid (.missingTarget e.name))))

def load (name : String) : List Event × Except Failure Target :=
  match find? name with
  | some e => e.load
  | none => ([], .error (.engine (.invalid (.unknownTarget name))))

end ControlStore.Catalog
