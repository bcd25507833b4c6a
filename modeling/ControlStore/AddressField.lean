/-!
The fields a ROM address is made of.
-/

namespace ControlStore

inductive AddressField
  | flags
  | lane
  | opcode
  | step
deriving DecidableEq

namespace AddressField

def all : List AddressField := [flags, lane, opcode, step]

def name : AddressField → String
  | flags => "flags"
  | lane => "lane"
  | opcode => "opcode"
  | step => "step"

def ofName? (s : String) : Option AddressField :=
  all.find? (fun f => f.name == s)

end AddressField

end ControlStore
