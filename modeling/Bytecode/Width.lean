/-!
# Integer widths

The unsigned widths in which operands and opcodes are represented.
-/

namespace Bytecode

inductive Width where
  | u8
  | u16
  | u32
  deriving DecidableEq, Repr, Inhabited

namespace Width

def all : List Width := [u8, u16, u32]

def name : Width → String
  | u8 => "u8"
  | u16 => "u16"
  | u32 => "u32"

def ofName? (name : String) : Option Width := all.find? fun width => width.name = name

def bytes : Width → Nat
  | u8 => 1
  | u16 => 2
  | u32 => 4

def maxValue : Width → UInt32
  | u8 => 0xff
  | u16 => 0xffff
  | u32 => 0xffffffff

def fits (width : Width) (value : UInt32) : Bool := value ≤ width.maxValue

/-- The narrowest width that holds every value below `limit`. -/
def forLimit (limit : UInt32) : Width :=
  if limit ≤ 0x100 then u8 else if limit ≤ 0x10000 then u16 else u32

def forValue (value : UInt32) : Width :=
  if value = 0xffffffff then u32 else forLimit (value + 1)

end Width

end Bytecode
