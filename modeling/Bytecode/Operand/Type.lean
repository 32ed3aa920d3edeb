import Bytecode.Error
import Bytecode.Width

/-!
# Operand types

An operand is either a transparent integer of some width (an alias) or a variant of a closed
enumeration (a named type) in which every variant has an encoding of its own. A named type may be
derived from another one, with the encodings shifted left.
-/

namespace Bytecode

/-- A shift of encodings to the left. It is computed in 64 bits, out of which bits may fall
unnoticed; only the 64-bit result has to fit 32 bits. -/
structure Shift where
  bits : UInt32
  deriving DecidableEq, Repr

namespace Shift

def apply (shift : Shift) (value : UInt32) : Option UInt32 :=
  if shift.bits < 64 then
    let shifted := value.toUInt64 <<< shift.bits.toUInt64
    if shifted ≤ 0xffffffff then some shifted.toUInt32 else none
  else none

/-- The value whose shift is `value`. -/
def invert (shift : Shift) (value : UInt32) : Option UInt32 :=
  if shift.bits < 32 then
    let restored := value >>> shift.bits
    if shift.apply restored = some value then some restored else none
  else none

end Shift

structure AliasType where
  name : String
  width : Width
  doc : Option String
  deriving DecidableEq, Repr

structure Variant where
  name : String
  value : UInt32
  doc : Option String
  deriving DecidableEq, Repr

structure Derivation where
  base : String
  shift : Shift
  deriving DecidableEq, Repr

structure NamedType where
  name : String
  doc : Option String
  variants : List Variant
  derivation : Option Derivation
  deriving DecidableEq, Repr

namespace NamedType

def decode? (type : NamedType) (raw : UInt32) : Option Nat :=
  type.variants.findIdx? fun variant => variant.value = raw

def encode? (type : NamedType) (index : Nat) : Option UInt32 :=
  type.variants[index]?.map Variant.value

def variant? (type : NamedType) (name : String) : Option (Nat × Variant) :=
  (type.variants.zipIdx.find? fun entry => entry.1.name = name).map fun entry =>
    (entry.2, entry.1)

/-- The narrowest width that holds every encoding. -/
def width (type : NamedType) : Width :=
  .forValue (type.variants.foldl (fun most variant => max most variant.value) 0)

end NamedType

inductive OpargType where
  | aliased (type : AliasType)
  | named (type : NamedType)
  deriving DecidableEq, Repr

/-- A decoded operand: a plain integer, or a variant by its position and encoding. -/
inductive OpargValue where
  | raw (encoding : UInt32)
  | variant (index : Nat) (encoding : UInt32)
  deriving DecidableEq, Repr

def OpargValue.encoding : OpargValue → UInt32
  | raw encoding => encoding
  | variant _ encoding => encoding

namespace OpargType

def name : OpargType → String
  | aliased type => type.name
  | named type => type.name

def doc : OpargType → Option String
  | aliased type => type.doc
  | named type => type.doc

def asNamed? : OpargType → Option NamedType
  | named type => some type
  | aliased _ => none

def asAlias? : OpargType → Option AliasType
  | aliased type => some type
  | named _ => none

def decode? (type : OpargType) (raw : UInt32) : Option OpargValue :=
  match type with
  | aliased type => if type.width.fits raw then some (.raw raw) else none
  | named type => (type.decode? raw).map fun index => .variant index raw

def encode? (type : OpargType) (value : OpargValue) : Option UInt32 :=
  match type, value with
  | aliased type, .raw encoding => if type.width.fits encoding then some encoding else none
  | named type, .variant index encoding =>
      if type.encode? index = some encoding then some encoding else none
  | _, _ => none

def decode (type : OpargType) (raw : UInt32) : Except DecodeError OpargValue :=
  match type.decode? raw with
  | some value => .ok value
  | none => .error (.invalidOperand type.name raw)

def encode (type : OpargType) (value : OpargValue) : Except DecodeError UInt32 :=
  match type.encode? value with
  | some raw => .ok raw
  | none => .error (.invalidOperand type.name value.encoding)

end OpargType

end Bytecode
