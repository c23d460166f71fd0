import MiniLLM.Status

/-!
io/gguf_format. A metadata type tag is any 32-bit word on the wire; the thirteen
named ones are constructors and `unknown` keeps the others. A tensor element
type is kept as its word, since every word is a value of the C++ enumeration.
A `std::string` of the file is its list of bytes.
-/

namespace MiniLLM

abbrev Bytes := List UInt8

/-- A byte string inside an error message, one character for each byte. -/
def text (bytes : Bytes) : String := String.ofList (bytes.map fun byte => Char.ofNat byte.toNat)

/-- The bytes of an ASCII literal. -/
def ascii (literal : String) : Bytes := literal.toList.map fun char => UInt8.ofNat char.toNat

inductive GgufValueType where
  | uint8 | int8 | uint16 | int16 | uint32 | int32 | float32 | bool | string | array
  | uint64 | int64 | float64
  | unknown (raw : UInt32)
  deriving DecidableEq, Repr

namespace GgufValueType

def ofRaw (raw : UInt32) : GgufValueType :=
  match raw.toNat with
  | 0 => .uint8 | 1 => .int8 | 2 => .uint16 | 3 => .int16 | 4 => .uint32 | 5 => .int32
  | 6 => .float32 | 7 => .bool | 8 => .string | 9 => .array
  | 10 => .uint64 | 11 => .int64 | 12 => .float64
  | _ => .unknown raw

def toRaw : GgufValueType → UInt32
  | .uint8 => 0 | .int8 => 1 | .uint16 => 2 | .int16 => 3 | .uint32 => 4 | .int32 => 5
  | .float32 => 6 | .bool => 7 | .string => 8 | .array => 9
  | .uint64 => 10 | .int64 => 11 | .float64 => 12
  | .unknown raw => raw

@[simp] theorem toRaw_ofRaw (raw : UInt32) : (ofRaw raw).toRaw = raw := by
  unfold ofRaw
  split
  case h_14 => rfl
  all_goals
    rename_i tag
    exact UInt32.toNat_inj.mp tag.symm

end GgufValueType

structure GgmlDataType where
  raw : UInt32
  deriving DecidableEq, Repr

namespace GgmlDataType

def F32 : GgmlDataType := ⟨0⟩
def F16 : GgmlDataType := ⟨1⟩
def Q8_0 : GgmlDataType := ⟨8⟩
def BF16 : GgmlDataType := ⟨30⟩

end GgmlDataType

def kGgufVersion : UInt32 := 3
def kGgufDefaultAlignment : UInt32 := 32
def kQ8_0BlockSize : Nat := 34
def kQ8_0BlockElems : Nat := 32

def ggmlDtypeSize (dt : GgmlDataType) : Nat :=
  if dt = .F32 then 4
  else if dt = .F16 then 2
  else if dt = .BF16 then 2
  else if dt = .Q8_0 then kQ8_0BlockSize
  else 0

def ggmlBlckSize (dt : GgmlDataType) : Nat :=
  if dt = .F32 ∨ dt = .F16 ∨ dt = .BF16 then 1
  else if dt = .Q8_0 then kQ8_0BlockElems
  else 0

def ggmlDtypeName (dt : GgmlDataType) : String :=
  if dt = .F32 then "F32"
  else if dt = .F16 then "F16"
  else if dt = .BF16 then "BF16"
  else if dt = .Q8_0 then "Q8_0"
  else "UNKNOWN"

end MiniLLM
