import MiniLLM.Status
import Mathlib.Data.List.Basic

/-!
core/dtype.h, core/device.h, core/shape.cpp and the graph IR of graph/. A value
and a node are found at the index that is their id. `Shape` carries what its
constructor checks; an attribute's `double` is a number of the arithmetic the
kernels run in.
-/

namespace MiniLLM

def sizeMax : Nat := 18446744073709551615

inductive DType where
  | float32 | float16 | bfloat16 | q8_0 | int32 | int64 | uint8 | int8 | bool | unknown
  deriving DecidableEq, Repr

namespace DType

def name : DType → String
  | float32 => "Float32" | float16 => "Float16" | bfloat16 => "BFloat16" | q8_0 => "Q8_0"
  | int32 => "Int32" | int64 => "Int64" | uint8 => "UInt8" | int8 => "Int8" | bool => "Bool"
  | unknown => "Unknown"

/-- `dtype_size`, in bytes. -/
def size : DType → Except Status Nat
  | float32 => .ok 4
  | float16 => .ok 2
  | bfloat16 => .ok 2
  | q8_0 => .error (.unsupported "Q8_0 is block-quantized and has no per-element byte size")
  | int32 => .ok 4
  | int64 => .ok 8
  | uint8 => .ok 1
  | int8 => .ok 1
  | bool => .ok 1
  | unknown => .error (.unsupported "Unknown dtype has no size")

theorem size_pos {dtype : DType} {bytes : Nat} (known : dtype.size = .ok bytes) : 0 < bytes := by
  cases dtype <;> cases known <;> decide

end DType

inductive DeviceType where
  | cpu | cuda | unknown
  deriving DecidableEq, Repr

structure Device where
  type : DeviceType := .cpu
  index : Int := 0
  deriving DecidableEq, Repr

def Device.toString (device : Device) : String :=
  match device.type with
  | .cpu => "cpu:" ++ ToString.toString device.index
  | .cuda => "cuda:" ++ ToString.toString device.index
  | .unknown => "unknown:" ++ ToString.toString device.index

/-- Dimensions are positive `int64` values, or -1 where dynamic. -/
structure Shape where
  dims : List Int := []
  valid : ∀ d ∈ dims, d = -1 ∨ 0 < d ∧ d < 9223372036854775808 := by decide
  deriving DecidableEq

namespace Shape

def rank (shape : Shape) : Nat := shape.dims.length

/-- `dims_.at(i)`, which throws past the rank. -/
def dim (shape : Shape) (i : Nat) : Option Int := shape.dims[i]?

def hasDynamicDim (shape : Shape) : Bool := shape.dims.any (· < 0)

def toString (shape : Shape) : String :=
  "[" ++ ", ".intercalate (shape.dims.map ToString.toString) ++ "]"

def numelFrom (shape : Shape) : List Int → Nat → Except Status Nat
  | [], n => .ok n
  | d :: rest, n =>
      if d > 0 ∧ n > sizeMax / d.toNat then
        .error (.invalidArgument ("numel overflow for shape: " ++ shape.toString))
      else numelFrom shape rest (n * d.toNat)

def numel (shape : Shape) : Except Status Nat :=
  if shape.hasDynamicDim then
    .error (.invalidArgument
      ("cannot compute numel of shape with dynamic dims: " ++ shape.toString))
  else shape.numelFrom shape.dims 1

end Shape

inductive ValueKind where
  | input | constant | intermediate | output
  deriving DecidableEq, Repr

structure Value where
  name : String
  shape : Shape
  dtype : DType := .unknown
  device : Device := {}
  kind : ValueKind := .intermediate
  deriving DecidableEq

inductive OpType where
  | input | constant | embedding | matMul | linear | add | mul | rmsNorm | layerNorm | siLU
  | swiGLU | roPE | attention | qkNorm | softmax | reshape | transpose | view | contiguous
  | output | custom
  deriving DecidableEq, Repr

def OpType.name : OpType → String
  | input => "Input" | constant => "Constant" | embedding => "Embedding" | matMul => "MatMul"
  | linear => "Linear" | add => "Add" | mul => "Mul" | rmsNorm => "RMSNorm"
  | layerNorm => "LayerNorm" | siLU => "SiLU" | swiGLU => "SwiGLU" | roPE => "RoPE"
  | attention => "Attention" | qkNorm => "QKNorm" | softmax => "Softmax" | reshape => "Reshape"
  | transpose => "Transpose" | view => "View" | contiguous => "Contiguous" | output => "Output"
  | custom => "Custom"

inductive AttributeValue (Num : Type) where
  | int (value : Int)
  | double (value : Num)
  | bool (value : Bool)
  | string (value : String)
  | shape (value : Shape)
  | ints (value : List Int)

structure Node (Num : Type) where
  opType : OpType
  name : String := ""
  inputs : List Nat
  outputs : List Nat
  attrs : String → Option (AttributeValue Num) := fun _ => none

namespace Node

variable {Num : Type}

/-- `detail::attr`: the attribute, or the fallback when it is missing or of
another type. -/
def attrInt (node : Node Num) (key : String) (fallback : Int) : Int :=
  match node.attrs key with
  | some (.int value) => value
  | _ => fallback

def attrDouble (node : Node Num) (key : String) (fallback : Num) : Num :=
  match node.attrs key with
  | some (.double value) => value
  | _ => fallback

def attrBool (node : Node Num) (key : String) (fallback : Bool) : Bool :=
  match node.attrs key with
  | some (.bool value) => value
  | _ => fallback

end Node

structure Graph (Num : Type) where
  values : List Value := []
  nodes : List (Node Num) := []

namespace Graph

variable {Num : Type}

def value (graph : Graph Num) (id : Nat) : Except Status Value :=
  match graph.values[id]? with
  | some value => .ok value
  | none => .error (.outOfRange ("ValueId %" ++ toString id ++ " out of range"))

def node (graph : Graph Num) (id : Nat) : Except Status (Node Num) :=
  match graph.nodes[id]? with
  | some node => .ok node
  | none => .error (.outOfRange ("NodeId #" ++ toString id ++ " out of range"))

def missingValue (graph : Graph Num) (id : Nat) (node : Node Num) (value : Nat) : Option Status :=
  if value ≥ graph.values.length then
    some (.invalidArgument ("Node #" ++ toString id ++ " (" ++ node.opType.name ++
      ") references non-existent ValueId %" ++ toString value))
  else none

/-- The first complaint `validate` has about node `id`. -/
def nodeError (graph : Graph Num) (id : Nat) (node : Node Num) : Option Status :=
  match (node.inputs ++ node.outputs).findSome? (graph.missingValue id node) with
  | some st => some st
  | none =>
      if node.opType = .output ∧ node.inputs = [] then
        some (.invalidArgument ("Output node #" ++ toString id ++
          " must have at least one input"))
      else none

def validate (graph : Graph Num) : Status :=
  match graph.nodes.zipIdx.findSome? fun entry => graph.nodeError entry.2 entry.1 with
  | some st => st
  | none => .makeOk

end Graph

end MiniLLM
