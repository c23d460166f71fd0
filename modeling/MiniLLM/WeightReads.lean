import MiniLLM.IndexArithmetic
import MiniLLM.GgufWeightLoader

/-!
What the adapters that take weights read, element by element, and the type they take the
bytes for. `kernel_embedding`, `kernel_linear` and `kernel_matmul` branch on the type of
the bound weight; `kernel_rmsnorm`, `kernel_qk_norm`, `kernel_add` and `kernel_mul` read
floats, whatever is bound.
-/

namespace MiniLLM

/-- `int_data`: the four bytes at index `i`, the lowest first. -/
def ByteTensor.int (tensor : ByteTensor) (i : Nat) : Int :=
  wrap32 ((List.range 4).foldr (fun b acc => (tensor.data (4 * i + b)).toNat + 256 * acc) 0 : Nat)

namespace WeightLoader

open Loops

/-- One round of the loop of `SharedWeightStore::bind`. -/
def SharedWeightStore.bindValue (weights : SharedWeightStore) (v : Value × Nat) (ctx : Bindings) :
    Option Status × Bindings :=
  if v.1.kind ≠ .constant then (none, ctx)
  else
    match (weights.aliasesByValueName v.1.name).bind weights.storageByGgufName with
    | none => (none, ctx)
    | some tensor =>
        match checkCompatibleWeight tensor v.1 with
        | some st => (some st, ctx)
        | none => (none, assign ctx v.2 tensor)

def SharedWeightStore.bind {Num : Type} (weights : SharedWeightStore) (graph : Graph Num)
    (ctx : Bindings) : Option Status × Bindings :=
  tryList weights.bindValue graph.values.zipIdx ctx

end WeightLoader

namespace CpuKernelAdapter

open WeightLoader (Bindings)

/-- What the adapters see of the bound tensors. -/
def bound (ctx : WeightLoader.Bindings) : CpuKernelAdapter.Bindings := fun id =>
  (ctx id).map fun tensor => {
    dtype := tensor.dtype, shape := tensor.shape, allocated := tensor.isAllocated
    ints := tensor.int }

/-- One element of the tensor bound to `value`, decoded as a number of type `as`. -/
structure Read where
  value : Nat
  as : DType
  element : Int
  deriving DecidableEq

/-- The bytes of the element; `q8_0_value` reads the scale of its block as well. -/
def Read.bytes (read : Read) : List Int :=
  match read.as with
  | .q8_0 =>
      let block := 34 * (read.element / 32)
      [block, block + 1, block + 2 + read.element % 32]
  | .bfloat16 => [2 * read.element, 2 * read.element + 1]
  | _ => (List.range 4).map fun (b : Nat) => 4 * read.element + (b : Int)

/-- The element has the type of its tensor and lies inside the allocation. -/
def Read.Sound (ctx : WeightLoader.Bindings) (read : Read) : Prop :=
  ∃ tensor, ctx read.value = some tensor ∧ read.as = tensor.dtype ∧
    ∀ b ∈ read.bytes, 0 ≤ b ∧ b < tensor.allocatedBytes

/-- `width` elements from the start of each of the rows. -/
def rowReads (value : Nat) (as : DType) (start : Nat → Int) (rows width : Int) : List Read :=
  (List.range rows.toNat).flatMap fun r =>
    (List.range width.toNat).map fun w => ⟨value, as, start r + (w : Nat)⟩

/-- The overload the adapters call for a weight. -/
def weightType (dtype : DType) : DType :=
  if dtype = .bfloat16 then .bfloat16 else if dtype = .q8_0 then .q8_0 else .float32

section Calls

variable {Num : Type} (ctx : WeightLoader.Bindings) (node : Node Num)

def EmbeddingCall.reads (call : EmbeddingCall) : List Read :=
  rowReads (node.inputs.getD 0 0) .int32 (fun _ => 0) 1 call.seqLen ++
    rowReads (node.inputs.getD 1 0) (weightType call.weight.dtype) call.weightRow call.seqLen
      call.hidden

def kernelEmbeddingReads : Except Failure (List Read) := do
  let call ← embeddingCall (bound ctx) node
  return call.reads node

/-- The third input of `kernel_linear`. -/
def linearBias (call : LinearCall) : Except Failure Unit :=
  if 3 ≤ node.inputs.length then do
    let bias ← boundTensor (bound ctx) (node.inputs.getD 2 0) "bias"
    boundAllocated bias "bias"
    checkDtypeFloat bias "bias"
    require (bias.shape.rank = 1 ∧ bias.shape.dim 0 = some call.N)
      (.shapeMismatch "Linear bias shape must match output features")
  else .ok ()

def LinearCall.productReads (call : LinearCall) : List Read :=
  rowReads (node.inputs.getD 0 0) .float32 call.aRow call.M call.K ++
    rowReads (node.inputs.getD 1 0) (weightType call.weight.dtype) call.bRow call.N call.K

/-- The bias is added to each row of the output, from an `int` offset. -/
def LinearCall.biasReads (call : LinearCall) : List Read :=
  if 3 ≤ node.inputs.length then
    rowReads (node.outputs.getD 0 0) .float32 (rowOffset .float32 · call.N) call.M call.N ++
      rowReads (node.inputs.getD 2 0) .float32 (fun _ => 0) call.M call.N
  else []

def kernelLinearReads : Except Failure (List Read) := do
  let call ← linearCall (bound ctx) node
  linearBias ctx node call
  return call.productReads node ++ call.biasReads node

structure MatmulCall where
  a : BoundTensor
  b : BoundTensor
  M : Int
  N : Int
  K : Int

def matmulAligned (b : BoundTensor) (K N : Int) : Except Failure Unit :=
  if b.dtype = .q8_0 then do
    checkQ8BlockAligned b K "matmul reduction dimension"
    checkQ8BlockAligned b N "matmul output dimension"
  else .ok ()

/-- `kernel_matmul` up to the call of `sgemm`. -/
def matmulCall (bindings : CpuKernelAdapter.Bindings) : Except Failure MatmulCall := do
  let a ← boundTensor bindings (node.inputs.getD 0 0) "a"
  let b ← boundTensor bindings (node.inputs.getD 1 0) "b"
  let output ← boundTensor bindings (node.outputs.getD 0 0) "output"
  boundAllocated a "a"
  boundAllocated b "b"
  boundAllocated output "output"
  checkDtypeFloat a "a"
  checkDtypeFloatBf16OrQ8 b "b"
  checkDtypeFloat output "output"
  let M ← boundDim a 0
  let K ← boundDim a 1
  let N ← boundDim b 1
  require (¬ (wrap32 M ≤ 0 ∨ wrap32 N ≤ 0 ∨ wrap32 K ≤ 0)) (.invalidArgument "invalid matmul shape")
  matmulAligned b (wrap32 K) (wrap32 N)
  return { a := a, b := b, M := wrap32 M, N := wrap32 N, K := wrap32 K }

/-- `sgemm` adds into the rows of the output, except on Q8_0 weights. -/
def MatmulCall.reads (call : MatmulCall) : List Read :=
  rowReads (node.inputs.getD 0 0) .float32 (rowOffset call.b.dtype · call.K) call.M call.K ++
    (rowReads (node.inputs.getD 1 0) (weightType call.b.dtype) (rowOffset call.b.dtype · call.N)
        call.K call.N ++
      if call.b.dtype = .q8_0 then []
      else rowReads (node.outputs.getD 0 0) .float32 (rowOffset call.b.dtype · call.N) call.M call.N)

def kernelMatmulReads : Except Failure (List Read) := do
  let call ← matmulCall node (bound ctx)
  return call.reads node

/-- The operands of the adapters that check no type. -/
def uncheckedOperands (first second : String) :
    Except Failure (BoundTensor × BoundTensor × BoundTensor) := do
  let a ← boundTensor (bound ctx) (node.inputs.getD 0 0) first
  let b ← boundTensor (bound ctx) (node.inputs.getD 1 0) second
  let output ← boundTensor (bound ctx) (node.outputs.getD 0 0) "output"
  boundAllocated a first
  boundAllocated b second
  boundAllocated output "output"
  return (a, b, output)

/-- What `cpu::rmsnorm` reads. -/
def rmsnormReads (rows hidden : Int) : List Read :=
  rowReads (node.inputs.getD 0 0) .float32 (rowOffset .float32 · hidden) rows hidden ++
    rowReads (node.inputs.getD 1 0) .float32 (fun _ => 0) rows hidden

/-- The rows of `x` and their width. -/
def rmsnormCall : Except Failure (Int × Int) := do
  let (x, _, _) ← uncheckedOperands ctx node "x" "gamma"
  let hidden ← boundDim x (x.shape.rank - 1)
  return (intProduct x.shape.dims.dropLast, wrap32 hidden)

def kernelRmsnormReads : Except Failure (List Read) := do
  let (rows, hidden) ← rmsnormCall ctx node
  return rmsnormReads node rows hidden

/-- The elements of `x` and the width of a head. -/
def qkNormCall : Except Failure (Int × Int) := do
  let (x, _, _) ← uncheckedOperands ctx node "x" "gamma"
  return (intProduct x.shape.dims, wrap32 (node.attrInt "head_dim" 64))

/-- The division of two `int`s has a result. -/
def Divides (total hd : Int) : Prop := hd ≠ 0 ∧ ¬ (total = -2147483648 ∧ hd = -1)

instance (total hd : Int) : Decidable (Divides total hd) :=
  inferInstanceAs (Decidable (_ ∧ _))

def kernelQkNormReads : Except Failure (List Read) := do
  let (total, hd) ← qkNormCall ctx node
  if Divides total hd then return rmsnormReads node (total.tdiv hd) hd
  else .error .undefined

/-- `kernel_add` and `kernel_mul` up to the call of their kernel. -/
def elementwiseCall : Except Failure Int := do
  let (_, _, output) ← uncheckedOperands ctx node "a" "b"
  let n ← boundNumel output
  return wrap32 n

def elementwiseReads (n : Int) : List Read :=
  rowReads (node.inputs.getD 0 0) .float32 (fun _ => 0) 1 n ++
    rowReads (node.inputs.getD 1 0) .float32 (fun _ => 0) 1 n

def kernelElementwiseReads : Except Failure (List Read) := do
  let n ← elementwiseCall ctx node
  return elementwiseReads node n

def kernelAddReads : Except Failure (List Read) := kernelElementwiseReads ctx node

def kernelMulReads : Except Failure (List Read) := kernelElementwiseReads ctx node

/-- What the kernel of the node reads, where the node's operation can take weights. -/
def weightReads : Except Failure (List Read) :=
  match node.opType with
  | .embedding => kernelEmbeddingReads ctx node
  | .linear => kernelLinearReads ctx node
  | .matMul => kernelMatmulReads ctx node
  | .rmsNorm => kernelRmsnormReads ctx node
  | .qkNorm => kernelQkNormReads ctx node
  | .add => kernelAddReads ctx node
  | .mul => kernelMulReads ctx node
  | _ => .ok []

end Calls

end CpuKernelAdapter

end MiniLLM
