import MiniLLM.ElementKernels
import MiniLLM.Transpose
import MiniLLM.RuntimeContext

/-!
The other kernels of runtime/kernels/cpu_kernel_adapter.cpp and their registration. A
context has Int32 tensors, the token ids, beside its Float32 ones. The kernels that do
not look at a dtype are modelled on Float32 tensors, and so are weights: an exact
number is the same in every format. Counts and dimensions are cast to `int`; a kernel
whose row starts or counters leave `int` has no outcome.
-/

namespace MiniLLM

open Loops Strides

/-- A context in which a value is bound to a Float32 or to an Int32 tensor. -/
structure ModelContext (α : Type) extends RuntimeContext α where
  tokens : Nat → Option (Tensor Int) := fun _ => none

/-- What a value is bound to. -/
inductive Operand (α : Type) where
  | floats (tensor : Tensor α)
  | ints (tensor : Tensor Int)

namespace Operand

variable {α : Type}

def shape : Operand α → Shape
  | floats tensor => tensor.shape
  | ints tensor => tensor.shape

def allocated : Operand α → Bool
  | floats tensor => tensor.allocated
  | ints tensor => tensor.allocated

def dtype : Operand α → DType
  | floats _ => .float32
  | ints _ => .int32

end Operand

namespace ModelContext

variable {α : Type}

def operand (ctx : ModelContext α) (id : Nat) : Option (Operand α) :=
  match ctx.bindings id with
  | some tensor => some (.floats tensor)
  | none => (ctx.tokens id).map .ints

def writeInts (ctx : ModelContext α) (id : Nat) (data : Buffer Int) : ModelContext α :=
  { ctx with tokens := fun other =>
      if other = id then (ctx.tokens id).map fun tensor => { tensor with data := data }
      else ctx.tokens other }

/-- A step of the Float32 part. -/
def onFloats {B : Type} (step : RuntimeContext α → B × RuntimeContext α) (ctx : ModelContext α) :
    B × ModelContext α :=
  ((step ctx.toRuntimeContext).1, { ctx with toRuntimeContext := (step ctx.toRuntimeContext).2 })

def advanceKvCacheStep (ctx : ModelContext α) : Status × ModelContext α :=
  onFloats RuntimeContext.advanceKvCacheStep ctx

end ModelContext

namespace CpuKernelAdapter

open Cpu

variable {α : Type}

section Checks

def getOperand (ctx : ModelContext α) (id : Nat) (role : String) : Except Failure (Operand α) :=
  match ctx.operand id with
  | some operand => .ok operand
  | none => .error (.returned (.runtimeError
      (role ++ " tensor not found for ValueId %" ++ toString id)))

def checkOperandAllocated (operand : Operand α) (name : String) : Except Failure Unit :=
  require (operand.allocated = true) (.runtimeError (name ++ " tensor not allocated"))

/-- `check_dtype_float`, and what a pointer to the floats leads to. -/
def floatsOf (operand : Operand α) (name : String) : Except Failure (Tensor α) :=
  match operand with
  | .floats tensor => .ok tensor
  | .ints _ => .error (.returned (.unsupported
      (name ++ " only supports Float32, got " ++ operand.dtype.name)))

/-- `check_dtype_float_bf16_or_q8` of a weight. -/
def weightsOf (operand : Operand α) (name : String) : Except Failure (Tensor α) :=
  match operand with
  | .floats tensor => .ok tensor
  | .ints _ => .error (.returned (.unsupported
      (name ++ " supports Float32, BFloat16, or Q8_0 weights, got " ++ operand.dtype.name)))

def intsOf (operand : Operand α) : Except Failure (Tensor Int) :=
  match operand with
  | .ints tensor => .ok tensor
  | .floats _ => .error (.returned (.unsupported
      ("input_ids only supports Int32, got " ++ operand.dtype.name)))

def numelOf (shape : Shape) : Except Failure Nat :=
  match shape.numel with
  | .ok n => .ok n
  | .error st => .error (.returned st)

/-- `static_cast<int>(shape.dim(i))`, which throws past the rank. -/
def intDim (shape : Shape) (i : Nat) : Except Failure Int :=
  match shape.dim i with
  | some d => .ok (wrap32 d)
  | none => .error .thrown

/-- The `int`s of a kernel's loops; past them nothing is defined. -/
def withinInt (condition : Prop) [Decidable condition] : Except Failure Unit :=
  if condition then .ok () else .error .undefined

/-- Row starts, and the counter along a row. -/
def RowLoopFits (width rows n : Nat) : Prop := RowsFit rows n ∧ (0 < rows → VectorsFit width n)

instance (width rows n : Nat) : Decidable (RowLoopFits width rows n) :=
  inferInstanceAs (Decidable (_ ∧ _))

end Checks

section Computed

/-- A kernel that computes the data of its output tensor, or fails and writes nothing. -/
def writing (compute : Node α → RuntimeContext α → Except Failure (Buffer α)) :
    KernelFn α (RuntimeContext α) := fun node ctx =>
  match compute node ctx with
  | .error failure => (some failure, ctx)
  | .ok data => (none, ctx.writeData (node.outputs.getD 0 0) data)

def writingModel (compute : Node α → ModelContext α → Except Failure (Buffer α)) :
    KernelFn α (ModelContext α) := fun node ctx =>
  match compute node ctx with
  | .error failure => (some failure, ctx)
  | .ok data => (none, { ctx with
      toRuntimeContext := ctx.writeData (node.outputs.getD 0 0) data })

variable [Field α]

def computeEmbedding (ops : FloatOps α) (node : Node α) (ctx : ModelContext α) :
    Except Failure (Buffer α) := do
  let ids ← getOperand ctx (node.inputs.getD 0 0) "input_ids"
  let weight ← getOperand ctx (node.inputs.getD 1 0) "weight"
  let output ← getOperand ctx (node.outputs.getD 0 0) "output"
  checkOperandAllocated ids "input_ids"
  checkOperandAllocated weight "weight"
  checkOperandAllocated output "output"
  let weight ← weightsOf weight "weight"
  let output ← floatsOf output "output"
  let ids ← intsOf ids
  let idsNumel ← numelOf ids.shape
  let hidden ← intDim weight.shape 1
  let vocabSize ← intDim weight.shape 0
  require (¬ (wrap32 idsNumel < 0 ∨ hidden ≤ 0 ∨ vocabSize ≤ 0))
    (.invalidArgument "invalid embedding shape")
  require (∀ i < (wrap32 idsNumel).toNat, ¬ (ids.data i < 0 ∨ ids.data i ≥ vocabSize))
    (.outOfRange "input_ids contains token id out of embedding vocabulary range")
  withinInt (∀ i < (wrap32 idsNumel).toNat, (ids.data i).toNat * hidden.toNat ≤ intMax)
  withinInt (RowLoopFits ops.simdWidth (wrap32 idsNumel).toNat hidden.toNat)
  return embedding ops weight.data ids.data output.data (wrap32 idsNumel).toNat hidden.toNat

def kernelEmbedding (ops : FloatOps α) : KernelFn α (ModelContext α) :=
  writingModel (computeEmbedding ops)

/-- The product of `kernel_linear`. -/
def computeLinear (ops : FloatOps α) (node : Node α) (ctx : ModelContext α) :
    Except Failure (Buffer α × Nat × Nat) := do
  let x ← getOperand ctx (node.inputs.getD 0 0) "x"
  let weight ← getOperand ctx (node.inputs.getD 1 0) "weight"
  let output ← getOperand ctx (node.outputs.getD 0 0) "output"
  checkOperandAllocated x "x"
  checkOperandAllocated weight "weight"
  checkOperandAllocated output "output"
  let x ← floatsOf x "x"
  let weight ← weightsOf weight "weight"
  let output ← floatsOf output "output"
  let M := intProduct x.shape.dims.dropLast
  let K ← intDim x.shape (x.shape.rank - 1)
  let N ← intDim weight.shape 0
  require (¬ (M ≤ 0 ∨ N ≤ 0 ∨ K ≤ 0)) (.invalidArgument "invalid linear shape")
  let product ← Failure.ofDefined
    (Gemm.sgemmNt ops.simdWidth x.data weight.data output.data M.toNat N.toNat K.toNat)
  return (product, M.toNat, N.toNat)

/-- The bias of `kernel_linear`, added in place row by row. -/
def addBias (ops : FloatOps α) (bias : Nat) (ctx : ModelContext α) (M N : Nat) (out : Buffer α) :
    Except Failure (Buffer α) := do
  let bias ← getOperand ctx bias "bias"
  checkOperandAllocated bias "bias"
  let bias ← floatsOf bias "bias"
  require (bias.shape.rank = 1 ∧ bias.shape.dim 0 = some (N : Int))
    (.shapeMismatch "Linear bias shape must match output features")
  withinInt (RowLoopFits ops.simdWidth M N)
  return loop M (fun m out => copyFloats N out (m * N)
    (simdMap ops N (fun n y => y + bias.data n) fun n => out (m * N + n))) out

/-- The product stays in the output when the bias is refused. -/
def kernelLinear (ops : FloatOps α) : KernelFn α (ModelContext α) := fun node ctx =>
  match computeLinear ops node ctx with
  | .error failure => (some failure, ctx)
  | .ok (product, M, N) =>
      let out := node.outputs.getD 0 0
      let ctx := { ctx with toRuntimeContext := ctx.writeData out product }
      match node.inputs[2]? with
      | none => (none, ctx)
      | some bias =>
          match addBias ops bias ctx M N product with
          | .error failure => (some failure, ctx)
          | .ok sum => (none, { ctx with toRuntimeContext := ctx.writeData out sum })

def computeMatmul (ops : FloatOps α) (node : Node α) (ctx : ModelContext α) :
    Except Failure (Buffer α) := do
  let a ← getOperand ctx (node.inputs.getD 0 0) "a"
  let b ← getOperand ctx (node.inputs.getD 1 0) "b"
  let output ← getOperand ctx (node.outputs.getD 0 0) "output"
  checkOperandAllocated a "a"
  checkOperandAllocated b "b"
  checkOperandAllocated output "output"
  let a ← floatsOf a "a"
  let b ← weightsOf b "b"
  let output ← floatsOf output "output"
  let M ← intDim a.shape 0
  let K ← intDim a.shape 1
  let N ← intDim b.shape 1
  require (¬ (M ≤ 0 ∨ N ≤ 0 ∨ K ≤ 0)) (.invalidArgument "invalid matmul shape")
  Failure.ofDefined
    (Gemm.sgemm ops.simdWidth a.data b.data output.data M.toNat N.toNat K.toNat)

def kernelMatmul (ops : FloatOps α) : KernelFn α (ModelContext α) :=
  writingModel (computeMatmul ops)

def computeRmsnorm (ops : FloatOps α) (node : Node α) (ctx : RuntimeContext α) :
    Except Failure (Buffer α) := do
  let x ← getTensor ctx (node.inputs.getD 0 0) "x"
  let gamma ← getTensor ctx (node.inputs.getD 1 0) "gamma"
  let output ← getTensor ctx (node.outputs.getD 0 0) "output"
  checkAllocated x "x"
  checkAllocated gamma "gamma"
  checkAllocated output "output"
  let rows := intProduct x.shape.dims.dropLast
  let hidden ← intDim x.shape (x.shape.rank - 1)
  withinInt (RowLoopFits ops.simdWidth rows.toNat hidden.toNat)
  return rmsnorm ops x.data gamma.data output.data rows.toNat hidden.toNat
    (node.attrDouble "eps" (1 / 1000000))

def kernelRmsnorm (ops : FloatOps α) : KernelFn α (RuntimeContext α) :=
  writing (computeRmsnorm ops)

/-- The norm of each head; the number of heads is a quotient by `head_dim`. -/
def computeQkNorm (ops : FloatOps α) (node : Node α) (ctx : RuntimeContext α) :
    Except Failure (Buffer α) := do
  let x ← getTensor ctx (node.inputs.getD 0 0) "x"
  let gamma ← getTensor ctx (node.inputs.getD 1 0) "gamma"
  let output ← getTensor ctx (node.outputs.getD 0 0) "output"
  checkAllocated x "x"
  checkAllocated gamma "gamma"
  checkAllocated output "output"
  let hd := wrap32 (node.attrInt "head_dim" 64)
  withinInt (hd ≠ 0)
  let rows := (intProduct x.shape.dims).tdiv hd
  withinInt (RowLoopFits ops.simdWidth rows.toNat hd.toNat)
  return rmsnorm ops x.data gamma.data output.data rows.toNat hd.toNat
    (node.attrDouble "eps" (1 / 1000000))

def kernelQkNorm (ops : FloatOps α) : KernelFn α (RuntimeContext α) :=
  writing (computeQkNorm ops)

/-- The elementwise kernels of two operands, as many elements as the output has. -/
def computeBinary (ops : FloatOps α) (first second : String)
    (kernel : FloatOps α → Buffer α → Buffer α → Buffer α → Nat → Buffer α) (node : Node α) (ctx : RuntimeContext α) : Except Failure (Buffer α) := do
  let a ← getTensor ctx (node.inputs.getD 0 0) first
  let b ← getTensor ctx (node.inputs.getD 1 0) second
  let output ← getTensor ctx (node.outputs.getD 0 0) "output"
  checkAllocated a first
  checkAllocated b second
  checkAllocated output "output"
  let n ← numelOf output.shape
  withinInt (VectorsFit ops.simdWidth (wrap32 n).toNat)
  return kernel ops a.data b.data output.data (wrap32 n).toNat

def kernelAdd (ops : FloatOps α) : KernelFn α (RuntimeContext α) :=
  writing (computeBinary ops "a" "b" add)

def kernelMul (ops : FloatOps α) : KernelFn α (RuntimeContext α) :=
  writing (computeBinary ops "a" "b" mul)

def kernelSwiglu (ops : FloatOps α) : KernelFn α (RuntimeContext α) :=
  writing (computeBinary ops "gate" "up" fusedSiluMul)

def computeSilu (ops : FloatOps α) (node : Node α) (ctx : RuntimeContext α) :
    Except Failure (Buffer α) := do
  let x ← getTensor ctx (node.inputs.getD 0 0) "x"
  let output ← getTensor ctx (node.outputs.getD 0 0) "output"
  checkAllocated x "x"
  checkAllocated output "output"
  let n ← numelOf output.shape
  withinInt (VectorsFit ops.simdWidth (wrap32 n).toNat)
  return silu ops x.data output.data (wrap32 n).toNat

def kernelSilu (ops : FloatOps α) : KernelFn α (RuntimeContext α) := writing (computeSilu ops)

/-- An axis counted from the end is counted from the front. -/
def frontAxis (axis : Int) (rank : Nat) : Int := if axis < 0 then axis + rank else axis

def computeSoftmax [LinearOrder α] (ops : FloatOps α) (node : Node α) (ctx : ModelContext α) :
    Except Failure (Buffer α) := do
  let x ← getOperand ctx (node.inputs.getD 0 0) "x"
  let output ← getOperand ctx (node.outputs.getD 0 0) "output"
  checkOperandAllocated x "x"
  checkOperandAllocated output "output"
  let x ← floatsOf x "x"
  let output ← floatsOf output "output"
  let rank := x.shape.rank
  require (¬ rank = 0) (.shapeMismatch "Softmax expects rank >= 1")
  let axis := frontAxis (node.attrInt "axis" (-1)) rank
  require (¬ (axis < 0 ∨ axis ≥ rank)) (.outOfRange "Softmax axis out of range")
  require (axis = rank - 1) (.unsupported "CPU Softmax currently supports the last axis only")
  let cols ← intDim x.shape axis.toNat
  let rows := intProduct (x.shape.dims.take axis.toNat)
  withinInt (RowLoopFits ops.simdWidth rows.toNat cols.toNat)
  return softmax ops x.data output.data rows.toNat cols.toNat

def kernelSoftmax [LinearOrder α] (ops : FloatOps α) : KernelFn α (ModelContext α) :=
  writingModel (computeSoftmax ops)

def computeTranspose (node : Node α) (ctx : ModelContext α) : Except Failure (Buffer α) := do
  let x ← getOperand ctx (node.inputs.getD 0 0) "x"
  let output ← getOperand ctx (node.outputs.getD 0 0) "output"
  checkOperandAllocated x "x"
  checkOperandAllocated output "output"
  let x ← floatsOf x "x"
  let output ← floatsOf output "output"
  let rank := x.shape.rank
  require (¬ rank = 0) (.shapeMismatch "Transpose expects rank >= 1")
  let axis0 := frontAxis (node.attrInt "axis0" (-2)) rank
  let axis1 := frontAxis (node.attrInt "axis1" (-1)) rank
  require (¬ (axis0 < 0 ∨ axis0 ≥ rank ∨ axis1 < 0 ∨ axis1 ≥ rank))
    (.outOfRange "Transpose axes out of range")
  let inNumel ← numelOf x.shape
  let outNumel ← numelOf output.shape
  require (inNumel = outNumel) (.shapeMismatch "Transpose input/output element counts differ")
  return transpose x.data output.data (fun i => (x.shape.dims.getD i 0).toNat) rank axis0.toNat
    axis1.toNat

def kernelTranspose : KernelFn α (ModelContext α) := writingModel computeTranspose

/-- What `kernel_reshape` checks before it copies; the count of elements. -/
def reshapeCount (x output : Operand α) : Except Failure Nat := do
  checkOperandAllocated x "x"
  checkOperandAllocated output "output"
  require (x.dtype = output.dtype)
    (.unsupported "Reshape requires matching input/output dtypes")
  let inNumel ← numelOf x.shape
  let outNumel ← numelOf output.shape
  require (inNumel = outNumel) (.shapeMismatch "Reshape input/output element counts differ")
  return inNumel

def kernelReshape : KernelFn α (ModelContext α) := fun node ctx =>
  let out := node.outputs.getD 0 0
  match getOperand ctx (node.inputs.getD 0 0) "x" with
  | .error failure => (some failure, ctx)
  | .ok x =>
      match getOperand ctx out "output" with
      | .error failure => (some failure, ctx)
      | .ok output =>
          match reshapeCount x output with
          | .error failure => (some failure, ctx)
          | .ok n =>
              match x, output with
              | .floats x, .floats output =>
                  (none, { ctx with
                    toRuntimeContext := ctx.writeData out (copyFloats n output.data 0 x.data) })
              | .ints x, .ints output => (none, ctx.writeInts out (copyFloats n output.data 0 x.data))
              | _, _ => (none, ctx)

end Computed

section Registration

variable [Field α] [LinearOrder α]

/-- A kernel that sees Float32 tensors only. -/
def onFloats (kernel : KernelFn α (RuntimeContext α)) : KernelFn α (ModelContext α) :=
  fun node => ModelContext.onFloats (kernel node)

/-- `register_cpu_kernels`. -/
def cpuKernels (ops : FloatOps α) : KernelRegistry α (ModelContext α)
  | .embedding => some (kernelEmbedding ops)
  | .linear => some (kernelLinear ops)
  | .matMul => some (kernelMatmul ops)
  | .rmsNorm => some (onFloats (kernelRmsnorm ops))
  | .add => some (onFloats (kernelAdd ops))
  | .mul => some (onFloats (kernelMul ops))
  | .siLU => some (onFloats (kernelSilu ops))
  | .swiGLU => some (onFloats (kernelSwiglu ops))
  | .softmax => some (kernelSoftmax ops)
  | .reshape => some kernelReshape
  | .transpose => some kernelTranspose
  | .roPE => some (onFloats (kernelRope ops))
  | .attention => some (onFloats (kernelAttention ops))
  | .qkNorm => some (onFloats (kernelQkNorm ops))
  | _ => none

end Registration

end CpuKernelAdapter

end MiniLLM
