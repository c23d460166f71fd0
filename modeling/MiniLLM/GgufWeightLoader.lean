import MiniLLM.GGUFParser
import MiniLLM.Loops

/-!
io/gguf_weight_loader.cpp in the build without CUDA. A weight tensor is its
bytes: the memory its data pointer leads to, how much of it was allocated, and
how far the last load wrote, which no check of the model bounds. Tensors of
different values share no memory. `product` is the float a quantised byte and
its scale multiply to; floats are their bit patterns.
-/

namespace MiniLLM

open ByteReader Loops

/-- core/tensor.h as bytes; `written` is one past the last byte a load stored. -/
structure ByteTensor where
  name : String
  shape : Shape
  dtype : DType
  device : Device := {}
  allocatedBytes : Nat := 0
  data : Buffer UInt8 := fun _ => 0
  written : Nat := 0

namespace ByteTensor

def isAllocated (tensor : ByteTensor) : Bool := tensor.allocatedBytes != 0

/-- The product is a `size_t`. -/
def nbytes (tensor : ByteTensor) : Except Status Nat := do
  let n ← tensor.shape.numel
  let s ← tensor.dtype.size
  .ok (n * s % 2 ^ 64)

def allocateCpuBytes (tensor : ByteTensor) (bytes : Nat) : ByteTensor :=
  { tensor with allocatedBytes := bytes, data := fun _ => 0, written := 0, device := {} }

/-- The bytes are there; past `max_size` the source throws `std::length_error`. -/
def allocateCpu (tensor : ByteTensor) : Except Status ByteTensor :=
  if tensor.shape.hasDynamicDim then
    .error (.invalidArgument
      ("cannot allocate tensor with dynamic shape: " ++ tensor.shape.toString))
  else do
    let nb ← tensor.nbytes
    .ok (tensor.allocateCpuBytes nb)

def withoutCuda : Status := .unsupported "MiniLLMEngine was built without CUDA support"

def allocateCuda (tensor : ByteTensor) : Except Status ByteTensor :=
  if tensor.shape.hasDynamicDim then
    .error (.invalidArgument
      ("cannot allocate tensor with dynamic shape: " ++ tensor.shape.toString))
  else do
    let _ ← tensor.nbytes
    .error withoutCuda

end ByteTensor

namespace WeightLoader

/-- `std::stoi` in base 10: the value and how many characters it took, or nothing when it throws. -/
def stoi (s : Bytes) : Option (Int × Nat) :=
  let blanks := s.takeWhile fun c => c == 32 || (9 ≤ c && c ≤ 13)
  let body := s.drop blanks.length
  let signs := (body.take 1).filter fun c => c == 43 || c == 45
  let digits := (body.drop signs.length).takeWhile fun c => 48 ≤ c && c ≤ 57
  let magnitude : Int := digits.foldl (fun n c => n * 10 + (c.toNat - 48 : Nat)) 0
  let value := if signs = [45] then -magnitude else magnitude
  if digits = [] ∨ value < -2147483648 ∨ 2147483647 < value then none
  else some (value, blanks.length + signs.length + digits.length)

def layerSuffixes : List (String × String) :=
  [("attn_norm.weight", "attn_norm.weight"),
    ("attn_q.weight", "q_proj.weight"),
    ("attn_k.weight", "k_proj.weight"),
    ("attn_v.weight", "v_proj.weight"),
    ("attn_q_norm.weight", "q_norm.weight"),
    ("attn_k_norm.weight", "k_norm.weight"),
    ("attn_output.weight", "o_proj.weight"),
    ("ffn_norm.weight", "ffn_norm.weight"),
    ("ffn_gate.weight", "gate_proj.weight"),
    ("ffn_up.weight", "up_proj.weight"),
    ("ffn_down.weight", "down_proj.weight")]

def globalSuffixes : List (String × String) :=
  [("token_embd.weight", "tok_embeddings.weight"),
    ("output_norm.weight", "output_norm.weight"),
    ("output.weight", "lm_head.weight")]

def suffixName (suffixes : List (String × String)) (suffix : Bytes) : Option String :=
  (suffixes.find? fun pair => ascii pair.1 = suffix).map Prod.snd

def globalName (ggufName : Bytes) : Except Status String :=
  match suffixName globalSuffixes ggufName with
  | some name => .ok name
  | none => .error (.notFound ("no mapping for GGUF tensor: " ++ text ggufName))

def ggufNameToValueName (ggufName : Bytes) : Except Status String :=
  let afterPrefix := ggufName.drop 4
  let idxStr := afterPrefix.takeWhile (· != 46)
  if ggufName.take 4 = ascii "blk." ∧ idxStr.length < afterPrefix.length then
    match stoi idxStr with
    | none => .error (.invalidArgument
        ("invalid layer index in GGUF tensor: " ++ text ggufName))
    | some (layerIdx, pos) =>
        if pos ≠ idxStr.length then
          .error (.invalidArgument
            ("non-numeric layer index in GGUF tensor: " ++ text ggufName))
        else
          match suffixName layerSuffixes (afterPrefix.drop (idxStr.length + 1)) with
          | some name => .ok ("layer_" ++ toString layerIdx ++ "." ++ name)
          | none => globalName ggufName
  else globalName ggufName

variable {Key Entry : Type} [DecidableEq Key]

/-- `map[key] = entry`. -/
def assign (map : Key → Option Entry) (key : Key) (entry : Entry) : Key → Option Entry :=
  fun other => if other = key then some entry else map other

def buildGgufTensorMap (file : GGUFFile) : Bytes → Option GGUFTensorInfo :=
  file.tensorInfos.foldl (fun map ti => assign map ti.name ti) fun _ => none

def mapNames (file : GGUFFile) : String → Option Bytes :=
  file.tensorInfos.foldl (fun map ti =>
    match ggufNameToValueName ti.name with
    | .ok mapped => assign map mapped ti.name
    | .error _ => map) fun _ => none

/-- Tied embeddings: without an `lm_head.weight` the token embedding serves for it. -/
def buildValueToGgufMap (file : GGUFFile) : String → Option Bytes :=
  let valueToGguf := mapNames file
  match valueToGguf "lm_head.weight", valueToGguf "tok_embeddings.weight" with
  | none, some embedding => assign valueToGguf "lm_head.weight" embedding
  | _, _ => valueToGguf

def f16ToF32 (bits : UInt16) : UInt32 :=
  let sign := (bits.toUInt32 >>> 15) &&& 0x1
  let exp := (bits.toUInt32 >>> 10) &&& 0x1F
  let mant := bits.toUInt32 &&& 0x3FF
  if exp = 0 then
    if mant = 0 then sign <<< 31
    else
      -- `countl_zero(mant) - 21`
      let shift := 10 - mant.log2
      let mant := mant <<< shift
      let exp := 1 - shift
      (sign <<< 31) ||| ((exp + 112) <<< 23) ||| ((mant &&& 0x3FF) <<< 13)
  else if exp = 31 then
    (sign <<< 31) ||| 0x7F800000 ||| (if mant ≠ 0 then 0x400000 else 0)
  else (sign <<< 31) ||| ((exp + 112) <<< 23) ||| (mant <<< 13)

def bf16ToF32 (bits : UInt16) : UInt32 := bits.toUInt32 <<< 16

/-- Byte `k` of a source; the loader never reads past its end. -/
def byteAt (src : Bytes) (k : Nat) : UInt8 := src.getD k 0

def u16At (src : Bytes) (k : Nat) : UInt16 :=
  ⟨assemble 16 [byteAt src k, byteAt src (k + 1)]⟩

/-- The memory a load writes through `tensor.data()`. -/
structure Sink where
  data : Buffer UInt8
  written : Nat

namespace Sink

def memcpy (dst : Sink) (src : Bytes) (count : Nat) : Sink where
  data k := if k < count then byteAt src k else dst.data k
  written := max dst.written count

/-- `dst[i] = value` on a `float*`. -/
def storeFloat (dst : Sink) (i : Nat) (value : UInt32) : Sink where
  data k :=
    if 4 * i ≤ k ∧ k < 4 * i + 4 then byteAt (littleEndian 4 value.toBitVec) (k - 4 * i)
    else dst.data k
  written := max dst.written (4 * i + 4)

end Sink

variable (product : Int8 → UInt32 → UInt32)

def q8Blocks (numElements : Nat) : Nat :=
  (numElements + kQ8_0BlockElems - 1) % 2 ^ 64 / kQ8_0BlockElems

/-- Element `i` of a packed block, as the float it stands for. -/
def q8Element (src : Bytes) (block i : Nat) : UInt32 :=
  let scale := f16ToF32 (u16At src (block * kQ8_0BlockSize))
  product (byteAt src (block * kQ8_0BlockSize + 2 + i)).toInt8 scale

def dequantizeToF32 (srcDtype : GgmlDataType) (src : Bytes) (dst : Sink) (numElements : Nat) :
    Except Status Sink :=
  if srcDtype = .F32 then .ok (dst.memcpy src (numElements * 4 % 2 ^ 64))
  else if srcDtype = .F16 then
    .ok (loop numElements (fun i dst => dst.storeFloat i (f16ToF32 (u16At src (2 * i)))) dst)
  else if srcDtype = .BF16 then
    .ok (loop numElements (fun i dst => dst.storeFloat i (bf16ToF32 (u16At src (2 * i)))) dst)
  else if srcDtype = .Q8_0 then
    .ok (loop (q8Blocks numElements) (fun b dst =>
      let base := b * kQ8_0BlockElems
      let count := min kQ8_0BlockElems (numElements - base)
      loop count (fun i dst => dst.storeFloat (base + i) (q8Element product src b i)) dst) dst)
  else
    .error (.unsupported ("cannot dequantize GGML dtype " ++ ggmlDtypeName srcDtype))

def tensorRawView (ggufPath : String) (disk : GGUFParser.Disk) (file : GGUFFile)
    (ti : GGUFTensorInfo) : Except Status Bytes :=
  match file.tensorView ti with
  | .ok view => .ok view
  | .error st =>
      if st.code ≠ .unsupported then .error st
      else do
        let rawBytes ← ti.bytes
        GGUFParser.readTensorData ggufPath disk file.dataOffset ti.offset rawBytes

def store (tensor : ByteTensor) (dst : Sink) : ByteTensor :=
  { tensor with data := dst.data, written := dst.written }

def loadTensorFromGguf (ggufPath : String) (disk : GGUFParser.Disk) (file : GGUFFile)
    (ti : GGUFTensorInfo) (tensor : ByteTensor) : Except Status ByteTensor :=
  if !tensor.isAllocated then .error (.runtimeError ("tensor not allocated: " ++ tensor.name))
  else do
    let rawView ← tensorRawView ggufPath disk file ti
    let numEl ← ti.numElements
    let dst : Sink := ⟨tensor.data, 0⟩
    if tensor.device.type = .cuda then
      .error (.unsupported "cannot load GGUF weights into CUDA tensor without CUDA support")
    else if ti.dtype = .Q8_0 ∧ tensor.dtype = .q8_0 then do
      let expectedBytes ← ti.bytes
      if rawView.length < expectedBytes then
        .error (.outOfRange ("Q8_0 raw view too small for tensor " ++ tensor.name))
      else if tensor.allocatedBytes < expectedBytes then
        .error (.outOfRange ("Q8_0 tensor storage too small for " ++ tensor.name))
      else .ok (store tensor (dst.memcpy rawView expectedBytes))
    else if ti.dtype = .BF16 ∧ tensor.dtype = .bfloat16 then
      if sizeMax / 2 < numEl then
        .error (.invalidArgument ("BF16 weight byte size overflow for tensor " ++ tensor.name))
      else if rawView.length < numEl * 2 then
        .error (.outOfRange ("BF16 raw view too small for tensor " ++ tensor.name))
      else if tensor.allocatedBytes < numEl * 2 then
        .error (.outOfRange ("BF16 tensor storage too small for " ++ tensor.name))
      else .ok (store tensor (dst.memcpy rawView (numEl * 2)))
    else do
      let dst ← dequantizeToF32 product ti.dtype rawView dst numEl
      .ok (store tensor dst)

abbrev Bindings := Nat → Option ByteTensor

/-- One round of the loop of `load_weights`, for the value with id `entry.2`. -/
def loadValue (ggufPath : String) (disk : GGUFParser.Disk) (file : GGUFFile)
    (entry : Value × Nat) (ctx : Bindings) : Option Status × Bindings :=
  if entry.1.kind ≠ .constant then (none, ctx)
  else
    match buildValueToGgufMap file entry.1.name with
    | none => (none, ctx)
    | some ggufName =>
        match buildGgufTensorMap file ggufName with
        | none => (some (.outOfRange "unordered_map::at"), ctx)
        | some ti =>
            match ctx entry.2 with
            | none => (some (.runtimeError
                ("tensor not found in RuntimeContext for value: " ++ entry.1.name)), ctx)
            | some tensor =>
                match loadTensorFromGguf product ggufPath disk file ti tensor with
                | .error st => (some st, ctx)
                | .ok loaded => (none, assign ctx entry.2 loaded)

def loadWeights {Num : Type} (ggufPath : String) (disk : GGUFParser.Disk) (file : GGUFFile)
    (graph : Graph Num) (ctx : Bindings) : Option Status × Bindings :=
  tryList (loadValue product ggufPath disk file) graph.values.zipIdx ctx

def ggmlToDtype (dt : GgmlDataType) : DType :=
  if dt = .F32 then .float32
  else if dt = .F16 then .float32
  else if dt = .BF16 then .bfloat16
  else if dt = .Q8_0 then .q8_0
  else .float32

def checkCompatibleWeight (tensor : ByteTensor) (value : Value) : Option Status :=
  if tensor.shape ≠ value.shape then
    some (.shapeMismatch ("shared weight shape mismatch for " ++ value.name ++
      ": tensor " ++ tensor.shape.toString ++ " vs value " ++ value.shape.toString))
  else if ¬ (tensor.dtype = value.dtype ∨
      (tensor.dtype = .bfloat16 ∧ value.dtype = .float32) ∨
      (tensor.dtype = .q8_0 ∧ value.dtype = .float32)) then
    some (.typeError ("shared weight dtype mismatch for " ++ value.name))
  else if tensor.device ≠ value.device then
    some (.runtimeError ("shared weight device mismatch for " ++ value.name ++
      ": tensor " ++ tensor.device.toString ++ " vs value " ++ value.device.toString))
  else none

/-- An alias is the name its tensor is stored under. -/
structure SharedWeightStore where
  storageByGgufName : Bytes → Option ByteTensor := fun _ => none
  aliasesByValueName : String → Option Bytes := fun _ => none
  totalBytes : Nat := 0

/-- The tensor a shared weight is loaded into. -/
def sharedTensor (v : Value) (ti : GGUFTensorInfo) : Except Status ByteTensor := do
  let dtype := ggmlToDtype ti.dtype
  let tensorDtype := if v.device.type = .cuda ∧ dtype ≠ .bfloat16 ∧ dtype ≠ .q8_0
    then .float32 else dtype
  let tensor : ByteTensor :=
    { name := v.name, shape := v.shape, dtype := tensorDtype, device := v.device }
  if v.device.type = .cuda then
    if tensorDtype = .q8_0 then do
      let _ ← ti.bytes
      .error ByteTensor.withoutCuda
    else tensor.allocateCuda
  else if tensorDtype = .q8_0 then do
    let rawBytes ← ti.bytes
    .ok (tensor.allocateCpuBytes rawBytes)
  else tensor.allocateCpu

def loadShared (ggufPath : String) (disk : GGUFParser.Disk) (file : GGUFFile) (v : Value)
    (ti : GGUFTensorInfo) : Except Status ByteTensor := do
  let tensor ← sharedTensor v ti
  loadTensorFromGguf product ggufPath disk file ti tensor

/-- One round of the loop of `load_shared_weights`. -/
def shareValue (ggufPath : String) (disk : GGUFParser.Disk) (file : GGUFFile) (v : Value)
    (weights : SharedWeightStore) : Option Status × SharedWeightStore :=
  if v.kind ≠ .constant then (none, weights)
  else
    match buildValueToGgufMap file v.name with
    | none => (none, weights)
    | some ggufName =>
        match buildGgufTensorMap file ggufName with
        | none => (some (.notFound ("GGUF tensor not found for value: " ++ v.name)), weights)
        | some ti =>
            match weights.storageByGgufName ggufName with
            | some existing =>
                match checkCompatibleWeight existing v with
                | some st => (some st, weights)
                | none => (none, { weights with
                    aliasesByValueName := assign weights.aliasesByValueName v.name ggufName })
            | none =>
                match loadShared product ggufPath disk file v ti with
                | .error st => (some st, weights)
                | .ok tensor => (none, {
                    storageByGgufName := assign weights.storageByGgufName ggufName tensor
                    aliasesByValueName := assign weights.aliasesByValueName v.name ggufName
                    totalBytes := weights.totalBytes + tensor.allocatedBytes })

def loadSharedWeights {Num : Type} (ggufPath : String) (disk : GGUFParser.Disk)
    (file : GGUFFile) (graph : Graph Num) : Except Status SharedWeightStore :=
  match tryList (shareValue product ggufPath disk file) graph.values {} with
  | (some st, _) => .error st
  | (none, weights) => .ok weights

end WeightLoader

end MiniLLM
