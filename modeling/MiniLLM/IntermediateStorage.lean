import MiniLLM.MemoryPlanner
import MiniLLM.Executor
import MiniLLM.BlockStorage

/-!
The storage side of runtime/runtime_context.cpp in the build without CUDA: which
bytes each bound tensor is given, from blocks of its own or from the arenas of a
memory plan. Addresses are exact; the hash order in which arenas are allocated is
that of their indices. `operator new` is an allocator, and throws where it finds
no room.
-/

namespace MiniLLM

open BlockStorage

abbrev SystemAllocator := Allocator (sizeMax + 1)

/-- core/tensor.h: a tensor by where its bytes are. -/
structure StoredTensor where
  name : String
  shape : Shape
  dtype : DType
  device : Device := {}
  data : Nat := 0
  allocatedBytes : Nat := 0
  deriving DecidableEq

namespace StoredTensor

def ofValue (v : Value) : StoredTensor :=
  { name := v.name, shape := v.shape, dtype := v.dtype, device := v.device }

def nbytes (tensor : StoredTensor) : Except Status Nat := do
  let n ← tensor.shape.numel
  let s ← tensor.dtype.size
  return wrapSize (n * s)

def dynamicShape (action : String) (tensor : StoredTensor) : Status :=
  .invalidArgument ("cannot " ++ action ++ " tensor with dynamic shape: " ++ tensor.shape.toString)

def withoutCuda : Status := .unsupported "MiniLLMEngine was built without CUDA support"

def allocateCpu (allocator : SystemAllocator) (heap : Heap) (tensor : StoredTensor) :
    Except Failure (StoredTensor × Heap) :=
  if tensor.shape.hasDynamicDim then .error (.returned (tensor.dynamicShape "allocate"))
  else
    match tensor.nbytes with
    | .error st => .error (.returned st)
    | .ok nb =>
        match allocator.allocate heap nb with
        | none => .error .thrown
        | some (data, heap) =>
            .ok ({ tensor with data := data, allocatedBytes := nb, device := {} }, heap)

def allocateCuda (tensor : StoredTensor) : Status :=
  if tensor.shape.hasDynamicDim then tensor.dynamicShape "allocate"
  else
    match tensor.nbytes with
    | .error st => st
    | .ok _ => withoutCuda

/-- `bind_cpu_data` with storage that exists. -/
def bindCpuData (tensor : StoredTensor) (data bytes : Nat) : Except Status StoredTensor :=
  if tensor.shape.hasDynamicDim then .error (tensor.dynamicShape "bind")
  else
    match tensor.nbytes with
    | .error st => .error st
    | .ok nb =>
        if bytes < nb then
          .error (.outOfRange ("external CPU storage is too small for tensor " ++ tensor.name))
        else .ok { tensor with data := data, allocatedBytes := bytes, device := {} }

/-- The bytes of the elements; all bytes where elements have no size of their own. -/
def region (tensor : StoredTensor) : Region :=
  ⟨tensor.data, (tensor.nbytes.toOption).getD tensor.allocatedBytes⟩

end StoredTensor

structure StorageContext where
  bindings : Nat → Option StoredTensor := fun _ => none
  heap : Heap := {}

namespace StorageContext

variable {Num : Type}

def bind (ctx : StorageContext) (id : Nat) (tensor : StoredTensor) : StorageContext :=
  { ctx with bindings := fun other => if other = id then some tensor else ctx.bindings other }

def alignPointer (ptr alignment : Nat) : Nat :=
  if alignment = 0 then ptr
  else
    let rem := ptr % alignment
    if rem = 0 then ptr else wrapSize (ptr + (alignment - rem))

def allocateOwnedTensor (allocator : SystemAllocator) (v : Value) (heap : Heap) :
    Except Failure (StoredTensor × Heap) :=
  if v.shape.hasDynamicDim then
    .error (.returned (.invalidArgument ("cannot allocate intermediate with dynamic shape: " ++
      v.name ++ " " ++ v.shape.toString)))
  else if v.device.type = .cuda then
    .error (.returned (StoredTensor.ofValue v).allocateCuda)
  else (StoredTensor.ofValue v).allocateCpu allocator heap

/-- One round of the loop over the values: bound values are left alone. -/
def allocateValue (allocator : SystemAllocator) (ctx : StorageContext) (entry : Value × Nat) :
    Except Failure StorageContext :=
  if entry.1.kind = .input ∨ entry.1.kind = .constant then .ok ctx
  else if (ctx.bindings entry.2).isSome then .ok ctx
  else
    match allocateOwnedTensor allocator entry.1 ctx.heap with
    | .error failure => .error failure
    | .ok (tensor, heap) => .ok ({ ctx with heap := heap }.bind entry.2 tensor)

def allocateIntermediates (allocator : SystemAllocator) (graph : Graph Num)
    (ctx : StorageContext) : Except Failure StorageContext :=
  graph.values.zipIdx.foldlM (allocateValue allocator) ctx

section Arenas

/-- `arena_bases` and `arena_total_bytes` at one index. -/
structure Arena where
  base : Nat
  totalBytes : Nat

abbrev Arenas := Nat → Option Arena

def arenaBuffers (plan : MemoryPlan) (arenaIdx : Nat) : List MemoryBuffer :=
  plan.buffers.filter fun buffer => buffer.arenaIndex = arenaIdx

def maxArena (plan : MemoryPlan) : Nat :=
  plan.buffers.foldl (fun top buffer => max top buffer.arenaIndex) 0

def arenaTotal (buffers : List MemoryBuffer) : Nat :=
  buffers.foldl (fun total buffer => max total (wrapSize (buffer.offset + buffer.bytes))) 0

def allocateArena (allocator : SystemAllocator) (plan : MemoryPlan) (alignment : Nat)
    (state : Arenas × Heap) (arenaIdx : Nat) : Except Failure (Arenas × Heap) :=
  match arenaBuffers plan arenaIdx with
  | [] => .ok state
  | firstBuffer :: rest =>
      let total := arenaTotal (firstBuffer :: rest)
      if total > sizeMax - alignment then
        .error (.returned (.outOfRange "arena allocation size overflow"))
      else if firstBuffer.device.type = .cuda then
        .error (.returned (.unsupported "CUDA arena allocation requires CUDA support"))
      else
        match allocator.allocate state.2 (total + alignment) with
        | none => .error .thrown
        | some (storage, heap) =>
            let arena := { base := alignPointer storage alignment, totalBytes := total }
            .ok (fun idx => if idx = arenaIdx then some arena else state.1 idx, heap)

def allocateArenas (allocator : SystemAllocator) (plan : MemoryPlan) (alignment : Nat)
    (heap : Heap) : Except Failure (Arenas × Heap) :=
  (List.range (maxArena plan + 1)).foldlM (allocateArena allocator plan alignment)
    (fun _ => none, heap)

def missingBuffer (range : MemoryLiveRange) : Failure :=
  .returned (.outOfRange ("memory plan range references missing buffer for " ++ range.name))

/-- `arena_total_bytes - offset` in `size_t`. -/
def availBytes (arena : Arena) (buffer : MemoryBuffer) : Nat :=
  wrapSize (arena.totalBytes + (sizeMax + 1 - buffer.offset))

/-- One round of the loop over the ranges. -/
def bindRange (graph : Graph Num) (plan : MemoryPlan) (arenas : Arenas) (ctx : StorageContext)
    (range : MemoryLiveRange) : Except Failure StorageContext :=
  if range.eligible = false ∨ range.bufferId = kNoBuffer then .ok ctx
  else
    match plan.buffers[range.bufferId]? with
    | none => .error (missingBuffer range)
    | some buffer =>
        match arenas buffer.arenaIndex with
        | none => .error (missingBuffer range)
        | some arena =>
            if (ctx.bindings range.value).isSome then .ok ctx
            else
              match graph.value range.value with
              | .error st => .error (.returned st)
              | .ok value =>
                  match (StoredTensor.ofValue value).bindCpuData (arena.base + buffer.offset)
                    (availBytes arena buffer) with
                  | .error st => .error (.returned st)
                  | .ok tensor => .ok (ctx.bind range.value tensor)

end Arenas

def allocateIntermediatesWithPlan (allocator : SystemAllocator) (graph : Graph Num)
    (plan : MemoryPlan) (ctx : StorageContext) : Except Failure StorageContext :=
  let alignment := if plan.alignment = 0 then 64 else plan.alignment
  match plan.buffers.find? fun buffer => buffer.arenaIndex = kNoBuffer with
  | some buffer =>
      .error (.returned (.runtimeError
        ("buffer has no arena assignment: #" ++ toString buffer.id)))
  | none => do
      let (arenas, heap) ← allocateArenas allocator plan alignment ctx.heap
      let ctx ← plan.ranges.foldlM (bindRange graph plan arenas) { ctx with heap := heap }
      graph.values.zipIdx.foldlM (allocateValue allocator) ctx

def allocateIntermediatesPlanned (allocator : SystemAllocator) (sorter : StdSort)
    (graph : Graph Num) (options : MemoryPlanOptions) (ctx : StorageContext) :
    Except Failure (MemoryPlan × StorageContext) :=
  match MemoryPlanner.plan sorter graph options with
  | .error st => .error (.returned st)
  | .ok plan =>
      match allocateIntermediatesWithPlan allocator graph plan ctx with
      | .error failure => .error failure
      | .ok ctx => .ok (plan, ctx)

end StorageContext

end MiniLLM
