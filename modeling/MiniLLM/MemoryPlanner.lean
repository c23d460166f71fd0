import MiniLLM.TopologicalSort
import Mathlib.Data.List.Sort

/-!
runtime/memory_planner.cpp: the live range of each value, the sizes of the
eligible ones, their assignment to buffers and the layout of the arenas. The
vectors indexed by value are functions; `unordered_map`s from a pool are
functions of its key; a multiset of pairs is its sorted list.
-/

namespace MiniLLM

def kNoBuffer : Nat := sizeMax

structure MemoryPlanOptions where
  alignment : Nat := 64
  includeOutputs : Bool := false

structure MemoryLiveRange where
  value : Nat := 0
  name : String := ""
  bytes : Nat := 0
  alignedBytes : Nat := 0
  dtype : DType := .unknown
  device : Device := {}
  kind : ValueKind := .intermediate
  firstNode : Nat := 0
  lastNode : Nat := 0
  eligible : Bool := false
  skipReason : String := ""
  bufferId : Nat := kNoBuffer
  deriving DecidableEq

structure MemoryBuffer where
  id : Nat := 0
  bytes : Nat := 0
  dtype : DType := .unknown
  device : Device := {}
  lastUse : Nat := 0
  arenaIndex : Nat := sizeMax
  offset : Nat := 0
  values : List Nat := []
  deriving DecidableEq

structure MemoryPlan where
  ranges : List MemoryLiveRange := []
  buffers : List MemoryBuffer := []
  alignment : Nat := 64
  eligibleValueCount : Nat := 0
  skippedValueCount : Nat := 0
  naiveBytes : Nat := 0
  plannedBytes : Nat := 0
  deriving DecidableEq

/-- `PoolKey` and `ArenaKey`. -/
structure PoolKey where
  dtype : DType
  devType : DeviceType
  devIdx : Int
  deriving DecidableEq

def MemoryLiveRange.key (range : MemoryLiveRange) : PoolKey :=
  ⟨range.dtype, range.device.type, range.device.index⟩

def MemoryBuffer.key (buffer : MemoryBuffer) : PoolKey :=
  ⟨buffer.dtype, buffer.device.type, buffer.device.index⟩

/-- A comparator as `std::sort` requires it: a strict weak order. -/
structure StrictWeak (less : Nat → Nat → Bool) : Prop where
  asymm : ∀ a b, less a b = true → less b a = false
  weak : ∀ a b c, less b a = false → less c b = false → less c a = false

/-- `std::sort`, which leaves the order of equal elements open. -/
structure StdSort where
  sort : (Nat → Nat → Bool) → List Nat → List Nat
  perm : ∀ less indices, (sort less indices).Perm indices
  sorted : ∀ less indices, StrictWeak less →
    (sort less indices).Pairwise fun a b => less b a = false

/-- Insertion sort meets the specification. -/
def StdSort.insertion : StdSort where
  sort less indices := indices.insertionSort fun a b => less b a = false
  perm _ _ := List.perm_insertionSort _ _
  sorted less indices order := by
    have total : Std.Total fun a b => less b a = false := by
      constructor
      intro a b
      cases known : less b a with
      | false => exact Or.inl rfl
      | true => exact Or.inr (order.asymm b a known)
    have transitive : IsTrans Nat fun a b => less b a = false := ⟨order.weak⟩
    exact List.pairwise_insertionSort _ _

namespace MemoryPlanner

variable {Num : Type}

def alignUp (value alignment : Nat) : Nat :=
  if alignment = 0 then value
  else
    let rem := value % alignment
    if rem = 0 then value else wrapSize (value + (alignment - rem))

def kindName : ValueKind → String
  | .input => "Input" | .constant => "Constant" | .intermediate => "Intermediate"
  | .output => "Output"

section LiveRanges

/-- `first_node`, `last_node` and `has_producer`. -/
structure Liveness where
  firstNode : Nat → Nat := fun _ => 0
  lastNode : Nat → Nat := fun _ => 0
  hasProducer : Nat → Bool := fun _ => false

def consume (valueCount orderIdx : Nat) (live : Liveness) (input : Nat) : Liveness :=
  if input < valueCount then
    { live with
      lastNode := fun v => if v = input then max (live.lastNode v) orderIdx else live.lastNode v }
  else live

def produce (valueCount orderIdx : Nat) (live : Liveness) (output : Nat) : Liveness :=
  if output < valueCount then
    { firstNode := fun v => if v = output then orderIdx else live.firstNode v
      lastNode := fun v => if v = output then max (live.lastNode v) orderIdx else live.lastNode v
      hasProducer := fun v => if v = output then true else live.hasProducer v }
  else live

def visitNode (graph : Graph Num) (live : Liveness) (entry : Nat × Nat) :
    Except Status Liveness := do
  let nd ← graph.node entry.1
  return nd.outputs.foldl (produce graph.values.length entry.2)
    (nd.inputs.foldl (consume graph.values.length entry.2) live)

def liveness (graph : Graph Num) (order : List Nat) : Except Status Liveness :=
  order.zipIdx.foldlM (visitNode graph) {}

def graphEnd (order : List Nat) : Nat := if order.length = 0 then 0 else order.length - 1

/-- The range of a value before its eligibility is known. -/
def initialRange (live : Liveness) (last : Nat) (value : Value) (id : Nat) : MemoryLiveRange :=
  let firstNode := if live.hasProducer id then live.firstNode id else 0
  let lastNode := if value.kind = .output then last else live.lastNode id
  { value := id, name := value.name, dtype := value.dtype, device := value.device,
    kind := value.kind, firstNode := firstNode,
    lastNode := if lastNode < firstNode then firstNode else lastNode }

def rangeOf (options : MemoryPlanOptions) (range : MemoryLiveRange) (shape : Shape) :
    Except Status MemoryLiveRange :=
  let kindOk := range.kind = .intermediate ∨ options.includeOutputs ∧ range.kind = .output
  if ¬ kindOk then
    .ok { range with skipReason := "kind=" ++ kindName range.kind }
  else if range.device.type ≠ .cpu ∧ range.device.type ≠ .cuda then
    .ok { range with skipReason := "unsupported device" }
  else if shape.hasDynamicDim then
    .ok { range with skipReason := "dynamic shape" }
  else
    match shape.numel with
    | .error st => .ok { range with skipReason := st.toString }
    | .ok elemCount =>
        match range.dtype.size with
        | .error st => .ok { range with skipReason := st.toString }
        | .ok elemSize =>
            if elemCount > sizeMax / elemSize then
              .error (.outOfRange ("memory planner tensor byte size overflow for " ++ range.name))
            else
              let bytes := wrapSize (elemCount * elemSize)
              .ok { range with
                bytes := bytes
                alignedBytes := alignUp bytes options.alignment
                eligible := true }

def record (plan : MemoryPlan) (range : MemoryLiveRange) : MemoryPlan :=
  if range.eligible then
    { plan with
      eligibleValueCount := plan.eligibleValueCount + 1
      naiveBytes := wrapSize (plan.naiveBytes + range.alignedBytes)
      ranges := plan.ranges ++ [range] }
  else
    { plan with
      skippedValueCount := plan.skippedValueCount + 1
      ranges := plan.ranges ++ [range] }

def planRanges (graph : Graph Num) (options : MemoryPlanOptions) (live : Liveness) (last : Nat) :
    Except Status MemoryPlan :=
  graph.values.zipIdx.foldlM
    (fun plan entry => do
      let range ← rangeOf options (initialRange live last entry.1 entry.2) entry.1.shape
      return record plan range)
    { alignment := options.alignment }

end LiveRanges

section Matching

def rangeAt (ranges : List MemoryLiveRange) (i : Nat) : MemoryLiveRange := ranges.getD i {}

def eligibleIndices (ranges : List MemoryLiveRange) : List Nat :=
  (List.range ranges.length).filter fun i => (rangeAt ranges i).eligible

/-- The comparator of the sort. -/
def before (ranges : List MemoryLiveRange) (lhs rhs : Nat) : Bool :=
  let a := rangeAt ranges lhs
  let b := rangeAt ranges rhs
  if a.firstNode ≠ b.firstNode then a.firstNode < b.firstNode
  else if a.lastNode ≠ b.lastNode then a.lastNode < b.lastNode
  else a.alignedBytes > b.alignedBytes

/-- `<=` of `std::pair`. -/
def pairLe (a b : Nat × Nat) : Prop := a.1 < b.1 ∨ a.1 = b.1 ∧ a.2 ≤ b.2

instance : DecidableRel pairLe := fun _ _ => inferInstanceAs (Decidable (_ ∨ _))

def emplace (entry : Nat × Nat) (entries : List (Nat × Nat)) : List (Nat × Nat) :=
  entries.orderedInsert pairLe entry

def lowerBound (entry : Nat × Nat) (entries : List (Nat × Nat)) : Option (Nat × Nat) :=
  entries.find? fun other => pairLe entry other

/-- `plan.ranges`, `plan.buffers`, `pools` and `live_by_last_use`. -/
structure Matching where
  ranges : List MemoryLiveRange
  buffers : List MemoryBuffer := []
  pools : PoolKey → List (Nat × Nat) := fun _ => []
  liveByLastUse : List (Nat × Nat) := []

def bufferAt (buffers : List MemoryBuffer) (bi : Nat) : MemoryBuffer := buffers.getD bi {}

/-- Moves the buffers last used before `firstNode` into the free sets of their pools. -/
def expire (buffers : List MemoryBuffer) (firstNode : Nat) (pools : PoolKey → List (Nat × Nat)) :
    List (Nat × Nat) → (PoolKey → List (Nat × Nat)) × List (Nat × Nat)
  | [] => (pools, [])
  | (lastUse, bi) :: rest =>
      if lastUse < firstNode then
        let buffer := bufferAt buffers bi
        expire buffers firstNode
          (fun key => if key = buffer.key then emplace (buffer.bytes, bi) (pools key)
            else pools key) rest
      else (pools, (lastUse, bi) :: rest)

def matchRange (state : Matching) (rangeIdx : Nat) : Matching :=
  let range := rangeAt state.ranges rangeIdx
  let expired := expire state.buffers range.firstNode state.pools state.liveByLastUse
  match lowerBound (range.alignedBytes, 0) (expired.1 range.key) with
  | some entry =>
      let buffer := bufferAt state.buffers entry.2
      { ranges := state.ranges.set rangeIdx { range with bufferId := buffer.id }
        buffers := state.buffers.set entry.2
          { buffer with lastUse := range.lastNode, values := buffer.values ++ [range.value] }
        pools := fun key => if key = range.key then (expired.1 key).erase entry else expired.1 key
        liveByLastUse := emplace (range.lastNode, entry.2) expired.2 }
  | none =>
      let bi := state.buffers.length
      { ranges := state.ranges.set rangeIdx { range with bufferId := bi }
        buffers := state.buffers ++ [{
          id := bi, bytes := range.alignedBytes, dtype := range.dtype, device := range.device,
          lastUse := range.lastNode, values := [range.value] }]
        pools := expired.1
        liveByLastUse := emplace (range.lastNode, bi) expired.2 }

end Matching

section Arenas

/-- `arena_info`: each pool's arena and the end of what it holds so far. -/
structure ArenaInfo where
  find : PoolKey → Option (Nat × Nat) := fun _ => none
  size : Nat := 0

def layoutBuffer (alignment : Nat) (arenas : ArenaInfo) (buffer : MemoryBuffer) :
    ArenaInfo × MemoryBuffer :=
  match arenas.find buffer.key with
  | none =>
      ({ find := fun key => if key = buffer.key then some (arenas.size, buffer.bytes)
          else arenas.find key
         size := arenas.size + 1 },
        { buffer with arenaIndex := arenas.size, offset := 0 })
  | some (arenaIdx, offset) =>
      let placed := alignUp offset alignment
      ({ arenas with
          find := fun key => if key = buffer.key then
              some (arenaIdx, wrapSize (placed + buffer.bytes))
            else arenas.find key },
        { buffer with arenaIndex := arenaIdx, offset := placed })

def layout (alignment : Nat) : ArenaInfo → List MemoryBuffer → List MemoryBuffer
  | _, [] => []
  | arenas, buffer :: rest =>
      let (next, placed) := layoutBuffer alignment arenas buffer
      placed :: layout alignment next rest

end Arenas

def addBytes (total : Nat) (buffer : MemoryBuffer) : Nat := wrapSize (total + buffer.bytes)

/-- What follows the ranges: matching, the total and the layout. -/
def assign (sorter : StdSort) (options : MemoryPlanOptions) (plan : MemoryPlan) : MemoryPlan :=
  let indices := sorter.sort (before plan.ranges) (eligibleIndices plan.ranges)
  let matched := indices.foldl matchRange { ranges := plan.ranges }
  { plan with
    ranges := matched.ranges
    plannedBytes := matched.buffers.foldl addBytes plan.plannedBytes
    buffers := layout options.alignment {} matched.buffers }

def plan (sorter : StdSort) (graph : Graph Num) (options : MemoryPlanOptions) :
    Except Status MemoryPlan :=
  if options.alignment = 0 then
    .error (.invalidArgument "memory planner alignment must be greater than zero")
  else
    let st := graph.validate
    if !st.isOk then .error st
    else do
      let order ← graph.topologicalSort
      let live ← liveness graph order
      let ranges ← planRanges graph options live (graphEnd order)
      return assign sorter options ranges

end MemoryPlanner

end MiniLLM
