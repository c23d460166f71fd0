import MiniLLM.AttentionGeometry
import MiniLLM.LayerAppends

/-!
The paged path: when the call succeeds, what it touches of the cache, and the
exact condition under which a call in any mode stays inside its buffers.
-/

namespace MiniLLM.PagedKVCache

open Loops

variable {Elem : Type}

section Tables

/-- Where a token has been written. -/
structure Landed (after : PagedKVCache Elem) (sequenceId layer pos : Int) : Prop where
  inLayers : 0 ≤ layer ∧ layer < after.numLayers
  low : 0 ≤ pos
  int : pos + 1 < 2147483648
  block : ∃ block, after.physicalBlockForPosition sequenceId pos = .ok block
  length : pos + 1 ≤ after.sequenceLength sequenceId

end Tables

end MiniLLM.PagedKVCache

namespace MiniLLM.CpuKernelAdapter

open Loops Strides Cpu Softmax Finset PagedKVCache

variable {α : Type}

section Chunk

end Chunk

section Heads

variable {node : Node α} {rows : Int} {args : AttentionArgs α} {after : PagedKVCache α}
  {seqId start : Int}

end Heads

section Acceptance

variable [Field α] [LinearOrder α]

variable [IsStrictOrderedRing α]

variable {node : Node α} {rows : Int} {args : AttentionArgs α} {paged : PagedKVCache α}

end Acceptance

section Storage

variable {node : Node α} {rows : Int} {args : AttentionArgs α} {after : PagedKVCache α}
  {seqId start : Int}

/-- What a successful call says about the cache behind its writes. -/
structure Behind (args : AttentionArgs α) (seqId start : Int) (after : PagedKVCache α) : Prop where
  owned : after.Owned
  size : 0 < after.blockSize
  landed : after.Landed seqId args.layerIdx (start + args.seqLen - 1)
  heads : 1 < args.seqLen → args.nkv ≤ after.numKvHeads
  decode : args.seqLen = 1 → args.hd = after.headDim ∧ 0 < after.numKvHeads ∧
    args.nh % after.numKvHeads = 0
  mapped : args.seqLen = 1 → ∀ pos : Nat, pos < after.sequenceLength seqId →
    ∃ block, after.physicalBlockForPosition seqId pos = .ok block

end Storage

section Calls

variable {node : Node α} {ctx : RuntimeContext α} {rows : Int} {args : AttentionArgs α}

/-- The accesses of a call on accepted arguments. -/
def touched (args : AttentionArgs α) (ctx : RuntimeContext α) : List Access :=
  match pagedCache ctx with
  | some paged =>
      let start := pagedPosition ctx paged
      pagedAccesses args ctx.pagedSequenceId start
        (pagedWrites args ctx.pagedSequenceId start paged).2
  | none =>
      match ctx.kvCache.filter KVCache.initialized with
      | none => noCacheAccesses args
      | some cache => cacheAccesses args cache

-- The floats of a layer's K or V in the cache the call uses, and those of a row.
def cacheFloats (ctx : RuntimeContext α) : Int :=
  match pagedCache ctx with
  | some paged => (paged.maxBlocks * paged.blockStride : Nat)
  | none => (ctx.kvCache.filter KVCache.initialized).elim 0 fun cache =>
      cache.maxSeqLen * cache.kvHidden

def cacheWidth (ctx : RuntimeContext α) : Int :=
  match pagedCache ctx with
  | some paged => paged.numKvHeads * paged.headDim
  | none => (ctx.kvCache.filter KVCache.initialized).elim 0 KVCache.kvHidden

/-- The sizes of the cache are what their types hold: a row is an `int`, the storage a
`size_t`. -/
def CacheSized (ctx : RuntimeContext α) : Prop :=
  match pagedCache ctx with
  | some paged => paged.RowFits ∧
      paged.maxBlocks * (paged.blockSize * (paged.numKvHeads * paged.headDim)) < 18446744073709551616
  | none => (ctx.kvCache.filter KVCache.initialized).elim True fun cache =>
      cache.kvHidden < 2147483648

/-- Every access is inside its buffer, and a row of the cache is a row of the node. -/
structure Safe (node : Node α) (ctx : RuntimeContext α) (rows : Int) (args : AttentionArgs α) :
    Prop where
  inside : ∀ access ∈ touched args ctx, access.Inside (sizes node rows (cacheFloats ctx))
  width : (∃ access ∈ touched args ctx, access.place.isCache = true) →
    CacheSized ctx ∧ cacheWidth ctx = rowWidth node

/-- A paged cache is behind any calls, and the position is an `int`. -/
structure Attached [Field α] (ctx : RuntimeContext α) : Prop where
  paged : ∀ paged, ctx.pagedKvCache = some paged →
    ∃ calls, (∀ op ∈ calls, op.IsInt) ∧ paged = runs calls
  position : ctx.pagedKvWritePos < 2147483648

variable [Field α]

theorem Attached.owned (attached : Attached ctx) {paged : PagedKVCache α}
    (found : ctx.pagedKvCache = some paged) : paged.Owned := by
  obtain ⟨calls, _, rfl⟩ := attached.paged paged found
  exact runs_owned calls

variable [LinearOrder α] [IsStrictOrderedRing α]

end Calls

section OneToken

end OneToken

end MiniLLM.CpuKernelAdapter
