import MiniLLM.AttentionGeometry
import MiniLLM.IncrementalDecoding

/-!
The attention kernel on the contiguous cache. A call is refused before it touches
anything, or it stores its chunk behind the rows that count, in its own layer, and
attends over what that layer then holds.
-/

namespace MiniLLM

open Loops Strides Cpu

namespace KVCache

variable {α : Type}

section Layers

variable [Zero α] (cache : KVCache α) {li other : Int} (f : KVCacheLayer α → KVCacheLayer α)

theorem modifyLayer_other (low : 0 ≤ li) (otherLow : 0 ≤ other) (apart : other ≠ li) :
    (cache.modifyLayer li f).layer other = cache.layer other := by
  have different : li.toNat ≠ other.toNat := by omega
  simp [layer, modifyLayer, List.getD_eq_getElem?_getD, different]

omit [Zero α] in
theorem modifyLayer_numLayers : (cache.modifyLayer li f).numLayers = cache.numLayers := by
  simp [numLayers, modifyLayer]

end Layers

end KVCache

namespace CpuKernelAdapter

variable {α : Type} [Field α] [LinearOrder α]

/-- The cache with the chunk behind the rows that count. -/
def storeChunk (args : AttentionArgs α) (cache : KVCache α) : KVCache α :=
  cache.modifyLayer args.layerIdx (cacheRows args cache.cachedLen.toNat)

/-- What the contiguous path writes once the chunk is stored from row `first` on. -/
def attendStored (ops : FloatOps α) (args : AttentionArgs α) (first : Nat)
    (layer : KVCacheLayer α) : Buffer α :=
  if first = 0 then attendBatch ops args layer.k layer.v 0 args.output.data
  else
    let nh := args.nh.toNat
    let hd := args.hd.toNat
    copyFloats (nh * hd) args.output.data 0
      (flashSdpaDecodeRows ops
        (storeRows 1 nh hd (fun _ h => h * hd) (fun _ h d => args.q.data (h * hd + d)) fun _ => 0)
        layer.k layer.v (fun _ => 0) nh args.nkv.toNat hd (first + 1))

section Calls

variable {ops : FloatOps α} {args : AttentionArgs α} {cache : KVCache α} {ctx : RuntimeContext α}

theorem cachedAttention_accepted (batch : args.batch = 1) (accepts : CacheAccepts args cache)
    (output : Nat) :
    cachedAttention ops args output cache ctx =
      (none, { ctx with kvCache := some (storeChunk args cache) }.writeData output
        (attendStored ops args cache.cachedLen.toNat
          ((storeChunk args cache).layer args.layerIdx))) := by
  obtain ⟨tokens, layer, length, room, decode⟩ := accepts
  have fits := canAppend_iff cache
  unfold cachedAttention attendStored storeChunk
  rw [if_neg (by omega), if_neg (by omega), if_neg (by omega), if_neg (by omega)]
  by_cases empty : cache.cachedLen = 0
  · rw [if_pos empty, (fits args.seqLen).mpr (by omega), empty]
    rfl
  · have single : args.seqLen = 1 := decode.resolve_left empty
    have later : ¬ cache.cachedLen.toNat = 0 := by omega
    rw [if_neg empty, if_neg (by omega), (fits 1).mpr (by omega)]
    simp only [if_neg later]
    rfl

end Calls

section Storing

variable {args : AttentionArgs α} {cache : KVCache α} {width : Nat}

omit [Field α] [LinearOrder α] in
@[simp] theorem storeChunk_cachedLen : (storeChunk args cache).cachedLen = cache.cachedLen := rfl

omit [Field α] [LinearOrder α] in
@[simp] theorem storeChunk_maxSeqLen : (storeChunk args cache).maxSeqLen = cache.maxSeqLen := rfl

omit [Field α] [LinearOrder α] in
@[simp] theorem storeChunk_numLayers : (storeChunk args cache).numLayers = cache.numLayers :=
  cache.modifyLayer_numLayers _

omit [LinearOrder α] in
theorem storeChunk_other (low : 0 ≤ args.layerIdx) {other : Int} (otherLow : 0 ≤ other)
    (apart : other ≠ args.layerIdx) :
    (storeChunk args cache).layer other = cache.layer other :=
  cache.modifyLayer_other _ low otherLow apart

end Storing

end CpuKernelAdapter

end MiniLLM
