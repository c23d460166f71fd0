import MiniLLM.AttentionAccess

/-!
Which calls of the attention kernel stay inside their buffers. The kernel checks
its tensors against the attributes and never the cache: a row of the cache has to
be as wide as the node's, and the `int` products have to stay below 2^31.
-/

namespace MiniLLM.CpuKernelAdapter

open Loops Strides Cpu Softmax PagedKVCache

variable {α : Type}

section Products

end Products

section Shapes

variable {node : Node α} {ctx : RuntimeContext α} {rows : Int}

def numHeads (node : Node α) : Int := node.attrInt "num_heads" 12
def numKvHeads (node : Node α) : Int := node.attrInt "num_kv_heads" 12
def headDim (node : Node α) : Int := node.attrInt "head_dim" 64

/-- The width of a K or V row that the node's attributes ask for. -/
def rowWidth (node : Node α) : Int := numKvHeads node * headDim node

/-- One batch element of `rows` rows, as wide as the attributes say. -/
structure Consistent (node : Node α) (ctx : RuntimeContext α) (rows : Int) : Prop where
  positive : 0 < rows
  q : ∀ tensor, ctx.bindings (node.inputs.getD 0 0) = some tensor →
    tensor.shape.dims = [1, rows, numHeads node * headDim node]
  k : ∀ tensor, ctx.bindings (node.inputs.getD 1 0) = some tensor →
    tensor.shape.dims = [1, rows, rowWidth node]
  v : ∀ tensor, ctx.bindings (node.inputs.getD 2 0) = some tensor →
    tensor.shape.dims = [1, rows, rowWidth node]
  output : ∀ tensor, ctx.bindings (node.outputs.getD 0 0) = some tensor →
    tensor.shape.dims = [1, rows, numHeads node * headDim node]

/-- The casts of accepted arguments. -/
structure CastAccepted (node : Node α) (rows : Int) (args : AttentionArgs α) : Prop where
  heads : args.nh = wrap32 (numHeads node)
  kvHeads : args.nkv = wrap32 (numKvHeads node)
  headDim : args.hd = wrap32 (headDim node)
  positive : 0 < args.nh ∧ 0 < args.nkv ∧ 0 < args.hd
  divides : args.nh % args.nkv = 0
  batch : args.batch = 1
  seqLen : args.seqLen = wrap32 rows
  qHidden : args.qHidden = wrap32 (args.nh * args.hd)
  kvHidden : args.kvHidden = wrap32 (args.nkv * args.hd)
  qPositive : 0 < numHeads node * CpuKernelAdapter.headDim node
  kvPositive : 0 < rowWidth node

end Shapes

section Bounds

variable {node : Node α} {rows : Int} {args : AttentionArgs α}

/-- The `int` indices of the rows of Q and of the output do not wrap. -/
def Small (args : AttentionArgs α) : Prop :=
  args.seqLen * (args.nh * args.hd) ≤ 2147483648

theorem kvWidth_le (accepted : CastAccepted node rows args) :
    args.nkv * args.hd ≤ args.nh * args.hd := by
  obtain ⟨nhPositive, nkvPositive, hdPositive⟩ := accepted.positive
  have le : args.nkv ≤ args.nh :=
    Int.le_of_dvd nhPositive (Int.dvd_of_emod_eq_zero accepted.divides)
  exact Int.mul_le_mul_of_nonneg_right le hdPositive.le

/-- The products over K and V are those over Q or smaller. -/
theorem Small.kv (small : Small args) (accepted : CastAccepted node rows args)
    (some : 0 < args.seqLen) : args.seqLen * (args.nkv * args.hd) ≤ 2147483648 :=
  (Int.mul_le_mul_of_nonneg_left (kvWidth_le accepted) some.le).trans small

end Bounds

section Modes

variable {node : Node α} {ctx : RuntimeContext α} {rows : Int} {args : AttentionArgs α}

/-- Floats in each buffer of a call whose layer of the cache holds `cacheSize`. -/
def sizes (node : Node α) (rows cacheSize : Int) : Place → Int
  | .q | .output => rows * (numHeads node * headDim node)
  | .k | .v => rows * rowWidth node
  | .cacheK | .cacheV => cacheSize

/-- What the contiguous path checks before it touches a buffer. -/
structure CacheAccepts (args : AttentionArgs α) (cache : KVCache α) : Prop where
  tokens : 0 < args.seqLen
  layer : 0 ≤ args.layerIdx ∧ args.layerIdx < cache.numLayers
  length : 0 ≤ cache.cachedLen ∧ cache.cachedLen ≤ cache.maxSeqLen
  room : cache.cachedLen + args.seqLen ≤ cache.maxSeqLen
  decode : cache.cachedLen = 0 ∨ args.seqLen = 1

theorem canAppend_iff (cache : KVCache α) (n : Int) :
    cache.canAppend n = true ↔ 0 ≤ n ∧ n ≤ cache.maxSeqLen - cache.cachedLen ∧
      cache.cachedLen ≤ cache.maxSeqLen := by
  simp [KVCache.canAppend]
  omega

theorem cachedAttention_accepts [Field α] [LinearOrder α] (ops : FloatOps α)
    (batch : args.batch = 1) (output : Nat) (cache : KVCache α) :
    (cachedAttention ops args output cache ctx).1 = none ↔ CacheAccepts args cache := by
  have fits := canAppend_iff cache
  unfold cachedAttention
  constructor
  · intro fine
    by_cases tokens : args.seqLen ≤ 0
    · simp [batch, tokens] at fine
    by_cases layer : args.layerIdx < 0 ∨ args.layerIdx ≥ cache.numLayers
    · simp [batch, tokens, layer] at fine
    by_cases length : cache.cachedLen < 0 ∨ cache.cachedLen > cache.maxSeqLen
    · simp [batch, tokens, layer, length] at fine
    by_cases empty : cache.cachedLen = 0
    · cases room : cache.canAppend args.seqLen with
      | false => simp [batch, tokens, layer, empty, room, show ¬ cache.maxSeqLen < 0 by omega] at fine
      | true =>
          have room := (fits _).mp room
          exact ⟨by omega, by omega, by omega, by omega, Or.inl empty⟩
    by_cases single : args.seqLen = 1
    · cases room : cache.canAppend 1 with
      | false => simp [batch, layer, length, empty, single, room] at fine
      | true =>
          have room := (fits _).mp room
          exact ⟨by omega, by omega, by omega, by omega, Or.inr single⟩
    · simp [batch, tokens, layer, length, empty, single] at fine
  · rintro ⟨tokens, layer, length, room, decode⟩
    rw [if_neg (by omega), if_neg (by omega), if_neg (by omega), if_neg (by omega)]
    split
    · simp [(fits args.seqLen).mpr (by omega)]
    · simp [(fits 1).mpr (by omega), show args.seqLen = 1 by omega]

/-- The accesses of the contiguous path. -/
def cacheAccesses (args : AttentionArgs α) (cache : KVCache α) : List Access :=
  if cache.cachedLen = 0 then prefillAccesses args else decodeAccesses args cache.cachedLen

end Modes

section Contiguous

variable {node : Node α} {rows : Int} {args : AttentionArgs α} {cache : KVCache α}

end Contiguous


end MiniLLM.CpuKernelAdapter
