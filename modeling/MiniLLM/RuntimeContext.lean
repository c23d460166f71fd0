import MiniLLM.Executor
import MiniLLM.KVCache
import MiniLLM.PagedKVCache
import MiniLLM.CpuKernels

/-!
runtime/runtime_context.h and the RoPE and attention kernels of
runtime/kernels/cpu_kernel_adapter.cpp. Tensors bound to different values share
no memory here, and float tensors hold elements of the exact field. Attributes and
dimensions are cast to `int`, positions and token counts are `int`s, and their sums
and products wrap. An index that leaves `int` is undefined and so is the outcome of
the kernel: the row it stands for begins before the tensor.
-/

namespace MiniLLM

open Loops Strides

structure Tensor (α : Type) where
  shape : Shape
  allocated : Bool := true
  data : Buffer α

structure RuntimeContext (α : Type) where
  bindings : Nat → Option (Tensor α) := fun _ => none
  kvCache : Option (KVCache α) := none
  kvCacheAdvanceTokens : Int := 0
  pagedKvCache : Option (PagedKVCache α) := none
  pagedSequenceId : Int := 0
  pagedKvWritePos : Int := -1

namespace RuntimeContext

variable {α : Type}

def get (ctx : RuntimeContext α) (id : Nat) : Option (Tensor α) := ctx.bindings id

def writeData (ctx : RuntimeContext α) (id : Nat) (data : Buffer α) : RuntimeContext α :=
  { ctx with bindings := fun other =>
      if other = id then (ctx.bindings id).map fun tensor => { tensor with data := data }
      else ctx.bindings other }

def resetPagedKvWritePos (ctx : RuntimeContext α) : RuntimeContext α :=
  { ctx with pagedKvWritePos := -1 }

def advanceKvCacheStep (ctx : RuntimeContext α) : Status × RuntimeContext α :=
  if ctx.kvCacheAdvanceTokens ≤ 0 then (.makeOk, ctx.resetPagedKvWritePos)
  else
    match ctx.kvCache with
    | none =>
        (.runtimeError "cannot advance an uninitialized KV cache", ctx.resetPagedKvWritePos)
    | some cache =>
        if !cache.initialized then
          (.runtimeError "cannot advance an uninitialized KV cache", ctx.resetPagedKvWritePos)
        else if !cache.canAppend ctx.kvCacheAdvanceTokens then
          (.outOfRange "KV cache does not have enough space to advance", ctx.resetPagedKvWritePos)
        else
          (.makeOk,
            { ctx with kvCache := some (cache.advance ctx.kvCacheAdvanceTokens) }
              |>.resetPagedKvWritePos)

theorem advanceKvCacheStep_idle (ctx : RuntimeContext α) (idle : ctx.kvCacheAdvanceTokens ≤ 0) :
    ctx.advanceKvCacheStep = (.makeOk, ctx.resetPagedKvWritePos) := if_pos idle

theorem advanceKvCacheStep_appends (ctx : RuntimeContext α) {cache : KVCache α}
    (tokens : 0 < ctx.kvCacheAdvanceTokens) (attached : ctx.kvCache = some cache)
    (ready : cache.initialized = true) (room : cache.canAppend ctx.kvCacheAdvanceTokens = true) :
    ctx.advanceKvCacheStep = (.makeOk,
      ({ ctx with kvCache := some (cache.advance ctx.kvCacheAdvanceTokens) } :
        RuntimeContext α).resetPagedKvWritePos) := by
  unfold advanceKvCacheStep
  rw [if_neg (by omega), attached]
  simp [ready, room]

end RuntimeContext

namespace CpuKernelAdapter

open Cpu

variable {α : Type}

def getTensor (ctx : RuntimeContext α) (id : Nat) (role : String) : Except Failure (Tensor α) :=
  match ctx.get id with
  | some tensor => .ok tensor
  | none => .error (.returned (.runtimeError
      (role ++ " tensor not found for ValueId %" ++ toString id)))

def checkAllocated (tensor : Tensor α) (name : String) : Except Failure Unit :=
  if tensor.allocated then .ok ()
  else .error (.returned (.runtimeError (name ++ " tensor not allocated")))

def dimOf (tensor : Tensor α) (i : Nat) : Except Failure Int :=
  match tensor.shape.dim i with
  | some d => .ok d
  | none => .error .thrown

def require (condition : Prop) [Decidable condition] (st : Status) : Except Failure Unit :=
  if condition then .ok () else .error (.returned st)

section Arguments

theorem getTensor_ok {ctx : RuntimeContext α} {id : Nat} {role : String} {tensor : Tensor α}
    (found : getTensor ctx id role = .ok tensor) : ctx.bindings id = some tensor := by
  unfold getTensor RuntimeContext.get at found
  split at found
  · next bound => rw [bound, Except.ok.inj found]
  · cases found

theorem getTensor_bound {ctx : RuntimeContext α} {id : Nat} {tensor : Tensor α}
    (binds : ctx.bindings id = some tensor) (role : String) :
    getTensor ctx id role = .ok tensor := by
  simp [getTensor, RuntimeContext.get, binds]

theorem checkAllocated_ok {tensor : Tensor α} (allocated : tensor.allocated = true) (name : String) :
    checkAllocated tensor name = .ok () := by
  simp [checkAllocated, allocated]

theorem dimOf_ok {tensor : Tensor α} {i : Nat} {d : Int} (found : dimOf tensor i = .ok d) :
    tensor.shape.dim i = some d := by
  unfold dimOf at found
  split at found
  · next same => rw [same, Except.ok.inj found]
  · cases found

theorem require_ok {condition : Prop} [Decidable condition] {st : Status} {u : Unit}
    (fine : require condition st = .ok u) : condition := by
  unfold require at fine
  split at fine
  · assumption
  · cases fine

theorem require_true {condition : Prop} [Decidable condition] (holds : condition) (st : Status) :
    require condition st = .ok () := if_pos holds

theorem ok_bind {A B : Type} (a : A) (f : A → Except Failure B) :
    (Except.ok a >>= f) = f a := by simp only [bind, Except.bind]

end Arguments

/-- The paged cache the context works on, once it is initialised. -/
def pagedCache (ctx : RuntimeContext α) : Option (PagedKVCache α) :=
  ctx.pagedKvCache.filter PagedKVCache.initialized

/-- The position of the chunk's first token in paged mode: the one remembered
from an earlier layer, or the sequence's length. -/
def pagedPosition (ctx : RuntimeContext α) (paged : PagedKVCache α) : Int :=
  if ctx.pagedKvWritePos ≥ 0 then ctx.pagedKvWritePos
  else paged.sequenceLength ctx.pagedSequenceId

/-- The `int` product of some dimensions. -/
def intProduct (dims : List Int) : Int := dims.foldl (fun m d => wrap32 (m * wrap32 d)) 1

section Rope

variable [Field α]

structure RopeArgs (α : Type) where
  x : Tensor α
  output : Tensor α
  seqLen : Int
  hidden : Int
  /-- The attribute, an `int64_t`: the distance between two heads. -/
  headStride : Int
  headDim : Int
  ropeBase : α

abbrev ropeBase (node : Node α) : α := node.attrDouble "rope_base" 10000

def ropeArgs (node : Node α) (ctx : RuntimeContext α) : Except Failure (RopeArgs α) := do
  let x ← getTensor ctx (node.inputs.getD 0 0) "x"
  let output ← getTensor ctx (node.outputs.getD 0 0) "output"
  checkAllocated x "x"
  checkAllocated output "output"
  let hidden ← dimOf x (x.shape.rank - 1)
  let headDim := node.attrInt "head_dim" 64
  return {
    x := x
    output := output
    seqLen := intProduct x.shape.dims.dropLast
    hidden := wrap32 hidden
    headStride := headDim
    headDim := wrap32 headDim
    ropeBase := ropeBase node }

def posOffset (ctx : RuntimeContext α) (seqLen : Int) : Int :=
  match pagedCache ctx with
  | some paged => pagedPosition ctx paged
  | none =>
      match ctx.kvCache with
      | none => 0
      | some cache =>
          if cache.initialized ∧ cache.cachedLen > 0 ∧ seqLen = 1 then cache.cachedLen else 0

/-- Each head of row `s` rotated for position `pos + s`. -/
def ropeRows (ops : FloatOps α) (args : RopeArgs α) (pos : Int) : Buffer α :=
  let hidden := args.hidden.toNat
  let headDim := args.headDim.toNat
  let numHeads := hidden / headDim
  loop args.seqLen.toNat (fun s o =>
      loop numHeads (fun h o =>
        applyRope ops (fun d => args.x.data (s * hidden + h * headDim + d)) o
          (s * hidden + h * headDim) 1 headDim args.ropeBase (pos + s)) o)
    args.output.data

/-- The `int`s of the kernel: it divides by the head dimension, and counts rows,
positions and the floats of half a head. A head after the first is found by the
attribute itself: past `int` that is outside the tensor. -/
def RopeFits (width : Nat) (args : RopeArgs α) (pos : Int) : Prop :=
  args.headDim ≠ 0 ∧ (0 < args.seqLen → 0 < args.hidden.toNat / args.headDim.toNat →
    RowsFit args.seqLen.toNat args.hidden.toNat ∧ pos + args.seqLen - 1 ≤ intMax ∧
      VectorsFit width (args.headDim.toNat / 2) ∧
      (1 < args.hidden.toNat / args.headDim.toNat → args.headStride = args.headDim))

instance (width : Nat) (args : RopeArgs α) (pos : Int) : Decidable (RopeFits width args pos) :=
  inferInstanceAs (Decidable (_ ∧ _))

def kernelRope (ops : FloatOps α) : KernelFn α (RuntimeContext α) := fun node ctx =>
  match ropeArgs node ctx with
  | .error failure => (some failure, ctx)
  | .ok args =>
      let pos := posOffset ctx args.seqLen
      if RopeFits ops.simdWidth args pos then
        (none, ctx.writeData (node.outputs.getD 0 0) (ropeRows ops args pos))
      else (some .undefined, ctx)

end Rope

section Attention

structure AttentionArgs (α : Type) where
  q : Tensor α
  k : Tensor α
  v : Tensor α
  output : Tensor α
  nh : Int
  nkv : Int
  hd : Int
  layerIdx : Int
  causal : Bool
  batch : Int
  seqLen : Int
  qHidden : Int
  kvHidden : Int

def attentionArgs (node : Node α) (ctx : RuntimeContext α) : Except Failure (AttentionArgs α) := do
  let q ← getTensor ctx (node.inputs.getD 0 0) "q"
  let k ← getTensor ctx (node.inputs.getD 1 0) "k"
  let v ← getTensor ctx (node.inputs.getD 2 0) "v"
  let output ← getTensor ctx (node.outputs.getD 0 0) "output"
  checkAllocated q "q"
  checkAllocated k "k"
  checkAllocated v "v"
  checkAllocated output "output"
  let nh := wrap32 (node.attrInt "num_heads" 12)
  let nkv := wrap32 (node.attrInt "num_kv_heads" 12)
  let hd := wrap32 (node.attrInt "head_dim" 64)
  require (¬ (nh ≤ 0 ∨ nkv ≤ 0 ∨ hd ≤ 0)) (.invalidArgument
    "attention requires positive num_heads, num_kv_heads, and head_dim")
  require (nh % nkv = 0) (.invalidArgument
    "attention num_heads must be divisible by num_kv_heads")
  let batch ← dimOf q 0
  let seqLen ← dimOf q 1
  let qHidden ← dimOf q 2
  let kvHidden ← dimOf k 2
  require (wrap32 qHidden = wrap32 (nh * hd)) (.shapeMismatch
    "attention q hidden size does not match num_heads * head_dim")
  require (wrap32 kvHidden = wrap32 (nkv * hd)) (.shapeMismatch
    "attention k/v hidden size does not match num_kv_heads * head_dim")
  return {
    q := q, k := k, v := v, output := output
    nh := nh, nkv := nkv, hd := hd
    layerIdx := wrap32 (node.attrInt "layer_idx" 0)
    causal := node.attrBool "causal" true
    batch := wrap32 batch, seqLen := wrap32 seqLen
    qHidden := wrap32 qHidden, kvHidden := wrap32 kvHidden }

variable [Field α] [LinearOrder α]

/-- Heads first: row (s, h) of the source goes to row (h, s) of a buffer
[outer, seq, width]. -/
def interleave (seqLen nh hd : Nat) (source : Nat → Nat → Buffer α) : Buffer α :=
  storeRows seqLen nh hd (fun s h => h * seqLen * hd + s * hd) source fun _ => 0

def mapLoop (n : Nat) (f : Nat → α → α) (row : Buffer α) : Buffer α :=
  loop n (fun d row => store row d (f d (row d))) row

/-- Scores of the cached keys against a query row, and the running maximum. -/
def pagedScores (ops : FloatOps α) (paged : PagedKVCache α) (seqId li kvHead : Int)
    (limit hd : Nat) (q : Buffer α) : Option Status × Buffer α × α :=
  loopTry limit (fun pos (state : Buffer α × α) =>
      match paged.keyPtr seqId li pos kvHead with
      | .error st => (some st, state)
      | .ok k =>
          let dot := loop hd (fun d dot => dot + q d * k d) 0
          let score := dot * scaleOf ops hd
          (none, store state.1 pos score, max state.2 score))
    (fun _ => 0, ops.lowest)

def pagedWeights (ops : FloatOps α) (limit : Nat) (scores : Buffer α) (maxScore : α) :
    Buffer α × α :=
  loop limit (fun pos (state : Buffer α × α) =>
      let p := ops.exp (state.1 pos - maxScore)
      (store state.1 pos p, state.2 + p))
    (scores, 0)

/-- One output row of paged attention over the first `limit` cached positions. -/
def pagedRow (ops : FloatOps α) (paged : PagedKVCache α) (seqId li kvHead : Int)
    (limit hd : Nat) (q : Buffer α) : Except Status (Buffer α) :=
  match pagedScores ops paged seqId li kvHead limit hd q with
  | (some st, _) => .error st
  | (none, scores, maxScore) =>
      let (weights, sum) := pagedWeights ops limit scores maxScore
      if sum ≤ 0 then
        .error (.runtimeError "paged attention softmax sum is non-positive")
      else
        match loopTry limit (fun pos (out : Buffer α) =>
            match paged.valuePtr seqId li pos kvHead with
            | .error st => (some st, out)
            | .ok v => (none, mapLoop hd (fun d x => x + weights pos / sum * v d) out))
          fun _ => 0 with
        | (some st, _) => .error st
        | (none, out) => .ok out

/-- `paged_attention_decode`: one query row a head over the whole sequence. -/
def pagedAttentionDecode (ops : FloatOps α) (paged : PagedKVCache α) (seqId li : Int)
    (q output : Buffer α) (numHeads headDim : Int) : Option Status × Buffer α :=
  if !paged.initialized then (some (.runtimeError "PagedKVCache is not initialized"), output)
  else if numHeads ≤ 0 ∨ headDim ≤ 0 then
    (some (.invalidArgument "num_heads and head_dim must be positive"), output)
  else if headDim ≠ paged.headDim then
    (some (.shapeMismatch "paged attention head_dim must match cache head_dim"), output)
  else if paged.numKvHeads ≤ 0 ∨ numHeads % paged.numKvHeads ≠ 0 then
    (some (.invalidArgument "num_heads must be divisible by cache num_kv_heads"), output)
  else
    let kvLen := paged.sequenceLength seqId
    if kvLen ≤ 0 then
      (some (.invalidArgument "paged_attention_decode requires a non-empty sequence"), output)
    else
      let groupSize := numHeads.toNat / paged.numKvHeads
      let hd := headDim.toNat
      loopTry numHeads.toNat (fun h output =>
          match pagedRow ops paged seqId li ↑(h / groupSize) kvLen.toNat hd
            (fun d => q (h * hd + d)) with
          | .error st => (some st, output)
          | .ok row => (none, copyFloats hd output (h * hd) row))
        output

/-- The chunk path: each query row is limited to the positions up to its own. -/
def pagedAttentionChunk (ops : FloatOps α) (paged : PagedKVCache α) (seqId li writePos : Int)
    (q output : Buffer α) (nh groupSize seqLen hd : Nat) : Option Status × Buffer α :=
  loopTry nh (fun h output =>
      loopTry seqLen (fun qs output =>
          match pagedRow ops paged seqId li ↑(h / groupSize) (wrap32 (writePos + qs + 1)).toNat hd
            (fun d => q (h * seqLen * hd + qs * hd + d)) with
          | .error st => (some st, output)
          | .ok row => (none, copyFloats hd output (h * seqLen * hd + qs * hd) row))
        output)
    output

/-- The write loop of the paged path: one `write_tokens` call for each row. -/
def pagedWrites (args : AttentionArgs α) (seqId writePos : Int) (paged : PagedKVCache α) :
    Option Status × PagedKVCache α :=
  let kvHidden := args.kvHidden.toNat
  loopTry args.seqLen.toNat (fun s paged =>
      match paged.writeTokens seqId args.layerIdx (wrap32 (writePos + s))
        (some fun d => args.k.data (s * kvHidden + d))
        (some fun d => args.v.data (s * kvHidden + d)) 1 with
      | (st, paged) => if !st.isOk then (some st, paged) else (none, paged))
    paged

/-- Back to [seq, heads * head_dim] order. -/
def writeOutput (args : AttentionArgs α) (oBuf : Buffer α) : Buffer α :=
  let seqLen := args.seqLen.toNat
  let hd := args.hd.toNat
  storeRows seqLen args.nh.toNat hd (fun s h => s * args.qHidden.toNat + h * hd)
    (fun s h d => oBuf (h * seqLen * hd + s * hd + d)) args.output.data

def pagedAttention (ops : FloatOps α) (args : AttentionArgs α) (output : Nat)
    (paged : PagedKVCache α) (ctx : RuntimeContext α) : Option Failure × RuntimeContext α :=
  let seqId := ctx.pagedSequenceId
  let writePos := pagedPosition ctx paged
  let ctx := { ctx with pagedKvWritePos := writePos }
  match pagedWrites args seqId writePos paged with
  | (some st, paged) => (some (.returned st), { ctx with pagedKvCache := some paged })
  | (none, paged) =>
      let ctx := { ctx with pagedKvCache := some paged }
      -- No buffer for the heads has a negative size.
      if args.seqLen < 0 then (some .thrown, ctx) else
      let seqLen := args.seqLen.toNat
      let nh := args.nh.toNat
      let hd := args.hd.toNat
      let qBuf := interleave seqLen nh hd fun s h d =>
        args.q.data (s * args.qHidden.toNat + h * hd + d)
      let attended :=
        if args.seqLen = 1 then
          pagedAttentionDecode ops paged seqId args.layerIdx qBuf (fun _ => 0) args.nh args.hd
        else
          pagedAttentionChunk ops paged seqId args.layerIdx writePos qBuf (fun _ => 0) nh
            (nh / args.nkv.toNat) seqLen hd
      match attended with
      | (some st, _) => (some (.returned st), ctx)
      | (none, oBuf) => (none, ctx.writeData output (writeOutput args oBuf))

/-- The part of the no-cache and the prefill path that works on batch element `b`:
Q, K and V of each head side by side, attention, and the rows back in place. -/
def attendBatch (ops : FloatOps α) (args : AttentionArgs α) (k v : Buffer α) (b : Nat)
    (output : Buffer α) : Buffer α :=
  let seqLen := args.seqLen.toNat
  let nh := args.nh.toNat
  let hd := args.hd.toNat
  let qHidden := args.qHidden.toNat
  let kvHidden := args.kvHidden.toNat
  let groupSize := nh / args.nkv.toNat
  let qBuf := interleave seqLen nh hd fun s h d =>
    args.q.data (b * seqLen * qHidden + s * qHidden + h * hd + d)
  let kBuf := interleave seqLen nh hd fun s h d =>
    k (b * seqLen * kvHidden + s * kvHidden + h / groupSize * hd + d)
  let vBuf := interleave seqLen nh hd fun s h d =>
    v (b * seqLen * kvHidden + s * kvHidden + h / groupSize * hd + d)
  let oBuf := flashSdpaRows ops qBuf kBuf vBuf (fun _ => 0) nh seqLen seqLen hd args.causal
  storeRows nh seqLen hd (fun h s => b * seqLen * qHidden + s * qHidden + h * hd)
    (fun h s d => oBuf (h * seqLen * hd + s * hd + d)) output

/-- Copies the chunk's rows into the cache from row `first` on. -/
def cacheRows (args : AttentionArgs α) (first : Nat) (layer : KVCacheLayer α) : KVCacheLayer α :=
  let kvHidden := args.kvHidden.toNat
  loop args.seqLen.toNat (fun s layer =>
      { k := copyFloats kvHidden layer.k ((first + s) * kvHidden)
          fun d => args.k.data (s * kvHidden + d)
        v := copyFloats kvHidden layer.v ((first + s) * kvHidden)
          fun d => args.v.data (s * kvHidden + d) })
    layer

def cachedAttention (ops : FloatOps α) (args : AttentionArgs α) (output : Nat)
    (cache : KVCache α) (ctx : RuntimeContext α) : Option Failure × RuntimeContext α :=
  let fail (st : Status) := (some (Failure.returned st), ctx)
  if args.batch ≠ 1 then
    fail (.unsupported "KV cache attention currently supports batch size 1")
  else if args.seqLen ≤ 0 then
    fail (.invalidArgument "KV cache attention requires seq_len > 0")
  else if args.layerIdx < 0 ∨ args.layerIdx ≥ cache.numLayers then
    fail (.outOfRange "KV cache layer index out of range")
  else if cache.cachedLen < 0 ∨ cache.cachedLen > cache.maxSeqLen then
    fail (.outOfRange "KV cache cached_len is out of range")
  else if cache.cachedLen = 0 then
    if !cache.canAppend args.seqLen then
      fail (.outOfRange "KV cache does not have enough space for prefill")
    else
      let cache := cache.modifyLayer args.layerIdx (cacheRows args 0)
      let layer := cache.layer args.layerIdx
      let ctx := { ctx with kvCache := some cache }
      (none, ctx.writeData output (attendBatch ops args layer.k layer.v 0 args.output.data))
  else if args.seqLen ≠ 1 then
    fail (.invalidArgument "KV cache decode requires seq_len == 1")
  else if !cache.canAppend 1 then
    fail (.outOfRange "KV cache does not have enough space for decode")
  else
    let cachedLen := cache.cachedLen.toNat
    let cache := cache.modifyLayer args.layerIdx (cacheRows args cachedLen)
    let layer := cache.layer args.layerIdx
    let ctx := { ctx with kvCache := some cache }
    let nh := args.nh.toNat
    let hd := args.hd.toNat
    let qBuf := storeRows 1 nh hd (fun _ h => h * hd) (fun _ h d => args.q.data (h * hd + d))
      fun _ => 0
    let oBuf := flashSdpaDecodeRows ops qBuf layer.k layer.v (fun _ => 0) nh args.nkv.toNat hd
      (cachedLen + 1)
    (none, ctx.writeData output (copyFloats (nh * hd) args.output.data 0 oBuf))

/-- The three modes of the kernel on accepted arguments, all indices exact. A cast may
leave the sequence length negative. -/
def attentionMode (ops : FloatOps α) (args : AttentionArgs α) (output : Nat)
    (ctx : RuntimeContext α) : Option Failure × RuntimeContext α :=
  match pagedCache ctx with
  | some paged => pagedAttention ops args output paged ctx
  | none =>
      match ctx.kvCache.filter KVCache.initialized with
      | none =>
          if args.seqLen < 0 then (some .thrown, ctx) else
          (none, ctx.writeData output
            (loop args.batch.toNat (attendBatch ops args args.k.data args.v.data)
              args.output.data))
      | some cache => cachedAttention ops args output cache ctx

section Indices

/-- The rows the write loop comes to, and behind it the rows of Q and of the output. -/
def PagedFits (args : AttentionArgs α) (seqId writePos : Int) (paged : PagedKVCache α) : Prop :=
  (∀ s < args.seqLen.toNat, (pagedWrites { args with seqLen := s } seqId writePos paged).1 = none →
    s * args.kvHidden.toNat ≤ intMax) ∧
  ((pagedWrites args seqId writePos paged).1 = none →
    args.seqLen.toNat * args.qHidden.toNat ≤ intMax + 1)

/-- Attention over the chunk itself, with the rows of Q and of the output. -/
def ChunkFits (width : Nat) (args : AttentionArgs α) (batch : Nat) : Prop :=
  batch * args.seqLen.toNat * args.qHidden.toNat ≤ intMax + 1 ∧
    (0 < batch → FlashSdpaFits width args.nh.toNat args.seqLen.toNat args.seqLen.toNat
      args.hd.toNat args.causal)

def CachedFits (width : Nat) (args : AttentionArgs α) (cachedLen : Int) : Prop :=
  if cachedLen = 0 then ChunkFits width args 1
  else FlashDecodeFits width args.nh.toNat args.nkv.toNat args.hd.toNat (cachedLen.toNat + 1)

/-- The `int` indices of the mode that the context is in. -/
def ModeFits (ops : FloatOps α) (args : AttentionArgs α) (output : Nat)
    (ctx : RuntimeContext α) : Prop :=
  match pagedCache ctx with
  | some paged => PagedFits args ctx.pagedSequenceId (pagedPosition ctx paged) paged
  | none =>
      match ctx.kvCache.filter KVCache.initialized with
      | none => ChunkFits ops.simdWidth args args.batch.toNat
      | some cache =>
          (cachedAttention ops args output cache ctx).1 = none →
            CachedFits ops.simdWidth args cache.cachedLen

def AttentionFits (ops : FloatOps α) (args : AttentionArgs α) (output : Nat)
    (ctx : RuntimeContext α) : Prop :=
  args.nh * args.hd ≤ intMax ∧ ModeFits ops args output ctx

instance (args : AttentionArgs α) (seqId writePos : Int) (paged : PagedKVCache α) :
    Decidable (PagedFits args seqId writePos paged) :=
  inferInstanceAs (Decidable (_ ∧ _))

instance (width : Nat) (args : AttentionArgs α) (batch : Nat) :
    Decidable (ChunkFits width args batch) :=
  inferInstanceAs (Decidable (_ ∧ _))

instance (width : Nat) (args : AttentionArgs α) (cachedLen : Int) :
    Decidable (CachedFits width args cachedLen) :=
  if empty : cachedLen = 0 then decidable_of_iff (ChunkFits width args 1) (by rw [CachedFits, if_pos empty])
  else decidable_of_iff _ (by rw [CachedFits, if_neg empty])

instance (ops : FloatOps α) (args : AttentionArgs α) (output : Nat) (ctx : RuntimeContext α) :
    Decidable (ModeFits ops args output ctx) := by
  unfold ModeFits
  exact
    match pagedCache ctx with
    | some _ => inferInstance
    | none =>
        match ctx.kvCache.filter KVCache.initialized with
        | none => inferInstance
        | some _ => inferInstance

instance (ops : FloatOps α) (args : AttentionArgs α) (output : Nat) (ctx : RuntimeContext α) :
    Decidable (AttentionFits ops args output ctx) :=
  inferInstanceAs (Decidable (_ ∧ _))

end Indices

def kernelAttention (ops : FloatOps α) : KernelFn α (RuntimeContext α) := fun node ctx =>
  match attentionArgs node ctx with
  | .error failure => (some failure, ctx)
  | .ok args =>
      let output := node.outputs.getD 0 0
      if AttentionFits ops args output ctx then attentionMode ops args output ctx
      else (some .undefined, ctx)

variable {ops : FloatOps α} {node : Node α} {ctx : RuntimeContext α} {args : AttentionArgs α}
  (accepted : attentionArgs node ctx = .ok args)

include accepted

theorem kernelAttention_fits (fits : AttentionFits ops args (node.outputs.getD 0 0) ctx) :
    kernelAttention ops node ctx = attentionMode ops args (node.outputs.getD 0 0) ctx := by
  simp only [kernelAttention, accepted, if_pos fits]

theorem kernelAttention_undefined (beyond : ¬ AttentionFits ops args (node.outputs.getD 0 0) ctx) :
    kernelAttention ops node ctx = (some .undefined, ctx) := by
  simp only [kernelAttention, accepted, if_neg beyond]

/-- The indices of a successful call are `int`s. -/
theorem kernelAttention_success (fine : (kernelAttention ops node ctx).1 = none) :
    AttentionFits ops args (node.outputs.getD 0 0) ctx := by
  by_contra beyond
  rw [kernelAttention_undefined accepted beyond] at fine
  cases fine

end Attention

end CpuKernelAdapter

end MiniLLM
