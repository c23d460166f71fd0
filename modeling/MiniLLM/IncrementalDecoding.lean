import MiniLLM.AttentionRows

/-!
Prefill and decode through the contiguous KV cache against one pass without a
cache. A run feeds the attention node the next rows of a stream of Q, K and V
rows; the cache holds the K and V rows of the positions already run, so each run
writes the same rows as the pass over the whole stream.
-/

namespace MiniLLM.CpuKernelAdapter

open Loops Strides Cpu Softmax

variable {α : Type} [Field α] [LinearOrder α]

/-- An attention node and its attributes. -/
structure AttentionNode (node : Node α) (nh nkv hd : Nat) (layer : Int) (causal : Bool) : Prop where
  op : node.opType = .attention
  heads : node.attrInt "num_heads" 12 = nh
  kvHeads : node.attrInt "num_kv_heads" 12 = nkv
  headDim : node.attrInt "head_dim" 64 = hd
  layerIdx : node.attrInt "layer_idx" 0 = layer
  mask : node.attrBool "causal" true = causal
  positive : 0 < nh ∧ 0 < nkv ∧ 0 < hd
  divides : nkv ∣ nh

/-- A tensor [1, n, width] with the given rows. -/
structure IsChunk (tensor : Tensor α) (n width : Nat) (rows : Nat → Buffer α) : Prop where
  allocated : tensor.allocated = true
  dims : tensor.shape.dims = [1, (n : Int), (width : Int)]
  data : ∀ s < n, ∀ j < width, tensor.data (s * width + j) = rows s j

/-- The tensor made of the rows of a chunk. -/
def Tensor.ofRows (shape : Shape) (width : Nat) (rows : Nat → Buffer α) : Tensor α :=
  { shape := shape, data := fun i => rows (i / width) (i % width) }

omit [Field α] [LinearOrder α] in
theorem Tensor.ofRows_chunk {shape : Shape} {n width : Nat} (rows : Nat → Buffer α)
    (dims : shape.dims = [1, (n : Int), (width : Int)]) :
    IsChunk (Tensor.ofRows shape width rows) n width rows := by
  refine ⟨rfl, dims, fun s _ j inside => ?_⟩
  change rows ((s * width + j) / width) ((s * width + j) % width) = rows s j
  rw [Nat.mul_comm, Nat.mul_add_div (by omega), Nat.div_eq_of_lt inside, Nat.add_zero,
    Nat.mul_add_mod, Nat.mod_eq_of_lt inside]

/-- The bindings take the node's inputs to the rows `start, …, start + n - 1` of
the Q, K and V streams, and its output to an allocated tensor. -/
structure Feeds (bindings : Nat → Option (Tensor α)) (node : Node α) (nh nkv hd : Nat)
    (Q K V : Nat → Buffer α) (start n : Nat) (q k v output : Tensor α) : Prop where
  bindsQ : bindings (node.inputs.getD 0 0) = some q
  bindsK : bindings (node.inputs.getD 1 0) = some k
  bindsV : bindings (node.inputs.getD 2 0) = some v
  bindsOutput : bindings (node.outputs.getD 0 0) = some output
  chunkQ : IsChunk q n (nh * hd) fun s => Q (start + s)
  chunkK : IsChunk k n (nkv * hd) fun s => K (start + s)
  chunkV : IsChunk v n (nkv * hd) fun s => V (start + s)
  allocated : output.allocated = true

/-- What the kernel reads from the node and the tensors. -/
def chunkArgs (nh nkv hd : Nat) (layer : Int) (causal : Bool) (n : Nat)
    (q k v output : Tensor α) : AttentionArgs α :=
  { q := q, k := k, v := v, output := output, nh := nh, nkv := nkv, hd := hd
    layerIdx := layer, causal := causal, batch := 1, seqLen := n
    qHidden := (nh * hd : Nat), kvHidden := (nkv * hd : Nat) }

omit [Field α] [LinearOrder α] in
/-- Attributes and a chunk length that are `int`s pass the casts. -/
theorem attentionArgs_cast {ctx : RuntimeContext α} {node : Node α} {nh nkv hd : Nat} {layer : Int}
    {causal : Bool} (attention : AttentionNode node nh nkv hd layer causal)
    {Q K V : Nat → Buffer α} {start n : Nat} {q k v output : Tensor α}
    (feeds : Feeds ctx.bindings node nh nkv hd Q K V start n q k v output) (known : IsInt layer)
    (heads : nh ≤ intMax) (dims : hd ≤ intMax) (rows : n ≤ intMax) :
    attentionArgs node ctx = .ok { chunkArgs nh nkv hd layer causal n q k v output with
      qHidden := wrap32 (nh * hd : Nat), kvHidden := wrap32 (nkv * hd : Nat) } := by
  obtain ⟨headsPos, kvPos, dimPos⟩ := attention.positive
  have int : ∀ {x : Nat}, x ≤ intMax → wrap32 (x : Int) = x := fun small =>
    wrap32_eq _ (by omega) (by unfold intMax at small; omega)
  have kvHeads := int ((Nat.le_of_dvd headsPos attention.divides).trans heads)
  have positive : ¬ ((nh : Int) ≤ 0 ∨ (nkv : Int) ≤ 0 ∨ (hd : Int) ≤ 0) := by omega
  have whole : (nh : Int) % nkv = 0 := by
    have := Nat.mod_eq_zero_of_dvd attention.divides
    omega
  have shape : ∀ {tensor : Tensor α} {n width : Nat} {rows : Nat → Buffer α},
      IsChunk tensor n width rows →
      dimOf tensor 0 = .ok 1 ∧ dimOf tensor 1 = .ok (n : Int) ∧ dimOf tensor 2 = .ok (width : Int) := by
    intro tensor n width rows chunk
    simp [dimOf, Shape.dim, chunk.dims]
  simp only [attentionArgs, ok_bind, getTensor_bound feeds.bindsQ, getTensor_bound feeds.bindsK,
    getTensor_bound feeds.bindsV, getTensor_bound feeds.bindsOutput, checkAllocated_ok,
    feeds.chunkQ.allocated, feeds.chunkK.allocated, feeds.chunkV.allocated, feeds.allocated,
    attention.heads, attention.kvHeads, attention.headDim, attention.layerIdx, attention.mask,
    int heads, int dims, int rows, kvHeads, known.wrap, require_true positive, require_true whole,
    (shape feeds.chunkQ).1, (shape feeds.chunkQ).2.1, (shape feeds.chunkQ).2.2,
    (shape feeds.chunkK).2.2, Nat.cast_mul, require_true trivial, chunkArgs, pure, Except.pure,
    show wrap32 1 = 1 by decide]

omit [Field α] [LinearOrder α] in
theorem attentionArgs_eq {ctx : RuntimeContext α} {node : Node α} {nh nkv hd : Nat} {layer : Int}
    {causal : Bool} (attention : AttentionNode node nh nkv hd layer causal)
    {Q K V : Nat → Buffer α} {start n : Nat} {q k v output : Tensor α}
    (feeds : Feeds ctx.bindings node nh nkv hd Q K V start n q k v output) (known : IsInt layer)
    (row : nh * hd ≤ intMax) (tokens : n ≤ intMax) :
    attentionArgs node ctx = .ok (chunkArgs nh nkv hd layer causal n q k v output) := by
  obtain ⟨headsPos, _, dimPos⟩ := attention.positive
  have kvRow := (Nat.mul_le_mul_right hd (Nat.le_of_dvd headsPos attention.divides)).trans row
  have int : ∀ {x : Nat}, x ≤ intMax → wrap32 (x : Int) = x := fun small =>
    wrap32_eq _ (by omega) (by unfold intMax at small; omega)
  rw [attentionArgs_cast attention feeds known ((Nat.le_mul_of_pos_right nh dimPos).trans row)
    ((Nat.le_mul_of_pos_left hd headsPos).trans row) tokens, int row, int kvRow]
  rfl

omit [Field α] [LinearOrder α] in
theorem chunkArgs_geometry (nh nkv hd : Nat) (layer : Int) (causal : Bool) (n : Nat)
    (q k v output : Tensor α) (divides : nkv ∣ nh) :
    Geometry (chunkArgs nh nkv hd layer causal n q k v output) nh nkv hd :=
  ⟨rfl, rfl, rfl, rfl, rfl, divides⟩

omit [Field α] [LinearOrder α] in
theorem chunkArgs_row {nh nkv hd : Nat} (row : nh * hd ≤ intMax) {layer : Int} {causal : Bool}
    {n : Nat} {q k v output : Tensor α} :
    (chunkArgs nh nkv hd layer causal n q k v output).nh *
      (chunkArgs nh nkv hd layer causal n q k v output).hd ≤ intMax := by
  change (nh : Int) * hd ≤ (intMax : Nat)
  exact_mod_cast row

/-- The `int`s of causal attention over `total` tokens in one pass: a row, all rows, and
those of the kernel. -/
structure StreamFits (width nh hd total : Nat) : Prop where
  heads : nh * hd ≤ intMax
  rows : total * (nh * hd) ≤ intMax + 1
  tiles : FlashSdpaFits width nh total total hd true

section Sizes

variable {width nh nkv hd total n : Nat}

theorem StreamFits.fewer (fits : StreamFits width nh hd total) (fewer : n ≤ total) :
    StreamFits width nh hd n := by
  obtain ⟨⟨head, _, heads, _⟩, loops⟩ := fits.tiles
  have shorter := Nat.mul_le_mul_right hd fewer
  refine ⟨fits.heads, (Nat.mul_le_mul_right _ fewer).trans fits.rows,
    ⟨shorter.trans head, shorter.trans head, heads.mono le_rfl shorter, heads.mono le_rfl shorter⟩,
    fun positive tokens _ => ?_⟩
  obtain ⟨tiles, vectors⟩ := loops positive (by omega) (by omega)
  refine ⟨(Nat.mul_le_mul_right _ ?_).trans tiles, vectors⟩
  simp only [tilesSeen, kvTile, if_true]
  omega

/-- A pass over all tokens computes larger `int`s than a decoded token does. -/
theorem StreamFits.decode (fits : StreamFits width nh hd total) (fewer : n ≤ total)
    (tokens : 0 < n) (divides : nkv ∣ nh) (heads : 0 < nh) (dims : 0 < hd) :
    FlashDecodeFits width nh nkv hd n := by
  have kvHeads := Nat.le_of_dvd heads divides
  have row := Nat.mul_le_mul_right hd kvHeads
  obtain ⟨tiles, vectors⟩ := (fits.fewer fewer).tiles.2 heads tokens tokens
  have before : (n - 1) * (nkv * hd) ≤ intMax := by
    have all := (fits.fewer fewer).rows
    have positive : 0 < nh * hd := Nat.mul_pos heads dims
    have less : (n - 1) * (nkv * hd) ≤ (n - 1) * (nh * hd) := Nat.mul_le_mul_left _ row
    have last : (n - 1) * (nh * hd) + nh * hd = n * (nh * hd) := by
      rw [← Nat.succ_mul, Nat.succ_eq_add_one, Nat.sub_add_cancel tokens]
    omega
  refine ⟨⟨Nat.pos_of_dvd_of_pos divides heads, row.trans fits.heads, fun _ =>
    ⟨kvHeads, (Nat.mul_le_mul_right hd (Nat.sub_le nh 1)).trans fits.heads, before,
      fun _ => vectors⟩⟩, fun _ => ?_⟩
  refine le_trans (Nat.mul_le_mul_right _ ?_) tiles
  simp only [tilesSeen, kvTile, if_true]
  omega

theorem StreamFits.int (fits : StreamFits width nh hd total) (heads : 0 < nh) (dims : 0 < hd) :
    nh ≤ intMax ∧ hd ≤ intMax ∧ total ≤ intMax := by
  have row := fits.heads
  have head := fits.tiles.1.1
  exact ⟨(Nat.le_mul_of_pos_right nh dims).trans row, (Nat.le_mul_of_pos_left hd heads).trans row,
    (Nat.le_mul_of_pos_right total dims).trans head⟩

/-- The pass over the tokens of a chunk. -/
theorem StreamFits.chunk {α : Type} (fits : StreamFits width nh hd n) (layer : Int)
    (q k v output : Tensor α) : ChunkFits width (chunkArgs nh nkv hd layer true n q k v output) 1 := by
  refine ⟨?_, fun _ => fits.tiles⟩
  rw [Nat.one_mul]
  exact fits.rows

end Sizes

/-- The data of the output tensor in a context. -/
def outputData (ctx : RuntimeContext α) (node : Node α) : Buffer α :=
  match ctx.bindings (node.outputs.getD 0 0) with
  | some tensor => tensor.data
  | none => fun _ => 0

omit [LinearOrder α] in
theorem outputData_write (ctx : RuntimeContext α) (node : Node α) (data : Buffer α)
    {output : Tensor α} (binds : ctx.bindings (node.outputs.getD 0 0) = some output) :
    outputData (ctx.writeData (node.outputs.getD 0 0) data) node = data := by
  simp only [outputData, RuntimeContext.writeData, if_true, binds, Option.map_some]

section Paths

variable [IsStrictOrderedRing α] {ops : FloatOps α} {node : Node α} {nh nkv hd : Nat}
  {layer : Int} {Q K V : Nat → Buffer α}

/-- The output rows of a run on positions `start, …, start + n - 1`. -/
def WritesRows (ops : FloatOps α) (nh nkv hd : Nat) (Q K V : Nat → Buffer α) (start n : Nat)
    (data : Buffer α) : Prop :=
  ∀ s < n, ∀ j < nh * hd, data (s * (nh * hd) + j) =
    attentionRow ops nh nkv hd (Q (start + s)) K V (start + s + 1) j

/-- Causal attention over a batch of one element whose K and V rows start the streams. -/
theorem attendBatch_rows (law : ExpLaw ops.exp) (layer : Int) {n : Nat} {q k v output : Tensor α}
    {ctx : RuntimeContext α} (divides : nkv ∣ nh)
    (feeds : Feeds ctx.bindings node nh nkv hd Q K V 0 n q k v output) (keys values data : Buffer α)
    (sameK : ∀ i < n, ∀ c < nkv * hd, keys (i * (nkv * hd) + c) = K i c)
    (sameV : ∀ i < n, ∀ c < nkv * hd, values (i * (nkv * hd) + c) = V i c) :
    WritesRows ops nh nkv hd Q K V 0 n
      (attendBatch ops (chunkArgs nh nkv hd layer true n q k v output) keys values 0 data) := by
  intro s insideS j insideJ
  have geometry := chunkArgs_geometry nh nkv hd layer true n q k v output divides
  have written := attendBatch_at ops law _ geometry keys values 0 data
    (show s < (chunkArgs nh nkv hd layer true n q k v output).seqLen.toNat from insideS) insideJ
  simp only [Nat.zero_mul, Nat.zero_add] at written
  rw [written]
  simp only [chunkArgs, if_true, Nat.zero_add]
  apply attentionRow_congr ops divides insideJ
  · intro i below
    simp only [batchRow, Nat.zero_mul, Nat.zero_add]
    exact (feeds.chunkQ.data s insideS i below).trans (by rw [Nat.zero_add])
  · intro i below c inside
    simp only [batchRow, Nat.zero_mul, Nat.zero_add]
    exact sameK i (by omega) c inside
  · intro i below c inside
    simp only [batchRow, Nat.zero_mul, Nat.zero_add]
    exact sameV i (by omega) c inside

omit [Field α] [LinearOrder α] [IsStrictOrderedRing α] in
theorem Feeds.key {ctx : RuntimeContext α} {start n : Nat} {q k v output : Tensor α}
    (feeds : Feeds ctx.bindings node nh nkv hd Q K V start n q k v output) {s c : Nat} (insideS : s < n)
    (insideC : c < nkv * hd) : k.data (s * (nkv * hd) + c) = K (start + s) c ∧
      v.data (s * (nkv * hd) + c) = V (start + s) c :=
  ⟨feeds.chunkK.data s insideS c insideC, feeds.chunkV.data s insideS c insideC⟩

/-- Without a cache the kernel writes the rows of causal attention over its input. -/
theorem kernelAttention_noCache (law : ExpLaw ops.exp)
    (attention : AttentionNode node nh nkv hd layer true) {ctx : RuntimeContext α} {n : Nat}
    {q k v output : Tensor α} (feeds : Feeds ctx.bindings node nh nkv hd Q K V 0 n q k v output)
    (known : IsInt layer) (fits : StreamFits ops.simdWidth nh hd n)
    (noPaged : ctx.pagedKvCache = none) (noCache : ctx.kvCache = none) :
    ∃ data, kernelAttention ops node ctx = (none, ctx.writeData (node.outputs.getD 0 0) data) ∧
      WritesRows ops nh nkv hd Q K V 0 n data := by
  refine ⟨_, ?_, attendBatch_rows law layer attention.divides feeds k.data v.data output.data
    (fun i below c inside => ?_) fun i below c inside => ?_⟩
  · have accepted := attentionArgs_eq attention feeds known fits.heads
      (fits.int attention.positive.1 attention.positive.2.2).2.2
    have mode : ModeFits ops (chunkArgs nh nkv hd layer true n q k v output)
        (node.outputs.getD 0 0) ctx := by
      simp only [ModeFits, pagedCache, noPaged, noCache, Option.filter_none]
      exact fits.chunk layer q k v output
    rw [kernelAttention_fits accepted ⟨chunkArgs_row fits.heads, mode⟩]
    simp only [attentionMode, pagedCache, noPaged, noCache, Option.filter_none]
    rfl
  · rw [(feeds.key below inside).1, Nat.zero_add]
  · rw [(feeds.key below inside).2, Nat.zero_add]

/-- The cache holds the first `len` rows of the streams in its layer. -/
structure Caches (cache : KVCache α) (layer : Int) (width len : Nat) (K V : Nat → Buffer α) :
    Prop where
  low : 0 ≤ layer
  high : layer < cache.numLayers
  cachedLen : cache.cachedLen = len
  fits : cache.cachedLen ≤ cache.maxSeqLen
  initialized : 0 < cache.maxSeqLen
  rows : ∀ row < len, ∀ c < width, (cache.layer layer).k (row * width + c) = K row c ∧
    (cache.layer layer).v (row * width + c) = V row c

/-- A run on the next `n` positions leaves their K and V rows in the cache behind
the rows it held, and writes their attention rows. -/
theorem kernelAttention_cached (law : ExpLaw ops.exp)
    (attention : AttentionNode node nh nkv hd layer true) {ctx : RuntimeContext α}
    {start n : Nat} {q k v output : Tensor α}
    (feeds : Feeds ctx.bindings node nh nkv hd Q K V start n q k v output)
    (noPaged : ctx.pagedKvCache = none) {cache : KVCache α} (attached : ctx.kvCache = some cache)
    (caches : Caches cache layer (nkv * hd) start K V) (known : IsInt layer)
    (fits : StreamFits ops.simdWidth nh hd n)
    (decode : 0 < start → FlashDecodeFits ops.simdWidth nh nkv hd (start + 1)) (tokens : 0 < n)
    (room : (start + n : Int) ≤ cache.maxSeqLen) (single : start = 0 ∨ n = 1) :
    ∃ data after, kernelAttention ops node ctx =
        (none, { ctx with kvCache := some after }.writeData (node.outputs.getD 0 0) data) ∧
      WritesRows ops nh nkv hd Q K V start n data ∧ after.cachedLen = cache.cachedLen ∧
      after.maxSeqLen = cache.maxSeqLen ∧ after.numLayers = cache.numLayers ∧
      ∀ row < start + n, ∀ c < nkv * hd, (after.layer layer).k (row * (nkv * hd) + c) = K row c ∧
        (after.layer layer).v (row * (nkv * hd) + c) = V row c := by
  let args := chunkArgs nh nkv hd layer true n q k v output
  let after := cache.modifyLayer layer (cacheRows args start)
  have stored : after.layer layer = cacheRows args start (cache.layer layer) :=
    cache.modifyLayer_layer layer _ caches.low caches.high
  have rows : ∀ row < start + n, ∀ c < nkv * hd,
      (after.layer layer).k (row * (nkv * hd) + c) = K row c ∧
        (after.layer layer).v (row * (nkv * hd) + c) = V row c := by
    intro row below c inside
    obtain ⟨chunk, before⟩ := cacheRows_at args start (nkv * hd) (cache.layer layer) rfl inside
    rw [stored]
    by_cases old : row < start
    · rw [(before row old).1, (before row old).2]
      exact caches.rows row old c inside
    · have new := chunk (row - start) (show row - start < n by omega)
      rw [Nat.add_sub_cancel' (Nat.not_lt.mp old)] at new
      have fed := feeds.key (show row - start < n by omega) inside
      rw [Nat.add_sub_cancel' (Nat.not_lt.mp old)] at fed
      exact ⟨new.1.trans fed.1, new.2.trans fed.2⟩
  have ready : cache.initialized = true := by
    simpa [KVCache.initialized] using caches.initialized
  have layerFine : ¬ (args.layerIdx < 0 ∨ args.layerIdx ≥ cache.numLayers) := by
    have low := caches.low
    have high := caches.high
    change ¬ (layer < 0 ∨ layer ≥ cache.numLayers)
    omega
  have lenFine : ¬ (cache.cachedLen < 0 ∨ cache.cachedLen > cache.maxSeqLen) := by
    have len := caches.cachedLen
    have fits := caches.fits
    omega
  have appends : cache.canAppend n = true := by
    have len := caches.cachedLen
    simp [KVCache.canAppend]
    omega
  obtain ⟨headsPos, _, dimPos⟩ := attention.positive
  have accepted := attentionArgs_eq attention feeds known fits.heads
    (fits.int headsPos dimPos).2.2
  have sized : CachedFits ops.simdWidth args cache.cachedLen := by
    rw [CachedFits, caches.cachedLen]
    by_cases first : start = 0
    · rw [if_pos (by omega)]
      exact fits.chunk layer q k v output
    · rw [if_neg (by omega), Int.toNat_natCast]
      exact decode (by omega)
  have path : kernelAttention ops node ctx =
      cachedAttention ops args (node.outputs.getD 0 0) cache ctx := by
    have mode : ModeFits ops args (node.outputs.getD 0 0) ctx := by
      simp only [ModeFits, pagedCache, noPaged, attached, Option.filter_none, Option.filter_some,
        ready, if_true]
      exact fun _ => sized
    rw [kernelAttention_fits accepted ⟨chunkArgs_row fits.heads, mode⟩]
    simp only [attentionMode, pagedCache, noPaged, attached, Option.filter_none,
      Option.filter_some, ready, if_true]
    rfl
  by_cases first : start = 0
  · subst first
    have empty : cache.cachedLen = 0 := caches.cachedLen
    refine ⟨attendBatch ops args (after.layer layer).k (after.layer layer).v 0 output.data, after,
      ?_, ?_, rfl, rfl, by simp [after, KVCache.modifyLayer, KVCache.numLayers], rows⟩
    · rw [path]
      have seqFine : ¬ (args.seqLen ≤ 0) := by simp [args, chunkArgs]; omega
      have batchFine : ¬ (args.batch ≠ 1) := by simp [args, chunkArgs]
      have space : ¬ (!cache.canAppend args.seqLen) = true := by simp [args, chunkArgs, appends]
      simp only [cachedAttention]
      rw [if_neg batchFine, if_neg seqFine, if_neg layerFine, if_neg lenFine, if_pos empty,
        if_neg space]
      rfl
    · exact attendBatch_rows law layer attention.divides feeds _ _ _
        (fun i below c inside => (rows i (by omega) c inside).1)
        fun i below c inside => (rows i (by omega) c inside).2
  · obtain rfl : n = 1 := single.resolve_left first
    have nonempty : ¬ cache.cachedLen = 0 := by
      rw [caches.cachedLen]
      omega
    have len : cache.cachedLen.toNat = start := by
      rw [caches.cachedLen, Int.toNat_natCast]
    let qBuf : Buffer α :=
      storeRows 1 nh hd (fun _ h => h * hd) (fun _ h d => q.data (h * hd + d)) fun _ => 0
    refine ⟨copyFloats (nh * hd) output.data 0 (flashSdpaDecodeRows ops qBuf (after.layer layer).k
        (after.layer layer).v (fun _ => 0) nh nkv hd (start + 1)), after, ?_, ?_, rfl, rfl,
      by simp [after, KVCache.modifyLayer, KVCache.numLayers], rows⟩
    · rw [path]
      have seqFine : ¬ (args.seqLen ≤ 0) := by simp [args, chunkArgs]
      have batchFine : ¬ (args.batch ≠ 1) := by simp [args, chunkArgs]
      have oneFine : ¬ (args.seqLen ≠ 1) := by simp [args, chunkArgs]
      have space : ¬ (!cache.canAppend 1) = true := by simpa using appends
      simp only [cachedAttention]
      rw [if_neg batchFine, if_neg seqFine, if_neg layerFine, if_neg lenFine, if_neg nonempty,
        if_neg oneFine, if_neg space, len]
      rfl
    · intro s insideS j insideJ
      obtain rfl : s = 0 := by omega
      have width : 0 < hd := attention.positive.2.2
      have head : j / hd < nh := Nat.div_lt_of_lt_mul (by rwa [Nat.mul_comm])
      have copied := copyFloats_inside (nh * hd) output.data 0 (flashSdpaDecodeRows ops qBuf
        (after.layer layer).k (after.layer layer).v (fun _ => 0) nh nkv hd (start + 1)) insideJ
      have query : ∀ d < hd, qBuf (j / hd * hd + d) = q.data (j / hd * hd + d) := by
        intro d insideD
        simp only [qBuf, storeRows_eq]
        exact copyRows_at 1 nh hd (fun _ h => h * hd) (fun _ h d => q.data (h * hd + d)) _
          (fun a _ b insideB a' _ b' insideB' d insideD d' insideD' same =>
            ⟨by omega, (strided_inj insideD insideD' same).1⟩)
          Nat.one_pos head insideD
      rw [Nat.zero_mul, copied]
      conv_lhs => rw [← Nat.div_add_mod' j hd]
      rw [flashSdpaDecodeRows_at ops law _ _ _ _ nh nkv hd (start + 1) head (Nat.mod_lt j width),
        Nat.add_zero]
      apply attend_congr ops hd (Nat.mod_lt j width)
      · intro d insideD
        rw [query d insideD]
        have fed := feeds.chunkQ.data 0 Nat.one_pos (j / hd * hd + d) (strided_lt head insideD)
        rwa [Nat.zero_mul, Nat.zero_add] at fed
      · intro i below d insideD
        have group := strided_lt (groupHead_lt attention.divides head) insideD
        have held := (rows i (by omega) _ group).1
        rwa [← Nat.add_assoc] at held
      · intro i below d insideD
        have group := strided_lt (groupHead_lt attention.divides head) insideD
        have held := (rows i (by omega) _ group).2
        rwa [← Nat.add_assoc] at held

end Paths

section Runs

/-- The adapter's registrations for attention and RoPE, with kernels for the rest. -/
def cpuRegistry (ops : FloatOps α) (other : KernelRegistry α (RuntimeContext α)) :
    KernelRegistry α (RuntimeContext α)
  | .attention => some (kernelAttention ops)
  | .roPE => some (kernelRope ops)
  | op => other op

/-- One executor run of the graph on the next `tokens` tokens of a context. -/
def chunkRun (ops : FloatOps α) (graph : Graph α) (order : List Nat) (ctx : RuntimeContext α)
    (bindings : Nat → Option (Tensor α)) (tokens : Nat) : Option Failure × RuntimeContext α :=
  CpuExecutor.run (cpuRegistry ops fun _ => none) RuntimeContext.advanceKvCacheStep graph order
    { ctx with bindings := bindings, kvCacheAdvanceTokens := tokens }

-- Run 0 is the prefill on `n` tokens, the runs after it take one token each.
def runTokens (n : Nat) : Nat → Nat
  | 0 => n
  | _ + 1 => 1

def runStart (n : Nat) : Nat → Nat
  | 0 => 0
  | r + 1 => n + r

/-- The state after prefill and `r` decode runs, and how the last run ended. -/
def decodeRuns (ops : FloatOps α) (graph : Graph α) (order : List Nat) (start : RuntimeContext α)
    (bindings : Nat → Nat → Option (Tensor α)) (n : Nat) : Nat → Option Failure × RuntimeContext α
  | 0 => chunkRun ops graph order start (bindings 0) n
  | r + 1 => chunkRun ops graph order (decodeRuns ops graph order start bindings n r).2
      (bindings (r + 1)) 1

theorem runNodes_attention {ops : FloatOps α} {graph : Graph α} {nid : Nat} {node : Node α}
    (found : graph.nodes[nid]? = some node) (op : node.opType = .attention)
    {ctx after : RuntimeContext α} (kernel : kernelAttention ops node ctx = (none, after)) :
    CpuExecutor.runNodes (cpuRegistry ops fun _ => none) graph [nid] ctx = (none, after) := by
  simp [CpuExecutor.runNodes, tryList, CpuExecutor.runNode, Graph.node, found, op,
    KernelRegistry.find, cpuRegistry, kernel]

section Undefined

variable {ops : FloatOps α} {graph : Graph α} {nid : Nat} {node : Node α} {nh nkv hd : Nat}
  {layer : Int} {Q K V : Nat → Buffer α}

/-- A pass without a cache over more than its `int`s allow has no outcome. -/
theorem chunkRun_beyond (found : graph.nodes[nid]? = some node)
    (attention : AttentionNode node nh nkv hd layer true) {bindings : Nat → Option (Tensor α)}
    {n : Nat} {q k v output : Tensor α}
    (feeds : Feeds bindings node nh nkv hd Q K V 0 n q k v output) (known : IsInt layer)
    (heads : nh ≤ intMax) (dims : hd ≤ intMax) (tokens : n ≤ intMax)
    (beyond : ¬ StreamFits ops.simdWidth nh hd n) :
    (chunkRun ops graph [nid] {} bindings 0).1 = some .undefined := by
  let fed : RuntimeContext α := { bindings := bindings }
  have fedFeeds : Feeds fed.bindings node nh nkv hd Q K V 0 n q k v output := feeds
  have kernel : kernelAttention ops node fed = (some .undefined, fed) := by
    refine kernelAttention_undefined
      (attentionArgs_cast attention fedFeeds known heads dims tokens) fun fits => beyond ?_
    obtain ⟨row, mode⟩ := fits
    change (nh : Int) * hd ≤ (intMax : Nat) at row
    have row : nh * hd ≤ intMax := by exact_mod_cast row
    simp only [ModeFits, pagedCache, Option.filter_none, fed] at mode
    obtain ⟨rows, tiles⟩ := mode
    have exact : wrap32 ((nh * hd : Nat) : Int) = (nh * hd : Nat) :=
      wrap32_eq _ (by omega) (by unfold intMax at row; omega)
    rw [exact, Int.toNat_natCast] at rows
    refine ⟨row, ?_, tiles Nat.one_pos⟩
    rw [← Nat.one_mul n]
    exact rows
  change (CpuExecutor.run _ _ graph [nid] fed).1 = _
  simp [CpuExecutor.run, CpuExecutor.runNodes, tryList, CpuExecutor.runNode, Graph.node, found,
    attention.op, KernelRegistry.find, cpuRegistry, kernel]

end Undefined

variable [IsStrictOrderedRing α] {ops : FloatOps α} {graph : Graph α} {nid : Nat} {node : Node α}
  {nh nkv hd : Nat} {layer : Int} {Q K V : Nat → Buffer α}

/-- One run with the contiguous cache, the cache advanced by its tokens. -/
theorem chunkRun_cached (law : ExpLaw ops.exp) (found : graph.nodes[nid]? = some node)
    (attention : AttentionNode node nh nkv hd layer true) {ctx : RuntimeContext α}
    {bindings : Nat → Option (Tensor α)} {start n : Nat} {q k v output : Tensor α}
    (feeds : Feeds bindings node nh nkv hd Q K V start n q k v output)
    (noPaged : ctx.pagedKvCache = none) {cache : KVCache α} (attached : ctx.kvCache = some cache)
    (caches : Caches cache layer (nkv * hd) start K V) (known : IsInt layer) {total : Nat}
    (fits : StreamFits ops.simdWidth nh hd total) (inside : start + n ≤ total) (tokens : 0 < n)
    (room : (start + n : Int) ≤ cache.maxSeqLen) (int : cache.maxSeqLen < 2147483648)
    (single : start = 0 ∨ n = 1) :
    (chunkRun ops graph [nid] ctx bindings n).1 = none ∧
      WritesRows ops nh nkv hd Q K V start n
        (outputData (chunkRun ops graph [nid] ctx bindings n).2 node) ∧
      (chunkRun ops graph [nid] ctx bindings n).2.pagedKvCache = none ∧
      ∃ after, (chunkRun ops graph [nid] ctx bindings n).2.kvCache = some after ∧
        Caches after layer (nkv * hd) (start + n) K V ∧ after.maxSeqLen = cache.maxSeqLen := by
  let fed : RuntimeContext α := { ctx with bindings := bindings, kvCacheAdvanceTokens := n }
  have fedFeeds : Feeds fed.bindings node nh nkv hd Q K V start n q k v output := feeds
  obtain ⟨data, after, kernel, written, len, maxLen, layers, rows⟩ :=
    kernelAttention_cached law attention fedFeeds noPaged attached caches known
      (fits.fewer (by omega)) (fun later => fits.decode (by omega) (Nat.succ_pos start)
        attention.divides attention.positive.1 attention.positive.2.2) tokens room single
  have nodes := runNodes_attention found attention.op kernel
  have cachedLen := caches.cachedLen
  have ready : after.initialized = true := by
    simp only [KVCache.initialized, maxLen]
    simpa using caches.initialized
  have appends : after.canAppend n = true := by
    simp only [KVCache.canAppend, len, maxLen]
    simp
    omega
  have run : chunkRun ops graph [nid] ctx bindings n =
      (none, ({ { fed with kvCache := some after }.writeData (node.outputs.getD 0 0) data with
        kvCache := .some (after.advance n) } : RuntimeContext α).resetPagedKvWritePos) := by
    have advance := ({ fed with kvCache := some after }.writeData (node.outputs.getD 0 0)
      data).advanceKvCacheStep_appends (by change (0 : Int) < n; omega) rfl ready appends
    change CpuExecutor.run _ _ graph [nid] fed = _
    simp only [CpuExecutor.run, nodes, advance]
    rfl
  have advanced : (after.advance n).cachedLen = (start + n : Nat) := by
    rw [after.advance_cachedLen n (by omega) (by omega) (by omega) (by omega), len, cachedLen]
    rfl
  rw [run]
  refine ⟨rfl, ?_, noPaged, after.advance n, rfl, ⟨caches.low, ?_, advanced, ?_, ?_, rows⟩, maxLen⟩
  · have same : outputData (({ { fed with kvCache := some after }.writeData
        (node.outputs.getD 0 0) data with kvCache := some (after.advance n) } :
        RuntimeContext α).resetPagedKvWritePos) node = data :=
      outputData_write { fed with kvCache := some after } node data feeds.bindsOutput
    rw [same]
    exact written
  · change layer < after.numLayers
    rw [layers]
    exact caches.high
  · rw [advanced]
    change ((start + n : Nat) : Int) ≤ after.maxSeqLen
    omega
  · change 0 < after.maxSeqLen
    rw [maxLen]
    exact caches.initialized

/-- The cache after prefill and `r` decode runs. -/
theorem decodeRuns_cached (law : ExpLaw ops.exp) (found : graph.nodes[nid]? = some node)
    (attention : AttentionNode node nh nkv hd layer true) {start : RuntimeContext α}
    {bindings : Nat → Nat → Option (Tensor α)} {n m : Nat} (tokens : 0 < n)
    (fed : ∀ r ≤ m, ∃ q k v output,
      Feeds (bindings r) node nh nkv hd Q K V (runStart n r) (runTokens n r) q k v output)
    (noPaged : start.pagedKvCache = none) {cache : KVCache α} (attached : start.kvCache = some cache)
    (caches : Caches cache layer (nkv * hd) 0 K V) (known : IsInt layer)
    (fits : StreamFits ops.simdWidth nh hd (n + m)) (room : (n + m : Int) ≤ cache.maxSeqLen)
    (int : cache.maxSeqLen < 2147483648) (r : Nat) (inside : r ≤ m) :
    (decodeRuns ops graph [nid] start bindings n r).1 = none ∧
      (decodeRuns ops graph [nid] start bindings n r).2.pagedKvCache = none ∧
      (∃ after, (decodeRuns ops graph [nid] start bindings n r).2.kvCache = some after ∧
        Caches after layer (nkv * hd) (n + r) K V ∧ after.maxSeqLen = cache.maxSeqLen) ∧
      WritesRows ops nh nkv hd Q K V (runStart n r) (runTokens n r)
        (outputData (decodeRuns ops graph [nid] start bindings n r).2 node) := by
  induction r with
  | zero =>
      obtain ⟨q, k, v, output, feeds⟩ := fed 0 inside
      change Feeds (bindings 0) node nh nkv hd Q K V 0 n q k v output at feeds
      obtain ⟨fine, written, paged, after, held, afterCaches, maxLen⟩ :=
        chunkRun_cached law found attention feeds noPaged attached caches known fits (by omega)
          tokens (by omega) int (Or.inl rfl)
      rw [Nat.zero_add] at afterCaches
      exact ⟨fine, paged, ⟨after, held, afterCaches, maxLen⟩, written⟩
  | succ r ih =>
      obtain ⟨_, paged, ⟨before, held, beforeCaches, maxLen⟩, _⟩ := ih (by omega)
      obtain ⟨q, k, v, output, feeds⟩ := fed (r + 1) inside
      change Feeds (bindings (r + 1)) node nh nkv hd Q K V (n + r) 1 q k v output at feeds
      obtain ⟨fine, written, paged, after, held, afterCaches, same⟩ :=
        chunkRun_cached law found attention feeds paged held beforeCaches known fits (by omega)
          Nat.one_pos (by rw [maxLen]; omega) (by rw [maxLen]; exact int) (Or.inr rfl)
      exact ⟨fine, paged, ⟨after, held, afterCaches, same.trans maxLen⟩, written⟩

/-- Where the `int`s of the pass over all tokens fit, prefill and the decode runs succeed
and write its rows. -/
theorem decodeRuns_agree (law : ExpLaw ops.exp) (found : graph.nodes[nid]? = some node)
    (attention : AttentionNode node nh nkv hd layer true) {numLayers maxSeqLen : Int}
    (low : 0 ≤ layer) (high : layer < numLayers) {n m : Nat} (tokens : 1 ≤ n)
    (room : (n + m : Int) ≤ maxSeqLen) (layers : numLayers < 2147483648)
    (int : maxSeqLen < 2147483648)
    {whole : Nat → Option (Tensor α)} {bindings : Nat → Nat → Option (Tensor α)}
    (stream : ∃ q k v output, Feeds whole node nh nkv hd Q K V 0 (n + m) q k v output)
    (fed : ∀ r ≤ m, ∃ q k v output,
      Feeds (bindings r) node nh nkv hd Q K V (runStart n r) (runTokens n r) q k v output)
    (fits : StreamFits ops.simdWidth nh hd (n + m)) :
    (chunkRun ops graph [nid] {} whole 0).1 = none ∧
      (∀ r ≤ m, (decodeRuns ops graph [nid]
        { kvCache := some (KVCache.init {} numLayers nkv hd maxSeqLen) } bindings n r).1 =
          none) ∧
      ∀ p < n + m, ∃ r ≤ m, ∃ s < runTokens n r, p = runStart n r + s ∧ ∀ j < nh * hd,
        outputData (decodeRuns ops graph [nid]
            { kvCache := some (KVCache.init {} numLayers nkv hd maxSeqLen) } bindings n r).2
            node (s * (nh * hd) + j) =
          outputData (chunkRun ops graph [nid] {} whole 0).2 node (p * (nh * hd) + j) := by
  obtain ⟨_, kvPos, dimPos⟩ := attention.positive
  have known : IsInt layer := ⟨by omega, by omega⟩
  have init : KVCache.init {} numLayers nkv hd maxSeqLen =
      ({ layers := List.replicate numLayers.toNat KVCache.zeroLayer, numKvHeads := nkv,
         headDim := hd, maxSeqLen := maxSeqLen, cachedLen := 0 } : KVCache α) := by
    unfold KVCache.init
    rw [if_neg (by omega)]
  have caches : Caches (KVCache.init {} numLayers nkv hd maxSeqLen) layer (nkv * hd) 0 K V := by
    rw [init]
    refine ⟨low, ?_, rfl, ?_, ?_, fun row below => absurd below (Nat.not_lt_zero row)⟩
    · simp only [KVCache.numLayers, List.length_replicate]
      omega
    · change (0 : Int) ≤ maxSeqLen
      omega
    · change (0 : Int) < maxSeqLen
      omega
  have maxLen : (KVCache.init {} numLayers nkv hd maxSeqLen : KVCache α).maxSeqLen = maxSeqLen := by
    rw [init]
  let start : RuntimeContext α :=
    { kvCache := some (KVCache.init {} numLayers nkv hd maxSeqLen) }
  have runs := decodeRuns_cached law found attention tokens fed
    (show start.pagedKvCache = none from rfl)
    (show start.kvCache = some (KVCache.init {} numLayers nkv hd maxSeqLen) from rfl) caches
    known fits (by rw [maxLen]; exact room) (by rw [maxLen]; exact int)
  obtain ⟨q, k, v, output, feeds⟩ := stream
  let bound : RuntimeContext α := { bindings := whole }
  have boundFeeds : Feeds bound.bindings node nh nkv hd Q K V 0 (n + m) q k v output := feeds
  obtain ⟨data, kernel, written⟩ := kernelAttention_noCache law attention boundFeeds known fits
    rfl rfl
  have nodes := runNodes_attention found attention.op kernel
  have run : chunkRun ops graph [nid] {} whole 0 =
      (none, (bound.writeData (node.outputs.getD 0 0) data).resetPagedKvWritePos) := by
    have advance := (bound.writeData (node.outputs.getD 0 0) data).advanceKvCacheStep_idle
      (le_refl (0 : Int))
    change CpuExecutor.run _ _ graph [nid] bound = _
    simp only [CpuExecutor.run, nodes, advance]
    rfl
  have same : outputData (chunkRun ops graph [nid] {} whole 0).2 node = data := by
    rw [run]
    exact outputData_write bound node data feeds.bindsOutput
  refine ⟨by rw [run], fun r inside => (runs r inside).1, fun p below => ?_⟩
  have rows : ∀ r ≤ m, ∀ s < runTokens n r, p = runStart n r + s → ∀ j < nh * hd,
      outputData (decodeRuns ops graph [nid] start bindings n r).2 node (s * (nh * hd) + j) =
        outputData (chunkRun ops graph [nid] {} whole 0).2 node (p * (nh * hd) + j) := by
    rintro r inside s belowS rfl j column
    rw [same, (runs r inside).2.2.2 s belowS j column, written _ below j column, Nat.zero_add]
  by_cases prefill : p < n
  · have place : p = runStart n 0 + p := (Nat.zero_add p).symm
    exact ⟨0, Nat.zero_le m, p, prefill, place, rows 0 (Nat.zero_le m) p prefill place⟩
  · have place : p = runStart n (p - n + 1) + 0 := by
      simp only [runStart]
      omega
    exact ⟨p - n + 1, by omega, 0, Nat.one_pos, place,
      rows (p - n + 1) (by omega) 0 Nat.one_pos place⟩

/-- Prefill on `n` tokens and `m` one-token runs with the cache write, position by
position, the rows that one causal run without a cache writes over all tokens, exactly
where the `int`s of that run fit. -/
theorem incremental_decoding (law : ExpLaw ops.exp) (found : graph.nodes[nid]? = some node)
    (attention : AttentionNode node nh nkv hd layer true) (heads : nh ≤ intMax)
    (dims : hd ≤ intMax) {numLayers maxSeqLen : Int} (low : 0 ≤ layer) (high : layer < numLayers)
    {n m : Nat} (tokens : 1 ≤ n) (room : (n + m : Int) ≤ maxSeqLen)
    (layers : numLayers < 2147483648) (int : maxSeqLen < 2147483648)
    {whole : Nat → Option (Tensor α)} {bindings : Nat → Nat → Option (Tensor α)}
    (stream : ∃ q k v output, Feeds whole node nh nkv hd Q K V 0 (n + m) q k v output)
    (fed : ∀ r ≤ m, ∃ q k v output,
      Feeds (bindings r) node nh nkv hd Q K V (runStart n r) (runTokens n r) q k v output) :
    ((chunkRun ops graph [nid] {} whole 0).1 = none ∧
      (∀ r ≤ m, (decodeRuns ops graph [nid]
        { kvCache := some (KVCache.init {} numLayers nkv hd maxSeqLen) } bindings n r).1 =
          none) ∧
      ∀ p < n + m, ∃ r ≤ m, ∃ s < runTokens n r, p = runStart n r + s ∧ ∀ j < nh * hd,
        outputData (decodeRuns ops graph [nid]
            { kvCache := some (KVCache.init {} numLayers nkv hd maxSeqLen) } bindings n r).2
            node (s * (nh * hd) + j) =
          outputData (chunkRun ops graph [nid] {} whole 0).2 node (p * (nh * hd) + j)) ↔
      StreamFits ops.simdWidth nh hd (n + m) := by
  refine ⟨fun agree => ?_, fun fits =>
    decodeRuns_agree law found attention low high tokens room layers int stream fed fits⟩
  by_contra beyond
  obtain ⟨q, k, v, output, feeds⟩ := stream
  have undefined := chunkRun_beyond found attention feeds ⟨by omega, by omega⟩ heads dims
    (by unfold intMax; omega) beyond
  rw [agree.1] at undefined
  cases undefined

end Runs

section TwoTokens

-- Two query heads on one KV head, a prefill of one token and one decoded token.
def unitOps : FloatOps ℚ :=
  { exp := fun _ => 1, sqrt := id, cos := id, sin := id, pow := fun base _ => base, lowest := 0
    simdWidth := 8 }

theorem unitOps_law : ExpLaw unitOps.exp := ⟨fun _ _ => (one_mul 1).symm, fun _ => one_pos⟩

def headsNode : Node ℚ :=
  { opType := .attention, inputs := [0, 1, 2], outputs := [3]
    attrs := fun key =>
      if key = "num_heads" then some (.int 2)
      else if key = "num_kv_heads" ∨ key = "head_dim" then some (.int 1)
      else none }

def tokenRows (p : Nat) : Buffer ℚ := fun j => p + j

def bindTokens (qShape kvShape : Shape) (start : Nat) : Nat → Option (Tensor ℚ)
  | 0 => some (Tensor.ofRows qShape 2 fun s => tokenRows (start + s))
  | 1 => some (Tensor.ofRows kvShape 1 fun s => tokenRows (start + s))
  | 2 => some (Tensor.ofRows kvShape 1 fun s => tokenRows (start + s))
  | 3 => some { shape := qShape, data := fun _ => 0 }
  | _ => none

theorem bindTokens_feeds {qShape kvShape : Shape} {n : Nat} (start : Nat)
    (qDims : qShape.dims = [1, (n : Int), (2 : Int)])
    (kvDims : kvShape.dims = [1, (n : Int), (1 : Int)]) :
    ∃ q k v output, Feeds (bindTokens qShape kvShape start) headsNode 2 1 1 tokenRows tokenRows
      tokenRows start n q k v output :=
  ⟨_, _, _, _, rfl, rfl, rfl, rfl, Tensor.ofRows_chunk _ qDims, Tensor.ofRows_chunk _ kvDims,
    Tensor.ofRows_chunk _ kvDims, rfl⟩

theorem headsNode_attention : AttentionNode headsNode 2 1 1 0 true :=
  ⟨rfl, rfl, rfl, rfl, rfl, rfl, by decide, by decide⟩

theorem incremental_decoding_twoTokens :
    (chunkRun unitOps { nodes := [headsNode] } [0] {}
        (bindTokens { dims := [1, 2, 2] } { dims := [1, 2, 1] } 0) 0).1 = none ∧
      ∀ p < 1 + 1, ∃ r ≤ 1, ∃ s < runTokens 1 r, p = runStart 1 r + s ∧ ∀ j < 2 * 1,
        outputData (decodeRuns unitOps { nodes := [headsNode] } [0]
            { kvCache := some (KVCache.init {} 1 (1 : Nat) (1 : Nat) 2) }
            (fun r => bindTokens { dims := [1, 1, 2] } { dims := [1, 1, 1] } r) 1 r).2 headsNode
            (s * (2 * 1) + j) =
          outputData (chunkRun unitOps { nodes := [headsNode] } [0] {}
            (bindTokens { dims := [1, 2, 2] } { dims := [1, 2, 1] } 0) 0).2 headsNode
            (p * (2 * 1) + j) := by
  have fed : ∀ r ≤ 1, ∃ q k v output,
      Feeds (bindTokens { dims := [1, 1, 2] } { dims := [1, 1, 1] } r) headsNode 2 1 1 tokenRows
        tokenRows tokenRows (runStart 1 r) (runTokens 1 r) q k v output := by
    intro r inside
    cases r with
    | zero => exact bindTokens_feeds 0 rfl rfl
    | succ r =>
        obtain rfl : r = 0 := by omega
        exact bindTokens_feeds 1 rfl rfl
  have found : ({ nodes := [headsNode] } : Graph ℚ).nodes[0]? = some headsNode := rfl
  have heads : 2 ≤ intMax := by decide
  have dims : 1 ≤ intMax := by decide
  have high : (0 : Int) < 1 := by decide
  have room : (((1 : Nat) : Int) + ((1 : Nat) : Int)) ≤ 2 := by decide
  have layers : (1 : Int) < 2147483648 := by decide
  have int : (2 : Int) < 2147483648 := by decide
  have stream : ∃ q k v output,
      Feeds (bindTokens { dims := [1, 2, 2] } { dims := [1, 2, 1] } 0) headsNode 2 1 1 tokenRows
        tokenRows tokenRows 0 (1 + 1) q k v output :=
    bindTokens_feeds 0 rfl rfl
  have fits : StreamFits unitOps.simdWidth 2 1 (1 + 1) := ⟨by decide, by decide, by decide⟩
  have all := (incremental_decoding unitOps_law found headsNode_attention heads dims (le_refl 0)
    high (le_refl 1) room layers int stream fed).mpr fits
  exact ⟨all.1, all.2.2⟩

/-- Two heads of one float and 2^30 + 1 tokens: `s * q_hidden` leaves `int` in the pass over
all of them. -/
theorem uncached_pass_undefined :
    (∃ q k v output, Feeds (bindTokens { dims := [1, 1073741825, 2] }
        { dims := [1, 1073741825, 1] } 0) headsNode 2 1 1 tokenRows tokenRows tokenRows 0
        (1 + 1073741824) q k v output) ∧
      (chunkRun unitOps { nodes := [headsNode] } [0] {} (bindTokens
        { dims := [1, 1073741825, 2] } { dims := [1, 1073741825, 1] } 0) 0).1 =
        some .undefined := by
  have stream : ∃ q k v output, Feeds (bindTokens { dims := [1, 1073741825, 2] }
      { dims := [1, 1073741825, 1] } 0) headsNode 2 1 1 tokenRows tokenRows tokenRows 0
      (1 + 1073741824) q k v output := bindTokens_feeds 0 rfl rfl
  obtain ⟨q, k, v, output, feeds⟩ := stream
  refine ⟨⟨q, k, v, output, feeds⟩, chunkRun_beyond rfl headsNode_attention feeds
    ⟨by decide, by decide⟩ (by decide) (by decide) (by decide) fun fits => ?_⟩
  exact absurd fits.rows (by decide)

end TwoTokens

end MiniLLM.CpuKernelAdapter
