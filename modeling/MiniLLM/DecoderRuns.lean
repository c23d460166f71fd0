import MiniLLM.StreamRuns
import MiniLLM.GraphLayers

/-!
A decoder built, compiled and run on the CPU: `build_transformer`, `CpuExecutor::compile`
and `run` on a context with its weights and tokens. A run computes the logits of its
positions, without a cache and with the contiguous cache, which holds the rows of the
positions seen so far.
-/

namespace MiniLLM

open Loops Strides Cpu CpuKernelAdapter RowStream Softmax TransformerGraphBuilder

namespace Backend

/-- `Backend::supports` -/
def supports : OpType → Bool
  | .embedding | .matMul | .linear | .add | .mul | .rmsNorm | .siLU | .swiGLU | .roPE | .attention
  | .qkNorm | .softmax | .reshape | .transpose | .output => true
  | _ => false

end Backend

namespace CpuExecutor

variable {Num Ctx : Type}

/-- What `compile` finds wrong with a node. -/
def uncompiled (backend : String) (registry : KernelRegistry Num Ctx) (graph : Graph Num)
    (nid : Nat) : Option Status :=
  match graph.node nid with
  | .error st => some st
  | .ok node =>
      if node.opType = .input ∨ node.opType = .constant ∨ node.opType = .output then none
      else if !Backend.supports node.opType then
        some (.unsupported ("backend " ++ backend ++ " does not support op " ++ node.opType.name))
      else if (registry node.opType).isNone then
        some (.notImplemented ("no kernel registered for op " ++ node.opType.name))
      else none

/-- `compile`: the execution order. -/
def compile (backend : String) (registry : KernelRegistry Num Ctx) (graph : Graph Num) :
    Except Status (List Nat) :=
  if !graph.validate.isOk then .error graph.validate
  else
    match graph.topologicalSort with
    | .error st => .error st
    | .ok order =>
        match order.findSome? (uncompiled backend registry graph) with
        | some st => .error st
        | none => .ok order

end CpuExecutor

variable {α : Type} [Field α] [LinearOrder α]

namespace Decoder

/-- The graph for runs of `n` tokens. -/
def graph (dec : Decoder α) (n : Nat) : Graph α := (buildTransformer (dec.config n) {}).2

/-- The value that `build_transformer` returns. -/
def output (dec : Decoder α) (n : Nat) : Option Nat :=
  match buildTransformer (dec.config n) {} with
  | (.ok logits, _) => some logits
  | (.error _, _) => none

def run (dec : Decoder α) (n : Nat) (ctx : ModelContext α) : Option Failure × ModelContext α :=
  match CpuExecutor.compile "cpu" (cpuKernels dec.ops) (dec.graph n) with
  | .error st => (some (.returned st), ctx)
  | .ok order =>
      CpuExecutor.run (cpuKernels dec.ops) ModelContext.advanceKvCacheStep (dec.graph n) order ctx

/-- The tensor of the logits. -/
def logitsTensor (dec : Decoder α) (n : Nat) (ctx : ModelContext α) : Option (Tensor α) :=
  (dec.output n).bind ctx.bindings

/-- A context for the tokens from `start` on: every value has its tensor, the weights
and the token ids are in place. -/
def Loaded (dec : Decoder α) (start n : Nat) (ctx : ModelContext α) : Prop :=
  ∀ (id : Nat) (value : Value), (dec.graph n).values[id]? = some value →
    if value.kind = .input then
      ctx.bindings id = none ∧ ∃ tensor, ctx.tokens id = some tensor ∧ tensor.allocated = true ∧
        tensor.shape = value.shape ∧ ∀ s < n, tensor.data s = dec.tokens (start + s)
    else ∃ tensor, ctx.bindings id = some tensor ∧ tensor.allocated = true ∧
      tensor.shape = value.shape ∧ (value.kind = .constant → tensor.data = dec.weights value.name)

/-- A new context with the weights and the ids. -/
def newContext (dec : Decoder α) (start n : Nat) : ModelContext α where
  bindings id :=
    match (dec.graph n).values[id]? with
    | some value =>
        if value.kind = .input then none
        else some { shape := value.shape
                    data := if value.kind = .constant then dec.weights value.name else fun _ => 0 }
    | none => none
  tokens id :=
    match (dec.graph n).values[id]? with
    | some value =>
        if value.kind = .input then some { shape := value.shape, data := fun s => dec.tokens (start + s) }
        else none
    | none => none

omit [LinearOrder α] in
theorem newContext_loaded (dec : Decoder α) (start n : Nat) :
    dec.Loaded start n (dec.newContext start n) := by
  intro id value found
  split
  · next input =>
      refine ⟨by simp [newContext, found, input], { shape := value.shape, data := _ }, ?_, rfl, rfl,
        fun s _ => rfl⟩
      simp [newContext, found, input]
  · next computed =>
      refine ⟨_, by simp [newContext, found, computed]; rfl, rfl, rfl, fun constant => ?_⟩
      exact if_pos constant

/-- The logits tensor holds the logits of the positions from `start` on. -/
def Answers (dec : Decoder α) (start n : Nat) (ctx : ModelContext α) : Prop :=
  ∃ tensor, dec.logitsTensor n ctx = some tensor ∧ ∀ s < n, ∀ t < dec.vocab,
    tensor.data (s * dec.vocab + t) = dec.logits (start + s) t

/-- Sizes that a run of `n` tokens asks for. -/
structure Runs (dec : Decoder α) (start n : Nat) : Prop where
  wellFormed : dec.WellFormed
  tokens : 0 < n
  fits : dec.Fits n
  last : start + n ≤ 2147483648
  layers : dec.numLayers < 2147483648
  inside : ∀ i < n, 0 ≤ dec.tokens (start + i) ∧ dec.tokens (start + i) < dec.vocab

variable {dec : Decoder α} {start n : Nat} {ctx : ModelContext α}

omit [Field α] [LinearOrder α] in
theorem Runs.count [Field α] (runs : dec.Runs start n) : n < 2147483648 :=
  (Nat.le_mul_of_pos_right n runs.wellFormed.positive.1).trans_lt
    (runs.fits.row (by simp [widths]))

omit [LinearOrder α] in
/-- What is known of the graph. -/
theorem Runs.denotes (runs : dec.Runs start n) :
    ∃ logits meanings, dec.output n = some logits ∧ (dec.graph n).Sound ∧
      Denotes dec n (dec.graph n) meanings ∧ meanings[logits]? = some (.rows dec.vocab dec.logits) ∧
      ∀ layer < dec.numLayers, ∃ node ∈ (dec.graph n).nodes, node.opType = .attention ∧
        node.attrInt "layer_idx" 0 = layer := by
  have count := runs.count
  have layers := runs.layers
  obtain ⟨logits, graph, meanings, built, sound, denotes, means⟩ :=
    buildTransformer_denotes runs.wellFormed runs.tokens runs.fits (by omega) (by omega)
  have same : dec.graph n = graph := by rw [Decoder.graph, built]
  rw [same]
  refine ⟨logits, meanings, by rw [output, built], sound, denotes, means, fun layer known => ?_⟩
  have count : (dec.config n).numLayers.toNat = dec.numLayers := Int.toNat_natCast _
  have attends := @attends_buildTransformer α (dec.config n) layer (by rwa [count]) {}
  unfold GraphBuilder.Yields at attends
  rwa [built] at attends

/-- The graph of a decoder compiles. -/
theorem Runs.compiles (runs : dec.Runs start n) :
    ∃ order, CpuExecutor.compile "cpu" (cpuKernels dec.ops) (dec.graph n) = .ok order ∧
      (dec.graph n).Ordered order := by
  obtain ⟨_, meanings, _, sound, denotes, _⟩ := runs.denotes
  obtain ⟨order, sorts, ordered⟩ := sound.sorts
  refine ⟨order, ?_, ordered⟩
  have fine : order.findSome? (CpuExecutor.uncompiled "cpu" (cpuKernels dec.ops) (dec.graph n)) =
      none := by
    rw [List.findSome?_eq_none_iff]
    intro nid member
    have known := List.mem_range.mp (ordered.perm.mem_iff.mp member)
    have op := (denotes.law _ (List.getElem_mem known)).op
    simp only [CpuExecutor.uncompiled, Graph.node, List.getElem?_eq_getElem known]
    generalize ((dec.graph n).nodes[nid]).opType = executed at op ⊢
    simp only [List.mem_cons, List.not_mem_nil, or_false] at op
    rcases op with rfl | rfl | rfl | rfl | rfl | rfl | rfl | rfl
    all_goals rfl
  have valid : (dec.graph n).validate.isOk = true := by
    rw [sound.validate]
    rfl
  simp only [CpuExecutor.compile, valid, sorts, fine]
  rfl

omit [Field α] [LinearOrder α] in
theorem shape_eq {a b : Shape} (same : a.dims = b.dims) : a = b := by
  cases a
  cases b
  cases same
  rfl

omit [LinearOrder α] in
theorem loaded_iff {meanings : List (Meaning α)} (denotes : Denotes dec n (dec.graph n) meanings) :
    dec.Loaded start n ctx ↔ ∀ (id : Nat) (meaning : Meaning α), meanings[id]? = some meaning →
      Ready dec start n ctx id meaning := by
  constructor
  · intro loaded id meaning known
    obtain ⟨value, found, shape, describes⟩ := denotes.value id meaning known
    have held := loaded id value found
    cases meaning with
    | tokens =>
        obtain ⟨unbound, tensor, binds, allocated, same, data⟩ := (if_pos describes.1).mp held
        exact ⟨unbound, tensor, binds, allocated, by rw [same, shape]; rfl, data⟩
    | weight name dims =>
        rw [if_neg (by rw [describes.1]; decide)] at held
        obtain ⟨tensor, binds, allocated, same, data⟩ := held
        exact ⟨tensor, binds, allocated, by rw [same, shape]; rfl, by rw [data describes.1, describes.2]⟩
    | rows width s =>
        rw [if_neg (by rcases describes with is | is <;> rw [is] <;> decide)] at held
        obtain ⟨tensor, binds, allocated, same, _⟩ := held
        exact ⟨tensor, binds, allocated, by rw [same, shape]; rfl⟩
  · intro ready id value found
    have inside : id < meanings.length := by
      rw [denotes.length]
      exact (List.getElem?_eq_some_iff.mp found).1
    obtain ⟨meaning, known⟩ : ∃ meaning, meanings[id]? = some meaning :=
      ⟨_, List.getElem?_eq_getElem inside⟩
    obtain ⟨other, foundOther, shape, describes⟩ := denotes.value id meaning known
    obtain rfl := Option.some.inj (found.symm.trans foundOther)
    have held := ready id meaning known
    cases meaning with
    | tokens =>
        obtain ⟨unbound, tensor, binds, allocated, dims, data⟩ := held
        rw [if_pos describes.1]
        exact ⟨unbound, tensor, binds, allocated, shape_eq (dims.trans shape.symm), data⟩
    | weight name dims =>
        obtain ⟨tensor, binds, allocated, same, data⟩ := held
        rw [if_neg (by rw [describes.1]; decide)]
        exact ⟨tensor, binds, allocated, shape_eq (same.trans shape.symm),
          fun _ => by rw [data, describes.2]⟩
    | rows width s =>
        obtain ⟨tensor, binds, allocated, dims⟩ := held
        rw [if_neg (by rcases describes with is | is <;> rw [is] <;> decide)]
        exact ⟨tensor, binds, allocated, shape_eq (dims.trans shape.symm),
          fun is => by rcases describes with other | other <;> rw [is] at other <;> cases other⟩

section Served

variable {held : List Int → RuntimeContext α → Prop} {fails : RuntimeContext α → Prop}

/-- The nodes of a run: the logits are computed, every layer has been served, and the
context is still loaded. -/
theorem Runs.nodes (runs : dec.Runs start n) (serves : Serves dec start n held fails)
    (loaded : dec.Loaded start n ctx) (begun : held [] ctx.toRuntimeContext) :
    ∃ order, CpuExecutor.compile "cpu" (cpuKernels dec.ops) (dec.graph n) = .ok order ∧
      Ends
        (fun after => dec.Answers start n after ∧ dec.Loaded start n after ∧
          ∃ layers, (∀ layer < dec.numLayers, (layer : Int) ∈ layers) ∧
            held layers after.toRuntimeContext)
        (fun _ after => fails after.toRuntimeContext)
        (CpuExecutor.runNodes (cpuKernels dec.ops) (dec.graph n) order ctx) := by
  obtain ⟨logits, meanings, returned, _, denotes, means, attended⟩ := runs.denotes
  obtain ⟨order, compiled, ordered⟩ := runs.compiles
  have start : Progress dec start n (dec.graph n) meanings held [] ctx :=
    ⟨begun, (loaded_iff denotes).mp loaded, fun _ member => nomatch member⟩
  refine ⟨order, compiled, (start.run runs.wellFormed runs.tokens runs.fits runs.last runs.layers
    runs.inside serves denotes ordered).mono (fun after progress => ?_) fun _ _ fails => fails⟩
  obtain ⟨tensor, binds, chunk⟩ := progress.holds denotes ordered means
  refine ⟨⟨tensor, by rw [logitsTensor, returned]; exact binds, chunk.data⟩,
    (loaded_iff denotes).mpr progress.ready, _, fun layer known => ?_, progress.stored⟩
  obtain ⟨node, member, op, layerIdx⟩ := attended layer known
  obtain ⟨nid, place⟩ := List.getElem?_of_mem member
  refine List.mem_filterMap.mpr ⟨nid, ordered.perm.mem_iff.mpr (List.mem_range.mpr
    (List.getElem?_eq_some_iff.mp place).1), ?_⟩
  rw [nodeLayer_attention (by simp [Graph.node, place]) op, layerIdx,
    wrap32_count (fits_int (known.trans runs.layers))]

end Served

section Indices

/-- The `int`s of a token decoded on a contiguous cache of `length` rows. -/
structure CacheFits (dec : Decoder α) (length : Nat) : Prop where
  rows : RowsFit length (dec.nkv * dec.hd)
  tiles : length + kvTile ≤ 2147483648

omit [Field α] [LinearOrder α] in
theorem CacheFits.mono {length shorter : Nat} (fits : dec.CacheFits length)
    (less : shorter ≤ length) : dec.CacheFits shorter :=
  ⟨fits.rows.mono less le_rfl, by have := fits.tiles; omega⟩

omit [Field α] [LinearOrder α] in
theorem CacheFits.reading {length : Nat} (fits : dec.CacheFits length) (tokens : Nat → Int) :
    (dec.reading tokens).CacheFits length := ⟨fits.rows, fits.tiles⟩

omit [Field α] [LinearOrder α] in
theorem Fits.cache (fits : dec.Fits n) : dec.CacheFits n :=
  ⟨RowsFit.of_total (fits_int (fits.row (by simp [widths]))), fits.tiles⟩

omit [Field α] [LinearOrder α] in
theorem Fits.head (fits : dec.Fits n) (tokens : 0 < n) (wf : dec.WellFormed) :
    VectorsFit dec.ops.simdWidth dec.hd := by
  obtain ⟨_, _, _, _, heads, _, _⟩ := wf.positive
  have wide := fits.rows (dec.nh * dec.hd) (by simp [widths])
  have row := Nat.le_mul_of_pos_left (dec.nh * dec.hd) tokens
  have head := Nat.le_mul_of_pos_left dec.hd heads
  exact VectorsFit.of_total (fits_int (by omega))

omit [Field α] [LinearOrder α] in
/-- Attention over the tokens of a run. -/
theorem Fits.stream (fits : dec.Fits n) (tokens : 0 < n) (wf : dec.WellFormed) :
    StreamFits dec.ops.simdWidth dec.nh dec.hd n := by
  obtain ⟨_, _, _, _, heads, _, _⟩ := wf.positive
  have total := fits.row (show dec.nh * dec.hd ∈ dec.widths by simp [widths])
  have row := Nat.le_mul_of_pos_left (dec.nh * dec.hd) tokens
  have turned : dec.nh * (n * dec.hd) = n * (dec.nh * dec.hd) := Nat.mul_left_comm _ _ _
  have oneHead : n * dec.hd ≤ n * (dec.nh * dec.hd) :=
    Nat.mul_le_mul_left n (Nat.le_mul_of_pos_left dec.hd heads)
  have rows : RowsFit dec.nh (n * dec.hd) := RowsFit.of_total (fits_int (by omega))
  refine ⟨fits_int (by omega), (fits_int total).trans (Nat.le_succ _),
    ⟨fits_int (by omega), fits_int (by omega), rows, rows⟩, fun _ _ _ =>
      ⟨fits_int ?_, fits.head tokens wf⟩⟩
  have := fits.tiles
  simp only [tilesSeen, kvTile, if_true] at this ⊢
  omega

omit [Field α] [LinearOrder α] in
/-- A decoded token behind `start` others. -/
theorem CacheFits.decode (indices : dec.CacheFits (start + n)) (fits : dec.Fits n) (tokens : 0 < n)
    (wf : dec.WellFormed) : FlashDecodeFits dec.ops.simdWidth dec.nh dec.nkv dec.hd (start + 1) := by
  obtain ⟨_, _, _, _, heads, kvHeads, _⟩ := wf.positive
  have shorter := indices.mono (show start + 1 ≤ start + n by omega)
  have wide := fits.width_lt tokens (show dec.nh * dec.hd ∈ dec.widths by simp [widths])
  have kvWide := fits.width_lt tokens (show dec.nkv * dec.hd ∈ dec.widths by simp [widths])
  refine ⟨⟨kvHeads, fits_int kvWide, fun _ => ⟨Nat.le_of_dvd heads wf.grouped,
    RowsFit.of_total (fits_int wide), shorter.rows, fun _ => fits.head tokens wf⟩⟩, fun _ =>
      fits_int ?_⟩
  have := shorter.tiles
  simp only [kvTile] at this ⊢
  omega

omit [Field α] [LinearOrder α] in
theorem Runs.layer (runs : dec.Runs start n) {layer : Nat} (known : layer < dec.numLayers) :
    IsInt layer := by
  have := runs.layers
  exact ⟨by omega, by omega⟩

end Indices

section Modes

variable [IsStrictOrderedRing α] (law : ExpLaw dec.ops.exp)

/-- A context without a cache. -/
structure Uncached (ctx : RuntimeContext α) : Prop where
  noPaged : ctx.pagedKvCache = none
  noCache : ctx.kvCache = none
  idle : ctx.kvCacheAdvanceTokens ≤ 0

/-- The first `len` rows of a layer. -/
def HoldsRows (dec : Decoder α) (cache : KVCache α) (layer len : Nat) : Prop :=
  ∀ row < len, ∀ c < dec.nkv * dec.hd,
    (cache.layer layer).k (row * (dec.nkv * dec.hd) + c) = dec.layerKeys layer row c ∧
      (cache.layer layer).v (row * (dec.nkv * dec.hd) + c) = dec.layerValues layer row c

/-- The cache holds the rows of the first `len` positions in every layer. -/
structure Cached (dec : Decoder α) (cache : KVCache α) (len : Nat) : Prop where
  layers : dec.numLayers ≤ cache.numLayers
  length : cache.cachedLen = len
  int : cache.maxSeqLen < 2147483648
  rows : ∀ layer < dec.numLayers, dec.HoldsRows cache layer len

/-- The cache in the middle of a run: the layers that have run hold the run's rows too. -/
structure Filling (dec : Decoder α) (start n : Nat) (capacity : Int) (layers : List Int)
    (ctx : RuntimeContext α) (cache : KVCache α) : Prop where
  noPaged : ctx.pagedKvCache = none
  attached : ctx.kvCache = some cache
  advance : ctx.kvCacheAdvanceTokens = n
  cached : dec.Cached cache start
  capacity : cache.maxSeqLen = capacity
  rows : ∀ layer < dec.numLayers, (layer : Int) ∈ layers → dec.HoldsRows cache layer (start + n)

omit [LinearOrder α] [IsStrictOrderedRing α] in
/-- A new cache holds no row yet. -/
theorem init_cached (wf : dec.WellFormed) {capacity : Nat} (some : 0 < capacity) (int : capacity < 2147483648) :
    dec.Cached (KVCache.init {} dec.numLayers dec.nkv dec.hd capacity) 0 ∧
      (KVCache.init {} dec.numLayers dec.nkv dec.hd capacity : KVCache α).maxSeqLen = capacity := by
  obtain ⟨_, _, _, numLayers, _, nkv, hd⟩ := wf.positive
  have init : KVCache.init {} dec.numLayers dec.nkv dec.hd capacity =
      ({ layers := List.replicate dec.numLayers KVCache.zeroLayer, numKvHeads := dec.nkv,
         headDim := dec.hd, maxSeqLen := capacity, cachedLen := 0 } : KVCache α) := by
    unfold KVCache.init
    rw [if_neg (by omega), Int.toNat_natCast]
  rw [init]
  refine ⟨⟨?_, rfl, ?_, fun _ _ row below => absurd below (Nat.not_lt_zero row)⟩, rfl⟩
  · simp [KVCache.numLayers]
  · change (capacity : Int) < 2147483648
    exact_mod_cast int

include law

theorem uncached_serves (runs : dec.Runs 0 n) :
    Serves dec 0 n (fun _ => Uncached) (fun _ => False) where
  offset _ ctx uncached := by
    simp [posOffset, pagedCache, uncached.noPaged, uncached.noCache]
  rebind _ _ _ uncached := ⟨uncached.noPaged, uncached.noCache, uncached.idle⟩
  attends layers ctx node layer s q k v output uncached attention known feeds := by
    obtain ⟨data, kernel, rows⟩ := kernelAttention_noCache law attention feeds (runs.layer known)
      (runs.fits.stream runs.tokens runs.wellFormed) uncached.noPaged uncached.noCache
    rw [kernel]
    exact ⟨ctx, data, rfl, rfl, uncached, rows⟩

/-- One attention node on the contiguous cache. -/
theorem Filling.attends (runs : dec.Runs start n) (indices : dec.CacheFits (start + n))
    {capacity : Int} (room : (start + n : Int) ≤ capacity) (single : start = 0 ∨ n = 1) {layers : List Int} {ctx : RuntimeContext α} {cache : KVCache α}
    (filling : dec.Filling start n capacity layers ctx cache) {node : Node α} {layer : Nat}
    {s : RowStream α} {q k v output : Tensor α}
    (attention : AttentionNode node dec.nh dec.nkv dec.hd layer true)
    (known : layer < dec.numLayers)
    (feeds : Feeds ctx.bindings node dec.nh dec.nkv dec.hd s (dec.layerKeys layer)
      (dec.layerValues layer) start n q k v output) :
    ∃ data after, kernelAttention dec.ops node ctx =
        (none, { ctx with kvCache := some after }.writeData (node.outputs.getD 0 0) data) ∧
      WritesRows dec.ops dec.nh dec.nkv dec.hd s (dec.layerKeys layer) (dec.layerValues layer)
        start n data ∧
      dec.Filling start n capacity (layers ++ [(layer : Int)])
        { ctx with kvCache := some after } after := by
  have tokens := runs.tokens
  have length := filling.cached.length
  have high := filling.cached.layers
  have capacityEq := filling.capacity
  have caches : Caches cache layer (dec.nkv * dec.hd) start (dec.layerKeys layer)
      (dec.layerValues layer) :=
    ⟨by omega, by omega, length, by omega, by omega, filling.cached.rows layer known⟩
  have stream := runs.fits.stream tokens runs.wellFormed
  have decode := indices.decode runs.fits tokens runs.wellFormed
  obtain ⟨data, after, kernel, written, sameLen, sameMax, sameLayers, rows⟩ :=
    kernelAttention_cached law attention feeds filling.noPaged filling.attached caches
      (runs.layer known) stream (fun _ => decode) tokens (by rw [capacityEq]; exact room) single
  -- The kernel has stored the chunk in its own layer.
  let args := chunkArgs dec.nh dec.nkv dec.hd layer true n q k v output
  have accepts : CacheAccepts args cache :=
    ⟨by change (0 : Int) < n; omega, ⟨by change (0 : Int) ≤ layer; omega,
      by change (layer : Int) < cache.numLayers; omega⟩, by omega,
      by change cache.cachedLen + (n : Int) ≤ cache.maxSeqLen; omega,
      by change cache.cachedLen = 0 ∨ (n : Int) = 1; omega⟩
  have ready : cache.initialized = true := by
    simp only [KVCache.initialized, decide_eq_true_eq]
    omega
  have path : kernelAttention dec.ops node ctx =
      cachedAttention dec.ops args (node.outputs.getD 0 0) cache ctx := by
    obtain ⟨heads, _, dims⟩ := attention.positive
    have accepted := attentionArgs_eq attention feeds (runs.layer known) stream.heads
      (stream.int heads dims).2.2
    have fits : AttentionFits dec.ops args (node.outputs.getD 0 0) ctx := by
      refine kernelAttention_success accepted ?_
      rw [kernel]
    rw [kernelAttention_fits accepted fits]
    simp only [attentionMode, pagedCache, filling.noPaged, filling.attached, Option.filter_none,
      Option.filter_some, ready, if_true]
    rfl
  have stored : after = storeChunk args cache := by
    have both := kernel.symm.trans (path.trans (cachedAttention_accepted rfl accepts _))
    exact Option.some.inj (congrArg (fun result => result.2.kvCache) both)
  have others : ∀ other : Nat, other ≠ layer → after.layer other = cache.layer other := by
    intro other apart
    rw [stored]
    exact storeChunk_other accepts.layer.1 (by omega)
      (by change (other : Int) ≠ (layer : Int); omega)
  refine ⟨data, after, kernel, written, filling.noPaged, rfl, filling.advance,
    ⟨by omega, by omega, by rw [sameMax]; exact filling.cached.int, fun other below row inside => ?_⟩,
    by rw [sameMax]; exact capacityEq, fun other below member => ?_⟩
  · by_cases same : other = layer
    · subst same
      exact fun c column => rows row (by omega) c column
    · rw [others other same]
      exact filling.cached.rows other below row inside
  · by_cases same : other = layer
    · subst same
      exact rows
    · have old : (other : Int) ∈ layers := by
        rcases List.mem_append.mp member with old | new
        · exact old
        · have := List.mem_singleton.mp new
          omega
      unfold HoldsRows
      rw [others other same]
      exact filling.rows other below old

theorem cached_serves (runs : dec.Runs start n) (indices : dec.CacheFits (start + n))
    {capacity : Int} (room : (start + n : Int) ≤ capacity) (single : start = 0 ∨ n = 1) :
    Serves dec start n
      (fun layers ctx => ∃ cache, dec.Filling start n capacity layers ctx cache) (fun _ => False) where
  offset _ ctx := by
    rintro ⟨cache, filling⟩
    have tokens := runs.tokens
    have length := filling.cached.length
    simp only [posOffset, pagedCache, filling.noPaged, filling.attached, Option.filter_none]
    have capacityEq := filling.capacity
    have ready : cache.initialized = true := by
      simp only [KVCache.initialized, decide_eq_true_eq]
      omega
    rcases single with rfl | rfl
    · rw [if_neg (by omega)]
      rfl
    · by_cases later : 0 < start
      · rw [if_pos ⟨ready, by omega, rfl⟩, length]
      · rw [if_neg (by omega)]
        omega
  rebind _ _ _ := by
    rintro ⟨cache, filling⟩
    exact ⟨cache, filling.noPaged, filling.attached, filling.advance, filling.cached,
      filling.capacity, filling.rows⟩
  attends layers ctx node layer s q k v output := by
    rintro ⟨cache, filling⟩ attention known feeds
    obtain ⟨data, after, kernel, rows, filled⟩ :=
      filling.attends law runs indices room single attention known feeds
    rw [kernel]
    exact ⟨_, data, rfl, rfl, ⟨after, filled⟩, rows⟩

end Modes

section Runs

variable [IsStrictOrderedRing α] (law : ExpLaw dec.ops.exp)
include law

omit law [Field α] [IsStrictOrderedRing α] [LinearOrder α] in
/-- The end of a run changes the caches only. -/
theorem Answers.rebind [Field α] {after : ModelContext α} (answers : dec.Answers start n ctx)
    (same : after.bindings = ctx.bindings) : dec.Answers start n after := by
  obtain ⟨tensor, binds, rows⟩ := answers
  exact ⟨tensor, by rwa [logitsTensor, same], rows⟩

omit law [Field α] [IsStrictOrderedRing α] [LinearOrder α] in
theorem Loaded.rebind [Field α] {after : ModelContext α} (loaded : dec.Loaded start n ctx)
    (same : after.bindings = ctx.bindings) (tokens : after.tokens = ctx.tokens) :
    dec.Loaded start n after := by
  intro id value found
  rw [same, tokens]
  exact loaded id value found

/-- A run without a cache computes the logits of all its positions. -/
theorem Runs.uncached (runs : dec.Runs 0 n) (loaded : dec.Loaded 0 n ctx)
    (uncached : Uncached ctx.toRuntimeContext) :
    (dec.run n ctx).1 = none ∧ dec.Answers 0 n (dec.run n ctx).2 ∧
      dec.Loaded 0 n (dec.run n ctx).2 := by
  obtain ⟨order, compiled, ended⟩ := runs.nodes (uncached_serves law runs) loaded uncached
  unfold run
  rw [compiled]
  simp only [CpuExecutor.run]
  generalize CpuExecutor.runNodes (cpuKernels dec.ops) (dec.graph n) order ctx = result at ended ⊢
  obtain ⟨_ | failure, after⟩ := result
  · obtain ⟨answers, stillLoaded, _, _, idle⟩ := ended
    have advance : ModelContext.advanceKvCacheStep after =
        (.makeOk, { after with toRuntimeContext := after.resetPagedKvWritePos }) := by
      simp only [ModelContext.advanceKvCacheStep, ModelContext.onFloats,
        RuntimeContext.advanceKvCacheStep_idle _ idle.idle]
    simp only [advance]
    exact ⟨rfl, answers.rebind rfl, stillLoaded.rebind rfl rfl⟩
  · exact ended.elim

/-- A run on the next `n` positions computes their logits and leaves their rows in the
cache behind those it held. -/
theorem Runs.cached (runs : dec.Runs start n) (indices : dec.CacheFits (start + n))
    (loaded : dec.Loaded start n ctx) (noPaged : ctx.pagedKvCache = none) {cache : KVCache α}
    (attached : ctx.kvCache = some cache) (cached : dec.Cached cache start) (advance : ctx.kvCacheAdvanceTokens = n)
    (room : (start + n : Int) ≤ cache.maxSeqLen) (single : start = 0 ∨ n = 1) :
    (dec.run n ctx).1 = none ∧ dec.Answers start n (dec.run n ctx).2 ∧
      dec.Loaded start n (dec.run n ctx).2 ∧ (dec.run n ctx).2.pagedKvCache = none ∧
      (dec.run n ctx).2.kvCacheAdvanceTokens = n ∧
      ∃ after, (dec.run n ctx).2.kvCache = some after ∧ dec.Cached after (start + n) ∧
        after.maxSeqLen = cache.maxSeqLen := by
  have tokens := runs.tokens
  obtain ⟨order, compiled, ended⟩ := runs.nodes (cached_serves law runs indices room single) loaded
    ⟨cache, noPaged, attached, advance, cached, rfl, fun _ _ member => nomatch member⟩
  unfold run
  rw [compiled]
  simp only [CpuExecutor.run]
  generalize CpuExecutor.runNodes (cpuKernels dec.ops) (dec.graph n) order ctx = result at ended ⊢
  obtain ⟨_ | failure, after⟩ := result
  · obtain ⟨answers, stillLoaded, layers, served, filled, filling⟩ := ended
    have length := filling.cached.length
    have capacity := filling.capacity
    have int := filling.cached.int
    have ready : filled.initialized = true := by
      simp only [KVCache.initialized, decide_eq_true_eq]
      omega
    have appends : filled.canAppend after.kvCacheAdvanceTokens = true := by
      rw [filling.advance, canAppend_iff]
      omega
    have step : ModelContext.advanceKvCacheStep after = (.makeOk,
        { after with
          toRuntimeContext := ({ after.toRuntimeContext with
            kvCache := some (filled.advance n) } : RuntimeContext α).resetPagedKvWritePos }) := by
      have advanced := after.advanceKvCacheStep_appends (by rw [filling.advance]; omega)
        filling.attached ready appends
      simp only [ModelContext.advanceKvCacheStep, ModelContext.onFloats, advanced, filling.advance]
    have advanced : (filled.advance n).cachedLen = (start + n : Nat) := by
      rw [filled.advance_cachedLen n (by omega) (by omega) (by omega) (by omega), length]
      rfl
    simp only [step]
    refine ⟨rfl, answers.rebind rfl, stillLoaded.rebind rfl rfl, filling.noPaged, filling.advance,
      filled.advance n, rfl, ⟨filling.cached.layers, advanced, int, fun layer known => ?_⟩, capacity⟩
    exact filling.rows layer known (served layer known)
  · exact ended.elim

end Runs

end Decoder

end MiniLLM
