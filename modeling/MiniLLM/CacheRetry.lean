import MiniLLM.CachedRows
import MiniLLM.PagedStreams

/-!
Failed runs on the contiguous cache. A run writes its rows behind those that count and
advances the cache last, so a run that fails leaves the rows that count; a later run
writes its own rows over what the failed one left.
-/

namespace MiniLLM.CpuKernelAdapter

open Loops Strides

variable {α : Type} [Field α]

section Runs

variable [LinearOrder α]

/-- The caller binds the tensors of a run and has it advance the cache by its tokens. -/
def feed (ctx : RuntimeContext α) (run : PagedRun α) : RuntimeContext α :=
  { enter ctx run with kvCacheAdvanceTokens := run.tokens }

/-- One run on the contiguous cache of the context. -/
def cachedRun (ops : FloatOps α) (other : KernelRegistry α (RuntimeContext α)) (graph : Graph α)
    (order : List Nat) (ctx : RuntimeContext α) (run : PagedRun α) :
    Option Failure × RuntimeContext α :=
  CpuExecutor.run (cpuRegistry ops other) RuntimeContext.advanceKvCacheStep graph order
    (feed ctx run)

/-- The context after a run, whether it succeeded or not. -/
def cachedStep (ops : FloatOps α) (other : KernelRegistry α (RuntimeContext α)) (graph : Graph α)
    (order : List Nat) (ctx : RuntimeContext α) (run : PagedRun α) : RuntimeContext α :=
  (cachedRun ops other graph order ctx run).2

/-- What a run relies on in the other kernels: they read and write tensors only. -/
structure OnlyTensors (other : KernelRegistry α (RuntimeContext α)) : Prop where
  onlyData : OnlyData other
  reads : ∀ op kernel, other op = some kernel → ∀ node ctx twin,
    twin.bindings = ctx.bindings → (kernel node twin).1 = (kernel node ctx).1 ∧
      (kernel node twin).2.bindings = (kernel node ctx).2.bindings

/-- The indices of a run are `int`s: those of attention and RoPE told from what is bound
before it, those of the other kernels on whatever tensors of the same shapes. -/
def CachedInts (ops : FloatOps α) (other : KernelRegistry α (RuntimeContext α)) (graph : Graph α)
    (order : List Nat) (ctx : RuntimeContext α) : Prop :=
  ∀ nid ∈ order, ∀ node, graph.node nid = .ok node →
    (node.opType = .attention → ∀ args, attentionArgs node ctx = .ok args →
      args.nh * args.hd ≤ intMax ∧ ∀ cache, ctx.kvCache = some cache →
        args.batch = 1 → CacheAccepts args cache → CachedFits ops.simdWidth args cache.cachedLen) ∧
    (node.opType = .roPE → ∀ args, ropeArgs node ctx = .ok args →
      RopeFits ops.simdWidth args (posOffset ctx args.seqLen)) ∧
    (node.opType ≠ .attention → node.opType ≠ .roPE → ∀ kernel, other node.opType = some kernel →
      ∀ mid, SameForms ctx.bindings mid.bindings → (kernel node mid).1 ≠ some .undefined)

/-- A context that works on a contiguous cache. -/
structure CacheMode (ctx : RuntimeContext α) (cache : KVCache α) : Prop extends cache.Bounded where
  attached : ctx.kvCache = some cache
  ready : cache.initialized = true
  noPaged : pagedCache ctx = none

section Modes

variable {ctx : RuntimeContext α} {cache : KVCache α} (mode : CacheMode ctx cache)
include mode

omit [Field α] [LinearOrder α] in
theorem CacheMode.filter : ctx.kvCache.filter KVCache.initialized = some cache := by
  rw [mode.attached, Option.filter_some, if_pos mode.ready]

omit [Field α] [LinearOrder α] in
theorem CacheMode.offset (seqLen : Int) :
    posOffset ctx seqLen = if 0 < cache.cachedLen ∧ seqLen = 1 then cache.cachedLen else 0 := by
  simp only [posOffset, mode.noPaged, mode.attached, mode.ready, true_and, gt_iff_lt]

/-- The kernel takes the contiguous path. -/
theorem CacheMode.attention (ops : FloatOps α) {node : Node α} {args : AttentionArgs α}
    (accepted : attentionArgs node ctx = .ok args) :
    kernelAttention ops node ctx =
      if args.nh * args.hd ≤ intMax ∧
          ((cachedAttention ops args (node.outputs.getD 0 0) cache ctx).1 = none →
            CachedFits ops.simdWidth args cache.cachedLen) then
        cachedAttention ops args (node.outputs.getD 0 0) cache ctx
      else (some .undefined, ctx) := by
  have fits : AttentionFits ops args (node.outputs.getD 0 0) ctx ↔ args.nh * args.hd ≤ intMax ∧
      ((cachedAttention ops args (node.outputs.getD 0 0) cache ctx).1 = none →
        CachedFits ops.simdWidth args cache.cachedLen) := by
    simp only [AttentionFits, ModeFits, mode.noPaged, mode.filter]
  by_cases inside : AttentionFits ops args (node.outputs.getD 0 0) ctx
  · rw [kernelAttention_fits accepted inside, if_pos (fits.mp inside)]
    simp only [attentionMode, mode.noPaged, mode.filter]
  · rw [kernelAttention_undefined accepted inside, if_neg (mt fits.mpr inside)]

end Modes

omit [Field α] [LinearOrder α] in
theorem getTensor_congr {ctx twin : RuntimeContext α} (same : twin.bindings = ctx.bindings)
    (id : Nat) (role : String) : getTensor twin id role = getTensor ctx id role := by
  rw [getTensor, getTensor, RuntimeContext.get, RuntimeContext.get, same]

omit [Field α] [LinearOrder α] in
theorem attentionArgs_congr (node : Node α) {ctx twin : RuntimeContext α}
    (same : twin.bindings = ctx.bindings) : attentionArgs node twin = attentionArgs node ctx := by
  simp only [attentionArgs, getTensor_congr same]

omit [LinearOrder α] in
theorem ropeArgs_congr (node : Node α) {ctx twin : RuntimeContext α}
    (same : twin.bindings = ctx.bindings) : ropeArgs node twin = ropeArgs node ctx := by
  simp only [ropeArgs, getTensor_congr same]

omit [Field α] [LinearOrder α] in
theorem writeData_bindings {ctx twin : RuntimeContext α} (same : twin.bindings = ctx.bindings)
    (id : Nat) (data : Buffer α) :
    (twin.writeData id data).bindings = (ctx.writeData id data).bindings := by
  simp only [RuntimeContext.writeData, same]

/-- What the nodes of a run leave: the rows that count, and the shapes of the tensors. -/
structure Keeps (width : Nat) (ctx : RuntimeContext α) (cache : KVCache α)
    (mid : RuntimeContext α) : Prop where
  forms : SameForms ctx.bindings mid.bindings
  tokens : mid.kvCacheAdvanceTokens = ctx.kvCacheAdvanceTokens
  mode : ∃ after, CacheMode mid after ∧ cache.Agrees width cache.counted after

variable (ops : FloatOps α) {other : KernelRegistry α (RuntimeContext α)} {graph : Graph α}
  {order : List Nat} {nkv hd : Nat} {ctx mid : RuntimeContext α} {cache : KVCache α}

omit [LinearOrder α] in
theorem CacheMode.keeps (mode : CacheMode ctx cache) (width : Nat) : Keeps width ctx cache ctx :=
  ⟨SameForms.refl _, rfl, cache, mode, KVCache.Agrees.refl _ _ _⟩

omit [LinearOrder α] in
theorem Keeps.onlyData {width : Nat} (keeps : Keeps width ctx cache mid)
    {bindings : Nat → Option (Tensor α)} (forms : SameForms mid.bindings bindings) :
    Keeps width ctx cache { mid with bindings := bindings } := by
  obtain ⟨before, tokens, after, mode, agrees⟩ := keeps
  exact ⟨before.trans forms, tokens, after,
    ⟨mode.toBounded, mode.attached, mode.ready, mode.noPaged⟩, agrees⟩

omit [Field α] [LinearOrder α] in
/-- The cache once an accepted chunk is stored. -/
theorem CacheMode.store {args : AttentionArgs α} (mode : CacheMode ctx cache) (output : Nat)
    (data : Buffer α) :
    CacheMode ({ ctx with kvCache := some (storeChunk args cache) }.writeData output data)
      (storeChunk args cache) :=
  ⟨⟨mode.low, mode.fits, mode.int⟩, rfl, mode.ready, mode.noPaged⟩

theorem Keeps.attention (node : Node α) (keeps : Keeps (nkv * hd) ctx cache mid)
    (geometry : ∀ args, attentionArgs node mid = .ok args → args.nh * args.hd ≤ intMax →
      Geometry args args.nh.toNat nkv hd) :
    Keeps (nkv * hd) ctx cache (kernelAttention ops node mid).2 := by
  cases accepted : attentionArgs node mid with
  | error failure => simpa only [kernelAttention, accepted] using keeps
  | ok args =>
      obtain ⟨forms, tokens, after, mode, agrees⟩ := keeps
      rw [mode.attention ops accepted]
      split
      · next inside =>
          have ends := cachedAttention_ends ops args after mid (node.outputs.getD 0 0)
          rcases ends with ⟨batch, accepts⟩ | ⟨st, refused⟩
          · rw [cachedAttention_accepted batch accepts]
            have hidden := (geometry args accepted inside.1).kvHidden
            refine ⟨forms.trans (writeData_forms _ _ _), tokens, storeChunk args after, mode.store _ _,
              agrees.trans ?_⟩
            have kept := storeChunk_keeps accepts hidden
            rwa [agrees.counted] at kept
          · rw [refused]
            exact ⟨forms, tokens, after, mode, agrees⟩
      · exact ⟨forms, tokens, after, mode, agrees⟩

theorem Keeps.node (tensors : OnlyTensors other) (layered : Layered graph order nkv hd) {nid : Nat}
    (member : nid ∈ order) (keeps : Keeps (nkv * hd) ctx cache mid) :
    Keeps (nkv * hd) ctx cache (CpuExecutor.runNode (cpuRegistry ops other) graph nid mid).2 := by
  rcases CpuExecutor.runNode_cases (cpuRegistry ops other) graph nid mid with
    ⟨same, _⟩ | ⟨node, kernel, found, registered, same, _⟩
  · rw [same]
    exact keeps
  · rw [same]
    by_cases op : node.opType = .attention
    · rw [op] at registered
      obtain rfl := Option.some.inj registered
      exact keeps.attention ops node fun args accepted row => layered.geometry member found op accepted row
    · obtain ⟨frame, forms⟩ := kernel_onlyData ops tensors.onlyData registered op mid
      rw [frame]
      exact keeps.onlyData forms

theorem Keeps.nodes (tensors : OnlyTensors other) (layered : Layered graph order nkv hd)
    (keeps : Keeps (nkv * hd) ctx cache mid) :
    Keeps (nkv * hd) ctx cache (CpuExecutor.runNodes (cpuRegistry ops other) graph order mid).2 :=
  tryList_preserves (Keeps (nkv * hd) ctx cache) _ order mid keeps
    fun _ member _ held => held.node ops tensors layered member

/-- Two contexts with the same tensors, on caches with the same rows. -/
structure Twins (width : Nat) (len : Int → Nat) (ctx twin : RuntimeContext α) (a b : KVCache α) :
    Prop where
  mode : CacheMode ctx a
  twinMode : CacheMode twin b
  bindings : twin.bindings = ctx.bindings
  tokens : twin.kvCacheAdvanceTokens = ctx.kvCacheAdvanceTokens
  agrees : a.Agrees width len b

/-- The rows of layer `l` once the nodes `done` have run. -/
def filled (graph : Graph α) (start tokens : Nat) (done : List Nat) (l : Int) : Nat :=
  if l ∈ layersOf graph done then start + tokens else start

/-- How the executor passes on the failure of a kernel. -/
def reported (nid : Nat) (node : Node α) : Failure → Failure
  | .returned st => .returned (CpuExecutor.kernelFailed nid node st)
  | failure => failure

omit [Field α] [LinearOrder α] in
/-- A node does the same in every context: it ends by itself, or its kernel runs. -/
theorem runNode_eq (registry : KernelRegistry α (RuntimeContext α)) (graph : Graph α) (nid : Nat) :
    (∃ err, err ≠ some .undefined ∧
        (∀ ctx, CpuExecutor.runNode registry graph nid ctx = (err, ctx)) ∧
        ∀ node, graph.node nid = .ok node → (registry node.opType).isSome →
          node.opType = .input ∨ node.opType = .constant ∨ node.opType = .output) ∨
      ∃ node kernel, graph.node nid = .ok node ∧ registry node.opType = some kernel ∧
        ∀ ctx, CpuExecutor.runNode registry graph nid ctx =
          ((kernel node ctx).1.map (reported nid node), (kernel node ctx).2) := by
  unfold CpuExecutor.runNode
  cases found : graph.node nid with
  | error st => exact Or.inl ⟨_, by simp, fun _ => rfl, fun node no => by cases no⟩
  | ok node =>
      dsimp only
      by_cases source : node.opType = .input ∨ node.opType = .constant
      · refine Or.inl ⟨none, by simp, fun _ => if_pos source, fun other same _ => ?_⟩
        obtain rfl := Except.ok.inj same
        tauto
      by_cases sink : node.opType = .output
      · refine Or.inl ⟨none, by simp, fun _ => by rw [if_neg source, if_pos sink],
          fun other same _ => ?_⟩
        obtain rfl := Except.ok.inj same
        tauto
      unfold KernelRegistry.find
      cases registered : registry node.opType with
      | none =>
          refine Or.inl ⟨some (.returned (.notImplemented
              ("no kernel registered for op " ++ node.opType.name))), by simp,
            fun _ => by rw [if_neg source, if_neg sink], fun other same some => ?_⟩
          obtain rfl := Except.ok.inj same
          simp [registered] at some
      | some kernel =>
          refine Or.inr ⟨node, kernel, rfl, registered, fun ctx => ?_⟩
          rw [if_neg source, if_neg sink]
          dsimp only
          generalize kernel node ctx = result
          obtain ⟨err, after⟩ := result
          cases err with
          | none => rfl
          | some failure => cases failure <;> rfl

section Nodes

variable {len : Int → Nat} {twin : RuntimeContext α} {a b : KVCache α} (node : Node α)

omit [LinearOrder α] in
theorem Twins.offset {width : Nat} (twins : Twins width len ctx twin a b) (seqLen : Int) :
    posOffset twin seqLen = posOffset ctx seqLen := by
  rw [twins.mode.offset, twins.twinMode.offset, twins.agrees.cachedLen]

omit [LinearOrder α] in
theorem Twins.rope {width : Nat} (twins : Twins width len ctx twin a b) :
    (kernelRope ops node twin).1 = (kernelRope ops node ctx).1 ∧
      (kernelRope ops node twin).2.bindings = (kernelRope ops node ctx).2.bindings := by
  simp only [kernelRope, ropeArgs_congr node twins.bindings, twins.offset]
  cases ropeArgs node ctx with
  | error failure => exact ⟨rfl, twins.bindings⟩
  | ok args =>
      dsimp only
      split
      · exact ⟨rfl, writeData_bindings twins.bindings _ _⟩
      · exact ⟨rfl, twins.bindings⟩

/-- Attention ends alike on twins, and stores and writes the same rows. -/
theorem Twins.attention (twins : Twins (nkv * hd) len ctx twin a b)
    (geometry : ∀ args, attentionArgs node ctx = .ok args → args.nh * args.hd ≤ intMax →
      Geometry args args.nh.toNat nkv hd)
    (holds : ∀ l, a.cachedLen.toNat ≤ len l) :
    (kernelAttention ops node twin).1 = (kernelAttention ops node ctx).1 ∧
      ((kernelAttention ops node ctx).1 = none → ∃ args a' b', attentionArgs node ctx = .ok args ∧
        Twins (nkv * hd)
          (fun l => if l = args.layerIdx then a.cachedLen.toNat + args.seqLen.toNat else len l)
          (kernelAttention ops node ctx).2 (kernelAttention ops node twin).2 a' b') := by
  obtain ⟨mode, twinMode, bindings, tokens, agrees⟩ := twins
  have arguments := attentionArgs_congr node bindings
  cases accepted : attentionArgs node ctx with
  | error failure =>
      rw [accepted] at arguments
      simp [kernelAttention, accepted, arguments]
  | ok args =>
      rw [accepted] at arguments
      rw [mode.attention ops accepted, twinMode.attention ops arguments, agrees.cachedLen,
        cachedAttention_outcome ops args a ctx (node.outputs.getD 0 0) twin agrees.numLayers
          agrees.maxSeqLen agrees.cachedLen]
      split
      · next inside =>
          refine ⟨cachedAttention_outcome ops args a ctx _ twin agrees.numLayers agrees.maxSeqLen
            agrees.cachedLen, fun fine => ?_⟩
          have ends := cachedAttention_ends ops args a ctx (node.outputs.getD 0 0)
          rcases ends with ⟨batch, accepts⟩ | ⟨st, refused⟩
          · have shape := geometry args accepted inside.1
            have twinAccepts : CacheAccepts args b := cacheAccepts_agrees accepts agrees rfl rfl
            have stored := storeChunk_agrees accepts shape.kvHidden agrees (holds _)
            refine ⟨args, storeChunk args a, storeChunk args b, rfl, ?_⟩
            rw [cachedAttention_accepted batch accepts, cachedAttention_accepted batch twinAccepts]
            refine ⟨mode.store _ _, twinMode.store _ _, ?_, tokens, stored⟩
            have rows := stored.rows args.layerIdx accepts.layer.1
              (by rw [storeChunk_numLayers]; exact accepts.layer.2)
            rw [if_pos rfl] at rows
            rw [agrees.cachedLen, attendStored_same ops shape ?_ rows]
            · exact writeData_bindings bindings _ _
            · exact accepts.decode.imp_left fun empty => by rw [empty]; rfl
          · rw [refused] at fine
            cases fine
      · exact ⟨rfl, fun no => by cases no⟩

omit [Field α] [LinearOrder α] in
theorem filled_idle {start tokens nid : Nat} {done : List Nat} (idle : nodeLayer graph nid = none) :
    filled graph start tokens (done ++ [nid]) = filled graph start tokens done := by
  funext l
  simp [filled, layersOf, List.filterMap_append, idle]

omit [Field α] [LinearOrder α] in
theorem filled_layer {start tokens nid : Nat} {done : List Nat} {layer : Int}
    (writes : nodeLayer graph nid = some layer) :
    filled graph start tokens (done ++ [nid]) =
      fun l => if l = layer then start + tokens else filled graph start tokens done l := by
  funext l
  simp only [filled, layersOf, List.filterMap_append, List.filterMap_cons, writes,
    List.filterMap_nil, List.mem_append, List.mem_singleton]
  by_cases here : l = layer
  · rw [if_pos here, if_pos (Or.inr here)]
  · simp only [here, or_false, if_false]
    congr

/-- A node of a run ends alike on twins and leaves twins. -/
theorem Twins.step (tensors : OnlyTensors other) (layered : Layered graph order nkv hd)
    {run : PagedRun α} (chunk : ChunkOf graph order run) {nid : Nat} (member : nid ∈ order)
    (keeps : Keeps (nkv * hd) (feed ctx run) cache mid) {done : List Nat}
    (twins : Twins (nkv * hd) (filled graph cache.cachedLen.toNat run.tokens done) mid twin a b) :
    (CpuExecutor.runNode (cpuRegistry ops other) graph nid mid).1 =
        (CpuExecutor.runNode (cpuRegistry ops other) graph nid twin).1 ∧
      ((CpuExecutor.runNode (cpuRegistry ops other) graph nid mid).1 = none → ∃ a' b',
        Twins (nkv * hd) (filled graph cache.cachedLen.toNat run.tokens (done ++ [nid]))
          (CpuExecutor.runNode (cpuRegistry ops other) graph nid mid).2
          (CpuExecutor.runNode (cpuRegistry ops other) graph nid twin).2 a' b') := by
  rcases runNode_eq (cpuRegistry ops other) graph nid with
    ⟨err, _, ends, idle⟩ | ⟨node, kernel, found, registered, runs⟩
  · have noLayer : nodeLayer graph nid = none := nodeLayer_other fun node found op => by
      have source := idle node found (by rw [op]; rfl)
      rw [op] at source
      simp at source
    rw [ends mid, ends twin, filled_idle noLayer]
    exact ⟨rfl, fun _ => ⟨a, b, twins⟩⟩
  · rw [runs mid, runs twin]
    by_cases attention : node.opType = .attention
    · rw [attention] at registered
      obtain rfl := Option.some.inj registered
      obtain ⟨forms, _, after, mode, same⟩ := keeps
      obtain rfl := Option.some.inj (twins.mode.attached.symm.trans mode.attached)
      obtain ⟨outcome, left⟩ := twins.attention ops node
        (fun args accepted row => layered.geometry member found attention accepted row)
        (fun l => by rw [same.cachedLen, filled]; split <;> omega)
      refine ⟨by rw [outcome], fun fine => ?_⟩
      obtain ⟨args, a', b', accepted, stored⟩ := left (by simpa using fine)
      have layer := nodeLayer_attention found attention
      rw [← (attentionArgs_accepted accepted).layerIdx] at layer
      rw [filled_layer layer]
      rw [same.cachedLen, chunk.tokens forms member found attention accepted, Int.toNat_natCast]
        at stored
      exact ⟨a', b', stored⟩
    · have noLayer : nodeLayer graph nid = none := nodeLayer_other fun node' found' op => by
        obtain rfl := Except.ok.inj (found.symm.trans found')
        exact attention op
      have tensor : (kernel node twin).1 = (kernel node mid).1 ∧
          (kernel node twin).2.bindings = (kernel node mid).2.bindings := by
        by_cases rope : node.opType = .roPE
        · rw [rope] at registered
          obtain rfl := Option.some.inj registered
          exact twins.rope ops node
        · have foreign : other node.opType = some kernel := by
            rw [← registered]
            unfold cpuRegistry
            split <;> simp_all
          exact tensors.reads _ kernel foreign node mid twin twins.bindings
      obtain ⟨frame, _⟩ := kernel_onlyData ops tensors.onlyData registered attention mid
      obtain ⟨twinFrame, _⟩ := kernel_onlyData ops tensors.onlyData registered attention twin
      refine ⟨by rw [tensor.1], fun _ => ⟨a, b, ?_⟩⟩
      obtain ⟨mode, twinMode, bindings, tokens, agrees⟩ := twins
      rw [filled_idle noLayer]
      dsimp only
      rw [frame, twinFrame]
      exact ⟨⟨mode.toBounded, mode.attached, mode.ready, mode.noPaged⟩,
        ⟨twinMode.toBounded, twinMode.attached, twinMode.ready, twinMode.noPaged⟩, tensor.2, tokens,
        agrees⟩

/-- The nodes of a run end alike on twins. -/
theorem Twins.nodes (tensors : OnlyTensors other) (layered : Layered graph order nkv hd)
    {run : PagedRun α} (chunk : ChunkOf graph order run)
    (keeps : Keeps (nkv * hd) (feed ctx run) cache mid)
    (twins : Twins (nkv * hd) (filled graph cache.cachedLen.toNat run.tokens []) mid twin a b) :
    (CpuExecutor.runNodes (cpuRegistry ops other) graph order mid).1 =
        (CpuExecutor.runNodes (cpuRegistry ops other) graph order twin).1 ∧
      ((CpuExecutor.runNodes (cpuRegistry ops other) graph order mid).1 = none → ∃ a' b',
        Twins (nkv * hd) (filled graph cache.cachedLen.toNat run.tokens order)
          (CpuExecutor.runNodes (cpuRegistry ops other) graph order mid).2
          (CpuExecutor.runNodes (cpuRegistry ops other) graph order twin).2 a' b') := by
  have relates := tryList_relates
    (fun done mid twin => Keeps (nkv * hd) (feed ctx run) cache mid ∧ ∃ a b,
      Twins (nkv * hd) (filled graph cache.cachedLen.toNat run.tokens done) mid twin a b)
    (CpuExecutor.runNode (cpuRegistry ops other) graph)
    (CpuExecutor.runNode (cpuRegistry ops other) graph) order mid twin ⟨keeps, a, b, twins⟩ ?_
  · exact ⟨relates.1, fun fine => (relates.2 fine).2⟩
  · rintro first nid rest mid twin split ⟨keeps, a, b, twins⟩
    have member : nid ∈ order := by rw [split]; simp
    obtain ⟨outcome, left⟩ := twins.step ops tensors layered chunk member keeps
    exact ⟨outcome, fun fine => ⟨keeps.node ops tensors layered member, left fine⟩⟩

omit [Field α] [LinearOrder α] in
/-- The advance at the end of a run. -/
theorem CacheMode.advances (mode : CacheMode ctx cache) :
    (ctx.advanceKvCacheStep.1.isOk = true → CacheMode ctx.advanceKvCacheStep.2
        (if ctx.kvCacheAdvanceTokens ≤ 0 then cache else cache.advance ctx.kvCacheAdvanceTokens)) ∧
      (ctx.advanceKvCacheStep.1.isOk ≠ true → CacheMode ctx.advanceKvCacheStep.2 cache) ∧
      (ctx.advanceKvCacheStep.1.isOk = true ↔
        ctx.kvCacheAdvanceTokens ≤ 0 ∨ cache.canAppend ctx.kvCacheAdvanceTokens = true) := by
  by_cases idle : ctx.kvCacheAdvanceTokens ≤ 0
  · rw [ctx.advanceKvCacheStep_idle idle, if_pos idle]
    have here : CacheMode ctx.resetPagedKvWritePos cache :=
      ⟨mode.toBounded, mode.attached, mode.ready, mode.noPaged⟩
    exact ⟨fun _ => here, fun _ => here, fun _ => Or.inl idle, fun _ => rfl⟩
  · rw [if_neg idle]
    cases room : cache.canAppend ctx.kvCacheAdvanceTokens with
    | true =>
        rw [ctx.advanceKvCacheStep_appends (by omega) mode.attached mode.ready room]
        exact ⟨fun _ => ⟨mode.toBounded.advance _, rfl, mode.ready, mode.noPaged⟩,
          fun no => absurd rfl no, fun _ => Or.inr rfl, fun _ => rfl⟩
    | false =>
        have refused : ctx.advanceKvCacheStep = (.outOfRange
            "KV cache does not have enough space to advance", ctx.resetPagedKvWritePos) := by
          unfold RuntimeContext.advanceKvCacheStep
          rw [if_neg idle, mode.attached]
          simp [mode.ready, room]
        rw [refused]
        refine ⟨fun no => ?_, fun _ => ⟨mode.toBounded, mode.attached, mode.ready, mode.noPaged⟩,
          fun no => ?_, fun no => ?_⟩
        · cases no
        · cases no
        · rcases no with no | no
          · exact absurd no idle
          · cases no

omit [LinearOrder α] in
theorem Twins.advance {width : Nat} (twins : Twins width len ctx twin a b) :
    twin.advanceKvCacheStep.1 = ctx.advanceKvCacheStep.1 := by
  have appends := twins.agrees.canAppend ctx.kvCacheAdvanceTokens
  have ready := twins.twinMode.ready
  unfold RuntimeContext.advanceKvCacheStep
  rw [twins.tokens, twins.mode.attached, twins.twinMode.attached]
  simp only [twins.mode.ready, ready, appends, Bool.not_true, Bool.false_eq_true, if_false]
  split_ifs <;> rfl

end Nodes

omit [Field α] [LinearOrder α] in
theorem CacheMode.feed (mode : CacheMode ctx cache) (run : PagedRun α) :
    CacheMode (feed ctx run) cache := ⟨mode.toBounded, mode.attached, mode.ready, mode.noPaged⟩

/-- A run that fails leaves the length of the cache and the rows that count. -/
theorem cachedRun_fails (tensors : OnlyTensors other) (layered : Layered graph order nkv hd)
    (mode : CacheMode ctx cache) {run : PagedRun α}
    (failed : (cachedRun ops other graph order ctx run).1 ≠ none) :
    ∃ after, CacheMode (cachedStep ops other graph order ctx run) after ∧
      cache.Agrees (nkv * hd) cache.counted after := by
  obtain ⟨_, _, after, left, agrees⟩ :=
    ((mode.feed run).keeps (nkv * hd)).nodes ops tensors layered
  unfold cachedStep
  unfold cachedRun CpuExecutor.run at failed ⊢
  generalize CpuExecutor.runNodes (cpuRegistry ops other) graph order (CpuKernelAdapter.feed ctx run) =
    result at left failed ⊢
  obtain ⟨_ | failure, mid⟩ := result
  · dsimp only at left failed ⊢
    have refused : mid.advanceKvCacheStep.1.isOk ≠ true := by
      intro fine
      simp [fine] at failed
    refine ⟨after, ?_, agrees⟩
    rw [if_pos (by simpa using refused)]
    exact left.advances.2.1 refused
  · exact ⟨after, left, agrees⟩

/-- Runs on twins end alike, and after a success the tensors and the rows that count are
the same. -/
theorem cachedRun_twins (tensors : OnlyTensors other) (layered : Layered graph order nkv hd)
    {run : PagedRun α} (chunk : ChunkOf graph order run) {twin : RuntimeContext α} {a b : KVCache α}
    (covers : ∀ l, 0 ≤ l → l < a.numLayers → l ∈ layersOf graph order) (mode : CacheMode ctx a)
    (twinMode : CacheMode twin b) (agrees : a.Agrees (nkv * hd) a.counted b) :
    (cachedRun ops other graph order ctx run).1 = (cachedRun ops other graph order twin run).1 ∧
      ((cachedRun ops other graph order ctx run).1 = none →
        (cachedStep ops other graph order twin run).bindings =
            (cachedStep ops other graph order ctx run).bindings ∧
          ∃ a' b', CacheMode (cachedStep ops other graph order ctx run) a' ∧
            CacheMode (cachedStep ops other graph order twin run) b' ∧
            a'.numLayers = a.numLayers ∧ a'.Agrees (nkv * hd) a'.counted b') := by
  have keeps := (mode.feed run).keeps (nkv * hd)
  have start : Twins (nkv * hd) (filled graph a.cachedLen.toNat run.tokens []) (feed ctx run)
      (feed twin run) a b := ⟨mode.feed run, twinMode.feed run, rfl, rfl, agrees⟩
  obtain ⟨_, tokens, after, left, kept⟩ := keeps.nodes ops tensors layered
  obtain ⟨outcome, ended⟩ := start.nodes ops tensors layered chunk keeps
  unfold cachedStep cachedRun CpuExecutor.run
  generalize CpuExecutor.runNodes (cpuRegistry ops other) graph order (feed ctx run) = first
    at left tokens outcome ended ⊢
  generalize CpuExecutor.runNodes (cpuRegistry ops other) graph order (feed twin run) = second
    at outcome ended ⊢
  obtain ⟨err, mid⟩ := first
  obtain ⟨err', mid'⟩ := second
  obtain rfl : err = err' := outcome
  cases err with
  | some failure => exact ⟨rfl, fun no => by cases no⟩
  | none =>
      obtain ⟨a', b', here, there, bindings, same, rows⟩ := ended rfl
      obtain rfl := Option.some.inj (here.attached.symm.trans left.attached)
      have twins : Twins (nkv * hd) (filled graph a.cachedLen.toNat run.tokens order) mid mid' a' b' :=
        ⟨here, there, bindings, same, rows⟩
      dsimp only at here there bindings same rows tokens kept ⊢
      rw [twins.advance]
      by_cases fine : mid.advanceKvCacheStep.1.isOk = true
      swap
      · rw [if_pos (by simpa using fine), if_pos (by simpa using fine)]
        exact ⟨rfl, fun no => by cases no⟩
      rw [if_neg (by simpa using fine), if_neg (by simpa using fine)]
      refine ⟨rfl, fun _ => ⟨?_, ?_⟩⟩
      · dsimp only
        rw [(advance_frame mid).2.1, (advance_frame mid').2.1, bindings]
      · have left := here.advances.1 fine
        have twinLeft := there.advances.1 (by rw [twins.advance]; exact fine)
        have room := here.advances.2.2.mp fine
        rw [same] at twinLeft
        rw [tokens] at left twinLeft room
        change CacheMode _ (if (run.tokens : Int) ≤ 0 then _ else a'.advance run.tokens) at left
        change CacheMode _ (if (run.tokens : Int) ≤ 0 then _ else b'.advance run.tokens) at twinLeft
        change (run.tokens : Int) ≤ 0 ∨ a'.canAppend run.tokens = true at room
        refine ⟨_, _, left, twinLeft, ?_, ?_⟩
        · split <;> exact kept.numLayers
        · have length := kept.cachedLen
          split
          · refine rows.mono fun l _ _ => ?_
            rw [KVCache.counted, length, filled]
            split <;> omega
          · next some =>
              have room := ((canAppend_iff a' run.tokens).mp (room.resolve_left some)).2.1
              refine (rows.advance run.tokens).mono fun l low high => ?_
              have inside : l ∈ layersOf graph order := covers l low (by rw [← kept.numLayers]; exact high)
              rw [KVCache.counted, a'.advance_cachedLen _ here.low (by omega) (by omega) here.int,
                length, filled, if_pos inside]
              have low := here.low
              omega

section Defined

variable {ops} (ints : CachedInts ops other graph order ctx) (keeps : Keeps (nkv * hd) ctx cache mid)
  (mode : CacheMode ctx cache) {nid : Nat} (member : nid ∈ order) {node : Node α}
  (found : graph.node nid = .ok node)
include ints keeps mode member found

/-- The indices of an attention call stay `int`s wherever the run comes to it. -/
theorem CachedInts.attention (op : node.opType = .attention) :
    (kernelAttention ops node mid).1 ≠ some .undefined := by
  obtain ⟨forms, _, after, left, agrees⟩ := keeps
  cases accepted : attentionArgs node mid with
  | error failure =>
      simp only [kernelAttention, accepted]
      exact fun no => attentionArgs_defined node mid (by rw [accepted, Option.some.inj no])
  | ok args =>
      obtain ⟨q, k, v, output, bound⟩ := attentionArgs_forms forms.symm accepted
      obtain ⟨row, sized⟩ := (ints nid member node found).1 op _ bound
      rw [left.attention ops accepted]
      have ends := cachedAttention_ends ops args after mid (node.outputs.getD 0 0)
      rcases ends with ⟨batch, accepts⟩ | ⟨st, refused⟩
      · have fits := sized cache mode.attached batch (cacheAccepts_agrees accepts agrees.symm rfl rfl)
        rw [← agrees.cachedLen] at fits
        rw [if_pos ⟨row, fun _ => fits⟩, cachedAttention_accepted batch accepts]
        simp
      · rw [refused, if_pos ⟨row, fun no => by cases no⟩]
        simp

omit [LinearOrder α] in
theorem CachedInts.rope (op : node.opType = .roPE) :
    (kernelRope ops node mid).1 ≠ some .undefined := by
  obtain ⟨forms, _, after, left, agrees⟩ := keeps
  cases accepted : ropeArgs node mid with
  | error failure =>
      simp only [kernelRope, accepted]
      exact fun no => ropeArgs_defined node mid (by rw [accepted, Option.some.inj no])
  | ok args =>
      obtain ⟨x, output, bound⟩ := ropeArgs_forms forms.symm accepted
      have sized := (ints nid member node found).2.1 op _ bound
      have fits : RopeFits ops.simdWidth args (posOffset mid args.seqLen) := by
        rw [left.offset, agrees.cachedLen, ← mode.offset]
        exact sized
      simp only [kernelRope, accepted]
      rw [if_pos fits]
      simp

end Defined

/-- A run whose indices are `int`s has an outcome. -/
theorem cachedRun_defined (tensors : OnlyTensors other) (layered : Layered graph order nkv hd)
    (mode : CacheMode ctx cache) {run : PagedRun α}
    (ints : CachedInts ops other graph order (feed ctx run)) :
    (cachedRun ops other graph order ctx run).1 ≠ some .undefined := by
  have fed := mode.feed run
  have ended := tryList_invariant (fun _ mid => Keeps (nkv * hd) (feed ctx run) cache mid)
    (fun err _ => err ≠ Failure.undefined) (CpuExecutor.runNode (cpuRegistry ops other) graph) order
    (feed ctx run) (fed.keeps _) ?_
  · unfold cachedRun CpuExecutor.run CpuExecutor.runNodes
    generalize tryList (CpuExecutor.runNode (cpuRegistry ops other) graph) order (feed ctx run) =
      result at ended ⊢
    obtain ⟨_ | failure, mid⟩ := result
    · dsimp only
      split <;> simp
    · exact fun no => ended (Option.some.inj no)
  · intro first nid rest mid split keeps
    have member : nid ∈ order := by rw [split]; simp
    have after := keeps.node ops tensors layered member
    have outcome : (CpuExecutor.runNode (cpuRegistry ops other) graph nid mid).1 ≠ some .undefined := by
      rcases runNode_eq (cpuRegistry ops other) graph nid with
        ⟨err, defined, ends, _⟩ | ⟨node, kernel, found, registered, runs⟩
      · rw [ends mid]
        exact defined
      · have defined : (kernel node mid).1 ≠ some .undefined := by
          by_cases attention : node.opType = .attention
          · rw [attention] at registered
            obtain rfl := Option.some.inj registered
            exact ints.attention keeps fed member found attention
          by_cases rope : node.opType = .roPE
          · rw [rope] at registered
            obtain rfl := Option.some.inj registered
            exact ints.rope keeps fed member found rope
          · have foreign : other node.opType = some kernel := by
              rw [← registered]
              unfold cpuRegistry
              split <;> simp_all
            exact (ints nid member node found).2.2 attention rope kernel foreign mid keeps.forms
        rw [runs mid]
        generalize kernel node mid = result at defined ⊢
        obtain ⟨_ | failure, _⟩ := result
        · simp
        · cases failure <;> simp_all [reported]
    generalize CpuExecutor.runNode (cpuRegistry ops other) graph nid mid = result at after outcome ⊢
    obtain ⟨_ | failure, _⟩ := result
    · exact after
    · exact fun no => outcome (congrArg some no)

/-- Both contexts work on caches of one size and length, and in every layer the rows below
that length are the same. -/
def Alike (width : Nat) (layers : Int) (ctx twin : RuntimeContext α) : Prop :=
  ∃ a b, CacheMode ctx a ∧ CacheMode twin b ∧ a.numLayers = layers ∧ a.Agrees width a.counted b

section Sessions

variable (tensors : OnlyTensors other) (layered : Layered graph order nkv hd) {layers : Int}
  (covers : ∀ l, 0 ≤ l → l < layers → l ∈ layersOf graph order)
include tensors layered

/-- A run that fails leaves the context alike. -/
theorem Alike.fails (alike : Alike (nkv * hd) layers ctx ctx) {run : PagedRun α}
    (failed : (cachedRun ops other graph order ctx run).1 ≠ none) :
    Alike (nkv * hd) layers ctx (cachedStep ops other graph order ctx run) := by
  obtain ⟨a, _, mode, _, size, _⟩ := alike
  obtain ⟨after, left, agrees⟩ := cachedRun_fails ops tensors layered mode failed
  exact ⟨a, after, mode, left, size, agrees⟩

include covers

theorem Alike.step {twin : RuntimeContext α} (alike : Alike (nkv * hd) layers ctx twin)
    {run : PagedRun α} (chunk : ChunkOf graph order run) :
    Alike (nkv * hd) layers (cachedStep ops other graph order ctx run)
      (cachedStep ops other graph order twin run) := by
  obtain ⟨a, b, mode, twinMode, rfl, agrees⟩ := alike
  obtain ⟨outcome, same⟩ := cachedRun_twins ops tensors layered chunk covers mode twinMode agrees
  by_cases fine : (cachedRun ops other graph order ctx run).1 = none
  · obtain ⟨_, a', b', left, twinLeft, size, rows⟩ := same fine
    exact ⟨a', b', left, twinLeft, size, rows⟩
  · obtain ⟨a', left, kept⟩ := cachedRun_fails ops tensors layered mode fine
    obtain ⟨b', twinLeft, twinKept⟩ :=
      cachedRun_fails ops tensors layered twinMode (by rwa [← outcome])
    rw [agrees.counted] at twinKept
    refine ⟨a', b', left, twinLeft, kept.numLayers, ?_⟩
    rw [kept.counted]
    exact kept.symm.trans (agrees.trans twinKept)

theorem Alike.run {twin : RuntimeContext α} (alike : Alike (nkv * hd) layers ctx twin)
    {session : List (PagedRun α)} (chunks : ∀ run ∈ session, ChunkOf graph order run) :
    Alike (nkv * hd) layers (Machine.run (cachedStep ops other graph order) ctx session)
      (Machine.run (cachedStep ops other graph order) twin session) := by
  induction session generalizing ctx twin with
  | nil => exact alike
  | cons run rest ih =>
      exact ih (alike.step ops tensors layered covers (chunks run List.mem_cons_self))
        fun run member => chunks run (List.mem_cons_of_mem _ member)

end Sessions

/-- In a session of runs with `int` indices, a run that fails leaves the length of the cache
and the rows below it, and every run behind it ends as it does without the failed run: with
the same outcome, the same tensors and the same rows below the new length. -/
theorem failed_run_atomic (tensors : OnlyTensors other) (mode : CacheMode ctx cache)
    (layered : Layered graph order cache.numKvHeads.toNat cache.headDim.toNat)
    (covers : ∀ l, 0 ≤ l → l < cache.numLayers → l ∈ layersOf graph order)
    {session : List (PagedRun α)} (chunks : ∀ run ∈ session, ChunkOf graph order run)
    (guarded : Machine.Guarded (cachedStep ops other graph order)
      (fun ctx run => CachedInts ops other graph order (feed ctx run)) ctx session)
    {prior later : List (PagedRun α)} {run : PagedRun α} (split : session = prior ++ run :: later)
    (failed : (cachedRun ops other graph order
      (Machine.run (cachedStep ops other graph order) ctx prior) run).1 ≠ none) :
    (cachedRun ops other graph order
        (Machine.run (cachedStep ops other graph order) ctx prior) run).1 ≠ some .undefined ∧
      Alike (cache.numKvHeads.toNat * cache.headDim.toNat) cache.numLayers
        (Machine.run (cachedStep ops other graph order) ctx prior)
        (Machine.run (cachedStep ops other graph order) ctx (prior ++ [run])) ∧
      ∀ mid next rest, later = mid ++ next :: rest →
        let without := Machine.run (cachedStep ops other graph order) ctx (prior ++ mid)
        let following := Machine.run (cachedStep ops other graph order) ctx (prior ++ run :: mid)
        (cachedRun ops other graph order following next).1 ≠ some .undefined ∧
        (cachedRun ops other graph order following next).1 =
          (cachedRun ops other graph order without next).1 ∧
        ((cachedRun ops other graph order following next).1 = none →
          (cachedStep ops other graph order following next).bindings =
              (cachedStep ops other graph order without next).bindings ∧
            Alike (cache.numKvHeads.toNat * cache.headDim.toNat) cache.numLayers
              (cachedStep ops other graph order without next)
              (cachedStep ops other graph order following next)) := by
  let step := cachedStep ops other graph order
  have begun : Alike (cache.numKvHeads.toNat * cache.headDim.toNat) cache.numLayers ctx ctx :=
    ⟨cache, cache, mode, mode, rfl, KVCache.Agrees.refl _ _ _⟩
  have chunkOf : ∀ other, other ∈ prior ∨ other = run ∨ other ∈ later → ChunkOf graph order other := by
    intro other member
    apply chunks other
    rw [split, List.mem_append, List.mem_cons]
    exact member
  rw [split, Machine.guarded_append] at guarded
  obtain ⟨_, ints, laterInts⟩ := guarded
  have reached := begun.run ops tensors layered covers fun other member => chunkOf other (Or.inl member)
  have kept := reached.fails ops tensors layered failed
  have next : Machine.run step ctx (prior ++ [run]) = step (Machine.run step ctx prior) run :=
    Machine.run_append _ _ _ _
  refine ⟨?_, ?_, fun mid later rest tail => ?_⟩
  · obtain ⟨a, _, here, _⟩ := reached
    exact cachedRun_defined ops tensors layered here ints
  · rw [next]
    exact kept
  · have members : ∀ other ∈ mid ++ [later], ChunkOf graph order other := by
      intro other member
      refine chunkOf other (Or.inr (Or.inr ?_))
      rw [tail]
      simp only [List.mem_append, List.mem_cons, List.not_mem_nil, or_false] at member ⊢
      tauto
    have middle := fun other member => members other (List.mem_append_left _ member)
    have last := members later (by simp)
    have twins := kept.run ops tensors layered covers middle
    rw [tail, Machine.guarded_append] at laterInts
    dsimp only
    rw [Machine.run_append, Machine.run_append]
    change Alike _ _ (Machine.run step _ mid) (Machine.run step _ mid) at twins
    obtain ⟨a, b, here, there, size, rows⟩ := twins
    rw [← size] at covers
    obtain ⟨outcome, same⟩ := cachedRun_twins ops tensors layered last covers here there rows
    refine ⟨cachedRun_defined ops tensors layered there laterInts.2.1, outcome.symm, fun fine => ?_⟩
    obtain ⟨bindings, a', b', left, twinLeft, size', rows'⟩ := same (outcome.trans fine)
    exact ⟨bindings, a', b', left, twinLeft, size'.trans size, rows'⟩

end Runs

section TwoLayers

-- Two layers of one head; a run without the tensors of the second layer fails behind the first.
def secondNode : Node ℚ :=
  { headNode with
    inputs := [4, 5, 6], outputs := [7]
    attrs := fun key => if key = "layer_idx" then some (.int 1) else headNode.attrs key }

def layersGraph : Graph ℚ := { nodes := [headNode, secondNode] }

def layersContext : RuntimeContext ℚ := { kvCache := some (KVCache.init {} 2 1 1 4) }

def layersRun (bound : Nat) : PagedRun ℚ :=
  { oneToken with
    sequenceId := 0
    bindings := fun id => if id < bound then oneToken.bindings 0 else none }

def layersStep : RuntimeContext ℚ → PagedRun ℚ → RuntimeContext ℚ :=
  cachedStep unitOps (fun _ => none) layersGraph [0, 1]

theorem onlyTensors_none : OnlyTensors (fun _ => none : KernelRegistry ℚ (RuntimeContext ℚ)) :=
  ⟨onlyData_none, fun _ _ no => by cases no⟩

theorem layersGraph_nodes {nid : Nat} (member : nid ∈ [0, 1]) {node : Node ℚ}
    (found : layersGraph.node nid = .ok node) : node = headNode ∨ node = secondNode := by
  simp only [List.mem_cons, List.not_mem_nil, or_false] at member
  rcases member with rfl | rfl
  · exact Or.inl (Except.ok.inj found).symm
  · exact Or.inr (Except.ok.inj found).symm

theorem layersRun_chunk (bound : Nat) : ChunkOf layersGraph [0, 1] (layersRun bound) := by
  refine ⟨show 1 < 2147483648 by decide, fun nid member node found _ q fed => ?_⟩
  simp only [layersRun] at fed
  split at fed
  · obtain rfl := Option.some.inj fed
    rfl
  · cases fed

theorem layersRun_ints {bound : Nat} (bounds : bound = 4 ∨ bound = 8) {ctx : RuntimeContext ℚ}
    (cached : ctx.kvCache.map (·.cachedLen) = some 0) :
    CachedInts unitOps (fun _ => none) layersGraph [0, 1] (feed ctx (layersRun bound)) := by
  intro nid member node found
  have inside : ∀ args, attentionArgs node (feed ctx (layersRun bound)) = .ok args →
      args.nh * args.hd ≤ intMax ∧ CachedFits 8 args 0 := by
    intro args accepted
    rcases layersGraph_nodes member found with rfl | rfl <;> rcases bounds with rfl | rfl
    · obtain rfl := Except.ok.inj accepted
      exact ⟨by decide, by decide⟩
    · obtain rfl := Except.ok.inj accepted
      exact ⟨by decide, by decide⟩
    · cases accepted
    · obtain rfl := Except.ok.inj accepted
      exact ⟨by decide, by decide⟩
  refine ⟨fun _ args accepted => ⟨(inside args accepted).1, fun cache attached _ _ => ?_⟩,
    fun no => ?_, fun _ _ _ no => by cases no⟩
  · change ctx.kvCache = some cache at attached
    rw [attached, Option.map_some, Option.some.injEq] at cached
    rw [cached]
    exact (inside args accepted).2
  · rcases layersGraph_nodes member found with rfl | rfl <;> cases no

theorem failed_run_atomic_twoLayers :
    Alike 1 2 layersContext (Machine.run layersStep layersContext ([] ++ [layersRun 4])) ∧
      (cachedRun unitOps (fun _ => none) layersGraph [0, 1]
        (Machine.run layersStep layersContext ([] ++ layersRun 4 :: [])) (layersRun 8)).1 =
      (cachedRun unitOps (fun _ => none) layersGraph [0, 1]
        (Machine.run layersStep layersContext ([] ++ [])) (layersRun 8)).1 := by
  have mode : CacheMode layersContext (KVCache.init {} 2 1 1 4) :=
    ⟨⟨by decide, by decide, by decide⟩, rfl, rfl, rfl⟩
  have layered : Layered layersGraph [0, 1] 1 1 := by
    refine ⟨fun nid member node found _ => ?_, by decide⟩
    rcases layersGraph_nodes member found with rfl | rfl <;> exact ⟨rfl, rfl⟩
  have covers : ∀ l : Int, 0 ≤ l → l < (KVCache.init {} 2 1 1 4 : KVCache ℚ).numLayers →
      l ∈ layersOf layersGraph [0, 1] := by
    intro l low high
    change l < 2 at high
    obtain rfl | rfl : l = 0 ∨ l = 1 := by omega
    · decide
    · decide
  have chunks : ∀ run ∈ [layersRun 4, layersRun 8], ChunkOf layersGraph [0, 1] run := by
    intro run member
    simp only [List.mem_cons, List.not_mem_nil, or_false] at member
    rcases member with rfl | rfl <;> exact layersRun_chunk _
  have guarded : Machine.Guarded layersStep (fun ctx run =>
      CachedInts unitOps (fun _ => none) layersGraph [0, 1] (feed ctx run)) layersContext
      [layersRun 4, layersRun 8] :=
    ⟨layersRun_ints (Or.inl rfl) rfl, layersRun_ints (Or.inr rfl) (by decide), trivial⟩
  have failed : (cachedRun unitOps (fun _ => none) layersGraph [0, 1]
      (Machine.run layersStep layersContext []) (layersRun 4)).1 ≠ none := by decide
  obtain ⟨_, kept, behind⟩ := failed_run_atomic unitOps onlyTensors_none mode layered covers chunks
    guarded (show [layersRun 4, layersRun 8] = [] ++ layersRun 4 :: [layersRun 8] from rfl) failed
  exact ⟨kept, (behind [] (layersRun 8) [] rfl).2.1⟩

-- A layer of 65537 rows of 65536 floats, 65536 of them in use.
def wideRowNode : Node ℚ :=
  { opType := .attention, inputs := [0, 1, 2], outputs := [3]
    attrs := fun key =>
      if key = "head_dim" then some (.int 65536)
      else if key = "num_heads" ∨ key = "num_kv_heads" then some (.int 1) else none }

def wideRowCache : KVCache ℚ := (KVCache.init {} 1 1 65536 65537).setCachedLen 65536

def wideRowContext : RuntimeContext ℚ := { kvCache := some wideRowCache }

def wideRowRun : PagedRun ℚ := headRun 0 1 { dims := [1, 1, 65536] }

/-- `cached_len * kv_h` is 2^32: the row goes over row 0. -/
theorem wideRow_undefined :
    CacheMode wideRowContext wideRowCache ∧
      Layered { nodes := [wideRowNode] } [0] wideRowCache.numKvHeads.toNat
        wideRowCache.headDim.toNat ∧
      (∀ l, 0 ≤ l → l < wideRowCache.numLayers →
        l ∈ layersOf ({ nodes := [wideRowNode] } : Graph ℚ) [0]) ∧
      ChunkOf { nodes := [wideRowNode] } [0] wideRowRun ∧
      (cachedRun unitOps (fun _ => none) { nodes := [wideRowNode] } [0] wideRowContext
        wideRowRun).1 = some .undefined := by
  have nodes : ∀ nid ∈ [0], ∀ node, ({ nodes := [wideRowNode] } : Graph ℚ).node nid = .ok node →
      node = wideRowNode := by
    intro nid member node found
    obtain rfl : nid = 0 := by simpa using member
    exact (Except.ok.inj found).symm
  refine ⟨⟨⟨by decide, by decide, by decide⟩, rfl, rfl, rfl⟩, ⟨?_, by decide⟩, ?_, ⟨by decide, ?_⟩,
    by decide +kernel⟩
  · intro nid member node found _
    obtain rfl := nodes nid member node found
    exact ⟨by decide, by decide⟩
  · intro l low high
    change l < 1 at high
    obtain rfl : l = 0 := by omega
    decide
  · intro nid member node found _ q bound
    obtain rfl := nodes nid member node found
    obtain rfl := Option.some.inj bound
    rfl

end TwoLayers

end MiniLLM.CpuKernelAdapter
