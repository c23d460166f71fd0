import MiniLLM.PagedStreams

/-!
Sessions of runs in paged mode. A sequence fed in chunks attends as one causal pass
over its stream, wherever it is cut; failed runs leave a session alone as long as
they have not stored a row.
-/

namespace MiniLLM.CpuKernelAdapter

open Loops PagedKVCache Softmax

variable {α : Type} [Field α] [LinearOrder α]

section Chunks

/-- A session that has fed `total` tokens to one sequence, ready for the next chunk. -/
structure Streaming (graph : Graph α) (order : List Nat) (nkv hd : Nat) (seqId : Int)
    (total : Nat) (state : RuntimeContext α × RowMap α) (paged : PagedKVCache α) : Prop where
  mode : PagedMode state.1 paged
  recorded : Recorded paged state.2 (layersOf graph order) nkv hd {seqId}
  unset : state.1.pagedKvWritePos < 0
  length : state.2.length seqId = total

def totalTokens (chunks : List (PagedRun α)) : Nat := (chunks.map PagedRun.tokens).sum

/-- The run succeeds. -/
def Succeeds (ops : FloatOps α) (other : KernelRegistry α (RuntimeContext α)) (graph : Graph α)
    (order : List Nat) (ctx : RuntimeContext α) (run : PagedRun α) : Prop :=
  (pagedRun ops other graph order ctx run).1 = none

theorem recordRun_context (ops : FloatOps α) (other : KernelRegistry α (RuntimeContext α))
    (graph : Graph α) (order : List Nat) (state : RuntimeContext α × RowMap α)
    (session : List (PagedRun α)) :
    (Machine.run (recordStep ops other graph order) state session).1 =
      Machine.run (pagedStep ops other graph order) state.1 session :=
  Machine.run_project Prod.fst (recordStep ops other graph order) (pagedStep ops other graph order)
    (fun _ _ => rfl) state session

variable [IsStrictOrderedRing α] {ops : FloatOps α} {other : KernelRegistry α (RuntimeContext α)}
  {graph : Graph α} {order : List Nat} {nkv hd : Nat} {seqId : Int}

/-- A chunk continues the stream and leaves the rows before it. -/
theorem Streaming.step (law : ExpLaw ops.exp) (onlyData : OnlyData other)
    (layered : Layered graph order nkv hd) (hasLayer : layersOf graph order ≠ [])
    {run : PagedRun α} (same : run.sequenceId = seqId) (chunk : ChunkOf graph order run)
    {total : Nat} {state : RuntimeContext α × RowMap α} {paged : PagedKVCache α}
    (streaming : Streaming graph order nkv hd seqId total state paged)
    (success : Succeeds ops other graph order state.1 run) :
    (∃ after, Streaming graph order nkv hd seqId (total + run.tokens)
      (recordStep ops other graph order state run) after) ∧
    ∀ l pos, pos < (total : Int) →
      (recordStep ops other graph order state run).2.row seqId l pos = state.2.row seqId l pos := by
  subst same
  obtain ⟨⟨after, extended⟩, _⟩ := recordStep_success law onlyData layered chunk streaming.mode
    streaming.recorded rfl (Or.inl streaming.unset) success
  have length := extended.length
  have frame := extended.frame
  rw [if_neg hasLayer, streaming.length] at length
  rw [streaming.length] at frame
  refine ⟨⟨after, extended.mode, extended.recorded, ?_, by rw [length]; push_cast; rfl⟩,
    fun l pos below => frame _ l pos (by omega)⟩
  rw [extended.position]
  decide

theorem Streaming.run (law : ExpLaw ops.exp) (onlyData : OnlyData other)
    (layered : Layered graph order nkv hd) (hasLayer : layersOf graph order ≠ [])
    {chunks : List (PagedRun α)}
    (fed : ∀ run ∈ chunks, run.sequenceId = seqId ∧ ChunkOf graph order run)
    {total : Nat} {state : RuntimeContext α × RowMap α}
    (streaming : ∃ paged, Streaming graph order nkv hd seqId total state paged)
    (success : Machine.Guarded (recordStep ops other graph order)
      (fun state run => Succeeds ops other graph order state.1 run) state chunks) :
    (∃ after, Streaming graph order nkv hd seqId (total + totalTokens chunks)
      (Machine.run (recordStep ops other graph order) state chunks) after) ∧
    ∀ l pos, pos < (total : Int) →
      (Machine.run (recordStep ops other graph order) state chunks).2.row seqId l pos =
        state.2.row seqId l pos := by
  induction chunks generalizing state total with
  | nil => exact ⟨streaming, fun _ _ _ => rfl⟩
  | cons run rest ih =>
      obtain ⟨paged, streaming⟩ := streaming
      obtain ⟨same, chunk⟩ := fed run (List.mem_cons_self)
      obtain ⟨next, kept⟩ := streaming.step law onlyData layered hasLayer same chunk success.1
      obtain ⟨final, rows⟩ := ih (fun run member => fed run (List.mem_cons_of_mem _ member)) next
        success.2
      have sum : totalTokens (run :: rest) = run.tokens + totalTokens rest := rfl
      rw [sum, ← Nat.add_assoc]
      refine ⟨final, fun l pos below => ?_⟩
      exact (rows l pos (by push_cast; omega)).trans (kept l pos below)

omit [LinearOrder α] [IsStrictOrderedRing α] in
/-- The output rows of a chunk depend on the rows up to its last position. -/
theorem RowsAttend.congr {nh : Nat} {args : AttentionArgs α} {K K' V V' : Nat → Buffer α}
    {start : Nat} {data : Buffer α} (attend : RowsAttend ops nh nkv hd args K V start data)
    (sameK : ∀ i < start + args.seqLen.toNat, K i = K' i)
    (sameV : ∀ i < start + args.seqLen.toNat, V i = V' i) :
    RowsAttend ops nh nkv hd args K' V' start data := by
  intro s insideS j insideJ
  rw [attend s insideS j insideJ]
  unfold attentionRow Cpu.attend
  refine average_congr (fun i below => ?_) fun i below => ?_
  · dsimp only
    rw [sameK i (by omega)]
  · dsimp only
    rw [sameV i (by omega)]

/-- Chunks of one sequence, cut anywhere: each run starts where the one before ended,
and each output row is causal attention over the stream of all rows fed. -/
theorem chunking_invariance (law : ExpLaw ops.exp) (onlyData : OnlyData other)
    (layered : Layered graph order nkv hd) (hasLayer : layersOf graph order ≠ [])
    {ctx : RuntimeContext α} {calls : List (Op α)}
    (attached : ctx.pagedKvCache = some (runs calls))
    (bounds : ∀ op ∈ calls, op.IsInt ∧ op.Bounded)
    (ready : (runs calls).initialized = true) (heads : (runs calls).numKvHeads = nkv)
    (headDim : (runs calls).headDim = hd) (unset : ctx.pagedKvWritePos < 0)
    (empty : (runs calls).sequenceLength seqId = 0) {chunks : List (PagedRun α)}
    (fed : ∀ run ∈ chunks, run.sequenceId = seqId ∧ ChunkOf graph order run)
    (success : Machine.Guarded (pagedStep ops other graph order)
      (Succeeds ops other graph order) ctx chunks) :
    ∃ K V : Int → Nat → Buffer α, ∀ prior run rest, chunks = prior ++ run :: rest →
      ∃ before after,
        (Machine.run (pagedStep ops other graph order) ctx prior).pagedKvCache = some before ∧
        (Machine.run (pagedStep ops other graph order) ctx (prior ++ [run])).pagedKvCache =
          some after ∧
        before.sequenceLength seqId = totalTokens prior ∧
        after.sequenceLength seqId = before.sequenceLength seqId + run.tokens ∧
        PlacesFrom ops other graph order
          (enter (Machine.run (pagedStep ops other graph order) ctx prior) run) seqId
          (totalTokens prior) ∧
        ∀ node mid, Starts ops other graph order
            (enter (Machine.run (pagedStep ops other graph order) ctx prior) run) node mid →
          node.opType = .attention → ∃ args, attentionArgs node mid = .ok args ∧
            args.seqLen = run.tokens ∧
            RowsFed (K args.layerIdx) (V args.layerIdx) (totalTokens prior) run.tokens (nkv * hd)
              args ∧
            RowsAttend ops args.nh.toNat nkv hd args (K args.layerIdx) (V args.layerIdx)
              (totalTokens prior) (outputData (kernelAttention ops node mid).2 node) := by
  let record := recordStep ops other graph order
  let start : RuntimeContext α × RowMap α := (ctx, (runs calls).contents)
  have serving := runs_serving bounds ready
  have streaming : ∃ paged, Streaming graph order nkv hd seqId 0 start paged := by
    refine ⟨runs calls, ⟨serving, attached, unset.trans (by decide)⟩,
      ⟨heads, headDim, contents_refines serving.owned serving.rowFits,
        fun id _ => serving.ints id, ?_⟩, unset, empty⟩
    rintro l _ id rfl pos low high
    change pos < (runs calls).sequenceLength id at high
    omega
  have guarded := (Machine.guarded_project Prod.fst record (pagedStep ops other graph order)
    (Succeeds ops other graph order) (fun _ _ => rfl) start chunks).mpr success
  let final := (Machine.run record start chunks).2
  refine ⟨keyRows final seqId, valueRows final seqId, fun prior run rest split => ?_⟩
  have context : ∀ session, (Machine.run record start session).1 =
      Machine.run (pagedStep ops other graph order) ctx session :=
    recordRun_context ops other graph order start
  have fedAll : ∀ other, other ∈ prior ∨ other = run ∨ other ∈ rest →
      other.sequenceId = seqId ∧ ChunkOf graph order other := by
    intro other member
    apply fed other
    rw [split, List.mem_append, List.mem_cons]
    exact member
  rw [split, Machine.guarded_append] at guarded
  obtain ⟨early, here, late⟩ := guarded
  obtain ⟨⟨before, atRun⟩, _⟩ := Streaming.run law onlyData layered hasLayer
    (fun other member => fedAll other (Or.inl member)) streaming early
  rw [Nat.zero_add] at atRun
  obtain ⟨same, chunk⟩ := fedAll run (Or.inr (Or.inl rfl))
  obtain ⟨⟨after, afterRun⟩, _⟩ := atRun.step law onlyData layered hasLayer same chunk here
  obtain ⟨_, kept⟩ := Streaming.run law onlyData layered hasLayer
    (fun other member => fedAll other (Or.inr (Or.inr member))) ⟨after, afterRun⟩ late
  have attends := (recordStep_success law onlyData layered chunk atRun.mode atRun.recorded same
    (Or.inl atRun.unset) here).2
  subst same
  have finalEq : final = (Machine.run record (record (Machine.run record start prior) run) rest).2 := by
    simp only [final]
    rw [split, Machine.run_append]
    rfl
  have next : Machine.run (pagedStep ops other graph order) ctx (prior ++ [run]) =
      (record (Machine.run record start prior) run).1 := by
    rw [← context, Machine.run_append]
    rfl
  have beforeLength : before.sequenceLength run.sequenceId = totalTokens prior :=
    (atRun.recorded.refined.length _).trans atRun.length
  have afterLength : after.sequenceLength run.sequenceId = (totalTokens prior + run.tokens : Nat) :=
    (afterRun.recorded.refined.length _).trans afterRun.length
  have placed : ∃ paged, Placed (enter (Machine.run record start prior).1 run) paged
      run.sequenceId (totalTokens prior) := by
    rw [← beforeLength]
    exact ⟨before, Fresh.placed (Or.inl atRun.unset) atRun.mode⟩
  rw [← context, next]
  refine ⟨before, after, atRun.mode.attached, afterRun.mode.attached, beforeLength,
    by rw [afterLength, beforeLength]; push_cast; rfl,
    placed_placesFrom ops onlyData graph order placed, fun node mid starts op => ?_⟩
  obtain ⟨args, accepted, tokens, rowsFed, rowsAttend⟩ := attends node mid starts op
  have rows : ∀ i : Nat, i < totalTokens prior + run.tokens →
      final.row run.sequenceId args.layerIdx i =
        (record (Machine.run record start prior) run).2.row run.sequenceId args.layerIdx i := by
    intro i below
    rw [finalEq]
    exact kept args.layerIdx i (by push_cast; omega)
  have startEq : ((Machine.run record start prior).2.length run.sequenceId).toNat =
      totalTokens prior := by
    rw [atRun.length, Int.toNat_natCast]
  change RowsFed (keyRows (record (Machine.run record start prior) run).2 _ _) (valueRows _ _ _) _ _
    _ _ at rowsFed
  rw [startEq] at rowsFed rowsAttend
  refine ⟨args, accepted, tokens, fun s inside c column => ?_, rowsAttend.congr ?_ ?_⟩
  · have fed := rowsFed s inside c column
    simp only [keyRows, valueRows, rows (totalTokens prior + s) (by omega)]
    exact fed
  · intro i below
    rw [tokens, Int.toNat_natCast] at below
    simp only [keyRows, rows i below]
    rfl
  · intro i below
    rw [tokens, Int.toNat_natCast] at below
    simp only [valueRows, rows i below]
    rfl

end Chunks

section TwoChunks

-- Blocks of one row; a chunk of one token and a chunk of two on sequence 0.
def streamCalls : List (Op ℚ) := [.init 1 1 1 1 4]

theorem streamCalls_bounds : ∀ op ∈ streamCalls, op.IsInt ∧ op.Bounded := by
  simp [streamCalls, Op.IsInt, Op.Bounded]

def streamContext : RuntimeContext ℚ := { pagedKvCache := some (runs streamCalls) }

def twoTokens : PagedRun ℚ := headRun 0 2 { dims := [1, 2, 1] }

def firstToken : PagedRun ℚ := { oneToken with sequenceId := 0 }

theorem headNode_layered : Layered { nodes := [headNode] } [0] 1 1 := by
  refine ⟨fun nid member node found _ => ?_, by decide⟩
  obtain rfl : nid = 0 := by simpa using member
  obtain rfl := Except.ok.inj found
  exact ⟨rfl, rfl⟩

theorem headRun_chunk (sequenceId : Int) (tokens : Nat) (shape : Shape)
    (int : tokens < 2147483648) (dims : shape.dims = [1, (tokens : Int), 1]) :
    ChunkOf { nodes := [headNode] } [0] (headRun sequenceId tokens shape) := by
  refine ⟨int, fun nid member node found _ q bound => ?_⟩
  obtain rfl : nid = 0 := by simpa using member
  obtain rfl := Except.ok.inj found
  obtain rfl := Option.some.inj bound
  change shape.dims[1]? = _
  rw [dims]
  rfl

theorem chunking_invariance_twoChunks :
    ∃ K V : Int → Nat → Buffer ℚ, ∃ before after,
      (Machine.run headStep streamContext [firstToken]).pagedKvCache = some before ∧
      (Machine.run headStep streamContext ([firstToken] ++ [twoTokens])).pagedKvCache =
        some after ∧
      before.sequenceLength 0 = 1 ∧ after.sequenceLength 0 = before.sequenceLength 0 + 2 ∧
      ∃ mid args, attentionArgs headNode mid = .ok args ∧
        RowsAttend unitOps 1 1 1 args (K 0) (V 0) 1
          (outputData (kernelAttention unitOps headNode mid).2 headNode) := by
  have attached : streamContext.pagedKvCache = some (runs streamCalls) := rfl
  have fed : ∀ run ∈ [firstToken, twoTokens],
      run.sequenceId = 0 ∧ ChunkOf { nodes := [headNode] } [0] run := by
    intro run member
    simp only [List.mem_cons, List.not_mem_nil, or_false] at member
    rcases member with rfl | rfl
    · exact ⟨rfl, headRun_chunk 0 1 _ (by decide) rfl⟩
    · exact ⟨rfl, headRun_chunk 0 2 _ (by decide) rfl⟩
  have success : Machine.Guarded headStep
      (Succeeds unitOps (fun _ => none) { nodes := [headNode] } [0]) streamContext
      [firstToken, twoTokens] := by
    refine ⟨?_, ?_, trivial⟩
    · change (pagedRun _ _ _ _ _ _).1 = none
      decide +kernel
    · change (pagedRun _ _ _ _ _ _).1 = none
      decide +kernel
  obtain ⟨K, V, all⟩ := chunking_invariance unitOps_law onlyData_none headNode_layered (by decide)
    attached streamCalls_bounds (by decide) rfl rfl (by decide) rfl fed success
  obtain ⟨before, after, held, heldAfter, length, grown, _, attends⟩ :=
    all [firstToken] twoTokens [] rfl
  obtain ⟨args, accepted, _, _, rows⟩ := attends headNode _ ⟨[], 0, [], rfl, rfl, rfl⟩ rfl
  have layer : args.layerIdx = 0 := (attentionArgs_accepted accepted).layerIdx
  have heads : args.nh.toNat = 1 := by
    rw [(attentionArgs_accepted accepted).heads]
    rfl
  rw [layer, heads] at rows
  exact ⟨K, V, before, after, held, heldAfter, length, grown, _, args, accepted, rows⟩

-- Five blocks of 2^30 rows, and a chunk of 2^32 + 1 tokens.
def wideChunkContext : RuntimeContext ℚ :=
  { pagedKvCache := some (runs [.init 1 1 1 1073741824 5]) }

def wideChunk : PagedRun ℚ := headRun 0 4294967297 { dims := [1, 4294967297, 1] }

/-- The kernel counts the tokens of the chunk in an `int`: the run stores a single row
and succeeds. -/
theorem wideChunk_dropped :
    Succeeds unitOps (fun _ => none) { nodes := [headNode] } [0] wideChunkContext wideChunk ∧
      ∃ before after, wideChunkContext.pagedKvCache = some before ∧
        (headStep wideChunkContext wideChunk).pagedKvCache = some after ∧
        wideChunk.tokens ≤ before.freeBlocks.length * before.blockSize ∧
        before.sequenceLength 0 = 0 ∧ after.sequenceLength 0 = 1 := by
  refine ⟨by unfold Succeeds; decide +kernel, ?_⟩
  have length : (headStep wideChunkContext wideChunk).pagedKvCache.map (·.sequenceLength 0) =
      some 1 := by decide +kernel
  obtain ⟨after, left, same⟩ := Option.map_eq_some_iff.mp length
  exact ⟨_, after, rfl, left, by decide +kernel, by decide +kernel, same⟩

end TwoChunks

section Failures

/-- The checks that writing the next `count` rows of a sequence has to pass. -/
def HasRoom (paged : PagedKVCache α) (seqId layer : Int) (count : Nat) : Prop :=
  0 ≤ seqId ∧ 0 ≤ layer ∧ layer < paged.numLayers ∧
    paged.sequenceLength seqId + count < 2147483648 ∧
    paged.missingBlocks seqId (paged.sequenceLength seqId + count) ≤ paged.freeBlocks.length

/-- An attention node that rejects its arguments, or finds no room for a first row. -/
def Refuses (graph : Graph α) (ctx : RuntimeContext α) (run : PagedRun α) (nid : Nat) : Prop :=
  0 < run.tokens ∧ ∃ node, graph.node nid = .ok node ∧ node.opType = .attention ∧
    ∀ args, attentionArgs node (enter ctx run) = .ok args →
      ∀ paged, ctx.pagedKvCache = some paged → ¬ HasRoom paged run.sequenceId args.layerIdx 1

/-- A node that goes through: attention accepts its arguments and finds room for the
chunk, and another node runs on whatever tensors of the same shapes. -/
def Passes (ops : FloatOps α) (other : KernelRegistry α (RuntimeContext α)) (graph : Graph α)
    (ctx : RuntimeContext α) (run : PagedRun α) (nid : Nat) : Prop :=
  (∀ node, graph.node nid = .ok node → node.opType = .attention →
    ∃ args paged, attentionArgs node (enter ctx run) = .ok args ∧ ctx.pagedKvCache = some paged ∧
      HasRoom paged run.sequenceId args.layerIdx run.tokens ∧
      paged.sequenceLength run.sequenceId + run.tokens + paged.blockSize ≤ 2147483648) ∧
  (nodeLayer graph nid = none → ∀ mid, SameForms run.bindings mid.bindings →
    (∀ seqLen, posOffset mid seqLen = posOffset (enter ctx run) seqLen) →
    (CpuExecutor.runNode (cpuRegistry ops other) graph nid mid).1 = none)

/-- A node that fails on whatever tensors of the same shapes. -/
def Breaks (ops : FloatOps α) (other : KernelRegistry α (RuntimeContext α)) (graph : Graph α)
    (ctx : RuntimeContext α) (run : PagedRun α) (nid : Nat) : Prop :=
  ∀ mid, SameForms run.bindings mid.bindings →
    (∀ seqLen, posOffset mid seqLen = posOffset (enter ctx run) seqLen) →
    (CpuExecutor.runNode (cpuRegistry ops other) graph nid mid).1 ≠ none

/-- The condition on the state before a run. Its position is fresh and its offsets are
`int`s. A node before the first attention node breaks, or that node refuses, or from it
on all nodes go through. -/
structure Spares (ops : FloatOps α) (other : KernelRegistry α (RuntimeContext α)) (graph : Graph α)
    (order : List Nat) (ctx : RuntimeContext α) (run : PagedRun α) : Prop where
  fresh : Fresh ctx run
  ints : ChunkInts ops graph order (enter ctx run)
  nodes : ∃ first rest, order = first ++ rest ∧ (∀ nid ∈ first, nodeLayer graph nid = none) ∧
    ((∃ nid ∈ first, Breaks ops other graph ctx run nid) ∨
      (∃ nid ∈ rest.head?, Refuses graph ctx run nid) ∨
      (∀ nid ∈ rest, Passes ops other graph ctx run nid) ∧
        (enter ctx run).advanceKvCacheStep.1.isOk = true)

/-- What a failure may leave: a cache that stands for the same rows. -/
def Untouched (paged : PagedKVCache α) (ctx : RuntimeContext α) : Prop :=
  ∃ after, PagedMode ctx after ∧ SameShape paged after ∧
    ∀ map, paged.Refines map → after.Refines map

omit [LinearOrder α] in
theorem Placed.untouched {ctx : RuntimeContext α} {paged : PagedKVCache α} {seqId start : Int}
    (placed : Placed ctx paged seqId start) : Untouched paged ctx :=
  ⟨paged, placed.toPagedMode, SameShape.refl paged, fun _ => id⟩

omit [LinearOrder α] in
theorem pagedWrites_noRoom {args : AttentionArgs α} {paged : PagedKVCache α} {seqId : Int}
    (serving : paged.Serving) (tokens : 0 < args.seqLen)
    (full : ¬ HasRoom paged seqId args.layerIdx 1) :
    ∃ st after, pagedWrites args seqId (paged.sequenceLength seqId) paged = (some st, after) ∧
      ∀ map, paged.Refines map → after.Refines map := by
  have low := serving.lengths seqId
  have int := serving.ints seqId
  have first := fun {map : RowMap α} => @writeToken_refines α _ paged map seqId args.layerIdx
    (paged.sequenceLength seqId) (fun d => args.k.data (0 * args.kvHidden.toNat + d))
    (fun d => args.v.data (0 * args.kvHidden.toNat + d)) int
  have place : wrap32 (paged.sequenceLength seqId + (0 : Nat)) = paged.sequenceLength seqId := by
    rw [Nat.cast_zero, Int.add_zero]
    exact wrap32_eq _ (by omega) int
  have some : 0 < args.seqLen.toNat := by omega
  cases result : paged.writeTokens seqId args.layerIdx (paged.sequenceLength seqId)
    (.some fun d => args.k.data (0 * args.kvHidden.toNat + d))
    (.some fun d => args.v.data (0 * args.kvHidden.toNat + d)) 1 with
  | mk st after =>
      rw [result] at first
      have bad : st.isOk = false := by
        obtain ⟨_, accepted⟩ := first (contents_refines serving.owned serving.rowFits)
        by_contra fine
        obtain ⟨known, layerLow, layerHigh, _, bound, room⟩ := accepted (by simpa using fine)
        exact full ⟨known, layerLow, layerHigh, bound, room⟩
      refine ⟨st, after, loopTry_stops _ _ _ _ _ some ?_, fun map refined => ?_⟩
      · simp only [place, result, bad, Bool.not_false, if_true]
      · simpa [bad] using (first refined).1

/-- An attention node that cannot store a row fails and leaves the rows it found. -/
theorem kernelAttention_noRow (ops : FloatOps α) {node : Node α} {ctx : RuntimeContext α}
    {paged : PagedKVCache α} {seqId : Int}
    (placed : Placed ctx paged seqId (paged.sequenceLength seqId))
    (refuses : ∀ args, attentionArgs node ctx = .ok args →
      AttentionFits ops args (node.outputs.getD 0 0) ctx ∧ 0 < args.seqLen ∧
        ¬ HasRoom paged seqId args.layerIdx 1) :
    ∃ failure after, kernelAttention ops node ctx = (some failure, after) ∧ Untouched paged after := by
  cases accepted : attentionArgs node ctx with
  | error failure =>
      refine ⟨failure, ctx, ?_, placed.untouched⟩
      simp only [kernelAttention, accepted]
  | ok args =>
      obtain ⟨fits, tokens, full⟩ := refuses args accepted
      have low := placed.lengths seqId
      have int := placed.ints seqId
      obtain ⟨bindings, frame, _⟩ :=
        pagedAttention_frame ops args (node.outputs.getD 0 0) paged ctx
      have shape := (pagedWrites_frame args seqId (paged.sequenceLength seqId) paged).1
      have serving := (pagedWrites_stores args seqId placed.toServing low int).1
      obtain ⟨st, after, stopped, kept⟩ := pagedWrites_noRoom placed.toServing tokens full
      rw [placed.position, placed.sequence, stopped] at frame
      rw [stopped] at shape serving
      have failed : (pagedAttention ops args (node.outputs.getD 0 0) paged ctx).1 =
          some (.returned st) := by
        simp only [pagedAttention, placed.position, placed.sequence, stopped]
      rw [kernelAttention_eq ops placed.cache accepted fits]
      exact ⟨.returned st, _, Prod.ext failed frame, after, ⟨serving, rfl, int⟩, shape, kept⟩

omit [Field α] [LinearOrder α] in
theorem pagedWrites_none {args : AttentionArgs α} (empty : args.seqLen = 0) (seqId start : Int)
    (paged : PagedKVCache α) : pagedWrites args seqId start paged = (none, paged) := by
  rw [pagedWrites, empty]
  rfl

/-- Nodes without attention leave the cache. -/
theorem runNodes_idle (ops : FloatOps α) {other : KernelRegistry α (RuntimeContext α)}
    (onlyData : OnlyData other) {graph : Graph α} {nodes : List Nat}
    (idle : ∀ nid ∈ nodes, nodeLayer graph nid = none) {ctx : RuntimeContext α}
    {paged : PagedKVCache α} {seqId start : Int} (placed : Placed ctx paged seqId start) :
    Placed (CpuExecutor.runNodes (cpuRegistry ops other) graph nodes ctx).2 paged seqId start := by
  refine tryList_preserves (fun mid => Placed mid paged seqId start) _ nodes ctx placed ?_
  intro nid member mid held
  rcases CpuExecutor.runNode_cases (cpuRegistry ops other) graph nid mid with
    ⟨same, _⟩ | ⟨node, kernel, found, registered, same, _⟩
  · rw [same]
    exact held
  · have noAttention : node.opType ≠ .attention := fun op => by
      have layer := nodeLayer_attention found op
      rw [idle nid member] at layer
      cases layer
    rw [same, (kernel_onlyData ops onlyData registered noAttention mid).1]
    exact held.rebind _

/-- A run does not come past a node that breaks. -/
theorem runNodes_breaks (ops : FloatOps α) {other : KernelRegistry α (RuntimeContext α)}
    (onlyData : OnlyData other) {graph : Graph α} {ctx : RuntimeContext α} {run : PagedRun α}
    {paged : PagedKVCache α} {seqId start : Int} (placed : Placed (enter ctx run) paged seqId start)
    {nodes : List Nat} {nid : Nat} (member : nid ∈ nodes)
    (breaks : Breaks ops other graph ctx run nid) :
    (CpuExecutor.runNodes (cpuRegistry ops other) graph nodes (enter ctx run)).1 ≠ none := by
  obtain ⟨before, behind, rfl⟩ := List.append_of_mem member
  obtain ⟨⟨_, here⟩, continues⟩ := runNodes_placed ops onlyData graph before ⟨paged, placed⟩
  have failed := breaks _ continues.forms fun seqLen =>
    (here.offset seqLen).trans (placed.offset seqLen).symm
  rw [CpuExecutor.runNodes, tryList_append, ← CpuExecutor.runNodes]
  generalize CpuExecutor.runNodes (cpuRegistry ops other) graph before (enter ctx run) = result
    at failed ⊢
  obtain ⟨_ | _, mid⟩ := result
  · simp only [tryList]
    generalize CpuExecutor.runNode (cpuRegistry ops other) graph nid mid = ended at failed ⊢
    obtain ⟨_ | _, _⟩ := ended
    · exact absurd rfl failed
    · simp
  · simp

/-- Lengths, and all rows that could be read, read the same. -/
def KeepsRows (before after : PagedKVCache α) : Prop :=
  (∀ id, after.sequenceLength id = before.sequenceLength id) ∧
    ∀ (id layer pos head : Int) (key value : Buffer α),
      before.keyPtr id layer pos head = .ok key → before.valuePtr id layer pos head = .ok value →
      ∃ key' value', after.keyPtr id layer pos head = .ok key' ∧
        after.valuePtr id layer pos head = .ok value' ∧
        ∀ d < before.headDim, key' d = key d ∧ value' d = value d

omit [LinearOrder α] in
theorem keepsRows {before after : PagedKVCache α} (serving : before.Serving)
    (shape : SameShape before after) (kept : ∀ map, before.Refines map → after.Refines map) :
    KeepsRows before after := by
  have held := kept _ (contents_refines serving.owned serving.rowFits)
  have length : ∀ id, after.sequenceLength id = before.sequenceLength id := held.length
  exact ⟨length, fun id layer pos head key value foundKey foundValue =>
    contents_kept serving.size held shape (length id).ge (fun _ entry => entry) foundKey foundValue⟩

variable [IsStrictOrderedRing α] {ops : FloatOps α} {other : KernelRegistry α (RuntimeContext α)}
  {graph : Graph α} {order : List Nat} {nkv hd : Nat}

/-- What a session keeps: the cache stands for the rows of its successful runs. -/
def Kept (graph : Graph α) (order : List Nat) (nkv hd : Nat)
    (state : RuntimeContext α × RowMap α) : Prop :=
  ∃ paged, PagedMode state.1 paged ∧
    Recorded paged state.2 (layersOf graph order) nkv hd Set.univ

omit [LinearOrder α] [Field α] [IsStrictOrderedRing α] in
theorem nodeLayer_some {nid : Nat} (layer : nodeLayer graph nid ≠ none) :
    ∃ node, graph.node nid = .ok node ∧ node.opType = .attention := by
  unfold nodeLayer at layer
  cases found : graph.node nid with
  | error st => simp [found] at layer
  | ok node =>
      simp only [found] at layer
      exact ⟨node, rfl, by_contra fun other => layer (if_neg other)⟩

section Spared

variable {ctx : RuntimeContext α} {run : PagedRun α} {nid : Nat}
  (chunk : ChunkOf graph order run) (ints : ChunkInts ops graph order (enter ctx run))
  (member : nid ∈ order)

include chunk ints member

omit [IsStrictOrderedRing α] in
/-- A node that refuses does so wherever the run comes to it. -/
theorem runNode_refuses {paged : PagedKVCache α} (attached : ctx.pagedKvCache = some paged)
    {mid : RuntimeContext α} (forms : SameForms (enter ctx run).bindings mid.bindings)
    (placed : Placed mid paged run.sequenceId (paged.sequenceLength run.sequenceId))
    (refuses : Refuses graph ctx run nid) :
    ∃ failure, (CpuExecutor.runNode (cpuRegistry ops other) graph nid mid).1 = some failure ∧
      Untouched paged (CpuExecutor.runNode (cpuRegistry ops other) graph nid mid).2 := by
  obtain ⟨some, node, found, op, full⟩ := refuses
  obtain ⟨failure, after, failed, untouched⟩ := kernelAttention_noRow ops placed
    (fun args accepted => by
      obtain ⟨_, _, _, _, bound⟩ := attentionArgs_forms forms.symm accepted
      refine ⟨ints.attentionFits member found op forms placed.cache accepted, ?_,
        full _ bound paged attached⟩
      rw [chunk.tokens forms member found op accepted]
      exact_mod_cast some)
  obtain ⟨same, fine⟩ := runNode_attention ops other found op mid
  rw [failed] at same fine
  rw [same]
  refine ⟨_, Option.eq_some_of_isSome (Option.isSome_iff_ne_none.mpr fun ran => ?_), untouched⟩
  cases fine.mp ran

/-- A node that goes through does so wherever the run comes to it. -/
theorem Ongoing.passes (law : ExpLaw ops.exp) (layered : Layered graph order nkv hd) {start : Nat}
    {before : PagedKVCache α} (begun : Placed (enter ctx run) before run.sequenceId start)
    (length : before.sequenceLength run.sequenceId = start) {base : RowMap α}
    (filled : ∀ l ∈ layersOf graph order, Filled base run.sequenceId l start) {done : List Nat}
    {state : RuntimeContext α × RowMap α} {paged : PagedKVCache α}
    (ongoing : Ongoing graph run start before base nkv hd done state paged)
    (passes : Passes ops other graph ctx run nid) :
    (trackNode ops other graph start nid state).1 = none := by
  change (CpuExecutor.runNode (cpuRegistry ops other) graph nid state.1).1 = none
  by_cases layer : nodeLayer graph nid = none
  · exact passes.2 layer state.1 ongoing.forms fun seqLen =>
      (ongoing.placed.offset seqLen).trans (begun.offset seqLen).symm
  · obtain ⟨node, found, op⟩ := nodeLayer_some layer
    obtain ⟨entered, held, accepted, attached, room, rounds⟩ := passes.1 node found op
    obtain rfl := Option.some.inj (begun.attached.symm.trans attached)
    have forms : SameForms (enter ctx run).bindings state.1.bindings := ongoing.forms
    obtain ⟨q, k, v, output, here⟩ := attentionArgs_forms forms accepted
    have fits := ints.attentionFits member found op forms ongoing.placed.cache here
    have layer := nodeLayer_attention found op
    rw [← (attentionArgs_accepted here).layerIdx] at layer
    obtain ⟨tokens, ended⟩ := ongoing.attends law layered chunk begun.int.2 member found op here fits
      (filled _ (List.mem_filterMap.mpr ⟨nid, member, layer⟩))
    obtain ⟨known, layerLow, layerHigh, _, enough⟩ := room
    have written : (pagedWrites { entered with q := q, k := k, v := v, output := output }
        run.sequenceId start paged).1 = none := by
      obtain none | some := Nat.eq_zero_or_pos run.tokens
      · rw [pagedWrites_none (tokens.trans (by rw [none]; rfl))]
      · rw [pagedWrites_ok_iff (Int.natCast_nonneg start) tokens some ongoing.placed.ready known
          ⟨layerLow, by rw [ongoing.shape.numLayers]; exact layerHigh⟩
          (by rw [ongoing.shape.blockSize, ← length]; exact rounds), ongoing.short, ← length]
        unfold shortage
        omega
    rw [(runNode_attention ops other found op state.1).2]
    generalize kernelAttention ops node state.1 = result at ended ⊢
    obtain ⟨err, after⟩ := result
    cases err with
    | none => rfl
    | some failure => exact absurd written ended.1

end Spared

/-- Nodes that all go through leave a run on its way. -/
theorem Ongoing.allPass (law : ExpLaw ops.exp) (onlyData : OnlyData other)
    (layered : Layered graph order nkv hd) {ctx : RuntimeContext α} {run : PagedRun α}
    (chunk : ChunkOf graph order run) (ints : ChunkInts ops graph order (enter ctx run))
    {start : Nat} {before : PagedKVCache α}
    (begun : Placed (enter ctx run) before run.sequenceId start)
    (length : before.sequenceLength run.sequenceId = start) {base : RowMap α}
    (filled : ∀ l ∈ layersOf graph order, Filled base run.sequenceId l start) {first : List Nat}
    {state : RuntimeContext α × RowMap α}
    (ongoing : ∃ paged, Ongoing graph run start before base nkv hd first state paged)
    {rest : List Nat} (inside : ∀ nid ∈ rest, nid ∈ order)
    (passes : ∀ nid ∈ rest, Passes ops other graph ctx run nid) :
    (trackNodes ops other graph start rest state).1 = none := by
  have ended : Ends
      (fun state => ∃ paged, Ongoing graph run start before base nkv hd (first ++ rest) state paged)
      (fun _ _ => False) (trackNodes ops other graph start rest state) := by
    refine tryList_invariant (fun done state => ∃ paged,
      Ongoing graph run start before base nkv hd (first ++ done) state paged) (fun _ _ => False) _
      rest state (by simpa using ongoing) ?_
    rintro done nid others mid split ⟨paged, here⟩
    have member : nid ∈ rest := by rw [split]; simp
    have ran := here.passes chunk ints (inside nid member) law layered begun length filled
      (passes nid member)
    have stepped := here.step law onlyData layered chunk begun.int.2 filled (inside nid member)
    generalize trackNode ops other graph start nid mid = result at ran stepped ⊢
    obtain ⟨err, next⟩ := result
    obtain rfl : err = none := ran
    rw [← List.append_assoc]
    exact stepped rfl
  generalize trackNodes ops other graph start rest state = result at ended ⊢
  obtain ⟨_ | _, _⟩ := result
  · rfl
  · exact ended.elim

/-- A run that comes to nodes which all go through succeeds. -/
theorem passing_succeeds (law : ExpLaw ops.exp) (onlyData : OnlyData other)
    (layered : Layered graph order nkv hd) {state : RuntimeContext α × RowMap α} {run : PagedRun α}
    (chunk : ChunkOf graph order run) {paged : PagedKVCache α} (mode : PagedMode state.1 paged)
    (recorded : Recorded paged state.2 (layersOf graph order) nkv hd Set.univ)
    (fresh : Fresh state.1 run) (ints : ChunkInts ops graph order (enter state.1 run))
    {first rest : List Nat} (split : order = first ++ rest) {mid : RuntimeContext α}
    (reached : CpuExecutor.runNodes (cpuRegistry ops other) graph first (enter state.1 run) =
      (none, mid))
    (passes : ∀ nid ∈ rest, Passes ops other graph state.1 run nid)
    (advances : (enter state.1 run).advanceKvCacheStep.1.isOk = true) :
    Succeeds ops other graph order state.1 run := by
  let start := (state.2.length run.sequenceId).toNat
  have begun := recorded.begun mode trivial fresh
  have startEq : (start : Int) = state.2.length run.sequenceId := by
    have low := mode.lengths run.sequenceId
    rw [recorded.refined.length] at low
    exact Int.toNat_of_nonneg low
  have length : paged.sequenceLength run.sequenceId = start :=
    (recorded.refined.length _).trans startEq.symm
  have filled : ∀ l ∈ layersOf graph order, Filled state.2 run.sequenceId l start := by
    intro l layer
    rw [startEq]
    exact recorded.filled l layer _ trivial
  have ran : (trackNodes ops other graph start order (enter state.1 run, state.2)).1 = none := by
    have tracked := trackNodes_run ops other graph start first (enter state.1 run, state.2)
    have ended := Ongoing.nodes law onlyData layered chunk begun.placed.int.2 filled ⟨_, begun⟩
      (show ∀ nid ∈ first, nid ∈ order from fun nid member => by
        rw [split]
        exact List.mem_append_left _ member)
    rw [reached] at tracked
    rw [split, trackNodes, tryList_append, ← trackNodes]
    generalize trackNodes ops other graph start first (enter state.1 run, state.2) = result
      at tracked ended ⊢
    obtain ⟨err, after⟩ := result
    obtain rfl : err = none := congrArg Prod.fst tracked
    exact Ongoing.allPass law onlyData layered chunk ints begun.placed length filled ended
      (fun nid member => by rw [split]; exact List.mem_append_right _ member) passes
  have all := trackNodes_run ops other graph start order (enter state.1 run, state.2)
  have continues := (runNodes_placed ops onlyData graph order ⟨paged, begun.placed⟩).2.advance
  unfold Succeeds pagedRun CpuExecutor.run
  rw [ran] at all
  rw [← all] at continues ⊢
  have advanced : (trackNodes ops other graph start order
      (enter state.1 run, state.2)).2.1.advanceKvCacheStep.1.isOk = true := by
    rw [continues]
    exact advances
  simp [advanced]

omit [IsStrictOrderedRing α] in
/-- A run whose nodes stop ends where they stop. -/
theorem pagedStep_stops {ctx after : RuntimeContext α} {run : PagedRun α} {failure : Failure}
    (stopped : CpuExecutor.runNodes (cpuRegistry ops other) graph order (enter ctx run) =
      (some failure, after)) : pagedStep ops other graph order ctx run = after := by
  unfold pagedStep pagedRun CpuExecutor.run
  rw [stopped]

/-- A run that is spared succeeds or leaves the rows it found. -/
theorem Spares.either (law : ExpLaw ops.exp) (onlyData : OnlyData other)
    (layered : Layered graph order nkv hd) {state : RuntimeContext α × RowMap α} {run : PagedRun α}
    (chunk : ChunkOf graph order run) {paged : PagedKVCache α} (mode : PagedMode state.1 paged)
    (recorded : Recorded paged state.2 (layersOf graph order) nkv hd Set.univ)
    (spares : Spares ops other graph order state.1 run) :
    Succeeds ops other graph order state.1 run ∨
      Untouched paged (pagedStep ops other graph order state.1 run) := by
  obtain ⟨first, rest, split, idle, outcome⟩ := spares.nodes
  have entered := spares.fresh.placed mode
  have left := runNodes_idle ops onlyData idle entered
  have continues := (runNodes_placed ops onlyData graph first ⟨paged, entered⟩).2
  have nodes : CpuExecutor.runNodes (cpuRegistry ops other) graph order (enter state.1 run) =
      match CpuExecutor.runNodes (cpuRegistry ops other) graph first (enter state.1 run) with
      | (none, mid) => CpuExecutor.runNodes (cpuRegistry ops other) graph rest mid
      | (some failure, mid) => (some failure, mid) := by
    rw [split, CpuExecutor.runNodes, tryList_append, ← CpuExecutor.runNodes]
    generalize CpuExecutor.runNodes (cpuRegistry ops other) graph first (enter state.1 run) = result
    obtain ⟨_ | _, _⟩ := result <;> rfl
  cases prefixed : CpuExecutor.runNodes (cpuRegistry ops other) graph first (enter state.1 run) with
  | mk err mid =>
      rw [prefixed] at left continues nodes
      cases err with
      | some failure =>
          right
          rw [pagedStep_stops nodes]
          exact left.untouched
      | none =>
          rcases outcome with ⟨nid, member, breaks⟩ | ⟨nid, head, refuses⟩ | ⟨passes, advances⟩
          · exact absurd (congrArg Prod.fst prefixed)
              (runNodes_breaks ops onlyData entered member breaks)
          · right
            obtain ⟨others, rfl⟩ := List.head?_eq_some_iff.mp head
            obtain ⟨failure, failed, untouched⟩ := runNode_refuses chunk spares.ints
              (by rw [split]; simp) mode.attached continues.forms left refuses
            have stopped : CpuExecutor.runNodes (cpuRegistry ops other) graph order
                (enter state.1 run) = (some failure,
                  (CpuExecutor.runNode (cpuRegistry ops other) graph nid mid).2) := by
              rw [nodes]
              simp only [CpuExecutor.runNodes, tryList]
              generalize CpuExecutor.runNode (cpuRegistry ops other) graph nid mid = result
                at failed ⊢
              obtain ⟨err, after⟩ := result
              obtain rfl : err = some failure := failed
              rfl
            rw [pagedStep_stops stopped]
            exact untouched
          · left
            exact passing_succeeds law onlyData layered chunk mode recorded spares.fresh spares.ints
              split prefixed passes advances

omit [IsStrictOrderedRing α] in
theorem recordStep_failure {state : RuntimeContext α × RowMap α} {run : PagedRun α}
    (failed : ¬ Succeeds ops other graph order state.1 run) :
    (recordStep ops other graph order state run).2 = state.2 := by
  obtain ⟨failure, same⟩ := Option.ne_none_iff_exists'.mp failed
  change (if (pagedRun ops other graph order state.1 run).1.isNone then _ else state.2) = state.2
  rw [same]
  rfl

/-- A run that is spared and fails: its cache stands for the same rows. -/
theorem recordStep_spared (law : ExpLaw ops.exp) (onlyData : OnlyData other)
    (layered : Layered graph order nkv hd) {state : RuntimeContext α × RowMap α}
    {run : PagedRun α} (chunk : ChunkOf graph order run) {paged : PagedKVCache α}
    (mode : PagedMode state.1 paged)
    (recorded : Recorded paged state.2 (layersOf graph order) nkv hd Set.univ)
    (spares : Spares ops other graph order state.1 run)
    (failed : ¬ Succeeds ops other graph order state.1 run) :
    ∃ after, PagedMode (recordStep ops other graph order state run).1 after ∧
      Recorded after state.2 (layersOf graph order) nkv hd Set.univ ∧ KeepsRows paged after := by
  obtain ⟨after, left, shape, kept⟩ :=
    (spares.either law onlyData layered chunk mode recorded).resolve_left failed
  exact ⟨after, left, ⟨shape.numKvHeads.trans recorded.heads,
    shape.headDim.trans recorded.headDim, kept _ recorded.refined, recorded.int, recorded.filled⟩,
    keepsRows mode.toServing shape kept⟩

theorem kept_step (law : ExpLaw ops.exp) (onlyData : OnlyData other)
    (layered : Layered graph order nkv hd) {state : RuntimeContext α × RowMap α}
    {run : PagedRun α} (chunk : ChunkOf graph order run) (kept : Kept graph order nkv hd state)
    (spares : Spares ops other graph order state.1 run) :
    Kept graph order nkv hd (recordStep ops other graph order state run) := by
  obtain ⟨paged, mode, recorded⟩ := kept
  by_cases success : Succeeds ops other graph order state.1 run
  · obtain ⟨⟨after, extended⟩, _⟩ := recordStep_success law onlyData layered chunk mode recorded
      trivial spares.fresh success
    exact ⟨after, extended.mode, extended.recorded⟩
  · obtain ⟨after, left, same, _⟩ :=
      recordStep_spared law onlyData layered chunk mode recorded spares success
    rw [← recordStep_failure success] at same
    exact ⟨after, left, same⟩

theorem kept_run (law : ExpLaw ops.exp) (onlyData : OnlyData other)
    (layered : Layered graph order nkv hd) {session : List (PagedRun α)}
    (chunks : ∀ run ∈ session, ChunkOf graph order run) {state : RuntimeContext α × RowMap α}
    (kept : Kept graph order nkv hd state)
    (guarded : Machine.Guarded (recordStep ops other graph order)
      (fun state run => Spares ops other graph order state.1 run) state session) :
    Kept graph order nkv hd (Machine.run (recordStep ops other graph order) state session) := by
  induction session generalizing state with
  | nil => exact kept
  | cons run rest ih =>
      exact ih (fun run member => chunks run (List.mem_cons_of_mem _ member))
        (kept_step law onlyData layered (chunks run List.mem_cons_self) kept guarded.1) guarded.2

/-- The rows of the successful runs of a session, behind those the calls stored. -/
def sessionRows (ops : FloatOps α) (other : KernelRegistry α (RuntimeContext α)) (graph : Graph α)
    (order : List Nat) (ctx : RuntimeContext α) (calls : List (Op α))
    (session : List (PagedRun α)) : RowMap α :=
  (Machine.run (recordStep ops other graph order) (ctx, (runs calls).contents) session).2

/-- In a session of runs on any sequences, each of them spared, a failed run keeps every
length and row, and a run that succeeds attends over the rows of the successful runs
before it and its own. -/
theorem failed_run_traceless (law : ExpLaw ops.exp) (onlyData : OnlyData other)
    (layered : Layered graph order nkv hd) {ctx : RuntimeContext α} {calls : List (Op α)}
    (attached : ctx.pagedKvCache = some (runs calls))
    (bounds : ∀ op ∈ calls, op.IsInt ∧ op.Bounded)
    (ready : (runs calls).initialized = true) (heads : (runs calls).numKvHeads = nkv)
    (headDim : (runs calls).headDim = hd)
    (filled : ∀ l ∈ layersOf graph order, ∀ id,
      Filled (runs calls).contents id l ((runs calls).sequenceLength id))
    {session : List (PagedRun α)} (chunks : ∀ run ∈ session, ChunkOf graph order run)
    (guarded : Machine.Guarded (pagedStep ops other graph order)
      (Spares ops other graph order) ctx session)
    {prior rest : List (PagedRun α)} {run : PagedRun α} (split : session = prior ++ run :: rest) :
    ∃ before after,
      (Machine.run (pagedStep ops other graph order) ctx prior).pagedKvCache = some before ∧
      (Machine.run (pagedStep ops other graph order) ctx (prior ++ [run])).pagedKvCache =
        some after ∧
      (¬ Succeeds ops other graph order
          (Machine.run (pagedStep ops other graph order) ctx prior) run →
        KeepsRows before after) ∧
      (Succeeds ops other graph order
          (Machine.run (pagedStep ops other graph order) ctx prior) run →
        ∀ node mid, Starts ops other graph order
            (enter (Machine.run (pagedStep ops other graph order) ctx prior) run) node mid →
          node.opType = .attention → ∃ args, attentionArgs node mid = .ok args ∧
            args.seqLen = run.tokens ∧
            RowsFed
              (keyRows (sessionRows ops other graph order ctx calls (prior ++ [run]))
                run.sequenceId args.layerIdx)
              (valueRows (sessionRows ops other graph order ctx calls (prior ++ [run]))
                run.sequenceId args.layerIdx)
              (before.sequenceLength run.sequenceId).toNat run.tokens (nkv * hd) args ∧
            RowsAttend ops args.nh.toNat nkv hd args
              (keyRows (sessionRows ops other graph order ctx calls (prior ++ [run]))
                run.sequenceId args.layerIdx)
              (valueRows (sessionRows ops other graph order ctx calls (prior ++ [run]))
                run.sequenceId args.layerIdx)
              (before.sequenceLength run.sequenceId).toNat
              (outputData (kernelAttention ops node mid).2 node)) := by
  let record := recordStep ops other graph order
  let start : RuntimeContext α × RowMap α := (ctx, (runs calls).contents)
  have serving := runs_serving bounds ready
  have mode : PagedMode ctx (runs calls) := by
    obtain ⟨first, others, same⟩ := List.exists_cons_of_ne_nil (show session ≠ [] by simp [split])
    rw [same] at guarded
    exact guarded.1.fresh.mode attached serving
  have kept : Kept graph order nkv hd start :=
    ⟨runs calls, mode, heads, headDim, contents_refines serving.owned serving.rowFits,
      fun id _ => serving.ints id, fun l layer id _ => filled l layer id⟩
  have recorded := (Machine.guarded_project Prod.fst record (pagedStep ops other graph order)
    (Spares ops other graph order) (fun _ _ => rfl) start session).mpr guarded
  rw [split, Machine.guarded_append] at recorded
  obtain ⟨early, spares, _⟩ := recorded
  have priorChunks : ∀ other ∈ prior, ChunkOf graph order other := by
    intro other member
    apply chunks other
    rw [split]
    exact List.mem_append_left _ member
  have chunk : ChunkOf graph order run := chunks run (by rw [split]; simp)
  obtain ⟨before, mode, rows⟩ := kept_run law onlyData layered priorChunks kept early
  have next : Machine.run record start (prior ++ [run]) =
      record (Machine.run record start prior) run := by
    rw [Machine.run_append]
    rfl
  have context : ∀ session, Machine.run (pagedStep ops other graph order) ctx session =
      (Machine.run record start session).1 :=
    fun session => (recordRun_context ops other graph order start session).symm
  rw [context, context, sessionRows, next]
  by_cases success : Succeeds ops other graph order (Machine.run record start prior).1 run
  · obtain ⟨⟨after, extended⟩, attends⟩ := recordStep_success law onlyData layered chunk mode rows
      trivial spares.fresh success
    rw [← rows.refined.length] at attends
    exact ⟨before, after, mode.attached, extended.mode.attached,
      fun failed => absurd success failed, fun _ => attends⟩
  · obtain ⟨after, left, _, keeps⟩ :=
      recordStep_spared law onlyData layered chunk mode rows spares success
    exact ⟨before, after, mode.attached, left.attached, fun _ => keeps,
      fun fine => absurd fine success⟩

end Failures

section BrokenRuns

-- The tensors of this run are not bound, so attention rejects its arguments.
def unboundRun : PagedRun ℚ := { sequenceId := 0, tokens := 1, bindings := fun _ => none }

theorem unboundRun_fails : ¬ Succeeds unitOps (fun _ => none) { nodes := [headNode] } [0]
    streamContext unboundRun := by
  unfold Succeeds
  decide

theorem unboundRun_spared : Spares unitOps (fun _ => none) { nodes := [headNode] } [0]
    streamContext unboundRun := by
  have rejected : ∀ args, attentionArgs headNode (enter streamContext unboundRun) ≠ .ok args :=
    fun args no => by cases no
  refine ⟨Or.inl (by decide), fun nid member node found => ?_, [], [0], rfl, by simp,
    Or.inr (Or.inl ⟨0, rfl, by decide, headNode, rfl, rfl,
      fun args no => absurd no (rejected args)⟩)⟩
  obtain rfl : nid = 0 := by simpa using member
  obtain rfl := Except.ok.inj found
  exact ⟨fun _ args no => absurd no (rejected args), fun no => by cases no⟩

theorem firstToken_passes (ctx : RuntimeContext ℚ)
    (attached : ctx.pagedKvCache = some (runs streamCalls)) :
    Passes unitOps (fun _ => none) { nodes := [headNode] } ctx firstToken 0 := by
  refine ⟨fun node found _ => ?_, fun no => by cases no⟩
  obtain rfl := Except.ok.inj found
  exact ⟨_, runs streamCalls, rfl, attached,
    ⟨by decide, by decide, by decide, by decide, by decide⟩, by decide⟩

theorem firstToken_spared : Spares unitOps (fun _ => none) { nodes := [headNode] } [0]
    (headStep streamContext unboundRun) firstToken := by
  refine ⟨Or.inl (by decide), oneToken_ints _ 0, [], [0], rfl, by simp,
    Or.inr (Or.inr ⟨?_, by decide⟩)⟩
  intro nid member
  obtain rfl : nid = 0 := by simpa using member
  exact firstToken_passes _ rfl

theorem failed_run_traceless_unbound :
    ∃ before after,
      (Machine.run headStep streamContext []).pagedKvCache = some before ∧
      (Machine.run headStep streamContext ([] ++ [unboundRun])).pagedKvCache = some after ∧
      KeepsRows before after := by
  have attached : streamContext.pagedKvCache = some (runs streamCalls) := rfl
  have empty : ∀ id, (runs streamCalls).sequenceLength id = 0 := uninitialized_length _ rfl
  have filled : ∀ l ∈ layersOf ({ nodes := [headNode] } : Graph ℚ) [0], ∀ id,
      Filled (runs streamCalls).contents id l ((runs streamCalls).sequenceLength id) := by
    intro l _ id pos low high
    rw [empty] at high
    omega
  have chunks : ∀ run ∈ [unboundRun, firstToken], ChunkOf { nodes := [headNode] } [0] run := by
    intro run member
    simp only [List.mem_cons, List.not_mem_nil, or_false] at member
    rcases member with rfl | rfl
    · exact ⟨by decide, fun nid _ node _ _ q bound => by cases bound⟩
    · exact headRun_chunk 0 1 _ (by decide) rfl
  have guarded : Machine.Guarded headStep
      (Spares unitOps (fun _ => none) { nodes := [headNode] } [0]) streamContext
      [unboundRun, firstToken] := ⟨unboundRun_spared, firstToken_spared, trivial⟩
  have split : [unboundRun, firstToken] = [] ++ unboundRun :: [firstToken] := rfl
  obtain ⟨before, after, held, left, keeps, _⟩ := failed_run_traceless unitOps_law onlyData_none
    headNode_layered attached streamCalls_bounds (by decide) rfl rfl filled chunks guarded split
  exact ⟨before, after, held, left, keeps unboundRun_fails⟩

-- One free row for a chunk of two tokens.
def shortCalls : List (Op ℚ) := [.init 1 1 1 1 1]

theorem shortCalls_bounds : ∀ op ∈ shortCalls, op.IsInt ∧ op.Bounded := by
  simp [shortCalls, Op.IsInt, Op.Bounded]

def shortContext : RuntimeContext ℚ := { pagedKvCache := some (runs shortCalls) }

/-- The run fails on its second row, and the first one stays. -/
theorem failed_run_leaves_row :
    ¬ Succeeds unitOps (fun _ => none) { nodes := [headNode] } [0] shortContext twoTokens ∧
      ∃ before after, shortContext.pagedKvCache = some before ∧
        (headStep shortContext twoTokens).pagedKvCache = some after ∧
        before.sequenceLength 0 = 0 ∧ after.sequenceLength 0 = 1 := by
  refine ⟨by unfold Succeeds; decide, ?_⟩
  obtain ⟨after, mode⟩ : ∃ after, PagedMode (headStep shortContext twoTokens) after :=
    pagedStep_mode unitOps onlyData_none _ _ twoTokens
      ⟨_, runs_serving shortCalls_bounds (by decide), rfl, by decide⟩
  have length : (headStep shortContext twoTokens).pagedKvCache.map (·.sequenceLength 0) =
      some 1 := by decide
  rw [mode.attached, Option.map_some, Option.some.injEq] at length
  exact ⟨_, after, rfl, mode.attached, by decide, length⟩

end BrokenRuns

end MiniLLM.CpuKernelAdapter
