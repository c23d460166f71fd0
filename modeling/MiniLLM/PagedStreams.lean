import MiniLLM.BlockRoom
import MiniLLM.PagedRuns

/-!
The rows that the runs of a session leave behind. Beside the context goes the map
of the rows of successful runs; a run adds the rows its attention nodes are fed,
and each of its output rows attends over that map.
-/

namespace MiniLLM.CpuKernelAdapter

open Loops Strides PagedKVCache Softmax

variable {α : Type} [Field α] [LinearOrder α]

section Rows

-- The cache layer an attention node writes.
def nodeLayer (graph : Graph α) (nid : Nat) : Option Int :=
  match graph.node nid with
  | .ok node =>
      if node.opType = .attention then some (wrap32 (node.attrInt "layer_idx" 0)) else none
  | .error _ => none

def layersOf (graph : Graph α) (order : List Nat) : List Int := order.filterMap (nodeLayer graph)

/-- The map after a node: an attention node adds its chunk from `start` on. -/
def nodeRows (graph : Graph α) (start : Nat) (nid : Nat) (ctx : RuntimeContext α)
    (map : RowMap α) : RowMap α :=
  match graph.node nid with
  | .ok node =>
      if node.opType = .attention then
        match attentionArgs node ctx with
        | .ok args => chunkWritten map args ctx.pagedSequenceId start args.seqLen.toNat
        | .error _ => map
      else map
  | .error _ => map

def trackNode (ops : FloatOps α) (other : KernelRegistry α (RuntimeContext α)) (graph : Graph α)
    (start : Nat) (nid : Nat) (state : RuntimeContext α × RowMap α) :
    Option Failure × RuntimeContext α × RowMap α :=
  let result := CpuExecutor.runNode (cpuRegistry ops other) graph nid state.1
  (result.1, result.2, nodeRows graph start nid state.1 state.2)

def trackNodes (ops : FloatOps α) (other : KernelRegistry α (RuntimeContext α)) (graph : Graph α)
    (start : Nat) (order : List Nat) (state : RuntimeContext α × RowMap α) :
    Option Failure × RuntimeContext α × RowMap α :=
  tryList (trackNode ops other graph start) order state

/-- A session step with the map of the rows of successful runs beside the context:
a failed run adds nothing to the map. -/
def recordStep (ops : FloatOps α) (other : KernelRegistry α (RuntimeContext α)) (graph : Graph α)
    (order : List Nat) (state : RuntimeContext α × RowMap α) (run : PagedRun α) :
    RuntimeContext α × RowMap α :=
  let (failure, ctx) := pagedRun ops other graph order state.1 run
  let start := (state.2.length run.sequenceId).toNat
  (ctx, if failure.isNone then
    (trackNodes ops other graph start order (enter state.1 run, state.2)).2.2 else state.2)

omit [LinearOrder α] [Field α] in
theorem nodeRows_idle (graph : Graph α) (start nid : Nat) (ctx : RuntimeContext α) (map : RowMap α)
    (idle : nodeLayer graph nid = none) : nodeRows graph start nid ctx map = map := by
  unfold nodeLayer at idle
  unfold nodeRows
  cases found : graph.node nid with
  | error st => rfl
  | ok node =>
      simp only [found] at idle ⊢
      split
      · next op => rw [if_pos op] at idle; cases idle
      · rfl

omit [LinearOrder α] [Field α] in
/-- A node leaves the rows of other layers, and the rows below the chunk. -/
theorem nodeRows_frame (graph : Graph α) (start nid : Nat) (ctx : RuntimeContext α)
    (map : RowMap α) {id l pos : Int} (apart : nodeLayer graph nid ≠ some l) :
    (nodeRows graph start nid ctx map).row id l pos = map.row id l pos := by
  unfold nodeLayer at apart
  unfold nodeRows
  cases found : graph.node nid with
  | error st => rfl
  | ok node =>
      simp only [found] at apart ⊢
      split
      · next op =>
          rw [if_pos op] at apart
          cases accepted : attentionArgs node ctx with
          | error failure => rfl
          | ok args =>
              have layer := (attentionArgs_accepted accepted).layerIdx
              apply RowMap.write_untouched
              rintro ⟨_, same, _⟩
              exact apart (congrArg some (layer.symm.trans same))
      · rfl

theorem trackNodes_run (ops : FloatOps α) (other : KernelRegistry α (RuntimeContext α))
    (graph : Graph α) (start : Nat) (order : List Nat) (state : RuntimeContext α × RowMap α) :
    ((trackNodes ops other graph start order state).1,
        (trackNodes ops other graph start order state).2.1) =
      CpuExecutor.runNodes (cpuRegistry ops other) graph order state.1 :=
  tryList_project Prod.fst (trackNode ops other graph start)
    (CpuExecutor.runNode (cpuRegistry ops other) graph) (fun _ _ => rfl) order state

theorem trackNodes_frame (ops : FloatOps α) (other : KernelRegistry α (RuntimeContext α))
    (graph : Graph α) (start : Nat) (order : List Nat) (state : RuntimeContext α × RowMap α)
    {id l pos : Int} (apart : l ∉ layersOf graph order) :
    (trackNodes ops other graph start order state).2.2.row id l pos = state.2.row id l pos := by
  refine tryList_preserves (fun after : RuntimeContext α × RowMap α =>
    after.2.row id l pos = state.2.row id l pos) _ order state rfl ?_
  intro nid member after same
  refine (nodeRows_frame graph start nid after.1 after.2 fun layer => apart ?_).trans same
  exact List.mem_filterMap.mpr ⟨nid, member, layer⟩

end Rows

section Nodes

/-- The attention nodes have the KV heads of the cache and a layer each. -/
structure Layered (graph : Graph α) (order : List Nat) (nkv hd : Nat) : Prop where
  heads : ∀ nid ∈ order, ∀ node, graph.node nid = .ok node → node.opType = .attention →
    wrap32 (node.attrInt "num_kv_heads" 12) = nkv ∧ wrap32 (node.attrInt "head_dim" 64) = hd
  distinct : (layersOf graph order).Nodup

omit [Field α] [LinearOrder α] in
theorem Layered.geometry {graph : Graph α} {order : List Nat} {nkv hd : Nat}
    (layered : Layered graph order nkv hd) {nid : Nat} (member : nid ∈ order) {node : Node α}
    (found : graph.node nid = .ok node) (op : node.opType = .attention)
    {ctx : RuntimeContext α} {args : AttentionArgs α} (accepted : attentionArgs node ctx = .ok args)
    (row : args.nh * args.hd ≤ intMax) : Geometry args args.nh.toNat nkv hd := by
  obtain ⟨kvHeads, headDim⟩ := layered.heads nid member node found op
  have ok := attentionArgs_accepted accepted
  have geometry := ok.geometry row
  rwa [show args.nkv.toNat = nkv by rw [ok.kvHeads, kvHeads, Int.toNat_natCast],
    show args.hd.toNat = hd by rw [ok.headDim, headDim, Int.toNat_natCast]] at geometry

/-- The run binds chunks of its length, an `int`, to the queries of the attention nodes. -/
structure ChunkOf (graph : Graph α) (order : List Nat) (run : PagedRun α) : Prop where
  int : run.tokens < 2147483648
  dims : ∀ nid ∈ order, ∀ node, graph.node nid = .ok node → node.opType = .attention →
    ∀ q, run.bindings (node.inputs.getD 0 0) = some q → q.shape.dim 1 = some (run.tokens : Int)

/-- The cache is the map's, and in every attention layer each position of the
sequences `ids` has a row. -/
structure Recorded (paged : PagedKVCache α) (map : RowMap α) (layers : List Int) (nkv hd : Nat)
    (ids : Set Int) : Prop where
  heads : paged.numKvHeads = nkv
  headDim : paged.headDim = hd
  refined : paged.Refines map
  int : ∀ id ∈ ids, map.length id < 2147483648
  filled : ∀ l ∈ layers, ∀ id ∈ ids, Filled map id l (map.length id)

/-- A run on its way: `done` nodes have run since it started at `start` on the cache
`before`, which stands for `base`. -/
structure Ongoing (graph : Graph α) (run : PagedRun α) (start : Nat) (before : PagedKVCache α)
    (base : RowMap α) (nkv hd : Nat) (done : List Nat) (state : RuntimeContext α × RowMap α)
    (paged : PagedKVCache α) : Prop where
  placed : Placed state.1 paged run.sequenceId start
  shape : SameShape before paged
  short : ∀ total, paged.shortage run.sequenceId total = before.shortage run.sequenceId total
  heads : paged.numKvHeads = nkv
  headDim : paged.headDim = hd
  refined : paged.Refines state.2
  forms : SameForms run.bindings state.1.bindings
  int : state.2.length run.sequenceId < 2147483648
  length : state.2.length run.sequenceId =
    if layersOf graph done = [] then (start : Int) else start + run.tokens
  lengths : ∀ id, id ≠ run.sequenceId → state.2.length id = base.length id
  frame : ∀ id l pos, ¬ (id = run.sequenceId ∧ (start : Int) ≤ pos) →
    state.2.row id l pos = base.row id l pos
  filled : ∀ l ∈ layersOf graph done, Filled state.2 run.sequenceId l (start + run.tokens)

variable [IsStrictOrderedRing α] {ops : FloatOps α} {graph : Graph α} {order : List Nat}
  {nkv hd : Nat} {run : PagedRun α} {start : Nat} {before : PagedKVCache α} {base : RowMap α}

omit [Field α] [LinearOrder α] [IsStrictOrderedRing α] in
/-- The kernel counts the tokens of the run. -/
theorem ChunkOf.tokens (chunk : ChunkOf graph order run) {ctx : RuntimeContext α}
    (forms : SameForms run.bindings ctx.bindings) {nid : Nat} (member : nid ∈ order)
    {node : Node α} (found : graph.node nid = .ok node) (op : node.opType = .attention)
    {args : AttentionArgs α} (accepted : attentionArgs node ctx = .ok args) :
    args.seqLen = run.tokens := by
  have ok := attentionArgs_accepted accepted
  have bound := forms (node.inputs.getD 0 0)
  rw [ok.bindsQ] at bound
  obtain ⟨q, fed, same⟩ := Option.map_eq_some_iff.mp bound.symm
  have shape : q.shape = args.q.shape := congrArg Prod.fst same
  have dim := chunk.dims nid member node found op q fed
  obtain ⟨d, inside, cast⟩ := ok.seqLen
  rw [shape, inside, Option.some.injEq] at dim
  have int := chunk.int
  rw [cast, dim, wrap32_eq _ (by omega) (by omega)]

/-- The attention kernel of a node that is reached: its rows go to the map, and its
output attends over the map, or it stops in the write loop. -/
theorem Ongoing.attends (law : ExpLaw ops.exp) (layered : Layered graph order nkv hd)
    (chunk : ChunkOf graph order run) {done : List Nat} {state : RuntimeContext α × RowMap α}
    {paged : PagedKVCache α}
    (ongoing : Ongoing graph run start before base nkv hd done state paged)
    (int : (start : Int) < 2147483648) {nid : Nat} (member : nid ∈ order) {node : Node α}
    (found : graph.node nid = .ok node) (op : node.opType = .attention) {args : AttentionArgs α}
    (accepted : attentionArgs node state.1 = .ok args)
    (fits : AttentionFits ops args (node.outputs.getD 0 0) state.1)
    (filled : Filled base run.sequenceId args.layerIdx start) :
    args.seqLen = run.tokens ∧
    Ends
      (fun after => ∃ cache data,
        after = (wroteAt state.1 start cache).writeData (node.outputs.getD 0 0) data ∧
        cache.Refines (chunkWritten state.2 args run.sequenceId start run.tokens) ∧
        SameShape paged cache ∧ (start : Int) + run.tokens < 2147483648 ∧
        RowsAttend ops args.nh.toNat nkv hd args
          (keyRows (chunkWritten state.2 args run.sequenceId start run.tokens) run.sequenceId
            args.layerIdx)
          (valueRows (chunkWritten state.2 args run.sequenceId start run.tokens) run.sequenceId
            args.layerIdx) start data)
      (fun _ after => (pagedWrites args run.sequenceId start paged).1 ≠ none ∧ ∃ cache i,
        after = wroteAt state.1 start cache ∧
        cache.Refines (chunkWritten state.2 args run.sequenceId start i) ∧ SameShape paged cache)
      (kernelAttention ops node state.1) := by
  have ok := attentionArgs_accepted accepted
  have tokens := chunk.tokens ongoing.forms member found op accepted
  have geometry := layered.geometry member found op accepted fits.1
  have positive : 0 < args.nh.toNat ∧ 0 < nkv ∧ 0 < hd := by
    have := ok.positive
    have := geometry.kvHeads
    have := geometry.headDim
    omega
  have count : args.seqLen.toNat = run.tokens := by rw [tokens, Int.toNat_natCast]
  have attended := pagedAttention_attends ops law geometry (by omega) positive
    (node.outputs.getD 0 0) ongoing.placed.position int ongoing.placed.ready ongoing.heads
    ongoing.headDim ongoing.refined
    (by
      rw [ongoing.placed.sequence, count, ongoing.length]
      split
      · exact Or.inl rfl
      · exact Or.inr rfl)
    (by
      rw [ongoing.placed.sequence]
      intro pos low high
      rw [ongoing.frame _ _ _ (by omega)]
      exact filled pos low high)
  rw [ongoing.placed.sequence, count] at attended
  rw [kernelAttention_eq ops ongoing.placed.cache accepted fits]
  exact ⟨tokens, attended⟩

omit [LinearOrder α] [Field α] [IsStrictOrderedRing α] in
theorem chunkWritten_isSome {map : RowMap α} (args : AttentionArgs α) (seqId first : Int)
    (count : Nat) {id l pos : Int} (held : (map.row id l pos).isSome) :
    ((chunkWritten map args seqId first count).row id l pos).isSome := by
  rw [chunkWritten, RowMap.write_row]
  simp only [RowMap.written]
  split
  · rfl
  · exact held

omit [LinearOrder α] [Field α] [IsStrictOrderedRing α] in
theorem layersOf_snoc (graph : Graph α) (done : List Nat) (nid : Nat) :
    layersOf graph (done ++ [nid]) = layersOf graph done ++ (nodeLayer graph nid).toList := by
  rw [layersOf, List.filterMap_append]
  cases layer : nodeLayer graph nid <;> simp [layersOf, layer]

omit [LinearOrder α] [Field α] [IsStrictOrderedRing α] in
theorem nodeLayer_attention {graph : Graph α} {nid : Nat} {node : Node α}
    (found : graph.node nid = .ok node) (op : node.opType = .attention) :
    nodeLayer graph nid = some (wrap32 (node.attrInt "layer_idx" 0)) := by
  simp only [nodeLayer, found, op, if_true]

omit [LinearOrder α] [Field α] [IsStrictOrderedRing α] in
theorem nodeLayer_other {graph : Graph α} {nid : Nat}
    (other : ∀ node, graph.node nid = .ok node → node.opType ≠ .attention) :
    nodeLayer graph nid = none := by
  unfold nodeLayer
  cases found : graph.node nid with
  | error st => rfl
  | ok node => exact if_neg (other node found)

omit [IsStrictOrderedRing α] [LinearOrder α] in
/-- A node without attention leaves the map and the cache. -/
theorem Ongoing.idle {done : List Nat} {nid : Nat} {state : RuntimeContext α × RowMap α}
    {paged : PagedKVCache α} (ongoing : Ongoing graph run start before base nkv hd done state paged)
    (none : nodeLayer graph nid = .none) {bindings : Nat → Option (Tensor α)}
    (forms : SameForms state.1.bindings bindings) :
    Ongoing graph run start before base nkv hd (done ++ [nid])
      ({ state.1 with bindings := bindings }, nodeRows graph start nid state.1 state.2) paged := by
  have layers : layersOf graph (done ++ [nid]) = layersOf graph done := by
    rw [layersOf_snoc, none]
    exact List.append_nil _
  rw [nodeRows_idle graph start nid state.1 state.2 none]
  exact ⟨ongoing.placed.rebind bindings, ongoing.shape, ongoing.short, ongoing.heads, ongoing.headDim, ongoing.refined,
    ongoing.forms.trans forms, ongoing.int, by rw [layers]; exact ongoing.length, ongoing.lengths,
    ongoing.frame, by rw [layers]; exact ongoing.filled⟩

theorem Ongoing.step (law : ExpLaw ops.exp) {other : KernelRegistry α (RuntimeContext α)}
    (onlyData : OnlyData other) (layered : Layered graph order nkv hd)
    (chunk : ChunkOf graph order run) (int : (start : Int) < 2147483648)
    (filled : ∀ l ∈ layersOf graph order, Filled base run.sequenceId l start) {done : List Nat}
    {nid : Nat} {state : RuntimeContext α × RowMap α} {paged : PagedKVCache α}
    (ongoing : Ongoing graph run start before base nkv hd done state paged) (member : nid ∈ order)
    (success : (trackNode ops other graph start nid state).1 = none) :
    ∃ after, Ongoing graph run start before base nkv hd (done ++ [nid])
      (trackNode ops other graph start nid state).2 after := by
  obtain ⟨ctx, map⟩ := state
  unfold trackNode at success ⊢
  dsimp only at success ⊢
  rcases CpuExecutor.runNode_cases (cpuRegistry ops other) graph nid ctx with
    ⟨same, idle⟩ | ⟨node, kernel, found, registered, same, fine⟩
  · rw [same]
    have none : nodeLayer graph nid = .none := nodeLayer_other fun node found op => by
      have source := idle node found (by rw [op]; rfl)
      rw [op] at source
      simp at source
    exact ⟨paged, ongoing.idle none (SameForms.refl _)⟩
  · rw [same]
    have ran := fine.mp success
    by_cases attention : node.opType = .attention
    · rw [attention] at registered
      obtain rfl := Option.some.inj registered
      cases accepted : attentionArgs node ctx with
      | error failure => simp [kernelAttention, accepted] at ran
      | ok args =>
          have layer := nodeLayer_attention found attention
          rw [← (attentionArgs_accepted accepted).layerIdx] at layer
          have inOrder : args.layerIdx ∈ layersOf graph order :=
            List.mem_filterMap.mpr ⟨nid, member, layer⟩
          have fits := kernelAttention_success accepted ran
          obtain ⟨tokens, ended⟩ := ongoing.attends law layered chunk int member found attention
            accepted fits (filled _ inOrder)
          obtain ⟨next, placed, _⟩ := kernelAttention_placed ops ongoing.placed
          have stored := kernelAttention_stores ongoing.placed accepted fits
          have pool := pagedWrites_pool args run.sequenceId start paged
          have rows : nodeRows graph start nid ctx map =
              chunkWritten map args run.sequenceId start run.tokens := by
            have sequence : ctx.pagedSequenceId = run.sequenceId := ongoing.placed.sequence
            simp only [nodeRows, found, attention, accepted, if_true, sequence, tokens,
              Int.toNat_natCast]
          rw [rows]
          generalize kernelAttention ops node ctx = result at ran ended placed stored ⊢
          obtain ⟨err, after⟩ := result
          obtain rfl : err = .none := ran
          obtain ⟨cache, data, wrote, refined, shape, bound, _⟩ := ended
          dsimp only at wrote placed stored ⊢
          have attached : after.pagedKvCache = some cache := by
            rw [wrote]
            rfl
          obtain rfl := Option.some.inj (attached.symm.trans placed.attached)
          have written := Option.some.inj (attached.symm.trans stored)
          have forms : SameForms ctx.bindings after.bindings := by
            rw [wrote]
            exact writeData_forms (wroteAt ctx start cache) _ data
          refine ⟨cache, placed, ongoing.shape.trans shape, fun total => ?_,
            shape.numKvHeads.trans ongoing.heads,
            shape.headDim.trans ongoing.headDim, refined, ongoing.forms.trans forms, ?_, ?_, ?_,
            ?_, ?_⟩
          · rw [written, (pool total).1]
            exact ongoing.short total
          · have before := ongoing.length
            dsimp only at before
            rw [chunkWritten, RowMap.write_length, before]
            split <;> split <;> omega
          · have before := ongoing.length
            dsimp only at before
            rw [layersOf_snoc, layer, if_neg (by simp), chunkWritten, RowMap.write_length, before]
            split <;> split <;> omega
          · intro id different
            rw [chunkWritten, RowMap.write_length, if_neg fun same => different same.1]
            exact ongoing.lengths id different
          · intro id l pos outside
            rw [chunkWritten, RowMap.write_untouched _ _ _ (by omega)]
            exact ongoing.frame id l pos outside
          · intro l belongs pos low high
            rw [layersOf_snoc, layer, List.mem_append] at belongs
            rcases belongs with old | new
            · exact chunkWritten_isSome args _ _ _ (ongoing.filled l old pos low high)
            · obtain rfl : l = args.layerIdx := by simpa using new
              refine chunkWritten_filled (fun pos low high => ?_) run.tokens pos low high
              rw [ongoing.frame _ _ _ (by omega)]
              exact filled _ inOrder pos low high
    · have none : nodeLayer graph nid = .none := nodeLayer_other fun other same => by
        rw [← Except.ok.inj (found.symm.trans same)]
        exact attention
      obtain ⟨context, forms⟩ := kernel_onlyData ops onlyData registered attention ctx
      rw [context]
      exact ⟨paged, ongoing.idle none forms⟩

theorem Ongoing.nodes (law : ExpLaw ops.exp) {other : KernelRegistry α (RuntimeContext α)}
    (onlyData : OnlyData other) (layered : Layered graph order nkv hd)
    (chunk : ChunkOf graph order run) (int : (start : Int) < 2147483648)
    (filled : ∀ l ∈ layersOf graph order, Filled base run.sequenceId l start)
    {state : RuntimeContext α × RowMap α}
    (begun : ∃ paged, Ongoing graph run start before base nkv hd [] state paged) {nodes : List Nat}
    (inside : ∀ nid ∈ nodes, nid ∈ order) :
    Ends (fun state => ∃ paged, Ongoing graph run start before base nkv hd nodes state paged)
      (fun _ _ => True) (trackNodes ops other graph start nodes state) := by
  refine tryList_invariant
    (fun done state => ∃ paged, Ongoing graph run start before base nkv hd done state paged)
    (fun _ _ => True) _ nodes state begun ?_
  rintro first nid rest state split ⟨paged, ongoing⟩
  have member : nid ∈ order := inside nid (by rw [split]; simp)
  have stepped := ongoing.step law onlyData layered chunk int filled member
  generalize trackNode ops other graph start nid state = result at stepped ⊢
  obtain ⟨err, next⟩ := result
  cases err with
  | none => exact stepped rfl
  | some failure => trivial

end Nodes

section Runs

variable [IsStrictOrderedRing α] {ops : FloatOps α} {other : KernelRegistry α (RuntimeContext α)}
  {graph : Graph α} {order : List Nat} {nkv hd : Nat} {run : PagedRun α}
  {ctx : RuntimeContext α} {map : RowMap α} {paged : PagedKVCache α} {ids : Set Int}

omit [Field α] [LinearOrder α] [IsStrictOrderedRing α] in
theorem Recorded.begun [Field α] (mode : PagedMode ctx paged)
    (recorded : Recorded paged map (layersOf graph order) nkv hd ids)
    (member : run.sequenceId ∈ ids) (fresh : Fresh ctx run) :
    Ongoing graph run (map.length run.sequenceId).toNat paged map nkv hd [] (enter ctx run, map)
      paged := by
  have length := recorded.refined.length run.sequenceId
  have low := mode.lengths run.sequenceId
  have start : ((map.length run.sequenceId).toNat : Int) = map.length run.sequenceId := by omega
  have placed := fresh.placed mode
  rw [length, ← start] at placed
  refine ⟨placed, SameShape.refl paged, fun _ => rfl, recorded.heads, recorded.headDim,
    recorded.refined, SameForms.refl _, recorded.int _ member, by rw [start]; rfl, fun _ _ => rfl, fun _ _ _ _ => rfl, fun l no => ?_⟩
  cases no

/-- The chunk's K and V rows are those of the streams at its positions. -/
def RowsFed (K V : Nat → Buffer α) (start tokens width : Nat) (args : AttentionArgs α) : Prop :=
  ∀ s < tokens, ∀ c < width, K (start + s) c = args.k.data (s * width + c) ∧
    V (start + s) c = args.v.data (s * width + c)

omit [LinearOrder α] [IsStrictOrderedRing α] in
theorem chunkWritten_fed (map : RowMap α) (args : AttentionArgs α) (seqId : Int)
    (start tokens : Nat) :
    RowsFed (keyRows (chunkWritten map args seqId start tokens) seqId args.layerIdx)
      (valueRows (chunkWritten map args seqId start tokens) seqId args.layerIdx) start tokens
      map.width args := by
  intro s inside c _
  have row : (chunkWritten map args seqId start tokens).row seqId args.layerIdx (start + s : Nat) =
      some (fun j => args.k.data (s * map.width + j), fun j => args.v.data (s * map.width + j)) := by
    rw [chunkWritten, RowMap.write_row]
    simp only [RowMap.written]
    rw [if_pos ⟨trivial, trivial, by omega, by omega⟩,
      show ((start + s : Nat) - start : Int).toNat = s by omega]
  simp only [keyRows, valueRows, row, Option.getD_some, and_self]

omit [IsStrictOrderedRing α] in
theorem runNode_attention (ops : FloatOps α) (other : KernelRegistry α (RuntimeContext α))
    {graph : Graph α} {nid : Nat} {node : Node α} (found : graph.node nid = .ok node)
    (op : node.opType = .attention) (ctx : RuntimeContext α) :
    (CpuExecutor.runNode (cpuRegistry ops other) graph nid ctx).2 =
        (kernelAttention ops node ctx).2 ∧
      ((CpuExecutor.runNode (cpuRegistry ops other) graph nid ctx).1 = none ↔
        (kernelAttention ops node ctx).1 = none) := by
  rcases CpuExecutor.runNode_cases (cpuRegistry ops other) graph nid ctx with
    ⟨_, idle⟩ | ⟨other, kernel, same, registered, after, fine⟩
  · have source := idle node found (by rw [op]; rfl)
    rw [op] at source
    simp at source
  · obtain rfl := Except.ok.inj (found.symm.trans same)
    rw [op] at registered
    obtain rfl := Option.some.inj registered
    exact ⟨after, fine⟩

/-- Every attention node of a run that succeeds is fed the rows that the map holds
after the run, and attends over the map. -/
theorem trackNodes_attends (law : ExpLaw ops.exp) (onlyData : OnlyData other)
    (layered : Layered graph order nkv hd) (chunk : ChunkOf graph order run) {start : Nat}
    (int : (start : Int) < 2147483648) {before : PagedKVCache α} {base : RowMap α}
    (filled : ∀ l ∈ layersOf graph order, Filled base run.sequenceId l start)
    {state : RuntimeContext α × RowMap α}
    (begun : ∃ paged, Ongoing graph run start before base nkv hd [] state paged)
    (success : (trackNodes ops other graph start order state).1 = none) {node : Node α}
    {mid : RuntimeContext α} (starts : Starts ops other graph order state.1 node mid)
    (op : node.opType = .attention) :
    ∃ args, attentionArgs node mid = .ok args ∧ args.seqLen = run.tokens ∧
      RowsFed
        (keyRows (trackNodes ops other graph start order state).2.2 run.sequenceId args.layerIdx)
        (valueRows (trackNodes ops other graph start order state).2.2 run.sequenceId args.layerIdx)
        start run.tokens (nkv * hd) args ∧
      RowsAttend ops args.nh.toNat nkv hd args
        (keyRows (trackNodes ops other graph start order state).2.2 run.sequenceId args.layerIdx)
        (valueRows (trackNodes ops other graph start order state).2.2 run.sequenceId args.layerIdx)
        start (outputData (kernelAttention ops node mid).2 node) := by
  obtain ⟨first, nid, rest, split, found, reached⟩ := starts
  have member : nid ∈ order := by rw [split]; simp
  have before := Ongoing.nodes law onlyData layered chunk int filled begun
    (show ∀ other ∈ first, other ∈ order from fun other old => by
      rw [split]
      exact List.mem_append_left _ old)
  have tracked := trackNodes_run ops other graph start first state
  rw [reached] at tracked
  rw [split, trackNodes, tryList_append, ← trackNodes] at success ⊢
  generalize trackNodes ops other graph start first state = result at tracked before success ⊢
  obtain ⟨err, ctx, held⟩ := result
  obtain ⟨rfl, rfl⟩ := Prod.mk.inj tracked
  obtain ⟨paged, ongoing⟩ := before
  dsimp only at success ⊢
  have layer := nodeLayer_attention found op
  obtain ⟨same, fine⟩ := runNode_attention ops other found op ctx
  -- The run went on, so the kernel succeeded.
  have ran : (CpuExecutor.runNode (cpuRegistry ops other) graph nid ctx).1 = none := by
    by_contra failed
    obtain ⟨failure, stopped⟩ := Option.ne_none_iff_exists'.mp failed
    simp [tryList, trackNode, stopped] at success
  have step : trackNode ops other graph start nid (ctx, held) =
      (none, (kernelAttention ops node ctx).2, nodeRows graph start nid ctx held) := by
    simp only [trackNode, ran, same]
  rw [tryList, step]
  dsimp only
  rw [← trackNodes]
  cases accepted : attentionArgs node ctx with
  | error failure => simp [kernelAttention, accepted] at fine; exact absurd ran fine
  | ok args =>
      have ok := attentionArgs_accepted accepted
      rw [← ok.layerIdx] at layer
      obtain ⟨tokens, ended⟩ := ongoing.attends law layered chunk int member found op accepted
        (kernelAttention_success accepted (fine.mp ran)) (filled _ (List.mem_filterMap.mpr ⟨nid, member, layer⟩))
      have rows : nodeRows graph start nid ctx held =
          chunkWritten held args run.sequenceId start run.tokens := by
        have sequence : ctx.pagedSequenceId = run.sequenceId := ongoing.placed.sequence
        simp only [nodeRows, found, op, accepted, if_true, sequence, tokens, Int.toNat_natCast]
      rw [rows]
      have distinct := layered.distinct
      rw [split, layersOf, List.filterMap_append, List.filterMap_cons, layer,
        List.nodup_append] at distinct
      have apart : args.layerIdx ∉ layersOf graph rest := (List.nodup_cons.mp distinct.2.1).1
      have kept : ∀ pos, (trackNodes ops other graph start rest ((kernelAttention ops node ctx).2,
          chunkWritten held args run.sequenceId start run.tokens)).2.2.row run.sequenceId
            args.layerIdx pos =
          (chunkWritten held args run.sequenceId start run.tokens).row run.sequenceId args.layerIdx
            pos :=
        fun pos => trackNodes_frame ops other graph start rest _ apart
      generalize (trackNodes ops other graph start rest ((kernelAttention ops node ctx).2,
        chunkWritten held args run.sequenceId start run.tokens)).2.2 = final at kept ⊢
      have keys : keyRows final run.sequenceId args.layerIdx = keyRows
          (chunkWritten held args run.sequenceId start run.tokens) run.sequenceId args.layerIdx := by
        funext pos
        simp only [keyRows, kept]
      have values : valueRows final run.sequenceId args.layerIdx = valueRows
          (chunkWritten held args run.sequenceId start run.tokens) run.sequenceId args.layerIdx := by
        funext pos
        simp only [valueRows, kept]
      have width : held.width = nkv * hd := by
        rw [ongoing.refined.width, kvHidden_eq ongoing.refined.rowFits, ongoing.heads, ongoing.headDim]
      have fed := chunkWritten_fed held args run.sequenceId start run.tokens
      rw [width] at fed
      refine ⟨args, rfl, tokens, ?_, ?_⟩
      · rw [keys, values]
        exact fed
      · rw [keys, values]
        have done := fine.mp ran
        generalize kernelAttention ops node ctx = result at done ended ⊢
        obtain ⟨err, after⟩ := result
        obtain rfl : err = none := done
        obtain ⟨cache, data, wrote, _, _, _, attend⟩ := ended
        dsimp only at wrote ⊢
        obtain ⟨output, binds⟩ := ok.bindsOutput
        rw [wrote, outputData_write (wroteAt ctx start cache) node data binds]
        exact attend

omit [IsStrictOrderedRing α] in
theorem recordStep_run (state : RuntimeContext α × RowMap α) :
    (recordStep ops other graph order state run).1 =
      pagedStep ops other graph order state.1 run := rfl

omit [IsStrictOrderedRing α] in
/-- A run that succeeds has run its nodes, and reset the write position. -/
theorem pagedRun_success {start : Nat} (success : (pagedRun ops other graph order ctx run).1 = none) :
    (trackNodes ops other graph start order (enter ctx run, map)).1 = none ∧
      pagedStep ops other graph order ctx run =
        (trackNodes ops other graph start order (enter ctx run, map)).2.1.advanceKvCacheStep.2 := by
  have tracked := trackNodes_run ops other graph start order (enter ctx run, map)
  unfold pagedStep
  unfold pagedRun CpuExecutor.run at success ⊢
  dsimp only at tracked
  rw [← tracked] at success ⊢
  generalize trackNodes ops other graph start order (enter ctx run, map) = result at success ⊢
  obtain ⟨err, mid, held⟩ := result
  cases err with
  | some failure => cases success
  | none =>
      refine ⟨rfl, ?_⟩
      dsimp only at success ⊢
      split <;> rfl

/-- What a successful run does to the session: its rows follow the sequence's own in
every layer, and nothing else changes. -/
structure Extended (graph : Graph α) (order : List Nat) (nkv hd : Nat) (ids : Set Int)
    (run : PagedRun α) (map : RowMap α) (state : RuntimeContext α × RowMap α) (paged : PagedKVCache α) : Prop where
  mode : PagedMode state.1 paged
  recorded : Recorded paged state.2 (layersOf graph order) nkv hd ids
  position : state.1.pagedKvWritePos = -1
  length : state.2.length run.sequenceId =
    if layersOf graph order = [] then map.length run.sequenceId
    else map.length run.sequenceId + run.tokens
  lengths : ∀ id, id ≠ run.sequenceId → state.2.length id = map.length id
  frame : ∀ id l pos, ¬ (id = run.sequenceId ∧ map.length run.sequenceId ≤ pos) →
    state.2.row id l pos = map.row id l pos

theorem recordStep_success (law : ExpLaw ops.exp) (onlyData : OnlyData other)
    (layered : Layered graph order nkv hd) (chunk : ChunkOf graph order run)
    (mode : PagedMode ctx paged) (recorded : Recorded paged map (layersOf graph order) nkv hd ids)
    (member : run.sequenceId ∈ ids) (fresh : Fresh ctx run) (success : (pagedRun ops other graph order ctx run).1 = none) :
    (∃ after, Extended graph order nkv hd ids run map
      (recordStep ops other graph order (ctx, map) run) after) ∧
    ∀ node mid, Starts ops other graph order (enter ctx run) node mid → node.opType = .attention →
      ∃ args, attentionArgs node mid = .ok args ∧ args.seqLen = run.tokens ∧
        RowsFed
          (keyRows (recordStep ops other graph order (ctx, map) run).2 run.sequenceId args.layerIdx)
          (valueRows (recordStep ops other graph order (ctx, map) run).2 run.sequenceId
            args.layerIdx)
          (map.length run.sequenceId).toNat run.tokens (nkv * hd) args ∧
        RowsAttend ops args.nh.toNat nkv hd args
          (keyRows (recordStep ops other graph order (ctx, map) run).2 run.sequenceId args.layerIdx)
          (valueRows (recordStep ops other graph order (ctx, map) run).2 run.sequenceId
            args.layerIdx)
          (map.length run.sequenceId).toNat (outputData (kernelAttention ops node mid).2 node) := by
  let start := (map.length run.sequenceId).toNat
  have low : 0 ≤ map.length run.sequenceId := by
    rw [← recorded.refined.length]
    exact mode.lengths _
  have startEq : (start : Int) = map.length run.sequenceId := Int.toNat_of_nonneg low
  have int : (start : Int) < 2147483648 := by
    rw [startEq]
    exact recorded.int _ member
  have filled : ∀ l ∈ layersOf graph order, Filled map run.sequenceId l start := by
    intro l layer
    rw [startEq]
    exact recorded.filled l layer _ member
  have begun := recorded.begun mode member fresh
  obtain ⟨ran, stepped⟩ := @pagedRun_success α _ _ ops other graph order run ctx map start success
  have ended := Ongoing.nodes law onlyData layered chunk int filled ⟨_, begun⟩ fun _ member => member
  have attends := fun node mid => @trackNodes_attends α _ _ _ ops other graph order nkv hd run law
    onlyData layered chunk start int paged map filled _ ⟨_, begun⟩ ran node mid
  have next : recordStep ops other graph order (ctx, map) run =
      ((trackNodes ops other graph start order (enter ctx run, map)).2.1.advanceKvCacheStep.2,
        (trackNodes ops other graph start order (enter ctx run, map)).2.2) := by
    refine Prod.ext (recordStep_run (ctx, map) |>.trans stepped) ?_
    change (if (pagedRun ops other graph order ctx run).1.isNone then _ else _) = _
    rw [success]
    rfl
  rw [next]
  dsimp only
  refine ⟨?_, attends⟩
  generalize trackNodes ops other graph start order (enter ctx run, map) = result at ran ended
  obtain ⟨err, mid, held⟩ := result
  obtain rfl : err = none := ran
  obtain ⟨after, ongoing⟩ := ended
  obtain ⟨cache, _, position⟩ := advance_frame mid
  have length := ongoing.length
  have lengths := ongoing.lengths
  have frame := ongoing.frame
  have sequenceInt := ongoing.int
  have sequenceFilled := ongoing.filled
  rw [startEq] at length frame sequenceFilled
  dsimp only at length lengths frame sequenceInt sequenceFilled ⊢
  refine ⟨after, ⟨ongoing.placed.toServing, cache.trans ongoing.placed.attached, ?_⟩,
    ⟨ongoing.heads, ongoing.headDim, ongoing.refined, fun id known => ?_,
    fun l layer id known => ?_⟩, position, length, lengths, frame⟩
  · dsimp only
    omega
  · by_cases same : id = run.sequenceId
    · rw [same]
      exact sequenceInt
    · rw [lengths id same]
      exact recorded.int id known
  · by_cases same : id = run.sequenceId
    · subst same
      rw [length, if_neg (List.ne_nil_of_mem layer)]
      exact sequenceFilled l layer
    · intro pos lowPos high
      rw [lengths id same] at high
      rw [frame id l pos fun here => same here.1]
      exact recorded.filled l layer id known pos lowPos high

end Runs

end MiniLLM.CpuKernelAdapter
