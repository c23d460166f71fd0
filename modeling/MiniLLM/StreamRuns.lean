import MiniLLM.StreamKernels
import MiniLLM.ContiguousCache
import MiniLLM.PagedStreams
import MiniLLM.TopologicalSort

/-!
Runs of the executor on a graph that denotes the streams of a decoder. The nodes run
in an order in which values are made before they are read; after each node the values
made so far hold their streams. What the attention nodes need of the place where K and
V rows are kept is `Serves`, so the same run lemma covers every mode of the kernel.
-/

namespace MiniLLM

open Loops Strides Cpu CpuKernelAdapter RowStream

variable {α : Type} [Field α] [LinearOrder α]

section Storage

/-- The K and V storage serves a run of `n` tokens at `start`: `held layers` is its
state once the attention nodes of `layers` have run, `fails` what a node that fails leaves. -/
structure Serves (dec : Decoder α) (start n : Nat)
    (held : List Int → RuntimeContext α → Prop) (fails : RuntimeContext α → Prop) : Prop where
  offset : ∀ layers ctx, held layers ctx → posOffset ctx n = start
  rebind : ∀ layers ctx bindings, held layers ctx →
    held layers { ctx with bindings := bindings }
  attends : ∀ layers ctx (node : Node α) (layer : Nat) (s : RowStream α) (q k v output : Tensor α),
    held layers ctx → AttentionNode node dec.nh dec.nkv dec.hd layer true →
    layer < dec.numLayers →
    Feeds ctx.bindings node dec.nh dec.nkv dec.hd s (dec.layerKeys layer) (dec.layerValues layer)
      start n q k v output →
    Ends
      (fun after => ∃ mid data, after = mid.writeData (node.outputs.getD 0 0) data ∧
        mid.bindings = ctx.bindings ∧ held (layers ++ [(layer : Int)]) mid ∧
        WritesRows dec.ops dec.nh dec.nkv dec.hd s (dec.layerKeys layer) (dec.layerValues layer)
          start n data)
      (fun _ after => fails after) (kernelAttention dec.ops node ctx)

end Storage

section Progress

variable {dec : Decoder α} {start n : Nat} {graph : Graph α} {meanings : List (Meaning α)}
  {held : List Int → RuntimeContext α → Prop} {fails : RuntimeContext α → Prop}

/-- The nodes `done` have run: the values they made hold their streams. -/
structure Progress (dec : Decoder α) (start n : Nat) (graph : Graph α)
    (meanings : List (Meaning α)) (held : List Int → RuntimeContext α → Prop) (done : List Nat)
    (ctx : ModelContext α) : Prop where
  stored : held (layersOf graph done) ctx.toRuntimeContext
  ready : ∀ (id : Nat) (meaning : Meaning α), meanings[id]? = some meaning →
    Ready dec start n ctx id meaning
  made : ∀ nid ∈ done, ∀ node : Node α, graph.nodes[nid]? = some node → ∀ id ∈ node.outputs,
    ∀ width s, meanings[id]? = some (.rows width s) → Holds start n ctx id width s

omit [Field α] [LinearOrder α] in
/-- Writing the data of a computed value leaves every value ready. -/
theorem Ready.write {ctx : ModelContext α} {id out width : Nat} {meaning : Meaning α}
    {s : RowStream α} (ready : Ready dec start n ctx id meaning)
    (known : meanings[id]? = some meaning) (computed : meanings[out]? = some (.rows width s))
    (data : Buffer α) :
    Ready dec start n { ctx with toRuntimeContext := ctx.writeData out data } id meaning := by
  by_cases here : id = out
  · subst here
    obtain rfl := Option.some.inj (known.symm.trans computed)
    obtain ⟨tensor, binds, allocated, dims⟩ := ready
    exact ⟨{ tensor with data := data }, by simp [RuntimeContext.writeData, binds], allocated, dims⟩
  · cases meaning with
    | tokens =>
        obtain ⟨unbound, rest⟩ := ready
        exact ⟨by simpa [RuntimeContext.writeData, here] using unbound, rest⟩
    | weight name dims =>
        obtain ⟨tensor, binds, rest⟩ := ready
        exact ⟨tensor, by simpa [RuntimeContext.writeData, here] using binds, rest⟩
    | rows width s =>
        obtain ⟨tensor, binds, rest⟩ := ready
        exact ⟨tensor, by simpa [RuntimeContext.writeData, here] using binds, rest⟩

omit [Field α] [LinearOrder α] in
theorem Holds.write_other {ctx : ModelContext α} {id out width : Nat} {s : RowStream α}
    (holds : Holds start n ctx id width s) (different : id ≠ out) (data : Buffer α) :
    Holds start n { ctx with toRuntimeContext := ctx.writeData out data } id width s := by
  obtain ⟨tensor, binds, chunk⟩ := holds
  exact ⟨tensor, by simpa [RuntimeContext.writeData, different] using binds, chunk⟩

omit [Field α] [LinearOrder α] in
theorem Ready.holds {ctx : ModelContext α} {out width : Nat} {s : RowStream α} {data : Buffer α}
    (ready : Ready dec start n ctx out (.rows width s)) (rows : IsRows start n width s data) :
    Holds start n { ctx with toRuntimeContext := ctx.writeData out data } out width s := by
  obtain ⟨tensor, binds, allocated, dims⟩ := ready
  exact ⟨{ tensor with data := data }, by simp [RuntimeContext.writeData, binds], allocated, dims, rows⟩

omit [Field α] [LinearOrder α] in
/-- A node that has written its stream. -/
theorem Progress.write {done : List Nat} {ctx : ModelContext α} {nid : Nat} {node : Node α}
    {out width : Nat} {s : RowStream α} {data : Buffer α} {mid : RuntimeContext α}
    (progress : Progress dec start n graph meanings held done ctx)
    (found : graph.nodes[nid]? = some node) (outputs : node.outputs = [out])
    (means : meanings[out]? = some (.rows width s)) (rows : IsRows start n width s data)
    (same : mid.bindings = ctx.bindings)
    (stored : held (layersOf graph (done ++ [nid])) (mid.writeData out data)) :
    Progress dec start n graph meanings held (done ++ [nid])
      { ctx with toRuntimeContext := mid.writeData out data } := by
  have written : ∀ id meaning, meanings[id]? = some meaning →
      Ready dec start n { ctx with toRuntimeContext := ctx.writeData out data } id meaning :=
    fun id meaning known => (progress.ready id meaning known).write known means data
  have bindings : (mid.writeData out data).bindings = (ctx.writeData out data).bindings := by
    simp only [RuntimeContext.writeData, same]
  have holds : ∀ id width s, Holds start n
      { ctx with toRuntimeContext := ctx.writeData out data } id width s →
      Holds start n { ctx with toRuntimeContext := mid.writeData out data } id width s := by
    intro id width s held
    obtain ⟨tensor, binds, chunk⟩ := held
    exact ⟨tensor, (congrFun bindings id).trans binds, chunk⟩
  refine ⟨stored, fun id meaning known => ?_, fun i member other foundOther id output w t known => ?_⟩
  · have ready := written id meaning known
    cases meaning with
    | tokens => exact ⟨(congrFun bindings id).trans ready.1, ready.2⟩
    | weight name dims =>
        obtain ⟨tensor, binds, rest⟩ := ready
        exact ⟨tensor, (congrFun bindings id).trans binds, rest⟩
    | rows width s =>
        obtain ⟨tensor, binds, rest⟩ := ready
        exact ⟨tensor, (congrFun bindings id).trans binds, rest⟩
  · refine holds id w t ?_
    by_cases here : id = out
    · subst here
      obtain ⟨rfl, rfl⟩ := Meaning.rows.inj (Option.some.inj (known.symm.trans means))
      exact (progress.ready id _ means).holds rows
    · rcases List.mem_append.mp member with old | new
      · exact (progress.made i old other foundOther id output w t known).write_other here data
      · obtain rfl := List.mem_singleton.mp new
        obtain rfl := Option.some.inj (found.symm.trans foundOther)
        rw [outputs] at output
        exact absurd (List.mem_singleton.mp output) here

end Progress

section Steps

variable {dec : Decoder α} {start n : Nat} {graph : Graph α} {meanings : List (Meaning α)}
  {held : List Int → RuntimeContext α → Prop} {fails : RuntimeContext α → Prop} {order done rest : List Nat}
  {nid : Nat} {node : Node α} {ctx : ModelContext α}

theorem runNode_ends {ops : FloatOps α} {kernel : KernelFn α (ModelContext α)}
    {P : ModelContext α → Prop} (found : graph.nodes[nid]? = some node)
    (registered : cpuKernels ops node.opType = some kernel)
    (executed : node.opType ≠ .input ∧ node.opType ≠ .constant ∧ node.opType ≠ .output)
    (ended : Ends P (fun _ after => fails after.toRuntimeContext) (kernel node ctx)) :
    Ends P (fun _ after => fails after.toRuntimeContext)
      (CpuExecutor.runNode (cpuKernels ops) graph nid ctx) := by
  obtain ⟨notInput, notConstant, notOutput⟩ := executed
  simp only [CpuExecutor.runNode, Graph.node, found, KernelRegistry.find, registered, notInput,
    notConstant, notOutput, or_self, if_false]
  generalize kernel node ctx = result at ended ⊢
  obtain ⟨_ | _ | _, after⟩ := result
  all_goals exact ended

omit [LinearOrder α] in
/-- What a node reads has been made by nodes that have run. -/
theorem Progress.input (progress : Progress dec start n graph meanings held done ctx)
    (denotes : Denotes dec n graph meanings) (ordered : graph.Ordered order)
    (split : order = done ++ nid :: rest) (found : graph.nodes[nid]? = some node) {x width : Nat}
    {s : RowStream α} (reads : x ∈ node.inputs) (means : meanings[x]? = some (.rows width s)) :
    Holds start n ctx x width s ∧ width ∈ dec.widths := by
  obtain ⟨listed, maker, member, outputs⟩ := denotes.made x width s means
  obtain ⟨i, place⟩ := List.getElem?_of_mem member
  have output : x ∈ maker.outputs := by rw [outputs]; exact List.mem_singleton.mpr rfl
  have before := ordered.before done nid rest split i ⟨maker, node, x, place, found, output, reads⟩
  exact ⟨progress.made i before maker place x output width s means, listed⟩

/-- A node whose kernel computes its stream. -/
theorem Progress.computes (serves : Serves dec start n held fails)
    (progress : Progress dec start n graph meanings held done ctx)
    (found : graph.nodes[nid]? = some node) {kernel : KernelFn α (ModelContext α)}
    (registered : cpuKernels dec.ops node.opType = some kernel)
    (executed : node.opType ≠ .input ∧ node.opType ≠ .constant ∧ node.opType ≠ .output)
    (other : node.opType ≠ .attention) {out width : Nat} {s : RowStream α}
    (outputs : node.outputs = [out]) (means : meanings[out]? = some (.rows width s))
    (computes : Computes kernel node ctx start n out width s) :
    Ends (Progress dec start n graph meanings held (done ++ [nid]))
      (fun _ after => fails after.toRuntimeContext)
      (CpuExecutor.runNode (cpuKernels dec.ops) graph nid ctx) := by
  obtain ⟨data, rows, ran⟩ := computes
  refine runNode_ends found registered executed ?_
  rw [ran]
  have layers : layersOf graph (done ++ [nid]) = layersOf graph done := by
    rw [layersOf_snoc, nodeLayer_other, Option.toList_none, List.append_nil]
    intro node' found'
    simp only [Graph.node, found, Except.ok.injEq] at found'
    rwa [← found']
  refine progress.write found outputs means rows rfl ?_
  rw [layers]
  exact serves.rebind _ _ _ progress.stored

variable (wf : dec.WellFormed) (tokens : 0 < n) (fits : dec.Fits n) (last : start + n ≤ 2147483648)
  (depth : dec.numLayers < 2147483648)
  (inside : ∀ i < n, 0 ≤ dec.tokens (start + i) ∧ dec.tokens (start + i) < dec.vocab)
  (serves : Serves dec start n held fails) (denotes : Denotes dec n graph meanings)
  (ordered : graph.Ordered order)
include wf tokens fits last depth inside serves denotes ordered

theorem Progress.step (split : order = done ++ nid :: rest)
    (progress : Progress dec start n graph meanings held done ctx) :
    Ends (Progress dec start n graph meanings held (done ++ [nid]))
      (fun _ after => fails after.toRuntimeContext)
      (CpuExecutor.runNode (cpuKernels dec.ops) graph nid ctx) := by
  have known : nid < graph.nodes.length := by
    have member : nid ∈ order := by rw [split]; simp
    exact List.mem_range.mp (ordered.perm.mem_iff.mp member)
  obtain ⟨node, found⟩ : ∃ node, graph.nodes[nid]? = some node := ⟨_, List.getElem?_eq_getElem known⟩
  have law := denotes.law node (List.mem_of_getElem? found)
  have input := fun {x width s} => @Progress.input α _ dec start n graph meanings held order done rest nid
    node ctx progress denotes ordered split found x width s
  have listed := fun {x width s} means => (denotes.made x width s means).1
  have sized := fun {width} (listed : width ∈ dec.widths) =>
    And.intro (wf.width_pos listed) (fits.width_lt tokens listed)
  have count : n < 2147483648 :=
    (Nat.le_mul_of_pos_right n wf.positive.1).trans_lt (fits.row (by simp [Decoder.widths]))
  have head : 0 < dec.hd ∧ dec.hd < 2147483648 :=
    TransformerGraphBuilder.sizes_small wf tokens fits dec.hd (Or.inl rfl)
  cases law with
  | embedding op inputs outputs idsMean weightMeans outMeans =>
      refine progress.computes serves found (by rw [op]; rfl) (by rw [op]; decide)
        (by rw [op]; decide) outputs outMeans (kernelEmbedding_computes inputs outputs
          (progress.ready _ _ idsMean) (progress.ready _ _ weightMeans)
          (progress.ready _ _ outMeans) inside (sized (by simp [Decoder.widths])) count
          (sized (listed outMeans)) (fits.rows _ (listed outMeans))
          (fits.weights _ (by simp [Decoder.widths])))
  | @linear x weight out inFeatures outFeatures name s op inputs outputs xMeans weightMeans outMeans
      side =>
      obtain ⟨xHolds, xListed⟩ := input (by rw [inputs]; simp) xMeans
      have weights : outFeatures * inFeatures < 2147483648 := by
        rcases side with rfl | rfl
        · exact fits.weights _ (listed outMeans)
        · rw [Nat.mul_comm]
          exact fits.weights _ xListed
      refine progress.computes serves found (by rw [op]; rfl) (by rw [op]; decide)
        (by rw [op]; decide) outputs outMeans (kernelLinear_computes inputs outputs xHolds
          (progress.ready _ _ weightMeans) (progress.ready _ _ outMeans) ⟨tokens, count⟩
          (sized xListed) (sized (listed outMeans)) (sgemmNt_fits (fits.rows _ xListed)
            (fits.row (listed outMeans)) weights))
  | rmsNorm op inputs outputs eps xMeans gammaMeans outMeans =>
      obtain ⟨xHolds, xListed⟩ := input (by rw [inputs]; simp) xMeans
      refine progress.computes serves found (by rw [op]; rfl) (by rw [op]; decide)
        (by rw [op]; decide) outputs outMeans (kernelRmsnorm_computes inputs outputs eps xHolds
          (progress.ready _ _ gammaMeans) (progress.ready _ _ outMeans) count (sized xListed).2
          (fits.rows _ xListed))
  | qkNorm op inputs outputs eps dim xMeans gammaMeans outMeans =>
      obtain ⟨xHolds, xListed⟩ := input (by rw [inputs]; simp) xMeans
      refine progress.computes serves found (by rw [op]; rfl) (by rw [op]; decide)
        (by rw [op]; decide) outputs outMeans (kernelQkNorm_computes inputs outputs eps dim xHolds
          (progress.ready _ _ gammaMeans) (progress.ready _ _ outMeans) head
          (fits.rows _ xListed))
  | roPE op inputs outputs dim base xMeans outMeans =>
      obtain ⟨xHolds, xListed⟩ := input (by rw [inputs]; simp) xMeans
      refine progress.computes serves found (by rw [op]; rfl) (by rw [op]; decide)
        (by rw [op]; decide) outputs outMeans (kernelRope_computes inputs outputs dim base xHolds
          (progress.ready _ _ outMeans) head.1 wf.even (serves.offset _ _ progress.stored) tokens last
          (wf.width_pos xListed) (fits.rows _ xListed))
  | @attention q k v out layer s attends known inputs outputs qMeans kMeans vMeans outMeans =>
      obtain ⟨⟨q', bindsQ, chunkQ⟩, _⟩ := input (by rw [inputs]; simp) qMeans
      obtain ⟨⟨k', bindsK, chunkK⟩, _⟩ := input (by rw [inputs]; simp) kMeans
      obtain ⟨⟨v', bindsV, chunkV⟩, _⟩ := input (by rw [inputs]; simp) vMeans
      obtain ⟨output, bindsOut, allocated, _⟩ := progress.ready _ _ outMeans
      have feeds : Feeds ctx.bindings node dec.nh dec.nkv dec.hd s (dec.layerKeys layer)
          (dec.layerValues layer) start n q' k' v' output :=
        ⟨by rwa [inputs], by rwa [inputs], by rwa [inputs], by rwa [outputs], chunkQ, chunkK,
          chunkV, allocated⟩
      have ended := serves.attends _ _ node layer s q' k' v' output progress.stored attends known
        feeds
      have layers : layersOf graph (done ++ [nid]) = layersOf graph done ++ [(layer : Int)] := by
        rw [layersOf_snoc, nodeLayer_attention (by simp [Graph.node, found]) attends.op,
          attends.layerIdx, wrap32_count (fits_int (known.trans depth))]
        rfl
      have out : node.outputs.getD 0 0 = out := by rw [outputs]; rfl
      have ran : Ends (Progress dec start n graph meanings held (done ++ [nid]))
          (fun _ after => fails after.toRuntimeContext) (onFloats (kernelAttention dec.ops) node ctx) := by
        simp only [onFloats, ModelContext.onFloats]
        generalize kernelAttention dec.ops node ctx.toRuntimeContext = result at ended ⊢
        obtain ⟨_ | failure, after⟩ := result
        · obtain ⟨mid, data, rfl, same, stored, rows⟩ := ended
          rw [out]
          refine progress.write found outputs outMeans rows same ?_
          rw [layers]
          exact serves.rebind _ _ _ stored
        · exact ended
      exact runNode_ends found (by rw [attends.op]; rfl) (by rw [attends.op]; decide) ran
  | swiGLU op inputs outputs gateMeans upMeans outMeans =>
      obtain ⟨gateHolds, _⟩ := input (by rw [inputs]; simp) gateMeans
      obtain ⟨upHolds, _⟩ := input (by rw [inputs]; simp) upMeans
      refine progress.computes serves found (by rw [op]; rfl) (by rw [op]; decide)
        (by rw [op]; decide) outputs outMeans (kernelSwiglu_computes inputs outputs gateHolds upHolds
          (progress.ready _ _ outMeans) (fits.rows _ (listed outMeans)))
  | add op inputs outputs aMeans bMeans outMeans =>
      obtain ⟨aHolds, _⟩ := input (by rw [inputs]; simp) aMeans
      obtain ⟨bHolds, _⟩ := input (by rw [inputs]; simp) bMeans
      refine progress.computes serves found (by rw [op]; rfl) (by rw [op]; decide)
        (by rw [op]; decide) outputs outMeans (kernelAdd_computes inputs outputs aHolds bHolds
          (progress.ready _ _ outMeans) (fits.rows _ (listed outMeans)))

theorem Progress.run (progress : Progress dec start n graph meanings held [] ctx) :
    Ends (Progress dec start n graph meanings held order)
      (fun _ after => fails after.toRuntimeContext)
      (CpuExecutor.runNodes (cpuKernels dec.ops) graph order ctx) :=
  tryList_invariant (Progress dec start n graph meanings held)
    (fun _ after => fails after.toRuntimeContext) _ order ctx progress fun _ _ _ _ split progress =>
      progress.step wf tokens fits last depth inside serves denotes ordered split

omit wf tokens fits last depth inside serves [LinearOrder α] in
/-- A run to the end has made every value. -/
theorem Progress.holds (progress : Progress dec start n graph meanings held order ctx)
    {id width : Nat} {s : RowStream α} (means : meanings[id]? = some (.rows width s)) :
    Holds start n ctx id width s := by
  obtain ⟨_, maker, member, outputs⟩ := denotes.made id width s means
  obtain ⟨i, place⟩ := List.getElem?_of_mem member
  have known : i ∈ order :=
    ordered.perm.mem_iff.mpr (List.mem_range.mpr (List.getElem?_eq_some_iff.mp place).1)
  exact progress.made i known maker place id (by rw [outputs]; simp) width s means

end Steps

end MiniLLM
