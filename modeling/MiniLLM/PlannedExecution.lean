import MiniLLM.StoragePlacement

/-!
Running a graph on planned storage. Kernels read the tensors of their node's
inputs and write those of its outputs. Two runs in topological order, one on the
arenas of a memory plan and one on separate blocks, agree at each step on every
value that is still to be read, and on every output at the end.
-/

namespace MiniLLM

open BlockStorage MemoryPlanner StorageContext Loops

variable {Num : Type}

namespace Graph

/-- How builders wire a graph: an executed node makes each intermediate and output value, no
other node does, and none makes an input or constant. -/
structure Dataflow (graph : Graph Num) : Prop where
  produced : ∀ id value, graph.values[id]? = some value →
    value.kind = .intermediate ∨ value.kind = .output →
    ∃ i node, graph.nodes[i]? = some node ∧ id ∈ node.outputs ∧
      (node.opType ≠ .input ∧ node.opType ≠ .constant ∧ node.opType ≠ .output) ∧
      ∀ (j : Nat) other, graph.nodes[j]? = some other → id ∈ other.outputs → j = i
  external : ∀ id value, graph.values[id]? = some value →
    value.kind = .input ∨ value.kind = .constant →
    ∀ (i : Nat) node, graph.nodes[i]? = some node → id ∉ node.outputs

theorem validate_values {graph : Graph Num} (valid : graph.validate.isOk = true) {i : Nat}
    {node : Node Num} (found : graph.nodes[i]? = some node) :
    ∀ v, v ∈ node.inputs ∨ v ∈ node.outputs → v < graph.values.length := by
  intro v listed
  by_contra outside
  unfold validate at valid
  cases error : graph.nodes.zipIdx.findSome? fun entry => graph.nodeError entry.2 entry.1 with
  | none =>
      have clean := List.findSome?_eq_none_iff.mp error (node, i)
        (List.mem_zipIdx_iff_getElem?.mpr found)
      unfold nodeError at clean
      dsimp only at clean
      split at clean
      · cases clean
      · next values =>
        have missing := List.findSome?_eq_none_iff.mp values v (List.mem_append.mpr listed)
        rw [missingValue, if_pos (not_lt.mp outside)] at missing
        cases missing
  | some st =>
      rw [error] at valid
      obtain ⟨⟨bad, j⟩, -, complained⟩ := List.exists_of_findSome?_eq_some error
      unfold nodeError at complained
      dsimp only at complained valid
      split at complained
      · next st' values =>
        obtain ⟨w, -, missing⟩ := List.exists_of_findSome?_eq_some values
        unfold missingValue at missing
        split at missing
        · rw [← Option.some.inj complained, ← Option.some.inj missing] at valid
          cases valid
        · cases missing
      · split at complained
        · rw [← Option.some.inj complained] at valid
          cases valid
        · cases complained

theorem Dataflow.single {graph : Graph Num} (flow : graph.Dataflow)
    (valid : graph.validate.isOk = true) : graph.SingleProducer := by
  intro i j a b vid foundA foundB outA outB
  have inside := validate_values valid foundA vid (Or.inr outA)
  have known := List.getElem?_eq_getElem inside
  rcases kind : graph.values[vid].kind with _ | _ | _ | _
  · exact absurd outA (flow.external vid _ known (Or.inl kind) i a foundA)
  · exact absurd outA (flow.external vid _ known (Or.inr kind) i a foundA)
  · obtain ⟨_, _, _, _, _, only⟩ := flow.produced vid _ known (Or.inl kind)
    exact (only i a foundA outA).trans (only j b foundB outB).symm
  · obtain ⟨_, _, _, _, _, only⟩ := flow.produced vid _ known (Or.inr kind)
    exact (only i a foundA outA).trans (only j b foundB outB).symm

end Graph

namespace StorageContext

/-- What a kernel sees of a tensor besides its bytes. -/
def face (ctx : StorageContext) (id : Nat) : Option (String × Shape × DType × Device × Nat) :=
  (ctx.bindings id).map fun tensor =>
    (tensor.name, tensor.shape, tensor.dtype, tensor.device, tensor.region.size)

def contents (ctx : StorageContext) (id : Nat) : Option (List UInt8) :=
  (ctx.bindings id).map fun tensor => tensor.region.contents ctx.heap.bytes

/-- No cache is attached, and a run advances none. -/
def advanceKvCacheStep (ctx : StorageContext) : Status × StorageContext := (.makeOk, ctx)

/-- The tensors a node writes are apart from each other and from those it reads. -/
def Clear (node : Node Num) (ctx : StorageContext) : Prop :=
  ∀ a ∈ node.outputs, ∀ b, b ∈ node.inputs ∨ b ∈ node.outputs → a ≠ b →
    ∀ left right, ctx.bindings a = some left → ctx.bindings b = some right →
      left.region.Apart right.region

end StorageContext

/-- A kernel that reads only its node's inputs, and writes its outputs, all of them unless it
fails. -/
structure Confined (kernel : KernelFn Num StorageContext) (node : Node Num) : Prop where
  bindings : ∀ ctx, (kernel node ctx).2.bindings = ctx.bindings
  frame : ∀ ctx address, (∀ id ∈ node.outputs, ∀ tensor, ctx.bindings id = some tensor →
    ¬ tensor.region.Covers address) → (kernel node ctx).2.heap.bytes address = ctx.heap.bytes address
  same : ∀ ctx other, Clear node ctx → Clear node other →
    (∀ id ∈ node.inputs, ctx.face id = other.face id ∧ ctx.contents id = other.contents id) →
    (∀ id ∈ node.outputs, ctx.face id = other.face id) →
    (kernel node ctx).1 = (kernel node other).1 ∧
      ((kernel node ctx).1 = none → ∀ id ∈ node.outputs,
        (kernel node ctx).2.contents id = (kernel node other).2.contents id)

section Steps

variable {graph : Graph Num} {kernel : KernelFn Num StorageContext} {node : Node Num}

theorem face_congr {ctx other : StorageContext} (same : ctx.bindings = other.bindings) (id : Nat) :
    ctx.face id = other.face id := by
  rw [face, face, same]

/-- A kernel leaves what lies apart from the tensors it writes. -/
theorem Confined.kept (confined : Confined kernel node) (ctx : StorageContext) {id : Nat}
    (apart : ∀ w ∈ node.outputs, ∀ left right, ctx.bindings w = some left →
      ctx.bindings id = some right → left.region.Apart right.region) :
    (kernel node ctx).2.contents id = ctx.contents id := by
  unfold StorageContext.contents
  rw [confined.bindings ctx]
  cases found : ctx.bindings id with
  | none => rfl
  | some tensor =>
      refine congrArg some (Region.contents_congr fun address covered => confined.frame ctx address ?_)
      intro w listed left there touched
      exact (apart w listed left tensor there found).not_covers touched covered

/-- The value still matters before step `k`: it is external, or was made and is read later. -/
def Pending (graph : Graph Num) (plan : MemoryPlan) (k id : Nat) : Prop :=
  ¬ Written graph id ∨
    (rangeAt plan.ranges id).firstNode < k ∧ k ≤ (rangeAt plan.ranges id).lastNode + 1

/-- Two contexts agree on the values that matter before step `k`. -/
structure Agree (graph : Graph Num) (plan : MemoryPlan) (k : Nat) (left right : StorageContext) :
    Prop where
  faces : ∀ id < graph.values.length, left.face id = right.face id
  contents : ∀ id < graph.values.length, Pending graph plan k id →
    left.contents id = right.contents id

end Steps

section Runs

variable {sorter : StdSort} {graph : Graph Num} {options : MemoryPlanOptions} {plan : MemoryPlan}
  {order : List Nat}

/-- Step `k` is in the live range of the value. -/
def Spans (plan : MemoryPlan) (k id : Nat) : Prop :=
  (rangeAt plan.ranges id).firstNode ≤ k ∧ k ≤ (rangeAt plan.ranges id).lastNode

theorem StorageContext.TakesTurns.not_spans {k a b : Nat} (turns : TakesTurns plan a b) (left : Spans plan k a) :
    ¬ Spans plan k b := fun right =>
  absurd turns.before (not_lt.mpr (right.1.trans left.2))

/-- What a graph, its order and its plan say about the node at step `k`. -/
structure StepFacts (graph : Graph Num) (plan : MemoryPlan) (k : Nat) (node : Node Num) : Prop where
  inside : ∀ id, id ∈ node.inputs ∨ id ∈ node.outputs → id < graph.values.length
  made : ∀ id ∈ node.outputs, Written graph id ∧ Spans plan k id
  read : ∀ id ∈ node.inputs, Pending graph plan k id ∧ (Written graph id → Spans plan k id)
  before : ∀ id < graph.values.length, Pending graph plan (k + 1) id →
    id ∉ node.outputs ∨ node.opType = .input ∨ node.opType = .constant ∨ node.opType = .output →
    Pending graph plan k id

theorem stepFacts (flow : graph.Dataflow)
    (planned : MemoryPlanner.plan sorter graph options = .ok plan)
    (sorted : graph.topologicalSort = .ok order) {first rest : List Nat} {nid : Nat}
    (split : order = first ++ nid :: rest) {node : Node Num}
    (found : graph.nodes[nid]? = some node) : StepFacts graph plan first.length node := by
  have valid := plan_validates planned
  have single := flow.single valid
  have covered := plan_covered single planned sorted
  have ordered := (Graph.topologicalSort_cases valid single).2 order sorted
  have here : order[first.length]? = some nid := by simp [split]
  have inside := Graph.validate_values valid found
  -- The step at which a value the graph writes is made.
  have source : ∀ id < graph.values.length, Written graph id → ∃ j i maker,
      order[j]? = some i ∧ graph.nodes[i]? = some maker ∧ id ∈ maker.outputs ∧
      (maker.opType ≠ .input ∧ maker.opType ≠ .constant ∧ maker.opType ≠ .output) ∧
      (rangeAt plan.ranges id).firstNode = j := by
    rintro id below ⟨value, known, notInput, notConstant⟩
    have kind : value.kind = .intermediate ∨ value.kind = .output := by
      cases kind : value.kind <;> simp_all
    obtain ⟨i, maker, there, out, executed, -⟩ := flow.produced id value known kind
    have listed : i ∈ order := ordered.perm.mem_iff.mpr
      (List.mem_range.mpr (List.getElem?_eq_some_iff.mp there).1)
    obtain ⟨j, at_j⟩ := List.mem_iff_getElem?.mp listed
    exact ⟨j, i, maker, at_j, there, out, executed,
      covered.produced j i maker at_j there id below out⟩
  constructor
  case inside => exact inside
  case made =>
    intro id out
    have below := inside id (Or.inr out)
    refine ⟨⟨_, List.getElem?_eq_getElem below, fun kind => ?_, fun kind => ?_⟩, ?_, ?_⟩
    · exact flow.external id _ (List.getElem?_eq_getElem below) (Or.inl kind) nid node found out
    · exact flow.external id _ (List.getElem?_eq_getElem below) (Or.inr kind) nid node found out
    · exact (covered.produced _ nid node here found id below out).le
    · exact covered.used _ nid node here found id below (Or.inr out)
  case read =>
    intro id input
    have below := inside id (Or.inl input)
    have late := covered.used _ nid node here found id below (Or.inl input)
    have early : Written graph id → (rangeAt plan.ranges id).firstNode < first.length := by
      intro written
      obtain ⟨j, i, maker, at_j, there, out, -, started⟩ := source id below written
      have earlier : i ∈ first := ordered.before first nid rest split i
        ⟨maker, node, id, there, found, out, input⟩
      obtain ⟨j', at_j'⟩ := List.mem_iff_getElem?.mp earlier
      have small := (List.getElem?_eq_some_iff.mp at_j').1
      rw [← covered.produced j' i maker (by rw [split, List.getElem?_append_left small, at_j'])
        there id below out] at small
      exact small
    refine ⟨?_, fun written => ⟨(early written).le, late⟩⟩
    by_cases written : Written graph id
    · exact Or.inr ⟨early written, late.trans (Nat.le_succ _)⟩
    · exact Or.inl written
  case before =>
    intro id below pending kept
    rcases pending with external | ⟨early, late⟩
    · exact Or.inl external
    by_cases written : Written graph id
    · refine Or.inr ⟨lt_of_le_of_ne (Nat.lt_succ_iff.mp early) fun same => ?_,
        (Nat.le_succ _).trans late⟩
      obtain ⟨j, i, maker, at_j, there, out, executed, started⟩ := source id below written
      rw [← started, same, here, Option.some.injEq] at at_j
      obtain rfl := at_j
      obtain rfl := Option.some.inj (found.symm.trans there)
      rcases kept with absent | skipped
      · exact absent out
      · exact skipped.elim executed.1 (Or.elim · executed.2.1 executed.2.2)
    · exact Or.inl written

/-- Storage on which values share bytes only at different steps. -/
structure Timed (graph : Graph Num) (plan : MemoryPlan) (shares : Nat → Nat → Prop)
    (base : StorageContext) : Prop where
  laid : Laid graph shares base
  written : ∀ a b, shares a b → Written graph a ∧ Written graph b
  never : ∀ k a b, shares a b → Spans plan k a → ¬ Spans plan k b

/-- The tensors of a step's outputs are apart from all that matters then. -/
theorem Timed.apart {shares : Nat → Nat → Prop} {base ctx : StorageContext} {k : Nat}
    {node : Node Num} (timed : Timed graph plan shares base) (facts : StepFacts graph plan k node)
    (same : ctx.bindings = base.bindings) {w id : Nat} (out : w ∈ node.outputs) (different : w ≠ id) (spans : Written graph id → Spans plan k id)
    {left right : StoredTensor} (foundL : ctx.bindings w = some left)
    (foundR : ctx.bindings id = some right) : left.region.Apart right.region := by
  obtain ⟨made, span⟩ := facts.made w out
  rw [same] at foundL foundR
  rcases timed.laid.apart w id left right foundL foundR different made with apart | turns | turns
  · exact apart
  · exact (timed.never k w id turns span (spans (timed.written w id turns).2)).elim
  · exact (timed.never k id w turns (spans (timed.written id w turns).1) span).elim

theorem Timed.clear {shares : Nat → Nat → Prop} {base ctx : StorageContext} {k : Nat}
    {node : Node Num} (timed : Timed graph plan shares base) (facts : StepFacts graph plan k node)
    (same : ctx.bindings = base.bindings) : Clear node ctx := by
  intro a out b used different left right foundL foundR
  refine timed.apart facts same out different (fun written => ?_) foundL foundR
  rcases used with input | output
  · exact (facts.read b input).2 written
  · exact (facts.made b output).2

/-- A kernel keeps what matters behind its step and is not its output. -/
theorem Timed.kept {shares : Nat → Nat → Prop} {base ctx : StorageContext} {k : Nat}
    {node : Node Num} {kernel : KernelFn Num StorageContext}
    (timed : Timed graph plan shares base) (facts : StepFacts graph plan k node)
    (confined : Confined kernel node) (same : ctx.bindings = base.bindings) {id : Nat}
    (pending : Pending graph plan (k + 1) id) (other : id ∉ node.outputs) :
    (kernel node ctx).2.contents id = ctx.contents id := by
  refine confined.kept ctx fun w out left right foundL foundR =>
    timed.apart facts same out (fun equal : w = id => other (equal ▸ out)) (fun written => ?_) foundL foundR
  rcases pending with external | ⟨early, late⟩
  · exact absurd written external
  · exact ⟨Nat.lt_succ_iff.mp early, Nat.succ_le_succ_iff.mp late⟩

/-- The two runs before step `k`. -/
structure Twins (graph : Graph Num) (plan : MemoryPlan) (arena own : StorageContext) (k : Nat)
    (left right : StorageContext) : Prop where
  arena : left.bindings = arena.bindings
  own : right.bindings = own.bindings
  agree : Agree graph plan k left right

/-- One round of the executor's loop, on both storages. -/
theorem Twins.step {registry : KernelRegistry Num StorageContext}
    {shares : Nat → Nat → Prop} {arena own left right : StorageContext} {k nid : Nat}
    (confined : ∀ node ∈ graph.nodes, ∀ kernel, registry node.opType = some kernel →
      Confined kernel node)
    (timedL : Timed graph plan shares arena) (timedR : Timed graph plan Never own)
    (facts : ∀ node, graph.nodes[nid]? = some node → StepFacts graph plan k node)
    (twins : Twins graph plan arena own k left right) :
    (CpuExecutor.runNode registry graph nid left).1 =
        (CpuExecutor.runNode registry graph nid right).1 ∧
      ((CpuExecutor.runNode registry graph nid left).1 = none →
        Twins graph plan arena own (k + 1) (CpuExecutor.runNode registry graph nid left).2
          (CpuExecutor.runNode registry graph nid right).2) := by
  unfold CpuExecutor.runNode Graph.node
  cases found : graph.nodes[nid]? with
  | none => exact ⟨rfl, fun failed => by cases failed⟩
  | some node =>
      have facts := facts node found
      have skip : node.opType = .input ∨ node.opType = .constant ∨ node.opType = .output →
          Twins graph plan arena own (k + 1) left right := fun skipped =>
        ⟨twins.arena, twins.own, twins.agree.faces, fun id inside pending =>
          twins.agree.contents id inside (facts.before id inside pending (Or.inr skipped))⟩
      dsimp only
      by_cases source : node.opType = .input ∨ node.opType = .constant
      · rw [if_pos source, if_pos source]
        exact ⟨rfl, fun _ => skip (source.imp_right Or.inl)⟩
      rw [if_neg source, if_neg source]
      by_cases sink : node.opType = .output
      · rw [if_pos sink, if_pos sink]
        exact ⟨rfl, fun _ => skip (Or.inr (Or.inr sink))⟩
      rw [if_neg sink, if_neg sink]
      unfold KernelRegistry.find
      cases registered : registry node.opType with
      | none => exact ⟨rfl, fun failed => by cases failed⟩
      | some kernel =>
          have confined := confined node (List.mem_of_getElem? found) kernel registered
          obtain ⟨result, written⟩ := confined.same left right (timedL.clear facts twins.arena)
            (timedR.clear facts twins.own)
            (fun id input => ⟨twins.agree.faces id (facts.inside id (Or.inl input)),
              twins.agree.contents id (facts.inside id (Or.inl input)) (facts.read id input).1⟩)
            (fun id output => twins.agree.faces id (facts.inside id (Or.inr output)))
          have keptL := confined.bindings left
          have keptR := confined.bindings right
          have restL := fun id => @Timed.kept _ graph plan shares arena left k node kernel timedL
            facts confined twins.arena id
          have restR := fun id => @Timed.kept _ graph plan Never own right k node kernel timedR
            facts confined twins.own id
          dsimp only
          generalize kernel node left = ranL at result written keptL restL
          generalize kernel node right = ranR at result written keptR restR
          obtain ⟨err, left'⟩ := ranL
          obtain ⟨err', right'⟩ := ranR
          obtain rfl : err = err' := result
          rcases err with _ | _ | _ | _
          · refine ⟨rfl, fun _ => ⟨keptL.trans twins.arena, keptR.trans twins.own, ?_, ?_⟩⟩
            · intro id inside
              rw [face_congr keptL, face_congr keptR]
              exact twins.agree.faces id inside
            · intro id inside pending
              by_cases output : id ∈ node.outputs
              · exact written rfl id output
              · have earlier := facts.before id inside pending (Or.inl output)
                exact (restL id pending output).trans
                  ((twins.agree.contents id inside earlier).trans (restR id pending output).symm)
          all_goals exact ⟨rfl, fun failed => by cases failed⟩

/-- What matters at the start is external, and has been left alone by the allocations. -/
theorem start_agree {ctx arena own : StorageContext} (laid : Laid graph Never ctx)
    (grownL : Grown graph ctx arena) (grownR : Grown graph ctx own)
    (boundL : AllBound graph arena) (boundR : AllBound graph own) :
    Agree graph plan 0 arena own := by
  have old : ∀ after, Grown graph ctx after → ∀ id tensor, ctx.bindings id = some tensor →
      after.face id = ctx.face id ∧ after.contents id = ctx.contents id := by
    intro after grown id tensor found
    have kept := grown.kept id tensor found
    rw [face, face, StorageContext.contents, StorageContext.contents, kept, found, Option.map_some,
      Option.map_some, grown.heap.contents (laid.stored id tensor found)]
    exact ⟨rfl, rfl⟩
  -- A value without a tensor gets one on both routes, with the shape and dtype of the value.
  have fresh : ∀ id, ctx.bindings id = none → Written graph id → ∀ after, Grown graph ctx after →
      AllBound graph after → ∃ value nb, graph.values[id]? = some value ∧
        (StoredTensor.ofValue value).nbytes = .ok nb ∧
        after.face id = some (value.name, value.shape, value.dtype, {}, nb) := by
    rintro id unbound ⟨value, known, notInput, notConstant⟩ after grown bound
    have some_ := ((bound id value known).resolve_left notInput).resolve_left notConstant
    obtain ⟨tensor, found⟩ := Option.isSome_iff_exists.mp some_
    obtain ⟨-, value', known', data, bytes, nb, sized, rfl⟩ := grown.made id tensor unbound found
    obtain rfl := Option.some.inj (known.symm.trans known')
    refine ⟨value, nb, known, sized, ?_⟩
    rw [face, found, Option.map_some, region_eq sized]
    rfl
  have absent : ∀ id, ctx.bindings id = none → ¬ Written graph id → ∀ after,
      Grown graph ctx after → after.bindings id = none := by
    intro id unbound external after grown
    cases found : after.bindings id with
    | none => rfl
    | some tensor => exact absurd (grown.made id tensor unbound found).1 external
  constructor
  case faces =>
    intro id inside
    cases found : ctx.bindings id with
    | some tensor => rw [(old arena grownL id tensor found).1, (old own grownR id tensor found).1]
    | none =>
        by_cases written : Written graph id
        · obtain ⟨value, nb, known, sized, faceL⟩ := fresh id found written arena grownL boundL
          obtain ⟨value', nb', known', sized', faceR⟩ := fresh id found written own grownR boundR
          obtain rfl := Option.some.inj (known.symm.trans known')
          obtain rfl := Except.ok.inj (sized.symm.trans sized')
          rw [faceL, faceR]
        · rw [face, face, absent id found written arena grownL, absent id found written own grownR]
  case contents =>
    intro id inside pending
    have external := pending.resolve_right fun early => Nat.not_lt_zero _ early.1
    cases found : ctx.bindings id with
    | some tensor => rw [(old arena grownL id tensor found).2, (old own grownR id tensor found).2]
    | none =>
        rw [StorageContext.contents, StorageContext.contents, absent id found external arena grownL,
          absent id found external own grownR, Option.map_none, Option.map_none]

/-- Every output holds the same bytes. -/
def SameOutputs (graph : Graph Num) (left right : StorageContext) : Prop :=
  ∀ id value, graph.values[id]? = some value → value.kind = .output →
    left.contents id = right.contents id

/-- The nodes run on the arenas of a memory plan end as they do on separate blocks, and when they
succeed the outputs are the same. -/
theorem planned_nodes_agree {allocator separate : SystemAllocator}
    {registry : KernelRegistry Num StorageContext} {ctx arena own : StorageContext}
    (flow : graph.Dataflow) (planned : MemoryPlanner.plan sorter graph options = .ok plan)
    (fits : demand graph options ≤ sizeMax) (laid : Laid graph Never ctx)
    (confined : ∀ node ∈ graph.nodes, ∀ kernel, registry node.opType = some kernel →
      Confined kernel node)
    (arenas : allocateIntermediatesWithPlan allocator graph plan ctx = .ok arena)
    (blocks : allocateIntermediates separate graph ctx = .ok own)
    (sorted : graph.topologicalSort = .ok order) :
    (CpuExecutor.runNodes registry graph order arena).1 =
      (CpuExecutor.runNodes registry graph order own).1 ∧
    ((CpuExecutor.runNodes registry graph order arena).1 = none →
      SameOutputs graph (CpuExecutor.runNodes registry graph order arena).2
        (CpuExecutor.runNodes registry graph order own).2) := by
  obtain ⟨laidL, grownL, boundL⟩ := allocateIntermediatesWithPlan_laid planned fits laid arenas
  obtain ⟨laidR, grownR, boundR⟩ := allocateIntermediates_laid laid blocks
  have timedL : Timed graph plan (TakesTurns plan) arena := ⟨laidL,
    fun a b turns => ⟨eligible_written planned turns.left, eligible_written planned turns.right⟩,
    fun k a b turns left => turns.not_spans left⟩
  have timedR : Timed graph plan Never own :=
    ⟨laidR, fun _ _ => False.elim, fun _ _ _ => False.elim⟩
  obtain ⟨result, twins⟩ := tryList_relates
    (fun done => Twins graph plan arena own done.length)
    (CpuExecutor.runNode registry graph) (CpuExecutor.runNode registry graph) order arena own
    ⟨rfl, rfl, start_agree laid grownL grownR boundL boundR⟩
    (fun first nid rest left right split twins => by
      rw [List.length_append, List.length_singleton]
      exact Twins.step confined timedL timedR (fun node found => stepFacts flow planned sorted split
        found) twins)
  have valid := plan_validates planned
  have covered := plan_covered (flow.single valid) planned sorted
  refine ⟨result, fun success id value known kind => ?_⟩
  have inside := (List.getElem?_eq_some_iff.mp known).1
  have late := covered.output id value known kind
  refine (twins success).agree.contents id inside (Or.inr ⟨?_, late⟩)
  obtain ⟨i, maker, there, out, -⟩ := flow.produced id value known (Or.inr kind)
  have ordered := (Graph.topologicalSort_cases valid (flow.single valid)).2 order sorted
  have listed : i ∈ order := ordered.perm.mem_iff.mpr
    (List.mem_range.mpr (List.getElem?_eq_some_iff.mp there).1)
  obtain ⟨j, at_j⟩ := List.mem_iff_getElem?.mp listed
  rw [covered.produced j i maker at_j there id inside out]
  exact (List.getElem?_eq_some_iff.mp at_j).1

/-- Two runs whose nodes end alike. -/
theorem run_of_nodes {registry : KernelRegistry Num StorageContext} {left right : StorageContext}
    (agree : (CpuExecutor.runNodes registry graph order left).1 =
        (CpuExecutor.runNodes registry graph order right).1 ∧
      ((CpuExecutor.runNodes registry graph order left).1 = none →
        SameOutputs graph (CpuExecutor.runNodes registry graph order left).2
          (CpuExecutor.runNodes registry graph order right).2)) :
    (CpuExecutor.run registry advanceKvCacheStep graph order left).1 =
        (CpuExecutor.run registry advanceKvCacheStep graph order right).1 ∧
      ((CpuExecutor.run registry advanceKvCacheStep graph order left).1 = none →
        SameOutputs graph (CpuExecutor.run registry advanceKvCacheStep graph order left).2
          (CpuExecutor.run registry advanceKvCacheStep graph order right).2) := by
  unfold CpuExecutor.run
  generalize CpuExecutor.runNodes registry graph order left = ranL at agree ⊢
  generalize CpuExecutor.runNodes registry graph order right = ranR at agree ⊢
  obtain ⟨err, left⟩ := ranL
  obtain ⟨err', right⟩ := ranR
  obtain ⟨same, held⟩ := agree
  obtain rfl : err = err' := same
  cases err with
  | none => exact ⟨rfl, fun _ => held rfl⟩
  | some failure => exact ⟨rfl, fun failed => by cases failed⟩

/-- A run on the arenas of a memory plan ends as a run on separate blocks does, and when they
succeed every output holds the same bytes. -/
theorem planned_run_agrees {allocator : SystemAllocator}
    {registry : KernelRegistry Num StorageContext} {ctx arena own : StorageContext}
    (flow : graph.Dataflow)
    (planned : MemoryPlanner.plan sorter graph options = .ok plan)
    (fits : demand graph options ≤ sizeMax) (laid : Laid graph Never ctx)
    (confined : ∀ node ∈ graph.nodes, ∀ kernel, registry node.opType = some kernel →
      Confined kernel node)
    (arenas : allocateIntermediatesWithPlan allocator graph plan ctx = .ok arena)
    (blocks : allocateIntermediates allocator graph ctx = .ok own)
    (sorted : graph.topologicalSort = .ok order) :
    let left := CpuExecutor.run registry advanceKvCacheStep graph order arena
    let right := CpuExecutor.run registry advanceKvCacheStep graph order own
    left.1 = right.1 ∧ (left.1 = none → ∀ id value, graph.values[id]? = some value →
      value.kind = .output → left.2.contents id = right.2.contents id) :=
  run_of_nodes (planned_nodes_agree flow planned fits laid confined arenas blocks sorted)

/-- What a context binds before it allocates: inputs and constants, in blocks in use. -/
structure External (graph : Graph Num) (ctx : StorageContext) : Prop where
  stored : ∀ id tensor, ctx.bindings id = some tensor → ctx.heap.Stores tensor.region
  kind : ∀ id tensor, ctx.bindings id = some tensor → ¬ Written graph id

theorem External.laid {ctx : StorageContext} (external : External graph ctx) :
    Laid graph Never ctx :=
  ⟨external.stored, fun a _ left _ found _ _ written => absurd written (external.kind a left found)⟩

/-- A graph that sorts has a plan, and in whatever blocks the arenas of the plan and the separate
buffers are given, one run over the plan leaves the outputs of one run without it. -/
theorem planned_execution_agrees (sorter : StdSort) {allocator separate : SystemAllocator}
    {registry : KernelRegistry Num StorageContext} {ctx : StorageContext}
    (valid : graph.validate.isOk = true) (flow : graph.Dataflow)
    (sorted : graph.topologicalSort = .ok order) (alignment : 0 < options.alignment)
    (fits : demand graph options ≤ sizeMax) (external : External graph ctx)
    (confined : ∀ node ∈ graph.nodes, ∀ kernel, registry node.opType = some kernel →
      Confined kernel node) :
    ∃ plan, MemoryPlanner.plan sorter graph options = .ok plan ∧ ∀ arena own,
      allocateIntermediatesWithPlan allocator graph plan ctx = .ok arena →
      allocateIntermediates separate graph ctx = .ok own →
      (CpuExecutor.run registry advanceKvCacheStep graph order arena).1 =
        (CpuExecutor.run registry advanceKvCacheStep graph order own).1 ∧
      ((CpuExecutor.run registry advanceKvCacheStep graph order arena).1 = none →
        SameOutputs graph (CpuExecutor.run registry advanceKvCacheStep graph order arena).2
          (CpuExecutor.run registry advanceKvCacheStep graph order own).2) := by
  obtain ⟨plan, planned⟩ := plan_succeeds sorter alignment valid (flow.single valid) sorted fits
  exact ⟨plan, planned, fun arena own arenas blocks => run_of_nodes
    (planned_nodes_agree flow planned fits external.laid confined arenas blocks sorted)⟩

end Runs

section Samples

/-- Copies the first input to the first output, cut or filled up with zeros. -/
def copyKernel : KernelFn Num StorageContext := fun node ctx =>
  match ctx.contents (node.inputs.headD 0), ctx.bindings (node.outputs.headD 0) with
  | some source, some target =>
      (none, { ctx with heap := ctx.heap.write target.region source })
  | _, _ => (some .thrown, ctx)

theorem copyKernel_confined {node : Node Num} {input output : Nat} (reads : node.inputs = [input])
    (writes : node.outputs = [output]) : Confined copyKernel node := by
  have runs : ∀ ctx : StorageContext, copyKernel node ctx =
      match ctx.contents input, ctx.bindings output with
      | some source, some target =>
          (none, { ctx with heap := ctx.heap.write target.region source })
      | _, _ => (some .thrown, ctx) := by
    intro ctx
    unfold copyKernel
    rw [reads, writes]
    rfl
  constructor
  case bindings =>
    intro ctx
    rw [runs]
    split <;> rfl
  case frame =>
    intro ctx address free
    rw [runs]
    split
    · next source target held found =>
      exact Heap.write_outside _ _ (free output (writes ▸ List.mem_singleton_self _) target found)
    · rfl
  case same =>
    intro ctx other _ _ inputs outputs
    have held := (inputs input (reads ▸ List.mem_singleton_self _)).2
    have faces := outputs output (writes ▸ List.mem_singleton_self _)
    unfold face at faces
    rw [runs, runs, held]
    cases source : other.contents input with
    | none => exact ⟨rfl, fun failed => by cases failed⟩
    | some source =>
        cases left : ctx.bindings output with
        | none =>
            cases right : other.bindings output with
            | none => exact ⟨rfl, fun failed => by cases failed⟩
            | some target =>
                rw [left, right] at faces
                cases faces
        | some target =>
            cases right : other.bindings output with
            | none =>
                rw [left, right] at faces
                cases faces
            | some target' =>
                rw [left, right, Option.map_some, Option.map_some, Option.some.injEq] at faces
                refine ⟨rfl, fun _ id member => ?_⟩
                obtain rfl := List.mem_singleton.mp (writes ▸ member)
                have size : target.region.size = target'.region.size := by
                  simp only [Prod.mk.injEq] at faces
                  exact faces.2.2.2.2
                unfold StorageContext.contents
                rw [left, right, Option.map_some, Option.map_some, Heap.contents_write,
                  Heap.contents_write, size]

theorem pair_valid : ∀ d ∈ [(2 : Int)], d = -1 ∨ 0 < d ∧ d < 9223372036854775808 := by simp

def pairShape : Shape := ⟨[2], pair_valid⟩

/-- The chain's input in the first eight bytes. -/
def chainStart : StorageContext where
  bindings id := if id = 0 then
      some { name := "x", shape := pairShape, dtype := .float32, allocatedBytes := 8 }
    else none
  heap := { bytes := fun address => UInt8.ofNat (address + 1), taken := [⟨0, 8⟩] }

def chainArena : StorageContext :=
  (allocateIntermediatesWithPlan (Allocator.bump _) chainGraph chainPlan chainStart).toOption.getD {}

def chainOwn : StorageContext :=
  (allocateIntermediates (Allocator.bump _) chainGraph chainStart).toOption.getD {}

theorem chainGraph_node {i : Nat} {node : Node Int} (found : chainGraph.nodes[i]? = some node) :
    node.inputs = [i] ∧ node.outputs = [i + 1] ∧ node.opType = .siLU := by
  rcases i with _ | _ | _ | _ | i
  iterate 4
    obtain rfl := Option.some.inj found
    exact ⟨rfl, rfl, rfl⟩
  cases found

theorem chainGraph_dataflow : chainGraph.Dataflow := by
  constructor
  case produced =>
    intro id value found kind
    have only : ∀ i, id = i + 1 → ∀ (j : Nat) other, chainGraph.nodes[j]? = some other →
        id ∈ other.outputs → j = i := by
      intro i same j other there out
      rw [(chainGraph_node there).2.1, List.mem_singleton] at out
      omega
    rcases id with _ | _ | _ | _ | _ | id
    · obtain rfl := Option.some.inj found
      rcases kind with kind | kind <;> cases kind
    · exact ⟨0, _, rfl, by decide, by decide, only 0 rfl⟩
    · exact ⟨1, _, rfl, by decide, by decide, only 1 rfl⟩
    · exact ⟨2, _, rfl, by decide, by decide, only 2 rfl⟩
    · exact ⟨3, _, rfl, by decide, by decide, only 3 rfl⟩
    · cases found
  case external =>
    intro id value found kind i node there out
    rw [(chainGraph_node there).2.1, List.mem_singleton] at out
    rcases id with _ | _ | _ | _ | _ | id
    · cases out
    iterate 4
      obtain rfl := Option.some.inj found
      rcases kind with kind | kind <;> cases kind
    cases found

theorem chainStart_laid : Laid chainGraph Never chainStart := by
  have only : ∀ id tensor, chainStart.bindings id = some tensor →
      id = 0 ∧ tensor.region = ⟨0, 8⟩ := by
    intro id tensor found
    unfold chainStart at found
    dsimp only at found
    split at found
    · next first =>
      obtain rfl := Option.some.inj found
      exact ⟨first, rfl⟩
    · cases found
  constructor
  · intro id tensor found
    rw [(only id tensor found).2]
    exact ⟨_, List.mem_singleton_self _, Region.Within.refl _⟩
  · intro a b left right foundA foundB different
    exact absurd ((only a left foundA).1.trans (only b right foundB).1.symm) different

theorem planned_execution_agrees_chain :
    ∃ plan arena own, MemoryPlanner.plan StdSort.insertion chainGraph {} = .ok plan ∧
      allocateIntermediatesWithPlan (Allocator.bump _) chainGraph plan chainStart = .ok arena ∧
      allocateIntermediates (Allocator.bump _) chainGraph chainStart = .ok own ∧
      SameOutputs chainGraph
        (CpuExecutor.run (fun _ => some copyKernel) advanceKvCacheStep chainGraph [0, 1, 2, 3] arena).2
        (CpuExecutor.run (fun _ => some copyKernel) advanceKvCacheStep chainGraph [0, 1, 2, 3]
          own).2 := by
  have external : External chainGraph chainStart := by
    refine ⟨chainStart_laid.stored, fun id tensor found => ?_⟩
    unfold chainStart at found
    dsimp only at found
    split at found
    · next first =>
      rintro ⟨value, there, notInput, -⟩
      subst first
      obtain rfl := Option.some.inj there
      exact notInput rfl
    · cases found
  obtain ⟨plan, planned, agrees⟩ := @planned_execution_agrees _ chainGraph {} [0, 1, 2, 3]
    StdSort.insertion (Allocator.bump _) (Allocator.bump _) (fun _ => some copyKernel) chainStart
    rfl chainGraph_dataflow rfl (by decide) (by decide) external
    (fun node member kernel registered => by
      obtain ⟨i, found⟩ := List.mem_iff_getElem?.mp member
      obtain ⟨reads, writes, -⟩ := chainGraph_node found
      exact Option.some.inj registered ▸ copyKernel_confined reads writes)
  have same : plan = chainPlan := Except.ok.inj (planned.symm.trans rfl)
  subst same
  exact ⟨chainPlan, chainArena, chainOwn, planned, rfl, rfl,
    (agrees chainArena chainOwn rfl rfl).2 rfl⟩

theorem planned_run_agrees_chain :
    let left := CpuExecutor.run (fun _ => some copyKernel) advanceKvCacheStep chainGraph
      [0, 1, 2, 3] chainArena
    let right := CpuExecutor.run (fun _ => some copyKernel) advanceKvCacheStep chainGraph
      [0, 1, 2, 3] chainOwn
    left.1 = none ∧ left.2.contents 4 = right.2.contents 4 ∧
      left.2.contents 4 = some [1, 2, 3, 4, 5, 6, 7, 8] := by
  have agrees := @planned_run_agrees _ StdSort.insertion chainGraph {} chainPlan [0, 1, 2, 3]
    (Allocator.bump _) (fun _ => some copyKernel) chainStart chainArena chainOwn
    chainGraph_dataflow rfl (by decide) chainStart_laid
    (fun node member kernel registered => by
      obtain ⟨i, found⟩ := List.mem_iff_getElem?.mp member
      obtain ⟨reads, writes, -⟩ := chainGraph_node found
      exact Option.some.inj registered ▸ copyKernel_confined reads writes)
    rfl rfl rfl
  have success : (CpuExecutor.run (fun _ => some copyKernel) advanceKvCacheStep chainGraph
      [0, 1, 2, 3] chainArena).1 = none := rfl
  exact ⟨success, agrees.2 success 4 _ rfl rfl, rfl⟩

end Samples

end MiniLLM
