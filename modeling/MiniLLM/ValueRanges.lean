import MiniLLM.PlanOutcome

/-!
The live ranges of a plan are those of the graph's values: each value has one range,
which starts where the value is made and ends at its last use, and the planner places
it exactly when the value takes memory of a known size.
-/

namespace MiniLLM.MemoryPlanner

variable {Num : Type}

section Visits

theorem foldl_consume (valueCount orderIdx : Nat) (inputs : List Nat) (live : Liveness) :
    (inputs.foldl (consume valueCount orderIdx) live).firstNode = live.firstNode ∧
      (inputs.foldl (consume valueCount orderIdx) live).hasProducer = live.hasProducer ∧
      ∀ v, (inputs.foldl (consume valueCount orderIdx) live).lastNode v =
        if v ∈ inputs ∧ v < valueCount then max (live.lastNode v) orderIdx
        else live.lastNode v := by
  induction inputs using List.reverseRecOn with
  | nil => simp
  | append_singleton inputs input ih =>
      obtain ⟨first, producer, last⟩ := ih
      rw [List.foldl_append, List.foldl_cons, List.foldl_nil]
      generalize inputs.foldl (consume valueCount orderIdx) live = before at first producer last
      unfold consume
      by_cases inside : input < valueCount
      · rw [if_pos inside]
        refine ⟨first, producer, fun v => ?_⟩
        by_cases same : v = input
        · subst same
          simp only [last, if_true, List.mem_append, List.mem_singleton, or_true, inside, and_self]
          split <;> omega
        · simp [last, same]
      · rw [if_neg inside]
        refine ⟨first, producer, fun v => ?_⟩
        have other : v ∈ inputs ++ [input] ∧ v < valueCount ↔ v ∈ inputs ∧ v < valueCount := by
          rw [List.mem_append, List.mem_singleton]
          exact ⟨fun ⟨member, below⟩ => ⟨member.resolve_right fun same => inside (same ▸ below), below⟩,
            fun ⟨member, below⟩ => ⟨Or.inl member, below⟩⟩
        rw [last, if_congr other rfl rfl]

theorem foldl_produce (valueCount orderIdx : Nat) (outputs : List Nat) (live : Liveness) (v : Nat) :
    let after := outputs.foldl (produce valueCount orderIdx) live
    if v ∈ outputs ∧ v < valueCount then
      after.firstNode v = orderIdx ∧ after.hasProducer v = true ∧
        after.lastNode v = max (live.lastNode v) orderIdx
    else
      after.firstNode v = live.firstNode v ∧ after.hasProducer v = live.hasProducer v ∧
        after.lastNode v = live.lastNode v := by
  induction outputs using List.reverseRecOn with
  | nil => simp
  | append_singleton outputs output ih =>
      simp only [List.foldl_append, List.foldl_cons, List.foldl_nil] at ih ⊢
      generalize outputs.foldl (produce valueCount orderIdx) live = before at ih
      unfold produce
      by_cases same : v = output
      · subst same
        by_cases inside : v < valueCount
        · simp only [inside, and_true, if_true, List.mem_append, List.mem_singleton, or_true] at ih ⊢
          refine ⟨trivial, trivial, ?_⟩
          split at ih <;> rw [ih.2.2]
          omega
        · simpa [inside] using ih
      · by_cases inside : output < valueCount
        · simpa [inside, same] using ih
        · simpa [inside, same] using ih

/-- The liveness of a value after some of the nodes, by the nodes that use and produce it. -/
structure Seen (graph : Graph Num) (entries : List (Nat × Nat)) (live : Liveness) : Prop where
  used : ∀ entry ∈ entries, ∀ node, graph.nodes[entry.1]? = some node →
    ∀ v < graph.values.length, v ∈ node.inputs ∨ v ∈ node.outputs → entry.2 ≤ live.lastNode v
  produced : ∀ entry ∈ entries, ∀ node, graph.nodes[entry.1]? = some node →
    ∀ v < graph.values.length, v ∈ node.outputs → live.hasProducer v = true
  source : ∀ v, live.hasProducer v = true → ∃ entry ∈ entries, ∃ node,
    graph.nodes[entry.1]? = some node ∧ v ∈ node.outputs ∧ live.firstNode v = entry.2
  started : ∀ entry ∈ entries, ∀ node, graph.nodes[entry.1]? = some node →
    ∀ v < graph.values.length, v ∈ node.outputs → entry.2 ≤ live.firstNode v
  ended : ∀ v bound, (∀ entry ∈ entries, ∀ node, graph.nodes[entry.1]? = some node →
    v ∈ node.inputs ∨ v ∈ node.outputs → entry.2 ≤ bound) → live.lastNode v ≤ bound

theorem Seen.visit {graph : Graph Num} {entries : List (Nat × Nat)} {live next : Liveness}
    {entry : Nat × Nat} (seen : Seen graph entries live)
    (later : ∀ other ∈ entries, other.2 ≤ entry.2)
    (visited : visitNode graph live entry = .ok next) : Seen graph (entries ++ [entry]) next := by
  unfold visitNode at visited
  obtain ⟨node, found, visited⟩ := bind_eq_ok visited
  have there : graph.nodes[entry.1]? = some node := by
    unfold Graph.node at found
    split at found
    · next node' there => exact (Except.ok.inj found) ▸ there
    · cases found
  obtain rfl := Except.ok.inj visited
  obtain ⟨first, producer, last⟩ :=
    foldl_consume graph.values.length entry.2 node.inputs live
  have outcome := foldl_produce graph.values.length entry.2 node.outputs
    (node.inputs.foldl (consume graph.values.length entry.2) live)
  simp only [first, producer, last] at outcome
  generalize node.outputs.foldl (produce graph.values.length entry.2)
    (node.inputs.foldl (consume graph.values.length entry.2) live) = after at outcome
  have grows : ∀ v, live.lastNode v ≤ after.lastNode v := by
    intro v
    have at_v := outcome v
    split at at_v <;> rw [at_v.2.2] <;> split <;> omega
  constructor
  case used =>
    intro other member other_node other_found v below use
    rcases List.mem_append.mp member with earlier | here
    · exact (seen.used other earlier other_node other_found v below use).trans (grows v)
    obtain rfl := List.mem_singleton.mp here
    obtain rfl := Option.some.inj (there.symm.trans other_found)
    have at_v := outcome v
    split at at_v
    · rw [at_v.2.2]
      exact le_max_right _ _
    · next unproduced =>
        have read := use.resolve_right fun made => unproduced ⟨made, below⟩
        rw [at_v.2.2, if_pos ⟨read, below⟩]
        exact le_max_right _ _
  case produced =>
    intro other member other_node other_found v below made
    have at_v := outcome v
    split at at_v
    · exact at_v.2.1
    · next unproduced =>
        rcases List.mem_append.mp member with earlier | here
        · rw [at_v.2.1]
          exact seen.produced other earlier other_node other_found v below made
        · obtain rfl := List.mem_singleton.mp here
          obtain rfl := Option.some.inj (there.symm.trans other_found)
          exact absurd ⟨made, below⟩ unproduced
  case source =>
    intro v has
    have at_v := outcome v
    split at at_v
    · next made =>
        exact ⟨entry, List.mem_append_right _ (List.mem_singleton_self _), node, there, made.1,
          at_v.1⟩
    · rw [at_v.2.1] at has
      obtain ⟨other, member, source, found', made, started⟩ := seen.source v has
      exact ⟨other, List.mem_append_left _ member, source, found', made, at_v.1.trans started⟩
  case started =>
    intro other member other_node other_found v below made
    have at_v := outcome v
    split at at_v
    · rw [at_v.1]
      rcases List.mem_append.mp member with earlier | here
      · exact later other earlier
      · exact (List.mem_singleton.mp here).symm ▸ le_rfl
    · next unproduced =>
        rcases List.mem_append.mp member with earlier | here
        · rw [at_v.1]
          exact seen.started other earlier other_node other_found v below made
        · obtain rfl := List.mem_singleton.mp here
          obtain rfl := Option.some.inj (there.symm.trans other_found)
          exact absurd ⟨made, below⟩ unproduced
  case ended =>
    intro v bound each
    have earlier := seen.ended v bound fun other member =>
      each other (List.mem_append_left _ member)
    have here := each entry (List.mem_append_right _ (List.mem_singleton_self _)) node there
    have at_v := outcome v
    split at at_v
    · next made =>
        have at_entry := here (Or.inr made.1)
        rw [at_v.2.2]
        split <;> omega
    · rw [at_v.2.2]
      split
      · next read => exact max_le earlier (here (Or.inl read.1))
      · exact earlier

theorem liveness_seen {graph : Graph Num} {order : List Nat} {live : Liveness}
    (analysed : liveness graph order = .ok live) : Seen graph order.zipIdx live := by
  have rule : ∀ rest first before,
      (first ++ rest).Pairwise (fun (a b : Nat × Nat) => a.2 ≤ b.2) → Seen graph first before →
      rest.foldlM (visitNode graph) before = .ok live → Seen graph (first ++ rest) live := by
    intro rest
    induction rest with
    | nil =>
        intro first before _ seen visited
        obtain rfl := Except.ok.inj visited
        rwa [List.append_nil]
    | cons entry rest ih =>
        intro first before sorted seen visited
        rw [List.foldlM_cons] at visited
        obtain ⟨next, step, visited⟩ := bind_eq_ok visited
        have later : ∀ other ∈ first, other.2 ≤ entry.2 := fun other member =>
          (List.pairwise_append.mp sorted).2.2 other member entry List.mem_cons_self
        rw [List.append_cons] at sorted
        have done := ih (first ++ [entry]) next sorted (seen.visit later step) visited
        rwa [List.append_assoc, List.singleton_append] at done
  have sorted : order.zipIdx.Pairwise (fun (a b : Nat × Nat) => a.2 ≤ b.2) := by
    apply List.pairwise_map.mp
    rw [List.zipIdx_map_snd]
    exact List.pairwise_le_range'
  refine rule order.zipIdx [] {} sorted ⟨?_, ?_, ?_, ?_, ?_⟩ analysed
  · intro entry none_
    cases none_
  · intro entry none_
    cases none_
  · intro v has
    cases has
  · intro entry none_
    cases none_
  · intro v bound _
    exact Nat.zero_le bound

end Visits

section Finished

variable {sorter : StdSort} {graph : Graph Num} {options : MemoryPlanOptions}
  {result : MemoryPlan}

theorem le_initialRange_lastNode (live : Liveness) (last : Nat) (value : Value) (id : Nat) :
    (if value.kind = .output then last else live.lastNode id) ≤
      (initialRange live last value id).lastNode := by
  simp only [initialRange]
  generalize (if live.hasProducer id = true then live.firstNode id else 0) = firstNode
  generalize (if value.kind = ValueKind.output then last else live.lastNode id) = lastNode
  split <;> omega

/-- The stages of a successful plan. -/
theorem plan_stages (planned : plan sorter graph options = .ok result) :
    ∃ order live base, graph.topologicalSort = .ok order ∧ liveness graph order = .ok live ∧
      planRanges graph options live (graphEnd order) = .ok base ∧
      result = assign sorter options base := by
  unfold plan at planned
  split at planned
  · cases planned
  simp only at planned
  split at planned
  · cases planned
  obtain ⟨order, sorted, planned⟩ := bind_eq_ok planned
  obtain ⟨live, analysed, planned⟩ := bind_eq_ok planned
  obtain ⟨base, ranged, planned⟩ := bind_eq_ok planned
  exact ⟨order, live, base, sorted, analysed, ranged, (Except.ok.inj planned).symm⟩

theorem plan_validates (planned : plan sorter graph options = .ok result) :
    graph.validate.isOk = true := by
  unfold plan at planned
  split at planned
  · cases planned
  simp only at planned
  split at planned
  · cases planned
  · next valid => simpa using valid

section Success

/-- A loop whose rounds all succeed. -/
theorem foldlM_succeeds {State Item : Type} {step : State → Item → Except Status State}
    {items : List Item} (fine : ∀ item ∈ items, ∀ state, ∃ next, step state item = .ok next)
    (state : State) : ∃ last, items.foldlM step state = .ok last := by
  induction items generalizing state with
  | nil => exact ⟨state, rfl⟩
  | cons item rest ih =>
      obtain ⟨next, made⟩ := fine item List.mem_cons_self state
      obtain ⟨last, done⟩ := ih (fun other member => fine other (List.mem_cons_of_mem _ member)) next
      refine ⟨last, ?_⟩
      rw [List.foldlM_cons, made]
      exact done

theorem rangeOf_succeeds {options : MemoryPlanOptions} {initial : MemoryLiveRange} {value : Value}
    (kind : initial.kind = value.kind) (device : initial.device = value.device)
    (dtype : initial.dtype = value.dtype)
    (fits : ∀ bytes, payload options value = some bytes → bytes ≤ sizeMax) :
    ∃ range, rangeOf options initial value.shape = .ok range := by
  simp only [rangeOf]
  split
  · exact ⟨_, rfl⟩
  next rightKind =>
  rw [not_not, kind] at rightKind
  split
  · exact ⟨_, rfl⟩
  next someDevice =>
  rw [device] at someDevice
  split
  · exact ⟨_, rfl⟩
  next static =>
  cases count : value.shape.numel with
  | error st => exact ⟨_, rfl⟩
  | ok elemCount =>
      cases size : initial.dtype.size with
      | error st => exact ⟨_, rfl⟩
      | ok elemSize =>
          dsimp only
          have whole : payload options value = some (elemCount * elemSize) := by
            rw [dtype] at size
            rw [payload, if_pos ⟨rightKind, by tauto, by simpa using static⟩, count, size]
          rw [if_neg (not_lt.mpr ((Nat.le_div_iff_mul_le (DType.size_pos size)).mpr (fits _ whole)))]
          exact ⟨_, rfl⟩

/-- A plan is made for every graph that sorts and whose eligible values fit a `size_t`. -/
theorem plan_succeeds (sorter : StdSort) {order : List Nat} (positive : 0 < options.alignment)
    (valid : graph.validate.isOk = true) (single : graph.SingleProducer)
    (sorted : graph.topologicalSort = .ok order) (fits : demand graph options ≤ sizeMax) :
    ∃ plan, MemoryPlanner.plan sorter graph options = .ok plan := by
  have ordered := (Graph.topologicalSort_cases valid single).2 order sorted
  obtain ⟨live, analysed⟩ : ∃ live, liveness graph order = .ok live := by
    refine foldlM_succeeds (fun entry member live => ?_) _
    have listed : entry.1 ∈ order := List.fst_mem_of_mem_zipIdx member
    have inside := List.mem_range.mp (ordered.perm.mem_iff.mp listed)
    have found : graph.node entry.1 = .ok graph.nodes[entry.1] := by
      rw [Graph.node, List.getElem?_eq_getElem inside]
    rw [visitNode, found]
    exact ⟨_, rfl⟩
  obtain ⟨base, ranged⟩ : ∃ base, planRanges graph options live (graphEnd order) = .ok base := by
    refine foldlM_succeeds (fun entry member state => ?_) _
    have listed : entry.1 ∈ graph.values := List.fst_mem_of_mem_zipIdx member
    obtain ⟨range, made⟩ := @rangeOf_succeeds options
      (initialRange live (graphEnd order) entry.1 entry.2) entry.1 rfl rfl rfl fun bytes whole => by
        have part : roundUp bytes options.alignment ≤ demand graph options :=
          List.le_sum_of_mem (List.mem_map_of_mem (List.mem_filterMap.mpr ⟨_, listed, whole⟩))
        exact ((le_roundUp bytes options.alignment).trans part).trans fits
    refine ⟨record state range, ?_⟩
    rw [made]
    rfl
  refine ⟨assign sorter options base, ?_⟩
  unfold MemoryPlanner.plan
  rw [if_neg positive.ne']
  simp only [valid, sorted, analysed, ranged, Bool.not_true, Bool.false_eq_true, if_false, bind,
    Except.bind, pure, Except.pure]

end Success

/-- The range of a value in a finished plan, next to the range the liveness gives it. -/
structure Placed (options : MemoryPlanOptions) (initial : MemoryLiveRange) (value : Value)
    (range : MemoryLiveRange) : Prop where
  id : range.value = initial.value
  first : range.firstNode = initial.firstNode
  last : range.lastNode = initial.lastNode
  dtype : range.dtype = initial.dtype
  device : range.device = initial.device
  payload : range.eligible = true → payload options value = some range.bytes
  aligned : range.eligible = true → range.alignedBytes = alignUp range.bytes options.alignment
  skipped : range.eligible = false → MemoryPlanner.payload options value = none

theorem plan_placed (planned : plan sorter graph options = .ok result) :
    ∃ order live, graph.topologicalSort = .ok order ∧ liveness graph order = .ok live ∧
      result.ranges.length = graph.values.length ∧ ∀ id value, graph.values[id]? = some value →
        Placed options (initialRange live (graphEnd order) value id) value
          (rangeAt result.ranges id) := by
  obtain ⟨order, live, base, sorted, analysed, ranged, rfl⟩ := plan_stages planned
  have described := planRanges_ranged (liveness_started analysed) ranged
  obtain ⟨each, -, start⟩ := planRanges_cases ranged
  obtain ⟨-, slots, outcome, -⟩ := assign_outcome sorter options described.ordered start
  refine ⟨order, live, sorted, analysed, outcome.length.trans described.length, ?_⟩
  intro id value found
  obtain ⟨inside, rfl⟩ := List.getElem?_eq_some_iff.mp found
  have inRanges : id < base.ranges.length := described.length.symm ▸ inside
  have describes := each.get (by rwa [List.length_zipIdx]) inRanges
  rw [List.get_eq_getElem, List.get_eq_getElem, List.getElem_zipIdx, Nat.zero_add,
    ← rangeAt_eq (List.getElem?_eq_getElem inRanges)] at describes
  obtain ⟨bufferId, moved⟩ := outcome.fields id
  obtain ⟨_, _, _, _, same⟩ := describes.same
  rw [moved]
  constructor
  case id => rw [same]
  case first => rw [same]
  case last => rw [same]
  case dtype => rw [same]
  case device => rw [same]
  case payload => exact fun eligible => (describes.placed eligible).1
  case aligned => exact fun eligible => (describes.placed eligible).2.1
  case skipped => exact describes.skipped

/-- The node that an execution order runs at a step. -/
def NodeAt (graph : Graph Num) (order : List Nat) (step : Nat) (node : Node Num) : Prop :=
  ∃ nid, order[step]? = some nid ∧ graph.nodes[nid]? = some node

/-- The range of a value: it starts at the step that makes the value, at the first step
when none does, and ends at the last step that uses it, for an output at the end of the
order. It is eligible exactly when the value takes memory of a known size. -/
structure RangeOf (graph : Graph Num) (options : MemoryPlanOptions) (order : List Nat) (id : Nat)
    (value : Value) (range : MemoryLiveRange) : Prop where
  names : range.value = id
  dtype : range.dtype = value.dtype
  device : range.device = value.device
  first : IsLeast {bound | ∀ step node, NodeAt graph order step node → id ∈ node.outputs →
    step ≤ bound} range.firstNode
  last : IsLeast {bound | range.firstNode ≤ bound ∧
    (value.kind = .output → order.length ≤ bound + 1) ∧
    ∀ step node, NodeAt graph order step node → id ∈ node.inputs ∨ id ∈ node.outputs →
      step ≤ bound} range.lastNode
  eligible : range.eligible = true ↔ (payload options value).isSome = true
  bytes : range.eligible = true → payload options value = some range.bytes
  aligned : range.eligible = true → range.alignedBytes = alignUp range.bytes options.alignment

/-- The plan has one range for each value of the graph. -/
def PlansValues (graph : Graph Num) (options : MemoryPlanOptions) (result : MemoryPlan) : Prop :=
  ∃ order, graph.topologicalSort = .ok order ∧ result.ranges.length = graph.values.length ∧
    ∀ id value, graph.values[id]? = some value →
      RangeOf graph options order id value (rangeAt result.ranges id)

/-- A value starts at the last step that makes it. -/
theorem Seen.isLeast_first {order : List Nat} {live : Liveness} {last id : Nat} {value : Value}
    (seen : Seen graph order.zipIdx live) (below : id < graph.values.length) :
    IsLeast {bound | ∀ step node, NodeAt graph order step node → id ∈ node.outputs →
      step ≤ bound} (initialRange live last value id).firstNode := by
  have makes : ∀ step node, NodeAt graph order step node → id ∈ node.outputs →
      live.hasProducer id = true ∧ step ≤ live.firstNode id := by
    rintro step node ⟨nid, at_step, found⟩ made
    have listed : (nid, step) ∈ order.zipIdx := List.mem_zipIdx_iff_getElem?.mpr at_step
    exact ⟨seen.produced _ listed node found id below made,
      seen.started _ listed node found id below made⟩
  simp only [initialRange]
  split
  · next has =>
      refine ⟨fun step node runs made => (makes step node runs made).2, fun bound each => ?_⟩
      obtain ⟨entry, listed, node, found, made, started⟩ := seen.source id has
      rw [started]
      exact each _ node ⟨_, List.mem_zipIdx_iff_getElem?.mp listed, found⟩ made
  · next none_ =>
      exact ⟨fun step node runs made => absurd (makes step node runs made).1 none_,
        fun bound _ => Nat.zero_le bound⟩

/-- A value ends at the last step that uses it, an output with the order. -/
theorem Seen.isLeast_last {order : List Nat} {live : Liveness} {id : Nat} {value : Value}
    (seen : Seen graph order.zipIdx live) (below : id < graph.values.length) :
    IsLeast {bound | (initialRange live (graphEnd order) value id).firstNode ≤ bound ∧
      (value.kind = .output → order.length ≤ bound + 1) ∧
      ∀ step node, NodeAt graph order step node → id ∈ node.inputs ∨ id ∈ node.outputs →
        step ≤ bound} (initialRange live (graphEnd order) value id).lastNode := by
  have ordered := initialRange_ordered live (graphEnd order) value id
  have reached := le_initialRange_lastNode live (graphEnd order) value id
  have ends : ∀ step, step < order.length → step ≤ graphEnd order := by
    intro step inside
    unfold graphEnd
    split <;> omega
  have closes : order.length ≤ graphEnd order + 1 := by
    unfold graphEnd
    split <;> omega
  refine ⟨⟨ordered, fun output => ?_, ?_⟩, ?_⟩
  · rw [if_pos output] at reached
    exact closes.trans (Nat.succ_le_succ reached)
  · rintro step node ⟨nid, at_step, found⟩ uses
    refine le_trans ?_ reached
    split
    · exact ends step (List.getElem?_eq_some_iff.mp at_step).1
    · exact seen.used (nid, step) (List.mem_zipIdx_iff_getElem?.mpr at_step) node found id below uses
  · rintro bound ⟨starts, output, uses⟩
    have unused : (if value.kind = .output then graphEnd order else live.lastNode id) ≤ bound := by
      split
      · next kind =>
          have closed := output kind
          unfold graphEnd
          split <;> omega
      · refine seen.ended id bound fun entry listed node found used => ?_
        exact uses _ node ⟨_, List.mem_zipIdx_iff_getElem?.mp listed, found⟩ used
    simp only [initialRange] at starts ⊢
    generalize (if live.hasProducer id = true then live.firstNode id else 0) = firstNode at starts ⊢
    generalize (if value.kind = .output then graphEnd order else live.lastNode id) = lastNode
      at unused ⊢
    split
    · exact starts
    · exact unused

/-- A successful plan holds the graph's values with their live ranges. -/
theorem plan_values (planned : plan sorter graph options = .ok result) :
    PlansValues graph options result := by
  obtain ⟨order, live, sorted, analysed, length, placed⟩ := plan_placed planned
  have seen := liveness_seen analysed
  refine ⟨order, sorted, length, fun id value found => ?_⟩
  have below := (List.getElem?_eq_some_iff.mp found).1
  have place := placed id value found
  constructor
  case names => exact place.id
  case dtype => exact place.dtype
  case device => exact place.device
  case first =>
    rw [place.first]
    exact seen.isLeast_first below
  case last =>
    rw [place.first, place.last]
    exact seen.isLeast_last below
  case eligible =>
    constructor
    · intro eligible
      rw [place.payload eligible]
      rfl
    · intro sized
      by_contra skipped
      rw [place.skipped (Bool.eq_false_iff.mpr skipped)] at sized
      cases sized
  case bytes => exact place.payload
  case aligned => exact place.aligned

end Finished

end MiniLLM.MemoryPlanner
