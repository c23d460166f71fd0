import MiniLLM.ArenaLayout
import MiniLLM.PlannerMatching

/-!
What a plan guarantees. Values share a buffer only while their live ranges are
apart, buffers share an arena only at disjoint offsets, the plan is no smaller than
what is live at any step and no larger than the values side by side, and with one
size per pool it needs no more buffers than some step has live values.
-/

namespace MiniLLM.MemoryPlanner

open IntervalPartition

variable {Num : Type}

section Outcomes

variable {ranges : List MemoryLiveRange}
  {ordered : ∀ i, (rangeAt ranges i).firstNode ≤ (rangeAt ranges i).lastNode}

/-- A finished plan next to the slots its buffers stand for. -/
structure Outcome (placed : List Nat) (slots : List (Slot (workload ranges ordered)))
    (result : MemoryPlan) : Prop where
  run : Run (workload ranges ordered) placed slots
  perm : placed.Perm (eligibleIndices ranges)
  length : result.ranges.length = ranges.length
  fields : ∀ i, ∃ bufferId,
    rangeAt result.ranges i = { rangeAt ranges i with bufferId := bufferId }
  count : result.buffers.length = slots.length
  holds : ∀ i buffer slot, result.buffers[i]? = some buffer → slots[i]? = some slot →
    Holds buffer slot ∧ buffer.id = i
  assigned : ∀ i slot, slots[i]? = some slot → ∀ job ∈ slot.jobs,
    (rangeAt result.ranges job).bufferId = i

theorem addBytes_total (buffers : List MemoryBuffer) :
    buffers.foldl addBytes 0 = wrapSize (buffers.map MemoryBuffer.bytes).sum := by
  have total := wrapped_total MemoryBuffer.bytes buffers 0
  rw [Nat.zero_add] at total
  exact total

/-- The buffers are as large as their slots. -/
theorem Tracks.bytes {placed : List Nat} {state : Matching}
    {slots : List (Slot (workload ranges ordered))} (tracks : Tracks placed state slots) :
    state.buffers.map MemoryBuffer.bytes = slots.map Slot.size := by
  apply List.ext_getElem?
  intro i
  rw [List.getElem?_map, List.getElem?_map]
  cases found : slots[i]? with
  | none =>
      rw [List.getElem?_eq_none_iff, tracks.length, ← List.getElem?_eq_none_iff] at found
      rw [found]
      rfl
  | some slot =>
      have inside : i < state.buffers.length :=
        tracks.length ▸ (List.getElem?_eq_some_iff.mp found).1
      have holds := tracks.holds i slot found
      rw [bufferAt_eq (List.getElem?_eq_getElem inside)] at holds
      rw [List.getElem?_eq_getElem inside, Option.map_some, Option.map_some, holds.bytes]

theorem assign_outcome (sorter : StdSort) (options : MemoryPlanOptions) {base : MemoryPlan}
    (ordered : ∀ i, (rangeAt base.ranges i).firstNode ≤ (rangeAt base.ranges i).lastNode)
    (start : base.plannedBytes = 0) :
    ∃ buffers, ∃ slots : List (Slot (workload base.ranges ordered)),
      Outcome (sortedIndices sorter base.ranges) slots (assign sorter options base) ∧
      buffers.map MemoryBuffer.bytes = slots.map Slot.size ∧
      (assign sorter options base).buffers = layout options.alignment {} buffers ∧
      (assign sorter options base).plannedBytes = wrapSize (slots.map Slot.size).sum ∧
      (assign sorter options base).naiveBytes = base.naiveBytes := by
  obtain ⟨slots, tracks⟩ := matching_tracks sorter base.ranges ordered
  have total : (assign sorter options base).plannedBytes = wrapSize (slots.map Slot.size).sum := by
    rw [← tracks.bytes, ← addBytes_total, ← start]
    rfl
  refine ⟨_, slots, ?_, tracks.bytes, rfl, total, rfl⟩
  have same := layout_same options.alignment
    ((sortedIndices sorter base.ranges).foldl matchRange { ranges := base.ranges }).buffers {}
  constructor
  case run => exact tracks.run
  case perm => exact sorter.perm _ _
  case length => exact tracks.size
  case fields => exact tracks.fields
  case count => exact same.length_eq.symm.trans tracks.length.symm
  case holds =>
    intro i buffer slot found at_i
    obtain ⟨inside, rfl⟩ := List.getElem?_eq_some_iff.mp found
    have earlier := same.length_eq.symm ▸ inside
    obtain ⟨_, _, moved⟩ := same.get earlier inside
    have holds := tracks.holds i slot at_i
    have number := tracks.ids i earlier
    rw [bufferAt_eq (List.getElem?_eq_getElem earlier)] at holds number
    rw [List.get_eq_getElem, List.get_eq_getElem] at moved
    have kept : (assign sorter options base).buffers[i] = _ := moved
    rw [kept]
    exact ⟨⟨holds.key, holds.bytes, holds.lastUse, holds.values⟩, number⟩
  case assigned => exact tracks.assigned

theorem Outcome.eligible {placed : List Nat} {slots : List (Slot (workload ranges ordered))}
    {result : MemoryPlan} (outcome : Outcome placed slots result) {i : Nat} :
    i ∈ placed ↔ i < ranges.length ∧ (rangeAt ranges i).eligible = true := by
  rw [outcome.perm.mem_iff]
  simp [eligibleIndices]

theorem Outcome.nodup {placed : List Nat} {slots : List (Slot (workload ranges ordered))}
    {result : MemoryPlan} (outcome : Outcome placed slots result) :
    (slots.flatMap Slot.jobs).Nodup :=
  (outcome.run.perm.trans outcome.perm).nodup_iff.mpr (List.nodup_range.filter _)

/-- The jobs of a slot are eligible values, and its buffer lists them. -/
theorem Outcome.values {placed : List Nat} {slots : List (Slot (workload ranges ordered))}
    {result : MemoryPlan} (outcome : Outcome placed slots result)
    (numbered : ∀ i < ranges.length, (rangeAt ranges i).value = i) {i : Nat}
    {buffer : MemoryBuffer} (found : result.buffers[i]? = some buffer) :
    ∃ slot, slots[i]? = some slot ∧ Holds buffer slot ∧ buffer.id = i ∧
      buffer.values = slot.jobs ∧ ∀ job ∈ slot.jobs, job ∈ placed := by
  have inside : i < slots.length := outcome.count ▸ (List.getElem?_eq_some_iff.mp found).1
  have there := List.getElem?_eq_getElem inside
  obtain ⟨holds, number⟩ := outcome.holds i buffer _ found there
  have jobs : ∀ job ∈ slots[i].jobs, job ∈ placed := fun job member =>
    outcome.run.perm.subset (List.mem_flatMap.mpr ⟨_, List.getElem_mem inside, member⟩)
  refine ⟨_, there, holds, number, ?_, jobs⟩
  rw [holds.values]
  calc slots[i].jobs.map (fun job => (rangeAt ranges job).value)
      = slots[i].jobs.map id :=
        List.map_congr_left fun job member => numbered job (outcome.eligible.mp (jobs job member)).1
    _ = slots[i].jobs := List.map_id _

/-- The range of an eligible value in the finished plan. -/
theorem Outcome.range {placed : List Nat} {slots : List (Slot (workload ranges ordered))}
    {result : MemoryPlan} (outcome : Outcome placed slots result)
    (numbered : ∀ i < ranges.length, (rangeAt ranges i).value = i) {range : MemoryLiveRange}
    (member : range ∈ result.ranges) (eligible : range.eligible = true) :
    range.value ∈ placed ∧ rangeAt result.ranges range.value = range ∧
      ∃ bufferId, range = { rangeAt ranges range.value with bufferId := bufferId } := by
  obtain ⟨i, found⟩ := List.mem_iff_getElem?.mp member
  have inside : i < ranges.length := outcome.length ▸ (List.getElem?_eq_some_iff.mp found).1
  obtain ⟨bufferId, same⟩ := outcome.fields i
  rw [rangeAt_eq found] at same
  have value : range.value = i := by
    rw [same]
    exact numbered i inside
  rw [value]
  refine ⟨outcome.eligible.mpr ⟨inside, ?_⟩, rangeAt_eq found, bufferId, same⟩
  rw [same] at eligible
  exact eligible

/-- An eligible value is a job of the slot its range names, and of no other. -/
theorem Outcome.home {placed : List Nat} {slots : List (Slot (workload ranges ordered))}
    {result : MemoryPlan} (outcome : Outcome placed slots result) {job : Nat}
    (member : job ∈ placed) {i : Nat} {slot : Slot (workload ranges ordered)}
    (there : slots[i]? = some slot) :
    job ∈ slot.jobs ↔ (rangeAt result.ranges job).bufferId = i := by
  constructor
  · exact outcome.assigned i slot there job
  · intro number
    obtain ⟨home, listed, inside⟩ := List.mem_flatMap.mp (outcome.run.perm.symm.subset member)
    obtain ⟨k, at_k⟩ := List.mem_iff_getElem?.mp listed
    have same := outcome.assigned k home at_k job inside
    rw [number] at same
    subst same
    rw [there] at at_k
    exact Option.some.inj at_k ▸ inside

theorem ranges_eq (ranges : List MemoryLiveRange) :
    ranges = (List.range ranges.length).map (rangeAt ranges) := by
  apply List.ext_getElem
  · simp
  · intro i left right
    rw [List.getElem_map, List.getElem_range, rangeAt_eq (List.getElem?_eq_getElem left)]

/-- Totals over the eligible ranges do not see which buffers the ranges are in. -/
theorem filter_ranges {others : List MemoryLiveRange} {placed : List Nat}
    (length : others.length = ranges.length)
    (fields : ∀ i, ∃ bufferId,
      rangeAt others i = { rangeAt ranges i with bufferId := bufferId })
    (perm : placed.Perm (eligibleIndices ranges)) {Item : Type}
    (keep : MemoryLiveRange → Bool) (item : MemoryLiveRange → Item)
    (blind : ∀ range bufferId, keep { range with bufferId := bufferId } = keep range)
    (unmoved : ∀ range bufferId, item { range with bufferId := bufferId } = item range) :
    ((others.filter fun range => range.eligible && keep range).map item).Perm
      ((placed.filter fun i => keep (rangeAt ranges i)).map fun i => item (rangeAt ranges i)) := by
  have sameKeep : ∀ i, ((rangeAt others i).eligible && keep (rangeAt others i)) =
      ((rangeAt ranges i).eligible && keep (rangeAt ranges i)) := by
    intro i
    obtain ⟨bufferId, same⟩ := fields i
    rw [same, blind]
  have sameItem : ∀ i, item (rangeAt others i) = item (rangeAt ranges i) := by
    intro i
    obtain ⟨bufferId, same⟩ := fields i
    rw [same, unmoved]
  rw [ranges_eq others, List.filter_map, List.map_map, length]
  simp only [Function.comp_def, sameKeep, sameItem]
  refine List.Perm.map _ (List.Perm.trans ?_ (perm.filter _).symm)
  rw [eligibleIndices, List.filter_filter]
  simp only [Bool.and_comm]
  exact List.Perm.refl _

end Outcomes

section Success

/-- A successful plan, down to the slots of its buffers. -/
theorem plan_outcome {sorter : StdSort} {graph : Graph Num} {options : MemoryPlanOptions}
    {result : MemoryPlan} (planned : plan sorter graph options = .ok result) :
    0 < options.alignment ∧ ∃ last ranges, ∃ ranged : Ranged graph options last ranges,
      last < max 1 graph.nodes.length ∧ ∃ placed buffers,
        ∃ slots : List (Slot (workload ranges ranged.ordered)),
          Outcome placed slots result ∧
          buffers.map MemoryBuffer.bytes = slots.map Slot.size ∧
          result.buffers = layout options.alignment {} buffers ∧
          result.plannedBytes = wrapSize (slots.map Slot.size).sum ∧
          result.naiveBytes = wrapSize (alignedTotal ranges) := by
  obtain ⟨positive, last, base, ranged, inside, naive, start, rfl⟩ := plan_cases planned
  obtain ⟨buffers, slots, outcome, bytes, laid, total, same⟩ :=
    assign_outcome sorter options ranged.ordered start
  exact ⟨positive, last, base.ranges, ranged, inside, _, buffers, slots, outcome, bytes, laid,
    total, same.trans naive⟩

end Success

end MiniLLM.MemoryPlanner
