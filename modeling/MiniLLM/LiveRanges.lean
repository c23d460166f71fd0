import MiniLLM.PlanGuarantees

/-!
What a plan's live ranges mean for an execution in topological order: a value's
range starts at the node that produces it and reaches every node that uses it,
and an output's range reaches the last node.
-/

namespace MiniLLM.MemoryPlanner

variable {Num : Type}

section Places

variable {sorter : StdSort} {graph : Graph Num} {options : MemoryPlanOptions}
  {result : MemoryPlan}

/-- Buffers of one arena take disjoint bytes, none of them past the last address. -/
theorem plan_buffers_apart (planned : plan sorter graph options = .ok result)
    (fits : demand graph options ≤ sizeMax) :
    (∀ (i : Nat) buffer, result.buffers[i]? = some buffer →
        buffer.offset + buffer.bytes ≤ sizeMax) ∧
      ∀ (i j : Nat) a b, result.buffers[i]? = some a → result.buffers[j]? = some b → i ≠ j →
        a.arenaIndex = b.arenaIndex →
        a.offset + a.bytes ≤ b.offset ∨ b.offset + b.bytes ≤ a.offset := by
  obtain ⟨-, total, offsets⟩ := plan_offsets planned fits
  obtain ⟨-, -, -, -, -, -, buffers, -, -, -, laid, -⟩ := plan_outcome planned
  constructor
  · intro i buffer found
    have inside := (List.getElem?_eq_some_iff.mp found).1
    have behind := keyBytes_take found inside
    rw [List.take_length] at behind
    rw [offsets i buffer found]
    exact behind.trans ((keyBytes_le _ _).trans (total.trans fits))
  · intro i j a b left right different arena
    have same : a.key = b.key := by
      have listedA := List.mem_of_getElem? left
      have listedB := List.mem_of_getElem? right
      rw [laid] at listedA listedB
      exact (layout_arenas listedA listedB).mp arena
    rcases Nat.lt_or_gt_of_ne different with before | behind
    · exact Or.inl (offset_le left same (offsets i a left) (offsets j b right) before)
    · exact Or.inr (offset_le right same.symm (offsets j b right) (offsets i a left) behind)

/-- An eligible value has a buffer with room for it, which it shares only with values
whose live ranges end before its own starts or start after it ends. -/
theorem plan_buffer (planned : plan sorter graph options = .ok result)
    (fits : demand graph options ≤ sizeMax) {i : Nat}
    (eligible : (rangeAt result.ranges i).eligible = true) :
    (∃ buffer, result.buffers[(rangeAt result.ranges i).bufferId]? = some buffer ∧
        (rangeAt result.ranges i).bytes ≤ buffer.bytes) ∧
      ∀ j, j ≠ i → (rangeAt result.ranges j).eligible = true →
        (rangeAt result.ranges j).bufferId = (rangeAt result.ranges i).bufferId →
        (rangeAt result.ranges i).lastNode < (rangeAt result.ranges j).firstNode ∨
          (rangeAt result.ranges j).lastNode < (rangeAt result.ranges i).firstNode := by
  obtain ⟨positive, last, ranges, ranged, -, placed, buffers, slots, outcome, -⟩ :=
    plan_outcome planned
  have job : ∀ j, (rangeAt result.ranges j).eligible = true → j ∈ placed := by
    intro j chosen
    obtain ⟨_, same⟩ := outcome.fields j
    rw [same] at chosen
    refine outcome.eligible.mpr ⟨?_, chosen⟩
    by_contra outside
    rw [rangeAt_outside (not_lt.mp outside)] at chosen
    cases chosen
  obtain ⟨slot, listed, member⟩ :=
    List.mem_flatMap.mp (outcome.run.perm.symm.subset (job i eligible))
  obtain ⟨home, there⟩ := List.mem_iff_getElem?.mp listed
  have number := outcome.assigned home slot there i member
  have inside : home < result.buffers.length :=
    outcome.count ▸ (List.getElem?_eq_some_iff.mp there).1
  obtain ⟨holds, -⟩ := outcome.holds home _ slot (List.getElem?_eq_getElem inside) there
  constructor
  · rw [number]
    refine ⟨_, List.getElem?_eq_getElem inside, ?_⟩
    have exact := ranged.exact positive fits
    have known := outcome.eligible.mp (job i eligible)
    have rounded := exact _ (List.getElem_mem known.1)
    rw [← rangeAt_eq (List.getElem?_eq_getElem known.1)] at rounded
    obtain ⟨_, same⟩ := outcome.fields i
    rw [same, holds.bytes]
    calc (rangeAt ranges i).bytes ≤ roundUp (rangeAt ranges i).bytes options.alignment :=
          le_roundUp _ _
      _ = (rangeAt ranges i).alignedBytes := (rounded known.2).symm
      _ ≤ slot.size := slot.fits i member
  · intro j different chosen shared
    have with_i := (outcome.home (job j chosen) there).mpr (shared.trans number)
    obtain ⟨_, sameI⟩ := outcome.fields i
    obtain ⟨_, sameJ⟩ := outcome.fields j
    rw [sameI, sameJ]
    exact slot.disjoint member with_i (Ne.symm different)

end Places

section Execution

/-- How live ranges cover an execution order. -/
structure Covered (graph : Graph Num) (order : List Nat) (ranges : List MemoryLiveRange) : Prop where
  used : ∀ k nid node, order[k]? = some nid → graph.nodes[nid]? = some node →
    ∀ v < graph.values.length, v ∈ node.inputs ∨ v ∈ node.outputs →
      k ≤ (rangeAt ranges v).lastNode
  produced : ∀ k nid node, order[k]? = some nid → graph.nodes[nid]? = some node →
    ∀ v < graph.values.length, v ∈ node.outputs → (rangeAt ranges v).firstNode = k
  output : ∀ v value, graph.values[v]? = some value → value.kind = .output →
    order.length ≤ (rangeAt ranges v).lastNode + 1

theorem plan_covered {sorter : StdSort} {graph : Graph Num} {options : MemoryPlanOptions}
    {result : MemoryPlan} (single : graph.SingleProducer)
    (planned : plan sorter graph options = .ok result) {order : List Nat}
    (sorted : graph.topologicalSort = .ok order) : Covered graph order result.ranges := by
  obtain ⟨other, live, sorts, analysed, -, placed⟩ := plan_placed planned
  obtain rfl := Except.ok.inj (sorts.symm.trans sorted)
  have seen := liveness_seen analysed
  have nodup := ((Graph.topologicalSort_cases (plan_validates planned) single).2 other
    sorted).perm.nodup_iff.mpr List.nodup_range
  have reach := fun v value (found : graph.values[v]? = some value) =>
    (placed v value found).last.symm ▸ le_initialRange_lastNode live (graphEnd other) value v
  constructor
  case used =>
    intro k nid node at_k found v below use
    have inside := (List.getElem?_eq_some_iff.mp at_k).1
    have listed : (nid, k) ∈ other.zipIdx := List.mem_zipIdx_iff_getElem?.mpr at_k
    have late := seen.used _ listed node found v below use
    refine le_trans ?_ (reach v _ (List.getElem?_eq_getElem below))
    split
    · rw [graphEnd]
      split <;> omega
    · exact late
  case produced =>
    intro k nid node at_k found v below made
    have listed : (nid, k) ∈ other.zipIdx := List.mem_zipIdx_iff_getElem?.mpr at_k
    have has := seen.produced _ listed node found v below made
    obtain ⟨entry, member, source, there, makes, started⟩ := seen.source v has
    have same := single _ _ _ _ v there found makes made
    have at_start := List.mem_zipIdx_iff_getElem?.mp member
    rw [same, ← at_k] at at_start
    have inside := (List.getElem?_eq_some_iff.mp at_k).1
    have once := (List.getElem?_inj inside nodup).mp at_start.symm
    rw [(placed v _ (List.getElem?_eq_getElem below)).first, initialRange]
    dsimp only
    rw [if_pos has, started, ← once]
  case output =>
    intro v value found kind
    have late := reach v value found
    rw [if_pos kind, graphEnd] at late
    split at late <;> omega

end Execution

end MiniLLM.MemoryPlanner
