import MiniLLM.ValueRanges
import Mathlib.Data.Finset.Lattice.Fold
import Mathlib.Order.Lattice.Nat

/-!
The guarantees of a successful plan. A size that would not fit a `size_t` is caught
for a single tensor only; a plan is exact when the rounded sizes of all eligible
values add up to a `size_t`, and then values and buffers are kept apart and the
totals are those of the values. How many buffers there are depends on no total.
-/

namespace MiniLLM.MemoryPlanner

open IntervalPartition

variable {Num : Type}

def liveAt (step : Nat) (range : MemoryLiveRange) : Bool :=
  range.firstNode ≤ step && step ≤ range.lastNode

/-- The bytes of the eligible values that are live at a step. -/
def liveBytes (result : MemoryPlan) (step : Nat) : Nat :=
  ((result.ranges.filter fun range => range.eligible && liveAt step range).map
    MemoryLiveRange.alignedBytes).sum

/-- The eligible values of a pool that are live at a step. -/
def liveValues (result : MemoryPlan) (pool : PoolKey) (step : Nat) : Nat :=
  (result.ranges.filter fun range =>
    range.eligible && (decide (range.key = pool) && liveAt step range)).length

def poolBuffers (result : MemoryPlan) (pool : PoolKey) : Nat :=
  result.buffers.countP fun buffer => buffer.key = pool

section Totals

variable {ranges : List MemoryLiveRange}
  {ordered : ∀ i, (rangeAt ranges i).firstNode ≤ (rangeAt ranges i).lastNode}
  {placed : List Nat} {slots : List (Slot (workload ranges ordered))} {result : MemoryPlan}

theorem liveAt_eq
    (ordered : ∀ i, (rangeAt ranges i).firstNode ≤ (rangeAt ranges i).lastNode) (step i : Nat) :
    liveAt step (rangeAt ranges i) = decide ((workload ranges ordered).Live step i) := by
  rw [Bool.eq_iff_iff]
  simp only [liveAt, Bool.and_eq_true, decide_eq_true_eq]
  rfl

theorem Outcome.liveBytes_eq (outcome : Outcome placed slots result) (step : Nat) :
    liveBytes result step =
      (workload ranges ordered).load (workload ranges ordered).size step placed := by
  have same := (filter_ranges outcome.length outcome.fields outcome.perm (liveAt step)
    MemoryLiveRange.alignedBytes (fun _ _ => rfl) (fun _ _ => rfl)).sum_eq
  simp only [liveAt_eq ordered] at same
  exact same

theorem Outcome.liveValues_eq (outcome : Outcome placed slots result) (pool : PoolKey)
    (step : Nat) :
    liveValues result pool step = (workload ranges ordered).liveCount pool step placed := by
  have same := (filter_ranges outcome.length outcome.fields outcome.perm
    (fun range => decide (range.key = pool) && liveAt step range) (fun _ => ())
    (fun _ _ => rfl) (fun _ _ => rfl)).length_eq
  simp only [List.length_map, liveAt_eq ordered, ← Bool.decide_and] at same
  rw [liveValues, same, Workload.liveCount, List.countP_eq_length_filter]
  rfl

theorem Outcome.poolBuffers_eq (outcome : Outcome placed slots result) (pool : PoolKey) :
    poolBuffers result pool = slotCount pool slots := by
  have keys : result.buffers.map MemoryBuffer.key = slots.map Slot.pool := by
    apply List.ext_getElem
    · rw [List.length_map, List.length_map, outcome.count]
    · intro i left right
      rw [List.length_map] at left right
      rw [List.getElem_map, List.getElem_map]
      exact (outcome.holds i _ _ (List.getElem?_eq_getElem left)
        (List.getElem?_eq_getElem right)).1.key
  have counted := congrArg (List.countP fun key => decide (key = pool)) keys
  rw [List.countP_map, List.countP_map] at counted
  exact counted

theorem Outcome.total_eq (outcome : Outcome placed slots result) :
    alignedTotal ranges = (placed.map (workload ranges ordered).size).sum := by
  have same := (filter_ranges rfl (fun i => ⟨_, rfl⟩) outcome.perm (fun _ => true)
    MemoryLiveRange.alignedBytes (fun _ _ => rfl) (fun _ _ => rfl)).sum_eq
  simp only [Bool.and_true, List.filter_true] at same
  exact same

theorem Outcome.size_le (outcome : Outcome placed slots result) :
    (slots.map Slot.size).sum ≤ alignedTotal ranges := by
  rw [outcome.total_eq]
  exact outcome.run.size_le

/-- Slots of rounded sizes are multiples of the alignment. -/
theorem Outcome.whole (outcome : Outcome placed slots result) {alignment : Nat}
    (positive : 0 < alignment)
    (exact : ∀ range ∈ ranges, range.eligible = true →
      range.alignedBytes = roundUp range.bytes alignment) :
    ∀ size ∈ slots.map Slot.size, alignment ∣ size := by
  intro size member
  obtain ⟨slot, listed, rfl⟩ := List.mem_map.mp member
  obtain ⟨job, opened, size⟩ := slot.opener
  obtain ⟨inside, eligible⟩ := outcome.eligible.mp
    (outcome.run.perm.subset (List.mem_flatMap.mpr ⟨slot, listed, opened⟩))
  have known : rangeAt ranges job ∈ ranges := by
    rw [rangeAt_eq (List.getElem?_eq_getElem inside)]
    exact List.getElem_mem inside
  have rounded : (workload ranges ordered).size job = roundUp _ alignment :=
    exact _ known eligible
  rw [← size, rounded]
  exact dvd_roundUp _ positive

end Totals

section Samples

def sampleValue (name : String) (kind : ValueKind) (dims : Int)
    (valid : ∀ d ∈ [dims], d = -1 ∨ 0 < d ∧ d < 9223372036854775808) : Value :=
  { name := name, shape := ⟨[dims], valid⟩, dtype := .float32, kind := kind }

/-- A chain of nodes; the first and the third intermediate share a buffer. -/
def chainGraph : Graph Int where
  values := [sampleValue "x" .input 2 (by decide), sampleValue "a" .intermediate 2 (by decide),
    sampleValue "b" .intermediate 2 (by decide), sampleValue "c" .intermediate 2 (by decide),
    sampleValue "y" .output 2 (by decide)]
  nodes := [{ opType := .siLU, inputs := [0], outputs := [1] },
    { opType := .siLU, inputs := [1], outputs := [2] },
    { opType := .siLU, inputs := [2], outputs := [3] },
    { opType := .siLU, inputs := [3], outputs := [4] }]

def chainPlan : MemoryPlan := (plan StdSort.insertion chainGraph {}).toOption.getD {}

/-- Four bytes short of 2^64: the size passes its check and rounds up to zero. -/
def wideGraph : Graph Int where
  values := [sampleValue "x" .input 4611686018427387903 (by decide),
    sampleValue "h" .intermediate 4611686018427387903 (by decide)]
  nodes := [{ opType := .siLU, inputs := [0], outputs := [1] }]

def widePlan : MemoryPlan := (plan StdSort.insertion wideGraph {}).toOption.getD {}

end Samples

section Exactness

/-- Every size, total and offset of a plan is what it would be in the integers. -/
structure Exact (alignment : Nat) (result : MemoryPlan) : Prop where
  aligned : ∀ range ∈ result.ranges, range.eligible = true →
    range.bytes ≤ range.alignedBytes ∧ range.alignedBytes = roundUp range.bytes alignment
  naive : result.naiveBytes = alignedTotal result.ranges
  planned : result.plannedBytes = (result.buffers.map MemoryBuffer.bytes).sum
  offsets : ∀ i buffer, result.buffers[i]? = some buffer →
    buffer.offset =
        roundUp (arenaEnd alignment (ofKey buffer.key (result.buffers.take i))) alignment ∧
      buffer.offset + buffer.bytes ≤ sizeMax

variable {sorter : StdSort} {graph : Graph Num} {options : MemoryPlanOptions}
  {result : MemoryPlan}

theorem SameBuffer.bytes {buffer placed : MemoryBuffer} (same : SameBuffer buffer placed) :
    placed.bytes = buffer.bytes := by
  obtain ⟨_, _, rfl⟩ := same
  rfl

theorem layout_bytes (alignment : Nat) (buffers : List MemoryBuffer) :
    (layout alignment {} buffers).map MemoryBuffer.bytes = buffers.map MemoryBuffer.bytes := by
  have same := layout_same alignment buffers {}
  generalize layout alignment {} buffers = placed at same
  induction same with
  | nil => rfl
  | cons here _ ih => rw [List.map_cons, List.map_cons, here.bytes, ih]

/-- While the demand fits, the buffers of an arena lie one behind the other. -/
theorem plan_offsets (planned : plan sorter graph options = .ok result)
    (fits : demand graph options ≤ sizeMax) :
    (∀ buffer ∈ result.buffers, options.alignment ∣ buffer.bytes) ∧
      (result.buffers.map MemoryBuffer.bytes).sum ≤ demand graph options ∧
      ∀ i buffer, result.buffers[i]? = some buffer →
        buffer.offset = keyBytes buffer.key (result.buffers.take i) := by
  obtain ⟨positive, last, ranges, ranged, -, placed, buffers, slots, outcome, bytes, laid, -, -⟩ :=
    plan_outcome planned
  have exact := ranged.exact positive fits
  have total : (buffers.map MemoryBuffer.bytes).sum ≤ demand graph options := by
    rw [bytes, ← ranged.demand_eq exact]
    exact outcome.size_le
  have whole : ∀ buffer ∈ buffers, options.alignment ∣ buffer.bytes := fun buffer member =>
    outcome.whole positive exact _ (bytes ▸ List.mem_map_of_mem member)
  have same := layout_same options.alignment buffers {}
  rw [laid]
  refine ⟨fun placed member => ?_, by rw [layout_bytes]; exact total, fun i placed found => ?_⟩
  · have listed : placed.bytes ∈ buffers.map MemoryBuffer.bytes := by
      rw [← layout_bytes options.alignment]
      exact List.mem_map_of_mem member
    exact outcome.whole positive exact _ (bytes ▸ listed)
  · have start : Ends {} [] := fun key => ⟨fun _ => rfl, fun _ found => by cases found⟩
    have offset := @layout_offsets _ buffers _ [] start whole
      (fun key => (keyBytes_le key buffers).trans (total.trans fits)) i placed found
    rw [offset, keyBytes_same (List.forall₂_take i same)]
    rfl

theorem Outcome.alignedTotal_eq {ranges : List MemoryLiveRange}
    {ordered : ∀ i, (rangeAt ranges i).firstNode ≤ (rangeAt ranges i).lastNode}
    {placed : List Nat} {slots : List (Slot (workload ranges ordered))}
    (outcome : Outcome placed slots result) :
    alignedTotal result.ranges = alignedTotal ranges := by
  have same := (filter_ranges outcome.length outcome.fields outcome.perm (fun _ => true)
    MemoryLiveRange.alignedBytes (fun _ _ => rfl) (fun _ _ => rfl)).sum_eq
  rw [outcome.total_eq]
  simp only [Bool.and_true, List.filter_true] at same
  exact same

theorem forall_eligible {ranges : List MemoryLiveRange} {P : MemoryLiveRange → Prop} :
    (∀ range ∈ ranges, range.eligible = true → P range) ↔
      ∀ i, (rangeAt ranges i).eligible = true → P (rangeAt ranges i) := by
  constructor
  · intro all i eligible
    cases found : ranges[i]? with
    | none =>
        rw [rangeAt_outside (List.getElem?_eq_none_iff.mp found)] at eligible
        cases eligible
    | some range =>
        rw [rangeAt_eq found] at eligible ⊢
        exact all range (List.mem_of_getElem? found) eligible
  · intro all range member
    obtain ⟨i, found⟩ := List.mem_iff_getElem?.mp member
    have here := all i
    rwa [rangeAt_eq found] at here

/-- The matching does not touch the sizes of the ranges. -/
theorem Outcome.sizes {ranges : List MemoryLiveRange}
    {ordered : ∀ i, (rangeAt ranges i).firstNode ≤ (rangeAt ranges i).lastNode}
    {placed : List Nat} {slots : List (Slot (workload ranges ordered))}
    (outcome : Outcome placed slots result) {alignment : Nat} :
    (∀ range ∈ result.ranges, range.eligible = true →
        range.alignedBytes = roundUp range.bytes alignment) ↔
      ∀ range ∈ ranges, range.eligible = true →
        range.alignedBytes = roundUp range.bytes alignment := by
  rw [forall_eligible, forall_eligible]
  refine forall_congr' fun i => ?_
  obtain ⟨bufferId, same⟩ := outcome.fields i
  rw [same]

/-- Nothing in a plan wraps exactly when the rounded sizes add up to a `size_t`. -/
theorem plan_exact_iff (planned : plan sorter graph options = .ok result) :
    Exact options.alignment result ↔ demand graph options ≤ sizeMax := by
  obtain ⟨positive, last, ranges, ranged, -, placed, buffers, slots, outcome, bytes, laid, total,
    naive⟩ := plan_outcome planned
  constructor
  · intro exact
    have rounded := outcome.sizes.mp fun range member eligible =>
      (exact.aligned range member eligible).2
    rw [← ranged.demand_eq rounded, ← outcome.alignedTotal_eq, ← exact.naive, naive]
    exact wrapSize_le _
  · intro fits
    have rounded := ranged.exact positive fits
    have demanded := ranged.demand_eq rounded
    obtain ⟨whole, bounded, offsets⟩ := plan_offsets planned fits
    have sizes : result.buffers.map MemoryBuffer.bytes = slots.map Slot.size := by
      rw [laid, layout_bytes, bytes]
    constructor
    case aligned =>
      intro range member eligible
      have same := outcome.sizes.mpr rounded range member eligible
      exact ⟨same ▸ le_roundUp _ _, same⟩
    case naive =>
      rw [naive, wrapSize_self (demanded ▸ fits), outcome.alignedTotal_eq]
    case planned =>
      rw [total, ← sizes]
      exact wrapSize_self (bounded.trans fits)
    case offsets =>
      intro i buffer found
      have inside := (List.getElem?_eq_some_iff.mp found).1
      have earlier : ∀ other ∈ ofKey buffer.key (result.buffers.take i),
          options.alignment ∣ other.bytes := fun other member =>
        whole other (List.mem_of_mem_take (List.mem_filter.mp member).1)
      have end_eq : arenaEnd options.alignment (ofKey buffer.key (result.buffers.take i)) =
          keyBytes buffer.key (result.buffers.take i) := arenaEnd_eq earlier
      have behind := keyBytes_take found inside
      rw [List.take_length] at behind
      rw [offsets i buffer found, end_eq, roundUp_of_dvd (keyBytes_dvd buffer.key fun other member =>
        whole other (List.mem_of_mem_take member))]
      exact ⟨rfl, behind.trans ((keyBytes_le _ _).trans (bounded.trans fits))⟩

theorem plan_exact_iff_chain :
    plan StdSort.insertion chainGraph {} = .ok chainPlan ∧
      (Exact 64 chainPlan ↔ demand chainGraph {} ≤ sizeMax) :=
  ⟨rfl, @plan_exact_iff _ StdSort.insertion chainGraph {} chainPlan rfl⟩

/-- The rounded size of a value wraps to zero, and the plan gives it an empty buffer. -/
theorem wide_plan_wraps :
    plan StdSort.insertion wideGraph {} = .ok widePlan ∧ ¬ Exact 64 widePlan := by
  refine ⟨rfl, fun exact => ?_⟩
  have smaller := (exact.aligned (rangeAt widePlan.ranges 1) (by decide) (by decide)).1
  exact absurd smaller (by decide)

end Exactness

section Separation

/-- Values of one buffer and buffers of one arena keep out of each other's way. -/
structure Separated (alignment : Nat) (result : MemoryPlan) : Prop where
  assigned : ∀ buffer ∈ result.buffers, ∀ a ∈ result.ranges, a.eligible = true →
    (a.value ∈ buffer.values ↔ a.bufferId = buffer.id)
  apart : ∀ buffer ∈ result.buffers, ∀ a ∈ result.ranges, ∀ b ∈ result.ranges,
    a.eligible = true → b.eligible = true → a.value ≠ b.value →
    a.value ∈ buffer.values → b.value ∈ buffer.values →
    a.lastNode < b.firstNode ∨ b.lastNode < a.firstNode
  suited : ∀ buffer ∈ result.buffers, ∀ a ∈ result.ranges, a.eligible = true →
    a.value ∈ buffer.values →
    a.dtype = buffer.dtype ∧ a.device = buffer.device ∧ a.alignedBytes ≤ buffer.bytes
  disjoint : ∀ (i j : Nat) a b, result.buffers[i]? = some a → result.buffers[j]? = some b →
    i ≠ j → a.arenaIndex = b.arenaIndex →
    a.offset + a.bytes ≤ b.offset ∨ b.offset + b.bytes ≤ a.offset
  aligned : ∀ buffer ∈ result.buffers, alignment ∣ buffer.offset
  arenas : ∀ a ∈ result.buffers, ∀ b ∈ result.buffers,
    a.arenaIndex = b.arenaIndex ↔ a.dtype = b.dtype ∧ a.device = b.device

variable {sorter : StdSort} {graph : Graph Num} {options : MemoryPlanOptions}
  {result : MemoryPlan}

theorem poolKey_eq_iff (a b : DType) (x y : Device) :
    (⟨a, x.type, x.index⟩ : PoolKey) = ⟨b, y.type, y.index⟩ ↔ a = b ∧ x = y := by
  obtain ⟨_, _⟩ := x
  obtain ⟨_, _⟩ := y
  simp

theorem offset_le {buffers : List MemoryBuffer} {i j : Nat} {a b : MemoryBuffer}
    (left : buffers[i]? = some a) (same : a.key = b.key)
    (offsetA : a.offset = keyBytes a.key (buffers.take i))
    (offsetB : b.offset = keyBytes b.key (buffers.take j)) (later : i < j) :
    a.offset + a.bytes ≤ b.offset := by
  rw [offsetA, offsetB, ← same]
  exact keyBytes_take left later

theorem plan_separated (planned : plan sorter graph options = .ok result)
    (fits : demand graph options ≤ sizeMax) :
    PlansValues graph options result ∧ Separated options.alignment result := by
  obtain ⟨whole, -, offsets⟩ := plan_offsets planned fits
  obtain ⟨positive, last, ranges, ranged, -, placed, buffers, slots, outcome, bytes, laid, -, -⟩ :=
    plan_outcome planned
  have arenas : ∀ a ∈ result.buffers, ∀ b ∈ result.buffers,
      a.arenaIndex = b.arenaIndex ↔ a.key = b.key := by
    rw [laid]
    exact fun a left b right => layout_arenas left right
  refine ⟨plan_values planned, ?_⟩
  constructor
  case assigned =>
    intro buffer listed a member eligible
    obtain ⟨i, found⟩ := List.mem_iff_getElem?.mp listed
    obtain ⟨slot, there, holds, number, values, -⟩ := outcome.values ranged.value found
    obtain ⟨job, same, -⟩ := outcome.range ranged.value member eligible
    rw [values, outcome.home job there, same, number]
  case apart =>
    intro buffer listed a left b right eligibleA eligibleB different inA inB
    obtain ⟨i, found⟩ := List.mem_iff_getElem?.mp listed
    obtain ⟨slot, -, -, -, values, -⟩ := outcome.values ranged.value found
    obtain ⟨-, -, _, sameA⟩ := outcome.range ranged.value left eligibleA
    obtain ⟨-, -, _, sameB⟩ := outcome.range ranged.value right eligibleB
    rw [values] at inA inB
    have gap := slot.disjoint inA inB different
    rw [sameA, sameB]
    exact gap
  case suited =>
    intro buffer listed a member eligible inside
    obtain ⟨i, found⟩ := List.mem_iff_getElem?.mp listed
    obtain ⟨slot, -, holds, -, values, -⟩ := outcome.values ranged.value found
    obtain ⟨-, -, _, same⟩ := outcome.range ranged.value member eligible
    rw [values] at inside
    have pool := (slot.same_pool _ inside).trans holds.key.symm
    have size := (slot.fits _ inside).trans_eq holds.bytes.symm
    obtain ⟨dtype, device⟩ := (poolKey_eq_iff _ _ _ _).mp pool
    rw [same]
    exact ⟨dtype, device, size⟩
  case disjoint =>
    intro i j a b left right different arena
    have same := (arenas a (List.mem_of_getElem? left) b (List.mem_of_getElem? right)).mp arena
    rcases Nat.lt_or_gt_of_ne different with before | behind
    · exact Or.inl (offset_le left same (offsets i a left) (offsets j b right) before)
    · exact Or.inr (offset_le right same.symm (offsets j b right) (offsets i a left) behind)
  case aligned =>
    intro buffer listed
    obtain ⟨i, found⟩ := List.mem_iff_getElem?.mp listed
    rw [offsets i buffer found]
    exact keyBytes_dvd buffer.key fun other member => whole other (List.mem_of_mem_take member)
  case arenas =>
    intro a left b right
    rw [arenas a left b right]
    exact poolKey_eq_iff _ _ _ _

theorem plan_separated_chain :
    plan StdSort.insertion chainGraph {} = .ok chainPlan ∧ demand chainGraph {} ≤ sizeMax ∧
      PlansValues chainGraph {} chainPlan ∧ Separated 64 chainPlan :=
  ⟨rfl, by decide,
    @plan_separated _ StdSort.insertion chainGraph {} chainPlan rfl (by decide)⟩

end Separation

section Accounting

variable {sorter : StdSort} {graph : Graph Num} {options : MemoryPlanOptions}
  {result : MemoryPlan}

/-- The finished range of a placed value. -/
theorem Outcome.listed {ranges : List MemoryLiveRange}
    {ordered : ∀ i, (rangeAt ranges i).firstNode ≤ (rangeAt ranges i).lastNode}
    {placed : List Nat} {slots : List (Slot (workload ranges ordered))}
    (outcome : Outcome placed slots result) {i : Nat} (member : i ∈ placed) :
    rangeAt result.ranges i ∈ result.ranges ∧ (rangeAt result.ranges i).eligible = true ∧
      (rangeAt result.ranges i).dtype = (rangeAt ranges i).dtype ∧
      (rangeAt result.ranges i).device = (rangeAt ranges i).device ∧
      (rangeAt result.ranges i).alignedBytes = (rangeAt ranges i).alignedBytes := by
  obtain ⟨inside, eligible⟩ := outcome.eligible.mp member
  obtain ⟨bufferId, same⟩ := outcome.fields i
  have found := List.getElem?_eq_getElem (outcome.length.symm ▸ inside : i < result.ranges.length)
  refine ⟨?_, ?_⟩
  · rw [rangeAt_eq found]
    exact List.mem_of_getElem? found
  · rw [same]
    exact ⟨eligible, rfl, rfl, rfl⟩

theorem plan_accounts (planned : plan sorter graph options = .ok result)
    (fits : demand graph options ≤ sizeMax) :
    PlansValues graph options result ∧
      (∀ step, liveBytes result step ≤ result.plannedBytes) ∧
      result.plannedBytes ≤ result.naiveBytes ∧
      ∀ range ∈ result.ranges, range.eligible = true →
        ∃ (i : Nat) (buffer : MemoryBuffer), result.buffers[i]? = some buffer ∧
          buffer.values.count range.value = 1 ∧
          ∀ (j : Nat) other, result.buffers[j]? = some other → range.value ∈ other.values → j = i := by
  obtain ⟨positive, last, ranges, ranged, -, placed, buffers, slots, outcome, bytes, laid, total,
    naive⟩ := plan_outcome planned
  have demanded := ranged.demand_eq (ranged.exact positive fits)
  have bounded := outcome.size_le
  rw [wrapSize_self (demanded ▸ fits)] at naive
  rw [wrapSize_self (bounded.trans (demanded ▸ fits))] at total
  refine ⟨plan_values planned, fun step => ?_, ?_, fun range member eligible => ?_⟩
  · rw [outcome.liveBytes_eq, total]
    exact outcome.run.live_size_le step
  · rw [total, naive]
    exact bounded
  · obtain ⟨job, same, -⟩ := outcome.range ranged.value member eligible
    obtain ⟨slot, listed, inside⟩ := List.mem_flatMap.mp (outcome.run.perm.symm.subset job)
    obtain ⟨i, there⟩ := List.mem_iff_getElem?.mp listed
    have number := (outcome.home job there).mp inside
    have small : i < result.buffers.length :=
      outcome.count ▸ (List.getElem?_eq_some_iff.mp there).1
    have found := List.getElem?_eq_getElem small
    obtain ⟨slot', again, -, -, values, -⟩ := outcome.values ranged.value found
    obtain rfl := Option.some.inj (there.symm.trans again)
    refine ⟨i, _, found, ?_, fun j other at_j holds => ?_⟩
    · rw [values]
      have once := (List.nodup_flatMap.mp outcome.nodup).1 slot listed
      exact List.count_eq_one_of_mem once inside
    · obtain ⟨home, at_home, -, -, listed', -⟩ := outcome.values ranged.value at_j
      rw [listed'] at holds
      exact ((outcome.home job at_home).mp holds).symm.trans number

theorem plan_accounts_chain :
    demand chainGraph {} ≤ sizeMax ∧ chainPlan.plannedBytes = 128 ∧ chainPlan.naiveBytes = 192 ∧
      PlansValues chainGraph {} chainPlan ∧
      (∀ step, liveBytes chainPlan step ≤ chainPlan.plannedBytes) :=
  have accounts := @plan_accounts _ StdSort.insertion chainGraph {} chainPlan rfl (by decide)
  ⟨by decide, rfl, rfl, accounts.1, accounts.2.1⟩

/-- One size per pool: eligible values of a dtype on a device take the same room. -/
def UniformSizes (result : MemoryPlan) : Prop :=
  ∀ a ∈ result.ranges, ∀ b ∈ result.ranges, a.eligible = true → b.eligible = true →
    a.dtype = b.dtype → a.device = b.device → a.alignedBytes = b.alignedBytes

/-- The planner makes as many buffers as some step has live values. A graph without
nodes is planned as one step. -/
theorem plan_peak (planned : plan sorter graph options = .ok result)
    (uniform : UniformSizes result) (pool : PoolKey) :
    PlansValues graph options result ∧
      poolBuffers result pool =
        (Finset.range (max 1 graph.nodes.length)).sup (liveValues result pool) := by
  refine ⟨plan_values planned, ?_⟩
  obtain ⟨-, last, ranges, ranged, inside, placed, buffers, slots, outcome, -⟩ :=
    plan_outcome planned
  rw [outcome.poolBuffers_eq]
  apply le_antisymm
  · rcases Nat.eq_zero_or_pos (slotCount pool slots) with none_ | used
    · rw [none_]
      exact Nat.zero_le _
    have same : (workload ranges ranged.ordered).Uniform placed := by
      intro a left b right pools
      obtain ⟨listedA, eligibleA, dtypeA, deviceA, sizeA⟩ := outcome.listed left
      obtain ⟨listedB, eligibleB, dtypeB, deviceB, sizeB⟩ := outcome.listed right
      obtain ⟨dtype, device⟩ := (poolKey_eq_iff _ _ _ _).mp pools
      have equal := uniform _ listedA _ listedB eligibleA eligibleB
        (dtypeA.trans (dtype.trans dtypeB.symm)) (deviceA.trans (device.trans deviceB.symm))
      exact sizeA.symm.trans (equal.trans sizeB)
    obtain ⟨job, member, enough⟩ := outcome.run.peak same pool used
    rw [← outcome.liveValues_eq] at enough
    refine enough.trans (Finset.le_sup (Finset.mem_range.mpr ?_))
    exact (ranged.started job).trans_lt inside
  · refine Finset.sup_le fun step _ => ?_
    rw [outcome.liveValues_eq]
    exact outcome.run.liveCount_le pool step

theorem plan_peak_chain :
    UniformSizes chainPlan ∧ poolBuffers chainPlan ⟨.float32, .cpu, 0⟩ = 2 ∧
      PlansValues chainGraph {} chainPlan ∧
      poolBuffers chainPlan ⟨.float32, .cpu, 0⟩ =
        (Finset.range (max 1 chainGraph.nodes.length)).sup
          (liveValues chainPlan ⟨.float32, .cpu, 0⟩) := by
  have uniform : UniformSizes chainPlan := by
    unfold UniformSizes
    decide
  exact ⟨uniform, rfl, @plan_peak _ StdSort.insertion chainGraph {} chainPlan rfl uniform _⟩

end Accounting

end MiniLLM.MemoryPlanner
