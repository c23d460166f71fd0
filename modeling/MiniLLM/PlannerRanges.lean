import MiniLLM.MemoryPlanner
import Mathlib.Algebra.BigOperators.Group.List.Basic
import Mathlib.Algebra.Order.BigOperators.Group.List
import Mathlib.Algebra.Order.Group.Nat

/-!
The ranges of a plan against the values of its graph: which values are eligible,
their exact sizes, and what the planner's `size_t` arithmetic makes of them.
-/

namespace MiniLLM.MemoryPlanner

variable {Num : Type}

section Exact

/-- `value` rounded up to a multiple of the alignment, in the integers. -/
def roundUp (value alignment : Nat) : Nat :=
  if value % alignment = 0 then value else value + (alignment - value % alignment)

theorem le_roundUp (value alignment : Nat) : value ≤ roundUp value alignment := by
  unfold roundUp
  split <;> omega

theorem dvd_roundUp (value : Nat) {alignment : Nat} (positive : 0 < alignment) :
    alignment ∣ roundUp value alignment := by
  unfold roundUp
  split
  · next whole => exact Nat.dvd_of_mod_eq_zero whole
  · have split := Nat.div_add_mod value alignment
    have less := Nat.mod_lt value positive
    refine ⟨value / alignment + 1, ?_⟩
    rw [Nat.mul_add, Nat.mul_one]
    omega

theorem roundUp_of_dvd {value alignment : Nat} (whole : alignment ∣ value) :
    roundUp value alignment = value :=
  if_pos (Nat.mod_eq_zero_of_dvd whole)

theorem alignUp_eq {value alignment : Nat} (positive : 0 < alignment)
    (fits : roundUp value alignment ≤ sizeMax) :
    alignUp value alignment = roundUp value alignment := by
  unfold alignUp
  rw [if_neg positive.ne']
  unfold roundUp at fits ⊢
  dsimp only
  split
  · rfl
  · next partial_ =>
      rw [if_neg partial_] at fits
      exact wrapSize_eq (Nat.lt_succ_of_le fits)

theorem wrapSize_add (a b : Nat) : wrapSize (wrapSize a + b) = wrapSize (a + b) :=
  Nat.mod_add_mod _ _ _

theorem wrapSize_le (a : Nat) : wrapSize a ≤ sizeMax :=
  Nat.le_of_lt_succ (Nat.mod_lt a (by decide))

theorem wrapSize_self {a : Nat} (fits : a ≤ sizeMax) : wrapSize a = a :=
  wrapSize_eq (Nat.lt_succ_of_le fits)

/-- A running total kept in a `size_t`. -/
theorem wrapped_total {Item : Type} (size : Item → Nat) (items : List Item) (total : Nat) :
    items.foldl (fun sum item => wrapSize (sum + size item)) (wrapSize total) =
      wrapSize (total + (items.map size).sum) := by
  induction items generalizing total with
  | nil => simp
  | cons item rest ih =>
      rw [List.foldl_cons, wrapSize_add, ih, List.map_cons, List.sum_cons, Nat.add_assoc]

end Exact

section Values

/-- The exact size of a value the planner places. -/
def payload (options : MemoryPlanOptions) (value : Value) : Option Nat :=
  if (value.kind = .intermediate ∨ options.includeOutputs ∧ value.kind = .output) ∧
      (value.device.type = .cpu ∨ value.device.type = .cuda) ∧
      value.shape.hasDynamicDim = false then
    match value.shape.numel, value.dtype.size with
    | .ok elemCount, .ok elemSize => some (elemCount * elemSize)
    | _, _ => none
  else none

/-- What the eligible values need side by side, each rounded up to the alignment. -/
def demand (graph : Graph Num) (options : MemoryPlanOptions) : Nat :=
  ((graph.values.filterMap (payload options)).map fun bytes =>
    roundUp bytes options.alignment).sum

/-- The range of a value, by whether the planner places it. -/
structure Describes (options : MemoryPlanOptions) (initial : MemoryLiveRange) (value : Value)
    (range : MemoryLiveRange) : Prop where
  same : ∃ bytes alignedBytes eligible skipReason, range =
    { initial with bytes := bytes, alignedBytes := alignedBytes, eligible := eligible,
                   skipReason := skipReason }
  placed : range.eligible = true → payload options value = some range.bytes ∧
    range.alignedBytes = alignUp range.bytes options.alignment ∧ range.bytes ≤ sizeMax
  skipped : range.eligible = false → payload options value = none

theorem Describes.skip {options : MemoryPlanOptions} {initial : MemoryLiveRange} {value : Value}
    (waiting : initial.eligible = false) (unplaced : payload options value = none)
    (reason : String) :
    Describes options initial value { initial with skipReason := reason } where
  same := ⟨initial.bytes, initial.alignedBytes, initial.eligible, reason, rfl⟩
  placed := by
    intro eligible
    rw [waiting] at eligible
    cases eligible
  skipped _ := unplaced

theorem rangeOf_describes {options : MemoryPlanOptions} {initial range : MemoryLiveRange}
    {value : Value} (kind : initial.kind = value.kind) (device : initial.device = value.device)
    (dtype : initial.dtype = value.dtype) (waiting : initial.eligible = false)
    (made : rangeOf options initial value.shape = .ok range) :
    Describes options initial value range := by
  simp only [rangeOf] at made
  split at made
  · next wrongKind =>
      obtain rfl := Except.ok.inj made
      refine Describes.skip waiting (if_neg fun held => wrongKind ?_) _
      rw [kind]
      exact held.1
  next rightKind =>
  rw [not_not, kind] at rightKind
  split at made
  · next noDevice =>
      obtain rfl := Except.ok.inj made
      refine Describes.skip waiting (if_neg fun held => ?_) _
      rw [device] at noDevice
      exact held.2.1.elim noDevice.1 noDevice.2
  next someDevice =>
  have onDevice : value.device.type = .cpu ∨ value.device.type = .cuda := by
    rw [device] at someDevice
    tauto
  split at made
  · next dynamic =>
      obtain rfl := Except.ok.inj made
      refine Describes.skip waiting (if_neg fun held => ?_) _
      rw [held.2.2] at dynamic
      cases dynamic
  next static =>
  have payloadEq : payload options value =
      match value.shape.numel, value.dtype.size with
      | .ok elemCount, .ok elemSize => some (elemCount * elemSize)
      | _, _ => none :=
    if_pos ⟨rightKind, onDevice, by simpa using static⟩
  rw [← dtype] at payloadEq
  cases count : value.shape.numel with
  | error st =>
      simp only [count] at made payloadEq
      obtain rfl := Except.ok.inj made
      exact Describes.skip waiting payloadEq _
  | ok elemCount =>
      simp only [count] at made payloadEq
      cases size : initial.dtype.size with
      | error st =>
          simp only [size] at made payloadEq
          obtain rfl := Except.ok.inj made
          exact Describes.skip waiting payloadEq _
      | ok elemSize =>
          simp only [size] at made payloadEq
          split at made
          · cases made
          · next fits =>
              obtain rfl := Except.ok.inj made
              have exact : elemCount * elemSize ≤ sizeMax :=
                (Nat.le_div_iff_mul_le (DType.size_pos size)).mp (not_lt.mp fits)
              constructor
              · exact ⟨_, _, _, initial.skipReason, rfl⟩
              · intro _
                rw [wrapSize_self exact]
                exact ⟨payloadEq, rfl, exact⟩
              · simp

theorem initialRange_ordered (live : Liveness) (last : Nat) (value : Value) (id : Nat) :
    (initialRange live last value id).firstNode ≤ (initialRange live last value id).lastNode := by
  simp only [initialRange]
  generalize (if live.hasProducer id = true then live.firstNode id else 0) = firstNode
  generalize (if value.kind = ValueKind.output then last else live.lastNode id) = lastNode
  split <;> omega

@[simp] theorem initialRange_value (live : Liveness) (last : Nat) (value : Value) (id : Nat) :
    (initialRange live last value id).value = id := rfl

/-- The loop records one range for each value, unless a size overflows. -/
theorem planRanges_from {options : MemoryPlanOptions} {live : Liveness} {last : Nat}
    {entries : List (Value × Nat)} {plan base : MemoryPlan}
    (planned : entries.foldlM (fun plan entry => do
      let range ← rangeOf options (initialRange live last entry.1 entry.2) entry.1.shape
      return record plan range) plan = Except.ok base) :
    ∃ ranges, List.Forall₂ (fun entry range =>
        Describes options (initialRange live last entry.1 entry.2) entry.1 range) entries ranges ∧
      base = ranges.foldl record plan := by
  induction entries generalizing plan with
  | nil =>
      obtain rfl := Except.ok.inj planned
      exact ⟨[], List.Forall₂.nil, rfl⟩
  | cons entry rest ih =>
      rw [List.foldlM_cons] at planned
      cases made : rangeOf options (initialRange live last entry.1 entry.2) entry.1.shape with
      | error st =>
          rw [made] at planned
          cases planned
      | ok range =>
          rw [made] at planned
          obtain ⟨ranges, described, recorded⟩ := ih planned
          exact ⟨range :: ranges,
            List.Forall₂.cons (rangeOf_describes rfl rfl rfl rfl made) described, recorded⟩

/-- The exact sum of the rounded sizes that the plan holds. -/
def alignedTotal (ranges : List MemoryLiveRange) : Nat :=
  ((ranges.filter fun range => range.eligible).map MemoryLiveRange.alignedBytes).sum

@[simp] theorem record_ranges (plan : MemoryPlan) (range : MemoryLiveRange) :
    (record plan range).ranges = plan.ranges ++ [range] := by
  unfold record
  split <;> rfl

@[simp] theorem record_plannedBytes (plan : MemoryPlan) (range : MemoryLiveRange) :
    (record plan range).plannedBytes = plan.plannedBytes := by
  unfold record
  split <;> rfl

theorem record_naiveBytes (plan : MemoryPlan) (range : MemoryLiveRange) :
    (record plan range).naiveBytes =
      if range.eligible then wrapSize (plan.naiveBytes + range.alignedBytes)
      else plan.naiveBytes := by
  unfold record
  split <;> rfl

theorem foldl_record (ranges : List MemoryLiveRange) (plan : MemoryPlan)
    (small : plan.naiveBytes ≤ sizeMax) :
    (ranges.foldl record plan).ranges = plan.ranges ++ ranges ∧
      (ranges.foldl record plan).naiveBytes = wrapSize (plan.naiveBytes + alignedTotal ranges) ∧
      (ranges.foldl record plan).plannedBytes = plan.plannedBytes := by
  induction ranges generalizing plan with
  | nil => simp [alignedTotal, wrapSize_self small]
  | cons range rest ih =>
      have kept : (record plan range).naiveBytes ≤ sizeMax := by
        rw [record_naiveBytes]
        split
        · exact wrapSize_le _
        · exact small
      obtain ⟨listed, naive, planned⟩ := ih (record plan range) kept
      rw [List.foldl_cons]
      refine ⟨by simpa using listed, ?_, planned.trans (record_plannedBytes plan range)⟩
      rw [naive, record_naiveBytes]
      by_cases eligible : range.eligible
      · rw [if_pos eligible, wrapSize_add, Nat.add_assoc]
        simp [alignedTotal, eligible]
      · rw [if_neg eligible]
        simp [alignedTotal, eligible]

/-- The ranges of all values, and the total recorded with them. -/
theorem planRanges_cases {graph : Graph Num} {options : MemoryPlanOptions} {live : Liveness}
    {last : Nat} {base : MemoryPlan} (planned : planRanges graph options live last = .ok base) :
    List.Forall₂ (fun (entry : Value × Nat) range =>
        Describes options (initialRange live last entry.1 entry.2) entry.1 range)
      graph.values.zipIdx base.ranges ∧
      base.naiveBytes = wrapSize (alignedTotal base.ranges) ∧ base.plannedBytes = 0 := by
  obtain ⟨ranges, described, recorded⟩ := planRanges_from planned
  obtain ⟨listed, naive, total⟩ := foldl_record ranges { alignment := options.alignment }
    (Nat.zero_le _)
  rw [← recorded] at listed naive total
  obtain rfl : base.ranges = ranges := listed
  refine ⟨described, ?_, total⟩
  rw [naive, Nat.zero_add]

/-- The planner's ranges hold exactly the payloads of the eligible values. -/
theorem payloads_eq {options : MemoryPlanOptions} {live : Liveness} {last : Nat}
    {entries : List (Value × Nat)} {ranges : List MemoryLiveRange}
    (described : List.Forall₂ (fun entry range =>
      Describes options (initialRange live last entry.1 entry.2) entry.1 range) entries ranges) :
    (entries.map Prod.fst).filterMap (payload options) =
      (ranges.filter fun range => range.eligible).map MemoryLiveRange.bytes := by
  induction described with
  | nil => rfl
  | @cons entry range entries ranges describes _ ih =>
      rw [List.map_cons, List.filterMap_cons, List.filter_cons, ih]
      by_cases eligible : range.eligible = true
      · rw [(describes.placed eligible).1, if_pos eligible, List.map_cons]
      · rw [describes.skipped (by simpa using eligible), if_neg eligible]

end Values

section Plans

/-- What the ranges of a plan say about the values, one range for each. -/
structure Ranged (graph : Graph Num) (options : MemoryPlanOptions) (last : Nat)
    (ranges : List MemoryLiveRange) : Prop where
  length : ranges.length = graph.values.length
  value : ∀ i < ranges.length, (rangeAt ranges i).value = i
  ordered : ∀ i, (rangeAt ranges i).firstNode ≤ (rangeAt ranges i).lastNode
  started : ∀ i, (rangeAt ranges i).firstNode ≤ last
  aligned : ∀ range ∈ ranges, range.eligible = true →
    range.alignedBytes = alignUp range.bytes options.alignment ∧ range.bytes ≤ sizeMax
  payloads : graph.values.filterMap (payload options) =
    (ranges.filter fun range => range.eligible).map MemoryLiveRange.bytes

theorem rangeAt_eq {ranges : List MemoryLiveRange} {i : Nat} {range : MemoryLiveRange}
    (found : ranges[i]? = some range) : rangeAt ranges i = range := by
  simp [rangeAt, List.getD_eq_getElem?_getD, found]

theorem rangeAt_outside {ranges : List MemoryLiveRange} {i : Nat} (outside : ranges.length ≤ i) :
    rangeAt ranges i = {} := by
  simp [rangeAt, List.getD_eq_getElem?_getD, outside]

theorem planRanges_ranged {graph : Graph Num} {options : MemoryPlanOptions} {live : Liveness}
    {last : Nat} (produced : ∀ vid, live.firstNode vid ≤ last) {base : MemoryPlan}
    (planned : planRanges graph options live last = .ok base) :
    Ranged graph options last base.ranges := by
  obtain ⟨described, -, -⟩ := planRanges_cases planned
  have length : base.ranges.length = graph.values.length := by
    rw [← described.length_eq, List.length_zipIdx]
  have entry : ∀ i range, base.ranges[i]? = some range → ∃ value,
      Describes options (initialRange live last value i) value range := by
    intro i range found
    obtain ⟨inside, rfl⟩ := List.getElem?_eq_some_iff.mp found
    have describes := described.get (described.length_eq ▸ inside) inside
    rw [List.get_eq_getElem, List.getElem_zipIdx, Nat.zero_add] at describes
    exact ⟨_, describes⟩
  have initial : ∀ i, rangeAt base.ranges i = {} ∨ ∃ value bytes alignedBytes eligible reason,
      rangeAt base.ranges i = { initialRange live last value i with
        bytes := bytes, alignedBytes := alignedBytes, eligible := eligible,
        skipReason := reason } := by
    intro i
    cases found : base.ranges[i]? with
    | none => exact Or.inl (rangeAt_outside (List.getElem?_eq_none_iff.mp found))
    | some range =>
        obtain ⟨value, describes⟩ := entry i range found
        obtain ⟨bytes, alignedBytes, eligible, reason, same⟩ := describes.same
        exact Or.inr ⟨value, bytes, alignedBytes, eligible, reason, (rangeAt_eq found).trans same⟩
  constructor
  case length => exact length
  case value =>
    intro i inside
    obtain ⟨value, describes⟩ := entry i _ (List.getElem?_eq_getElem inside)
    obtain ⟨_, _, _, _, same⟩ := describes.same
    rw [rangeAt_eq (List.getElem?_eq_getElem inside), same]
    rfl
  case ordered =>
    intro i
    rcases initial i with default | ⟨value, _, _, _, _, same⟩
    · rw [default]
    · rw [same]
      exact initialRange_ordered live last value i
  case started =>
    intro i
    rcases initial i with default | ⟨value, _, _, _, _, same⟩
    · rw [default]
      exact Nat.zero_le _
    · rw [same]
      simp only [initialRange]
      split
      · exact produced i
      · exact Nat.zero_le _
  case aligned =>
    intro range member eligible
    obtain ⟨i, found⟩ := List.mem_iff_getElem?.mp member
    obtain ⟨value, describes⟩ := entry i range found
    exact (describes.placed eligible).2
  case payloads =>
    rw [← payloads_eq described]
    simp

/-- Where the rounded sizes add up to a `size_t`, each of them is exact. -/
theorem Ranged.exact {graph : Graph Num} {options : MemoryPlanOptions} {last : Nat}
    {ranges : List MemoryLiveRange} (ranged : Ranged graph options last ranges)
    (positive : 0 < options.alignment) (fits : demand graph options ≤ sizeMax) :
    ∀ range ∈ ranges, range.eligible = true →
      range.alignedBytes = roundUp range.bytes options.alignment := by
  intro range member eligible
  rw [(ranged.aligned range member eligible).1]
  apply alignUp_eq positive
  refine le_trans (List.le_sum_of_mem ?_) fits
  rw [ranged.payloads]
  exact List.mem_map_of_mem (List.mem_map_of_mem (List.mem_filter.mpr ⟨member, eligible⟩))

/-- The total of exact sizes is the demand. -/
theorem Ranged.demand_eq {graph : Graph Num} {options : MemoryPlanOptions} {last : Nat}
    {ranges : List MemoryLiveRange} (ranged : Ranged graph options last ranges)
    (exact : ∀ range ∈ ranges, range.eligible = true →
      range.alignedBytes = roundUp range.bytes options.alignment) :
    alignedTotal ranges = demand graph options := by
  rw [demand, ranged.payloads, List.map_map, alignedTotal]
  congr 1
  apply List.map_congr_left
  intro range member
  obtain ⟨listed, eligible⟩ := List.mem_filter.mp member
  exact exact range listed eligible

end Plans

section Liveness

theorem foldl_consume_firstNode (valueCount orderIdx : Nat) (inputs : List Nat)
    (live : Liveness) :
    (inputs.foldl (consume valueCount orderIdx) live).firstNode = live.firstNode := by
  induction inputs generalizing live with
  | nil => rfl
  | cons input rest ih =>
      rw [List.foldl_cons, ih]
      unfold consume
      split <;> rfl

theorem foldl_produce_started {orderIdx last : Nat} (inside : orderIdx ≤ last) (valueCount : Nat)
    (outputs : List Nat) {live : Liveness} (before : ∀ vid, live.firstNode vid ≤ last) :
    ∀ vid, (outputs.foldl (produce valueCount orderIdx) live).firstNode vid ≤ last := by
  induction outputs generalizing live with
  | nil => exact before
  | cons output rest ih =>
      rw [List.foldl_cons]
      apply ih
      intro vid
      unfold produce
      split
      · dsimp only
        split
        · exact inside
        · exact before vid
      · exact before vid

/-- No value starts behind the last node. -/
theorem visitNodes_started {graph : Graph Num} {last : Nat} {entries : List (Nat × Nat)}
    (inside : ∀ entry ∈ entries, entry.2 ≤ last) {live final : Liveness}
    (before : ∀ vid, live.firstNode vid ≤ last)
    (visited : entries.foldlM (visitNode graph) live = .ok final) :
    ∀ vid, final.firstNode vid ≤ last := by
  induction entries generalizing live with
  | nil =>
      obtain rfl := Except.ok.inj visited
      exact before
  | cons entry rest ih =>
      rw [List.foldlM_cons] at visited
      unfold visitNode at visited
      cases found : graph.node entry.1 with
      | error st =>
          rw [found] at visited
          cases visited
      | ok nd =>
          rw [found] at visited
          refine ih (fun other member => inside other (List.mem_cons_of_mem _ member)) ?_ visited
          apply foldl_produce_started (inside entry List.mem_cons_self)
          rw [foldl_consume_firstNode]
          exact before

theorem liveness_started {graph : Graph Num} {order : List Nat} {live : Liveness}
    (done : liveness graph order = .ok live) : ∀ vid, live.firstNode vid ≤ graphEnd order := by
  refine visitNodes_started (fun entry member => ?_) (fun _ => Nat.zero_le _) done
  have inside := List.snd_lt_of_mem_zipIdx member
  unfold graphEnd
  split
  · next empty => omega
  · omega

end Liveness

section Runs

/-- What `plan` went through before it succeeded. -/
theorem plan_cases {sorter : StdSort} {graph : Graph Num} {options : MemoryPlanOptions}
    {result : MemoryPlan} (planned : plan sorter graph options = .ok result) :
    0 < options.alignment ∧ ∃ last base, Ranged graph options last base.ranges ∧
      last < max 1 graph.nodes.length ∧
      base.naiveBytes = wrapSize (alignedTotal base.ranges) ∧ base.plannedBytes = 0 ∧
      result = assign sorter options base := by
  unfold plan at planned
  split at planned
  · cases planned
  next positive =>
  simp only at planned
  split at planned
  · cases planned
  cases sorted : graph.topologicalSort with
  | error st =>
      rw [sorted] at planned
      cases planned
  | ok order =>
      rw [sorted] at planned
      cases analysed : liveness graph order with
      | error st =>
          simp only [analysed, bind, Except.bind] at planned
          cases planned
      | ok live =>
          cases ranged : planRanges graph options live (graphEnd order) with
          | error st =>
              simp only [analysed, ranged, bind, Except.bind] at planned
              cases planned
          | ok base =>
              simp only [analysed, ranged, bind, Except.bind] at planned
              obtain ⟨-, naive, total⟩ := planRanges_cases ranged
              refine ⟨Nat.pos_of_ne_zero positive, graphEnd order, base,
                planRanges_ranged (liveness_started analysed) ranged, ?_, naive, total,
                (Except.ok.inj planned).symm⟩
              rw [graphEnd, Graph.topologicalSort_length sorted]
              split <;> omega

end Runs

end MiniLLM.MemoryPlanner
