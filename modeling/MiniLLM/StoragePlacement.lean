import MiniLLM.IntermediateStorage
import MiniLLM.LiveRanges

/-!
Where the two allocation routes put tensors. Each tensor lies in a block in use,
and a tensor the graph writes lies apart from every other tensor, except that a
memory plan puts values in the same bytes whose live ranges are apart.
-/

namespace MiniLLM.StorageContext

open BlockStorage Allocator MemoryPlanner

variable {Num : Type}

/-- A value that the allocation routes give storage to. -/
def Written (graph : Graph Num) (id : Nat) : Prop :=
  ∃ value, graph.values[id]? = some value ∧ value.kind ≠ .input ∧ value.kind ≠ .constant

/-- Tensors are in blocks in use, and apart unless they may share bytes. -/
structure Laid (graph : Graph Num) (shares : Nat → Nat → Prop) (ctx : StorageContext) : Prop where
  stored : ∀ id tensor, ctx.bindings id = some tensor → ctx.heap.Stores tensor.region
  apart : ∀ a b left right, ctx.bindings a = some left → ctx.bindings b = some right → a ≠ b →
    Written graph a → left.region.Apart right.region ∨ shares a b ∨ shares b a

/-- The tensor of a value at some place. -/
def Tensors (value : Value) (tensor : StoredTensor) : Prop :=
  ∃ data bytes nb, (StoredTensor.ofValue value).nbytes = .ok nb ∧
    tensor = { StoredTensor.ofValue value with
      data := data, allocatedBytes := bytes, device := {} }

/-- A later context: what was bound stays bound and keeps its bytes. -/
structure Grown (graph : Graph Num) (before after : StorageContext) : Prop where
  heap : Later before.heap after.heap
  kept : ∀ id tensor, before.bindings id = some tensor → after.bindings id = some tensor
  made : ∀ id tensor, before.bindings id = none → after.bindings id = some tensor →
    Written graph id ∧ ∃ value, graph.values[id]? = some value ∧ Tensors value tensor

theorem Grown.refl (graph : Graph Num) (ctx : StorageContext) : Grown graph ctx ctx where
  heap := Later.refl _
  kept _ _ found := found
  made id tensor none_ some_ := by
    rw [none_] at some_
    cases some_

theorem Grown.trans {graph : Graph Num} {first second third : StorageContext}
    (left : Grown graph first second) (right : Grown graph second third) :
    Grown graph first third where
  heap := left.heap.trans right.heap
  kept id tensor found := right.kept id tensor (left.kept id tensor found)
  made id tensor unbound found := by
    cases middle : second.bindings id with
    | none => exact right.made id tensor middle found
    | some earlier =>
        obtain rfl := Option.some.inj ((right.kept id earlier middle).symm.trans found)
        exact left.made id earlier unbound middle

theorem bind_self (ctx : StorageContext) (id : Nat) (tensor : StoredTensor) :
    (ctx.bind id tensor).bindings id = some tensor := if_pos rfl

theorem bind_other (ctx : StorageContext) {id other : Nat} (tensor : StoredTensor)
    (different : other ≠ id) : (ctx.bind id tensor).bindings other = ctx.bindings other :=
  if_neg different

theorem region_eq {value : Value} {nb : Nat} (sized : (StoredTensor.ofValue value).nbytes = .ok nb)
    (data bytes : Nat) :
    ({ StoredTensor.ofValue value with data := data, allocatedBytes := bytes, device := {} } :
      StoredTensor).region = ⟨data, nb⟩ := by
  have same : ({ StoredTensor.ofValue value with
      data := data, allocatedBytes := bytes, device := {} } : StoredTensor).nbytes = .ok nb := sized
  rw [StoredTensor.region, same]
  rfl

section OwnBlocks

variable {allocator : SystemAllocator} {graph : Graph Num} {shares : Nat → Nat → Prop}

/-- A round of the loop leaves a value alone, or gives it a block of its own. -/
theorem allocateValue_cases {ctx after : StorageContext} {entry : Value × Nat}
    (done : allocateValue allocator ctx entry = .ok after) :
    after = ctx ∧
        (entry.1.kind = .input ∨ entry.1.kind = .constant ∨ (ctx.bindings entry.2).isSome) ∨
      ctx.bindings entry.2 = none ∧ ¬ (entry.1.kind = .input ∨ entry.1.kind = .constant) ∧
        ∃ data nb heap,
        (StoredTensor.ofValue entry.1).nbytes = .ok nb ∧
        allocator.allocate ctx.heap nb = some (data, heap) ∧
        after = ({ ctx with heap := heap } : StorageContext).bind entry.2
          { StoredTensor.ofValue entry.1 with
            data := data, allocatedBytes := nb, device := {} } := by
  unfold allocateValue at done
  split at done
  · next external =>
      obtain rfl := Except.ok.inj done
      exact Or.inl ⟨rfl, external.imp_right Or.inl⟩
  next internal =>
  split at done
  · next bound =>
      obtain rfl := Except.ok.inj done
      exact Or.inl ⟨rfl, Or.inr (Or.inr bound)⟩
  next unbound =>
  refine Or.inr ⟨by simpa using unbound, internal, ?_⟩
  unfold allocateOwnedTensor StoredTensor.allocateCpu at done
  by_cases dynamic : entry.1.shape.hasDynamicDim = true
  · rw [if_pos dynamic] at done
    cases done
  rw [if_neg dynamic] at done
  by_cases cuda : entry.1.device.type = .cuda
  · rw [if_pos cuda] at done
    cases done
  have static : ¬ (StoredTensor.ofValue entry.1).shape.hasDynamicDim = true := dynamic
  rw [if_neg cuda, if_neg static] at done
  cases sized : (StoredTensor.ofValue entry.1).nbytes with
  | error st =>
      rw [sized] at done
      cases done
  | ok nb =>
      simp only [sized] at done
      cases placed : allocator.allocate ctx.heap nb with
      | none =>
          rw [placed] at done
          cases done
      | some block =>
          obtain ⟨data, heap⟩ := block
          rw [placed] at done
          exact ⟨data, nb, heap, rfl, placed, (Except.ok.inj done).symm⟩

theorem Laid.allocateValue {ctx after : StorageContext} {entry : Value × Nat}
    (laid : Laid graph shares ctx) (listed : graph.values[entry.2]? = some entry.1)
    (done : allocateValue allocator ctx entry = .ok after) :
    Laid graph shares after ∧ Grown graph ctx after ∧
      (entry.1.kind = .input ∨ entry.1.kind = .constant ∨ (after.bindings entry.2).isSome) := by
  rcases allocateValue_cases done with ⟨rfl, left⟩ |
    ⟨unbound, internal, data, nb, heap, sized, placed, rfl⟩
  · exact ⟨laid, Grown.refl _ _, left⟩
  obtain ⟨-, later, taken, apart, -⟩ := allocate_spec placed
  generalize fresh : ({ StoredTensor.ofValue entry.1 with
    data := data, allocatedBytes := nb, device := {} } : StoredTensor) = tensor
  have region : tensor.region = ⟨data, nb⟩ := fresh ▸ region_eq sized data nb
  -- A block fresh from the allocator is apart from every tensor that was stored before.
  have separate : ∀ id other, ctx.bindings id = some other →
      tensor.region.Apart other.region := by
    intro id other found
    obtain ⟨block, member, within⟩ := laid.stored id other found
    rw [region]
    exact (apart block member).within (Region.Within.refl _) within
  have cases_ : ∀ {id other}, (({ ctx with heap := heap } : StorageContext).bind entry.2
      tensor).bindings id = some other →
      id = entry.2 ∧ other = tensor ∨ id ≠ entry.2 ∧ ctx.bindings id = some other := by
    intro id other found
    by_cases same : id = entry.2
    · subst same
      rw [bind_self] at found
      exact Or.inl ⟨rfl, (Option.some.inj found).symm⟩
    · rw [bind_other _ _ same] at found
      exact Or.inr ⟨same, found⟩
  refine ⟨⟨?_, ?_⟩, ⟨later, ?_, ?_⟩, Or.inr (Or.inr ?_)⟩
  · intro id other found
    rcases cases_ found with ⟨-, rfl⟩ | ⟨-, old⟩
    · exact ⟨_, taken, region ▸ Region.Within.refl _⟩
    · exact later.stores (laid.stored id other old)
  · intro a b left right foundA foundB different written
    rcases cases_ foundA with ⟨rfl, rfl⟩ | ⟨-, oldA⟩
    · rcases cases_ foundB with ⟨rfl, -⟩ | ⟨-, oldB⟩
      · exact absurd rfl different
      · exact Or.inl (separate b right oldB)
    · rcases cases_ foundB with ⟨rfl, rfl⟩ | ⟨-, oldB⟩
      · exact Or.inl (separate a left oldA).symm
      · exact laid.apart a b left right oldA oldB different written
  · intro id other found
    have different : id ≠ entry.2 := by
      rintro rfl
      rw [unbound] at found
      cases found
    exact (bind_other _ _ different).trans found
  · intro id other none_ found
    rcases cases_ found with ⟨rfl, rfl⟩ | ⟨-, old⟩
    · obtain ⟨notInput, notConstant⟩ := not_or.mp internal
      exact ⟨⟨entry.1, listed, notInput, notConstant⟩, entry.1, listed, data, nb, nb, sized,
        fresh.symm⟩
    · rw [none_] at old
      cases old
  · rw [bind_self]
    rfl

/-- The loop over values binds every value that is neither input nor constant. -/
theorem Laid.allocateValues {entries : List (Value × Nat)} {ctx after : StorageContext}
    (laid : Laid graph shares ctx)
    (listed : ∀ entry ∈ entries, graph.values[entry.2]? = some entry.1)
    (done : entries.foldlM (StorageContext.allocateValue allocator) ctx = .ok after) :
    Laid graph shares after ∧ Grown graph ctx after ∧ ∀ entry ∈ entries,
      entry.1.kind = .input ∨ entry.1.kind = .constant ∨ (after.bindings entry.2).isSome := by
  induction entries generalizing ctx with
  | nil =>
      obtain rfl := Except.ok.inj done
      exact ⟨laid, Grown.refl _ _, fun entry none_ => by cases none_⟩
  | cons entry rest ih =>
      rw [List.foldlM_cons] at done
      obtain ⟨next, step, done⟩ := bind_eq_ok done
      obtain ⟨laid', grown, bound⟩ := laid.allocateValue (listed entry List.mem_cons_self) step
      obtain ⟨final, later, all⟩ := ih laid'
        (fun other member => listed other (List.mem_cons_of_mem _ member)) done
      refine ⟨final, grown.trans later, fun other member => ?_⟩
      rcases List.mem_cons.mp member with rfl | behind
      · refine bound.imp_right (Or.imp_right fun some_ => ?_)
        obtain ⟨tensor, found⟩ := Option.isSome_iff_exists.mp some_
        rw [later.kept _ tensor found]
        rfl
      · exact all other behind

end OwnBlocks

section ArenaBlocks

variable {allocator : SystemAllocator} {graph : Graph Num} {plan : MemoryPlan}

def Arena.region (arena : Arena) : Region := ⟨arena.base, arena.totalBytes⟩

/-- The aligned pointer leaves room for what was asked for. -/
theorem alignPointer_within {storage total alignment : Nat}
    (inside : storage + (total + alignment) ≤ sizeMax + 1) :
    (⟨alignPointer storage alignment, total⟩ : Region).Within ⟨storage, total + alignment⟩ := by
  have bounds : storage ≤ alignPointer storage alignment ∧
      alignPointer storage alignment ≤ storage + alignment := by
    unfold alignPointer
    split
    · omega
    · next positive =>
      dsimp only
      split
      · omega
      · next ragged =>
        have below := Nat.mod_lt storage (Nat.pos_of_ne_zero positive)
        have whole : storage + (alignment - storage % alignment) ≤ sizeMax := by omega
        rw [wrapSize_self whole]
        omega
  exact ⟨bounds.1, by dsimp only; omega⟩

/-- The arenas allocated so far, in blocks apart from those in use before. -/
structure ArenasLaid (plan : MemoryPlan) (before : Heap) (state : Arenas × Heap) : Prop where
  later : Later before state.2
  sized : ∀ idx arena, state.1 idx = some arena →
    arena.totalBytes = arenaTotal (arenaBuffers plan idx)
  placed : ∀ idx arena, state.1 idx = some arena →
    ∃ block ∈ state.2.taken, arena.region.Within block ∧ ∀ old ∈ before.taken, block.Apart old
  apart : ∀ i j left right, state.1 i = some left → state.1 j = some right → i ≠ j →
    left.region.Apart right.region

theorem allocateArena_cases {alignment arenaIdx : Nat} {state next : Arenas × Heap}
    (done : allocateArena allocator plan alignment state arenaIdx = .ok next) :
    next = state ∨ ∃ storage heap,
      allocator.allocate state.2 (arenaTotal (arenaBuffers plan arenaIdx) + alignment) =
          some (storage, heap) ∧
        next = (fun idx => if idx = arenaIdx then
            some ⟨alignPointer storage alignment, arenaTotal (arenaBuffers plan arenaIdx)⟩
          else state.1 idx, heap) := by
  unfold allocateArena at done
  split at done
  · exact Or.inl (Except.ok.inj done).symm
  next firstBuffer rest buffers =>
  dsimp only at done
  split at done
  · cases done
  split at done
  · cases done
  rw [← buffers] at done
  cases placed : allocator.allocate state.2
      (arenaTotal (arenaBuffers plan arenaIdx) + alignment) with
  | none =>
      rw [placed] at done
      cases done
  | some block =>
      obtain ⟨storage, heap⟩ := block
      rw [placed] at done
      exact Or.inr ⟨storage, heap, rfl, (Except.ok.inj done).symm⟩

theorem ArenasLaid.allocateArena {before : Heap} {alignment arenaIdx : Nat}
    {state next : Arenas × Heap} (laid : ArenasLaid plan before state)
    (done : allocateArena allocator plan alignment state arenaIdx = .ok next) :
    ArenasLaid plan before next := by
  rcases allocateArena_cases done with rfl | ⟨storage, heap, placed, rfl⟩
  · exact laid
  obtain ⟨inside, later, taken, apart, -⟩ := allocate_spec placed
  have within := alignPointer_within inside
  generalize made : (⟨alignPointer storage alignment,
    arenaTotal (arenaBuffers plan arenaIdx)⟩ : Arena) = fresh
  have region : fresh.region.Within ⟨storage, arenaTotal (arenaBuffers plan arenaIdx) +
      alignment⟩ := made ▸ within
  have separate : ∀ j arena, state.1 j = some arena → fresh.region.Apart arena.region := by
    intro j arena found
    obtain ⟨block, member, inner, -⟩ := laid.placed j arena found
    exact (apart block member).within region inner
  refine ⟨laid.later.trans later, fun idx arena found => ?_, fun idx arena found => ?_,
    fun i j left right foundI foundJ different => ?_⟩
  · dsimp only at found
    split at found
    · next same =>
        obtain rfl := Option.some.inj found
        rw [same, ← made]
    · exact laid.sized idx arena found
  · dsimp only at found
    split at found
    · obtain rfl := Option.some.inj found
      exact ⟨_, taken, region, fun old member => apart old (laid.later.grown old member)⟩
    · obtain ⟨block, member, inner, old⟩ := laid.placed idx arena found
      exact ⟨block, later.grown block member, inner, old⟩
  · dsimp only at foundI foundJ
    split at foundI <;> split at foundJ
    · next sameI sameJ => exact absurd (sameI.trans sameJ.symm) different
    · obtain rfl := Option.some.inj foundI
      exact separate j right foundJ
    · obtain rfl := Option.some.inj foundJ
      exact (separate i left foundI).symm
    · exact laid.apart i j left right foundI foundJ different

theorem allocateArenas_laid {before : Heap} {alignment : Nat} {state : Arenas × Heap}
    (done : allocateArenas allocator plan alignment before = .ok state) :
    ArenasLaid plan before state := by
  have rule : ∀ (indices : List Nat) (state next : Arenas × Heap), ArenasLaid plan before state →
      indices.foldlM (StorageContext.allocateArena allocator plan alignment) state = .ok next →
      ArenasLaid plan before next := by
    intro indices
    induction indices with
    | nil =>
        intro state next laid done
        exact Except.ok.inj done ▸ laid
    | cons idx rest ih =>
        intro state next laid done
        rw [List.foldlM_cons] at done
        obtain ⟨middle, step, done⟩ := bind_eq_ok done
        exact ih middle next (laid.allocateArena step) done
  refine rule _ _ _ ⟨Later.refl _, ?_, ?_, ?_⟩ done
  · intro _ _ none_
    cases none_
  · intro _ _ none_
    cases none_
  · intro _ _ _ _ none_
    cases none_

theorem le_foldl_max {Item : Type} (size : Item → Nat) (items : List Item) (start : Nat) :
    start ≤ items.foldl (fun top item => max top (size item)) start ∧
      ∀ item ∈ items, size item ≤ items.foldl (fun top item => max top (size item)) start := by
  induction items generalizing start with
  | nil => exact ⟨le_rfl, fun _ none_ => by cases none_⟩
  | cons head rest ih =>
      obtain ⟨grows, all⟩ := ih (max start (size head))
      refine ⟨(le_max_left _ _).trans grows, fun item member => ?_⟩
      rcases List.mem_cons.mp member with rfl | behind
      · exact (le_max_right _ _).trans grows
      · exact all item behind

/-- A buffer's bytes lie in its arena. -/
theorem buffer_within {arenas : Arenas} {heap before : Heap} {buffer : MemoryBuffer}
    {arena : Arena} (laid : ArenasLaid plan before (arenas, heap)) (listed : buffer ∈ plan.buffers)
    (inside : buffer.offset + buffer.bytes ≤ sizeMax)
    (found : arenas buffer.arenaIndex = some arena) :
    (⟨arena.base + buffer.offset, buffer.bytes⟩ : Region).Within arena.region := by
  have member : buffer ∈ arenaBuffers plan buffer.arenaIndex :=
    List.mem_filter.mpr ⟨listed, by simp⟩
  have reach := (le_foldl_max (fun buffer : MemoryBuffer =>
    wrapSize (buffer.offset + buffer.bytes)) _ 0).2 buffer member
  rw [wrapSize_self inside] at reach
  have total : buffer.offset + buffer.bytes ≤ arena.totalBytes :=
    laid.sized _ arena found ▸ reach
  exact ⟨Nat.le_add_right _ _, by dsimp only [Arena.region]; omega⟩

end ArenaBlocks

section PlannedValues

variable {allocator : SystemAllocator} {graph : Graph Num} {plan : MemoryPlan} {arenas : Arenas}

/-- A tensor in the buffer that the plan has for its value. -/
def Backed (graph : Graph Num) (plan : MemoryPlan) (arenas : Arenas) (id : Nat)
    (tensor : StoredTensor) : Prop :=
  ∃ range ∈ plan.ranges, range.eligible = true ∧ range.value = id ∧ ∃ buffer arena value nb bytes,
    plan.buffers[range.bufferId]? = some buffer ∧ arenas buffer.arenaIndex = some arena ∧
    graph.values[id]? = some value ∧ (StoredTensor.ofValue value).nbytes = .ok nb ∧
    tensor = { StoredTensor.ofValue value with
      data := arena.base + buffer.offset, allocatedBytes := bytes, device := {} }

theorem bindRange_cases {ctx after : StorageContext} {range : MemoryLiveRange}
    (listed : range ∈ plan.ranges) (done : bindRange graph plan arenas ctx range = .ok after) :
    after = ctx ∨ ctx.bindings range.value = none ∧ ∃ tensor,
      Backed graph plan arenas range.value tensor ∧ after = ctx.bind range.value tensor := by
  unfold bindRange at done
  split at done
  · exact Or.inl (Except.ok.inj done).symm
  next chosen =>
  split at done
  · cases done
  next buffer at_buffer =>
  split at done
  · cases done
  next arena at_arena =>
  split at done
  · exact Or.inl (Except.ok.inj done).symm
  next unbound =>
  split at done
  · cases done
  next value known =>
  split at done
  · cases done
  next tensor bound =>
  obtain rfl := Except.ok.inj done
  refine Or.inr ⟨by simpa using unbound, tensor, ?_, rfl⟩
  have eligible : range.eligible = true := by
    by_contra skipped
    exact chosen (Or.inl (by simpa using skipped))
  have there : graph.values[range.value]? = some value := by
    unfold Graph.value at known
    split at known
    · next value' there => exact (Except.ok.inj known) ▸ there
    · cases known
  unfold StoredTensor.bindCpuData at bound
  split at bound
  · cases bound
  split at bound
  · cases bound
  next nb sized =>
  split at bound
  · cases bound
  exact ⟨range, listed, eligible, rfl, buffer, arena, value, nb, _, at_buffer, at_arena, there,
    sized, (Except.ok.inj bound).symm⟩

theorem bindRanges_backed {ranges : List MemoryLiveRange} {ctx after : StorageContext}
    (listed : ∀ range ∈ ranges, range ∈ plan.ranges)
    (done : ranges.foldlM (bindRange graph plan arenas) ctx = .ok after) :
    after.heap = ctx.heap ∧ (∀ id tensor, ctx.bindings id = some tensor →
        after.bindings id = some tensor) ∧
      ∀ id tensor, after.bindings id = some tensor →
        ctx.bindings id = some tensor ∨ ctx.bindings id = none ∧ Backed graph plan arenas id tensor := by
  induction ranges generalizing ctx with
  | nil =>
      obtain rfl := Except.ok.inj done
      exact ⟨rfl, fun _ _ found => found, fun _ _ found => Or.inl found⟩
  | cons range rest ih =>
      rw [List.foldlM_cons] at done
      obtain ⟨next, step, done⟩ := bind_eq_ok done
      obtain ⟨heap, kept, made⟩ := ih (fun other member =>
        listed other (List.mem_cons_of_mem _ member)) done
      rcases bindRange_cases (listed range List.mem_cons_self) step with
        rfl | ⟨unbound, tensor, backed, rfl⟩
      · exact ⟨heap, kept, made⟩
      have earlier : ∀ id other, ctx.bindings id = some other →
          (ctx.bind range.value tensor).bindings id = some other := by
        intro id other found
        have different : id ≠ range.value := by
          rintro rfl
          rw [unbound] at found
          cases found
        exact (bind_other _ _ different).trans found
      refine ⟨heap, fun id other found => kept id other (earlier id other found), ?_⟩
      intro id other found
      rcases made id other found with held | ⟨none_, backs⟩
      · by_cases same : id = range.value
        · subst same
          rw [bind_self] at held
          exact Or.inr ⟨unbound, (Option.some.inj held) ▸ backed⟩
        · rw [bind_other _ _ same] at held
          exact Or.inl held
      · refine Or.inr ⟨?_, backs⟩
        cases before : ctx.bindings id with
        | none => rfl
        | some old =>
            rw [earlier id old before] at none_
            cases none_

end PlannedValues

section Routes

variable {allocator : SystemAllocator} {sorter : StdSort} {graph : Graph Num}
  {options : MemoryPlanOptions} {plan : MemoryPlan}

/-- Nothing may share bytes. -/
def Never (_ _ : Nat) : Prop := False

/-- Planned values, the live range of `a` ending before that of `b` starts. -/
structure TakesTurns (plan : MemoryPlan) (a b : Nat) : Prop where
  left : (rangeAt plan.ranges a).eligible = true
  right : (rangeAt plan.ranges b).eligible = true
  before : (rangeAt plan.ranges a).lastNode < (rangeAt plan.ranges b).firstNode

/-- Every value but inputs and constants has a tensor. -/
def AllBound (graph : Graph Num) (ctx : StorageContext) : Prop :=
  ∀ id value, graph.values[id]? = some value →
    value.kind = .input ∨ value.kind = .constant ∨ (ctx.bindings id).isSome

theorem Laid.mono {shares more : Nat → Nat → Prop} {ctx : StorageContext}
    (laid : Laid graph shares ctx) (weaker : ∀ a b, shares a b → more a b) :
    Laid graph more ctx where
  stored := laid.stored
  apart a b left right foundA foundB different written :=
    (laid.apart a b left right foundA foundB different written).imp_right
      (Or.imp (weaker a b) (weaker b a))

theorem allocateRest {shares : Nat → Nat → Prop} {ctx after : StorageContext}
    (laid : Laid graph shares ctx)
    (done : graph.values.zipIdx.foldlM (allocateValue allocator) ctx = .ok after) :
    Laid graph shares after ∧ Grown graph ctx after ∧ AllBound graph after := by
  obtain ⟨final, grown, bound⟩ := laid.allocateValues
    (fun entry member => List.mem_zipIdx_iff_getElem?.mp member) done
  exact ⟨final, grown, fun id value found =>
    bound (value, id) (List.mem_zipIdx_iff_getElem?.mpr found)⟩

theorem allocateIntermediates_laid {ctx after : StorageContext} (laid : Laid graph Never ctx)
    (done : allocateIntermediates allocator graph ctx = .ok after) :
    Laid graph Never after ∧ Grown graph ctx after ∧ AllBound graph after :=
  allocateRest laid done

/-- Only values that the allocation gives storage to are eligible. -/
theorem eligible_written (planned : MemoryPlanner.plan sorter graph options = .ok plan) {id : Nat}
    (eligible : (rangeAt plan.ranges id).eligible = true) : Written graph id := by
  obtain ⟨_, _, -, -, length, placed⟩ := plan_placed planned
  have inside : id < graph.values.length := by
    by_contra outside
    rw [rangeAt_outside (length ▸ not_lt.mp outside)] at eligible
    cases eligible
  have known := List.getElem?_eq_getElem inside
  have payload := (placed id _ known).payload eligible
  unfold MemoryPlanner.payload at payload
  split at payload
  · next chosen =>
    refine ⟨_, known, ?_, ?_⟩ <;> intro kind <;> rw [kind] at chosen <;> simp at chosen
  · cases payload

/-- A planned tensor lies in the bytes of its buffer. -/
theorem Backed.within {arenas : Arenas} {id : Nat} {tensor : StoredTensor}
    (planned : MemoryPlanner.plan sorter graph options = .ok plan)
    (fits : demand graph options ≤ sizeMax) (backed : Backed graph plan arenas id tensor) :
    (rangeAt plan.ranges id).eligible = true ∧ ∃ buffer arena,
      plan.buffers[(rangeAt plan.ranges id).bufferId]? = some buffer ∧
      arenas buffer.arenaIndex = some arena ∧
      tensor.region.Within ⟨arena.base + buffer.offset, buffer.bytes⟩ := by
  obtain ⟨range, listed, eligible, rfl, buffer, arena, value, nb, bytes, at_buffer, at_arena,
    there, sized, rfl⟩ := backed
  obtain ⟨_, _, -, -, length, placed⟩ := plan_placed planned
  obtain ⟨i, at_i⟩ := List.mem_iff_getElem?.mp listed
  have inside := (List.getElem?_eq_some_iff.mp at_i).1
  have own := placed i _ (List.getElem?_eq_getElem (length ▸ inside))
  have same : range.value = i := rangeAt_eq at_i ▸ own.id
  have whole : rangeAt plan.ranges range.value = range := same.symm ▸ rangeAt_eq at_i
  have described := placed range.value value there
  rw [whole] at described
  obtain ⟨⟨other, at_other, room⟩, -⟩ := plan_buffer planned fits (whole.symm ▸ eligible)
  rw [whole] at at_other room
  obtain rfl := Option.some.inj (at_buffer.symm.trans at_other)
  have payload := described.payload eligible
  rw [whole, region_eq sized]
  refine ⟨eligible, buffer, arena, at_buffer, at_arena, le_rfl, ?_⟩
  have small : nb ≤ range.bytes := by
    unfold MemoryPlanner.payload at payload
    split at payload
    · split at payload
      · next elemCount elemSize count size =>
        obtain ⟨n, counted, sized⟩ := bind_eq_ok sized
        obtain ⟨width, measured, sized⟩ := bind_eq_ok sized
        obtain rfl := Except.ok.inj (count.symm.trans counted)
        obtain rfl := Except.ok.inj (size.symm.trans measured)
        rw [← Option.some.inj payload, ← Except.ok.inj sized]
        exact Nat.mod_le _ _
      · cases payload
    · cases payload
  dsimp only
  omega

/-- The planned route: tensors share bytes only where their live ranges are apart. -/
theorem allocateIntermediatesWithPlan_laid {ctx after : StorageContext}
    (planned : MemoryPlanner.plan sorter graph options = .ok plan)
    (fits : demand graph options ≤ sizeMax) (laid : Laid graph Never ctx)
    (done : allocateIntermediatesWithPlan allocator graph plan ctx = .ok after) :
    Laid graph (TakesTurns plan) after ∧ Grown graph ctx after ∧ AllBound graph after := by
  unfold allocateIntermediatesWithPlan at done
  dsimp only at done
  split at done
  · cases done
  obtain ⟨⟨arenas, heap⟩, allocated, done⟩ := bind_eq_ok done
  obtain ⟨middle, bound, done⟩ := bind_eq_ok done
  have arenasLaid := allocateArenas_laid allocated
  obtain ⟨sameHeap, kept, made⟩ := bindRanges_backed (fun _ member => member) bound
  obtain ⟨small, apart⟩ := plan_buffers_apart planned fits
  -- A planned tensor lies in an arena's block, which no earlier block touches.
  have inArena : ∀ id tensor, Backed graph plan arenas id tensor → ∃ block ∈ heap.taken,
      tensor.region.Within block ∧ ∀ old ∈ ctx.heap.taken, block.Apart old := by
    intro id tensor backed
    obtain ⟨-, buffer, arena, at_buffer, at_arena, within⟩ :=
      backed.within planned fits
    have inner := buffer_within arenasLaid (List.mem_of_getElem? at_buffer)
      (small _ buffer at_buffer) at_arena
    obtain ⟨block, member, outer, old⟩ := arenasLaid.placed _ arena at_arena
    exact ⟨block, member, within.trans (inner.trans outer), old⟩
  have fromOld : ∀ id tensor other earlier, Backed graph plan arenas id tensor →
      ctx.bindings other = some earlier → tensor.region.Apart earlier.region := by
    intro id tensor other earlier backed found
    obtain ⟨block, -, within, old⟩ := inArena id tensor backed
    obtain ⟨held, member, inside⟩ := laid.stored other earlier found
    exact (old held member).within within inside
  have turns : ∀ a b left right, Backed graph plan arenas a left →
      Backed graph plan arenas b right → a ≠ b →
      left.region.Apart right.region ∨ TakesTurns plan a b ∨ TakesTurns plan b a := by
    intro a b left right backedA backedB different
    obtain ⟨eligibleA, bufferA, arenaA, at_a, arena_a, withinA⟩ :=
      backedA.within planned fits
    obtain ⟨eligibleB, bufferB, arenaB, at_b, arena_b, withinB⟩ :=
      backedB.within planned fits
    by_cases shared : (rangeAt plan.ranges b).bufferId = (rangeAt plan.ranges a).bufferId
    · refine Or.inr (((plan_buffer planned fits eligibleA).2 b (Ne.symm different) eligibleB
        shared).imp ?_ ?_)
      · exact fun before => ⟨eligibleA, eligibleB, before⟩
      · exact fun before => ⟨eligibleB, eligibleA, before⟩
    · refine Or.inl (Region.Apart.within ?_ withinA withinB)
      by_cases arena : bufferA.arenaIndex = bufferB.arenaIndex
      · rw [arena, arena_b] at arena_a
        obtain rfl := Option.some.inj arena_a
        rcases apart _ _ bufferA bufferB at_a at_b (Ne.symm shared) arena with before | behind
        · exact Or.inl (by dsimp only; omega)
        · exact Or.inr (by dsimp only; omega)
      · have outerA := buffer_within arenasLaid (List.mem_of_getElem? at_a)
          (small _ bufferA at_a) arena_a
        have outerB := buffer_within arenasLaid (List.mem_of_getElem? at_b)
          (small _ bufferB at_b) arena_b
        exact (arenasLaid.apart _ _ arenaA arenaB arena_a arena_b arena).within outerA outerB
  have middleLaid : Laid graph (TakesTurns plan) middle := by
    constructor
    case stored =>
      intro id tensor found
      rw [sameHeap]
      rcases made id tensor found with old | ⟨-, backed⟩
      · exact arenasLaid.later.stores (laid.stored id tensor old)
      · obtain ⟨block, member, within, -⟩ := inArena id tensor backed
        exact ⟨block, member, within⟩
    case apart =>
      intro a b left right foundA foundB different written
      rcases made a left foundA with oldA | ⟨-, backedA⟩ <;>
        rcases made b right foundB with oldB | ⟨-, backedB⟩
      · exact (laid.apart a b left right oldA oldB different written).imp_right
          (Or.imp False.elim False.elim)
      · exact Or.inl (fromOld b right a left backedB oldA).symm
      · exact Or.inl (fromOld a left b right backedA oldB)
      · exact turns a b left right backedA backedB different
  have middleGrown : Grown graph ctx middle := by
    constructor
    case heap =>
      rw [sameHeap]
      exact arenasLaid.later
    case kept => exact kept
    case made =>
      intro id tensor unbound found
      rcases made id tensor found with old | ⟨-, backed⟩
      · rw [show ctx.bindings id = none from unbound] at old
        cases old
      · have eligible := (backed.within planned fits).1
        obtain ⟨_, _, _, rfl, _, _, value, nb, bytes, _, _, there, sized, same⟩ := backed
        exact ⟨eligible_written planned eligible, value, there, _, bytes, nb, sized, same⟩
  obtain ⟨final, grown, all⟩ := allocateRest middleLaid done
  exact ⟨final, middleGrown.trans grown, all⟩

end Routes

end MiniLLM.StorageContext
