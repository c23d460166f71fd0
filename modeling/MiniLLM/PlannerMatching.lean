import MiniLLM.MemoryPlanner
import MiniLLM.IntervalPartition

/-!
The matching loop of the planner is an interval partition of the live ranges.
Between two rounds every buffer is either live, under its last use, or in the free
set of its pool, under its size. A range takes over a buffer of its pool that is
large enough and whose last use has passed, and gets a new one when none is.
-/

namespace MiniLLM.MemoryPlanner

open IntervalPartition

section Sorting

theorem before_iff (ranges : List MemoryLiveRange) (lhs rhs : Nat) :
    before ranges lhs rhs = true ↔
      (rangeAt ranges lhs).firstNode < (rangeAt ranges rhs).firstNode ∨
        (rangeAt ranges lhs).firstNode = (rangeAt ranges rhs).firstNode ∧
          ((rangeAt ranges lhs).lastNode < (rangeAt ranges rhs).lastNode ∨
            (rangeAt ranges lhs).lastNode = (rangeAt ranges rhs).lastNode ∧
              (rangeAt ranges rhs).alignedBytes < (rangeAt ranges lhs).alignedBytes) := by
  simp only [before]
  split
  · next different => simp [different]
  · next same =>
      rw [not_not] at same
      split
      · next different => simp [same, different]
      · next equal => simp [same, not_not.mp equal]

theorem before_strictWeak (ranges : List MemoryLiveRange) : StrictWeak (before ranges) := by
  constructor
  · intro a b less
    rw [before_iff] at less
    rw [Bool.eq_false_iff, ne_eq, before_iff]
    omega
  · intro a b c first second
    rw [Bool.eq_false_iff, ne_eq, before_iff] at first second ⊢
    omega

/-- The order of the matching loop. -/
def sortedIndices (sorter : StdSort) (ranges : List MemoryLiveRange) : List Nat :=
  sorter.sort (before ranges) (eligibleIndices ranges)

theorem sortedIndices_starts (sorter : StdSort) (ranges : List MemoryLiveRange) :
    (sortedIndices sorter ranges).Pairwise fun a b =>
      (rangeAt ranges a).firstNode ≤ (rangeAt ranges b).firstNode := by
  have sorted := sorter.sorted (before ranges) (eligibleIndices ranges) (before_strictWeak ranges)
  refine sorted.imp fun {a b} kept => ?_
  rw [Bool.eq_false_iff, ne_eq, before_iff] at kept
  omega

theorem mem_sortedIndices {sorter : StdSort} {ranges : List MemoryLiveRange} {i : Nat} :
    i ∈ sortedIndices sorter ranges ↔ i < ranges.length ∧ (rangeAt ranges i).eligible := by
  rw [sortedIndices, (sorter.perm _ _).mem_iff]
  simp [eligibleIndices]

theorem sortedIndices_nodup (sorter : StdSort) (ranges : List MemoryLiveRange) :
    (sortedIndices sorter ranges).Nodup :=
  (sorter.perm _ _).nodup_iff.mpr (List.nodup_range.filter _)

end Sorting

section Storage

theorem bufferAt_eq {buffers : List MemoryBuffer} {i : Nat} {buffer : MemoryBuffer}
    (found : buffers[i]? = some buffer) : bufferAt buffers i = buffer := by
  simp [bufferAt, List.getD_eq_getElem?_getD, found]

theorem bufferAt_set {buffers : List MemoryBuffer} {i : Nat} (inside : i < buffers.length)
    (buffer : MemoryBuffer) (j : Nat) :
    bufferAt (buffers.set i buffer) j = if j = i then buffer else bufferAt buffers j := by
  by_cases same : j = i
  · subst same
    simp [bufferAt, List.getD_eq_getElem?_getD, inside]
  · simp [bufferAt, List.getD_eq_getElem?_getD, same, List.getElem?_set_ne (Ne.symm same)]

theorem bufferAt_append (buffers : List MemoryBuffer) (buffer : MemoryBuffer) {j : Nat}
    (inside : j < buffers.length) : bufferAt (buffers ++ [buffer]) j = bufferAt buffers j := by
  simp [bufferAt, List.getD_eq_getElem?_getD, List.getElem?_append_left inside]

theorem bufferAt_last (buffers : List MemoryBuffer) (buffer : MemoryBuffer) :
    bufferAt (buffers ++ [buffer]) buffers.length = buffer := by
  simp [bufferAt, List.getD_eq_getElem?_getD]

instance : IsTrans (Nat × Nat) pairLe := ⟨fun a b c => by unfold pairLe; omega⟩

instance : Std.Total pairLe := ⟨fun a b => by unfold pairLe; omega⟩

@[simp] theorem mem_emplace {entry other : Nat × Nat} {entries : List (Nat × Nat)} :
    other ∈ emplace entry entries ↔ other = entry ∨ other ∈ entries :=
  List.mem_orderedInsert _

theorem emplace_perm (entry : Nat × Nat) (entries : List (Nat × Nat)) :
    (emplace entry entries).Perm (entry :: entries) :=
  List.perm_orderedInsert _ _ _

/-- Where the buffers are at a node: each live under its last use, or free in its pool. -/
structure Stored (buffers : List MemoryBuffer) (node : Nat) (pools : PoolKey → List (Nat × Nat))
    (live : List (Nat × Nat)) : Prop where
  free : ∀ key, ∀ entry ∈ pools key, entry.2 < buffers.length ∧
    entry.1 = (bufferAt buffers entry.2).bytes ∧ (bufferAt buffers entry.2).key = key ∧
    (bufferAt buffers entry.2).lastUse < node
  inUse : ∀ entry ∈ live, entry.2 < buffers.length ∧
    entry.1 = (bufferAt buffers entry.2).lastUse
  once : ∀ key, ((pools key).map Prod.snd ++ live.map Prod.snd).Nodup
  all : ∀ bi < buffers.length,
    bi ∈ live.map Prod.snd ∨ ∃ key, bi ∈ (pools key).map Prod.snd
  sorted : live.Pairwise pairLe

theorem Stored.later {buffers : List MemoryBuffer} {node later : Nat}
    {pools : PoolKey → List (Nat × Nat)} {live : List (Nat × Nat)}
    (stored : Stored buffers node pools live) (after : node ≤ later) :
    Stored buffers later pools live where
  free := by
    intro key entry member
    obtain ⟨inside, bytes, same, past⟩ := stored.free key entry member
    exact ⟨inside, bytes, same, past.trans_le after⟩
  inUse := stored.inUse
  once := stored.once
  all := stored.all
  sorted := stored.sorted

/-- One buffer whose last use has passed moves to its pool. -/
theorem Stored.release {buffers : List MemoryBuffer} {node lastUse bi : Nat}
    {pools : PoolKey → List (Nat × Nat)} {rest : List (Nat × Nat)}
    (stored : Stored buffers node pools ((lastUse, bi) :: rest)) (past : lastUse < node) :
    Stored buffers node
      (fun key => if key = (bufferAt buffers bi).key
        then emplace ((bufferAt buffers bi).bytes, bi) (pools key) else pools key) rest := by
  obtain ⟨inside, use⟩ := stored.inUse (lastUse, bi) List.mem_cons_self
  constructor
  · intro key entry member
    split at member
    · next same =>
        rcases mem_emplace.mp member with rfl | old
        · exact ⟨inside, rfl, same.symm, use ▸ past⟩
        · exact stored.free key entry old
    · exact stored.free key entry member
  · exact fun entry member => stored.inUse entry (List.mem_cons_of_mem _ member)
  · intro key
    have once := stored.once key
    split
    · have moved := ((emplace_perm ((bufferAt buffers bi).bytes, bi) (pools key)).map
        Prod.snd).append_right (rest.map Prod.snd)
      rw [moved.nodup_iff]
      rw [List.map_cons, List.perm_middle.nodup_iff] at once
      exact once
    · rw [List.map_cons, List.perm_middle.nodup_iff] at once
      exact (List.nodup_cons.mp once).2
  · intro other small
    rcases stored.all other small with member | ⟨key, member⟩
    · rcases List.mem_cons.mp member with rfl | later
      · refine Or.inr ⟨(bufferAt buffers other).key, 
          List.mem_map.mpr ⟨((bufferAt buffers other).bytes, other), ?_, rfl⟩⟩
        rw [if_pos rfl]
        exact mem_emplace.mpr (Or.inl rfl)
      · exact Or.inl later
    · refine Or.inr ⟨key, ?_⟩
      obtain ⟨entry, found, rfl⟩ := List.mem_map.mp member
      refine List.mem_map.mpr ⟨entry, ?_, rfl⟩
      split
      · exact mem_emplace.mpr (Or.inr found)
      · exact found
  · exact (List.pairwise_cons.mp stored.sorted).2

/-- After the expiry the live buffers are those still in use. -/
theorem expire_stored {buffers : List MemoryBuffer} {node : Nat}
    {pools : PoolKey → List (Nat × Nat)} {live : List (Nat × Nat)}
    (stored : Stored buffers node pools live) :
    Stored buffers node (expire buffers node pools live).1 (expire buffers node pools live).2 ∧
      ∀ entry ∈ (expire buffers node pools live).2, node ≤ entry.1 := by
  induction live generalizing pools with
  | nil => exact ⟨stored, by simp [expire]⟩
  | cons head rest ih =>
      obtain ⟨lastUse, bi⟩ := head
      simp only [expire]
      split
      · next past => exact ih (stored.release past)
      · next held =>
          refine ⟨stored, fun entry member => ?_⟩
          rcases List.mem_cons.mp member with rfl | later
          · exact not_lt.mp held
          · have order := (List.pairwise_cons.mp stored.sorted).1 entry later
            unfold pairLe at order
            dsimp only at order
            omega

/-- A free buffer is in no other place. -/
theorem Stored.alone {buffers : List MemoryBuffer} {node : Nat}
    {pools : PoolKey → List (Nat × Nat)} {live : List (Nat × Nat)}
    (stored : Stored buffers node pools live) {key : PoolKey} {entry : Nat × Nat}
    (member : entry ∈ pools key) :
    (∀ other ∈ live, other.2 ≠ entry.2) ∧
      (∀ other ∈ (pools key).erase entry, other.2 ≠ entry.2) ∧
      ∀ k, k ≠ key → ∀ other ∈ pools k, other.2 ≠ entry.2 := by
  have perm := ((List.perm_cons_erase member).map Prod.snd).append_right (live.map Prod.snd)
  have once := perm.nodup_iff.mp (stored.once key)
  rw [List.map_cons, List.cons_append, List.nodup_cons, List.mem_append, not_or] at once
  obtain ⟨⟨notFree, notLive⟩, -⟩ := once
  refine ⟨fun other found same => ?_, fun other found same => ?_,
    fun k different other found same => ?_⟩
  · exact notLive (same ▸ List.mem_map_of_mem found)
  · exact notFree (same ▸ List.mem_map_of_mem found)
  · have left := (stored.free k other found).2.2.1
    have right := (stored.free key entry member).2.2.1
    rw [same, right] at left
    exact different left.symm

theorem Stored.reuse {buffers : List MemoryBuffer} {node : Nat}
    {pools : PoolKey → List (Nat × Nat)} {live : List (Nat × Nat)}
    (stored : Stored buffers node pools live) {key : PoolKey} {entry : Nat × Nat}
    (member : entry ∈ pools key) (buffer : MemoryBuffer) :
    Stored (buffers.set entry.2 buffer) node
      (fun k => if k = key then (pools k).erase entry else pools k)
      (emplace (buffer.lastUse, entry.2) live) := by
  obtain ⟨inside, -, keyed, -⟩ := stored.free key entry member
  obtain ⟨notLive, notFree, notOther⟩ := stored.alone member
  constructor
  · intro k other found
    have kept : other ∈ pools k ∧ other.2 ≠ entry.2 := by
      split at found
      · next here =>
          subst here
          exact ⟨List.mem_of_mem_erase found, notFree other found⟩
      · next elsewhere => exact ⟨found, notOther k elsewhere other found⟩
    rw [bufferAt_set inside, if_neg kept.2, List.length_set]
    exact stored.free k other kept.1
  · intro other found
    rw [List.length_set, bufferAt_set inside]
    rcases mem_emplace.mp found with rfl | old
    · exact ⟨inside, by simp⟩
    · rw [if_neg (notLive other old)]
      exact stored.inUse other old
  · intro k
    have inserted := (emplace_perm (buffer.lastUse, entry.2) live).map Prod.snd
    rw [(inserted.append_left _).nodup_iff, List.map_cons, List.perm_middle.nodup_iff]
    split
    · next here =>
        subst here
        have perm := ((List.perm_cons_erase member).map Prod.snd).append_right (live.map Prod.snd)
        exact perm.nodup_iff.mp (stored.once k)
    · next elsewhere =>
        refine List.nodup_cons.mpr ⟨?_, stored.once k⟩
        rw [List.mem_append, not_or]
        constructor
        · intro found
          obtain ⟨other, old, equal⟩ := List.mem_map.mp found
          exact notOther k elsewhere other old equal
        · intro found
          obtain ⟨other, old, equal⟩ := List.mem_map.mp found
          exact notLive other old equal
  · intro bi small
    rw [List.length_set] at small
    have inserted := (emplace_perm (buffer.lastUse, entry.2) live).map Prod.snd
    rw [inserted.mem_iff, List.map_cons, List.mem_cons]
    by_cases here : bi = entry.2
    · exact Or.inl (Or.inl here)
    · rcases stored.all bi small with used | ⟨k, found⟩
      · exact Or.inl (Or.inr used)
      · obtain ⟨other, old, rfl⟩ := List.mem_map.mp found
        refine Or.inr ⟨k, List.mem_map_of_mem ?_⟩
        split
        · exact (List.mem_erase_of_ne fun equal => here (congrArg Prod.snd equal)).mpr old
        · exact old
  · exact List.Pairwise.orderedInsert _ _ stored.sorted

theorem Stored.fresh {buffers : List MemoryBuffer} {node : Nat}
    {pools : PoolKey → List (Nat × Nat)} {live : List (Nat × Nat)}
    (stored : Stored buffers node pools live) (buffer : MemoryBuffer) :
    Stored (buffers ++ [buffer]) node pools
      (emplace (buffer.lastUse, buffers.length) live) := by
  have inserted := (emplace_perm (buffer.lastUse, buffers.length) live).map Prod.snd
  constructor
  · intro key entry member
    obtain ⟨inside, kept⟩ := stored.free key entry member
    rw [bufferAt_append _ _ inside, List.length_append]
    exact ⟨Nat.lt_add_right _ inside, kept⟩
  · intro entry member
    rw [List.length_append, List.length_singleton]
    rcases mem_emplace.mp member with rfl | old
    · exact ⟨Nat.lt_succ_self _, by rw [bufferAt_last]⟩
    · obtain ⟨inside, use⟩ := stored.inUse entry old
      rw [bufferAt_append _ _ inside]
      exact ⟨Nat.lt_succ_of_lt inside, use⟩
  · intro key
    rw [(inserted.append_left _).nodup_iff, List.map_cons, List.perm_middle.nodup_iff]
    refine List.nodup_cons.mpr ⟨?_, stored.once key⟩
    rw [List.mem_append, not_or]
    constructor
    · intro found
      obtain ⟨other, old, equal⟩ := List.mem_map.mp found
      exact absurd (stored.free key other old).1 (by omega)
    · intro found
      obtain ⟨other, old, equal⟩ := List.mem_map.mp found
      exact absurd (stored.inUse other old).1 (by omega)
  · intro bi small
    rw [List.length_append, List.length_singleton] at small
    rw [inserted.mem_iff, List.map_cons, List.mem_cons]
    by_cases last : bi = buffers.length
    · exact Or.inl (Or.inl last)
    · rcases stored.all bi (by omega) with used | free
      · exact Or.inl (Or.inr used)
      · exact Or.inr free
  · exact List.Pairwise.orderedInsert _ _ stored.sorted

end Storage

section Rounds

/-- `buffer` after a range took it over. -/
def extendBuffer (buffer : MemoryBuffer) (range : MemoryLiveRange) : MemoryBuffer :=
  { buffer with lastUse := range.lastNode, values := buffer.values ++ [range.value] }

def newBuffer (bi : Nat) (range : MemoryLiveRange) : MemoryBuffer :=
  { id := bi, bytes := range.alignedBytes, dtype := range.dtype, device := range.device,
    lastUse := range.lastNode, values := [range.value] }

/-- A round reuses a free buffer, or finds all that would do in use and adds one. -/
theorem matchRange_cases {state : Matching} {idx : Nat} {range : MemoryLiveRange}
    (here : rangeAt state.ranges idx = range)
    (stored : Stored state.buffers range.firstNode state.pools state.liveByLastUse) :
    Stored (matchRange state idx).buffers range.firstNode (matchRange state idx).pools
        (matchRange state idx).liveByLastUse ∧
      ((∃ bi buffer, bi < state.buffers.length ∧ bufferAt state.buffers bi = buffer ∧
          buffer.key = range.key ∧ range.alignedBytes ≤ buffer.bytes ∧
          buffer.lastUse < range.firstNode ∧
          (matchRange state idx).buffers = state.buffers.set bi (extendBuffer buffer range) ∧
          (matchRange state idx).ranges =
            state.ranges.set idx { range with bufferId := buffer.id }) ∨
        ((∀ bi < state.buffers.length, (bufferAt state.buffers bi).key = range.key →
            range.alignedBytes ≤ (bufferAt state.buffers bi).bytes →
            range.firstNode ≤ (bufferAt state.buffers bi).lastUse) ∧
          (matchRange state idx).buffers =
            state.buffers ++ [newBuffer state.buffers.length range] ∧
          (matchRange state idx).ranges =
            state.ranges.set idx { range with bufferId := state.buffers.length })) := by
  obtain ⟨expired, held⟩ := expire_stored stored
  simp only [matchRange, here]
  generalize expire state.buffers range.firstNode state.pools state.liveByLastUse = after
    at expired held ⊢
  obtain ⟨pools, live⟩ := after
  cases found : lowerBound (range.alignedBytes, 0) (pools range.key) with
  | some entry =>
      have member : entry ∈ pools range.key := List.mem_of_find?_eq_some found
      have least : pairLe (range.alignedBytes, 0) entry := by
        simpa using List.find?_some found
      obtain ⟨inside, bytes, same, past⟩ := expired.free _ _ member
      have large : range.alignedBytes ≤ (bufferAt state.buffers entry.2).bytes := by
        unfold pairLe at least
        dsimp only at least
        omega
      exact ⟨expired.reuse member (extendBuffer (bufferAt state.buffers entry.2) range),
        Or.inl ⟨entry.2, _, inside, rfl, same, large, past, rfl, rfl⟩⟩
  | none =>
      refine ⟨expired.fresh (newBuffer state.buffers.length range), Or.inr ⟨?_, rfl, rfl⟩⟩
      intro bi small same large
      rcases expired.all bi small with used | ⟨key, free⟩
      · obtain ⟨entry, member, rfl⟩ := List.mem_map.mp used
        rw [← (expired.inUse entry member).2]
        exact held entry member
      · obtain ⟨entry, member, rfl⟩ := List.mem_map.mp free
        obtain ⟨-, bytes, keyed, -⟩ := expired.free key entry member
        have pooled : entry ∈ pools range.key := by rwa [← same, keyed]
        have short := List.find?_eq_none.mp found entry pooled
        simp only [decide_eq_true_eq] at short
        unfold pairLe at short
        dsimp only at short
        omega

/-- The ranges as jobs, each under its index. -/
def workload (ranges : List MemoryLiveRange)
    (ordered : ∀ i, (rangeAt ranges i).firstNode ≤ (rangeAt ranges i).lastNode) :
    Workload Nat PoolKey Nat where
  pool i := (rangeAt ranges i).key
  start i := (rangeAt ranges i).firstNode
  finish i := (rangeAt ranges i).lastNode
  size i := (rangeAt ranges i).alignedBytes
  ordered := ordered

variable {ranges : List MemoryLiveRange}
  {ordered : ∀ i, (rangeAt ranges i).firstNode ≤ (rangeAt ranges i).lastNode}

/-- A buffer and the slot it stands for. -/
structure Holds (buffer : MemoryBuffer) (slot : Slot (workload ranges ordered)) : Prop where
  key : buffer.key = slot.pool
  bytes : buffer.bytes = slot.size
  lastUse : buffer.lastUse = slot.release
  values : buffer.values = slot.jobs.map fun i => (rangeAt ranges i).value

/-- The loop after it has matched the ranges in `placed`. -/
structure Tracks (placed : List Nat) (state : Matching)
    (slots : List (Slot (workload ranges ordered))) : Prop where
  run : Run (workload ranges ordered) placed slots
  length : slots.length = state.buffers.length
  holds : ∀ i slot, slots[i]? = some slot → Holds (bufferAt state.buffers i) slot
  ids : ∀ i < state.buffers.length, (bufferAt state.buffers i).id = i
  stored : ∀ node, (∀ earlier ∈ placed, (rangeAt ranges earlier).firstNode ≤ node) →
    Stored state.buffers node state.pools state.liveByLastUse
  size : state.ranges.length = ranges.length
  fields : ∀ i, ∃ bufferId,
    rangeAt state.ranges i = { rangeAt ranges i with bufferId := bufferId }
  assigned : ∀ i slot, slots[i]? = some slot → ∀ job ∈ slot.jobs,
    (rangeAt state.ranges job).bufferId = i

theorem rangeAt_set {i : Nat} (inside : i < ranges.length) (range : MemoryLiveRange) (j : Nat) :
    rangeAt (ranges.set i range) j = if j = i then range else rangeAt ranges j := by
  by_cases same : j = i
  · subst same
    simp [rangeAt, List.getD_eq_getElem?_getD, inside]
  · simp [rangeAt, List.getD_eq_getElem?_getD, same, List.getElem?_set_ne (Ne.symm same)]

theorem start_tracks :
    Tracks [] { ranges := ranges } ([] : List (Slot (workload ranges ordered))) where
  run := Run.start
  length := rfl
  holds := by simp
  ids := by simp
  stored := by
    intro node _
    constructor <;> simp
  size := rfl
  fields := fun i => ⟨(rangeAt ranges i).bufferId, rfl⟩
  assigned := by simp

theorem Tracks.inside {placed : List Nat} {state : Matching}
    {slots : List (Slot (workload ranges ordered))} (tracks : Tracks placed state slots)
    {i : Nat} {slot : Slot (workload ranges ordered)} (found : slots[i]? = some slot) :
    ∀ job ∈ slot.jobs, job ∈ placed := fun _ member =>
  tracks.run.perm.subset (List.mem_flatMap.mpr ⟨slot, List.mem_of_getElem? found, member⟩)

/-- The ranges after a round, whichever buffer the range was given. -/
theorem Tracks.set_fields {placed : List Nat} {state : Matching}
    {slots : List (Slot (workload ranges ordered))} (tracks : Tracks placed state slots)
    {idx : Nat} (inside : idx < ranges.length) {range : MemoryLiveRange}
    (here : rangeAt state.ranges idx = range) (given i : Nat) :
    ∃ bufferId, rangeAt (state.ranges.set idx { range with bufferId := given }) i =
      { rangeAt ranges i with bufferId := bufferId } := by
  rw [rangeAt_set (tracks.size ▸ inside)]
  split
  · next same =>
      subst same
      obtain ⟨bufferId, fields⟩ := tracks.fields i
      exact ⟨given, by rw [← here, fields]⟩
  · exact tracks.fields i

/-- A new holder leaves the other placed ranges where they were. -/
theorem Tracks.set_assigned {placed : List Nat} {state : Matching}
    {slots : List (Slot (workload ranges ordered))} (tracks : Tracks placed state slots)
    {idx : Nat} (inside : idx < ranges.length) (unplaced : idx ∉ placed)
    (range : MemoryLiveRange) {i : Nat} {slot : Slot (workload ranges ordered)}
    (found : slots[i]? = some slot) :
    ∀ job ∈ slot.jobs, (rangeAt (state.ranges.set idx range) job).bufferId = i := by
  intro job member
  have different : job ≠ idx := fun same => unplaced (same ▸ tracks.inside found job member)
  rw [rangeAt_set (tracks.size ▸ inside), if_neg different]
  exact tracks.assigned i slot found job member

/-- The round in which the range at `idx` took over the buffer at `bi`. -/
theorem Tracks.reused {placed : List Nat} {state next : Matching}
    {slots : List (Slot (workload ranges ordered))} (tracks : Tracks placed state slots)
    {idx : Nat} (inside : idx < ranges.length) (unplaced : idx ∉ placed)
    (sorted : ∀ earlier ∈ placed,
      (rangeAt ranges earlier).firstNode ≤ (rangeAt ranges idx).firstNode)
    {range : MemoryLiveRange} (same : rangeAt state.ranges idx = range)
    (kept : Stored next.buffers range.firstNode next.pools next.liveByLastUse)
    {bi : Nat} {buffer : MemoryBuffer} (small : bi < state.buffers.length)
    (found : bufferAt state.buffers bi = buffer) (key : buffer.key = range.key)
    (large : range.alignedBytes ≤ buffer.bytes) (past : buffer.lastUse < range.firstNode)
    (buffers : next.buffers = state.buffers.set bi (extendBuffer buffer range))
    (set : next.ranges = state.ranges.set idx { range with bufferId := buffer.id }) :
    ∃ slots' : List (Slot (workload ranges ordered)), Tracks (placed ++ [idx]) next slots' := by
  obtain ⟨bufferId, fields⟩ := tracks.fields idx
  obtain rfl := same.symm.trans fields
  obtain ⟨slot, there⟩ : ∃ slot, slots[bi]? = some slot :=
    ⟨_, List.getElem?_eq_getElem (tracks.length ▸ small)⟩
  have holds := tracks.holds bi slot there
  have number := tracks.ids bi small
  rw [found] at holds number
  have samePool : (workload ranges ordered).pool idx = slot.pool := key.symm.trans holds.key
  have enough : (workload ranges ordered).size idx ≤ slot.size := large.trans_eq holds.bytes
  have free : slot.release < (workload ranges ordered).start idx := holds.lastUse ▸ past
  refine ⟨slots.set bi (slot.reuse idx samePool enough free), ?_⟩
  constructor
  case run => exact tracks.run.place sorted (Place.reuse_at there samePool enough free)
  case length => rw [buffers, List.length_set, List.length_set, tracks.length]
  case holds =>
    intro i other at_i
    rw [buffers, bufferAt_set small]
    rw [List.getElem?_set] at at_i
    split at at_i
    · next here =>
        subst here
        rw [if_pos (tracks.length ▸ small), Option.some.injEq] at at_i
        subst at_i
        rw [if_pos rfl]
        exact ⟨holds.key, holds.bytes, rfl, by simp [extendBuffer, Slot.reuse, holds.values]⟩
    · next elsewhere =>
        rw [if_neg (Ne.symm elsewhere)]
        exact tracks.holds i other at_i
  case ids =>
    intro i less
    rw [buffers, List.length_set] at less
    rw [buffers, bufferAt_set small]
    split
    · next here => exact number.trans here.symm
    · exact tracks.ids i less
  case stored => exact fun node later => kept.later (later idx (by simp))
  case size => rw [set, List.length_set, tracks.size]
  case fields =>
    rw [set]
    exact tracks.set_fields inside same buffer.id
  case assigned =>
    intro i other at_i job member
    rw [set]
    rw [List.getElem?_set] at at_i
    split at at_i
    · next here =>
        subst here
        rw [if_pos (tracks.length ▸ small), Option.some.injEq] at at_i
        subst at_i
        rcases List.mem_append.mp member with old | new
        · exact tracks.set_assigned inside unplaced _ there job old
        · rw [List.mem_singleton.mp new, rangeAt_set (tracks.size ▸ inside), if_pos rfl]
          exact number
    · exact tracks.set_assigned inside unplaced _ at_i job member

theorem getElem?_snoc {Item : Type} {items : List Item} {item other : Item} {i : Nat}
    (found : (items ++ [item])[i]? = some other) :
    items[i]? = some other ∨ i = items.length ∧ other = item := by
  rw [List.getElem?_append] at found
  split at found
  · exact Or.inl found
  · obtain ⟨inside, rfl⟩ := List.getElem?_eq_some_iff.mp found
    rw [List.length_singleton] at inside
    exact Or.inr ⟨by omega, by simp⟩

/-- The round in which the range at `idx` got a buffer of its own. -/
theorem Tracks.added {placed : List Nat} {state next : Matching}
    {slots : List (Slot (workload ranges ordered))} (tracks : Tracks placed state slots)
    {idx : Nat} (inside : idx < ranges.length) (unplaced : idx ∉ placed)
    (sorted : ∀ earlier ∈ placed,
      (rangeAt ranges earlier).firstNode ≤ (rangeAt ranges idx).firstNode)
    {range : MemoryLiveRange} (same : rangeAt state.ranges idx = range)
    (kept : Stored next.buffers range.firstNode next.pools next.liveByLastUse)
    (busy : ∀ bi < state.buffers.length, (bufferAt state.buffers bi).key = range.key →
      range.alignedBytes ≤ (bufferAt state.buffers bi).bytes →
      range.firstNode ≤ (bufferAt state.buffers bi).lastUse)
    (buffers : next.buffers = state.buffers ++ [newBuffer state.buffers.length range])
    (set : next.ranges =
      state.ranges.set idx { range with bufferId := state.buffers.length }) :
    ∃ slots' : List (Slot (workload ranges ordered)), Tracks (placed ++ [idx]) next slots' := by
  obtain ⟨bufferId, fields⟩ := tracks.fields idx
  obtain rfl := same.symm.trans fields
  have held : ∀ slot ∈ slots, slot.pool = (workload ranges ordered).pool idx →
      (workload ranges ordered).size idx ≤ slot.size →
      (workload ranges ordered).start idx ≤ slot.release := by
    intro slot member pool enough
    obtain ⟨i, at_i⟩ := List.mem_iff_getElem?.mp member
    have small : i < state.buffers.length :=
      tracks.length ▸ (List.getElem?_eq_some_iff.mp at_i).1
    have holds := tracks.holds i slot at_i
    exact holds.lastUse ▸ busy i small (holds.key.trans pool) (holds.bytes ▸ enough)
  refine ⟨slots ++ [Slot.fresh (workload ranges ordered) idx], ?_⟩
  constructor
  case run => exact tracks.run.place sorted (Place.fresh slots held)
  case length => simp [buffers, tracks.length]
  case holds =>
    intro i other at_i
    rw [buffers]
    rcases getElem?_snoc at_i with old | ⟨last, rfl⟩
    · rw [bufferAt_append _ _ (tracks.length ▸ (List.getElem?_eq_some_iff.mp old).1)]
      exact tracks.holds i other old
    · rw [last, tracks.length, bufferAt_last]
      exact ⟨rfl, rfl, rfl, rfl⟩
  case ids =>
    intro i less
    rw [buffers] at less ⊢
    rw [List.length_append, List.length_singleton] at less
    rcases Nat.lt_succ_iff_lt_or_eq.mp less with old | last
    · rw [bufferAt_append _ _ old]
      exact tracks.ids i old
    · rw [last, bufferAt_last]
      rfl
  case stored => exact fun node later => kept.later (later idx (by simp))
  case size => rw [set, List.length_set, tracks.size]
  case fields =>
    rw [set]
    exact tracks.set_fields inside same state.buffers.length
  case assigned =>
    intro i other at_i job member
    rw [set]
    rcases getElem?_snoc at_i with old | ⟨last, rfl⟩
    · exact tracks.set_assigned inside unplaced _ old job member
    · rw [List.mem_singleton.mp member, rangeAt_set (tracks.size ▸ inside), if_pos rfl, last]
      exact tracks.length.symm

theorem matchRange_tracks {placed : List Nat} {state : Matching}
    {slots : List (Slot (workload ranges ordered))} (tracks : Tracks placed state slots)
    {idx : Nat} (inside : idx < ranges.length) (unplaced : idx ∉ placed)
    (sorted : ∀ earlier ∈ placed,
      (rangeAt ranges earlier).firstNode ≤ (rangeAt ranges idx).firstNode) :
    ∃ slots' : List (Slot (workload ranges ordered)),
      Tracks (placed ++ [idx]) (matchRange state idx) slots' := by
  obtain ⟨bufferId, same⟩ := tracks.fields idx
  obtain ⟨kept, reused | added⟩ := matchRange_cases same (tracks.stored _ sorted)
  · obtain ⟨bi, buffer, small, found, key, large, past, buffers, set⟩ := reused
    exact tracks.reused inside unplaced sorted same kept small found key large past buffers set
  · obtain ⟨busy, buffers, set⟩ := added
    exact tracks.added inside unplaced sorted same kept busy buffers set

/-- The whole loop places every eligible range. -/
theorem matching_tracks (sorter : StdSort) (ranges : List MemoryLiveRange)
    (ordered : ∀ i, (rangeAt ranges i).firstNode ≤ (rangeAt ranges i).lastNode) :
    ∃ slots : List (Slot (workload ranges ordered)),
      Tracks (sortedIndices sorter ranges)
        ((sortedIndices sorter ranges).foldl matchRange { ranges := ranges }) slots := by
  have starts := sortedIndices_starts sorter ranges
  have nodup := sortedIndices_nodup sorter ranges
  have inside : ∀ i ∈ sortedIndices sorter ranges, i < ranges.length :=
    fun i member => (mem_sortedIndices.mp member).1
  generalize sortedIndices sorter ranges = indices at starts nodup inside
  induction indices using List.reverseRecOn with
  | nil => exact ⟨[], start_tracks⟩
  | append_singleton indices idx ih =>
      obtain ⟨earlier, -, sorted⟩ := List.pairwise_append.mp starts
      obtain ⟨once, -, apart⟩ := List.nodup_append.mp nodup
      obtain ⟨slots, tracks⟩ := ih earlier once fun i member =>
        inside i (List.mem_append_left _ member)
      rw [List.foldl_append]
      exact matchRange_tracks tracks (inside idx (by simp))
        (fun member => apart idx member idx (by simp) rfl)
        (fun other member => sorted other member idx (by simp))

end Rounds

end MiniLLM.MemoryPlanner
