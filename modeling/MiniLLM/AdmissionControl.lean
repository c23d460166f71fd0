import MiniLLM.QueuePhases
import MiniLLM.RowRefinement

/-!
What the scheduler does to the cache. `admit_waiting` reserves blocks for the
head of its queue or leaves every block table alone, and `evict_finished` gives
back the tables of exactly the finished active ids. So a block table belongs to
an active id, and whether a head is admitted to an idle batch is arithmetic.
-/

namespace MiniLLM

namespace PagedKVCache

variable {Elem : Type}

theorem ensureSequence_again (cache : PagedKVCache Elem) (sequenceId : Int) :
    (cache.ensureSequence sequenceId).2.ensureSequence sequenceId =
      cache.ensureSequence sequenceId := by
  unfold ensureSequence
  by_cases ready : cache.initialized = true
  · by_cases negative : sequenceId < 0
    · simp [ready, negative]
    · have grown : sequenceId.toNat + 1 - (cache.sequences.length +
          (sequenceId.toNat + 1 - cache.sequences.length)) = 0 := by omega
      simp only [initialized] at ready ⊢
      simp [ready, negative, grown]
  · simp [ready]

/-- A reservation ensures its sequence itself. -/
theorem reserveSequence_ensured (cache : PagedKVCache Elem) (sequenceId totalTokens : Int) :
    (cache.ensureSequence sequenceId).2.reserveSequence sequenceId totalTokens =
      cache.reserveSequence sequenceId totalTokens := by
  unfold reserveSequence
  rw [ensureSequence_again]

theorem takeBlocks_others (cache : PagedKVCache Elem) (sequenceId other : Int) (n : Nat)
    (bound : sequenceId.toNat < cache.sequences.length) (apart : other.toNat ≠ sequenceId.toNat) :
    (cache.takeBlocks sequenceId n).sequence other = cache.sequence other := by
  have rule := Loops.loop_invariant
    (fun _ c => sequenceId.toNat < c.sequences.length ∧ c.sequence other = cache.sequence other)
    n (fun _ c => c.takeBlock sequenceId) cache ⟨bound, rfl⟩ (by
      rintro i c _ ⟨inside, same⟩
      refine ⟨by rw [(takeBlock_frame c sequenceId).1]; exact inside, ?_⟩
      rw [takeBlock_sequence c sequenceId other inside, if_neg apart, same])
  exact rule.2

/-- A reservation leaves the other sequences alone. -/
theorem reserveSequence_others (cache : PagedKVCache Elem) (sequenceId other totalTokens : Int)
    (low : 0 ≤ other) (apart : other ≠ sequenceId) :
    (cache.reserveSequence sequenceId totalTokens).2.sequence other = cache.sequence other := by
  rw [← ensureSequence_sequence cache sequenceId other]
  cases result : (cache.reserveSequence sequenceId totalTokens).1.isOk with
  | false => rw [reserveSequence_failed cache sequenceId totalTokens result]
  | true =>
      obtain ⟨ensured, _, _, same⟩ := reserveSequence_ok cache sequenceId totalTokens result
      obtain ⟨_, known, bound⟩ := ensureSequence_ok cache sequenceId ensured
      rw [same, takeBlocks_others _ sequenceId other _ bound (by omega)]

theorem freeSequence_geometry (cache : PagedKVCache Elem) (sequenceId : Int) :
    (cache.freeSequence sequenceId).2.blockSize = cache.blockSize ∧
      (cache.freeSequence sequenceId).2.maxBlocks = cache.maxBlocks := by
  unfold freeSequence
  split
  · exact ⟨rfl, rfl⟩
  · obtain ⟨free, used, frame⟩ := freeBlocks_frame (cache.sequence sequenceId).blocks cache
    dsimp only
    rw [frame]
    exact ⟨rfl, rfl⟩

theorem freeSequence_sequence (cache : PagedKVCache Elem) (sequenceId other : Int)
    (low : 0 ≤ other) :
    (cache.freeSequence sequenceId).2.sequence other =
      if other = sequenceId then {} else cache.sequence other := by
  unfold freeSequence
  by_cases knows : cache.known sequenceId = true
  · simp only [knows, Bool.not_true, Bool.false_eq_true, if_false]
    obtain ⟨free, used, frame⟩ := freeBlocks_frame (cache.sequence sequenceId).blocks cache
    generalize (cache.sequence sequenceId).blocks.foldl
      (fun c block => c.freeBlock block) cache = freed at frame ⊢
    have bounds : 0 ≤ sequenceId ∧ sequenceId.toNat < freed.sequences.length := by
      rw [frame]; simpa [known] using knows
    rw [modifySequence_sequence freed sequenceId other _ bounds.2]
    by_cases same : other = sequenceId
    · rw [if_pos same, if_pos (by rw [same])]
    · rw [if_neg same, if_neg (by omega), frame]
      rfl
  · have unknown : cache.known sequenceId = false := by simpa using knows
    simp only [unknown, Bool.not_false, if_true]
    split
    · next same =>
        subst same
        have beyond : cache.sequences.length ≤ other.toNat := by
          simp [known] at unknown; omega
        simp [sequence, beyond]
    · rfl

/-- Rounding up overflows to a quotient that is not positive. -/
theorem ceilDivInt_overflow (a b : Int) (isInt : a < 2147483648) (positive : 0 < b)
    (sizeInt : b < 2147483648) (excess : 2147483648 < a + b) : ceilDivInt a b ≤ 0 := by
  have negative : 0 ≤ -wrap32 (wrap32 (a + b) - 1) := by
    unfold wrap32
    omega
  have quotient := Int.tdiv_nonneg negative (Int.le_of_lt positive)
  rw [Int.neg_tdiv] at quotient
  unfold ceilDivInt
  omega

theorem neededBlocks_le_iff (cache : PagedKVCache Elem) (totalTokens : Int) (count : Nat)
    (positive : 0 < cache.blockSize) (sizeInt : cache.blockSize < 2147483648)
    (low : 0 ≤ totalTokens) (isInt : totalTokens < 2147483648) :
    cache.neededBlocks totalTokens ≤ count ↔
      totalTokens ≤ count * cache.blockSize ∨ 2147483648 < totalTokens + cache.blockSize := by
  unfold neededBlocks
  by_cases none : totalTokens = 0
  · have held : (0 : Int) ≤ count * cache.blockSize := Int.mul_nonneg (by omega) (by omega)
    simp [none, held]
  rw [if_neg none]
  by_cases excess : 2147483648 < totalTokens + cache.blockSize
  · have overflow := ceilDivInt_overflow totalTokens cache.blockSize isInt (by omega) (by omega) excess
    exact ⟨fun _ => Or.inr excess, fun _ => by omega⟩
  · rw [ceilDivInt_eq _ _ low (by omega) (by omega), Int.ediv_le_iff_le_mul (by omega)]
    constructor
    · intro fits
      exact Or.inl (by omega)
    · intro fits
      rcases fits with fits | overflow
      · omega
      · omega

/-- The cache a scheduler is given: calls have been made on it, and no sequence
holds a block. Block sizes are `int`s. -/
structure Empty (Elem : Type) [Zero Elem] where
  calls : List (Op Elem)
  tables : (PagedKVCache.runs calls).tables = []
  isInt : (PagedKVCache.runs calls).blockSize < 2147483648

def Empty.cache [Zero Elem] (start : Empty Elem) : PagedKVCache Elem := runs start.calls

/-- Without tables every block is free. -/
theorem Owned.allFree {cache : PagedKVCache Elem} (owned : cache.Owned)
    (empty : cache.tables = []) : cache.freeBlockCount = cache.maxBlocks := by
  have size := owned.partition.length_eq
  simpa [freeBlockCount, empty] using size

theorem blocks_of_tables {cache : PagedKVCache Elem} (empty : cache.tables = []) (id : Int) :
    (cache.sequence id).blocks = [] := by
  by_cases bound : id.toNat < cache.sequences.length
  · exact List.flatMap_eq_nil_iff.mp empty _
      (List.mem_of_getElem? (sequence_getElem? cache id bound))
  · simp [sequence, Nat.not_lt.mp bound]

theorem tables_of_blocks {cache : PagedKVCache Elem}
    (empty : ∀ id, 0 ≤ id → (cache.sequence id).blocks = []) : cache.tables = [] := by
  refine List.flatMap_eq_nil_iff.mpr fun seq member => ?_
  obtain ⟨index, bound, rfl⟩ := List.getElem_of_mem member
  have none := empty index (by omega)
  simpa [sequence, bound] using none

end PagedKVCache

namespace ContinuousBatchScheduler

variable {Elem : Type}

/-- The blocks of the sequences belong to the scheduler: nobody else calls the cache. -/
def Op.Own : Op Elem → Prop
  | .cacheCall _ => False
  | _ => True

section Admission

theorem submit_positive {s : ContinuousBatchScheduler Elem} {request : SequenceRequest}
    (accepted : (s.submit request).1.isOk = true) : 0 < request.maxTokens := by
  by_contra useless
  have low : request.maxTokens ≤ 0 := by omega
  by_cases empty : request.promptTokens = []
  · simp [submit, empty] at accepted
  · simp [submit, empty, low] at accepted

/-- The head of the queue can be admitted: the batch has room and the blocks are
there. -/
structure Admissible (s : ContinuousBatchScheduler Elem) (seqId : Int) (rest : List Int)
    (record : SeqState) : Prop where
  head : s.waitingQueue = seqId :: rest
  room : ¬ wrap32 s.activeIds.length ≥ s.config.maxBatchSize
  found : s.state seqId = some record
  reserved : (s.cache.reserveSequence seqId (totalTokens record)).1.isOk = true

def admitHead (s : ContinuousBatchScheduler Elem) (seqId : Int) (rest : List Int)
    (record : SeqState) : ContinuousBatchScheduler Elem :=
  activate { s with cache := (s.cache.reserveSequence seqId (totalTokens record)).2 } seqId rest

/-- One round of the loop: it stops with the batch full, throws, passes the
cache's error on, admits the head, or stops for lack of blocks. -/
theorem admitLoop_cons (s : ContinuousBatchScheduler Elem) (seqId : Int) (rest : List Int) :
    admitLoop (seqId :: rest) s =
      if wrap32 s.activeIds.length ≥ s.config.maxBatchSize then (some .makeOk, s)
      else
        match s.state seqId with
        | none => (none, s)
        | some record =>
            if (s.cache.ensureSequence seqId).1.isOk = false then
              (some (s.cache.ensureSequence seqId).1, s)
            else if (s.cache.reserveSequence seqId (totalTokens record)).1.isOk = true then
              admitLoop rest (s.admitHead seqId rest record)
            else (some .makeOk, { s with cache := (s.cache.ensureSequence seqId).2 }) := by
  rw [admitLoop]
  by_cases full : wrap32 s.activeIds.length ≥ s.config.maxBatchSize
  · rw [if_pos full, if_pos full]
  rw [if_neg full, if_neg full]
  cases s.state seqId with
  | none => rfl
  | some record =>
      dsimp only
      by_cases refused : (s.cache.ensureSequence seqId).1.isOk = false
      · rw [PagedKVCache.ensureSequence_failed s.cache seqId refused]
        simp [refused]
      rw [if_neg refused, PagedKVCache.reserveSequence_ensured]
      have ensured : (s.cache.ensureSequence seqId).1.isOk = true := by simpa using refused
      by_cases reserved : (s.cache.reserveSequence seqId (totalTokens record)).1.isOk = true
      · simp only [ensured, reserved]
        rfl
      · have short : (s.cache.reserveSequence seqId (totalTokens record)).1.isOk = false := by
          simpa using reserved
        simp [ensured, short, PagedKVCache.reserveSequence_failed s.cache seqId _ short]

/-- The rule of the loop: what ensuring a sequence and admitting a head keep, the
loop keeps. -/
theorem admitLoop_rule (P : ContinuousBatchScheduler Elem → Prop) (queue : List Int)
    (s : ContinuousBatchScheduler Elem) (same : s.waitingQueue = queue) (start : P s)
    (ensure : ∀ s seqId, P s → P { s with cache := (s.cache.ensureSequence seqId).2 })
    (accept : ∀ s seqId rest record, P s → s.Admissible seqId rest record →
      P (s.admitHead seqId rest record)) :
    P (admitLoop queue s).2 := by
  induction queue generalizing s with
  | nil => exact start
  | cons seqId rest ih =>
      rw [admitLoop_cons]
      split
      · exact start
      · next room =>
          split
          · exact start
          · next record found =>
              split
              · exact start
              · split
                · next reserved =>
                    exact ih _ rfl (accept s seqId rest record start ⟨same, room, found, reserved⟩)
                · exact ensure s seqId start

theorem admitWaiting_rule (P : ContinuousBatchScheduler Elem → Prop)
    (s : ContinuousBatchScheduler Elem) (start : P s)
    (ensure : ∀ s seqId, P s → P { s with cache := (s.cache.ensureSequence seqId).2 })
    (accept : ∀ s seqId rest record, P s → s.Admissible seqId rest record →
      P (s.admitHead seqId rest record)) :
    P s.admitWaiting.2 := by
  unfold admitWaiting
  split
  · exact start
  · exact admitLoop_rule P s.waitingQueue s rfl start ensure accept

theorem admitHead_state (s : ContinuousBatchScheduler Elem) (seqId other : Int) (rest : List Int)
    (record : SeqState) :
    (s.admitHead seqId rest record).state other =
      if other = seqId then (s.state other).map fun record => { record with phase := .prefilling }
      else s.state other :=
  modifyState_state _ seqId other _

theorem admitHead_cache (s : ContinuousBatchScheduler Elem) (seqId : Int) (rest : List Int)
    (record : SeqState) :
    (s.admitHead seqId rest record).cache =
      (s.cache.reserveSequence seqId (totalTokens record)).2 := by
  unfold admitHead activate modifyState
  split <;> rfl

end Admission

section Eviction

def isFinished (s : ContinuousBatchScheduler Elem) (id : Int) : Bool :=
  (s.state id).any (·.phase == .finished)

def freeAll (ids : List Int) (cache : PagedKVCache Elem) : PagedKVCache Elem :=
  ids.foldl (fun c id => (c.freeSequence id).2) cache

/-- With a record for every active id, eviction is a filter. -/
theorem evictFrom_eq (s : ContinuousBatchScheduler Elem) (ids : List Int)
    (cache : PagedKVCache Elem) (records : ∀ id ∈ ids, ∃ record, s.state id = some record) :
    evictFrom s ids cache =
      (ids.filter fun id => !s.isFinished id, freeAll (ids.filter s.isFinished) cache) := by
  induction ids generalizing cache with
  | nil => rfl
  | cons id rest ih =>
      obtain ⟨record, found⟩ := records id List.mem_cons_self
      have tail := fun c => ih c fun other member => records other (List.mem_cons_of_mem _ member)
      rw [evictFrom, found]
      by_cases finished : record.phase = .finished
      · have isDone : s.isFinished id = true := by simp [isFinished, found, finished]
        simp only [finished, if_true, tail, List.filter_cons, isDone, freeAll]
        simp
      · have isOpen : s.isFinished id = false := by simp [isFinished, found, finished]
        simp only [finished, if_false, tail, List.filter_cons, isOpen, freeAll]
        simp

theorem freeAll_sequence (ids : List Int) (cache : PagedKVCache Elem) (other : Int)
    (low : 0 ≤ other) :
    (freeAll ids cache).sequence other = if other ∈ ids then {} else cache.sequence other := by
  induction ids generalizing cache with
  | nil => simp [freeAll]
  | cons id rest ih =>
      have tail := ih (cache.freeSequence id).2
      rw [PagedKVCache.freeSequence_sequence cache id other low] at tail
      change (freeAll rest (cache.freeSequence id).2).sequence other = _
      rw [tail]
      by_cases same : other = id <;> by_cases later : other ∈ rest <;> simp [same, later]

theorem freeAll_geometry (ids : List Int) (cache : PagedKVCache Elem) :
    (freeAll ids cache).blockSize = cache.blockSize ∧
      (freeAll ids cache).maxBlocks = cache.maxBlocks := by
  induction ids generalizing cache with
  | nil => exact ⟨rfl, rfl⟩
  | cons id rest ih =>
      obtain ⟨size, count⟩ := PagedKVCache.freeSequence_geometry cache id
      obtain ⟨laterSize, laterCount⟩ := ih (cache.freeSequence id).2
      exact ⟨laterSize.trans size, laterCount.trans count⟩

theorem freeAll_owned (ids : List Int) (cache : PagedKVCache Elem) (owned : cache.Owned) :
    (freeAll ids cache).Owned := by
  induction ids generalizing cache with
  | nil => exact owned
  | cons id rest ih => exact ih _ (PagedKVCache.freeSequence_owned cache id owned)

end Eviction

section Holders

theorem state_low {s : ContinuousBatchScheduler Elem} {id : Int} {record : SeqState}
    (found : s.state id = some record) : 0 ≤ id := by
  unfold state at found
  split at found
  · simp at found
  · omega

/-- Every listed id has a record, and a sequence that holds blocks is active. -/
structure Held (s : ContinuousBatchScheduler Elem) : Prop where
  owned : s.cache.Owned
  isInt : s.cache.blockSize < 2147483648
  listed : ∀ id, id ∈ s.waitingQueue ∨ id ∈ s.activeIds → ∃ record, s.state id = some record
  held : ∀ id, 0 ≤ id → (s.cache.sequence id).blocks ≠ [] → id ∈ s.activeIds

theorem submit_held {s : ContinuousBatchScheduler Elem} (request : SequenceRequest)
    (kept : s.Held) : (s.submit request).2.Held := by
  rcases submit_cases s request with ⟨_, waiting, active, _, cache, states⟩ | ⟨_, submits⟩
  · refine ⟨by rw [cache]; exact kept.owned, by rw [cache]; exact kept.isInt,
      fun id member => ?_, ?_⟩
    · rw [waiting, active] at member
      obtain ⟨record, found⟩ := kept.listed id member
      exact ⟨record, states id record found⟩
    · rw [cache, active]
      exact kept.held
  · refine ⟨by rw [submits.cache]; exact kept.owned, by rw [submits.cache]; exact kept.isInt,
      fun id member => ?_, ?_⟩
    · by_cases same : id = s.chosenId request
      · exact ⟨_, by rw [same]; exact submits.fresh⟩
      · rw [submits.waiting, submits.active, List.mem_append, List.mem_singleton] at member
        obtain ⟨record, found⟩ := kept.listed id (by simpa [same] using member)
        exact ⟨record, submits.others id record same found⟩
    · rw [submits.cache, submits.active]
      exact kept.held

theorem modifyState_held {s : ContinuousBatchScheduler Elem} (id : Int) (f : SeqState → SeqState)
    (kept : s.Held) : (s.modifyState id f).Held := by
  obtain ⟨active, waiting, _⟩ := modifyState_frame s id f
  have cache : (s.modifyState id f).cache = s.cache := by unfold modifyState; split <;> rfl
  refine ⟨by rw [cache]; exact kept.owned, by rw [cache]; exact kept.isInt,
    fun other member => ?_, by rw [cache, active]; exact kept.held⟩
  rw [waiting, active] at member
  obtain ⟨record, found⟩ := kept.listed other member
  rw [modifyState_state, found]
  split
  · exact ⟨_, rfl⟩
  · exact ⟨_, rfl⟩

theorem ensureSequence_held {s : ContinuousBatchScheduler Elem} (seqId : Int) (kept : s.Held) :
    Held { s with cache := (s.cache.ensureSequence seqId).2 } := by
  refine ⟨PagedKVCache.ensureSequence_owned s.cache seqId kept.owned, ?_, kept.listed,
    fun id low => ?_⟩
  · rw [(PagedKVCache.ensureSequence_extends s.cache seqId).blockSize]
    exact kept.isInt
  change ((s.cache.ensureSequence seqId).2.sequence id).blocks ≠ [] → _
  rw [PagedKVCache.ensureSequence_sequence]
  exact kept.held id low

theorem admitHead_held {s : ContinuousBatchScheduler Elem} (seqId : Int) (rest : List Int)
    (record : SeqState) (kept : s.Held) (admissible : s.Admissible seqId rest record) :
    (s.admitHead seqId rest record).Held := by
  refine ⟨?_, ?_, fun id member => ?_, fun id low => ?_⟩
  · rw [admitHead_cache]
    exact PagedKVCache.reserveSequence_owned s.cache seqId _ kept.owned
  · rw [admitHead_cache, (PagedKVCache.reserveSequence_extends s.cache seqId _).blockSize]
    exact kept.isInt
  · have before : id ∈ s.waitingQueue ∨ id ∈ s.activeIds := by
      rw [admissible.head]
      rcases member with waits | runs
      · exact Or.inl (List.mem_cons_of_mem _ waits)
      · rcases List.mem_append.mp runs with old | new
        · exact Or.inr (by simpa using old)
        · exact Or.inl (by rw [List.mem_singleton.mp new]; exact List.mem_cons_self)
    obtain ⟨old, found⟩ := kept.listed id before
    rw [admitHead_state, found]
    split
    · exact ⟨_, rfl⟩
    · exact ⟨_, rfl⟩
  · rw [admitHead_cache]
    intro holds
    change id ∈ s.activeIds ++ [seqId]
    by_cases same : id = seqId
    · exact List.mem_append_right _ (by rw [same]; exact List.mem_singleton_self _)
    · rw [PagedKVCache.reserveSequence_others s.cache seqId id _ low same] at holds
      exact List.mem_append_left _ (kept.held id low holds)

theorem evictFinished_eq {s : ContinuousBatchScheduler Elem}
    (listed : ∀ id ∈ s.activeIds, ∃ record, s.state id = some record) :
    s.evictFinished =
      { s with
        activeIds := s.activeIds.filter fun id => !s.isFinished id
        cache := freeAll (s.activeIds.filter s.isFinished) s.cache } := by
  unfold evictFinished
  rw [evictFrom_eq s s.activeIds s.cache listed]

theorem evictFinished_held {s : ContinuousBatchScheduler Elem} (kept : s.Held) :
    s.evictFinished.Held := by
  rw [evictFinished_eq fun id member => kept.listed id (Or.inr member)]
  refine ⟨freeAll_owned _ _ kept.owned, by rw [(freeAll_geometry _ _).1]; exact kept.isInt,
    fun id member => ?_, fun id low => ?_⟩
  · refine kept.listed id ?_
    rcases member with waits | runs
    · exact Or.inl waits
    · exact Or.inr (List.mem_filter.mp runs).1
  · dsimp only
    rw [freeAll_sequence _ _ id low]
    split
    · exact fun holds => absurd rfl holds
    · next stays =>
        intro holds
        have runs := kept.held id low holds
        rw [List.mem_filter] at stays ⊢
        exact ⟨runs, by simpa [runs] using stays⟩

theorem collectFinished_held {s : ContinuousBatchScheduler Elem} (kept : s.Held) :
    s.collectFinished.2.Held := by
  refine ⟨kept.owned, kept.isInt, fun id member => ?_, kept.held⟩
  obtain ⟨record, found⟩ := kept.listed id member
  exact ⟨_, by rw [collectFinished_state, found]; rfl⟩

theorem step_held [Zero Elem] {s : ContinuousBatchScheduler Elem} (op : Op Elem) (kept : s.Held)
    (own : op.Own) : (s.step op).Held := by
  cases op with
  | submit request => exact submit_held request kept
  | admitWaiting =>
      exact admitWaiting_rule Held s kept (fun s seqId => ensureSequence_held seqId)
        fun s seqId rest record => admitHead_held seqId rest record
  | markPrefillProgress id _ | markTokenGenerated id _ | markFinished id =>
      exact modifyState_held id _ kept
  | evictFinished => exact evictFinished_held kept
  | collectFinished => exact collectFinished_held kept
  | cacheCall op => exact own.elim

theorem start_held [Zero Elem] (start : PagedKVCache.Empty Elem) (config : Config) :
    Held { cache := start.cache, config := config } := by
  refine ⟨PagedKVCache.runs_owned start.calls, start.isInt, fun id member => ?_,
    fun id _ holds => ?_⟩
  · rcases member with waits | runs
    · exact absurd waits List.not_mem_nil
    · exact absurd runs List.not_mem_nil
  · exact absurd (PagedKVCache.blocks_of_tables start.tables id) holds

theorem runs_held [Zero Elem] (start : PagedKVCache.Empty Elem) (config : Config)
    (ops : List (Op Elem)) (own : ∀ op ∈ ops, op.Own) : (runs start.cache config ops).Held := by
  exact Machine.guarded_invariant step (fun _ op => op.Own) Held
    (fun _ op kept own => step_held op kept own) _ ops (start_held start config)
    (Machine.guarded_of_forall step Op.Own _ ops own)

/-- No idle sequence holds a block, so an idle scheduler has the whole cache. -/
theorem Held.allFree {s : ContinuousBatchScheduler Elem} (kept : s.Held) (idle : s.activeIds = []) :
    s.cache.freeBlockCount = s.cache.maxBlocks := by
  refine kept.owned.allFree (PagedKVCache.tables_of_blocks fun id low => ?_)
  by_contra holds
  have runs := kept.held id low holds
  rw [idle] at runs
  exact absurd runs List.not_mem_nil

/-- After every call, failed ones included, a sequence with blocks is active, and
an idle scheduler has given every block back. -/
theorem block_leak_freedom [Zero Elem] (start : PagedKVCache.Empty Elem) (config : Config)
    (ops : List (Op Elem)) (own : ∀ op ∈ ops, op.Own) :
    (∀ id table, (runs start.cache config ops).cache.blockTable id = some table → table ≠ [] →
      id ∈ (runs start.cache config ops).activeIds) ∧
    ((runs start.cache config ops).activeIds = [] →
      (runs start.cache config ops).cache.freeBlockCount =
        (runs start.cache config ops).cache.maxBlocks) := by
  have kept := runs_held start config ops own
  refine ⟨fun id table found holds => ?_, kept.allFree⟩
  unfold PagedKVCache.blockTable at found
  split at found
  · simp at found
  · next knows =>
      obtain rfl := Option.some.inj found
      have low : 0 ≤ id := by simp [PagedKVCache.known] at knows; exact knows.1
      exact kept.held id low holds

-- One block of four tokens.
def oneBlock : PagedKVCache.Empty Nat := ⟨[.init 1 1 1 4 1], by decide, by decide⟩

def drained : List (Op Nat) :=
  [.submit { promptTokens := [1], maxTokens := 2 }, .admitWaiting, .markFinished 0, .evictFinished]

theorem block_leak_freedom_drained :
    (runs oneBlock.cache {} drained).cache.freeBlockCount =
      (runs oneBlock.cache {} drained).cache.maxBlocks :=
  (block_leak_freedom oneBlock {} drained (by simp [drained, Op.Own])).2 (by decide)

end Holders

section Progress

/-- The call makes a waiting request active or reports an error. -/
def Progresses (s : ContinuousBatchScheduler Elem) : Prop :=
  (∃ id ∈ s.waitingQueue, id ∉ s.activeIds ∧ id ∈ s.admitWaiting.2.activeIds) ∨
    ∃ st, s.admitWaiting.1 = some st ∧ st.isOk = false

/-- The 32-bit sum of the head's prompt length and token limit is not negative, and
it is at most the tokens the cache can hold or so large that rounding it up to a
block overflows. -/
def HeadFits (s : ContinuousBatchScheduler Elem) : Prop :=
  ∀ id rest record, s.waitingQueue = id :: rest → s.state id = some record →
    0 ≤ wrap32 (record.promptTokens.length + record.maxTokens) ∧
      (wrap32 (record.promptTokens.length + record.maxTokens) ≤
          s.cache.maxBlocks * s.cache.blockSize ∨
        2147483648 < wrap32 (record.promptTokens.length + record.maxTokens) + s.cache.blockSize)

theorem totalTokens_eq (record : SeqState) :
    totalTokens record = wrap32 (record.promptTokens.length + record.maxTokens) := by
  unfold totalTokens wrap32
  omega

theorem admitLoop_active (queue : List Int) (s : ContinuousBatchScheduler Elem)
    (same : s.waitingQueue = queue) {id : Int} (isActive : id ∈ s.activeIds) :
    id ∈ (admitLoop queue s).2.activeIds :=
  admitLoop_rule (fun after => id ∈ after.activeIds) queue s same isActive (fun _ _ kept => kept)
    fun _ _ _ _ kept _ => List.mem_append_left _ (by simpa using kept)

/-- With every block free the head's blocks are there when its sum fits. -/
theorem Held.headFits_iff {s : ContinuousBatchScheduler Elem} (kept : s.Held) {id : Int}
    {rest : List Int} {record : SeqState} (queue : s.waitingQueue = id :: rest)
    (found : s.state id = some record) (ready : s.cache.initialized = true)
    (blocks : (s.cache.sequence id).blocks = [])
    (free : s.cache.freeBlockCount = s.cache.maxBlocks) :
    s.HeadFits ↔ (s.cache.reserveSequence id (totalTokens record)).1.isOk = true := by
  have low := state_low found
  have positive : 0 < s.cache.blockSize := by
    simp [PagedKVCache.initialized] at ready
    exact ready.1
  have isInt := wrap32_lt (record.promptTokens.length + record.maxTokens)
  have room : s.cache.missingBlocks id (totalTokens record) ≤ s.cache.freeBlocks.length ↔
      s.cache.neededBlocks (totalTokens record) ≤ s.cache.maxBlocks := by
    have count : s.cache.freeBlocks.length = s.cache.maxBlocks := free
    simp [PagedKVCache.missingBlocks, blocks, count]
  constructor
  · intro fits
    obtain ⟨nonneg, bounded⟩ := fits id rest record queue found
    rw [← totalTokens_eq] at nonneg bounded isInt
    have needed := (PagedKVCache.neededBlocks_le_iff s.cache _ _ positive kept.isInt nonneg isInt).mpr
      bounded
    rw [PagedKVCache.reserveSequence_succeeds s.cache id _ ready low nonneg (room.mpr needed)]
    rfl
  · intro reserved other rest' record' queue' found'
    rw [queue] at queue'
    obtain ⟨rfl, rfl⟩ := List.cons.inj queue'
    obtain rfl := Option.some.inj (found.symm.trans found')
    obtain ⟨_, nonneg, fits, _⟩ := PagedKVCache.reserveSequence_ok s.cache id _ reserved
    rw [← totalTokens_eq] at isInt ⊢
    exact ⟨nonneg, (PagedKVCache.neededBlocks_le_iff s.cache _ _ positive kept.isInt nonneg isInt).mp
      (room.mp fits)⟩

theorem Held.progress_iff {s : ContinuousBatchScheduler Elem} (kept : s.Held)
    (positive : 0 < s.config.maxBatchSize) (idle : s.activeIds = [])
    (free : s.cache.freeBlockCount = s.cache.maxBlocks) (waits : s.waitingQueue ≠ []) :
    s.Progresses ↔ s.cache.initialized = false ∨ s.HeadFits := by
  obtain ⟨id, rest, queue⟩ := List.exists_cons_of_ne_nil waits
  obtain ⟨record, found⟩ := kept.listed id (Or.inl (by rw [queue]; exact List.mem_cons_self))
  have low := state_low found
  have blocks : (s.cache.sequence id).blocks = [] := by
    by_contra holds
    have runs := kept.held id low holds
    rw [idle] at runs
    exact absurd runs List.not_mem_nil
  have loop : s.admitWaiting = admitLoop (id :: rest) s := by
    rw [admitWaiting, if_neg (by omega), queue]
  have room : ¬ wrap32 s.activeIds.length ≥ s.config.maxBatchSize := by
    rw [idle]
    change ¬ wrap32 0 ≥ _
    rw [wrap32_eq 0 (by decide) (by decide)]
    omega
  rw [admitLoop_cons, if_neg room, found] at loop
  dsimp only at loop
  by_cases ready : s.cache.initialized = true
  · have ensured := PagedKVCache.ensureSequence_succeeds s.cache id ready low
    rw [if_neg (by simp [ensured])] at loop
    have fits := kept.headFits_iff queue found ready blocks free
    by_cases reserved : (s.cache.reserveSequence id (totalTokens record)).1.isOk = true
    · rw [if_pos reserved] at loop
      have admitted : s.Progresses := by
        refine Or.inl ⟨id, by rw [queue]; exact List.mem_cons_self, by rw [idle]; simp, ?_⟩
        rw [loop]
        exact admitLoop_active rest _ rfl (List.mem_append_right _ (List.mem_singleton_self id))
      exact ⟨fun _ => Or.inr (fits.mpr reserved), fun _ => admitted⟩
    · rw [if_neg reserved] at loop
      have stuck : ¬ s.Progresses := by
        rintro (⟨other, _, _, runs⟩ | ⟨st, same, bad⟩)
        · rw [loop] at runs
          change other ∈ s.activeIds at runs
          rw [idle] at runs
          exact absurd runs List.not_mem_nil
        · rw [loop] at same
          obtain rfl := Option.some.inj same
          simp at bad
      refine ⟨fun progress => absurd progress stuck, fun condition => ?_⟩
      rcases condition with off | head
      · simp [ready] at off
      · exact absurd (fits.mp head) reserved
  · have refused : (s.cache.ensureSequence id).1.isOk = false := by
      simp [PagedKVCache.ensureSequence, ready]
    rw [if_pos refused] at loop
    have failed : s.Progresses := Or.inr ⟨_, by rw [loop], refused⟩
    exact ⟨fun _ => Or.inl (by simpa using ready), fun _ => failed⟩

theorem runs_config [Zero Elem] (cache : PagedKVCache Elem) (config : Config)
    (ops : List (Op Elem)) : (runs cache config ops).config = config :=
  Machine.run_invariant step (fun s => s.config = config)
    (fun s op kept => (step_config s op).trans kept) _ ops rfl

/-- In every state a run reaches with no active sequence, every block free and a
request waiting, `admit_waiting` admits a request or reports an error exactly when
the cache is not initialized or the head's tokens fit the cache. -/
theorem admission_progress [Zero Elem] (start : PagedKVCache.Empty Elem) (config : Config)
    (positive : 0 < config.maxBatchSize) (ops : List (Op Elem)) (own : ∀ op ∈ ops, op.Own)
    (idle : (runs start.cache config ops).activeIds = [])
    (free : (runs start.cache config ops).cache.freeBlockCount =
      (runs start.cache config ops).cache.maxBlocks)
    (waits : (runs start.cache config ops).waitingQueue ≠ []) :
    (runs start.cache config ops).Progresses ↔
      (runs start.cache config ops).cache.initialized = false ∨
        (runs start.cache config ops).HeadFits :=
  (runs_held start config ops own).progress_iff (by rw [runs_config]; exact positive) idle free waits

theorem admission_progress_oneToken :
    (runs oneBlock.cache {} [.submit { promptTokens := [1], maxTokens := 2 }]).Progresses ↔
      (runs oneBlock.cache {} [.submit { promptTokens := [1], maxTokens := 2 }]).cache.initialized =
          false ∨
        (runs oneBlock.cache {} [.submit { promptTokens := [1], maxTokens := 2 }]).HeadFits :=
  admission_progress oneBlock {} (by decide) [.submit { promptTokens := [1], maxTokens := 2 }]
    (by simp [Op.Own]) (by decide) (by decide) (by decide)

-- A request of nine tokens for a cache of four.
def tooLong : List (Op Nat) := [.submit { promptTokens := [1], maxTokens := 8 }]

/-- The request is accepted; with the whole cache free it is neither admitted nor
reported. -/
theorem accepted_request_blocks :
    (∀ op ∈ tooLong, op.Own) ∧
      (({ cache := oneBlock.cache, config := {} } : ContinuousBatchScheduler Nat).submit
        { promptTokens := [1], maxTokens := 8 }).1 = .makeOk ∧
      (runs oneBlock.cache {} tooLong).activeIds = [] ∧
      (runs oneBlock.cache {} tooLong).cache.freeBlockCount =
        (runs oneBlock.cache {} tooLong).cache.maxBlocks ∧
      (runs oneBlock.cache {} tooLong).waitingQueue = [0] ∧
      ¬ (runs oneBlock.cache {} tooLong).Progresses := by
  refine ⟨by simp [tooLong, Op.Own], by decide, by decide, by decide, by decide, ?_⟩
  rintro (⟨id, _, _, admitted⟩ | ⟨st, same, bad⟩)
  · have none : (runs oneBlock.cache {} tooLong).admitWaiting.2.activeIds = [] := by decide
    rw [none] at admitted
    exact absurd admitted List.not_mem_nil
  · have silent : (runs oneBlock.cache {} tooLong).admitWaiting.1 = some .makeOk := by decide
    rw [silent] at same
    obtain rfl := Option.some.inj same
    simp at bad

end Progress

end ContinuousBatchScheduler

end MiniLLM
