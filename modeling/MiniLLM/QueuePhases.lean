import MiniLLM.ContinuousBatchScheduler
import Mathlib.Data.List.Nodup

/-!
The waiting queue, the active list and the phases of the state records. `submit`
looks at a record's id alone to tell whether an id is in use, and
`collect_finished` clears it while the id may still be active. Runs that never
reuse an id in that window keep the queue and the list apart.
-/

namespace MiniLLM.ContinuousBatchScheduler

variable {Elem : Type}

def Waits (s : ContinuousBatchScheduler Elem) (id : Int) : Prop :=
  ∃ record, s.state id = some record ∧ record.sequenceId = id ∧ record.phase = .waiting

def Runs (s : ContinuousBatchScheduler Elem) (id : Int) : Prop :=
  ∃ record, s.state id = some record ∧
    (record.phase = .prefilling ∨ record.phase = .decoding ∨ record.phase = .finished)

/-- The queue and phase invariant. -/
structure Phased (s : ContinuousBatchScheduler Elem) : Prop where
  waitingNodup : s.waitingQueue.Nodup
  activeNodup : s.activeIds.Nodup
  disjoint : ∀ id ∈ s.waitingQueue, id ∉ s.activeIds
  batch : (s.activeIds.length : Int) ≤ s.config.maxBatchSize
  waiting : ∀ id ∈ s.waitingQueue, s.Waits id
  active : ∀ id ∈ s.activeIds, s.Runs id

/-- The request takes an id that is still active although its record has been
collected. -/
def TakesActiveId (s : ContinuousBatchScheduler Elem) (request : SequenceRequest) : Prop :=
  s.chosenId request ∈ s.activeIds ∧
    ∀ record, s.state (s.chosenId request) = some record → record.sequenceId < 0

/-- Marks name active ids, and no request takes an id in the window between its
collection and its eviction. -/
def Orderly (s : ContinuousBatchScheduler Elem) (op : Op Elem) : Prop :=
  s.MarksActive op ∧ ∀ request, op = .submit request → ¬ s.TakesActiveId request

/-- The invariant without the batch bound. -/
structure Queued (s : ContinuousBatchScheduler Elem) : Prop where
  waitingNodup : s.waitingQueue.Nodup
  activeNodup : s.activeIds.Nodup
  disjoint : ∀ id ∈ s.waitingQueue, id ∉ s.activeIds
  waiting : ∀ id ∈ s.waitingQueue, s.Waits id
  active : ∀ id ∈ s.activeIds, s.Runs id

/-- It reads the lists and the records. -/
theorem Queued.congr {before after : ContinuousBatchScheduler Elem} (queued : before.Queued)
    (waiting : after.waitingQueue = before.waitingQueue)
    (active : after.activeIds = before.activeIds)
    (states : ∀ id record, before.state id = some record → after.state id = some record) :
    after.Queued := by
  constructor
  · rw [waiting]; exact queued.waitingNodup
  · rw [active]; exact queued.activeNodup
  · rw [waiting, active]; exact queued.disjoint
  · intro id member
    rw [waiting] at member
    obtain ⟨record, found, rest⟩ := queued.waiting id member
    exact ⟨record, states id record found, rest⟩
  · intro id member
    rw [active] at member
    obtain ⟨record, found, rest⟩ := queued.active id member
    exact ⟨record, states id record found, rest⟩

theorem submit_queued {s : ContinuousBatchScheduler Elem} (request : SequenceRequest)
    (queued : s.Queued) (orderly : ¬ s.TakesActiveId request) : (s.submit request).2.Queued := by
  rcases submit_cases s request with ⟨_, waiting, active, _, _, states⟩ | ⟨_, submits⟩
  · exact queued.congr waiting active states
  · have inactive : s.chosenId request ∉ s.activeIds := fun member =>
      orderly ⟨member, submits.released⟩
    have fresh : s.chosenId request ∉ s.waitingQueue := by
      intro member
      obtain ⟨record, found, same, _⟩ := queued.waiting _ member
      have released := submits.released record found
      have low := submits.low
      omega
    constructor
    · rw [submits.waiting]
      exact List.nodup_append.mpr ⟨queued.waitingNodup, List.nodup_singleton _, by
        intro a member b last
        rw [List.mem_singleton.mp last]
        exact fun same => fresh (same ▸ member)⟩
    · rw [submits.active]; exact queued.activeNodup
    · intro id member
      rw [submits.waiting, List.mem_append, List.mem_singleton] at member
      rw [submits.active]
      rcases member with old | rfl
      · exact queued.disjoint id old
      · exact inactive
    · intro id member
      rw [submits.waiting, List.mem_append, List.mem_singleton] at member
      rcases member with old | rfl
      · obtain ⟨record, found, rest⟩ := queued.waiting id old
        exact ⟨record, submits.others id record (fun same => fresh (same ▸ old)) found, rest⟩
      · exact ⟨_, submits.fresh, rfl, rfl⟩
    · intro id member
      rw [submits.active] at member
      obtain ⟨record, found, rest⟩ := queued.active id member
      exact ⟨record, submits.others id record (fun same => inactive (same ▸ member)) found, rest⟩

theorem setCache_queued {s : ContinuousBatchScheduler Elem} (cache : PagedKVCache Elem)
    (queued : s.Queued) : Queued { s with cache := cache } :=
  queued.congr rfl rfl fun _ _ found => found

/-- Moving the head of the queue to the end of the active list. -/
theorem activate_queued {s : ContinuousBatchScheduler Elem} (seqId : Int) (rest : List Int)
    (record : SeqState) (queued : s.Queued) (head : s.waitingQueue = seqId :: rest)
    (found : s.state seqId = some record) : (s.activate seqId rest).Queued := by
  have isWaiting : seqId ∈ s.waitingQueue := by rw [head]; exact List.mem_cons_self
  have inactive := queued.disjoint seqId isWaiting
  have distinct := queued.waitingNodup
  rw [head, List.nodup_cons] at distinct
  have states : ∀ id, (s.activate seqId rest).state id =
      if id = seqId then (s.state id).map fun record => { record with phase := .prefilling }
      else s.state id := fun id => modifyState_state s seqId id _
  constructor
  · exact distinct.2
  · exact List.nodup_append.mpr ⟨queued.activeNodup, List.nodup_singleton _, by
      intro a member b last
      rw [List.mem_singleton.mp last]
      exact fun same => inactive (same ▸ member)⟩
  · intro id member isActive
    rcases List.mem_append.mp isActive with old | new
    · exact queued.disjoint id (by rw [head]; exact List.mem_cons_of_mem _ member) old
    · rw [List.mem_singleton.mp new] at member
      exact distinct.1 member
  · intro id member
    have different : id ≠ seqId := fun same => distinct.1 (same ▸ member)
    obtain ⟨old, lookup, facts⟩ :=
      queued.waiting id (by rw [head]; exact List.mem_cons_of_mem _ member)
    exact ⟨old, by rw [states, if_neg different]; exact lookup, facts⟩
  · intro id member
    by_cases same : id = seqId
    · subst same
      exact ⟨_, by rw [states, if_pos rfl, found]; rfl, Or.inl rfl⟩
    · rcases List.mem_append.mp member with old | new
      · obtain ⟨old, lookup, facts⟩ := queued.active id old
        exact ⟨old, by rw [states, if_neg same]; exact lookup, facts⟩
      · exact absurd (List.mem_singleton.mp new) same

theorem admitWaiting_queued {s : ContinuousBatchScheduler Elem} (queued : s.Queued) :
    s.admitWaiting.2.Queued := by
  unfold admitWaiting
  split
  · exact queued
  · apply admitLoop_preserves Queued s.waitingQueue s rfl queued
    · intro s seqId kept
      exact setCache_queued _ kept
    · intro s seqId total kept
      exact setCache_queued _ kept
    · intro s seqId rest record kept head _ found
      exact activate_queued seqId rest record kept head found

/-- A mark on an active id that leaves it running. -/
theorem mark_queued {s : ContinuousBatchScheduler Elem} (id : Int) (f : SeqState → SeqState)
    (queued : s.Queued) (isActive : id ∈ s.activeIds)
    (keeps : ∀ record, (f record).phase = record.phase ∨ (f record).phase = .decoding ∨
      (f record).phase = .finished) : (s.modifyState id f).Queued := by
  obtain ⟨active, waiting, _⟩ := modifyState_frame s id f
  constructor
  · rw [waiting]; exact queued.waitingNodup
  · rw [active]; exact queued.activeNodup
  · rw [waiting, active]; exact queued.disjoint
  · intro other member
    rw [waiting] at member
    have different : other ≠ id := fun same => queued.disjoint other member (same ▸ isActive)
    obtain ⟨record, found, facts⟩ := queued.waiting other member
    exact ⟨record, by rw [modifyState_state, if_neg different]; exact found, facts⟩
  · intro other member
    rw [active] at member
    obtain ⟨record, found, facts⟩ := queued.active other member
    by_cases same : other = id
    · refine ⟨f record, by rw [modifyState_state, if_pos same, found]; rfl, ?_⟩
      rcases keeps record with kept | decoding | finished
      · rw [kept]; exact facts
      · exact Or.inr (Or.inl decoding)
      · exact Or.inr (Or.inr finished)
    · exact ⟨record, by rw [modifyState_state, if_neg same]; exact found, facts⟩

theorem evictFinished_queued {s : ContinuousBatchScheduler Elem} (queued : s.Queued) :
    s.evictFinished.Queued := by
  have kept : s.evictFinished.activeIds.Sublist s.activeIds :=
    evictFrom_sublist s s.activeIds s.cache
  constructor
  · exact queued.waitingNodup
  · exact queued.activeNodup.sublist kept
  · exact fun id member isActive => queued.disjoint id member (kept.subset isActive)
  · exact queued.waiting
  · exact fun id member => queued.active id (kept.subset member)

theorem collectFinished_queued {s : ContinuousBatchScheduler Elem} (queued : s.Queued) :
    s.collectFinished.2.Queued := by
  constructor
  · exact queued.waitingNodup
  · exact queued.activeNodup
  · exact queued.disjoint
  · intro id member
    obtain ⟨record, found, same, phase⟩ := queued.waiting id member
    have stays : collectible record = false := by simp [collectible, phase]
    exact ⟨record, by rw [collectFinished_state, found]; simp [stays], same, phase⟩
  · intro id member
    obtain ⟨record, found, facts⟩ := queued.active id member
    refine ⟨_, by rw [collectFinished_state, found]; rfl, ?_⟩
    dsimp only
    split
    · exact facts
    · exact facts

theorem step_queued [Zero Elem] {s : ContinuousBatchScheduler Elem} (op : Op Elem)
    (queued : s.Queued) (orderly : s.Orderly op) : (s.step op).Queued := by
  obtain ⟨marks, fresh⟩ := orderly
  cases op with
  | submit request => exact submit_queued request queued (fresh request rfl)
  | admitWaiting => exact admitWaiting_queued queued
  | markPrefillProgress id count =>
      apply mark_queued id _ queued marks
      intro record
      dsimp only
      split <;> simp
  | markTokenGenerated id token =>
      apply mark_queued id _ queued marks
      intro record
      dsimp only
      split <;> simp
  | markFinished id => exact mark_queued id _ queued marks fun _ => Or.inr (Or.inr rfl)
  | evictFinished => exact evictFinished_queued queued
  | collectFinished => exact collectFinished_queued queued
  | cacheCall op => exact setCache_queued _ queued

theorem step_config [Zero Elem] (s : ContinuousBatchScheduler Elem) (op : Op Elem) :
    (s.step op).config = s.config := by
  cases op with
  | submit request =>
      rcases submit_cases s request with rejected | ⟨_, submits⟩
      · exact rejected.2.2.2.1
      · exact submits.config
  | admitWaiting =>
      change s.admitWaiting.2.config = s.config
      unfold admitWaiting
      split
      · rfl
      · apply admitLoop_preserves (fun after => after.config = s.config) _ _ rfl rfl
        · exact fun _ _ kept => kept
        · exact fun _ _ _ kept => kept
        · exact fun after id _ _ kept _ _ _ => (modifyState_frame after id _).2.2.trans kept
  | markPrefillProgress id _ | markTokenGenerated id _ | markFinished id =>
      exact (modifyState_frame s id _).2.2
  | evictFinished | collectFinished | cacheCall => rfl

/-- Admission stops at the batch size; no other call lengthens the active list. -/
theorem step_batch [Zero Elem] {s : ContinuousBatchScheduler Elem} (op : Op Elem)
    (batch : (s.activeIds.length : Int) ≤ s.config.maxBatchSize) :
    ((s.step op).activeIds.length : Int) ≤ (s.step op).config.maxBatchSize := by
  rw [step_config]
  cases op with
  | submit request =>
      rcases submit_cases s request with ⟨_, _, active, _⟩ | ⟨_, submits⟩
      · change ((s.submit request).2.activeIds.length : Int) ≤ _
        rw [active]
        exact batch
      · change ((s.submit request).2.activeIds.length : Int) ≤ _
        rw [submits.active]
        exact batch
  | admitWaiting =>
      have kept : s.admitWaiting.2.config = s.config := step_config s .admitWaiting
      change (s.admitWaiting.2.activeIds.length : Int) ≤ _
      rw [← kept]
      unfold admitWaiting
      split
      · exact batch
      · apply admitLoop_preserves
          (fun after => (after.activeIds.length : Int) ≤ after.config.maxBatchSize) _ s rfl batch
        · exact fun _ _ kept => kept
        · exact fun _ _ _ kept => kept
        · intro s seqId rest record bound _ room _
          have config : (s.activate seqId rest).config = s.config := (modifyState_frame s seqId _).2.2
          have int := s.config.isInt
          have exactSize : wrap32 s.activeIds.length = s.activeIds.length :=
            wrap32_eq _ (by omega) (by omega)
          rw [exactSize] at room
          rw [config]
          simp only [activate, List.length_append, List.length_singleton]
          omega
  | markPrefillProgress id _ | markTokenGenerated id _ | markFinished id =>
      change ((s.modifyState id _).activeIds.length : Int) ≤ _
      rw [(modifyState_frame s id _).1]
      exact batch
  | evictFinished =>
      have shorter := (evictFrom_sublist s s.activeIds s.cache).length_le
      change ((evictFrom s s.activeIds s.cache).1.length : Int) ≤ _
      omega
  | collectFinished | cacheCall => exact batch

theorem Phased.queued {s : ContinuousBatchScheduler Elem} (phased : s.Phased) : s.Queued :=
  ⟨phased.waitingNodup, phased.activeNodup, phased.disjoint, phased.waiting, phased.active⟩

theorem step_phased [Zero Elem] {s : ContinuousBatchScheduler Elem} (op : Op Elem)
    (phased : s.Phased) (orderly : s.Orderly op) : (s.step op).Phased := by
  have queued := step_queued op phased.queued orderly
  exact ⟨queued.waitingNodup, queued.activeNodup, queued.disjoint, step_batch op phased.batch,
    queued.waiting, queued.active⟩

theorem start_queued (cache : PagedKVCache Elem) (config : Config) :
    Queued { cache := cache, config := config } := by
  constructor
  · exact List.nodup_nil
  · exact List.nodup_nil
  · exact fun _ member => absurd member List.not_mem_nil
  · exact fun _ member => absurd member List.not_mem_nil
  · exact fun _ member => absurd member List.not_mem_nil

theorem start_phased (cache : PagedKVCache Elem) (config : Config)
    (nonneg : 0 ≤ config.maxBatchSize) :
    Phased { cache := cache, config := config } := by
  have queued := start_queued cache config
  exact ⟨queued.waitingNodup, queued.activeNodup, queued.disjoint, by simpa using nonneg,
    queued.waiting, queued.active⟩

theorem runs_phased [Zero Elem] (cache : PagedKVCache Elem) (config : Config)
    (nonneg : 0 ≤ config.maxBatchSize) (ops : List (Op Elem))
    (orderly : Machine.Guarded step Orderly { cache := cache, config := config } ops) :
    (runs cache config ops).Phased :=
  Machine.guarded_invariant step Orderly Phased (fun _ op phased => step_phased op phased)
    _ ops (start_phased cache config nonneg) orderly

/-- Runs in which no request takes an id between its collection and its eviction
keep the queue and the active list duplicate-free and apart, the batch within its
bound, and every record in the phase of the list its id is in. -/
theorem queue_phase_invariant [Zero Elem] (cache : PagedKVCache Elem) (config : Config)
    (nonneg : 0 ≤ config.maxBatchSize) (ops : List (Op Elem))
    (orderly : Machine.Guarded step Orderly { cache := cache, config := config } ops) :
    (runs cache config ops).waitingQueue.Nodup ∧ (runs cache config ops).activeIds.Nodup ∧
      (∀ id ∈ (runs cache config ops).waitingQueue, id ∉ (runs cache config ops).activeIds) ∧
      ((runs cache config ops).activeIds.length : Int) ≤ config.maxBatchSize ∧
      (∀ id ∈ (runs cache config ops).waitingQueue, ∃ record,
        (runs cache config ops).state id = some record ∧ record.sequenceId = id ∧
          record.phase = .waiting) ∧
      ∀ id ∈ (runs cache config ops).activeIds, ∃ record,
        (runs cache config ops).state id = some record ∧
          (record.phase = .prefilling ∨ record.phase = .decoding ∨ record.phase = .finished) := by
  have phased := runs_phased cache config nonneg ops orderly
  have same : (runs cache config ops).config = config :=
    Machine.run_invariant step (fun s => s.config = config)
      (fun s op kept => (step_config s op).trans kept) _ ops rfl
  have batch := phased.batch
  rw [same] at batch
  exact ⟨phased.waitingNodup, phased.activeNodup, phased.disjoint, batch, phased.waiting,
    phased.active⟩

section Window

def request : SequenceRequest := { sequenceId := 0, promptTokens := [1], maxTokens := 1 }

def smallCache : PagedKVCache Nat := (PagedKVCache.init {} 1 1 1 1 4).2

theorem queue_phase_invariant_admitted :
    (runs smallCache {} [.submit request, .admitWaiting]).activeIds.Nodup :=
  (queue_phase_invariant smallCache {} (by decide) [.submit request, .admitWaiting]
    ⟨⟨trivial, fun _ _ takes => absurd takes.1 List.not_mem_nil⟩,
      ⟨trivial, fun _ other => by cases other⟩, trivial⟩).2.1

/-- Collected before it is evicted, an id is accepted again while it is active. -/
def collectThenResubmit : List (Op Nat) :=
  [.submit request, .admitWaiting, .markFinished 0, .collectFinished, .submit request]

theorem resubmitted_while_active :
    Machine.Guarded step MarksActive { cache := smallCache, config := {} } collectThenResubmit ∧
      0 ∈ (runs smallCache {} collectThenResubmit).waitingQueue ∧
      0 ∈ (runs smallCache {} collectThenResubmit).activeIds ∧
      ¬ ∃ record, (runs smallCache {} collectThenResubmit).state 0 = some record ∧
        (record.phase = .prefilling ∨ record.phase = .decoding ∨ record.phase = .finished) := by
  refine ⟨⟨trivial, trivial, ?_, trivial, trivial, trivial⟩, by decide, by decide, ?_⟩
  · change (0 : Int) ∈ (runs smallCache {} [.submit request, .admitWaiting]).activeIds
    decide
  · rintro ⟨record, found, phase⟩
    have waits : (runs smallCache {} collectThenResubmit).state 0 =
        some { sequenceId := 0, promptTokens := [1], maxTokens := 1 } := by decide
    rw [waits, Option.some.injEq] at found
    subst found
    simp at phase

end Window

end MiniLLM.ContinuousBatchScheduler
