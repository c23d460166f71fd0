import MiniLLM.SequenceLifecycle
import Mathlib.Data.List.Induction

/-!
What the scheduler's callers get back. An accepted request is delivered when
`collect_finished` returns an output for its id before the id is accepted or
delivered again. Every output is the delivery of one accepted request; requests
become active in the order they were accepted; and once everything active is
finished and nothing waits, a collection leaves no request undelivered.
-/

namespace MiniLLM.ContinuousBatchScheduler

variable {Elem : Type}

/-- The id is neither accepted nor delivered by the call. -/
def Passes (id : Int) (s : ContinuousBatchScheduler Elem) (op : Op Elem) : Prop :=
  ¬ s.Accepts op id ∧ ¬ s.Delivers op id

/-- The request accepted after the calls `first` is delivered by the collection
after the calls `between`. -/
structure DeliveryOf [Zero Elem] (cache : PagedKVCache Elem) (config : Config)
    (first : List (Op Elem)) (request : SequenceRequest) (between : List (Op Elem))
    (output : SequenceOutput) : Prop where
  accepted : ((runs cache config first).submit request).1 = .makeOk
  undelivered : Machine.Guarded step (Passes ((runs cache config first).chosenId request))
    (runs cache config (first ++ [.submit request])) between
  returned : output ∈ (runs cache config (first ++ .submit request :: between)).collectFinished.1
  sequenceId : output.sequenceId = (runs cache config first).chosenId request
  promptTokens : output.promptTokens = request.promptTokens
  generatedTokens : output.generatedTokens =
    marked ((runs cache config first).chosenId request) between
  finished : output.finished = true

section Outputs

/-- An id with an uncollected record is not accepted. -/
theorem Uncollected.notAccepted {s : ContinuousBatchScheduler Elem} {id : Int} {record : SeqState}
    (uncollected : s.Uncollected id record) (op : Op Elem) : ¬ s.Accepts op id := by
  rintro ⟨request, rfl, fine, rfl⟩
  rcases submit_cases s request with ⟨bad, _⟩ | ⟨_, submits⟩
  · rw [fine] at bad
    simp at bad
  · have released := submits.released record uncollected.1
    have nonneg := uncollected.2
    omega

/-- Every uncollected record belongs to the last request accepted under its id. -/
theorem uncollected_born [Zero Elem] (cache : PagedKVCache Elem) (config : Config)
    (ops : List (Op Elem)) : ∀ id record, (runs cache config ops).Uncollected id record →
    ∃ first request between, ops = first ++ .submit request :: between ∧
      ((runs cache config first).submit request).1 = .makeOk ∧
      (runs cache config first).chosenId request = id ∧
      Machine.Guarded step (Passes id) (runs cache config (first ++ [.submit request])) between := by
  induction ops using List.reverseRecOn with
  | nil =>
      rintro id record ⟨found, _⟩
      simp [runs, Machine.run, state] at found
  | append_singleton ops op ih =>
      intro id record uncollected
      have last : runs cache config (ops ++ [op]) = (runs cache config ops).step op := by
        unfold runs
        rw [Machine.run_append]
        rfl
      rw [last] at uncollected
      rcases step_origin (runs_named cache config ops) op uncollected with
        ⟨request, rfl, fine, chosen⟩ | ⟨kept, before, old, _⟩
      · exact ⟨ops, request, [], rfl, fine, chosen, trivial⟩
      · obtain ⟨first, request, between, rfl, fine, chosen, passes⟩ := ih id before old
        refine ⟨first, request, between ++ [op], by simp, fine, chosen, ?_⟩
        rw [Machine.guarded_append]
        refine ⟨passes, ⟨?_, trivial⟩⟩
        rw [← (runs_accepted cache config first request fine).2 between]
        exact ⟨old.notAccepted op, kept⟩

/-- While a request is undelivered its id is not accepted again. -/
theorem life_passes [Zero Elem] {s : ContinuousBatchScheduler Elem} (named : s.Named) {id : Int}
    {record : SeqState} (uncollected : s.Uncollected id record) (ops : List (Op Elem))
    (kept : Machine.Guarded step (fun s op => ¬ s.Delivers op id) s ops) :
    Machine.Guarded step (Passes id) s ops := by
  induction ops generalizing s record with
  | nil => trivial
  | cons op rest ih =>
      obtain ⟨next, there, _⟩ := step_moves named op uncollected kept.1
      exact ⟨⟨uncollected.notAccepted op, kept.1⟩, ih (step_named op named) there kept.2⟩

/-- The first output for the id after an acceptance is the delivery of the request. -/
theorem first_output_delivers [Zero Elem] (cache : PagedKVCache Elem) (config : Config)
    (first between : List (Op Elem)) (request : SequenceRequest) (output : SequenceOutput)
    (accepted : ((runs cache config first).submit request).1 = .makeOk)
    (kept : Machine.Guarded step
      (fun s op => ¬ s.Delivers op ((runs cache config first).chosenId request))
      (runs cache config (first ++ [.submit request])) between)
    (returned : output ∈ (runs cache config (first ++ .submit request :: between)).collectFinished.1)
    (name : output.sequenceId = (runs cache config first).chosenId request) :
    DeliveryOf cache config first request between output := by
  obtain ⟨born, split⟩ := runs_accepted cache config first request accepted
  have named := runs_named cache config (first ++ [.submit request])
  obtain ⟨after, last, continues, _⟩ := life_moves named born between kept
  rw [← split between] at last
  obtain ⟨id, record, uncollected, _, rfl⟩ := mem_collectFinished.mp returned
  have place := runs_named cache config (first ++ .submit request :: between) id record uncollected
  have same : id = (runs cache config first).chosenId request := place.symm.trans name
  subst same
  obtain rfl := Option.some.inj (last.1.symm.trans uncollected.1)
  exact ⟨accepted, life_passes named born between kept, returned, name, continues.promptTokens,
    continues.generatedTokens, rfl⟩

/-- Every output of a collection is the delivery of an accepted request. -/
theorem output_delivers [Zero Elem] (cache : PagedKVCache Elem) (config : Config)
    (before : List (Op Elem)) (output : SequenceOutput)
    (returned : output ∈ (runs cache config before).collectFinished.1) :
    ∃ first request between, before = first ++ .submit request :: between ∧
      DeliveryOf cache config first request between output := by
  obtain ⟨id, record, uncollected, _, rfl⟩ := mem_collectFinished.mp returned
  have name := runs_named cache config before id record uncollected
  obtain ⟨first, request, between, rfl, fine, rfl, passes⟩ :=
    uncollected_born cache config before id record uncollected
  have kept := Machine.guarded_mono step _
    (fun s op => ¬ s.Delivers op ((runs cache config first).chosenId request))
    (fun _ _ passed => passed.2) _ between passes
  exact ⟨first, request, between, rfl,
    first_output_delivers cache config first between request _ fine kept returned name⟩

theorem outputs_nodup {s : ContinuousBatchScheduler Elem} (named : s.Named) :
    (s.collectFinished.1.map (·.sequenceId)).Nodup := by
  have place : ∀ index (bound : index < s.states.length), collectible s.states[index] = true →
      (s.states[index]).sequenceId = index := by
    intro index bound ready
    simp only [collectible, Bool.and_eq_true, beq_iff_eq, decide_eq_true_eq] at ready
    exact named index _ ⟨by simp [state, bound], ready.2⟩
  simp only [collectFinished, List.map_map]
  unfold List.Nodup
  rw [List.pairwise_map, List.pairwise_filter, List.pairwise_iff_getElem]
  intro i j boundI boundJ less readyI readyJ same
  have samePlace : (i : Int) = j := by
    rw [← place i boundI readyI, ← place j boundJ readyJ]
    exact same
  omega

/-- One accepted request has one delivery. -/
theorem delivery_unique [Zero Elem] {cache : PagedKVCache Elem} {config : Config}
    {first : List (Op Elem)} {request : SequenceRequest} {between between' later later' : List (Op Elem)}
    {output output' : SequenceOutput}
    (sameRun : between ++ .collectFinished :: later = between' ++ .collectFinished :: later')
    (delivery : DeliveryOf cache config first request between output)
    (delivery' : DeliveryOf cache config first request between' output') :
    between = between' ∧ output = output' := by
  -- A delivery before the other would lie in the calls that deliver nothing.
  have notEarlier : ∀ {short long : List (Op Elem)} {shortOutput longOutput : SequenceOutput}
      {middle : List (Op Elem)}, DeliveryOf cache config first request short shortOutput →
      DeliveryOf cache config first request long longOutput →
      long ≠ short ++ .collectFinished :: middle := by
    intro short long shortOutput longOutput middle early late same
    have passes := late.undelivered
    rw [same, Machine.guarded_append] at passes
    have silent := passes.2.1.2
    rw [← (runs_accepted cache config first request early.accepted).2 short] at silent
    exact silent ⟨rfl, shortOutput, early.returned, early.sequenceId⟩
  have same : between = between' := by
    rcases List.append_eq_append_iff.mp sameRun with ⟨middle, long, rest⟩ | ⟨middle, long, rest⟩
    · cases middle with
      | nil => simpa using long.symm
      | cons op middle =>
          obtain ⟨rfl, _⟩ := List.cons.inj rest
          exact absurd long (notEarlier delivery delivery')
    · cases middle with
      | nil => simpa using long
      | cons op middle =>
          obtain ⟨rfl, _⟩ := List.cons.inj rest
          exact absurd long (notEarlier delivery' delivery)
  subst same
  exact ⟨rfl, List.inj_on_of_nodup_map (outputs_nodup (runs_named cache config _))
    delivery.returned delivery'.returned (delivery.sequenceId.trans delivery'.sequenceId.symm)⟩

end Outputs

section Order

-- Ids a call puts into the queue, and ids it moves to the active list.
def acceptedBy (s : ContinuousBatchScheduler Elem) : Op Elem → List Int
  | .submit request => if (s.submit request).1 = .makeOk then [s.chosenId request] else []
  | _ => []

def admittedBy (s : ContinuousBatchScheduler Elem) : Op Elem → List Int
  | .admitWaiting => s.admitWaiting.2.activeIds.drop s.activeIds.length
  | _ => []

def acceptedIds [Zero Elem] (s : ContinuousBatchScheduler Elem) : List (Op Elem) → List Int
  | [] => []
  | op :: rest => s.acceptedBy op ++ acceptedIds (s.step op) rest

def admittedIds [Zero Elem] (s : ContinuousBatchScheduler Elem) : List (Op Elem) → List Int
  | [] => []
  | op :: rest => s.admittedBy op ++ admittedIds (s.step op) rest

/-- Admission moves the front of the queue to the end of the active list. -/
theorem admitWaiting_moved (s : ContinuousBatchScheduler Elem) :
    s.admitWaiting.2.activeIds = s.activeIds ++ s.admittedBy .admitWaiting ∧
      s.waitingQueue = s.admittedBy .admitWaiting ++ s.admitWaiting.2.waitingQueue := by
  obtain ⟨moved, active, waiting⟩ := admitWaiting_rule
    (fun now => ∃ moved, now.activeIds = s.activeIds ++ moved ∧
      s.waitingQueue = moved ++ now.waitingQueue) s ⟨[], by simp, rfl⟩ (fun _ _ kept => kept) (by
        rintro now seqId rest record ⟨moved, active, waiting⟩ admissible
        refine ⟨moved ++ [seqId], ?_, ?_⟩
        · rw [← List.append_assoc, ← active]
          simp [admitHead, activate]
        · rw [waiting, admissible.head]
          simp [admitHead, activate])
  have same : s.admittedBy .admitWaiting = moved := by simp [admittedBy, active]
  rw [same]
  exact ⟨active, waiting⟩

theorem step_order [Zero Elem] (s : ContinuousBatchScheduler Elem) (op : Op Elem) :
    s.waitingQueue ++ s.acceptedBy op = s.admittedBy op ++ (s.step op).waitingQueue := by
  cases op with
  | submit request =>
      simp only [acceptedBy, admittedBy, List.nil_append, step]
      rcases submit_cases s request with ⟨bad, waiting, _⟩ | ⟨fine, submits⟩
      · have refused : (s.submit request).1 ≠ .makeOk := fun fine => by simp [fine] at bad
        rw [if_neg refused, waiting, List.append_nil]
      · rw [if_pos fine, submits.waiting]
  | admitWaiting =>
      change s.waitingQueue ++ [] = _
      rw [List.append_nil]
      exact (admitWaiting_moved s).2
  | markPrefillProgress id _ | markTokenGenerated id _ | markFinished id =>
      simp [acceptedBy, admittedBy, step, markPrefillProgress, markTokenGenerated, markFinished]
  | evictFinished | collectFinished | cacheCall _ =>
      simp only [acceptedBy, admittedBy, List.append_nil, List.nil_append]
      rfl

theorem run_order [Zero Elem] (s : ContinuousBatchScheduler Elem) (ops : List (Op Elem)) :
    s.waitingQueue ++ s.acceptedIds ops =
      s.admittedIds ops ++ (Machine.run step s ops).waitingQueue := by
  induction ops generalizing s with
  | nil => simp [acceptedIds, admittedIds, Machine.run]
  | cons op rest ih =>
      rw [acceptedIds, admittedIds, ← List.append_assoc, step_order, List.append_assoc, ih,
        ← List.append_assoc]
      rfl

end Order

section Completeness

/-- Marks name active ids; an id given by the caller is not active, and no id is the
largest `int`. -/
def Disciplined (s : ContinuousBatchScheduler Elem) (op : Op Elem) : Prop :=
  s.MarksActive op ∧ ∀ request, op = .submit request →
    s.chosenId request < 2147483647 ∧
      (0 ≤ request.sequenceId → request.sequenceId ∉ s.activeIds)

/-- The ids of the records lie below the next id, so a drawn id is new. -/
def Numbered (s : ContinuousBatchScheduler Elem) : Prop :=
  (s.states.length : Int) ≤ s.nextSequenceId

/-- An uncollected request waits, is active, or is finished. -/
structure Tracked (s : ContinuousBatchScheduler Elem) : Prop where
  queued : s.Queued
  named : s.Named
  numbered : s.Numbered
  listed : ∀ id record, s.Uncollected id record →
    (id ∈ s.waitingQueue ∨ id ∈ s.activeIds) ∨ record.phase = .finished

theorem submit_numbered {s : ContinuousBatchScheduler Elem} {request : SequenceRequest}
    (numbered : s.Numbered) (below : s.chosenId request < 2147483647) :
    (s.submit request).2.Numbered := by
  unfold Numbered at numbered ⊢
  unfold submit
  by_cases empty : request.promptTokens = []
  · simpa [empty] using numbered
  by_cases useless : request.maxTokens ≤ 0
  · simpa [empty, useless] using numbered
  by_cases negative : s.chosenId request < 0
  · exfalso
    unfold chosenId at negative
    split at negative <;> omega
  simp only [empty, useless, negative, if_false]
  have grown : ((resizeStates s.states ((s.chosenId request).toNat + 1)).length : Int) ≤
      if request.sequenceId ≥ 0 ∧ s.chosenId request ≥ s.drawId request then
        wrap32 (s.chosenId request + 1) else s.drawId request := by
    have size : (resizeStates s.states ((s.chosenId request).toNat + 1)).length =
        max s.states.length ((s.chosenId request).toNat + 1) := by
      simp [resizeStates]
      omega
    have next : wrap32 (s.chosenId request + 1) = s.chosenId request + 1 :=
      wrap32_eq _ (by omega) (by omega)
    rw [size, next]
    unfold drawId
    by_cases explicit : request.sequenceId ≥ 0
    · simp only [explicit, true_and, if_true]
      split <;> omega
    · have drawn : s.chosenId request = s.nextSequenceId := if_neg explicit
      rw [drawn] at next ⊢
      simp only [explicit, false_and, if_false]
      omega
  split
  · exact grown
  · simpa using grown

/-- Only `submit` touches the number of records and the next id. -/
theorem step_numbered [Zero Elem] {s : ContinuousBatchScheduler Elem} (op : Op Elem)
    (numbered : s.Numbered) (disciplined : s.Disciplined op) : (s.step op).Numbered := by
  have modified : ∀ id f, Numbered (s.modifyState id f) := by
    intro id f
    unfold modifyState
    split
    · exact numbered
    · simpa [Numbered] using numbered
  cases op with
  | submit request => exact submit_numbered numbered (disciplined.2 request rfl).1
  | admitWaiting =>
      refine admitWaiting_rule Numbered s numbered (fun _ _ kept => kept) ?_
      intro now seqId rest record kept _
      unfold Numbered admitHead activate modifyState
      split
      · exact kept
      · simpa [Numbered] using kept
  | markPrefillProgress id _ | markTokenGenerated id _ | markFinished id => exact modified id _
  | evictFinished | cacheCall _ => exact numbered
  | collectFinished =>
      change (Numbered s.collectFinished.2)
      simpa [Numbered, collectFinished] using numbered

/-- A drawn id has no record, so it is not active. -/
theorem Tracked.orderly {s : ContinuousBatchScheduler Elem} (tracked : s.Tracked) {op : Op Elem}
    (disciplined : s.Disciplined op) : s.Orderly op := by
  refine ⟨disciplined.1, fun request same takes => ?_⟩
  by_cases explicit : request.sequenceId ≥ 0
  · have chosen : s.chosenId request = request.sequenceId := if_pos explicit
    rw [TakesActiveId, chosen] at takes
    exact (disciplined.2 request same).2 explicit takes.1
  · have drawn : s.chosenId request = s.nextSequenceId := if_neg explicit
    obtain ⟨record, found, _⟩ := tracked.queued.active _ takes.1
    have numbered := tracked.numbered
    rw [drawn] at found
    unfold state Numbered at *
    split at found
    · simp at found
    · have bound := (List.getElem?_eq_some_iff.mp found).1
      omega

theorem step_listed [Zero Elem] {s : ContinuousBatchScheduler Elem} (tracked : s.Tracked)
    (op : Op Elem) (disciplined : s.Disciplined op) {id : Int} {record : SeqState}
    (uncollected : (s.step op).Uncollected id record) :
    (id ∈ (s.step op).waitingQueue ∨ id ∈ (s.step op).activeIds) ∨ record.phase = .finished := by
  rcases step_origin tracked.named op uncollected with
    ⟨request, rfl, fine, rfl⟩ | ⟨_, before, old, _⟩
  · rcases submit_cases s request with ⟨bad, _⟩ | ⟨_, submits⟩
    · rw [fine] at bad
      simp at bad
    · left; left
      change _ ∈ (s.submit request).2.waitingQueue
      rw [submits.waiting]
      exact List.mem_append_right _ (List.mem_singleton_self _)
  have listed := tracked.listed id before old
  have modified : ∀ target f, target ∈ s.activeIds →
      (s.modifyState target f).state id = some record →
      (id ∈ (s.modifyState target f).waitingQueue ∨ id ∈ (s.modifyState target f).activeIds) ∨
        record.phase = .finished := by
    intro target f isActive found
    obtain ⟨active, waiting, _⟩ := modifyState_frame s target f
    rw [active, waiting]
    rw [modifyState_state] at found
    by_cases same : id = target
    · exact Or.inl (Or.inr (same ▸ isActive))
    · rw [if_neg same] at found
      obtain rfl := Option.some.inj (old.1.symm.trans found)
      exact listed
  cases op with
  | submit request =>
      obtain rfl := Option.some.inj ((submit_moves request old).1.symm.trans uncollected.1)
      refine listed.imp_left fun member => ?_
      change id ∈ (s.submit request).2.waitingQueue ∨ id ∈ (s.submit request).2.activeIds
      rcases submit_cases s request with ⟨_, waiting, active, _⟩ | ⟨_, submits⟩
      · rw [waiting, active]
        exact member
      · rw [submits.waiting, submits.active]
        exact member.imp_left (List.mem_append_left _)
  | admitWaiting =>
      obtain ⟨active, waiting⟩ := admitWaiting_moved s
      have stays : id ∈ s.waitingQueue ∨ id ∈ s.activeIds →
          id ∈ s.admitWaiting.2.waitingQueue ∨ id ∈ s.admitWaiting.2.activeIds := by
        intro member
        rw [active, List.mem_append]
        rw [waiting, List.mem_append] at member
        rcases member with (moved | waits) | runs
        · exact Or.inr (Or.inr moved)
        · exact Or.inl waits
        · exact Or.inr (Or.inl runs)
      rcases listed with member | finished
      · exact Or.inl (stays member)
      · have found : s.admitWaiting.2.state id = some record := uncollected.1
        rcases admitWaiting_state old.1 with same | ⟨_, waits⟩
        · obtain rfl := Option.some.inj (same.symm.trans found)
          exact Or.inr finished
        · exact Or.inl (stays (Or.inl waits))
  | markPrefillProgress target _ | markTokenGenerated target _ | markFinished target =>
      exact modified target _ disciplined.1 uncollected.1
  | evictFinished =>
      obtain rfl := Option.some.inj (old.1.symm.trans uncollected.1)
      have records : ∀ id ∈ s.activeIds, ∃ record, s.state id = some record := fun id member => by
        obtain ⟨record, found, _⟩ := tracked.queued.active id member
        exact ⟨record, found⟩
      change (id ∈ s.evictFinished.waitingQueue ∨ id ∈ s.evictFinished.activeIds) ∨ _
      rw [evictFinished_eq records]
      rcases listed with (waits | runs) | finished
      · exact Or.inl (Or.inl waits)
      · by_cases done : before.phase = .finished
        · exact Or.inr done
        · refine Or.inl (Or.inr (List.mem_filter.mpr ⟨runs, ?_⟩))
          simp [isFinished, old.1, done]
      · exact Or.inr finished
  | collectFinished =>
      have found : s.collectFinished.2.state id = some record := uncollected.1
      have nonneg := uncollected.2
      rw [collectFinished_state, old.1] at found
      obtain rfl := Option.some.inj found
      by_cases ready : collectible before = true
      · simp [ready] at nonneg
      · dsimp only
        rw [if_neg ready]
        exact listed
  | cacheCall _ =>
      obtain rfl := Option.some.inj (old.1.symm.trans uncollected.1)
      exact listed

theorem step_tracked [Zero Elem] {s : ContinuousBatchScheduler Elem} (op : Op Elem)
    (tracked : s.Tracked) (disciplined : s.Disciplined op) : (s.step op).Tracked :=
  ⟨step_queued op tracked.queued (tracked.orderly disciplined), step_named op tracked.named,
    step_numbered op tracked.numbered disciplined,
    fun _ _ uncollected => step_listed tracked op disciplined uncollected⟩

theorem runs_tracked [Zero Elem] (cache : PagedKVCache Elem) (config : Config)
    (ops : List (Op Elem))
    (disciplined : Machine.Guarded step Disciplined { cache := cache, config := config } ops) :
    (runs cache config ops).Tracked :=
  Machine.guarded_invariant step Disciplined Tracked (fun _ op tracked => step_tracked op tracked)
    _ ops ⟨start_queued cache config, runs_named cache config [], by simp [Numbered], by
      rintro id record ⟨found, _⟩
      simp [state] at found⟩ disciplined

/-- Everything active is finished and nothing waits. -/
def Quiet (s : ContinuousBatchScheduler Elem) : Prop :=
  s.waitingQueue = [] ∧
    ∀ id ∈ s.activeIds, ∀ record, s.state id = some record → record.phase = .finished

/-- In a quiet state a collection takes every uncollected request. -/
theorem Tracked.drained {s : ContinuousBatchScheduler Elem} (tracked : s.Tracked) (quiet : s.Quiet)
    {id : Int} {record : SeqState} : ¬ s.collectFinished.2.Uncollected id record := by
  rintro ⟨found, nonneg⟩
  rw [collectFinished_state] at found
  obtain ⟨before, lookup, rfl⟩ := Option.map_eq_some_iff.mp found
  by_cases ready : collectible before = true
  · simp [ready] at nonneg
  · rw [if_neg ready] at nonneg
    have finished : before.phase = .finished := by
      rcases tracked.listed id before ⟨lookup, nonneg⟩ with (waits | runs) | finished
      · rw [quiet.1] at waits
        exact absurd waits List.not_mem_nil
      · exact quiet.2 id runs before lookup
      · exact finished
    exact ready (by simp [collectible, finished, nonneg])

/-- A request is still uncollected, or some later collection was its delivery. -/
theorem delivered_or_kept [Zero Elem] (cache : PagedKVCache Elem) (config : Config)
    (first : List (Op Elem)) (request : SequenceRequest)
    (accepted : ((runs cache config first).submit request).1 = .makeOk) (later : List (Op Elem)) :
    (∃ record, (runs cache config (first ++ .submit request :: later)).Uncollected
        ((runs cache config first).chosenId request) record) ∨
      ∃ between rest output, later = between ++ .collectFinished :: rest ∧
        DeliveryOf cache config first request between output := by
  obtain ⟨born, split⟩ := runs_accepted cache config first request accepted
  have named := runs_named cache config (first ++ [.submit request])
  rw [split]
  rcases Machine.guarded_or_first step
    (fun s op => ¬ s.Delivers op ((runs cache config first).chosenId request))
    (runs cache config (first ++ [.submit request])) later with kept | ⟨between, op, rest, same, kept, hit⟩
  · obtain ⟨after, last, _⟩ := life_moves named born later kept
    exact Or.inl ⟨after, last⟩
  · right
    obtain ⟨rfl, output, returned, name⟩ := not_not.mp hit
    rw [← split between] at returned
    exact ⟨between, rest, output, same,
      first_output_delivers cache config first between request output accepted kept returned name⟩

end Completeness

/-- Along a disciplined run every output delivers an accepted request, which has no
other delivery; after a collection in a quiet state every request accepted so far
has been delivered; no collection returns an id twice; and the ids accepted so far
are the ids admitted so far, in that order, followed by the waiting queue. -/
theorem exactly_once_delivery [Zero Elem] (cache : PagedKVCache Elem) (config : Config)
    (ops : List (Op Elem))
    (disciplined : Machine.Guarded step Disciplined { cache := cache, config := config } ops) :
    (∀ before later output, ops = before ++ .collectFinished :: later →
      output ∈ (runs cache config before).collectFinished.1 →
      ∃ first request between, before = first ++ .submit request :: between ∧
        DeliveryOf cache config first request between output) ∧
    (∀ first request between between' later later' output output',
      ops = first ++ .submit request :: (between ++ .collectFinished :: later) →
      ops = first ++ .submit request :: (between' ++ .collectFinished :: later') →
      DeliveryOf cache config first request between output →
      DeliveryOf cache config first request between' output' →
      between = between' ∧ output = output') ∧
    (∀ first request middle later,
      ops = first ++ .submit request :: (middle ++ .collectFinished :: later) →
      ((runs cache config first).submit request).1 = .makeOk →
      (runs cache config (first ++ .submit request :: middle)).Quiet →
      ∃ between rest output, middle ++ [.collectFinished] = between ++ .collectFinished :: rest ∧
        DeliveryOf cache config first request between output) ∧
    (∀ before later, ops = before ++ .collectFinished :: later →
      ((runs cache config before).collectFinished.1.map (·.sequenceId)).Nodup) ∧
    acceptedIds { cache := cache, config := config } ops =
      admittedIds { cache := cache, config := config } ops ++
        (runs cache config ops).waitingQueue := by
  refine ⟨fun before later output _ returned => output_delivers cache config before output returned,
    ?_, ?_, fun before _ _ => outputs_nodup (runs_named cache config before), ?_⟩
  · intro first request between between' later later' output output' split split' delivery delivery'
    rw [split] at split'
    have same := List.append_cancel_left split'
    exact delivery_unique (List.cons.inj same).2 delivery delivery'
  · intro first request middle later split accepted quiet
    have reached : ops = (first ++ .submit request :: middle) ++ .collectFinished :: later := by
      rw [split]
      simp
    rw [reached, Machine.guarded_append] at disciplined
    have tracked := runs_tracked cache config _ disciplined.1
    rcases delivered_or_kept cache config first request accepted (middle ++ [.collectFinished]) with
      ⟨record, uncollected⟩ | delivered
    · have last : runs cache config (first ++ .submit request :: (middle ++ [.collectFinished])) =
          (runs cache config (first ++ .submit request :: middle)).collectFinished.2 := by
        have calls : first ++ .submit request :: (middle ++ [.collectFinished]) =
            (first ++ .submit request :: middle) ++ [.collectFinished] := by simp
        rw [calls]
        unfold runs
        rw [Machine.run_append]
        rfl
      rw [last] at uncollected
      exact absurd uncollected (tracked.drained quiet)
    · exact delivered
  · have order := run_order { cache := cache, config := config } ops
    change [] ++ _ = _ at order
    rw [List.nil_append] at order
    exact order

-- Two requests under the ids the scheduler draws; the second is still waiting.
def oneServed : List (Op Nat) :=
  [.submit { promptTokens := [1], maxTokens := 2 }, .submit { promptTokens := [2], maxTokens := 2 },
    .admitWaiting, .markTokenGenerated 0 7, .markFinished 0]

theorem exactly_once_delivery_oneServed :
    ∃ first request between, oneServed = first ++ .submit request :: between ∧
      DeliveryOf oneBlock.cache {} first request between
        { sequenceId := 0, promptTokens := [1], generatedTokens := [7], finished := true } := by
  have isActive : (0 : Int) ∈ (runs oneBlock.cache {} (oneServed.take 3)).activeIds := by decide
  have stillActive : (0 : Int) ∈ (runs oneBlock.cache {} (oneServed.take 4)).activeIds := by decide
  have disciplined : Machine.Guarded step Disciplined { cache := oneBlock.cache, config := {} }
      (oneServed ++ [.collectFinished]) :=
    ⟨⟨trivial, fun _ same => by cases same; exact ⟨by decide, by decide⟩⟩,
      ⟨trivial, fun _ same => by cases same; exact ⟨by decide, by decide⟩⟩,
      ⟨trivial, fun _ same => by cases same⟩, ⟨isActive, fun _ same => by cases same⟩,
      ⟨stillActive, fun _ same => by cases same⟩, ⟨trivial, fun _ same => by cases same⟩, trivial⟩
  exact (exactly_once_delivery oneBlock.cache {} _ disciplined).1 oneServed [] _ rfl (by decide)

end MiniLLM.ContinuousBatchScheduler
