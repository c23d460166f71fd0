import MiniLLM.AdmissionControl

/-!
The life of a request, from its accepted `submit` to the `collect_finished` that
returns it. Its record is uncollected as long as it names its own id. Each mark
writes the phase from its own counter, so the phase only moves forward in runs
whose marks agree with the phase they find.
-/

namespace MiniLLM

def SeqPhase.rank : SeqPhase → Nat
  | .waiting => 0
  | .prefilling => 1
  | .decoding => 2
  | .finished => 3

theorem SeqPhase.rank_le_finished (phase : SeqPhase) : phase.rank ≤ SeqPhase.finished.rank := by
  cases phase <;> decide

namespace ContinuousBatchScheduler

variable {Elem : Type}

/-- A request accepted under the id has not been collected. -/
def Uncollected (s : ContinuousBatchScheduler Elem) (id : Int) (record : SeqState) : Prop :=
  s.state id = some record ∧ 0 ≤ record.sequenceId

/-- The call accepts a request under the id. -/
def Accepts (s : ContinuousBatchScheduler Elem) (op : Op Elem) (id : Int) : Prop :=
  ∃ request, op = .submit request ∧ (s.submit request).1 = .makeOk ∧ s.chosenId request = id

/-- The call returns an output for the id. -/
def Delivers (s : ContinuousBatchScheduler Elem) (op : Op Elem) (id : Int) : Prop :=
  op = .collectFinished ∧ ∃ output ∈ s.collectFinished.1, output.sequenceId = id

section Records

theorem state_mem {s : ContinuousBatchScheduler Elem} {id : Int} {record : SeqState}
    (found : s.state id = some record) : record ∈ s.states := by
  unfold state at found
  split at found
  · simp at found
  · exact List.mem_of_getElem? found

theorem mem_state {s : ContinuousBatchScheduler Elem} {record : SeqState}
    (member : record ∈ s.states) : ∃ id, s.state id = some record := by
  obtain ⟨index, bound, rfl⟩ := List.getElem_of_mem member
  exact ⟨index, by simp [state, bound]⟩

def delivery (record : SeqState) : SequenceOutput :=
  { sequenceId := record.sequenceId
    promptTokens := record.promptTokens
    generatedTokens := record.generatedTokens
    finished := true }

/-- The outputs of a collection are the finished, uncollected records. -/
theorem mem_collectFinished {s : ContinuousBatchScheduler Elem} {output : SequenceOutput} :
    output ∈ s.collectFinished.1 ↔ ∃ id record, s.Uncollected id record ∧
      record.phase = .finished ∧ output = delivery record := by
  simp only [collectFinished, List.mem_map, List.mem_filter]
  constructor
  · rintro ⟨record, ⟨member, ready⟩, rfl⟩
    obtain ⟨id, found⟩ := mem_state member
    simp only [collectible, Bool.and_eq_true, beq_iff_eq, decide_eq_true_eq] at ready
    exact ⟨id, record, ⟨found, ready.2⟩, ready.1, rfl⟩
  · rintro ⟨id, record, ⟨found, nonneg⟩, finished, rfl⟩
    exact ⟨record, ⟨state_mem found, by simp [collectible, finished, nonneg]⟩, rfl⟩

/-- An uncollected record names the id it is stored under. -/
def Named (s : ContinuousBatchScheduler Elem) : Prop :=
  ∀ id record, s.Uncollected id record → record.sequenceId = id

theorem resizeStates_origin (states : List SeqState) (size i : Nat) {record : SeqState}
    (found : (resizeStates states size)[i]? = some record) :
    states[i]? = some record ∨ record = {} := by
  unfold resizeStates at found
  by_cases bound : i < states.length
  · rw [List.getElem?_append_left bound] at found
    exact Or.inl found
  · rw [List.getElem?_append_right (by omega), List.getElem?_replicate] at found
    split at found
    · exact Or.inr (Option.some.inj found).symm
    · simp at found

/-- Where the records after `submit` come from. -/
theorem submit_origin {s : ContinuousBatchScheduler Elem} {request : SequenceRequest} {id : Int}
    {record : SeqState} (found : (s.submit request).2.state id = some record) :
    s.state id = some record ∨ record = {} ∨
      (s.submit request).1 = .makeOk ∧ s.chosenId request = id := by
  unfold submit at found ⊢
  by_cases empty : request.promptTokens = []
  · simp only [empty, if_true] at found
    exact Or.inl found
  by_cases useless : request.maxTokens ≤ 0
  · simp only [empty, useless, if_true, if_false] at found
    exact Or.inl found
  by_cases negative : s.chosenId request < 0
  · simp only [empty, useless, negative, if_true, if_false] at found
    exact Or.inl found
  simp only [empty, useless, negative, if_false] at found ⊢
  split at found
  · unfold state at found ⊢
    split at found
    · simp at found
    · next low =>
        rw [if_neg low]
        rcases resizeStates_origin _ _ _ found with old | new
        · exact Or.inl old
        · exact Or.inr (Or.inl new)
  · next free =>
      by_cases chosen : s.chosenId request = id
      · refine Or.inr (Or.inr ⟨?_, chosen⟩)
        rw [if_neg free]
      · unfold state at found ⊢
        split at found
        · simp at found
        · next low =>
            rw [if_neg low]
            rw [List.getElem?_set_ne (by omega)] at found
            rcases resizeStates_origin _ _ _ found with old | new
            · exact Or.inl old
            · exact Or.inr (Or.inl new)

-- The tokens a call marks for the id.
def markedBy (id : Int) : Op Elem → List Int
  | .markTokenGenerated marked token => if marked = id then [token] else []
  | _ => []

def marked (id : Int) (ops : List (Op Elem)) : List Int := ops.flatMap (markedBy id)

/-- The same request, with the tokens marked since. -/
structure Continues (before after : SeqState) (tokens : List Int) : Prop where
  sequenceId : after.sequenceId = before.sequenceId
  promptTokens : after.promptTokens = before.promptTokens
  maxTokens : after.maxTokens = before.maxTokens
  generatedTokens : after.generatedTokens = before.generatedTokens ++ tokens

theorem Continues.trans {a b c : SeqState} {first second : List Int}
    (early : Continues a b first) (late : Continues b c second) :
    Continues a c (first ++ second) :=
  ⟨late.sequenceId.trans early.sequenceId, late.promptTokens.trans early.promptTokens,
    late.maxTokens.trans early.maxTokens,
    by rw [late.generatedTokens, early.generatedTokens, List.append_assoc]⟩

theorem Continues.refl (record : SeqState) : Continues record record [] :=
  ⟨rfl, rfl, rfl, (List.append_nil _).symm⟩

/-- The marks and admissions that move the phase of an uncollected record forward
and keep its tokens within their limit: prefill progress below the prompt length
when the record is finished, a token only below the limit, and no admission of a
waiting id whose record is past its prefill. -/
def Forward (s : ContinuousBatchScheduler Elem) : Op Elem → Prop
  | .markPrefillProgress id count => ∀ record, s.Uncollected id record →
      record.phase = .finished → count < wrap32 record.promptTokens.length
  | .markTokenGenerated id _ => ∀ record, s.Uncollected id record →
      (record.generatedTokens.length : Int) < record.maxTokens
  | .admitWaiting => ∀ id ∈ s.waitingQueue, ∀ record, s.Uncollected id record →
      record.phase = .waiting ∨ record.phase = .prefilling
  | _ => True

/-- What a call that does not deliver the id does to its uncollected record. -/
structure Moves (s : ContinuousBatchScheduler Elem) (op : Op Elem) (id : Int)
    (before after : SeqState) : Prop where
  continues : Continues before after (markedBy id op)
  forward : s.Forward op → before.phase.rank ≤ after.phase.rank
  bounded : s.Forward op → (before.generatedTokens.length : Int) ≤ before.maxTokens →
    (after.generatedTokens.length : Int) ≤ after.maxTokens

theorem Moves.stays (s : ContinuousBatchScheduler Elem) {op : Op Elem} {id : Int} (record : SeqState)
    (silent : markedBy id op = []) : s.Moves op id record record :=
  ⟨by rw [silent]; exact Continues.refl record, fun _ => Nat.le_refl _, fun _ bound => bound⟩

theorem Moves.rephased (s : ContinuousBatchScheduler Elem) {op : Op Elem} {id : Int}
    {before after : SeqState} (silent : markedBy id op = [])
    (same : after.sequenceId = before.sequenceId ∧ after.promptTokens = before.promptTokens ∧
      after.maxTokens = before.maxTokens ∧ after.generatedTokens = before.generatedTokens)
    (forward : s.Forward op → before.phase.rank ≤ after.phase.rank) : s.Moves op id before after := by
  obtain ⟨sequenceId, prompt, limit, generated⟩ := same
  refine ⟨⟨sequenceId, prompt, limit, by rw [silent, generated, List.append_nil]⟩, forward,
    fun _ bound => ?_⟩
  rw [generated, limit]
  exact bound

/-- Admission sets the phase of waiting ids. -/
theorem admitWaiting_state {s : ContinuousBatchScheduler Elem} {id : Int} {record : SeqState}
    (found : s.state id = some record) :
    s.admitWaiting.2.state id = some record ∨
      s.admitWaiting.2.state id = some { record with phase := .prefilling } ∧
        id ∈ s.waitingQueue := by
  have rule := admitWaiting_rule
    (fun now => (∀ x ∈ now.waitingQueue, x ∈ s.waitingQueue) ∧
      (now.state id = some record ∨
        now.state id = some { record with phase := .prefilling } ∧ id ∈ s.waitingQueue))
    s ⟨fun _ member => member, Or.inl found⟩ (fun _ _ kept => kept) (by
      rintro now seqId rest head ⟨queue, states⟩ admissible
      refine ⟨fun x member => queue x ?_, ?_⟩
      · rw [admissible.head]
        exact List.mem_cons_of_mem _ member
      · rw [admitHead_state]
        by_cases same : id = seqId
        · have waits : id ∈ s.waitingQueue := queue id (by
            rw [admissible.head, same]
            exact List.mem_cons_self)
          rw [if_pos same]
          rcases states with old | ⟨old, _⟩
          · exact Or.inr ⟨by rw [old]; rfl, waits⟩
          · exact Or.inr ⟨by rw [old]; rfl, waits⟩
        · rw [if_neg same]
          exact states)
  exact rule.2

theorem admitWaiting_moves {s : ContinuousBatchScheduler Elem} {id : Int} {record : SeqState}
    (uncollected : s.Uncollected id record) :
    ∃ after, s.admitWaiting.2.Uncollected id after ∧ s.Moves .admitWaiting id record after := by
  rcases admitWaiting_state uncollected.1 with old | ⟨prefilling, waits⟩
  · exact ⟨record, ⟨old, uncollected.2⟩, Moves.stays s record rfl⟩
  · refine ⟨_, ⟨prefilling, uncollected.2⟩, Moves.rephased s rfl ⟨rfl, rfl, rfl, rfl⟩ ?_⟩
    intro forward
    rcases forward id waits record uncollected with waiting | already
    · rw [waiting]
      exact Nat.zero_le _
    · rw [already]

/-- A mark moves the record it names and no other. -/
theorem modifyState_moves {s : ContinuousBatchScheduler Elem} (op : Op Elem) (target : Int)
    (f : SeqState → SeqState) {id : Int} {record : SeqState} (uncollected : s.Uncollected id record)
    (keeps : (f record).sequenceId = record.sequenceId)
    (hit : id = target → s.Moves op id record (f record))
    (silent : id ≠ target → markedBy id op = []) :
    ∃ after, (s.modifyState target f).Uncollected id after ∧ s.Moves op id record after := by
  by_cases same : id = target
  · refine ⟨f record, ⟨?_, by rw [keeps]; exact uncollected.2⟩, hit same⟩
    rw [modifyState_state, if_pos same, uncollected.1]
    rfl
  · refine ⟨record, ⟨?_, uncollected.2⟩, Moves.stays s record (silent same)⟩
    rw [modifyState_state, if_neg same]
    exact uncollected.1

theorem markPrefillProgress_moves {s : ContinuousBatchScheduler Elem} (target count : Int) {id : Int}
    {record : SeqState} (uncollected : s.Uncollected id record) :
    ∃ after, (s.markPrefillProgress target count).Uncollected id after ∧
      s.Moves (.markPrefillProgress target count) id record after := by
  refine modifyState_moves _ target _ uncollected rfl (fun same => ?_) fun _ => rfl
  subst same
  refine Moves.rephased s rfl ⟨rfl, rfl, rfl, rfl⟩ fun forward => ?_
  have early := forward record uncollected
  dsimp only
  split
  · next complete =>
      cases phase : record.phase with
      | finished => exact absurd (early phase) (by omega)
      | _ => decide
  · exact Nat.le_refl _

theorem markTokenGenerated_moves {s : ContinuousBatchScheduler Elem} (target token : Int) {id : Int}
    {record : SeqState} (uncollected : s.Uncollected id record) :
    ∃ after, (s.markTokenGenerated target token).Uncollected id after ∧
      s.Moves (.markTokenGenerated target token) id record after := by
  refine modifyState_moves _ target _ uncollected rfl (fun same => ?_)
    fun apart => by simp [markedBy, Ne.symm apart]
  subst same
  refine ⟨⟨rfl, rfl, rfl, by simp [markedBy]⟩, fun _ => ?_, fun forward _ => ?_⟩
  · dsimp only
    split
    · exact record.phase.rank_le_finished
    · exact Nat.le_refl _
  · have room := forward record uncollected
    simp only [List.length_append, List.length_singleton]
    omega

theorem markFinished_moves {s : ContinuousBatchScheduler Elem} (target : Int) {id : Int}
    {record : SeqState} (uncollected : s.Uncollected id record) :
    ∃ after, (s.markFinished target).Uncollected id after ∧
      s.Moves (.markFinished target) id record after := by
  refine modifyState_moves _ target _ uncollected rfl (fun _ => ?_) fun _ => rfl
  exact Moves.rephased s rfl ⟨rfl, rfl, rfl, rfl⟩ fun _ => record.phase.rank_le_finished

theorem submit_moves {s : ContinuousBatchScheduler Elem} (request : SequenceRequest) {id : Int}
    {record : SeqState} (uncollected : s.Uncollected id record) :
    (s.submit request).2.Uncollected id record := by
  refine ⟨?_, uncollected.2⟩
  rcases submit_cases s request with ⟨_, _, _, _, _, states⟩ | ⟨_, submits⟩
  · exact states id record uncollected.1
  · refine submits.others id record (fun same => ?_) uncollected.1
    have released := submits.released record (by rw [← same]; exact uncollected.1)
    have nonneg := uncollected.2
    omega

/-- A call that does not deliver the id keeps its request uncollected. -/
theorem step_moves [Zero Elem] {s : ContinuousBatchScheduler Elem} (named : s.Named) (op : Op Elem)
    {id : Int} {record : SeqState} (uncollected : s.Uncollected id record)
    (kept : ¬ s.Delivers op id) :
    ∃ after, (s.step op).Uncollected id after ∧ s.Moves op id record after := by
  cases op with
  | submit request =>
      exact ⟨record, submit_moves request uncollected, Moves.stays s record rfl⟩
  | admitWaiting => exact admitWaiting_moves uncollected
  | markPrefillProgress target count => exact markPrefillProgress_moves target count uncollected
  | markTokenGenerated target token => exact markTokenGenerated_moves target token uncollected
  | markFinished target => exact markFinished_moves target uncollected
  | evictFinished => exact ⟨record, uncollected, Moves.stays s record rfl⟩
  | collectFinished =>
      have unfinished : collectible record = false := by
        by_contra ready
        simp only [collectible, Bool.not_eq_false, Bool.and_eq_true, beq_iff_eq,
          decide_eq_true_eq] at ready
        exact kept ⟨rfl, delivery record,
          mem_collectFinished.mpr ⟨id, record, uncollected, ready.1, rfl⟩,
          named id record uncollected⟩
      refine ⟨record, ⟨?_, uncollected.2⟩, Moves.stays s record rfl⟩
      change s.collectFinished.2.state id = some record
      rw [collectFinished_state, uncollected.1]
      simp [unfinished]
  | cacheCall op => exact ⟨record, uncollected, Moves.stays s record rfl⟩

/-- An uncollected record is a new request or the record of an undelivered one. -/
theorem step_origin [Zero Elem] {s : ContinuousBatchScheduler Elem} (named : s.Named) (op : Op Elem)
    {id : Int} {record : SeqState} (uncollected : (s.step op).Uncollected id record) :
    s.Accepts op id ∨
      ¬ s.Delivers op id ∧ ∃ before, s.Uncollected id before ∧
        before.sequenceId = record.sequenceId := by
  -- Only `collect_finished` delivers.
  have silent : ∀ op, op ≠ .collectFinished → ¬ s.Delivers op id := fun _ other delivers =>
    other delivers.1
  obtain ⟨found, nonneg⟩ := uncollected
  cases op with
  | submit request =>
      rcases submit_origin found with old | rfl | ⟨fine, chosen⟩
      · exact Or.inr ⟨silent _ (by simp), record, ⟨old, nonneg⟩, rfl⟩
      · simp at nonneg
      · exact Or.inl ⟨request, rfl, fine, chosen⟩
  | admitWaiting =>
      have rule := admitWaiting_rule
        (fun now => ∀ after, now.state id = some after →
          ∃ before, s.state id = some before ∧ before.sequenceId = after.sequenceId)
        s (fun after same => ⟨after, same, rfl⟩) (fun _ _ kept => kept) (by
          intro now seqId rest head kept _ after same
          rw [admitHead_state] at same
          split at same
          · obtain ⟨old, lookup, rfl⟩ := Option.map_eq_some_iff.mp same
            exact kept old lookup
          · exact kept after same)
      obtain ⟨before, lookup, same⟩ := rule record found
      exact Or.inr ⟨silent _ (by simp), before, ⟨lookup, by omega⟩, same⟩
  | markPrefillProgress target _ | markTokenGenerated target _ | markFinished target =>
      refine Or.inr ⟨silent _ (by simp), ?_⟩
      change (s.modifyState target _).state id = some record at found
      rw [modifyState_state] at found
      split at found
      · obtain ⟨old, lookup, rfl⟩ := Option.map_eq_some_iff.mp found
        exact ⟨old, ⟨lookup, nonneg⟩, rfl⟩
      · exact ⟨record, ⟨found, nonneg⟩, rfl⟩
  | evictFinished | cacheCall _ => exact Or.inr ⟨silent _ (by simp), record, ⟨found, nonneg⟩, rfl⟩
  | collectFinished =>
      change s.collectFinished.2.state id = some record at found
      rw [collectFinished_state] at found
      obtain ⟨old, lookup, rfl⟩ := Option.map_eq_some_iff.mp found
      by_cases ready : collectible old = true
      · simp [ready] at nonneg
      · rw [if_neg ready] at nonneg ⊢
        refine Or.inr ⟨?_, old, ⟨lookup, nonneg⟩, rfl⟩
        rintro ⟨_, output, member, same⟩
        obtain ⟨other, done, undelivered, finished, rfl⟩ := mem_collectFinished.mp member
        have place : other = id := (named other done undelivered).symm.trans same
        subst place
        obtain rfl := Option.some.inj (lookup.symm.trans undelivered.1)
        exact ready (by simp [collectible, finished, nonneg])

theorem step_named [Zero Elem] {s : ContinuousBatchScheduler Elem} (op : Op Elem)
    (named : s.Named) : (s.step op).Named := by
  intro id record uncollected
  rcases step_origin named op uncollected with ⟨request, rfl, fine, rfl⟩ | ⟨_, before, old, same⟩
  · rcases submit_cases s request with ⟨bad, _⟩ | ⟨_, submits⟩
    · rw [fine] at bad
      simp at bad
    · have fresh := uncollected.1.symm.trans submits.fresh
      rw [Option.some.inj fresh]
  · rw [← same]
    exact named id before old

theorem runs_named [Zero Elem] (cache : PagedKVCache Elem) (config : Config)
    (ops : List (Op Elem)) : (runs cache config ops).Named :=
  Machine.run_invariant step Named (fun _ op named => step_named op named) _ ops (by
    rintro id record ⟨found, _⟩
    simp [state] at found)

end Records

section Lives

/-- Until it is delivered, a request keeps its record, which collects the tokens
marked for it; while the marks agree with its phase, the phase moves forward. -/
theorem life_moves [Zero Elem] {s : ContinuousBatchScheduler Elem} (named : s.Named) {id : Int}
    {record : SeqState} (uncollected : s.Uncollected id record) (ops : List (Op Elem))
    (kept : Machine.Guarded step (fun s op => ¬ s.Delivers op id) s ops) :
    ∃ after, (Machine.run step s ops).Uncollected id after ∧
      Continues record after (marked id ops) ∧
      (Machine.Guarded step Forward s ops → record.phase.rank ≤ after.phase.rank ∧
        ((record.generatedTokens.length : Int) ≤ record.maxTokens →
          (after.generatedTokens.length : Int) ≤ after.maxTokens)) := by
  induction ops generalizing s record with
  | nil => exact ⟨record, uncollected, Continues.refl record, fun _ => ⟨Nat.le_refl _, fun small => small⟩⟩
  | cons op rest ih =>
      obtain ⟨next, there, moves⟩ := step_moves named op uncollected kept.1
      obtain ⟨after, last, continues, ordered⟩ := ih (step_named op named) there kept.2
      refine ⟨after, last, moves.continues.trans continues, fun forward => ?_⟩
      obtain ⟨rank, bound⟩ := ordered forward.2
      exact ⟨Nat.le_trans (moves.forward forward.1) rank,
        fun small => bound (moves.bounded forward.1 small)⟩

/-- Right after its acceptance a request is waiting, without tokens. -/
theorem runs_accepted [Zero Elem] (cache : PagedKVCache Elem) (config : Config)
    (first : List (Op Elem)) (request : SequenceRequest)
    (accepted : ((runs cache config first).submit request).1 = .makeOk) :
    (runs cache config (first ++ [.submit request])).Uncollected
        ((runs cache config first).chosenId request)
        { sequenceId := (runs cache config first).chosenId request, phase := .waiting,
          promptTokens := request.promptTokens, generatedTokens := [],
          maxTokens := request.maxTokens, prefilledTokens := 0 } ∧
      ∀ rest, runs cache config (first ++ .submit request :: rest) =
        Machine.run step (runs cache config (first ++ [.submit request])) rest := by
  rcases submit_cases (runs cache config first) request with ⟨bad, _⟩ | ⟨_, submits⟩
  · rw [accepted] at bad
    simp at bad
  · unfold runs
    rw [Machine.run_append]
    refine ⟨⟨submits.fresh, submits.low⟩, fun rest => ?_⟩
    rw [Machine.run_append]
    rfl

/-- Along a run whose marks and admissions agree with the phases they find, between
the acceptance of a request and its collection its phase only moves forward and it
never holds more tokens than its limit. -/
theorem sequence_lifecycle [Zero Elem] (cache : PagedKVCache Elem) (config : Config)
    (first between : List (Op Elem)) (request : SequenceRequest)
    (forward : Machine.Guarded step Forward { cache := cache, config := config }
      (first ++ .submit request :: between))
    (accepted : ((runs cache config first).submit request).1 = .makeOk)
    (undelivered : Machine.Guarded step
      (fun s op => ¬ s.Delivers op ((runs cache config first).chosenId request))
      (runs cache config (first ++ [.submit request])) between)
    (early late : List (Op Elem)) (moments : between = early ++ late) :
    ∃ before after,
      (runs cache config (first ++ .submit request :: early)).state
        ((runs cache config first).chosenId request) = some before ∧
      (runs cache config (first ++ .submit request :: between)).state
        ((runs cache config first).chosenId request) = some after ∧
      before.phase.rank ≤ after.phase.rank ∧
      after.maxTokens = request.maxTokens ∧
      (after.generatedTokens.length : Int) ≤ request.maxTokens := by
  subst moments
  obtain ⟨born, split⟩ := runs_accepted cache config first request accepted
  have named := runs_named cache config (first ++ [.submit request])
  have calls : (first ++ .submit request :: (early ++ late) : List (Op Elem)) =
      first ++ [.submit request] ++ (early ++ late) := by simp
  rw [calls, Machine.guarded_append] at forward
  have orderly := (Machine.guarded_append _ _ _ early late).mp forward.2
  obtain ⟨openEarly, openLate⟩ := (Machine.guarded_append _ _ _ early late).mp undelivered
  obtain ⟨before, there, continues, ordered⟩ := life_moves named born early openEarly
  have namedThere : (Machine.run step (runs cache config (first ++ [.submit request])) early).Named :=
    Machine.run_invariant step Named (fun _ op kept => step_named op kept) _ early named
  obtain ⟨after, last, continuesLast, orderedLast⟩ := life_moves namedThere there late openLate
  obtain ⟨rank, bound⟩ := orderedLast orderly.2
  have limit : after.maxTokens = request.maxTokens :=
    continuesLast.maxTokens.trans continues.maxTokens
  refine ⟨before, after, by rw [split]; exact there.1, ?_, rank, limit, ?_⟩
  · rw [split, Machine.run_append]
    exact last.1
  · have positive := submit_positive (by rw [accepted]; rfl)
    rw [← limit]
    exact bound ((ordered orderly.1).2 (by simpa using Int.le_of_lt positive))

-- Prefill progress reported after the end of the request.
def reopened : List (Op Nat) :=
  [.submit { promptTokens := [1], maxTokens := 2 }, .admitWaiting, .markFinished 0]

theorem sequence_lifecycle_finished :
    ∃ before after,
      (runs oneBlock.cache {} [.submit { promptTokens := [1], maxTokens := 2 }]).state 0 =
        some before ∧
      (runs oneBlock.cache {} reopened).state 0 = some after ∧
      before.phase.rank ≤ after.phase.rank := by
  obtain ⟨before, after, early, late, rank, _⟩ := sequence_lifecycle oneBlock.cache {} []
    [.admitWaiting, .markFinished 0] { promptTokens := [1], maxTokens := 2 }
    ⟨trivial, fun id member record found => by
      have waiting : ∀ id ∈ [(0 : Int)], ∀ record,
          (runs oneBlock.cache {} [.submit { promptTokens := [1], maxTokens := 2 }]).state id =
            some record → record.phase = .waiting := by
        simp only [List.mem_singleton, forall_eq]
        intro record same
        have here : (runs oneBlock.cache {} [.submit { promptTokens := [1], maxTokens := 2 }]).state 0
          = some { sequenceId := 0, promptTokens := [1], maxTokens := 2 } := by decide
        rw [here] at same
        rw [← Option.some.inj same]
      exact Or.inl (waiting id member record found.1), trivial, trivial⟩
    (by decide)
    ⟨fun delivers => (by cases delivers.1), fun delivers => (by cases delivers.1), trivial⟩
    [] [.admitWaiting, .markFinished 0] rfl
  exact ⟨before, after, early, late, rank⟩

/-- A finished request, uncollected and still active, is decoding again after its
prefill is reported, and a token marked after its last one exceeds its limit. -/
theorem finished_request_reopens :
    Machine.Guarded step MarksActive { cache := oneBlock.cache, config := {} }
        (reopened ++ [.markPrefillProgress 0 1]) ∧
      ((runs oneBlock.cache {} reopened).state 0).map (·.phase) = some .finished ∧
      ((runs oneBlock.cache {} (reopened ++ [.markPrefillProgress 0 1])).state 0).map (·.phase) =
        some .decoding ∧
      ((runs oneBlock.cache {} (reopened ++ [.markTokenGenerated 0 7, .markTokenGenerated 0 8,
        .markTokenGenerated 0 9])).state 0).map (fun record =>
          (record.sequenceId, record.maxTokens, record.generatedTokens)) = some (0, 2, [7, 8, 9]) := by
  refine ⟨⟨trivial, trivial, ?_, ?_, trivial⟩, by decide, by decide, by decide⟩
  · change (0 : Int) ∈ (runs oneBlock.cache {} (reopened.take 2)).activeIds
    decide
  · change (0 : Int) ∈ (runs oneBlock.cache {} reopened).activeIds
    decide

end Lives

end ContinuousBatchScheduler

end MiniLLM
