import MiniLLM.PagedKVCache

/-!
runtime/continuous_batch_scheduler.cpp: state records, the waiting queue and the
active list over a paged cache. The scheduler only reserves and frees blocks; its
callers write tokens through the same cache between its calls. A status is
`none` when `states_.at` throws.
-/

namespace MiniLLM

structure SequenceRequest where
  sequenceId : Int := -1
  promptTokens : List Int
  maxTokens : Int := 64
  deriving DecidableEq, Repr

structure SequenceOutput where
  sequenceId : Int := -1
  promptTokens : List Int
  generatedTokens : List Int
  finished : Bool := false
  deriving DecidableEq, Repr

inductive SeqPhase where
  | waiting | prefilling | decoding | finished
  deriving DecidableEq, Repr

structure SeqState where
  sequenceId : Int := -1
  phase : SeqPhase := .waiting
  promptTokens : List Int := []
  generatedTokens : List Int := []
  maxTokens : Int := 64
  prefilledTokens : Int := 0
  deriving DecidableEq, Repr

/-- `max_batch_size` is an `int`. -/
structure ContinuousBatchScheduler.Config where
  maxBatchSize : Int := 4
  isInt : maxBatchSize < 2147483648 := by decide

structure ContinuousBatchScheduler (Elem : Type) where
  cache : PagedKVCache Elem
  config : ContinuousBatchScheduler.Config
  states : List SeqState := []
  waitingQueue : List Int := []
  activeIds : List Int := []
  nextSequenceId : Int := 0

namespace ContinuousBatchScheduler

variable {Elem : Type}

def state (s : ContinuousBatchScheduler Elem) (sequenceId : Int) : Option SeqState :=
  if sequenceId < 0 then none else s.states[sequenceId.toNat]?

def modifyState (s : ContinuousBatchScheduler Elem) (sequenceId : Int) (f : SeqState → SeqState) :
    ContinuousBatchScheduler Elem :=
  if sequenceId < 0 then s else { s with states := s.states.modify sequenceId.toNat f }

-- The id a request gets, and the counter after it is drawn.
def chosenId (s : ContinuousBatchScheduler Elem) (request : SequenceRequest) : Int :=
  if request.sequenceId ≥ 0 then request.sequenceId else s.nextSequenceId

def drawId (s : ContinuousBatchScheduler Elem) (request : SequenceRequest) : Int :=
  if request.sequenceId ≥ 0 then s.nextSequenceId else wrap32 (s.nextSequenceId + 1)

def resizeStates (states : List SeqState) (size : Nat) : List SeqState :=
  states ++ List.replicate (size - states.length) ({} : SeqState)

def submit (s : ContinuousBatchScheduler Elem) (request : SequenceRequest) :
    Status × ContinuousBatchScheduler Elem :=
  if request.promptTokens = [] then
    (.invalidArgument "SequenceRequest must have at least one prompt token", s)
  else if request.maxTokens ≤ 0 then
    (.invalidArgument "SequenceRequest max_tokens must be positive", s)
  else
    let seqId := s.chosenId request
    let s := { s with nextSequenceId := s.drawId request }
    if seqId < 0 then
      (.invalidArgument "SequenceRequest sequence_id must be non-negative", s)
    else
      let next :=
        if request.sequenceId ≥ 0 ∧ seqId ≥ s.nextSequenceId then wrap32 (seqId + 1)
        else s.nextSequenceId
      let states := resizeStates s.states (seqId.toNat + 1)
      let s := { s with nextSequenceId := next, states := states }
      if (states.getD seqId.toNat {}).sequenceId ≥ 0 then
        (.invalidArgument
          ("SequenceRequest sequence_id is already in use: " ++ toString seqId), s)
      else
        (.makeOk,
          { s with
            states := states.set seqId.toNat
              { sequenceId := seqId
                phase := .waiting
                promptTokens := request.promptTokens
                generatedTokens := []
                maxTokens := request.maxTokens
                prefilledTokens := 0 }
            waitingQueue := s.waitingQueue ++ [seqId] })

def totalTokens (record : SeqState) : Int :=
  wrap32 (wrap32 record.promptTokens.length + record.maxTokens)

def activate (s : ContinuousBatchScheduler Elem) (seqId : Int) (rest : List Int) :
    ContinuousBatchScheduler Elem :=
  { s.modifyState seqId fun record => { record with phase := .prefilling } with
    activeIds := s.activeIds ++ [seqId]
    waitingQueue := rest }

/-- The loop of `admit_waiting` over the queue it starts with. -/
def admitLoop : List Int → ContinuousBatchScheduler Elem →
    Option Status × ContinuousBatchScheduler Elem
  | [], s => (some .makeOk, s)
  | seqId :: rest, s =>
      if wrap32 s.activeIds.length ≥ s.config.maxBatchSize then (some .makeOk, s)
      else
        match s.state seqId with
        | none => (none, s)
        | some record =>
            let (st, cache) := s.cache.ensureSequence seqId
            let s := { s with cache := cache }
            if !st.isOk then (some st, s)
            else
              let (st, cache) := s.cache.reserveSequence seqId (totalTokens record)
              let s := { s with cache := cache }
              if !st.isOk then (some .makeOk, s)
              else admitLoop rest (s.activate seqId rest)

def admitWaiting (s : ContinuousBatchScheduler Elem) :
    Option Status × ContinuousBatchScheduler Elem :=
  if s.config.maxBatchSize ≤ 0 then
    (some (.invalidArgument "ContinuousBatchScheduler max_batch_size must be positive"), s)
  else admitLoop s.waitingQueue s

def markPrefillProgress (s : ContinuousBatchScheduler Elem) (sequenceId tokensPrefilled : Int) :
    ContinuousBatchScheduler Elem :=
  s.modifyState sequenceId fun record =>
    { record with
      prefilledTokens := tokensPrefilled
      phase := if tokensPrefilled ≥ wrap32 record.promptTokens.length then .decoding
        else record.phase }

def markTokenGenerated (s : ContinuousBatchScheduler Elem) (sequenceId token : Int) :
    ContinuousBatchScheduler Elem :=
  s.modifyState sequenceId fun record =>
    let generated := record.generatedTokens ++ [token]
    { record with
      generatedTokens := generated
      phase := if wrap32 generated.length ≥ record.maxTokens then .finished else record.phase }

def markFinished (s : ContinuousBatchScheduler Elem) (sequenceId : Int) :
    ContinuousBatchScheduler Elem :=
  s.modifyState sequenceId fun record => { record with phase := .finished }

/-- The active ids that stay and the cache without the sequences of the others.
The loop ends where `states_.at` throws. -/
def evictFrom (s : ContinuousBatchScheduler Elem) :
    List Int → PagedKVCache Elem → List Int × PagedKVCache Elem
  | [], cache => ([], cache)
  | seqId :: rest, cache =>
      match s.state seqId with
      | none => (seqId :: rest, cache)
      | some record =>
          if record.phase = .finished then evictFrom s rest (cache.freeSequence seqId).2
          else
            let (kept, cache) := evictFrom s rest cache
            (seqId :: kept, cache)

def evictFinished (s : ContinuousBatchScheduler Elem) : ContinuousBatchScheduler Elem :=
  let (kept, cache) := evictFrom s s.activeIds s.cache
  { s with activeIds := kept, cache := cache }

def collectible (record : SeqState) : Bool :=
  record.phase == .finished && record.sequenceId ≥ 0

def collectFinished (s : ContinuousBatchScheduler Elem) :
    List SequenceOutput × ContinuousBatchScheduler Elem :=
  ((s.states.filter collectible).map fun record =>
      { sequenceId := record.sequenceId
        promptTokens := record.promptTokens
        generatedTokens := record.generatedTokens
        finished := true },
    { s with
      states := s.states.map fun record =>
        if collectible record then { record with sequenceId := -1 } else record })

inductive Op (Elem : Type) where
  | submit (request : SequenceRequest)
  | admitWaiting
  | markPrefillProgress (sequenceId tokensPrefilled : Int)
  | markTokenGenerated (sequenceId token : Int)
  | markFinished (sequenceId : Int)
  | evictFinished
  | collectFinished
  -- A call of the scheduler's user on the cache it shares with the scheduler.
  | cacheCall (op : PagedKVCache.Op Elem)

def step [Zero Elem] (s : ContinuousBatchScheduler Elem) : Op Elem → ContinuousBatchScheduler Elem
  | .submit request => (s.submit request).2
  | .admitWaiting => s.admitWaiting.2
  | .markPrefillProgress id count => s.markPrefillProgress id count
  | .markTokenGenerated id token => s.markTokenGenerated id token
  | .markFinished id => s.markFinished id
  | .evictFinished => s.evictFinished
  | .collectFinished => s.collectFinished.2
  | .cacheCall op => { s with cache := s.cache.step op }

/-- A run of calls on a scheduler constructed over `cache`. -/
def runs [Zero Elem] (cache : PagedKVCache Elem) (config : Config) (ops : List (Op Elem)) :
    ContinuousBatchScheduler Elem :=
  Machine.run step { cache := cache, config := config } ops

/-- `mark_*` calls name active sequences only. -/
def MarksActive (s : ContinuousBatchScheduler Elem) : Op Elem → Prop
  | .markPrefillProgress id _ => id ∈ s.activeIds
  | .markTokenGenerated id _ => id ∈ s.activeIds
  | .markFinished id => id ∈ s.activeIds
  | _ => True

section Cases

@[simp] theorem modifyState_frame (s : ContinuousBatchScheduler Elem) (sequenceId : Int)
    (f : SeqState → SeqState) :
    (s.modifyState sequenceId f).activeIds = s.activeIds ∧
      (s.modifyState sequenceId f).waitingQueue = s.waitingQueue ∧
      (s.modifyState sequenceId f).config = s.config := by
  unfold modifyState
  split <;> simp

theorem modifyState_state (s : ContinuousBatchScheduler Elem) (sequenceId other : Int)
    (f : SeqState → SeqState) :
    (s.modifyState sequenceId f).state other =
      if other = sequenceId then (s.state other).map f else s.state other := by
  unfold modifyState state
  by_cases negative : sequenceId < 0
  · by_cases same : other = sequenceId
    · subst same
      simp [negative]
    · simp [negative, same]
  · by_cases low : other < 0
    · simp [low]
    · by_cases same : other = sequenceId
      · subst same
        simp [negative]
      · have apart : sequenceId.toNat ≠ other.toNat := by omega
        simp [negative, low, same, apart]

/-- What an accepted request does. -/
structure Submits (s : ContinuousBatchScheduler Elem) (request : SequenceRequest)
    (after : ContinuousBatchScheduler Elem) : Prop where
  low : 0 ≤ s.chosenId request
  released : ∀ record, s.state (s.chosenId request) = some record → record.sequenceId < 0
  waiting : after.waitingQueue = s.waitingQueue ++ [s.chosenId request]
  active : after.activeIds = s.activeIds
  config : after.config = s.config
  cache : after.cache = s.cache
  fresh : after.state (s.chosenId request) = some
    { sequenceId := s.chosenId request, phase := .waiting, promptTokens := request.promptTokens,
      generatedTokens := [], maxTokens := request.maxTokens, prefilledTokens := 0 }
  others : ∀ id record, id ≠ s.chosenId request → s.state id = some record →
    after.state id = some record

theorem resizeStates_getElem? (states : List SeqState) (size i : Nat) {record : SeqState}
    (found : states[i]? = some record) : (resizeStates states size)[i]? = some record := by
  rw [resizeStates, List.getElem?_append_left (List.getElem?_eq_some_iff.mp found).1]
  exact found

/-- A request is rejected, and then only the counter and the number of records
can have grown, or it is queued under its id. -/
theorem submit_cases (s : ContinuousBatchScheduler Elem) (request : SequenceRequest) :
    ((s.submit request).1.isOk = false ∧
      (s.submit request).2.waitingQueue = s.waitingQueue ∧
      (s.submit request).2.activeIds = s.activeIds ∧
      (s.submit request).2.config = s.config ∧ (s.submit request).2.cache = s.cache ∧
      ∀ id record, s.state id = some record → (s.submit request).2.state id = some record) ∨
    (s.submit request).1 = .makeOk ∧ s.Submits request (s.submit request).2 := by
  unfold submit
  by_cases empty : request.promptTokens = []
  · exact Or.inl (by simp [empty])
  by_cases useless : request.maxTokens ≤ 0
  · exact Or.inl (by simp [empty, useless])
  by_cases negative : s.chosenId request < 0
  · exact Or.inl (by simp [empty, useless, negative, state])
  simp only [empty, useless, negative, if_false]
  have size : (s.chosenId request).toNat <
      (resizeStates s.states ((s.chosenId request).toNat + 1)).length := by
    simp [resizeStates]
    omega
  by_cases used : ((resizeStates s.states ((s.chosenId request).toNat + 1)).getD
      (s.chosenId request).toNat {}).sequenceId ≥ 0
  · left
    rw [if_pos used]
    refine ⟨rfl, rfl, rfl, rfl, rfl, fun id record found => ?_⟩
    unfold state at found ⊢
    split
    · next low => simp [low] at found
    · next low =>
        rw [if_neg low] at found
        exact resizeStates_getElem? _ _ _ found
  · right
    rw [if_neg used]
    refine ⟨rfl, by omega, ?_, rfl, rfl, rfl, rfl, ?_, ?_⟩
    · intro record found
      have grown : (resizeStates s.states ((s.chosenId request).toNat + 1))[
          (s.chosenId request).toNat]? = some record := by
        simp only [state, negative, if_false] at found
        exact resizeStates_getElem? _ _ _ found
      rw [List.getD_eq_getElem?_getD, grown] at used
      exact Int.not_le.mp used
    · simp [state, negative, size]
    · intro id record different found
      unfold state at found ⊢
      split
      · next low => simp [low] at found
      · next low =>
          rw [if_neg low] at found
          rw [List.getElem?_set_ne (by omega)]
          exact resizeStates_getElem? _ _ _ found

/-- The rule of the admission loop: what cache calls and single admissions keep,
the loop keeps. -/
theorem admitLoop_preserves (P : ContinuousBatchScheduler Elem → Prop) (queue : List Int)
    (s : ContinuousBatchScheduler Elem) (same : s.waitingQueue = queue) (start : P s)
    (ensure : ∀ s seqId, P s → P { s with cache := (s.cache.ensureSequence seqId).2 })
    (reserve : ∀ s seqId total, P s → P { s with cache := (s.cache.reserveSequence seqId total).2 })
    (accept : ∀ s seqId rest record, P s → s.waitingQueue = seqId :: rest →
      ¬ wrap32 s.activeIds.length ≥ s.config.maxBatchSize → s.state seqId = some record →
      P (s.activate seqId rest)) :
    P (admitLoop queue s).2 := by
  induction queue generalizing s with
  | nil => exact start
  | cons seqId rest ih =>
      unfold admitLoop
      by_cases full : wrap32 s.activeIds.length ≥ s.config.maxBatchSize
      · rw [if_pos full]
        exact start
      rw [if_neg full]
      cases found : s.state seqId with
      | none => exact start
      | some record =>
          have ensured := ensure s seqId start
          have reserved := reserve _ seqId (totalTokens record) ensured
          dsimp only
          split
          · exact ensured
          · split
            · exact reserved
            · apply ih
              · rfl
              · exact accept _ seqId rest record reserved same full found

theorem collectFinished_state (s : ContinuousBatchScheduler Elem) (id : Int) :
    s.collectFinished.2.state id = (s.state id).map fun record =>
      if collectible record then { record with sequenceId := -1 } else record := by
  unfold collectFinished state
  split <;> simp

theorem evictFrom_sublist (s : ContinuousBatchScheduler Elem) (ids : List Int)
    (cache : PagedKVCache Elem) : (evictFrom s ids cache).1.Sublist ids := by
  induction ids generalizing cache with
  | nil => exact List.Sublist.refl _
  | cons id rest ih =>
      unfold evictFrom
      cases s.state id with
      | none => exact List.Sublist.refl _
      | some record =>
          dsimp only
          split
          · exact (ih _).cons id
          · exact (ih _).cons_cons id

end Cases

end ContinuousBatchScheduler

end MiniLLM
