import MiniLLM.AdmissionControl

/-!
Blocks behind the active sequences. A request wants its prompt and its token
limit; admission reserves that many tokens, rounded up to blocks, in 32-bit
arithmetic. Requests whose rounded total fits an `int` are covered from their
admission to their eviction, whatever is admitted, evicted or written meanwhile.
-/

namespace MiniLLM

namespace PagedKVCache

open Loops

variable {Elem : Type}

/-- The table of the sequence has a place for each of the wanted tokens, and its
size in tokens is an `int`. -/
structure Covers (cache : PagedKVCache Elem) (sequenceId wanted : Int) : Prop where
  positive : 0 < wanted
  rounds : wanted + cache.blockSize ≤ 2147483648
  enough : wanted ≤ (cache.sequence sequenceId).blocks.length * cache.blockSize
  isInt : ((cache.sequence sequenceId).blocks.length : Int) * cache.blockSize < 2147483648

/-- A reservation of this many tokens either is exact or never succeeds: the total
rounded up to a block fits an `int`, or the 32-bit total is negative, or it needs
more blocks than there are. -/
def Reservable (cache : PagedKVCache Elem) (wanted : Int) : Prop :=
  wanted + cache.blockSize ≤ 2147483648 ∨ wrap32 wanted < 0 ∨
    cache.maxBlocks < cache.neededBlocks (wrap32 wanted)

theorem Covers.congr {before after : PagedKVCache Elem} {sequenceId wanted : Int}
    (covers : before.Covers sequenceId wanted) (size : after.blockSize = before.blockSize)
    (blocks : (after.sequence sequenceId).blocks = (before.sequence sequenceId).blocks) :
    after.Covers sequenceId wanted :=
  ⟨covers.positive, by rw [size]; exact covers.rounds, by rw [size, blocks]; exact covers.enough,
    by rw [size, blocks]; exact covers.isInt⟩

theorem Reservable.congr {before after : PagedKVCache Elem} {wanted : Int}
    (reservable : before.Reservable wanted) (size : after.blockSize = before.blockSize)
    (count : after.maxBlocks = before.maxBlocks) : after.Reservable wanted := by
  unfold Reservable neededBlocks at reservable ⊢
  rw [size, count]
  exact reservable

theorem Owned.blocks_le {cache : PagedKVCache Elem} (owned : cache.Owned) (sequenceId : Int) :
    (cache.sequence sequenceId).blocks.length + cache.freeBlocks.length ≤ cache.maxBlocks := by
  have size := owned.partition.length_eq
  rw [List.length_append, List.length_range] at size
  by_cases bound : sequenceId.toNat < cache.sequences.length
  · have split := (tables_perm cache sequenceId.toNat bound).length_eq
    have table : (cache.sequence sequenceId).blocks = cache.sequences[sequenceId.toNat].blocks := by
      simp [sequence, List.getD_eq_getElem?_getD, bound]
    rw [List.length_append, ← table] at split
    omega
  · have none : (cache.sequence sequenceId).blocks = [] := by
      simp [sequence, Nat.not_lt.mp bound]
    rw [none]
    simp only [List.length_nil]
    omega

theorem neededBlocks_eq (cache : PagedKVCache Elem) (totalTokens : Int) (positive : 0 < totalTokens)
    (size : 0 < cache.blockSize) (rounds : totalTokens + cache.blockSize ≤ 2147483648) :
    cache.neededBlocks totalTokens = (totalTokens + cache.blockSize - 1) / cache.blockSize := by
  rw [neededBlocks, if_neg (by omega)]
  exact ceilDivInt_eq _ _ (by omega) (by omega) rounds

/-- Rounding up to whole blocks. -/
theorem roundUp_bounds (wanted size : Int) (positive : 0 < size) :
    wanted ≤ (wanted + size - 1) / size * size ∧ (wanted + size - 1) / size * size < wanted + size := by
  have split := Int.mul_ediv_add_emod (wanted + size - 1) size
  have low := Int.emod_nonneg (wanted + size - 1) (by omega : size ≠ 0)
  have high := Int.emod_lt_of_pos (wanted + size - 1) positive
  rw [Int.mul_comm] at split
  omega

/-- A successful reservation makes the table as long as it needs to be. -/
theorem reserveSequence_blocks (cache : PagedKVCache Elem) (sequenceId totalTokens : Int)
    (fine : (cache.reserveSequence sequenceId totalTokens).1.isOk = true) :
    (((cache.reserveSequence sequenceId totalTokens).2.sequence sequenceId).blocks.length : Int) =
      max ((cache.sequence sequenceId).blocks.length : Int) (cache.neededBlocks totalTokens) := by
  obtain ⟨ensured, _, _, same⟩ := reserveSequence_ok cache sequenceId totalTokens fine
  obtain ⟨_, low, bound⟩ := ensureSequence_ok cache sequenceId ensured
  have grown := (takeBlocks_extends _ sequenceId
    (cache.missingBlocks sequenceId totalTokens).toNat bound).2
  have missing : cache.missingBlocks sequenceId totalTokens =
    cache.neededBlocks totalTokens - (cache.sequence sequenceId).blocks.length := rfl
  rw [ensureSequence_sequence] at grown
  rw [same, grown]
  omega

/-- An admitted request is covered. -/
theorem reserveSequence_covers_wanted (cache : PagedKVCache Elem) (sequenceId wanted : Int)
    (owned : cache.Owned) (positive : 0 < wanted) (reservable : cache.Reservable wanted)
    (isInt : ((cache.sequence sequenceId).blocks.length : Int) * cache.blockSize < 2147483648)
    (fine : (cache.reserveSequence sequenceId (wrap32 wanted)).1.isOk = true) :
    (cache.reserveSequence sequenceId (wrap32 wanted)).2.Covers sequenceId wanted := by
  obtain ⟨ensured, nonneg, room, _⟩ := reserveSequence_ok cache sequenceId (wrap32 wanted) fine
  have ready := (ensureSequence_ok cache sequenceId ensured).1
  have size : 0 < cache.blockSize := by
    simp [initialized] at ready
    exact ready.1
  have missing : cache.missingBlocks sequenceId (wrap32 wanted) =
    cache.neededBlocks (wrap32 wanted) - (cache.sequence sequenceId).blocks.length := rfl
  have total := owned.blocks_le sequenceId
  have rounds : wanted + cache.blockSize ≤ 2147483648 := by
    rcases reservable with rounds | negative | tooMany
    · exact rounds
    · omega
    · omega
  have exactTotal : wrap32 wanted = wanted := wrap32_eq wanted (by omega) (by omega)
  have length := reserveSequence_blocks cache sequenceId (wrap32 wanted) fine
  have needed := neededBlocks_eq cache wanted positive size rounds
  obtain ⟨above, below⟩ := roundUp_bounds wanted cache.blockSize (by omega)
  rw [exactTotal] at length ⊢
  rw [← needed] at above below
  refine ⟨positive, ?_, ?_, ?_⟩
  · rw [(reserveSequence_extends cache sequenceId wanted).blockSize]
    exact rounds
  · rw [(reserveSequence_extends cache sequenceId wanted).blockSize, length]
    exact Int.le_trans above
      (Int.mul_le_mul_of_nonneg_right (Int.le_max_right _ _) (by omega))
  · rw [(reserveSequence_extends cache sequenceId wanted).blockSize, length]
    rcases Int.le_total (cache.neededBlocks wanted) (cache.sequence sequenceId).blocks.length with
      less | more
    · rw [Int.max_eq_left less]
      exact isInt
    · rw [Int.max_eq_right more]
      omega

section Writes

theorem Covers.size {cache : PagedKVCache Elem} {sequenceId wanted : Int}
    (covers : cache.Covers sequenceId wanted) : 0 < cache.blockSize := by
  have positive := covers.positive
  have enough := covers.enough
  by_contra none
  have zero : cache.blockSize = 0 := by omega
  rw [zero] at enough
  omega

/-- A write below the wanted tokens finds its blocks in the table. -/
theorem Covers.reserves {cache : PagedKVCache Elem} {sequenceId wanted total : Int}
    (covers : cache.Covers sequenceId wanted) (owned : cache.Owned) (low : 0 ≤ sequenceId)
    (positive : 0 < total) (inside : total ≤ wanted) :
    (cache.reserveSequence sequenceId total).1 = .makeOk ∧
      ∀ other, ((cache.reserveSequence sequenceId total).2.sequence other).blocks =
        (cache.sequence other).blocks := by
  have enough := covers.enough
  have rounds := covers.rounds
  have size := covers.size
  have some : (cache.sequence sequenceId).blocks ≠ [] := by
    intro none
    rw [none] at enough
    simp only [List.length_nil] at enough
    omega
  have count : 0 < cache.maxBlocks := by
    have total := owned.blocks_le sequenceId
    have length := List.length_pos_iff.mpr some
    omega
  have ready : cache.initialized = true := by simp [initialized, size, count]
  have needed : cache.neededBlocks total ≤ (cache.sequence sequenceId).blocks.length := by
    rw [neededBlocks_eq cache total positive size (by omega), Int.ediv_le_iff_le_mul (by omega)]
    omega
  have missing : cache.missingBlocks sequenceId total =
    cache.neededBlocks total - (cache.sequence sequenceId).blocks.length := rfl
  have fine := reserveSequence_succeeds cache sequenceId total ready low (by omega) (by omega)
  refine ⟨fine, fun other => ?_⟩
  obtain ⟨_, _, _, same⟩ := reserveSequence_ok cache sequenceId total (by rw [fine]; rfl)
  have none : (cache.missingBlocks sequenceId total).toNat = 0 := Int.toNat_of_nonpos (by omega)
  rw [same, none]
  change ((cache.ensureSequence sequenceId).2.sequence other).blocks = _
  rw [ensureSequence_sequence]

/-- A write, failed or not, extends the tables of the reservation it makes and
changes lengths and storage otherwise. -/
theorem writeTokens_within (cache : PagedKVCache Elem) (sequenceId layer startPos : Int)
    (k v : Option (Buffer Elem)) (tokenCount wanted : Int) (owned : cache.Owned)
    (low : 0 ≤ sequenceId) (covers : cache.Covers sequenceId wanted)
    (inside : startPos + tokenCount ≤ wanted) (other : Int) :
    (((cache.writeTokens sequenceId layer startPos k v tokenCount).2.sequence other).blocks =
        (cache.sequence other).blocks) ∧
      (cache.writeTokens sequenceId layer startPos k v tokenCount).2.blockSize = cache.blockSize ∧
      (cache.writeTokens sequenceId layer startPos k v tokenCount).2.maxBlocks = cache.maxBlocks := by
  rcases writeTokens_cases cache sequenceId layer startPos k v tokenCount with
    ⟨same, _⟩ | ⟨kb, vb, _, _, accepts, writes⟩
  · rw [same]
    exact ⟨rfl, rfl, rfl⟩
  obtain ⟨nonneg, positive, _, _⟩ := accepts
  have rounds := covers.rounds
  have size := covers.size
  have endPos : wrap32 (startPos + tokenCount) = startPos + tokenCount :=
    wrap32_eq _ (by omega) (by omega)
  have reserved := (covers.reserves owned low (by omega) inside).2 other
  have extended := reserveSequence_extends cache sequenceId (startPos + tokenCount)
  generalize cache.writeTokens sequenceId layer startPos k v tokenCount = result at writes
  cases writes with
  | noBlocks _ =>
      rw [endPos]
      exact ⟨reserved, extended.blockSize, extended.maxBlocks⟩
  | stopped st after _ wrote =>
      have frame := writeRows_frame
        (cache.reserveSequence sequenceId (wrap32 (startPos + tokenCount))).2
        sequenceId layer startPos kb vb tokenCount.toNat
      rw [wrote, endPos] at frame
      rw [frame]
      exact ⟨reserved, extended.blockSize, extended.maxBlocks⟩
  | written after fine wrote =>
      have frame := writeRows_frame
        (cache.reserveSequence sequenceId (wrap32 (startPos + tokenCount))).2
        sequenceId layer startPos kb vb tokenCount.toNat
      rw [wrote, endPos] at frame
      dsimp only at frame
      have known := (reserveSequence_known cache sequenceId _ fine).2
      rw [endPos] at known
      have bound : sequenceId.toNat < after.sequences.length := by
        rw [frame]
        exact known
      refine ⟨?_, by rw [← extended.blockSize, frame]; rfl, by rw [← extended.maxBlocks, frame]; rfl⟩
      have blocks : (after.sequence other).blocks = (cache.sequence other).blocks := by
        rw [frame]
        exact reserved
      dsimp only
      rw [modifySequence_sequence after sequenceId other _ bound]
      split
      · exact blocks
      · exact blocks

/-- Below the wanted tokens a write with rows for a layer of the cache succeeds. -/
theorem Covers.writes [Zero Elem] {cache : PagedKVCache Elem} {sequenceId wanted : Int}
    (covers : cache.Covers sequenceId wanted) (owned : cache.Owned) (low : 0 ≤ sequenceId)
    (layer startPos tokenCount : Int) (k v : Buffer Elem) (layerLow : 0 ≤ layer)
    (layerHigh : layer < cache.numLayers) (nonneg : 0 ≤ startPos) (count : 0 ≤ tokenCount)
    (inside : startPos + tokenCount ≤ wanted) :
    (cache.writeTokens sequenceId layer startPos (some k) (some v) tokenCount).1 = .makeOk := by
  have rounds := covers.rounds
  have size := covers.size
  have endPos : wrap32 (startPos + tokenCount) = startPos + tokenCount :=
    wrap32_eq _ (by omega) (by omega)
  unfold writeTokens
  dsimp only
  rw [if_neg (by omega), if_neg (by omega)]
  by_cases empty : tokenCount = 0
  · rw [if_pos empty]
  rw [if_neg empty, endPos]
  obtain ⟨fine, blocks⟩ := covers.reserves owned low (by omega) inside
  have fineOk : (cache.reserveSequence sequenceId (startPos + tokenCount)).1.isOk = true := by
    rw [fine]
    rfl
  have extended := reserveSequence_extends cache sequenceId (startPos + tokenCount)
  have stays := reserveSequence_owned cache sequenceId (startPos + tokenCount) owned
  have known := (reserveSequence_known cache sequenceId _ fineOk).2
  generalize cache.reserveSequence sequenceId (startPos + tokenCount) = result
    at fine blocks extended stays known
  obtain ⟨st, base⟩ := result
  simp only at fine blocks extended stays known
  rw [fine]
  have covered : ∀ t : Nat, t < tokenCount.toNat →
      ∃ block, base.physicalBlockForPosition sequenceId (startPos + t) = .ok block := by
    intro t below
    have enough := covers.enough
    have logical : (startPos + t).toNat / base.blockSize < (base.sequence sequenceId).blocks.length := by
      rw [extended.blockSize, blocks sequenceId, Nat.div_lt_iff_lt_mul size]
      have position : ((startPos + t).toNat : Int) = startPos + t := Int.toNat_of_nonneg (by omega)
      have tokens : (startPos + t).toNat <
          (cache.sequence sequenceId).blocks.length * cache.blockSize := by
        apply Int.ofNat_lt.mp
        rw [position, Int.natCast_mul]
        omega
      exact tokens
    exact ⟨_, (physicalBlock_ok_iff base sequenceId (startPos + t) _).mpr
      ⟨low, known, by omega, List.getElem?_eq_getElem logical⟩⟩
  have rows := writeRows_holds base { width := base.kvHidden } sequenceId layer startPos k v
    tokenCount.toNat stays (by dsimp only) (by rw [extended.blockSize]; exact size) layerLow
    (by rw [numLayers, extended.layers]; exact layerHigh) nonneg (by omega) covered
    (fun _ _ _ _ none => by simp at none)
  unfold writeRows at rows
  simp only [Status.isOk_makeOk, Bool.not_true, Bool.false_eq_true, if_false]
  generalize Loops.loopTry tokenCount.toNat (writeRow sequenceId layer startPos k v) base = written
    at rows
  obtain ⟨err, after⟩ := written
  cases err with
  | none => rfl
  | some err => exact rows.elim

theorem Covers.capacity {cache : PagedKVCache Elem} {sequenceId wanted : Int}
    (covers : cache.Covers sequenceId wanted) (low : 0 ≤ sequenceId) :
    cache.sequenceCapacity sequenceId =
      (cache.sequence sequenceId).blocks.length * cache.blockSize := by
  have positive := covers.positive
  have enough := covers.enough
  have isInt := covers.isInt
  have bound : sequenceId.toNat < cache.sequences.length := by
    by_contra beyond
    have none : (cache.sequence sequenceId).blocks = [] := by
      simp [sequence, Nat.not_lt.mp beyond]
    rw [none] at enough
    simp only [List.length_nil] at enough
    omega
  have knows : cache.known sequenceId = true := by simp [known, low, bound]
  unfold sequenceCapacity
  rw [knows, wrap32_eq _ (by omega) isInt]
  rfl

/-- The same blocks cover another request that they have room for. -/
theorem Covers.resize {cache : PagedKVCache Elem} {sequenceId before wanted : Int}
    (covers : cache.Covers sequenceId before) (positive : 0 < wanted)
    (sizeInt : cache.blockSize < 2147483648) (owned : cache.Owned)
    (enough : wanted ≤ (cache.sequence sequenceId).blocks.length * cache.blockSize)
    (reservable : cache.Reservable wanted) : cache.Covers sequenceId wanted := by
  refine ⟨positive, ?_, enough, covers.isInt⟩
  have isInt := covers.isInt
  have exactTotal : wrap32 wanted = wanted := wrap32_eq wanted (by omega) (by omega)
  rcases reservable with rounds | negative | tooMany
  · exact rounds
  · omega
  · rw [exactTotal] at tooMany
    have total := owned.blocks_le sequenceId
    have few := (neededBlocks_le_iff cache wanted (cache.sequence sequenceId).blocks.length
      covers.size sizeInt (by omega) (by omega)).mpr (Or.inl enough)
    omega

end Writes

end PagedKVCache

namespace ContinuousBatchScheduler

variable {Elem : Type}

def wanted (record : SeqState) : Int := record.promptTokens.length + record.maxTokens

/-- An accepted request wants a reservable number of tokens and, if its id is still
active, no more than that sequence has blocks for. Callers write to active
sequences, below the tokens these want. -/
def Reserving (s : ContinuousBatchScheduler Elem) : Op Elem → Prop
  | .submit request =>
      (s.submit request).1.isOk = true →
        s.cache.Reservable (request.promptTokens.length + request.maxTokens) ∧
          (s.chosenId request ∈ s.activeIds →
            request.promptTokens.length + request.maxTokens ≤
              s.cache.sequenceCapacity (s.chosenId request))
  | .cacheCall (.writeTokens id _ startPos _ _ tokenCount) =>
      id ∈ s.activeIds ∧
        ∃ record, s.state id = some record ∧ startPos + tokenCount ≤ wanted record
  | .cacheCall _ => False
  | _ => True

/-- Active sequences are covered, waiting requests will be. -/
structure Reserved (s : ContinuousBatchScheduler Elem) : Prop where
  held : s.Held
  waiting : ∀ id ∈ s.waitingQueue, ∀ record, s.state id = some record →
    0 < wanted record ∧ s.cache.Reservable (wanted record)
  active : ∀ id ∈ s.activeIds, ∀ record, s.state id = some record →
    s.cache.Covers id (wanted record)

theorem submit_reserved {s : ContinuousBatchScheduler Elem} (request : SequenceRequest)
    (kept : s.Reserved) (reserving : s.Reserving (.submit request)) :
    (s.submit request).2.Reserved := by
  have held := submit_held request kept.held
  rcases submit_cases s request with ⟨_, waiting, active, _, cache, states⟩ | ⟨fine, submits⟩
  · have same : ∀ id, id ∈ s.waitingQueue ∨ id ∈ s.activeIds → ∀ record,
        (s.submit request).2.state id = some record → s.state id = some record := by
      intro id member record found
      obtain ⟨old, lookup⟩ := kept.held.listed id member
      rw [states id old lookup] at found
      rw [lookup, found]
    refine ⟨held, fun id member record found => ?_, fun id member record found => ?_⟩
    · rw [waiting] at member
      rw [cache]
      exact kept.waiting id member record (same id (Or.inl member) record found)
    · rw [active] at member
      rw [cache]
      exact kept.active id member record (same id (Or.inr member) record found)
  · have accepted : (s.submit request).1.isOk = true := by rw [fine]; rfl
    have positive := submit_positive accepted
    obtain ⟨reservable, capacity⟩ := reserving accepted
    have same : ∀ id, id ≠ s.chosenId request → id ∈ s.waitingQueue ∨ id ∈ s.activeIds →
        ∀ record, (s.submit request).2.state id = some record → s.state id = some record := by
      intro id apart member record found
      obtain ⟨old, lookup⟩ := kept.held.listed id member
      rw [submits.others id old apart lookup] at found
      rw [lookup, found]
    refine ⟨held, fun id member record found => ?_, fun id member record found => ?_⟩
    · rw [submits.cache]
      by_cases new : id = s.chosenId request
      · rw [new, submits.fresh] at found
        obtain rfl := Option.some.inj found
        exact ⟨by simp only [wanted]; omega, reservable⟩
      · rw [submits.waiting, List.mem_append, List.mem_singleton] at member
        have old : id ∈ s.waitingQueue := by simpa [new] using member
        exact kept.waiting id old record (same id new (Or.inl old) record found)
    · rw [submits.cache]
      rw [submits.active] at member
      by_cases new : id = s.chosenId request
      · rw [new, submits.fresh] at found
        obtain rfl := Option.some.inj found
        subst new
        obtain ⟨old, lookup⟩ := kept.held.listed _ (Or.inr member)
        have before := kept.active _ member old lookup
        have enough := capacity member
        rw [before.capacity submits.low] at enough
        exact before.resize (by simp only [wanted]; omega) kept.held.isInt kept.held.owned enough
          reservable
      · exact kept.active id member record (same id new (Or.inr member) record found)

/-- Whatever keeps the lists, the cache and what each record wants. -/
theorem Reserved.congr {before after : ContinuousBatchScheduler Elem} (kept : before.Reserved)
    (held : after.Held) (waiting : ∀ id ∈ after.waitingQueue, id ∈ before.waitingQueue)
    (active : ∀ id ∈ after.activeIds, id ∈ before.activeIds) (cache : after.cache = before.cache)
    (states : ∀ id record, after.state id = some record →
      ∃ old, before.state id = some old ∧ wanted record = wanted old) : after.Reserved := by
  refine ⟨held, fun id member record found => ?_, fun id member record found => ?_⟩
  · obtain ⟨old, lookup, same⟩ := states id record found
    rw [cache, same]
    exact kept.waiting id (waiting id member) old lookup
  · obtain ⟨old, lookup, same⟩ := states id record found
    rw [cache, same]
    exact kept.active id (active id member) old lookup

theorem modifyState_cache (s : ContinuousBatchScheduler Elem) (id : Int)
    (f : SeqState → SeqState) : (s.modifyState id f).cache = s.cache := by
  unfold modifyState
  split <;> rfl

theorem modifyState_reserved {s : ContinuousBatchScheduler Elem} (id : Int)
    (f : SeqState → SeqState) (keeps : ∀ record, (f record).promptTokens = record.promptTokens ∧
      (f record).maxTokens = record.maxTokens)
    (kept : s.Reserved) : (s.modifyState id f).Reserved := by
  obtain ⟨active, waiting, _⟩ := modifyState_frame s id f
  refine kept.congr (modifyState_held id f kept.held) (fun _ member => by rwa [waiting] at member)
    (fun _ member => by rwa [active] at member) (modifyState_cache s id f) fun other record found => ?_
  rw [modifyState_state] at found
  split at found
  · obtain ⟨old, lookup, rfl⟩ := Option.map_eq_some_iff.mp found
    exact ⟨old, lookup, by rw [wanted, wanted, (keeps old).1, (keeps old).2]⟩
  · exact ⟨record, found, rfl⟩

theorem ensureSequence_reserved {s : ContinuousBatchScheduler Elem} (seqId : Int)
    (kept : s.Reserved) : Reserved { s with cache := (s.cache.ensureSequence seqId).2 } := by
  have extended := PagedKVCache.ensureSequence_extends s.cache seqId
  refine ⟨ensureSequence_held seqId kept.held, fun id member record found => ?_,
    fun id member record found => ?_⟩
  · obtain ⟨positive, reservable⟩ := kept.waiting id member record found
    exact ⟨positive, reservable.congr extended.blockSize extended.maxBlocks⟩
  · exact (kept.active id member record found).congr extended.blockSize
      (by rw [PagedKVCache.ensureSequence_sequence])

theorem admitHead_reserved {s : ContinuousBatchScheduler Elem} (seqId : Int) (rest : List Int)
    (record : SeqState) (kept : s.Reserved) (admissible : s.Admissible seqId rest record) :
    (s.admitHead seqId rest record).Reserved := by
  have extended := PagedKVCache.reserveSequence_extends s.cache seqId (totalTokens record)
  have isHead : seqId ∈ s.waitingQueue := by
    rw [admissible.head]
    exact List.mem_cons_self
  -- Only the head's phase changes.
  have states : ∀ id now, (s.admitHead seqId rest record).state id = some now →
      ∃ old, s.state id = some old ∧ wanted now = wanted old := by
    intro id now found
    rw [admitHead_state] at found
    split at found
    · obtain ⟨old, lookup, rfl⟩ := Option.map_eq_some_iff.mp found
      exact ⟨old, lookup, rfl⟩
    · exact ⟨now, found, rfl⟩
  refine ⟨admitHead_held seqId rest record kept.held admissible, fun id member now found => ?_,
    fun id member now found => ?_⟩
  · obtain ⟨old, lookup, same⟩ := states id now found
    have before : id ∈ s.waitingQueue := by
      rw [admissible.head]
      exact List.mem_cons_of_mem _ member
    obtain ⟨positive, reservable⟩ := kept.waiting id before old lookup
    rw [admitHead_cache, same]
    exact ⟨positive, reservable.congr extended.blockSize extended.maxBlocks⟩
  · obtain ⟨old, lookup, same⟩ := states id now found
    rw [admitHead_cache, same]
    by_cases isHere : id = seqId
    · subst isHere
      obtain rfl := Option.some.inj (lookup.symm.trans admissible.found)
      obtain ⟨positive, reservable⟩ := kept.waiting id isHead old lookup
      have total : totalTokens old = wrap32 (wanted old) := totalTokens_eq old
      have isInt : ((s.cache.sequence id).blocks.length : Int) * s.cache.blockSize < 2147483648 := by
        by_cases runs : id ∈ s.activeIds
        · exact (kept.active id runs old lookup).isInt
        · have none : (s.cache.sequence id).blocks = [] := by
            by_contra holds
            exact runs (kept.held.held id (state_low lookup) holds)
          simp [none]
      have reserved := admissible.reserved
      rw [total] at reserved ⊢
      exact PagedKVCache.reserveSequence_covers_wanted s.cache id (wanted old) kept.held.owned
        positive reservable isInt reserved
    · have before : id ∈ s.activeIds := by
        rcases List.mem_append.mp member with old | new
        · simpa using old
        · exact absurd (List.mem_singleton.mp new) isHere
      exact (kept.active id before old lookup).congr extended.blockSize
        (by rw [PagedKVCache.reserveSequence_others s.cache seqId id _ (state_low lookup) isHere])

theorem evictFinished_reserved {s : ContinuousBatchScheduler Elem} (kept : s.Reserved) :
    s.evictFinished.Reserved := by
  have held := evictFinished_held kept.held
  rw [evictFinished_eq fun id member => kept.held.listed id (Or.inr member)] at held ⊢
  refine ⟨held, fun id member record found => ?_, fun id member record found => ?_⟩
  · obtain ⟨positive, reservable⟩ := kept.waiting id member record found
    exact ⟨positive, reservable.congr (freeAll_geometry _ _).1 (freeAll_geometry _ _).2⟩
  · obtain ⟨before, isOpen⟩ := List.mem_filter.mp member
    refine (kept.active id before record found).congr (freeAll_geometry _ _).1 ?_
    rw [freeAll_sequence _ _ id (state_low found), if_neg]
    intro freed
    rw [(List.mem_filter.mp freed).2] at isOpen
    simp at isOpen

theorem collectFinished_reserved {s : ContinuousBatchScheduler Elem} (kept : s.Reserved) :
    s.collectFinished.2.Reserved := by
  refine kept.congr (collectFinished_held kept.held) (fun _ member => member)
    (fun _ member => member) rfl fun id record found => ?_
  rw [collectFinished_state] at found
  obtain ⟨old, lookup, rfl⟩ := Option.map_eq_some_iff.mp found
  refine ⟨old, lookup, ?_⟩
  split <;> rfl

theorem writeTokens_reserved {s : ContinuousBatchScheduler Elem} (id layer startPos : Int)
    (k v : Option (Loops.Buffer Elem)) (tokenCount : Int) (kept : s.Reserved)
    (member : id ∈ s.activeIds) {record : SeqState} (found : s.state id = some record)
    (inside : startPos + tokenCount ≤ wanted record) :
    Reserved { s with cache := (s.cache.writeTokens id layer startPos k v tokenCount).2 } := by
  have within := PagedKVCache.writeTokens_within s.cache id layer startPos k v tokenCount
    (wanted record) kept.held.owned (state_low found) (kept.active id member record found) inside
  obtain ⟨_, size, count⟩ := within 0
  refine ⟨⟨PagedKVCache.writeTokens_owned s.cache id layer startPos k v tokenCount kept.held.owned,
    by rw [size]; exact kept.held.isInt, kept.held.listed, fun other low holds => ?_⟩,
    fun other waits old lookup => ?_, fun other runs old lookup => ?_⟩
  · dsimp only at holds
    rw [(within other).1] at holds
    exact kept.held.held other low holds
  · obtain ⟨positive, reservable⟩ := kept.waiting other waits old lookup
    exact ⟨positive, reservable.congr size count⟩
  · exact (kept.active other runs old lookup).congr size (within other).1

theorem step_reserved [Zero Elem] {s : ContinuousBatchScheduler Elem} (op : Op Elem)
    (kept : s.Reserved) (reserving : s.Reserving op) : (s.step op).Reserved := by
  cases op with
  | submit request => exact submit_reserved request kept reserving
  | admitWaiting =>
      exact admitWaiting_rule Reserved s kept (fun s seqId => ensureSequence_reserved seqId)
        fun s seqId rest record => admitHead_reserved seqId rest record
  | markPrefillProgress id _ | markTokenGenerated id _ | markFinished id =>
      exact modifyState_reserved id _ (fun _ => ⟨rfl, rfl⟩) kept
  | evictFinished => exact evictFinished_reserved kept
  | collectFinished => exact collectFinished_reserved kept
  | cacheCall op =>
      cases op with
      | writeTokens id layer startPos k v tokenCount =>
          obtain ⟨member, record, found, inside⟩ := reserving
          exact writeTokens_reserved id layer startPos k v tokenCount kept member found inside
      | _ => exact reserving.elim

theorem start_reserved [Zero Elem] (start : PagedKVCache.Empty Elem) (config : Config) :
    Reserved { cache := start.cache, config := config } := by
  refine ⟨start_held start config, fun id member => ?_, fun id member => ?_⟩
  · exact absurd member List.not_mem_nil
  · exact absurd member List.not_mem_nil

theorem runs_reserved [Zero Elem] (start : PagedKVCache.Empty Elem) (config : Config)
    (ops : List (Op Elem))
    (reserving : Machine.Guarded step Reserving { cache := start.cache, config := config } ops) :
    (runs start.cache config ops).Reserved :=
  Machine.guarded_invariant step Reserving Reserved (fun _ op kept => step_reserved op kept) _ ops
    (start_reserved start config) reserving

/-- In runs whose accepted requests are reservable, every active sequence has room
for its prompt and all the tokens it may generate, and a write of any of these
succeeds. -/
theorem reservation_sufficiency [Zero Elem] (start : PagedKVCache.Empty Elem) (config : Config)
    (ops : List (Op Elem))
    (reserving : Machine.Guarded step Reserving { cache := start.cache, config := config } ops)
    (id : Int) (isActive : id ∈ (runs start.cache config ops).activeIds) :
    ∃ record, (runs start.cache config ops).state id = some record ∧
      record.promptTokens.length + record.maxTokens ≤
        (runs start.cache config ops).cache.sequenceCapacity id ∧
      ∀ (layer startPos tokenCount : Int) (k v : Loops.Buffer Elem), 0 ≤ layer →
        layer < (runs start.cache config ops).cache.numLayers → 0 ≤ startPos → 0 ≤ tokenCount →
        startPos + tokenCount ≤ record.promptTokens.length + record.maxTokens →
        ((runs start.cache config ops).cache.writeTokens id layer startPos (some k) (some v)
          tokenCount).1 = .makeOk := by
  have kept := runs_reserved start config ops reserving
  obtain ⟨record, found⟩ := kept.held.listed id (Or.inr isActive)
  have covers := kept.active id isActive record found
  have low := state_low found
  refine ⟨record, found, ?_, ?_⟩
  · rw [covers.capacity low]
    exact covers.enough
  · intro layer startPos tokenCount k v layerLow layerHigh nonneg count inside
    exact covers.writes kept.held.owned low layer startPos tokenCount k v layerLow layerHigh nonneg
      count inside

def admitted : List (Op Nat) := [.submit { promptTokens := [1], maxTokens := 2 }, .admitWaiting]

theorem reservation_sufficiency_admitted :
    ∃ record, (runs oneBlock.cache {} admitted).state 0 = some record ∧
      record.promptTokens.length + record.maxTokens ≤
        (runs oneBlock.cache {} admitted).cache.sequenceCapacity 0 := by
  obtain ⟨record, found, enough, _⟩ := reservation_sufficiency oneBlock {} admitted
    ⟨fun _ => ⟨Or.inl (by decide), by decide⟩, trivial, trivial⟩ 0 (by decide)
  exact ⟨record, found, enough⟩

-- The total is `INT_MAX`; rounding it up to blocks of four overflows.
def overflowing : List (Op Nat) :=
  [.submit { promptTokens := [1], maxTokens := 2147483646 }, .admitWaiting]

/-- The request is admitted to a cache of one block, with no block at all. -/
theorem underreserved_request :
    (∀ op ∈ overflowing, op.Own) ∧ (0 : Int) ∈ (runs oneBlock.cache {} overflowing).activeIds ∧
      (∃ record, (runs oneBlock.cache {} overflowing).state 0 = some record ∧
        record.phase = .prefilling ∧ record.promptTokens.length + record.maxTokens = 2147483647) ∧
      (runs oneBlock.cache {} overflowing).cache.sequenceCapacity 0 = 0 ∧
      ((runs oneBlock.cache {} overflowing).cache.writeTokens 0 0 0 (some fun _ => 1)
        (some fun _ => 1) 5).1 = .outOfRange "PagedKVCache does not have enough free blocks" :=
  ⟨by simp [overflowing, Op.Own], by decide, ⟨_, rfl, by decide, by decide⟩, by decide, by decide⟩

end ContinuousBatchScheduler

end MiniLLM
