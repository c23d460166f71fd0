import MiniLLM.RowRefinement

/-!
Runs of the paged cache beside their row map. Each call of the cache refines the
update of the map, so along a run `key_ptr` and `value_ptr` return what the map
holds.
-/

namespace MiniLLM.PagedKVCache

open Loops

variable {Elem : Type} [Zero Elem]

/-- The positions a write computes stay inside `int`. -/
def FitsInt (cache : PagedKVCache Elem) : Op Elem → Prop
  | .writeTokens _ _ start _ _ count => start + count + cache.blockSize < 2147483648
  | .appendTokens id _ _ _ count =>
      cache.sequenceLength id + count + cache.blockSize < 2147483648
  | _ => True

instance (cache : PagedKVCache Elem) : (op : Op Elem) → Decidable (cache.FitsInt op)
  | .writeTokens _ _ _ _ _ _ => inferInstanceAs (Decidable (_ < _))
  | .appendTokens _ _ _ _ _ => inferInstanceAs (Decidable (_ < _))
  | .init _ _ _ _ _ | .reset | .ensureSequence _ | .reserveSequence _ _
  | .setSequenceLength _ _ | .freeSequence _ => inferInstanceAs (Decidable True)

def Fits (cache : PagedKVCache Elem) (op : Op Elem) : Prop := cache.FitsInt op ∧ op.Bounded

instance (cache : PagedKVCache Elem) (op : Op Elem) : Decidable (cache.Fits op) :=
  inferInstanceAs (Decidable (_ ∧ _))

/-- The cache and the map it stands for, one call later. -/
def mappedStep (state : PagedKVCache Elem × RowMap Elem) (op : Op Elem) :
    PagedKVCache Elem × RowMap Elem :=
  (state.1.step op, state.2.after op (state.1.apply op).1.isOk)

/-- The map a run of calls stands for. -/
def rowMap (ops : List (Op Elem)) : RowMap Elem := (Machine.run mappedStep ({}, {}) ops).2

section Steps

omit [Zero Elem] in
theorem uninitialized_length (cache : PagedKVCache Elem) (empty : cache.sequences = [])
    (id : Int) : cache.sequenceLength id = 0 := by
  simp [sequenceLength, known, empty]

omit [Zero Elem] in
theorem release_rowFits (cache : PagedKVCache Elem) : cache.release.RowFits := by
  simp [RowFits, release]

theorem release_refines (cache : PagedKVCache Elem) : cache.release.Refines {} := by
  have fits := release_rowFits cache
  have width : cache.release.kvHidden = 0 := by rw [kvHidden_eq fits, release, Nat.mul_zero]
  exact ⟨release_owned cache, fits, width.symm, uninitialized_length _ rfl,
    fun _ _ _ _ none => by simp at none⟩

omit [Zero Elem] in
/-- The floats of a row, in `Nat` as in `int`. -/
theorem rowFloats_fit {heads dim : Int} (high : heads * dim < 2147483648) (low : 0 < heads)
    (positive : 0 < dim) : heads.toNat * dim.toNat < 2147483648 := by
  have same : ((heads.toNat * dim.toNat : Nat) : Int) = heads * dim := by
    rw [Nat.cast_mul, Int.toNat_of_nonneg low.le, Int.toNat_of_nonneg positive.le]
  omega

theorem init_refines (cache : PagedKVCache Elem) (layers heads dim size blocks : Int)
    (bounds : (Op.init layers heads dim size blocks : Op Elem).Bounded) :
    (cache.init layers heads dim size blocks).2.Refines
      (if (cache.init layers heads dim size blocks).1.isOk then
        { width := heads.toNat * dim.toNat } else {}) := by
  have owned := init_owned cache layers heads dim size blocks
  unfold init at owned ⊢
  dsimp only at owned ⊢
  split
  · exact release_refines cache
  · next positive =>
      rw [if_neg positive] at owned
      have fits := rowFloats_fit (bounds (by omega)).1 (by omega) (by omega)
      refine ⟨owned, fits, ?_, uninitialized_length _ rfl, fun _ _ _ _ none => by simp at none⟩
      simp only [Status.isOk_makeOk, if_true]
      rw [kvHidden_eq]
      exact fits

theorem reset_refines {cache : PagedKVCache Elem} {map : RowMap Elem}
    (refined : cache.Refines map) : cache.reset.Refines { width := map.width } :=
  ⟨reset_owned cache, refined.rowFits, refined.width, uninitialized_length _ rfl,
    fun _ _ _ _ none => by simp at none⟩

/-- Growing tables without changing a length keeps the map. -/
theorem Refines.extends {before after : PagedKVCache Elem} {map : RowMap Elem}
    (refined : before.Refines map) (extended : Extends before after) (owned : after.Owned)
    (lengths : ∀ id, after.sequenceLength id = before.sequenceLength id) : after.Refines map :=
  ⟨owned, refined.rowFits.extends extended, refined.width.trans extended.kvHidden.symm,
    fun id => (lengths id).trans (refined.length id), refined.rows.extends extended⟩

theorem ensureSequence_refines {cache : PagedKVCache Elem} {map : RowMap Elem} (sequenceId : Int)
    (refined : cache.Refines map) : (cache.ensureSequence sequenceId).2.Refines map := by
  refine refined.extends (ensureSequence_extends cache sequenceId)
    (ensureSequence_owned cache sequenceId refined.owned) fun id => ?_
  rw [sequenceLength_eq, sequenceLength_eq, ensureSequence_sequence]

theorem reserveSequence_refines {cache : PagedKVCache Elem} {map : RowMap Elem}
    (sequenceId totalTokens : Int) (refined : cache.Refines map) :
    (cache.reserveSequence sequenceId totalTokens).2.Refines map :=
  refined.extends (reserveSequence_extends cache sequenceId totalTokens)
    (reserveSequence_owned cache sequenceId totalTokens refined.owned)
    (reserveSequence_lengths cache sequenceId totalTokens)

/-- Changing one length changes one length of the map. -/
theorem modifyLength_refines {cache : PagedKVCache Elem} {map : RowMap Elem} (sequenceId : Int)
    (f : Sequence → Sequence) (keeps : ∀ seq, (f seq).blocks = seq.blocks) (low : 0 ≤ sequenceId)
    (bound : sequenceId.toNat < cache.sequences.length) (refined : cache.Refines map) :
    (cache.modifySequence sequenceId f).Refines
      (map.withLength sequenceId (f (cache.sequence sequenceId)).length) := by
  have extended := modifyLength_extends cache sequenceId f keeps bound
  have rows : (cache.modifySequence sequenceId f).RowsHold map := refined.rows.extends extended
  refine ⟨modifyLength_owned cache sequenceId f keeps refined.owned, refined.rowFits, refined.width,
    fun id => ?_, rows⟩
  rw [modifyLength_lengths cache sequenceId id f low bound, refined.length]
  rfl

theorem setSequenceLength_refines {cache : PagedKVCache Elem} {map : RowMap Elem}
    (sequenceId length : Int) (refined : cache.Refines map) :
    (cache.setSequenceLength sequenceId length).2.Refines
      (if (cache.setSequenceLength sequenceId length).1.isOk then
        map.withLength sequenceId length else map) := by
  have reserved := reserveSequence_refines sequenceId length refined
  have knows := reserveSequence_known cache sequenceId length
  unfold setSequenceLength
  generalize cache.reserveSequence sequenceId length = result at reserved knows
  by_cases negative : length < 0
  · simpa [negative] using refined
  cases fine : result.1.isOk with
  | false => simpa [negative, fine] using reserved
  | true =>
      obtain ⟨low, bound⟩ := knows fine
      simpa [negative, fine] using modifyLength_refines sequenceId
        (fun seq => { seq with length := length }) (fun _ => rfl) low bound reserved

omit [Zero Elem] in
/-- What a write loop leaves in place of the cache it started from. -/
theorem stored_refines [Zero Elem] {base after : PagedKVCache Elem} {map later : RowMap Elem}
    (refined : base.Refines map) (frame : after = { base with layers := after.layers })
    (width : later.width = map.width) (length : later.length = map.length)
    (stored : after.RowsHold later) : after.Refines later := by
  refine ⟨by rw [frame]; exact refined.owned.congr rfl rfl rfl rfl,
    by rw [frame]; exact refined.rowFits, ?_, fun id => ?_, stored⟩
  · rw [frame, width]
    exact refined.width
  · rw [frame, length]
    exact refined.length id

/-- A write whose rows are stored whole or not at all refines the write of the map. -/
theorem writes_refines {cache : PagedKVCache Elem} {map : RowMap Elem}
    {sequenceId layer startPos : Int} {k v : Buffer Elem} {tokenCount : Int}
    {result : Status × PagedKVCache Elem} (refined : cache.Refines map) (nonempty : tokenCount ≠ 0)
    (rows : (cache.reserveSequence sequenceId (wrap32 (startPos + tokenCount))).1.isOk = true →
      wrap32 (startPos + tokenCount) = startPos + tokenCount ∧
      Ends (fun after => after.RowsHold (map.written sequenceId layer startPos k v tokenCount.toNat))
        (fun st after => st.isOk = false ∧ after.RowsHold map)
        ((cache.reserveSequence sequenceId (wrap32 (startPos + tokenCount))).2.writeRows
          sequenceId layer startPos k v tokenCount.toNat))
    (writes : cache.Writes sequenceId layer startPos k v tokenCount result) :
    result.2.Refines
      (if result.1.isOk then map.write sequenceId layer startPos (some k) (some v) tokenCount
        else map) := by
  have reserved := reserveSequence_refines sequenceId (wrap32 (startPos + tokenCount)) refined
  have knows := reserveSequence_known cache sequenceId (wrap32 (startPos + tokenCount))
  have frame := writeRows_frame
    (cache.reserveSequence sequenceId (wrap32 (startPos + tokenCount))).2 sequenceId layer startPos
    k v tokenCount.toNat
  cases writes with
  | noBlocks bad => simpa [bad] using reserved
  | stopped st after fine wrote =>
      obtain ⟨_, stored⟩ := rows fine
      rw [wrote] at stored frame
      obtain ⟨bad, kept⟩ : st.isOk = false ∧ after.RowsHold map := stored
      simpa [bad] using stored_refines reserved frame rfl rfl kept
  | written after fine wrote =>
      obtain ⟨endPos, stored⟩ := rows fine
      rw [wrote] at stored frame
      dsimp only at frame
      have later : after.Refines (map.written sequenceId layer startPos k v tokenCount.toNat) :=
        stored_refines reserved frame rfl rfl stored
      obtain ⟨low, bound⟩ := knows fine
      have inside : sequenceId.toNat < after.sequences.length := by
        rw [frame]
        exact bound
      have final := modifyLength_refines sequenceId
        (fun seq => { seq with length := max seq.length (wrap32 (startPos + tokenCount)) })
        (fun _ => rfl) low inside later
      have length : (after.sequence sequenceId).length = map.length sequenceId := by
        have same := later.length sequenceId
        rwa [sequenceLength_eq, if_pos low] at same
      dsimp only at final
      rw [length, endPos] at final
      simp only [Status.isOk_makeOk, if_true, RowMap.write, if_neg nonempty]
      rw [endPos]
      exact final

theorem writeTokens_refines {cache : PagedKVCache Elem} {map : RowMap Elem}
    (sequenceId layer startPos : Int) (k v : Option (Buffer Elem)) (tokenCount : Int)
    (fits : startPos + tokenCount + cache.blockSize < 2147483648) (refined : cache.Refines map) :
    (cache.writeTokens sequenceId layer startPos k v tokenCount).2.Refines
      (if (cache.writeTokens sequenceId layer startPos k v tokenCount).1.isOk then
        map.write sequenceId layer startPos k v tokenCount else map) := by
  rcases writeTokens_cases cache sequenceId layer startPos k v tokenCount with
    ⟨same, idle⟩ | ⟨kb, vb, rfl, rfl, ⟨nonneg, some, low, high⟩, writes⟩
  · rw [same]
    split
    · next fine =>
        have empty := idle fine
        rwa [show map.write sequenceId layer startPos k v tokenCount = map by
          unfold RowMap.write; split <;> simp [empty]]
    · exact refined
  · have endPos : wrap32 (startPos + tokenCount) = startPos + tokenCount :=
      wrap32_eq _ (by omega) (by omega)
    have reserved := reserveSequence_refines sequenceId (startPos + tokenCount) refined
    have extended := reserveSequence_extends cache sequenceId (startPos + tokenCount)
    rw [← endPos] at reserved extended
    refine writes_refines refined (by omega) (fun fine => ⟨endPos, ?_⟩) writes
    rw [endPos] at fine reserved extended ⊢
    -- Once the reservation has succeeded the rows find their blocks.
    have covers := fun pos => reserveSequence_covers cache sequenceId (startPos + tokenCount) pos
      fine (by omega)
    refine Ends.mono (fun _ held => held) (fun _ _ no => no.elim)
      (writeRows_holds _ map sequenceId layer startPos kb vb tokenCount.toNat reserved.owned
        reserved.width ?_ low ?_ nonneg (by omega)
        (fun t below => (covers (startPos + t) (by omega) (by omega)).2) reserved.rows)
    · rw [extended.blockSize]
      exact (covers startPos nonneg (by omega)).1
    · rw [numLayers, extended.layers]
      exact high

omit [Zero Elem] in
theorem physicalBlock_error {cache : PagedKVCache Elem} {sequenceId pos : Int} {st : Status}
    (missing : cache.physicalBlockForPosition sequenceId pos = .error st) : st.isOk = false := by
  unfold physicalBlockForPosition at missing
  split at missing
  · cases missing; rfl
  · split at missing
    · cases missing; rfl
    · dsimp only at missing
      split at missing
      · cases missing; rfl
      · cases missing

/-- A one-row write needs no bound on its position: without a block it fails, and
then nothing is stored. -/
theorem writeToken_refines {cache : PagedKVCache Elem} {map : RowMap Elem}
    (sequenceId layer pos : Int) (k v : Buffer Elem) (int : pos < 2147483648)
    (refined : cache.Refines map) :
    (cache.writeTokens sequenceId layer pos (some k) (some v) 1).2.Refines
        (if (cache.writeTokens sequenceId layer pos (some k) (some v) 1).1.isOk then
          map.write sequenceId layer pos (some k) (some v) 1 else map) ∧
      ((cache.writeTokens sequenceId layer pos (some k) (some v) 1).1.isOk = true →
        0 ≤ sequenceId ∧ 0 ≤ layer ∧ layer < cache.numLayers ∧ 0 ≤ pos ∧ pos + 1 < 2147483648 ∧
          cache.missingBlocks sequenceId (pos + 1) ≤ cache.freeBlocks.length) := by
  rcases writeTokens_cases cache sequenceId layer pos (some k) (some v) 1 with
    ⟨same, idle⟩ | ⟨kb, vb, sameK, sameV, ⟨nonneg, _, low, high⟩, writes⟩
  · have bad : (cache.writeTokens sequenceId layer pos (some k) (some v) 1).1.isOk = false := by
      by_contra fine
      exact absurd (idle (by simpa using fine)) (by decide)
    simp only [bad, same]
    exact ⟨refined, by simp⟩
  · obtain rfl := Option.some.inj sameK
    obtain rfl := Option.some.inj sameV
    have accepted := fun fine => reserveSequence_ok cache sequenceId (wrap32 (pos + 1)) fine
    have endPos : (cache.reserveSequence sequenceId (wrap32 (pos + 1))).1.isOk = true →
        wrap32 (pos + 1) = pos + 1 := fun fine =>
      wrap32_add_nonneg pos 1 nonneg (by decide) int (by decide) (accepted fine).2.1
    have reserved := reserveSequence_refines sequenceId (wrap32 (pos + 1)) refined
    have extended := reserveSequence_extends cache sequenceId (wrap32 (pos + 1))
    constructor
    · refine writes_refines refined (by decide) (fun fine => ⟨endPos fine, ?_⟩) writes
      have ready := (ensureSequence_ok cache sequenceId (accepted fine).1).1
      have bound := wrap32_lt (pos + 1)
      rw [endPos fine] at bound
      generalize (cache.reserveSequence sequenceId (wrap32 (pos + 1))).2 = base
        at reserved extended
      have highBase : layer < base.numLayers := by
        rw [numLayers, extended.layers]
        exact high
      cases found : base.physicalBlockForPosition sequenceId pos with
      | ok block =>
          refine Ends.mono (fun _ held => held) (fun _ _ no => no.elim)
            (writeRows_holds base map sequenceId layer pos k v 1 reserved.owned reserved.width ?_ low
              highBase nonneg (by omega) (fun t below => ⟨block, ?_⟩) reserved.rows)
          · rw [extended.blockSize]
            simp [initialized] at ready
            exact ready.1
          · obtain rfl : t = 0 := by omega
            simpa using found
      | error st =>
          have place : wrap32 pos = pos := wrap32_eq pos (by omega) int
          have stops : base.writeRows sequenceId layer pos k v 1 = (some st, base) := by
            simp [writeRows, loopTry, loopTryFrom, writeRow, place, mutableTokenPtr, found,
              Int.not_lt.mpr low, Int.not_le.mpr highBase]
          change Ends _ _ (base.writeRows sequenceId layer pos k v 1)
          rw [stops]
          exact ⟨physicalBlock_error found, reserved.rows⟩
    · intro fine
      have reservation : (cache.reserveSequence sequenceId (wrap32 (pos + 1))).1.isOk = true := by
        generalize cache.writeTokens sequenceId layer pos (some k) (some v) 1 = result
          at writes fine
        cases writes with
        | noBlocks bad => exact absurd fine (by simp [bad])
        | stopped _ _ reserved _ => exact reserved
        | written _ reserved _ => exact reserved
      obtain ⟨ensured, total, room, _⟩ := accepted reservation
      obtain ⟨_, known, _⟩ := ensureSequence_ok cache sequenceId ensured
      have bound := wrap32_lt (pos + 1)
      rw [endPos reservation] at bound room
      exact ⟨known, low, high, nonneg, bound, room⟩

theorem freeSequence_refines {cache : PagedKVCache Elem} {map : RowMap Elem} (sequenceId : Int)
    (refined : cache.Refines map) :
    (cache.freeSequence sequenceId).2.Refines (map.erase sequenceId) := by
  have owned := freeSequence_owned cache sequenceId refined.owned
  unfold freeSequence at owned ⊢
  by_cases knows : cache.known sequenceId = true
  · simp only [knows, Bool.not_true, Bool.false_eq_true, if_false] at owned ⊢
    obtain ⟨free, used, frame⟩ := freeBlocks_frame (cache.sequence sequenceId).blocks cache
    generalize (cache.sequence sequenceId).blocks.foldl
      (fun c block => c.freeBlock block) cache = freed at owned frame ⊢
    have bounds : 0 ≤ sequenceId ∧ sequenceId.toNat < freed.sequences.length := by
      rw [frame]; simpa [known] using knows
    refine ⟨owned, by rw [frame]; exact refined.rowFits, ?_, fun id => ?_, ?_⟩
    · rw [frame]; exact refined.width
    · rw [modifyLength_lengths freed sequenceId id _ bounds.1 bounds.2]
      simp only [RowMap.erase, RowMap.withLength, ← refined.length]
      rw [frame]
      rfl
    · intro id layer pos rows entry
      simp only [RowMap.erase] at entry
      split at entry
      · simp at entry
      · next different =>
          obtain ⟨block, held⟩ := refined.rows id layer pos rows entry
          obtain ⟨low, bound, nonneg, place⟩ := (physicalBlock_ok_iff _ _ _ _).mp held.found
          refine ⟨block, by rw [frame]; exact held.positive, held.low,
            by rw [frame]; exact held.high, (physicalBlock_ok_iff _ _ _ _).mpr ⟨low, ?_, nonneg, ?_⟩, ?_, ?_⟩
          · rw [frame]; simpa [modifySequence] using bound
          · rw [modifySequence_sequence freed sequenceId id _ bounds.2,
              if_neg (by omega), frame]
            exact place
          · rw [frame]; exact held.key
          · rw [frame]; exact held.value
  · have unknown : cache.known sequenceId = false := by simpa using knows
    simp only [unknown, Bool.not_false, if_true] at owned ⊢
    refine ⟨owned, refined.rowFits, refined.width, fun id => ?_, ?_⟩
    · by_cases same : id = sequenceId
      · subst same
        simp [RowMap.erase, RowMap.withLength, sequenceLength, unknown]
      · simpa [RowMap.erase, RowMap.withLength, same] using refined.length id
    · intro id layer pos rows entry
      simp only [RowMap.erase] at entry
      split at entry
      · simp at entry
      · exact refined.rows id layer pos rows entry

/-- One call refines one update of the map. -/
theorem step_refines {cache : PagedKVCache Elem} {map : RowMap Elem} (op : Op Elem)
    (refined : cache.Refines map) (fits : cache.FitsInt op) (bounds : op.Bounded) :
    (cache.step op).Refines (map.after op (cache.apply op).1.isOk) := by
  cases op with
  | init layers heads dim size blocks => exact init_refines cache layers heads dim size blocks bounds
  | reset => exact reset_refines refined
  | ensureSequence id => exact ensureSequence_refines id refined
  | reserveSequence id total => exact reserveSequence_refines id total refined
  | setSequenceLength id length => exact setSequenceLength_refines id length refined
  | writeTokens id layer start k v count =>
      exact writeTokens_refines id layer start k v count fits refined
  | appendTokens id layer k v count =>
      have appended := writeTokens_refines id layer (cache.sequenceLength id) k v count fits refined
      change (cache.writeTokens id layer (cache.sequenceLength id) k v count).2.Refines
        (if (cache.writeTokens id layer (cache.sequenceLength id) k v count).1.isOk then
          map.write id layer (map.length id) k v count else map)
      rwa [← refined.length id]
  | freeSequence id => exact freeSequence_refines id refined

end Steps

section Runs

theorem runs_refines (ops : List (Op Elem)) (fits : Machine.Guarded step Fits {} ops) :
    (runs ops).Refines (rowMap ops) := by
  have cache : (Machine.run mappedStep ({}, {}) ops).1 = runs ops :=
    Machine.run_project Prod.fst mappedStep step (fun _ _ => rfl) ({}, {}) ops
  rw [← cache]
  exact Machine.guarded_invariant mappedStep (fun state op => state.1.Fits op)
    (fun state => state.1.Refines state.2)
    (fun state op refined fits => step_refines op refined fits.1 fits.2) ({}, {}) ops
    (release_refines {})
    ((Machine.guarded_project Prod.fst mappedStep step Fits (fun _ _ => rfl) ({}, {}) ops).mpr
      fits)

/-- The head slices of a row in the map are what the pointers return. -/
theorem Refines.pointers {cache : PagedKVCache Elem} {map : RowMap Elem}
    (refined : cache.Refines map) {id layer pos head : Int} {rows : Buffer Elem × Buffer Elem}
    (entry : map.row id layer pos = some rows) (inside : pos < cache.sequenceLength id)
    (low : 0 ≤ head) (high : head < cache.numKvHeads) :
    ∃ key value, cache.keyPtr id layer pos head = .ok key ∧
      cache.valuePtr id layer pos head = .ok value ∧
      ∀ d < cache.headDim, key d = rows.1 (head.toNat * cache.headDim + d) ∧
        value d = rows.2 (head.toNat * cache.headDim + d) := by
  obtain ⟨block, held⟩ := refined.rows id layer pos rows entry
  obtain ⟨_, _, nonneg, _⟩ := (physicalBlock_ok_iff _ _ _ _).mp held.found
  have layerFine : ¬ (layer < 0 ∨ layer ≥ cache.numLayers) := by
    have := held.low; have := held.high; omega
  have headFine : ¬ (head < 0 ∨ head ≥ cache.numKvHeads) := by omega
  have posFine : ¬ (pos < 0 ∨ pos ≥ cache.sequenceLength id) := by omega
  have pointer : ∀ key, cache.tokenPtr key id layer pos head =
      .ok fun d => cache.storage key layer
        (cache.rowIndex block pos + head.toNat * cache.headDim + d) := by
    intro key
    simp only [tokenPtr, layerFine, headFine, posFine, if_false, held.found]
  refine ⟨_, _, pointer true, pointer false, fun d below => ?_⟩
  have slice : head.toNat * cache.headDim + d < cache.kvHidden := by
    rw [kvHidden_eq refined.rowFits]
    exact Strides.strided_lt (by omega) below
  exact ⟨by rw [Nat.add_assoc]; exact held.key _ slice,
    by rw [Nat.add_assoc]; exact held.value _ slice⟩

/-- Along every run whose positions and rows fit an `int`, the pointers to a position
below the sequence's length return the slices of the row last written there, and
a further call that does not touch the cell leaves that row in the map. -/
theorem read_after_write (ops : List (Op Elem)) (fits : Machine.Guarded step Fits {} ops) :
    (∀ (id layer pos head : Int) (kRow vRow : Buffer Elem), (rowMap ops).row id layer pos = some (kRow, vRow) →
      pos < (runs ops).sequenceLength id → 0 ≤ head → head < (runs ops).numKvHeads →
      ∃ key value, (runs ops).keyPtr id layer pos head = .ok key ∧
        (runs ops).valuePtr id layer pos head = .ok value ∧
        ∀ d < (runs ops).headDim, key d = kRow (head.toNat * (runs ops).headDim + d) ∧
          value d = vRow (head.toNat * (runs ops).headDim + d)) ∧
    ∀ op id layer pos, ¬ (rowMap ops).Touches op id layer pos →
      (rowMap (ops ++ [op])).row id layer pos = (rowMap ops).row id layer pos := by
  refine ⟨fun id layer pos head kRow vRow entry inside low high =>
    (runs_refines ops fits).pointers entry inside low high, fun op id layer pos untouched => ?_⟩
  rw [rowMap, Machine.run_append]
  exact (rowMap ops).after_untouched op _ untouched

-- Two sequences growing in alternation, one row each.
def alternation (heads dim : Int) : List (Op Nat) :=
  [.init 1 heads dim 1 2, .appendTokens 4 0 (some fun _ => 7) (some fun _ => 8) 1,
    .appendTokens 2 0 (some fun _ => 5) (some fun _ => 6) 1]

theorem read_after_write_alternation :
    ∃ key value, (runs (alternation 1 1)).keyPtr 4 0 0 0 = .ok key ∧
      (runs (alternation 1 1)).valuePtr 4 0 0 0 = .ok value ∧
      ∀ d < 1, key d = 7 ∧ value d = 8 :=
  (read_after_write (alternation 1 1) ⟨by decide, by decide, by decide, trivial⟩).1
    4 0 0 0 (fun _ => 7) (fun _ => 8) rfl (by decide) (by decide) (by decide)

/-- 65537 heads of 65536 floats wrap to a row of 65536: the second head of the one
sequence's row is the first head of the other's. -/
theorem wrapped_row_overlaps :
    Machine.Guarded step FitsInt {} (alternation 65537 65536) ∧
      (rowMap (alternation 65537 65536)).row 4 0 0 = some (fun _ => 7, fun _ => 8) ∧
      0 < (runs (alternation 65537 65536)).sequenceLength 4 ∧
      1 < (runs (alternation 65537 65536)).numKvHeads ∧
      ∃ key, (runs (alternation 65537 65536)).keyPtr 4 0 0 1 = .ok key ∧ key 0 = 5 :=
  ⟨⟨trivial, by decide, by decide, trivial⟩, rfl, by decide, by decide, _, rfl, by decide⟩

end Runs

end MiniLLM.PagedKVCache
