import MiniLLM.PagedAttentionScheduler

/-!
The batches of the paged attention scheduler. Rounding a length up to blocks says
how many entries of a table are copied, and the blocks of a sequence reach at
least that far; rows of distinct sequences hold distinct blocks because the cache
hands a block to one sequence only.
-/

namespace MiniLLM.PagedAttentionScheduler

open Loops PagedKVCache

variable {Elem : Type}

/-- What every run of calls keeps. -/
structure Consistent (s : PagedAttentionScheduler Elem) : Prop where
  owned : s.cache.Owned
  ints : s.cache.Ints
  covered : s.cache.Covered
  nodup : s.activeSequenceIds.Nodup
  low : ∀ id ∈ s.activeSequenceIds, 0 ≤ id
  limit : s.activeSequenceIds = [] ∨ s.activeSequenceIds.length ≤ s.maxBatchSize

section Runs

theorem addSequence_cases (s : PagedAttentionScheduler Elem) (sequenceId : Int) :
    (s.addSequence sequenceId).2 = s ∨
      0 ≤ sequenceId ∧ sequenceId ∉ s.activeSequenceIds ∧
        s.activeSequenceIds.length < s.maxBatchSize ∧
        (s.addSequence sequenceId).2 =
          { s with activeSequenceIds := s.activeSequenceIds ++ [sequenceId] } := by
  unfold addSequence
  split_ifs with _ low _ fresh room
  · exact Or.inl rfl
  · exact Or.inl rfl
  · exact Or.inl rfl
  · exact Or.inl rfl
  · exact Or.inl rfl
  · refine Or.inr ⟨by omega, by simpa [isActive] using fresh, by omega, rfl⟩

theorem addSequence_consistent {s : PagedAttentionScheduler Elem} (kept : s.Consistent)
    (sequenceId : Int) : (s.addSequence sequenceId).2.Consistent := by
  rcases addSequence_cases s sequenceId with same | ⟨low, fresh, room, same⟩
  · rwa [same]
  · rw [same]
    refine { kept with nodup := ?_, low := fun id member => ?_, limit := Or.inr ?_ }
    · exact List.nodup_append.mpr ⟨kept.nodup, List.nodup_singleton _, fun a inside b last => by
        rw [List.mem_singleton.mp last]
        exact fun same => fresh (same ▸ inside)⟩
    · rcases List.mem_append.mp member with old | new
      · exact kept.low id old
      · rw [List.mem_singleton.mp new]
        exact low
    · simp only [List.length_append, List.length_singleton]
      omega

theorem removeSequence_consistent {s : PagedAttentionScheduler Elem} (kept : s.Consistent)
    (sequenceId : Int) : (s.removeSequence sequenceId).2.Consistent := by
  refine { kept with
    nodup := kept.nodup.erase sequenceId
    low := fun id member => kept.low id (List.mem_of_mem_erase member)
    limit := ?_ }
  have shorter : (s.activeSequenceIds.erase sequenceId).length ≤ s.activeSequenceIds.length :=
    List.length_erase_le
  rcases kept.limit with none | limit
  · exact Or.inl (by simp [removeSequence, none])
  · refine Or.inr ?_
    change ((s.activeSequenceIds.erase sequenceId).length : Int) ≤ s.maxBatchSize
    omega

/-- The calls of a run have `int` arguments and leave lengths that round in `int`. -/
def Fits [Zero Elem] (s : PagedAttentionScheduler Elem) (op : Op Elem) : Prop :=
  (match op with
    | .cacheCall call => call.IsInt
    | _ => True) ∧ (s.step op).cache.LengthsFit

theorem step_consistent [Zero Elem] {s : PagedAttentionScheduler Elem} (kept : s.Consistent)
    (op : Op Elem) (fits : s.Fits op) : (s.step op).Consistent := by
  cases op with
  | cacheCall call =>
      exact { kept with
        owned := step_owned s.cache call kept.owned
        ints := step_ints kept.ints kept.owned call fits.1
        covered := step_covered kept.covered kept.ints call fits.1 fits.2 }
  | addSequence id => exact addSequence_consistent kept id
  | removeSequence id => exact removeSequence_consistent kept id
  | clear =>
      exact { kept with
        nodup := List.nodup_nil
        low := fun id none => absurd none List.not_mem_nil
        limit := Or.inl rfl }

theorem runs_consistent [Zero Elem] (maxBatchSize : Int) (ops : List (Op Elem))
    (fits : Machine.Guarded step Fits { cache := {}, maxBatchSize := maxBatchSize } ops) :
    (runs maxBatchSize ops).Consistent ∧ (runs maxBatchSize ops).cache.LengthsFit := by
  refine Machine.guarded_invariant step Fits (fun s => s.Consistent ∧ s.cache.LengthsFit)
    (fun s op kept fits => ⟨step_consistent kept.1 op fits, fits.2⟩) _ ops ⟨⟨release_owned {},
      ⟨(by decide : 0 < 2147483648), fun id => by rw [uninitialized_length _ rfl]; decide⟩,
      empty_covered rfl, List.nodup_nil, fun id none => absurd none List.not_mem_nil, Or.inl rfl⟩,
      fun id => by
        rw [uninitialized_length _ rfl]
        exact (by decide : (0 : Int) + (0 : Nat) < 2147483648)⟩ fits

theorem runs_limit [Zero Elem] (maxBatchSize : Int) (ops : List (Op Elem)) :
    (runs maxBatchSize ops).maxBatchSize = maxBatchSize := by
  refine Machine.run_invariant step (fun s => s.maxBatchSize = maxBatchSize) (fun s op same => ?_)
    _ ops rfl
  cases op with
  | addSequence id =>
      rcases addSequence_cases s id with kept | ⟨_, _, _, kept⟩
      · simp only [step, kept, same]
      · simp only [step, kept, same]
  | cacheCall | removeSequence | clear => exact same

end Runs

section Batches

/-- A column of a row is used when its first position is below the length. -/
theorem blocksForLength_iff {length : Int} {size : Nat} (positive : 0 < size) (low : 0 ≤ length)
    (fits : length + size ≤ 2147483648) (column : Nat) :
    column < blocksForLength length size ↔ (column : Int) * size < length := by
  change column < ceilDivInt length size ↔ _
  rw [ceilDivInt_eq length size low (by omega) fits, Int.lt_iff_add_one_le,
    Int.le_ediv_iff_mul_le (by omega), Int.add_mul, Int.one_mul]
  omega

/-- The blocks of a length in `int` reach it by less than one block. -/
theorem blocksForLength_bounds {length : Int} {size : Nat} (positive : 0 < size) (low : 0 ≤ length)
    (fits : length + size ≤ 2147483648) :
    length ≤ blocksForLength length size * size ∧
      blocksForLength length size * size < length + size := by
  change length ≤ ceilDivInt length size * size ∧ ceilDivInt length size * size < length + size
  rw [ceilDivInt_eq length size low (by omega) fits]
  have whole := Int.ediv_mul_add_emod (length + size - 1) size
  have rest := Int.emod_lt_of_pos (length + size - 1) (by omega : (0 : Int) < size)
  have nonneg := Int.emod_nonneg (length + size - 1) (by omega : (size : Int) ≠ 0)
  omega

/-- Past the range of `int` the sum of length and size wraps to a negative number. -/
theorem blocksForLength_wraps {length : Int} {size : Nat} (int : length < 2147483648)
    (sizeInt : size < 2147483648) (wraps : 2147483648 < length + size) :
    blocksForLength length size ≤ 0 := by
  have sum : wrap32 (wrap32 (length + size) - 1) = -(4294967297 - length - size) := by
    unfold wrap32
    omega
  rw [blocksForLength, sum, Int.neg_tdiv]
  have := Int.tdiv_nonneg (by omega : 0 ≤ 4294967297 - length - size)
    (by omega : (0 : Int) ≤ size)
  omega

/-- The table of an active sequence with tokens reaches as far as they do. -/
theorem collect_eq {s : PagedAttentionScheduler Elem} (kept : s.Consistent)
    (fits : s.cache.LengthsFit) (sequenceId : Int) (batch : PagedAttentionBatch)
    (size : batch.blockSize = s.cache.blockSize) :
    ((collect s.cache sequenceId batch).1 = none ↔ 0 < s.cache.sequenceLength sequenceId) ∧
      ((collect s.cache sequenceId batch).1 = none → (collect s.cache sequenceId batch).2 =
        { batch with
          sequenceLengths := batch.sequenceLengths ++ [s.cache.sequenceLength sequenceId]
          maxBlocksPerSequence := max batch.maxBlocksPerSequence
            (blocksForLength (s.cache.sequenceLength sequenceId) s.cache.blockSize) }) := by
  unfold collect
  by_cases knows : s.cache.known sequenceId = true
  · simp only [blockTable, knows, Bool.not_true, Bool.false_eq_true, if_false, size]
    by_cases none : s.cache.sequenceLength sequenceId ≤ 0
    · simp [none]
    · have covered := kept.covered sequenceId
      have positive : 0 < s.cache.blockSize := by
        by_contra zero
        rw [show s.cache.blockSize = 0 by omega] at covered
        simp at covered
        exact none covered
      have reaches := (blocksForLength_iff positive (by omega) (fits sequenceId).le
        (s.cache.sequence sequenceId).blocks.length).not.mpr (by omega)
      have enough : ¬ ((s.cache.sequence sequenceId).blocks.length : Int) <
        blocksForLength (s.cache.sequenceLength sequenceId) s.cache.blockSize := reaches
      simp only [none, enough, if_false]
      exact ⟨⟨fun _ => by omega, fun _ => trivial⟩, fun _ => trivial⟩
  · have none : s.cache.sequenceLength sequenceId = 0 := by simp [sequenceLength, knows]
    simp [blockTable, knows, none]

/-- The batch before its tables: a length for each id, and a width no row exceeds. -/
structure Collected (s : PagedAttentionScheduler Elem) (seen : List Int)
    (batch : PagedAttentionBatch) : Prop where
  ids : batch.sequenceIds = s.activeSequenceIds
  lengths : batch.sequenceLengths = seen.map s.cache.sequenceLength
  tables : batch.blockTables = []
  count : batch.batchSize = s.activeSequenceIds.length
  size : batch.blockSize = s.cache.blockSize
  heads : batch.numKvHeads = s.cache.numKvHeads
  headDim : batch.headDim = s.cache.headDim
  width : ∀ id ∈ seen, blocksForLength (s.cache.sequenceLength id) s.cache.blockSize ≤
    batch.maxBlocksPerSequence

/-- Building fails for want of an active id or of tokens of one, and otherwise
fills the tables of what was collected. -/
theorem buildBatch_cases {s : PagedAttentionScheduler Elem} (kept : s.Consistent)
    (fits : s.cache.LengthsFit) :
    ((∃ st, s.buildBatch = .error st) ↔
        s.activeSequenceIds = [] ∨ ∃ id ∈ s.activeSequenceIds, s.cache.sequenceLength id ≤ 0) ∧
      ∀ batch, s.buildBatch = .ok batch → ∃ collected,
        s.Collected s.activeSequenceIds collected ∧
          (∀ id ∈ s.activeSequenceIds, 0 < s.cache.sequenceLength id) ∧
          batch = { collected with blockTables := fillTables s.cache collected } := by
  unfold buildBatch
  by_cases empty : s.activeSequenceIds = []
  · simp [empty]
  have limit : s.activeSequenceIds.length ≤ s.maxBatchSize := kept.limit.resolve_left empty
  have inside : ¬ s.activeSequenceIds.length > s.maxBatchSize := by omega
  simp only [List.isEmpty_iff, empty, inside, if_false, false_or]
  obtain ⟨succeeds, collected⟩ := tryList_ok_iff (fun seen batch => s.Collected seen batch)
    (fun _ id => 0 < s.cache.sequenceLength id) (collect s.cache) s.activeSequenceIds
    { batchSize := s.activeSequenceIds.length, blockSize := s.cache.blockSize,
      numKvHeads := s.cache.numKvHeads, headDim := s.cache.headDim,
      sequenceIds := s.activeSequenceIds }
    ⟨rfl, rfl, rfl, rfl, rfl, rfl, rfl, fun id none => absurd none List.not_mem_nil⟩ (by
      intro first id rest batch split done
      obtain ⟨accepted, next⟩ := collect_eq kept fits id batch done.size
      refine ⟨accepted, fun fine => ?_⟩
      rw [next fine]
      refine ⟨done.ids, by simp [done.lengths], done.tables, done.count, done.size, done.heads,
        done.headDim, fun other member => ?_⟩
      rcases List.mem_append.mp member with before | here
      · exact Int.le_trans (done.width other before) (Int.le_max_left _ _)
      · rw [List.mem_singleton.mp here]
        exact Int.le_max_right _ _)
  generalize tryList (collect s.cache) s.activeSequenceIds _ = result at succeeds collected ⊢
  obtain ⟨err, batch⟩ := result
  have all : (∀ first id rest, s.activeSequenceIds = first ++ id :: rest →
      0 < s.cache.sequenceLength id) ↔ ∀ id ∈ s.activeSequenceIds, 0 < s.cache.sequenceLength id := by
    constructor
    · intro each id member
      obtain ⟨first, rest, split⟩ := List.append_of_mem member
      exact each first id rest split
    · intro each first id rest split
      exact each id (by rw [split]; simp)
  rw [all] at succeeds
  cases err with
  | some st =>
      have missing : ∃ id ∈ s.activeSequenceIds, s.cache.sequenceLength id ≤ 0 := by
        by_contra each
        have all := succeeds.mpr fun id member => by
          by_contra short
          exact each ⟨id, member, by omega⟩
        cases all
      exact ⟨⟨fun _ => missing, fun _ => ⟨st, rfl⟩⟩, fun _ never => by cases never⟩
  | none =>
      have each := succeeds.mp rfl
      have done := collected rfl
      have wide : ¬ batch.maxBlocksPerSequence ≤ 0 := by
        obtain ⟨id, rest, split⟩ := List.exists_cons_of_ne_nil empty
        have member : id ∈ s.activeSequenceIds := by rw [split]; exact List.mem_cons_self
        have tokens := each id member
        have positive : 0 < s.cache.blockSize := by
          by_contra zero
          have covered := kept.covered id
          rw [show s.cache.blockSize = 0 by omega] at covered
          simp at covered
          omega
        have one := (blocksForLength_iff positive (by omega) (fits id).le 0).mpr (by simpa using tokens)
        have width := done.width id member
        dsimp only at width
        have zero : ((0 : Nat) : Int) = 0 := rfl
        omega
      have none : ¬ ∃ id ∈ s.activeSequenceIds, s.cache.sequenceLength id ≤ 0 := by
        rintro ⟨id, member, short⟩
        have := each id member
        omega
      simp only [wide, if_false]
      refine ⟨⟨fun ⟨st, bad⟩ => (by cases bad), fun bad => absurd bad none⟩, ?_⟩
      rintro _ ⟨⟩
      exact ⟨batch, done, each, rfl⟩

/-- What the first loop has checked and measured of the ids it has seen. -/
structure Measured (s : PagedAttentionScheduler Elem) (seen : List Int)
    (batch : PagedAttentionBatch) : Prop extends s.Collected seen batch where
  tokens : ∀ id ∈ seen, s.cache.known id = true ∧ 0 < s.cache.sequenceLength id
  enough : ∀ id ∈ seen, blocksForLength (s.cache.sequenceLength id) s.cache.blockSize ≤
    (s.cache.sequence id).blocks.length
  attained : batch.maxBlocksPerSequence ≤ 0 ∨ ∃ id ∈ seen, batch.maxBlocksPerSequence =
    blocksForLength (s.cache.sequenceLength id) s.cache.blockSize

theorem collect_measures {s : PagedAttentionScheduler Elem} {seen : List Int}
    {batch : PagedAttentionBatch} (done : s.Measured seen batch) (id : Int) :
    Ends (s.Measured (seen ++ [id])) (fun _ _ => True) (collect s.cache id batch) := by
  unfold collect
  by_cases knows : s.cache.known id = true
  · simp only [blockTable, knows, Bool.not_true, Bool.false_eq_true, if_false, done.size]
    split
    · trivial
    split
    · trivial
    rename_i length table
    have each : ∀ {P : Int → Prop}, (∀ other ∈ seen, P other) → P id →
        ∀ other ∈ seen ++ [id], P other := by
      intro P old new other member
      rcases List.mem_append.mp member with before | last
      · exact old other before
      · rw [List.mem_singleton.mp last]
        exact new
    exact {
      ids := done.ids
      lengths := by simp [done.lengths]
      tables := done.tables
      count := done.count
      size := rfl
      heads := done.heads
      headDim := done.headDim
      width := each (fun other member => Int.le_trans (done.width other member) (Int.le_max_left _ _))
        (Int.le_max_right _ _)
      tokens := each done.tokens ⟨knows, by omega⟩
      enough := each done.enough (by omega)
      attained := by
        dsimp only
        rcases Int.le_total batch.maxBlocksPerSequence
          (blocksForLength (s.cache.sequenceLength id) s.cache.blockSize) with less | more
        · exact Or.inr ⟨id, List.mem_append_right _ (List.mem_singleton.mpr rfl),
            Int.max_eq_right less⟩
        · rw [Int.max_eq_left more]
          rcases done.attained with none | ⟨other, member, same⟩
          · exact Or.inl none
          · exact Or.inr ⟨other, List.mem_append_left _ member, same⟩ }
  · simp [blockTable, knows, Ends]

/-- A batch that is built has passed every check on its ids, whatever the lengths. -/
theorem buildBatch_measured {s : PagedAttentionScheduler Elem} {batch : PagedAttentionBatch}
    (built : s.buildBatch = .ok batch) :
    ∃ collected, s.Measured s.activeSequenceIds collected ∧ 0 < collected.maxBlocksPerSequence ∧
      batch = { collected with blockTables := fillTables s.cache collected } := by
  unfold buildBatch at built
  dsimp only at built
  split_ifs at built
  have measured := tryList_invariant (fun seen batch => s.Measured seen batch) (fun _ _ => True)
    (collect s.cache) s.activeSequenceIds
    { batchSize := s.activeSequenceIds.length, blockSize := s.cache.blockSize,
      numKvHeads := s.cache.numKvHeads, headDim := s.cache.headDim,
      sequenceIds := s.activeSequenceIds }
    { ids := rfl, lengths := rfl, tables := rfl, count := rfl, size := rfl, heads := rfl,
      headDim := rfl, width := by simp, tokens := by simp, enough := by simp,
      attained := Or.inl (Int.le_refl 0) }
    fun first id rest batch _ done => collect_measures done id
  generalize tryList (collect s.cache) s.activeSequenceIds _ = result at built measured
  obtain ⟨err, collected⟩ := result
  cases err with
  | some st => cases built
  | none =>
      dsimp only at built
      split_ifs at built with narrow
      cases built
      exact ⟨collected, measured, by omega, rfl⟩

theorem Collected.row {s : PagedAttentionScheduler Elem} {batch : PagedAttentionBatch}
    (done : s.Collected s.activeSequenceIds batch) {b : Nat} {id : Int}
    (active : s.activeSequenceIds[b]? = some id) :
    batch.sequenceIds.getD b 0 = id ∧
      batch.sequenceLengths.getD b 0 = s.cache.sequenceLength id ∧ b < batch.batchSize.toNat ∧
      blocksForLength (s.cache.sequenceLength id) s.cache.blockSize ≤ batch.maxBlocksPerSequence := by
  have bound := (List.getElem?_eq_some_iff.mp active).1
  refine ⟨by simp [done.ids, List.getD_eq_getElem?_getD, active], ?_, by rw [done.count]; omega,
    done.width id (List.mem_of_getElem? active)⟩
  simp [done.lengths, List.getD_eq_getElem?_getD, active]

/-- The tables of a batch, entry by entry. -/
theorem fillTables_entry {s : PagedAttentionScheduler Elem} {batch : PagedAttentionBatch}
    (done : s.Collected s.activeSequenceIds batch) {b : Nat} {id : Int}
    (active : s.activeSequenceIds[b]? = some id) {i : Nat}
    (column : i < batch.maxBlocksPerSequence.toNat) :
    (fillTables s.cache batch)[b * batch.maxBlocksPerSequence.toNat + i]? =
      some (if i < (blocksForLength (s.cache.sequenceLength id) s.cache.blockSize).toNat then
        (((s.cache.blockTable id).getD []).getD i 0 : Int) else -1) := by
  obtain ⟨rowId, rowLength, rowBound, _⟩ := done.row active
  have narrow : ∀ a < batch.batchSize.toNat,
      (blocksForLength (batch.sequenceLengths.getD a 0) batch.blockSize).toNat ≤
        batch.maxBlocksPerSequence.toNat := by
    intro a below
    rw [done.count] at below
    obtain ⟨_, length, _, width⟩ := done.row (List.getElem?_eq_getElem (by omega : a < s.activeSequenceIds.length))
    rw [length, done.size]
    omega
  have blank : b * batch.maxBlocksPerSequence.toNat + i <
      batch.batchSize.toNat * batch.maxBlocksPerSequence.toNat := Strides.strided_lt rowBound column
  have filled := Strides.fill_rows batch.batchSize.toNat batch.maxBlocksPerSequence.toNat
    (fun b => (blocksForLength (batch.sequenceLengths.getD b 0) batch.blockSize).toNat)
    (fun b i => (((s.cache.blockTable (batch.sequenceIds.getD b 0)).getD []).getD i 0 : Int))
    (List.replicate (batch.batchSize.toNat * batch.maxBlocksPerSequence.toNat) (-1))
    (by simp) narrow rowBound column
  change (fillTables s.cache batch)[b * batch.maxBlocksPerSequence.toNat + i]? = _ at filled
  rw [filled]
  simp only [rowId, rowLength, done.size, List.getElem?_replicate, blank, if_true]
  split <;> rfl

/-- The width of a batch is the block count of one of its ids, so it stays in `int`. -/
theorem Measured.width_int {s : PagedAttentionScheduler Elem} {batch : PagedAttentionBatch}
    (done : s.Measured s.activeSequenceIds batch) (ints : s.cache.Ints)
    (positive : 0 < s.cache.blockSize) (some : 0 < batch.maxBlocksPerSequence) :
    batch.maxBlocksPerSequence * s.cache.blockSize < 2147483648 := by
  obtain none | ⟨id, member, same⟩ := done.attained
  · omega
  have tokens := (done.tokens id member).2
  have fits : s.cache.sequenceLength id + s.cache.blockSize ≤ 2147483648 := by
    by_contra wide
    have wraps := blocksForLength_wraps (ints.length id) ints.size (Int.not_le.mp wide)
    omega
  rw [same]
  have bounds := blocksForLength_bounds positive (by omega) fits
  omega

/-- The table of a row names the block of every position of its sequence. -/
theorem Measured.entry {s : PagedAttentionScheduler Elem} {batch : PagedAttentionBatch}
    (done : s.Measured s.activeSequenceIds batch) (positive : 0 < s.cache.blockSize) {b : Nat}
    {id : Int} (active : s.activeSequenceIds[b]? = some id)
    (fits : s.cache.sequenceLength id + s.cache.blockSize ≤ 2147483648) {pos : Nat}
    (below : pos < s.cache.sequenceLength id) :
    ∃ block : Nat, s.cache.physicalBlockForPosition id pos = .ok block ∧
      (fillTables s.cache batch).getD
        (b * batch.maxBlocksPerSequence.toNat + pos / s.cache.blockSize) 0 = block := by
  have member := List.mem_of_getElem? active
  obtain ⟨knows, tokens⟩ := done.tokens id member
  have enough := done.enough id member
  have width := done.width id member
  have used := (blocksForLength_iff positive (by omega) fits (pos / s.cache.blockSize)).mpr (by
    have floor := Nat.div_mul_le_self pos s.cache.blockSize
    rw [← Int.natCast_mul]
    omega)
  have stored := List.getElem?_eq_getElem
    (by omega : pos / s.cache.blockSize < (s.cache.sequence id).blocks.length)
  have bounds : 0 ≤ id ∧ id.toNat < s.cache.sequences.length := by simpa [known] using knows
  refine ⟨_, (physicalBlock_ok_iff _ _ _ _).mpr ⟨bounds.1, bounds.2, Int.natCast_nonneg pos, by
    rw [Int.toNat_natCast]
    exact stored⟩, ?_⟩
  rw [List.getD_eq_getElem?_getD, fillTables_entry done.toCollected active (by omega),
    if_pos (by omega)]
  simp [blockTable, knows, List.getD_eq_getElem?_getD, stored]

/-- A row whose block count wrapped holds padding only. -/
theorem Measured.blank {s : PagedAttentionScheduler Elem} {batch : PagedAttentionBatch}
    (done : s.Measured s.activeSequenceIds batch) (ints : s.cache.Ints) {b : Nat} {id : Int}
    (active : s.activeSequenceIds[b]? = some id)
    (wraps : 2147483648 < s.cache.sequenceLength id + s.cache.blockSize) {i : Nat}
    (column : i < batch.maxBlocksPerSequence.toNat) :
    (fillTables s.cache batch).getD (b * batch.maxBlocksPerSequence.toNat + i) 0 = -1 := by
  have none := blocksForLength_wraps (ints.length id) ints.size wraps
  rw [List.getD_eq_getElem?_getD, fillTables_entry done.toCollected active column,
    if_neg (by omega)]
  rfl

theorem fillTables_length (cache : PagedKVCache Elem) (batch : PagedAttentionBatch) :
    (fillTables cache batch).length =
      batch.batchSize.toNat * batch.maxBlocksPerSequence.toNat := by
  unfold fillTables
  rw [Strides.fill_length, List.length_replicate]

/-- What the tables of a batch say about the cache. -/
structure Tabulates (s : PagedAttentionScheduler Elem) (batch : PagedAttentionBatch) : Prop where
  ids : batch.sequenceIds = s.activeSequenceIds
  lengths : batch.sequenceLengths = s.activeSequenceIds.map s.cache.sequenceLength
  size : batch.blockTables.length = batch.sequenceIds.length * batch.maxBlocksPerSequence.toNat
  entries : ∀ (b : Nat) (id length pos : Int), batch.sequenceIds[b]? = some id →
    batch.sequenceLengths[b]? = some length → 0 ≤ pos → pos < length →
    ∃ block : Nat, s.cache.physicalBlockForPosition id pos = .ok block ∧
      batch.blockTables[b * batch.maxBlocksPerSequence.toNat + pos.toNat / s.cache.blockSize]? =
        some (block : Int)
  padding : ∀ (index : Nat) (entry : Int), batch.blockTables[index]? = some entry →
    (¬ ∃ (b : Nat) (length pos : Int), batch.sequenceLengths[b]? = some length ∧ 0 ≤ pos ∧
      pos < length ∧
      index = b * batch.maxBlocksPerSequence.toNat + pos.toNat / s.cache.blockSize) → entry = -1
  distinct : ∀ i j block : Nat, batch.blockTables[i]? = some (block : Int) →
    batch.blockTables[j]? = some (block : Int) → i = j

/-- A used column names the block of its positions. -/
theorem Consistent.used {s : PagedAttentionScheduler Elem} (kept : s.Consistent) {id pos : Int}
    (nonneg : 0 ≤ pos) (below : pos < s.cache.sequenceLength id) :
    ∃ block, s.cache.physicalBlockForPosition id pos = .ok block ∧
      (s.cache.sequence id).blocks[pos.toNat / s.cache.blockSize]? = some block ∧
      ((s.cache.blockTable id).getD []).getD (pos.toNat / s.cache.blockSize) 0 = block ∧
      s.cache.sequences[id.toNat]? = some (s.cache.sequence id) := by
  obtain ⟨block, found⟩ := kept.covered.found nonneg below
  obtain ⟨low, bound, _, entry⟩ := (physicalBlock_ok_iff _ _ _ _).mp found
  have knows : s.cache.known id = true := by simp [known, low, bound]
  exact ⟨block, found, entry, by simp [blockTable, knows, List.getD_eq_getElem?_getD, entry],
    sequence_getElem? s.cache id bound⟩

theorem Consistent.positive {s : PagedAttentionScheduler Elem} (kept : s.Consistent) {id : Int}
    (tokens : 0 < s.cache.sequenceLength id) : 0 < s.cache.blockSize := by
  by_contra zero
  have covered := kept.covered id
  rw [show s.cache.blockSize = 0 by omega] at covered
  simp at covered
  omega

/-- An entry of the tables is a block of its row, or stands behind the blocks of its row. -/
theorem fillTables_cases {s : PagedAttentionScheduler Elem} (kept : s.Consistent)
    (fits : s.cache.LengthsFit) {batch : PagedAttentionBatch}
    (done : s.Collected s.activeSequenceIds batch)
    (tokens : ∀ id ∈ s.activeSequenceIds, 0 < s.cache.sequenceLength id) {index : Nat} {entry : Int}
    (found : (fillTables s.cache batch)[index]? = some entry) :
    ∃ b id i, s.activeSequenceIds[b]? = some id ∧
      index = b * batch.maxBlocksPerSequence.toNat + i ∧
      ((i : Int) * s.cache.blockSize < s.cache.sequenceLength id ∧
          (∃ block : Nat, (s.cache.sequence id).blocks[i]? = some block ∧ entry = block ∧
            s.cache.sequences[id.toNat]? = some (s.cache.sequence id)) ∨
        entry = -1) := by
  have bound := (List.getElem?_eq_some_iff.mp found).1
  rw [fillTables_length, done.count] at bound
  have some : 0 < batch.maxBlocksPerSequence.toNat := by
    rcases Nat.eq_zero_or_pos batch.maxBlocksPerSequence.toNat with zero | some
    · rw [zero] at bound
      omega
    · exact some
  have row : index / batch.maxBlocksPerSequence.toNat < s.activeSequenceIds.length :=
    (Nat.div_lt_iff_lt_mul some).mpr (by simpa using bound)
  have column := Nat.mod_lt index some
  have active := List.getElem?_eq_getElem row
  have split : index = index / batch.maxBlocksPerSequence.toNat * batch.maxBlocksPerSequence.toNat +
      index % batch.maxBlocksPerSequence.toNat := (Nat.div_add_mod' index _).symm
  have member := List.mem_of_getElem? active
  generalize s.activeSequenceIds[index / batch.maxBlocksPerSequence.toNat] = id at active member
  generalize index / batch.maxBlocksPerSequence.toNat = b at active split
  generalize index % batch.maxBlocksPerSequence.toNat = i at column split
  rw [split, fillTables_entry done active column, Option.some.injEq] at found
  have positive := kept.positive (tokens id member)
  have inside := blocksForLength_iff positive (Int.le_of_lt (tokens id member)) (fits id).le i
  refine ⟨b, id, i, active, split, ?_⟩
  by_cases used : (i : Int) * s.cache.blockSize < s.cache.sequenceLength id
  · obtain ⟨block, _, place, get, listed⟩ :=
      kept.used (Int.mul_nonneg (Int.natCast_nonneg i) (Int.natCast_nonneg _)) used
    have slot : ((i : Int) * s.cache.blockSize).toNat / s.cache.blockSize = i := by
      rw [← Int.natCast_mul, Int.toNat_natCast, Nat.mul_div_cancel _ positive]
    rw [slot] at place get
    rw [if_pos (by have := inside.mpr used; omega), get] at found
    exact Or.inl ⟨used, block, place, found.symm, listed⟩
  · rw [if_neg (by have := inside.not.mpr used; omega)] at found
    exact Or.inr found.symm

theorem buildBatch_tabulates {s : PagedAttentionScheduler Elem} (kept : s.Consistent)
    (fits : s.cache.LengthsFit) {batch : PagedAttentionBatch} (built : s.buildBatch = .ok batch) :
    s.Tabulates batch := by
  obtain ⟨collected, done, tokens, rfl⟩ := (buildBatch_cases kept fits).2 batch built
  refine ⟨done.ids, done.lengths, ?_, ?_, ?_, ?_⟩
  · dsimp only
    rw [fillTables_length, done.count, done.ids]
    rfl
  · intro b id length pos active row nonneg below
    dsimp only at active row
    rw [done.ids] at active
    rw [done.lengths, List.getElem?_map, active] at row
    obtain rfl := Option.some.inj row
    have positive := kept.positive (tokens id (List.mem_of_getElem? active))
    obtain ⟨block, found, _, get, _⟩ := kept.used nonneg below
    obtain ⟨_, _, _, width⟩ := done.row active
    have first : ((pos.toNat / s.cache.blockSize : Nat) : Int) * s.cache.blockSize <
        s.cache.sequenceLength id := by
      have floor := Nat.div_mul_le_self pos.toNat s.cache.blockSize
      rw [← Int.natCast_mul]
      omega
    have used := (blocksForLength_iff positive (by omega) (fits id).le _).mpr first
    refine ⟨block, found, ?_⟩
    dsimp only
    rw [fillTables_entry done active (by omega), if_pos (by omega), get]
  · intro index entry found unused
    obtain ⟨b, id, i, active, rfl, ⟨below, _⟩ | blank⟩ := fillTables_cases kept fits done tokens found
    · have positive := kept.positive (tokens id (List.mem_of_getElem? active))
      have slot : ((i : Int) * s.cache.blockSize).toNat / s.cache.blockSize = i := by
        rw [← Int.natCast_mul, Int.toNat_natCast, Nat.mul_div_cancel _ positive]
      refine absurd ⟨b, s.cache.sequenceLength id, (i : Int) * s.cache.blockSize, ?_,
        Int.mul_nonneg (Int.natCast_nonneg i) (Int.natCast_nonneg _), below, ?_⟩ unused
      · simp [done.lengths, active]
      · rw [slot]
    · exact blank
  · intro index index' block found found'
    obtain ⟨b, id, i, active, rfl, ⟨_, owner, place, same, listed⟩ | blank⟩ :=
      fillTables_cases kept fits done tokens found
    · obtain ⟨b', id', i', active', rfl, ⟨_, owner', place', same', listed'⟩ | blank⟩ :=
        fillTables_cases kept fits done tokens found'
      · obtain rfl : owner = owner' := by omega
        obtain ⟨sameTable, rfl⟩ := kept.owned.place_inj listed listed' place place'
        have low := kept.low id (List.mem_of_getElem? active)
        have low' := kept.low id' (List.mem_of_getElem? active')
        obtain rfl : id = id' := by omega
        have sameRow := (List.getElem?_inj (List.getElem?_eq_some_iff.mp active).1 kept.nodup).mp
          (active.trans active'.symm)
        rw [sameRow]
      · omega
    · omega

/-- After every run the active ids are distinct and within the limit, a batch is
refused exactly when there is none or one has no tokens, and its tables are those
of the cache. -/
theorem build_batch_correct [Zero Elem] (maxBatchSize : Int) (ops : List (Op Elem))
    (fits : Machine.Guarded step Fits { cache := {}, maxBatchSize := maxBatchSize } ops) :
    (runs maxBatchSize ops).activeSequenceIds.Nodup ∧
      (runs maxBatchSize ops).activeSequenceIds.length ≤ max 0 maxBatchSize ∧
      ((∃ st, (runs maxBatchSize ops).buildBatch = .error st) ↔
        (runs maxBatchSize ops).activeSequenceIds = [] ∨
          ∃ id ∈ (runs maxBatchSize ops).activeSequenceIds,
            (runs maxBatchSize ops).cache.sequenceLength id ≤ 0) ∧
      ∀ batch, (runs maxBatchSize ops).buildBatch = .ok batch →
        (runs maxBatchSize ops).Tabulates batch := by
  obtain ⟨kept, lengths⟩ := runs_consistent maxBatchSize ops fits
  refine ⟨kept.nodup, ?_, (buildBatch_cases kept lengths).1,
    fun batch built => buildBatch_tabulates kept lengths built⟩
  have limit := kept.limit
  rw [runs_limit] at limit
  rcases limit with none | limit
  · rw [none]
    exact Int.le_max_left _ _
  · exact Int.le_trans limit (Int.le_max_right _ _)

-- Sequences of five and three tokens in blocks of two; the second one shrinks.
def twoRows : List (Op Nat) :=
  [.cacheCall (.init 1 1 1 2 8), .cacheCall (.setSequenceLength 0 5),
    .cacheCall (.setSequenceLength 1 3), .addSequence 1, .addSequence 0, .addSequence 1,
    .cacheCall (.setSequenceLength 1 1)]

theorem build_batch_correct_twoRows :
    ∃ batch, (runs 2 twoRows).buildBatch = .ok batch ∧ (runs 2 twoRows).Tabulates batch := by
  have int : ∀ n : Int, n ≤ 5 → n < 2147483648 := fun n small => by omega
  have tabulates := (build_batch_correct 2 twoRows
    ⟨⟨by simp [PagedKVCache.Op.IsInt], lengthsFit_of_all (by decide) (by decide)⟩,
      ⟨int 5 (by decide), lengthsFit_of_all (by decide) (by decide)⟩,
      ⟨int 3 (by decide), lengthsFit_of_all (by decide) (by decide)⟩,
      ⟨trivial, lengthsFit_of_all (by decide) (by decide)⟩,
      ⟨trivial, lengthsFit_of_all (by decide) (by decide)⟩,
      ⟨trivial, lengthsFit_of_all (by decide) (by decide)⟩,
      ⟨int 1 (by decide), lengthsFit_of_all (by decide) (by decide)⟩, trivial⟩).2.2.2
  have built : (runs 2 twoRows).buildBatch.isOk = true := by decide
  cases result : (runs 2 twoRows).buildBatch with
  | error st =>
      rw [result] at built
      cases built
  | ok batch => exact ⟨batch, rfl, tabulates batch result⟩

example : (runs 2 twoRows).buildBatch.toOption.map (·.blockTables) = some [3, -1, -1, 0, 1, 2] := by
  decide

end Batches

end MiniLLM.PagedAttentionScheduler
