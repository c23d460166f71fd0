import MiniLLM.BatchTables
import MiniLLM.CudaPagedDecode
import MiniLLM.DecodeAttention

/-!
`decode_cpu` of the paged attention scheduler beside the batched CUDA kernel. Both
walk the blocks of each active sequence, one through the tables of the cache, the
other through the padded tables of the batch; they part where an `int` wraps.
-/

namespace MiniLLM.PagedAttentionScheduler

open Loops PagedKVCache KernelLaunch Cuda

variable {α : Type}

section Pointers

/-- The floats at and after an address, `offset` floats from a pointer. -/
def view (memory : Int → α) (offset : Int) : Buffer α := fun d => memory (offset + d)

def overlay (memory : Int → α) (offset : Int) (cells : Buffer α) : Int → α :=
  fun i => if offset ≤ i then cells (i - offset).toNat else memory i

theorem overlay_before (memory : Int → α) {offset i : Int} (cells : Buffer α) (before : i < offset) :
    overlay memory offset cells i = memory i := if_neg (Int.not_le.mpr before)

theorem overlay_at (memory : Int → α) (offset : Int) (cells : Buffer α) (d : Nat) :
    overlay memory offset cells (offset + d) = cells d := by
  rw [overlay, if_pos (by omega), Int.add_comm, Int.add_sub_cancel, Int.toNat_natCast]

theorem view_row (memory : Int → α) (b nh h hd d : Nat) :
    view memory (b * (nh * hd) : Nat) (h * hd + d) = view memory 0 ((b * nh + h) * hd + d) := by
  unfold view
  congr 1
  push_cast
  ring

end Pointers

variable [Field α] [LinearOrder α]

/-- `q` and `output` are not null; `stride` is an `int` and may wrap. -/
def decodeCpu (ops : FloatOps α) (s : PagedAttentionScheduler α) (layer : Int)
    (q output : Int → α) (numHeads headDim : Int) : Option Status × (Int → α) :=
  match s.buildBatch with
  | .error st => (some st, output)
  | .ok batch =>
      if headDim ≠ batch.headDim then
        (some (.shapeMismatch "decode_cpu head_dim must match PagedKVCache head_dim"), output)
      else
        let stride := wrap32 (numHeads * headDim)
        loopTry batch.batchSize.toNat (fun b output =>
            let sequenceId := batch.sequenceIds.getD b 0
            let (st, row) := CpuKernelAdapter.pagedAttentionDecode ops s.cache sequenceId layer
              (view q (b * stride)) (view output (b * stride)) numHeads headDim
            (st, overlay output (b * stride) row))
          output

/-- The device holds a copy of the storage of a layer. -/
def SameStorage (cache : PagedKVCache α) (layer : Int) (kCache vCache : Buffer α) : Prop :=
  ∀ i < cache.maxBlocks * cache.blockStride,
    kCache i = cache.storage true layer i ∧ vCache i = cache.storage false layer i

/-- The kernel as the wrapper launches it on a batch. -/
def batchKernel (ops : FloatOps α) (batch : PagedAttentionBatch) (q kCache vCache : Buffer α)
    (numHeads : Nat) : Kernel (Option α) :=
  pagedAttentionDecodeBatchKernel ops q kCache vCache batch.blockTables batch.sequenceLengths
    batch.batchSize batch.maxBlocksPerSequence numHeads batch.numKvHeads batch.headDim
    batch.blockSize

/-- Whatever the outputs held, both sides return and leave the same rows. -/
def DecodesAlike (ops : FloatOps α) (s : PagedAttentionScheduler α) (batch : PagedAttentionBatch)
    (order : List Thread → List Thread) (layer : Int) (numHeads : Nat) (kCache vCache : Buffer α)
    (q : Int → α) : Prop :=
  ∀ (output : Int → α) (out : Buffer (Option α)), ∃ cpu gpu,
    s.decodeCpu ops layer q output numHeads batch.headDim = (none, cpu) ∧
      pagedAttentionDecodeBatch ops order (view q 0) kCache vCache batch.blockTables
        batch.sequenceLengths out batch.batchSize batch.maxBlocksPerSequence numHeads
        batch.numKvHeads batch.headDim batch.blockSize = (none, gpu) ∧
      ∀ i < batch.batchSize.toNat * (numHeads * batch.headDim.toNat), gpu i = some (cpu i)

/-- The calls of a run have `int` arguments. -/
def Op.IsInt : Op α → Prop
  | .cacheCall call => call.IsInt
  | _ => True

omit [LinearOrder α] in
theorem runs_cache (maxBatchSize : Int) (calls : List (Op α)) (isInt : ∀ op ∈ calls, op.IsInt) :
    (runs maxBatchSize calls).cache.Owned ∧ (runs maxBatchSize calls).cache.Ints ∧
      (runs maxBatchSize calls).cache.Sized := by
  refine Machine.guarded_invariant step (fun _ op => op.IsInt)
    (fun s => s.cache.Owned ∧ s.cache.Ints ∧ s.cache.Sized) ?_ _ calls
    ⟨release_owned {}, ⟨(by decide : 0 < 2147483648), fun id => by
      rw [uninitialized_length _ rfl]; decide⟩, Or.inl rfl⟩
    (Machine.guarded_of_forall step Op.IsInt _ calls isInt)
  rintro s op ⟨owned, ints, sized⟩ int
  cases op with
  | cacheCall call =>
      exact ⟨step_owned s.cache call owned, step_ints ints owned call int, step_sized call owned sized⟩
  | addSequence id =>
      rcases addSequence_cases s id with same | ⟨_, _, _, same⟩
      all_goals
        simp only [step, same]
        exact ⟨owned, ints, sized⟩
  | removeSequence | clear => exact ⟨owned, ints, sized⟩

/-- The caches of a run have rows whose floats an `int` counts. -/
def Op.Bounded : Op α → Prop
  | .cacheCall call => call.Bounded
  | _ => True

omit [LinearOrder α] in
theorem runs_rowFits (maxBatchSize : Int) (calls : List (Op α)) (bounds : ∀ op ∈ calls, op.Bounded) :
    (runs maxBatchSize calls).cache.RowFits := by
  refine (Machine.guarded_invariant step (fun _ op => op.Bounded)
    (fun s => s.cache.Owned ∧ s.cache.RowFits) ?_ _ calls ⟨release_owned {}, release_rowFits {}⟩
    (Machine.guarded_of_forall step Op.Bounded _ calls bounds)).2
  rintro s op ⟨owned, rowFits⟩ bounded
  cases op with
  | cacheCall call =>
      exact ⟨step_owned s.cache call owned, step_rowFits call owned bounded rowFits⟩
  | addSequence id =>
      rcases addSequence_cases s id with same | ⟨_, _, _, same⟩
      all_goals
        simp only [step, same]
        exact ⟨owned, rowFits⟩
  | removeSequence | clear => exact ⟨owned, rowFits⟩

section Host

/-- A decoded row stays within its floats. -/
theorem pagedAttentionDecode_frame (ops : FloatOps α) (paged : PagedKVCache α) (seqId li : Int)
    (q output : Buffer α) (nh hd : Nat) {i : Nat} (outside : nh * hd ≤ i) :
    (CpuKernelAdapter.pagedAttentionDecode ops paged seqId li q output nh hd).2 i = output i := by
  unfold CpuKernelAdapter.pagedAttentionDecode
  dsimp only
  split_ifs
  all_goals try rfl
  refine loopTry_preserves (fun out : Buffer α => out i = output i) _ _ _ rfl ?_
  intro h out inside held
  split
  · exact held
  · refine (Strides.copyFloats_outside _ out _ _ fun d below same => ?_).trans held
    have := Strides.strided_lt inside below
    simp only [Int.toNat_natCast] at this same
    omega

/-- Rows that are decoded into places of their own are all found there. -/
theorem decodeCpu_at (ops : FloatOps α) {s : PagedAttentionScheduler α} {batch : PagedAttentionBatch}
    (built : s.buildBatch = .ok batch) (layer : Int) (q : Int → α) {nh hd : Nat}
    (dims : batch.headDim = hd) (value : Nat → Nat → α)
    (placed : ∀ b < batch.batchSize.toNat, (b : Int) * wrap32 (nh * hd) = (b * (nh * hd) : Nat))
    (rows : ∀ b < batch.batchSize.toNat, ∀ output, Ends (fun row => ∀ j < nh * hd, row j = value b j)
      (fun _ _ => False) (CpuKernelAdapter.pagedAttentionDecode ops s.cache
        (batch.sequenceIds.getD b 0) layer (view q (b * (nh * hd) : Nat)) output nh hd))
    (output : Int → α) :
    ∃ cpu, s.decodeCpu ops layer q output nh hd = (none, cpu) ∧
      ∀ b < batch.batchSize.toNat, ∀ j < nh * hd, cpu (b * (nh * hd) + j : Nat) = value b j := by
  unfold decodeCpu
  simp only [built, dims, ne_eq, not_true_eq_false, if_false]
  refine (ends_exists (loopTry_invariant
    (fun i (out : Int → α) => ∀ b < i, ∀ j < nh * hd, out (b * (nh * hd) + j : Nat) = value b j)
    (fun _ _ => False) _ _ _ (fun b below => absurd below (Nat.not_lt_zero b)) ?_))
  intro i out inside held
  obtain ⟨row, result, decoded⟩ := ends_exists (rows i inside (view out (i * (nh * hd) : Nat)))
  simp only [placed i inside, result]
  intro b below j inner
  rcases Nat.lt_succ_iff_lt_or_eq.mp below with before | rfl
  · rw [overlay_before]
    · exact held b before j inner
    · have := Strides.strided_lt before inner
      omega
  · rw [Int.natCast_add, overlay_at]
    exact decoded j inner

/-- With a stride that wrapped each of several rows ends before the last float. -/
theorem short_stride {rows b size : Nat} (several : 2 ≤ rows) (inside : b < rows)
    (wraps : 2147483648 ≤ size) :
    (b : Int) * wrap32 size + size ≤ (rows * size - 1 : Nat) := by
  have int := wrap32_lt size
  have whole : 2 * size ≤ rows * size := Nat.mul_le_mul_right size several
  obtain zero | some := Nat.eq_zero_or_pos b
  · subst zero
    omega
  · calc (b : Int) * wrap32 size + size
        ≤ b * (size - 1) + size := by
          have := Int.mul_le_mul_of_nonneg_left (by omega : wrap32 size ≤ size - 1)
            (Int.natCast_nonneg b)
          omega
      _ = ((b + 1) * size : Nat) - b := by push_cast; ring
      _ ≤ (rows * size - 1 : Nat) := by
          have := Nat.mul_le_mul_right size inside
          rw [Nat.succ_eq_add_one] at this
          omega

/-- A stride that wrapped brings the rows together: the last float is never reached. -/
theorem decodeCpu_short (ops : FloatOps α) {s : PagedAttentionScheduler α}
    {batch : PagedAttentionBatch} (built : s.buildBatch = .ok batch) (layer : Int) (q output : Int → α)
    {nh hd : Nat} (several : 2 ≤ batch.batchSize.toNat) (wraps : 2147483648 ≤ nh * hd) :
    (s.decodeCpu ops layer q output nh hd).2 (batch.batchSize.toNat * (nh * hd) - 1 : Nat) =
      output (batch.batchSize.toNat * (nh * hd) - 1 : Nat) := by
  unfold decodeCpu
  simp only [built]
  split_ifs
  · rfl
  generalize batch.batchSize.toNat = rows at several ⊢
  refine loopTry_preserves (fun out : Int → α => out (rows * (nh * hd) - 1 : Nat) =
    output (rows * (nh * hd) - 1 : Nat)) _ _ _ rfl ?_
  intro b out inside held
  have behind : (b : Int) * wrap32 (nh * hd) + (nh * hd : Nat) ≤ (rows * (nh * hd) - 1 : Nat) :=
    short_stride several inside wraps
  obtain ⟨d, place⟩ := Int.le.dest behind
  dsimp only
  rw [← place, Int.add_assoc, ← Int.natCast_add, overlay_at,
    pagedAttentionDecode_frame ops _ _ _ _ _ _ _ (Nat.le_add_right _ d), view, Int.natCast_add,
    ← Int.add_assoc, place, held]

end Host

section Rows

/-- The attention of head `h` of row `b` over the storage rows the batch names. -/
def rowValue (ops : FloatOps α) (batch : PagedAttentionBatch) (q kCache vCache : Buffer α)
    (nh b h d : Nat) : α :=
  let nkv := batch.numKvHeads.toNat
  let hd := batch.headDim.toNat
  let size := batch.blockSize.toNat
  let base := fun pos =>
    ((batch.blockTables.getD (b * batch.maxBlocksPerSequence.toNat + pos / size) 0).toNat * size +
      pos % size) * (nkv * hd) + h / (nh / nkv) * hd
  Cpu.attend ops hd (fun d => q ((b * nh + h) * hd + d)) (fun pos d => kCache (base pos + d))
    (fun pos d => vCache (base pos + d)) (batch.sequenceLengths.getD b 0).toNat d

omit [LinearOrder α] in
/-- Where a pointer leads: the storage row of the block and the slice of the head. -/
theorem tokenPtr_block {cache : PagedKVCache α} (rowFits : cache.RowFits) {key : Bool}
    {id layer : Int} {pos head block : Nat}
    (layers : 0 ≤ layer ∧ layer < cache.numLayers) (heads : head < cache.numKvHeads)
    (below : pos < cache.sequenceLength id)
    (place : cache.physicalBlockForPosition id pos = .ok block) :
    cache.tokenPtr key id layer pos head = .ok fun d => cache.storage key layer
      ((block * cache.blockSize + pos % cache.blockSize) * (cache.numKvHeads * cache.headDim) +
        (head * cache.headDim + d)) := by
  have index : ∀ d, cache.rowIndex block pos + head * cache.headDim + d =
      (block * cache.blockSize + pos % cache.blockSize) * (cache.numKvHeads * cache.headDim) +
        (head * cache.headDim + d) := by
    intro d
    rw [rowIndex, blockStride, kvHidden_eq rowFits, Int.toNat_natCast]
    ring
  unfold tokenPtr
  rw [if_neg (by omega), if_neg (by omega), if_neg (by omega), place]
  simp only [Int.toNat_natCast, index]

omit [LinearOrder α] in
theorem Measured.points {s : PagedAttentionScheduler α} {batch : PagedAttentionBatch}
    (done : s.Measured s.activeSequenceIds batch) (owned : s.cache.Owned)
    (rowFits : s.cache.RowFits) (positive : 0 < s.cache.blockSize) {layer : Int}
    (layers : 0 ≤ layer ∧ layer < s.cache.numLayers) {kCache vCache : Buffer α}
    (same : SameStorage s.cache layer kCache vCache) {b : Nat} {id : Int}
    (active : s.activeSequenceIds[b]? = some id)
    (fits : s.cache.sequenceLength id + s.cache.blockSize ≤ 2147483648) :
    let row := fun pos => (((fillTables s.cache batch).getD
        (b * batch.maxBlocksPerSequence.toNat + pos / s.cache.blockSize) 0).toNat *
      s.cache.blockSize + pos % s.cache.blockSize) * (s.cache.numKvHeads * s.cache.headDim)
    CpuKernelAdapter.HeadsPoint s.cache id layer (s.cache.sequenceLength id).toNat
      s.cache.numKvHeads s.cache.headDim (fun pos d => kCache (row pos + d))
      fun pos d => vCache (row pos + d) := by
  intro row head under pos below
  obtain ⟨block, place, entry⟩ := done.entry positive active fits
    (by omega : (pos : Int) < s.cache.sequenceLength id)
  refine ⟨_, _, tokenPtr_block rowFits layers under (by omega) place,
    tokenPtr_block rowFits layers under (by omega) place, fun d inner => ?_⟩
  simp only [row, entry, Int.toNat_natCast]
  obtain ⟨_, _, _, stored⟩ := (physicalBlock_ok_iff _ _ _ _).mp place
  obtain ⟨_, bound, _⟩ := (physicalBlock_ok_iff _ _ _ _).mp place
  have listed : block ∈ s.cache.tables := List.mem_flatMap.mpr
    ⟨s.cache.sequence id, List.mem_of_getElem? (sequence_getElem? _ id bound),
      List.mem_of_getElem? stored⟩
  have inside := Strides.strided_lt (Strides.strided_lt (owned.lt_maxBlocks listed)
    (Nat.mod_lt pos positive)) (Strides.strided_lt under inner)
  rw [Nat.mul_assoc, ← kvHidden_eq rowFits] at inside
  rw [← kvHidden_eq rowFits]
  exact ⟨(same _ inside).1.symm, (same _ inside).2.symm⟩

omit [Field α] [LinearOrder α] in
/-- A batch has a block, so its cache has dimensions. -/
theorem Measured.sized {s : PagedAttentionScheduler α} {batch : PagedAttentionBatch}
    (done : s.Measured s.activeSequenceIds batch) (some : 0 < batch.maxBlocksPerSequence)
    (owned : s.cache.Owned) (sized : s.cache.Sized) :
    s.cache.initialized = true ∧ 0 < s.cache.blockSize ∧ 0 < s.cache.numKvHeads ∧
      0 < s.cache.headDim := by
  obtain none | ⟨id, member, same⟩ := done.attained
  · omega
  have enough := done.enough id member
  have bound : 0 ≤ id ∧ id.toNat < s.cache.sequences.length := by
    simpa [known] using (done.tokens id member).1
  obtain ⟨block, rest, blocks⟩ := List.exists_cons_of_length_pos
    (by omega : 0 < (s.cache.sequence id).blocks.length)
  have listed : block ∈ s.cache.tables := List.mem_flatMap.mpr
    ⟨s.cache.sequence id, List.mem_of_getElem? (sequence_getElem? _ id bound.2),
      by rw [blocks]; exact List.mem_cons_self⟩
  have blocks := owned.lt_maxBlocks listed
  obtain none | ⟨size, heads, dims⟩ := sized
  · omega
  · exact ⟨by simp [initialized]; omega, size, heads, dims⟩

end Rows

section Sides

variable [IsStrictOrderedRing α]

/-- Every row decoded on the host. -/
theorem Measured.host {s : PagedAttentionScheduler α} {batch : PagedAttentionBatch}
    (done : s.Measured s.activeSequenceIds batch) (some : 0 < batch.maxBlocksPerSequence)
    (owned : s.cache.Owned) (rowFits : s.cache.RowFits) (sized : s.cache.Sized) (ops : FloatOps α)
    (law : Softmax.ExpLaw ops.exp)
    (built : s.buildBatch = .ok { batch with blockTables := fillTables s.cache batch })
    {layer : Int} (layers : 0 ≤ layer ∧ layer < s.cache.numLayers) {kCache vCache : Buffer α}
    (same : SameStorage s.cache layer kCache vCache) {nh : Nat} (heads : 0 < nh)
    (divides : s.cache.numKvHeads ∣ nh)
    (fits : ∀ id ∈ s.activeSequenceIds,
      s.cache.sequenceLength id + s.cache.blockSize ≤ 2147483648)
    (strides : batch.batchSize = 1 ∨ nh * s.cache.headDim < 2147483648) (q output : Int → α) :
    ∃ cpu, s.decodeCpu ops layer q output nh s.cache.headDim = (none, cpu) ∧
      ∀ b < batch.batchSize.toNat, ∀ h < nh, ∀ d < s.cache.headDim,
        cpu (b * (nh * s.cache.headDim) + (h * s.cache.headDim + d) : Nat) =
          rowValue ops { batch with blockTables := fillTables s.cache batch } (view q 0) kCache
            vCache nh b h d := by
  obtain ⟨ready, size, kvHeads, dims⟩ := done.sized some owned sized
  have placed : ∀ b < batch.batchSize.toNat,
      (b : Int) * wrap32 (nh * s.cache.headDim) = (b * (nh * s.cache.headDim) : Nat) := by
    intro b insideB
    rcases strides with one | int
    · obtain rfl : b = 0 := by omega
      simp
    · rw [← Int.natCast_mul, wrap32_eq _ (by omega) (by omega)]
      rfl
  have rows : ∀ b < batch.batchSize.toNat, ∀ before, Ends
      (fun row => ∀ j < nh * s.cache.headDim, row j =
        rowValue ops { batch with blockTables := fillTables s.cache batch } (view q 0) kCache vCache nh
          b (j / s.cache.headDim) (j % s.cache.headDim))
      (fun _ _ => False) (CpuKernelAdapter.pagedAttentionDecode ops s.cache
        (batch.sequenceIds.getD b 0) layer (view q (b * (nh * s.cache.headDim) : Nat)) before nh
        s.cache.headDim) := by
    intro b insideB before
    rw [done.count] at insideB
    have active := List.getElem?_eq_getElem (by omega : b < s.activeSequenceIds.length)
    have member := List.mem_of_getElem? active
    generalize s.activeSequenceIds[b] = id at active member
    obtain ⟨rowId, rowLength, _, _⟩ := done.row active
    have tokens := (done.tokens id member).2
    rw [rowId]
    have attended := CpuKernelAdapter.pagedAttentionDecode_at ops law ready rfl rfl
      ⟨heads, kvHeads, dims⟩ divides (Int.toNat_of_nonneg tokens.le).symm (by omega)
      (done.points owned rowFits size layers same active (fits id member))
      (view q (b * (nh * s.cache.headDim) : Nat)) before
    refine attended.mono (fun out decoded j inside => ?_) fun _ _ no => no
    have head : j / s.cache.headDim < nh := Nat.div_lt_of_lt_mul (by rwa [Nat.mul_comm])
    have cell := decoded _ head _ (Nat.mod_lt j dims)
    rw [Nat.div_add_mod'] at cell
    simp only [cell, rowValue, rowLength, done.heads, done.headDim, done.size, Int.toNat_natCast,
      view_row, Nat.add_assoc]
  obtain ⟨cpu, result, decoded⟩ := decodeCpu_at ops built layer q done.headDim _ placed rows output
  refine ⟨cpu, result, fun b insideB h insideH d insideD => ?_⟩
  have cell := decoded b insideB _ (Strides.strided_lt insideH insideD)
  rwa [Nat.mul_add_mod_of_lt insideD, Nat.mul_comm h, Nat.mul_add_div dims,
    Nat.div_eq_of_lt insideD, Nat.add_zero, Nat.mul_comm _ h] at cell

end Sides

section Device

variable {s : PagedAttentionScheduler α} {batch : PagedAttentionBatch}

/-- The dimensions of a batch pass the checks of the wrapper. -/
theorem Measured.launches (done : s.Measured s.activeSequenceIds batch)
    (some : 0 < batch.maxBlocksPerSequence) (owned : s.cache.Owned) (sized : s.cache.Sized)
    (ops : FloatOps α) (order : List Thread → List Thread) (q kCache vCache : Buffer α) {nh : Nat}
    (heads : 0 < nh) (divides : s.cache.numKvHeads ∣ nh) (small : s.cache.headDim ≤ 256)
    (tables : List Int) (out : Buffer (Option α)) :
    pagedAttentionDecodeBatch ops order q kCache vCache tables batch.sequenceLengths out
        batch.batchSize batch.maxBlocksPerSequence nh batch.numKvHeads batch.headDim batch.blockSize =
      (none, launch (batchKernel ops { batch with blockTables := tables } q kCache vCache nh)
        (order (grid nh batch.batchSize.toNat blockThreads)) out) := by
  obtain ⟨_, size, kvHeads, dims⟩ := done.sized some owned sized
  have rows : 0 < batch.batchSize := by
    obtain none | ⟨id, member, _⟩ := done.attained
    · omega
    · have := List.length_pos_of_mem member
      rw [done.count]
      omega
  have whole : (nh : Int) % s.cache.numKvHeads = 0 := by
    have := Nat.mod_eq_zero_of_dvd divides
    omega
  unfold pagedAttentionDecodeBatch batchKernel
  simp only [validatePositiveDims, done.heads, done.headDim, done.size]
  rw [if_neg (by omega), if_neg (by omega), if_neg (by omega), if_neg (by omega),
    if_neg (by omega), if_neg (by omega)]
  simp only [whole, ne_eq, not_true_eq_false, if_false, Int.toNat_natCast]
  rw [if_neg (by omega)]

/-- A thread of a row whose block count fits stores the attention of its float. -/
theorem Measured.thread_at [IsStrictOrderedRing α] (done : s.Measured s.activeSequenceIds batch)
    (some : 0 < batch.maxBlocksPerSequence) (ints : s.cache.Ints) (positive : 0 < s.cache.blockSize)
    {ops : FloatOps α} (law : Softmax.ExpLaw ops.exp) (q kCache vCache : Buffer α) {nh : Nat}
    {t : Thread} {id : Int} (active : s.activeSequenceIds[t.blockY]? = .some id)
    (below : t.thread < s.cache.headDim)
    (fits : s.cache.sequenceLength id + s.cache.blockSize ≤ 2147483648) :
    batchKernel ops { batch with blockTables := fillTables s.cache batch } q kCache vCache nh t =
      .some ((t.blockY * nh + t.blockX) * s.cache.headDim + t.thread,
        .some (rowValue ops { batch with blockTables := fillTables s.cache batch } q kCache vCache nh
          t.blockY t.blockX t.thread)) := by
  obtain ⟨_, rowLength, inside, width⟩ := done.row active
  have tokens := (done.tokens id (List.mem_of_getElem? active)).2
  have int := done.width_int ints positive some
  have reach := (blocksForLength_bounds positive tokens.le fits).1
  have wider := Int.mul_le_mul_of_nonneg_right width (Int.natCast_nonneg s.cache.blockSize)
  have stored := @kernel_at α _ _ ops q kCache vCache (fillTables s.cache batch)
    batch.sequenceLengths batch.batchSize batch.maxBlocksPerSequence nh batch.numKvHeads
    batch.headDim batch.blockSize t _ law (by omega) (by rw [done.headDim]; omega) _ rowLength tokens
    (by rw [done.size, wrap32_eq _ (by omega) int]; omega)
    (fun pos early => by
      obtain ⟨block, _, entry⟩ := done.entry positive active fits
        (by omega : (pos : Int) < s.cache.sequenceLength id)
      rw [done.size, Int.toNat_natCast, entry]
      exact Int.natCast_nonneg block)
  unfold batchKernel rowValue
  dsimp only at stored ⊢
  rw [stored, rowLength, done.headDim]
  simp only [Int.toNat_natCast]

/-- A thread of a row whose block count wrapped divides by zero. -/
theorem Measured.thread_blank (done : s.Measured s.activeSequenceIds batch)
    (some : 0 < batch.maxBlocksPerSequence) (ints : s.cache.Ints) (positive : 0 < s.cache.blockSize)
    (ops : FloatOps α) (q kCache vCache : Buffer α) {nh : Nat} {t : Thread} {id : Int}
    (active : s.activeSequenceIds[t.blockY]? = .some id) (below : t.thread < s.cache.headDim)
    (wraps : 2147483648 < s.cache.sequenceLength id + s.cache.blockSize) :
    batchKernel ops { batch with blockTables := fillTables s.cache batch } q kCache vCache nh t =
      .some ((t.blockY * nh + t.blockX) * s.cache.headDim + t.thread, none) := by
  obtain ⟨_, rowLength, inside, _⟩ := done.row active
  have tokens := (done.tokens id (List.mem_of_getElem? active)).2
  have int := done.width_int ints positive some
  have low := Int.mul_nonneg some.le (Int.natCast_nonneg s.cache.blockSize)
  unfold batchKernel
  dsimp only
  rw [kernel_blank (by omega) (by rw [done.headDim]; omega) (by rw [rowLength]; exact tokens)]
  · simp only [Int.toNat_natCast, done.headDim]
  · intro pos early
    rw [done.size] at early ⊢
    rw [wrap32_eq _ (by omega) int] at early
    rw [Int.toNat_natCast, done.blank ints active wraps]
    · decide
    · refine (Nat.div_lt_iff_lt_mul positive).mpr ?_
      have whole : ((batch.maxBlocksPerSequence.toNat * s.cache.blockSize : Nat) : Int) =
          batch.maxBlocksPerSequence * s.cache.blockSize := by
        rw [Int.natCast_mul, Int.toNat_of_nonneg some.le]
      omega

/-- Threads store to cells of their own. -/
theorem Measured.place (done : s.Measured s.activeSequenceIds batch) {ops : FloatOps α}
    {q kCache vCache : Buffer α} {nh : Nat} (tables : List Int) (t : Thread) (index : Nat)
    (value : Option α)
    (write : batchKernel ops { batch with blockTables := tables } q kCache vCache nh t =
      some (index, value)) :
    t.thread < s.cache.headDim ∧
      index = (t.blockY * nh + t.blockX) * s.cache.headDim + t.thread := by
  have place := kernel_place write
  dsimp only at place
  rwa [done.headDim, Int.toNat_natCast, Int.toNat_natCast] at place

/-- Rows with a block count in `int` and rows without: every output float has one writer. -/
theorem Measured.writer [IsStrictOrderedRing α] (done : s.Measured s.activeSequenceIds batch)
    (some : 0 < batch.maxBlocksPerSequence) (ints : s.cache.Ints) (positive : 0 < s.cache.blockSize)
    {ops : FloatOps α} (law : Softmax.ExpLaw ops.exp) (q kCache vCache : Buffer α) {nh : Nat}
    (small : s.cache.headDim ≤ 256) {i : Nat}
    (inside : i < batch.batchSize.toNat * (nh * s.cache.headDim)) :
    ∃! t, t ∈ grid nh batch.batchSize.toNat blockThreads ∧ Writes
      (batchKernel ops { batch with blockTables := fillTables s.cache batch } q kCache vCache nh) t
      i := by
  refine written_once (show s.cache.headDim ≤ blockThreads from small) (done.place _) ?_ inside
  intro t member below
  have row := (mem_grid.mp member).2.1
  rw [done.count] at row
  have active := List.getElem?_eq_getElem (by omega : t.blockY < s.activeSequenceIds.length)
  generalize s.activeSequenceIds[t.blockY] = id at active
  by_cases fits : s.cache.sequenceLength id + s.cache.blockSize ≤ 2147483648
  · exact ⟨_, _, done.thread_at some ints positive law q kCache vCache active below fits⟩
  · exact ⟨_, _, done.thread_blank some ints positive ops q kCache vCache active below
      (Int.not_le.mp fits)⟩

end Device

section Agreement

/-- A batch that was collected, with its tables filled, and the call it is decoded with. -/
structure Served (ops : FloatOps α) (s : PagedAttentionScheduler α) (batch : PagedAttentionBatch)
    (order : List Thread → List Thread) (layer : Int) (numHeads : Nat) (kCache vCache : Buffer α) :
    Prop where
  law : Softmax.ExpLaw ops.exp
  owned : s.cache.Owned
  ints : s.cache.Ints
  sized : s.cache.Sized
  done : s.Measured s.activeSequenceIds batch
  columns : 0 < batch.maxBlocksPerSequence
  built : s.buildBatch = .ok { batch with blockTables := fillTables s.cache batch }
  layers : 0 ≤ layer ∧ layer < s.cache.numLayers
  heads : 0 < numHeads
  divides : s.cache.numKvHeads ∣ numHeads
  small : s.cache.headDim ≤ 256
  same : SameStorage s.cache layer kCache vCache
  reorders : ∀ threads, (order threads).Perm threads

variable [IsStrictOrderedRing α] {ops : FloatOps α} {s : PagedAttentionScheduler α}
variable {batch : PagedAttentionBatch} {order : List Thread → List Thread} {layer : Int}
variable {numHeads : Nat} {kCache vCache : Buffer α}

theorem Served.writer (served : Served ops s batch order layer numHeads kCache vCache) (q : Buffer α)
    {i : Nat} (inside : i < batch.batchSize.toNat * (numHeads * s.cache.headDim)) :
    ∃! t, t ∈ grid numHeads batch.batchSize.toNat blockThreads ∧ Writes
      (batchKernel ops { batch with blockTables := fillTables s.cache batch } q kCache vCache numHeads)
      t i :=
  served.done.writer served.columns served.ints
    (served.done.sized served.columns served.owned served.sized).2.1 served.law q kCache vCache
    served.small inside

/-- Whatever the order, a float holds what its one writer stored. -/
theorem Served.left (served : Served ops s batch order layer numHeads kCache vCache) (q : Buffer α)
    (out : Buffer (Option α)) {t : Thread} {i : Nat} {value : Option α}
    (member : t ∈ grid numHeads batch.batchSize.toNat blockThreads)
    (write : batchKernel ops { batch with blockTables := fillTables s.cache batch } q kCache vCache
      numHeads t = some (i, value))
    (inside : i < batch.batchSize.toNat * (numHeads * s.cache.headDim)) :
    launch (batchKernel ops { batch with blockTables := fillTables s.cache batch } q kCache vCache
      numHeads) (order (grid numHeads batch.batchSize.toNat blockThreads)) out i = value := by
  refine launch_at ⟨t, (served.reorders _).mem_iff.mpr member, write⟩
    (fun other scheduled stored also => ?_) out
  obtain rfl := (served.writer q inside).unique ⟨member, _, write⟩
    ⟨(served.reorders _).mem_iff.mp scheduled, _, also⟩
  rw [write] at also
  cases also
  rfl

omit [IsStrictOrderedRing α] in
/-- What both sides leave when they are alike. -/
theorem Served.leaves (served : Served ops s batch order layer numHeads kCache vCache) {q : Int → α}
    (alike : DecodesAlike ops s { batch with blockTables := fillTables s.cache batch } order layer
      numHeads kCache vCache q) (output : Int → α) :
    ∃ cpu, s.decodeCpu ops layer q output numHeads s.cache.headDim = (none, cpu) ∧
      ∀ i < batch.batchSize.toNat * (numHeads * s.cache.headDim),
        launch (batchKernel ops { batch with blockTables := fillTables s.cache batch } (view q 0)
          kCache vCache numHeads) (order (grid numHeads batch.batchSize.toNat blockThreads))
          (fun _ => none) i = some (cpu i) := by
  obtain ⟨cpu, gpu, host, device, agree⟩ := alike output fun _ => none
  dsimp only at host device agree
  rw [served.done.launches served.columns served.owned served.sized ops order _ kCache vCache
    served.heads served.divides served.small] at device
  obtain rfl := (Prod.mk.inj device).2
  have width : batch.headDim.toNat = s.cache.headDim := by
    rw [served.done.headDim, Int.toNat_natCast]
  rw [served.done.headDim] at host
  rw [width] at agree
  exact ⟨cpu, host, agree⟩

theorem cell_lt {rows heads width b h d : Nat} (insideB : b < rows) (insideH : h < heads)
    (insideD : d < width) : (b * heads + h) * width + d < rows * (heads * width) := by
  rw [← Nat.mul_assoc]
  exact Strides.strided_lt (Strides.strided_lt insideB insideH) insideD

/-- A row that names no block leaves no value where the host has one. -/
theorem Served.fits (served : Served ops s batch order layer numHeads kCache vCache) {q : Int → α}
    (alike : DecodesAlike ops s { batch with blockTables := fillTables s.cache batch } order layer
      numHeads kCache vCache q) {id : Int} (member : id ∈ s.activeSequenceIds) :
    s.cache.sequenceLength id + s.cache.blockSize ≤ 2147483648 := by
  by_contra wide
  obtain ⟨_, positive, _, dims⟩ := served.done.sized served.columns served.owned served.sized
  obtain ⟨cpu, _, agree⟩ := served.leaves alike fun _ => 0
  obtain ⟨b, bound, active⟩ := List.mem_iff_getElem.mp member
  have row : b < batch.batchSize.toNat := by
    rw [served.done.count]
    omega
  have write := @Measured.thread_blank α _ _ s batch served.done served.columns served.ints positive ops
    (view q 0) kCache vCache numHeads ⟨0, b, 0⟩ id
    (List.getElem?_eq_some_iff.mpr ⟨bound, active⟩) dims (Int.not_le.mp wide)
  have first := cell_lt row served.heads dims
  have stored := served.left (view q 0) (fun _ => none)
    ((@mem_grid _ _ _ ⟨0, b, 0⟩).mpr ⟨served.heads, row, (by decide : 0 < blockThreads)⟩) write first
  rw [agree _ first] at stored
  cases stored

/-- With a stride that wrapped the host leaves the last float as it was, and the device
stores one value there. -/
theorem Served.strides (served : Served ops s batch order layer numHeads kCache vCache) {q : Int → α}
    (alike : DecodesAlike ops s { batch with blockTables := fillTables s.cache batch } order layer
      numHeads kCache vCache q) :
    batch.batchSize = 1 ∨ numHeads * s.cache.headDim < 2147483648 := by
  by_contra wide
  have several : 2 ≤ batch.batchSize.toNat := by
    have count := served.done.count
    obtain none | ⟨id, member, _⟩ := served.done.attained
    · exact absurd none (Int.not_le.mpr served.columns)
    · have := List.length_pos_of_mem member
      omega
  have more := Nat.mul_le_mul_right (numHeads * s.cache.headDim) several
  have kept : ∀ x : α, launch (batchKernel ops
      { batch with blockTables := fillTables s.cache batch } (view q 0) kCache vCache numHeads)
      (order (grid numHeads batch.batchSize.toNat blockThreads)) (fun _ => none)
      (batch.batchSize.toNat * (numHeads * s.cache.headDim) - 1) = some x := by
    intro x
    obtain ⟨cpu, host, agree⟩ := served.leaves alike fun _ => x
    have short := decodeCpu_short ops served.built layer q (fun _ => x) several
      (by omega : 2147483648 ≤ numHeads * s.cache.headDim)
    rw [host] at short
    rw [agree _ (by omega)]
    exact congrArg some short
  exact zero_ne_one (Option.some.inj ((kept 0).symm.trans (kept 1)))

/-- Without wraps the threads of a row store what the host computes for it. -/
theorem Served.alike (served : Served ops s batch order layer numHeads kCache vCache)
    (rowFits : s.cache.RowFits)
    (fits : ∀ id ∈ s.activeSequenceIds,
      s.cache.sequenceLength id + s.cache.blockSize ≤ 2147483648)
    (strides : batch.batchSize = 1 ∨ numHeads * s.cache.headDim < 2147483648) (q : Int → α) :
    DecodesAlike ops s { batch with blockTables := fillTables s.cache batch } order layer numHeads
      kCache vCache q := by
  intro output out
  obtain ⟨_, positive, _, _⟩ := served.done.sized served.columns served.owned served.sized
  obtain ⟨cpu, host, rows⟩ := served.done.host served.columns served.owned rowFits served.sized ops
    served.law served.built served.layers served.same served.heads served.divides fits strides q output
  refine ⟨cpu, _, by dsimp only; rw [served.done.headDim]; exact host,
    served.done.launches served.columns served.owned served.sized ops order _ kCache vCache served.heads
      served.divides served.small _ _, fun i inside => ?_⟩
  dsimp only at inside
  rw [served.done.headDim, Int.toNat_natCast] at inside
  obtain ⟨t, ⟨member, value, write⟩, _⟩ := served.writer (view q 0) inside
  obtain ⟨below, place⟩ := served.done.place _ t i value write
  obtain ⟨column, row, _⟩ := mem_grid.mp member
  have active := List.getElem?_eq_getElem
    (by rw [served.done.count] at row; omega : t.blockY < s.activeSequenceIds.length)
  have stored := served.left (view q 0) out member
    (served.done.thread_at served.columns served.ints positive served.law _ kCache vCache active below
      (fits _ (List.mem_of_getElem? active))) (cell_lt row column below)
  rw [← place] at stored
  rw [stored, ← rows t.blockY row t.blockX column t.thread below, place]
  congr 3
  ring

omit [IsStrictOrderedRing α] in
theorem runs_served (ops : FloatOps α) (law : Softmax.ExpLaw ops.exp) (maxBatchSize : Int)
    (calls : List (Op α)) (isInt : ∀ op ∈ calls, op.IsInt) {batch : PagedAttentionBatch}
    (built : (runs maxBatchSize calls).buildBatch = .ok batch)
    (layers : 0 ≤ layer ∧ layer < (runs maxBatchSize calls).cache.numLayers)
    (heads : 0 < numHeads) (divides : (runs maxBatchSize calls).cache.numKvHeads ∣ numHeads)
    (small : (runs maxBatchSize calls).cache.headDim ≤ 256)
    (same : SameStorage (runs maxBatchSize calls).cache layer kCache vCache)
    (reorders : ∀ threads, (order threads).Perm threads) :
    ∃ collected, batch =
        { collected with blockTables := fillTables (runs maxBatchSize calls).cache collected } ∧
      Served ops (runs maxBatchSize calls) collected order layer numHeads kCache vCache := by
  obtain ⟨owned, ints, sized⟩ := runs_cache maxBatchSize calls isInt
  obtain ⟨collected, done, columns, rfl⟩ := buildBatch_measured built
  exact ⟨collected, rfl, law, owned, ints, sized, done, columns, built, layers, heads, divides, small,
    same, reorders⟩

/-- No block count of an active sequence wraps, nor the stride between several rows. -/
def NoneWraps (s : PagedAttentionScheduler α) (batch : PagedAttentionBatch) (numHeads : Nat) : Prop :=
  (∀ id ∈ s.activeSequenceIds, s.cache.sequenceLength id + s.cache.blockSize ≤ 2147483648) ∧
    (batch.batchSize = 1 ∨ numHeads * s.cache.headDim < 2147483648)

/-- On the batches a run builds every output float of the device has one writer. The
device leaves what the host computes only when no block count wraps and the stride
between rows does not, and it does so then if the rows of the cache fit an `int`. -/
theorem batched_decode_exact (ops : FloatOps α) (law : Softmax.ExpLaw ops.exp) (maxBatchSize : Int)
    (calls : List (Op α)) (isInt : ∀ op ∈ calls, op.IsInt) {batch : PagedAttentionBatch}
    (built : (runs maxBatchSize calls).buildBatch = .ok batch) {layer : Int}
    (layers : 0 ≤ layer ∧ layer < (runs maxBatchSize calls).cache.numLayers) {numHeads : Nat}
    (heads : 0 < numHeads) (divides : (runs maxBatchSize calls).cache.numKvHeads ∣ numHeads)
    (small : (runs maxBatchSize calls).cache.headDim ≤ 256) {kCache vCache : Buffer α}
    (same : SameStorage (runs maxBatchSize calls).cache layer kCache vCache)
    {order : List Thread → List Thread} (reorders : ∀ threads, (order threads).Perm threads) :
    (∀ q, ∀ i < batch.batchSize.toNat * (numHeads * batch.headDim.toNat),
      ∃! t, t ∈ grid numHeads batch.batchSize.toNat blockThreads ∧
        Writes (batchKernel ops batch q kCache vCache numHeads) t i) ∧
      (∀ q, DecodesAlike ops (runs maxBatchSize calls) batch order layer numHeads kCache vCache q →
        NoneWraps (runs maxBatchSize calls) batch numHeads) ∧
      ((∀ op ∈ calls, op.Bounded) → NoneWraps (runs maxBatchSize calls) batch numHeads →
        ∀ q, DecodesAlike ops (runs maxBatchSize calls) batch order layer numHeads kCache vCache q) := by
  obtain ⟨batch, rfl, served⟩ := runs_served ops law maxBatchSize calls isInt built layers heads divides
    small same reorders
  refine ⟨fun q i inside => served.writer q ?_,
    fun q alike => ⟨fun id member => served.fits alike member, served.strides alike⟩,
    fun bounds ⟨fits, strides⟩ =>
      served.alike (runs_rowFits maxBatchSize calls bounds) fits strides⟩
  rwa [served.done.headDim, Int.toNat_natCast] at inside

-- Two sequences in blocks of two, the second one of three tokens over blocks 2 and 1.
def twoSequences : List (Op ℝ) :=
  [.cacheCall (.init 1 1 1 2 3),
    .cacheCall (.appendTokens 0 0 (some fun d => (d : ℝ)) (some fun d => (d : ℝ)) 1),
    .cacheCall (.appendTokens 1 0 (some fun d => (d : ℝ)) (some fun d => (d : ℝ)) 3),
    .addSequence 1, .addSequence 0]

theorem batched_decode_exact_two :
    ∃ batch, (runs 2 twoSequences).buildBatch = .ok batch ∧ ∀ q,
      DecodesAlike Cpu.realOps (runs 2 twoSequences) batch List.reverse 0 2
        ((runs 2 twoSequences).cache.storage true 0) ((runs 2 twoSequences).cache.storage false 0)
        q := by
  have exact := @batched_decode_exact ℝ _ _ _ Cpu.realOps ⟨Real.exp_add, Real.exp_pos⟩ 2 twoSequences
    (by simp [twoSequences, Op.IsInt, PagedKVCache.Op.IsInt]) _ rfl 0 (by decide) 2 (by decide)
    (by decide) (by decide) _ _ (fun i _ => ⟨rfl, rfl⟩) List.reverse
    (fun threads => List.reverse_perm threads)
  exact ⟨_, rfl, exact.2.2 (by simp [twoSequences, Op.Bounded, PagedKVCache.Op.Bounded])
    ⟨by decide, Or.inr (by decide)⟩⟩

-- Sequence 0 has the longest length there is, sequence 1 a single token.
def longRow : List (Op ℝ) :=
  [.cacheCall (.init 1 1 1 2 2), .cacheCall (.setSequenceLength 1 1),
    .cacheCall (.setSequenceLength 0 2147483647), .addSequence 0, .addSequence 1]

theorem longRow_blank :
    ∃ batch, (runs 2 longRow).buildBatch = .ok batch ∧ batch.blockTables = [-1, 0] ∧ ∀ q,
      ¬ DecodesAlike Cpu.realOps (runs 2 longRow) batch List.reverse 0 1
        ((runs 2 longRow).cache.storage true 0) ((runs 2 longRow).cache.storage false 0) q := by
  obtain ⟨batch, same, served⟩ := @runs_served ℝ _ _ List.reverse 0 1 _ _ Cpu.realOps
    ⟨Real.exp_add, Real.exp_pos⟩ 2 longRow
    (by simp [longRow, Op.IsInt, PagedKVCache.Op.IsInt]) _ rfl (by decide) (by decide) (by decide)
    (by decide) (fun i _ => ⟨rfl, rfl⟩) (fun threads => List.reverse_perm threads)
  refine ⟨_, rfl, by decide, fun q alike => ?_⟩
  rw [same] at alike
  exact absurd (served.fits alike (by decide : (0 : Int) ∈ _)) (by decide)

end Agreement

end MiniLLM.PagedAttentionScheduler
