import MiniLLM.FlashAttention
import MiniLLM.KernelLaunch
import MiniLLM.Status

/-!
`paged_attention_decode_batch` of runtime/kernels/cuda_kernels.cu, over exact
scalars. `block_reduce_sum` hands every thread the sum over the 256 threads of the
block; `rsqrtf` is the inverse root. Pointers are not null and the launch itself
does not fail. A quotient by zero has no value, which is stored as `none`.
-/

namespace MiniLLM.Cuda

open Loops Softmax Finset KernelLaunch Cpu

variable {α : Type} [Field α] [LinearOrder α]

section Kernel

def blockThreads : Nat := 256

def blockReduceSum (v : Nat → α) : α := ∑ tid ∈ range blockThreads, v tid

def quotient (a b : α) : Option α := if b = 0 then none else some (a / b)

/-- The registers `m`, `l` and `acc` of a thread. -/
structure Registers (α : Type) where
  m : α
  l : α
  acc : α

def start (ops : FloatOps α) : Registers α := { m := ops.lowest, l := 0, acc := 0 }

def absorb (ops : FloatOps α) (score value : α) (state : Registers α) : Registers α :=
  let newM := max state.m score
  let alpha := ops.exp (state.m - newM)
  let beta := ops.exp (score - newM)
  { m := newM, l := state.l * alpha + beta, acc := state.acc * alpha + beta * value }

/-- The score all threads of a block agree on. -/
def blockScore (ops : FloatOps α) (headDim : Nat) (qVec kVec : Buffer α) : α :=
  blockReduceSum (fun tid =>
      loopStride tid headDim blockThreads (fun d part => part + qVec d * kVec d) 0) *
    scaleOf ops headDim

/-- The loop over the positions, for the thread that owns float `tid` of the head; the
threads behind the head only help with the scores. -/
def decodeRegisters (ops : FloatOps α) (headDim blockSize kvHidden headOffset tid : Nat)
    (qVec kCache vCache : Buffer α) (blockTable : Nat → Int) (seqLen : Nat) : Registers α :=
  loop seqLen (fun pos state =>
      let physicalBlock := blockTable (pos / blockSize)
      if physicalBlock < 0 then state
      else
        let blockOffset := pos % blockSize
        let base := (physicalBlock.toNat * blockSize + blockOffset) * kvHidden + headOffset
        absorb ops (blockScore ops headDim qVec fun d => kCache (base + d)) (vCache (base + tid))
          state)
    (start ops)

def pagedAttentionDecodeBatchKernel (ops : FloatOps α) (q kCache vCache : Buffer α)
    (blockTables sequenceLengths : List Int)
    (batchSize maxBlocksPerSequence numHeads numKvHeads headDim blockSize : Int) :
    Kernel (Option α) := fun t =>
  let qh := t.blockX
  let b := t.blockY
  let tid := t.thread
  if b ≥ batchSize then none
  else
    let seqLen := sequenceLengths.getD b 0
    if seqLen ≤ 0 then none
    else
      let maxSeqLen := wrap32 (maxBlocksPerSequence * blockSize)
      let seqLen := if seqLen > maxSeqLen then maxSeqLen else seqLen
      let group := numHeads.toNat / numKvHeads.toNat
      let kvh := qh / group
      let hd := headDim.toNat
      let row := (b * numHeads.toNat + qh) * hd
      let state := decodeRegisters ops hd blockSize.toNat (numKvHeads.toNat * hd) (kvh * hd) tid
        (fun d => q (row + d)) kCache vCache
        (fun i => blockTables.getD (b * maxBlocksPerSequence.toNat + i) 0) seqLen.toNat
      if tid < headDim then some (row + tid, quotient state.acc state.l) else none

def validatePositiveDims (ctx : String) : List (Int × String) → Option Status
  | [] => none
  | (dim, name) :: rest =>
      if dim ≤ 0 then
        some (.invalidArgument ("cuda " ++ ctx ++ ": " ++ name ++ " must be positive"))
      else validatePositiveDims ctx rest

/-- The threads run in the order the device picks. -/
def pagedAttentionDecodeBatch (ops : FloatOps α) (order : List Thread → List Thread)
    (q kCache vCache : Buffer α) (blockTables sequenceLengths : List Int)
    (out : Buffer (Option α))
    (batchSize maxBlocksPerSequence numHeads numKvHeads headDim blockSize : Int) :
    Option Status × Buffer (Option α) :=
  match validatePositiveDims "paged attention batch"
    [(batchSize, "batch_size"), (maxBlocksPerSequence, "max_blocks_per_sequence"),
      (numHeads, "num_heads"), (numKvHeads, "num_kv_heads"), (headDim, "head_dim"),
      (blockSize, "block_size")] with
  | some st => (some st, out)
  | none =>
      if numHeads % numKvHeads ≠ 0 then
        (some (.invalidArgument
          "cuda paged attention batch num_heads must be divisible by num_kv_heads"), out)
      else if headDim > 256 then
        (some (.unsupported "cuda paged attention batch currently supports head_dim <= 256"), out)
      else
        (none, launch
          (pagedAttentionDecodeBatchKernel ops q kCache vCache blockTables sequenceLengths batchSize
            maxBlocksPerSequence numHeads numKvHeads headDim blockSize)
          (order (grid numHeads.toNat batchSize.toNat blockThreads)) out)

end Kernel

section Positions

omit [LinearOrder α] in
/-- The strided partial products of a block are the dot product. -/
theorem blockScore_eq (ops : FloatOps α) (headDim : Nat) (qVec kVec : Buffer α) :
    blockScore ops headDim qVec kVec = score ops headDim qVec kVec := by
  unfold blockScore blockReduceSum score
  rw [blockReduce_sum (by decide : 0 < blockThreads)]

/-- One position more. -/
theorem absorb_online (ops : FloatOps α) (law : ExpLaw ops.exp) {scores values : Nat → α} {n : Nat}
    {state : Registers α}
    (online : Online ops.exp (fun j => ops.exp (scores j)) values n (some state.m) state.l state.acc) :
    Online ops.exp (fun j => ops.exp (scores j)) values (n + 1)
      (some (absorb ops (scores n) (values n) state).m) (absorb ops (scores n) (values n) state).l
      (absorb ops (scores n) (values n) state).acc := by
  let next := max state.m (scores n)
  have step := @Online.absorb α _ _ ops.exp law (fun j => some (scores j)) values n 1 (some state.m)
    (some next) state.l state.acc (ops.exp (state.m - next)) online
    (fun none => by cases none)
    (fun old new sameOld sameNew => by rw [Option.some.inj sameOld, Option.some.inj sameNew])
  simp only [sum_range_one, Nat.add_zero, weightAt] at step
  exact step

/-- Where every table entry names a block, the registers divide to the attention over
the rows of these blocks. -/
theorem decodeRegisters_at [IsStrictOrderedRing α] (ops : FloatOps α) (law : ExpLaw ops.exp)
    (headDim blockSize kvHidden headOffset tid : Nat) (qVec kCache vCache : Buffer α)
    (blockTable : Nat → Int) {seqLen : Nat} (some : 0 < seqLen)
    (named : ∀ pos < seqLen, 0 ≤ blockTable (pos / blockSize)) :
    let state := decodeRegisters ops headDim blockSize kvHidden headOffset tid qVec kCache vCache
      blockTable seqLen
    let base := fun pos =>
      ((blockTable (pos / blockSize)).toNat * blockSize + pos % blockSize) * kvHidden + headOffset
    quotient state.acc state.l = .some (attend ops headDim qVec (fun pos d => kCache (base pos + d))
      (fun pos d => vCache (base pos + d)) seqLen tid) := by
  intro state base
  let scores := fun pos => score ops headDim qVec fun d => kCache (base pos + d)
  have online : Online ops.exp (fun j => ops.exp (scores j)) (fun pos => vCache (base pos + tid))
      seqLen (.some state.m) state.l state.acc := by
    refine loop_invariant (fun i (state : Registers α) => Online ops.exp (fun j => ops.exp (scores j))
      (fun pos => vCache (base pos + tid)) i (.some state.m) state.l state.acc) seqLen _ _
      ⟨by simp [start], by simp [start]⟩ ?_
    intro pos state below held
    simp only [if_neg (not_lt.mpr (named pos below)), blockScore_eq]
    exact @absorb_online α _ _ ops law scores (fun pos => vCache (base pos + tid)) pos state held
  have positive : 0 < state.l * ops.exp state.m := by
    rw [online.1]
    exact sum_pos (fun j _ => law.pos _) ⟨0, mem_range.mpr some⟩
  have divides : 0 < state.l := (mul_pos_iff_of_pos_right (law.pos _)).mp positive
  have average := online.average law fun j => (law.pos _).le
  rw [if_pos divides, mul_one_div] at average
  rw [quotient, if_neg divides.ne', average]
  rfl

/-- Where no table entry names a block nothing is absorbed. -/
theorem decodeRegisters_blank (ops : FloatOps α)
    (headDim blockSize kvHidden headOffset tid : Nat) (qVec kCache vCache : Buffer α)
    (blockTable : Nat → Int) {seqLen : Nat}
    (unnamed : ∀ pos < seqLen, blockTable (pos / blockSize) < 0) :
    decodeRegisters ops headDim blockSize kvHidden headOffset tid qVec kCache vCache blockTable
      seqLen = start ops := by
  refine loop_invariant (fun _ state => state = start ops) seqLen _ _ rfl ?_
  intro pos state below held
  rw [if_pos (unnamed pos below)]
  exact held

end Positions

section Threads

variable {ops : FloatOps α} {q kCache vCache : Buffer α} {blockTables sequenceLengths : List Int}
variable {batchSize maxBlocksPerSequence numHeads numKvHeads headDim blockSize : Int} {t : Thread}

/-- The one cell a thread may store to. -/
theorem kernel_place {index : Nat} {value : Option α}
    (write : pagedAttentionDecodeBatchKernel ops q kCache vCache blockTables sequenceLengths batchSize
      maxBlocksPerSequence numHeads numKvHeads headDim blockSize t = some (index, value)) :
    t.thread < headDim.toNat ∧
      index = (t.blockY * numHeads.toNat + t.blockX) * headDim.toNat + t.thread := by
  unfold pagedAttentionDecodeBatchKernel at write
  dsimp only at write
  split at write
  · cases write
  split at write
  · cases write
  split at write
  case isFalse => cases write
  case isTrue below =>
    cases write
    exact ⟨by omega, rfl⟩

/-- A thread of a row whose positions all have blocks stores the attention over them. -/
theorem kernel_at [IsStrictOrderedRing α] (law : ExpLaw ops.exp) (inside : t.blockY < batchSize)
    (below : t.thread < headDim) {length : Int}
    (listed : sequenceLengths.getD t.blockY 0 = length) (some : 0 < length)
    (reaches : length ≤ wrap32 (maxBlocksPerSequence * blockSize))
    (named : ∀ pos < length.toNat, 0 ≤ blockTables.getD
      (t.blockY * maxBlocksPerSequence.toNat + pos / blockSize.toNat) 0) :
    let row := (t.blockY * numHeads.toNat + t.blockX) * headDim.toNat
    let base := fun pos => ((blockTables.getD
        (t.blockY * maxBlocksPerSequence.toNat + pos / blockSize.toNat) 0).toNat * blockSize.toNat +
          pos % blockSize.toNat) * (numKvHeads.toNat * headDim.toNat) +
        t.blockX / (numHeads.toNat / numKvHeads.toNat) * headDim.toNat
    pagedAttentionDecodeBatchKernel ops q kCache vCache blockTables sequenceLengths batchSize
      maxBlocksPerSequence numHeads numKvHeads headDim blockSize t =
        .some (row + t.thread, .some (attend ops headDim.toNat (fun d => q (row + d))
          (fun pos d => kCache (base pos + d)) (fun pos d => vCache (base pos + d)) length.toNat
          t.thread)) := by
  intro row base
  unfold pagedAttentionDecodeBatchKernel
  dsimp only
  rw [if_neg (by omega), listed, if_neg (by omega), if_pos below, if_neg (by omega)]
  have value := decodeRegisters_at ops law headDim.toNat blockSize.toNat
    (numKvHeads.toNat * headDim.toNat)
    (t.blockX / (numHeads.toNat / numKvHeads.toNat) * headDim.toNat) t.thread
    (fun d => q (row + d)) kCache vCache
    (fun i => blockTables.getD (t.blockY * maxBlocksPerSequence.toNat + i) 0)
    (show 0 < length.toNat by omega) named
  dsimp only at value
  rw [value]

/-- A thread of a row that names no block stores a quotient by zero. -/
theorem kernel_blank (inside : t.blockY < batchSize) (below : t.thread < headDim)
    (some : 0 < sequenceLengths.getD t.blockY 0)
    (unnamed : ∀ pos : Nat, (pos : Int) < wrap32 (maxBlocksPerSequence * blockSize) →
      blockTables.getD (t.blockY * maxBlocksPerSequence.toNat + pos / blockSize.toNat) 0 < 0) :
    pagedAttentionDecodeBatchKernel ops q kCache vCache blockTables sequenceLengths batchSize
      maxBlocksPerSequence numHeads numKvHeads headDim blockSize t =
        .some ((t.blockY * numHeads.toNat + t.blockX) * headDim.toNat + t.thread, none) := by
  unfold pagedAttentionDecodeBatchKernel
  dsimp only
  rw [if_neg (by omega), if_neg (by omega), if_pos below, decodeRegisters_blank]
  · rw [start, quotient, if_pos rfl]
  · intro pos early
    refine unnamed pos ?_
    split at early <;> omega

end Threads

end MiniLLM.Cuda
