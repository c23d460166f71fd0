import MiniLLM.ChunkPlacement

/-!
Room in the block pool. What a sequence misses for a total, less the free blocks, does
not change while that sequence is written: a block taken counts on both sides. So whether
a chunk fits can be told before its first row is written, for all layers at once.
-/

namespace MiniLLM.PagedKVCache

open Loops
open scoped List

variable {Elem : Type}

/-- Blocks that the pool is short of, when the sequence is to hold `total` tokens. -/
def shortage (cache : PagedKVCache Elem) (sequenceId total : Int) : Int :=
  cache.missingBlocks sequenceId total - cache.freeBlocks.length

section Reserving

theorem takeBlocks_free (cache : PagedKVCache Elem) (sequenceId : Int) {n : Nat}
    (enough : n ≤ cache.freeBlocks.length) :
    (cache.takeBlocks sequenceId n).freeBlocks.length + n = cache.freeBlocks.length := by
  refine loop_invariant
    (fun i (c : PagedKVCache Elem) => c.freeBlocks.length + i = cache.freeBlocks.length) n
    (fun _ c => c.takeBlock sequenceId) cache rfl ?_
  intro i c below count
  simp only [takeBlock, List.length_dropLast]
  omega

theorem missingBlocks_congr {before after : PagedKVCache Elem} {sequenceId : Int}
    (size : after.blockSize = before.blockSize)
    (blocks : (after.sequence sequenceId).blocks.length = (before.sequence sequenceId).blocks.length)
    (total : Int) : after.missingBlocks sequenceId total = before.missingBlocks sequenceId total := by
  simp only [missingBlocks, neededBlocks, size, blocks]

theorem reserveSequence_shortage (cache : PagedKVCache Elem) (sequenceId reserved total : Int) :
    (cache.reserveSequence sequenceId reserved).2.shortage sequenceId total =
      cache.shortage sequenceId total := by
  have ensured := ensureSequence_missing cache sequenceId sequenceId total
  have free : (cache.ensureSequence sequenceId).2.freeBlocks = cache.freeBlocks := by
    obtain ⟨count, same⟩ := ensureSequence_frame cache sequenceId
    rw [same]
  cases result : (cache.reserveSequence sequenceId reserved).1.isOk with
  | false =>
      rw [reserveSequence_failed cache sequenceId reserved result]
      simp only [shortage, ensured, free]
  | true =>
      obtain ⟨fine, _, room, same⟩ := reserveSequence_ok cache sequenceId reserved result
      have bound := (ensureSequence_ok cache sequenceId fine).2.2
      -- Each block taken is one less missing and one less free.
      obtain ⟨extended, count⟩ := takeBlocks_extends (cache.ensureSequence sequenceId).2 sequenceId
        (cache.missingBlocks sequenceId reserved).toNat bound
      have left := takeBlocks_free (cache.ensureSequence sequenceId).2 sequenceId
        (show (cache.missingBlocks sequenceId reserved).toNat ≤ _ by rw [free]; omega)
      have size := extended.blockSize.trans (ensureSequence_extends cache sequenceId).blockSize
      have own := ensureSequence_sequence cache sequenceId sequenceId
      rw [free] at left
      rw [own] at count
      rw [same]
      generalize cache.missingBlocks sequenceId reserved = missing at room count left size ⊢
      generalize (cache.ensureSequence sequenceId).2.takeBlocks sequenceId missing.toNat = after
        at count left size
      simp only [shortage, missingBlocks, neededBlocks, size, count]
      omega

end Reserving

section Writing

/-- A write of rows, whether it succeeds or not, does to tables and pool what its
reservation does. -/
theorem writeTokens_pool (cache : PagedKVCache Elem) (sequenceId layer startPos : Int)
    (k v : Option (Buffer Elem)) (tokenCount : Int) :
    ∃ base : PagedKVCache Elem,
      (base = cache ∨ base = (cache.reserveSequence sequenceId (wrap32 (startPos + tokenCount))).2) ∧
      (cache.writeTokens sequenceId layer startPos k v tokenCount).2.freeBlocks = base.freeBlocks ∧
      (cache.writeTokens sequenceId layer startPos k v tokenCount).2.blockSize = base.blockSize ∧
      ∀ id, ((cache.writeTokens sequenceId layer startPos k v tokenCount).2.sequence id).blocks =
        (base.sequence id).blocks := by
  rcases writeTokens_cases cache sequenceId layer startPos k v tokenCount with
    ⟨same, _⟩ | ⟨kb, vb, _, _, _, writes⟩
  · exact ⟨cache, Or.inl rfl, by rw [same], by rw [same], fun _ => by rw [same]⟩
  · refine ⟨_, Or.inr rfl, ?_⟩
    have frame := writeRows_frame
      (cache.reserveSequence sequenceId (wrap32 (startPos + tokenCount))).2
      sequenceId layer startPos kb vb tokenCount.toNat
    have known := reserveSequence_known cache sequenceId (wrap32 (startPos + tokenCount))
    generalize cache.writeTokens sequenceId layer startPos k v tokenCount = result at writes
    cases writes with
    | noBlocks _ => exact ⟨rfl, rfl, fun _ => rfl⟩
    | stopped st after _ wrote =>
        rw [wrote] at frame
        rw [frame]
        exact ⟨rfl, rfl, fun _ => rfl⟩
    | written after fine wrote =>
        rw [wrote] at frame
        dsimp only at frame
        have inside : sequenceId.toNat < after.sequences.length := by
          rw [frame]
          exact (known fine).2
        refine ⟨by rw [frame]; rfl, by rw [frame]; rfl, fun id => ?_⟩
        dsimp only
        rw [modifySequence_sequence _ _ _ _ inside]
        split <;> rw [frame] <;> rfl

theorem writeTokens_shortage (cache : PagedKVCache Elem) (sequenceId layer startPos : Int)
    (k v : Option (Buffer Elem)) (tokenCount total : Int) :
    (cache.writeTokens sequenceId layer startPos k v tokenCount).2.shortage sequenceId total =
      cache.shortage sequenceId total := by
  obtain ⟨base, either, free, size, blocks⟩ :=
    writeTokens_pool cache sequenceId layer startPos k v tokenCount
  have same := missingBlocks_congr size (congrArg List.length (blocks sequenceId)) total
  rcases either with rfl | rfl
  · simp only [shortage, same, free]
  · rw [← reserveSequence_shortage cache sequenceId (wrap32 (startPos + tokenCount)) total]
    simp only [shortage, same, free]

/-- Tables only grow. -/
theorem writeTokens_tables (cache : PagedKVCache Elem) (sequenceId layer startPos : Int)
    (k v : Option (Buffer Elem)) (tokenCount id : Int) :
    (cache.sequence id).blocks <+:
      ((cache.writeTokens sequenceId layer startPos k v tokenCount).2.sequence id).blocks := by
  obtain ⟨base, either, _, _, blocks⟩ :=
    writeTokens_pool cache sequenceId layer startPos k v tokenCount
  rw [blocks id]
  rcases either with rfl | rfl
  · exact List.prefix_refl _
  · exact (reserveSequence_extends cache sequenceId _).blocks id

/-- Rows whose positions all have a block are all written. -/
theorem writeRows_total {cache : PagedKVCache Elem} {sequenceId layer startPos : Int}
    {count : Nat} (inLayers : 0 ≤ layer ∧ layer < cache.numLayers) (low : 0 ≤ startPos)
    (int : startPos + count < 2147483648)
    (covered : ∀ t < count, ∃ block,
      cache.physicalBlockForPosition sequenceId (startPos + (t : Nat)) = .ok block)
    (k v : Buffer Elem) : (cache.writeRows sequenceId layer startPos k v count).1 = none := by
  have ended : Ends (fun after => after = { cache with layers := after.layers } ∧
      after.numLayers = cache.numLayers) (fun _ _ => False)
      (cache.writeRows sequenceId layer startPos k v count) := by
    refine loopTry_invariant (fun _ (after : PagedKVCache Elem) =>
      after = { cache with layers := after.layers } ∧ after.numLayers = cache.numLayers) _ _ _ cache
      ⟨rfl, rfl⟩ ?_
    rintro t after below ⟨frame, size⟩
    obtain ⟨block, found⟩ := covered t below
    have place : wrap32 (startPos + t) = startPos + t := wrap32_eq _ (by omega) (by omega)
    have here : after.physicalBlockForPosition sequenceId (startPos + t) = .ok block := by
      rw [frame]
      exact found
    have next := writeRow_frame after sequenceId layer startPos k v t
    have sizeNext := writeRow_numLayers after sequenceId layer startPos k v t
    have fine : (writeRow sequenceId layer startPos k v t after).1 = none := by
      simp [writeRow, mutableTokenPtr, place, here, size, Int.not_lt.mpr inLayers.1,
        Int.not_le.mpr inLayers.2]
    generalize writeRow sequenceId layer startPos k v t after = result at next sizeNext fine ⊢
    obtain ⟨err, written⟩ := result
    obtain rfl : err = none := fine
    dsimp only at next sizeNext ⊢
    exact ⟨by rw [next, frame], sizeNext.trans size⟩
  generalize cache.writeRows sequenceId layer startPos k v count = result at ended ⊢
  obtain ⟨_ | st, after⟩ := result
  · rfl
  · exact ended.elim

/-- Rows are written exactly if the pool is not short of blocks for them. -/
theorem writeTokens_ok_iff {cache : PagedKVCache Elem} {sequenceId layer startPos : Int}
    {count : Nat} (ready : cache.initialized = true) (known : 0 ≤ sequenceId)
    (inLayers : 0 ≤ layer ∧ layer < cache.numLayers) (low : 0 ≤ startPos) (some : 0 < count)
    (rounds : startPos + count + cache.blockSize ≤ 2147483648) (k v : Buffer Elem) :
    (cache.writeTokens sequenceId layer startPos (.some k) (.some v) count).1.isOk = true ↔
      cache.shortage sequenceId (startPos + count) ≤ 0 := by
  have size : 0 < cache.blockSize := by
    simp [initialized] at ready
    exact ready.1
  have endPos : wrap32 (startPos + count) = startPos + count := wrap32_eq _ (by omega) (by omega)
  have writes := writeTokens_accepted cache sequenceId layer startPos k v count
    ⟨low, by omega, inLayers.1, inLayers.2⟩
  have succeeds := reserveSequence_succeeds cache sequenceId (startPos + count) ready known
    (by omega)
  have accepted := reserveSequence_ok cache sequenceId (startPos + count)
  have extended := reserveSequence_extends cache sequenceId (startPos + count)
  have covers := fun pos fine => reserveSequence_covers cache sequenceId (startPos + count) pos fine
    rounds
  generalize cache.writeTokens sequenceId layer startPos (.some k) (.some v) count = result at writes
  unfold shortage
  cases writes with
  | noBlocks bad =>
      rw [endPos] at bad ⊢
      rw [bad]
      refine ⟨fun no => (by cases no), fun room => ?_⟩
      rw [succeeds (by omega)] at bad
      cases bad
  | stopped st after fine wrote =>
      -- Behind the reservation every row has its block.
      rw [endPos] at fine wrote
      have inside : layer < (cache.reserveSequence sequenceId (startPos + count)).2.numLayers := by
        rw [numLayers, extended.layers]
        exact inLayers.2
      have total := @writeRows_total _ (cache.reserveSequence sequenceId (startPos + count)).2
        sequenceId layer startPos count ⟨inLayers.1, inside⟩ low (by omega)
        (fun t below => (covers (startPos + t) fine (by omega) (by omega)).2) k v
      rw [Int.toNat_natCast] at wrote
      rw [wrote] at total
      cases total
  | written after fine wrote =>
      rw [endPos] at fine
      have room := (accepted fine).2.2.1
      exact ⟨fun _ => by omega, fun _ => rfl⟩

end Writing

section Growing

/-- A shorter total is not shorter of blocks. -/
theorem shortage_mono (cache : PagedKVCache Elem) (sequenceId : Int) {less total : Int}
    (ready : cache.initialized = true) (positive : 0 < less) (le : less ≤ total)
    (rounds : total + cache.blockSize ≤ 2147483648) :
    cache.shortage sequenceId less ≤ cache.shortage sequenceId total := by
  have size : 0 < cache.blockSize := by
    simp [initialized] at ready
    exact ready.1
  have quotient : (less + cache.blockSize - 1) / (cache.blockSize : Int) ≤
      (total + cache.blockSize - 1) / cache.blockSize := Int.ediv_le_ediv (by omega) (by omega)
  have first : cache.neededBlocks less = (less + cache.blockSize - 1) / cache.blockSize := by
    rw [neededBlocks, if_neg (by omega)]
    exact ceilDivInt_eq _ _ (by omega) (by omega) (by omega)
  have second : cache.neededBlocks total = (total + cache.blockSize - 1) / cache.blockSize := by
    rw [neededBlocks, if_neg (by omega)]
    exact ceilDivInt_eq _ _ (by omega) (by omega) rounds
  simp only [shortage, missingBlocks, first, second]
  omega

end Growing

end MiniLLM.PagedKVCache

namespace MiniLLM.CpuKernelAdapter

open Loops PagedKVCache
open scoped List

variable {α : Type} {args : AttentionArgs α} {paged : PagedKVCache α} {seqId : Int}

/-- The write loop changes what no sequence of its own misses, and shortens no table. -/
theorem pagedWrites_pool (args : AttentionArgs α) (seqId start : Int) (paged : PagedKVCache α)
    (total : Int) :
    (pagedWrites args seqId start paged).2.shortage seqId total = paged.shortage seqId total ∧
      ∀ id, (paged.sequence id).blocks <+:
        ((pagedWrites args seqId start paged).2.sequence id).blocks := by
  refine loopTry_preserves
    (fun after => after.shortage seqId total = paged.shortage seqId total ∧
      ∀ id, (paged.sequence id).blocks <+: (after.sequence id).blocks)
    _ _ paged ⟨rfl, fun id => List.prefix_refl _⟩ ?_
  rintro s after _ ⟨short, grown⟩
  have shortNext := writeTokens_shortage after seqId args.layerIdx (wrap32 (start + s))
    (some fun d => args.k.data (s * args.kvHidden.toNat + d))
    (some fun d => args.v.data (s * args.kvHidden.toNat + d)) 1 total
  have tables := writeTokens_tables after seqId args.layerIdx (wrap32 (start + s))
    (some fun d => args.k.data (s * args.kvHidden.toNat + d))
    (some fun d => args.v.data (s * args.kvHidden.toNat + d)) 1
  dsimp only
  generalize after.writeTokens seqId args.layerIdx (wrap32 (start + s))
    (some fun d => args.k.data (s * args.kvHidden.toNat + d))
    (some fun d => args.v.data (s * args.kvHidden.toNat + d)) 1 = result at shortNext tables
  obtain ⟨st, next⟩ := result
  dsimp only at shortNext tables ⊢
  split <;> exact ⟨shortNext.trans short, fun id => (grown id).trans (tables id)⟩

/-- The write loop stores its chunk exactly if the pool has the blocks for all of it. -/
theorem pagedWrites_ok_iff {start : Int} {n : Nat} (low : 0 ≤ start) (tokens : args.seqLen = n)
    (positive : 0 < n)
    (ready : paged.initialized = true) (known : 0 ≤ seqId)
    (inLayers : 0 ≤ args.layerIdx ∧ args.layerIdx < paged.numLayers)
    (rounds : (start + n + paged.blockSize : Int) ≤ 2147483648) :
    (pagedWrites args seqId start paged).1 = none ↔ paged.shortage seqId (start + n) ≤ 0 := by
  have ended : Ends
      (fun after => SameShape paged after ∧
        (∀ total, after.shortage seqId total = paged.shortage seqId total) ∧
        (0 < args.seqLen.toNat → paged.shortage seqId (start + args.seqLen.toNat) ≤ 0))
      (fun _ _ => 0 < paged.shortage seqId (start + n)) (pagedWrites args seqId start paged) := by
    refine loopTry_invariant
      (fun i (after : PagedKVCache α) => SameShape paged after ∧
        (∀ total, after.shortage seqId total = paged.shortage seqId total) ∧
        (0 < i → paged.shortage seqId (start + i) ≤ 0)) _ _ _ paged
      ⟨SameShape.refl paged, fun _ => rfl, fun none => absurd none (Nat.lt_irrefl 0)⟩ ?_
    rintro i after below ⟨shape, short, _⟩
    have place : wrap32 (start + i) = start + i := wrap32_eq _ (by omega) (by omega)
    have fine := @writeTokens_ok_iff _ after seqId args.layerIdx (start + i) 1
      (shape.initialized.trans ready) known (by rw [shape.numLayers]; exact inLayers) (by omega)
      Nat.one_pos (by rw [shape.blockSize, Nat.cast_one]; omega)
      (fun d => args.k.data (i * args.kvHidden.toNat + d))
      (fun d => args.v.data (i * args.kvHidden.toNat + d))
    have shapeNext := writeTokens_sameShape after seqId args.layerIdx (start + i)
      (some fun d => args.k.data (i * args.kvHidden.toNat + d))
      (some fun d => args.v.data (i * args.kvHidden.toNat + d)) 1
    have shortNext := fun total => writeTokens_shortage after seqId args.layerIdx (start + i)
      (some fun d => args.k.data (i * args.kvHidden.toNat + d))
      (some fun d => args.v.data (i * args.kvHidden.toNat + d)) 1 total
    dsimp only
    rw [place]
    rw [short, Nat.cast_one] at fine
    generalize after.writeTokens seqId args.layerIdx (start + i)
      (some fun d => args.k.data (i * args.kvHidden.toNat + d))
      (some fun d => args.v.data (i * args.kvHidden.toNat + d)) 1 = result
      at fine shapeNext shortNext ⊢
    obtain ⟨st, next⟩ := result
    cases ok : st.isOk with
    | true =>
        refine ⟨shape.trans shapeNext, fun total => (shortNext total).trans (short total),
          fun _ => ?_⟩
        have room := fine.mp ok
        rw [show ((i + 1 : Nat) : Int) = i + 1 by push_cast; rfl, ← Int.add_assoc]
        exact room
    | false =>
        have lacking : ¬ paged.shortage seqId (start + i + 1) ≤ 0 := fun room => by
          rw [fine.mpr room] at ok
          cases ok
        have whole := paged.shortage_mono seqId ready (show 0 < (start + i + 1 : Int) by omega)
          (show (start + i + 1 : Int) ≤ start + n by omega) (by omega)
        change 0 < paged.shortage seqId (start + n)
        omega
  generalize pagedWrites args seqId start paged = result at ended ⊢
  obtain ⟨err, after⟩ := result
  cases err with
  | none =>
      have room := ended.2.2 (by omega)
      rw [show args.seqLen.toNat = n by omega] at room
      exact ⟨fun _ => room, fun _ => rfl⟩
  | some st =>
      change 0 < paged.shortage seqId (start + n) at ended
      exact ⟨fun no => (by cases no), fun room => by omega⟩

end MiniLLM.CpuKernelAdapter
