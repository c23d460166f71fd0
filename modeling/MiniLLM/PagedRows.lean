import MiniLLM.BlockOwnership
import MiniLLM.Strides
import Mathlib.Data.List.Nodup

/-!
The paged cache as a map from (sequence, layer, position) to a K row and a V
row. `RowMap` is that map: what was written since the sequence's blocks were
last given back. The block tables and the flat storage refine it, because the
address of a row determines the block and the slot, and ownership makes the
block determine the sequence and the logical block.
-/

namespace MiniLLM.PagedKVCache

open Loops
open scoped List

variable {Elem : Type}

/-- A later state that kept every sequence's blocks as a prefix of its table. -/
structure Extends (before after : PagedKVCache Elem) : Prop where
  layers : after.layers = before.layers
  kvHidden : after.kvHidden = before.kvHidden
  numKvHeads : after.numKvHeads = before.numKvHeads
  headDim : after.headDim = before.headDim
  blockSize : after.blockSize = before.blockSize
  maxBlocks : after.maxBlocks = before.maxBlocks
  size : before.sequences.length ≤ after.sequences.length
  blocks : ∀ id, (before.sequence id).blocks <+: (after.sequence id).blocks

theorem Extends.refl (cache : PagedKVCache Elem) : Extends cache cache :=
  ⟨rfl, rfl, rfl, rfl, rfl, rfl, Nat.le_refl _, fun _ => List.prefix_refl _⟩

theorem Extends.trans {a b c : PagedKVCache Elem} (first : Extends a b) (second : Extends b c) :
    Extends a c :=
  ⟨second.layers.trans first.layers, second.kvHidden.trans first.kvHidden,
    second.numKvHeads.trans first.numKvHeads, second.headDim.trans first.headDim,
    second.blockSize.trans first.blockSize, second.maxBlocks.trans first.maxBlocks,
    Nat.le_trans first.size second.size,
    fun id => (first.blocks id).trans (second.blocks id)⟩

theorem RowFits.extends {before after : PagedKVCache Elem} (fits : before.RowFits)
    (extended : Extends before after) : after.RowFits := by
  rwa [RowFits, extended.numKvHeads, extended.headDim]

theorem ensureSequence_extends (cache : PagedKVCache Elem) (sequenceId : Int) :
    Extends cache (cache.ensureSequence sequenceId).2 := by
  obtain ⟨count, same⟩ := ensureSequence_frame cache sequenceId
  have seqs := ensureSequence_sequence cache sequenceId
  refine ⟨by rw [same], by rw [same]; rfl, by rw [same], by rw [same], by rw [same],
    by rw [same], ?_, ?_⟩
  · rw [same]; simp
  · intro id; simp only [seqs, List.prefix_rfl]

theorem takeBlock_sequence (cache : PagedKVCache Elem) (sequenceId other : Int)
    (bound : sequenceId.toNat < cache.sequences.length) :
    (cache.takeBlock sequenceId).sequence other =
      if other.toNat = sequenceId.toNat then
        { cache.sequence other with
          blocks := (cache.sequence other).blocks ++ [cache.freeBlocks.getLastD 0] }
      else cache.sequence other := by
  simp only [sequence, takeBlock, List.getD_eq_getElem?_getD, List.getElem?_modify]
  by_cases same : other.toNat = sequenceId.toNat
  · simp [same, bound]
  · simp [same, Ne.symm same]

theorem takeBlock_extends (cache : PagedKVCache Elem) (sequenceId : Int)
    (bound : sequenceId.toNat < cache.sequences.length) :
    Extends cache (cache.takeBlock sequenceId) := by
  refine ⟨rfl, rfl, rfl, rfl, rfl, rfl, by simp [takeBlock], ?_⟩
  intro id
  rw [takeBlock_sequence cache sequenceId id bound]
  split <;> simp

theorem takeBlocks_extends (cache : PagedKVCache Elem) (sequenceId : Int) (n : Nat)
    (bound : sequenceId.toNat < cache.sequences.length) :
    Extends cache (cache.takeBlocks sequenceId n) ∧
      ((cache.takeBlocks sequenceId n).sequence sequenceId).blocks.length =
        (cache.sequence sequenceId).blocks.length + n := by
  refine loop_invariant
    (fun i c => Extends cache c ∧
      (c.sequence sequenceId).blocks.length = (cache.sequence sequenceId).blocks.length + i)
    n (fun _ c => c.takeBlock sequenceId) cache ⟨Extends.refl cache, rfl⟩ ?_
  rintro i c _ ⟨extended, count⟩
  have inside : sequenceId.toNat < c.sequences.length := Nat.lt_of_lt_of_le bound extended.size
  refine ⟨extended.trans (takeBlock_extends c sequenceId inside), ?_⟩
  rw [takeBlock_sequence c sequenceId sequenceId inside]
  simp [count, Nat.add_assoc]

/-- A reservation, whether it succeeds or not, only extends tables. -/
theorem reserveSequence_extends (cache : PagedKVCache Elem) (sequenceId totalTokens : Int) :
    Extends cache (cache.reserveSequence sequenceId totalTokens).2 := by
  have ensured := ensureSequence_extends cache sequenceId
  cases result : (cache.reserveSequence sequenceId totalTokens).1.isOk with
  | false => rwa [reserveSequence_failed cache sequenceId totalTokens result]
  | true =>
      obtain ⟨fine, _, _, same⟩ := reserveSequence_ok cache sequenceId totalTokens result
      rw [same]
      exact ensured.trans (takeBlocks_extends _ sequenceId _
        (ensureSequence_ok cache sequenceId fine).2.2).1

theorem reserveSequence_known (cache : PagedKVCache Elem) (sequenceId totalTokens : Int)
    (fine : (cache.reserveSequence sequenceId totalTokens).1.isOk = true) :
    0 ≤ sequenceId ∧
      sequenceId.toNat < (cache.reserveSequence sequenceId totalTokens).2.sequences.length := by
  obtain ⟨ensured, _, _, same⟩ := reserveSequence_ok cache sequenceId totalTokens fine
  obtain ⟨_, low, bound⟩ := ensureSequence_ok cache sequenceId ensured
  rw [same]
  exact ⟨low, Nat.lt_of_lt_of_le bound (takeBlocks_extends _ sequenceId _ bound).1.size⟩

section Shape

/-- What `init` fixed. -/
structure SameShape (before after : PagedKVCache Elem) : Prop where
  numLayers : after.numLayers = before.numLayers
  numKvHeads : after.numKvHeads = before.numKvHeads
  headDim : after.headDim = before.headDim
  blockSize : after.blockSize = before.blockSize
  maxBlocks : after.maxBlocks = before.maxBlocks

theorem SameShape.refl (cache : PagedKVCache Elem) : SameShape cache cache :=
  ⟨rfl, rfl, rfl, rfl, rfl⟩

theorem SameShape.trans {a b c : PagedKVCache Elem} (first : SameShape a b)
    (second : SameShape b c) : SameShape a c :=
  ⟨second.numLayers.trans first.numLayers, second.numKvHeads.trans first.numKvHeads,
    second.headDim.trans first.headDim, second.blockSize.trans first.blockSize,
    second.maxBlocks.trans first.maxBlocks⟩

theorem RowFits.of_shape {before after : PagedKVCache Elem} (fits : before.RowFits)
    (same : SameShape before after) : after.RowFits := by
  rwa [RowFits, same.numKvHeads, same.headDim]

theorem SameShape.initialized {before after : PagedKVCache Elem} (same : SameShape before after) :
    after.initialized = before.initialized := by
  simp only [PagedKVCache.initialized, same.blockSize, same.maxBlocks]

theorem Extends.sameShape {before after : PagedKVCache Elem} (extended : Extends before after) :
    SameShape before after :=
  ⟨by simp only [numLayers, extended.layers], extended.numKvHeads, extended.headDim,
    extended.blockSize, extended.maxBlocks⟩

theorem writeRow_numLayers (cache : PagedKVCache Elem) (sequenceId layer startPos : Int)
    (k v : Buffer Elem) (t : Nat) :
    (writeRow sequenceId layer startPos k v t cache).2.numLayers = cache.numLayers := by
  unfold writeRow
  dsimp only
  split
  · rfl
  · split
    · rfl
    · simp [numLayers]

theorem writeRows_sameShape (cache : PagedKVCache Elem) (sequenceId layer startPos : Int)
    (k v : Buffer Elem) (count : Nat) :
    SameShape cache (cache.writeRows sequenceId layer startPos k v count).2 := by
  have layers : (cache.writeRows sequenceId layer startPos k v count).2.numLayers =
      cache.numLayers :=
    loopTry_preserves (fun after => after.numLayers = cache.numLayers) count
      (writeRow sequenceId layer startPos k v) cache rfl
      fun i state _ same => (writeRow_numLayers state sequenceId layer startPos k v i).trans same
  have frame := writeRows_frame cache sequenceId layer startPos k v count
  exact ⟨layers, by rw [frame], by rw [frame], by rw [frame], by rw [frame]⟩

theorem writeTokens_sameShape (cache : PagedKVCache Elem) (sequenceId layer startPos : Int)
    (k v : Option (Buffer Elem)) (tokenCount : Int) :
    SameShape cache (cache.writeTokens sequenceId layer startPos k v tokenCount).2 := by
  rcases writeTokens_cases cache sequenceId layer startPos k v tokenCount with
    ⟨same, _⟩ | ⟨kb, vb, rfl, rfl, _, writes⟩
  · rw [same]
    exact SameShape.refl cache
  · have reserved :=
      (reserveSequence_extends cache sequenceId (wrap32 (startPos + tokenCount))).sameShape
    have rows := writeRows_sameShape
      (cache.reserveSequence sequenceId (wrap32 (startPos + tokenCount))).2 sequenceId layer
      startPos kb vb tokenCount.toNat
    generalize cache.writeTokens sequenceId layer startPos (some kb) (some vb) tokenCount = result
      at writes
    cases writes with
    | noBlocks _ => exact reserved
    | stopped st after _ wrote =>
        rw [wrote] at rows
        exact reserved.trans rows
    | written after _ wrote =>
        rw [wrote] at rows
        have all := reserved.trans rows
        exact ⟨all.numLayers, all.numKvHeads, all.headDim, all.blockSize, all.maxBlocks⟩

end Shape

section Address

/-- The block of a position, as `physical_block_for_position` finds it. -/
theorem physicalBlock_ok_iff (cache : PagedKVCache Elem) (sequenceId pos : Int) (block : Nat) :
    cache.physicalBlockForPosition sequenceId pos = .ok block ↔
      0 ≤ sequenceId ∧ sequenceId.toNat < cache.sequences.length ∧ 0 ≤ pos ∧
        (cache.sequence sequenceId).blocks[pos.toNat / cache.blockSize]? = some block := by
  unfold physicalBlockForPosition
  by_cases knows : cache.known sequenceId = true
  · have bounds : 0 ≤ sequenceId ∧ sequenceId.toNat < cache.sequences.length := by
      simpa [known] using knows
    by_cases negative : pos < 0
    · have high : ¬ 0 ≤ pos := by omega
      simp [knows, negative, high]
    · have low : 0 ≤ pos := by omega
      simp only [knows, Bool.not_true, Bool.false_eq_true, if_false, negative, bounds, low,
        true_and]
      cases (cache.sequence sequenceId).blocks[pos.toNat / cache.blockSize]? <;> simp
  · have bounds : ¬ (0 ≤ sequenceId ∧ sequenceId.toNat < cache.sequences.length) := by
      simpa [known] using knows
    simp only [knows, Bool.not_false, if_true, reduceCtorEq, false_iff]
    exact fun found => bounds ⟨found.1, found.2.1⟩

theorem Extends.physicalBlock {before after : PagedKVCache Elem} (extended : Extends before after)
    {sequenceId pos : Int} {block : Nat}
    (found : before.physicalBlockForPosition sequenceId pos = .ok block) :
    after.physicalBlockForPosition sequenceId pos = .ok block := by
  obtain ⟨low, bound, nonneg, entry⟩ := (physicalBlock_ok_iff _ _ _ _).mp found
  refine (physicalBlock_ok_iff _ _ _ _).mpr
    ⟨low, Nat.lt_of_lt_of_le bound extended.size, nonneg, ?_⟩
  rw [extended.blockSize]
  obtain ⟨suffix, same⟩ := extended.blocks sequenceId
  rw [← same, List.getElem?_append_left (List.getElem?_eq_some_iff.mp entry).1]
  exact entry

/-- Ownership: a block sits in one table, at one place. -/
theorem Owned.place_inj {cache : PagedKVCache Elem} (owned : cache.Owned) {i i' j j' : Nat}
    {block : Nat} {seq seq' : Sequence}
    (at_i : cache.sequences[i]? = some seq) (at_i' : cache.sequences[i']? = some seq')
    (entry : seq.blocks[j]? = some block) (entry' : seq'.blocks[j']? = some block) :
    i = i' ∧ j = j' := by
  have distinct : cache.tables.Nodup := (List.nodup_append.mp owned.nodup).2.1
  obtain ⟨each, apart⟩ := List.nodup_flatMap.mp distinct
  have sameSequence : i = i' := by
    by_contra different
    obtain ⟨bi, gi⟩ := List.getElem?_eq_some_iff.mp at_i
    obtain ⟨bi', gi'⟩ := List.getElem?_eq_some_iff.mp at_i'
    have memberI : block ∈ seq.blocks := List.mem_of_getElem? entry
    have memberI' : block ∈ seq'.blocks := List.mem_of_getElem? entry'
    rcases Nat.lt_or_gt_of_ne different with less | less
    · have disjoint := List.pairwise_iff_getElem.mp apart i i' bi bi' less
      rw [gi, gi'] at disjoint
      exact disjoint memberI memberI'
    · have disjoint := List.pairwise_iff_getElem.mp apart i' i bi' bi less
      rw [gi, gi'] at disjoint
      exact disjoint memberI' memberI
  subst sameSequence
  have same : seq = seq' := Option.some.inj (at_i.symm.trans at_i')
  subst same
  have unique : seq.blocks.Nodup := each seq (List.mem_of_getElem? at_i)
  obtain ⟨bj, gj⟩ := List.getElem?_eq_some_iff.mp entry
  exact ⟨rfl, (List.getElem?_inj bj unique).mp (entry.trans entry'.symm)⟩

theorem sequence_getElem? (cache : PagedKVCache Elem) (sequenceId : Int)
    (bound : sequenceId.toNat < cache.sequences.length) :
    cache.sequences[sequenceId.toNat]? = some (cache.sequence sequenceId) := by
  simp [sequence, List.getD_eq_getElem?_getD, bound]

/-- The composed address is injective: two rows that share a float are the row
of one sequence at one position. -/
theorem rowIndex_inj {cache : PagedKVCache Elem} (owned : cache.Owned)
    (positive : 0 < cache.blockSize) {id id' pos pos' : Int} {block block' j j' : Nat}
    (found : cache.physicalBlockForPosition id pos = .ok block)
    (found' : cache.physicalBlockForPosition id' pos' = .ok block')
    (inside : j < cache.kvHidden) (inside' : j' < cache.kvHidden)
    (same : cache.rowIndex block pos + j = cache.rowIndex block' pos' + j') :
    id = id' ∧ pos = pos' := by
  obtain ⟨low, bound, nonneg, entry⟩ := (physicalBlock_ok_iff _ _ _ _).mp found
  obtain ⟨low', bound', nonneg', entry'⟩ := (physicalBlock_ok_iff _ _ _ _).mp found'
  have slot : pos.toNat % cache.blockSize < cache.blockSize := Nat.mod_lt _ positive
  have slot' : pos'.toNat % cache.blockSize < cache.blockSize := Nat.mod_lt _ positive
  have cells : block * cache.blockStride + (pos.toNat % cache.blockSize * cache.kvHidden + j) =
      block' * cache.blockStride + (pos'.toNat % cache.blockSize * cache.kvHidden + j') := by
    simpa only [rowIndex, Nat.add_assoc] using same
  obtain ⟨sameBlock, sameCell⟩ := Strides.strided_inj
    (Strides.strided_lt slot inside) (Strides.strided_lt slot' inside') cells
  obtain ⟨sameSlot, _⟩ := Strides.strided_inj inside inside' sameCell
  subst sameBlock
  obtain ⟨sameId, sameLogical⟩ := owned.place_inj (sequence_getElem? cache id bound)
    (sequence_getElem? cache id' bound') entry entry'
  have split := Nat.div_add_mod pos.toNat cache.blockSize
  have split' := Nat.div_add_mod pos'.toNat cache.blockSize
  rw [sameLogical, sameSlot, split'] at split
  omega

end Address

end MiniLLM.PagedKVCache
