import MiniLLM.PagedRows

/-!
`RowMap` is what the paged cache stands for: a length for each sequence and, for
each (sequence, layer, position), the K row and the V row written there since
the sequence last gave its blocks back. Every call refines the corresponding
update of the map, as long as no position it computes overflows an `int`.
-/

namespace MiniLLM.PagedKVCache

open Loops

variable {Elem : Type}

@[ext]
structure RowMap (Elem : Type) where
  width : Nat := 0
  length : Int → Int := fun _ => 0
  row : Int → Int → Int → Option (Buffer Elem × Buffer Elem) := fun _ _ _ => none

namespace RowMap

def withLength (map : RowMap Elem) (sequenceId length : Int) : RowMap Elem :=
  { map with length := fun id => if id = sequenceId then length else map.length id }

/-- Row `t` of the chunk becomes the row at position `startPos + t`. -/
def written (map : RowMap Elem) (sequenceId layer startPos : Int) (k v : Buffer Elem)
    (count : Nat) : RowMap Elem :=
  { map with
    row := fun id l pos =>
      if id = sequenceId ∧ l = layer ∧ startPos ≤ pos ∧ pos < startPos + count then
        some (fun j => k ((pos - startPos).toNat * map.width + j),
          fun j => v ((pos - startPos).toNat * map.width + j))
      else map.row id l pos }

def write (map : RowMap Elem) (sequenceId layer startPos : Int) (k v : Option (Buffer Elem))
    (tokenCount : Int) : RowMap Elem :=
  match k, v with
  | some k, some v =>
      if tokenCount = 0 then map
      else (map.written sequenceId layer startPos k v tokenCount.toNat).withLength sequenceId
        (max (map.length sequenceId) (startPos + tokenCount))
  | _, _ => map

def erase (map : RowMap Elem) (sequenceId : Int) : RowMap Elem :=
  { map.withLength sequenceId 0 with
    row := fun id layer pos => if id = sequenceId then none else map.row id layer pos }

/-- The update a call stands for, given whether it succeeded. -/
def after (map : RowMap Elem) (op : Op Elem) (ok : Bool) : RowMap Elem :=
  match op with
  | .init _ heads dim _ _ => if ok then { width := heads.toNat * dim.toNat } else {}
  | .reset => { width := map.width }
  | .ensureSequence _ => map
  | .reserveSequence _ _ => map
  | .setSequenceLength id length => if ok then map.withLength id length else map
  | .writeTokens id layer start k v count =>
      if ok then map.write id layer start k v count else map
  | .appendTokens id layer k v count =>
      if ok then map.write id layer (map.length id) k v count else map
  | .freeSequence id => map.erase id

/-- The calls that may change the row of a cell: those that give the blocks of
its sequence back, and the writes to its sequence and layer that cover it. -/
def Touches (map : RowMap Elem) (op : Op Elem) (sequenceId layer pos : Int) : Prop :=
  match op with
  | .init _ _ _ _ _ => True
  | .reset => True
  | .ensureSequence _ => False
  | .reserveSequence _ _ => False
  | .setSequenceLength _ _ => False
  | .writeTokens id l start _ _ count =>
      id = sequenceId ∧ l = layer ∧ start ≤ pos ∧ pos < start + count
  | .appendTokens id l _ _ count =>
      id = sequenceId ∧ l = layer ∧ map.length id ≤ pos ∧ pos < map.length id + count
  | .freeSequence id => id = sequenceId

theorem written_none (map : RowMap Elem) (sequenceId layer startPos : Int) (k v : Buffer Elem)
    (id l pos : Int) :
    (map.written sequenceId layer startPos k v 0).row id l pos = map.row id l pos :=
  if_neg (by omega)

theorem written_last (map : RowMap Elem) (sequenceId layer startPos : Int) (k v : Buffer Elem)
    (i : Nat) :
    (map.written sequenceId layer startPos k v (i + 1)).row sequenceId layer (startPos + i) =
      some (fun j => k (i * map.width + j), fun j => v (i * map.width + j)) := by
  have offset : (startPos + i - startPos).toNat = i := by omega
  simp only [written]
  rw [if_pos ⟨trivial, trivial, by omega, by omega⟩, offset]

theorem written_before (map : RowMap Elem) (sequenceId layer startPos : Int) (k v : Buffer Elem)
    (i : Nat) {id l pos : Int}
    (apart : ¬ (id = sequenceId ∧ l = layer ∧ pos = startPos + i)) :
    (map.written sequenceId layer startPos k v (i + 1)).row id l pos =
      (map.written sequenceId layer startPos k v i).row id l pos := by
  have same : (id = sequenceId ∧ l = layer ∧ startPos ≤ pos ∧ pos < startPos + (i + 1 : Nat)) ↔
      (id = sequenceId ∧ l = layer ∧ startPos ≤ pos ∧ pos < startPos + i) := by
    constructor
    · rintro ⟨sameId, sameLayer, low, high⟩
      have : pos ≠ startPos + i := fun at_i => apart ⟨sameId, sameLayer, at_i⟩
      exact ⟨sameId, sameLayer, low, by omega⟩
    · rintro ⟨sameId, sameLayer, low, high⟩
      exact ⟨sameId, sameLayer, low, by omega⟩
  simp only [written, same]

theorem write_width (map : RowMap Elem) (sequenceId layer startPos : Int)
    (k v : Option (Buffer Elem)) (tokenCount : Int) :
    (map.write sequenceId layer startPos k v tokenCount).width = map.width := by
  unfold write
  split
  · split <;> rfl
  · rfl

theorem write_row (map : RowMap Elem) (sequenceId layer startPos : Int) (k v : Buffer Elem)
    (count : Nat) (id l pos : Int) :
    (map.write sequenceId layer startPos (some k) (some v) count).row id l pos =
      (map.written sequenceId layer startPos k v count).row id l pos := by
  by_cases empty : (count : Int) = 0
  · obtain rfl : count = 0 := by omega
    rw [written_none]
    rfl
  · simp only [write, if_neg empty]
    rfl

theorem write_length (map : RowMap Elem) (sequenceId layer startPos : Int) (k v : Buffer Elem)
    (count : Nat) (id : Int) :
    (map.write sequenceId layer startPos (some k) (some v) count).length id =
      if id = sequenceId ∧ 0 < count then max (map.length sequenceId) (startPos + count)
      else map.length id := by
  by_cases empty : (count : Int) = 0
  · obtain rfl : count = 0 := by omega
    rw [if_neg (by omega)]
    rfl
  · have positive : 0 < count := by omega
    simp only [write, if_neg empty, withLength, positive, and_true]
    rfl

theorem write_untouched (map : RowMap Elem) {sequenceId layer startPos tokenCount : Int}
    (k v : Option (Buffer Elem)) {id l pos : Int}
    (outside : ¬ (sequenceId = id ∧ layer = l ∧ startPos ≤ pos ∧ pos < startPos + tokenCount)) :
    (map.write sequenceId layer startPos k v tokenCount).row id l pos = map.row id l pos := by
  unfold write
  split
  · split
    · rfl
    · simp only [withLength, written]
      apply if_neg
      rintro ⟨sameId, sameLayer, low, high⟩
      exact outside ⟨sameId.symm, sameLayer.symm, low, by omega⟩
  · rfl

/-- Frame: a call that does not touch a cell leaves its row. -/
theorem after_untouched (map : RowMap Elem) (op : Op Elem) (ok : Bool)
    {sequenceId layer pos : Int} (untouched : ¬ map.Touches op sequenceId layer pos) :
    (map.after op ok).row sequenceId layer pos = map.row sequenceId layer pos := by
  cases op with
  | init | reset => exact absurd trivial untouched
  | ensureSequence | reserveSequence => rfl
  | setSequenceLength => cases ok <;> rfl
  | writeTokens id l start k v count | appendTokens id l k v count =>
      cases ok with
      | false => rfl
      | true => exact map.write_untouched k v untouched
  | freeSequence id => exact if_neg fun same => untouched same.symm

end RowMap

/-- `rows` are the K row and the V row stored at a cell, in block `block`. -/
structure Holds [Zero Elem] (cache : PagedKVCache Elem) (sequenceId layer pos : Int)
    (rows : Buffer Elem × Buffer Elem) (block : Nat) : Prop where
  positive : 0 < cache.blockSize
  low : 0 ≤ layer
  high : layer < cache.numLayers
  found : cache.physicalBlockForPosition sequenceId pos = .ok block
  key : ∀ j < cache.kvHidden, cache.storage true layer (cache.rowIndex block pos + j) = rows.1 j
  value : ∀ j < cache.kvHidden,
    cache.storage false layer (cache.rowIndex block pos + j) = rows.2 j

def RowsHold [Zero Elem] (cache : PagedKVCache Elem) (map : RowMap Elem) : Prop :=
  ∀ id layer pos rows, map.row id layer pos = some rows → ∃ block, cache.Holds id layer pos rows block

/-- The refinement relation between the block-table cache and the map. -/
structure Refines [Zero Elem] (cache : PagedKVCache Elem) (map : RowMap Elem) : Prop where
  owned : cache.Owned
  rowFits : cache.RowFits
  width : map.width = cache.kvHidden
  length : ∀ id, cache.sequenceLength id = map.length id
  rows : cache.RowsHold map

section Lengths

theorem sequenceLength_eq (cache : PagedKVCache Elem) (sequenceId : Int) :
    cache.sequenceLength sequenceId =
      if 0 ≤ sequenceId then (cache.sequence sequenceId).length else 0 := by
  unfold sequenceLength known
  by_cases low : 0 ≤ sequenceId
  · by_cases bound : sequenceId.toNat < cache.sequences.length
    · simp [low, bound]
    · simp [low, bound, sequence, List.getD_eq_getElem?_getD]
  · simp [low]

theorem modifySequence_sequence (cache : PagedKVCache Elem) (sequenceId other : Int)
    (f : Sequence → Sequence) (bound : sequenceId.toNat < cache.sequences.length) :
    (cache.modifySequence sequenceId f).sequence other =
      if other.toNat = sequenceId.toNat then f (cache.sequence other)
      else cache.sequence other := by
  simp only [sequence, modifySequence, List.getD_eq_getElem?_getD, List.getElem?_modify]
  by_cases same : other.toNat = sequenceId.toNat
  · simp [same, bound]
  · simp [same, Ne.symm same]

theorem modifyLength_extends (cache : PagedKVCache Elem) (sequenceId : Int)
    (f : Sequence → Sequence) (keeps : ∀ seq, (f seq).blocks = seq.blocks)
    (bound : sequenceId.toNat < cache.sequences.length) :
    Extends cache (cache.modifySequence sequenceId f) := by
  refine ⟨rfl, rfl, rfl, rfl, rfl, rfl, by simp [modifySequence], ?_⟩
  intro id
  rw [modifySequence_sequence cache sequenceId id f bound]
  split
  · simp only [keeps, List.prefix_rfl]
  · exact List.prefix_refl _

theorem takeBlocks_lengths (cache : PagedKVCache Elem) (sequenceId other : Int) (n : Nat)
    (bound : sequenceId.toNat < cache.sequences.length) :
    ((cache.takeBlocks sequenceId n).sequence other).length = (cache.sequence other).length := by
  refine (loop_preserves
    (fun c => c.sequences.length = cache.sequences.length ∧
      (c.sequence other).length = (cache.sequence other).length)
    n (fun _ c => c.takeBlock sequenceId) cache ⟨rfl, rfl⟩ ?_).2
  rintro i c _ ⟨size, same⟩
  refine ⟨(takeBlock_frame c sequenceId).1.trans size, ?_⟩
  rw [takeBlock_sequence c sequenceId other (by omega)]
  split <;> exact same

/-- A reservation changes no length. -/
theorem reserveSequence_lengths (cache : PagedKVCache Elem) (sequenceId totalTokens other : Int) :
    (cache.reserveSequence sequenceId totalTokens).2.sequenceLength other =
      cache.sequenceLength other := by
  have ensured := ensureSequence_sequence cache sequenceId other
  rw [sequenceLength_eq, sequenceLength_eq]
  cases result : (cache.reserveSequence sequenceId totalTokens).1.isOk with
  | false => rw [reserveSequence_failed cache sequenceId totalTokens result, ensured]
  | true =>
      obtain ⟨fine, _, _, same⟩ := reserveSequence_ok cache sequenceId totalTokens result
      rw [same, takeBlocks_lengths _ sequenceId other _
        (ensureSequence_ok cache sequenceId fine).2.2, ensured]

/-- Changing the length of a sequence changes no other. -/
theorem modifyLength_lengths (cache : PagedKVCache Elem) (sequenceId other : Int)
    (f : Sequence → Sequence) (low : 0 ≤ sequenceId)
    (bound : sequenceId.toNat < cache.sequences.length) :
    (cache.modifySequence sequenceId f).sequenceLength other =
      if other = sequenceId then (f (cache.sequence sequenceId)).length
      else cache.sequenceLength other := by
  rw [sequenceLength_eq, sequenceLength_eq, modifySequence_sequence cache sequenceId other f bound]
  by_cases same : other = sequenceId
  · subst same
    simp [low]
  · by_cases nonneg : 0 ≤ other
    · simp [same, nonneg, show other.toNat ≠ sequenceId.toNat by omega]
    · simp [same, nonneg]

end Lengths

section Coverage

theorem ceilDivInt_eq (a b : Int) (low : 0 ≤ a) (positive : 0 < b) (fits : a + b ≤ 2147483648) :
    ceilDivInt a b = (a + b - 1) / b := by
  have sum : wrap32 (wrap32 (a + b) - 1) = a + b - 1 := by
    unfold wrap32
    omega
  rw [ceilDivInt, sum, Int.tdiv_eq_ediv_of_nonneg (by omega)]

/-- Below the reserved total every position has a block. -/
theorem reserveSequence_covers (cache : PagedKVCache Elem) (sequenceId totalTokens pos : Int)
    (fine : (cache.reserveSequence sequenceId totalTokens).1.isOk = true)
    (fits : totalTokens + cache.blockSize ≤ 2147483648)
    (nonneg : 0 ≤ pos) (inside : pos < totalTokens) :
    0 < cache.blockSize ∧ ∃ block,
      (cache.reserveSequence sequenceId totalTokens).2.physicalBlockForPosition sequenceId pos =
        .ok block := by
  obtain ⟨ensured, _, _, same⟩ := reserveSequence_ok cache sequenceId totalTokens fine
  obtain ⟨ready, low, bound⟩ := ensureSequence_ok cache sequenceId ensured
  have positive : 0 < cache.blockSize := by
    simp [initialized] at ready; exact ready.1
  obtain ⟨extended, grown⟩ := takeBlocks_extends (cache.ensureSequence sequenceId).2 sequenceId
    (cache.missingBlocks sequenceId totalTokens).toNat bound
  rw [ensureSequence_sequence] at grown
  have needed : cache.neededBlocks totalTokens =
      (totalTokens + cache.blockSize - 1) / cache.blockSize := by
    rw [neededBlocks, if_neg (by omega)]
    exact ceilDivInt_eq _ _ (by omega) (by omega) fits
  have enough : (totalTokens + cache.blockSize - 1) / cache.blockSize ≤
      (((cache.ensureSequence sequenceId).2.takeBlocks sequenceId
        (cache.missingBlocks sequenceId totalTokens).toNat).sequence sequenceId).blocks.length := by
    have missing : cache.missingBlocks sequenceId totalTokens =
      cache.neededBlocks totalTokens - (cache.sequence sequenceId).blocks.length := rfl
    rw [← needed]
    omega
  have logical : pos.toNat / cache.blockSize <
      (((cache.ensureSequence sequenceId).2.takeBlocks sequenceId
        (cache.missingBlocks sequenceId totalTokens).toNat).sequence sequenceId).blocks.length := by
    have quotient : ((pos.toNat / cache.blockSize : Nat) : Int) = pos / cache.blockSize := by
      rw [Int.natCast_ediv, Int.toNat_of_nonneg nonneg]
    have step : pos / (cache.blockSize : Int) + 1 ≤
        (totalTokens + cache.blockSize - 1) / cache.blockSize := by
      rw [Int.le_ediv_iff_mul_le (by omega), Int.add_mul, Int.one_mul]
      have rest := Int.ediv_mul_le pos (show (cache.blockSize : Int) ≠ 0 by omega)
      omega
    omega
  refine ⟨positive, _, (physicalBlock_ok_iff _ _ _ _).mpr
    ⟨low, ?_, nonneg, List.getElem?_eq_getElem ?_⟩⟩
  · rw [same]
    exact Nat.lt_of_lt_of_le bound extended.size
  · rw [same, extended.blockSize, (ensureSequence_extends cache sequenceId).blockSize]
    exact logical

end Coverage

section Rows

variable [Zero Elem]

/-- Growing tables keep every stored row where it is. -/
theorem Holds.extends {before after : PagedKVCache Elem} {id layer pos : Int}
    {rows : Buffer Elem × Buffer Elem} {block : Nat} (held : before.Holds id layer pos rows block)
    (extended : Extends before after) : after.Holds id layer pos rows block := by
  have index : after.rowIndex block pos = before.rowIndex block pos := by
    simp only [rowIndex, blockStride, extended.kvHidden, extended.blockSize]
  have data : ∀ key, after.storage key layer = before.storage key layer := by
    intro key
    simp only [storage, extended.layers]
  refine ⟨by rw [extended.blockSize]; exact held.positive, held.low,
    by rw [numLayers, extended.layers]; exact held.high, extended.physicalBlock held.found, ?_, ?_⟩
  · rw [extended.kvHidden, index, data]
    exact held.key
  · rw [extended.kvHidden, index, data]
    exact held.value

theorem RowsHold.extends {before after : PagedKVCache Elem} {map : RowMap Elem}
    (held : before.RowsHold map) (extended : Extends before after) : after.RowsHold map := by
  intro id layer pos rows entry
  obtain ⟨block, cell⟩ := held id layer pos rows entry
  exact ⟨block, cell.extends extended⟩

-- The store of one row that `write_tokens` performs.
def putRow (cache : PagedKVCache Elem) (layer : Int) (index : Nat)
    (rows : Buffer Elem × Buffer Elem) : PagedKVCache Elem :=
  { cache with
    layers := cache.layers.modify layer.toNat fun data =>
      { k := copyFloats cache.kvHidden data.k index rows.1
        v := copyFloats cache.kvHidden data.v index rows.2 } }

omit [Zero Elem] in
theorem writeRow_eq (cache : PagedKVCache Elem) (sequenceId layer startPos : Int)
    (k v : Buffer Elem) (t block : Nat) (low : 0 ≤ layer) (high : layer < cache.numLayers)
    (positive : 0 ≤ startPos) (fits : startPos + t < 2147483648)
    (found : cache.physicalBlockForPosition sequenceId (startPos + t) = .ok block) :
    writeRow sequenceId layer startPos k v t cache =
      (none, cache.putRow layer (cache.rowIndex block (startPos + t))
        (fun j => k (t * cache.kvHidden + j), fun j => v (t * cache.kvHidden + j))) := by
  have exact32 : wrap32 (startPos + t) = startPos + t := wrap32_eq _ (by omega) fits
  have inside : ¬ (layer < 0 ∨ layer ≥ cache.numLayers) := by omega
  simp only [writeRow, exact32, mutableTokenPtr, inside, if_false, found, putRow]

theorem putRow_storage (cache : PagedKVCache Elem) (key : Bool) (layer other : Int) (index i : Nat)
    (rows : Buffer Elem × Buffer Elem) (low : 0 ≤ layer) (high : layer < cache.numLayers)
    (nonneg : 0 ≤ other) :
    (cache.putRow layer index rows).storage key other i =
      if other = layer ∧ index ≤ i ∧ i < index + cache.kvHidden then
        (if key then rows.1 else rows.2) (i - index)
      else cache.storage key other i := by
  have bound : layer.toNat < cache.layers.length := by
    simp only [numLayers] at high
    omega
  simp only [storage, putRow, List.getD_eq_getElem?_getD, List.getElem?_modify]
  by_cases same : other = layer
  · subst same
    cases key <;> simp [bound, copyFloats]
  · have apart : layer.toNat ≠ other.toNat := by omega
    cases key <;> simp [same, apart]

theorem putRow_holds_self (cache : PagedKVCache Elem) (sequenceId layer pos : Int) (block : Nat)
    (rows : Buffer Elem × Buffer Elem) (positive : 0 < cache.blockSize) (low : 0 ≤ layer)
    (high : layer < cache.numLayers)
    (found : cache.physicalBlockForPosition sequenceId pos = .ok block) :
    (cache.putRow layer (cache.rowIndex block pos) rows).Holds sequenceId layer pos rows block := by
  refine ⟨positive, low, by simpa [putRow, numLayers] using high, found, ?_, ?_⟩ <;>
    intro j inside <;> change j < cache.kvHidden at inside <;>
    rw [show (cache.putRow layer (cache.rowIndex block pos) rows).rowIndex block pos =
      cache.rowIndex block pos from rfl, putRow_storage cache _ layer layer _ _ rows low high low]
      <;> simp [inside]

/-- The row of another cell is not in the way of the row written. -/
theorem putRow_holds_other (cache : PagedKVCache Elem) (sequenceId layer pos : Int) (block : Nat)
    (rows : Buffer Elem × Buffer Elem) (owned : cache.Owned) (low : 0 ≤ layer)
    (high : layer < cache.numLayers)
    (found : cache.physicalBlockForPosition sequenceId pos = .ok block)
    {id l p : Int} {stored : Buffer Elem × Buffer Elem} {home : Nat}
    (held : cache.Holds id l p stored home)
    (apart : ¬ (id = sequenceId ∧ l = layer ∧ p = pos)) :
    (cache.putRow layer (cache.rowIndex block pos) rows).Holds id l p stored home := by
  have disjoint : ∀ j < cache.kvHidden, ¬ (l = layer ∧
      cache.rowIndex block pos ≤ cache.rowIndex home p + j ∧
      cache.rowIndex home p + j < cache.rowIndex block pos + cache.kvHidden) := by
    rintro j inside ⟨sameLayer, above, below⟩
    have meet := rowIndex_inj owned held.positive held.found found inside
      (show cache.rowIndex home p + j - cache.rowIndex block pos < cache.kvHidden by omega)
      (by omega)
    exact apart ⟨meet.1, sameLayer, meet.2⟩
  refine ⟨held.positive, held.low, by simpa [putRow, numLayers] using held.high, held.found,
    ?_, ?_⟩ <;> intro j inside <;> change j < cache.kvHidden at inside <;>
    rw [show (cache.putRow layer (cache.rowIndex block pos) rows).rowIndex home p =
      cache.rowIndex home p from rfl, putRow_storage cache _ layer l _ _ rows low high held.low,
      if_neg (disjoint j inside)]
  · exact held.key j inside
  · exact held.value j inside

/-- The write loop stores the chunk row by row and cannot stop half way. -/
theorem writeRows_holds (cache : PagedKVCache Elem) (map : RowMap Elem)
    (sequenceId layer startPos : Int) (k v : Buffer Elem) (count : Nat) (owned : cache.Owned)
    (width : map.width = cache.kvHidden) (positive : 0 < cache.blockSize)
    (low : 0 ≤ layer) (high : layer < cache.numLayers) (nonneg : 0 ≤ startPos)
    (fits : startPos + count < 2147483648)
    (covered : ∀ t : Nat, t < count →
      ∃ block, cache.physicalBlockForPosition sequenceId (startPos + t) = .ok block)
    (held : cache.RowsHold map) :
    Ends (fun after => after.RowsHold (map.written sequenceId layer startPos k v count))
      (fun _ _ => False) (cache.writeRows sequenceId layer startPos k v count) := by
  -- The invariant: only the storage differs from `cache`, and the rows of the
  -- first `i` tokens are in place.
  have rule := loopTry_invariant
    (fun i c => (c = { cache with layers := c.layers } ∧ c.layers.length = cache.layers.length) ∧
      c.RowsHold (map.written sequenceId layer startPos k v i))
    (fun _ _ => False) count (writeRow sequenceId layer startPos k v) cache
  refine (Ends.mono (fun after both => both.2) (fun _ _ no => no) (rule ⟨⟨rfl, rfl⟩, ?_⟩ ?_))
  · intro id l pos rows entry
    rw [map.written_none] at entry
    exact held id l pos rows entry
  · rintro i c below ⟨⟨frame, size⟩, rowsHeld⟩
    obtain ⟨block, found⟩ := covered i below
    have highC : layer < c.numLayers := by rw [numLayers, size]; exact high
    have hidden : c.kvHidden = cache.kvHidden := by rw [frame]; rfl
    have foundC : c.physicalBlockForPosition sequenceId (startPos + i) = .ok block := by
      rw [frame]; exact found
    have ownedC : c.Owned := by rw [frame]; exact owned.congr rfl rfl rfl rfl
    have positiveC : 0 < c.blockSize := by rw [frame]; exact positive
    rw [writeRow_eq c sequenceId layer startPos k v i block low highC nonneg (by omega) foundC]
    refine ⟨⟨?_, by simpa [putRow] using size⟩, ?_⟩
    · rw [frame]
      rfl
    · intro id l pos rows entry
      by_cases here : id = sequenceId ∧ l = layer ∧ pos = startPos + i
      · obtain ⟨rfl, rfl, rfl⟩ := here
        rw [map.written_last, Option.some.injEq, width, ← hidden] at entry
        subst entry
        exact ⟨block, putRow_holds_self c id l (startPos + i) block _ positiveC low highC foundC⟩
      · rw [map.written_before sequenceId layer startPos k v i here] at entry
        obtain ⟨home, cell⟩ := rowsHeld id l pos rows entry
        exact ⟨home, putRow_holds_other c sequenceId layer (startPos + i) block _ ownedC low highC
          foundC cell here⟩

end Rows

end MiniLLM.PagedKVCache
