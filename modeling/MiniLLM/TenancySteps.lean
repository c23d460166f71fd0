import MiniLLM.Tenancy

/-!
What a call makes of its own sequence. A reservation hands the sequence blocks
off the free list, a write stores rows in them, and a length change uncovers
positions: the tenancy stays what the pointers show as long as the storage
uncovered unwritten holds zeros.
-/

namespace MiniLLM.PagedKVCache

open Loops

variable {Elem : Type}

/-- The rows of a tenancy that a pointer can reach, zeros where none was written. -/
def Tenancy.shown [Zero Elem] (t : Tenancy Elem) (l pos : Int) :
    Option (Buffer Elem × Buffer Elem) :=
  match t.row l pos with
  | some rows => some rows
  | none =>
      if 0 ≤ l ∧ l < t.numLayers ∧ 0 ≤ pos ∧ pos < t.length ∧
          pos.toNat / t.blockSize < t.blocks then
        some (fun _ => 0, fun _ => 0)
      else none

section Sharing

variable [Zero Elem]

/-- The cache stores these rows for the sequence, each in a block of its own. -/
def Keeps (cache : PagedKVCache Elem) (id : Int)
    (rows : Int → Int → Option (Buffer Elem × Buffer Elem)) : Prop :=
  ∀ l pos stored, rows l pos = some stored → ∃ block, cache.Holds id l pos stored block

theorem Keeps.extends {before after : PagedKVCache Elem} {id : Int}
    {rows : Int → Int → Option (Buffer Elem × Buffer Elem)} (kept : before.Keeps id rows)
    (extended : Extends before after) : after.Keeps id rows := by
  intro l pos stored entry
  obtain ⟨block, held⟩ := kept l pos stored entry
  exact ⟨block, held.extends extended⟩

/-- The relation between the cache and the tenancy of one sequence. -/
structure Tenanted (cache : PagedKVCache Elem) (id : Int) (t : Tenancy Elem) : Prop where
  layers : t.numLayers = cache.numLayers
  heads : t.numKvHeads = cache.numKvHeads
  headDim : t.headDim = cache.headDim
  blockSize : t.blockSize = cache.blockSize
  maxBlocks : t.maxBlocks = cache.maxBlocks
  sizeInt : cache.blockSize < 2147483648
  rowFits : cache.RowFits
  ready : 0 < cache.numLayers → cache.initialized = true
  length : t.length = cache.sequenceLength id
  lengthInt : t.length < 2147483648
  lengthNonneg : 0 ≤ t.length
  blocks : 0 ≤ id → t.blocks = (cache.sequence id).blocks.length
  rows : 0 ≤ id → cache.Keeps id t.shown

theorem Tenanted.untouched {before after : PagedKVCache Elem} {id : Int} {t : Tenancy Elem}
    (tenant : before.Tenanted id t) (same : Untouched id before after) : after.Tenanted id t := by
  refine ⟨tenant.layers.trans same.numLayers.symm, tenant.heads.trans same.numKvHeads.symm,
    tenant.headDim.trans same.headDim.symm, tenant.blockSize.trans same.blockSize.symm,
    tenant.maxBlocks.trans same.maxBlocks.symm, by rw [same.blockSize]; exact tenant.sizeInt,
    tenant.rowFits.of_shape same.toSameShape, ?_, ?_, tenant.lengthInt, tenant.lengthNonneg, fun low => by rw [same.sequence low]; exact tenant.blocks low, ?_⟩
  · rw [initialized, same.numLayers, same.blockSize, same.maxBlocks]
    exact tenant.ready
  · rw [tenant.length, sequenceLength_eq, sequenceLength_eq]
    split
    · next low => rw [same.sequence low]
    · rfl
  · intro low l pos stored entry
    obtain ⟨block, held⟩ := tenant.rows low l pos stored entry
    exact ⟨block, same.rows low l pos stored block held⟩

omit [Zero Elem] in
theorem Tenanted.needed [Zero Elem] {cache : PagedKVCache Elem} {id : Int} {t : Tenancy Elem}
    (tenant : cache.Tenanted id t) (total : Int) :
    t.neededBlocks total = cache.neededBlocks total := by
  simp only [Tenancy.neededBlocks, neededBlocks, tenant.blockSize]

omit [Zero Elem] in
/-- A position of a sequence has a block when the table is long enough. -/
theorem physicalBlock_of_table {cache : PagedKVCache Elem} {id pos : Int} {block : Nat}
    (low : 0 ≤ id) (nonneg : 0 ≤ pos)
    (entry : (cache.sequence id).blocks[pos.toNat / cache.blockSize]? = some block) :
    cache.physicalBlockForPosition id pos = .ok block := by
  refine (physicalBlock_ok_iff _ _ _ _).mpr ⟨low, ?_, nonneg, entry⟩
  by_contra beyond
  simp [sequence, Nat.not_lt.mp beyond] at entry

/-- The pointers of the cache return what the tenancy shows. -/
def SameRow (width : Nat) : Except Status (Buffer Elem) → Except Status (Buffer Elem) → Prop
  | .ok first, .ok second => ∀ d < width, first d = second d
  | .error first, .error second => first = second
  | _, _ => False

theorem Tenanted.tokenPtr {cache : PagedKVCache Elem} {id : Int} {t : Tenancy Elem}
    (tenant : cache.Tenanted id t) (key : Bool) (layer pos head : Int) :
    SameRow cache.headDim (cache.tokenPtr key id layer pos head)
      (t.tokenPtr key layer pos head) := by
  unfold PagedKVCache.tokenPtr Tenancy.tokenPtr
  rw [tenant.layers, tenant.heads, ← tenant.length, tenant.blockSize]
  by_cases outside : layer < 0 ∨ layer ≥ cache.numLayers
  · simp [outside, SameRow]
  by_cases noHead : head < 0 ∨ head ≥ cache.numKvHeads
  · simp [outside, noHead, SameRow]
  by_cases beyond : pos < 0 ∨ pos ≥ t.length
  · simp [outside, noHead, beyond, SameRow]
  have positive : 0 < cache.sequenceLength id := by
    rw [← tenant.length]
    omega
  have low : 0 ≤ id := by
    by_contra negative
    rw [sequenceLength_eq, if_neg negative] at positive
    omega
  simp only [outside, noHead, beyond, if_false]
  by_cases short : t.blocks ≤ pos.toNat / cache.blockSize
  · have knows : cache.known id = true := by
      by_contra no
      have unknown : cache.known id = false := by simpa using no
      simp [sequenceLength, unknown] at positive
    have missing : (cache.sequence id).blocks[pos.toNat / cache.blockSize]? = none :=
      List.getElem?_eq_none (by rw [← tenant.blocks low]; exact short)
    simp [physicalBlockForPosition, knows, show ¬ pos < 0 by omega, missing, short, SameRow]
  · have shown : t.shown layer pos =
        some ((t.row layer pos).getD (fun _ => 0, fun _ => 0)) := by
      have reachable : 0 ≤ layer ∧ layer < t.numLayers ∧ 0 ≤ pos ∧ pos < t.length ∧
          pos.toNat / t.blockSize < t.blocks := by
        rw [tenant.layers, tenant.blockSize]
        omega
      unfold Tenancy.shown
      cases t.row layer pos with
      | some rows => rfl
      | none => exact if_pos reachable
    obtain ⟨block, held⟩ := tenant.rows low layer pos _ shown
    simp only [held.found, short, if_false, SameRow, tenant.headDim]
    intro d inside
    have slice : head.toNat * cache.headDim + d < cache.kvHidden := by
      rw [kvHidden_eq tenant.rowFits]
      exact Strides.strided_lt (by omega) inside
    rw [Nat.add_assoc]
    cases key with
    | true => exact held.key _ slice
    | false => exact held.value _ slice

omit [Zero Elem] in
/-- Reserved blocks come off the end of the free list. -/
theorem takeBlocks_table (cache : PagedKVCache Elem) (sequenceId : Int) (n : Nat)
    (bound : sequenceId.toNat < cache.sequences.length) (room : n ≤ cache.freeBlocks.length) :
    ((cache.takeBlocks sequenceId n).sequence sequenceId).blocks =
      (cache.sequence sequenceId).blocks ++ cache.freeBlocks.reverse.take n := by
  have rule := loop_invariant
    (fun i c => sequenceId.toNat < c.sequences.length ∧
      c.freeBlocks = (cache.freeBlocks.reverse.drop i).reverse ∧
      (c.sequence sequenceId).blocks =
        (cache.sequence sequenceId).blocks ++ cache.freeBlocks.reverse.take i)
    n (fun _ c => c.takeBlock sequenceId) cache ⟨bound, by simp, by simp⟩ (by
      rintro i c below ⟨inside, free, table⟩
      have here : i < cache.freeBlocks.reverse.length := by simpa using Nat.lt_of_lt_of_le below room
      have top : c.freeBlocks.getLastD 0 = cache.freeBlocks.reverse[i] := by
        rw [free, List.getLastD_eq_getLast?, List.getLast?_reverse, List.head?_drop,
          List.getElem?_eq_getElem here, Option.getD_some]
      refine ⟨by rw [(takeBlock_frame c sequenceId).1]; exact inside, ?_, ?_⟩
      · change c.freeBlocks.dropLast = _
        rw [free, List.dropLast_reverse, List.tail_drop]
      · rw [takeBlock_sequence c sequenceId sequenceId inside, if_pos rfl, top]
        simp only [table, List.append_assoc]
        rw [List.take_succ_eq_append_getElem here])
  exact rule.2.2

omit [Zero Elem] in
theorem reserveSequence_granted (cache : PagedKVCache Elem) (sequenceId totalTokens : Int)
    (fine : (cache.reserveSequence sequenceId totalTokens).1.isOk = true) :
    ((cache.reserveSequence sequenceId totalTokens).2.sequence sequenceId).blocks =
      cache.granted sequenceId totalTokens ∧
    (cache.granted sequenceId totalTokens).length =
      max (cache.sequence sequenceId).blocks.length (cache.neededBlocks totalTokens).toNat := by
  obtain ⟨ensured, _, room, same⟩ := reserveSequence_ok cache sequenceId totalTokens fine
  obtain ⟨_, _, bound⟩ := ensureSequence_ok cache sequenceId ensured
  have free : (cache.ensureSequence sequenceId).2.freeBlocks = cache.freeBlocks := by
    obtain ⟨count, frame⟩ := ensureSequence_frame cache sequenceId
    rw [frame]
  constructor
  · rw [same, takeBlocks_table _ sequenceId _ bound (by rw [free]; omega), ensureSequence_sequence,
      free]
    rfl
  · simp only [granted, List.length_append, List.length_take, List.length_reverse]
    have missing : cache.missingBlocks sequenceId totalTokens =
      cache.neededBlocks totalTokens - (cache.sequence sequenceId).blocks.length := rfl
    omega

/-- A granted cell still holds what its storage held before the reservation. -/
theorem granted_holds (cache : PagedKVCache Elem) {id total layer pos : Int} {block : Nat}
    (fine : (cache.reserveSequence id total).1.isOk = true) (low : 0 ≤ layer)
    (high : layer < cache.numLayers) (nonneg : 0 ≤ pos)
    (place : (cache.granted id total)[pos.toNat / cache.blockSize]? = some block) :
    (cache.reserveSequence id total).2.Holds id layer pos
      (fun j => cache.storage true layer (cache.rowIndex block pos + j),
        fun j => cache.storage false layer (cache.rowIndex block pos + j)) block := by
  obtain ⟨known, _⟩ := reserveSequence_known cache id total fine
  have extended := reserveSequence_extends cache id total
  obtain ⟨table, _⟩ := reserveSequence_granted cache id total fine
  have ready := (ensureSequence_ok cache id (reserveSequence_ok cache id total fine).1).1
  generalize (cache.reserveSequence id total).2 = base at extended table
  have index : base.rowIndex block pos = cache.rowIndex block pos := by
    simp only [rowIndex, blockStride, extended.kvHidden, extended.blockSize]
  have data : ∀ key, base.storage key layer = cache.storage key layer := by
    intro key
    simp only [storage, extended.layers]
  refine ⟨?_, low, by rw [numLayers, extended.layers]; exact high,
    physicalBlock_of_table known nonneg (by rw [table, extended.blockSize]; exact place),
    fun j _ => by rw [index, data], fun j _ => by rw [index, data]⟩
  rw [extended.blockSize]
  simp [initialized] at ready
  exact ready.1

/-- After a reservation the sequence still has its rows, and zeros in the storage
it is given where that storage held zeros. -/
theorem Tenanted.reserved {cache : PagedKVCache Elem} {id total : Int} {t : Tenancy Elem}
    (tenant : cache.Tenanted id t) (fine : (cache.reserveSequence id total).1.isOk = true)
    (rows : Int → Int → Option (Buffer Elem × Buffer Elem))
    (known : ∀ l pos stored, rows l pos = some stored → t.shown l pos = some stored ∨
      stored = (fun _ => 0, fun _ => 0) ∧ 0 ≤ l ∧ l < cache.numLayers ∧ 0 ≤ pos ∧
        pos.toNat / cache.blockSize < (t.reserve total).blocks ∧
        ∀ block, (cache.granted id total)[pos.toNat / cache.blockSize]? = some block →
          ∀ key, ∀ j < cache.kvHidden, cache.storage key l (cache.rowIndex block pos + j) = 0) :
    (cache.reserveSequence id total).2.Keeps id rows := by
  obtain ⟨low, _⟩ := reserveSequence_known cache id total fine
  have extended := reserveSequence_extends cache id total
  intro l pos stored entry
  rcases known l pos stored entry with old | ⟨rfl, layerLow, layerHigh, nonneg, inside, zero⟩
  · obtain ⟨block, held⟩ := tenant.rows low l pos stored old
    exact ⟨block, held.extends extended⟩
  · have bound : pos.toNat / cache.blockSize < (cache.granted id total).length := by
      rw [(reserveSequence_granted cache id total fine).2, ← tenant.blocks low, ← tenant.needed]
      exact inside
    have place := List.getElem?_eq_getElem bound
    have held := granted_holds cache fine layerLow layerHigh nonneg place
    have filled := fun key j (inRow : j < (cache.reserveSequence id total).2.kvHidden) =>
      zero _ place key j (by rwa [extended.kvHidden] at inRow)
    exact ⟨_, { held with
      key := fun j inRow => (held.key j inRow).trans (filled true j inRow)
      value := fun j inRow => (held.value j inRow).trans (filled false j inRow) }⟩

/-- The cells a write loop stores before it meets a position without a block. -/
def Reaches (cache : PagedKVCache Elem) (id layer startPos tokenCount l pos : Int) : Prop :=
  l = layer ∧ startPos ≤ pos ∧ pos < startPos + tokenCount ∧
    pos.toNat / cache.blockSize < (cache.sequence id).blocks.length

instance (cache : PagedKVCache Elem) (id layer startPos tokenCount l pos : Int) :
    Decidable (cache.Reaches id layer startPos tokenCount l pos) :=
  inferInstanceAs (Decidable (_ ∧ _))

/-- A write loop stores the rows that have a block, stopping at the first that
has none, and keeps every other row of the sequence. -/
theorem writeRows_keeps (cache : PagedKVCache Elem) (id layer startPos : Int) (k v : Buffer Elem)
    (count : Nat) (owned : cache.Owned) (positive : 0 < cache.blockSize) (known : 0 ≤ id)
    (low : 0 ≤ layer) (high : layer < cache.numLayers) (nonneg : 0 ≤ startPos)
    (fits : startPos + count < 2147483648) (rows : Int → Int → Option (Buffer Elem × Buffer Elem))
    (written : ∀ pos, cache.Reaches id layer startPos count layer pos → rows layer pos =
      some (fun j => k ((pos - startPos).toNat * cache.kvHidden + j),
        fun j => v ((pos - startPos).toNat * cache.kvHidden + j)))
    (kept : cache.Keeps id fun l pos =>
      if cache.Reaches id layer startPos count l pos then none else rows l pos) :
    (cache.writeRows id layer startPos k v count).2.Keeps id rows := by
  -- The first `i` rows are stored; rows still to come are not promised.
  let stored := fun (i : Nat) (l pos : Int) =>
    if cache.Reaches id layer startPos count l pos ∧ startPos + i ≤ pos then none else rows l pos
  -- Once every row that has a block is stored, all rows are.
  have finish : ∀ (i : Nat) (c : PagedKVCache Elem), c.Keeps id (stored i) →
      (∀ pos : Int, cache.Reaches id layer startPos count layer pos → pos < startPos + i) →
      c.Keeps id rows := by
    intro i c held reached l pos found entry
    refine held l pos found ?_
    rw [← entry]
    refine if_neg fun pending => ?_
    obtain ⟨reaches, later⟩ := pending
    have sameLayer := reaches.1
    subst sameLayer
    have := reached pos reaches
    omega
  have rule := loopTry_invariant
    (fun i c => (c = { cache with layers := c.layers } ∧ c.layers.length = cache.layers.length) ∧
      c.Keeps id (stored i))
    (fun _ c => c.Keeps id rows) count (writeRow id layer startPos k v) cache
    ⟨⟨rfl, rfl⟩, ?_⟩ ?_
  · exact (ends_iff _ _).mp (rule.mono
      (fun c held => finish count c held.2 fun pos reaches => reaches.2.2.1) fun _ _ held => held)
  · intro l pos found entry
    refine kept l pos found ?_
    rw [← entry]
    by_cases reaches : cache.Reaches id layer startPos count l pos
    · have pending : cache.Reaches id layer startPos count l pos ∧ startPos + (0 : Nat) ≤ pos :=
        ⟨reaches, by simpa using reaches.2.1⟩
      simp only [stored, pending, and_self, if_true]
    · simp only [stored, reaches, false_and, if_false]
  · rintro i c below ⟨⟨frame, size⟩, held⟩
    have highC : layer < c.numLayers := by rw [numLayers, size]; exact high
    have hidden : c.kvHidden = cache.kvHidden := by rw [frame]; rfl
    have ownedC : c.Owned := by rw [frame]; exact owned.congr rfl rfl rfl rfl
    have positiveC : 0 < c.blockSize := by rw [frame]; exact positive
    have table : c.sequence id = cache.sequence id := by rw [frame]; rfl
    have width : c.blockSize = cache.blockSize := by rw [frame]
    by_cases has : (startPos + i).toNat / cache.blockSize < (cache.sequence id).blocks.length
    · have foundC : c.physicalBlockForPosition id (startPos + i) =
          .ok ((cache.sequence id).blocks[(startPos + i).toNat / cache.blockSize]) :=
        physicalBlock_of_table known (by omega)
          (by rw [table, width]; exact List.getElem?_eq_getElem has)
      rw [writeRow_eq c id layer startPos k v i _ low highC nonneg (by omega) foundC]
      refine ⟨⟨?_, by simpa [putRow] using size⟩, ?_⟩
      · rw [frame]
        rfl
      · intro l pos rowsAt entry
        by_cases here : l = layer ∧ pos = startPos + i
        · obtain ⟨rfl, rfl⟩ := here
          have offset : (startPos + i - startPos).toNat = i := by omega
          have own : stored (i + 1) l (startPos + i) =
              some (fun j => k (i * cache.kvHidden + j), fun j => v (i * cache.kvHidden + j)) := by
            simp only [stored]
            rw [if_neg (by omega), written _ ⟨rfl, by omega, by omega, has⟩, offset]
          rw [own, Option.some.injEq, ← hidden] at entry
          subst entry
          exact ⟨_, putRow_holds_self c id l (startPos + i) _ _ positiveC low highC foundC⟩
        · have before : stored i l pos = some rowsAt := by
            rw [← entry]
            have same : (cache.Reaches id layer startPos count l pos ∧ startPos + i ≤ pos) ↔
                (cache.Reaches id layer startPos count l pos ∧ startPos + (i + 1 : Nat) ≤ pos) := by
              constructor
              · rintro ⟨reaches, after⟩
                have apart : pos ≠ startPos + i := fun last => here ⟨reaches.1, last⟩
                exact ⟨reaches, by omega⟩
              · rintro ⟨reaches, after⟩
                exact ⟨reaches, by omega⟩
            simp only [stored, same]
          obtain ⟨home, cell⟩ := held l pos rowsAt before
          exact ⟨home, putRow_holds_other c id layer (startPos + i) _ _ ownedC low highC foundC cell
            fun same => here same.2⟩
    · have missing : ∃ st, c.physicalBlockForPosition id (startPos + i) = .error st := by
        cases found : c.physicalBlockForPosition id (startPos + i) with
        | error st => exact ⟨st, rfl⟩
        | ok block =>
            obtain ⟨_, _, _, entry⟩ := (physicalBlock_ok_iff _ _ _ _).mp found
            rw [table, width] at entry
            exact absurd (List.getElem?_eq_some_iff.mp entry).1 has
      obtain ⟨st, missing⟩ := missing
      have exact32 : wrap32 (startPos + i) = startPos + i := wrap32_eq _ (by omega) (by omega)
      have inside : ¬ (layer < 0 ∨ layer ≥ c.numLayers) := by omega
      simp only [writeRow, exact32, mutableTokenPtr, inside, if_false, missing]
      refine finish i c held fun pos reaches => ?_
      by_contra later
      have monotone : (startPos + i).toNat / cache.blockSize ≤ pos.toNat / cache.blockSize :=
        Nat.div_le_div_right (by omega)
      have := reaches.2.2.2
      omega

theorem Tenanted.shaped {before after : PagedKVCache Elem} {id : Int} {t later : Tenancy Elem}
    (tenant : before.Tenanted id t) (shape : SameShape before after)
    (same : later = { t with length := later.length, blocks := later.blocks, row := later.row })
    (length : later.length = after.sequenceLength id) (nonneg : 0 ≤ later.length)
    (isInt : later.length < 2147483648)
    (blocks : 0 ≤ id → later.blocks = (after.sequence id).blocks.length)
    (rows : 0 ≤ id → after.Keeps id later.shown) : after.Tenanted id later := by
  have ready : 0 < after.numLayers → after.initialized = true := by
    rw [initialized, shape.numLayers, shape.blockSize, shape.maxBlocks]
    exact tenant.ready
  refine ⟨?_, ?_, ?_, ?_, ?_, by rw [shape.blockSize]; exact tenant.sizeInt,
    tenant.rowFits.of_shape shape, ready, length,
    isInt, nonneg, blocks, rows⟩ <;> rw [same]
  · exact tenant.layers.trans shape.numLayers.symm
  · exact tenant.heads.trans shape.numKvHeads.symm
  · exact tenant.headDim.trans shape.headDim.symm
  · exact tenant.blockSize.trans shape.blockSize.symm
  · exact tenant.maxBlocks.trans shape.maxBlocks.symm

/-- The rows a reservation leaves the sequence, those about to be written apart. -/
theorem Tenanted.grantedRows {cache : PagedKVCache Elem} {id total : Int} {t : Tenancy Elem}
    (tenant : cache.Tenanted id t) (later : Tenancy Elem)
    (fine : (cache.reserveSequence id total).1.isOk = true)
    (same : later = { t.reserve total with length := later.length, row := later.row })
    (fresh : Int → Int → Prop) [∀ l pos, Decidable (fresh l pos)]
    (old : ∀ l pos, ¬ fresh l pos → later.row l pos = t.row l pos)
    (filled : (later.length = t.length ∧ (t.reserve total).blocks = t.blocks) ∨
      cache.ZeroFilled id total later) :
    (cache.reserveSequence id total).2.Keeps id fun l pos =>
      if fresh l pos then none else later.shown l pos := by
  refine tenant.reserved fine _ fun l pos stored entry => ?_
  have layers : later.numLayers = t.numLayers := by rw [same]; rfl
  have size : later.blockSize = t.blockSize := by rw [same]; rfl
  have blocks : later.blocks = (t.reserve total).blocks := by rw [same]
  by_cases written : fresh l pos
  · simp [written] at entry
  rw [if_neg written] at entry
  unfold Tenancy.shown at entry ⊢
  have unchanged := old l pos written
  rw [unchanged] at entry
  cases row : t.row l pos with
  | some rows =>
      rw [row] at entry
      exact Or.inl entry
  | none =>
      rw [row] at entry unchanged
      simp only [layers, size, blocks] at entry
      split at entry
      · next reachable =>
          obtain rfl := Option.some.inj entry
          obtain ⟨layerLow, layerHigh, nonneg, below, inside⟩ := reachable
          rcases filled with ⟨sameLength, sameBlocks⟩ | zero
          · rw [sameLength] at below
            rw [sameBlocks] at inside
            exact Or.inl (if_pos ⟨layerLow, layerHigh, nonneg, below, inside⟩)
          · rw [tenant.layers] at layerHigh
            rw [tenant.blockSize] at inside
            exact Or.inr ⟨rfl, layerLow, layerHigh, nonneg, inside, fun block place =>
              zero l pos block layerLow layerHigh nonneg below unchanged place⟩
      · simp at entry

theorem Tenanted.reserve {cache : PagedKVCache Elem} {id total : Int} {t : Tenancy Elem}
    (tenant : cache.Tenanted id t) (fine : (cache.reserveSequence id total).1.isOk = true)
    (filled : cache.ZeroFilled id total (t.reserve total)) :
    (cache.reserveSequence id total).2.Tenanted id (t.reserve total) := by
  have extended := reserveSequence_extends cache id total
  obtain ⟨table, size⟩ := reserveSequence_granted cache id total fine
  refine tenant.shaped extended.sameShape rfl ?_ tenant.lengthNonneg tenant.lengthInt ?_ ?_
  · rw [reserveSequence_lengths]
    exact tenant.length
  · intro low
    rw [table, size, ← tenant.blocks low, ← tenant.needed]
    rfl
  · intro _
    simpa using tenant.grantedRows (t.reserve total) fine rfl (fun _ _ => False) (fun _ _ _ => rfl) (Or.inr filled)

theorem Tenanted.setLength {cache : PagedKVCache Elem} {id length : Int} {t : Tenancy Elem}
    (tenant : cache.Tenanted id t) (fine : (cache.reserveSequence id length).1.isOk = true)
    (isInt : length < 2147483648) (nonneg : 0 ≤ length)
    (filled : cache.ZeroFilled id length { t.reserve length with length := length }) :
    ((cache.reserveSequence id length).2.modifySequence id
      fun seq => { seq with length := length }).Tenanted id
        { t.reserve length with length := length } := by
  obtain ⟨low, bound⟩ := reserveSequence_known cache id length fine
  have extended := reserveSequence_extends cache id length
  obtain ⟨table, size⟩ := reserveSequence_granted cache id length fine
  have rows : (cache.reserveSequence id length).2.Keeps id
      { t.reserve length with length := length }.shown := by
    simpa using tenant.grantedRows { t.reserve length with length := length } fine rfl
      (fun _ _ => False) (fun _ _ _ => rfl) (Or.inr filled)
  generalize (cache.reserveSequence id length).2 = base at bound extended table rows
  have modified := modifyLength_extends base id (fun seq => { seq with length := length })
    (fun _ => rfl) bound
  refine tenant.shaped (extended.trans modified).sameShape rfl ?_ nonneg isInt ?_
    fun _ => rows.extends modified
  · rw [modifyLength_lengths base id id _ low bound, if_pos rfl]
  · intro _
    rw [modifySequence_sequence base id id _ bound, if_pos rfl]
    change _ = (base.sequence id).blocks.length
    rw [table, size, ← tenant.blocks low, ← tenant.needed]
    rfl

omit [Zero Elem] in
theorem writeRows_error (cache : PagedKVCache Elem) (id layer startPos : Int) (k v : Buffer Elem)
    (count : Nat) {st : Status} {after : PagedKVCache Elem}
    (stopped : cache.writeRows id layer startPos k v count = (some st, after)) :
    st.isOk = false := by
  have rule := loopTry_invariant (fun _ _ => True) (fun (err : Status) _ => err.isOk = false)
    count (writeRow id layer startPos k v) cache trivial (by
      intro i c _ _
      have error : ∀ err, c.mutableTokenPtr id layer (wrap32 (startPos + i)) = .error err →
          err.isOk = false := by
        intro err bad
        unfold mutableTokenPtr at bad
        split at bad
        · cases bad
          rfl
        · split at bad
          · next missing =>
              cases bad
              exact physicalBlock_error missing
          · cases bad
      cases ptr : c.mutableTokenPtr id layer (wrap32 (startPos + i)) with
      | error err =>
          simp only [writeRow, ptr]
          exact error err ptr
      | ok index =>
          simp only [writeRow, ptr]
          exact trivial)
  change Ends _ _ (cache.writeRows id layer startPos k v count) at rule
  rw [stopped] at rule
  exact rule

/-- A reservation that had to take blocks leaves every position a block. -/
theorem Tenanted.rows_written {cache : PagedKVCache Elem} {id layer startPos tokenCount : Int}
    {t : Tenancy Elem} (tenant : cache.Tenanted id t) (owned : cache.Owned) (k v : Buffer Elem)
    (accepts : cache.Accepts layer startPos tokenCount)
    (fits : startPos + tokenCount < 2147483648)
    (fine : (cache.reserveSequence id (startPos + tokenCount)).1.isOk = true)
    (grows : t.blocks < t.neededBlocks (startPos + tokenCount)) :
    ((cache.reserveSequence id (startPos + tokenCount)).2.writeRows id layer startPos k v
      tokenCount.toNat).1 = none := by
  obtain ⟨nonneg, positive, low, high⟩ := accepts
  have ready := (ensureSequence_ok cache id
    (reserveSequence_ok cache id (startPos + tokenCount) fine).1).1
  have sizePositive : 0 < cache.blockSize := by
    simp [initialized] at ready
    exact ready.1
  have inRange : startPos + tokenCount + cache.blockSize ≤ 2147483648 := by
    by_contra excess
    have sizeInt := tenant.sizeInt
    have overflow := ceilDivInt_overflow (startPos + tokenCount) cache.blockSize fits (by omega)
      (by omega) (by omega)
    rw [tenant.needed, neededBlocks, if_neg (by omega)] at grows
    omega
  have covers := fun pos => reserveSequence_covers cache id (startPos + tokenCount) pos fine inRange
  have extended := reserveSequence_extends cache id (startPos + tokenCount)
  have reserved := reserveSequence_owned cache id (startPos + tokenCount) owned
  have rows := writeRows_holds _
    { width := (cache.reserveSequence id (startPos + tokenCount)).2.kvHidden } id layer startPos k v
    tokenCount.toNat reserved (by dsimp only) (by rw [extended.blockSize]; exact sizePositive) low
    (by rw [numLayers, extended.layers]; exact high) nonneg (by omega)
    (fun i below => (covers (startPos + i) (by omega) (by omega)).2)
    (fun _ _ _ _ none => by simp at none)
  generalize (cache.reserveSequence id (startPos + tokenCount)).2.writeRows id layer startPos k v
    tokenCount.toNat = result at rows
  obtain ⟨err, after⟩ := result
  cases err with
  | none => rfl
  | some err => exact rows.elim

/-- The write of a sequence into its own storage. -/
theorem Tenanted.stores {cache : PagedKVCache Elem} {id layer startPos tokenCount : Int}
    {t : Tenancy Elem} (tenant : cache.Tenanted id t) (owned : cache.Owned) (k v : Buffer Elem)
    (accepts : cache.Accepts layer startPos tokenCount) (length : Int)
    (fits : startPos + tokenCount < 2147483648)
    (fine : (cache.reserveSequence id (startPos + tokenCount)).1.isOk = true)
    (filled : (length = t.length ∧ (t.reserve (startPos + tokenCount)).blocks = t.blocks) ∨
      cache.ZeroFilled id (startPos + tokenCount)
        { (t.reserve (startPos + tokenCount)).store layer startPos k v tokenCount with
          length := length }) :
    ((cache.reserveSequence id (startPos + tokenCount)).2.writeRows id layer startPos k v
      tokenCount.toNat).2.Keeps id
        { (t.reserve (startPos + tokenCount)).store layer startPos k v tokenCount with
          length := length }.shown := by
  obtain ⟨nonneg, positive, low, high⟩ := accepts
  obtain ⟨known, _⟩ := reserveSequence_known cache id (startPos + tokenCount) fine
  have ready := (ensureSequence_ok cache id
    (reserveSequence_ok cache id (startPos + tokenCount) fine).1).1
  have extended := reserveSequence_extends cache id (startPos + tokenCount)
  obtain ⟨table, size⟩ := reserveSequence_granted cache id (startPos + tokenCount) fine
  have reserved := reserveSequence_owned cache id (startPos + tokenCount) owned
  have old := tenant.grantedRows
    { (t.reserve (startPos + tokenCount)).store layer startPos k v tokenCount with
      length := length } fine rfl
    (fun l pos => (t.reserve (startPos + tokenCount)).Covered layer startPos tokenCount l pos)
    (fun l pos outside => if_neg outside) filled
  generalize (cache.reserveSequence id (startPos + tokenCount)).2 = base
    at extended table reserved old
  have reaches : ∀ l pos, base.Reaches id layer startPos tokenCount.toNat l pos ↔
      (t.reserve (startPos + tokenCount)).Covered layer startPos tokenCount l pos := by
    intro l pos
    have blocks : (base.sequence id).blocks.length = (t.reserve (startPos + tokenCount)).blocks := by
      rw [table, size, ← tenant.blocks known, ← tenant.needed]
      rfl
    unfold Reaches Tenancy.Covered
    rw [blocks, extended.blockSize, ← tenant.blockSize, Int.toNat_of_nonneg (by omega)]
    rfl
  have hidden : (t.reserve (startPos + tokenCount)).kvHidden = base.kvHidden := by
    rw [extended.kvHidden, kvHidden_eq tenant.rowFits, ← tenant.heads, ← tenant.headDim]
    rfl
  refine writeRows_keeps base id layer startPos k v tokenCount.toNat reserved ?_ known low
    (by rw [numLayers, extended.layers]; exact high) nonneg (by omega) _ (fun pos inside => ?_) ?_
  · rw [extended.blockSize]
    simp [initialized] at ready
    exact ready.1
  · simp only [Tenancy.shown, Tenancy.store, (reaches layer pos).mp inside, if_true, hidden]
  · simpa only [reaches] using old

/-- Where the sequence stands once its rows are stored: only its length is to come. -/
theorem Tenanted.stored {cache : PagedKVCache Elem} {id layer startPos tokenCount : Int}
    {t : Tenancy Elem} (tenant : cache.Tenanted id t) (owned : cache.Owned) (k v : Buffer Elem)
    (accepts : cache.Accepts layer startPos tokenCount)
    (fine : (cache.reserveSequence id (startPos + tokenCount)).1.isOk = true)
    {after : PagedKVCache Elem}
    (rows : ((cache.reserveSequence id (startPos + tokenCount)).2.writeRows id layer startPos k v
      tokenCount.toNat).2 = after) :
    SameShape cache after ∧ 0 ≤ id ∧ id.toNat < after.sequences.length ∧
      t.length = after.sequenceLength id ∧ t.length = (after.sequence id).length ∧
      (t.reserve (startPos + tokenCount)).blocks = (after.sequence id).blocks.length := by
  obtain ⟨nonneg, positive, low, high⟩ := accepts
  obtain ⟨known, bound⟩ := reserveSequence_known cache id (startPos + tokenCount) fine
  have extended := reserveSequence_extends cache id (startPos + tokenCount)
  obtain ⟨table, size⟩ := reserveSequence_granted cache id (startPos + tokenCount) fine
  have lengths := reserveSequence_lengths cache id (startPos + tokenCount) id
  have reserved := reserveSequence_owned cache id (startPos + tokenCount) owned
  subst rows
  generalize (cache.reserveSequence id (startPos + tokenCount)).2 = base
    at bound extended table lengths reserved
  have frame := writeRows_frame base id layer startPos k v tokenCount.toNat
  have others := writeRows_untouched base id layer startPos k v tokenCount.toNat (id + 1) reserved low
    (by rw [numLayers, extended.layers]; exact high) (by omega)
  generalize (base.writeRows id layer startPos k v tokenCount.toNat).2 = after at frame others
  have length : t.length = after.sequenceLength id := by
    rw [frame]
    exact tenant.length.trans lengths.symm
  refine ⟨extended.sameShape.trans others.toSameShape, known, by rw [frame]; exact bound, length, ?_, ?_⟩
  · rwa [sequenceLength_eq, if_pos known] at length
  · rw [frame]
    change _ = (base.sequence id).blocks.length
    rw [table, size, ← tenant.blocks known, ← tenant.needed]
    rfl

theorem Tenanted.writes {cache : PagedKVCache Elem} {id layer startPos tokenCount : Int}
    {t : Tenancy Elem} (tenant : cache.Tenanted id t) (owned : cache.Owned) (k v : Buffer Elem)
    (accepts : cache.Accepts layer startPos tokenCount) (startInt : startPos < 2147483648)
    (countInt : tokenCount < 2147483648) {result : Status × PagedKVCache Elem}
    (writes : cache.Writes id layer startPos k v tokenCount result)
    (filled : result.1.isOk = true → cache.ZeroFilled id (wrap32 (startPos + tokenCount))
      (t.write layer startPos (some k) (some v) tokenCount true)) :
    result.2.Tenanted id (t.write layer startPos (some k) (some v) tokenCount result.1.isOk) := by
  have ⟨nonneg, positive, low, high⟩ := accepts
  -- Both branches of the update, with the argument checks out of the way.
  have update : ∀ ok, t.write layer startPos (some k) (some v) tokenCount ok =
      if ok = true ∨ (0 ≤ wrap32 (startPos + tokenCount) ∧
          t.neededBlocks (wrap32 (startPos + tokenCount)) ≤ t.blocks) then
        { (t.reserve (wrap32 (startPos + tokenCount))).store layer startPos k v tokenCount with
          length := if ok then max t.length (wrap32 (startPos + tokenCount)) else t.length }
      else t := by
    intro ok
    unfold Tenancy.write
    exact if_neg (by rw [tenant.layers]; omega)
  have endPos : (cache.reserveSequence id (wrap32 (startPos + tokenCount))).1.isOk = true →
      wrap32 (startPos + tokenCount) = startPos + tokenCount := fun fine =>
    wrap32_add_nonneg startPos tokenCount nonneg (by omega) startInt countInt
      (reserveSequence_ok cache id _ fine).2.1
  have highest := wrap32_lt (startPos + tokenCount)
  cases writes with
  | noBlocks bad =>
      have same : (cache.reserveSequence id (wrap32 (startPos + tokenCount))).2.Tenanted id t := by
        rw [reserveSequence_failed cache id _ bad]
        exact tenant.untouched ((ensureSequence_extends cache id).untouched
          fun _ => ensureSequence_sequence cache id id)
      rw [bad, update]
      by_cases known : 0 ≤ id
      · rw [if_neg]
        · exact same
        · rintro (no | ⟨total, enough⟩)
          · cases no
          · have ready := tenant.ready (by omega)
            rw [tenant.needed, tenant.blocks known] at enough
            have missing : cache.missingBlocks id (wrap32 (startPos + tokenCount)) =
              cache.neededBlocks (wrap32 (startPos + tokenCount)) -
                (cache.sequence id).blocks.length := rfl
            have succeeds := reserveSequence_succeeds cache id (wrap32 (startPos + tokenCount)) ready
              known total (by omega)
            simp [succeeds] at bad
      · split
        · exact same.shaped ⟨rfl, rfl, rfl, rfl, rfl⟩ rfl same.length same.lengthNonneg same.lengthInt
            (fun low => absurd low known) (fun low => absurd low known)
        · exact same
  | stopped st after fine wrote =>
      have bad := writeRows_error _ id layer startPos k v tokenCount.toNat wrote
      have ends := endPos fine
      rw [ends] at fine wrote highest
      have total := (reserveSequence_ok cache id _ fine).2.1
      have enough : t.neededBlocks (startPos + tokenCount) ≤ t.blocks := by
        by_contra grows
        have all := tenant.rows_written owned k v accepts highest fine (by omega)
        rw [wrote] at all
        cases all
      have sameBlocks : (t.reserve (startPos + tokenCount)).blocks = t.blocks := by
        change max t.blocks _ = _
        omega
      obtain ⟨shape, _, _, length, _, blocks⟩ :=
        tenant.stored owned k v accepts fine (congrArg Prod.snd wrote)
      have rows := tenant.stores owned k v accepts t.length highest fine (Or.inl ⟨rfl, sameBlocks⟩)
      rw [wrote] at rows
      rw [bad, update, ends, if_pos (Or.inr ⟨total, enough⟩)]
      exact tenant.shaped shape rfl length tenant.lengthNonneg tenant.lengthInt (fun _ => blocks)
        fun _ => rows
  | written after fine wrote =>
      have ends := endPos fine
      have filled := filled rfl
      rw [update, if_pos (Or.inl rfl)] at filled
      rw [Status.isOk_makeOk, update, if_pos (Or.inl rfl)]
      rw [ends] at fine wrote highest filled ⊢
      obtain ⟨shape, known, bound, _, length, blocks⟩ :=
        tenant.stored owned k v accepts fine (congrArg Prod.snd wrote)
      have rows := tenant.stores owned k v accepts (max t.length (startPos + tokenCount)) highest fine
        (Or.inr (by simpa using filled))
      rw [wrote] at rows
      dsimp only at rows
      have blocks' : ((t.reserve (startPos + tokenCount)).store layer startPos k v tokenCount).blocks =
        (after.sequence id).blocks.length := blocks
      have nonnegLength := tenant.lengthNonneg
      have lengthInt := tenant.lengthInt
      have modified := modifyLength_extends after id
        (fun seq => { seq with length := max seq.length (startPos + tokenCount) }) (fun _ => rfl) bound
      refine tenant.shaped (shape.trans modified.sameShape) rfl ?_ ?_ ?_ ?_ fun _ => ?_
      · rw [modifyLength_lengths after id id _ known bound, if_pos rfl, ← length]
        simp
      · simp only [if_true]
        omega
      · simp only [if_true]
        omega
      · intro _
        rw [modifySequence_sequence after id id _ bound]
        simpa using blocks'
      · simpa using rows.extends modified

theorem Tenanted.write {cache : PagedKVCache Elem} {id layer startPos tokenCount : Int}
    {t : Tenancy Elem} (tenant : cache.Tenanted id t) (owned : cache.Owned)
    (k v : Option (Buffer Elem)) (startInt : startPos < 2147483648)
    (countInt : tokenCount < 2147483648)
    (filled : (cache.writeTokens id layer startPos k v tokenCount).1.isOk = true →
      tokenCount ≠ 0 → cache.ZeroFilled id (wrap32 (startPos + tokenCount))
        (t.write layer startPos k v tokenCount true)) :
    (cache.writeTokens id layer startPos k v tokenCount).2.Tenanted id
      (t.write layer startPos k v tokenCount
        (cache.writeTokens id layer startPos k v tokenCount).1.isOk) := by
  by_cases accepts : k.isSome = true ∧ v.isSome = true ∧ cache.Accepts layer startPos tokenCount
  · obtain ⟨hasK, hasV, accepts⟩ := accepts
    obtain ⟨kb, rfl⟩ := Option.isSome_iff_exists.mp hasK
    obtain ⟨vb, rfl⟩ := Option.isSome_iff_exists.mp hasV
    exact tenant.writes owned kb vb accepts startInt countInt
      (writeTokens_accepted cache id layer startPos kb vb tokenCount accepts)
      fun fine => filled fine (by have := accepts.2.1; omega)
  · have refused : ∀ ok, t.write layer startPos k v tokenCount ok = t := by
      intro ok
      unfold Tenancy.write
      split
      · refine if_pos ?_
        rw [tenant.layers]
        simp only [Option.isSome_some, true_and, Accepts] at accepts
        omega
      · rfl
    rw [refused, (writeTokens_refused cache id layer startPos k v tokenCount accepts).1]
    exact tenant

/-- A sequence that holds nothing is shown nothing. -/
theorem tenanted_empty {cache : PagedKVCache Elem} {id : Int} {t : Tenancy Elem}
    (shape : t.numLayers = cache.numLayers ∧ t.numKvHeads = cache.numKvHeads ∧
      t.headDim = cache.headDim ∧ t.blockSize = cache.blockSize ∧ t.maxBlocks = cache.maxBlocks)
    (sizeInt : cache.blockSize < 2147483648) (rowFits : cache.RowFits)
    (ready : 0 < cache.numLayers → cache.initialized = true)
    (empty : 0 ≤ id → cache.sequence id = {}) (length : t.length = 0) (blocks : t.blocks = 0)
    (row : ∀ l pos, t.row l pos = none) : cache.Tenanted id t := by
  obtain ⟨layers, heads, headDim, blockSize, maxBlocks⟩ := shape
  refine ⟨layers, heads, headDim, blockSize, maxBlocks, sizeInt, rowFits, ready, ?_, by omega, by omega,
    ?_, ?_⟩
  · rw [length, sequenceLength_eq]
    split
    · next low => rw [empty low]
    · rfl
  · intro low
    rw [blocks, empty low]
    rfl
  · intro _ l pos stored entry
    have unreadable : ¬ (0 ≤ pos ∧ pos < (0 : Int)) := by omega
    simp [Tenancy.shown, row, length] at entry
    omega

theorem init_tenanted (cache : PagedKVCache Elem) (id layers heads dim size blocks : Int)
    (sizeInt : size < 2147483648) (bounds : (Op.init layers heads dim size blocks : Op Elem).Bounded)
    (t : Tenancy Elem) :
    (cache.init layers heads dim size blocks).2.Tenanted id
      (t.after (.init layers heads dim size blocks)
        (cache.init layers heads dim size blocks).1.isOk) := by
  unfold init
  dsimp only
  split
  · exact tenanted_empty ⟨rfl, rfl, rfl, rfl, rfl⟩ (show 0 < 2147483648 by decide)
      (release_rowFits cache) (by simp [release, numLayers]) (fun _ => rfl) rfl rfl fun _ _ => rfl
  · next positive =>
      refine tenanted_empty ⟨?_, rfl, rfl, rfl, rfl⟩ (show size.toNat < 2147483648 by omega)
        (rowFloats_fit (bounds (by omega)).1 (by omega) (by omega)) ?_ (fun _ => rfl) rfl rfl fun _ _ => rfl
      · simp [Tenancy.after, numLayers]
      · intro _
        have sizes : 0 < size.toNat ∧ 0 < blocks.toNat := by omega
        simpa [initialized] using sizes

/-- A call that concerns a sequence updates its tenancy. -/
theorem Tenanted.step {cache : PagedKVCache Elem} {id : Int} {t : Tenancy Elem}
    (tenant : cache.Tenanted id t) (owned : cache.Owned) (op : Op Elem) (isInt : op.IsInt)
    (bounds : op.Bounded) (concerned : op.Concerns id)
    (clean : ∀ total, op.demand cache = some (id, total) → (cache.apply op).1.isOk = true →
      cache.ZeroFilled id total (t.after op true)) :
    (cache.step op).Tenanted id (t.after op (cache.apply op).1.isOk) := by
  cases op with
  | init layers heads dim size blocks =>
      exact init_tenanted cache id layers heads dim size blocks isInt.2.2.2.1 bounds t
  | reset =>
      have count : cache.reset.numLayers = cache.numLayers := by simp [reset, numLayers]
      refine tenanted_empty ⟨tenant.layers.trans count.symm, tenant.heads, tenant.headDim,
        tenant.blockSize, tenant.maxBlocks⟩ tenant.sizeInt tenant.rowFits ?_ (fun _ => rfl) rfl rfl fun _ _ => rfl
      change 0 < cache.reset.numLayers → cache.initialized = true
      rw [count]
      exact tenant.ready
  | ensureSequence i =>
      obtain rfl : i = id := concerned
      exact tenant.untouched ((ensureSequence_extends cache i).untouched
        fun _ => ensureSequence_sequence cache i i)
  | reserveSequence i total =>
      obtain rfl : i = id := concerned
      have filled := clean total rfl
      change (cache.reserveSequence i total).2.Tenanted i
        (if (cache.reserveSequence i total).1.isOk then t.reserve total else t)
      change (cache.reserveSequence i total).1.isOk = true → _ at filled
      cases fine : (cache.reserveSequence i total).1.isOk with
      | true => exact tenant.reserve fine (filled fine)
      | false =>
          rw [reserveSequence_failed cache i total fine]
          exact tenant.untouched ((ensureSequence_extends cache i).untouched
            fun _ => ensureSequence_sequence cache i i)
  | setSequenceLength i length =>
      obtain rfl : i = id := concerned
      have filled := clean length rfl
      change (cache.setSequenceLength i length).2.Tenanted i
        (if (cache.setSequenceLength i length).1.isOk then { t.reserve length with length := length }
          else t)
      change (cache.setSequenceLength i length).1.isOk = true → cache.ZeroFilled i length
        { t.reserve length with length := length } at filled
      unfold setSequenceLength at filled ⊢
      by_cases negative : length < 0
      · simpa [negative] using tenant
      simp only [negative, if_false] at filled ⊢
      cases fine : (cache.reserveSequence i length).1.isOk with
      | true =>
          simp only [fine, Bool.not_true, Bool.false_eq_true, if_false] at filled
          simpa [fine] using tenant.setLength fine isInt (by omega) (filled rfl)
      | false =>
          simp only [Bool.not_false, if_true, fine]
          rw [reserveSequence_failed cache i length fine]
          exact tenant.untouched ((ensureSequence_extends cache i).untouched
            fun _ => ensureSequence_sequence cache i i)
  | writeTokens i layer start k v count =>
      obtain rfl : i = id := concerned
      exact tenant.write owned k v isInt.1 isInt.2 fun fine some => clean _ (if_neg some) fine
  | appendTokens i layer k v count =>
      obtain rfl : i = id := concerned
      have place := tenant.length
      have startInt := tenant.lengthInt
      rw [place] at startInt
      have appended := tenant.write owned k v startInt isInt fun fine some => by
        have filled := clean _ (if_neg some) fine
        rwa [Tenancy.after, place] at filled
      change (cache.writeTokens i layer (cache.sequenceLength i) k v count).2.Tenanted i
        (t.write layer t.length k v count
          (cache.writeTokens i layer (cache.sequenceLength i) k v count).1.isOk)
      rwa [place]
  | freeSequence i =>
      obtain rfl : i = id := concerned
      have freed := freeSequence_sequence cache i i
      obtain ⟨shape, _⟩ := freeSequence_untouched cache i (i + 1) (by omega)
      change (cache.freeSequence i).2.Tenanted i _
      refine tenanted_empty ⟨tenant.layers.trans shape.numLayers.symm,
        tenant.heads.trans shape.numKvHeads.symm, tenant.headDim.trans shape.headDim.symm,
        tenant.blockSize.trans shape.blockSize.symm, tenant.maxBlocks.trans shape.maxBlocks.symm⟩
        (by rw [shape.blockSize]; exact tenant.sizeInt) (tenant.rowFits.of_shape shape) ?_ (fun low => by simpa using freed low) rfl rfl
        fun _ _ => rfl
      rw [initialized, shape.numLayers, shape.blockSize, shape.maxBlocks]
      exact tenant.ready

end Sharing

end MiniLLM.PagedKVCache
