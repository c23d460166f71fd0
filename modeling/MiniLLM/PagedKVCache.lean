import MiniLLM.Loops
import MiniLLM.Machine
import MiniLLM.Status
import Mathlib.Data.List.Basic

/-!
The CPU build of runtime/cache/paged_kv_cache.cpp. Vectors of blocks and
sequences are lists in the order of the source (the free stack pops at its end);
`block_used_` and the K/V storage are read and written by index only and are
functions of it. Positions, lengths, token counts and the width of a row are
`int`s and wrap; block ids and storage indices are non-negative and exact, as
they are in a storage of less than 2^64 floats. Tokens are elements of an
arbitrary type with a zero, the value `init` and `reset` store.
-/

namespace MiniLLM.PagedKVCache

open Loops

def ceilDivInt (a b : Int) : Int := Int.tdiv (wrap32 (wrap32 (a + b) - 1)) b

structure Layer (Elem : Type) where
  k : Buffer Elem
  v : Buffer Elem

structure Sequence where
  length : Int := 0
  blocks : List Nat := []
  deriving DecidableEq, Repr

end PagedKVCache

structure PagedKVCache (Elem : Type) where
  layers : List (PagedKVCache.Layer Elem) := []
  freeBlocks : List Nat := []
  blockUsed : Nat → Bool := fun _ => false
  sequences : List PagedKVCache.Sequence := []
  numKvHeads : Nat := 0
  headDim : Nat := 0
  blockSize : Nat := 0
  maxBlocks : Nat := 0

namespace PagedKVCache

open Loops

variable {Elem : Type}

/-- The `int` product, as every use of it converts it: to `size_t`. -/
def kvHidden (cache : PagedKVCache Elem) : Nat :=
  (wrap32 (cache.numKvHeads * cache.headDim) % 18446744073709551616).toNat

/-- A row whose floats an `int` counts. -/
def RowFits (cache : PagedKVCache Elem) : Prop := cache.numKvHeads * cache.headDim < 2147483648

theorem kvHidden_eq {cache : PagedKVCache Elem} (fits : cache.RowFits) :
    cache.kvHidden = cache.numKvHeads * cache.headDim := by
  have fits : cache.numKvHeads * cache.headDim < 2147483648 := fits
  have exact : wrap32 ((cache.numKvHeads : Int) * cache.headDim) =
      (cache.numKvHeads * cache.headDim : Nat) := by
    rw [← Nat.cast_mul]
    exact wrap32_eq _ (by omega) (by omega)
  rw [kvHidden, exact]
  omega

def numLayers (cache : PagedKVCache Elem) : Nat := cache.layers.length
def initialized (cache : PagedKVCache Elem) : Bool := cache.blockSize > 0 && cache.maxBlocks > 0

-- `size_t` strides of one physical block and of one storage row.
def blockStride (cache : PagedKVCache Elem) : Nat := cache.blockSize * cache.kvHidden

def release (_ : PagedKVCache Elem) : PagedKVCache Elem := {}

def zeroLayer [Zero Elem] : Layer Elem := ⟨fun _ => 0, fun _ => 0⟩

def init [Zero Elem] (cache : PagedKVCache Elem)
    (numLayers numKvHeads headDim blockSize maxBlocks : Int) : Status × PagedKVCache Elem :=
  let cache := cache.release
  if numLayers ≤ 0 ∨ numKvHeads ≤ 0 ∨ headDim ≤ 0 ∨ blockSize ≤ 0 ∨ maxBlocks ≤ 0 then
    (.invalidArgument
      "PagedKVCache init requires positive layers, heads, head_dim, block_size, and max_blocks",
      cache)
  else
    (.makeOk,
      { layers := List.replicate numLayers.toNat zeroLayer
        freeBlocks := (List.range maxBlocks.toNat).reverse
        blockUsed := fun _ => false
        sequences := []
        numKvHeads := numKvHeads.toNat
        headDim := headDim.toNat
        blockSize := blockSize.toNat
        maxBlocks := maxBlocks.toNat })

def reset [Zero Elem] (cache : PagedKVCache Elem) : PagedKVCache Elem :=
  { cache with
    layers := cache.layers.map fun _ => zeroLayer
    blockUsed := fun _ => false
    freeBlocks := (List.range cache.maxBlocks).reverse
    sequences := [] }

def ensureSequence (cache : PagedKVCache Elem) (sequenceId : Int) : Status × PagedKVCache Elem :=
  if !cache.initialized then
    (.runtimeError "PagedKVCache is not initialized", cache)
  else if sequenceId < 0 then
    (.invalidArgument "sequence_id must be non-negative", cache)
  else
    (.makeOk,
      { cache with
        sequences := cache.sequences ++
          List.replicate (sequenceId.toNat + 1 - cache.sequences.length) {} })

-- The vector test every accessor makes before it indexes `sequences_`.
def known (cache : PagedKVCache Elem) (sequenceId : Int) : Bool :=
  0 ≤ sequenceId && sequenceId.toNat < cache.sequences.length

def sequence (cache : PagedKVCache Elem) (sequenceId : Int) : Sequence :=
  cache.sequences.getD sequenceId.toNat {}

def modifySequence (cache : PagedKVCache Elem) (sequenceId : Int) (f : Sequence → Sequence) :
    PagedKVCache Elem :=
  { cache with sequences := cache.sequences.modify sequenceId.toNat f }

def freeBlock (block : Nat) (cache : PagedKVCache Elem) : PagedKVCache Elem :=
  if block < cache.maxBlocks ∧ cache.blockUsed block = true then
    { cache with
      blockUsed := fun b => if b = block then false else cache.blockUsed b
      freeBlocks := cache.freeBlocks ++ [block] }
  else cache

def freeSequence (cache : PagedKVCache Elem) (sequenceId : Int) : Status × PagedKVCache Elem :=
  if !cache.known sequenceId then (.makeOk, cache)
  else
    let cache := (cache.sequence sequenceId).blocks.foldl (fun c block => c.freeBlock block) cache
    (.makeOk, cache.modifySequence sequenceId fun _ => { length := 0, blocks := [] })

def hasSequence (cache : PagedKVCache Elem) (sequenceId : Int) : Bool :=
  cache.known sequenceId &&
    (!(cache.sequence sequenceId).blocks.isEmpty || (cache.sequence sequenceId).length > 0)

def sequenceLength (cache : PagedKVCache Elem) (sequenceId : Int) : Int :=
  if !cache.known sequenceId then 0 else (cache.sequence sequenceId).length

def sequenceCapacity (cache : PagedKVCache Elem) (sequenceId : Int) : Int :=
  if !cache.known sequenceId then 0
  else wrap32 ((cache.sequence sequenceId).blocks.length * cache.blockSize)

def blockTable (cache : PagedKVCache Elem) (sequenceId : Int) : Option (List Nat) :=
  if !cache.known sequenceId then none else some (cache.sequence sequenceId).blocks

def freeBlockCount (cache : PagedKVCache Elem) : Nat := cache.freeBlocks.length

def takeBlock (cache : PagedKVCache Elem) (sequenceId : Int) : PagedKVCache Elem :=
  let block := cache.freeBlocks.getLastD 0
  { cache with
    freeBlocks := cache.freeBlocks.dropLast
    blockUsed := fun b => if b = block then true else cache.blockUsed b
    sequences := cache.sequences.modify sequenceId.toNat fun seq =>
      { seq with blocks := seq.blocks ++ [block] } }

def neededBlocks (cache : PagedKVCache Elem) (totalTokens : Int) : Int :=
  if totalTokens = 0 then 0 else ceilDivInt totalTokens cache.blockSize

def reserveSequence (cache : PagedKVCache Elem) (sequenceId totalTokens : Int) :
    Status × PagedKVCache Elem :=
  let (st, cache) := cache.ensureSequence sequenceId
  if !st.isOk then (st, cache)
  else if totalTokens < 0 then
    (.invalidArgument "total_tokens must be non-negative", cache)
  else
    let neededBlocks := cache.neededBlocks totalTokens
    let currentBlocks : Int := (cache.sequence sequenceId).blocks.length
    if neededBlocks ≤ currentBlocks then (.makeOk, cache)
    else
      let toAllocate := neededBlocks - currentBlocks
      if toAllocate > cache.freeBlocks.length then
        (.outOfRange "PagedKVCache does not have enough free blocks", cache)
      else (.makeOk, loop toAllocate.toNat (fun _ c => c.takeBlock sequenceId) cache)

def setSequenceLength (cache : PagedKVCache Elem) (sequenceId length : Int) :
    Status × PagedKVCache Elem :=
  if length < 0 then (.invalidArgument "sequence length must be non-negative", cache)
  else
    let (st, cache) := cache.reserveSequence sequenceId length
    if !st.isOk then (st, cache)
    else (.makeOk, cache.modifySequence sequenceId fun seq => { seq with length := length })

def physicalBlockForPosition (cache : PagedKVCache Elem) (sequenceId tokenPos : Int) :
    Except Status Nat :=
  if !cache.known sequenceId then .error (.notFound "sequence not found in PagedKVCache")
  else if tokenPos < 0 then .error (.outOfRange "token position must be non-negative")
  else
    let logicalBlock := tokenPos.toNat / cache.blockSize
    match (cache.sequence sequenceId).blocks[logicalBlock]? with
    | none => .error (.outOfRange "token position outside block table")
    | some block => .ok block

-- Index of the first float of a token's row; the pointer is storage + index.
def rowIndex (cache : PagedKVCache Elem) (block : Nat) (tokenPos : Int) : Nat :=
  block * cache.blockStride + tokenPos.toNat % cache.blockSize * cache.kvHidden

def mutableTokenPtr (cache : PagedKVCache Elem) (sequenceId layer tokenPos : Int) :
    Except Status Nat :=
  if layer < 0 ∨ layer ≥ cache.numLayers then
    .error (.outOfRange "layer index out of range")
  else
    match cache.physicalBlockForPosition sequenceId tokenPos with
    | .error st => .error st
    | .ok block => .ok (cache.rowIndex block tokenPos)

def storage (cache : PagedKVCache Elem) [Zero Elem] (key : Bool) (layer : Int) : Buffer Elem :=
  let data := cache.layers.getD layer.toNat zeroLayer
  if key then data.k else data.v

/-- A `const float*` is the buffer of the floats at and after its address. -/
def tokenPtr [Zero Elem] (cache : PagedKVCache Elem) (key : Bool)
    (sequenceId layer tokenPos kvHead : Int) : Except Status (Buffer Elem) :=
  if layer < 0 ∨ layer ≥ cache.numLayers then
    .error (.outOfRange "layer index out of range")
  else if kvHead < 0 ∨ kvHead ≥ cache.numKvHeads then
    .error (.outOfRange "KV head index out of range")
  else if tokenPos < 0 ∨ tokenPos ≥ cache.sequenceLength sequenceId then
    .error (.outOfRange "token position outside sequence length")
  else
    match cache.physicalBlockForPosition sequenceId tokenPos with
    | .error st => .error st
    | .ok block =>
        let index := cache.rowIndex block tokenPos + kvHead.toNat * cache.headDim
        .ok fun d => cache.storage key layer (index + d)

def keyPtr [Zero Elem] (cache : PagedKVCache Elem) (sequenceId layer tokenPos kvHead : Int) :=
  cache.tokenPtr true sequenceId layer tokenPos kvHead

def valuePtr [Zero Elem] (cache : PagedKVCache Elem) (sequenceId layer tokenPos kvHead : Int) :=
  cache.tokenPtr false sequenceId layer tokenPos kvHead

def writeRow (sequenceId layer startPos : Int) (k v : Buffer Elem) (t : Nat)
    (cache : PagedKVCache Elem) : Option Status × PagedKVCache Elem :=
  let pos := wrap32 (startPos + t)
  match cache.mutableTokenPtr sequenceId layer pos with
  | .error st => (some st, cache)
  | .ok dstK =>
    match cache.mutableTokenPtr sequenceId layer pos with
    | .error st => (some st, cache)
    | .ok dstV =>
      let rowFloats := cache.kvHidden
      (none,
        { cache with
          layers := cache.layers.modify layer.toNat fun data =>
            { k := copyFloats rowFloats data.k dstK fun j => k (t * rowFloats + j)
              v := copyFloats rowFloats data.v dstV fun j => v (t * rowFloats + j) } })

/-- `k` and `v` are pointers, null when `none`. -/
def writeTokens (cache : PagedKVCache Elem) (sequenceId layer startPos : Int)
    (k v : Option (Buffer Elem)) (tokenCount : Int) : Status × PagedKVCache Elem :=
  match k, v with
  | some k, some v =>
    if startPos < 0 ∨ tokenCount < 0 then
      (.invalidArgument "start_pos and token_count must be non-negative", cache)
    else if layer < 0 ∨ layer ≥ cache.numLayers then
      (.outOfRange "layer index out of range", cache)
    else if tokenCount = 0 then (.makeOk, cache)
    else
      let endPos := wrap32 (startPos + tokenCount)
      let (st, cache) := cache.reserveSequence sequenceId endPos
      if !st.isOk then (st, cache)
      else
        match loopTry tokenCount.toNat (writeRow sequenceId layer startPos k v) cache with
        | (some st, cache) => (st, cache)
        | (none, cache) =>
          (.makeOk, cache.modifySequence sequenceId fun seq =>
            { seq with length := max seq.length endPos })
  | _, _ => (.invalidArgument "write_tokens requires non-null K/V", cache)

def appendTokens (cache : PagedKVCache Elem) (sequenceId layer : Int)
    (k v : Option (Buffer Elem)) (tokenCount : Int) : Status × PagedKVCache Elem :=
  cache.writeTokens sequenceId layer (cache.sequenceLength sequenceId) k v tokenCount

inductive Op (Elem : Type) where
  | init (numLayers numKvHeads headDim blockSize maxBlocks : Int)
  | reset
  | ensureSequence (sequenceId : Int)
  | reserveSequence (sequenceId totalTokens : Int)
  | setSequenceLength (sequenceId length : Int)
  | writeTokens (sequenceId layer startPos : Int) (k v : Option (Buffer Elem)) (tokenCount : Int)
  | appendTokens (sequenceId layer : Int) (k v : Option (Buffer Elem)) (tokenCount : Int)
  | freeSequence (sequenceId : Int)

def apply [Zero Elem] (cache : PagedKVCache Elem) : Op Elem → Status × PagedKVCache Elem
  | .init layers heads dim size blocks => cache.init layers heads dim size blocks
  | .reset => (.makeOk, cache.reset)
  | .ensureSequence id => cache.ensureSequence id
  | .reserveSequence id total => cache.reserveSequence id total
  | .setSequenceLength id length => cache.setSequenceLength id length
  | .writeTokens id layer start k v count => cache.writeTokens id layer start k v count
  | .appendTokens id layer k v count => cache.appendTokens id layer k v count
  | .freeSequence id => cache.freeSequence id

/-- A cache that the call makes has rows whose floats an `int` counts and storage
whose floats a `size_t` counts. -/
def Op.Bounded : Op Elem → Prop
  | .init layers heads dim size blocks =>
      0 < layers ∧ 0 < heads ∧ 0 < dim ∧ 0 < size ∧ 0 < blocks →
        heads * dim < 2147483648 ∧ blocks * (size * (heads * dim)) < 18446744073709551616
  | _ => True

instance : (op : Op Elem) → Decidable op.Bounded
  | .init _ _ _ _ _ => inferInstanceAs (Decidable (_ → _))
  | .reset | .ensureSequence _ | .reserveSequence _ _ | .setSequenceLength _ _
  | .writeTokens _ _ _ _ _ _ | .appendTokens _ _ _ _ _ | .freeSequence _ =>
      inferInstanceAs (Decidable True)

/-- One call, its status dropped: a call that fails is a step too. -/
def step [Zero Elem] (cache : PagedKVCache Elem) (op : Op Elem) : PagedKVCache Elem :=
  (cache.apply op).2

/-- The state after a run of calls on a default-constructed cache. -/
def runs [Zero Elem] (ops : List (Op Elem)) : PagedKVCache Elem := Machine.run step {} ops

/-! One lemma for each operation says everything it can do; the proofs about runs
use these and never unfold the operations again. -/

section Cases

theorem ensureSequence_failed (cache : PagedKVCache Elem) (sequenceId : Int)
    (bad : (cache.ensureSequence sequenceId).1.isOk = false) :
    (cache.ensureSequence sequenceId).2 = cache := by
  unfold ensureSequence at bad ⊢
  split
  · rfl
  · split
    · rfl
    · simp_all

theorem ensureSequence_ok (cache : PagedKVCache Elem) (sequenceId : Int)
    (fine : (cache.ensureSequence sequenceId).1.isOk = true) :
    cache.initialized = true ∧ 0 ≤ sequenceId ∧
      sequenceId.toNat < (cache.ensureSequence sequenceId).2.sequences.length := by
  unfold ensureSequence at fine ⊢
  split
  · simp_all
  · split
    · simp_all
    · simp_all
      omega

theorem ensureSequence_succeeds (cache : PagedKVCache Elem) (sequenceId : Int)
    (ready : cache.initialized = true) (low : 0 ≤ sequenceId) :
    (cache.ensureSequence sequenceId).1 = .makeOk := by
  simp [ensureSequence, ready, Int.not_lt.mpr low]

/-- Ensuring a sequence only appends empty sequences. -/
theorem ensureSequence_frame (cache : PagedKVCache Elem) (sequenceId : Int) :
    ∃ count, (cache.ensureSequence sequenceId).2 =
      { cache with sequences := cache.sequences ++ List.replicate count {} } := by
  unfold ensureSequence
  split
  · exact ⟨0, by simp⟩
  · split
    · exact ⟨0, by simp⟩
    · exact ⟨_, rfl⟩

-- Blocks a reservation of `totalTokens` asks for beyond the sequence's own.
def missingBlocks (cache : PagedKVCache Elem) (sequenceId totalTokens : Int) : Int :=
  cache.neededBlocks totalTokens - (cache.sequence sequenceId).blocks.length

def takeBlocks (cache : PagedKVCache Elem) (sequenceId : Int) (n : Nat) : PagedKVCache Elem :=
  loop n (fun _ c => c.takeBlock sequenceId) cache

theorem sequence_append_empty (cache : PagedKVCache Elem) (sequenceId : Int) (count : Nat) :
    sequence { cache with sequences := cache.sequences ++ List.replicate count {} } sequenceId =
      cache.sequence sequenceId := by
  simp only [sequence, List.getD_eq_getElem?_getD, List.getElem?_append]
  split
  · rfl
  · next beyond =>
      rw [List.getElem?_eq_none (by omega : cache.sequences.length ≤ sequenceId.toNat)]
      simp [List.getElem?_replicate]
      split <;> rfl

theorem ensureSequence_sequence (cache : PagedKVCache Elem) (sequenceId other : Int) :
    (cache.ensureSequence sequenceId).2.sequence other = cache.sequence other := by
  obtain ⟨count, same⟩ := ensureSequence_frame cache sequenceId
  rw [same, sequence_append_empty]

theorem ensureSequence_missing (cache : PagedKVCache Elem) (sequenceId other total : Int) :
    (cache.ensureSequence sequenceId).2.missingBlocks other total =
      cache.missingBlocks other total := by
  obtain ⟨count, same⟩ := ensureSequence_frame cache sequenceId
  simp only [missingBlocks, ensureSequence_sequence, neededBlocks]
  rw [same]

/-- The tail of a reservation, once the sequence exists and the total is fine. -/
theorem reserveSequence_eq (cache : PagedKVCache Elem) (sequenceId totalTokens : Int)
    (ensured : (cache.ensureSequence sequenceId).1.isOk = true) (nonneg : 0 ≤ totalTokens) :
    cache.reserveSequence sequenceId totalTokens =
      if cache.missingBlocks sequenceId totalTokens ≤ cache.freeBlocks.length then
        (.makeOk, (cache.ensureSequence sequenceId).2.takeBlocks sequenceId
          (cache.missingBlocks sequenceId totalTokens).toNat)
      else (.outOfRange "PagedKVCache does not have enough free blocks",
        (cache.ensureSequence sequenceId).2) := by
  have missing := ensureSequence_missing cache sequenceId sequenceId totalTokens
  have free : (cache.ensureSequence sequenceId).2.freeBlocks = cache.freeBlocks := by
    obtain ⟨count, same⟩ := ensureSequence_frame cache sequenceId
    rw [same]
  rw [← missing, ← free]
  unfold reserveSequence
  generalize cache.ensureSequence sequenceId = ensure at ensured
  obtain ⟨st, c⟩ := ensure
  simp only at ensured
  simp only [ensured, Bool.not_true, Bool.false_eq_true, if_false, Int.not_lt.mpr nonneg]
  have length : c.missingBlocks sequenceId totalTokens =
      c.neededBlocks totalTokens - (c.sequence sequenceId).blocks.length := rfl
  by_cases enough : c.neededBlocks totalTokens ≤ (c.sequence sequenceId).blocks.length
  · have none : (c.missingBlocks sequenceId totalTokens).toNat = 0 :=
      Int.toNat_of_nonpos (by omega)
    rw [if_pos enough, if_pos (by omega), none]
    rfl
  · by_cases fits : c.missingBlocks sequenceId totalTokens ≤ c.freeBlocks.length
    · rw [if_neg enough, if_pos fits, if_neg (by omega)]
      rfl
    · rw [if_neg enough, if_neg fits, if_pos (by omega)]

/-- A reservation that succeeds takes exactly the missing blocks. -/
theorem reserveSequence_ok (cache : PagedKVCache Elem) (sequenceId totalTokens : Int)
    (fine : (cache.reserveSequence sequenceId totalTokens).1.isOk = true) :
    (cache.ensureSequence sequenceId).1.isOk = true ∧ 0 ≤ totalTokens ∧
      cache.missingBlocks sequenceId totalTokens ≤ cache.freeBlocks.length ∧
      (cache.reserveSequence sequenceId totalTokens).2 =
        (cache.ensureSequence sequenceId).2.takeBlocks sequenceId
          (cache.missingBlocks sequenceId totalTokens).toNat := by
  by_cases ensured : (cache.ensureSequence sequenceId).1.isOk = true
  · by_cases nonneg : 0 ≤ totalTokens
    · rw [reserveSequence_eq cache sequenceId totalTokens ensured nonneg] at fine ⊢
      split at fine
      · next fits => exact ⟨ensured, nonneg, fits, by rw [if_pos fits]⟩
      · simp at fine
    · simp [reserveSequence, ensured, Int.not_le.mp nonneg] at fine
  · simp [reserveSequence, ensured] at fine

/-- A reservation fails on an unusable id or cache, on a negative total, or for
lack of free blocks; it has then at most appended empty sequences. -/
theorem reserveSequence_failed (cache : PagedKVCache Elem) (sequenceId totalTokens : Int)
    (bad : (cache.reserveSequence sequenceId totalTokens).1.isOk = false) :
    (cache.reserveSequence sequenceId totalTokens).2 = (cache.ensureSequence sequenceId).2 := by
  by_cases ensured : (cache.ensureSequence sequenceId).1.isOk = true
  · by_cases nonneg : 0 ≤ totalTokens
    · rw [reserveSequence_eq cache sequenceId totalTokens ensured nonneg] at bad ⊢
      split at bad
      · simp at bad
      · next short => rw [if_neg short]
    · simp [reserveSequence, ensured, Int.not_le.mp nonneg]
  · simp [reserveSequence, ensured]

theorem reserveSequence_succeeds (cache : PagedKVCache Elem) (sequenceId totalTokens : Int)
    (ready : cache.initialized = true) (low : 0 ≤ sequenceId) (nonneg : 0 ≤ totalTokens)
    (room : cache.missingBlocks sequenceId totalTokens ≤ cache.freeBlocks.length) :
    (cache.reserveSequence sequenceId totalTokens).1 = .makeOk := by
  have ensured := ensureSequence_succeeds cache sequenceId ready low
  rw [reserveSequence_eq cache sequenceId totalTokens (by simp [ensured]) nonneg, if_pos room]

/-- A length is refused, its reservation fails, or it is set behind the reservation. -/
theorem setSequenceLength_cases (cache : PagedKVCache Elem) (sequenceId length : Int) :
    (length < 0 ∧ (cache.setSequenceLength sequenceId length).1.isOk = false ∧
        (cache.setSequenceLength sequenceId length).2 = cache) ∨
      (0 ≤ length ∧ (cache.reserveSequence sequenceId length).1.isOk = false ∧
        cache.setSequenceLength sequenceId length = cache.reserveSequence sequenceId length) ∨
      (0 ≤ length ∧ (cache.reserveSequence sequenceId length).1.isOk = true ∧
        cache.setSequenceLength sequenceId length =
          (.makeOk, (cache.reserveSequence sequenceId length).2.modifySequence sequenceId
            fun seq => { seq with length := length })) := by
  unfold setSequenceLength
  by_cases negative : length < 0
  · exact Or.inl ⟨negative, by simp [negative], by simp [negative]⟩
  · cases fine : (cache.reserveSequence sequenceId length).1.isOk with
    | false => exact Or.inr (Or.inl ⟨by omega, rfl, by simp [negative, fine]⟩)
    | true => exact Or.inr (Or.inr ⟨by omega, rfl, by simp [negative, fine]⟩)

def writeRows (cache : PagedKVCache Elem) (sequenceId layer startPos : Int) (k v : Buffer Elem)
    (count : Nat) : Option Status × PagedKVCache Elem :=
  loopTry count (writeRow sequenceId layer startPos k v) cache

/-- What `write_tokens` does once its arguments are accepted. -/
inductive Writes (cache : PagedKVCache Elem) (sequenceId layer startPos : Int)
    (k v : Buffer Elem) (tokenCount : Int) : Status × PagedKVCache Elem → Prop where
  | noBlocks :
      (cache.reserveSequence sequenceId (wrap32 (startPos + tokenCount))).1.isOk = false →
      Writes cache sequenceId layer startPos k v tokenCount
        (cache.reserveSequence sequenceId (wrap32 (startPos + tokenCount)))
  | stopped (st : Status) (after : PagedKVCache Elem) :
      (cache.reserveSequence sequenceId (wrap32 (startPos + tokenCount))).1.isOk = true →
      (cache.reserveSequence sequenceId (wrap32 (startPos + tokenCount))).2.writeRows
        sequenceId layer startPos k v tokenCount.toNat = (some st, after) →
      Writes cache sequenceId layer startPos k v tokenCount (st, after)
  | written (after : PagedKVCache Elem) :
      (cache.reserveSequence sequenceId (wrap32 (startPos + tokenCount))).1.isOk = true →
      (cache.reserveSequence sequenceId (wrap32 (startPos + tokenCount))).2.writeRows
        sequenceId layer startPos k v tokenCount.toNat = (none, after) →
      Writes cache sequenceId layer startPos k v tokenCount
        (.makeOk, after.modifySequence sequenceId fun seq =>
          { seq with length := max seq.length (wrap32 (startPos + tokenCount)) })

/-- The arguments `write_tokens` accepts and has something to write for. -/
def Accepts (cache : PagedKVCache Elem) (layer startPos tokenCount : Int) : Prop :=
  0 ≤ startPos ∧ 0 < tokenCount ∧ 0 ≤ layer ∧ layer < cache.numLayers

theorem writeTokens_refused (cache : PagedKVCache Elem) (sequenceId layer startPos : Int)
    (k v : Option (Buffer Elem)) (tokenCount : Int)
    (refused : ¬ (k.isSome = true ∧ v.isSome = true ∧ cache.Accepts layer startPos tokenCount)) :
    (cache.writeTokens sequenceId layer startPos k v tokenCount).2 = cache ∧
      ((cache.writeTokens sequenceId layer startPos k v tokenCount).1.isOk = true →
        tokenCount = 0) := by
  cases k with
  | none => exact ⟨by simp [writeTokens], by simp [writeTokens]⟩
  | some kb =>
    cases v with
    | none => exact ⟨by simp [writeTokens], by simp [writeTokens]⟩
    | some vb =>
      by_cases negative : startPos < 0 ∨ tokenCount < 0
      · exact ⟨by simp [writeTokens, negative], by simp [writeTokens, negative]⟩
      by_cases outside : layer < 0 ∨ layer ≥ cache.numLayers
      · exact ⟨by simp [writeTokens, negative, outside],
          by simp [writeTokens, negative, outside]⟩
      by_cases empty : tokenCount = 0
      · exact ⟨by simp [writeTokens, outside, empty, show ¬ startPos < 0 by omega],
          fun _ => empty⟩
      exact absurd ⟨rfl, rfl, by omega, by omega, by omega, by omega⟩ refused

theorem writeTokens_accepted (cache : PagedKVCache Elem) (sequenceId layer startPos : Int)
    (k v : Buffer Elem) (tokenCount : Int) (accepts : cache.Accepts layer startPos tokenCount) :
    cache.Writes sequenceId layer startPos k v tokenCount
      (cache.writeTokens sequenceId layer startPos (some k) (some v) tokenCount) := by
  obtain ⟨nonneg, positive, low, high⟩ := accepts
  have negative : ¬ (startPos < 0 ∨ tokenCount < 0) := by omega
  have outside : ¬ (layer < 0 ∨ layer ≥ cache.numLayers) := by omega
  have empty : tokenCount ≠ 0 := by omega
  simp only [writeTokens, negative, outside, empty, if_false]
  generalize reserved :
    cache.reserveSequence sequenceId (wrap32 (startPos + tokenCount)) = result
  obtain ⟨st, base⟩ := result
  by_cases fine : st.isOk = true
  · simp only [fine, Bool.not_true, Bool.false_eq_true, if_false]
    generalize wrote :
      loopTry tokenCount.toNat (writeRow sequenceId layer startPos k v) base = rows
    obtain ⟨err, after⟩ := rows
    cases err with
    | some err => exact .stopped err after (by rw [reserved]; exact fine) (by rw [reserved]; exact wrote)
    | none => exact .written after (by rw [reserved]; exact fine) (by rw [reserved]; exact wrote)
  · have bad : st.isOk = false := by simpa using fine
    simp only [bad, Bool.not_false, if_true]
    have failed : cache.Writes sequenceId layer startPos k v tokenCount
        (cache.reserveSequence sequenceId (wrap32 (startPos + tokenCount))) :=
      .noBlocks (by rw [reserved]; exact bad)
    rwa [reserved] at failed

theorem writeTokens_cases (cache : PagedKVCache Elem) (sequenceId layer startPos : Int)
    (k v : Option (Buffer Elem)) (tokenCount : Int) :
    (cache.writeTokens sequenceId layer startPos k v tokenCount).2 = cache ∧
        ((cache.writeTokens sequenceId layer startPos k v tokenCount).1.isOk = true →
          tokenCount = 0) ∨
      ∃ kb vb, k = some kb ∧ v = some vb ∧ cache.Accepts layer startPos tokenCount ∧
        cache.Writes sequenceId layer startPos kb vb tokenCount
          (cache.writeTokens sequenceId layer startPos k v tokenCount) := by
  by_cases accepts : k.isSome = true ∧ v.isSome = true ∧ cache.Accepts layer startPos tokenCount
  · obtain ⟨hasK, hasV, fits⟩ := accepts
    obtain ⟨kb, rfl⟩ := Option.isSome_iff_exists.mp hasK
    obtain ⟨vb, rfl⟩ := Option.isSome_iff_exists.mp hasV
    exact Or.inr ⟨kb, vb, rfl, rfl, fits,
      writeTokens_accepted cache sequenceId layer startPos kb vb tokenCount fits⟩
  · exact Or.inl (writeTokens_refused cache sequenceId layer startPos k v tokenCount accepts)

/-- A row write, failed or not, changes the storage only. -/
theorem writeRow_frame (cache : PagedKVCache Elem) (sequenceId layer startPos : Int)
    (k v : Buffer Elem) (t : Nat) :
    (writeRow sequenceId layer startPos k v t cache).2 =
      { cache with layers := (writeRow sequenceId layer startPos k v t cache).2.layers } := by
  unfold writeRow
  dsimp only
  split
  · rfl
  · split <;> rfl

theorem writeRows_frame (cache : PagedKVCache Elem) (sequenceId layer startPos : Int)
    (k v : Buffer Elem) (count : Nat) :
    (cache.writeRows sequenceId layer startPos k v count).2 =
      { cache with layers := (cache.writeRows sequenceId layer startPos k v count).2.layers } := by
  refine loopTry_preserves (fun after => after = { cache with layers := after.layers })
    count (writeRow sequenceId layer startPos k v) cache rfl ?_
  intro i state _ frame
  rw [writeRow_frame state sequenceId layer startPos k v i, frame]

end Cases

end PagedKVCache

end MiniLLM
