import MiniLLM.SequenceCapacity

/-!
runtime/cache/paged_attention_scheduler.cpp over the paged cache it refers to. The
scheduler keeps a list of active ids; the cache may take any call of its own
between two calls of the scheduler, so the list is checked again when a batch is
built.
-/

namespace MiniLLM

open Loops

structure PagedAttentionBatch where
  sequenceIds : List Int := []
  sequenceLengths : List Int := []
  blockTables : List Int := []
  batchSize : Int := 0
  maxBlocksPerSequence : Int := 0
  blockSize : Int := 0
  numKvHeads : Int := 0
  headDim : Int := 0
  deriving DecidableEq, Repr

structure PagedAttentionScheduler (Elem : Type) where
  cache : PagedKVCache Elem
  maxBatchSize : Int
  activeSequenceIds : List Int := []

namespace PagedAttentionScheduler

variable {Elem : Type}

def blocksForLength (length blockSize : Int) : Int :=
  Int.tdiv (wrap32 (wrap32 (length + blockSize) - 1)) blockSize

def isActive (s : PagedAttentionScheduler Elem) (sequenceId : Int) : Bool :=
  s.activeSequenceIds.contains sequenceId

def addSequence (s : PagedAttentionScheduler Elem) (sequenceId : Int) :
    Status × PagedAttentionScheduler Elem :=
  if s.maxBatchSize ≤ 0 then
    (.invalidArgument "PagedAttentionScheduler max_batch_size must be positive", s)
  else if sequenceId < 0 then
    (.invalidArgument "sequence_id must be non-negative", s)
  else if !s.cache.hasSequence sequenceId ∨ s.cache.sequenceLength sequenceId ≤ 0 then
    (.notFound ("sequence " ++ toString sequenceId ++ " is not present in PagedKVCache"), s)
  else if s.isActive sequenceId then (.makeOk, s)
  else if s.activeSequenceIds.length ≥ s.maxBatchSize then
    (.outOfRange "PagedAttentionScheduler active batch is full", s)
  else (.makeOk, { s with activeSequenceIds := s.activeSequenceIds ++ [sequenceId] })

def removeSequence (s : PagedAttentionScheduler Elem) (sequenceId : Int) :
    Status × PagedAttentionScheduler Elem :=
  (.makeOk, { s with activeSequenceIds := s.activeSequenceIds.erase sequenceId })

def clear (s : PagedAttentionScheduler Elem) : PagedAttentionScheduler Elem :=
  { s with activeSequenceIds := [] }

-- The first loop of `build_batch`: one active id joins the batch.
def collect (cache : PagedKVCache Elem) (sequenceId : Int) (batch : PagedAttentionBatch) :
    Option Status × PagedAttentionBatch :=
  let length := cache.sequenceLength sequenceId
  match cache.blockTable sequenceId with
  | none => (some (.notFound ("active sequence " ++ toString sequenceId ++
      " is missing from PagedKVCache")), batch)
  | some table =>
      if length ≤ 0 then
        (some (.notFound ("active sequence " ++ toString sequenceId ++
          " is missing from PagedKVCache")), batch)
      else
        let batch := { batch with sequenceLengths := batch.sequenceLengths ++ [length] }
        let neededBlocks := blocksForLength length batch.blockSize
        if table.length < neededBlocks then
          (some (.internalError ("active sequence " ++ toString sequenceId ++
            " has a shorter block table than its length requires")), batch)
        else (none, { batch with
          maxBlocksPerSequence := max batch.maxBlocksPerSequence neededBlocks })

-- The second loop: row by row, the tables over a matrix of -1.
def fillTables (cache : PagedKVCache Elem) (batch : PagedAttentionBatch) : List Int :=
  loop batch.batchSize.toNat (fun b tables =>
      let sequenceId := batch.sequenceIds.getD b 0
      let table := (cache.blockTable sequenceId).getD []
      let neededBlocks := blocksForLength (batch.sequenceLengths.getD b 0) batch.blockSize
      loop neededBlocks.toNat (fun i tables =>
        tables.set (b * batch.maxBlocksPerSequence.toNat + i) (table.getD i 0)) tables)
    (List.replicate (batch.batchSize.toNat * batch.maxBlocksPerSequence.toNat) (-1))

def buildBatch (s : PagedAttentionScheduler Elem) : Except Status PagedAttentionBatch :=
  if s.activeSequenceIds.isEmpty then
    .error (.invalidArgument "PagedAttentionScheduler cannot build an empty batch")
  else if s.activeSequenceIds.length > s.maxBatchSize then
    .error (.internalError "PagedAttentionScheduler active batch exceeds max_batch_size")
  else
    let batch : PagedAttentionBatch := {
      batchSize := s.activeSequenceIds.length
      blockSize := s.cache.blockSize
      numKvHeads := s.cache.numKvHeads
      headDim := s.cache.headDim
      sequenceIds := s.activeSequenceIds }
    match tryList (collect s.cache) s.activeSequenceIds batch with
    | (some st, _) => .error st
    | (none, batch) =>
        if batch.maxBlocksPerSequence ≤ 0 then
          .error (.runtimeError "PagedAttentionScheduler active sequences have no blocks")
        else .ok { batch with blockTables := fillTables s.cache batch }

inductive Op (Elem : Type) where
  | cacheCall (op : PagedKVCache.Op Elem)
  | addSequence (sequenceId : Int)
  | removeSequence (sequenceId : Int)
  | clear

def step [Zero Elem] (s : PagedAttentionScheduler Elem) : Op Elem → PagedAttentionScheduler Elem
  | .cacheCall op => { s with cache := s.cache.step op }
  | .addSequence id => (s.addSequence id).2
  | .removeSequence id => (s.removeSequence id).2
  | .clear => s.clear

/-- A run of calls on a fresh cache and a scheduler constructed over it. -/
def runs [Zero Elem] (maxBatchSize : Int) (ops : List (Op Elem)) : PagedAttentionScheduler Elem :=
  Machine.run step { cache := {}, maxBatchSize := maxBatchSize } ops

end PagedAttentionScheduler

end MiniLLM
