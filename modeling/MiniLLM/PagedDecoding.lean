import MiniLLM.BlockRoom
import MiniLLM.DecoderRuns

/-!
Runs of a decoder on a paged cache that other sequences share. A run of the next tokens
of a sequence succeeds exactly if the pool has the blocks for all of them; it then computes
their logits and leaves their rows in every layer behind the sequence's own. Whatever
becomes of it, the lengths, tables and rows of the other sequences stay.
-/

namespace MiniLLM

open Loops Strides Cpu CpuKernelAdapter RowStream Softmax PagedKVCache
open scoped List

variable {α : Type} [Field α] [LinearOrder α]

namespace Decoder

/-- The map holds the decoder's first `len` rows of a layer for the sequence. -/
def RowsOf (dec : Decoder α) (map : RowMap α) (seqId : Int) (layer len : Nat) : Prop :=
  ∀ pos < len, ∃ rows, map.row seqId layer pos = some rows ∧ ∀ c < dec.nkv * dec.hd,
    rows.1 c = dec.layerKeys layer pos c ∧ rows.2 c = dec.layerValues layer pos c

/-- The cache was made for the decoder. -/
structure Pool (dec : Decoder α) (paged : PagedKVCache α) : Prop where
  ready : paged.initialized = true
  heads : paged.numKvHeads = dec.nkv
  headDim : paged.headDim = dec.hd
  layers : dec.numLayers ≤ paged.numLayers

/-- What work on a sequence leaves to the others: their lengths, tables and rows. -/
structure Beside (before : PagedKVCache α) (base : RowMap α) (seqId : Int)
    (after : PagedKVCache α) (map : RowMap α) : Prop where
  shape : SameShape before after
  refined : after.Refines map
  tables : ∀ id, (before.sequence id).blocks <+: (after.sequence id).blocks
  lengths : ∀ id, id ≠ seqId → map.length id = base.length id
  frame : ∀ id l pos, id ≠ seqId → map.row id l pos = base.row id l pos

/-- A run on its way on a shared cache: the layers that have run hold its rows. -/
structure Writing (dec : Decoder α) (start n : Nat) (before : PagedKVCache α) (base : RowMap α)
    (seqId : Int) (layers : List Int) (ctx : RuntimeContext α) (paged : PagedKVCache α)
    (map : RowMap α) : Prop extends Beside before base seqId paged map where
  mode : PagedMode ctx paged
  sequence : ctx.pagedSequenceId = seqId
  position : pagedPosition ctx paged = start
  idle : ctx.kvCacheAdvanceTokens ≤ 0
  short : paged.shortage seqId (start + n) = before.shortage seqId (start + n)
  room : layers ≠ [] → before.shortage seqId (start + n) ≤ 0
  length : map.length seqId = if layers = [] then (start : Int) else start + n
  rows : ∀ layer < dec.numLayers, dec.RowsOf map seqId layer start
  stored : ∀ layer < dec.numLayers, (layer : Int) ∈ layers →
    dec.RowsOf map seqId layer (start + n)

section Others

variable {before cache after : PagedKVCache α} {base map next : RowMap α} {seqId : Int}

omit [LinearOrder α] in
theorem Beside.refl (refined : cache.Refines map) : Beside cache map seqId cache map :=
  ⟨SameShape.refl cache, refined, fun _ => List.prefix_refl _, fun _ _ => rfl, fun _ _ _ _ => rfl⟩

omit [LinearOrder α] in
theorem Beside.trans (first : Beside before base seqId cache map)
    (second : Beside cache map seqId after next) : Beside before base seqId after next :=
  ⟨first.shape.trans second.shape, second.refined,
    fun id => (first.tables id).trans (second.tables id),
    fun id apart => (second.lengths id apart).trans (first.lengths id apart),
    fun id l pos apart => (second.frame id l pos apart).trans (first.frame id l pos apart)⟩

omit [LinearOrder α] in
/-- Rows of the sequence, also those that a failed write loop has stored. -/
theorem Beside.write (beside : Beside before base seqId cache map) {layer start : Int}
    {k v : Buffer α} {count : Nat} (shape : SameShape cache after)
    (held : after.Refines (map.write seqId layer start (some k) (some v) count))
    (tables : ∀ id, (cache.sequence id).blocks <+: (after.sequence id).blocks) :
    Beside before base seqId after (map.write seqId layer start (some k) (some v) count) := by
  refine beside.trans ⟨shape, held, tables, fun id apart => ?_, fun id l pos apart => ?_⟩
  · rw [RowMap.write_length, if_neg fun same => apart same.1]
  · exact RowMap.write_untouched _ _ _ fun same => apart same.1.symm

end Others

section Rows

variable {dec : Decoder α} {map : RowMap α} {seqId : Int} {start n layer : Nat}
  {q k v output : Tensor α}

omit [LinearOrder α] in
theorem RowsOf.filled {len : Nat} (rows : dec.RowsOf map seqId layer len) :
    Filled map seqId layer len := by
  intro pos low high
  obtain ⟨at_, rfl⟩ := Int.eq_ofNat_of_zero_le low
  obtain ⟨row, found, _⟩ := rows at_ (by omega)
  exact Option.isSome_iff_exists.mpr ⟨row, found⟩

omit [LinearOrder α] in
theorem RowsOf.congr {other : RowMap α} {len : Nat} (rows : dec.RowsOf map seqId layer len)
    (same : ∀ pos : Int, other.row seqId layer pos = map.row seqId layer pos) :
    dec.RowsOf other seqId layer len := by
  intro pos below
  rw [same]
  exact rows pos below

omit [LinearOrder α] in
/-- The rows of a layer are what the streams of attention read. -/
theorem RowsOf.read {len pos : Nat} (rows : dec.RowsOf map seqId layer len) (below : pos < len)
    {c : Nat} (inside : c < dec.nkv * dec.hd) :
    keyRows map seqId layer pos c = dec.layerKeys layer pos c ∧
      valueRows map seqId layer pos c = dec.layerValues layer pos c := by
  obtain ⟨row, found, same⟩ := rows pos below
  simp only [keyRows, valueRows, found, Option.getD_some]
  exact same c inside

omit [LinearOrder α] in
/-- The chunk of a layer, written behind its rows. -/
theorem RowsOf.chunk (rows : dec.RowsOf map seqId layer start)
    (width : map.width = dec.nkv * dec.hd)
    (chunkK : IsChunk k n (dec.nkv * dec.hd) fun s => dec.layerKeys layer (start + s))
    (chunkV : IsChunk v n (dec.nkv * dec.hd) fun s => dec.layerValues layer (start + s)) :
    dec.RowsOf
      (chunkWritten map (chunkArgs dec.nh dec.nkv dec.hd layer true n q k v output) seqId start n)
      seqId layer (start + n) := by
  intro pos below
  simp only [chunkWritten, RowMap.write_row, RowMap.written, chunkArgs, true_and]
  by_cases old : pos < start
  · rw [if_neg (by omega)]
    exact rows pos old
  · obtain ⟨s, rfl⟩ := Nat.exists_eq_add_of_le (not_lt.mp old)
    rw [if_pos (by omega), show ((start + s : Nat) - start : Int).toNat = s by omega, width]
    exact ⟨_, rfl, fun c inside =>
      ⟨chunkK.data s (by omega) c inside, chunkV.data s (by omega) c inside⟩⟩

omit [Field α] [LinearOrder α] in
theorem Pool.sameShape {before after : PagedKVCache α} (pool : dec.Pool before)
    (shape : SameShape before after) : dec.Pool after :=
  ⟨shape.initialized.trans pool.ready, shape.numKvHeads.trans pool.heads,
    shape.headDim.trans pool.headDim, by rw [shape.numLayers]; exact pool.layers⟩

omit [LinearOrder α] in
theorem Pool.width {cache : PagedKVCache α} (pool : dec.Pool cache) (refined : cache.Refines map) :
    map.width = dec.nkv * dec.hd := by
  rw [refined.width, kvHidden_eq refined.rowFits, pool.heads, pool.headDim]

end Rows

section Node

variable [IsStrictOrderedRing α] {dec : Decoder α} (law : ExpLaw dec.ops.exp) {start n : Nat}
  {before : PagedKVCache α} {base : RowMap α} {seqId : Int} {layers : List Int}
  {ctx : RuntimeContext α} {paged : PagedKVCache α} {map : RowMap α}

omit law [Field α] [LinearOrder α] [IsStrictOrderedRing α] in
theorem Writing.placed [Field α] {dec : Decoder α}
    (writing : dec.Writing start n before base seqId layers ctx paged map) :
    Placed ctx paged seqId start :=
  ⟨writing.mode, writing.sequence, writing.position⟩

omit [LinearOrder α] [IsStrictOrderedRing α] in
/-- The chunk of a layer in the map. -/
theorem Writing.store {layer : Nat} {q k v output : Tensor α} {cache : PagedKVCache α}
    (pool : dec.Pool before)
    (writing : dec.Writing start n before base seqId layers ctx paged map) (tokens : 0 < n)
    (int : (start : Int) < 2147483648)
    (chunkK : IsChunk k n (dec.nkv * dec.hd) fun s => dec.layerKeys layer (start + s))
    (chunkV : IsChunk v n (dec.nkv * dec.hd) fun s => dec.layerValues layer (start + s))
    (known : layer < dec.numLayers) (room : before.shortage seqId (start + n) ≤ 0)
    (wrote : cache = (pagedWrites (chunkArgs dec.nh dec.nkv dec.hd layer true n q k v output)
      seqId start paged).2)
    (held : cache.Refines (chunkWritten map
      (chunkArgs dec.nh dec.nkv dec.hd layer true n q k v output) seqId start n)) :
    dec.Writing start n before base seqId (layers ++ [(layer : Int)])
      (wroteAt ctx start cache) cache
      (chunkWritten map (chunkArgs dec.nh dec.nkv dec.hd layer true n q k v output) seqId start n) := by
  have width := (pool.sameShape writing.shape).width writing.refined
  have serving := (pagedWrites_stores
    (chunkArgs dec.nh dec.nkv dec.hd layer true n q k v output) seqId writing.mode.toServing
    (Int.natCast_nonneg start) int).1
  obtain ⟨shape, _⟩ := pagedWrites_frame
    (chunkArgs dec.nh dec.nkv dec.hd layer true n q k v output) seqId start paged
  obtain ⟨short, tables⟩ := pagedWrites_pool
    (chunkArgs dec.nh dec.nkv dec.hd layer true n q k v output) seqId start paged (start + n)
  rw [← wrote] at serving shape short tables
  have length := writing.length
  have others : ∀ id l pos : Int, ¬ (id = seqId ∧ l = layer) →
      (chunkWritten map (chunkArgs dec.nh dec.nkv dec.hd layer true n q k v output) seqId start
        n).row id l pos = map.row id l pos := by
    intro id l pos apart
    exact RowMap.write_untouched _ _ _ fun same => apart ⟨same.1.symm, same.2.1.symm⟩
  refine ⟨writing.toBeside.write shape held tables,
    ⟨serving, rfl, int⟩, writing.sequence, if_pos (Int.natCast_nonneg start), writing.idle, short.trans writing.short, fun _ => room, ?_,
    fun other below => ?_, fun other below member => ?_⟩
  · rw [chunkWritten, RowMap.write_length, if_pos ⟨rfl, tokens⟩, if_neg (by simp), length]
    split <;> omega
  · by_cases same : other = layer
    · subst same
      intro pos early
      exact (writing.rows other below).chunk width chunkK chunkV pos (by omega)
    · exact (writing.rows other below).congr fun pos => others _ _ pos (by omega)
  · by_cases same : other = layer
    · subst same
      exact (writing.rows other below).chunk width chunkK chunkV
    · have old : (other : Int) ∈ layers := by
        rcases List.mem_append.mp member with old | new
        · exact old
        · have := List.mem_singleton.mp new
          omega
      exact (writing.stored other below old).congr fun pos => others _ _ pos (by omega)

include law

/-- One attention node on the shared cache: it stores its chunk and attends over the
sequence's rows, unless the pool is short of blocks for the run. -/
theorem Writing.attends (pool : dec.Pool before) (runs : dec.Runs start n) (known : 0 ≤ seqId)
    (rounds : (start + n + before.blockSize : Int) ≤ 2147483648)
    (writing : dec.Writing start n before base seqId layers ctx paged map) {node : Node α}
    {layer : Nat} {s : RowStream α} {q k v output : Tensor α}
    (attention : AttentionNode node dec.nh dec.nkv dec.hd layer true)
    (inside : layer < dec.numLayers)
    (feeds : Feeds ctx.bindings node dec.nh dec.nkv dec.hd s (dec.layerKeys layer)
      (dec.layerValues layer) start n q k v output) :
    Ends
      (fun after => ∃ mid data, after = mid.writeData (node.outputs.getD 0 0) data ∧
        mid.bindings = ctx.bindings ∧
        (∃ cache rows, dec.Writing start n before base seqId (layers ++ [(layer : Int)]) mid cache
          rows) ∧
        WritesRows dec.ops dec.nh dec.nkv dec.hd s (dec.layerKeys layer) (dec.layerValues layer)
          start n data)
      (fun _ after => 0 < before.shortage seqId (start + n) ∧
        ∃ cache rows, PagedMode after cache ∧ Beside before base seqId cache rows)
      (kernelAttention dec.ops node ctx) := by
  have sequence := writing.sequence
  subst sequence
  have tokens := runs.tokens
  let args := chunkArgs dec.nh dec.nkv dec.hd layer true n q k v output
  have geometry : Geometry args dec.nh dec.nkv dec.hd :=
    chunkArgs_geometry _ _ _ _ _ _ _ _ _ _ attention.divides
  have here := pool.sameShape writing.shape
  have count : args.seqLen.toNat = n := Int.toNat_natCast n
  have positive := attention.positive
  have size : 0 < before.blockSize := by
    have ready := pool.ready
    simp only [initialized, Bool.and_eq_true, decide_eq_true_eq] at ready
    exact ready.1
  have fine := @pagedWrites_ok_iff _ args paged ctx.pagedSequenceId start n
    (Int.natCast_nonneg start) rfl tokens here.ready known ⟨by change (0 : Int) ≤ layer; omega, by
      have := here.layers
      change (layer : Int) < paged.numLayers
      omega⟩ (by rw [writing.shape.blockSize]; exact rounds)
  rw [writing.short] at fine
  have width : args.kvHidden = map.width := by
    rw [geometry.kvHidden, here.width writing.refined]
  have writes := @pagedWrites_refines _ _ args paged map ctx.pagedSequenceId start
    (Int.natCast_nonneg start) (by omega) width writing.refined
  have int : (start : Int) < 2147483648 := by omega
  have after := (pagedWrites_stores args ctx.pagedSequenceId writing.mode.toServing
    (Int.natCast_nonneg start) int).1
  have tables := (pagedWrites_pool args ctx.pagedSequenceId start paged (start + n)).2
  have stream := runs.fits.stream tokens runs.wellFormed
  have accepted := attentionArgs_eq attention feeds (runs.layer inside) stream.heads
    (stream.int positive.1 positive.2.2).2.2
  have fits : AttentionFits dec.ops args (node.outputs.getD 0 0) ctx := by
    refine ⟨chunkArgs_row stream.heads, ?_⟩
    simp only [ModeFits, writing.placed.cache]
    refine ⟨fun row below _ => ?_, fun _ => stream.rows⟩
    have total := runs.fits.row (show dec.nkv * dec.hd ∈ dec.widths by simp [widths])
    exact (Nat.mul_le_mul_right _ (by omega)).trans (fits_int total)
  rw [kernelAttention_eq dec.ops writing.placed.cache accepted fits]
  cases wrote : pagedWrites args ctx.pagedSequenceId start paged with
  | mk err cache =>
      rw [wrote] at fine writes after tables
      cases err with
      | some st =>
          -- The write loop ran out of blocks; what it stored is in this sequence alone.
          obtain ⟨i, held, shape⟩ := writes
          have short : ¬ before.shortage ctx.pagedSequenceId (start + n) ≤ 0 := by
            intro room
            cases fine.mpr room
          have failed : pagedAttention dec.ops args (node.outputs.getD 0 0) paged ctx =
              (some (.returned st), wroteAt ctx start cache) := by
            unfold pagedAttention
            dsimp only
            rw [writing.position, wrote]
            rfl
          change Ends _ _ (pagedAttention dec.ops args (node.outputs.getD 0 0) paged ctx)
          rw [failed]
          exact ⟨by omega, cache, _, ⟨after, rfl, int⟩, writing.toBeside.write shape held tables⟩
      | none =>
          -- The chunk is in the map, and attention reads the sequence's rows up to it.
          obtain ⟨⟨held, shape⟩, bound, _⟩ := writes
          have room := fine.mp rfl
          obtain ⟨oBuf, same, attended⟩ := pagedAttention_written dec.ops law geometry
            (Int.natCast_nonneg n) positive (node.outputs.getD 0 0) writing.position here.ready here.heads here.headDim
            (by
              rw [count, writing.length]
              split
              · exact Or.inl rfl
              · exact Or.inr rfl)
            (writing.rows layer inside).filled wrote held shape bound
          change Ends _ _ (pagedAttention dec.ops args (node.outputs.getD 0 0) paged ctx)
          rw [same]
          rw [count] at held attended
          have stored := writing.store pool tokens int feeds.chunkK
            feeds.chunkV inside room (congrArg Prod.snd wrote).symm held
          refine ⟨wroteAt ctx start cache, writeOutput args oBuf, rfl, rfl, ⟨cache, _, stored⟩,
            ?_⟩
          have read := stored.stored layer inside (by simp)
          intro s below j column
          refine (attended s (by rw [count]; exact below) j column).trans
            (attentionRow_congr dec.ops attention.divides column
              (fun i row => feeds.chunkQ.data s below i row)
              (fun pos early c row => (read.read (by omega) row).1)
              fun pos early c row => (read.read (by omega) row).2)

theorem paged_serves (pool : dec.Pool before) (runs : dec.Runs start n) (known : 0 ≤ seqId)
    (rounds : (start + n + before.blockSize : Int) ≤ 2147483648) :
    Serves dec start n
      (fun layers ctx => ∃ paged map, dec.Writing start n before base seqId layers ctx paged map)
      (fun ctx => 0 < before.shortage seqId (start + n) ∧
        ∃ paged map, PagedMode ctx paged ∧ Beside before base seqId paged map) where
  offset _ ctx := by
    rintro ⟨paged, map, writing⟩
    simp only [posOffset, writing.placed.cache, writing.position]
  rebind _ ctx bindings := by
    rintro ⟨paged, map, writing⟩
    have placed := writing.placed.rebind bindings
    exact ⟨paged, map, writing.toBeside, placed.toPagedMode, placed.sequence, placed.position,
      writing.idle, writing.short, writing.room, writing.length, writing.rows, writing.stored⟩
  attends layers ctx node layer s q k v output := by
    rintro ⟨paged, map, writing⟩ attention inside feeds
    exact writing.attends law pool runs known rounds attention inside feeds

end Node

section Runs

variable {dec : Decoder α} {start n : Nat} {ctx : ModelContext α} {before : PagedKVCache α}
  {base : RowMap α}

/-- A context on a shared cache, about to run the next tokens of its sequence. -/
structure Begins (dec : Decoder α) (start : Nat) (ctx : RuntimeContext α)
    (paged : PagedKVCache α) (map : RowMap α) : Prop where
  mode : PagedMode ctx paged
  pool : dec.Pool paged
  refined : paged.Refines map
  known : 0 ≤ ctx.pagedSequenceId
  unset : ctx.pagedKvWritePos < 0
  idle : ctx.kvCacheAdvanceTokens ≤ 0
  length : map.length ctx.pagedSequenceId = start
  rows : ∀ layer < dec.numLayers, dec.RowsOf map ctx.pagedSequenceId layer start

/-- What a run that succeeds leaves: the logits, and the rows of its tokens. -/
structure Extends (dec : Decoder α) (start n : Nat) (seqId : Int) (ctx : ModelContext α)
    (map : RowMap α) : Prop where
  answers : dec.Answers start n ctx
  loaded : dec.Loaded start n ctx
  unset : ctx.pagedKvWritePos < 0
  idle : ctx.kvCacheAdvanceTokens ≤ 0
  length : map.length seqId = (start + n : Nat)
  rows : ∀ layer < dec.numLayers, dec.RowsOf map seqId layer (start + n)

omit [LinearOrder α] in
theorem Begins.writing {ctx : RuntimeContext α} (begins : dec.Begins start ctx before base)
    (n : Nat) : dec.Writing start n before base ctx.pagedSequenceId [] ctx before base := by
  refine ⟨Beside.refl begins.refined, begins.mode, rfl, ?_, begins.idle, rfl,
    fun none => absurd rfl none, begins.length, begins.rows,
    fun _ _ member => absurd member List.not_mem_nil⟩
  have unset := begins.unset
  rw [pagedPosition, if_neg (by omega), begins.refined.length, begins.length]

/-- The run of the next tokens of a sequence on a shared cache. -/
theorem Runs.paged [IsStrictOrderedRing α] (law : ExpLaw dec.ops.exp) (runs : dec.Runs start n)
    (loaded : dec.Loaded start n ctx) (begins : dec.Begins start ctx.toRuntimeContext before base)
    (rounds : (start + n + before.blockSize : Int) ≤ 2147483648) :
    ((dec.run n ctx).1 = none ↔ before.shortage ctx.pagedSequenceId (start + n) ≤ 0) ∧
      ∃ after map, PagedMode (dec.run n ctx).2.toRuntimeContext after ∧
        Beside before base ctx.pagedSequenceId after map ∧
        ((dec.run n ctx).1 = none →
          dec.Extends start n ctx.pagedSequenceId (dec.run n ctx).2 map) := by
  obtain ⟨order, compiled, ended⟩ := runs.nodes
    (paged_serves law begins.pool runs begins.known rounds) loaded
    ⟨before, base, begins.writing n⟩
  unfold run
  rw [compiled]
  simp only [CpuExecutor.run]
  generalize CpuExecutor.runNodes (cpuKernels dec.ops) (dec.graph n) order ctx = result at ended ⊢
  obtain ⟨_ | failure, after⟩ := result
  · obtain ⟨answers, stillLoaded, layers, served, paged, map, writing⟩ := ended
    have some : layers ≠ [] :=
      List.ne_nil_of_mem (served 0 runs.wellFormed.positive.2.2.2.1)
    have room := writing.room some
    have length := writing.length
    rw [if_neg some] at length
    have advance : ModelContext.advanceKvCacheStep after =
        (.makeOk, { after with toRuntimeContext := after.resetPagedKvWritePos }) := by
      simp only [ModelContext.advanceKvCacheStep, ModelContext.onFloats,
        RuntimeContext.advanceKvCacheStep_idle _ writing.idle]
    simp only [advance]
    refine ⟨⟨fun _ => room, fun _ => rfl⟩, paged, map, ?_, writing.toBeside, fun _ =>
      ⟨answers.rebind rfl, stillLoaded.rebind rfl rfl, show (-1 : Int) < 0 by decide, writing.idle,
        length, fun layer known => ?_⟩⟩
    · exact ⟨writing.mode.toServing, writing.mode.attached, by
        change (-1 : Int) < 2147483648
        decide⟩
    · exact writing.stored layer known (served layer known)
  · obtain ⟨short, paged, map, mode, beside⟩ := ended
    refine ⟨⟨fun no => (by cases no), fun room => ?_⟩, paged, map, mode, beside,
      fun no => (by cases no)⟩
    omega

end Runs

end Decoder

end MiniLLM
