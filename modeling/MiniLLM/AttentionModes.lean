import MiniLLM.PagedStreams

/-!
The three modes of the attention kernel side by side: no cache, an empty
contiguous cache, an empty paged cache. The contiguous mode refuses what it does
not support; the paged mode reads one batch element and always masks.
-/

namespace MiniLLM

namespace PagedKVCache

open Loops

variable {Elem : Type}

end PagedKVCache

namespace CpuKernelAdapter

open Loops Strides Cpu Softmax PagedKVCache

variable {α : Type}

section Contents

/-- Other contents for every tensor, of the same shape and allocation. -/
def fill (ctx : RuntimeContext α) (data : Nat → Buffer α) : RuntimeContext α :=
  { ctx with bindings := fun id =>
      (ctx.bindings id).map fun tensor => { tensor with data := data id } }

def fillArgs (node : Node α) (args : AttentionArgs α) (data : Nat → Buffer α) : AttentionArgs α :=
  { args with
    q := { args.q with data := data (node.inputs.getD 0 0) }
    k := { args.k with data := data (node.inputs.getD 1 0) }
    v := { args.v with data := data (node.inputs.getD 2 0) }
    output := { args.output with data := data (node.outputs.getD 0 0) } }

end Contents

variable [Field α] [LinearOrder α]

section Modes

def withNoCache (ctx : RuntimeContext α) : RuntimeContext α :=
  { ctx with kvCache := none, pagedKvCache := none }

def withCache (ctx : RuntimeContext α) (cache : KVCache α) : RuntimeContext α :=
  { ctx with kvCache := some cache, pagedKvCache := none }

def withPaged (ctx : RuntimeContext α) (paged : PagedKVCache α) (seqId : Int) : RuntimeContext α :=
  { ctx with pagedKvCache := some paged, pagedSequenceId := seqId, pagedKvWritePos := -1 }

/-- The rows of the output tensor agree. -/
def SameRows (node : Node α) (args : AttentionArgs α) (first second : RuntimeContext α) : Prop :=
  ∀ i < args.batch.toNat * args.seqLen.toNat * args.qHidden.toNat,
    outputData first node i = outputData second node i

/-- Runs that succeed, with an empty cache and without one, leave the same rows. -/
def ModesAgree (ops : FloatOps α) (node : Node α) (ctx : RuntimeContext α) (args : AttentionArgs α)
    (cache : KVCache α) (paged : PagedKVCache α) (seqId : Int) : Prop :=
  let plain := kernelAttention ops node (withNoCache ctx)
  let contiguous := kernelAttention ops node (withCache ctx cache)
  let tables := kernelAttention ops node (withPaged ctx paged seqId)
  plain.1 = none → (contiguous.1 = none → SameRows node args plain.2 contiguous.2) ∧
    (tables.1 = none → SameRows node args plain.2 tables.2)

/-- The caches have the KV heads and the head size of the node. -/
structure SameHeads (args : AttentionArgs α) (cache : KVCache α) (paged : PagedKVCache α) : Prop where
  cacheHeads : cache.numKvHeads = args.nkv
  cacheDim : cache.headDim = args.hd
  pagedHeads : (paged.numKvHeads : Int) = args.nkv
  pagedDim : (paged.headDim : Int) = args.hd

-- The rows a query row sees where the mask is an attribute.
def visible (args : AttentionArgs α) (s : Nat) : Nat :=
  if args.causal then s + 1 else args.seqLen.toNat

/-- Row `s` of the first batch element attends to the first `limit s` rows. -/
def Attends (ops : FloatOps α) (nh nkv hd : Nat) (args : AttentionArgs α) (limit : Nat → Nat)
    (data : Buffer α) : Prop :=
  ∀ s < args.seqLen.toNat, ∀ j < nh * hd, data (s * (nh * hd) + j) =
    attentionRow ops nh nkv hd (fun j => args.q.data (s * (nh * hd) + j))
      (fun i j => args.k.data (i * (nkv * hd) + j)) (fun i j => args.v.data (i * (nkv * hd) + j))
      (limit s) j

variable [IsStrictOrderedRing α] {ops : FloatOps α} {node : Node α} {args : AttentionArgs α}
variable {nh nkv hd : Nat}

/-- The no-cache path and the prefill path over rows that start as K and V do. -/
theorem attendBatch_attends (law : ExpLaw ops.exp) (geometry : Geometry args nh nkv hd)
    (k v output : Buffer α)
    (sameK : ∀ i < args.seqLen.toNat, ∀ c < nkv * hd,
      k (i * (nkv * hd) + c) = args.k.data (i * (nkv * hd) + c))
    (sameV : ∀ i < args.seqLen.toNat, ∀ c < nkv * hd,
      v (i * (nkv * hd) + c) = args.v.data (i * (nkv * hd) + c)) :
    Attends ops nh nkv hd args (visible args)
      (attendBatch ops args k v 0 output) := by
  intro s insideS j insideJ
  have written := attendBatch_at ops law args geometry k v 0 output insideS insideJ
  simp only [Nat.zero_mul, Nat.zero_add] at written
  have limit : ∀ i, i < visible args s → i < args.seqLen.toNat := by
    intro i below
    unfold visible at below
    split at below <;> omega
  rw [written]
  change _ = attentionRow ops nh nkv hd _ _ _ (visible args s) j
  apply attentionRow_congr ops geometry.divides insideJ
  · intro i _
    simp only [batchRow, Nat.zero_mul, Nat.zero_add]
  · intro i below c inside
    simp only [batchRow, Nat.zero_mul, Nat.zero_add]
    exact sameK i (limit i below) c inside
  · intro i below c inside
    simp only [batchRow, Nat.zero_mul, Nat.zero_add]
    exact sameV i (limit i below) c inside

omit [IsStrictOrderedRing α] in
/-- Without a cache that is ready the kernel runs on the rows of the call alone. -/
theorem attentionMode_bare {ctx : RuntimeContext α} (noPaged : ctx.pagedKvCache = none)
    (bare : ctx.kvCache.filter KVCache.initialized = none) (output : Nat) :
    attentionMode ops args output ctx = if args.seqLen < 0 then (some .thrown, ctx) else
      (none, ctx.writeData output
        (loop args.batch.toNat (attendBatch ops args args.k.data args.v.data)
          args.output.data)) := by
  have cache : pagedCache ctx = none := by rw [pagedCache, noPaged]; rfl
  simp only [attentionMode, cache, bare]

omit [IsStrictOrderedRing α] in
theorem bare_run {ctx : RuntimeContext α} (accepted : attentionArgs node ctx = .ok args)
    (noPaged : ctx.pagedKvCache = none) (bare : ctx.kvCache.filter KVCache.initialized = none)
    (fine : (kernelAttention ops node ctx).1 = none) :
    0 ≤ args.seqLen ∧ kernelAttention ops node ctx =
      (none, ctx.writeData (node.outputs.getD 0 0)
        (loop args.batch.toNat (attendBatch ops args args.k.data args.v.data)
          args.output.data)) := by
  have run := kernelAttention_fits accepted (kernelAttention_success accepted fine)
  rw [run, attentionMode_bare noPaged bare] at fine ⊢
  split_ifs at fine ⊢ with negative
  exact ⟨not_lt.mp negative, rfl⟩

omit [IsStrictOrderedRing α] in
theorem plain_run {ctx : RuntimeContext α} (accepted : attentionArgs node ctx = .ok args)
    (fine : (kernelAttention ops node (withNoCache ctx)).1 = none) :
    kernelAttention ops node (withNoCache ctx) =
      (none, (withNoCache ctx).writeData (node.outputs.getD 0 0)
        (loop args.batch.toNat (attendBatch ops args args.k.data args.v.data)
          args.output.data)) :=
  have same : attentionArgs node (withNoCache ctx) = .ok args := accepted
  (bare_run same rfl rfl fine).2

/-- The contiguous mode takes one batch element and attends as the mode without a cache. -/
theorem contiguous_run (law : ExpLaw ops.exp) (geometry : Geometry args nh nkv hd)
    {ctx : RuntimeContext α} (accepted : attentionArgs node ctx = .ok args) {cache : KVCache α}
    (empty : cache.cachedLen = 0) (ready : cache.initialized = true)
    (fine : (kernelAttention ops node (withCache ctx cache)).1 = none) :
    args.batch = 1 ∧ ∃ (after : RuntimeContext α) (data : Buffer α),
      after.bindings = ctx.bindings ∧
      kernelAttention ops node (withCache ctx cache) =
        (none, after.writeData (node.outputs.getD 0 0) data) ∧
      Attends ops nh nkv hd args (visible args) data := by
  have same : attentionArgs node (withCache ctx cache) = .ok args := accepted
  have run : kernelAttention ops node (withCache ctx cache) =
      cachedAttention ops args (node.outputs.getD 0 0) cache (withCache ctx cache) := by
    rw [kernelAttention_fits same (kernelAttention_success same fine)]
    simp only [attentionMode, pagedCache, withCache, Option.filter_none, Option.filter_some, ready,
      if_true]
  rw [run] at fine ⊢
  unfold cachedAttention at fine ⊢
  dsimp only at fine ⊢
  split_ifs at fine ⊢ with several tokens layers length room
  refine ⟨by simpa using several, _, _, ?_, rfl, ?_⟩
  · rfl
  · have inLayers : 0 ≤ args.layerIdx ∧ args.layerIdx < cache.numLayers := by omega
    rw [KVCache.modifyLayer_layer _ _ _ inLayers.1 inLayers.2]
    have stored := fun {c} => @cacheRows_at α args 0 (nkv * hd) (cache.layer args.layerIdx)
      geometry.kvHidden c
    apply attendBatch_attends law geometry
    · intro i below c inside
      have row := (stored inside).1 i below
      rw [Nat.zero_add] at row
      exact row.1
    · intro i below c inside
      have row := (stored inside).1 i below
      rw [Nat.zero_add] at row
      exact row.2

omit [Field α] [LinearOrder α] [IsStrictOrderedRing α] in
/-- Cells behind the rows of the first batch element keep what the output held. -/
theorem writeOutput_behind (geometry : Geometry args nh nkv hd) (oBuf : Buffer α) {i : Nat}
    (behind : args.seqLen.toNat * (nh * hd) ≤ i) :
    writeOutput args oBuf i = args.output.data i := by
  unfold writeOutput
  simp only [geometry.heads, geometry.headDim, geometry.qHidden, Int.toNat_natCast]
  rw [storeRows_eq]
  refine copyRows_outside _ _ _ _ _ _ fun s insideS h insideH d insideD same => ?_
  have below := strided_lt insideS (strided_lt insideH insideD)
  omega

omit [Field α] [LinearOrder α] [IsStrictOrderedRing α] in
theorem withPaged_cache (ctx : RuntimeContext α) {paged : PagedKVCache α} (seqId : Int)
    (ready : paged.initialized = true) : pagedCache (withPaged ctx paged seqId) = some paged := by
  simp only [pagedCache, withPaged, Option.filter_some, ready, if_true]

omit [IsStrictOrderedRing α] in
/-- A paged run that succeeds has stored its rows. -/
theorem paged_wrote {ctx : RuntimeContext α} (accepted : attentionArgs node ctx = .ok args)
    {paged : PagedKVCache α} {seqId : Int} (ready : paged.initialized = true)
    (empty : paged.sequenceLength seqId = 0)
    (fine : (kernelAttention ops node (withPaged ctx paged seqId)).1 = none) :
    (pagedWrites args seqId 0 paged).1 = none := by
  have same : attentionArgs node (withPaged ctx paged seqId) = .ok args := accepted
  have place : pagedPosition (withPaged ctx paged seqId) paged = 0 := empty
  rw [kernelAttention_eq ops (withPaged_cache ctx seqId ready) same
    (kernelAttention_success same fine)] at fine
  have wrote := pagedAttention_wrote fine
  rw [place] at wrote
  exact wrote

/-- The paged mode works on the first batch element, masked whatever the attribute says. -/
theorem paged_run (law : ExpLaw ops.exp) (geometry : Geometry args nh nkv hd)
    (natural : 0 ≤ args.seqLen) (positive : 0 < nh ∧ 0 < nkv ∧ 0 < hd) {ctx : RuntimeContext α}
    (accepted : attentionArgs node ctx = .ok args) {paged : PagedKVCache α} {seqId : Int}
    (fits : AttentionFits ops args (node.outputs.getD 0 0) (withPaged ctx paged seqId))
    (serving : paged.Serving)
    (empty : paged.sequenceLength seqId = 0) (heads : paged.numKvHeads = nkv)
    (headDim : paged.headDim = hd) (wrote : (pagedWrites args seqId 0 paged).1 = none) :
    ∃ (after : RuntimeContext α) (data : Buffer α), after.bindings = ctx.bindings ∧
      kernelAttention ops node (withPaged ctx paged seqId) =
        (none, after.writeData (node.outputs.getD 0 0) data) ∧
      Attends ops nh nkv hd args (· + 1) data ∧
      ∀ i, args.seqLen.toNat * (nh * hd) ≤ i → data i = args.output.data i := by
  have same : attentionArgs node (withPaged ctx paged seqId) = .ok args := accepted
  have place : pagedPosition (withPaged ctx paged seqId) paged = (0 : Nat) := empty
  obtain ⟨map, width, noRows, refined⟩ : ∃ map : RowMap α, map.width = nkv * hd ∧
      map.length seqId = 0 ∧ paged.Refines map := by
    refine ⟨paged.contents, ?_, empty, contents_refines serving.owned serving.rowFits⟩
    dsimp only [contents]
    rw [kvHidden_eq serving.rowFits, heads, headDim]
  have writes := @pagedWrites_refines _ _ args paged map seqId 0 (Int.le_refl 0)
    (by decide) (by rw [geometry.kvHidden, width]) refined
  cases result : pagedWrites args seqId 0 paged with
  | mk err cache =>
      rw [result] at wrote writes
      cases wrote
      obtain ⟨⟨held, shape⟩, bound, _⟩ := writes
      obtain ⟨oBuf, run, attended⟩ := pagedAttention_written ops law geometry natural positive
        (node.outputs.getD 0 0) place serving.ready heads headDim (Or.inl noRows)
        (fun pos low high => absurd high (Int.not_lt.mpr low)) result held shape bound
      refine ⟨wroteAt (withPaged ctx paged seqId) 0 cache, writeOutput args oBuf, rfl, ?_,
        fun s insideS j insideJ => ?_, fun i => writeOutput_behind geometry oBuf⟩
      · rw [kernelAttention_eq ops (withPaged_cache ctx seqId serving.ready) same fits]
        exact run
      · have fed := chunkWritten_fed map args seqId 0 args.seqLen.toNat
        rw [width] at fed
        rw [attended s insideS j insideJ, Nat.zero_add]
        apply attentionRow_congr ops geometry.divides insideJ (fun i _ => rfl)
        · intro i below c inside
          have stored := (fed i (by omega) c inside).1
          rw [Nat.zero_add] at stored
          exact stored
        · intro i below c inside
          have stored := (fed i (by omega) c inside).2
          rw [Nat.zero_add] at stored
          exact stored

/-- Whether the paged run succeeds, told from the arguments and the tables. -/
theorem paged_success_iff (law : ExpLaw ops.exp) {ctx : RuntimeContext α}
    (accepted : attentionArgs node ctx = .ok args) {cache : KVCache α} {paged : PagedKVCache α}
    {seqId : Int} (serving : paged.Serving) (empty : paged.sequenceLength seqId = 0)
    (caches : SameHeads args cache paged) :
    (kernelAttention ops node (withPaged ctx paged seqId)).1 = none ↔
      0 ≤ args.seqLen ∧ args.nh * args.hd ≤ intMax ∧ PagedFits args seqId 0 paged ∧
        (pagedWrites args seqId 0 paged).1 = none := by
  have same : attentionArgs node (withPaged ctx paged seqId) = .ok args := accepted
  have place : pagedPosition (withPaged ctx paged seqId) paged = 0 := empty
  have attached := withPaged_cache ctx seqId serving.ready
  constructor
  · intro fine
    have fits := kernelAttention_success same fine
    have run := kernelAttention_eq ops attached same fits
    obtain ⟨row, indices⟩ := fits
    have wrote := paged_wrote accepted serving.ready empty fine
    simp only [ModeFits, attached, place] at indices
    refine ⟨?_, row, indices, wrote⟩
    rw [run] at fine
    unfold pagedAttention at fine
    dsimp only at fine
    rw [place] at fine
    cases result : pagedWrites args seqId 0 paged with
    | mk err cache =>
        have writes : pagedWrites args (withPaged ctx paged seqId).pagedSequenceId 0 paged =
            (err, cache) := result
        rw [result] at wrote
        obtain rfl : err = none := wrote
        rw [writes] at fine
        by_contra negative
        simp [not_le.mp negative] at fine
  · rintro ⟨natural, row, indices, wrote⟩
    have ok := attentionArgs_accepted accepted
    obtain ⟨heads, kvHeads, dims⟩ := ok.positive
    have geometry := ok.geometry row
    have fits : AttentionFits ops args (node.outputs.getD 0 0) (withPaged ctx paged seqId) := by
      refine ⟨row, ?_⟩
      simp only [ModeFits, attached, place]
      exact indices
    obtain ⟨_, _, _, run, _⟩ := paged_run law geometry natural (by omega) accepted fits serving
      empty (by have := caches.pagedHeads; omega)
      (by have := caches.pagedDim; omega) wrote
    rw [run]

end Modes

section Agreement

variable [IsStrictOrderedRing α] {ops : FloatOps α} {node : Node α} {args : AttentionArgs α}
variable {nh nkv hd : Nat}

/-- The column of a value row that an output float reads. -/
theorem groupColumn_inside {j : Nat} (divides : nkv ∣ nh) (inside : j < nh * hd) :
    j / hd / (nh / nkv) * hd + j % hd < nkv * hd := by
  have head : j / hd < nh := Nat.div_lt_of_lt_mul (by rwa [Nat.mul_comm])
  have width : 0 < hd := Nat.pos_of_mul_pos_left (Nat.lt_of_le_of_lt (Nat.zero_le j) inside)
  exact strided_lt (groupHead_lt divides head) (Nat.mod_lt j width)

/-- Over constant values attention is that constant. -/
theorem attentionRow_const (law : ExpLaw ops.exp) (q : Buffer α) (k v : Nat → Buffer α) {n : Nat}
    (some : 0 < n) {value : α} (same : ∀ i < n, ∀ c < nkv * hd, v i c = value) {j : Nat}
    (divides : nkv ∣ nh) (inside : j < nh * hd) :
    attentionRow ops nh nkv hd q k v n j = value := by
  have column := groupColumn_inside divides inside
  have total : 0 < ∑ i ∈ Finset.range n, ops.exp (score ops hd (fun d => q (j / hd * hd + d))
      fun d => k i (j / hd / (nh / nkv) * hd + d)) :=
    Finset.sum_pos (fun i _ => law.pos _) ⟨0, Finset.mem_range.mpr some⟩
  rw [attentionRow, attend, average, div_eq_iff total.ne', Finset.mul_sum]
  refine Finset.sum_congr rfl fun i member => ?_
  rw [same i (Finset.mem_range.mp member) _ column, mul_comm]

omit [LinearOrder α] [IsStrictOrderedRing α] in
/-- Runs whose rows attend to the same rows agree on the first batch element. -/
theorem Attends.same {first second : Nat → Nat} {data data' : Buffer α}
    (attends : Attends ops nh nkv hd args first data)
    (attends' : Attends ops nh nkv hd args second data')
    (limits : ∀ s < args.seqLen.toNat, first s = second s) {i : Nat}
    (inside : i < args.seqLen.toNat * (nh * hd)) : data i = data' i := by
  have some : 0 < nh * hd := Nat.pos_of_mul_pos_left (Nat.lt_of_le_of_lt (Nat.zero_le i) inside)
  have row : i / (nh * hd) < args.seqLen.toNat := (Nat.div_lt_iff_lt_mul some).mpr inside
  rw [← Nat.div_add_mod' i (nh * hd), attends _ row _ (Nat.mod_lt i some),
    attends' _ row _ (Nat.mod_lt i some), limits _ row]

omit [LinearOrder α] [IsStrictOrderedRing α] in
theorem outputData_bound {ctx after : RuntimeContext α}
    (accepted : attentionArgs node ctx = .ok args) (same : after.bindings = ctx.bindings)
    (data : Buffer α) :
    outputData (after.writeData (node.outputs.getD 0 0) data) node = data := by
  obtain ⟨output, binds⟩ := (attentionArgs_accepted accepted).bindsOutput
  exact outputData_write after node data (by rw [same]; exact binds)

omit [IsStrictOrderedRing α] in
theorem plain_rows {ctx : RuntimeContext α} (accepted : attentionArgs node ctx = .ok args)
    (fine : (kernelAttention ops node (withNoCache ctx)).1 = none) :
    outputData (kernelAttention ops node (withNoCache ctx)).2 node =
      loop args.batch.toNat (attendBatch ops args args.k.data args.v.data) args.output.data := by
  rw [plain_run accepted fine]
  exact outputData_bound accepted rfl _

/-- With one batch element the plain rows are those of its only round. -/
theorem plain_attends (law : ExpLaw ops.exp) (geometry : Geometry args nh nkv hd)
    {ctx : RuntimeContext α} (accepted : attentionArgs node ctx = .ok args)
    (fine : (kernelAttention ops node (withNoCache ctx)).1 = none) (single : args.batch = 1) : Attends ops nh nkv hd args (visible args)
      (outputData (kernelAttention ops node (withNoCache ctx)).2 node) := by
  rw [plain_rows accepted fine, single]
  exact attendBatch_attends law geometry _ _ _ (fun _ _ _ _ => rfl) fun _ _ _ _ => rfl

/-- An empty contiguous cache leaves the rows of the run without one, or the run fails. -/
theorem contiguous_same (law : ExpLaw ops.exp) (geometry : Geometry args nh nkv hd)
    {ctx : RuntimeContext α} (accepted : attentionArgs node ctx = .ok args) {cache : KVCache α}
    (empty : cache.cachedLen = 0) (plain : (kernelAttention ops node (withNoCache ctx)).1 = none)
    (fine : (kernelAttention ops node (withCache ctx cache)).1 = none) :
    SameRows node args (kernelAttention ops node (withNoCache ctx)).2
      (kernelAttention ops node (withCache ctx cache)).2 := by
  intro i inside
  by_cases ready : cache.initialized = true
  · obtain ⟨single, after, data, same, run, attends⟩ :=
      contiguous_run law geometry accepted empty ready fine
    rw [single, Int.toNat_one, Nat.one_mul, geometry.qHidden, Int.toNat_natCast] at inside
    rw [run, outputData_bound accepted same]
    exact (plain_attends law geometry accepted plain single).same attends (fun _ _ => rfl) inside
  · have same : attentionArgs node (withCache ctx cache) = .ok args := accepted
    have bare : (withCache ctx cache).kvCache.filter KVCache.initialized = none := by
      simp [withCache, ready]
    have bound : (withCache ctx cache).bindings = ctx.bindings := rfl
    rw [(bare_run same rfl bare fine).2, plain_rows accepted plain, outputData_bound accepted bound]

/-- What the three modes do where the plain and the paged run succeed. -/
structure Outcomes (ops : FloatOps α) (node : Node α) (nh nkv hd : Nat) (ctx : RuntimeContext α)
    (args : AttentionArgs α) (cache : KVCache α) (paged : PagedKVCache α) (seqId : Int) : Prop where
  accepted : attentionArgs node ctx = .ok args
  geometry : Geometry args nh nkv hd
  emptyCache : cache.cachedLen = 0
  plain : (kernelAttention ops node (withNoCache ctx)).1 = none
  success : (kernelAttention ops node (withPaged ctx paged seqId)).1 = none
  masked : Attends ops nh nkv hd args (· + 1)
    (outputData (kernelAttention ops node (withPaged ctx paged seqId)).2 node)
  behind : ∀ i, args.seqLen.toNat * (nh * hd) ≤ i →
    outputData (kernelAttention ops node (withPaged ctx paged seqId)).2 node i = args.output.data i

theorem outcomes (law : ExpLaw ops.exp) {ctx : RuntimeContext α}
    (accepted : attentionArgs node ctx = .ok args) {cache : KVCache α}
    (emptyCache : cache.cachedLen = 0) {paged : PagedKVCache α} {seqId : Int}
    (serving : paged.Serving) (empty : paged.sequenceLength seqId = 0) (caches : SameHeads args cache paged)
    (plain : (kernelAttention ops node (withNoCache ctx)).1 = none)
    (success : (kernelAttention ops node (withPaged ctx paged seqId)).1 = none) :
    Outcomes ops node args.nh.toNat args.nkv.toNat args.hd.toNat ctx args cache paged seqId := by
  have same : attentionArgs node (withPaged ctx paged seqId) = .ok args := accepted
  have ok := attentionArgs_accepted accepted
  obtain ⟨heads, kvHeads, dims⟩ := ok.positive
  obtain ⟨natural, row, _, wrote⟩ :=
    (paged_success_iff law accepted serving empty caches).mp success
  have geometry := ok.geometry row
  obtain ⟨after, data, bound, run, masked, behind⟩ := paged_run law geometry natural (by omega)
    accepted (kernelAttention_success same success) serving empty (by have := caches.pagedHeads; omega)
    (by have := caches.pagedDim; omega) wrote
  refine ⟨accepted, geometry, emptyCache, plain, success, ?_, ?_⟩
  · rw [run, outputData_bound accepted bound]
    exact masked
  · rw [run, outputData_bound accepted bound]
    exact behind

/-- One batch element, masked as the paged mode masks: the three modes agree. -/
theorem Outcomes.agree (law : ExpLaw ops.exp) {ctx : RuntimeContext α} {cache : KVCache α}
    {paged : PagedKVCache α} {seqId : Int}
    (outcomes : Outcomes ops node nh nkv hd ctx args cache paged seqId)
    (supported : args.batch ≤ 0 ∨ args.seqLen ≤ 0 ∨
      args.batch = 1 ∧ (args.causal = true ∨ args.seqLen = 1)) :
    ModesAgree ops node ctx args cache paged seqId := by
  have accepted := outcomes.accepted
  have geometry := outcomes.geometry
  refine fun plain => ⟨contiguous_same law geometry accepted outcomes.emptyCache plain,
    fun _ i inside => ?_⟩
  rcases supported with none | none | ⟨single, mask⟩
  · rw [show args.batch.toNat = 0 by omega, Nat.zero_mul, Nat.zero_mul] at inside
    exact absurd inside (Nat.not_lt_zero i)
  · rw [show args.seqLen.toNat = 0 by omega, Nat.mul_zero, Nat.zero_mul] at inside
    exact absurd inside (Nat.not_lt_zero i)
  · rw [single, Int.toNat_one, Nat.one_mul, geometry.qHidden, Int.toNat_natCast] at inside
    refine (plain_attends law geometry accepted plain single).same outcomes.masked
      (fun s row => ?_) inside
    unfold visible
    rcases mask with causal | one
    · rw [if_pos causal]
    · split <;> omega

/-- The paged mode never writes a second batch element. -/
theorem Outcomes.second (law : ExpLaw ops.exp)
    (positive : 0 < nh ∧ 0 < nkv ∧ 0 < hd) {ctx : RuntimeContext α} {cache : KVCache α}
    {paged : PagedKVCache α} {seqId : Int}
    (outcomes : Outcomes ops node nh nkv hd ctx args cache paged seqId)
    (several : 2 ≤ args.batch) (tokens : 0 < args.seqLen) (ones : ∀ i, args.v.data i = 1)
    (zeros : ∀ i, args.output.data i = 0) : ¬ ModesAgree ops node ctx args cache paged seqId := by
  intro agree
  have geometry := outcomes.geometry
  obtain ⟨b, count⟩ := Nat.exists_eq_succ_of_ne_zero (show args.batch.toNat ≠ 0 by omega)
  have some : 0 < nh * hd := Nat.mul_pos positive.1 positive.2.2
  have row : 0 < args.seqLen.toNat := by omega
  have width : args.qHidden.toNat = nh * hd := by rw [geometry.qHidden, Int.toNat_natCast]
  have inside : b * args.seqLen.toNat * (nh * hd) + 0 * (nh * hd) + 0 <
      args.batch.toNat * args.seqLen.toNat * args.qHidden.toNat := by
    rw [width, ← Nat.add_mul]
    exact strided_lt (strided_lt (by omega) row) some
  have same := (agree outcomes.plain).2 outcomes.success _ inside
  have behind : args.seqLen.toNat * (nh * hd) ≤
      b * args.seqLen.toNat * (nh * hd) + 0 * (nh * hd) + 0 := by
    have later := Nat.mul_le_mul_right (args.seqLen.toNat * (nh * hd)) (show 1 ≤ b by omega)
    rw [Nat.one_mul, ← Nat.mul_assoc b] at later
    omega
  have one := attentionRow_const law (batchRow args.q.data args.seqLen.toNat (nh * hd) b 0)
    (batchRow args.k.data args.seqLen.toNat (nkv * hd) b)
    (batchRow args.v.data args.seqLen.toNat (nkv * hd) b)
    (show 0 < if args.causal = true then 0 + 1 else args.seqLen.toNat by split <;> omega)
    (fun i _ c _ => ones _) geometry.divides some
  rw [outcomes.behind _ behind, zeros, plain_rows outcomes.accepted outcomes.plain, count, loop,
    attendBatch_at ops law args geometry _ _ b _ row some, one] at same
  exact one_ne_zero same

omit [Field α] [LinearOrder α] [IsStrictOrderedRing α] in
theorem SameHeads.fill {cache : KVCache α} {paged : PagedKVCache α}
    (caches : SameHeads args cache paged) (data : Nat → Buffer α) :
    SameHeads (fillArgs node args data) cache paged :=
  ⟨caches.cacheHeads, caches.cacheDim, caches.pagedHeads, caches.pagedDim⟩

end Agreement

section TwoTokens

theorem pair_valid : ∀ d ∈ [(1 : Int), 2, 1], d = -1 ∨ 0 < d ∧ d < 9223372036854775808 := by decide

end TwoTokens

end CpuKernelAdapter

end MiniLLM
