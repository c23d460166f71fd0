import MiniLLM.ChunkPlacement
import MiniLLM.IncrementalDecoding

/-!
Executor runs in paged mode on one context. The caller rebinds the tensors and
picks the sequence before each run; the write position stays in the context from
one run to the next unless the run gets as far as `advance_kv_cache_step`.
-/

namespace MiniLLM.CpuKernelAdapter

open Loops Strides PagedKVCache

variable {α : Type} [Field α] [LinearOrder α]

/-- What the caller sets before a run: the sequence, the chunk's length and tensors. -/
structure PagedRun (α : Type) where
  sequenceId : Int
  tokens : Nat
  bindings : Nat → Option (Tensor α)

def enter (ctx : RuntimeContext α) (run : PagedRun α) : RuntimeContext α :=
  { ctx with pagedSequenceId := run.sequenceId, bindings := run.bindings }

section Arguments

/-- What the arguments of an attention node are once they are accepted. -/
structure Accepted (node : Node α) (ctx : RuntimeContext α) (args : AttentionArgs α) : Prop where
  bindsQ : ctx.bindings (node.inputs.getD 0 0) = some args.q
  bindsOutput : ∃ output, ctx.bindings (node.outputs.getD 0 0) = some output
  heads : args.nh = wrap32 (node.attrInt "num_heads" 12)
  kvHeads : args.nkv = wrap32 (node.attrInt "num_kv_heads" 12)
  headDim : args.hd = wrap32 (node.attrInt "head_dim" 64)
  layerIdx : args.layerIdx = wrap32 (node.attrInt "layer_idx" 0)
  seqLen : ∃ d, args.q.shape.dim 1 = some d ∧ args.seqLen = wrap32 d
  positive : 0 < args.nh ∧ 0 < args.nkv ∧ 0 < args.hd
  geometry : args.nh * args.hd ≤ intMax →
    Geometry args args.nh.toNat args.nkv.toNat args.hd.toNat

omit [Field α] [LinearOrder α] in
theorem attentionArgs_accepted {node : Node α} {ctx : RuntimeContext α} {args : AttentionArgs α}
    (fine : attentionArgs node ctx = .ok args) : Accepted node ctx args := by
  unfold attentionArgs at fine
  obtain ⟨q, foundQ, fine⟩ := bind_eq_ok fine
  obtain ⟨k, foundK, fine⟩ := bind_eq_ok fine
  obtain ⟨v, foundV, fine⟩ := bind_eq_ok fine
  obtain ⟨output, foundOutput, fine⟩ := bind_eq_ok fine
  obtain ⟨_, _, fine⟩ := bind_eq_ok fine
  obtain ⟨_, _, fine⟩ := bind_eq_ok fine
  obtain ⟨_, _, fine⟩ := bind_eq_ok fine
  obtain ⟨_, _, fine⟩ := bind_eq_ok fine
  obtain ⟨_, positive, fine⟩ := bind_eq_ok fine
  obtain ⟨_, divides, fine⟩ := bind_eq_ok fine
  obtain ⟨batch, _, fine⟩ := bind_eq_ok fine
  obtain ⟨seqLen, dimSeq, fine⟩ := bind_eq_ok fine
  obtain ⟨qHidden, _, fine⟩ := bind_eq_ok fine
  obtain ⟨kvHidden, _, fine⟩ := bind_eq_ok fine
  obtain ⟨_, sameQ, fine⟩ := bind_eq_ok fine
  obtain ⟨_, sameKv, fine⟩ := bind_eq_ok fine
  have positive := require_ok positive
  have divides := require_ok divides
  have sameQ := require_ok sameQ
  have sameKv := require_ok sameKv
  obtain rfl := Except.ok.inj fine
  refine ⟨getTensor_ok foundQ, ⟨output, getTensor_ok foundOutput⟩, rfl, rfl, rfl, rfl,
    ⟨seqLen, dimOf_ok dimSeq, rfl⟩, ?_, fun row => ?_⟩
  · dsimp only
    omega
  · dsimp only at row ⊢
    generalize wrap32 (node.attrInt "num_heads" 12) = heads at positive divides sameQ row ⊢
    generalize wrap32 (node.attrInt "num_kv_heads" 12) = kvHeads at positive divides sameKv ⊢
    generalize wrap32 (node.attrInt "head_dim" 64) = headDim at positive sameQ sameKv row ⊢
    obtain ⟨nh, rfl⟩ := Int.eq_ofNat_of_zero_le (show 0 ≤ heads by omega)
    obtain ⟨nkv, rfl⟩ := Int.eq_ofNat_of_zero_le (show 0 ≤ kvHeads by omega)
    obtain ⟨hd, rfl⟩ := Int.eq_ofNat_of_zero_le (show 0 ≤ headDim by omega)
    have groups : nkv ∣ nh := Int.natCast_dvd_natCast.mp (Int.dvd_of_emod_eq_zero divides)
    have narrower : nkv * hd ≤ nh * hd := Nat.mul_le_mul_right hd (Nat.le_of_dvd (by omega) groups)
    have row : nh * hd ≤ intMax := by exact_mod_cast row
    rw [intMax] at row
    rw [← Nat.cast_mul, wrap32_eq ((nh * hd : Nat) : Int) (by omega) (by omega)] at sameQ
    rw [← Nat.cast_mul, wrap32_eq ((nkv * hd : Nat) : Int) (by omega) (by omega)] at sameKv
    exact ⟨rfl, rfl, rfl, sameQ, sameKv, groups⟩

omit [Field α] [LinearOrder α] in
/-- Whether arguments are accepted depends on shapes and allocations only. -/
theorem getTensor_forms {before after : RuntimeContext α}
    (forms : SameForms before.bindings after.bindings) {id : Nat} {role : String}
    {tensor : Tensor α} (found : getTensor before id role = .ok tensor) :
    ∃ now, getTensor after id role = .ok now ∧ now.shape = tensor.shape ∧
      (∀ i, dimOf now i = dimOf tensor i) ∧
      ∀ name, checkAllocated now name = checkAllocated tensor name := by
  have same := forms id
  rw [getTensor_ok found] at same
  obtain ⟨now, here, same⟩ := Option.map_eq_some_iff.mp same
  have shape : now.shape = tensor.shape := congrArg Prod.fst same
  have allocated : now.allocated = tensor.allocated := congrArg Prod.snd same
  exact ⟨now, getTensor_bound here role, shape, fun i => by rw [dimOf, dimOf, shape],
    fun name => by rw [checkAllocated, checkAllocated, allocated]⟩

omit [Field α] [LinearOrder α] in
theorem attentionArgs_forms {node : Node α} {before after : RuntimeContext α}
    (forms : SameForms before.bindings after.bindings) {args : AttentionArgs α}
    (accepted : attentionArgs node before = .ok args) :
    ∃ q k v output,
      attentionArgs node after = .ok { args with q := q, k := k, v := v, output := output } := by
  unfold attentionArgs at accepted ⊢
  obtain ⟨_, foundQ, accepted⟩ := bind_eq_ok accepted
  obtain ⟨_, foundK, accepted⟩ := bind_eq_ok accepted
  obtain ⟨_, foundV, accepted⟩ := bind_eq_ok accepted
  obtain ⟨_, foundOutput, accepted⟩ := bind_eq_ok accepted
  obtain ⟨_, allocatedQ, accepted⟩ := bind_eq_ok accepted
  obtain ⟨_, allocatedK, accepted⟩ := bind_eq_ok accepted
  obtain ⟨_, allocatedV, accepted⟩ := bind_eq_ok accepted
  obtain ⟨_, allocatedOutput, accepted⟩ := bind_eq_ok accepted
  obtain ⟨_, positive, accepted⟩ := bind_eq_ok accepted
  obtain ⟨_, divides, accepted⟩ := bind_eq_ok accepted
  obtain ⟨_, batch, accepted⟩ := bind_eq_ok accepted
  obtain ⟨_, seqLen, accepted⟩ := bind_eq_ok accepted
  obtain ⟨_, qHidden, accepted⟩ := bind_eq_ok accepted
  obtain ⟨_, kvHidden, accepted⟩ := bind_eq_ok accepted
  obtain ⟨_, fitsQ, accepted⟩ := bind_eq_ok accepted
  obtain ⟨_, fitsK, accepted⟩ := bind_eq_ok accepted
  obtain rfl := Except.ok.inj accepted
  obtain ⟨q, nowQ, _, dimQ, checkQ⟩ := getTensor_forms forms foundQ
  obtain ⟨k, nowK, _, dimK, checkK⟩ := getTensor_forms forms foundK
  obtain ⟨v, nowV, _, _, checkV⟩ := getTensor_forms forms foundV
  obtain ⟨output, nowOutput, _, _, checkOutput⟩ := getTensor_forms forms foundOutput
  exact ⟨q, k, v, output,
    bind_of_ok nowQ <| bind_of_ok nowK <| bind_of_ok nowV <| bind_of_ok nowOutput <|
    bind_of_ok ((checkQ _).trans allocatedQ) <| bind_of_ok ((checkK _).trans allocatedK) <|
    bind_of_ok ((checkV _).trans allocatedV) <| bind_of_ok ((checkOutput _).trans allocatedOutput) <|
    bind_of_ok positive <| bind_of_ok divides <|
    bind_of_ok ((dimQ 0).trans batch) <| bind_of_ok ((dimQ 1).trans seqLen) <|
    bind_of_ok ((dimQ 2).trans qHidden) <| bind_of_ok ((dimK 2).trans kvHidden) <|
    bind_of_ok fitsQ <| bind_of_ok fitsK rfl⟩

omit [LinearOrder α] in
theorem ropeArgs_forms {node : Node α} {before after : RuntimeContext α}
    (forms : SameForms before.bindings after.bindings) {args : RopeArgs α}
    (accepted : ropeArgs node before = .ok args) :
    ∃ x output, ropeArgs node after = .ok { args with x := x, output := output } := by
  unfold ropeArgs at accepted ⊢
  obtain ⟨_, foundX, accepted⟩ := bind_eq_ok accepted
  obtain ⟨_, foundOutput, accepted⟩ := bind_eq_ok accepted
  obtain ⟨_, allocatedX, accepted⟩ := bind_eq_ok accepted
  obtain ⟨_, allocatedOutput, accepted⟩ := bind_eq_ok accepted
  obtain ⟨_, hidden, accepted⟩ := bind_eq_ok accepted
  obtain rfl := Except.ok.inj accepted
  obtain ⟨x, nowX, shape, dimX, checkX⟩ := getTensor_forms forms foundX
  obtain ⟨output, nowOutput, _, _, checkOutput⟩ := getTensor_forms forms foundOutput
  rw [← dimX, ← shape] at hidden
  rw [← shape]
  exact ⟨x, output, bind_of_ok nowX <| bind_of_ok nowOutput <|
    bind_of_ok ((checkX _).trans allocatedX) <| bind_of_ok ((checkOutput _).trans allocatedOutput) <|
    bind_of_ok hidden rfl⟩

-- Reading the arguments indexes nothing: whatever is rejected, is rejected properly.
theorem bind_defined {A B : Type} {x : Except Failure A} {f : A → Except Failure B}
    (first : x ≠ .error .undefined) (rest : ∀ a, f a ≠ .error .undefined) :
    (x >>= f) ≠ .error .undefined := by
  cases x with
  | error failure => exact fun same => first (congrArg Except.error (Except.error.inj same))
  | ok a => exact rest a

omit [Field α] [LinearOrder α] in
theorem getTensor_defined (ctx : RuntimeContext α) (id : Nat) (role : String) :
    getTensor ctx id role ≠ .error .undefined := by
  unfold getTensor
  split <;> simp

omit [Field α] [LinearOrder α] in
theorem checkAllocated_defined (tensor : Tensor α) (name : String) :
    checkAllocated tensor name ≠ .error .undefined := by
  unfold checkAllocated
  split <;> simp

omit [Field α] [LinearOrder α] in
theorem dimOf_defined (tensor : Tensor α) (i : Nat) : dimOf tensor i ≠ .error .undefined := by
  unfold dimOf
  split <;> simp

theorem require_defined (condition : Prop) [Decidable condition] (st : Status) :
    require condition st ≠ .error .undefined := by
  unfold require
  split <;> simp

omit [Field α] [LinearOrder α] in
theorem attentionArgs_defined (node : Node α) (ctx : RuntimeContext α) :
    attentionArgs node ctx ≠ .error .undefined := by
  refine bind_defined (getTensor_defined ctx _ _) fun q => ?_
  refine bind_defined (getTensor_defined ctx _ _) fun k => ?_
  refine bind_defined (getTensor_defined ctx _ _) fun v => ?_
  refine bind_defined (getTensor_defined ctx _ _) fun output => ?_
  refine bind_defined (checkAllocated_defined q _) fun _ => ?_
  refine bind_defined (checkAllocated_defined k _) fun _ => ?_
  refine bind_defined (checkAllocated_defined v _) fun _ => ?_
  refine bind_defined (checkAllocated_defined output _) fun _ => ?_
  refine bind_defined (require_defined _ _) fun _ => ?_
  refine bind_defined (require_defined _ _) fun _ => ?_
  refine bind_defined (dimOf_defined q 0) fun _ => ?_
  refine bind_defined (dimOf_defined q 1) fun _ => ?_
  refine bind_defined (dimOf_defined q 2) fun _ => ?_
  refine bind_defined (dimOf_defined k 2) fun _ => ?_
  refine bind_defined (require_defined _ _) fun _ => ?_
  refine bind_defined (require_defined _ _) fun _ => ?_
  exact fun no => by cases no

omit [LinearOrder α] in
theorem ropeArgs_defined (node : Node α) (ctx : RuntimeContext α) :
    ropeArgs node ctx ≠ .error .undefined := by
  refine bind_defined (getTensor_defined ctx _ _) fun x => ?_
  refine bind_defined (getTensor_defined ctx _ _) fun output => ?_
  refine bind_defined (checkAllocated_defined x _) fun _ => ?_
  refine bind_defined (checkAllocated_defined output _) fun _ => ?_
  refine bind_defined (dimOf_defined x _) fun _ => ?_
  exact fun no => by cases no

end Arguments

section Positions

/-- What a run relies on in the other kernels: they write tensor data and nothing
else of the context. -/
def OnlyData (other : KernelRegistry α (RuntimeContext α)) : Prop :=
  ∀ op kernel, other op = some kernel → ∀ node ctx,
    (kernel node ctx).2 = { ctx with bindings := (kernel node ctx).2.bindings } ∧
      SameForms ctx.bindings (kernel node ctx).2.bindings

def pagedRun (ops : FloatOps α) (other : KernelRegistry α (RuntimeContext α)) (graph : Graph α)
    (order : List Nat) (ctx : RuntimeContext α) (run : PagedRun α) :
    Option Failure × RuntimeContext α :=
  CpuExecutor.run (cpuRegistry ops other) RuntimeContext.advanceKvCacheStep graph order
    (enter ctx run)

/-- The context after a run, whether it succeeded or not. -/
def pagedStep (ops : FloatOps α) (other : KernelRegistry α (RuntimeContext α)) (graph : Graph α)
    (order : List Nat) (ctx : RuntimeContext α) (run : PagedRun α) : RuntimeContext α :=
  (pagedRun ops other graph order ctx run).2

/-- The executor comes to `node` in context `mid`. -/
def Starts (ops : FloatOps α) (other : KernelRegistry α (RuntimeContext α)) (graph : Graph α)
    (order : List Nat) (ctx : RuntimeContext α) (node : Node α) (mid : RuntimeContext α) : Prop :=
  ∃ first nid rest, order = first ++ nid :: rest ∧ graph.node nid = .ok node ∧
    CpuExecutor.runNodes (cpuRegistry ops other) graph first ctx = (none, mid)

structure PagedMode (ctx : RuntimeContext α) (paged : PagedKVCache α) : Prop
    extends paged.Serving where
  attached : ctx.pagedKvCache = some paged
  memory : ctx.pagedKvWritePos < 2147483648

/-- What the nodes of a run in paged mode leave of the context it starts in. -/
structure Continues (ctx mid : RuntimeContext α) : Prop where
  forms : SameForms ctx.bindings mid.bindings
  kvCache : mid.kvCache = ctx.kvCache
  advanceTokens : mid.kvCacheAdvanceTokens = ctx.kvCacheAdvanceTokens

omit [Field α] [LinearOrder α] in
theorem Continues.refl (ctx : RuntimeContext α) : Continues ctx ctx := ⟨SameForms.refl _, rfl, rfl⟩

omit [Field α] [LinearOrder α] in
theorem Continues.trans {a b c : RuntimeContext α} (first : Continues a b)
    (second : Continues b c) : Continues a c :=
  ⟨first.forms.trans second.forms, second.kvCache.trans first.kvCache,
    second.advanceTokens.trans first.advanceTokens⟩

omit [Field α] [LinearOrder α] in
theorem Continues.advance {ctx mid : RuntimeContext α} (continues : Continues ctx mid) :
    mid.advanceKvCacheStep.1 = ctx.advanceKvCacheStep.1 := by
  unfold RuntimeContext.advanceKvCacheStep
  rw [continues.kvCache, continues.advanceTokens]
  split
  · rfl
  · split
    · rfl
    · split
      · rfl
      · split <;> rfl

/-- Paged mode, with the sequence and the position that the kernels read. -/
structure Placed (ctx : RuntimeContext α) (paged : PagedKVCache α) (seqId start : Int) : Prop
    extends PagedMode ctx paged where
  sequence : ctx.pagedSequenceId = seqId
  position : pagedPosition ctx paged = start

omit [Field α] [LinearOrder α] in
theorem Placed.cache {ctx : RuntimeContext α} {paged : PagedKVCache α} {seqId start : Int}
    (placed : Placed ctx paged seqId start) : pagedCache ctx = some paged := by
  simp [pagedCache, placed.attached, placed.ready]

omit [Field α] [LinearOrder α] in
theorem Placed.offset {ctx : RuntimeContext α} {paged : PagedKVCache α} {seqId start : Int}
    (placed : Placed ctx paged seqId start) (seqLen : Int) : posOffset ctx seqLen = start := by
  simp only [posOffset, placed.cache, placed.position]

omit [Field α] [LinearOrder α] in
/-- The position is that of a token. -/
theorem Placed.int {ctx : RuntimeContext α} {paged : PagedKVCache α} {seqId start : Int}
    (placed : Placed ctx paged seqId start) : 0 ≤ start ∧ start < 2147483648 := by
  have position := placed.position
  have low := placed.lengths ctx.pagedSequenceId
  have high := placed.ints ctx.pagedSequenceId
  have memory := placed.memory
  unfold pagedPosition at position
  split at position <;> omega

theorem kernelAttention_eq (ops : FloatOps α) {node : Node α} {ctx : RuntimeContext α}
    {paged : PagedKVCache α} (cache : pagedCache ctx = some paged) {args : AttentionArgs α}
    (accepted : attentionArgs node ctx = .ok args)
    (fits : AttentionFits ops args (node.outputs.getD 0 0) ctx) :
    kernelAttention ops node ctx = pagedAttention ops args (node.outputs.getD 0 0) paged ctx := by
  rw [kernelAttention_fits accepted fits]
  simp only [attentionMode, cache]

/-- The cache behind a call with `int` indices is the one behind its write loop. -/
theorem kernelAttention_stores {ops : FloatOps α} {node : Node α} {ctx : RuntimeContext α}
    {paged : PagedKVCache α} {seqId start : Int} (placed : Placed ctx paged seqId start)
    {args : AttentionArgs α} (accepted : attentionArgs node ctx = .ok args)
    (fits : AttentionFits ops args (node.outputs.getD 0 0) ctx) :
    (kernelAttention ops node ctx).2.pagedKvCache =
      some (pagedWrites args seqId start paged).2 := by
  obtain ⟨bindings, after, _⟩ := pagedAttention_frame ops args (node.outputs.getD 0 0) paged ctx
  rw [placed.position, placed.sequence] at after
  rw [kernelAttention_eq ops placed.cache accepted fits, after]

/-- The attention kernel writes from the position of the context and leaves it there. -/
theorem kernelAttention_placed (ops : FloatOps α) {node : Node α} {ctx : RuntimeContext α}
    {paged : PagedKVCache α} {seqId start : Int} (placed : Placed ctx paged seqId start) :
    ∃ after, Placed (kernelAttention ops node ctx).2 after seqId start ∧
      Continues ctx (kernelAttention ops node ctx).2 ∧
      ∀ args, attentionArgs node ctx = .ok args → ∃ count ≤ args.seqLen.toNat,
        Stores args seqId start count paged after ∧
        ((kernelAttention ops node ctx).1 = none → count = args.seqLen.toNat) := by
  cases accepted : attentionArgs node ctx with
  | error failure =>
      have same : (kernelAttention ops node ctx).2 = ctx := by
        simp only [kernelAttention, accepted]
      rw [same]
      exact ⟨paged, placed, Continues.refl _, fun args no => by cases no⟩
  | ok args =>
      by_cases fits : AttentionFits ops args (node.outputs.getD 0 0) ctx
      · obtain ⟨bindings, after, forms⟩ :=
          pagedAttention_frame ops args (node.outputs.getD 0 0) paged ctx
        obtain ⟨low, int⟩ := placed.int
        obtain ⟨serving, count, below, stores, all⟩ :=
          pagedWrites_stores args seqId placed.toServing low int
        have wrote : (pagedAttention ops args (node.outputs.getD 0 0) paged ctx).1 = none →
            (pagedWrites args seqId start paged).1 = none :=
          fun fine => placed.sequence ▸ placed.position ▸ pagedAttention_wrote fine
        rw [placed.position, placed.sequence] at after
        rw [kernelAttention_eq ops placed.cache accepted fits, after]
        refine ⟨_, ⟨⟨serving, rfl, int⟩, rfl, if_pos low⟩, ⟨forms, rfl, rfl⟩, fun other same => ?_⟩
        rw [← Except.ok.inj same]
        exact ⟨count, below, stores, fun fine => all (wrote fine)⟩
      · rw [kernelAttention_undefined accepted fits]
        exact ⟨paged, placed, Continues.refl _, fun other _ =>
          ⟨0, Nat.zero_le _, Stores.none other seqId start placed.toServing, fun no => by cases no⟩⟩

/-- The offsets of the rows of a run are `int`s, told from what is bound before it. -/
def ChunkInts (ops : FloatOps α) (graph : Graph α) (order : List Nat) (ctx : RuntimeContext α) :
    Prop :=
  ∀ nid ∈ order, ∀ node, graph.node nid = .ok node →
    (node.opType = .attention → ∀ args, attentionArgs node ctx = .ok args →
      args.nh * args.hd ≤ intMax ∧ args.seqLen.toNat * args.qHidden.toNat ≤ intMax + 1) ∧
    (node.opType = .roPE → ∀ args, ropeArgs node ctx = .ok args →
      RopeFits ops.simdWidth args (posOffset ctx args.seqLen))

/-- They stay `int`s in every call that the run comes to. -/
theorem ChunkInts.attentionFits {ops : FloatOps α} {graph : Graph α} {order : List Nat}
    {ctx mid : RuntimeContext α} (ints : ChunkInts ops graph order ctx) {nid : Nat}
    (member : nid ∈ order) {node : Node α} (found : graph.node nid = .ok node)
    (op : node.opType = .attention) (forms : SameForms ctx.bindings mid.bindings)
    {paged : PagedKVCache α} (cache : pagedCache mid = some paged) {args : AttentionArgs α}
    (accepted : attentionArgs node mid = .ok args) :
    AttentionFits ops args (node.outputs.getD 0 0) mid := by
  obtain ⟨q, k, v, output, bound⟩ := attentionArgs_forms forms.symm accepted
  obtain ⟨row, rows⟩ := (ints nid member node found).1 op _ bound
  dsimp only at row rows
  have geometry := (attentionArgs_accepted accepted).geometry row
  obtain ⟨nh, nkv, hd⟩ := (attentionArgs_accepted accepted).positive
  have narrower : args.nkv.toNat * args.hd.toNat ≤ args.nh.toNat * args.hd.toNat :=
    Nat.mul_le_mul_right _ (Nat.le_of_dvd (by omega) geometry.divides)
  have width : 0 < args.nh.toNat * args.hd.toNat := Nat.mul_pos (by omega) (by omega)
  rw [geometry.qHidden, Int.toNat_natCast] at rows
  refine ⟨row, ?_⟩
  simp only [ModeFits, cache, PagedFits, geometry.qHidden, geometry.kvHidden, Int.toNat_natCast]
  refine ⟨fun s below _ => ?_, fun _ => rows⟩
  have before : (s + 1) * (args.nh.toNat * args.hd.toNat) ≤
      args.seqLen.toNat * (args.nh.toNat * args.hd.toNat) := Nat.mul_le_mul_right _ below
  calc s * (args.nkv.toNat * args.hd.toNat)
      ≤ s * (args.nh.toNat * args.hd.toNat) := Nat.mul_le_mul_left s narrower
    _ ≤ intMax := by rw [Nat.succ_mul] at before; omega

omit [LinearOrder α] in
theorem ChunkInts.ropeFits {ops : FloatOps α} {graph : Graph α} {order : List Nat}
    {ctx mid : RuntimeContext α} (ints : ChunkInts ops graph order ctx) {nid : Nat}
    (member : nid ∈ order) {node : Node α} (found : graph.node nid = .ok node)
    (op : node.opType = .roPE) (forms : SameForms ctx.bindings mid.bindings)
    (position : ∀ seqLen, posOffset mid seqLen = posOffset ctx seqLen) {args : RopeArgs α}
    (accepted : ropeArgs node mid = .ok args) :
    RopeFits ops.simdWidth args (posOffset mid args.seqLen) := by
  obtain ⟨x, output, bound⟩ := ropeArgs_forms forms.symm accepted
  have fits := (ints nid member node found).2 op _ bound
  rw [position]
  exact fits

omit [Field α] [LinearOrder α] in
theorem ropeArgs_binds {node : Node α} {ctx : RuntimeContext α} [Field α] {args : RopeArgs α}
    (accepted : ropeArgs node ctx = .ok args) :
    ∃ output, ctx.bindings (node.outputs.getD 0 0) = some output := by
  unfold ropeArgs at accepted
  obtain ⟨_, _, accepted⟩ := bind_eq_ok accepted
  obtain ⟨output, found, _⟩ := bind_eq_ok accepted
  exact ⟨output, getTensor_ok found⟩

omit [LinearOrder α] in
/-- RoPE rotates for the same position. -/
theorem kernelRope_placed (ops : FloatOps α) {node : Node α} {ctx : RuntimeContext α}
    {paged : PagedKVCache α} {seqId start : Int} (placed : Placed ctx paged seqId start)
    {args : RopeArgs α} (accepted : ropeArgs node ctx = .ok args)
    (fine : (kernelRope ops node ctx).1 = none) :
    Rotates ops args start (outputData (kernelRope ops node ctx).2 node) := by
  have place : posOffset ctx args.seqLen = start := placed.offset args.seqLen
  obtain ⟨output, binds⟩ := ropeArgs_binds accepted
  simp only [kernelRope, accepted, place] at fine ⊢
  by_cases fits : RopeFits ops.simdWidth args start
  · rw [if_pos fits, outputData_write ctx node _ binds]
    exact ropeRows_rotates ops args start
  · rw [if_neg fits] at fine
    cases fine

/-- Every kernel but attention writes tensor data only. -/
theorem kernel_onlyData (ops : FloatOps α) {other : KernelRegistry α (RuntimeContext α)}
    (onlyData : OnlyData other) {node : Node α} {kernel : KernelFn α (RuntimeContext α)}
    (registered : cpuRegistry ops other node.opType = some kernel)
    (noAttention : node.opType ≠ .attention) (ctx : RuntimeContext α) :
    (kernel node ctx).2 = { ctx with bindings := (kernel node ctx).2.bindings } ∧
      SameForms ctx.bindings (kernel node ctx).2.bindings := by
  by_cases rope : node.opType = .roPE
  · rw [rope] at registered
    obtain rfl := Option.some.inj registered
    unfold kernelRope
    split
    · exact ⟨rfl, SameForms.refl _⟩
    · dsimp only
      split
      · exact ⟨rfl, writeData_forms ctx _ _⟩
      · exact ⟨rfl, SameForms.refl _⟩
  · have foreign : other node.opType = some kernel := by
      rw [← registered]
      unfold cpuRegistry
      split <;> simp_all
    exact onlyData _ kernel foreign node ctx

omit [Field α] [LinearOrder α] in
theorem Placed.rebind {ctx : RuntimeContext α} {paged : PagedKVCache α} {seqId start : Int}
    (placed : Placed ctx paged seqId start) (bindings : Nat → Option (Tensor α)) :
    Placed { ctx with bindings := bindings } paged seqId start :=
  ⟨⟨placed.toServing, placed.attached, placed.memory⟩, placed.sequence, placed.position⟩

/-- No node of a run moves the position of the run. -/
theorem runNode_placed (ops : FloatOps α) {other : KernelRegistry α (RuntimeContext α)}
    (onlyData : OnlyData other) (graph : Graph α) (nid : Nat) {ctx : RuntimeContext α}
    {seqId start : Int} (placed : ∃ paged, Placed ctx paged seqId start) :
    (∃ paged, Placed (CpuExecutor.runNode (cpuRegistry ops other) graph nid ctx).2 paged
      seqId start) ∧
    Continues ctx (CpuExecutor.runNode (cpuRegistry ops other) graph nid ctx).2 := by
  obtain ⟨paged, placed⟩ := placed
  rcases CpuExecutor.runNode_cases (cpuRegistry ops other) graph nid ctx with
    ⟨same, _⟩ | ⟨node, kernel, _, registered, same, _⟩
  · rw [same]
    exact ⟨⟨paged, placed⟩, Continues.refl _⟩
  · rw [same]
    by_cases attention : node.opType = .attention
    · rw [attention] at registered
      obtain rfl := Option.some.inj registered
      obtain ⟨after, here, continues, _⟩ := kernelAttention_placed ops placed
      exact ⟨⟨after, here⟩, continues⟩
    · obtain ⟨frame, forms⟩ := kernel_onlyData ops onlyData registered attention ctx
      rw [frame]
      exact ⟨⟨paged, placed.rebind _⟩, forms, rfl, rfl⟩

theorem runNodes_placed (ops : FloatOps α) {other : KernelRegistry α (RuntimeContext α)}
    (onlyData : OnlyData other) (graph : Graph α) (order : List Nat) {ctx : RuntimeContext α}
    {seqId start : Int} (placed : ∃ paged, Placed ctx paged seqId start) :
    (∃ paged, Placed (CpuExecutor.runNodes (cpuRegistry ops other) graph order ctx).2 paged
      seqId start) ∧
    Continues ctx (CpuExecutor.runNodes (cpuRegistry ops other) graph order ctx).2 := by
  refine tryList_preserves (fun mid => (∃ paged, Placed mid paged seqId start) ∧ Continues ctx mid)
    _ order ctx ⟨placed, Continues.refl _⟩ ?_
  rintro nid _ mid ⟨held, continues⟩
  obtain ⟨next, onward⟩ := runNode_placed ops onlyData graph nid held
  exact ⟨next, continues.trans onward⟩

/-- The kernels of a run store its K and V rows, in every layer, at the positions from
`start` on, and rotate its rows for them. -/
def PlacesFrom (ops : FloatOps α) (other : KernelRegistry α (RuntimeContext α)) (graph : Graph α)
    (order : List Nat) (ctx : RuntimeContext α) (seqId start : Int) : Prop :=
  ∀ node mid, Starts ops other graph order ctx node mid → ∃ paged, mid.pagedKvCache = some paged ∧
    (node.opType = .attention → ∃ after,
      (kernelAttention ops node mid).2.pagedKvCache = some after ∧
      ∀ args, attentionArgs node mid = .ok args → ∃ count ≤ args.seqLen.toNat,
        Stores args seqId start count paged after ∧
        ((kernelAttention ops node mid).1 = none → count = args.seqLen.toNat)) ∧
    (node.opType = .roPE → ∀ args, ropeArgs node mid = .ok args →
      (kernelRope ops node mid).1 = none →
      Rotates ops args start (outputData (kernelRope ops node mid).2 node))

/-- No index of an attention or a RoPE call of a run overflows. -/
def StaysDefined (ops : FloatOps α) (other : KernelRegistry α (RuntimeContext α)) (graph : Graph α)
    (order : List Nat) (ctx : RuntimeContext α) : Prop :=
  ∀ node mid, Starts ops other graph order ctx node mid →
    (node.opType = .attention → (kernelAttention ops node mid).1 ≠ some .undefined) ∧
    (node.opType = .roPE → (kernelRope ops node mid).1 ≠ some .undefined)

theorem pagedAttention_defined (ops : FloatOps α) (args : AttentionArgs α) (output : Nat)
    (paged : PagedKVCache α) (ctx : RuntimeContext α) :
    (pagedAttention ops args output paged ctx).1 ≠ some .undefined := by
  unfold pagedAttention
  dsimp only
  split
  · simp
  · split_ifs
    · simp
    all_goals
      split <;> simp

theorem placed_defined (ops : FloatOps α) {other : KernelRegistry α (RuntimeContext α)}
    (onlyData : OnlyData other) {graph : Graph α} {order : List Nat} {ctx : RuntimeContext α}
    {seqId start : Int} (placed : ∃ paged, Placed ctx paged seqId start)
    (ints : ChunkInts ops graph order ctx) : StaysDefined ops other graph order ctx := by
  rintro node mid ⟨first, nid, rest, split, found, reached⟩
  have member : nid ∈ order := by rw [split]; simp
  obtain ⟨⟨paged, here⟩, ⟨forms, _, _⟩⟩ := runNodes_placed ops onlyData graph first placed
  rw [reached] at here forms
  refine ⟨fun op => ?_, fun op => ?_⟩
  · cases accepted : attentionArgs node mid with
    | error failure =>
        simp only [kernelAttention, accepted]
        exact fun no => attentionArgs_defined node mid (by rw [accepted, Option.some.inj no])
    | ok args =>
        rw [kernelAttention_eq ops here.cache accepted
          (ints.attentionFits member found op forms here.cache accepted)]
        exact pagedAttention_defined ops args _ paged mid
  · cases accepted : ropeArgs node mid with
    | error failure =>
        simp only [kernelRope, accepted]
        exact fun no => ropeArgs_defined node mid (by rw [accepted, Option.some.inj no])
    | ok args =>
        obtain ⟨_, begun⟩ := placed
        have fits := ints.ropeFits member found op forms
          (fun seqLen => (here.offset seqLen).trans (begun.offset seqLen).symm) accepted
        simp [kernelRope, accepted, fits]

theorem placed_placesFrom (ops : FloatOps α) {other : KernelRegistry α (RuntimeContext α)}
    (onlyData : OnlyData other) (graph : Graph α) (order : List Nat) {ctx : RuntimeContext α}
    {seqId start : Int} (placed : ∃ paged, Placed ctx paged seqId start) :
    PlacesFrom ops other graph order ctx seqId start := by
  rintro node mid ⟨first, nid, rest, _, _, reached⟩
  obtain ⟨⟨paged, here⟩, _⟩ := runNodes_placed ops onlyData graph first placed
  rw [reached] at here
  refine ⟨paged, here.attached, fun _ => ?_, fun _ args => kernelRope_placed ops here⟩
  obtain ⟨after, left, _, stored⟩ := kernelAttention_placed ops here
  exact ⟨after, left.attached, stored⟩

omit [Field α] [LinearOrder α] in
theorem advance_frame (ctx : RuntimeContext α) :
    ctx.advanceKvCacheStep.2.pagedKvCache = ctx.pagedKvCache ∧
      ctx.advanceKvCacheStep.2.bindings = ctx.bindings ∧
      ctx.advanceKvCacheStep.2.pagedKvWritePos = -1 := by
  unfold RuntimeContext.advanceKvCacheStep
  split
  · exact ⟨rfl, rfl, rfl⟩
  · split
    · exact ⟨rfl, rfl, rfl⟩
    · split
      · exact ⟨rfl, rfl, rfl⟩
      · split <;> exact ⟨rfl, rfl, rfl⟩

/-- Every run, failed or not, leaves paged mode on. -/
theorem pagedStep_mode (ops : FloatOps α) {other : KernelRegistry α (RuntimeContext α)}
    (onlyData : OnlyData other) (graph : Graph α) (order : List Nat) {ctx : RuntimeContext α}
    (run : PagedRun α) (mode : ∃ paged, PagedMode ctx paged) :
    ∃ paged, PagedMode (pagedStep ops other graph order ctx run) paged := by
  obtain ⟨paged, mode⟩ := mode
  have placed : Placed (enter ctx run) paged run.sequenceId (pagedPosition (enter ctx run) paged) :=
    ⟨⟨mode.toServing, mode.attached, mode.memory⟩, rfl, rfl⟩
  obtain ⟨⟨after, here⟩, _⟩ := runNodes_placed ops onlyData graph order ⟨paged, placed⟩
  unfold pagedStep pagedRun CpuExecutor.run
  generalize CpuExecutor.runNodes (cpuRegistry ops other) graph order (enter ctx run) = result
    at here
  obtain ⟨err, mid⟩ := result
  cases err with
  | some failure => exact ⟨after, here.toPagedMode⟩
  | none =>
      have left : mid.advanceKvCacheStep.2.pagedKvCache = some after :=
        (advance_frame mid).1.trans here.attached
      have unset : mid.advanceKvCacheStep.2.pagedKvWritePos < 2147483648 := by
        rw [(advance_frame mid).2.2]
        decide
      dsimp only
      split <;> exact ⟨after, here.toServing, left, unset⟩

/-- The remembered position is not that of another sequence or of a broken run. -/
def Fresh (ctx : RuntimeContext α) (run : PagedRun α) : Prop :=
  ctx.pagedKvWritePos < 0 ∨
    ∃ paged, ctx.pagedKvCache = some paged ∧
      ctx.pagedKvWritePos = paged.sequenceLength run.sequenceId

omit [Field α] [LinearOrder α] in
theorem Fresh.placed {ctx : RuntimeContext α} {run : PagedRun α} (fresh : Fresh ctx run)
    {paged : PagedKVCache α} (mode : PagedMode ctx paged) :
    Placed (enter ctx run) paged run.sequenceId (paged.sequenceLength run.sequenceId) := by
  refine ⟨⟨mode.toServing, mode.attached, mode.memory⟩, rfl, ?_⟩
  change (if ctx.pagedKvWritePos ≥ 0 then ctx.pagedKvWritePos
    else paged.sequenceLength run.sequenceId) = _
  rcases fresh with unset | ⟨other, attached, same⟩
  · rw [if_neg (by omega)]
  · obtain rfl := Option.some.inj (mode.attached.symm.trans attached)
    split
    · exact same
    · rfl

omit [Field α] [LinearOrder α] in
/-- A fresh position is one that a sequence can have. -/
theorem Fresh.mode {ctx : RuntimeContext α} {run : PagedRun α} (fresh : Fresh ctx run)
    {paged : PagedKVCache α} (attached : ctx.pagedKvCache = some paged) (serving : paged.Serving) :
    PagedMode ctx paged := by
  refine ⟨serving, attached, ?_⟩
  rcases fresh with unset | ⟨other, held, same⟩
  · omega
  · obtain rfl := Option.some.inj (attached.symm.trans held)
    rw [same]
    exact serving.ints _

/-- In a session whose runs all start with a fresh position and `int` offsets, failed
runs included, every run works from the length its sequence has at the start of the
run. -/
theorem write_position (ops : FloatOps α) {other : KernelRegistry α (RuntimeContext α)}
    (onlyData : OnlyData other) (graph : Graph α) (order : List Nat) {ctx : RuntimeContext α}
    {calls : List (Op α)} (bounds : ∀ op ∈ calls, op.IsInt ∧ op.Bounded)
    (attached : ctx.pagedKvCache = some (runs calls))
    (ready : (runs calls).initialized = true) {session : List (PagedRun α)}
    (guarded : Machine.Guarded (pagedStep ops other graph order)
      (fun ctx run => Fresh ctx run ∧ ChunkInts ops graph order (enter ctx run)) ctx session)
    {prior rest : List (PagedRun α)} {run : PagedRun α} (split : session = prior ++ run :: rest) :
    ∃ paged,
      (Machine.run (pagedStep ops other graph order) ctx prior).pagedKvCache = some paged ∧
      PlacesFrom ops other graph order
        (enter (Machine.run (pagedStep ops other graph order) ctx prior) run) run.sequenceId
        (paged.sequenceLength run.sequenceId) ∧
      StaysDefined ops other graph order
        (enter (Machine.run (pagedStep ops other graph order) ctx prior) run) := by
  have begun : ∃ paged, PagedMode ctx paged := by
    rw [split] at guarded
    cases prior with
    | nil => exact ⟨_, guarded.1.1.mode attached (runs_serving bounds ready)⟩
    | cons first others => exact ⟨_, guarded.1.1.mode attached (runs_serving bounds ready)⟩
  obtain ⟨paged, mode⟩ := Machine.run_invariant (pagedStep ops other graph order)
    (fun ctx => ∃ paged, PagedMode ctx paged)
    (fun ctx run mode => pagedStep_mode ops onlyData graph order run mode) ctx prior begun
  rw [split, Machine.guarded_append] at guarded
  obtain ⟨fresh, ints⟩ := guarded.2.1
  have placed := fresh.placed mode
  exact ⟨paged, mode.attached, placed_placesFrom ops onlyData graph order ⟨paged, placed⟩,
    placed_defined ops onlyData ⟨paged, placed⟩ ints⟩

end Positions

section OneHead

def headNode : Node ℚ :=
  { opType := .attention, inputs := [0, 1, 2], outputs := [3]
    attrs := fun key =>
      if key = "num_heads" ∨ key = "num_kv_heads" ∨ key = "head_dim" then some (.int 1) else none }

def sevens (shape : Shape) : Tensor ℚ := { shape := shape, data := fun _ => 7 }

def headRun (sequenceId : Int) (tokens : Nat) (shape : Shape) : PagedRun ℚ :=
  { sequenceId := sequenceId, tokens := tokens
    bindings := fun id => if id < 4 then some (sevens shape) else none }

theorem onlyData_none : OnlyData (fun _ => none : KernelRegistry ℚ (RuntimeContext ℚ)) :=
  fun _ _ no => by cases no

-- One block of one row, taken by sequence 1: a run on it finds no block and fails.
def fullCalls : List (Op ℚ) :=
  [.init 1 1 1 1 1, .writeTokens 1 0 0 (some fun _ => 5) (some fun _ => 5) 1]

def fullContext : RuntimeContext ℚ := { pagedKvCache := some (runs fullCalls) }

def oneToken : PagedRun ℚ := headRun 1 1 { dims := [1, 1, 1] }

theorem oneToken_ints (ctx : RuntimeContext ℚ) (sequenceId : Int) :
    ChunkInts unitOps { nodes := [headNode] } [0]
      (enter ctx { oneToken with sequenceId := sequenceId }) := by
  intro nid member node found
  obtain rfl : nid = 0 := by simpa using member
  obtain rfl := Except.ok.inj found
  refine ⟨fun _ args accepted => ?_, fun no => by cases no⟩
  obtain rfl := Except.ok.inj accepted
  exact ⟨by decide, by decide⟩

def headStep : RuntimeContext ℚ → PagedRun ℚ → RuntimeContext ℚ :=
  pagedStep unitOps (fun _ => none) { nodes := [headNode] } [0]

theorem fullCalls_bounds : ∀ op ∈ fullCalls, op.IsInt ∧ op.Bounded := by
  simp [fullCalls, Op.IsInt, Op.Bounded]

theorem write_position_afterFailure :
    ∃ paged, (Machine.run headStep fullContext [oneToken]).pagedKvCache = some paged ∧
      PlacesFrom unitOps (fun _ => none) { nodes := [headNode] } [0]
        (enter (Machine.run headStep fullContext [oneToken]) oneToken) oneToken.sequenceId
        (paged.sequenceLength oneToken.sequenceId) := by
  obtain ⟨paged, mode⟩ : ∃ paged, PagedMode (headStep fullContext oneToken) paged :=
    pagedStep_mode unitOps onlyData_none _ _ oneToken
      ⟨_, runs_serving fullCalls_bounds (by decide), rfl, by decide⟩
  have length : (headStep fullContext oneToken).pagedKvCache.map (·.sequenceLength 1) =
      some 1 := by decide
  rw [mode.attached, Option.map_some, Option.some.injEq] at length
  have position : (headStep fullContext oneToken).pagedKvWritePos = 1 := by decide
  have guarded : Machine.Guarded headStep (fun ctx run => Fresh ctx run ∧
      ChunkInts unitOps { nodes := [headNode] } [0] (enter ctx run)) fullContext
      [oneToken, oneToken] :=
    ⟨⟨Or.inl (by decide), oneToken_ints _ 1⟩,
      ⟨Or.inr ⟨paged, mode.attached, position.trans length.symm⟩, oneToken_ints _ 1⟩, trivial⟩
  have attached : fullContext.pagedKvCache = some (runs fullCalls) := rfl
  have split : [oneToken, oneToken] = [oneToken] ++ oneToken :: [] := rfl
  obtain ⟨paged, held, places, _⟩ :=
    write_position unitOps onlyData_none _ _ fullCalls_bounds attached (by decide) guarded split
  exact ⟨paged, held, places⟩

-- One layer and two blocks of two rows; sequence 1 holds one row.
def staleCalls : List (Op ℚ) :=
  [.init 1 1 1 2 2, .writeTokens 1 0 0 (some fun _ => 5) (some fun _ => 5) 1]

theorem staleCalls_bounds : ∀ op ∈ staleCalls, op.IsInt ∧ op.Bounded := by
  simp [staleCalls, Op.IsInt, Op.Bounded]

-- Three tokens for sequence 0 where only two rows are free.
def staleContext : RuntimeContext ℚ :=
  headStep { pagedKvCache := some (runs staleCalls) } (headRun 0 3 { dims := [1, 3, 1] })

/-- The next run, on sequence 1 of length 1, writes at position 0. -/
theorem stale_write_position :
    ∃ paged, staleContext.pagedKvCache = some paged ∧
      ¬ PlacesFrom unitOps (fun _ => none) { nodes := [headNode] } [0]
        (enter staleContext oneToken) 1 (paged.sequenceLength 1) := by
  obtain ⟨paged, mode⟩ : ∃ paged, PagedMode staleContext paged :=
    pagedStep_mode unitOps onlyData_none _ _ _
      ⟨_, runs_serving staleCalls_bounds (by decide), rfl, by decide⟩
  have after : ∀ {β : Type} (f : PagedKVCache ℚ → β) {b : β},
      staleContext.pagedKvCache.map f = some b → f paged = b := by
    intro β f b mapped
    rw [mode.attached] at mapped
    exact Option.some.inj mapped
  have length : paged.sequenceLength 1 = 1 := after (·.sequenceLength 1) (by decide)
  refine ⟨paged, mode.attached, fun placed => ?_⟩
  rw [length] at placed
  let mid := enter staleContext oneToken
  have position : staleContext.pagedKvWritePos = 0 := by decide
  have stale : Placed mid paged 1 0 := by
    refine ⟨⟨mode.toServing, mode.attached, mode.memory⟩, rfl, ?_⟩
    change (if staleContext.pagedKvWritePos ≥ 0 then staleContext.pagedKvWritePos else _) = (0 : Int)
    rw [position]
    rfl
  obtain ⟨same, attached, claimed, _⟩ := placed headNode mid ⟨[], 0, [], rfl, rfl, rfl⟩
  obtain rfl := Option.some.inj (mode.attached.symm.trans attached)
  let row := sevens { dims := [1, 1, 1] }
  have accepted : attentionArgs headNode mid =
      .ok (chunkArgs 1 1 1 0 true 1 row row row row) := rfl
  have fine : (kernelAttention unitOps headNode mid).1 = none := by decide +kernel
  obtain ⟨next, left, _, atZero⟩ := kernelAttention_placed unitOps stale
  obtain ⟨other, held, atOne⟩ := claimed rfl
  obtain rfl := Option.some.inj (left.attached.symm.trans held)
  obtain ⟨stored, _, storedZero, allZero⟩ := atZero _ accepted
  obtain ⟨count, _, storedOne, allOne⟩ := atOne _ accepted
  obtain rfl : stored = 1 := allZero fine
  obtain rfl : count = 1 := allOne fine
  have lengths := (storedZero.lengths 1).symm.trans (storedOne.lengths 1)
  rw [length] at lengths
  exact absurd lengths (by decide)

end OneHead

end MiniLLM.CpuKernelAdapter
