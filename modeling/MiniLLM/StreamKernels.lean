import MiniLLM.DecoderGraph
import MiniLLM.KernelAdapters
import MiniLLM.IndexArithmetic
import MiniLLM.RopeBatches
import MiniLLM.TensorSizes

/-!
Each CPU kernel against the law of its node. A run works on the positions `start, …,
start + n - 1`: a tensor holds a stream when its rows are the stream's rows of these
positions, and a kernel whose operands hold their streams leaves an output that does.
-/

namespace MiniLLM

open Loops Strides Cpu CpuKernelAdapter RowStream

variable {α : Type} [Field α]

/-- The value's tensor is there, shaped for `n` tokens, and unless it is computed it holds
what it stands for. -/
def Ready (dec : Decoder α) (start n : Nat) (ctx : ModelContext α) (id : Nat) : Meaning α → Prop
  | .tokens => ctx.bindings id = none ∧ ∃ tensor, ctx.tokens id = some tensor ∧
      tensor.allocated = true ∧ tensor.shape.dims = [1, (n : Int)] ∧
      ∀ s < n, tensor.data s = dec.tokens (start + s)
  | .weight name dims => ∃ tensor, ctx.bindings id = some tensor ∧ tensor.allocated = true ∧
      tensor.shape.dims = dims.map Nat.cast ∧ tensor.data = dec.weights name
  | .rows width _ => ∃ tensor, ctx.bindings id = some tensor ∧ tensor.allocated = true ∧
      tensor.shape.dims = [1, (n : Int), (width : Int)]

/-- The value's tensor holds what it stands for. -/
def Holds (start n : Nat) (ctx : ModelContext α) (id width : Nat) (s : RowStream α) : Prop :=
  ∃ tensor, ctx.bindings id = some tensor ∧ IsChunk tensor n width fun i => s (start + i)

/-- The rows of a stream at a run's positions. -/
def IsRows (start n width : Nat) (s : RowStream α) (data : Buffer α) : Prop :=
  ∀ i < n, ∀ j < width, data (i * width + j) = s (start + i) j

/-- A kernel that leaves the stream in its output and changes nothing else. -/
def Computes (kernel : KernelFn α (ModelContext α)) (node : Node α) (ctx : ModelContext α)
    (start n out width : Nat) (s : RowStream α) : Prop :=
  ∃ data, IsRows start n width s data ∧ kernel node ctx =
    (none, { ctx with toRuntimeContext := ctx.writeData out data })

section Counts

omit [Field α]

theorem intProduct_eq {dims : List Int} (small : IsInt (dims.foldl (· * ·) 1)) :
    intProduct dims = dims.foldl (· * ·) 1 := by
  have wrapped := foldl_wrap32 dims 1
  rw [show wrap32 1 = 1 by decide, small.wrap] at wrapped
  exact wrapped

variable {shape : Shape} {n width : Nat} (dims : shape.dims = [1, (n : Int), (width : Int)])
include dims

theorem chunk_rows (small : n < 2147483648) : intProduct shape.dims.dropLast = n := by
  have product : shape.dims.dropLast.foldl (· * ·) 1 = (n : Int) := by simp [dims]
  rw [intProduct_eq (by rw [product]; exact ⟨by omega, by omega⟩), product]

theorem chunk_count (small : n * width < 2147483648) :
    intProduct shape.dims = (n * width : Nat) := by
  have product : shape.dims.foldl (· * ·) 1 = ((n * width : Nat) : Int) := by simp [dims]
  rw [intProduct_eq (by rw [product]; exact ⟨by omega, by omega⟩), product]

theorem chunk_width (small : width < 2147483648) : intDim shape (shape.rank - 1) = .ok (width : Int) := by
  simp only [intDim, Shape.dim, Shape.rank, dims]
  simp [wrap32_eq (width : Int) (by omega) (by omega)]

theorem chunk_numel (small : n * width < 2147483648) :
    numelOf shape = .ok (n * width) := by
  have static : shape.hasDynamicDim = false := by simp [Shape.hasDynamicDim, dims]
  have count : shape.elements = n * width := by simp [Shape.elements, dims]
  rw [numelOf, Shape.numel_static static, count, if_pos (by omega)]

end Counts

section Guards

theorem withinInt_true {condition : Prop} [Decidable condition] (holds : condition) :
    withinInt condition = .ok () := if_pos holds

theorem fits_int {count : Nat} (small : count < 2147483648) : count ≤ intMax :=
  Nat.le_of_lt_succ small

theorem rowLoop_fits {register rows width : Nat} (total : rows * width + register < 2147483648) :
    RowLoopFits register rows width := by
  refine ⟨RowsFit.of_total (fits_int (by omega)), fun some => VectorsFit.of_total (fits_int ?_)⟩
  have := Nat.le_mul_of_pos_left width some
  omega

theorem sgemmNt_fits {register n inFeatures outFeatures : Nat}
    (xRows : n * inFeatures + register < 2147483648) (outRows : n * outFeatures < 2147483648)
    (weights : outFeatures * inFeatures < 2147483648) :
    Gemm.SgemmNtFits register n outFeatures inFeatures := by
  intro some
  exact ⟨RowsFit.of_total (fits_int (by omega)), RowsFit.of_total (fits_int outRows),
    RowsFit.of_total (fits_int weights), fun _ => (rowLoop_fits xRows).2 some⟩

end Guards

section Operands

omit [Field α]

theorem getOperand_floats {ctx : ModelContext α} {id : Nat} {tensor : Tensor α}
    (binds : ctx.bindings id = some tensor) (role : String) :
    getOperand ctx id role = .ok (.floats tensor) := by
  simp [getOperand, ModelContext.operand, binds]

theorem checkOperandAllocated_ok {operand : Operand α} (allocated : operand.allocated = true)
    (name : String) : checkOperandAllocated operand name = .ok () := by
  simp [checkOperandAllocated, require, allocated]

end Operands

section Kernels

variable {dec : Decoder α} {start n : Nat} {ctx : ModelContext α} {node : Node α}

omit [Field α] in
/-- A kernel that writes what it computed. -/
theorem computes_writingModel {compute : Node α → ModelContext α → Except Failure (Buffer α)}
    (data : Buffer α) {out width : Nat} {s : RowStream α} (outputs : node.outputs = [out])
    (computed : compute node ctx = .ok data) (rows : IsRows start n width s data) :
    Computes (writingModel compute) node ctx start n out width s := by
  refine ⟨data, rows, ?_⟩
  simp only [writingModel, computed, outputs]
  rfl

omit [Field α] in
theorem computes_writing {compute : Node α → RuntimeContext α → Except Failure (Buffer α)}
    (data : Buffer α) {out width : Nat} {s : RowStream α} (outputs : node.outputs = [out])
    (computed : compute node ctx.toRuntimeContext = .ok data) (rows : IsRows start n width s data) :
    Computes (onFloats (writing compute)) node ctx start n out width s := by
  refine ⟨data, rows, ?_⟩
  simp only [onFloats, ModelContext.onFloats, writing, computed, outputs]
  rfl

omit [Field α] in
theorem kernelEmbedding_computes {ids weight out hidden : Nat} {name : String} {s : RowStream α}
    (inputs : node.inputs = [ids, weight]) (outputs : node.outputs = [out])
    (idsReady : Ready dec start n ctx ids .tokens)
    (weightReady : Ready dec start n ctx weight (.weight name [dec.vocab, hidden]))
    (outReady : Ready dec start n ctx out (.rows hidden s))
    (inside : ∀ i < n, 0 ≤ dec.tokens (start + i) ∧ dec.tokens (start + i) < dec.vocab)
    (vocab : 0 < dec.vocab ∧ dec.vocab < 2147483648) (count : n < 2147483648)
    (wide : 0 < hidden ∧ hidden < 2147483648)
    (rows : n * hidden + dec.ops.simdWidth < 2147483648)
    (weights : dec.vocab * hidden < 2147483648) :
    Computes (kernelEmbedding dec.ops) node ctx start n out hidden
      (embedded (dec.weights name) hidden dec.tokens) := by
  obtain ⟨unbound, ids', bindsIds, idsAllocated, idsDims, ids_eq⟩ := idsReady
  obtain ⟨w, bindsW, wAllocated, wDims, wData⟩ := weightReady
  obtain ⟨output, bindsOut, outAllocated, outDims⟩ := outReady
  have idsOperand : getOperand ctx ids "input_ids" = .ok (.ints ids') := by
    simp [getOperand, ModelContext.operand, unbound, bindsIds]
  have numel : numelOf ids'.shape = .ok n := by
    have static : ids'.shape.hasDynamicDim = false := by simp [Shape.hasDynamicDim, idsDims]
    have elements : ids'.shape.elements = n := by simp [Shape.elements, idsDims]
    rw [numelOf, Shape.numel_static static, elements, if_pos (by omega)]
  have hiddenDim : intDim w.shape 1 = .ok (hidden : Int) := by
    simp [intDim, Shape.dim, wDims, wrap32_eq (hidden : Int) (by omega) (by omega)]
  have vocabDim : intDim w.shape 0 = .ok (dec.vocab : Int) := by
    simp [intDim, Shape.dim, wDims, wrap32_eq (dec.vocab : Int) (by omega) (by omega)]
  have tokens : wrap32 (n : Int) = n := wrap32_eq _ (by omega) (by omega)
  have shaped : ¬ ((n : Int) < 0 ∨ (hidden : Int) ≤ 0 ∨ (dec.vocab : Int) ≤ 0) := by omega
  have ranged : ∀ i < n, ¬ (ids'.data i < 0 ∨ ids'.data i ≥ dec.vocab) := by
    intro i below
    rw [ids_eq i below]
    have := inside i below
    omega
  have offsets : ∀ i < n, (ids'.data i).toNat * hidden ≤ intMax := by
    intro i below
    rw [ids_eq i below]
    have token := inside i below
    exact (Nat.mul_le_mul_right hidden (by omega)).trans (fits_int weights)
  refine computes_writingModel (embedding dec.ops w.data ids'.data output.data n hidden) outputs ?_
    fun i row j column => ?_
  · simp only [computeEmbedding, inputs, outputs, List.getD_cons_zero, List.getD_cons_succ, ok_bind,
      idsOperand, getOperand_floats bindsW, getOperand_floats bindsOut, weightsOf, floatsOf, intsOf,
      checkOperandAllocated_ok, Operand.allocated, idsAllocated, wAllocated, outAllocated, numel,
      hiddenDim, vocabDim, tokens, Int.toNat_natCast, require_true shaped, require_true ranged,
      withinInt_true offsets, withinInt_true (rowLoop_fits rows), pure, Except.pure]
  · rw [embedding_at dec.ops w.data ids'.data output.data row column, wData, ids_eq i row]
    rfl

theorem kernelLinear_computes {x weight out inFeatures outFeatures : Nat} {name : String}
    {s t : RowStream α} (inputs : node.inputs = [x, weight]) (outputs : node.outputs = [out])
    (xHolds : Holds start n ctx x inFeatures s)
    (weightReady : Ready dec start n ctx weight (.weight name [outFeatures, inFeatures]))
    (outReady : Ready dec start n ctx out (.rows outFeatures t))
    (tokens : 0 < n ∧ n < 2147483648) (inWide : 0 < inFeatures ∧ inFeatures < 2147483648)
    (outWide : 0 < outFeatures ∧ outFeatures < 2147483648)
    (fits : Gemm.SgemmNtFits dec.ops.simdWidth n outFeatures inFeatures) :
    Computes (kernelLinear dec.ops) node ctx start n out outFeatures
      (projected (dec.weights name) inFeatures s) := by
  obtain ⟨x', bindsX, chunk⟩ := xHolds
  obtain ⟨w, bindsW, wAllocated, wDims, wData⟩ := weightReady
  obtain ⟨output, bindsOut, outAllocated, outDims⟩ := outReady
  have features : intDim w.shape 0 = .ok (outFeatures : Int) := by
    simp [intDim, Shape.dim, wDims, wrap32_eq (outFeatures : Int) (by omega) (by omega)]
  have shaped : ¬ ((n : Int) ≤ 0 ∨ (outFeatures : Int) ≤ 0 ∨ (inFeatures : Int) ≤ 0) := by omega
  have product : Gemm.sgemmNt dec.ops.simdWidth x'.data w.data output.data n outFeatures
      inFeatures = some (Gemm.sgemmNtRows dec.ops.simdWidth id x'.data w.data output.data n
        outFeatures inFeatures) := if_pos fits
  have computed : computeLinear dec.ops node ctx = .ok
      (Gemm.sgemmNtRows dec.ops.simdWidth id x'.data w.data output.data n outFeatures inFeatures, n,
        outFeatures) := by
    simp only [computeLinear, inputs, outputs, List.getD_cons_zero, List.getD_cons_succ, ok_bind,
      getOperand_floats bindsX, getOperand_floats bindsW, getOperand_floats bindsOut, weightsOf,
      floatsOf, checkOperandAllocated_ok, Operand.allocated, chunk.allocated, wAllocated,
      outAllocated, chunk_rows chunk.dims tokens.2, chunk_width chunk.dims inWide.2, features,
      require_true shaped, Int.toNat_natCast, product, Failure.ofDefined, pure, Except.pure]
  refine ⟨_, fun i row j column => ?_, by
    simp only [kernelLinear, computed, inputs, outputs, List.getD_cons_zero]
    rfl⟩
  rw [Gemm.sgemmNtRows_at _ id x'.data w.data output.data row column, wData]
  refine Finset.sum_congr rfl fun k member => ?_
  rw [chunk.data i row k (Finset.mem_range.mp member)]
  rfl

theorem normedRow_congr (ops : FloatOps α) (gamma : Buffer α) {hidden : Nat} (eps : α)
    {x y : Buffer α} (same : ∀ h < hidden, x h = y h) {h : Nat} (inside : h < hidden) :
    normedRow ops gamma hidden eps x h = normedRow ops gamma hidden eps y h := by
  have squares : ∑ k ∈ Finset.range hidden, x k * x k = ∑ k ∈ Finset.range hidden, y k * y k :=
    Finset.sum_congr rfl fun k member => by rw [same k (Finset.mem_range.mp member)]
  rw [normedRow, normedRow, squares, same h inside]

theorem kernelRmsnorm_computes {x gamma out hidden : Nat} {name : String} {s t : RowStream α}
    (inputs : node.inputs = [x, gamma]) (outputs : node.outputs = [out])
    (eps : ∀ fallback, node.attrDouble "eps" fallback = dec.eps)
    (xHolds : Holds start n ctx x hidden s)
    (gammaReady : Ready dec start n ctx gamma (.weight name [hidden]))
    (outReady : Ready dec start n ctx out (.rows hidden t)) (tokens : n < 2147483648)
    (wide : hidden < 2147483648) (rows : n * hidden + dec.ops.simdWidth < 2147483648) :
    Computes (onFloats (kernelRmsnorm dec.ops)) node ctx start n out hidden
      (normed dec.ops (dec.weights name) hidden dec.eps s) := by
  obtain ⟨x', bindsX, chunk⟩ := xHolds
  obtain ⟨g, bindsG, gAllocated, _, gData⟩ := gammaReady
  obtain ⟨output, bindsOut, outAllocated, _⟩ := outReady
  refine computes_writing (rmsnorm dec.ops x'.data g.data output.data n hidden dec.eps) outputs ?_
    fun i row j column => ?_
  · simp only [computeRmsnorm, inputs, outputs, List.getD_cons_zero, List.getD_cons_succ, ok_bind,
      getTensor_bound bindsX, getTensor_bound bindsG, getTensor_bound bindsOut, checkAllocated_ok,
      chunk.allocated, gAllocated, outAllocated, chunk_rows chunk.dims tokens,
      chunk_width chunk.dims wide, eps, Int.toNat_natCast, withinInt_true (rowLoop_fits rows), pure,
      Except.pure]
  · rw [rmsnorm_at dec.ops x'.data g.data output.data dec.eps row column, gData]
    exact normedRow_congr dec.ops _ dec.eps (chunk.data i row) column

theorem kernelQkNorm_computes {x gamma out heads : Nat} {name : String} {s t : RowStream α}
    (inputs : node.inputs = [x, gamma]) (outputs : node.outputs = [out])
    (eps : ∀ fallback, node.attrDouble "eps" fallback = dec.eps)
    (dim : node.attrInt "head_dim" 64 = dec.hd)
    (xHolds : Holds start n ctx x (heads * dec.hd) s)
    (gammaReady : Ready dec start n ctx gamma (.weight name [dec.hd]))
    (outReady : Ready dec start n ctx out (.rows (heads * dec.hd) t))
    (positive : 0 < dec.hd ∧ dec.hd < 2147483648)
    (small : n * (heads * dec.hd) + dec.ops.simdWidth < 2147483648) :
    Computes (onFloats (kernelQkNorm dec.ops)) node ctx start n out (heads * dec.hd)
      (headsNormed dec.ops (dec.weights name) dec.hd dec.eps s) := by
  obtain ⟨x', bindsX, chunk⟩ := xHolds
  obtain ⟨g, bindsG, gAllocated, _, gData⟩ := gammaReady
  obtain ⟨output, bindsOut, outAllocated, _⟩ := outReady
  have headDim : wrap32 (dec.hd : Int) = dec.hd := wrap32_eq _ (by omega) (by omega)
  have rows : ((n * (heads * dec.hd) : Nat) : Int).tdiv dec.hd = ((n * heads : Nat) : Int) := by
    rw [← Nat.mul_assoc, Nat.cast_mul, Int.mul_tdiv_cancel _ (by omega)]
  have divides : (dec.hd : Int) ≠ 0 := by omega
  have loops : RowLoopFits dec.ops.simdWidth (n * heads) dec.hd :=
    rowLoop_fits (by rwa [Nat.mul_assoc])
  refine computes_writing (rmsnorm dec.ops x'.data g.data output.data (n * heads) dec.hd dec.eps)
    outputs ?_ fun i row j column => ?_
  · simp only [computeQkNorm, inputs, outputs, List.getD_cons_zero, List.getD_cons_succ, ok_bind,
      getTensor_bound bindsX, getTensor_bound bindsG, getTensor_bound bindsOut, checkAllocated_ok,
      chunk.allocated, gAllocated, outAllocated, chunk_count chunk.dims (by omega), dim, headDim,
      rows, eps, Int.toNat_natCast, withinInt_true divides, withinInt_true loops, pure, Except.pure]
  · -- Head `j / hd` of row `i` is row `i * heads + j / hd` of the norm.
    have head : j / dec.hd < heads := Nat.div_lt_of_lt_mul (by rwa [Nat.mul_comm])
    have inside := Nat.mod_lt j positive.1
    have place : i * (heads * dec.hd) + j = (i * heads + j / dec.hd) * dec.hd + j % dec.hd := by
      rw [Nat.add_mul, Nat.mul_assoc, Nat.add_assoc, Nat.div_add_mod']
    rw [place, rmsnorm_at dec.ops x'.data g.data output.data dec.eps (strided_lt row head) inside,
      gData]
    refine normedRow_congr dec.ops _ dec.eps (fun d below => ?_) inside
    rw [Nat.add_mul, Nat.mul_assoc, Nat.add_assoc]
    exact chunk.data i row _ (strided_lt head below)

/-- A rotation reads its head only. -/
theorem rotated_congr (ops : FloatOps α) (base : α) {headDim : Nat} (pos : Int) {x y : Buffer α}
    (same : ∀ d < headDim, x d = y d) {d : Nat} (inside : d < headDim) (even : headDim % 2 = 0) :
    rotated ops base headDim pos x d = rotated ops base headDim pos y d := by
  unfold rotated ropeEven ropeOdd
  by_cases first : d < headDim / 2
  · rw [if_pos first, if_pos first, same d inside, same (d + headDim / 2) (by omega)]
  · rw [if_neg first, if_neg first, same (d - headDim / 2) (by omega),
      same (d - headDim / 2 + headDim / 2) (by omega)]

theorem kernelRope_computes {x out heads : Nat} {s t : RowStream α} (inputs : node.inputs = [x])
    (outputs : node.outputs = [out]) (dim : node.attrInt "head_dim" 64 = dec.hd)
    (base : ∀ fallback, node.attrDouble "rope_base" fallback = dec.base)
    (xHolds : Holds start n ctx x (heads * dec.hd) s)
    (outReady : Ready dec start n ctx out (.rows (heads * dec.hd) t)) (positive : 0 < dec.hd)
    (even : dec.hd % 2 = 0) (pos : posOffset ctx.toRuntimeContext n = start) (tokens : 0 < n)
    (last : start + n ≤ 2147483648) (wide : 0 < heads * dec.hd)
    (rows : n * (heads * dec.hd) + dec.ops.simdWidth < 2147483648) :
    Computes (onFloats (kernelRope dec.ops)) node ctx start n out (heads * dec.hd)
      (headsRotated dec.ops dec.hd dec.base s) := by
  obtain ⟨x', bindsX, chunk⟩ := xHolds
  obtain ⟨output, bindsOut, outAllocated, _⟩ := outReady
  have count : n < 2147483648 := by
    have := Nat.le_mul_of_pos_right n wide
    omega
  have whole : heads * dec.hd < 2147483648 := by
    have := Nat.le_mul_of_pos_left (heads * dec.hd) tokens
    omega
  have head : dec.hd ≤ heads * dec.hd :=
    Nat.le_mul_of_pos_left dec.hd (Nat.pos_of_mul_pos_right wide)
  let args : RopeArgs α :=
    { x := x', output := output, seqLen := n, hidden := (heads * dec.hd : Nat)
      headStride := dec.hd, headDim := dec.hd, ropeBase := dec.base }
  have accepted : ropeArgs node ctx.toRuntimeContext = .ok args := by
    have width : dimOf x' (x'.shape.rank - 1) = .ok ((heads * dec.hd : Nat) : Int) := by
      simp [dimOf, Shape.dim, Shape.rank, chunk.dims]
    simp only [ropeArgs, inputs, outputs, List.getD_cons_zero, ok_bind, getTensor_bound bindsX,
      getTensor_bound bindsOut, checkAllocated_ok, chunk.allocated, outAllocated, width,
      chunk_rows chunk.dims count, wrap32_count (fits_int whole),
      wrap32_count (fits_int (head.trans_lt whole)), dim, base, pure, Except.pure]
    rfl
  have fits : RopeFits dec.ops.simdWidth args start := by
    have vectors : VectorsFit dec.ops.simdWidth (dec.hd / 2) :=
      VectorsFit.of_total (fits_int (by
        have := Nat.le_mul_of_pos_left (heads * dec.hd) tokens
        omega))
    refine ⟨show (dec.hd : Int) ≠ 0 by omega, fun _ _ => ⟨RowsFit.of_total (fits_int ?_), ?_,
      vectors, fun _ => rfl⟩⟩
    · change n * (heads * dec.hd) < 2147483648
      omega
    · change (start : Int) + n - 1 ≤ (2147483647 : Nat)
      omega
  refine ⟨ropeRows dec.ops args start, fun i row j column => ?_, ?_⟩
  · rw [ropeRows_eq dec.ops args _ even]
    have head : j / dec.hd < heads := Nat.div_lt_of_lt_mul (by rwa [Nat.mul_comm])
    have inside := Nat.mod_lt j positive
    have rotated := rotateRows_at (ropeRotation dec.ops dec.base dec.hd) args start rfl rfl
      (show i < ((n : Int)).toNat from row) head inside
    rw [Nat.add_assoc, Nat.div_add_mod'] at rotated
    have same : ∀ d < dec.hd, x'.data (i * (heads * dec.hd) + j / dec.hd * dec.hd + d) =
        RowStream.head dec.hd j (s (start + i)) d := fun d below =>
      (congrArg x'.data (Nat.add_assoc ..)).trans (chunk.data i row _ (strided_lt head below))
    exact rotated.trans (rotated_congr dec.ops dec.base _ same inside even)
  · have place : posOffset ctx.toRuntimeContext args.seqLen = start := pos
    simp only [onFloats, ModelContext.onFloats, kernelRope, accepted, place, if_pos fits, outputs,
      List.getD_cons_zero]

omit [Field α] in
/-- A kernel of two operands works column by column. -/
theorem computeBinary_computes {first second : String}
    {kernel : FloatOps α → Buffer α → Buffer α → Buffer α → Nat → Buffer α} {f : α → α → α}
    {a b out width : Nat}
    {s t r : RowStream α} (inputs : node.inputs = [a, b]) (outputs : node.outputs = [out])
    (pointwise : ∀ x y z count i, i < count → kernel dec.ops x y z count i = f (x i) (y i))
    (aHolds : Holds start n ctx a width s) (bHolds : Holds start n ctx b width t)
    (outReady : Ready dec start n ctx out (.rows width r))
    (small : n * width + dec.ops.simdWidth < 2147483648) :
    Computes (onFloats (writing (computeBinary dec.ops first second kernel))) node ctx start n out width
      fun p j => f (s p j) (t p j) := by
  obtain ⟨a', bindsA, chunkA⟩ := aHolds
  obtain ⟨b', bindsB, chunkB⟩ := bHolds
  obtain ⟨output, bindsOut, outAllocated, outDims⟩ := outReady
  have count : (wrap32 (n * width : Nat)).toNat = n * width := by
    rw [wrap32_eq _ (by omega) (by omega), Int.toNat_natCast]
  have vectors : VectorsFit dec.ops.simdWidth (n * width) := VectorsFit.of_total (fits_int small)
  refine computes_writing (kernel dec.ops a'.data b'.data output.data (n * width)) outputs ?_
    fun i row j column => ?_
  · simp only [computeBinary, inputs, outputs, List.getD_cons_zero, List.getD_cons_succ, ok_bind,
      getTensor_bound bindsA, getTensor_bound bindsB, getTensor_bound bindsOut, checkAllocated_ok,
      chunkA.allocated, chunkB.allocated, outAllocated, chunk_numel outDims (by omega), count,
      withinInt_true vectors, pure, Except.pure]
  · rw [pointwise _ _ _ _ _ (strided_lt row column), chunkA.data i row j column,
      chunkB.data i row j column]

theorem kernelAdd_computes {a b out width : Nat} {s t r : RowStream α}
    (inputs : node.inputs = [a, b]) (outputs : node.outputs = [out])
    (aHolds : Holds start n ctx a width s) (bHolds : Holds start n ctx b width t)
    (outReady : Ready dec start n ctx out (.rows width r))
    (small : n * width + dec.ops.simdWidth < 2147483648) :
    Computes (onFloats (kernelAdd dec.ops)) node ctx start n out width (summed s t) :=
  computeBinary_computes inputs outputs (fun x y z _ _ => add_at dec.ops x y z) aHolds bHolds
    outReady small

theorem kernelSwiglu_computes {gate up out width : Nat} {s t r : RowStream α}
    (inputs : node.inputs = [gate, up]) (outputs : node.outputs = [out])
    (gateHolds : Holds start n ctx gate width s) (upHolds : Holds start n ctx up width t)
    (outReady : Ready dec start n ctx out (.rows width r))
    (small : n * width + dec.ops.simdWidth < 2147483648) :
    Computes (onFloats (kernelSwiglu dec.ops)) node ctx start n out width (gated dec.ops s t) :=
  @computeBinary_computes α dec start n ctx node "gate" "up" fusedSiluMul
    (fun g u => g / (1 + dec.ops.exp (-g)) * u) gate up out width s t r inputs outputs
    (fun x y z _ _ => fusedSiluMul_at dec.ops x y z) gateHolds upHolds outReady small

end Kernels

end MiniLLM
