import MiniLLM.AttentionAccess

/-!
The checks of `kernel_embedding` and `kernel_linear` and the row offsets of the kernels
they call. The adapters cast dimensions and counts to `int`; the Float32 and BFloat16
templates multiply `int`s, the Q8_0 overloads multiply `size_t`s.
-/

namespace MiniLLM.CpuKernelAdapter

/-- What the adapters read of a tensor; `ints` is the data of an Int32 tensor. -/
structure BoundTensor where
  dtype : DType
  shape : Shape
  allocated : Bool := true
  ints : Nat → Int := fun _ => 0

abbrev Bindings := Nat → Option BoundTensor

def boundTensor (bindings : Bindings) (id : Nat) (role : String) : Except Failure BoundTensor :=
  match bindings id with
  | some tensor => .ok tensor
  | none => .error (.returned (.runtimeError
      (role ++ " tensor not found for ValueId %" ++ toString id)))

def boundAllocated (tensor : BoundTensor) (name : String) : Except Failure Unit :=
  require (tensor.allocated = true) (.runtimeError (name ++ " tensor not allocated"))

def checkDtypeFloat (tensor : BoundTensor) (name : String) : Except Failure Unit :=
  require (tensor.dtype = .float32)
    (.unsupported (name ++ " only supports Float32, got " ++ tensor.dtype.name))

def checkDtypeFloatBf16OrQ8 (tensor : BoundTensor) (name : String) : Except Failure Unit :=
  require (tensor.dtype = .float32 ∨ tensor.dtype = .bfloat16 ∨ tensor.dtype = .q8_0)
    (.unsupported (name ++ " supports Float32, BFloat16, or Q8_0 weights, got " ++
      tensor.dtype.name))

def checkQ8BlockAligned (tensor : BoundTensor) (blockDim : Int) (op : String) :
    Except Failure Unit :=
  require (tensor.dtype ≠ .q8_0 ∨ blockDim % 32 = 0)
    (.unsupported (op ++ " Q8_0 weights require the packed dimension to be a multiple of 32, got " ++
      toString blockDim))

def boundDim (tensor : BoundTensor) (i : Nat) : Except Failure Int :=
  match tensor.shape.dim i with
  | some d => .ok d
  | none => .error .thrown

def boundNumel (tensor : BoundTensor) : Except Failure Nat :=
  match tensor.shape.numel with
  | .ok n => .ok n
  | .error st => .error (.returned st)

/-- The offset of row `a` of rows of `b` elements, in the overload for the weight type. -/
def rowOffset (dtype : DType) (a b : Int) : Int :=
  if dtype = .q8_0 then (wrapSize (a.toNat * b.toNat) : Nat) else wrap32 (a * b)

structure EmbeddingCall where
  ids : BoundTensor
  weight : BoundTensor
  seqLen : Int
  hidden : Int
  vocabSize : Int

variable {Num : Type}

/-- `kernel_embedding` up to the call of the kernel. -/
def embeddingCall (bindings : Bindings) (node : Node Num) : Except Failure EmbeddingCall := do
  let ids ← boundTensor bindings (node.inputs.getD 0 0) "input_ids"
  let weight ← boundTensor bindings (node.inputs.getD 1 0) "weight"
  let output ← boundTensor bindings (node.outputs.getD 0 0) "output"
  boundAllocated ids "input_ids"
  boundAllocated weight "weight"
  boundAllocated output "output"
  checkDtypeFloatBf16OrQ8 weight "weight"
  checkDtypeFloat output "output"
  require (ids.dtype = .int32)
    (.unsupported ("input_ids only supports Int32, got " ++ ids.dtype.name))
  let idsNumel ← boundNumel ids
  let hidden ← boundDim weight 1
  let vocabSize ← boundDim weight 0
  require (¬ (wrap32 idsNumel < 0 ∨ wrap32 hidden ≤ 0 ∨ wrap32 vocabSize ≤ 0))
    (.invalidArgument "invalid embedding shape")
  checkQ8BlockAligned weight (wrap32 hidden) "embedding"
  require (∀ i < (wrap32 idsNumel).toNat, ¬ (ids.ints i < 0 ∨ ids.ints i ≥ wrap32 vocabSize))
    (.outOfRange "input_ids contains token id out of embedding vocabulary range")
  return {
    ids := ids, weight := weight
    seqLen := wrap32 idsNumel, hidden := wrap32 hidden, vocabSize := wrap32 vocabSize }

namespace EmbeddingCall

/-- Where the row of token `s` starts in the weights. -/
def weightRow (call : EmbeddingCall) (s : Nat) : Int :=
  rowOffset call.weight.dtype (call.ids.ints s) call.hidden

def outRow (call : EmbeddingCall) (s : Nat) : Int := rowOffset call.weight.dtype s call.hidden

end EmbeddingCall

structure LinearCall where
  x : BoundTensor
  weight : BoundTensor
  M : Int
  N : Int
  K : Int

/-- `kernel_linear` up to the call of `sgemm_nt`. -/
def linearCall (bindings : Bindings) (node : Node Num) : Except Failure LinearCall := do
  let x ← boundTensor bindings (node.inputs.getD 0 0) "x"
  let weight ← boundTensor bindings (node.inputs.getD 1 0) "weight"
  let output ← boundTensor bindings (node.outputs.getD 0 0) "output"
  boundAllocated x "x"
  boundAllocated weight "weight"
  boundAllocated output "output"
  checkDtypeFloat x "x"
  checkDtypeFloatBf16OrQ8 weight "weight"
  checkDtypeFloat output "output"
  let M := x.shape.dims.dropLast.foldl (fun m d => wrap32 (m * wrap32 d)) 1
  let K ← boundDim x (x.shape.rank - 1)
  let N ← boundDim weight 0
  require (¬ (M ≤ 0 ∨ wrap32 N ≤ 0 ∨ wrap32 K ≤ 0)) (.invalidArgument "invalid linear shape")
  checkQ8BlockAligned weight (wrap32 K) "linear"
  return { x := x, weight := weight, M := M, N := wrap32 N, K := wrap32 K }

namespace LinearCall

def aRow (call : LinearCall) (m : Nat) : Int := rowOffset call.weight.dtype m call.K

def cRow (call : LinearCall) (m : Nat) : Int := rowOffset call.weight.dtype m call.N

-- `n` is `n + i` in the unrolled columns.
def bRow (call : LinearCall) (n : Nat) : Int := rowOffset call.weight.dtype n call.K

end LinearCall

namespace BoundTensor

/-- The number of elements, 0 where the code finds none. -/
def elements (tensor : BoundTensor) : Int :=
  match tensor.shape.numel with
  | .ok n => n
  | .error _ => 0

def extent (tensor : BoundTensor) (i : Nat) : Int := (tensor.shape.dim i).getD 0

/-- The number of rows before the last dimension. -/
def rows (tensor : BoundTensor) : Int := tensor.shape.dims.dropLast.foldl (· * ·) 1

end BoundTensor

/-- Every `int` and every row offset of the call is the exact value. -/
structure EmbeddingCall.Exact (call : EmbeddingCall) : Prop where
  seqLen : call.seqLen = call.ids.elements
  hidden : call.hidden = call.weight.extent 1
  vocabSize : call.vocabSize = call.weight.extent 0
  weightRow : ∀ s < call.seqLen.toNat, call.weightRow s = call.ids.ints s * call.weight.extent 1
  outRow : ∀ s < call.seqLen.toNat, call.outRow s = s * call.weight.extent 1

/-- The counts stay in `int`, and so do the offsets of the last row of the output and of
every token's row, unless the weights are Q8_0. -/
structure EmbeddingCall.Fits (call : EmbeddingCall) : Prop where
  elements : call.ids.elements < 2147483648
  hidden : call.weight.extent 1 < 2147483648
  vocabSize : call.weight.extent 0 < 2147483648
  rows : call.weight.dtype = .q8_0 ∨
    (call.ids.elements - 1) * call.weight.extent 1 < 2147483648 ∧
      ∀ s < call.ids.elements.toNat, call.ids.ints s * call.weight.extent 1 < 2147483648

structure LinearCall.Exact (call : LinearCall) : Prop where
  M : call.M = call.x.rows
  N : call.N = call.weight.extent 0
  K : call.K = call.x.extent (call.x.shape.rank - 1)
  aRow : ∀ m < call.M.toNat, call.aRow m = m * call.x.extent (call.x.shape.rank - 1)
  cRow : ∀ m < call.M.toNat, call.cRow m = m * call.weight.extent 0
  bRow : ∀ n < call.N.toNat, call.bRow n = n * call.x.extent (call.x.shape.rank - 1)

/-- The counts stay in `int`, and so do the last row offsets of the three matrices,
unless the weights are Q8_0. -/
structure LinearCall.Fits (call : LinearCall) : Prop where
  rows : IsInt call.x.rows
  N : call.weight.extent 0 < 2147483648
  K : call.x.extent (call.x.shape.rank - 1) < 2147483648
  last : call.weight.dtype = .q8_0 ∨
    (call.x.rows - 1) * call.x.extent (call.x.shape.rank - 1) < 2147483648 ∧
      (call.x.rows - 1) * call.weight.extent 0 < 2147483648 ∧
      (call.weight.extent 0 - 1) * call.x.extent (call.x.shape.rank - 1) < 2147483648

theorem wrap32_eq_iff (x : Int) : wrap32 x = x ↔ IsInt x := by
  constructor
  · intro same
    have high := wrap32_lt x
    have low : -2147483648 ≤ wrap32 x := by unfold wrap32; omega
    rw [same] at high low
    exact ⟨low, high⟩
  · exact IsInt.wrap

theorem foldl_wrap32 (dims : List Int) (acc : Int) :
    dims.foldl (fun m d => wrap32 (m * wrap32 d)) (wrap32 acc) = wrap32 (dims.foldl (· * ·) acc) := by
  induction dims generalizing acc with
  | nil => rfl
  | cons d rest ih => rw [List.foldl_cons, List.foldl_cons, wrap32_mul, ih]

/-- The row offset of two `int`s is exact in the Q8_0 overload, and otherwise while it
stays in `int`. -/
theorem rowOffset_exact_iff (dtype : DType) {a b : Int} (lowA : 0 ≤ a) (highA : a < 2147483648)
    (lowB : 0 ≤ b) (highB : b < 2147483648) :
    rowOffset dtype a b = a * b ↔ dtype = .q8_0 ∨ a * b < 2147483648 := by
  have nonneg : 0 ≤ a * b := Int.mul_nonneg lowA lowB
  unfold rowOffset
  by_cases quantized : dtype = .q8_0
  · rw [if_pos quantized]
    have bound : a.toNat * b.toNat < 18446744073709551616 := by
      calc a.toNat * b.toNat ≤ 2147483648 * 2147483648 := Nat.mul_le_mul (by omega) (by omega)
        _ < 18446744073709551616 := by decide
    rw [wrapSize_eq bound, Nat.cast_mul, Int.toNat_of_nonneg lowA, Int.toNat_of_nonneg lowB]
    exact ⟨fun _ => Or.inl quantized, fun _ => rfl⟩
  · rw [if_neg quantized, wrap32_eq_iff, IsInt, or_iff_right quantized]
    exact ⟨fun int => int.2, fun high => ⟨by omega, high⟩⟩

theorem boundDim_ok {tensor : BoundTensor} {i : Nat} {d : Int} (found : boundDim tensor i = .ok d) :
    tensor.extent i = d ∧ (d = -1 ∨ 0 < d) := by
  unfold boundDim at found
  cases dim : tensor.shape.dim i with
  | none => rw [dim] at found; cases found
  | some e =>
      rw [dim] at found
      obtain rfl := Except.ok.inj found
      rcases tensor.shape.valid e (List.mem_of_getElem? dim) with dynamic | static
      · exact ⟨by simp [BoundTensor.extent, dim], Or.inl dynamic⟩
      · exact ⟨by simp [BoundTensor.extent, dim], Or.inr static.1⟩

theorem boundNumel_ok {tensor : BoundTensor} {n : Nat} (found : boundNumel tensor = .ok n) :
    tensor.elements = n := by
  unfold boundNumel at found
  unfold BoundTensor.elements
  cases counted : tensor.shape.numel with
  | error st => rw [counted] at found; cases found
  | ok m =>
      rw [counted] at found
      obtain rfl := Except.ok.inj found
      rfl

/-- What an accepted embedding call carries. -/
structure EmbeddingCall.Casts (call : EmbeddingCall) : Prop where
  seqLen : call.seqLen = wrap32 call.ids.elements
  hidden : call.hidden = wrap32 (call.weight.extent 1)
  vocabSize : call.vocabSize = wrap32 (call.weight.extent 0)
  counted : 0 ≤ call.ids.elements
  hiddenPos : 0 < call.hidden ∧ 0 < call.weight.extent 1
  vocabPos : 0 < call.vocabSize ∧ 0 < call.weight.extent 0
  tokens : ∀ s < call.seqLen.toNat, 0 ≤ call.ids.ints s ∧ call.ids.ints s < call.vocabSize

theorem embeddingCall_casts {bindings : Bindings} {node : Node Num} {call : EmbeddingCall}
    (accepted : embeddingCall bindings node = .ok call) : call.Casts := by
  unfold embeddingCall at accepted
  obtain ⟨ids, _, accepted⟩ := bind_eq_ok accepted
  obtain ⟨weight, _, accepted⟩ := bind_eq_ok accepted
  obtain ⟨output, _, accepted⟩ := bind_eq_ok accepted
  iterate 6 obtain ⟨_, _, accepted⟩ := bind_eq_ok accepted
  obtain ⟨n, counted, accepted⟩ := bind_eq_ok accepted
  obtain ⟨hidden, foundHidden, accepted⟩ := bind_eq_ok accepted
  obtain ⟨vocabSize, foundVocab, accepted⟩ := bind_eq_ok accepted
  obtain ⟨_, positive, accepted⟩ := bind_eq_ok accepted
  obtain ⟨_, _, accepted⟩ := bind_eq_ok accepted
  obtain ⟨_, inRange, accepted⟩ := bind_eq_ok accepted
  obtain rfl := Except.ok.inj accepted
  have positive := require_ok positive
  have inRange := require_ok inRange
  have elements := boundNumel_ok counted
  obtain ⟨extentHidden, hiddenSize⟩ := boundDim_ok foundHidden
  obtain ⟨extentVocab, vocabDim⟩ := boundDim_ok foundVocab
  have minusOne : wrap32 (-1) = -1 := by decide
  refine ⟨by rw [elements], by rw [extentHidden], by rw [extentVocab], by rw [elements]; omega,
    ⟨by dsimp only; omega, ?_⟩, ⟨by dsimp only; omega, ?_⟩, fun s below => ?_⟩
  · rcases hiddenSize with rfl | static
    · omega
    · rw [extentHidden]; exact static
  · rcases vocabDim with rfl | static
    · omega
    · rw [extentVocab]; exact static
  · have here := inRange s below
    dsimp only
    omega

theorem embedding_exact_iff {call : EmbeddingCall} (casts : call.Casts) :
    call.Exact ↔ call.Fits := by
  obtain ⟨seqLen, hidden, vocabSize, counted, ⟨hiddenPos, widthPos⟩, ⟨vocabPos, vocabDim⟩,
    tokens⟩ := casts
  have vocabInt := wrap32_lt (call.weight.extent 0)
  constructor
  · intro exact_
    have elements := (wrap32_eq_iff _).mp (seqLen.symm.trans exact_.seqLen)
    have width := (wrap32_eq_iff _).mp (hidden.symm.trans exact_.hidden)
    have vocab := (wrap32_eq_iff _).mp (vocabSize.symm.trans exact_.vocabSize)
    refine ⟨elements.2, width.2, vocab.2, ?_⟩
    by_cases quantized : call.weight.dtype = .q8_0
    · exact Or.inl quantized
    refine Or.inr ⟨?_, fun s below => ?_⟩
    · by_cases empty : call.ids.elements = 0
      · rw [empty]; omega
      · have last := exact_.outRow (call.ids.elements - 1).toNat (by rw [exact_.seqLen]; omega)
        rw [EmbeddingCall.outRow, exact_.hidden, Int.toNat_of_nonneg (by omega)] at last
        have fits := (rowOffset_exact_iff _ (by omega) (by have := elements.2; omega) (by omega)
          width.2).mp last
        exact fits.resolve_left quantized
    · rw [← exact_.seqLen] at below
      have token := tokens s below
      have row := exact_.weightRow s below
      rw [EmbeddingCall.weightRow, exact_.hidden] at row
      exact ((rowOffset_exact_iff _ token.1 (by omega) (by omega) width.2).mp row).resolve_left
        quantized
  · intro fits
    have elements : call.seqLen = call.ids.elements :=
      seqLen.trans (wrap32_eq _ (by omega) fits.elements)
    have width : call.hidden = call.weight.extent 1 :=
      hidden.trans (wrap32_eq _ (by omega) fits.hidden)
    refine ⟨elements, width, vocabSize.trans (wrap32_eq _ (by omega) fits.vocabSize),
      fun s below => ?_, fun s below => ?_⟩
    · have token := tokens s below
      rw [EmbeddingCall.weightRow, width, rowOffset_exact_iff _ token.1 (by omega) (by omega)
        fits.hidden]
      exact fits.rows.imp_right fun rows => rows.2 s (by rwa [← elements])
    · have high := fits.elements
      rw [EmbeddingCall.outRow, width, rowOffset_exact_iff _ (by omega) (by omega) (by omega)
        fits.hidden]
      refine fits.rows.imp_right fun rows => Int.lt_of_le_of_lt ?_ rows.1
      exact Int.mul_le_mul_of_nonneg_right (by omega) (by omega)

/-- What an accepted linear call carries. -/
structure LinearCall.Casts (call : LinearCall) : Prop where
  M : call.M = wrap32 call.x.rows
  N : call.N = wrap32 (call.weight.extent 0)
  K : call.K = wrap32 (call.x.extent (call.x.shape.rank - 1))
  rowsPos : 0 < call.M
  columnsPos : 0 < call.N ∧ 0 < call.weight.extent 0
  depthPos : 0 < call.K ∧ 0 < call.x.extent (call.x.shape.rank - 1)

theorem linearCall_casts {bindings : Bindings} {node : Node Num} {call : LinearCall}
    (accepted : linearCall bindings node = .ok call) : call.Casts := by
  unfold linearCall at accepted
  obtain ⟨x, _, accepted⟩ := bind_eq_ok accepted
  obtain ⟨weight, _, accepted⟩ := bind_eq_ok accepted
  obtain ⟨output, _, accepted⟩ := bind_eq_ok accepted
  iterate 6 obtain ⟨_, _, accepted⟩ := bind_eq_ok accepted
  obtain ⟨K, foundK, accepted⟩ := bind_eq_ok accepted
  obtain ⟨N, foundN, accepted⟩ := bind_eq_ok accepted
  obtain ⟨_, positive, accepted⟩ := bind_eq_ok accepted
  obtain ⟨_, _, accepted⟩ := bind_eq_ok accepted
  obtain rfl := Except.ok.inj accepted
  have positive := require_ok positive
  obtain ⟨extentK, depth⟩ := boundDim_ok foundK
  obtain ⟨extentN, columns⟩ := boundDim_ok foundN
  have minusOne : wrap32 (-1) = -1 := by decide
  refine ⟨foldl_wrap32 x.shape.dims.dropLast 1, by rw [extentN], by rw [extentK],
    by dsimp only; omega, ⟨by dsimp only; omega, ?_⟩, ⟨by dsimp only; omega, ?_⟩⟩
  · rcases columns with rfl | static
    · omega
    · rw [extentN]; exact static
  · rcases depth with rfl | static
    · omega
    · rw [extentK]; exact static

/-- The offsets of all rows are exact when the last one is. -/
theorem rows_exact_iff (dtype : DType) {count width : Int} (some : 0 < count)
    (countInt : count < 2147483648) (positive : 0 ≤ width) (widthInt : width < 2147483648) :
    (∀ m < count.toNat, rowOffset dtype (m : Nat) width = m * width) ↔
      dtype = .q8_0 ∨ (count - 1) * width < 2147483648 := by
  have each := fun {m : Nat} (below : m < count.toNat) =>
    @rowOffset_exact_iff dtype (m : Int) width (by omega) (by omega) positive widthInt
  constructor
  · intro all
    have below : (count - 1).toNat < count.toNat := by omega
    have last := (each below).mp (all _ below)
    rwa [Int.toNat_of_nonneg (by omega)] at last
  · intro fits m below
    refine (each below).mpr (fits.imp_right fun last => Int.lt_of_le_of_lt ?_ last)
    exact Int.mul_le_mul_of_nonneg_right (by omega) positive

theorem linear_exact_iff {call : LinearCall} (casts : call.Casts) : call.Exact ↔ call.Fits := by
  obtain ⟨M, N, K, rowsPos, ⟨columnsPos, columns⟩, ⟨depthPos, depth⟩⟩ := casts
  have sizes : (call.M = call.x.rows ∧ call.N = call.weight.extent 0 ∧
      call.K = call.x.extent (call.x.shape.rank - 1)) ↔
      IsInt call.x.rows ∧ call.weight.extent 0 < 2147483648 ∧
        call.x.extent (call.x.shape.rank - 1) < 2147483648 := by
    rw [M, N, K, wrap32_eq_iff, wrap32_eq_iff, wrap32_eq_iff]
    simp only [IsInt]
    omega
  -- Given exact sizes each family of rows is exact up to its last row.
  have rows : call.M = call.x.rows → call.N = call.weight.extent 0 →
      call.K = call.x.extent (call.x.shape.rank - 1) →
      (((∀ m < call.M.toNat, call.aRow m = m * call.x.extent (call.x.shape.rank - 1)) ∧
        (∀ m < call.M.toNat, call.cRow m = m * call.weight.extent 0) ∧
        ∀ n < call.N.toNat, call.bRow n = n * call.x.extent (call.x.shape.rank - 1)) ↔
      (call.weight.dtype = .q8_0 ∨
        (call.x.rows - 1) * call.x.extent (call.x.shape.rank - 1) < 2147483648 ∧
          (call.x.rows - 1) * call.weight.extent 0 < 2147483648 ∧
          (call.weight.extent 0 - 1) * call.x.extent (call.x.shape.rank - 1) < 2147483648)) := by
    intro sameM sameN sameK
    have intM := wrap32_lt call.x.rows
    have intN := wrap32_lt (call.weight.extent 0)
    have intK := wrap32_lt (call.x.extent (call.x.shape.rank - 1))
    rw [← M, sameM] at intM
    rw [← N, sameN] at intN
    rw [← K, sameK] at intK
    rw [sameM] at rowsPos
    simp only [LinearCall.aRow, LinearCall.cRow, LinearCall.bRow, sameM, sameN, sameK]
    rw [rows_exact_iff _ rowsPos intM (by omega) intK, rows_exact_iff _ rowsPos intM (by omega) intN,
      rows_exact_iff _ columns intN (by omega) intK]
    exact ⟨fun ⟨a, c, b⟩ => by
        rcases a with quantized | a
        · exact Or.inl quantized
        rcases c with quantized | c
        · exact Or.inl quantized
        exact b.imp_right fun b => ⟨a, c, b⟩,
      fun fits => ⟨fits.imp_right fun last => last.1, fits.imp_right fun last => last.2.1,
        fits.imp_right fun last => last.2.2⟩⟩
  constructor
  · intro exact_
    have kept := sizes.mp ⟨exact_.M, exact_.N, exact_.K⟩
    exact ⟨kept.1, kept.2.1, kept.2.2, (rows exact_.M exact_.N exact_.K).mp
      ⟨exact_.aRow, exact_.cRow, exact_.bRow⟩⟩
  · intro fits
    obtain ⟨sameM, sameN, sameK⟩ := sizes.mpr ⟨fits.rows, fits.N, fits.K⟩
    obtain ⟨a, c, b⟩ := (rows sameM sameN sameK).mpr fits.last
    exact ⟨sameM, sameN, sameK, a, c, b⟩

/-- The calls the adapters accept index exactly when counts and last offsets stay in
`int`; the Q8_0 overloads need the counts only. -/
theorem kernel_indices_exact_iff (bindings : Bindings) (node : Node Num) :
    (∀ call, embeddingCall bindings node = .ok call → (call.Exact ↔ call.Fits)) ∧
      ∀ call, linearCall bindings node = .ok call → (call.Exact ↔ call.Fits) :=
  ⟨fun _ accepted => embedding_exact_iff (embeddingCall_casts accepted),
    fun _ accepted => linear_exact_iff (linearCall_casts accepted)⟩

-- Token 32768 of a vocabulary of 65536 rows of 65536 floats.
def wideEmbedding : Bindings := fun id =>
  if id = 0 then some { dtype := .int32, shape := { dims := [1, 1] }, ints := fun _ => 32768 }
  else some { dtype := .float32, shape := { dims := [65536, 65536] } }

def embeddingNode : Node Unit := { opType := .embedding, inputs := [0, 1], outputs := [2] }

/-- Its row offset is -2147483648, not 2147483648. -/
theorem wide_embedding_wraps :
    ∃ call, embeddingCall wideEmbedding embeddingNode = .ok call ∧
      call.weightRow 0 = -2147483648 ∧ ¬ call.Exact := by
  refine ⟨_, rfl, by decide, fun exact_ => ?_⟩
  exact absurd (exact_.weightRow 0 (by decide)) (by decide)

theorem kernel_indices_exact_iff_wide :
    ∃ call, embeddingCall wideEmbedding embeddingNode = .ok call ∧ (call.Exact ↔ call.Fits) :=
  ⟨_, rfl, (kernel_indices_exact_iff wideEmbedding embeddingNode).1 _ rfl⟩

end MiniLLM.CpuKernelAdapter
