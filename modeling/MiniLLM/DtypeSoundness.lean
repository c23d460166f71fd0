import MiniLLM.WeightReads

/-!
When the kernels read their operands soundly. A row is sound when it starts at a
non-negative element and its last element is inside the allocation; a family of rows is
sound when its last row starts inside `int` and ends inside the allocation, since the
first offset that wraps is negative.
-/

namespace MiniLLM.CpuKernelAdapter

section Rows

/-- The last byte of an element. -/
def lastByte (as : DType) (element : Int) : Int :=
  match as with
  | .q8_0 => 34 * (element / 32) + 2 + element % 32
  | .bfloat16 => 2 * element + 1
  | _ => 4 * element + 3

theorem lastByte_le (as : DType) {a b : Int} (le : a ≤ b) : lastByte as a ≤ lastByte as b := by
  unfold lastByte
  split <;> omega

/-- The value has a tensor of the type. -/
def OfType (ctx : WeightLoader.Bindings) (value : Nat) (as : DType) : Prop :=
  ∃ tensor, ctx value = some tensor ∧ tensor.dtype = as

/-- `count` elements fit in the allocation. -/
def Room (ctx : WeightLoader.Bindings) (value : Nat) (as : DType) (count : Int) : Prop :=
  ∃ tensor, ctx value = some tensor ∧ lastByte as (count - 1) < tensor.allocatedBytes

variable {ctx : WeightLoader.Bindings} {value : Nat} {as : DType}

theorem Room.le {few many : Int} (room : Room ctx value as many) (le : few ≤ many) :
    Room ctx value as few := by
  obtain ⟨tensor, found, inside⟩ := room
  exact ⟨tensor, found, lt_of_le_of_lt (lastByte_le as (by omega)) inside⟩

theorem four_bytes_inside_iff (element size : Int) :
    (∀ b ∈ (List.range 4).map fun (b : Nat) => 4 * element + (b : Int), 0 ≤ b ∧ b < size) ↔
      0 ≤ element ∧ 4 * element + 3 < size := by
  constructor
  · intro all
    have first := all (4 * element + (0 : Nat)) (List.mem_map.mpr ⟨0, by decide, rfl⟩)
    have last := all (4 * element + (3 : Nat)) (List.mem_map.mpr ⟨3, by decide, rfl⟩)
    omega
  · intro inside b member
    obtain ⟨i, below, rfl⟩ := List.mem_map.mp member
    have := List.mem_range.mp below
    omega

theorem Read.bytes_inside_iff (read : Read) (size : Int) :
    (∀ b ∈ read.bytes, 0 ≤ b ∧ b < size) ↔
      0 ≤ read.element ∧ lastByte read.as read.element < size := by
  obtain ⟨value, as, element⟩ := read
  cases as with
  | q8_0 =>
      simp only [Read.bytes, lastByte, List.forall_mem_cons, List.not_mem_nil, IsEmpty.forall_iff,
        implies_true, and_true]
      omega
  | bfloat16 =>
      simp only [Read.bytes, lastByte, List.forall_mem_cons, List.not_mem_nil, IsEmpty.forall_iff,
        implies_true, and_true]
      omega
  | _ => exact four_bytes_inside_iff element size

theorem Read.sound_iff (read : Read) :
    read.Sound ctx ↔ OfType ctx read.value read.as ∧ 0 ≤ read.element ∧
      Room ctx read.value read.as (read.element + 1) := by
  unfold Read.Sound OfType Room
  rw [add_sub_cancel_right]
  constructor
  · rintro ⟨tensor, found, same, inside⟩
    rw [Read.bytes_inside_iff] at inside
    exact ⟨⟨tensor, found, same.symm⟩, inside.1, tensor, found, inside.2⟩
  · rintro ⟨⟨tensor, found, same⟩, nonneg, other, again, inside⟩
    obtain rfl := Option.some.inj (found.symm.trans again)
    exact ⟨tensor, found, same.symm, (Read.bytes_inside_iff _ _).mpr ⟨nonneg, inside⟩⟩

theorem forall_rowReads {start : Nat → Int} {rows width : Int} {P : Read → Prop} :
    (∀ read ∈ rowReads value as start rows width, P read) ↔
      ∀ r < rows.toNat, ∀ w < width.toNat, P ⟨value, as, start r + (w : Nat)⟩ := by
  simp only [rowReads, List.mem_flatMap, List.mem_map, List.mem_range]
  constructor
  · exact fun all r below w inside => all _ ⟨r, below, w, inside, rfl⟩
  · rintro all _ ⟨r, below, w, inside, rfl⟩
    exact all r below w inside

/-- A row is sound when its ends are. -/
theorem row_sound_iff {start width : Int} (positive : 0 < width) :
    (∀ w < width.toNat, (⟨value, as, start + (w : Nat)⟩ : Read).Sound ctx) ↔
      OfType ctx value as ∧ 0 ≤ start ∧ Room ctx value as (start + width) := by
  simp only [Read.sound_iff]
  constructor
  · intro all
    obtain ⟨typed, first, -⟩ := all 0 (by omega)
    obtain ⟨-, -, room⟩ := all (width - 1).toNat (by omega)
    have ends : start + ((width - 1).toNat : Int) + 1 = start + width := by omega
    rw [ends] at room
    exact ⟨typed, by omega, room⟩
  · rintro ⟨typed, nonneg, room⟩ w below
    exact ⟨typed, by omega, room.le (by omega)⟩

theorem rowReads_sound_iff {start : Nat → Int} {rows width : Int} (positive : 0 < width) :
    (∀ read ∈ rowReads value as start rows width, read.Sound ctx) ↔
      ∀ r < rows.toNat,
        OfType ctx value as ∧ 0 ≤ start r ∧ Room ctx value as (start r + width) := by
  rw [forall_rowReads]
  exact forall₂_congr fun r _ => row_sound_iff positive

/-- Rows that all start at the first element. -/
theorem sameRow_sound_iff {rows width : Int} (some : 0 < rows) (positive : 0 < width) :
    (∀ read ∈ rowReads value as (fun _ => 0) rows width, read.Sound ctx) ↔
      OfType ctx value as ∧ Room ctx value as width := by
  rw [rowReads_sound_iff positive]
  constructor
  · intro all
    obtain ⟨typed, -, room⟩ := all 0 (by omega)
    rw [zero_add] at room
    exact ⟨typed, room⟩
  · rintro ⟨typed, room⟩ r -
    exact ⟨typed, le_rfl, by rwa [zero_add]⟩

/-- Past `2^31` elements some row starts at a wrapped, negative offset. -/
theorem exists_negative_row {rows width : Int} (positive : 0 < width) (int : width < 2147483648)
    (large : 2147483648 ≤ (rows - 1) * width) : ∃ r < rows.toNat, wrap32 ((r : Nat) * width) < 0 := by
  -- the last row that starts below `2^31`, and the next one
  have division := Int.mul_ediv_add_emod 2147483647 width
  have rest := Int.emod_lt_of_pos 2147483647 positive
  have restLow := Int.emod_nonneg 2147483647 positive.ne'
  have nonneg : 0 ≤ 2147483647 / width := Int.ediv_nonneg (by decide) positive.le
  generalize 2147483647 / width = before at division nonneg
  have next : (before + 1) * width = width * before + width := by
    rw [add_mul, one_mul, Int.mul_comm]
  have inside : before + 1 ≤ rows - 1 := by
    by_contra beyond
    have le : (rows - 1) * width ≤ before * width :=
      Int.mul_le_mul_of_nonneg_right (by omega) positive.le
    rw [Int.mul_comm before] at le
    omega
  refine ⟨(before + 1).toNat, by omega, ?_⟩
  rw [Int.toNat_of_nonneg (by omega), next]
  unfold wrap32
  omega

/-- Consecutive rows in the overload for a type. -/
theorem rows_sound_iff {dtype : DType} {rows width : Int} (some : 0 < rows)
    (countInt : rows < 2147483648) (positive : 0 < width) (int : width < 2147483648) :
    (∀ read ∈ rowReads value as (rowOffset dtype · width) rows width, read.Sound ctx) ↔
      OfType ctx value as ∧ (dtype = .q8_0 ∨ (rows - 1) * width < 2147483648) ∧
        Room ctx value as (rows * width) := by
  have offsets := rows_exact_iff dtype some countInt positive.le int
  have split : rows * width = (rows - 1) * width + width := by rw [sub_mul, one_mul]; omega
  rw [rowReads_sound_iff positive]
  constructor
  · intro all
    have fits : dtype = .q8_0 ∨ (rows - 1) * width < 2147483648 := by
      by_contra wraps
      obtain ⟨wide, large⟩ := not_or.mp wraps
      obtain ⟨r, below, negative⟩ := exists_negative_row positive int (not_lt.mp large)
      have nonneg := (all r below).2.1
      rw [rowOffset, if_neg wide] at nonneg
      omega
    obtain ⟨typed, -, room⟩ := all (rows - 1).toNat (by omega)
    rw [offsets.mpr fits _ (by omega), Int.toNat_of_nonneg (by omega), ← split] at room
    exact ⟨typed, fits, room⟩
  · rintro ⟨typed, fits, room⟩ r below
    have le : (r : Int) * width ≤ (rows - 1) * width :=
      Int.mul_le_mul_of_nonneg_right (by omega) positive.le
    rw [offsets.mpr fits r below]
    exact ⟨typed, Int.mul_nonneg (by omega) positive.le, room.le (by omega)⟩

end Rows

section Outcomes

/-- The outcome is an error, or all that was read is sound. -/
def ReadsSoundly (ctx : WeightLoader.Bindings) : Except Failure (List Read) → Prop
  | .ok reads => ∀ read ∈ reads, read.Sound ctx
  | .error .undefined => False
  | .error _ => True

variable {A : Type} {ctx : WeightLoader.Bindings}

theorem boundTensor_defined (bindings : Bindings) (id : Nat) (role : String) :
    boundTensor bindings id role ≠ .error .undefined := by
  unfold boundTensor
  split <;> exact fun no => nomatch no

theorem boundDim_defined (tensor : BoundTensor) (i : Nat) :
    boundDim tensor i ≠ .error .undefined := by
  unfold boundDim
  split <;> exact fun no => nomatch no

theorem boundNumel_defined (tensor : BoundTensor) : boundNumel tensor ≠ .error .undefined := by
  unfold boundNumel
  split <;> exact fun no => nomatch no

theorem readsSoundly_bind {x : Except Failure A} {f : A → Except Failure (List Read)}
    (defined : x ≠ .error .undefined) :
    ReadsSoundly ctx (x >>= f) ↔ ∀ a, x = .ok a → ReadsSoundly ctx (f a) := by
  cases x with
  | ok a =>
      constructor
      · intro sound b same
        obtain rfl := Except.ok.inj same
        exact sound
      · exact fun all => all a rfl
  | error failure =>
      refine ⟨fun _ _ no => (by cases no), fun _ => ?_⟩
      cases failure with
      | undefined => exact absurd rfl defined
      | _ => trivial

theorem boundTensor_ofType {id : Nat} {role : String} {tensor : BoundTensor}
    (found : boundTensor (bound ctx) id role = .ok tensor) : OfType ctx id tensor.dtype := by
  unfold boundTensor bound at found
  cases here : ctx id with
  | none => rw [here] at found; cases found
  | some t =>
      rw [here] at found
      obtain rfl := Except.ok.inj found
      exact ⟨t, here, rfl⟩

theorem checkDtypeFloat_ok {tensor : BoundTensor} {name : String} {u : Unit}
    (fine : checkDtypeFloat tensor name = .ok u) : tensor.dtype = .float32 := require_ok fine

theorem weightType_ok {tensor : BoundTensor} {name : String} {u : Unit}
    (fine : checkDtypeFloatBf16OrQ8 tensor name = .ok u) :
    weightType tensor.dtype = tensor.dtype := by
  rcases require_ok fine with same | same | same <;> rw [same] <;> rfl

end Outcomes

section Calls

variable {Num : Type} (ctx : WeightLoader.Bindings) (node : Node Num)

/-- The ids and the rows of their tokens are inside the allocations. -/
structure EmbeddingCall.Covered (call : EmbeddingCall) : Prop where
  ids : 0 < call.seqLen → Room ctx (node.inputs.getD 0 0) .int32 call.seqLen
  weight : ∀ s < call.seqLen.toNat, 0 ≤ call.weightRow s ∧
    Room ctx (node.inputs.getD 1 0) call.weight.dtype (call.weightRow s + call.hidden)

/-- The last rows start inside `int`, and the operands have their elements. -/
structure LinearCall.Covered (call : LinearCall) : Prop where
  offsets : call.weight.dtype = .q8_0 ∨
    (call.M - 1) * call.K < 2147483648 ∧ (call.N - 1) * call.K < 2147483648
  x : Room ctx (node.inputs.getD 0 0) .float32 (call.M * call.K)
  weight : Room ctx (node.inputs.getD 1 0) call.weight.dtype (call.N * call.K)
  bias : 3 ≤ node.inputs.length → (call.M - 1) * call.N < 2147483648 ∧
    Room ctx (node.outputs.getD 0 0) .float32 (call.M * call.N) ∧
    Room ctx (node.inputs.getD 2 0) .float32 call.N

structure MatmulCall.Covered (call : MatmulCall) : Prop where
  offsets : call.b.dtype = .q8_0 ∨ (call.M - 1) * call.K < 2147483648 ∧
    (call.K - 1) * call.N < 2147483648 ∧ (call.M - 1) * call.N < 2147483648
  a : Room ctx (node.inputs.getD 0 0) .float32 (call.M * call.K)
  b : Room ctx (node.inputs.getD 1 0) call.b.dtype (call.K * call.N)
  output : call.b.dtype = .q8_0 ∨ Room ctx (node.outputs.getD 0 0) .float32 (call.M * call.N)

/-- Both operands are floats, and have the elements. -/
structure NormCovered (rows hidden : Int) : Prop where
  x : OfType ctx (node.inputs.getD 0 0) .float32
  gamma : OfType ctx (node.inputs.getD 1 0) .float32
  offsets : (rows - 1) * hidden < 2147483648
  xRoom : Room ctx (node.inputs.getD 0 0) .float32 (rows * hidden)
  gammaRoom : Room ctx (node.inputs.getD 1 0) .float32 hidden

structure ElementwiseCovered (n : Int) : Prop where
  a : OfType ctx (node.inputs.getD 0 0) .float32
  b : OfType ctx (node.inputs.getD 1 0) .float32
  aRoom : Room ctx (node.inputs.getD 0 0) .float32 n
  bRoom : Room ctx (node.inputs.getD 1 0) .float32 n

variable {ctx node}

theorem embeddingCall_defined (bindings : Bindings) :
    embeddingCall bindings node ≠ .error .undefined := by
  refine bind_defined (boundTensor_defined _ _ _) fun ids => ?_
  refine bind_defined (boundTensor_defined _ _ _) fun weight => ?_
  refine bind_defined (boundTensor_defined _ _ _) fun output => ?_
  iterate 6 refine bind_defined (require_defined _ _) fun _ => ?_
  refine bind_defined (boundNumel_defined ids) fun _ => ?_
  refine bind_defined (boundDim_defined weight 1) fun _ => ?_
  refine bind_defined (boundDim_defined weight 0) fun _ => ?_
  iterate 3 refine bind_defined (require_defined _ _) fun _ => ?_
  exact fun no => by cases no

theorem embeddingCall_types {call : EmbeddingCall}
    (accepted : embeddingCall (bound ctx) node = .ok call) :
    OfType ctx (node.inputs.getD 0 0) .int32 ∧
      OfType ctx (node.inputs.getD 1 0) call.weight.dtype ∧
      weightType call.weight.dtype = call.weight.dtype := by
  unfold embeddingCall at accepted
  obtain ⟨ids, foundIds, accepted⟩ := bind_eq_ok accepted
  obtain ⟨weight, foundWeight, accepted⟩ := bind_eq_ok accepted
  obtain ⟨output, _, accepted⟩ := bind_eq_ok accepted
  iterate 3 obtain ⟨_, _, accepted⟩ := bind_eq_ok accepted
  obtain ⟨_, weightChecked, accepted⟩ := bind_eq_ok accepted
  obtain ⟨_, _, accepted⟩ := bind_eq_ok accepted
  obtain ⟨_, idsChecked, accepted⟩ := bind_eq_ok accepted
  iterate 6 obtain ⟨_, _, accepted⟩ := bind_eq_ok accepted
  obtain rfl := Except.ok.inj accepted
  have typed := boundTensor_ofType foundIds
  rw [require_ok idsChecked] at typed
  exact ⟨typed, boundTensor_ofType foundWeight, weightType_ok weightChecked⟩

theorem kernelEmbeddingReads_iff :
    ReadsSoundly ctx (kernelEmbeddingReads ctx node) ↔
      ∀ call, embeddingCall (bound ctx) node = .ok call → call.Covered ctx node := by
  rw [kernelEmbeddingReads, readsSoundly_bind (embeddingCall_defined _)]
  refine forall₂_congr fun call accepted => ?_
  obtain ⟨idsTyped, weightTyped, branch⟩ := embeddingCall_types accepted
  have casts := embeddingCall_casts accepted
  change (∀ read ∈ call.reads node, read.Sound ctx) ↔ _
  rw [EmbeddingCall.reads, List.forall_mem_append, branch, rowReads_sound_iff casts.hiddenPos.1]
  constructor
  · rintro ⟨ids, weight⟩
    refine ⟨fun some => ?_, fun s below => (weight s below).2⟩
    exact ((sameRow_sound_iff (by decide) some).mp ids).2
  · rintro ⟨ids, weight⟩
    refine ⟨?_, fun s below => ⟨weightTyped, weight s below⟩⟩
    rcases lt_or_ge 0 call.seqLen with some | none
    · exact (sameRow_sound_iff (by decide) some).mpr ⟨idsTyped, ids some⟩
    · rw [forall_rowReads]
      intro _ _ w below
      omega

theorem linearCall_defined (bindings : Bindings) :
    linearCall bindings node ≠ .error .undefined := by
  refine bind_defined (boundTensor_defined _ _ _) fun x => ?_
  refine bind_defined (boundTensor_defined _ _ _) fun weight => ?_
  refine bind_defined (boundTensor_defined _ _ _) fun output => ?_
  iterate 6 refine bind_defined (require_defined _ _) fun _ => ?_
  refine bind_defined (boundDim_defined x _) fun _ => ?_
  refine bind_defined (boundDim_defined weight 0) fun _ => ?_
  iterate 2 refine bind_defined (require_defined _ _) fun _ => ?_
  exact fun no => by cases no

theorem linearBias_defined (call : LinearCall) :
    linearBias ctx node call ≠ .error .undefined := by
  unfold linearBias
  split
  · refine bind_defined (boundTensor_defined _ _ _) fun bias => ?_
    iterate 2 refine bind_defined (require_defined _ _) fun _ => ?_
    exact require_defined _ _
  · exact fun no => by cases no

/-- The types an accepted call of `kernel_linear` or `kernel_matmul` has checked. -/
structure ProductTypes (ctx : WeightLoader.Bindings) (node : Node Num) (dtype : DType) : Prop where
  activations : OfType ctx (node.inputs.getD 0 0) .float32
  weight : OfType ctx (node.inputs.getD 1 0) dtype
  output : OfType ctx (node.outputs.getD 0 0) .float32
  branch : weightType dtype = dtype

theorem ofType_float {id : Nat} {role name : String} {tensor : BoundTensor} {u : Unit}
    (found : boundTensor (bound ctx) id role = .ok tensor)
    (checked : checkDtypeFloat tensor name = .ok u) : OfType ctx id .float32 := by
  have typed := boundTensor_ofType found
  rwa [require_ok checked] at typed

theorem linearCall_types {call : LinearCall} (accepted : linearCall (bound ctx) node = .ok call) :
    ProductTypes ctx node call.weight.dtype := by
  unfold linearCall at accepted
  obtain ⟨x, foundX, accepted⟩ := bind_eq_ok accepted
  obtain ⟨weight, foundWeight, accepted⟩ := bind_eq_ok accepted
  obtain ⟨output, foundOutput, accepted⟩ := bind_eq_ok accepted
  iterate 3 obtain ⟨_, _, accepted⟩ := bind_eq_ok accepted
  obtain ⟨_, xChecked, accepted⟩ := bind_eq_ok accepted
  obtain ⟨_, weightChecked, accepted⟩ := bind_eq_ok accepted
  obtain ⟨_, outputChecked, accepted⟩ := bind_eq_ok accepted
  iterate 4 obtain ⟨_, _, accepted⟩ := bind_eq_ok accepted
  obtain rfl := Except.ok.inj accepted
  exact ⟨ofType_float foundX xChecked, boundTensor_ofType foundWeight,
    ofType_float foundOutput outputChecked, weightType_ok weightChecked⟩

theorem linearBias_type {call : LinearCall} (accepted : linearBias ctx node call = .ok ())
    (biased : 3 ≤ node.inputs.length) : OfType ctx (node.inputs.getD 2 0) .float32 := by
  rw [linearBias, if_pos biased] at accepted
  obtain ⟨bias, foundBias, accepted⟩ := bind_eq_ok accepted
  obtain ⟨_, _, accepted⟩ := bind_eq_ok accepted
  obtain ⟨_, checked, _⟩ := bind_eq_ok accepted
  exact ofType_float foundBias checked

theorem biasReads_iff {call : LinearCall} (casts : call.Casts)
    (types : ProductTypes ctx node call.weight.dtype)
    (accepted : linearBias ctx node call = .ok ()) :
    (∀ read ∈ call.biasReads node, read.Sound ctx) ↔
      (3 ≤ node.inputs.length → (call.M - 1) * call.N < 2147483648 ∧
        Room ctx (node.outputs.getD 0 0) .float32 (call.M * call.N) ∧
        Room ctx (node.inputs.getD 2 0) .float32 call.N) := by
  unfold LinearCall.biasReads
  by_cases biased : 3 ≤ node.inputs.length
  · have intM := casts.M ▸ wrap32_lt call.x.rows
    have intN := casts.N ▸ wrap32_lt (call.weight.extent 0)
    have typed := linearBias_type accepted biased
    rw [if_pos biased, List.forall_mem_append,
      rows_sound_iff casts.rowsPos intM casts.columnsPos.1 intN,
      sameRow_sound_iff casts.rowsPos casts.columnsPos.1, forall_prop_of_true biased]
    constructor
    · rintro ⟨⟨-, offsets, output⟩, -, bias⟩
      exact ⟨offsets.resolve_left (by decide), output, bias⟩
    · rintro ⟨offsets, output, bias⟩
      exact ⟨⟨types.output, Or.inr offsets, output⟩, typed, bias⟩
  · rw [if_neg biased]
    exact ⟨fun _ no => absurd no biased, fun _ _ no => absurd no List.not_mem_nil⟩

theorem kernelLinearReads_iff :
    ReadsSoundly ctx (kernelLinearReads ctx node) ↔
      ∀ call, linearCall (bound ctx) node = .ok call → linearBias ctx node call = .ok () →
        call.Covered ctx node := by
  rw [kernelLinearReads, readsSoundly_bind (linearCall_defined _)]
  refine forall₂_congr fun call accepted => ?_
  rw [readsSoundly_bind (linearBias_defined call), Unique.forall_iff]
  refine imp_congr_right fun fine => ?_
  have types := linearCall_types accepted
  have casts := linearCall_casts accepted
  have intM := casts.M ▸ wrap32_lt call.x.rows
  have intN := casts.N ▸ wrap32_lt (call.weight.extent 0)
  have intK := casts.K ▸ wrap32_lt (call.x.extent (call.x.shape.rank - 1))
  change (∀ read ∈ call.productReads node ++ call.biasReads node, read.Sound ctx) ↔ _
  rw [List.forall_mem_append, biasReads_iff casts types fine, LinearCall.productReads,
    List.forall_mem_append, types.branch]
  unfold LinearCall.aRow LinearCall.bRow
  rw [rows_sound_iff casts.rowsPos intM casts.depthPos.1 intK,
    rows_sound_iff casts.columnsPos.1 intN casts.depthPos.1 intK]
  constructor
  · rintro ⟨⟨⟨-, xOffsets, x⟩, -, weightOffsets, weight⟩, bias⟩
    refine ⟨?_, x, weight, bias⟩
    rcases xOffsets with quantized | xOffsets
    · exact Or.inl quantized
    · exact weightOffsets.imp_right fun last => ⟨xOffsets, last⟩
  · rintro ⟨offsets, x, weight, bias⟩
    exact ⟨⟨⟨types.activations, offsets.imp_right And.left, x⟩,
      types.weight, offsets.imp_right And.right, weight⟩, bias⟩

theorem matmulCall_defined (bindings : Bindings) :
    matmulCall node bindings ≠ .error .undefined := by
  refine bind_defined (boundTensor_defined _ _ _) fun a => ?_
  refine bind_defined (boundTensor_defined _ _ _) fun b => ?_
  refine bind_defined (boundTensor_defined _ _ _) fun output => ?_
  iterate 6 refine bind_defined (require_defined _ _) fun _ => ?_
  refine bind_defined (boundDim_defined a 0) fun _ => ?_
  refine bind_defined (boundDim_defined a 1) fun _ => ?_
  refine bind_defined (boundDim_defined b 1) fun _ => ?_
  refine bind_defined (require_defined _ _) fun _ => ?_
  refine bind_defined ?_ fun _ => fun no => by cases no
  unfold matmulAligned
  split
  · exact bind_defined (require_defined _ _) fun _ => require_defined _ _
  · exact fun no => by cases no

/-- What an accepted call of `kernel_matmul` carries. -/
structure MatmulCall.Accepted (ctx : WeightLoader.Bindings) (node : Node Num)
    (call : MatmulCall) : Prop where
  types : ProductTypes ctx node call.b.dtype
  M : 0 < call.M ∧ call.M < 2147483648
  N : 0 < call.N ∧ call.N < 2147483648
  K : 0 < call.K ∧ call.K < 2147483648

theorem matmulCall_ok {call : MatmulCall} (accepted : matmulCall node (bound ctx) = .ok call) :
    call.Accepted ctx node := by
  unfold matmulCall at accepted
  obtain ⟨a, foundA, accepted⟩ := bind_eq_ok accepted
  obtain ⟨b, foundB, accepted⟩ := bind_eq_ok accepted
  obtain ⟨output, foundOutput, accepted⟩ := bind_eq_ok accepted
  iterate 3 obtain ⟨_, _, accepted⟩ := bind_eq_ok accepted
  obtain ⟨_, aChecked, accepted⟩ := bind_eq_ok accepted
  obtain ⟨_, bChecked, accepted⟩ := bind_eq_ok accepted
  obtain ⟨_, outputChecked, accepted⟩ := bind_eq_ok accepted
  obtain ⟨M, _, accepted⟩ := bind_eq_ok accepted
  obtain ⟨K, _, accepted⟩ := bind_eq_ok accepted
  obtain ⟨N, _, accepted⟩ := bind_eq_ok accepted
  obtain ⟨_, positive, accepted⟩ := bind_eq_ok accepted
  obtain ⟨_, _, accepted⟩ := bind_eq_ok accepted
  obtain rfl := Except.ok.inj accepted
  have positive := require_ok positive
  exact ⟨⟨ofType_float foundA aChecked, boundTensor_ofType foundB,
      ofType_float foundOutput outputChecked, weightType_ok bChecked⟩,
    ⟨by dsimp only; omega, wrap32_lt M⟩, ⟨by dsimp only; omega, wrap32_lt N⟩,
    ⟨by dsimp only; omega, wrap32_lt K⟩⟩

/-- The rows of the output are read unless the weights are Q8_0. -/
theorem outputReads_iff {call : MatmulCall} (accepted : call.Accepted ctx node) :
    (∀ read ∈ if call.b.dtype = .q8_0 then []
        else rowReads (node.outputs.getD 0 0) .float32 (rowOffset call.b.dtype · call.N)
          call.M call.N, read.Sound ctx) ↔
      call.b.dtype = .q8_0 ∨ (call.M - 1) * call.N < 2147483648 ∧
        Room ctx (node.outputs.getD 0 0) .float32 (call.M * call.N) := by
  by_cases quantized : call.b.dtype = .q8_0
  · rw [if_pos quantized]
    exact ⟨fun _ => Or.inl quantized, fun _ _ no => absurd no List.not_mem_nil⟩
  · rw [if_neg quantized, rows_sound_iff accepted.M.1 accepted.M.2 accepted.N.1 accepted.N.2,
      or_iff_right quantized, or_iff_right quantized, and_iff_right accepted.types.output]

theorem kernelMatmulReads_iff :
    ReadsSoundly ctx (kernelMatmulReads ctx node) ↔
      ∀ call, matmulCall node (bound ctx) = .ok call → call.Covered ctx node := by
  rw [kernelMatmulReads, readsSoundly_bind (matmulCall_defined _)]
  refine forall₂_congr fun call ok => ?_
  have accepted := matmulCall_ok ok
  change (∀ read ∈ call.reads node, read.Sound ctx) ↔ _
  rw [MatmulCall.reads, List.forall_mem_append, List.forall_mem_append, outputReads_iff accepted,
    accepted.types.branch, rows_sound_iff accepted.M.1 accepted.M.2 accepted.K.1 accepted.K.2,
    rows_sound_iff accepted.K.1 accepted.K.2 accepted.N.1 accepted.N.2]
  constructor
  · rintro ⟨⟨-, aOffsets, a⟩, ⟨-, bOffsets, b⟩, output⟩
    refine ⟨?_, a, b, output.imp_right And.right⟩
    rcases aOffsets with quantized | aOffsets
    · exact Or.inl quantized
    rcases bOffsets with quantized | bOffsets
    · exact Or.inl quantized
    exact output.imp_right fun output => ⟨aOffsets, bOffsets, output.1⟩
  · rintro ⟨offsets, a, b, output⟩
    refine ⟨⟨accepted.types.activations, offsets.imp_right And.left, a⟩,
      ⟨accepted.types.weight, offsets.imp_right fun last => last.2.1, b⟩, ?_⟩
    rcases offsets with quantized | offsets
    · exact Or.inl quantized
    · exact output.imp_right fun room => ⟨offsets.2.2, room⟩

theorem uncheckedOperands_defined (first second : String) :
    uncheckedOperands ctx node first second ≠ .error .undefined := by
  iterate 3 refine bind_defined (boundTensor_defined _ _ _) fun _ => ?_
  iterate 3 refine bind_defined (require_defined _ _) fun _ => ?_
  exact fun no => by cases no

theorem rmsnormReads_iff {rows hidden : Int} (rowsInt : 0 < hidden → rows < 2147483648)
    (hiddenInt : hidden < 2147483648) :
    (∀ read ∈ rmsnormReads node rows hidden, read.Sound ctx) ↔
      (0 < rows → 0 < hidden → NormCovered ctx node rows hidden) := by
  rw [rmsnormReads, List.forall_mem_append]
  by_cases positive : 0 < rows ∧ 0 < hidden
  · obtain ⟨some, wide⟩ := positive
    rw [rows_sound_iff some (rowsInt wide) wide hiddenInt, sameRow_sound_iff some wide,
      forall_prop_of_true some, forall_prop_of_true wide]
    constructor
    · rintro ⟨⟨x, offsets, xRoom⟩, gamma, gammaRoom⟩
      exact ⟨x, gamma, offsets.resolve_left (by decide), xRoom, gammaRoom⟩
    · rintro ⟨x, gamma, offsets, xRoom, gammaRoom⟩
      exact ⟨⟨x, Or.inr offsets, xRoom⟩, gamma, gammaRoom⟩
  · refine ⟨fun _ some wide => absurd ⟨some, wide⟩ positive, fun _ => ?_⟩
    rw [forall_rowReads, forall_rowReads]
    refine ⟨fun r below w inside => ?_, fun r below w inside => ?_⟩ <;> omega

theorem intProduct_lt (dims : List Int) : intProduct dims < 2147483648 := by
  have wrapped := foldl_wrap32 dims 1
  rw [show wrap32 1 = 1 from rfl] at wrapped
  rw [intProduct, wrapped]
  exact wrap32_lt _

theorem rmsnormCall_defined : rmsnormCall ctx node ≠ .error .undefined := by
  refine bind_defined (uncheckedOperands_defined _ _) fun operands => ?_
  refine bind_defined (boundDim_defined operands.1 _) fun _ => ?_
  exact fun no => by cases no

theorem rmsnormCall_ok {rows hidden : Int} (accepted : rmsnormCall ctx node = .ok (rows, hidden)) :
    rows < 2147483648 ∧ hidden < 2147483648 := by
  obtain ⟨operands, _, accepted⟩ := bind_eq_ok accepted
  obtain ⟨width, _, accepted⟩ := bind_eq_ok accepted
  obtain ⟨rfl, rfl⟩ := Prod.mk.inj (Except.ok.inj accepted)
  exact ⟨intProduct_lt _, wrap32_lt _⟩

theorem kernelRmsnormReads_iff :
    ReadsSoundly ctx (kernelRmsnormReads ctx node) ↔
      ∀ rows hidden, rmsnormCall ctx node = .ok (rows, hidden) →
        0 < rows → 0 < hidden → NormCovered ctx node rows hidden := by
  rw [kernelRmsnormReads, readsSoundly_bind rmsnormCall_defined, Prod.forall]
  refine forall₃_congr fun rows hidden accepted => ?_
  obtain ⟨rowsInt, hiddenInt⟩ := rmsnormCall_ok accepted
  exact rmsnormReads_iff (fun _ => rowsInt) hiddenInt

theorem qkNormCall_defined : qkNormCall ctx node ≠ .error .undefined := by
  refine bind_defined (uncheckedOperands_defined _ _) fun operands => ?_
  exact fun no => by cases no

theorem qkNormCall_ok {total hd : Int} (accepted : qkNormCall ctx node = .ok (total, hd)) :
    total < 2147483648 ∧ hd < 2147483648 := by
  obtain ⟨operands, _, accepted⟩ := bind_eq_ok accepted
  obtain ⟨rfl, rfl⟩ := Prod.mk.inj (Except.ok.inj accepted)
  exact ⟨intProduct_lt _, wrap32_lt _⟩

theorem kernelQkNormReads_iff :
    ReadsSoundly ctx (kernelQkNormReads ctx node) ↔
      ∀ total hd, qkNormCall ctx node = .ok (total, hd) → Divides total hd ∧
        (0 < total.tdiv hd → 0 < hd → NormCovered ctx node (total.tdiv hd) hd) := by
  rw [kernelQkNormReads, readsSoundly_bind qkNormCall_defined, Prod.forall]
  refine forall₃_congr fun total hd accepted => ?_
  obtain ⟨totalInt, hdInt⟩ := qkNormCall_ok accepted
  dsimp only
  by_cases divides : Divides total hd
  · rw [if_pos divides, and_iff_right divides]
    refine rmsnormReads_iff (fun wide => ?_) hdInt
    calc total.tdiv hd ≤ (2147483647 : Int).tdiv hd := Int.tdiv_le_tdiv wide (by omega)
      _ ≤ 2147483647 := Int.tdiv_le_self hd (by decide)
      _ < 2147483648 := by decide
  · rw [if_neg divides]
    exact ⟨fun no => no.elim, fun covered => absurd covered.1 divides⟩

theorem elementwiseCall_defined : elementwiseCall ctx node ≠ .error .undefined := by
  refine bind_defined (uncheckedOperands_defined _ _) fun operands => ?_
  refine bind_defined (boundNumel_defined operands.2.2) fun _ => ?_
  exact fun no => by cases no

theorem kernelElementwiseReads_iff :
    ReadsSoundly ctx (kernelElementwiseReads ctx node) ↔
      ∀ n, elementwiseCall ctx node = .ok n → 0 < n → ElementwiseCovered ctx node n := by
  rw [kernelElementwiseReads, readsSoundly_bind elementwiseCall_defined]
  refine forall₂_congr fun n _ => ?_
  change (∀ read ∈ elementwiseReads node n, read.Sound ctx) ↔ _
  rw [elementwiseReads, List.forall_mem_append]
  by_cases some : 0 < n
  · rw [sameRow_sound_iff (by decide) some, sameRow_sound_iff (by decide) some,
      forall_prop_of_true some]
    exact ⟨fun ⟨⟨a, aRoom⟩, b, bRoom⟩ => ⟨a, b, aRoom, bRoom⟩,
      fun ⟨a, b, aRoom, bRoom⟩ => ⟨⟨a, aRoom⟩, b, bRoom⟩⟩
  · refine ⟨fun _ no => absurd no some, fun _ => ?_⟩
    rw [forall_rowReads, forall_rowReads]
    refine ⟨fun r below w inside => ?_, fun r below w inside => ?_⟩ <;> omega

/-- What the kernels need of the operands they are given: for each operation the sizes,
where the adapter's checks pass, and the types it does not check. -/
def Covered (ctx : WeightLoader.Bindings) (node : Node Num) : Prop :=
  match node.opType with
  | .embedding => ∀ call, embeddingCall (bound ctx) node = .ok call → call.Covered ctx node
  | .linear => ∀ call, linearCall (bound ctx) node = .ok call →
      linearBias ctx node call = .ok () → call.Covered ctx node
  | .matMul => ∀ call, matmulCall node (bound ctx) = .ok call → call.Covered ctx node
  | .rmsNorm => ∀ rows hidden, rmsnormCall ctx node = .ok (rows, hidden) →
      0 < rows → 0 < hidden → NormCovered ctx node rows hidden
  | .qkNorm => ∀ total hd, qkNormCall ctx node = .ok (total, hd) → Divides total hd ∧
      (0 < total.tdiv hd → 0 < hd → NormCovered ctx node (total.tdiv hd) hd)
  | .add | .mul => ∀ n, elementwiseCall ctx node = .ok n → 0 < n → ElementwiseCovered ctx node n
  | _ => True

/-- Whatever is bound, a kernel that takes weights returns an error or reads every element
in the type of its tensor and inside the allocation, exactly when the operands are
covered. -/
theorem weight_reads_sound_iff (ctx : WeightLoader.Bindings) (node : Node Num) :
    ReadsSoundly ctx (weightReads ctx node) ↔ Covered ctx node := by
  unfold weightReads Covered
  cases node.opType with
  | embedding => exact kernelEmbeddingReads_iff
  | linear => exact kernelLinearReads_iff
  | matMul => exact kernelMatmulReads_iff
  | rmsNorm => exact kernelRmsnormReads_iff
  | qkNorm => exact kernelQkNormReads_iff
  | add => exact kernelElementwiseReads_iff
  | mul => exact kernelElementwiseReads_iff
  | _ => exact ⟨fun _ => trivial, fun _ _ no => absurd no List.not_mem_nil⟩

end Calls

section PackedGamma

open WeightLoader

-- The gamma of a norm over six floats, stored as BFloat16.
def gammaValue : Value :=
  { name := "gamma", shape := { dims := [6] }, dtype := .float32, kind := .constant }

def packedGamma : ByteTensor :=
  { name := "gamma", shape := gammaValue.shape, dtype := .bfloat16, allocatedBytes := 12 }

def gammaNode : Node Unit := { opType := .rmsNorm, inputs := [0, 1], outputs := [2] }

def gammaGraph : Graph Unit :=
  { values := [{ name := "x", shape := gammaValue.shape, kind := .input }, gammaValue,
      { name := "y", shape := gammaValue.shape }]
    nodes := [gammaNode] }

def gammaStore : SharedWeightStore :=
  { storageByGgufName := fun _ => some packedGamma, aliasesByValueName := fun _ => some [] }

/-- Every other value has six floats. -/
def floats : WeightLoader.Bindings := fun _ =>
  some { name := "", shape := gammaValue.shape, dtype := .float32, allocatedBytes := 24 }

/-- The loader allocates the gamma so, `check_compatible_weight` lets it through, and
`kernel_rmsnorm` reads its twelve bytes as six floats. -/
theorem packedGamma_misread :
    (∃ ti : GGUFTensorInfo, ti.dtype = .BF16 ∧ sharedTensor gammaValue ti = .ok packedGamma) ∧
      gammaStore.bind gammaGraph floats = (none, assign floats 1 packedGamma) ∧
      gammaNode ∈ gammaGraph.nodes ∧
      (∃ reads, weightReads (assign floats 1 packedGamma) gammaNode = .ok reads ∧
        ∃ read ∈ reads, read.value = 1 ∧ read.as = .float32 ∧ 23 ∈ read.bytes) ∧
      ¬ ReadsSoundly (assign floats 1 packedGamma) (weightReads (assign floats 1 packedGamma)
        gammaNode) := by
  have last : (⟨1, .float32, 5⟩ : Read) ∈ rmsnormReads gammaNode 1 6 := by decide
  refine ⟨⟨{ name := [], dimensions := [6], dtype := .BF16, offset := 0 }, rfl, rfl⟩, rfl,
    List.mem_singleton.mpr rfl, ⟨_, rfl, _, last, rfl, rfl, by decide⟩, fun sound => ?_⟩
  obtain ⟨⟨tensor, found, float⟩, -⟩ := (Read.sound_iff _).mp (sound _ last)
  obtain rfl := Option.some.inj found
  cases float

end PackedGamma

end MiniLLM.CpuKernelAdapter
