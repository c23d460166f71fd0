import Mathlib.Tactic.Ring
import MiniLLM.PagedRuns

/-!
`kernel_rope` on batched inputs. The kernel counts the rows of the whole batch in one
loop and rotates row `s` for position `pos_offset + s`, while attention counts the
positions of every batch element from 0. The rotation of a head row is a parameter;
`cpu::apply_rope` is one instance.
-/

namespace MiniLLM.CpuKernelAdapter

open Loops Cpu

variable {α : Type} [Field α]

theorem wrap32_idem (x : Int) : wrap32 (wrap32 x) = wrap32 x :=
  wrap32_eq _ (by unfold wrap32; omega) (wrap32_lt x)

/-- The cast of a count that is an `int`. -/
theorem wrap32_count {n : Nat} (fits : n ≤ Strides.intMax) : wrap32 n = n := by
  have small : n ≤ 2147483647 := fits
  exact wrap32_eq _ (by omega) (by omega)

/-- A count below 2^32 with a positive cast is an `int`. -/
theorem count_of_wrap32_pos {n : Nat} (positive : 0 < wrap32 n) (bounded : n < 4294967296) :
    n ≤ Strides.intMax := by
  unfold wrap32 at positive
  have small : n ≤ 2147483647 := by omega
  exact small

theorem intProduct_pair (a b : Int) : intProduct [a, b] = wrap32 (a * b) := by
  simp only [intProduct, List.foldl_cons, List.foldl_nil, Int.one_mul]
  rw [wrap32_idem, wrap32_mul]

/-- The last cell of a batch. -/
theorem last_cell {batch seqLen heads headDim : Nat} (someBatch : 0 < batch) (rows : 0 < seqLen)
    (head : 0 < heads) (dim : 0 < headDim) :
    ((batch - 1) * seqLen + (seqLen - 1)) * (heads * headDim) + (heads - 1) * headDim +
      (headDim - 1) = batch * seqLen * (heads * headDim) - 1 := by
  obtain ⟨b, rfl⟩ := Nat.exists_eq_add_of_le' someBatch
  obtain ⟨s, rfl⟩ := Nat.exists_eq_add_of_le' rows
  obtain ⟨h, rfl⟩ := Nat.exists_eq_add_of_le' head
  obtain ⟨d, rfl⟩ := Nat.exists_eq_add_of_le' dim
  simp only [Nat.add_sub_cancel]
  refine Nat.eq_sub_of_add_eq ?_
  ring

/-- The rotation of one head row for a position. -/
abbrev Rotation (α : Type) := Buffer α → Int → Buffer α

def rotateRows (rotate : Rotation α) (args : RopeArgs α) (pos : Int) : Buffer α :=
  let hidden := args.hidden.toNat
  let headDim := args.headDim.toNat
  let numHeads := hidden / headDim
  loop args.seqLen.toNat (fun s o =>
      loop numHeads (fun h o =>
        copyFloats headDim o (s * hidden + h * headDim)
          (rotate (fun d => args.x.data (s * hidden + h * headDim + d)) (pos + s))) o)
    args.output.data

/-- `kernel_rope` for any rotation, one that works in registers of `width` lanes. -/
def kernelRopeBy (width : Nat) (rotate : Rotation α) : KernelFn α (RuntimeContext α) :=
  fun node ctx =>
    match ropeArgs node ctx with
    | .error failure => (some failure, ctx)
    | .ok args =>
        let pos := posOffset ctx args.seqLen
        if RopeFits width args pos then
          (none, ctx.writeData (node.outputs.getD 0 0) (rotateRows rotate args pos))
        else (some .undefined, ctx)

/-- The rotation of `apply_rope` on a whole head. -/
def ropeRotation (ops : FloatOps α) (base : α) (headDim : Nat) : Rotation α :=
  fun x pos => rotated ops base headDim pos x

theorem ropeRows_eq (ops : FloatOps α) (args : RopeArgs α) (pos : Int)
    (even : args.headDim.toNat % 2 = 0) :
    ropeRows ops args pos =
      rotateRows (ropeRotation ops args.ropeBase args.headDim.toNat) args pos := by
  refine loop_congr _ _ _ _ fun s o _ => loop_congr _ _ _ _ fun h o _ => ?_
  have row := applyRopeRow_head ops
    (fun d => args.x.data (s * args.hidden.toNat + h * args.headDim.toNat + d)) o
    (s * args.hidden.toNat + h * args.headDim.toNat) args.headDim.toNat args.ropeBase (pos + s) even
  simpa [applyRope, loop, ropeRotation] using row

theorem kernelRope_eq (ops : FloatOps α) (node : Node α) (ctx : RuntimeContext α)
    (even : (wrap32 (node.attrInt "head_dim" 64)).toNat % 2 = 0) :
    kernelRope ops node ctx = kernelRopeBy ops.simdWidth
      (ropeRotation ops (ropeBase node)
        (wrap32 (node.attrInt "head_dim" 64)).toNat)
      node ctx := by
  unfold kernelRope kernelRopeBy
  cases accepted : ropeArgs node ctx with
  | error failure => rfl
  | ok args =>
      have fields : args.headDim = wrap32 (node.attrInt "head_dim" 64) ∧
          args.ropeBase = ropeBase node := by
        unfold ropeArgs at accepted
        obtain ⟨_, _, accepted⟩ := bind_eq_ok accepted
        obtain ⟨_, _, accepted⟩ := bind_eq_ok accepted
        obtain ⟨_, _, accepted⟩ := bind_eq_ok accepted
        obtain ⟨_, _, accepted⟩ := bind_eq_ok accepted
        obtain ⟨_, _, accepted⟩ := bind_eq_ok accepted
        obtain rfl := Except.ok.inj accepted
        exact ⟨rfl, rfl⟩
      rw [← fields.1, ← fields.2]
      rw [← fields.1] at even
      dsimp only
      rw [ropeRows_eq ops args _ even]

omit [Field α] in
/-- A head row of a rotated row. -/
theorem rotateRows_at (rotate : Rotation α) (args : RopeArgs α) (pos : Int) {heads headDim : Nat}
    (hidden : args.hidden = (heads * headDim : Nat)) (dim : args.headDim = headDim)
    {s h d : Nat} (row : s < args.seqLen.toNat) (head : h < heads) (inside : d < headDim) :
    rotateRows rotate args pos (s * (heads * headDim) + h * headDim + d) =
      rotate (fun d => args.x.data (s * (heads * headDim) + h * headDim + d)) (pos + s) d := by
  have headCount : heads * headDim / headDim = heads := Nat.mul_div_cancel _ (by omega)
  simp only [rotateRows, hidden, dim, Int.toNat_natCast, headCount]
  refine Strides.copyRows_at args.seqLen.toNat heads headDim
    (fun s h => s * (heads * headDim) + h * headDim) (fun s h => rotate
      (fun d => args.x.data (s * (heads * headDim) + h * headDim + d)) (pos + s)) args.output.data
    ?_ row head inside
  intro a _ b insideB a' _ b' insideB' d insideD d' insideD' same
  rw [← Nat.mul_assoc, ← Nat.mul_assoc] at same
  obtain ⟨rows, columns, _⟩ := Strides.strided3_inj insideB insideB' insideD insideD' same
  exact ⟨rows, columns⟩

omit [Field α] in
/-- A cell that changed lies in a head of a row. -/
theorem rotateRows_changed {rotate : Rotation α} {args : RopeArgs α} {pos : Int} {i : Nat}
    (changed : rotateRows rotate args pos i ≠ args.output.data i) :
    ∃ s < args.seqLen.toNat, ∃ h < args.hidden.toNat / args.headDim.toNat,
      ∃ d < args.headDim.toNat, s * args.hidden.toNat + h * args.headDim.toNat + d = i := by
  by_contra none
  have copied : rotateRows rotate args pos =
      Strides.copyRows args.seqLen.toNat (args.hidden.toNat / args.headDim.toNat) args.headDim.toNat
        (fun s h => s * args.hidden.toNat + h * args.headDim.toNat) (fun s h => rotate
          (fun d => args.x.data (s * args.hidden.toNat + h * args.headDim.toNat + d)) (pos + s))
        args.output.data := rfl
  rw [copied] at changed
  exact changed (Strides.copyRows_outside _ _ _ _ _ _ fun s row h head d inside same =>
    none ⟨s, row, h, head, d, inside, same⟩)

omit [Field α] in
/-- If the rows reach cell `i`, there are rows and heads, and `i` is below 2^32. -/
theorem rotateRows_reaches {width : Nat} {rotate : Rotation α} {args : RopeArgs α} {pos : Int}
    {i : Nat} (fits : RopeFits width args pos)
    (changed : rotateRows rotate args pos i ≠ args.output.data i) :
    0 < args.seqLen ∧ 0 < args.hidden ∧ i < 2147483647 + args.hidden.toNat := by
  obtain ⟨s, row, h, head, d, inside, place⟩ := rotateRows_changed changed
  have rows : 0 < args.seqLen := by omega
  have rowInt : s * args.hidden.toNat ≤ 2147483647 := (fits.2 rows (by omega)).1.row row
  have narrow : h * args.headDim.toNat + d < args.hidden.toNat :=
    (Strides.strided_lt head inside).trans_le (Nat.div_mul_le_self _ _)
  exact ⟨rows, by omega, by omega⟩

/-- A context whose node reads `x` and writes over `output`, both of one shape. -/
def ropeContext (ctx : RuntimeContext α) (node : Node α) (shape : Shape) (x output : Buffer α) :
    RuntimeContext α :=
  { ctx with bindings := fun id =>
      if id = node.outputs.getD 0 0 then some { shape := shape, data := output }
      else if id = node.inputs.getD 0 0 then some { shape := shape, data := x }
      else ctx.bindings id }

/-- The rows a run of the kernel leaves in its output. -/
def ropeOutput (width : Nat) (rotate : Rotation α) (ctx : RuntimeContext α) (node : Node α)
    (shape : Shape) (x output : Buffer α) : Buffer α :=
  outputData (kernelRopeBy width rotate node (ropeContext ctx node shape x output)).2 node

/-- The arguments of a call, the `int`s cast from the dimensions. -/
def batchArgs (node : Node α) (shape : Shape) (x output : Buffer α)
    (batch seqLen hidden headDim : Nat) : RopeArgs α where
  x := { shape := shape, data := x }
  output := { shape := shape, data := output }
  seqLen := wrap32 (batch * seqLen : Nat)
  hidden := wrap32 hidden
  headStride := headDim
  headDim := wrap32 headDim
  ropeBase := ropeBase node

/-- The `int`s of a call on one batch element. -/
def RotationFits (width : Nat) (pos : Int) (seqLen heads headDim : Nat) : Prop :=
  seqLen ≤ Strides.intMax ∧ heads * headDim ≤ Strides.intMax ∧
    Strides.RowsFit seqLen (heads * headDim) ∧ pos + seqLen - 1 ≤ Strides.intMax ∧
    Strides.VectorsFit width (headDim / 2)

section Batches

variable {ctx : RuntimeContext α} {node : Node α} {whole slice : Shape}
  {batch seqLen heads headDim : Nat}

theorem ropeArgs_context {hidden : Nat} (x output : Buffer α)
    (distinct : node.inputs.getD 0 0 ≠ node.outputs.getD 0 0)
    (dims : whole.dims = [(batch : Int), seqLen, hidden])
    (attr : node.attrInt "head_dim" 64 = headDim) :
    ropeArgs node (ropeContext ctx node whole x output) =
      .ok (batchArgs node whole x output batch seqLen hidden headDim) := by
  have product : intProduct whole.dims.dropLast = wrap32 (batch * seqLen : Nat) := by
    rw [dims]
    exact (intProduct_pair _ _).trans (by rw [Nat.cast_mul])
  have bindsX : (ropeContext ctx node whole x output).bindings (node.inputs.getD 0 0) =
      some { shape := whole, data := x } := (if_neg distinct).trans (if_pos rfl)
  have bindsOutput : (ropeContext ctx node whole x output).bindings (node.outputs.getD 0 0) =
      some { shape := whole, data := output } := if_pos rfl
  have last : dimOf ({ shape := whole, data := x } : Tensor α) (whole.rank - 1) = .ok hidden := by
    simp [dimOf, Shape.dim, Shape.rank, dims]
  unfold ropeArgs
  refine bind_of_ok (getTensor_bound bindsX _) (bind_of_ok (getTensor_bound bindsOutput _)
    (bind_of_ok rfl (bind_of_ok rfl (bind_of_ok last ?_))))
  rw [product, attr]
  rfl

/-- What a call leaves: rotated rows where its `int`s fit, else the output it found. -/
theorem ropeOutput_eq (width : Nat) (rotate : Rotation α) {hidden : Nat} (x output : Buffer α)
    (distinct : node.inputs.getD 0 0 ≠ node.outputs.getD 0 0)
    (dims : whole.dims = [(batch : Int), seqLen, hidden])
    (attr : node.attrInt "head_dim" 64 = headDim) :
    let args := batchArgs node whole x output batch seqLen hidden headDim
    ropeOutput width rotate ctx node whole x output =
      if RopeFits width args (posOffset ctx args.seqLen) then
        rotateRows rotate args (posOffset ctx args.seqLen)
      else output := by
  intro args
  have accepted : ropeArgs node (ropeContext ctx node whole x output) = .ok args :=
    ropeArgs_context x output distinct dims attr
  have binds : (ropeContext ctx node whole x output).bindings (node.outputs.getD 0 0) =
      some { shape := whole, data := output } := if_pos rfl
  have place : ∀ n, posOffset (ropeContext ctx node whole x output) n = posOffset ctx n :=
    fun n => rfl
  rw [ropeOutput, kernelRopeBy, accepted]
  dsimp only
  rw [place]
  split
  · rw [outputData_write _ _ _ binds]
  · simp only [outputData, binds]

/-- Rows whose `int`s fit are rotated for the offset plus their place in the batch. -/
theorem ropeOutput_at (width : Nat) (rotate : Rotation α) (x output : Buffer α)
    (distinct : node.inputs.getD 0 0 ≠ node.outputs.getD 0 0)
    (dims : whole.dims = [(batch : Int), seqLen, (heads * headDim : Nat)])
    (attr : node.attrInt "head_dim" 64 = headDim) (rowsInt : batch * seqLen ≤ Strides.intMax)
    (hiddenInt : heads * headDim ≤ Strides.intMax)
    (fits : RopeFits width (batchArgs node whole x output batch seqLen (heads * headDim) headDim)
      (posOffset ctx (batch * seqLen : Nat)))
    {b s h d : Nat} (element : b < batch) (row : s < seqLen) (head : h < heads)
    (inside : d < headDim) :
    ropeOutput width rotate ctx node whole x output
        ((b * seqLen + s) * (heads * headDim) + h * headDim + d) =
      rotate (fun d => x ((b * seqLen + s) * (heads * headDim) + h * headDim + d))
        (posOffset ctx (batch * seqLen : Nat) + (b * seqLen + s : Nat)) d := by
  have narrow : headDim ≤ heads * headDim := Nat.le_mul_of_pos_left headDim (by omega)
  have rowsCast := wrap32_count rowsInt
  have hiddenCast := wrap32_count hiddenInt
  have dimCast := wrap32_count (narrow.trans hiddenInt)
  have rows : (batchArgs node whole x output batch seqLen (heads * headDim) headDim).seqLen =
      (batch * seqLen : Nat) := rowsCast
  rw [ropeOutput_eq width rotate x output distinct dims attr, rows, if_pos fits]
  refine rotateRows_at rotate (batchArgs node whole x output batch seqLen (heads * headDim) headDim)
    _ hiddenCast dimCast ?_ head inside
  rw [rows, Int.toNat_natCast]
  exact Strides.strided_lt element row

/-- If a call changes the last cell of the batch, no cast of it wrapped. -/
theorem ropeOutput_ints {width : Nat} {rotate : Rotation α} {x output : Buffer α}
    (distinct : node.inputs.getD 0 0 ≠ node.outputs.getD 0 0)
    (dims : whole.dims = [(batch : Int), seqLen, (heads * headDim : Nat)])
    (attr : node.attrInt "head_dim" 64 = headDim) (some : 0 < batch * seqLen * (heads * headDim))
    (changed : ropeOutput width rotate ctx node whole x output
        (batch * seqLen * (heads * headDim) - 1) ≠
      output (batch * seqLen * (heads * headDim) - 1)) :
    batch * seqLen ≤ Strides.intMax ∧ heads * headDim ≤ Strides.intMax ∧
      RopeFits width (batchArgs node whole x output batch seqLen (heads * headDim) headDim)
        (posOffset ctx (batch * seqLen : Nat)) := by
  rw [ropeOutput_eq width rotate x output distinct dims attr] at changed
  by_cases fits : RopeFits width
      (batchArgs node whole x output batch seqLen (heads * headDim) headDim)
      (posOffset ctx (batchArgs node whole x output batch seqLen (heads * headDim) headDim).seqLen)
  · rw [if_pos fits] at changed
    obtain ⟨rowsPos, hiddenPos, reached⟩ := rotateRows_reaches fits changed
    have hiddenHigh : (batchArgs node whole x output batch seqLen (heads * headDim)
        headDim).hidden < 2147483648 := wrap32_lt _
    have total : batch * seqLen * (heads * headDim) < 4294967296 := by omega
    have rowsLow : batch * seqLen ≤ batch * seqLen * (heads * headDim) :=
      Nat.le_mul_of_pos_right _ (Nat.pos_of_mul_pos_left some)
    have hiddenLow : heads * headDim ≤ batch * seqLen * (heads * headDim) :=
      Nat.le_mul_of_pos_left _ (Nat.pos_of_mul_pos_right some)
    have rowsInt := count_of_wrap32_pos rowsPos (by omega)
    have hiddenInt := count_of_wrap32_pos hiddenPos (by omega)
    have cast : (batchArgs node whole x output batch seqLen (heads * headDim) headDim).seqLen =
        (batch * seqLen : Nat) := wrap32_count rowsInt
    rw [cast] at fits
    exact ⟨rowsInt, hiddenInt, fits⟩
  · rw [if_neg fits] at changed
    exact absurd rfl changed

/-- For one rotation and one input: row (b, s) of the batch comes out rotated for
the position `s` behind the offset of its slice, as it does when the slice runs alone. -/
def SliceWise (width : Nat) (rotate : Rotation α) (ctx : RuntimeContext α) (node : Node α)
    (whole slice : Shape) (batch seqLen heads headDim : Nat) (x output : Buffer α) : Prop :=
  ∀ b < batch, ∀ s < seqLen, ∀ h < heads, ∀ d < headDim,
    ropeOutput width rotate ctx node whole x output
        ((b * seqLen + s) * (heads * headDim) + h * headDim + d) =
      rotate (fun d => x ((b * seqLen + s) * (heads * headDim) + h * headDim + d))
        (posOffset ctx seqLen + s) d ∧
    ropeOutput width rotate ctx node whole x output
        ((b * seqLen + s) * (heads * headDim) + h * headDim + d) =
      ropeOutput width rotate ctx node slice (fun i => x (b * seqLen * (heads * headDim) + i)) output
        (s * (heads * headDim) + h * headDim + d)

/-- The guard of a call whose casts are exact. -/
theorem ropeFits_iff (width : Nat) (node : Node α) (shape : Shape) (x output : Buffer α) (pos : Int)
    (rows : 0 < batch * seqLen) (head : 0 < heads) (dim : 0 < headDim)
    (rowsInt : batch * seqLen ≤ Strides.intMax) (hiddenInt : heads * headDim ≤ Strides.intMax) :
    RopeFits width (batchArgs node shape x output batch seqLen (heads * headDim) headDim) pos ↔
      Strides.RowsFit (batch * seqLen) (heads * headDim) ∧
        pos + (batch * seqLen : Nat) - 1 ≤ Strides.intMax ∧ Strides.VectorsFit width (headDim / 2) := by
  have narrow : headDim ≤ heads * headDim := Nat.le_mul_of_pos_left headDim head
  have rowsCast := wrap32_count rowsInt
  have hiddenCast := wrap32_count hiddenInt
  have dimCast := wrap32_count (narrow.trans hiddenInt)
  simp only [RopeFits, batchArgs, rowsCast, hiddenCast, dimCast, Int.toNat_natCast,
    Nat.mul_div_cancel _ dim, implies_true, and_true]
  exact ⟨fun fits => fits.2 (by omega) head, fun fits => ⟨by omega, fun _ _ => fits⟩⟩

/-- For an even head `kernel_rope` is an instance, and it treats the batch elements
independently exactly when there is one and the offsets of its rows are `int`s. -/
theorem kernelRope_sliceWise_iff (width : Nat)
    (distinct : node.inputs.getD 0 0 ≠ node.outputs.getD 0 0)
    (dims : whole.dims = [(batch : Int), seqLen, (heads * headDim : Nat)])
    (sliceDims : slice.dims = [1, (seqLen : Int), (heads * headDim : Nat)])
    (attr : node.attrInt "head_dim" 64 = headDim) (even : headDim % 2 = 0) :
    (∀ ops run, kernelRope ops node run = kernelRopeBy ops.simdWidth
      (ropeRotation ops (ropeBase node) (wrap32 headDim).toNat) node run) ∧
      ((∀ rotate x output,
        SliceWise width rotate ctx node whole slice batch seqLen heads headDim x output) ↔
        batch = 1 ∧ RotationFits width (posOffset ctx seqLen) seqLen heads headDim) := by
  have sliceDims' : slice.dims = [((1 : Nat) : Int), seqLen, (heads * headDim : Nat)] := sliceDims
  have positive : 0 < batch ∧ 0 < seqLen ∧ 0 < heads * headDim := by
    have valid := whole.valid
    simp only [dims, List.mem_cons, List.not_mem_nil, or_false, forall_eq_or_imp, forall_eq] at valid
    omega
  obtain ⟨some, rows, wide⟩ := positive
  have headsPos : 0 < heads := Nat.pos_of_mul_pos_right wide
  have dimPos : 0 < headDim := Nat.pos_of_mul_pos_left wide
  refine ⟨fun ops run => ?_, fun all => ?_, ?_⟩
  · have same := kernelRope_eq ops node run (by
      rw [attr]
      unfold wrap32
      omega)
    rwa [attr] at same
  · -- A rotation to ones changes the last cell, so no cast wrapped.
    have last := last_cell some rows headsPos dimPos
    have ones := (all (fun _ _ _ => 1) (fun _ => 0) (fun _ => 0) (batch - 1) (by omega) (seqLen - 1)
      (by omega) (heads - 1) (by omega) (headDim - 1) (by omega)).1
    rw [last] at ones
    obtain ⟨rowsInt, hiddenInt, fits⟩ := ropeOutput_ints distinct dims attr
      (Nat.mul_pos (Nat.mul_pos some rows) wide) (by rw [ones]; exact one_ne_zero)
    -- Two batch elements would both start at the offset.
    have single : batch = 1 := by
      by_contra several
      let rotate : Rotation α := fun _ pos _ => if pos = posOffset ctx seqLen then 1 else 0
      have compare : ∀ b < batch,
          posOffset ctx (batch * seqLen : Nat) + (b * seqLen : Nat) = posOffset ctx seqLen := by
        intro b element
        have same := (all rotate (fun _ => 0) (fun _ => 0) b element 0 rows 0 headsPos 0 dimPos).1
        rw [ropeOutput_at width rotate _ _ distinct dims attr rowsInt hiddenInt fits element rows
          headsPos dimPos] at same
        simpa [rotate] using same
      have first := compare 0 some
      have second := compare 1 (by omega)
      omega
    subst single
    obtain ⟨rowFit, posFit, vectors⟩ :=
      (ropeFits_iff width node whole _ _ _ (by omega) headsPos dimPos rowsInt hiddenInt).mp fits
    rw [Nat.one_mul] at rowsInt rowFit posFit
    exact ⟨rfl, rowsInt, hiddenInt, rowFit, posFit, vectors⟩
  · rintro ⟨rfl, rowsInt, hiddenInt, rowFit, posFit, vectors⟩ rotate x output b element s row h head d
      inside
    obtain rfl : b = 0 := by omega
    have rowsInt : 1 * seqLen ≤ Strides.intMax := by omega
    have fits := fun (shape : Shape) (x output : Buffer α) =>
      (ropeFits_iff width node shape x output (posOffset ctx (1 * seqLen : Nat)) (by omega) headsPos
        dimPos rowsInt hiddenInt).mpr
        (by rw [Nat.one_mul]; exact ⟨rowFit, posFit, vectors⟩)
    have wholeAt := ropeOutput_at width rotate x output distinct dims attr rowsInt hiddenInt
      (fits whole x output) element row head inside
    have sliceAt := ropeOutput_at width rotate
      (fun i => x (0 * seqLen * (heads * headDim) + i)) output distinct sliceDims' attr rowsInt
      hiddenInt (fits slice _ output) element row head inside
    simp only [Nat.zero_mul, Nat.zero_add, Nat.one_mul] at wholeAt sliceAt ⊢
    exact ⟨wholeAt, wholeAt.trans sliceAt.symm⟩

end Batches

def pairNode : Node ℚ where
  opType := .roPE
  inputs := [0]
  outputs := [1]
  attrs := fun _ => some (.int 2)

/-- The only row of batch element 1 is rotated for position 1, alone for position 0. -/
theorem kernelRope_second_element :
    ¬ SliceWise 8 (fun _ pos _ => (pos : ℚ)) {} pairNode { dims := [2, 1, 2] } { dims := [1, 1, 2] }
      2 1 1 2 (fun _ => 1) (fun _ => 0) := by
  intro all
  have second := (all 1 (by decide) 0 (by decide) 0 (by decide) 0 (by decide)).1
  revert second
  decide

theorem kernelRope_sliceWise_iff_pair :
    SliceWise 8 (fun row pos d => row d + (pos : ℚ)) {} pairNode { dims := [1, 3, 2] } { dims := [1, 3, 2] }
      1 3 1 2 (fun i => (i : ℚ)) (fun _ => 0) :=
  (kernelRope_sliceWise_iff 8 (by decide) rfl rfl rfl rfl).2.mpr
    ⟨rfl, by decide, by decide, by decide, by decide, by decide⟩ _ _ _

end MiniLLM.CpuKernelAdapter
