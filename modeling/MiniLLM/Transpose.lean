import MiniLLM.MixedRadix
import MiniLLM.Status
import MiniLLM.Strides

/-!
`cpu::transpose` and the CUDA `transpose_kernel`. Both compute the input cell of an
output cell from the digits of its linear index: the CPU from the first axis down
with precomputed strides, the GPU from the last axis up. Sizes are `size_t`, the
vectors of the code are read at the axes below the rank, and an axis is already
counted from the front.
-/

namespace MiniLLM.Cpu

open Loops MixedRadix

universe u
variable {Elem : Type u}

/-- `std::swap` of two cells. -/
def swapCells (cells : Buffer Elem) (a b : Nat) : Buffer Elem :=
  store (store cells a (cells b)) b (cells a)

-- `in_strides` and `out_strides` are filled side by side in one loop.
def rowStrides (dims : Buffer Nat) (rank : Nat) : Buffer Nat :=
  loop (rank - 1) (fun k strides =>
      let i := rank - 2 - k
      store strides i (wrapSize (strides (i + 1) * dims (i + 1))))
    fun _ => 1

/-- The input cell that output cell `linear` is copied from. -/
def transposeSource (dims : Buffer Nat) (rank axis0 axis1 linear : Nat) : Nat :=
  let inStrides := rowStrides dims rank
  let outStrides := rowStrides (swapCells dims axis0 axis1) rank
  let outIndex := (loop rank (fun i acc =>
      (store acc.1 i (acc.2 / outStrides i), acc.2 % outStrides i)) (fun _ => 0, linear)).1
  let inIndex := swapCells outIndex axis0 axis1
  loop rank (fun i src => wrapSize (src + wrapSize (inIndex i * inStrides i))) 0

def transpose (x y : Buffer Elem) (dims : Buffer Nat) (rank axis0 axis1 : Nat) : Buffer Elem :=
  if axis0 = axis1 then
    let total := loop rank (fun i total => wrapSize (total * dims i)) 1
    copyFloats (wrapSize (total * 4) / 4) y 0 x
  else
    let outDims := swapCells dims axis0 axis1
    let total := if rank = 0 then 0 else wrapSize (outDims 0 * rowStrides outDims rank 0)
    loop total (fun linear y => store y linear (x (transposeSource dims rank axis0 axis1 linear))) y

end MiniLLM.Cpu

namespace MiniLLM.Cuda

open Loops

universe u
variable {Elem : Type u}

/-- The source index of a thread; `in_stride`, which nothing reads, is left out. -/
def transposeKernelSource (dims : Buffer Nat) (rank axis0 axis1 linear : Nat) : Nat :=
  (loop rank (fun k acc =>
      let i := rank - 1 - k
      let inAxis := if i = axis0 then axis1 else if i = axis1 then axis0 else i
      let outDim := dims inAxis
      let outIdx := acc.1 % outDim
      let stride := loop (rank - 1 - inAxis) (fun t stride => wrapSize (stride * dims (rank - 1 - t))) 1
      (acc.1 / outDim, wrapSize (acc.2 + wrapSize (outIdx * stride))))
    (linear, 0)).2

/-- What the thread with global index `linear` writes. -/
def transposeKernel (x : Buffer Elem) (dims : Buffer Nat) (rank axis0 axis1 total linear : Nat)
    (y : Buffer Elem) : Buffer Elem :=
  if linear ≥ total then y
  else store y linear (x (transposeKernelSource dims rank axis0 axis1 linear))

-- The threads write distinct cells, so one order of them stands for all.
def transpose (x y : Buffer Elem) (dims : Buffer Nat) (rank axis0 axis1 total : Nat) : Buffer Elem :=
  let block := 256
  let gridX := (total + block - 1) / block
  loop gridX (fun blockIdx y =>
      loop block (fun threadIdx y =>
        transposeKernel x dims rank axis0 axis1 total (blockIdx * block + threadIdx) y) y) y

end MiniLLM.Cuda

namespace MiniLLM.Cpu

open Loops MixedRadix

universe u
variable {Elem : Type u} {dims : Buffer Nat} {rank axis0 axis1 : Nat}

theorem swapCells_eq (cells : Buffer Elem) (a b : Nat) :
    swapCells cells a b = cells ∘ Equiv.swap a b := by
  funext i
  simp only [swapCells, store, Function.comp_apply, Equiv.swap_apply_def]
  by_cases atB : i = b
  · by_cases atA : i = a
    · subst atB; rw [if_pos rfl, if_pos atA, atA]
    · rw [if_pos atB, if_neg atA, if_pos atB]
  · rw [if_neg atB]
    split
    · rfl
    · rfl

/-- The bytes of the table fit a `size_t`, as those of any table in memory do. -/
def Fits (dims : Buffer Nat) (rank : Nat) : Prop := volume dims rank * 4 < 18446744073709551616

theorem stride_le_volume (positive : ∀ i < rank, 0 < dims i) {i : Nat} (inside : i < rank) :
    stride dims rank i * dims i ≤ volume dims rank :=
  Nat.le_of_dvd (Finset.prod_pos fun k member => positive k (Finset.mem_range.mp member))
    (stride_mul_dvd dims inside)

theorem rowStrides_eq (positive : ∀ i < rank, 0 < dims i) (fits : Fits dims rank)
    {i : Nat} (inside : i < rank) : rowStrides dims rank i = stride dims rank i := by
  have rule := loop_invariant
    (fun k strides => ∀ i, rank - 1 - k ≤ i → i < rank → strides i = stride dims rank i)
    (rank - 1) (fun k strides =>
      let i := rank - 2 - k
      store strides i (wrapSize (strides (i + 1) * dims (i + 1)))) (fun _ => 1) ?_ ?_
  · exact rule i (by omega) inside
  · intro i low high
    obtain rfl : rank = i + 1 := by omega
    exact (stride_last dims i).symm
  · intro k strides below done i low high
    by_cases here : i = rank - 2 - k
    · have next : rank - 2 - k + 1 < rank := by omega
      have bound := stride_le_volume positive next
      subst here
      simp only [store_same]
      rw [done _ (by omega) next, wrapSize_eq (by unfold Fits at fits; omega), stride_step dims next]
    · simp only [store_other _ _ _ _ here]
      exact done i (by omega) high

/-- Summing digit times stride along the axes is the row-major index. -/
theorem loop_flatten (fits : Fits dims rank)
    {index strides : Buffer Nat} (within : Within dims rank index)
    (rows : ∀ i < rank, strides i = stride dims rank i) :
    loop rank (fun i src => wrapSize (src + wrapSize (index i * strides i))) 0 =
      flatten dims rank index := by
  have rule := loop_invariant
    (fun k src => src = ∑ i ∈ Finset.range k, index i * stride dims rank i)
    rank (fun i src => wrapSize (src + wrapSize (index i * strides i))) 0 rfl ?_
  · exact rule
  · rintro k src below rfl
    have upTo : ∑ i ∈ Finset.range (k + 1), index i * stride dims rank i ≤
        flatten dims rank index :=
      Finset.sum_le_sum_of_subset (Finset.range_mono below)
    have bound := flatten_lt within
    rw [Finset.sum_range_succ] at upTo ⊢
    unfold Fits at fits
    have product : wrapSize (index k * stride dims rank k) = index k * stride dims rank k :=
      wrapSize_eq (by omega)
    rw [rows k below, product, wrapSize_eq (by omega)]

theorem suffix_step (dims : Nat → Nat) {rank i : Nat} (inside : i < rank) :
    ∏ k ∈ Finset.Ico i rank, dims k = dims i * stride dims rank i :=
  Finset.prod_eq_prod_Ico_succ_bot inside dims

/-- Dividing by the strides from the first axis down leaves the digits. -/
theorem loop_digits {strides : Buffer Nat} {linear : Nat} (inside : linear < volume dims rank)
    (rows : ∀ i < rank, strides i = stride dims rank i) :
    ∀ i < rank, (loop rank (fun i acc =>
      (store acc.1 i (acc.2 / strides i), acc.2 % strides i))
        ((fun _ => 0 : Buffer Nat), linear)).1 i = digit dims rank linear i := by
  have rule := loop_invariant
    (fun k (acc : Buffer Nat × Nat) => (∀ i < k, acc.1 i = digit dims rank linear i) ∧
      acc.2 = linear % ∏ i ∈ Finset.Ico k rank, dims i)
    rank (fun i acc => (store acc.1 i (acc.2 / strides i), acc.2 % strides i))
    ((fun _ => 0 : Buffer Nat), linear)
    ⟨fun i below => absurd below (Nat.not_lt_zero i), ?_⟩ ?_
  · exact rule.1
  · rw [← Finset.range_eq_Ico]
    exact (Nat.mod_eq_of_lt inside).symm
  · rintro k ⟨index, rem⟩ below ⟨done, left⟩
    dsimp only at done left ⊢
    rw [suffix_step dims below] at left
    constructor
    · intro i early
      by_cases here : i = k
      · rw [here, store_same, rows k below, left, Nat.mod_mul_left_div_self, digit]
      · rw [store_other _ _ _ _ here]
        exact done i (by omega)
    · rw [left, rows k below]
      exact Nat.mod_mod_of_dvd _ (Nat.dvd_mul_left _ _)

theorem swapped_positive (positive : ∀ i < rank, 0 < dims i) (inside0 : axis0 < rank)
    (inside1 : axis1 < rank) : ∀ i < rank, 0 < (dims ∘ Equiv.swap axis0 axis1) i :=
  fun i inside => positive _ ((axes_swap inside0 inside1 i).mpr inside)

theorem swapped_fits (fits : Fits dims rank) (inside0 : axis0 < rank) (inside1 : axis1 < rank) :
    Fits (dims ∘ Equiv.swap axis0 axis1) rank := by
  rw [Fits, volume_perm dims (axes_swap inside0 inside1)]
  exact fits

/-- The CPU's source index, digit by digit. -/
theorem transposeSource_eq (positive : ∀ i < rank, 0 < dims i) (fits : Fits dims rank)
    (inside0 : axis0 < rank) (inside1 : axis1 < rank) {linear : Nat}
    (inside : linear < volume dims rank) :
    transposeSource dims rank axis0 axis1 linear =
      source dims rank (Equiv.swap axis0 axis1) linear := by
  have axes := axes_swap inside0 inside1
  have outPositive := swapped_positive positive inside0 inside1
  have outFits := swapped_fits fits inside0 inside1
  have digits := loop_digits
    (by rwa [volume_perm dims axes] : linear < volume (dims ∘ Equiv.swap axis0 axis1) rank)
    fun i below => rowStrides_eq outPositive outFits below
  have within := within_symm axes (digit_within outPositive linear)
  simp only [transposeSource, swapCells_eq]
  refine Eq.trans (loop_flatten fits ?_ fun i below => rowStrides_eq positive fits below)
    (flatten_congr fun i below => digits _ ((axes i).mpr below))
  intro i below
  rw [Function.comp_apply, digits _ ((axes i).mpr below)]
  exact within i below

end MiniLLM.Cpu

namespace MiniLLM.Cuda

open Loops MixedRadix Cpu

universe u
variable {Elem : Type u} {dims : Buffer Nat} {rank axis0 axis1 : Nat}

theorem suffix_grow (dims : Nat → Nat) {rank k : Nat} (inside : k < rank) :
    ∏ i ∈ Finset.Ico (rank - (k + 1)) rank, dims i =
      dims (rank - 1 - k) * ∏ i ∈ Finset.Ico (rank - k) rank, dims i := by
  have at_ : rank - (k + 1) = rank - 1 - k := by omega
  have next : rank - 1 - k + 1 = rank - k := by omega
  rw [at_, Finset.prod_eq_prod_Ico_succ_bot (by omega), next]

/-- The stride of an axis, multiplied up from the last axis. -/
theorem loop_stride (positive : ∀ i < rank, 0 < dims i) (fits : Fits dims rank) {axis : Nat}
    (inside : axis < rank) :
    loop (rank - 1 - axis) (fun t stride => wrapSize (stride * dims (rank - 1 - t))) 1 =
      stride dims rank axis := by
  have rule := loop_invariant
    (fun t total => total = ∏ i ∈ Finset.Ico (rank - t) rank, dims i)
    (rank - 1 - axis) (fun t stride => wrapSize (stride * dims (rank - 1 - t))) 1 (by simp) ?_
  · rwa [show rank - (rank - 1 - axis) = axis + 1 by omega] at rule
  · rintro t total below rfl
    have bound := stride_le_volume positive (i := rank - 1 - t) (by omega)
    have here : stride dims rank (rank - 1 - t) = ∏ i ∈ Finset.Ico (rank - t) rank, dims i := by
      rw [stride, show rank - 1 - t + 1 = rank - t by omega]
    rw [here] at bound
    unfold Fits at fits
    rw [wrapSize_eq (by omega), suffix_grow dims (by omega), Nat.mul_comm]

/-- The GPU's source index, summed along the output axes. -/
theorem transposeKernelSource_sum (positive : ∀ i < rank, 0 < dims i) (fits : Fits dims rank)
    (inside0 : axis0 < rank) (inside1 : axis1 < rank) (linear : Nat)
    (bound : ∑ i ∈ Finset.range rank, digit (dims ∘ Equiv.swap axis0 axis1) rank linear i *
      stride dims rank (Equiv.swap axis0 axis1 i) < 18446744073709551616) :
    transposeKernelSource dims rank axis0 axis1 linear =
      ∑ i ∈ Finset.range rank, digit (dims ∘ Equiv.swap axis0 axis1) rank linear i *
        stride dims rank (Equiv.swap axis0 axis1 i) := by
  have axes := axes_swap inside0 inside1
  let outDims := dims ∘ Equiv.swap axis0 axis1
  let term := fun i => digit outDims rank linear i * stride dims rank (Equiv.swap axis0 axis1 i)
  have small : ∑ i ∈ Finset.range rank, term i < 18446744073709551616 := bound
  have rule := loop_invariant
    (fun k (acc : Nat × Nat) => acc.1 = linear / ∏ i ∈ Finset.Ico (rank - k) rank, outDims i ∧
      acc.2 = ∑ i ∈ Finset.Ico (rank - k) rank, term i)
    rank (fun k acc =>
      let i := rank - 1 - k
      let inAxis := if i = axis0 then axis1 else if i = axis1 then axis0 else i
      let outDim := dims inAxis
      let outIdx := acc.1 % outDim
      let stride := loop (rank - 1 - inAxis) (fun t stride => wrapSize (stride * dims (rank - 1 - t))) 1
      (acc.1 / outDim, wrapSize (acc.2 + wrapSize (outIdx * stride))))
    (linear, 0) (by simp) ?_
  · rw [Nat.sub_self, ← Finset.range_eq_Ico] at rule
    exact rule.2
  · rintro k ⟨rem, src⟩ below ⟨left, done⟩
    dsimp only at left done ⊢
    rw [← Equiv.swap_apply_def axis0 axis1]
    have last : rank - (k + 1) = rank - 1 - k := by omega
    have next : rank - 1 - k + 1 = rank - k := by omega
    have index : rem % dims (Equiv.swap axis0 axis1 (rank - 1 - k)) =
        digit outDims rank linear (rank - 1 - k) := by
      rw [left, digit, stride, next]
      rfl
    have more : ∑ i ∈ Finset.Ico (rank - (k + 1)) rank, term i =
        term (rank - 1 - k) + ∑ i ∈ Finset.Ico (rank - k) rank, term i := by
      rw [last, Finset.sum_eq_sum_Ico_succ_bot (by omega), next]
    have upTo : ∑ i ∈ Finset.Ico (rank - (k + 1)) rank, term i ≤
        ∑ i ∈ Finset.range rank, term i := by
      rw [Finset.range_eq_Ico]
      exact Finset.sum_le_sum_of_subset (Finset.Ico_subset_Ico_left (Nat.zero_le _))
    constructor
    · rw [left, Nat.div_div_eq_div_mul, suffix_grow outDims below, Nat.mul_comm]
      rfl
    · rw [loop_stride positive fits ((axes _).mpr (by omega)), index, done]
      change wrapSize (_ + wrapSize (term (rank - 1 - k))) = _
      have product : wrapSize (term (rank - 1 - k)) = term (rank - 1 - k) :=
        wrapSize_eq (by omega)
      rw [product, more, wrapSize_eq (by omega), Nat.add_comm]

/-- The sum along the output axes is the sum along the input axes. -/
theorem source_eq_sum (inside0 : axis0 < rank) (inside1 : axis1 < rank) (linear : Nat) :
    source dims rank (Equiv.swap axis0 axis1) linear =
      ∑ i ∈ Finset.range rank, digit (dims ∘ Equiv.swap axis0 axis1) rank linear i *
        stride dims rank (Equiv.swap axis0 axis1 i) := by
  have axes := axes_swap inside0 inside1
  rw [source, flatten]
  refine Finset.sum_equiv (Equiv.swap axis0 axis1) (fun i => by simpa using (axes i).symm)
    fun i _ => ?_
  rw [Equiv.swap_apply_self]
  rfl

theorem transposeKernelSource_eq (positive : ∀ i < rank, 0 < dims i) (fits : Fits dims rank)
    (inside0 : axis0 < rank) (inside1 : axis1 < rank) (linear : Nat) :
    transposeKernelSource dims rank axis0 axis1 linear =
      source dims rank (Equiv.swap axis0 axis1) linear := by
  have bound := source_lt positive (axes_swap inside0 inside1) linear
  have total := @source_eq_sum dims rank axis0 axis1 inside0 inside1 linear
  unfold Fits at fits
  rw [total] at bound ⊢
  exact transposeKernelSource_sum positive fits inside0 inside1 linear (by omega)

end MiniLLM.Cuda

namespace MiniLLM.Cpu

open Loops MixedRadix

universe u
variable {Elem : Type u} {dims : Buffer Nat} {rank axis0 axis1 : Nat}

theorem loop_fill (total : Nat) (f y : Buffer Elem) (n : Nat) :
    loop total (fun linear y => store y linear (f linear)) y n = if n < total then f n else y n := by
  have copied := congrFun (Strides.loop_store total y 0 f) n
  simp only [Nat.zero_add] at copied
  rw [copied]
  simp [copyFloats]

theorem loop_volume (positive : ∀ i < rank, 0 < dims i) (fits : Fits dims rank) :
    loop rank (fun i total => wrapSize (total * dims i)) 1 = volume dims rank := by
  refine loop_invariant (fun k total => total = volume dims k) rank _ 1 rfl ?_
  rintro k total below rfl
  have whole : volume dims (k + 1) ≤ volume dims rank :=
    Finset.prod_le_prod_of_subset_of_one_le' (Finset.range_mono below)
      fun i member _ => positive i (Finset.mem_range.mp member)
  unfold Fits at fits
  rw [volume_succ] at whole ⊢
  exact wrapSize_eq (by omega)

theorem loop_total (positive : ∀ i < rank, 0 < dims i) (fits : Fits dims rank)
    (ranked : 0 < rank) : wrapSize (dims 0 * rowStrides dims rank 0) = volume dims rank := by
  rw [rowStrides_eq positive fits ranked, ← volume_first dims ranked]
  unfold Fits at fits
  exact wrapSize_eq (by omega)

/-- Every output cell comes from its source and nothing else is written. -/
theorem transpose_at (x y : Buffer Elem) (positive : ∀ i < rank, 0 < dims i)
    (fits : Fits dims rank) (inside0 : axis0 < rank) (inside1 : axis1 < rank) (n : Nat) :
    transpose x y dims rank axis0 axis1 n =
      if n < volume dims rank then x (source dims rank (Equiv.swap axis0 axis1) n) else y n := by
  have ranked : 0 < rank := by omega
  by_cases same : axis0 = axis1
  · subst same
    have bytes : wrapSize (volume dims rank * 4) / 4 = volume dims rank := by
      rw [wrapSize_eq fits, Nat.mul_div_cancel _ (by decide)]
    simp only [transpose, if_true, loop_volume positive fits, bytes, copyFloats, Nat.zero_le,
      true_and, Nat.zero_add, Nat.sub_zero, Equiv.swap_self]
    refine if_ctx_congr Iff.rfl (fun inside => congrArg x ?_) fun _ => rfl
    exact (flatten_digit inside).symm
  · have total := loop_total (swapped_positive positive inside0 inside1)
      (swapped_fits fits inside0 inside1) ranked
    rw [volume_perm dims (axes_swap inside0 inside1)] at total
    rw [transpose, if_neg same]
    simp only [if_neg (Nat.ne_of_gt ranked), swapCells_eq, total]
    rw [loop_fill]
    exact if_ctx_congr Iff.rfl (fun inside => congrArg x
      (transposeSource_eq positive fits inside0 inside1 inside)) fun _ => rfl

/-- The launch of the CUDA kernel leaves the output the CPU computes. -/
theorem cuda_transpose_eq (x y : Buffer Elem) (positive : ∀ i < rank, 0 < dims i)
    (fits : Fits dims rank) (inside0 : axis0 < rank) (inside1 : axis1 < rank) :
    Cuda.transpose x y dims rank axis0 axis1 (volume dims rank) =
      transpose x y dims rank axis0 axis1 := by
  -- After `b` blocks and `t` threads of the next one the cells below `b * 256 + t` are written.
  let Written := fun (count : Nat) (out : Buffer Elem) => ∀ n, out n =
    if n < count ∧ n < volume dims rank then x (source dims rank (Equiv.swap axis0 axis1) n)
    else y n
  have written : Written ((volume dims rank + 256 - 1) / 256 * 256)
      (Cuda.transpose x y dims rank axis0 axis1 (volume dims rank)) := by
    refine loop_invariant (fun b => Written (b * 256)) _ _ y (fun n => by simp) ?_
    intro b out _ before
    have block := loop_invariant (fun t => Written (b * 256 + t)) 256
      (fun t out => Cuda.transposeKernel x dims rank axis0 axis1 (volume dims rank) (b * 256 + t) out)
      out (by rw [Nat.add_zero]; exact before) ?_
    · have whole : (b + 1) * 256 = b * 256 + 256 := by omega
      rw [whole]
      exact block
    · intro t out _ before n
      rw [Cuda.transposeKernel]
      by_cases outside : b * 256 + t ≥ volume dims rank
      · rw [if_pos outside, before n]
        exact if_ctx_congr (by omega) (fun _ => rfl) fun _ => rfl
      · rw [if_neg outside, Cuda.transposeKernelSource_eq positive fits inside0 inside1]
        by_cases here : n = b * 256 + t
        · rw [here, store_same, if_pos (by omega)]
        · rw [store_other _ _ _ _ here, before n]
          exact if_ctx_congr (by omega) (fun _ => rfl) fun _ => rfl
  funext n
  rw [written n, transpose_at x y positive fits inside0 inside1]
  exact if_ctx_congr (by omega) (fun _ => rfl) fun _ => rfl

/-- The transposed table: its cells, its source map, its inverse and the GPU's index. -/
theorem transpose_correct (x y : Buffer Elem) (dims : Buffer Nat) (rank axis0 axis1 : Nat)
    (positive : ∀ i < rank, 0 < dims i) (fits : volume dims rank * 4 < 18446744073709551616)
    (inside0 : axis0 < rank) (inside1 : axis1 < rank) :
    (∀ j, Within (swapCells dims axis0 axis1) rank j →
      transpose x y dims rank axis0 axis1 (flatten (swapCells dims axis0 axis1) rank j) =
        x (flatten dims rank (j ∘ Equiv.swap axis0 axis1))) ∧
      (∀ n < volume dims rank, transpose x y dims rank axis0 axis1 n =
        x (transposeSource dims rank axis0 axis1 n)) ∧
      (∀ n ≥ volume dims rank, transpose x y dims rank axis0 axis1 n = y n) ∧
      Set.BijOn (transposeSource dims rank axis0 axis1) (Set.Iio (volume dims rank))
        (Set.Iio (volume dims rank)) ∧
      (∀ z, ∀ n < volume dims rank, transpose (transpose x y dims rank axis0 axis1) z
        (swapCells dims axis0 axis1) rank axis0 axis1 n = x n) ∧
      ∀ n < volume dims rank, Cuda.transposeKernelSource dims rank axis0 axis1 n =
        transposeSource dims rank axis0 axis1 n := by
  have axes := axes_swap inside0 inside1
  have cells := transpose_at x y positive fits inside0 inside1
  have sources : ∀ n < volume dims rank, transposeSource dims rank axis0 axis1 n =
      source dims rank (Equiv.swap axis0 axis1) n :=
    fun n inside => transposeSource_eq positive fits inside0 inside1 inside
  rw [swapCells_eq]
  refine ⟨fun j within => ?_, fun n inside => ?_, fun n outside => ?_, ?_, fun z n inside => ?_,
    fun n inside => ?_⟩
  · have below := flatten_lt within
    rw [volume_perm dims axes] at below
    rw [cells, if_pos below]
    exact congrArg x (source_flatten axes within)
  · rw [cells, if_pos inside, sources n inside]
  · rw [cells, if_neg (by omega)]
  · exact (source_bijOn positive axes).congr fun n inside => (sources n inside).symm
  · have outPositive := swapped_positive positive inside0 inside1
    have unswapped : (dims ∘ Equiv.swap axis0 axis1) ∘ Equiv.swap axis0 axis1 = dims := by
      funext i
      simp
    have sizes := volume_perm dims axes
    have below := sizes ▸ source_lt outPositive axes n
    have returns := source_symm outPositive axes (sizes.symm ▸ inside)
    rw [unswapped, Equiv.symm_swap] at returns
    rw [transpose_at _ z outPositive (swapped_fits fits inside0 inside1) inside0 inside1, sizes,
      if_pos inside, cells, if_pos below, returns]
  · rw [Cuda.transposeKernelSource_eq positive fits inside0 inside1, sources n inside]

theorem transpose_correct_three_axes :
    transpose (fun i => i) (fun _ => 0) (fun i => i + 2) 3 0 2 5 = 20 ∧
      Set.BijOn (transposeSource (fun i => i + 2) 3 0 2) (Set.Iio 24) (Set.Iio 24) :=
  have sizes : volume (fun i => i + 2) 3 = 24 := by decide
  have correct := transpose_correct (fun i => i) (fun _ => 0) (fun i => i + 2) 3 0 2
    (fun i _ => Nat.succ_pos _) (by rw [sizes]; decide) (by decide) (by decide)
  ⟨(correct.2.1 5 (by decide)).trans (by decide), sizes ▸ correct.2.2.2.1⟩

end MiniLLM.Cpu
