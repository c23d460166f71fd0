import Mathlib.Algebra.BigOperators.Intervals
import Mathlib.Algebra.BigOperators.Ring.Finset
import Mathlib.Algebra.Order.BigOperators.Ring.Finset
import Mathlib.Data.Set.Function
import Mathlib.Tactic.Ring

/-!
Row-major indices of a table of any rank: the last coordinate varies fastest. The
digits of a linear index and the linear index of a tuple of digits are inverse to
each other, so reordering the axes of a table is a bijection of its linear indices.
-/

namespace MiniLLM.MixedRadix

open Finset

/-- The number of cells spanned by one step along axis `i`. -/
def stride (dims : Nat → Nat) (rank i : Nat) : Nat := ∏ k ∈ Ico (i + 1) rank, dims k

def volume (dims : Nat → Nat) (rank : Nat) : Nat := ∏ k ∈ range rank, dims k

def Within (dims : Nat → Nat) (rank : Nat) (index : Nat → Nat) : Prop :=
  ∀ i < rank, index i < dims i

def flatten (dims : Nat → Nat) (rank : Nat) (index : Nat → Nat) : Nat :=
  ∑ i ∈ range rank, index i * stride dims rank i

def digit (dims : Nat → Nat) (rank n i : Nat) : Nat := n / stride dims rank i % dims i

variable {dims : Nat → Nat} {rank : Nat}

theorem stride_last (dims : Nat → Nat) (rank : Nat) : stride dims (rank + 1) rank = 1 := by
  simp [stride]

theorem stride_grow (dims : Nat → Nat) {rank i : Nat} (inside : i < rank) :
    stride dims (rank + 1) i = stride dims rank i * dims rank :=
  prod_Ico_succ_top inside dims

/-- The stride of an axis from the stride of the next one. -/
theorem stride_step (dims : Nat → Nat) {rank i : Nat} (inside : i + 1 < rank) :
    stride dims rank i = stride dims rank (i + 1) * dims (i + 1) := by
  rw [stride, stride, prod_eq_prod_Ico_succ_bot inside, Nat.mul_comm]

theorem volume_succ (dims : Nat → Nat) (rank : Nat) :
    volume dims (rank + 1) = volume dims rank * dims rank := prod_range_succ dims rank

theorem volume_first (dims : Nat → Nat) {rank : Nat} (ranked : 0 < rank) :
    volume dims rank = dims 0 * stride dims rank 0 := by
  rw [volume, range_eq_Ico, prod_eq_prod_Ico_succ_bot ranked]
  rfl

theorem stride_mul_dvd (dims : Nat → Nat) {rank i : Nat} (inside : i < rank) :
    stride dims rank i * dims i ∣ volume dims rank := by
  have cut := prod_Ico_consecutive dims (Nat.zero_le i) (Nat.le_of_lt inside)
  rw [prod_eq_prod_Ico_succ_bot inside, ← range_eq_Ico] at cut
  exact ⟨∏ k ∈ range i, dims k, by rw [volume, range_eq_Ico, ← cut, stride]; ring⟩

theorem flatten_succ (dims : Nat → Nat) (rank : Nat) (index : Nat → Nat) :
    flatten dims (rank + 1) index = flatten dims rank index * dims rank + index rank := by
  rw [flatten, sum_range_succ, stride_last, Nat.mul_one, flatten, sum_mul]
  congr 1
  refine sum_congr rfl fun i member => ?_
  rw [stride_grow dims (mem_range.mp member), Nat.mul_assoc]

theorem flatten_congr {index index' : Nat → Nat} (same : ∀ i < rank, index i = index' i) :
    flatten dims rank index = flatten dims rank index' :=
  sum_congr rfl fun i member => by rw [same i (mem_range.mp member)]

theorem flatten_lt {index : Nat → Nat} (within : Within dims rank index) :
    flatten dims rank index < volume dims rank := by
  induction rank with
  | zero => exact Nat.one_pos
  | succ rank ih =>
      have outer := ih fun i below => within i (Nat.lt_succ_of_lt below)
      have inner := within rank (Nat.lt_succ_self rank)
      rw [flatten_succ, volume_succ]
      calc flatten dims rank index * dims rank + index rank
          < (flatten dims rank index + 1) * dims rank := by rw [Nat.succ_mul]; omega
        _ ≤ volume dims rank * dims rank := Nat.mul_le_mul_right _ outer

theorem digit_last (dims : Nat → Nat) (rank n : Nat) :
    digit dims (rank + 1) n rank = n % dims rank := by
  rw [digit, stride_last, Nat.div_one]

theorem digit_outer (dims : Nat → Nat) {rank i : Nat} (n : Nat) (inside : i < rank) :
    digit dims (rank + 1) n i = digit dims rank (n / dims rank) i := by
  rw [digit, stride_grow dims inside, Nat.mul_comm, ← Nat.div_div_eq_div_mul, digit]

theorem digit_within (positive : ∀ i < rank, 0 < dims i) (n : Nat) :
    Within dims rank (digit dims rank n) :=
  fun i inside => Nat.mod_lt _ (positive i inside)

/-- The digits of a linear index lead back to it. -/
theorem flatten_digit {n : Nat} (inside : n < volume dims rank) :
    flatten dims rank (digit dims rank n) = n := by
  induction rank generalizing n with
  | zero => exact (Nat.lt_one_iff.mp inside).symm
  | succ rank ih =>
      rw [volume_succ, Nat.mul_comm] at inside
      have outer : flatten dims rank (digit dims (rank + 1) n) = n / dims rank := by
        rw [flatten_congr fun i below => digit_outer dims n below]
        exact ih (Nat.div_lt_of_lt_mul inside)
      rw [flatten_succ, outer, digit_last, Nat.mul_comm]
      exact Nat.div_add_mod n (dims rank)

/-- The linear index of a tuple has the tuple as its digits. -/
theorem digit_flatten {index : Nat → Nat} (within : Within dims rank index) :
    ∀ i < rank, digit dims rank (flatten dims rank index) i = index i := by
  induction rank with
  | zero => exact fun i below => absurd below (Nat.not_lt_zero i)
  | succ rank ih =>
      have inner := within rank (Nat.lt_succ_self rank)
      have quotient : flatten dims (rank + 1) index / dims rank = flatten dims rank index := by
        rw [flatten_succ, Nat.mul_comm, Nat.mul_add_div (by omega), Nat.div_eq_of_lt inner,
          Nat.add_zero]
      intro i below
      rcases Nat.lt_succ_iff_lt_or_eq.mp below with outer | rfl
      · rw [digit_outer dims _ outer, quotient]
        exact ih (fun k inside => within k (Nat.lt_succ_of_lt inside)) i outer
      · rw [digit_last, flatten_succ, Nat.mul_comm, Nat.mul_add_mod, Nat.mod_eq_of_lt inner]

section Permutations

variable {order : Equiv.Perm Nat}

/-- A reordering of the axes below `rank`. -/
def Axes (rank : Nat) (order : Equiv.Perm Nat) : Prop := ∀ i, order i < rank ↔ i < rank

theorem Axes.symm (axes : Axes rank order) : Axes rank order.symm := fun i => by
  rw [← axes (order.symm i), Equiv.apply_symm_apply]

theorem axes_swap {a b : Nat} (insideA : a < rank) (insideB : b < rank) :
    Axes rank (Equiv.swap a b) := by
  intro i
  rw [Equiv.swap_apply_def]
  split
  · rename_i same; simp [same, insideA, insideB]
  · split
    · rename_i same; simp [same, insideA, insideB]
    · exact Iff.rfl

theorem volume_perm (dims : Nat → Nat) (axes : Axes rank order) :
    volume (dims ∘ order) rank = volume dims rank :=
  prod_equiv order (fun i => by simpa using (axes i).symm) fun i _ => rfl

theorem Within.perm {index : Nat → Nat} (axes : Axes rank order)
    (within : Within dims rank index) : Within (dims ∘ order) rank (index ∘ order) :=
  fun i inside => within (order i) ((axes i).mpr inside)

theorem within_symm {index : Nat → Nat} (axes : Axes rank order)
    (within : Within (dims ∘ order) rank index) : Within dims rank (index ∘ order.symm) := by
  have back := within.perm axes.symm
  rwa [Function.comp_assoc, Equiv.self_comp_symm, Function.comp_id] at back

/-- The cell of a table that cell `n` of the table with reordered axes comes from. -/
def source (dims : Nat → Nat) (rank : Nat) (order : Equiv.Perm Nat) (n : Nat) : Nat :=
  flatten dims rank (digit (dims ∘ order) rank n ∘ order.symm)

theorem source_flatten {index : Nat → Nat} (axes : Axes rank order)
    (within : Within (dims ∘ order) rank index) :
    source dims rank order (flatten (dims ∘ order) rank index) =
      flatten dims rank (index ∘ order.symm) :=
  flatten_congr fun i inside => digit_flatten within _ ((axes.symm i).mpr inside)

theorem source_lt (positive : ∀ i < rank, 0 < dims i) (axes : Axes rank order) (n : Nat) :
    source dims rank order n < volume dims rank :=
  flatten_lt (within_symm axes
    (digit_within (fun i inside => positive _ ((axes i).mpr inside)) n))

/-- Reordering the axes back undoes the reordering. -/
theorem source_symm (positive : ∀ i < rank, 0 < dims i) (axes : Axes rank order) {n : Nat}
    (inside : n < volume dims rank) :
    source (dims ∘ order) rank order.symm (source dims rank order n) = n := by
  have back : (dims ∘ order) ∘ order.symm = dims := by
    rw [Function.comp_assoc, Equiv.self_comp_symm, Function.comp_id]
  have within := within_symm axes
    (digit_within (fun i inside => positive _ ((axes i).mpr inside)) n)
  have forth : source (dims ∘ order) rank order.symm (source dims rank order n) =
      flatten (dims ∘ order) rank (digit (dims ∘ order) rank n ∘ order.symm ∘ order) := by
    have rule := @source_flatten (dims ∘ order) rank order.symm
      (digit (dims ∘ order) rank n ∘ order.symm) axes.symm
    rw [back] at rule
    exact rule within
  rw [forth, Equiv.symm_comp_self, Function.comp_id]
  exact flatten_digit (by rwa [volume_perm dims axes])

theorem source_bijOn (positive : ∀ i < rank, 0 < dims i) (axes : Axes rank order) :
    Set.BijOn (source dims rank order) (Set.Iio (volume dims rank))
      (Set.Iio (volume dims rank)) := by
  have positive' : ∀ i < rank, 0 < (dims ∘ order) i :=
    fun i inside => positive _ ((axes i).mpr inside)
  refine ⟨fun n _ => source_lt positive axes n, fun n inside m inside' same => ?_,
    fun m inside => ?_⟩
  · rw [← source_symm positive axes inside, same, source_symm positive axes inside']
  · have back : (dims ∘ order) ∘ order.symm = dims := by
      rw [Function.comp_assoc, Equiv.self_comp_symm, Function.comp_id]
    have sizes := volume_perm dims axes
    refine ⟨source (dims ∘ order) rank order.symm m, ?_, ?_⟩
    · exact sizes ▸ source_lt positive' axes.symm m
    · have rule := source_symm positive' axes.symm (n := m) (sizes.symm ▸ inside)
      rwa [back, Equiv.symm_symm] at rule

end Permutations

end MiniLLM.MixedRadix
