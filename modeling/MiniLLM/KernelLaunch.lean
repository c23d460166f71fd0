import MiniLLM.Strides
import Mathlib.Algebra.BigOperators.Intervals

/-!
Kernels launched over a grid of thread blocks. A kernel here reads none of the
cells it writes and each thread stores at most one cell, so a launch is the stores
of its threads in any order, and cells with one writer hold what it stored. Within
a block the threads share a loop by taking every `block`-th index.
-/

namespace MiniLLM.KernelLaunch

open Loops Finset

universe u

structure Thread where
  blockX : Nat
  blockY : Nat
  thread : Nat
  deriving DecidableEq, Repr

/-- The threads of a two-dimensional grid of one-dimensional blocks. -/
def grid (gridX gridY block : Nat) : List Thread :=
  (List.range gridY).flatMap fun y =>
    (List.range gridX).flatMap fun x => (List.range block).map fun t => ⟨x, y, t⟩

theorem mem_grid {gridX gridY block : Nat} {t : Thread} :
    t ∈ grid gridX gridY block ↔ t.blockX < gridX ∧ t.blockY < gridY ∧ t.thread < block := by
  obtain ⟨x, y, tid⟩ := t
  simp only [grid, List.mem_flatMap, List.mem_map, List.mem_range]
  constructor
  · rintro ⟨y', insideY, x', insideX, tid', inside, same⟩
    cases same
    exact ⟨insideX, insideY, inside⟩
  · rintro ⟨insideX, insideY, inside⟩
    exact ⟨y, insideY, x, insideX, tid, inside, rfl⟩

section Launch

variable {Value : Type u}

/-- What each thread stores, if anything. -/
abbrev Kernel (Value : Type u) := Thread → Option (Nat × Value)

def runThread (kernel : Kernel Value) (out : Buffer Value) (t : Thread) : Buffer Value :=
  match kernel t with
  | none => out
  | some (index, value) => store out index value

def launch (kernel : Kernel Value) (threads : List Thread) (out : Buffer Value) : Buffer Value :=
  threads.foldl (runThread kernel) out

def Writes (kernel : Kernel Value) (t : Thread) (index : Nat) : Prop :=
  ∃ value, kernel t = some (index, value)

/-- A thread leaves a cell alone or stores what everyone stores there. -/
theorem runThread_keeps {kernel : Kernel Value} {t : Thread} {index : Nat} {value : Value}
    (alone : ∀ stored, kernel t = some (index, stored) → stored = value) {out : Buffer Value}
    (held : out index = value) : runThread kernel out t index = value := by
  unfold runThread
  cases write : kernel t with
  | none => exact held
  | some cell =>
      obtain ⟨target, stored⟩ := cell
      by_cases here : index = target
      · subst here
        exact (store_same _ _ _).trans (alone stored write)
      · exact (store_other _ _ _ _ here).trans held

/-- Once a cell holds the only value stored there, the threads to come keep it. -/
theorem launch_keeps {kernel : Kernel Value} {threads : List Thread} {index : Nat} {value : Value}
    (alone : ∀ t ∈ threads, ∀ stored, kernel t = some (index, stored) → stored = value)
    {out : Buffer Value} (held : out index = value) : launch kernel threads out index = value := by
  induction threads generalizing out with
  | nil => exact held
  | cons t rest ih =>
      exact ih (fun later member => alone later (List.mem_cons_of_mem t member))
        (runThread_keeps (alone t List.mem_cons_self) held)

/-- In any order of the threads a cell holds the one value stored there. -/
theorem launch_at {kernel : Kernel Value} {threads : List Thread} {index : Nat} {value : Value}
    (written : ∃ t ∈ threads, kernel t = some (index, value))
    (alone : ∀ t ∈ threads, ∀ stored, kernel t = some (index, stored) → stored = value)
    (out : Buffer Value) : launch kernel threads out index = value := by
  induction threads generalizing out with
  | nil =>
      obtain ⟨t, member, _⟩ := written
      cases member
  | cons t rest ih =>
      have later : ∀ other ∈ rest, ∀ stored, kernel other = some (index, stored) → stored = value :=
        fun other member => alone other (List.mem_cons_of_mem t member)
      obtain ⟨writer, member, write⟩ := written
      rcases List.mem_cons.mp member with rfl | behind
      · refine launch_keeps later ?_
        simp only [runThread, write]
        exact store_same _ _ _
      · exact ih ⟨writer, behind, write⟩ later _

/-- Threads that own the columns of the rows their blocks stand for: every cell has
one writer. -/
theorem written_once {gridX gridY block width : Nat} (narrow : width ≤ block)
    {kernel : Kernel Value}
    (place : ∀ t index value, kernel t = some (index, value) →
      t.thread < width ∧ index = (t.blockY * gridX + t.blockX) * width + t.thread)
    (writes : ∀ t ∈ grid gridX gridY block, t.thread < width → ∃ index, Writes kernel t index)
    {i : Nat} (inside : i < gridY * (gridX * width)) :
    ∃! t, t ∈ grid gridX gridY block ∧ Writes kernel t i := by
  have some : 0 < gridX * width := Nat.pos_of_mul_pos_left (Nat.lt_of_le_of_lt (Nat.zero_le i) inside)
  have column : 0 < width := Nat.pos_of_mul_pos_left some
  have line : 0 < gridX := Nat.pos_of_mul_pos_right some
  have rows : i / width < gridY * gridX := by
    rw [Nat.div_lt_iff_lt_mul column, Nat.mul_assoc]
    exact inside
  have inner := Nat.mod_lt i column
  refine ⟨⟨i / width % gridX, i / width / gridX, i % width⟩, ⟨?_, ?_⟩, ?_⟩
  · exact mem_grid.mpr ⟨Nat.mod_lt _ line, (Nat.div_lt_iff_lt_mul line).mpr rows,
      Nat.lt_of_lt_of_le inner narrow⟩
  · obtain ⟨index, value, write⟩ := writes ⟨i / width % gridX, i / width / gridX, i % width⟩
      (mem_grid.mpr ⟨Nat.mod_lt _ line, (Nat.div_lt_iff_lt_mul line).mpr rows,
        Nat.lt_of_lt_of_le inner narrow⟩) inner
    obtain ⟨_, same⟩ := place _ index value write
    rw [Nat.div_add_mod', Nat.div_add_mod'] at same
    exact ⟨value, by rw [write, same]⟩
  · rintro ⟨x, y, tid⟩ ⟨member, value, write⟩
    obtain ⟨below, same⟩ := place _ i value write
    dsimp only at below same
    have row : i / width = y * gridX + x := by
      rw [same, Nat.mul_comm, Nat.mul_add_div column, Nat.div_eq_of_lt below, Nat.add_zero]
    have here : i % width = tid := by
      rw [same, Nat.mul_add_mod_of_lt below]
    rw [row, here, Nat.mul_add_mod_of_lt (mem_grid.mp member).1]
    rw [Nat.mul_comm, Nat.mul_add_div line, Nat.div_eq_of_lt (mem_grid.mp member).1, Nat.add_zero]

end Launch

section Blocks

/-- `for (d = start; d < stop; d += step)`. -/
def loopStride {State : Type u} (start stop step : Nat) (body : Nat → State → State)
    (state : State) : State :=
  loop ((stop - start + step - 1) / step) (fun i => body (start + i * step)) state

theorem strideCount_iff {start stop step : Nat} (positive : 0 < step) (i : Nat) :
    i < (stop - start + step - 1) / step ↔ start + i * step < stop := by
  rw [Nat.lt_iff_add_one_le, Nat.le_div_iff_mul_le positive, Nat.succ_mul]
  omega

variable {α : Type u} [AddCommMonoid α]

/-- The indices of one thread are those of its remainder. -/
theorem loopStride_sum {block tid : Nat} (inside : tid < block) (n : Nat) (f : Nat → α) :
    loopStride tid n block (fun d part => part + f d) 0 =
      ∑ d ∈ range n with d % block = tid, f d := by
  have summed := loop_sum ((n - tid + block - 1) / block) (fun k => f (tid + k * block)) 0
  rw [zero_add] at summed
  have positive : 0 < block := Nat.lt_of_le_of_lt (Nat.zero_le tid) inside
  refine summed.trans ?_
  refine sum_nbij' (fun k => tid + k * block) (fun d => d / block) ?_ ?_ ?_ ?_ ?_
  · intro k member
    rw [mem_filter, mem_range]
    exact ⟨(strideCount_iff positive k).mp (mem_range.mp member),
      by rw [Nat.add_mul_mod_self_right, Nat.mod_eq_of_lt inside]⟩
  · intro d member
    obtain ⟨below, same⟩ := mem_filter.mp member
    rw [mem_range, strideCount_iff positive, ← same, Nat.mod_add_div']
    exact mem_range.mp below
  · intro k _
    rw [Nat.add_mul_div_right _ _ positive, Nat.div_eq_of_lt inside, Nat.zero_add]
  · intro d member
    rw [← (mem_filter.mp member).2, Nat.mod_add_div']
  · exact fun _ _ => rfl

/-- The threads of a block together sum every index once. -/
theorem blockReduce_sum {block : Nat} (positive : 0 < block) (n : Nat) (f : Nat → α) :
    ∑ tid ∈ range block, loopStride tid n block (fun d part => part + f d) 0 =
      ∑ d ∈ range n, f d := by
  calc ∑ tid ∈ range block, loopStride tid n block (fun d part => part + f d) 0
      = ∑ tid ∈ range block, ∑ d ∈ range n with d % block = tid, f d :=
        sum_congr rfl fun tid member => loopStride_sum (mem_range.mp member) n f
    _ = ∑ d ∈ range n, f d :=
        sum_fiberwise_of_maps_to (fun d _ => mem_range.mpr (Nat.mod_lt d positive)) f

end Blocks

end MiniLLM.KernelLaunch
