import Mathlib.Algebra.BigOperators.Intervals
import Mathlib.Algebra.Order.BigOperators.Group.Finset
import Mathlib.Algebra.Order.Field.Basic
import Mathlib.Algebra.BigOperators.Field

/-!
Weighted averages with exponential weights over an ordered field, the exponential
being any positive homomorphism from sums to products. Scores are measured
against a reference that cancels in the average, so a running state (reference,
sum, weighted sum) may change its reference as it meets new scores. A masked
score is `none` and has weight 0.
-/

namespace MiniLLM.Softmax

open Finset

section Scores

variable {α : Type} [LinearOrder α]

def maxScore : Option α → Option α → Option α
  | none, b => b
  | some a, none => some a
  | some a, some b => some (max a b)

@[simp] theorem maxScore_none (a : Option α) : maxScore a none = a := by
  cases a <;> rfl

theorem maxScore_some_right (a : Option α) (b : α) : ∃ m, maxScore a (some b) = some m := by
  cases a with
  | none => exact ⟨b, rfl⟩
  | some a => exact ⟨max a b, rfl⟩

theorem maxScore_eq_none {a b : Option α} (none : maxScore a b = none) :
    a = .none ∧ b = .none := by
  cases a with
  | none => exact ⟨rfl, none⟩
  | some a => cases b <;> simp [maxScore] at none

end Scores

section Averages

variable {α : Type} [Field α]

/-- The average of `values` over the first `n` positions. -/
def average (weights values : Nat → α) (n : Nat) : α :=
  (∑ j ∈ range n, weights j * values j) / ∑ j ∈ range n, weights j

theorem sum_range_cut (f : Nat → α) {n total : Nat} (inside : n ≤ total)
    (beyond : ∀ j, n ≤ j → f j = 0) : ∑ j ∈ range n, f j = ∑ j ∈ range total, f j :=
  sum_subset (range_mono inside) fun j _ outside => beyond j (by simpa using outside)

/-- Positions of weight 0 at the end do not count. -/
theorem average_masked (weights masked values : Nat → α) {n total : Nat} (inside : n ≤ total)
    (same : ∀ j < n, masked j = weights j) (beyond : ∀ j, n ≤ j → masked j = 0) :
    average masked values total = average weights values n := by
  rw [average, average, ← sum_range_cut _ inside beyond,
    ← sum_range_cut _ inside fun j above => by rw [beyond j above, zero_mul]]
  congr 1
  · exact sum_congr rfl fun j member => by rw [same j (mem_range.mp member)]
  · exact sum_congr rfl fun j member => same j (mem_range.mp member)

theorem average_congr {weights weights' values values' : Nat → α} {n : Nat}
    (same : ∀ j < n, weights j = weights' j) (sameValues : ∀ j < n, values j = values' j) :
    average weights values n = average weights' values' n := by
  unfold average
  congr 1
  · exact sum_congr rfl fun j member => by
      rw [same j (mem_range.mp member), sameValues j (mem_range.mp member)]
  · exact sum_congr rfl fun j member => same j (mem_range.mp member)

def weight (exp : α → α) : Option α → α
  | none => 0
  | some score => exp score

/-- The weight of a score against a reference; no score is met without one. -/
def weightAt (exp : α → α) : Option α → Option α → α
  | some score, some m => exp (score - m)
  | _, _ => 0

/-- The running state of one pass over the first `n` positions: before the first
visible score there is no reference, afterwards sums are relative to it. -/
def Online (exp : α → α) (weights values : Nat → α) (n : Nat) (m : Option α) (l o : α) : Prop :=
  match m with
  | none => l = 0 ∧ o = 0 ∧ ∀ j < n, weights j = 0
  | some m => l * exp m = ∑ j ∈ range n, weights j ∧
      o * exp m = ∑ j ∈ range n, weights j * values j

theorem Online.start (exp : α → α) (weights values : Nat → α) :
    Online exp weights values 0 none 0 0 :=
  ⟨rfl, rfl, fun _ below => absurd below (Nat.not_lt_zero _)⟩

/-- Trailing masked positions may be added without work. -/
theorem Online.extend {exp : α → α} {weights values : Nat → α} {n total : Nat} {m : Option α}
    {l o : α} (state : Online exp weights values n m l o) (inside : n ≤ total)
    (beyond : ∀ j, n ≤ j → weights j = 0) : Online exp weights values total m l o := by
  cases m with
  | none =>
      obtain ⟨sum, weighted, zero⟩ := state
      refine ⟨sum, weighted, fun j _ => ?_⟩
      by_cases old : j < n
      · exact zero j old
      · exact beyond j (Nat.not_lt.mp old)
  | some m =>
      obtain ⟨sum, weighted⟩ := state
      exact ⟨sum.trans (sum_range_cut _ inside beyond),
        weighted.trans (sum_range_cut _ inside fun j above => by rw [beyond j above, zero_mul])⟩

end Averages

section Laws

variable {α : Type} [Field α] [LinearOrder α]

structure ExpLaw (exp : α → α) : Prop where
  add : ∀ x y, exp (x + y) = exp x * exp y
  pos : ∀ x, 0 < exp x

theorem ExpLaw.rebase {exp : α → α} (law : ExpLaw exp) (x m : α) :
    exp (x - m) * exp m = exp x := by
  rw [← law.add, sub_add_cancel]

theorem weightAt_rebase {exp : α → α} (law : ExpLaw exp) (score : Option α) (m : α) :
    weightAt exp score (some m) * exp m = weight exp score := by
  cases score with
  | none => exact zero_mul _
  | some score => exact law.rebase score m

/-- Two passes: weights against any reference, divided by their sum. -/
theorem average_two_pass {exp : α → α} (law : ExpLaw exp) (scores values : Nat → α) (m : α)
    (n : Nat) :
    ∑ j ∈ range n, exp (scores j - m) / (∑ i ∈ range n, exp (scores i - m)) * values j =
      average (fun j => exp (scores j)) values n := by
  have positive := (law.pos m).ne'
  have total : (∑ i ∈ range n, exp (scores i - m)) * exp m = ∑ i ∈ range n, exp (scores i) := by
    rw [sum_mul]
    exact sum_congr rfl fun i _ => law.rebase (scores i) m
  have weighted : (∑ j ∈ range n, exp (scores j - m) * values j) * exp m =
      ∑ j ∈ range n, exp (scores j) * values j := by
    rw [sum_mul]
    refine sum_congr rfl fun j _ => ?_
    rw [mul_right_comm, law.rebase]
  calc ∑ j ∈ range n, exp (scores j - m) / (∑ i ∈ range n, exp (scores i - m)) * values j
      = (∑ j ∈ range n, exp (scores j - m) * values j) / ∑ i ∈ range n, exp (scores i - m) := by
        rw [sum_div]
        exact sum_congr rfl fun j _ => by rw [div_mul_eq_mul_div]
    _ = average (fun j => exp (scores j)) values n := by
        rw [average, ← total, ← weighted, mul_div_mul_right _ _ positive]

/-- What an old state is worth against a new reference. -/
theorem Online.rescale {exp : α → α} (law : ExpLaw exp) {weights values : Nat → α} {n : Nat}
    {m : Option α} {l o : α} (state : Online exp weights values n m l o) (next : α) (factor : α)
    (correct : ∀ old, m = some old → factor = exp (old - next)) :
    l * factor * exp next = ∑ j ∈ range n, weights j ∧
      o * factor * exp next = ∑ j ∈ range n, weights j * values j := by
  cases m with
  | none =>
      obtain ⟨rfl, rfl, zero⟩ := state
      constructor
      · rw [zero_mul, zero_mul]
        exact (sum_eq_zero fun j member => zero j (mem_range.mp member)).symm
      · rw [zero_mul, zero_mul]
        exact (sum_eq_zero fun j member => by rw [zero j (mem_range.mp member), zero_mul]).symm
  | some old =>
      obtain ⟨sum, weighted⟩ := state
      rw [correct old rfl]
      constructor
      · rw [mul_assoc, law.rebase, sum]
      · rw [mul_assoc, law.rebase, weighted]

/-- Absorbing a tile of positions `n, …, n + count - 1` under a new reference. -/
theorem Online.absorb {exp : α → α} (law : ExpLaw exp) {scores : Nat → Option α}
    {values : Nat → α} {n count : Nat} {m next : Option α} {l o factor : α}
    (state : Online exp (fun j => weight exp (scores j)) values n m l o)
    (none_next : next = none → m = none ∧ ∀ i < count, scores (n + i) = none)
    (correct : ∀ old new, m = some old → next = some new → factor = exp (old - new)) :
    Online exp (fun j => weight exp (scores j)) values (n + count) next
      (l * factor + ∑ i ∈ range count, weightAt exp (scores (n + i)) next)
      (o * factor + ∑ i ∈ range count, weightAt exp (scores (n + i)) next * values (n + i)) := by
  cases next with
  | none =>
      obtain ⟨rfl, masked⟩ := none_next rfl
      obtain ⟨rfl, rfl, zero⟩ := state
      refine ⟨?_, ?_, fun j below => ?_⟩
      · rw [zero_mul, zero_add]
        exact sum_eq_zero fun i member => by rw [masked i (mem_range.mp member)]; rfl
      · rw [zero_mul, zero_add]
        refine sum_eq_zero fun i member => ?_
        rw [masked i (mem_range.mp member)]
        exact zero_mul _
      · by_cases old : j < n
        · exact zero j old
        · have here := masked (j - n) (by omega)
          rw [Nat.add_sub_cancel' (Nat.not_lt.mp old)] at here
          change weight exp (scores j) = 0
          rw [here]
          rfl
  | some new =>
      obtain ⟨sum, weighted⟩ := state.rescale law new factor fun old same =>
        correct old new same rfl
      constructor
      · rw [add_mul, sum, sum_range_add, sum_mul]
        congr 1
        exact sum_congr rfl fun i _ => weightAt_rebase law _ new
      · rw [add_mul, weighted, sum_range_add, sum_mul]
        congr 1
        refine sum_congr rfl fun i _ => ?_
        rw [mul_right_comm, weightAt_rebase law]

/-- The normalised state is the average. -/
theorem Online.average [IsStrictOrderedRing α] {exp : α → α} (law : ExpLaw exp)
    {weights values : Nat → α} {n : Nat} {m : Option α} {l o : α}
    (state : Online exp weights values n m l o) (nonneg : ∀ j, 0 ≤ weights j) :
    (if l > 0 then o * (1 / l) else o) = average weights values n := by
  cases m with
  | none =>
      obtain ⟨rfl, rfl, zero⟩ := state
      have empty : ∑ j ∈ range n, weights j = 0 :=
        sum_eq_zero fun j member => zero j (mem_range.mp member)
      rw [if_neg (lt_irrefl _), Softmax.average, empty, div_zero]
  | some m =>
      obtain ⟨sum, weighted⟩ := state
      have positive := law.pos m
      by_cases some : l > 0
      · rw [if_pos some, Softmax.average, ← sum, ← weighted, mul_div_mul_right _ _ positive.ne',
          mul_one_div]
      · have total : 0 ≤ l * exp m := by
          rw [sum]
          exact sum_nonneg fun j _ => nonneg j
        have empty : l = 0 := le_antisymm (not_lt.mp some) (nonneg_of_mul_nonneg_left total positive)
        have each : ∀ j ∈ range n, weights j = 0 := by
          rw [empty, zero_mul] at sum
          exact (sum_eq_zero_iff_of_nonneg fun j _ => nonneg j).mp sum.symm
        have none : o = 0 := by
          have zero : o * exp m = 0 := by
            rw [weighted]
            exact sum_eq_zero fun j member => by rw [each j member, zero_mul]
          exact (mul_eq_zero.mp zero).resolve_right positive.ne'
        rw [if_neg some, Softmax.average, ← sum, empty, zero_mul, div_zero, none]

theorem weight_nonneg {exp : α → α} (law : ExpLaw exp) (score : Option α) :
    0 ≤ weight exp score := by
  cases score with
  | none => exact le_refl _
  | some score => exact (law.pos score).le

end Laws

end MiniLLM.Softmax
