import MiniLLM.PairMerging
import Mathlib.Algebra.Order.BigOperators.Group.Finset
import Mathlib.Data.Int.Init

/-!
A list linked by indices into an array: `next` gives the index after an element,
or a negative number at the end. The chain from an index is what such links lead
through; cells off the chain are free to change.
-/

namespace MiniLLM.LinkedChain

open PairMerging

def Chain (next : Nat → Int) : Int → List Nat → Prop
  | start, [] => start < 0
  | start, i :: rest => start = i ∧ Chain next (next i) rest

/-- Among the first `count` cells every link leads forward or ends. -/
def Forward (next : Nat → Int) (count : Nat) : Prop :=
  ∀ i < count, next i < 0 ∨ (i : Int) < next i ∧ next i < count

section Chains

variable {next other : Nat → Int} {count : Nat}

theorem Chain.congr {start : Int} {indices : List Nat} (chain : Chain next start indices)
    (same : ∀ i ∈ indices, other i = next i) : Chain other start indices := by
  induction indices generalizing start with
  | nil => exact chain
  | cons i rest ih =>
      constructor
      · exact chain.1
      · rw [same i List.mem_cons_self]
        exact ih chain.2 fun j member => same j (List.mem_cons_of_mem _ member)

theorem Chain.unique {start : Int} {first second : List Nat} (one : Chain next start first)
    (two : Chain next start second) : first = second := by
  induction first generalizing start second with
  | nil =>
      cases second with
      | nil => rfl
      | cons j rest =>
          have ended : start < 0 := one
          have index := two.1
          omega
  | cons i rest ih =>
      cases second with
      | nil =>
          have ended : start < 0 := two
          have index := one.1
          omega
      | cons j others =>
          have same : i = j := Int.ofNat_inj.mp (one.1.symm.trans two.1)
          subst same
          rw [ih one.2 two.2]

/-- What follows a cell lies behind it, in what is left of the array. -/
theorem Chain.after (forward : Forward next count) {i : Nat} {rest : List Nat} (below : i < count)
    (chain : Chain next (next i) rest) :
    (∀ j ∈ rest, i < j ∧ j < count) ∧ i + 1 + rest.length ≤ count := by
  induction rest generalizing i with
  | nil => exact ⟨fun j none => by simp at none, below⟩
  | cons j others ih =>
      have index := chain.1
      have link : i < j ∧ j < count := by
        rcases forward i below with ended | ⟨later, inside⟩ <;> omega
      have ⟨members, few⟩ := ih link.2 chain.2
      constructor
      · intro k listed
        rcases List.mem_cons.mp listed with rfl | later
        · exact link
        · have ⟨behind, inside⟩ := members k later
          exact ⟨link.1.trans behind, inside⟩
      · rw [List.length_cons]
        omega

theorem Chain.below (forward : Forward next count) {start : Int} {indices : List Nat}
    (inside : start < count) (chain : Chain next start indices) : ∀ i ∈ indices, i < count := by
  cases indices with
  | nil => exact fun i none => by simp at none
  | cons i rest =>
      have index := chain.1
      have first : i < count := by omega
      intro j listed
      rcases List.mem_cons.mp listed with rfl | later
      · exact first
      · exact ((chain.2.after forward first).1 j later).2

theorem Chain.sorted (forward : Forward next count) {start : Int} {indices : List Nat}
    (inside : start < count) (chain : Chain next start indices) :
    indices.Pairwise (· < ·) := by
  induction indices generalizing start with
  | nil => exact List.Pairwise.nil
  | cons i rest ih =>
      have index := chain.1
      have first : i < count := by omega
      have tail := chain.2.after forward first
      refine List.Pairwise.cons (fun j later => (tail.1 j later).1) (ih ?_ chain.2)
      rcases forward i first with ended | ⟨-, link⟩ <;> omega

/-- Every chain but the empty one can be left at any of its cells. -/
theorem Chain.reach {start : Int} {before rest : List Nat} {i : Nat}
    (chain : Chain next start (before ++ i :: rest)) : Chain next (next i) rest := by
  induction before generalizing start with
  | nil => exact chain.2
  | cons j before ih => exact ih chain.2

/-- Neighbours on the chain are linked. -/
theorem Chain.links {start : Int} {indices : List Nat} (chain : Chain next start indices) :
    ∀ pair ∈ neighbours indices, next pair.1 = pair.2 := by
  induction indices generalizing start with
  | nil => exact fun pair none => by simp [neighbours] at none
  | cons i rest ih =>
      cases rest with
      | nil => exact fun pair none => by simp [neighbours] at none
      | cons j others =>
          intro pair listed
          rw [neighbours_cons] at listed
          rcases List.mem_cons.mp listed with rfl | later
          · exact chain.2.1
          · exact ih chain.2 pair later

/-- A cell takes over the link of the one after it, which drops out. -/
theorem Chain.absorb {start : Int} {before after : List Nat} {i j : Nat}
    (chain : Chain next start (before ++ i :: j :: after))
    (distinct : (before ++ i :: j :: after).Nodup) (taken : other i = next j)
    (kept : ∀ k, k ≠ i → other k = next k) : Chain other start (before ++ i :: after) := by
  induction before generalizing start with
  | nil =>
      constructor
      · exact chain.1
      · rw [taken]
        have fresh := (List.nodup_cons.mp distinct).1
        refine chain.2.2.congr fun k member => kept k ?_
        rintro rfl
        exact fresh (List.mem_cons_of_mem _ member)
  | cons k before ih =>
      have ⟨fresh, rest⟩ := List.nodup_cons.mp distinct
      constructor
      · exact chain.1
      · rw [kept k (by rintro rfl; simp at fresh)]
        exact ih chain.2 rest

end Chains

/-! Links that only shorten come to an end. -/

/-- How far a link still reaches, in an array of `count` cells. -/
def reach (count : Nat) (link : Int) : Nat := if link < 0 then 0 else count - link.toNat

def measure (next : Nat → Int) (count : Nat) : Nat :=
  ∑ i ∈ Finset.range count, reach count (next i)

section Shortening

variable {next other : Nat → Int} {count : Nat}

theorem measure_le (next : Nat → Int) (count : Nat) : measure next count ≤ count * count := by
  have cells : ∀ i ∈ Finset.range count, reach count (next i) ≤ count := by
    intro i _
    unfold reach
    split <;> omega
  simpa [measure] using Finset.sum_le_sum cells

theorem forward_absorb (forward : Forward next count) {i j : Nat} (below : i < count)
    (linked : next i = j) (taken : other i = next j) (kept : ∀ k, k ≠ i → other k = next k) :
    Forward other count ∧ measure other count < measure next count := by
  have first := forward i below
  have inside : j < count := by omega
  have second := forward j inside
  constructor
  · intro k member
    by_cases same : k = i
    · subst same
      rw [taken]
      omega
    · rw [kept k same]
      exact forward k member
  · refine Finset.sum_lt_sum (fun k _ => ?_) ⟨i, Finset.mem_range.mpr below, ?_⟩
    · by_cases same : k = i
      · subst same
        rw [taken, linked, reach, reach]
        split <;> split <;> omega
      · rw [kept k same]
    · rw [taken, linked, reach, reach]
      split <;> split <;> omega

end Shortening

end MiniLLM.LinkedChain
