import MiniLLM.CandidateTokens
import Mathlib.Algebra.Order.Field.Basic
import Mathlib.Algebra.Order.Field.Rat

/-!
The repetition penalty as it depends on the history. The loop over the history
penalises a logit once for each occurrence of its token, always in the direction
of the logit's sign, which the penalty keeps.
-/

namespace MiniLLM

namespace Sampler

variable {α : Type} [Field α] [LinearOrder α]

def penaltyOnce (penalty x : α) : α := if 0 < x then x / penalty else x * penalty

/-- Every token of the history penalised once, the others as they were. -/
def PenalisedOnce (penalty : α) (history : List Int) (probs after : List α) : Prop :=
  ∀ (i : Nat) x, probs[i]? = some x →
    after[i]? = some (if (i : Int) ∈ history then penaltyOnce penalty x else x)

theorem penaltyStep_getElem? (penalty : α) (probs : List α) (id : Int) (i : Nat) :
    (penaltyStep penalty probs id)[i]? =
      if id = i then probs[i]?.map (penaltyOnce penalty) else probs[i]? := by
  unfold penaltyStep
  by_cases inside : 0 ≤ id ∧ id < probs.length
  · obtain ⟨n, rfl⟩ := Int.eq_ofNat_of_zero_le inside.1
    have below : n < probs.length := by omega
    rw [if_pos inside, Int.toNat_natCast]
    have found : probs[n]? = some (probs.getD n 0) := by
      rw [List.getD_eq_getElem?_getD, List.getElem?_eq_getElem below, Option.getD_some]
    have set : (if 0 < probs.getD n 0 then probs.set n (probs.getD n 0 / penalty)
        else probs.set n (probs.getD n 0 * penalty)) =
        probs.set n (penaltyOnce penalty (probs.getD n 0)) := by
      rw [penaltyOnce]
      split <;> rfl
    rw [set]
    by_cases here : n = i
    · subst here
      rw [if_pos rfl, List.getElem?_set_self below, found]
      rfl
    · rw [if_neg (by omega), List.getElem?_set_ne here]
  · rw [if_neg inside]
    split
    · rename_i here
      have outside : probs.length ≤ i := by omega
      rw [List.getElem?_eq_none outside]
      rfl
    · rfl

/-- The history penalises a logit as often as its token occurs. -/
theorem history_getElem? (penalty : α) (history : List Int) (probs : List α) (i : Nat) :
    (history.foldl (penaltyStep penalty) probs)[i]? =
      probs[i]?.map (penaltyOnce penalty)^[history.count (i : Int)] := by
  induction history generalizing probs with
  | nil => simp
  | cons id rest ih =>
      rw [List.foldl_cons, ih, penaltyStep_getElem?, List.count_cons]
      by_cases here : id = i
      · rw [if_pos here, if_pos (beq_iff_eq.mpr here), Option.map_map, Function.iterate_succ]
      · rw [if_neg here, if_neg (by simpa using here), Nat.add_zero]

theorem penaltyOnce_zero (penalty : α) : penaltyOnce penalty 0 = 0 := by
  rw [penaltyOnce, if_neg (lt_irrefl _), zero_mul]

theorem penaltyOnce_one (x : α) : penaltyOnce 1 x = x := by
  rw [penaltyOnce, div_one, mul_one, ite_self]

section Ordered

variable [IsStrictOrderedRing α]

/-- The sign of the logit decides all its penalties. -/
theorem penaltyOnce_iterate {penalty : α} (positive : 0 < penalty) (x : α) (k : Nat) :
    (penaltyOnce penalty)^[k] x = if 0 < x then x / penalty ^ k else x * penalty ^ k := by
  induction k with
  | zero => simp
  | succ k ih =>
      have power := pow_pos positive k
      rw [Function.iterate_succ_apply', ih, penaltyOnce]
      by_cases sign : 0 < x
      · rw [if_pos sign, if_pos sign, if_pos (div_pos sign power), div_div, pow_succ]
      · have kept : ¬ 0 < x * penalty ^ k :=
          not_lt.mpr (mul_nonpos_of_nonpos_of_nonneg (not_lt.mp sign) power.le)
        rw [if_neg sign, if_neg sign, if_neg kept, mul_assoc, pow_succ]

theorem penaltyOnce_iterate_eq_iff {penalty : α} (positive : 0 < penalty) (effective : penalty ≠ 1)
    {x : α} (nonzero : x ≠ 0) (k : Nat) :
    (penaltyOnce penalty)^[k] x = penaltyOnce penalty x ↔ k = 1 := by
  have once := penaltyOnce_iterate positive x 1
  rw [Function.iterate_one] at once
  rw [penaltyOnce_iterate positive, once]
  constructor
  · intro same
    apply pow_right_injective₀ positive effective
    split at same
    · have powers := pow_pos positive k
      have first := pow_pos positive 1
      rw [div_eq_div_iff powers.ne' first.ne'] at same
      exact (mul_left_cancel₀ nonzero same).symm
    · exact mul_left_cancel₀ nonzero same
  · rintro rfl
    rfl

end Ordered

theorem applyPenalty_getElem? {cfg : SamplingConfig α} (effective : cfg.repetitionPenalty ≠ 1)
    (history : List Int) (probs : List α) (i : Nat) :
    (applyPenalty cfg history probs)[i]? =
      probs[i]?.map (penaltyOnce cfg.repetitionPenalty)^[history.count (i : Int)] := by
  rw [← history_getElem?, applyPenalty]
  cases history with
  | nil => rw [if_neg (fun both => both.2 rfl), List.foldl_nil]
  | cons id rest => rw [if_pos ⟨effective, List.cons_ne_nil _ _⟩]

variable [IsStrictOrderedRing α]

theorem penalisedOnce_iff {cfg : SamplingConfig α} (positive : 0 < cfg.repetitionPenalty)
    (history : List Int) (probs : List α) :
    PenalisedOnce cfg.repetitionPenalty history probs (applyPenalty cfg history probs) ↔
      cfg.repetitionPenalty = 1 ∨
        ∀ (i : Nat) x, probs[i]? = some x → x ≠ 0 → history.count (i : Int) ≤ 1 := by
  by_cases effective : cfg.repetitionPenalty = 1
  · refine iff_of_true (fun i x found => ?_) (Or.inl effective)
    rw [applyPenalty, if_neg (fun both => both.1 effective), found, effective, penaltyOnce_one,
      ite_self]
  · constructor
    · intro once
      refine Or.inr fun i x found nonzero => ?_
      have value := once i x found
      rw [applyPenalty_getElem? effective, found, Option.map_some] at value
      by_cases listed : (i : Int) ∈ history
      · rw [if_pos listed, Option.some.injEq,
          penaltyOnce_iterate_eq_iff positive effective nonzero] at value
        exact value.le
      · rw [List.count_eq_zero.mpr listed]
        exact Nat.zero_le 1
    · rintro (trivial | few) i x found
      · exact absurd trivial effective
      rw [applyPenalty_getElem? effective, found, Option.map_some]
      by_cases zero : x = 0
      · rw [zero, penaltyOnce_zero, ite_self, Function.iterate_fixed (penaltyOnce_zero _)]
      · have count := few i x found zero
        split
        · rename_i listed
          have one : history.count (i : Int) = 1 :=
            Nat.le_antisymm count (List.count_pos_iff.mpr listed)
          rw [one, Function.iterate_one]
        · rename_i absent
          rw [List.count_eq_zero.mpr absent, Function.iterate_zero, id]

/-- Histories of the same tokens give the same logits, each penalised once, if the penalty is 1
or no token of a nonzero logit is repeated, and in no other case. -/
theorem repetitionPenalty_iff (cfg : SamplingConfig α) (positive : 0 < cfg.repetitionPenalty)
    (logits : List α) (first second : List Int)
    (same : ∀ id : Int, 0 ≤ id → id < logits.length → (id ∈ first ↔ id ∈ second)) :
    (applyPenalty cfg first logits = applyPenalty cfg second logits ∧
      PenalisedOnce cfg.repetitionPenalty first logits (applyPenalty cfg first logits) ∧
      PenalisedOnce cfg.repetitionPenalty second logits (applyPenalty cfg second logits)) ↔
    cfg.repetitionPenalty = 1 ∨ ∀ (i : Nat) x, logits[i]? = some x → x ≠ 0 →
      first.count (i : Int) ≤ 1 ∧ second.count (i : Int) ≤ 1 := by
  have parts : (cfg.repetitionPenalty = 1 ∨ ∀ (i : Nat) x, logits[i]? = some x → x ≠ 0 →
        first.count (i : Int) ≤ 1 ∧ second.count (i : Int) ≤ 1) ↔
      PenalisedOnce cfg.repetitionPenalty first logits (applyPenalty cfg first logits) ∧
      PenalisedOnce cfg.repetitionPenalty second logits (applyPenalty cfg second logits) := by
    rw [penalisedOnce_iff positive, penalisedOnce_iff positive, ← or_and_left]
    grind
  rw [parts]
  refine ⟨And.right, fun once => ⟨List.ext_getElem? fun i => ?_, once⟩⟩
  by_cases below : i < logits.length
  · have found := List.getElem?_eq_getElem below
    rw [once.1 i _ found, once.2 i _ found]
    simp only [same i (by omega) (by omega)]
  · rw [List.getElem?_eq_none (by rw [applyPenalty_length]; omega),
      List.getElem?_eq_none (by rw [applyPenalty_length]; omega)]

def doubling : SamplingConfig ℚ where
  greedy := true
  topK := 0
  topP := 0
  temperature := 1
  repetitionPenalty := 2

theorem repetitionPenalty_iff_swapped :
    applyPenalty doubling [0, 1] [2, -2] = applyPenalty doubling [1, 0, 9] [2, -2] :=
  have same : ∀ id : Int, 0 ≤ id → id < 2 → (id ∈ [(0 : Int), 1] ↔ id ∈ [(1 : Int), 0, 9]) := by
    intro id low high
    simp only [List.mem_cons, List.not_mem_nil, or_false]
    omega
  ((repetitionPenalty_iff doubling (by decide) [2, -2] [0, 1] [1, 0, 9] same).mpr
    (Or.inr fun _ _ _ _ => ⟨List.nodup_iff_count_le_one.mp (by decide) _,
      List.nodup_iff_count_le_one.mp (by decide) _⟩)).1

/-- The token 0 twice in the history: its logit 2 becomes 1/2 instead of 1. -/
theorem repeated_compounds : ¬ ∀ (cfg : SamplingConfig ℚ) (logits : List ℚ)
    (first second : List Int), 0 < cfg.repetitionPenalty →
    (∀ id : Int, 0 ≤ id → id < logits.length → (id ∈ first ↔ id ∈ second)) →
    applyPenalty cfg first logits = applyPenalty cfg second logits ∧
      PenalisedOnce cfg.repetitionPenalty first logits (applyPenalty cfg first logits) ∧
      PenalisedOnce cfg.repetitionPenalty second logits (applyPenalty cfg second logits) := by
  intro law
  have same := (law doubling [2] [0] [0, 0] (by decide) (by simp)).1
  revert same
  decide +kernel

end Sampler

end MiniLLM
