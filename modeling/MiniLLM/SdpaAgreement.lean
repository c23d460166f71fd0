import MiniLLM.FlashAttention
import Mathlib.Analysis.SpecialFunctions.Pow.Real
import Mathlib.Analysis.SpecialFunctions.Trigonometric.Basic

/-!
The three-pass `sdpa` beside the tiled `flash_sdpa`. A row of scores is turned
into weights against its maximum and divided by their sum; whatever the reference,
that is the average the tiles arrive at, masked positions weighing nothing.
-/

namespace MiniLLM.Cpu

open Loops Softmax Finset

variable {α : Type} [Field α] [LinearOrder α]

section Rows

omit [LinearOrder α] in
theorem expVectors_spec (ops : FloatOps α) (n : Nat) (row : Buffer (Option α)) (m : α) :
    (∀ j < n / ops.simdWidth * ops.simdWidth,
        (expVectors ops n row m).1 j = weightAt ops.exp (row j) (some m)) ∧
      ∑ lane ∈ range ops.simdWidth, (expVectors ops n row m).2 lane =
        ∑ j ∈ range (n / ops.simdWidth * ops.simdWidth), weightAt ops.exp (row j) (some m) := by
  refine loop_invariant
    (fun i (acc : Buffer α × Buffer α) =>
      (∀ j < i * ops.simdWidth, acc.1 j = weightAt ops.exp (row j) (some m)) ∧
        ∑ lane ∈ range ops.simdWidth, acc.2 lane =
          ∑ j ∈ range (i * ops.simdWidth), weightAt ops.exp (row j) (some m))
    (n / ops.simdWidth) _ _ ⟨fun j below => by omega, by simp⟩ ?_
  rintro i ⟨weights, lanes⟩ _ ⟨stored, total⟩
  constructor
  · intro j below
    rw [Nat.succ_mul] at below
    simp only [copyFloats]
    by_cases here : i * ops.simdWidth ≤ j ∧ j < i * ops.simdWidth + ops.simdWidth
    · rw [if_pos here, Nat.add_sub_cancel' here.1]
    · rw [if_neg here]
      exact stored j (by omega)
  · rw [Nat.succ_mul, sum_range_add, ← total, ← sum_add_distrib]

omit [LinearOrder α] in
theorem rowExp_spec (ops : FloatOps α) (n : Nat) (row : Buffer (Option α)) (m : α) :
    (∀ j < n, (rowExp ops n row m).1 j = weightAt ops.exp (row j) (some m)) ∧
      (rowExp ops n row m).2 = ∑ j ∈ range n, weightAt ops.exp (row j) (some m) := by
  obtain ⟨vectors, lanes⟩ := expVectors_spec ops n row m
  unfold rowExp
  generalize expVectors ops n row m = registers at vectors lanes
  obtain ⟨stored, vsum⟩ := registers
  dsimp only at vectors lanes ⊢
  have tail := loop_invariant
    (fun t (acc : Buffer α × α) =>
      (∀ j < n / ops.simdWidth * ops.simdWidth + t,
        acc.1 j = weightAt ops.exp (row j) (some m)) ∧
        acc.2 = ∑ j ∈ range (n / ops.simdWidth * ops.simdWidth + t),
          weightAt ops.exp (row j) (some m))
    (n % ops.simdWidth)
    (fun t (acc : Buffer α × α) =>
      (store acc.1 (n / ops.simdWidth * ops.simdWidth + t)
        (weightAt ops.exp (row (n / ops.simdWidth * ops.simdWidth + t)) (some m)),
        acc.2 + weightAt ops.exp (row (n / ops.simdWidth * ops.simdWidth + t)) (some m)))
    (stored, hsum ops.simdWidth vsum) ⟨vectors, (hsum_eq _ _).trans lanes⟩
    (by
      rintro t ⟨weights, sum⟩ _ ⟨written, total⟩
      constructor
      · intro j below
        by_cases here : j = n / ops.simdWidth * ops.simdWidth + t
        · rw [here]
          exact store_same _ _ _
        · exact (store_other _ _ _ _ here).trans (written j (by omega))
      · rw [← Nat.add_assoc, sum_range_succ, ← total])
  rwa [Nat.div_add_mod' n ops.simdWidth] at tail

omit [LinearOrder α] in
theorem normalize_apply (ops : FloatOps α) (n : Nat) (sum : α) (row : Buffer α) {d : Nat}
    (inside : d < n) : normalize ops n sum row d = row d / sum := by
  have same : normalize ops n sum row = simdMap ops n (fun _ x => x / sum) row := by
    simp only [normalize, simdMap, mul_one_div]
  rw [same, simdMap_apply, if_pos inside]

/-- Weights against any reference, divided by their sum, average as the weights do. -/
theorem average_reference {exp : α → α} (law : ExpLaw exp) (scores : Nat → Option α)
    (values : Nat → α) (m : α) (n : Nat) :
    ∑ j ∈ range n, weightAt exp (scores j) (some m) /
        (∑ i ∈ range n, weightAt exp (scores i) (some m)) * values j =
      average (fun j => weight exp (scores j)) values n := by
  have positive := (law.pos m).ne'
  have total : (∑ i ∈ range n, weightAt exp (scores i) (some m)) * exp m =
      ∑ i ∈ range n, weight exp (scores i) := by
    rw [sum_mul]
    exact sum_congr rfl fun i _ => weightAt_rebase law (scores i) m
  have weighted : (∑ j ∈ range n, weightAt exp (scores j) (some m) * values j) * exp m =
      ∑ j ∈ range n, weight exp (scores j) * values j := by
    rw [sum_mul]
    exact sum_congr rfl fun j _ => by rw [mul_right_comm, weightAt_rebase law]
  rw [average, ← total, ← weighted, mul_div_mul_right _ _ positive, sum_div]
  exact sum_congr rfl fun j _ => div_mul_eq_mul_div _ _ _

/-- A row that sees its first position has weights that sum to its average. -/
theorem softmaxRow_average [IsStrictOrderedRing α] (ops : FloatOps α) (law : ExpLaw ops.exp)
    (n : Nat) (row : Buffer (Option α)) (seen : 0 < n → (row 0).isSome = true) (values : Nat → α) :
    ∑ j ∈ range n, softmaxRow ops n row j * values j =
      average (fun j => weight ops.exp (row j)) values n := by
  obtain ⟨weights, total⟩ := rowExp_spec ops n row (rowMax ops n row)
  rw [← average_reference law row values (rowMax ops n row)]
  unfold softmaxRow
  generalize rowMax ops n row = m at weights total ⊢
  generalize rowExp ops n row m = result at weights total ⊢
  obtain ⟨exps, sum⟩ := result
  dsimp only at weights total ⊢
  refine sum_congr rfl fun j member => ?_
  have inside := mem_range.mp member
  have positive : 0 < sum := by
    rw [total]
    refine sum_pos' (fun i _ => ?_) ⟨0, mem_range.mpr (by omega), ?_⟩
    · cases row i with
      | none => exact le_refl _
      | some score => exact (law.pos _).le
    · obtain ⟨score, first⟩ := Option.isSome_iff_exists.mp (seen (by omega))
      rw [first]
      exact law.pos _
  rw [if_neg (not_le.mpr positive), normalize_apply ops n sum exps inside, weights j inside, total]

end Rows

section Heads

/-- Query row `qi` of a head, as the tiled kernel sees it. -/
def headRow (q k v : Buffer α) (headDim qi : Nat) (causal : Bool) : FlashRow α where
  q := fun d => q (qi * headDim + d)
  k := fun ki d => k (ki * headDim + d)
  v := fun ki d => v (ki * headDim + d)
  causalAt := if causal then some qi else none

omit [LinearOrder α] in
theorem sdpaScores_at (ops : FloatOps α) (q k v : Buffer α) (qLen kvLen headDim : Nat)
    (causal : Bool) {qi ki : Nat} (insideQ : qi < qLen) (insideK : ki < kvLen) :
    sdpaScores ops q k qLen kvLen headDim causal (qi * kvLen + ki) =
      (headRow q k v headDim qi causal).score ops headDim ki := by
  have stored := Strides.copyRows_at qLen kvLen 1 (fun qi ki => qi * kvLen + ki)
    (fun qi ki _ => if causal = true ∧ ki > qi then none
      else some (dot ops (fun d => q (qi * headDim + d)) (fun d => k (ki * headDim + d)) headDim *
        scaleOf ops headDim))
    (fun _ => none)
    (by
      intro a _ b insideB a' _ b' insideB' d insideD d' insideD' same
      exact Strides.strided_inj insideB insideB' (by omega))
    insideQ insideK Nat.one_pos
  have same : sdpaScores ops q k qLen kvLen headDim causal = Strides.copyRows qLen kvLen 1
      (fun qi ki => qi * kvLen + ki)
      (fun qi ki _ => if causal = true ∧ ki > qi then none
        else some (dot ops (fun d => q (qi * headDim + d)) (fun d => k (ki * headDim + d)) headDim *
          scaleOf ops headDim))
      (fun _ => none) := by
    simp only [sdpaScores, Strides.copyRows, ← Strides.store_eq_copyFloats]
  rw [same]
  refine stored.trans ?_
  rw [dot_eq]
  cases causal with
  | true => simp [FlashRow.score, FlashRow.masked, headRow, score]
  | false => simp [FlashRow.score, FlashRow.masked, headRow, score]

/-- The third pass over a head is the row the tiles compute. -/
theorem attended_eq [IsStrictOrderedRing α] (ops : FloatOps α) (law : ExpLaw ops.exp)
    (q k v : Buffer α) (qLen kvLen headDim : Nat) (causal : Bool) {qi d : Nat} (insideQ : qi < qLen)
    (insideD : d < headDim) :
    loop kvLen (fun ki acc => acc +
        loop qLen (fun qi weights => copyFloats kvLen weights (qi * kvLen)
          (softmaxRow ops kvLen fun ki =>
            sdpaScores ops q k qLen kvLen headDim causal (qi * kvLen + ki)))
          (fun _ => 0) (qi * kvLen + ki) * v (ki * headDim + d)) 0 =
      flashRow ops headDim kvLen (headRow q k v headDim qi causal) d := by
  have copied := fun ki (inside : ki < kvLen) => Strides.copyRows_at qLen 1 kvLen
    (fun qi _ => qi * kvLen)
    (fun qi _ => softmaxRow ops kvLen fun ki =>
      sdpaScores ops q k qLen kvLen headDim causal (qi * kvLen + ki))
    (fun _ => 0)
    (by
      intro a _ b insideB a' _ b' insideB' d insideD d' insideD' same
      exact ⟨(Strides.strided_inj insideD insideD' same).1, by omega⟩)
    insideQ Nat.one_pos inside
  have scores := fun ki (inside : ki < kvLen) =>
    sdpaScores_at ops q k v qLen kvLen headDim causal insideQ inside
  have seen : 0 < kvLen →
      (sdpaScores ops q k qLen kvLen headDim causal (qi * kvLen + 0)).isSome = true := by
    intro some
    rw [scores 0 some, FlashRow.score, if_neg (by cases causal <;> simp [FlashRow.masked, headRow])]
    rfl
  rw [loop_sum, zero_add, flashRow_eq ops law headDim kvLen _ insideD]
  calc ∑ ki ∈ range kvLen, _ * v (ki * headDim + d)
      = ∑ ki ∈ range kvLen, softmaxRow ops kvLen
          (fun ki => sdpaScores ops q k qLen kvLen headDim causal (qi * kvLen + ki)) ki *
            v (ki * headDim + d) :=
        sum_congr rfl fun ki member => congrArg (· * v (ki * headDim + d))
          (copied ki (mem_range.mp member))
    _ = average (fun ki => weight ops.exp
          (sdpaScores ops q k qLen kvLen headDim causal (qi * kvLen + ki)))
          (fun ki => v (ki * headDim + d)) kvLen :=
        softmaxRow_average ops law kvLen _ seen fun ki => v (ki * headDim + d)
    _ = _ := average_congr (fun ki inside => by rw [scores ki inside]) fun _ _ => rfl

/-- The tiled kernel and the three-pass kernel leave the same output buffer. -/
theorem flashSdpaRows_eq [IsStrictOrderedRing α] (ops : FloatOps α) (law : ExpLaw ops.exp)
    (q k v output : Buffer α) (heads qLen kvLen headDim : Nat) (causal : Bool) :
    flashSdpaRows ops q k v output heads qLen kvLen headDim causal =
      sdpaRows ops q k v output heads qLen kvLen headDim causal := by
  unfold flashSdpaRows sdpaRows
  refine loop_congr heads _ _ output fun h before _ => ?_
  refine loop_congr qLen _ _ before fun qi current insideQ => ?_
  rw [Strides.loop_store headDim current (h * (qLen * headDim) + qi * headDim) (fun d => _)]
  refine Strides.copyFloats_congr headDim current _ fun d insideD => ?_
  have row := attended_eq ops law (fun i => q (h * (qLen * headDim) + i))
    (fun i => k (h * (kvLen * headDim) + i)) (fun i => v (h * (kvLen * headDim) + i)) qLen kvLen
    headDim causal insideQ insideD
  simp only [headRow, ← Nat.add_assoc] at row
  exact row.symm

-- The functions of <cmath> and an eight-lane build.
noncomputable def realOps : FloatOps ℝ where
  exp := Real.exp
  sqrt := Real.sqrt
  cos := Real.cos
  sin := Real.sin
  pow := fun base exponent => base ^ exponent
  lowest := -((2 ^ 128 - 2 ^ 104 : Int) : ℝ)
  simdWidth := 8

/-- Both kernels produce one output exactly when the `int`s of both are in range. -/
theorem flash_sdpa_eq_sdpa [IsStrictOrderedRing α] (ops : FloatOps α) (law : ExpLaw ops.exp)
    (q k v output : Buffer α) (heads qLen kvLen headDim : Nat) (causal : Bool) :
    (∃ out, flashSdpa ops q k v output heads qLen kvLen headDim causal = some out ∧
        sdpa ops q k v output heads qLen kvLen headDim causal = some out) ↔
      FlashSdpaFits ops.simdWidth heads qLen kvLen headDim causal ∧
        SdpaFits ops.simdWidth heads qLen kvLen headDim := by
  constructor
  · rintro ⟨out, tiled, plain⟩
    exact ⟨(Option.ite_none_right_eq_some.mp tiled).1, (Option.ite_none_right_eq_some.mp plain).1⟩
  · rintro ⟨tiled, plain⟩
    refine ⟨_, if_pos tiled, ?_⟩
    rw [flashSdpaRows_eq ops law]
    exact if_pos plain

/-- Two heads, more queries than keys, a mask and a second tile of one position. -/
theorem flash_sdpa_eq_sdpa_real :
    ∃ out, flashSdpa realOps (fun i => i) (fun i => i + 1) (fun i => i * i) (fun _ => 0)
        2 40 33 10 true = some out ∧
      sdpa realOps (fun i => i) (fun i => i + 1) (fun i => i * i) (fun _ => 0)
        2 40 33 10 true = some out :=
  (flash_sdpa_eq_sdpa realOps ⟨Real.exp_add, Real.exp_pos⟩ _ _ _ _ 2 40 33 10 true).mpr
    ⟨by change FlashSdpaFits 8 2 40 33 10 true; decide, by change SdpaFits 8 2 40 33 10; decide⟩

/-- The scores of 46341 queries and keys are more than 2^31; the tiled kernel keeps none of
them. -/
theorem sdpa_scores_overflow :
    (∃ out, flashSdpa realOps (fun _ => 0) (fun _ => 0) (fun _ => 0) (fun _ => 0)
        1 46341 46341 1 false = some out) ∧
      ¬ ∃ out, flashSdpa realOps (fun _ => 0) (fun _ => 0) (fun _ => 0) (fun _ => 0)
          1 46341 46341 1 false = some out ∧
        sdpa realOps (fun _ => 0) (fun _ => 0) (fun _ => 0) (fun _ => 0)
          1 46341 46341 1 false = some out := by
  refine ⟨⟨_, if_pos (by change FlashSdpaFits 8 1 46341 46341 1 false; decide)⟩, ?_⟩
  rintro ⟨out, -, plain⟩
  have scores := ((Option.ite_none_right_eq_some.mp plain).1.2 (by decide) (by decide)
    (by decide)).1
  exact absurd scores (by decide)

end Heads

end MiniLLM.Cpu
