import MiniLLM.CpuKernels

/-!
What the CPU kernels compute. Vector body and scalar tail together are plain sums
and elementwise maps for every SIMD width; the tiled pass with its running maximum
is the softmax average over the visible positions, whatever the tile remainder.
-/

namespace MiniLLM.Cpu

open Loops Softmax Finset

variable {α : Type} [Field α] [LinearOrder α]

/-- The score of a query row against a key row. -/
def score (ops : FloatOps α) (headDim : Nat) (q k : Buffer α) : α :=
  (∑ d ∈ range headDim, q d * k d) * scaleOf ops headDim

/-- Attention of a query row over the first `n` key and value rows. -/
def attend (ops : FloatOps α) (headDim : Nat) (q : Buffer α) (k v : Nat → Buffer α) (n d : Nat) :
    α :=
  average (fun j => ops.exp (score ops headDim q (k j))) (fun j => v j d) n

section Simd

omit [LinearOrder α] in
theorem hsum_eq (width : Nat) (lanes : Buffer α) :
    hsum width lanes = ∑ lane ∈ range width, lanes lane := by
  rw [hsum, loop_sum, zero_add]

omit [LinearOrder α] in
theorem dot_eq (ops : FloatOps α) (q k : Buffer α) (n : Nat) :
    dot ops q k n = ∑ d ∈ range n, q d * k d := by
  have body := loop_invariant
    (fun i (vsum : Buffer α) => ∑ lane ∈ range ops.simdWidth, vsum lane =
      ∑ d ∈ range (i * ops.simdWidth), q d * k d)
    (n / ops.simdWidth)
    (fun i vsum lane => vsum lane +
      q (i * ops.simdWidth + lane) * k (i * ops.simdWidth + lane)) (fun _ => 0)
    (by simp)
    (fun i vsum _ same => by rw [sum_add_distrib, same, Nat.succ_mul, sum_range_add])
  have tail := loop_invariant
    (fun t (sum : α) => sum = ∑ d ∈ range (n / ops.simdWidth * ops.simdWidth + t), q d * k d)
    (n % ops.simdWidth)
    (fun t sum => sum + q (n / ops.simdWidth * ops.simdWidth + t) *
      k (n / ops.simdWidth * ops.simdWidth + t))
    _ ((hsum_eq _ _).trans body)
    (fun t sum _ same => by rw [same, ← Nat.add_assoc, sum_range_succ])
  rwa [Nat.div_add_mod' n ops.simdWidth] at tail

omit [LinearOrder α] [Field α] in
theorem simdMap_apply (ops : FloatOps α) (n : Nat) (f : Nat → α → α) (row : Buffer α) (d : Nat) :
    simdMap ops n f row d = if d < n then f d (row d) else row d := by
  -- `done` floats are updated: after the vector body and after each tail step.
  let done : Nat → Buffer α := fun m d => if d < m then f d (row d) else row d
  have body := loop_invariant (fun i r => r = done (i * ops.simdWidth)) (n / ops.simdWidth)
    (fun i row d => if i * ops.simdWidth ≤ d ∧ d < i * ops.simdWidth + ops.simdWidth
      then f d (row d) else row d) row (by funext d; simp [done])
    (by
      rintro i r _ rfl
      funext d
      simp only [done, Nat.succ_mul]
      by_cases low : d < i * ops.simdWidth
      · rw [if_neg (by omega), if_pos low, if_pos (by omega)]
      · by_cases high : d < i * ops.simdWidth + ops.simdWidth
        · rw [if_pos ⟨by omega, high⟩, if_neg low, if_pos high]
        · rw [if_neg (by omega), if_neg low, if_neg high])
  have tail := loop_invariant (fun t r => r = done (n / ops.simdWidth * ops.simdWidth + t))
    (n % ops.simdWidth)
    (fun t row => store row (n / ops.simdWidth * ops.simdWidth + t)
      (f (n / ops.simdWidth * ops.simdWidth + t)
        (row (n / ops.simdWidth * ops.simdWidth + t)))) _ body
    (by
      rintro t r _ rfl
      funext d
      by_cases here : d = n / ops.simdWidth * ops.simdWidth + t
      · subst here
        rw [store_same]
        simp only [done]
        rw [if_neg (by omega), if_pos (by omega)]
      · rw [store_other _ _ _ _ here]
        simp only [done]
        by_cases low : d < n / ops.simdWidth * ops.simdWidth + t
        · rw [if_pos low, if_pos (by omega)]
        · rw [if_neg low, if_neg (by omega)])
  rw [Nat.div_add_mod' n ops.simdWidth] at tail
  exact congrFun tail d

end Simd

section Tiles

/-- The score of position `ki` for a row, none where it is masked. -/
def FlashRow.score (ops : FloatOps α) (headDim : Nat) (row : FlashRow α) (ki : Nat) : Option α :=
  if row.masked ki then none else some (Cpu.score ops headDim row.q (row.k ki))

omit [Field α] [LinearOrder α] in
theorem FlashRow.masked_mono (row : FlashRow α) {i j : Nat} (behind : row.masked i = true)
    (above : i ≤ j) : row.masked j = true := by
  obtain ⟨q, k, v, causalAt⟩ := row
  cases causalAt with
  | none => exact behind
  | some qi =>
      have beyond : qi < i := of_decide_eq_true behind
      exact decide_eq_true (Nat.lt_of_lt_of_le beyond above)

theorem tileScores_spec (ops : FloatOps α) (headDim : Nat) (row : FlashRow α) (kt count : Nat) :
    (∀ i < count, (tileScores ops headDim row kt count).1 i = row.score ops headDim (kt + i)) ∧
      ((tileScores ops headDim row kt count).2 = none →
        ∀ i < count, row.score ops headDim (kt + i) = none) := by
  refine loop_invariant
    (fun n (tile : Buffer (Option α) × Option α) =>
      (∀ i < n, tile.1 i = row.score ops headDim (kt + i)) ∧
        (tile.2 = none → ∀ i < n, row.score ops headDim (kt + i) = none))
    count _ _ ⟨fun i below => absurd below (Nat.not_lt_zero i),
      fun _ i below => absurd below (Nat.not_lt_zero i)⟩ ?_
  rintro n ⟨scores, tileMax⟩ _ ⟨stored, empty⟩
  by_cases masked : row.masked (kt + n) = true
  · have hidden : row.score ops headDim (kt + n) = none := if_pos masked
    rw [if_pos masked]
    dsimp only at stored empty ⊢
    constructor
    · intro i below
      rcases Nat.lt_succ_iff_lt_or_eq.mp below with before | rfl
      · rw [store_other _ _ _ _ (Nat.ne_of_lt before)]
        exact stored i before
      · rw [store_same, hidden]
    · intro none i below
      rcases Nat.lt_succ_iff_lt_or_eq.mp below with before | rfl
      · exact empty none i before
      · exact hidden
  · rw [if_neg masked]
    dsimp only at stored empty ⊢
    constructor
    · intro i below
      rcases Nat.lt_succ_iff_lt_or_eq.mp below with before | rfl
      · rw [store_other _ _ _ _ (Nat.ne_of_lt before)]
        exact stored i before
      · rw [store_same, dot_eq]
        exact (if_neg masked).symm
    · intro none
      obtain ⟨m, found⟩ := maxScore_some_right tileMax
        (dot ops row.q (row.k (kt + n)) headDim * scaleOf ops headDim)
      exact absurd (found.symm.trans none) (Option.some_ne_none m)

omit [LinearOrder α] in
theorem tileWeights_spec (ops : FloatOps α) (count : Nat) (scores : Buffer (Option α))
    (m : Option α) :
    (∀ i < count, (tileWeights ops count scores m).1 i = weightAt ops.exp (scores i) m) ∧
      (tileWeights ops count scores m).2 = ∑ i ∈ range count, weightAt ops.exp (scores i) m := by
  refine loop_invariant
    (fun n (tile : Buffer α × α) => (∀ i < n, tile.1 i = weightAt ops.exp (scores i) m) ∧
      tile.2 = ∑ i ∈ range n, weightAt ops.exp (scores i) m)
    count _ _ ⟨fun i below => absurd below (Nat.not_lt_zero i), rfl⟩ ?_
  rintro n ⟨weights, sum⟩ _ ⟨stored, total⟩
  constructor
  · intro i below
    rcases Nat.lt_succ_iff_lt_or_eq.mp below with before | rfl
    · exact (store_other _ _ _ _ (Nat.ne_of_lt before)).trans (stored i before)
    · exact store_same _ _ _
  · rw [sum_range_succ, ← total]

/-- The accumulation loop adds the weighted value rows; skipping a zero weight
changes nothing. -/
theorem accumulate_spec (ops : FloatOps α) (headDim count : Nat) (weights : Buffer α)
    (v : Nat → Buffer α) (o : Buffer α) {d : Nat} (inside : d < headDim) :
    loop count (fun i o =>
      let w := weights i
      if w = 0 then o else simdMap ops headDim (fun d x => w * v i d + x) o) o d =
      o d + ∑ i ∈ range count, weights i * v i d := by
  refine loop_invariant (fun n (r : Buffer α) => r d = o d + ∑ i ∈ range n, weights i * v i d)
    count _ o (by simp) ?_
  intro n r _ same
  rw [sum_range_succ, ← add_assoc, ← same]
  by_cases zero : weights n = 0
  · rw [if_pos zero, zero, zero_mul, add_zero]
  · rw [if_neg zero, simdMap_apply, if_pos inside, add_comm]

/-- The state after a tile keeps the running-average invariant, float by float. -/
theorem flashTile_online (ops : FloatOps α) (law : ExpLaw ops.exp) (headDim : Nat)
    (row : FlashRow α) (kt tileEnd : Nat) (ordered : kt ≤ tileEnd) (state : FlashState α)
    {d : Nat} (inside : d < headDim)
    (online : Online ops.exp (fun j => weight ops.exp (row.score ops headDim j))
      (fun j => row.v j d) kt state.m state.l (state.o d)) :
    Online ops.exp (fun j => weight ops.exp (row.score ops headDim j)) (fun j => row.v j d)
      tileEnd (flashTile ops headDim row kt tileEnd state).m
      (flashTile ops headDim row kt tileEnd state).l
      ((flashTile ops headDim row kt tileEnd state).o d) := by
  obtain ⟨scores, empty⟩ := tileScores_spec ops headDim row kt (tileEnd - kt)
  unfold flashTile
  generalize tileScores ops headDim row kt (tileEnd - kt) = tile at scores empty
  obtain ⟨tileScore, tileMax⟩ := tile
  dsimp only at scores empty ⊢
  obtain ⟨weights, total⟩ := tileWeights_spec ops (tileEnd - kt) tileScore
    (maxScore state.m tileMax)
  generalize tileWeights ops (tileEnd - kt) tileScore (maxScore state.m tileMax) = tile
    at weights total
  obtain ⟨tileWeight, tileSum⟩ := tile
  dsimp only at weights total ⊢
  have sameWeights : ∀ i ∈ range (tileEnd - kt), tileWeight i =
      weightAt ops.exp (row.score ops headDim (kt + i)) (maxScore state.m tileMax) := by
    intro i member
    rw [weights i (mem_range.mp member), scores i (mem_range.mp member)]
  have sum : tileSum = ∑ i ∈ range (tileEnd - kt),
      weightAt ops.exp (row.score ops headDim (kt + i)) (maxScore state.m tileMax) := by
    rw [total]
    exact sum_congr rfl fun i member => by rw [scores i (mem_range.mp member)]
  have weighted : ∑ i ∈ range (tileEnd - kt), tileWeight i * row.v (kt + i) d =
      ∑ i ∈ range (tileEnd - kt),
        weightAt ops.exp (row.score ops headDim (kt + i)) (maxScore state.m tileMax) *
          row.v (kt + i) d :=
    sum_congr rfl fun i member => by rw [sameWeights i member]
  have absorbed : Online ops.exp (fun j => weight ops.exp (row.score ops headDim j))
      (fun j => row.v j d) (kt + (tileEnd - kt)) (maxScore state.m tileMax)
      (state.l * (if state.m = none then 1 else weightAt ops.exp state.m
        (maxScore state.m tileMax)) + tileSum)
      (state.o d * (if state.m = none then 1 else weightAt ops.exp state.m
        (maxScore state.m tileMax)) +
        ∑ i ∈ range (tileEnd - kt), tileWeight i * row.v (kt + i) d) := by
    rw [sum, weighted]
    apply online.absorb law
    · intro none
      obtain ⟨old, tileNone⟩ := maxScore_eq_none none
      exact ⟨old, empty tileNone⟩
    · intro old new sameOld sameNew
      rw [sameNew, sameOld, if_neg (Option.some_ne_none old)]
      rfl
  rw [Nat.add_sub_cancel' ordered] at absorbed
  rwa [accumulate_spec ops headDim _ _ _ _ inside, simdMap_apply, if_pos inside]

/-- The tiles together, the break behind the diagonal included, are one pass over
all positions. -/
theorem flashTiles_online (ops : FloatOps α) (law : ExpLaw ops.exp) (headDim kvLen : Nat)
    (row : FlashRow α) {d : Nat} (inside : d < headDim) :
    Online ops.exp (fun j => weight ops.exp (row.score ops headDim j)) (fun j => row.v j d)
      kvLen (flashTiles ops headDim kvLen row).m (flashTiles ops headDim kvLen row).l
      ((flashTiles ops headDim kvLen row).o d) := by
  let state : Nat → FlashState α → Prop := fun n state =>
    Online ops.exp (fun j => weight ops.exp (row.score ops headDim j)) (fun j => row.v j d)
      n state.m state.l (state.o d)
  have rule := loopTry_invariant (fun t => state (min (t * kvTile) kvLen))
    (fun (_ : Unit) => state kvLen) ((kvLen + kvTile - 1) / kvTile)
    (fun t state =>
      if row.masked (t * kvTile) then (some (), state)
      else (none, flashTile ops headDim row (t * kvTile) (min (t * kvTile + kvTile) kvLen) state))
    { m := none, l := 0, o := fun _ => 0 }
    (by rw [Nat.zero_mul, Nat.zero_min]; exact Online.start _ _ _)
    (by
      intro t current below online
      have tileStart : t * kvTile ≤ kvLen := by
        have last := Nat.div_mul_le_self (kvLen + kvTile - 1) kvTile
        have next := Nat.mul_le_mul_right kvTile below
        rw [Nat.succ_mul] at next
        simp only [kvTile] at last next ⊢
        omega
      rw [Nat.min_eq_left tileStart] at online
      by_cases behind : row.masked (t * kvTile) = true
      · rw [if_pos behind]
        refine online.extend tileStart fun j above => ?_
        rw [FlashRow.score, if_pos (row.masked_mono behind above)]
        rfl
      · rw [if_neg behind]
        have absorbed := flashTile_online ops law headDim row (t * kvTile)
          (min (t * kvTile + kvTile) kvLen) (by omega) current inside online
        change state (min ((t + 1) * kvTile) kvLen) _
        rwa [Nat.succ_mul])
  have whole : min ((kvLen + kvTile - 1) / kvTile * kvTile) kvLen = kvLen := by
    simp only [kvTile]
    omega
  rw [whole] at rule
  exact (ends_iff (state kvLen) _).mp rule

theorem flashRow_eq [IsStrictOrderedRing α] (ops : FloatOps α) (law : ExpLaw ops.exp)
    (headDim kvLen : Nat) (row : FlashRow α) {d : Nat} (inside : d < headDim) :
    flashRow ops headDim kvLen row d =
      average (fun j => weight ops.exp (row.score ops headDim j)) (fun j => row.v j d) kvLen := by
  have online := flashTiles_online ops law headDim kvLen row inside
  rw [← online.average law fun j => weight_nonneg law _]
  unfold flashRow
  by_cases some : (flashTiles ops headDim kvLen row).l > 0
  · simp only [if_pos some]
    rw [simdMap_apply, if_pos inside]
  · simp only [if_neg some]

/-- Without a mask a row attends to all positions. -/
theorem flashRow_full [IsStrictOrderedRing α] (ops : FloatOps α) (law : ExpLaw ops.exp)
    (headDim kvLen : Nat) (q : Buffer α) (k v : Nat → Buffer α) {d : Nat} (inside : d < headDim) :
    flashRow ops headDim kvLen { q := q, k := k, v := v, causalAt := none } d =
      attend ops headDim q k v kvLen d :=
  flashRow_eq ops law headDim kvLen _ inside

/-- With the mask a row attends to the positions up to its own. -/
theorem flashRow_causal [IsStrictOrderedRing α] (ops : FloatOps α) (law : ExpLaw ops.exp)
    (headDim kvLen qi : Nat) (q : Buffer α) (k v : Nat → Buffer α) {d : Nat}
    (inside : d < headDim) (visible : qi < kvLen) :
    flashRow ops headDim kvLen { q := q, k := k, v := v, causalAt := some qi } d =
      attend ops headDim q k v (qi + 1) d := by
  rw [flashRow_eq ops law headDim kvLen _ inside]
  apply average_masked _ _ _ visible
  · intro j below
    have seen : ¬ FlashRow.masked { q := q, k := k, v := v, causalAt := some qi } j = true := by
      simp [FlashRow.masked]
      omega
    rw [FlashRow.score, if_neg seen]
    rfl
  · intro j above
    have hidden : FlashRow.masked { q := q, k := k, v := v, causalAt := some qi } j = true := by
      simp [FlashRow.masked]
      omega
    rw [FlashRow.score, if_pos hidden]
    rfl

end Tiles

section Outputs

variable [IsStrictOrderedRing α]

/-- `flash_sdpa`: head `h` of query row `qi` attends to the rows of its head, up to
its own under the mask. -/
theorem flashSdpaRows_at (ops : FloatOps α) (law : ExpLaw ops.exp) (q k v output : Buffer α)
    (heads qLen kvLen headDim : Nat) (causal : Bool) {h qi d : Nat} (insideH : h < heads)
    (insideQ : qi < qLen) (insideD : d < headDim) (visible : causal = true → qi < kvLen) :
    flashSdpaRows ops q k v output heads qLen kvLen headDim causal
        (h * (qLen * headDim) + qi * headDim + d) =
      attend ops headDim (fun d => q (h * (qLen * headDim) + qi * headDim + d))
        (fun ki d => k (h * (kvLen * headDim) + ki * headDim + d))
        (fun ki d => v (h * (kvLen * headDim) + ki * headDim + d))
        (if causal then qi + 1 else kvLen) d := by
  have copied := Strides.copyRows_at heads qLen headDim
    (fun h qi => h * (qLen * headDim) + qi * headDim)
    (fun h qi => flashRow ops headDim kvLen
      { q := fun d => q (h * (qLen * headDim) + qi * headDim + d)
        k := fun ki d => k (h * (kvLen * headDim) + ki * headDim + d)
        v := fun ki d => v (h * (kvLen * headDim) + ki * headDim + d)
        causalAt := if causal then some qi else none })
    output
    (by
      intro a _ b insideB a' _ b' insideB' d insideD d' insideD' same
      simp only [← Nat.mul_assoc] at same
      have parts := Strides.strided3_inj insideB insideB' insideD insideD' same
      exact ⟨parts.1, parts.2.1⟩)
    insideH insideQ insideD
  refine copied.trans ?_
  cases causal with
  | true => exact flashRow_causal ops law headDim kvLen qi _ _ _ insideD (visible rfl)
  | false => exact flashRow_full ops law headDim kvLen _ _ _ insideD

/-- `flash_sdpa_decode`: query head `h` attends to all cached rows of its group's head. -/
theorem flashSdpaDecodeRows_at (ops : FloatOps α) (law : ExpLaw ops.exp) (q k v output : Buffer α)
    (numHeads numKvHeads headDim kvLen : Nat) {h d : Nat} (insideH : h < numHeads)
    (insideD : d < headDim) :
    flashSdpaDecodeRows ops q k v output numHeads numKvHeads headDim kvLen (h * headDim + d) =
      attend ops headDim (fun d => q (h * headDim + d))
        (fun ki d => k (ki * (numKvHeads * headDim) + h / (numHeads / numKvHeads) * headDim + d))
        (fun ki d => v (ki * (numKvHeads * headDim) + h / (numHeads / numKvHeads) * headDim + d))
        kvLen d := by
  have copied := Strides.copyRows_at numHeads 1 headDim (fun h _ => h * headDim)
    (fun h _ => flashRow ops headDim kvLen
      { q := fun d => q (h * headDim + d)
        k := fun ki d =>
          k (ki * (numKvHeads * headDim) + h / (numHeads / numKvHeads) * headDim + d)
        v := fun ki d =>
          v (ki * (numKvHeads * headDim) + h / (numHeads / numKvHeads) * headDim + d)
        causalAt := none })
    output
    (by
      intro a _ b insideB a' _ b' insideB' d insideD d' insideD' same
      exact ⟨(Strides.strided_inj insideD insideD' same).1, by omega⟩)
    insideH Nat.one_pos insideD
  exact copied.trans (flashRow_full ops law headDim kvLen _ _ _ insideD)

end Outputs

section Rope

omit [LinearOrder α]

/-- A head rotated by its position. -/
def rotated (ops : FloatOps α) (base : α) (headDim : Nat) (pos : Int) (x : Buffer α) (d : Nat) : α :=
  if d < headDim / 2 then ropeEven ops base headDim pos x d
  else ropeOdd ops base headDim pos x (d - headDim / 2)

-- The row with the first `m` pairs rotated.
def rotatedPairs (ops : FloatOps α) (x y : Buffer α) (row headDim : Nat) (base : α) (pos : Int)
    (m : Nat) : Buffer α := fun i =>
  if row ≤ i ∧ i < row + m then ropeEven ops base headDim pos x (i - row)
  else if row + headDim / 2 ≤ i ∧ i < row + headDim / 2 + m then
    ropeOdd ops base headDim pos x (i - row - headDim / 2)
  else y i

theorem rotatedPairs_step (ops : FloatOps α) (x y : Buffer α) (row headDim : Nat) (base : α)
    (pos : Int) (m width : Nat) (inside : m + width ≤ headDim / 2) :
    copyFloats width
        (copyFloats width (rotatedPairs ops x y row headDim base pos m) (row + m)
          fun lane => ropeEven ops base headDim pos x (m + lane))
        (row + m + headDim / 2) (fun lane => ropeOdd ops base headDim pos x (m + lane)) =
      rotatedPairs ops x y row headDim base pos (m + width) := by
  funext i
  simp only [copyFloats, rotatedPairs]
  by_cases odd : row + m + headDim / 2 ≤ i ∧ i < row + m + headDim / 2 + width
  · rw [if_pos odd, if_neg (by omega), if_pos (by omega)]
    congr 1
    omega
  · rw [if_neg odd]
    by_cases even : row + m ≤ i ∧ i < row + m + width
    · rw [if_pos even, if_pos (by omega)]
      congr 1
      omega
    · rw [if_neg even]
      by_cases first : row ≤ i ∧ i < row + m
      · rw [if_pos first, if_pos (by omega)]
      · rw [if_neg first]
        by_cases second : row + headDim / 2 ≤ i ∧ i < row + headDim / 2 + m
        · rw [if_pos second, if_neg (by omega), if_pos (by omega)]
        · rw [if_neg second, if_neg (by omega), if_neg (by omega)]

theorem applyRopeRow_eq (ops : FloatOps α) (x y : Buffer α) (row headDim : Nat) (base : α)
    (pos : Int) :
    applyRopeRow ops x y row headDim base pos =
      rotatedPairs ops x y row headDim base pos (headDim / 2) := by
  have body := loop_invariant
    (fun i r => r = rotatedPairs ops x y row headDim base pos (i * ops.simdWidth))
    (headDim / 2 / ops.simdWidth)
    (fun i y => copyFloats ops.simdWidth
      (copyFloats ops.simdWidth y (row + i * ops.simdWidth)
        fun lane => ropeEven ops base headDim pos x (i * ops.simdWidth + lane))
      (row + i * ops.simdWidth + headDim / 2)
      fun lane => ropeOdd ops base headDim pos x (i * ops.simdWidth + lane)) y
    (by
      funext i
      simp only [rotatedPairs, Nat.zero_mul, Nat.add_zero]
      rw [if_neg (by omega), if_neg (by omega)])
    (by
      rintro i r below rfl
      rw [Nat.succ_mul]
      apply rotatedPairs_step
      have last := Nat.div_mul_le_self (headDim / 2) ops.simdWidth
      have next := Nat.mul_le_mul_right ops.simdWidth below
      rw [Nat.succ_mul] at next
      omega)
  have tail := loop_invariant
    (fun t r => r = rotatedPairs ops x y row headDim base pos
      (headDim / 2 / ops.simdWidth * ops.simdWidth + t))
    (headDim / 2 % ops.simdWidth)
    (fun t y =>
      store (store y (row + (headDim / 2 / ops.simdWidth * ops.simdWidth + t))
          (ropeEven ops base headDim pos x (headDim / 2 / ops.simdWidth * ops.simdWidth + t)))
        (row + (headDim / 2 / ops.simdWidth * ops.simdWidth + t) + headDim / 2)
        (ropeOdd ops base headDim pos x (headDim / 2 / ops.simdWidth * ops.simdWidth + t)))
    _ body
    (by
      rintro t r below rfl
      have whole := Nat.div_add_mod' (headDim / 2) ops.simdWidth
      have stepped := rotatedPairs_step ops x y row headDim base pos
        (headDim / 2 / ops.simdWidth * ops.simdWidth + t) 1 (by omega)
      rw [← Strides.store_eq_copyFloats, ← Strides.store_eq_copyFloats] at stepped
      exact stepped)
  rwa [Nat.div_add_mod' (headDim / 2) ops.simdWidth] at tail

/-- The pairs of a head are rotated and nothing else is written. -/
theorem applyRopeRow_pairs (ops : FloatOps α) (x y : Buffer α) (row headDim : Nat) (base : α)
    (pos : Int) :
    applyRopeRow ops x y row headDim base pos =
      copyFloats (headDim / 2 * 2) y row (rotated ops base headDim pos x) := by
  rw [applyRopeRow_eq]
  funext i
  simp only [rotatedPairs, copyFloats, rotated]
  by_cases inside : row ≤ i ∧ i < row + headDim / 2 * 2
  · rw [if_pos inside]
    by_cases first : i - row < headDim / 2
    · rw [if_pos first, if_pos (by omega)]
    · rw [if_neg first, if_neg (by omega), if_pos (by omega)]
  · rw [if_neg inside, if_neg (by omega), if_neg (by omega)]

/-- An even head is rotated as a whole. -/
theorem applyRopeRow_head (ops : FloatOps α) (x y : Buffer α) (row headDim : Nat) (base : α)
    (pos : Int) (even : headDim % 2 = 0) :
    applyRopeRow ops x y row headDim base pos =
      copyFloats headDim y row (rotated ops base headDim pos x) := by
  rw [applyRopeRow_pairs, show headDim / 2 * 2 = headDim by omega]

end Rope

end MiniLLM.Cpu
