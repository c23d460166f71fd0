import MiniLLM.Sampler
import Mathlib.Algebra.Field.Rat

/-!
The candidates among which `sample` chooses, against the filters' own terms: the
most probable tokens, then the shortest prefix of them that reaches `top_p`. The
choice reads the candidates only, so it stays among them whatever is drawn.
-/

namespace MiniLLM

namespace Sampler

section Tokens

variable {α : Type}

/-- The tokens of the vocabulary with their probabilities. -/
def Token (probs : List α) (c : TokenProb α) : Prop :=
  ∃ i : Nat, c.id = i ∧ probs[i]? = some c.prob

def tokens (probs : List α) : List (TokenProb α) :=
  probs.zipIdx.map fun (prob, i) => ⟨(i : Int), prob⟩

theorem mem_tokens (probs : List α) (c : TokenProb α) : c ∈ tokens probs ↔ Token probs c := by
  rw [tokens, List.mem_map]
  constructor
  · rintro ⟨⟨prob, i⟩, listed, rfl⟩
    exact ⟨i, rfl, List.mem_zipIdx_iff_getElem?.mp listed⟩
  · rintro ⟨i, same, found⟩
    exact ⟨(c.prob, i), List.mem_zipIdx_iff_getElem?.mpr found, by simp only [← same]⟩

/-- An id has one probability. -/
theorem Token.unique {probs : List α} {c other : TokenProb α} (first : Token probs c)
    (second : Token probs other) (same : c.id = other.id) : c.prob = other.prob := by
  obtain ⟨i, id, found⟩ := first
  obtain ⟨j, otherId, otherFound⟩ := second
  have index : i = j := by
    rw [id, otherId] at same
    exact_mod_cast same
  subst index
  exact Option.some.inj (found.symm.trans otherFound)

theorem tokens_length (probs : List α) : (tokens probs).length = probs.length := by
  rw [tokens, List.length_map, List.length_zipIdx]

theorem tokens_distinct (probs : List α) : ((tokens probs).map TokenProb.id).Nodup := by
  have ids : (tokens probs).map TokenProb.id = (List.range' 0 probs.length).map Nat.cast := by
    rw [tokens, List.map_map, ← List.zipIdx_map_snd, List.map_map]
    rfl
  rw [ids]
  exact (List.nodup_range').map Nat.cast_injective

end Tokens

/-! Tokens in the order of their probabilities. -/

section Order

variable {α : Type} [LinearOrder α]

/-- `k` of the most probable tokens, in descending order. -/
structure Ranked (probs : List α) (k : Nat) (ranked : List (TokenProb α)) : Prop where
  size : ranked.length = k
  tokens : ∀ c ∈ ranked, Token probs c
  distinct : (ranked.map TokenProb.id).Nodup
  descending : Descending ranked
  most : ∀ c ∈ ranked, ∀ other, Token probs other → other.id ∉ ranked.map TokenProb.id →
    other.prob ≤ c.prob

/-- The front of a permutation of the tokens that is in order and above the rest. -/
theorem ranked_take {probs : List α} {sorted : List (TokenProb α)}
    (perm : sorted.Perm (tokens probs)) {k : Nat} (within : k ≤ probs.length)
    (descending : Descending (sorted.take k))
    (first : ∀ a ∈ sorted.take k, ∀ b ∈ sorted.drop k, b.prob ≤ a.prob) :
    Ranked probs k (sorted.take k) := by
  have distinct : (sorted.map TokenProb.id).Nodup :=
    (perm.map TokenProb.id).nodup_iff.mpr (tokens_distinct probs)
  constructor
  · rw [List.length_take, perm.length_eq, tokens_length]
    omega
  · intro c listed
    exact (mem_tokens probs c).mp (perm.mem_iff.mp (List.mem_of_mem_take listed))
  · exact distinct.sublist ((List.take_sublist k sorted).map TokenProb.id)
  · exact descending
  · intro c listed other token outside
    have somewhere : other ∈ sorted.take k ++ sorted.drop k := by
      rw [List.take_append_drop]
      exact perm.mem_iff.mpr ((mem_tokens probs other).mpr token)
    rcases List.mem_append.mp somewhere with taken | dropped
    · exact absurd (List.mem_map_of_mem taken) outside
    · exact first c listed other dropped

/-- What a prefix of the ranked tokens leaves out is not more probable. -/
theorem Ranked.dominates {probs : List α} {k : Nat} {ranked kept : List (TokenProb α)}
    (order : Ranked probs k ranked) (start : kept <+: ranked) {c other : TokenProb α}
    (listed : c ∈ kept) (token : Token probs other)
    (outside : other.id ∉ kept.map TokenProb.id) : other.prob ≤ c.prob := by
  obtain ⟨rest, rfl⟩ := start
  by_cases later : other.id ∈ (kept ++ rest).map TokenProb.id
  · obtain ⟨same, member, named⟩ := List.mem_map.mp later
    have prob : same.prob = other.prob := (order.tokens same member).unique token named
    rcases List.mem_append.mp member with front | back
    · exact absurd (named ▸ List.mem_map_of_mem front) outside
    · rw [← prob]
      exact (List.pairwise_append.mp order.descending).2.2 c listed same back
  · exact order.most c (List.mem_append_left _ listed) other token later

theorem greedy_first {first : TokenProb α} {rest : List (TokenProb α)}
    (descending : Descending (first :: rest)) :
    greedyToken (first :: rest) = some first.id := by
  have kept : ∀ tokens : List (TokenProb α), (∀ c ∈ tokens, c.prob ≤ first.prob) →
      tokens.foldl (fun best c => if best.prob < c.prob then c else best) first = first := by
    intro tokens
    induction tokens with
    | nil => exact fun _ => rfl
    | cons c later ih =>
        intro below
        rw [List.foldl_cons, if_neg (not_lt.mpr (below c List.mem_cons_self))]
        exact ih fun other listed => below other (List.mem_cons_of_mem _ listed)
  rw [greedyToken, List.head?_cons, Option.map_some, kept]
  intro c listed
  rcases List.mem_cons.mp listed with rfl | later
  · exact le_rfl
  · exact List.rel_of_pairwise_cons descending later

theorem mergeSort_descending (tokens : List (TokenProb α)) :
    Descending (tokens.mergeSort fun a b => decide (b.prob ≤ a.prob)) := by
  have sorted := @List.pairwise_mergeSort (TokenProb α) (fun a b => decide (b.prob ≤ a.prob))
    (fun a b c first second => by
      rw [decide_eq_true_eq] at first second ⊢
      exact second.trans first)
    (fun a b => by
      rw [Bool.or_eq_true, decide_eq_true_eq, decide_eq_true_eq]
      exact le_total _ _) tokens
  exact sorted.imp fun ordered => of_decide_eq_true ordered

theorem topTokens_ranked (ops : SamplerOps α) (cfg : SamplingConfig α) (probs : List α) :
    Ranked probs
      (if 0 < cfg.topK ∧ cfg.topK < probs.length then cfg.topK.toNat else probs.length)
      (topTokens ops cfg probs) := by
  unfold topTokens
  split
  · exact ranked_take (ops.partial_perm _ _) (by omega) (ops.partial_descending _ _)
      (ops.partial_first _ _)
  · have perm := ops.sort_perm (tokens probs)
    have all : (ops.sort (tokens probs)).take probs.length = ops.sort (tokens probs) :=
      List.take_of_length_le (by rw [perm.length_eq, tokens_length])
    have ranked := ranked_take perm le_rfl
      (by rw [all]; exact ops.sort_descending _) fun a _ b dropped => by
        rw [List.drop_of_length_le (by rw [perm.length_eq, tokens_length])] at dropped
        cases dropped
    rwa [all] at ranked

end Order

variable {α : Type} [Field α] [LinearOrder α]

/-- The shortest prefix whose probabilities add up to `topP`, or all if none does. -/
structure Nucleus (topP : α) (ranked kept : List (TokenProb α)) : Prop where
  isPrefix : kept <+: ranked
  reaches : topP ≤ (kept.map TokenProb.prob).sum ∨ kept = ranked
  shortest : ∀ shorter, shorter <+: ranked → shorter.length < kept.length →
    (shorter.map TokenProb.prob).sum < topP

structure CandidateSet (cfg : SamplingConfig α) (probs : List α)
    (candidates : List (TokenProb α)) : Prop where
  nonempty : candidates ≠ []
  filtered : ∃ ranked, Ranked probs
      (if 0 < cfg.topK ∧ cfg.topK < probs.length then cfg.topK.toNat else probs.length) ranked ∧
    if 0 < cfg.topP ∧ cfg.topP < 1 then Nucleus cfg.topP ranked candidates
    else candidates = ranked
  dominates : ∀ c ∈ candidates, ∀ other, Token probs other →
    other.id ∉ candidates.map TokenProb.id → other.prob ≤ c.prob

/-! Top-p. -/

/-- The loop up to the cutoff, from a sum that does not reach `topP` yet. -/
theorem cutoff_spec {topP cumsum : α} (short : cumsum < topP) (ranked : List (TokenProb α)) :
    (topP ≤ cumsum + ((ranked.take (cutoff topP cumsum ranked)).map TokenProb.prob).sum ∨
        ranked.length ≤ cutoff topP cumsum ranked) ∧
      ∀ shorter, shorter <+: ranked → shorter.length < cutoff topP cumsum ranked →
        cumsum + (shorter.map TokenProb.prob).sum < topP := by
  induction ranked generalizing cumsum with
  | nil => exact ⟨Or.inr (Nat.le_refl _), fun shorter _ none => absurd none (Nat.not_lt_zero _)⟩
  | cons c rest ih =>
      rw [cutoff]
      split
      · rename_i reached
        refine ⟨Or.inl (by simpa using reached), fun shorter _ none => ?_⟩
        rw [List.length_eq_zero_iff.mp (Nat.lt_one_iff.mp none)]
        simpa using short
      · rename_i below
        obtain ⟨reaches, shortest⟩ := ih (not_le.mp below)
        refine ⟨?_, fun shorter start less => ?_⟩
        · rw [List.take_succ_cons, List.map_cons, List.sum_cons, ← add_assoc, List.length_cons]
          exact reaches.imp id Nat.succ_le_succ
        · cases shorter with
          | nil => simpa using short
          | cons first others =>
              obtain ⟨rfl, front⟩ := List.cons_prefix_cons.mp start
              rw [List.map_cons, List.sum_cons, ← add_assoc]
              exact shortest others front (Nat.lt_of_succ_lt_succ less)

theorem cutoff_pos {topP cumsum : α} {ranked : List (TokenProb α)} (some : ranked ≠ []) :
    0 < cutoff topP cumsum ranked := by
  cases ranked with
  | nil => exact absurd rfl some
  | cons c rest =>
      rw [cutoff]
      split <;> exact Nat.succ_pos _

theorem nucleus_take {topP : α} (positive : 0 < topP) (ranked : List (TokenProb α)) :
    Nucleus topP ranked (ranked.take (cutoff topP 0 ranked)) := by
  obtain ⟨reaches, shortest⟩ := cutoff_spec positive ranked
  simp only [zero_add] at reaches shortest
  refine ⟨List.take_prefix _ _, reaches.imp id List.take_of_length_le, fun shorter start less => ?_⟩
  refine shortest shorter start (less.trans_le ?_)
  rw [List.length_take]
  exact Nat.min_le_left _ _

theorem nucleus_candidates {cfg : SamplingConfig α} {probs : List α} (some : probs ≠ [])
    {ranked : List (TokenProb α)} (order : Ranked probs
      (if 0 < cfg.topK ∧ cfg.topK < probs.length then cfg.topK.toNat else probs.length) ranked) :
    CandidateSet cfg probs (nucleus cfg ranked) := by
  have positive := List.length_pos_of_ne_nil some
  have kept : ranked ≠ [] := by
    rw [← List.length_pos_iff, order.size]
    split <;> omega
  unfold nucleus
  by_cases filter : 0 < cfg.topP ∧ cfg.topP < 1
  · rw [if_pos filter]
    have cut := nucleus_take filter.1 ranked
    have front : 0 < (ranked.take (cutoff cfg.topP 0 ranked)).length := by
      rw [List.length_take]
      exact lt_min (cutoff_pos kept) (List.length_pos_of_ne_nil kept)
    exact ⟨List.length_pos_iff.mp front, ⟨ranked, order, by rwa [if_pos filter]⟩,
      fun c listed other token outside => order.dominates cut.isPrefix listed token outside⟩
  · rw [if_neg filter]
    exact ⟨kept, ⟨ranked, order, by rw [if_neg filter]⟩,
      fun c listed other token outside => order.most c listed other token outside⟩

/-! The choice. -/

theorem renormalize_ids (candidates : List (TokenProb α)) :
    (renormalize candidates).map TokenProb.id = candidates.map TokenProb.id := by
  unfold renormalize
  dsimp only
  split <;> rw [List.map_map] <;> rfl

theorem walk_mem {r cumsum : α} {candidates : List (TokenProb α)} {id : Int}
    (found : walk r cumsum candidates = some id) : id ∈ candidates.map TokenProb.id := by
  induction candidates generalizing cumsum with
  | nil => cases found
  | cons c rest ih =>
      rw [walk] at found
      split at found
      · rw [← Option.some.inj found]
        exact List.mem_cons_self
      · exact List.mem_cons_of_mem _ (ih found)

/-- The walk or the last candidate: one of them is returned. -/
theorem stochastic_mem (r : α) {candidates : List (TokenProb α)} (some : candidates ≠ []) :
    ∃ id ∈ candidates.map TokenProb.id, stochasticToken r candidates = .some id := by
  have ids := renormalize_ids candidates
  unfold stochasticToken
  dsimp only
  generalize renormalize candidates = renormalized at ids
  rw [← ids]
  cases found : walk r 0 renormalized with
  | some id => exact ⟨id, walk_mem found, rfl⟩
  | none =>
      have nonempty : renormalized ≠ [] := by
        rintro rfl
        exact some (List.map_eq_nil_iff.mp ids.symm)
      rw [List.getLast?_eq_some_getLast nonempty]
      exact ⟨_, List.mem_map_of_mem (List.getLast_mem nonempty), rfl⟩

theorem penaltyStep_length (penalty : α) (probs : List α) (id : Int) :
    (penaltyStep penalty probs id).length = probs.length := by
  unfold penaltyStep
  split
  · split <;> exact List.length_set
  · rfl

theorem applyPenalty_length (cfg : SamplingConfig α) (inputIds : List Int) (probs : List α) :
    (applyPenalty cfg inputIds probs).length = probs.length := by
  unfold applyPenalty
  split
  · refine List.foldlRecOn (motive := fun after : List α => after.length = probs.length) _ _ rfl ?_
    intro after same id _
    rw [penaltyStep_length, same]
  · rfl

theorem probabilities_length (ops : SamplerOps α) (cfg : SamplingConfig α) (inputIds : List Int)
    (logits : List α) : (probabilities ops cfg inputIds logits).length = logits.length := by
  have scaled : (applyTemperature cfg (applyPenalty cfg inputIds logits)).length =
      logits.length := by
    unfold applyTemperature
    split
    · rw [List.length_map, applyPenalty_length]
    · exact applyPenalty_length cfg inputIds logits
  rw [probabilities, softmax, ← scaled]
  dsimp only
  split
  · exact List.length_map _
  · split
    · exact List.length_map _
    · rw [List.length_map, List.length_map]

/-- The token returned is one of the candidates that the top-k and the nucleus leave, in greedy mode
a most probable one of all. -/
theorem sample_candidates (ops : SamplerOps α) (logits : Nat → α) (vocabSize : Int)
    (cfg : SamplingConfig α) (inputIds : List Int) (r : α) (positive : 1 ≤ vocabSize) :
    ∃ probs candidates,
      probs = probabilities ops cfg inputIds ((List.range vocabSize.toNat).map logits) ∧
      candidates = nucleus cfg (topTokens ops cfg probs) ∧
      (probs.length : Int) = vocabSize ∧ CandidateSet cfg probs candidates ∧
      ∃ c ∈ candidates, sample ops (some logits) vocabSize cfg inputIds r = some c.id ∧
        (cfg.greedy = true → ∀ p ∈ probs, p ≤ c.prob) := by
  have length := probabilities_length ops cfg inputIds ((List.range vocabSize.toNat).map logits)
  rw [List.length_map, List.length_range] at length
  simp only [sample, if_neg (show ¬ vocabSize ≤ 0 by omega)]
  generalize probabilities ops cfg inputIds ((List.range vocabSize.toNat).map logits) = probs at *
  have some : probs ≠ [] := by
    rw [← List.length_pos_iff]
    omega
  have order := topTokens_ranked ops cfg probs
  have set := nucleus_candidates some order
  refine ⟨probs, nucleus cfg (topTokens ops cfg probs), rfl, rfl, by omega, set, ?_⟩
  have descending : Descending (nucleus cfg (topTokens ops cfg probs)) := by
    unfold nucleus
    split
    · exact order.descending.sublist (List.take_sublist _ _)
    · exact order.descending
  have named : ∀ c ∈ nucleus cfg (topTokens ops cfg probs), Token probs c := by
    obtain ⟨ranked, rank, cut⟩ := set.filtered
    split at cut
    · exact fun c listed => rank.tokens c (cut.isPrefix.subset listed)
    · rw [cut]
      exact rank.tokens
  generalize nucleus cfg (topTokens ops cfg probs) = candidates at *
  cases cfg.greedy with
  | true =>
      obtain ⟨first, rest, rfl⟩ := List.exists_cons_of_ne_nil set.nonempty
      refine ⟨first, List.mem_cons_self, greedy_first descending, fun _ p listed => ?_⟩
      obtain ⟨i, found⟩ := List.mem_iff_getElem?.mp listed
      have token : Token probs ⟨(i : Int), p⟩ := ⟨i, rfl, found⟩
      by_cases inside : (i : Int) ∈ (first :: rest).map TokenProb.id
      · obtain ⟨c, member, same⟩ := List.mem_map.mp inside
        have prob : p = c.prob := token.unique (named c member) same.symm
        rw [prob]
        rcases List.mem_cons.mp member with rfl | later
        · exact le_rfl
        · exact List.rel_of_pairwise_cons descending later
      · exact set.dominates first List.mem_cons_self _ token inside
  | false =>
      obtain ⟨id, listed, chosen⟩ := stochastic_mem r set.nonempty
      obtain ⟨c, member, rfl⟩ := List.mem_map.mp listed
      exact ⟨c, member, chosen, fun greedy => by cases greedy⟩

/-- Sorting by `List.mergeSort`, for logits that are all equal. -/
def flatOps : SamplerOps ℚ where
  exp _ := 1
  isfinite _ := true
  sort tokens := tokens.mergeSort fun a b => decide (b.prob ≤ a.prob)
  partialSort _ tokens := tokens.mergeSort fun a b => decide (b.prob ≤ a.prob)
  sort_perm _ := List.mergeSort_perm _ _
  sort_descending := mergeSort_descending
  partial_perm _ _ := List.mergeSort_perm _ _
  partial_descending middle tokens :=
    (mergeSort_descending tokens).sublist (List.take_sublist middle _)
  partial_first middle tokens a front b back := by
    have ordered := mergeSort_descending tokens
    rw [Descending, ← List.take_append_drop middle (List.mergeSort tokens _)] at ordered
    exact (List.pairwise_append.mp ordered).2.2 a front b back

def flatConfig : SamplingConfig ℚ where
  greedy := false
  topK := 1
  topP := 1 / 2
  temperature := 2
  repetitionPenalty := 2

theorem sample_candidates_flat :
    ∃ candidates, CandidateSet flatConfig [1 / 2, 1 / 2] candidates ∧
      ∃ c ∈ candidates, sample flatOps (some fun _ => 0) 2 flatConfig [0] (1 / 2) = some c.id := by
  obtain ⟨probs, candidates, same, -, -, set, c, listed, chosen, -⟩ :=
    sample_candidates flatOps (fun _ => 0) 2 flatConfig [0] (1 / 2) (by decide)
  have half : probs = [1 / 2, 1 / 2] := same.trans (by decide +kernel)
  exact ⟨candidates, half ▸ set, c, listed, chosen⟩

end Sampler

end MiniLLM
