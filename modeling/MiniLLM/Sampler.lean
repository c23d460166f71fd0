import MiniLLM.Loops
import Mathlib.Algebra.Field.Basic
import Mathlib.Algebra.Order.Ring.Rat
import Mathlib.Data.List.Nodup
import Mathlib.Data.List.Sort
import Mathlib.Order.Lattice

/-!
runtime/sampler.cpp over an exact ordered field. A vector is a list. The order
of equal probabilities is left to `std::sort` and `std::partial_sort`, of which
only their results' order is known; without a result the code would read the
first or last of no candidates.
-/

namespace MiniLLM

structure SamplingConfig (α : Type) where
  greedy : Bool
  topK : Int
  topP : α
  temperature : α
  repetitionPenalty : α

structure TokenProb (α : Type) where
  id : Int
  prob : α
  deriving DecidableEq, Repr

/-- `a.prob >= b.prob` all along. -/
def Descending {α : Type} [LE α] (tokens : List (TokenProb α)) : Prop :=
  tokens.Pairwise fun a b => b.prob ≤ a.prob

/-- What the sampler takes from <cmath> and <algorithm>. -/
structure SamplerOps (α : Type) [LinearOrder α] where
  exp : α → α
  isfinite : α → Bool
  sort : List (TokenProb α) → List (TokenProb α)
  partialSort : Nat → List (TokenProb α) → List (TokenProb α)
  sort_perm : ∀ tokens, (sort tokens).Perm tokens
  sort_descending : ∀ tokens, Descending (sort tokens)
  partial_perm : ∀ middle tokens, (partialSort middle tokens).Perm tokens
  partial_descending : ∀ middle tokens, Descending ((partialSort middle tokens).take middle)
  partial_first : ∀ middle tokens, ∀ a ∈ (partialSort middle tokens).take middle,
    ∀ b ∈ (partialSort middle tokens).drop middle, b.prob ≤ a.prob

namespace Sampler

variable {α : Type} [Field α] [LinearOrder α]

/-- One id of the history. -/
def penaltyStep (penalty : α) (probs : List α) (id : Int) : List α :=
  if 0 ≤ id ∧ id < probs.length then
    if 0 < probs.getD id.toNat 0 then
      probs.set id.toNat (probs.getD id.toNat 0 / penalty)
    else probs.set id.toNat (probs.getD id.toNat 0 * penalty)
  else probs

def applyPenalty (cfg : SamplingConfig α) (inputIds : List Int) (probs : List α) : List α :=
  if cfg.repetitionPenalty ≠ 1 ∧ inputIds ≠ [] then
    inputIds.foldl (penaltyStep cfg.repetitionPenalty) probs
  else probs

def applyTemperature (cfg : SamplingConfig α) (probs : List α) : List α :=
  if cfg.temperature ≠ 1 ∧ 0 < cfg.temperature then
    let invTemp := 1 / cfg.temperature
    probs.map (· * invTemp)
  else probs

/-- `*std::max_element` -/
def maxElement : List α → α
  | [] => 0
  | first :: rest => rest.foldl (fun largest p => if largest < p then p else largest) first

def softmax (ops : SamplerOps α) (probs : List α) : List α :=
  let uniform := probs.map fun _ => 1 / (probs.length : α)
  let maxVal := maxElement probs
  if !ops.isfinite maxVal then uniform
  else
    let expVals := probs.map fun p => ops.exp (p - maxVal)
    let sum := expVals.foldl (· + ·) 0
    if !ops.isfinite sum || sum ≤ 0 then uniform
    else
      let invSum := 1 / sum
      expVals.map (· * invSum)

/-- The candidates that the filter on `top_k` leaves, most probable first. -/
def topTokens (ops : SamplerOps α) (cfg : SamplingConfig α) (expVals : List α) :
    List (TokenProb α) :=
  let candidates := expVals.zipIdx.map fun (prob, i) => ⟨(i : Int), prob⟩
  if 0 < cfg.topK ∧ cfg.topK < expVals.length then
    (ops.partialSort cfg.topK.toNat candidates).take cfg.topK.toNat
  else ops.sort candidates

/-- How many candidates it takes for the sum, begun at `cumsum`, to reach `top_p`. -/
def cutoff (topP cumsum : α) : List (TokenProb α) → Nat
  | [] => 0
  | c :: rest =>
      if topP ≤ cumsum + c.prob then 1 else cutoff topP (cumsum + c.prob) rest + 1

def nucleus (cfg : SamplingConfig α) (candidates : List (TokenProb α)) : List (TokenProb α) :=
  if 0 < cfg.topP ∧ cfg.topP < 1 then candidates.take (cutoff cfg.topP 0 candidates)
  else candidates

def greedyToken (candidates : List (TokenProb α)) : Option Int :=
  candidates.head?.map fun first =>
    (candidates.foldl (fun best c => if best.prob < c.prob then c else best) first).id

def renormalize (candidates : List (TokenProb α)) : List (TokenProb α) :=
  let renormSum := candidates.foldl (fun sum c => sum + c.prob) 0
  if renormSum ≤ 0 then
    candidates.map fun c => { c with prob := 1 / (candidates.length : α) }
  else
    let invRenorm := 1 / renormSum
    candidates.map fun c => { c with prob := c.prob * invRenorm }

/-- The first candidate at which the running sum reaches the draw. -/
def walk (r cumsum : α) : List (TokenProb α) → Option Int
  | [] => none
  | c :: rest => if r ≤ cumsum + c.prob then some c.id else walk r (cumsum + c.prob) rest

/-- `r` is the draw of the uniform distribution. -/
def stochasticToken (r : α) (candidates : List (TokenProb α)) : Option Int :=
  let renormalized := renormalize candidates
  (walk r 0 renormalized).orElse fun _ => renormalized.getLast?.map TokenProb.id

/-- The probabilities of all tokens. -/
def probabilities (ops : SamplerOps α) (cfg : SamplingConfig α) (inputIds : List Int)
    (logits : List α) : List α :=
  softmax ops (applyTemperature cfg (applyPenalty cfg inputIds logits))

/-- `logits` is null or points to at least `vocab_size` floats. -/
def sample (ops : SamplerOps α) (logits : Option (Nat → α)) (vocabSize : Int)
    (cfg : SamplingConfig α) (inputIds : List Int) (r : α) : Option Int :=
  match logits with
  | none => some (-1)
  | some logits =>
      if vocabSize ≤ 0 then some (-1)
      else
        let expVals :=
          probabilities ops cfg inputIds ((List.range vocabSize.toNat).map logits)
        let candidates := nucleus cfg (topTokens ops cfg expVals)
        if cfg.greedy then greedyToken candidates else stochasticToken r candidates

end Sampler

end MiniLLM
