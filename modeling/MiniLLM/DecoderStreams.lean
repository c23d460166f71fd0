import MiniLLM.ElementKernels
import MiniLLM.AttentionRows
import MiniLLM.TransformerGraphBuilder

/-!
What a decoder-only transformer computes, apart from graphs, tensors and caches. A
stream gives every position its row. All parts work row by row, but for attention,
whose row at a position averages the rows up to it, so a row never depends on later
tokens.
-/

namespace MiniLLM

open Loops Cpu CpuKernelAdapter Softmax Finset

/-- The row of a value at each position. -/
abbrev RowStream (α : Type) := Nat → Buffer α

namespace RowStream

variable {α : Type} [Field α] (ops : FloatOps α)

def embedded (weight : Buffer α) (hidden : Nat) (tokens : Nat → Int) : RowStream α :=
  fun p j => weight ((tokens p).toNat * hidden + j)

def projected (weight : Buffer α) (inFeatures : Nat) (x : RowStream α) : RowStream α :=
  fun p j => ∑ k ∈ range inFeatures, x p k * weight (j * inFeatures + k)

def normed (gamma : Buffer α) (hidden : Nat) (eps : α) (x : RowStream α) : RowStream α :=
  fun p => normedRow ops gamma hidden eps (x p)

/-- Head `j / headDim` of a row. -/
def head (headDim j : Nat) (row : Buffer α) : Buffer α := fun d => row (j / headDim * headDim + d)

def headsNormed (gamma : Buffer α) (headDim : Nat) (eps : α) (x : RowStream α) : RowStream α :=
  fun p j => normedRow ops gamma headDim eps (head headDim j (x p)) (j % headDim)

def headsRotated (headDim : Nat) (base : α) (x : RowStream α) : RowStream α :=
  fun p j => rotated ops base headDim p (head headDim j (x p)) (j % headDim)

def attended (nh nkv hd : Nat) (q k v : RowStream α) : RowStream α :=
  fun p => attentionRow ops nh nkv hd (q p) k v (p + 1)

def gated (gate up : RowStream α) : RowStream α :=
  fun p j => gate p j / (1 + ops.exp (-gate p j)) * up p j

def summed (a b : RowStream α) : RowStream α := fun p j => a p j + b p j

section Rows

variable {ops} {x y a b : RowStream α} {p : Nat} {weight : Buffer α} {width : Nat} {c : α}

theorem projected_row (same : x p = y p) : projected weight width x p = projected weight width y p := by
  unfold projected
  rw [same]

theorem normed_row (same : x p = y p) :
    normed ops weight width c x p = normed ops weight width c y p := by
  unfold normed
  rw [same]

theorem headsNormed_row (same : x p = y p) :
    headsNormed ops weight width c x p = headsNormed ops weight width c y p := by
  unfold headsNormed
  rw [same]

theorem headsRotated_row (same : x p = y p) :
    headsRotated ops width c x p = headsRotated ops width c y p := by
  unfold headsRotated
  rw [same]

theorem gated_row (gate : a p = b p) (up : x p = y p) : gated ops a x p = gated ops b y p := by
  unfold gated
  rw [gate, up]

theorem summed_row (first : a p = b p) (second : x p = y p) : summed a x p = summed b y p := by
  unfold summed
  rw [first, second]

end Rows

end RowStream

/-- A decoder with its weights, by name, and the tokens it is run on. -/
structure Decoder (α : Type) where
  ops : FloatOps α
  vocab : Nat
  hidden : Nat
  intermediate : Nat
  numLayers : Nat
  nh : Nat
  nkv : Nat
  hd : Nat
  eps : α
  base : α
  useQkNorm : Bool
  weights : String → Buffer α
  tokens : Nat → Int

namespace Decoder

open MiniLLM.RowStream MiniLLM.TransformerGraphBuilder

variable {α : Type}

/-- The configuration for runs of `n` tokens. -/
def config (dec : Decoder α) (n : Nat) : TransformerConfig α :=
  { seqLen := n, vocabSize := dec.vocab, hiddenSize := dec.hidden
    intermediateSize := dec.intermediate, numLayers := dec.numLayers, numHeads := dec.nh
    numKvHeads := dec.nkv, headDim := dec.hd, rmsNormEps := dec.eps, ropeBase := dec.base
    useQkNorm := dec.useQkNorm }

variable [Field α] (dec : Decoder α)

section Layer

variable (label : String) (x : RowStream α)

def attnNormed : RowStream α :=
  normed dec.ops (dec.weights (label ++ "attn_norm.weight")) dec.hidden dec.eps x

def normedHeads (name : String) (x : RowStream α) : RowStream α :=
  if dec.useQkNorm then headsNormed dec.ops (dec.weights (label ++ name)) dec.hd dec.eps x else x

def queries : RowStream α :=
  headsRotated dec.ops dec.hd dec.base <| dec.normedHeads label "q_norm.weight" <|
    projected (dec.weights (label ++ "q_proj.weight")) dec.hidden (dec.attnNormed label x)

def keys : RowStream α :=
  headsRotated dec.ops dec.hd dec.base <| dec.normedHeads label "k_norm.weight" <|
    projected (dec.weights (label ++ "k_proj.weight")) dec.hidden (dec.attnNormed label x)

def values : RowStream α :=
  projected (dec.weights (label ++ "v_proj.weight")) dec.hidden (dec.attnNormed label x)

def attentionBlock : RowStream α :=
  summed (projected (dec.weights (label ++ "o_proj.weight")) (dec.nh * dec.hd)
    (attended dec.ops dec.nh dec.nkv dec.hd (dec.queries label x) (dec.keys label x)
      (dec.values label x))) x

def ffnNormed : RowStream α :=
  normed dec.ops (dec.weights (label ++ "ffn_norm.weight")) dec.hidden dec.eps x

def ffnBlock : RowStream α :=
  summed (projected (dec.weights (label ++ "down_proj.weight")) dec.intermediate
    (gated dec.ops
      (projected (dec.weights (label ++ "gate_proj.weight")) dec.hidden (dec.ffnNormed label x))
      (projected (dec.weights (label ++ "up_proj.weight")) dec.hidden (dec.ffnNormed label x)))) x

end Layer

/-- The hidden stream in front of layer `layer`. -/
def hiddenAt : Nat → RowStream α
  | 0 => embedded (dec.weights "tok_embeddings.weight") dec.hidden dec.tokens
  | layer + 1 =>
      dec.ffnBlock (layerLabel layer) (dec.attentionBlock (layerLabel layer) (hiddenAt layer))

def layerKeys (layer : Nat) : RowStream α := dec.keys (layerLabel layer) (dec.hiddenAt layer)

def layerValues (layer : Nat) : RowStream α := dec.values (layerLabel layer) (dec.hiddenAt layer)

def logits : RowStream α :=
  projected (dec.weights "lm_head.weight") dec.hidden
    (normed dec.ops (dec.weights "output_norm.weight") dec.hidden dec.eps
      (dec.hiddenAt dec.numLayers))

/-- The decoder on other tokens. -/
def reading (tokens : Nat → Int) : Decoder α := { dec with tokens := tokens }

section Causal

variable {label : String} {x y : RowStream α} {p : Nat}

theorem attnNormed_row (same : x p = y p) : dec.attnNormed label x p = dec.attnNormed label y p :=
  normed_row same

theorem normedHeads_row {name : String} (same : x p = y p) :
    dec.normedHeads label name x p = dec.normedHeads label name y p := by
  unfold normedHeads
  split
  · exact headsNormed_row same
  · exact same

theorem queries_row (same : x p = y p) : dec.queries label x p = dec.queries label y p :=
  headsRotated_row (dec.normedHeads_row (projected_row (dec.attnNormed_row same)))

theorem keys_row (same : x p = y p) : dec.keys label x p = dec.keys label y p :=
  headsRotated_row (dec.normedHeads_row (projected_row (dec.attnNormed_row same)))

theorem values_row (same : x p = y p) : dec.values label x p = dec.values label y p :=
  projected_row (dec.attnNormed_row same)

/-- Attention looks at its own position and back. -/
theorem attentionBlock_row (same : ∀ i ≤ p, x i = y i) :
    dec.attentionBlock label x p = dec.attentionBlock label y p := by
  have attends : attended dec.ops dec.nh dec.nkv dec.hd (dec.queries label x) (dec.keys label x)
        (dec.values label x) p =
      attended dec.ops dec.nh dec.nkv dec.hd (dec.queries label y) (dec.keys label y)
        (dec.values label y) p := by
    unfold attended
    funext j
    rw [attentionRow, attentionRow, dec.queries_row (same p le_rfl)]
    apply average_congr
    · intro i below
      simp only [dec.keys_row (same i (by omega))]
    · intro i below
      simp only [dec.values_row (same i (by omega))]
  exact summed_row (projected_row attends) (same p le_rfl)

theorem ffnBlock_row (same : x p = y p) : dec.ffnBlock label x p = dec.ffnBlock label y p := by
  have normed : dec.ffnNormed label x p = dec.ffnNormed label y p := normed_row same
  exact summed_row (projected_row (gated_row (projected_row normed) (projected_row normed))) same

variable {tokens others : Nat → Int}

/-- A row depends on the tokens up to its position. -/
theorem hiddenAt_causal (layer : Nat) (same : ∀ i ≤ p, tokens i = others i) :
    (dec.reading tokens).hiddenAt layer p = (dec.reading others).hiddenAt layer p := by
  induction layer generalizing p with
  | zero =>
      change embedded _ _ tokens p = embedded _ _ others p
      unfold embedded
      rw [same p le_rfl]
      rfl
  | succ layer ih =>
      exact dec.ffnBlock_row (dec.attentionBlock_row fun i below =>
        ih fun j earlier => same j (earlier.trans below))

theorem layerKeys_causal (layer : Nat) (same : ∀ i ≤ p, tokens i = others i) :
    (dec.reading tokens).layerKeys layer p = (dec.reading others).layerKeys layer p :=
  dec.keys_row (dec.hiddenAt_causal layer same)

theorem layerValues_causal (layer : Nat) (same : ∀ i ≤ p, tokens i = others i) :
    (dec.reading tokens).layerValues layer p = (dec.reading others).layerValues layer p :=
  dec.values_row (dec.hiddenAt_causal layer same)

theorem logits_causal (same : ∀ i ≤ p, tokens i = others i) :
    (dec.reading tokens).logits p = (dec.reading others).logits p :=
  projected_row (normed_row (dec.hiddenAt_causal dec.numLayers same))

end Causal

end Decoder

end MiniLLM
