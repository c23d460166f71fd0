import MiniLLM.GraphBuilder

/-!
`build_transformer` of model/transformer_graph_builder.cpp: the body of its layer
loop is split into its weights, its attention block and its feed-forward block.
Products of the configuration are `int64` products.
-/

namespace MiniLLM

structure TransformerConfig (Num : Type) where
  batchSize : Int := 1
  seqLen : Int := -1
  vocabSize : Int := 32000
  hiddenSize : Int := 768
  intermediateSize : Int := 2048
  numLayers : Int := 1
  numHeads : Int := 12
  numKvHeads : Int := 12
  headDim : Int := 64
  rmsNormEps : Num
  ropeBase : Num
  useQkNorm : Bool := false
  dtype : DType := .float32
  device : Device := {}

namespace TransformerGraphBuilder

open GraphBuilder

variable {Num : Type} (cfg : TransformerConfig Num)

def qHidden : Int := wrap64 (cfg.numHeads * cfg.headDim)
def kvHidden : Int := wrap64 (cfg.numKvHeads * cfg.headDim)

/-- A constant of the configuration's dtype and device. -/
def weight (name : String) (dims : List Int) : GraphBuilder Num Nat := do
  let shape ← check (Shape.make dims)
  constant name shape cfg.dtype cfg.device

structure LayerWeights where
  attnNorm : Nat
  qProj : Nat
  kProj : Nat
  vProj : Nat
  oProj : Nat
  qkNorm : Option (Nat × Nat)
  ffnNorm : Nat
  gateProj : Nat
  upProj : Nat
  downProj : Nat

def qkNormWeights (label : String) : GraphBuilder Num (Option (Nat × Nat)) :=
  if cfg.useQkNorm then do
    let qn ← weight cfg (label ++ "q_norm.weight") [cfg.headDim]
    let kn ← weight cfg (label ++ "k_norm.weight") [cfg.headDim]
    return some (qn, kn)
  else return none

def layerWeights (label : String) : GraphBuilder Num LayerWeights := do
  let attnNorm ← weight cfg (label ++ "attn_norm.weight") [cfg.hiddenSize]
  let qProj ← weight cfg (label ++ "q_proj.weight") [qHidden cfg, cfg.hiddenSize]
  let kProj ← weight cfg (label ++ "k_proj.weight") [kvHidden cfg, cfg.hiddenSize]
  let vProj ← weight cfg (label ++ "v_proj.weight") [kvHidden cfg, cfg.hiddenSize]
  let oProj ← weight cfg (label ++ "o_proj.weight") [cfg.hiddenSize, qHidden cfg]
  let qkNorm ← qkNormWeights cfg label
  let ffnNorm ← weight cfg (label ++ "ffn_norm.weight") [cfg.hiddenSize]
  let gateProj ← weight cfg (label ++ "gate_proj.weight") [cfg.intermediateSize, cfg.hiddenSize]
  let upProj ← weight cfg (label ++ "up_proj.weight") [cfg.intermediateSize, cfg.hiddenSize]
  let downProj ← weight cfg (label ++ "down_proj.weight") [cfg.hiddenSize, cfg.intermediateSize]
  return {
    attnNorm := attnNorm, qProj := qProj, kProj := kProj, vProj := vProj, oProj := oProj
    qkNorm := qkNorm, ffnNorm := ffnNorm, gateProj := gateProj, upProj := upProj
    downProj := downProj }

/-- The norms of Q and K, where the layer has weights for them. -/
def normedHeads (label : String) (w : LayerWeights) (q k : Nat) : GraphBuilder Num (Nat × Nat) :=
  match w.qkNorm with
  | some (qNorm, kNorm) => do
      let q ← qkNorm q qNorm cfg.rmsNormEps cfg.numHeads cfg.headDim (label ++ "q_norm")
      let k ← qkNorm k kNorm cfg.rmsNormEps cfg.numKvHeads cfg.headDim (label ++ "k_norm")
      return (q, k)
  | none => return (q, k)

def attentionBlock (label : String) (layer : Int) (w : LayerWeights) (hidden : Nat) :
    GraphBuilder Num Nat := do
  let normed ← rmsNorm hidden w.attnNorm cfg.rmsNormEps (label ++ "attn_norm")
  let q ← linear normed w.qProj none (label ++ "q_proj")
  let k ← linear normed w.kProj none (label ++ "k_proj")
  let v ← linear normed w.vProj none (label ++ "v_proj")
  let heads ← normedHeads cfg label w q k
  let qRope ← rope heads.1 cfg.numHeads cfg.headDim cfg.ropeBase (label ++ "rope_q")
  let kRope ← rope heads.2 cfg.numKvHeads cfg.headDim cfg.ropeBase (label ++ "rope_k")
  let attnOut ← attention qRope kRope v true cfg.numHeads cfg.numKvHeads cfg.headDim layer
    (label ++ "attention")
  let oProj ← linear attnOut w.oProj none (label ++ "o_proj")
  add oProj hidden (label ++ "residual_add_1")

def ffnBlock (label : String) (w : LayerWeights) (hidden : Nat) : GraphBuilder Num Nat := do
  let ffnNormed ← rmsNorm hidden w.ffnNorm cfg.rmsNormEps (label ++ "ffn_norm")
  let gate ← linear ffnNormed w.gateProj none (label ++ "gate_proj")
  let up ← linear ffnNormed w.upProj none (label ++ "up_proj")
  let swigluOut ← swiglu gate up (label ++ "swiglu")
  let down ← linear swigluOut w.downProj none (label ++ "down_proj")
  add down hidden (label ++ "residual_add_2")

def layerLabel (layer : Nat) : String := "layer_" ++ toString layer ++ "."

def transformerLayer (layer hidden : Nat) : GraphBuilder Num Nat := do
  let w ← layerWeights cfg (layerLabel layer)
  let hidden ← attentionBlock cfg (layerLabel layer) layer w hidden
  ffnBlock cfg (layerLabel layer) w hidden

/-- `count` layers from `layer` on. -/
def transformerLayers : Nat → Nat → Nat → GraphBuilder Num Nat
  | 0, _, hidden => return hidden
  | count + 1, layer, hidden => do
      let hidden ← transformerLayer cfg layer hidden
      transformerLayers count (layer + 1) hidden

def buildTransformer : GraphBuilder Num Nat := do
  let idsShape ← check (Shape.make [cfg.batchSize, cfg.seqLen])
  let inputIds ← input "input_ids" idsShape .int32 cfg.device
  let tokEmb ← weight cfg "tok_embeddings.weight" [cfg.vocabSize, cfg.hiddenSize]
  let lmHead ← weight cfg "lm_head.weight" [cfg.vocabSize, cfg.hiddenSize]
  let hidden ← embedding inputIds tokEmb "tok_embedding"
  let hidden ← transformerLayers cfg cfg.numLayers.toNat 0 hidden
  let finalNorm ← weight cfg "output_norm.weight" [cfg.hiddenSize]
  let finalNormed ← rmsNorm hidden finalNorm cfg.rmsNormEps "output_norm"
  let logits ← linear finalNormed lmHead none "lm_head"
  output logits

end TransformerGraphBuilder

end MiniLLM
