import MiniLLM.DecoderGraph

/-!
Every layer of a decoder has its attention node: the builder only adds nodes, and each
round of the layer loop adds the attention node of its layer.
-/

namespace MiniLLM

namespace GraphBuilder

variable {α A B : Type}

/-- `m` keeps the nodes of the graph, whatever it returns. -/
def Kept (m : GraphBuilder α A) : Prop := ∀ graph : Graph α, graph.nodes <+: (m graph).2.nodes

/-- Where `m` succeeds the graph has an attention node of the layer. -/
def Attends (layer : Nat) (m : GraphBuilder α A) : Prop :=
  ∀ graph : Graph α, Yields m graph
    (fun _ after => ∃ node ∈ after.nodes, node.opType = .attention ∧
      node.attrInt "layer_idx" 0 = layer)
    fun _ => True

section Rules

variable {m : GraphBuilder α A} {f : A → GraphBuilder α B} {layer : Nat}

theorem kept_of_nodes (same : ∀ graph, (m graph).2.nodes = graph.nodes) : Kept m :=
  fun graph => by rw [same graph]

theorem kept_pure {a : A} : Kept (pure a : GraphBuilder α A) := kept_of_nodes fun _ => rfl

theorem kept_check {result : Except Failure A} : Kept (check result : GraphBuilder α A) :=
  kept_of_nodes fun _ => rfl

theorem kept_getValue {id : Nat} : Kept (getValue id : GraphBuilder α Value) :=
  kept_of_nodes fun graph => by
    unfold getValue
    split <;> rfl

theorem kept_addValue {value : Value} : Kept (addValue value : GraphBuilder α Nat) :=
  kept_of_nodes fun _ => rfl

theorem Kept.bind (first : Kept m) (next : ∀ a, Kept (f a)) : Kept (m >>= f) := by
  intro graph
  have step := first graph
  rw [bind_run]
  generalize m graph = result at step ⊢
  obtain ⟨failure | a, after⟩ := result
  · exact step
  · exact step.trans (next a after)

theorem kept_emit {op : OpType} {inputs : List Nat} {shape : Shape} {like : Value} {name : String}
    {attrs : List (String × AttributeValue α)} : Kept (emit op inputs shape like name attrs) := by
  intro graph
  rw [emit_run]
  exact List.prefix_append _ _

theorem Attends.bind (first : Attends layer m) (next : ∀ a, Kept (f a)) :
    Attends layer (m >>= f) := fun graph =>
  Yields.bind (first graph) fun a mid ⟨node, member, attends⟩ => by
    have kept := next a mid
    unfold Yields
    generalize f a mid = result at kept ⊢
    obtain ⟨_ | _, after⟩ := result
    · trivial
    · exact ⟨node, kept.subset member, attends⟩

theorem attends_after (next : ∀ a, Attends layer (f a)) : Attends layer (m >>= f) := fun graph =>
  Yields.bind (P := fun _ _ => True) (by unfold Yields; split <;> trivial) fun a mid _ => next a mid

end Rules

section Operations

theorem kept_linear {x weight : Nat} {name : String} :
    Kept (linear x weight none name : GraphBuilder α Nat) :=
  kept_getValue.bind fun _ => kept_getValue.bind fun _ => kept_check.bind fun _ =>
    kept_emit

theorem kept_add {a b : Nat} {name : String} : Kept (add a b name : GraphBuilder α Nat) :=
  kept_getValue.bind fun _ => kept_getValue.bind fun _ => kept_check.bind fun _ =>
    kept_emit

theorem kept_rmsNorm {x weight : Nat} {eps : α} {name : String} : Kept (rmsNorm x weight eps name) :=
  kept_getValue.bind fun _ => kept_check.bind fun _ => kept_emit

theorem kept_swiglu {gate up : Nat} {name : String} :
    Kept (swiglu gate up name : GraphBuilder α Nat) :=
  kept_getValue.bind fun _ => kept_getValue.bind fun _ => kept_check.bind fun _ =>
    kept_emit

theorem kept_qkNorm {x weight : Nat} {eps : α} {numHeads headDim : Int} {name : String} :
    Kept (qkNorm x weight eps numHeads headDim name) :=
  kept_getValue.bind fun _ => kept_getValue.bind fun _ => kept_check.bind fun _ => kept_emit

theorem kept_rope {x : Nat} {numHeads headDim : Int} {ropeBase : α} {name : String} :
    Kept (rope x numHeads headDim ropeBase name) :=
  kept_getValue.bind fun _ => kept_check.bind fun _ => kept_emit

theorem kept_attention {q k v : Nat} {causal : Bool} {numHeads numKvHeads headDim layer : Int}
    {name : String} :
    Kept (attention q k v causal numHeads numKvHeads headDim layer name : GraphBuilder α Nat) :=
  kept_getValue.bind fun _ => kept_getValue.bind fun _ => kept_getValue.bind fun _ => kept_emit

theorem kept_output {x : Nat} : Kept (output x : GraphBuilder α Nat) :=
  kept_getValue.bind fun _ => kept_of_nodes fun _ => rfl

/-- The attention operation adds the node of its layer. -/
theorem attends_attention {q k v : Nat} {causal : Bool} {numHeads numKvHeads headDim : Int}
    {layer : Nat} {name : String} :
    Attends layer
      (attention q k v causal numHeads numKvHeads headDim layer name : GraphBuilder α Nat) :=
  attends_after fun _ => attends_after fun _ => attends_after fun _ => fun graph => by
    unfold Yields
    rw [emit_run]
    exact ⟨_, List.mem_append_right _ (List.mem_singleton.mpr rfl), rfl, rfl⟩

end Operations

end GraphBuilder

namespace TransformerGraphBuilder

open GraphBuilder

variable {α : Type} {cfg : TransformerConfig α}

theorem kept_weight {name : String} {dims : List Int} : Kept (weight cfg name dims) :=
  kept_check.bind fun _ => kept_addValue

theorem kept_qkNormWeights {label : String} : Kept (qkNormWeights cfg label) := by
  unfold qkNormWeights
  split
  · exact kept_weight.bind fun _ => kept_weight.bind fun _ => kept_pure
  · exact kept_pure

theorem kept_layerWeights {label : String} : Kept (layerWeights cfg label) := by
  iterate 5 refine kept_weight.bind fun _ => ?_
  refine kept_qkNormWeights.bind fun _ => ?_
  iterate 4 refine kept_weight.bind fun _ => ?_
  exact kept_pure

theorem kept_normedHeads {label : String} {w : LayerWeights} {q k : Nat} :
    Kept (normedHeads cfg label w q k) := by
  unfold normedHeads
  split
  · exact kept_qkNorm.bind fun _ => kept_qkNorm.bind fun _ => kept_pure
  · exact kept_pure

theorem kept_attentionBlock {label : String} {layer : Int} {w : LayerWeights} {hidden : Nat} :
    Kept (attentionBlock cfg label layer w hidden) :=
  kept_rmsNorm.bind fun _ => kept_linear.bind fun _ => kept_linear.bind fun _ =>
    kept_linear.bind fun _ => kept_normedHeads.bind fun _ => kept_rope.bind fun _ =>
    kept_rope.bind fun _ => kept_attention.bind fun _ => kept_linear.bind fun _ => kept_add

theorem kept_ffnBlock {label : String} {w : LayerWeights} {hidden : Nat} :
    Kept (ffnBlock cfg label w hidden) :=
  kept_rmsNorm.bind fun _ => kept_linear.bind fun _ => kept_linear.bind fun _ =>
    kept_swiglu.bind fun _ => kept_linear.bind fun _ => kept_add

theorem kept_transformerLayer {layer hidden : Nat} : Kept (transformerLayer cfg layer hidden) :=
  kept_layerWeights.bind fun _ => kept_attentionBlock.bind fun _ => kept_ffnBlock

theorem kept_transformerLayers {count first hidden : Nat} :
    Kept (transformerLayers cfg count first hidden) := by
  induction count generalizing first hidden with
  | zero => exact kept_pure
  | succ count ih => exact kept_transformerLayer.bind fun _ => ih

theorem attends_attentionBlock {label : String} {layer : Nat} {w : LayerWeights} {hidden : Nat} :
    Attends layer (attentionBlock cfg label layer w hidden) := by
  unfold attentionBlock
  iterate 7 refine attends_after fun _ => ?_
  exact attends_attention.bind fun _ => kept_linear.bind fun _ => kept_add

theorem attends_transformerLayer {layer hidden : Nat} :
    Attends layer (transformerLayer cfg layer hidden) :=
  attends_after fun _ => attends_attentionBlock.bind fun _ => kept_ffnBlock

theorem attends_transformerLayers {count first layer hidden : Nat} (low : first ≤ layer)
    (high : layer < first + count) : Attends layer (transformerLayers cfg count first hidden) := by
  induction count generalizing first hidden with
  | zero => omega
  | succ count ih =>
      by_cases here : layer = first
      · subst here
        exact attends_transformerLayer.bind fun _ => kept_transformerLayers
      · exact attends_after fun _ => ih (by omega) (by omega)

theorem attends_buildTransformer {layer : Nat} (high : layer < cfg.numLayers.toNat) :
    Attends layer (buildTransformer cfg) := by
  unfold buildTransformer
  iterate 5 refine attends_after fun _ => ?_
  exact (attends_transformerLayers (Nat.zero_le _) (by omega)).bind fun _ =>
    kept_weight.bind fun _ => kept_rmsNorm.bind fun _ => kept_linear.bind fun _ => kept_output

end TransformerGraphBuilder

end MiniLLM
