import MiniLLM.TransformerGraphBuilder

/-!
The names of the constants `build_transformer` makes, in the order it makes them.
-/

namespace MiniLLM

namespace GraphBuilder

variable {Num A B : Type}

def constantNames (graph : Graph Num) : List String :=
  (graph.values.filter fun value => value.kind = .constant).map Value.name

/-- A run makes the constants `names`, or the first of them before it fails. -/
def Creates (m : GraphBuilder Num A) (names : List String) : Prop :=
  ∀ graph, Yields m graph
    (fun _ after => constantNames after = constantNames graph ++ names)
    (fun after => ∃ made, made <+: names ∧ constantNames after = constantNames graph ++ made)

section Creates

theorem creates_pure (a : A) : Creates (pure a : GraphBuilder Num A) [] := by
  intro graph
  exact (List.append_nil _).symm

theorem Creates.bind {m : GraphBuilder Num A} {f : A → GraphBuilder Num B}
    {first second : List String} (head : Creates m first) (rest : ∀ a, Creates (f a) second) :
    Creates (m >>= f) (first ++ second) := by
  intro graph
  refine Yields.bind ((head graph).mono (fun _ _ made => made) ?_) fun a mid made => ?_
  · rintro after ⟨made, start, same⟩
    exact ⟨made, start.trans (List.prefix_append _ _), same⟩
  · refine (rest a mid).mono (fun b after same => ?_) ?_
    · rw [same, made, List.append_assoc]
    · rintro after ⟨more, start, same⟩
      refine ⟨first ++ more, List.prefix_append_right_inj _ |>.mpr start, ?_⟩
      rw [same, made, List.append_assoc]

/-- A step without constants in front of others. -/
theorem Creates.after {m : GraphBuilder Num A} {f : A → GraphBuilder Num B} {names : List String}
    (head : Creates m []) (rest : ∀ a, Creates (f a) names) : Creates (m >>= f) names :=
  head.bind rest

theorem creates_check {result : Except Failure A} : Creates (check result : GraphBuilder Num A) [] := by
  intro graph
  cases result with
  | ok a => exact (List.append_nil _).symm
  | error failure => exact ⟨[], List.prefix_rfl, (List.append_nil _).symm⟩

theorem creates_getValue {id : Nat} : Creates (getValue id : GraphBuilder Num Value) [] := by
  intro graph
  unfold Yields getValue
  cases graph.value id with
  | ok value => exact (List.append_nil _).symm
  | error st => exact ⟨[], List.prefix_rfl, (List.append_nil _).symm⟩

theorem creates_constant {name : String} {shape : Shape} {dtype : DType} {device : Device} :
    Creates (constant name shape dtype device : GraphBuilder Num Nat) [name] := by
  intro graph
  change constantNames _ = _
  simp [constantNames]

theorem creates_input {name : String} {shape : Shape} {dtype : DType} {device : Device} :
    Creates (input name shape dtype device : GraphBuilder Num Nat) [] := by
  intro graph
  change constantNames _ = _
  simp [constantNames]

theorem creates_emit {op : OpType} {inputs : List Nat} {shape : Shape} {like : Value} {name : String}
    {attrs : List (String × AttributeValue Num)} :
    Creates (emit op inputs shape like name attrs) [] := by
  intro graph
  unfold Yields
  rw [emit_run]
  simp [constantNames]

theorem creates_linear {x w : Nat} {name : String} :
    Creates (linear x w none name : GraphBuilder Num Nat) [] :=
  creates_getValue.after fun _ => creates_getValue.after fun _ =>
    creates_check.after fun _ => creates_emit

theorem creates_embedding {inputIds w : Nat} {name : String} :
    Creates (embedding inputIds w name : GraphBuilder Num Nat) [] :=
  creates_getValue.after fun _ => creates_getValue.after fun _ =>
    creates_check.after fun _ => creates_emit

theorem creates_add {a b : Nat} {name : String} :
    Creates (add a b name : GraphBuilder Num Nat) [] :=
  creates_getValue.after fun _ => creates_getValue.after fun _ =>
    creates_check.after fun _ => creates_emit

theorem creates_swiglu {gate up : Nat} {name : String} :
    Creates (swiglu gate up name : GraphBuilder Num Nat) [] :=
  creates_getValue.after fun _ => creates_getValue.after fun _ =>
    creates_check.after fun _ => creates_emit

theorem creates_rmsNorm {x w : Nat} {eps : Num} {name : String} :
    Creates (rmsNorm x w eps name) [] :=
  creates_getValue.after fun _ => creates_check.after fun _ => creates_emit

theorem creates_rope {x : Nat} {numHeads headDim : Int} {ropeBase : Num} {name : String} :
    Creates (rope x numHeads headDim ropeBase name) [] :=
  creates_getValue.after fun _ => creates_check.after fun _ => creates_emit

theorem creates_attention {q k v : Nat} {causal : Bool}
    {numHeads numKvHeads headDim layerIdx : Int} {name : String} :
    Creates (attention q k v causal numHeads numKvHeads headDim layerIdx name :
      GraphBuilder Num Nat) [] :=
  creates_getValue.after fun _ => creates_getValue.after fun _ =>
    creates_getValue.after fun _ => creates_emit

theorem creates_qkNorm {x w : Nat} {eps : Num} {numHeads headDim : Int} {name : String} :
    Creates (qkNorm x w eps numHeads headDim name) [] :=
  creates_getValue.after fun _ => creates_getValue.after fun _ =>
    creates_check.after fun _ => creates_emit

-- `output` takes the kind from a value that an operation has just made.
theorem creates_emit_output {op : OpType} {inputs : List Nat} {shape : Shape} {like : Value}
    {name : String} {attrs : List (String × AttributeValue Num)} :
    Creates (emit op inputs shape like name attrs >>= output) [] := by
  intro graph
  unfold Yields
  rw [bind_run, emit_run]
  simp [output, bind_run, getValue, Graph.value, modify_last, constantNames]

theorem creates_linear_output {x w : Nat} {name : String} :
    Creates ((linear x w none name >>= output) : GraphBuilder Num Nat) [] := by
  simp only [linear, bind_assoc]
  exact creates_getValue.after fun _ => creates_getValue.after fun _ =>
    creates_check.after fun _ => creates_emit_output

end Creates

end GraphBuilder

namespace TransformerGraphBuilder

open GraphBuilder

variable {Num : Type} (cfg : TransformerConfig Num)

/-- The constants of a layer without its label, in the order they are made. -/
def layerNames (useQkNorm : Bool) : List String :=
  ["attn_norm.weight", "q_proj.weight", "k_proj.weight", "v_proj.weight", "o_proj.weight"] ++
    (if useQkNorm then ["q_norm.weight", "k_norm.weight"] else []) ++
    ["ffn_norm.weight", "gate_proj.weight", "up_proj.weight", "down_proj.weight"]

def layersNames (count layer : Nat) : List String :=
  (List.range' layer count).flatMap fun i => (layerNames cfg.useQkNorm).map (layerLabel i ++ ·)

def modelNames : List String :=
  ["tok_embeddings.weight", "lm_head.weight"] ++ layersNames cfg cfg.numLayers.toNat 0 ++
    ["output_norm.weight"]

theorem creates_weight {name : String} {dims : List Int} :
    Creates (weight cfg name dims) [name] :=
  creates_check.after fun _ => creates_constant

theorem creates_qkNormWeights {label : String} :
    Creates (qkNormWeights cfg label)
      (if cfg.useQkNorm then [label ++ "q_norm.weight", label ++ "k_norm.weight"] else []) := by
  unfold qkNormWeights
  split
  · exact (creates_weight cfg).bind fun _ => (creates_weight cfg).bind fun _ =>
      creates_pure _
  · exact creates_pure _

theorem creates_layerWeights {label : String} :
    Creates (layerWeights cfg label) ((layerNames cfg.useQkNorm).map (label ++ ·)) := by
  have chain : Creates (layerWeights cfg label) ([_] ++ ([_] ++ ([_] ++ ([_] ++ ([_] ++ (_ ++
      ([_] ++ ([_] ++ ([_] ++ ([_] ++ [])))))))))) :=
    (creates_weight cfg).bind fun _ => (creates_weight cfg).bind fun _ =>
      (creates_weight cfg).bind fun _ => (creates_weight cfg).bind fun _ =>
      (creates_weight cfg).bind fun _ => (creates_qkNormWeights cfg).bind fun _ =>
      (creates_weight cfg).bind fun _ => (creates_weight cfg).bind fun _ =>
      (creates_weight cfg).bind fun _ => (creates_weight cfg).bind fun _ => creates_pure _
  convert chain using 1
  cases cfg.useQkNorm <;> rfl

theorem creates_normedHeads {label : String} {w : LayerWeights} {q k : Nat} :
    Creates (normedHeads cfg label w q k) [] := by
  unfold normedHeads
  cases w.qkNorm with
  | some norms =>
      exact creates_qkNorm.after fun _ => creates_qkNorm.after fun _ => creates_pure _
  | none => exact creates_pure _

theorem creates_attentionBlock {label : String} {layer : Int} {w : LayerWeights} {hidden : Nat} :
    Creates (attentionBlock cfg label layer w hidden) [] :=
  creates_rmsNorm.after fun _ => creates_linear.after fun _ =>
    creates_linear.after fun _ => creates_linear.after fun _ =>
    (creates_normedHeads cfg).after fun _ => creates_rope.after fun _ =>
    creates_rope.after fun _ => creates_attention.after fun _ =>
    creates_linear.after fun _ => creates_add

theorem creates_ffnBlock {label : String} {w : LayerWeights} {hidden : Nat} :
    Creates (ffnBlock cfg label w hidden) [] :=
  creates_rmsNorm.after fun _ => creates_linear.after fun _ =>
    creates_linear.after fun _ => creates_swiglu.after fun _ =>
    creates_linear.after fun _ => creates_add

theorem creates_transformerLayer {layer hidden : Nat} :
    Creates (transformerLayer cfg layer hidden)
      ((layerNames cfg.useQkNorm).map (layerLabel layer ++ ·)) := by
  rw [← List.append_nil (List.map ..)]
  exact (creates_layerWeights cfg).bind fun _ => (creates_attentionBlock cfg).after fun _ =>
    creates_ffnBlock cfg

theorem creates_transformerLayers {count layer hidden : Nat} :
    Creates (transformerLayers cfg count layer hidden) (layersNames cfg count layer) := by
  induction count generalizing layer hidden with
  | zero => exact creates_pure _
  | succ count ih =>
      exact (creates_transformerLayer cfg).bind fun _ => ih

theorem creates_buildTransformer : Creates (buildTransformer cfg) (modelNames cfg) := by
  have chain : Creates (buildTransformer cfg) ([_] ++ ([_] ++ (_ ++ ([_] ++ [])))) :=
    creates_check.after fun _ => creates_input.after fun _ =>
      (creates_weight cfg).bind fun _ => (creates_weight cfg).bind fun _ =>
      creates_embedding.after fun _ => (creates_transformerLayers cfg).bind fun _ =>
      (creates_weight cfg).bind fun _ => creates_rmsNorm.after fun _ => creates_linear_output
  convert chain using 1
  simp [modelNames]

end TransformerGraphBuilder

end MiniLLM
