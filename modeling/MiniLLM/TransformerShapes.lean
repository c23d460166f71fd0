import MiniLLM.GraphTyping
import MiniLLM.TransformerGraphBuilder

/-!
The graph of `build_transformer` for every well-formed configuration: the build
succeeds, and every node has the shapes its CPU kernel relies on.
-/

namespace MiniLLM

namespace ShapeInfer

theorem inferLinearShape_ok {x weight : Shape} {lead : List Int} {inFeatures outFeatures : Int}
    (xDims : x.dims = lead ++ [inFeatures]) (weightDims : weight.dims = [outFeatures, inFeatures]) :
    ∃ shape, inferLinearShape x weight = .ok shape ∧ shape.dims = lead ++ [outFeatures] := by
  have valid : ∀ d ∈ lead ++ [outFeatures], d = -1 ∨ 0 < d ∧ d < 9223372036854775808 := by
    intro d member
    rcases List.mem_append.mp member with old | new
    · exact x.valid d (by simp [xDims, old])
    · exact weight.valid d (by rw [List.mem_singleton] at new; simp [weightDims, new])
  refine ⟨⟨_, valid⟩, ?_, rfl⟩
  unfold inferLinearShape
  simp only [Shape.rank, xDims, weightDims]
  simp [Shape.make_ok valid]

theorem inferSameShape_ok {rankText dimText : String} {a b : Shape} (same : a.dims = b.dims) :
    inferSameShape rankText dimText a b = .ok a := by
  have noAxis : mismatchAxis a b = none := by
    rw [mismatchAxis, same, List.findIdx?_eq_none_iff]
    rintro ⟨da, db⟩ member
    have equal : da = db := by
      obtain ⟨i, found⟩ := List.mem_iff_getElem?.mp member
      rw [List.getElem?_zip_eq_some] at found
      exact Option.some.inj (found.1.symm.trans found.2)
    simp [equal]
  rw [inferSameShape, if_neg (by simp [Shape.rank, same]), noAxis]

theorem inferEmbeddingShape_ok {ids weight : Shape} {vocab hidden : Int} (rank : ids.dims ≠ [])
    (weightDims : weight.dims = [vocab, hidden]) :
    ∃ shape, inferEmbeddingShape ids weight = .ok shape ∧ shape.dims = ids.dims ++ [hidden] := by
  have valid : ∀ d ∈ ids.dims ++ [hidden], d = -1 ∨ 0 < d ∧ d < 9223372036854775808 := by
    intro d member
    rcases List.mem_append.mp member with old | new
    · exact ids.valid d old
    · exact weight.valid d (by rw [List.mem_singleton] at new; simp [weightDims, new])
  refine ⟨⟨_, valid⟩, ?_, rfl⟩
  have positive : ¬ ids.dims.length < 1 := by
    have := List.length_pos_of_ne_nil rank
    omega
  unfold inferEmbeddingShape
  simp [Shape.rank, weightDims, positive, Shape.make_ok valid]

end ShapeInfer

namespace GraphBuilder

open MiniLLM.Graph ShapeInfer

variable {Num : Type} {context : List (Nat × List Int)} {name : String}

theorem typed_embedding {ids weight : Nat} (lead : List Int) (vocab hidden : Int) (rank : lead ≠ [])
    (idsShape : (ids, lead) ∈ context) (weightShape : (weight, [vocab, hidden]) ∈ context) :
    Typed context (embedding ids weight name : GraphBuilder Num Nat)
      fun out => [(out, lead ++ [hidden])] := by
  refine typed_getValue idsShape fun iv ivDims => typed_getValue weightShape fun wv wvDims => ?_
  obtain ⟨shape, passes, dims⟩ := inferEmbeddingShape_ok (by rwa [ivDims]) wvDims
  refine typed_check passes ?_
  rw [ivDims] at dims
  rw [← dims]
  refine typed_emit ?_ fun graph out held made => ?_
  · simpa using ⟨⟨_, idsShape⟩, ⟨_, weightShape⟩⟩
  · exact .embedding rfl rfl rfl rank (held _ idsShape) (held _ weightShape) (dims ▸ made)

theorem typed_linear {x weight : Nat} (lead : List Int) (inFeatures outFeatures : Int)
    (xShape : (x, lead ++ [inFeatures]) ∈ context)
    (weightShape : (weight, [outFeatures, inFeatures]) ∈ context) :
    Typed context (linear x weight none name : GraphBuilder Num Nat)
      fun out => [(out, lead ++ [outFeatures])] := by
  refine typed_getValue xShape fun xv xvDims => typed_getValue weightShape fun wv wvDims => ?_
  obtain ⟨shape, passes, dims⟩ := inferLinearShape_ok xvDims wvDims
  refine typed_check passes ?_
  rw [← dims]
  refine typed_emit ?_ fun graph out held made => ?_
  · simpa using ⟨⟨_, xShape⟩, ⟨_, weightShape⟩⟩
  · exact .linear rfl rfl rfl (held _ xShape) (held _ weightShape) (dims ▸ made)

theorem typed_add {a b : Nat} (dims : List Int) (aShape : (a, dims) ∈ context)
    (bShape : (b, dims) ∈ context) :
    Typed context (add a b name : GraphBuilder Num Nat) fun out => [(out, dims)] := by
  refine typed_getValue aShape fun av avDims => typed_getValue bShape fun bv bvDims => ?_
  refine typed_check (inferSameShape_ok (avDims.trans bvDims.symm)) ?_
  rw [← avDims]
  refine typed_emit ?_ fun graph out held made => ?_
  · simpa using ⟨⟨_, aShape⟩, ⟨_, bShape⟩⟩
  · exact .add rfl rfl rfl (held _ aShape) (held _ bShape) (avDims ▸ made)

theorem typed_swiglu {gate up : Nat} (dims : List Int) (gateShape : (gate, dims) ∈ context)
    (upShape : (up, dims) ∈ context) :
    Typed context (swiglu gate up name : GraphBuilder Num Nat) fun out => [(out, dims)] := by
  refine typed_getValue gateShape fun gv gvDims => typed_getValue upShape fun uv uvDims => ?_
  refine typed_check (inferSameShape_ok (gvDims.trans uvDims.symm)) ?_
  rw [← gvDims]
  refine typed_emit ?_ fun graph out held made => ?_
  · simpa using ⟨⟨_, gateShape⟩, ⟨_, upShape⟩⟩
  · exact .swiGLU rfl rfl rfl (held _ gateShape) (held _ upShape) (gvDims ▸ made)

theorem typed_rmsNorm {x gamma : Nat} {eps : Num} (lead : List Int) (hidden : Int)
    (xShape : (x, lead ++ [hidden]) ∈ context) (gammaShape : (gamma, [hidden]) ∈ context) :
    Typed context (rmsNorm x gamma eps name) fun out => [(out, lead ++ [hidden])] := by
  refine typed_getValue xShape fun xv xvDims => typed_check rfl ?_
  rw [← xvDims]
  refine typed_emit ?_ fun graph out held made => ?_
  · simpa using ⟨⟨_, xShape⟩, ⟨_, gammaShape⟩⟩
  · exact .rmsNorm rfl rfl rfl (held _ xShape) (held _ gammaShape) (xvDims ▸ made)

theorem typed_qkNorm {x gamma : Nat} {eps : Num} {lead : List Int} {numHeads headDim : Int}
    (positive : 0 < numHeads ∧ 0 < headDim) (xShape : (x, lead ++ [numHeads * headDim]) ∈ context)
    (gammaShape : (gamma, [headDim]) ∈ context) :
    Typed context (qkNorm x gamma eps numHeads headDim name)
      fun out => [(out, lead ++ [numHeads * headDim])] := by
  refine typed_getValue xShape fun xv xvDims => typed_getValue gammaShape fun _ _ =>
    typed_check rfl ?_
  rw [← xvDims]
  refine typed_emit ?_ fun graph out held made => ?_
  · simpa using ⟨⟨_, xShape⟩, ⟨_, gammaShape⟩⟩
  · exact .qkNorm rfl rfl rfl rfl rfl positive (held _ xShape) (held _ gammaShape) (xvDims ▸ made)

theorem typed_rope {x : Nat} {ropeBase : Num} (lead : List Int) {numHeads headDim : Int}
    (positive : 0 < numHeads ∧ 0 < headDim)
    (xShape : (x, lead ++ [numHeads * headDim]) ∈ context) :
    Typed context (rope x numHeads headDim ropeBase name)
      fun out => [(out, lead ++ [numHeads * headDim])] := by
  refine typed_getValue xShape fun xv xvDims => typed_check rfl ?_
  rw [← xvDims]
  refine typed_emit ?_ fun graph out held made => ?_
  · simpa using ⟨_, xShape⟩
  · exact .roPE rfl rfl rfl rfl rfl positive (held _ xShape) (xvDims ▸ made)

theorem typed_attention {q k v : Nat} {causal : Bool} {layerIdx : Int}
    (batch seqLen : Int) {numHeads numKvHeads headDim : Int}
    (positive : 0 < numHeads ∧ 0 < numKvHeads ∧ 0 < headDim) (grouped : numHeads % numKvHeads = 0)
    (qShape : (q, [batch, seqLen, numHeads * headDim]) ∈ context)
    (kShape : (k, [batch, seqLen, numKvHeads * headDim]) ∈ context)
    (vShape : (v, [batch, seqLen, numKvHeads * headDim]) ∈ context) :
    Typed context (attention q k v causal numHeads numKvHeads headDim layerIdx name :
      GraphBuilder Num Nat) fun out => [(out, [batch, seqLen, numHeads * headDim])] := by
  refine typed_getValue qShape fun qv qvDims => typed_getValue kShape fun _ _ =>
    typed_getValue vShape fun _ _ => ?_
  rw [← qvDims]
  refine typed_emit ?_ fun graph out held made => ?_
  · simpa using ⟨⟨_, qShape⟩, ⟨_, kShape⟩, ⟨_, vShape⟩⟩
  · exact .attention rfl rfl rfl rfl rfl rfl positive grouped (held _ qShape) (held _ kShape)
      (held _ vShape) (qvDims ▸ made)

end GraphBuilder

namespace TransformerConfig

/-- Positive values, grouped heads, and products that an `int64` holds. -/
structure WellFormed {Num : Type} (cfg : TransformerConfig Num) : Prop where
  positive : ∀ n ∈ [cfg.batchSize, cfg.vocabSize, cfg.hiddenSize, cfg.intermediateSize,
    cfg.numLayers, cfg.numHeads, cfg.numKvHeads, cfg.headDim], 0 < n ∧ n < 9223372036854775808
  sequence : cfg.seqLen = -1 ∨ 0 < cfg.seqLen ∧ cfg.seqLen < 9223372036854775808
  grouped : cfg.numHeads % cfg.numKvHeads = 0
  heads : cfg.numHeads * cfg.headDim < 9223372036854775808
  kvHeads : cfg.numKvHeads * cfg.headDim < 9223372036854775808

end TransformerConfig

namespace TransformerGraphBuilder

open MiniLLM.Graph GraphBuilder

variable {Num : Type} {cfg : TransformerConfig Num} {context : List (Nat × List Int)}

/-- The values a layer's weights are, with their shapes. -/
def weightShapes (cfg : TransformerConfig Num) (w : LayerWeights) : List (Nat × List Int) :=
  [(w.attnNorm, [cfg.hiddenSize]),
    (w.qProj, [cfg.numHeads * cfg.headDim, cfg.hiddenSize]),
    (w.kProj, [cfg.numKvHeads * cfg.headDim, cfg.hiddenSize]),
    (w.vProj, [cfg.numKvHeads * cfg.headDim, cfg.hiddenSize]),
    (w.oProj, [cfg.hiddenSize, cfg.numHeads * cfg.headDim]),
    (w.ffnNorm, [cfg.hiddenSize]),
    (w.gateProj, [cfg.intermediateSize, cfg.hiddenSize]),
    (w.upProj, [cfg.intermediateSize, cfg.hiddenSize]),
    (w.downProj, [cfg.hiddenSize, cfg.intermediateSize])] ++
  match w.qkNorm with
  | some (qNorm, kNorm) => [(qNorm, [cfg.headDim]), (kNorm, [cfg.headDim])]
  | none => []

theorem typed_weight {name : String} {dims : List Int}
    (valid : ∀ d ∈ dims, d = -1 ∨ 0 < d ∧ d < 9223372036854775808) :
    Typed context (weight cfg name dims) fun id => [(id, dims)] :=
  typed_check (Shape.make_ok valid) typed_addValue

theorem typed_ffnBlock {label : String} {w : LayerWeights} {hidden : Nat}
    (weights : weightShapes cfg w ⊆ context)
    (hiddenShape : (hidden, [cfg.batchSize, cfg.seqLen] ++ [cfg.hiddenSize]) ∈ context) :
    Typed context (ffnBlock cfg label w hidden)
      fun out => [(out, [cfg.batchSize, cfg.seqLen] ++ [cfg.hiddenSize])] := by
  have ffnNormShape : (w.ffnNorm, [cfg.hiddenSize]) ∈ context :=
    weights (by simp [weightShapes])
  have gateProjShape : (w.gateProj, [cfg.intermediateSize, cfg.hiddenSize]) ∈ context :=
    weights (by simp [weightShapes])
  have upProjShape : (w.upProj, [cfg.intermediateSize, cfg.hiddenSize]) ∈ context :=
    weights (by simp [weightShapes])
  have downProjShape : (w.downProj, [cfg.hiddenSize, cfg.intermediateSize]) ∈ context :=
    weights (by simp [weightShapes])
  unfold ffnBlock
  generalize [cfg.batchSize, cfg.seqLen] = tokens at hiddenShape ⊢
  exact (typed_rmsNorm tokens cfg.hiddenSize hiddenShape ffnNormShape).bind fun ffnNormed =>
    (typed_linear tokens cfg.hiddenSize cfg.intermediateSize
      (by simp) (by simp [gateProjShape])).bind fun gate =>
    (typed_linear tokens cfg.hiddenSize cfg.intermediateSize
      (by simp) (by simp [upProjShape])).bind fun up =>
    (typed_swiglu (tokens ++ [cfg.intermediateSize]) (by simp) (by simp)).bind fun swigluOut =>
    (typed_linear tokens cfg.intermediateSize cfg.hiddenSize
      (by simp) (by simp [downProjShape])).bind fun down =>
    typed_add (tokens ++ [cfg.hiddenSize]) (by simp) (by simp [hiddenShape])

section Layer

variable (wf : cfg.WellFormed)
include wf

theorem dims_valid {dims : List Int}
    (listed : dims ⊆ [cfg.batchSize, cfg.vocabSize, cfg.hiddenSize, cfg.intermediateSize,
      cfg.numLayers, cfg.numHeads, cfg.numKvHeads, cfg.headDim, cfg.numHeads * cfg.headDim,
      cfg.numKvHeads * cfg.headDim]) :
    ∀ d ∈ dims, d = -1 ∨ 0 < d ∧ d < 9223372036854775808 := by
  intro d member
  have bounds := wf.positive
  have first := Int.mul_pos (bounds cfg.numHeads (by simp)).1 (bounds cfg.headDim (by simp)).1
  have second := Int.mul_pos (bounds cfg.numKvHeads (by simp)).1 (bounds cfg.headDim (by simp)).1
  have known := listed member
  simp only [List.mem_cons, List.not_mem_nil, or_false] at known
  rcases known with rfl | rfl | rfl | rfl | rfl | rfl | rfl | rfl | rfl | rfl
  case inr.inr.inr.inr.inr.inr.inr.inr.inl => exact Or.inr ⟨first, wf.heads⟩
  case inr.inr.inr.inr.inr.inr.inr.inr.inr => exact Or.inr ⟨second, wf.kvHeads⟩
  all_goals exact Or.inr (bounds _ (by simp))

theorem qHidden_eq : qHidden cfg = cfg.numHeads * cfg.headDim := by
  have low := Int.mul_pos (wf.positive cfg.numHeads (by simp)).1
    (wf.positive cfg.headDim (by simp)).1
  exact wrap64_eq (by omega) wf.heads

theorem kvHidden_eq : kvHidden cfg = cfg.numKvHeads * cfg.headDim := by
  have low := Int.mul_pos (wf.positive cfg.numKvHeads (by simp)).1
    (wf.positive cfg.headDim (by simp)).1
  exact wrap64_eq (by omega) wf.kvHeads

theorem typed_qkNormWeights {label : String} :
    Typed context (qkNormWeights cfg label) fun norms =>
      match norms with
      | some (qNorm, kNorm) => [(qNorm, [cfg.headDim]), (kNorm, [cfg.headDim])]
      | none => [] := by
  unfold qkNormWeights
  split
  · refine (typed_weight (dims_valid wf (by simp))).bind fun qn =>
      (typed_weight (dims_valid wf (by simp))).bind fun kn => typed_pure ?_
    simp
  · exact typed_pure (List.nil_subset _)

theorem typed_layerWeights {label : String} :
    Typed context (layerWeights cfg label) (weightShapes cfg) := by
  unfold layerWeights
  rw [qHidden_eq wf, kvHidden_eq wf]
  refine (typed_weight (dims_valid wf (by simp))).bind fun attnNorm =>
    (typed_weight (dims_valid wf (by simp))).bind fun qProj =>
    (typed_weight (dims_valid wf (by simp))).bind fun kProj =>
    (typed_weight (dims_valid wf (by simp))).bind fun vProj =>
    (typed_weight (dims_valid wf (by simp))).bind fun oProj =>
    (typed_qkNormWeights wf).bind fun qkNorm =>
    (typed_weight (dims_valid wf (by simp))).bind fun ffnNorm =>
    (typed_weight (dims_valid wf (by simp))).bind fun gateProj =>
    (typed_weight (dims_valid wf (by simp))).bind fun upProj =>
    (typed_weight (dims_valid wf (by simp))).bind fun downProj => typed_pure ?_
  intro entry member
  rcases List.mem_append.mp member with plain | norms
  · simp only [List.mem_cons, List.not_mem_nil, or_false] at plain
    rcases plain with rfl | rfl | rfl | rfl | rfl | rfl | rfl | rfl | rfl <;> simp
  · simp [norms]

theorem typed_normedHeads {label : String} {w : LayerWeights} (lead : List Int) {q k : Nat}
    (weights : weightShapes cfg w ⊆ context)
    (qShape : (q, lead ++ [cfg.numHeads * cfg.headDim]) ∈ context)
    (kShape : (k, lead ++ [cfg.numKvHeads * cfg.headDim]) ∈ context) :
    Typed context (normedHeads cfg label w q k) fun heads =>
      [(heads.1, lead ++ [cfg.numHeads * cfg.headDim]),
        (heads.2, lead ++ [cfg.numKvHeads * cfg.headDim])] := by
  have headDim := (wf.positive cfg.headDim (by simp)).1
  unfold normedHeads
  split
  · next qNorm kNorm present =>
      have qNormShape : (qNorm, [cfg.headDim]) ∈ context :=
        weights (by simp [weightShapes, present])
      have kNormShape : (kNorm, [cfg.headDim]) ∈ context :=
        weights (by simp [weightShapes, present])
      refine (typed_qkNorm ⟨(wf.positive cfg.numHeads (by simp)).1, headDim⟩ qShape
        qNormShape).bind fun q => ?_
      refine (typed_qkNorm ⟨(wf.positive cfg.numKvHeads (by simp)).1, headDim⟩
        (List.mem_cons_of_mem _ kShape) (List.mem_cons_of_mem _ kNormShape)).bind fun k =>
        typed_pure ?_
      simp
  · exact typed_pure (by simp [qShape, kShape])

theorem typed_attentionBlock {label : String} {layer : Int} {w : LayerWeights} {hidden : Nat}
    (weights : weightShapes cfg w ⊆ context)
    (hiddenShape : (hidden, [cfg.batchSize, cfg.seqLen] ++ [cfg.hiddenSize]) ∈ context) :
    Typed context (attentionBlock cfg label layer w hidden)
      fun out => [(out, [cfg.batchSize, cfg.seqLen] ++ [cfg.hiddenSize])] := by
  have numHeads := (wf.positive cfg.numHeads (by simp)).1
  have numKvHeads := (wf.positive cfg.numKvHeads (by simp)).1
  have headDim := (wf.positive cfg.headDim (by simp)).1
  have attnNormShape : (w.attnNorm, [cfg.hiddenSize]) ∈ context :=
    weights (by simp [weightShapes])
  have qProjShape : (w.qProj, [cfg.numHeads * cfg.headDim, cfg.hiddenSize]) ∈ context :=
    weights (by simp [weightShapes])
  have kProjShape : (w.kProj, [cfg.numKvHeads * cfg.headDim, cfg.hiddenSize]) ∈ context :=
    weights (by simp [weightShapes])
  have vProjShape : (w.vProj, [cfg.numKvHeads * cfg.headDim, cfg.hiddenSize]) ∈ context :=
    weights (by simp [weightShapes])
  have oProjShape : (w.oProj, [cfg.hiddenSize, cfg.numHeads * cfg.headDim]) ∈ context :=
    weights (by simp [weightShapes])
  unfold attentionBlock
  set tokens := [cfg.batchSize, cfg.seqLen] with tokensDef
  refine (typed_rmsNorm tokens cfg.hiddenSize hiddenShape attnNormShape).bind fun normed =>
    (typed_linear tokens cfg.hiddenSize (cfg.numHeads * cfg.headDim)
      (by simp) (by simp [qProjShape])).bind fun q =>
    (typed_linear tokens cfg.hiddenSize (cfg.numKvHeads * cfg.headDim)
      (by simp) (by simp [kProjShape])).bind fun k =>
    (typed_linear tokens cfg.hiddenSize (cfg.numKvHeads * cfg.headDim)
      (by simp) (by simp [vProjShape])).bind fun v =>
    (typed_normedHeads wf tokens ?_ (by simp) (by simp)).bind fun heads =>
    (typed_rope tokens ⟨numHeads, headDim⟩ (by simp)).bind fun qRope =>
    (typed_rope tokens ⟨numKvHeads, headDim⟩ (by simp)).bind fun kRope =>
    (typed_attention cfg.batchSize cfg.seqLen ⟨numHeads, numKvHeads, headDim⟩ wf.grouped
      (by simp [tokensDef]) (by simp [tokensDef]) (by simp [tokensDef])).bind fun attnOut =>
    (typed_linear tokens (cfg.numHeads * cfg.headDim) cfg.hiddenSize
      (by simp [tokensDef]) (by simp [oProjShape])).bind fun oProj =>
    typed_add (tokens ++ [cfg.hiddenSize]) (by simp) (by simp [hiddenShape])
  intro entry member
  simp [weights member]

theorem typed_transformerLayer {layer hidden : Nat}
    (hiddenShape : (hidden, [cfg.batchSize, cfg.seqLen] ++ [cfg.hiddenSize]) ∈ context) :
    Typed context (transformerLayer cfg layer hidden)
      fun out => [(out, [cfg.batchSize, cfg.seqLen] ++ [cfg.hiddenSize])] := by
  refine (typed_layerWeights wf).bind fun w => ?_
  have weights : weightShapes cfg w ⊆ weightShapes cfg w ++ context :=
    List.subset_append_left ..
  exact (typed_attentionBlock wf weights (List.mem_append_right _ hiddenShape)).bind fun hidden =>
    typed_ffnBlock (List.subset_cons_of_subset _ weights) (List.mem_cons_self ..)

theorem typed_transformerLayers {count layer hidden : Nat}
    (hiddenShape : (hidden, [cfg.batchSize, cfg.seqLen] ++ [cfg.hiddenSize]) ∈ context) :
    Typed context (transformerLayers cfg count layer hidden)
      fun out => [(out, [cfg.batchSize, cfg.seqLen] ++ [cfg.hiddenSize])] := by
  induction count generalizing context layer hidden with
  | zero => exact typed_pure (by simpa using hiddenShape)
  | succ count ih =>
      exact (typed_transformerLayer wf hiddenShape).bind fun hidden => ih (List.mem_cons_self ..)

theorem typed_buildTransformer :
    Typed context (buildTransformer cfg)
      fun logits => [(logits, [cfg.batchSize, cfg.seqLen] ++ [cfg.vocabSize])] := by
  have tokensValid : ∀ d ∈ [cfg.batchSize, cfg.seqLen],
      d = -1 ∨ 0 < d ∧ d < 9223372036854775808 := by
    intro d member
    rw [List.mem_cons, List.mem_singleton] at member
    rcases member with rfl | rfl
    · exact dims_valid wf (by simp) _ (List.mem_singleton.mpr rfl)
    · exact wf.sequence
  unfold buildTransformer
  exact typed_check (Shape.make_ok tokensValid) <| typed_addValue.bind fun inputIds =>
    (typed_weight (dims_valid wf (by simp))).bind fun tokEmb =>
    (typed_weight (dims_valid wf (by simp))).bind fun lmHead =>
    (typed_embedding [cfg.batchSize, cfg.seqLen] cfg.vocabSize cfg.hiddenSize
      (by simp) (by simp) (by simp)).bind fun hidden =>
    (typed_transformerLayers wf (by simp)).bind fun hidden =>
    (typed_weight (dims_valid wf (by simp))).bind fun finalNorm =>
    (typed_rmsNorm [cfg.batchSize, cfg.seqLen] cfg.hiddenSize (by simp) (by simp)).bind
      fun finalNormed =>
    (typed_linear [cfg.batchSize, cfg.seqLen] cfg.hiddenSize cfg.vocabSize
      (by simp) (by simp)).bind fun logits =>
    typed_output (by simp)

end Layer

/-- A well-formed configuration is built on every graph. -/
theorem buildTransformer_isOk (wf : cfg.WellFormed) (graph : Graph Num) :
    (buildTransformer cfg graph).1.isOk = true := by
  have typed : Typed [] (buildTransformer cfg) _ := typed_buildTransformer wf
  have typed := typed graph fun _ member => by cases member
  unfold Yields at typed
  generalize buildTransformer cfg graph = result at typed ⊢
  obtain ⟨failure | logits, after⟩ := result
  · exact typed.elim
  · rfl

theorem empty_sound : ({} : Graph Num).Sound := by
  refine ⟨?_, ?_, List.Pairwise.nil⟩ <;> rintro node ⟨⟩

section Returned

/-- A computation ends as its last step does. -/
theorem yields_last {A B : Type} {m : GraphBuilder Num A} {f : A → GraphBuilder Num B}
    {P : B → Graph Num → Prop} (next : ∀ a graph, Yields (f a) graph P fun _ => True)
    (graph : Graph Num) : Yields (m >>= f) graph P fun _ => True := by
  refine Yields.bind (P := fun _ _ => True) ?_ fun a after _ => next a after
  unfold Yields
  split <;> trivial

theorem linear_makes {x weight : Nat} {name : String} (graph : Graph Num) :
    Yields (linear x weight none name) graph
      (fun out after => out < after.values.length ∧ ∃ node ∈ after.nodes, node.outputs = [out])
      fun _ => True := by
  refine yields_last (fun xv graph => yields_last (fun wv graph => yields_last ?_ graph) graph) graph
  intro shape graph
  dsimp only
  unfold Yields
  rw [emit_run]
  exact ⟨by simp, _, List.mem_append_right _ (List.mem_singleton.mpr rfl), rfl⟩

theorem output_returns {x : Nat} {graph : Graph Num} (inside : x < graph.values.length)
    (made : ∃ node ∈ graph.nodes, node.outputs = [x]) :
    Yields (output x) graph (fun out after => after.Returns out) fun _ => True := by
  have found := List.getElem?_eq_getElem inside
  unfold Yields output
  rw [bind_run, getValue, Graph.value, found]
  exact ⟨⟨{ graph.values[x] with kind := .output }, by simp [found], rfl⟩, made⟩

/-- The logits are made by the head and marked as the output. -/
theorem buildTransformer_returns (graph : Graph Num) :
    Yields (buildTransformer cfg) graph (fun logits after => after.Returns logits)
      fun _ => True := by
  unfold buildTransformer
  iterate 8 refine yields_last (fun _ graph => ?_) graph
  exact (linear_makes graph).bind fun out after made => output_returns made.1 made.2

end Returned

/-- A well-formed configuration builds a graph that validates, sorts and gives every kernel the
shapes it takes; the logits are its output. -/
theorem buildTransformer_sound (wf : cfg.WellFormed) :
    ∃ logits graph, buildTransformer cfg {} = (.ok logits, graph) ∧
      graph.validate = .makeOk ∧ graph.SingleProducer ∧
      (∃ order, graph.topologicalSort = .ok order ∧ graph.Ordered order) ∧
      graph.Has logits [cfg.batchSize, cfg.seqLen, cfg.vocabSize] ∧ graph.Returns logits ∧
      ∀ node ∈ graph.nodes, graph.Fits node := by
  have typed : Typed [] (buildTransformer cfg) _ := typed_buildTransformer wf
  have typed := typed {} fun _ member => by cases member
  have returns : Yields (buildTransformer cfg) {} _ _ := buildTransformer_returns {}
  unfold Yields at typed returns
  generalize buildTransformer cfg {} = result at typed returns ⊢
  obtain ⟨failure | logits, graph⟩ := result
  · exact typed.elim
  · obtain ⟨_, keepsSound, shapes⟩ := typed
    have sound := keepsSound empty_sound
    exact ⟨logits, graph, rfl, sound.validate, sound.singleProducer, sound.sorts,
      shapes _ (List.mem_singleton.mpr rfl), returns, sound.fits⟩

/-- Two layers of four heads over two K/V heads, with the Q and K norms, for any sequence length. -/
def groupedHeads : TransformerConfig Int :=
  { vocabSize := 100, hiddenSize := 16, intermediateSize := 32, numLayers := 2, numHeads := 4,
    numKvHeads := 2, headDim := 8, useQkNorm := true, rmsNormEps := 0, ropeBase := 0 }

theorem groupedHeads_wellFormed : groupedHeads.WellFormed :=
  ⟨by decide, by decide, by decide, by decide, by decide⟩

theorem buildTransformer_sound_groupedHeads :
    ∃ logits graph, buildTransformer groupedHeads {} = (.ok logits, graph) ∧
      graph.validate = .makeOk ∧ graph.SingleProducer ∧
      (∃ order, graph.topologicalSort = .ok order ∧ graph.Ordered order) ∧
      graph.Has logits [1, -1, 100] ∧ graph.Returns logits ∧
      ∀ node ∈ graph.nodes, graph.Fits node :=
  buildTransformer_sound groupedHeads_wellFormed

end TransformerGraphBuilder

end MiniLLM
