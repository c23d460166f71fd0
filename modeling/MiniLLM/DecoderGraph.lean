import MiniLLM.GraphStreams

/-!
`build_transformer` denotes its decoder: its logits value stands for the decoder's
logits, and every node obeys the law of its operation.
-/

namespace MiniLLM

open Loops Cpu CpuKernelAdapter RowStream

variable {α : Type} [Field α]

namespace GraphBuilder

open ShapeInfer

variable {dec : Decoder α} {n : Nat} {context : List (Nat × Meaning α)} {label : String}

theorem denoting_embedding {ids weight : Nat} {name : String}
    (idsMean : (ids, .tokens) ∈ context)
    (weightMeans : (weight, .weight name [dec.vocab, dec.hidden]) ∈ context) :
    Denoting dec n context (embedding ids weight label)
      fun out => [(out, .rows dec.hidden (embedded (dec.weights name) dec.hidden dec.tokens))] := by
  refine denoting_getValue idsMean fun iv ivDims => denoting_getValue weightMeans fun wv wvDims => ?_
  obtain ⟨shape, passes, dims⟩ := inferEmbeddingShape_ok (show iv.shape.dims ≠ [] by
    simp [ivDims, Meaning.dims]) wvDims
  refine denoting_check passes
    (denoting_emit (by rw [dims, ivDims]; rfl) (by simp [Decoder.widths]) ?_)
  intro means out known made
  exact .embedding rfl rfl rfl (known _ idsMean) (known _ weightMeans) made

theorem denoting_linear {x weight inFeatures outFeatures : Nat} {name : String} {s : RowStream α}
    (listed : outFeatures ∈ dec.widths) (xMeans : (x, .rows inFeatures s) ∈ context)
    (weightMeans : (weight, .weight name [outFeatures, inFeatures]) ∈ context)
    (side : inFeatures = dec.hidden ∨ outFeatures = dec.hidden) :
    Denoting dec n context (linear x weight none label)
      fun out => [(out, .rows outFeatures (projected (dec.weights name) inFeatures s))] := by
  refine denoting_getValue xMeans fun xv xvDims => denoting_getValue weightMeans fun wv wvDims => ?_
  obtain ⟨shape, passes, dims⟩ :=
    inferLinearShape_ok (show xv.shape.dims = [1, (n : Int)] ++ [(inFeatures : Int)] from xvDims)
      wvDims
  refine denoting_check passes (denoting_emit dims listed ?_)
  intro means out known made
  exact .linear rfl rfl rfl (known _ xMeans) (known _ weightMeans) made side

theorem denoting_add {a b width : Nat} {s t : RowStream α} (listed : width ∈ dec.widths)
    (aMeans : (a, .rows width s) ∈ context) (bMeans : (b, .rows width t) ∈ context) :
    Denoting dec n context (add a b label) fun out => [(out, .rows width (summed s t))] := by
  refine denoting_getValue aMeans fun av avDims => denoting_getValue bMeans fun bv bvDims => ?_
  refine denoting_check (inferSameShape_ok (avDims.trans bvDims.symm))
    (denoting_emit avDims listed ?_)
  intro means out known made
  exact .add rfl rfl rfl (known _ aMeans) (known _ bMeans) made

theorem denoting_swiglu {gate up width : Nat} {g u : RowStream α} (listed : width ∈ dec.widths)
    (gateMeans : (gate, .rows width g) ∈ context) (upMeans : (up, .rows width u) ∈ context) :
    Denoting dec n context (swiglu gate up label)
      fun out => [(out, .rows width (gated dec.ops g u))] := by
  refine denoting_getValue gateMeans fun gv gvDims => denoting_getValue upMeans fun uv uvDims => ?_
  refine denoting_check (inferSameShape_ok (gvDims.trans uvDims.symm))
    (denoting_emit gvDims listed ?_)
  intro means out known made
  exact .swiGLU rfl rfl rfl (known _ gateMeans) (known _ upMeans) made

theorem denoting_rmsNorm {x gamma hidden : Nat} {name : String} {s : RowStream α}
    (listed : hidden ∈ dec.widths) (xMeans : (x, .rows hidden s) ∈ context)
    (gammaMeans : (gamma, .weight name [hidden]) ∈ context) :
    Denoting dec n context (rmsNorm x gamma dec.eps label)
      fun out => [(out, .rows hidden (normed dec.ops (dec.weights name) hidden dec.eps s))] := by
  refine denoting_getValue xMeans fun xv xvDims =>
    denoting_check rfl (denoting_emit xvDims listed ?_)
  intro means out known made
  exact .rmsNorm rfl rfl rfl (fun _ => rfl) (known _ xMeans) (known _ gammaMeans) made

theorem denoting_qkNorm {x gamma heads : Nat} {name : String} {s : RowStream α}
    (listed : heads * dec.hd ∈ dec.widths) (xMeans : (x, .rows (heads * dec.hd) s) ∈ context)
    (gammaMeans : (gamma, .weight name [dec.hd]) ∈ context) :
    Denoting dec n context (qkNorm x gamma dec.eps heads dec.hd label) fun out =>
      [(out, .rows (heads * dec.hd) (headsNormed dec.ops (dec.weights name) dec.hd dec.eps s))] := by
  refine denoting_getValue xMeans fun xv xvDims => denoting_getValue gammaMeans fun _ _ =>
    denoting_check rfl (denoting_emit xvDims listed ?_)
  intro means out known made
  exact .qkNorm rfl rfl rfl (fun _ => rfl) rfl (known _ xMeans) (known _ gammaMeans) made

theorem denoting_rope {x heads : Nat} {s : RowStream α} (listed : heads * dec.hd ∈ dec.widths)
    (xMeans : (x, .rows (heads * dec.hd) s) ∈ context) :
    Denoting dec n context (rope x heads dec.hd dec.base label) fun out =>
      [(out, .rows (heads * dec.hd) (headsRotated dec.ops dec.hd dec.base s))] := by
  refine denoting_getValue xMeans fun xv xvDims =>
    denoting_check rfl (denoting_emit xvDims listed ?_)
  intro means out known made
  exact .roPE rfl rfl rfl rfl (fun _ => rfl) (known _ xMeans) made

theorem denoting_attention {q k v layer : Nat} {s : RowStream α} (wf : dec.WellFormed)
    (below : layer < dec.numLayers) (qMeans : (q, .rows (dec.nh * dec.hd) s) ∈ context)
    (kMeans : (k, .rows (dec.nkv * dec.hd) (dec.layerKeys layer)) ∈ context)
    (vMeans : (v, .rows (dec.nkv * dec.hd) (dec.layerValues layer)) ∈ context) :
    Denoting dec n context (attention q k v true dec.nh dec.nkv dec.hd layer label) fun out =>
      [(out, .rows (dec.nh * dec.hd) (attended dec.ops dec.nh dec.nkv dec.hd s
        (dec.layerKeys layer) (dec.layerValues layer)))] := by
  obtain ⟨_, _, _, _, nh, nkv, hd⟩ := wf.positive
  refine denoting_getValue qMeans fun qv qvDims => denoting_getValue kMeans fun _ _ =>
    denoting_getValue vMeans fun _ _ => denoting_emit qvDims (by simp [Decoder.widths]) ?_
  intro means out known made
  exact .attention ⟨rfl, rfl, rfl, rfl, rfl, rfl, ⟨nh, nkv, hd⟩, wf.grouped⟩ below rfl rfl
    (known _ qMeans) (known _ kMeans) (known _ vMeans) made

end GraphBuilder

namespace Decoder

/-- The `int`s of a run of `n` tokens: counters over its rows, with a register behind
them, offsets in the weights, and the end of the last tile of attention. -/
structure Fits (dec : Decoder α) (n : Nat) : Prop where
  rows : ∀ width ∈ dec.widths, n * width + dec.ops.simdWidth < 2147483648
  weights : ∀ width ∈ dec.widths, width * dec.hidden < 2147483648
  tiles : n + kvTile ≤ 2147483648

variable {dec : Decoder α} {m n : Nat}

omit [Field α] in
theorem Fits.row (fits : dec.Fits n) {width : Nat} (listed : width ∈ dec.widths) :
    n * width < 2147483648 :=
  (Nat.le_add_right _ _).trans_lt (fits.rows width listed)

omit [Field α] in
theorem Fits.width_lt (fits : dec.Fits n) (tokens : 0 < n) {width : Nat}
    (listed : width ∈ dec.widths) : width < 2147483648 :=
  (Nat.le_mul_of_pos_left width tokens).trans_lt (fits.row listed)

omit [Field α] in
theorem Fits.mono (fits : dec.Fits n) (fewer : m ≤ n) : dec.Fits m := by
  refine ⟨fun width listed => ?_, fits.weights, by have := fits.tiles; omega⟩
  have := Nat.mul_le_mul_right width fewer
  have := fits.rows width listed
  omega

omit [Field α] in
theorem Fits.reading (fits : dec.Fits n) (tokens : Nat → Int) : (dec.reading tokens).Fits n :=
  ⟨fits.rows, fits.weights, fits.tiles⟩

omit [Field α] in
theorem WellFormed.hd_le (wf : dec.WellFormed) : dec.hd ≤ dec.nkv * dec.hd :=
  Nat.le_mul_of_pos_left _ wf.positive.2.2.2.2.2.1

omit [Field α] in
theorem config_wellFormed (wf : dec.WellFormed) (tokens : 0 < n) (fits : dec.Fits n)
    (layers : dec.numLayers < 9223372036854775808) (count : n < 9223372036854775808) :
    (dec.config n).WellFormed := by
  obtain ⟨hidden, intermediate, vocab, some, nh, nkv, hd⟩ := wf.positive
  have small := fun width listed => fits.width_lt tokens (show width ∈ dec.widths from listed)
  simp only [widths, List.mem_cons, List.not_mem_nil, or_false, forall_eq_or_imp, forall_eq] at small
  obtain ⟨smallHidden, smallInter, smallVocab, smallQ, smallKv⟩ := small
  have hdLe := wf.hd_le
  have nhLe := Nat.le_mul_of_pos_right dec.nh hd
  have nkvLe := Nat.le_mul_of_pos_right dec.nkv hd
  refine ⟨?_, Or.inr ?_, ?_, ?_, ?_⟩
  · simp only [config, List.mem_cons, List.not_mem_nil, or_false, forall_eq_or_imp, forall_eq]
    omega
  · simp only [config]
    omega
  · simp only [config]
    have := Nat.mod_eq_zero_of_dvd wf.grouped
    omega
  · simp only [config]
    exact_mod_cast smallQ.trans (by decide)
  · simp only [config]
    exact_mod_cast smallKv.trans (by decide)

end Decoder

namespace TransformerGraphBuilder

open GraphBuilder

variable {dec : Decoder α} {n : Nat} {context : List (Nat × Meaning α)} {label : String}
  {x : RowStream α}

/-- What a layer's weights stand for. -/
def weightMeanings (dec : Decoder α) (label : String) (w : LayerWeights) : List (Nat × Meaning α) :=
  [(w.attnNorm, .weight (label ++ "attn_norm.weight") [dec.hidden]),
    (w.qProj, .weight (label ++ "q_proj.weight") [dec.nh * dec.hd, dec.hidden]),
    (w.kProj, .weight (label ++ "k_proj.weight") [dec.nkv * dec.hd, dec.hidden]),
    (w.vProj, .weight (label ++ "v_proj.weight") [dec.nkv * dec.hd, dec.hidden]),
    (w.oProj, .weight (label ++ "o_proj.weight") [dec.hidden, dec.nh * dec.hd]),
    (w.ffnNorm, .weight (label ++ "ffn_norm.weight") [dec.hidden]),
    (w.gateProj, .weight (label ++ "gate_proj.weight") [dec.intermediate, dec.hidden]),
    (w.upProj, .weight (label ++ "up_proj.weight") [dec.intermediate, dec.hidden]),
    (w.downProj, .weight (label ++ "down_proj.weight") [dec.hidden, dec.intermediate])]

/-- The weights of the Q and K norms, where the decoder has them. -/
def normMeanings (dec : Decoder α) (label : String) (norms : Option (Nat × Nat)) :
    List (Nat × Meaning α) :=
  match norms with
  | some (qNorm, kNorm) =>
      [(qNorm, .weight (label ++ "q_norm.weight") [dec.hd]),
        (kNorm, .weight (label ++ "k_norm.weight") [dec.hd])]
  | none => []

theorem denoting_weight {name : String} (dims : List Nat)
    (valid : ∀ d ∈ dims, 0 < d ∧ d < 2147483648) :
    Denoting dec n context (weight (dec.config n) name (dims.map Nat.cast))
      fun id => [(id, .weight name dims)] := by
  have checked : ∀ d ∈ dims.map (Nat.cast : Nat → Int), d = -1 ∨ 0 < d ∧ d < 9223372036854775808 := by
    intro d member
    obtain ⟨count, listed, rfl⟩ := List.mem_map.mp member
    have := valid count listed
    omega
  exact denoting_check (Shape.make_ok checked)
    (denoting_addValue (.weight name dims) rfl ⟨rfl, rfl⟩ fun width s is => by cases is)

omit [Field α] in
theorem gives_layerWeights (cfg : TransformerConfig α) (label : String) :
    Gives (layerWeights cfg label) fun w => w.qkNorm.isSome = cfg.useQkNorm := by
  unfold layerWeights
  refine gives_after fun _ => gives_after fun _ => gives_after fun _ => gives_after fun _ =>
    gives_after fun _ => Gives.bind (P := fun norms => norms.isSome = cfg.useQkNorm) ?_ fun norms is =>
    gives_after fun _ => gives_after fun _ => gives_after fun _ => gives_after fun _ => gives_pure is
  unfold qkNormWeights
  split
  · next uses => exact gives_after fun _ => gives_after fun _ => gives_pure uses.symm
  · next uses => exact gives_pure (by simpa using uses)

theorem denoting_normedHeads {w : LayerWeights} {q k : Nat} {sq sk : RowStream α}
    (norms : w.qkNorm.isSome = dec.useQkNorm) (weights : normMeanings dec label w.qkNorm ⊆ context)
    (qMeans : (q, .rows (dec.nh * dec.hd) sq) ∈ context)
    (kMeans : (k, .rows (dec.nkv * dec.hd) sk) ∈ context) :
    Denoting dec n context (normedHeads (dec.config n) label w q k) fun heads =>
      [(heads.1, .rows (dec.nh * dec.hd) (dec.normedHeads label "q_norm.weight" sq)),
        (heads.2, .rows (dec.nkv * dec.hd) (dec.normedHeads label "k_norm.weight" sk))] := by
  unfold normedHeads Decoder.normedHeads
  cases present : w.qkNorm with
  | none =>
      rw [present] at norms
      rw [← norms]
      exact denoting_pure (by simp [qMeans, kMeans])
  | some pair =>
      obtain ⟨qNorm, kNorm⟩ := pair
      rw [present] at norms weights
      rw [← norms]
      have qNormMeans : (qNorm, .weight (label ++ "q_norm.weight") [dec.hd]) ∈ context :=
        weights (by simp [normMeanings])
      have kNormMeans : (kNorm, .weight (label ++ "k_norm.weight") [dec.hd]) ∈ context :=
        weights (by simp [normMeanings])
      refine (denoting_qkNorm (by simp [Decoder.widths]) qMeans qNormMeans).bind fun q => ?_
      refine (denoting_qkNorm (by simp [Decoder.widths]) (List.mem_cons_of_mem _ kMeans)
        (List.mem_cons_of_mem _ kNormMeans)).bind fun k => denoting_pure ?_
      simp

theorem denoting_ffnBlock {w : LayerWeights} {hidden : Nat}
    (weights : weightMeanings dec label w ⊆ context)
    (hiddenMeans : (hidden, .rows dec.hidden x) ∈ context) :
    Denoting dec n context (ffnBlock (dec.config n) label w hidden)
      fun out => [(out, .rows dec.hidden (dec.ffnBlock label x))] := by
  have norm : (w.ffnNorm, .weight (label ++ "ffn_norm.weight") [dec.hidden]) ∈ context :=
    weights (by simp [weightMeanings])
  have gateProj : (w.gateProj, .weight (label ++ "gate_proj.weight") [dec.intermediate, dec.hidden]) ∈
      context := weights (by simp [weightMeanings])
  have upProj : (w.upProj, .weight (label ++ "up_proj.weight") [dec.intermediate, dec.hidden]) ∈
      context := weights (by simp [weightMeanings])
  have downProj : (w.downProj, .weight (label ++ "down_proj.weight") [dec.hidden, dec.intermediate]) ∈
      context := weights (by simp [weightMeanings])
  exact (denoting_rmsNorm (by simp [Decoder.widths]) hiddenMeans norm).bind fun normed =>
    (denoting_linear (by simp [Decoder.widths]) List.mem_cons_self
      (List.mem_cons_of_mem _ gateProj) (.inl rfl)).bind fun gate =>
    (denoting_linear (by simp [Decoder.widths]) (List.mem_cons_of_mem _ List.mem_cons_self)
      (List.mem_cons_of_mem _ (List.mem_cons_of_mem _ upProj)) (.inl rfl)).bind fun up =>
    (denoting_swiglu (by simp [Decoder.widths]) (List.mem_cons_of_mem _ List.mem_cons_self)
      List.mem_cons_self).bind fun swigluOut =>
    (denoting_linear (by simp [Decoder.widths]) List.mem_cons_self
      (by simp [downProj]) (.inr rfl)).bind fun down =>
    denoting_add (by simp [Decoder.widths]) List.mem_cons_self (by simp [hiddenMeans])

theorem denoting_attentionBlock (wf : dec.WellFormed) {layer hidden : Nat} {w : LayerWeights}
    (below : layer < dec.numLayers) (norms : w.qkNorm.isSome = dec.useQkNorm)
    (weights : weightMeanings dec (layerLabel layer) w ⊆ context)
    (normWeights : normMeanings dec (layerLabel layer) w.qkNorm ⊆ context)
    (hiddenMeans : (hidden, .rows dec.hidden (dec.hiddenAt layer)) ∈ context) :
    Denoting dec n context (attentionBlock (dec.config n) (layerLabel layer) layer w hidden)
      fun out => [(out, .rows dec.hidden
        (dec.attentionBlock (layerLabel layer) (dec.hiddenAt layer)))] := by
  have norm : (w.attnNorm, .weight (layerLabel layer ++ "attn_norm.weight") [dec.hidden]) ∈
      context := weights (by simp [weightMeanings])
  have qProj : (w.qProj, .weight (layerLabel layer ++ "q_proj.weight")
      [dec.nh * dec.hd, dec.hidden]) ∈ context := weights (by simp [weightMeanings])
  have kProj : (w.kProj, .weight (layerLabel layer ++ "k_proj.weight")
      [dec.nkv * dec.hd, dec.hidden]) ∈ context := weights (by simp [weightMeanings])
  have vProj : (w.vProj, .weight (layerLabel layer ++ "v_proj.weight")
      [dec.nkv * dec.hd, dec.hidden]) ∈ context := weights (by simp [weightMeanings])
  have oProj : (w.oProj, .weight (layerLabel layer ++ "o_proj.weight")
      [dec.hidden, dec.nh * dec.hd]) ∈ context := weights (by simp [weightMeanings])
  refine (denoting_rmsNorm (by simp [Decoder.widths]) hiddenMeans norm).bind fun normed =>
    (denoting_linear (by simp [Decoder.widths]) List.mem_cons_self
      (List.mem_cons_of_mem _ qProj) (.inl rfl)).bind fun q =>
    (denoting_linear (by simp [Decoder.widths]) (List.mem_cons_of_mem _ List.mem_cons_self)
      (List.mem_cons_of_mem _ (List.mem_cons_of_mem _ kProj)) (.inl rfl)).bind fun k =>
    (denoting_linear (by simp [Decoder.widths])
      (List.mem_cons_of_mem _ (List.mem_cons_of_mem _ List.mem_cons_self))
      (List.mem_cons_of_mem _ (List.mem_cons_of_mem _ (List.mem_cons_of_mem _ vProj)))
      (.inl rfl)).bind fun v =>
    (denoting_normedHeads norms ?_
      (List.mem_cons_of_mem _ (List.mem_cons_of_mem _ List.mem_cons_self))
      (List.mem_cons_of_mem _ List.mem_cons_self)).bind fun heads =>
    (denoting_rope (by simp [Decoder.widths]) List.mem_cons_self).bind fun qRope =>
    (denoting_rope (by simp [Decoder.widths])
      (List.mem_cons_of_mem _ (List.mem_cons_of_mem _ List.mem_cons_self))).bind fun kRope =>
    (denoting_attention wf below (List.mem_cons_of_mem _ List.mem_cons_self) List.mem_cons_self
      (List.mem_cons_of_mem _ (List.mem_cons_of_mem _ (List.mem_cons_of_mem _
        (List.mem_cons_of_mem _ List.mem_cons_self))))).bind fun attnOut =>
    (denoting_linear (by simp [Decoder.widths]) List.mem_cons_self (by simp [oProj])
      (.inr rfl)).bind fun oProj =>
    denoting_add (by simp [Decoder.widths]) List.mem_cons_self (by simp [hiddenMeans])
  exact fun entry member => by simp [normWeights member]

section Layer

variable (wf : dec.WellFormed) (tokens : 0 < n) (fits : dec.Fits n)
  (layers : dec.numLayers < 9223372036854775808) (count : n < 9223372036854775808)
include wf tokens fits

omit [Field α] in
theorem sizes_small (d : Nat) (listed : d = dec.hd ∨ d ∈ dec.widths) : 0 < d ∧ d < 2147483648 := by
  rcases listed with rfl | listed
  · exact ⟨wf.positive.2.2.2.2.2.2,
      wf.hd_le.trans_lt (fits.width_lt tokens (by simp [Decoder.widths]))⟩
  · exact ⟨wf.width_pos listed, fits.width_lt tokens listed⟩

/-- A weight whose dimensions are widths of rows. -/
theorem denoting_sized {name : String} (dims : List Nat)
    (listed : ∀ d ∈ dims, d = dec.hd ∨ d ∈ dec.widths) :
    Denoting dec n context (weight (dec.config n) name (dims.map Nat.cast))
      fun id => [(id, .weight name dims)] :=
  denoting_weight dims fun d member => sizes_small wf tokens fits d (listed d member)

theorem denoting_qkNormWeights :
    Denoting dec n context (qkNormWeights (dec.config n) label) (normMeanings dec label) := by
  unfold qkNormWeights
  split
  · refine (denoting_sized wf tokens fits [dec.hd] (by simp)).bind fun qn =>
      (denoting_sized wf tokens fits [dec.hd] (by simp)).bind fun kn => denoting_pure ?_
    simp [normMeanings]
  · exact denoting_pure (List.nil_subset _)

include layers count

theorem denoting_layerWeights :
    Denoting dec n context (layerWeights (dec.config n) label) fun w =>
      weightMeanings dec label w ++ normMeanings dec label w.qkNorm := by
  have wide := Decoder.config_wellFormed wf tokens fits layers count
  have qHidden : qHidden (dec.config n) = ((dec.nh * dec.hd : Nat) : Int) := by
    rw [qHidden_eq wide, Nat.cast_mul]
    rfl
  have kvHidden : kvHidden (dec.config n) = ((dec.nkv * dec.hd : Nat) : Int) := by
    rw [kvHidden_eq wide, Nat.cast_mul]
    rfl
  unfold layerWeights
  rw [qHidden, kvHidden]
  refine (denoting_sized wf tokens fits [dec.hidden] (by simp [Decoder.widths])).bind fun attnNorm =>
    (denoting_sized wf tokens fits [dec.nh * dec.hd, dec.hidden] (by simp [Decoder.widths])).bind fun qProj =>
    (denoting_sized wf tokens fits [dec.nkv * dec.hd, dec.hidden] (by simp [Decoder.widths])).bind fun kProj =>
    (denoting_sized wf tokens fits [dec.nkv * dec.hd, dec.hidden] (by simp [Decoder.widths])).bind fun vProj =>
    (denoting_sized wf tokens fits [dec.hidden, dec.nh * dec.hd] (by simp [Decoder.widths])).bind fun oProj =>
    (denoting_qkNormWeights wf tokens fits).bind fun qkNorm =>
    (denoting_sized wf tokens fits [dec.hidden] (by simp [Decoder.widths])).bind fun ffnNorm =>
    (denoting_sized wf tokens fits [dec.intermediate, dec.hidden] (by simp [Decoder.widths])).bind fun gateProj =>
    (denoting_sized wf tokens fits [dec.intermediate, dec.hidden] (by simp [Decoder.widths])).bind fun upProj =>
    (denoting_sized wf tokens fits [dec.hidden, dec.intermediate] (by simp [Decoder.widths])).bind fun downProj =>
    denoting_pure ?_
  intro entry member
  rcases List.mem_append.mp member with plain | norms
  · simp only [weightMeanings, List.mem_cons, List.not_mem_nil, or_false] at plain
    rcases plain with rfl | rfl | rfl | rfl | rfl | rfl | rfl | rfl | rfl <;> simp
  · simp [norms]

theorem denoting_transformerLayer {layer hidden : Nat} (below : layer < dec.numLayers)
    (hiddenMeans : (hidden, .rows dec.hidden (dec.hiddenAt layer)) ∈ context) :
    Denoting dec n context (transformerLayer (dec.config n) layer hidden)
      fun out => [(out, .rows dec.hidden (dec.hiddenAt (layer + 1)))] := by
  refine (denoting_layerWeights wf tokens fits layers count).bind_gives
    (gives_layerWeights (dec.config n) _) fun w norms => ?_
  have weights : weightMeanings dec (layerLabel layer) w ⊆
      weightMeanings dec (layerLabel layer) w ++ normMeanings dec (layerLabel layer) w.qkNorm ++
        context := fun entry member => by simp [member]
  have normWeights : normMeanings dec (layerLabel layer) w.qkNorm ⊆
      weightMeanings dec (layerLabel layer) w ++ normMeanings dec (layerLabel layer) w.qkNorm ++
        context := fun entry member => by simp [member]
  exact (denoting_attentionBlock wf below norms weights normWeights
      (List.mem_append_right _ hiddenMeans)).bind fun hidden =>
    denoting_ffnBlock (List.subset_cons_of_subset _ weights) List.mem_cons_self

theorem denoting_transformerLayers {rest layer hidden : Nat} (all : layer + rest = dec.numLayers)
    (hiddenMeans : (hidden, .rows dec.hidden (dec.hiddenAt layer)) ∈ context) :
    Denoting dec n context (transformerLayers (dec.config n) rest layer hidden)
      fun out => [(out, .rows dec.hidden (dec.hiddenAt dec.numLayers))] := by
  induction rest generalizing context layer hidden with
  | zero =>
      obtain rfl : layer = dec.numLayers := all
      exact denoting_pure (by simpa using hiddenMeans)
  | succ rest ih =>
      exact (denoting_transformerLayer wf tokens fits layers count (by omega) hiddenMeans).bind
        fun hidden => ih (by omega) List.mem_cons_self

theorem denoting_buildTransformer :
    Denoting dec n context (buildTransformer (dec.config n))
      fun logits => [(logits, .rows dec.vocab dec.logits)] := by
  have idsValid : ∀ d ∈ [(1 : Int), (n : Int)], d = -1 ∨ 0 < d ∧ d < 9223372036854775808 := by
    simp only [List.mem_cons, List.not_mem_nil, or_false, forall_eq_or_imp, forall_eq]
    omega
  have layersCount : (dec.config n).numLayers.toNat = dec.numLayers := Int.toNat_natCast _
  unfold buildTransformer
  rw [layersCount]
  exact denoting_check (Shape.make_ok idsValid) <|
    (denoting_addValue .tokens rfl ⟨rfl, rfl⟩
      fun width s is => by cases is).bind fun inputIds =>
    (denoting_sized wf tokens fits [dec.vocab, dec.hidden] (by simp [Decoder.widths])).bind
      fun tokEmb =>
    (denoting_sized wf tokens fits [dec.vocab, dec.hidden] (by simp [Decoder.widths])).bind
      fun lmHead =>
    (denoting_embedding (by simp)
      (List.mem_cons_of_mem _ List.mem_cons_self)).bind fun hidden =>
    (denoting_transformerLayers wf tokens fits layers count (Nat.zero_add _)
      List.mem_cons_self).bind fun hidden =>
    (denoting_sized wf tokens fits [dec.hidden] (by simp [Decoder.widths])).bind fun finalNorm =>
    (denoting_rmsNorm (by simp [Decoder.widths]) (List.mem_cons_of_mem _ List.mem_cons_self)
      List.mem_cons_self).bind fun finalNormed =>
    (denoting_linear (by simp [Decoder.widths]) List.mem_cons_self (by simp) (.inl rfl)).bind
      fun logits =>
    denoting_output List.mem_cons_self

end Layer

/-- The graph of a decoder, what its values stand for, and that it can be executed. -/
theorem buildTransformer_denotes {dec : Decoder α} {n : Nat} (wf : dec.WellFormed) (tokens : 0 < n)
    (fits : dec.Fits n) (layers : dec.numLayers < 9223372036854775808)
    (count : n < 9223372036854775808) :
    ∃ logits graph meanings, buildTransformer (dec.config n) {} = (.ok logits, graph) ∧
      graph.Sound ∧ Denotes dec n graph meanings ∧
      meanings[logits]? = some (.rows dec.vocab dec.logits) := by
  have empty : Denotes dec n {} [] :=
    ⟨rfl, fun _ _ known => (nomatch known), fun _ member => (nomatch member),
      fun _ _ _ known => (nomatch known)⟩
  have denoting : Denoting dec n [] (buildTransformer (dec.config n)) _ :=
    denoting_buildTransformer wf tokens fits layers count
  have denoting := denoting {} [] empty fun _ member => nomatch member
  have typed : Typed [] (buildTransformer (dec.config n)) _ :=
    typed_buildTransformer (Decoder.config_wellFormed wf tokens fits layers count)
  have typed := typed {} fun _ member => nomatch member
  unfold Yields at denoting typed
  generalize buildTransformer (dec.config n) {} = result at denoting typed ⊢
  obtain ⟨failure | logits, graph⟩ := result
  · exact denoting.elim
  · obtain ⟨meanings, denotes, means⟩ := denoting
    exact ⟨logits, graph, meanings, rfl, typed.2.1 empty_sound, denotes,
      means _ (List.mem_singleton.mpr rfl)⟩

end TransformerGraphBuilder

end MiniLLM
