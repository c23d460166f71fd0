import MiniLLM.ModelNames
import MiniLLM.TransformerShapes
import MiniLLM.GgufWeightLoader
import Mathlib.Data.List.Nodup
import Mathlib.Data.List.TakeWhile
import Mathlib.Data.Set.Function

/-!
The canonical GGUF names of a model against `gguf_name_to_value_name`: the layer
number is read back by `std::stoi`, the suffix is looked up in the table.
-/

namespace MiniLLM

open ByteReader WeightLoader

/-- The GGUF names of a layer's tensors without `blk.N.`, in the order the builder makes them. -/
def ggufLayerNames (useQkNorm : Bool) : List String :=
  ["attn_norm.weight", "attn_q.weight", "attn_k.weight", "attn_v.weight", "attn_output.weight"] ++
    (if useQkNorm then ["attn_q_norm.weight", "attn_k_norm.weight"] else []) ++
    ["ffn_norm.weight", "ffn_gate.weight", "ffn_up.weight", "ffn_down.weight"]

theorem ascii_append (a b : String) : ascii (a ++ b) = ascii a ++ ascii b := by
  simp [ascii]

/-- A run of digits without sign or blank is read whole. -/
theorem stoi_digits {s : Bytes} {n : Nat} (nonempty : s ≠ [])
    (digits : ∀ c ∈ s, 48 ≤ c ∧ c ≤ 57) (small : n < 2147483648)
    (value : s.foldl (fun (m : Int) c => m * 10 + (c.toNat - 48 : Nat)) 0 = n) :
    stoi s = some ((n : Int), s.length) := by
  obtain ⟨first, rest, rfl⟩ := List.exists_cons_of_ne_nil nonempty
  have firstDigit := digits first (by simp)
  have blanks : (first :: rest).takeWhile (fun c => c == 32 || (9 ≤ c && c ≤ 13)) = [] := by
    rw [List.takeWhile_cons_of_neg]
    simp [UInt8.le_iff_toNat_le, ← UInt8.toNat_inj] at firstDigit ⊢
    omega
  have signs : ((first :: rest).take 1).filter (fun c => c == 43 || c == 45) = [] := by
    simp [UInt8.le_iff_toNat_le, ← UInt8.toNat_inj] at firstDigit ⊢
    omega
  have whole : (first :: rest).takeWhile (fun c => 48 ≤ c && c ≤ 57) = first :: rest := by
    rw [List.takeWhile_eq_self_iff]
    intro c member
    simpa using digits c member
  unfold stoi
  simp only [blanks, List.length_nil, List.drop_zero, signs, whole, value]
  rw [if_neg]
  · simp
  · rintro (nothing | low | high)
    · cases nothing
    · omega
    · omega

theorem digit_bytes {chars : List Char} (digits : ∀ c ∈ chars, c.isDigit = true) (m : Nat) :
    (chars.map fun c => UInt8.ofNat c.toNat).foldl
      (fun (n : Int) c => n * 10 + (c.toNat - 48 : Nat)) m = Nat.ofDigitChars 10 chars m := by
  induction chars generalizing m with
  | nil => rfl
  | cons c rest ih =>
      have digit := Char.isDigit_iff_toNat.mp (digits c (by simp))
      have byte : (UInt8.ofNat c.toNat).toNat = c.toNat := by
        rw [UInt8.toNat_ofNat']
        have : c.toNat ≤ 57 := digit.2
        omega
      rw [List.map_cons, List.foldl_cons, byte, Nat.ofDigitChars, List.foldl_cons]
      have step : (m : Int) * 10 + (c.toNat - 48 : Nat) =
          ((10 * m + (c.toNat - '0'.toNat) : Nat) : Int) := by
        change _ = ((10 * m + (c.toNat - 48) : Nat) : Int)
        omega
      rw [step]
      exact ih (fun c member => digits c (List.mem_cons_of_mem _ member)) _

theorem ascii_decimal (n : Nat) :
    ascii (toString n) = (Nat.toDigits 10 n).map fun c => UInt8.ofNat c.toNat := by
  rw [ascii, Nat.toString_eq_repr, Nat.toList_repr]

theorem decimal_digits {n : Nat} : ∀ c ∈ ascii (toString n), 48 ≤ c ∧ c ≤ 57 := by
  intro c member
  rw [ascii_decimal, List.mem_map] at member
  obtain ⟨char, isDigit, rfl⟩ := member
  have digit := Char.isDigit_iff_toNat.mp (Nat.isDigit_of_mem_toDigits (by decide) (by decide) isDigit)
  have low : 48 ≤ char.toNat := digit.1
  have high : char.toNat ≤ 57 := digit.2
  rw [UInt8.le_iff_toNat_le, UInt8.le_iff_toNat_le, UInt8.toNat_ofNat']
  exact ⟨by change 48 ≤ _; omega, by change _ ≤ 57; omega⟩

theorem stoi_decimal {n : Nat} (small : n < 2147483648) :
    stoi (ascii (toString n)) = some ((n : Int), (ascii (toString n)).length) := by
  refine stoi_digits ?_ decimal_digits small ?_
  · rw [ascii_decimal]
    simp [Nat.toDigits_ne_nil]
  · rw [ascii_decimal]
    have value := digit_bytes (fun c (member : c ∈ Nat.toDigits 10 n) =>
      Nat.isDigit_of_mem_toDigits (by decide) (by decide) member) 0
    rw [Nat.ofDigitChars_ten_toDigits] at value
    exact value

theorem suffixName_of_mem {table : List (String × String)}
    (distinct : (table.map fun pair => ascii pair.1).Nodup) {pair : String × String}
    (listed : pair ∈ table) : suffixName table (ascii pair.1) = some pair.2 := by
  unfold suffixName
  induction table with
  | nil => cases listed
  | cons first rest ih =>
      rw [List.map_cons, List.nodup_cons] at distinct
      rw [List.mem_cons] at listed
      rcases listed with rfl | later
      · rw [List.find?_cons_of_pos (by simp)]
        rfl
      · have different : ascii first.1 ≠ ascii pair.1 := fun same =>
          distinct.1 (same ▸ List.mem_map_of_mem later)
        rw [List.find?_cons_of_neg (by simpa using different)]
        exact ih distinct.2 later

theorem layerSuffixes_distinct : (layerSuffixes.map fun pair => ascii pair.1).Nodup := by
  decide +kernel

theorem globalSuffixes_distinct : (globalSuffixes.map fun pair => ascii pair.1).Nodup ∧
    ∀ pair ∈ globalSuffixes, (ascii pair.1).take 4 ≠ ascii "blk." := by
  decide +kernel

theorem suffixName_cases {useQkNorm : Bool} :
    (ggufLayerNames useQkNorm).map (fun s => suffixName layerSuffixes (ascii s)) =
      (TransformerGraphBuilder.layerNames useQkNorm).map some := by
  have row : ∀ pair ∈ layerSuffixes, suffixName layerSuffixes (ascii pair.1) = some pair.2 :=
    fun _ => suffixName_of_mem layerSuffixes_distinct
  generalize suffixName layerSuffixes = lookup at row ⊢
  simp only [layerSuffixes, List.forall_mem_cons] at row
  cases useQkNorm <;> simp [ggufLayerNames, TransformerGraphBuilder.layerNames, row]

namespace WeightLoader

/-- `blk.{index}.{suffix}`, with an index that `std::stoi` reads to its end. -/
structure LayerName (ggufName index : Bytes) (layer : Int) (suffix : Bytes) : Prop where
  split : ggufName = ascii "blk." ++ (index ++ 46 :: suffix)
  undotted : ∀ c ∈ index, c ≠ 46
  whole : stoi index = some (layer, index.length)

theorem layerName_value {ggufName index suffix : Bytes} {layer : Int} {name : String}
    (named : LayerName ggufName index layer suffix)
    (found : suffixName layerSuffixes suffix = some name) :
    ggufNameToValueName ggufName = .ok ("layer_" ++ toString layer ++ "." ++ name) := by
  have start : (ascii "blk.").length = 4 := rfl
  have before : (index ++ 46 :: suffix).takeWhile (· != 46) = index := by
    rw [List.takeWhile_append_of_pos, List.takeWhile_cons_of_neg (by simp), List.append_nil]
    intro c member
    exact bne_iff_ne.mpr (named.undotted c member)
  have after : (index ++ 46 :: suffix).drop (index.length + 1) = suffix := by
    rw [List.drop_append, List.drop_eq_nil_of_le (by omega)]
    simp
  unfold ggufNameToValueName
  simp only [named.split, List.take_left' start, List.drop_left' start, before]
  rw [if_pos ⟨trivial, by simp⟩, named.whole]
  simp only [ne_eq, not_true_eq_false, if_false, after, found]

end WeightLoader

theorem ggufNameToValueName_layer {n : Nat} (small : n < 2147483648) {suffix name : String}
    (found : suffixName layerSuffixes (ascii suffix) = some name) :
    ggufNameToValueName (ascii ("blk." ++ toString n ++ "." ++ suffix)) =
      .ok (TransformerGraphBuilder.layerLabel n ++ name) := by
  have named : LayerName (ascii ("blk." ++ toString n ++ "." ++ suffix)) (ascii (toString n)) n
      (ascii suffix) := by
    constructor
    · simp only [ascii_append, List.append_assoc]
      rfl
    · intro c member
      have digit := decimal_digits c member
      simp [UInt8.le_iff_toNat_le, ← UInt8.toNat_inj] at digit ⊢
      omega
    · exact stoi_decimal small
  have label : toString (n : Int) = toString n := rfl
  rw [layerName_value named found, label]
  rfl

theorem ggufNameToValueName_global {pair : String × String} (listed : pair ∈ globalSuffixes) :
    ggufNameToValueName (ascii pair.1) = .ok pair.2 := by
  have unprefixed := globalSuffixes_distinct.2 pair listed
  unfold ggufNameToValueName
  rw [if_neg (fun h => unprefixed h.1), globalName,
    suffixName_of_mem globalSuffixes_distinct.1 listed]

theorem token_embd_mapped :
    ggufNameToValueName (ascii "token_embd.weight") = .ok "tok_embeddings.weight" :=
  ggufNameToValueName_global (List.mem_cons_self)

theorem output_norm_mapped :
    ggufNameToValueName (ascii "output_norm.weight") = .ok "output_norm.weight" :=
  ggufNameToValueName_global (List.mem_cons_of_mem _ List.mem_cons_self)

theorem output_mapped : ggufNameToValueName (ascii "output.weight") = .ok "lm_head.weight" :=
  ggufNameToValueName_global (List.mem_cons_of_mem _ (List.mem_cons_of_mem _ List.mem_cons_self))

namespace TransformerGraphBuilder

open GraphBuilder

variable {Num : Type} (cfg : TransformerConfig Num)

/-- The canonical GGUF names of the model's tensors. -/
def canonicalNames : List String :=
  ["token_embd.weight", "output.weight"] ++
    (List.range' 0 cfg.numLayers.toNat).flatMap (fun i => (ggufLayerNames cfg.useQkNorm).map
      ("blk." ++ toString i ++ "." ++ ·)) ++ ["output_norm.weight"]

/-- The constant a canonical name is loaded into. -/
def valueName (ggufName : String) : String :=
  match ggufNameToValueName (ascii ggufName) with
  | .ok name => name
  | .error _ => ""

theorem valueName_of {ggufName name : String}
    (mapped : ggufNameToValueName (ascii ggufName) = .ok name) : valueName ggufName = name := by
  rw [valueName, mapped]

theorem layer_mapped {n : Nat} (small : n < 2147483648) {suffix : String} {useQkNorm : Bool}
    (listed : suffix ∈ ggufLayerNames useQkNorm) :
    ∃ name, ggufNameToValueName (ascii ("blk." ++ toString n ++ "." ++ suffix)) = .ok name := by
  have mapped := List.mem_map_of_mem (f := fun s => suffixName layerSuffixes (ascii s)) listed
  rw [suffixName_cases, List.mem_map] at mapped
  obtain ⟨name, _, found⟩ := mapped
  exact ⟨_, ggufNameToValueName_layer small found.symm⟩

theorem layer_valueNames {n : Nat} (small : n < 2147483648) (useQkNorm : Bool) :
    ((ggufLayerNames useQkNorm).map ("blk." ++ toString n ++ "." ++ ·)).map valueName =
      (layerNames useQkNorm).map (layerLabel n ++ ·) := by
  have table := @suffixName_cases useQkNorm
  generalize ggufLayerNames useQkNorm = suffixes, layerNames useQkNorm = names at table ⊢
  induction suffixes generalizing names with
  | nil =>
      cases names with
      | nil => rfl
      | cons name names => cases table
  | cons suffix suffixes ih =>
      cases names with
      | nil => cases table
      | cons name names =>
          rw [List.map_cons, List.map_cons, List.cons_eq_cons] at table
          simp only [List.map_cons]
          rw [valueName_of (ggufNameToValueName_layer small table.1), ih names table.2]

theorem canonical_valueNames (small : cfg.numLayers < 2147483648) :
    (canonicalNames cfg).map valueName = modelNames cfg := by
  unfold canonicalNames modelNames layersNames
  rw [List.map_append, List.map_append, List.map_flatMap]
  simp only [List.map_cons, List.map_nil, valueName_of token_embd_mapped,
    valueName_of output_mapped, valueName_of output_norm_mapped]
  have layers := List.flatMap_congr fun n (member : n ∈ List.range' 0 cfg.numLayers.toNat) =>
    have bound : n < 2147483648 := by
      rw [List.mem_range'_1] at member
      omega
    layer_valueNames bound cfg.useQkNorm
  rw [layers]

theorem canonical_mapped (small : cfg.numLayers < 2147483648) {name : String}
    (listed : name ∈ canonicalNames cfg) :
    ggufNameToValueName (ascii name) = .ok (valueName name) := by
  have mapped : ∃ constant, ggufNameToValueName (ascii name) = .ok constant := by
    unfold canonicalNames at listed
    simp only [List.mem_append, List.mem_flatMap, List.mem_cons, List.not_mem_nil,
      or_false] at listed
    rcases listed with ((rfl | rfl) | ⟨n, member, layer⟩) | rfl
    · exact ⟨_, token_embd_mapped⟩
    · exact ⟨_, output_mapped⟩
    · obtain ⟨suffix, listed, rfl⟩ := List.mem_map.mp layer
      rw [List.mem_range'_1] at member
      exact layer_mapped (by omega) listed
    · exact ⟨_, output_norm_mapped⟩
  obtain ⟨constant, mapped⟩ := mapped
  rw [mapped, valueName_of mapped]

theorem layerLabel_toList (n : Nat) (name : String) :
    (layerLabel n ++ name).toList = "layer_".toList ++ (Nat.toDigits 10 n ++ '.' :: name.toList) := by
  simp [layerLabel, Nat.toList_repr]

theorem before_dot (n : Nat) (rest : List Char) :
    (Nat.toDigits 10 n ++ '.' :: rest).takeWhile (· != '.') = Nat.toDigits 10 n := by
  rw [List.takeWhile_append_of_pos, List.takeWhile_cons_of_neg (by simp), List.append_nil]
  intro c member
  rw [bne_iff_ne]
  rintro rfl
  exact absurd (Nat.isDigit_of_mem_toDigits (by decide) (by decide) member) (by decide)

theorem layerLabel_injective {m n : Nat} {first second : String}
    (same : layerLabel m ++ first = layerLabel n ++ second) : m = n ∧ first = second := by
  have chars := congrArg String.toList same
  rw [layerLabel_toList, layerLabel_toList, List.append_cancel_left_eq] at chars
  have digits := congrArg (List.takeWhile (· != '.')) chars
  rw [before_dot, before_dot] at digits
  have value := congrArg (fun chars => Nat.ofDigitChars 10 chars 0) digits
  simp only [Nat.ofDigitChars_ten_toDigits] at value
  rw [value, List.append_cancel_left_eq] at chars
  exact ⟨value, String.toList_inj.mp (List.cons_eq_cons.mp chars).2⟩

theorem layersNames_nodup (count layer : Nat) : (layersNames cfg count layer).Nodup := by
  unfold layersNames
  rw [List.nodup_flatMap]
  constructor
  · intro n _
    refine List.Nodup.map (fun first second same => (layerLabel_injective same).2) ?_
    cases cfg.useQkNorm <;> simp [layerNames]
  · refine List.Pairwise.imp ?_ List.nodup_range'
    intro m n different name first second
    obtain ⟨suffix, _, rfl⟩ := List.mem_map.mp first
    obtain ⟨other, _, same⟩ := List.mem_map.mp second
    exact different (layerLabel_injective same).1.symm

theorem layer_not_global {count layer : Nat} {name : String}
    (listed : name ∈ layersNames cfg count layer) : name.toList.take 2 = ['l', 'a'] := by
  obtain ⟨n, _, made⟩ := List.mem_flatMap.mp listed
  obtain ⟨suffix, _, rfl⟩ := List.mem_map.mp made
  rw [layerLabel_toList]
  rfl

theorem global_not_layer : ∀ name ∈ ["tok_embeddings.weight", "lm_head.weight",
    "output_norm.weight"], name.toList.take 2 ≠ ['l', 'a'] := by
  simp

theorem modelNames_nodup : (modelNames cfg).Nodup := by
  unfold modelNames
  rw [List.append_assoc, List.nodup_append]
  refine ⟨by simp, ?_, ?_⟩
  · rw [List.nodup_append]
    refine ⟨layersNames_nodup cfg _ _, by decide, ?_⟩
    rintro name listed other member rfl
    rw [List.mem_singleton] at member
    exact global_not_layer name (by simp [member]) (layer_not_global cfg listed)
  · rintro name global other member rfl
    rw [List.mem_append, List.mem_singleton] at member
    rcases member with layer | rfl
    · refine global_not_layer name ?_ (layer_not_global cfg layer)
      rw [List.mem_cons, List.mem_singleton] at global
      rcases global with rfl | rfl <;> simp
    · revert global
      simp

theorem canonical_bijOn (small : cfg.numLayers < 2147483648) :
    Set.BijOn valueName {name | name ∈ canonicalNames cfg} {name | name ∈ modelNames cfg} := by
  have values := canonical_valueNames cfg small
  refine ⟨fun name listed => ?_, fun first left second right same => ?_, fun name listed => ?_⟩
  · rw [Set.mem_ofPred_eq, ← values]
    exact List.mem_map_of_mem listed
  · refine List.inj_on_of_nodup_map ?_ left right same
    rw [values]
    exact modelNames_nodup cfg
  · rw [Set.mem_ofPred_eq, ← values] at listed
    exact List.mem_map.mp listed

/-- The constants have distinct names, and the mapping takes the model's GGUF names to them one
to one where the model is built, as every well-formed one is. -/
theorem constants_match_gguf (small : cfg.numLayers < 2147483648) (graph : Graph Num) :
    (cfg.WellFormed → (buildTransformer cfg graph).1.isOk = true) ∧
    ∃ created, constantNames (buildTransformer cfg graph).2 = constantNames graph ++ created ∧
      created.Nodup ∧ ((buildTransformer cfg graph).1.isOk →
        ∃ mapped : String → String,
          (∀ name ∈ canonicalNames cfg, ggufNameToValueName (ascii name) = .ok (mapped name)) ∧
          Set.BijOn mapped {name | name ∈ canonicalNames cfg} {name | name ∈ created}) := by
  refine ⟨fun wf => buildTransformer_isOk wf graph, ?_⟩
  have creates := creates_buildTransformer cfg graph
  unfold Yields at creates
  generalize buildTransformer cfg graph = result at creates ⊢
  obtain ⟨failure | logits, after⟩ := result
  · obtain ⟨made, start, same⟩ := creates
    exact ⟨made, same, (modelNames_nodup cfg).sublist start.sublist, fun built => by cases built⟩
  · exact ⟨modelNames cfg, creates, modelNames_nodup cfg, fun _ => ⟨valueName,
      fun name listed => canonical_mapped cfg small listed, canonical_bijOn cfg small⟩⟩

/-- A model of three layers with the Q and K norms. -/
def threeLayers : TransformerConfig Int :=
  { numLayers := 3, useQkNorm := true, rmsNormEps := 0, ropeBase := 0 }

theorem constants_match_gguf_threeLayers : (buildTransformer threeLayers {}).1.isOk = true ∧
    ∃ created, constantNames (buildTransformer threeLayers {}).2 = created ∧
      created.Nodup ∧ ∃ mapped : String → String,
        (∀ name ∈ canonicalNames threeLayers,
          ggufNameToValueName (ascii name) = .ok (mapped name)) ∧
        Set.BijOn mapped {name | name ∈ canonicalNames threeLayers} {name | name ∈ created} := by
  have built : (buildTransformer threeLayers {}).1.isOk = true := by decide +kernel
  obtain ⟨_, created, same, distinct, matched⟩ := constants_match_gguf threeLayers (by decide) {}
  exact ⟨built, created, same.trans (List.nil_append _), distinct, matched built⟩

end TransformerGraphBuilder

end MiniLLM
