import MiniLLM.GgufNames
import Mathlib

/-!
When two GGUF names are taken for the same model weight. The layer index is read
by `std::stoi` and written back, so leading zeros, a sign or blanks are lost;
nothing else of an accepted name is.
-/

namespace MiniLLM

open ByteReader

namespace WeightLoader

/-- Two names of one tensor of one layer, whatever the index looks like in each. -/
def SameLayerTensor (first second : Bytes) : Prop :=
  ∃ layer, ∃ suffix ∈ layerSuffixes.map fun pair => ascii pair.1,
    (∃ index, LayerName first index layer suffix) ∧ ∃ index, LayerName second index layer suffix

theorem globalName_ok {ggufName : Bytes} {value : String}
    (accepted : globalName ggufName = .ok value) :
    suffixName globalSuffixes ggufName = some value := by
  rw [globalName] at accepted
  cases found : suffixName globalSuffixes ggufName with
  | none => rw [found] at accepted; cases accepted
  | some name => rw [found] at accepted; cases accepted; rfl

/-- What stands before the first dot, if there is one, and what stands after it. -/
theorem split_at_dot (rest : Bytes)
    (dotted : (rest.takeWhile (· != 46)).length < rest.length) :
    rest = rest.takeWhile (· != 46) ++
      46 :: rest.drop ((rest.takeWhile (· != 46)).length + 1) := by
  induction rest with
  | nil => cases dotted
  | cons c rest ih =>
      by_cases dot : c = 46
      · rw [List.takeWhile_cons_of_neg (by simp [dot]), dot]
        rfl
      · have more : (rest.takeWhile (· != 46)).length + 1 =
            ((c :: rest).takeWhile (· != 46)).length := by
          rw [List.takeWhile_cons_of_pos (by simp [dot]), List.length_cons]
        rw [← more] at dotted ⊢
        rw [List.takeWhile_cons_of_pos (by simp [dot])]
        have tail := ih (Nat.lt_of_succ_lt_succ dotted)
        rw [List.cons_append, List.drop_succ_cons, ← tail]

theorem layerName_of {ggufName : Bytes} {layer : Int}
    (blk : ggufName.take 4 = ascii "blk.")
    (dotted : ((ggufName.drop 4).takeWhile (· != 46)).length < (ggufName.drop 4).length)
    (whole : stoi ((ggufName.drop 4).takeWhile (· != 46)) =
      some (layer, ((ggufName.drop 4).takeWhile (· != 46)).length)) :
    LayerName ggufName ((ggufName.drop 4).takeWhile (· != 46)) layer
      ((ggufName.drop 4).drop (((ggufName.drop 4).takeWhile (· != 46)).length + 1)) := by
  constructor
  · rw [← split_at_dot _ dotted, ← blk, List.take_append_drop]
  · intro c member
    have kept := List.mem_takeWhile_imp member
    exact bne_iff_ne.mp kept
  · exact whole

/-- An accepted name is a layer's or one of the global names. -/
theorem accepted_cases {ggufName : Bytes} {value : String}
    (accepted : ggufNameToValueName ggufName = .ok value) :
    (∃ index layer suffix name, LayerName ggufName index layer suffix ∧
      suffixName layerSuffixes suffix = some name ∧
      value = "layer_" ++ toString layer ++ "." ++ name) ∨
    suffixName globalSuffixes ggufName = some value := by
  unfold ggufNameToValueName at accepted
  dsimp only at accepted
  split at accepted
  · rename_i layered
    split at accepted
    · cases accepted
    · rename_i layer pos read
      split at accepted
      · cases accepted
      · rename_i complete
        rw [not_not.mp complete] at read
        split at accepted
        · rename_i name found
          cases accepted
          exact Or.inl ⟨_, layer, _, name, layerName_of layered.1 layered.2 read, found, rfl⟩
        · exact Or.inr (globalName_ok accepted)
  · exact Or.inr (globalName_ok accepted)

/-! The tables and the decimal layer number lose nothing. -/

theorem suffixName_listed {table : List (String × String)} {suffix : Bytes} {name : String}
    (found : suffixName table suffix = some name) :
    ∃ pair ∈ table, ascii pair.1 = suffix ∧ pair.2 = name := by
  rw [suffixName, Option.map_eq_some_iff] at found
  obtain ⟨pair, at_pair, rfl⟩ := found
  exact ⟨pair, List.mem_of_find?_eq_some at_pair, by simpa using List.find?_some at_pair, rfl⟩

theorem suffixName_injective {table : List (String × String)} {first second : Bytes}
    {name : String} (distinct : (table.map Prod.snd).Nodup)
    (one : suffixName table first = some name) (two : suffixName table second = some name) :
    first = second := by
  obtain ⟨left, leftListed, rfl, rfl⟩ := suffixName_listed one
  obtain ⟨right, rightListed, rfl, same⟩ := suffixName_listed two
  rw [List.inj_on_of_nodup_map distinct rightListed leftListed same]

theorem layerSuffixes_nodup : (layerSuffixes.map Prod.snd).Nodup := by simp [layerSuffixes]

theorem globalSuffixes_nodup : (globalSuffixes.map Prod.snd).Nodup := by simp [globalSuffixes]

theorem toString_toList (layer : Int) :
    (toString layer).toList =
      (if layer < 0 then ['-'] else []) ++ Nat.toDigits 10 layer.natAbs := by
  rw [Int.toString_eq_repr, Int.repr_eq_if]
  by_cases negative : layer < 0
  · rw [if_neg (by omega), if_pos negative]
    have size : (-layer).toNat = layer.natAbs := by omega
    simp [size, Nat.toList_repr]
  · rw [if_pos (by omega), if_neg negative]
    have size : layer.toNat = layer.natAbs := by omega
    simp [size, Nat.toList_repr]

theorem toString_digits {layer : Int} {c : Char} (member : c ∈ (toString layer).toList) :
    c = '-' ∨ c.isDigit = true := by
  rw [toString_toList, List.mem_append] at member
  rcases member with sign | digit
  · split at sign
    · exact Or.inl (List.mem_singleton.mp sign)
    · cases sign
  · exact Or.inr (Nat.isDigit_of_mem_toDigits (by decide) (by decide) digit)

theorem before_layer_dot (layer : Int) (rest : List Char) :
    ((toString layer).toList ++ '.' :: rest).takeWhile (· != '.') = (toString layer).toList := by
  rw [List.takeWhile_append_of_pos, List.takeWhile_cons_of_neg (by simp), List.append_nil]
  intro c member
  rw [bne_iff_ne]
  rintro rfl
  rcases toString_digits member with sign | digit
  · exact absurd sign (by decide)
  · exact absurd digit (by decide)

theorem layerValue_toList (layer : Int) (name : String) :
    ("layer_" ++ toString layer ++ "." ++ name).toList =
      "layer_".toList ++ ((toString layer).toList ++ '.' :: name.toList) := by
  simp

theorem layerValue_injective {left right : Int} {first second : String}
    (same : "layer_" ++ toString left ++ "." ++ first =
      "layer_" ++ toString right ++ "." ++ second) : left = right ∧ first = second := by
  have chars := congrArg String.toList same
  rw [layerValue_toList, layerValue_toList, List.append_cancel_left_eq] at chars
  have index := congrArg (List.takeWhile (· != '.')) chars
  rw [before_layer_dot, before_layer_dot] at index
  rw [index, List.append_cancel_left_eq] at chars
  exact ⟨Int.repr_inj.mp (String.toList_inj.mp index),
    String.toList_inj.mp (List.cons_eq_cons.mp chars).2⟩

theorem layerValue_not_global {ggufName : Bytes} {layer : Int} {name : String} :
    suffixName globalSuffixes ggufName ≠ some ("layer_" ++ toString layer ++ "." ++ name) := by
  intro found
  obtain ⟨pair, listed, -, same⟩ := suffixName_listed found
  have start := congrArg (fun value : String => value.toList.take 2) same
  rw [layerValue_toList] at start
  have short : ∀ pair ∈ globalSuffixes, pair.2.toList.take 2 ≠ ['l', 'a'] := by
    simp [globalSuffixes]
  exact short pair listed start

/-- Two accepted names have one value when they are the same, or name one layer's tensor. -/
theorem value_eq_iff {first second : Bytes} {value other : String}
    (one : ggufNameToValueName first = .ok value)
    (two : ggufNameToValueName second = .ok other) :
    value = other ↔ first = second ∨ SameLayerTensor first second := by
  constructor
  · rintro rfl
    rcases accepted_cases one with ⟨index, layer, suffix, name, named, found, rfl⟩ | found
    · rcases accepted_cases two with ⟨index', layer', suffix', name', named', found', same⟩ | found'
      · obtain ⟨rfl, rfl⟩ := layerValue_injective same
        obtain rfl := suffixName_injective layerSuffixes_nodup found found'
        obtain ⟨pair, listed, rfl, -⟩ := suffixName_listed found
        exact Or.inr ⟨layer, _, List.mem_map_of_mem listed, ⟨index, named⟩, index', named'⟩
      · exact absurd found' layerValue_not_global
    · rcases accepted_cases two with ⟨index', layer', suffix', name', named', found', rfl⟩ | found'
      · exact absurd found layerValue_not_global
      · exact Or.inl (suffixName_injective globalSuffixes_nodup found found')
  · rintro (rfl | ⟨layer, suffix, listed, ⟨index, named⟩, index', named'⟩)
    · rw [one] at two
      exact Except.ok.inj two
    · obtain ⟨pair, member, rfl⟩ := List.mem_map.mp listed
      have found := suffixName_of_mem layerSuffixes_distinct member
      rw [layerName_value named found] at one
      rw [layerName_value named' found] at two
      exact (Except.ok.inj one).symm.trans (Except.ok.inj two)

/-- The last tensor that maps to a value owns it: one of the right name, if all are. -/
theorem foldNames_owner (infos : List GGUFTensorInfo) (map : String → Option Bytes)
    (value : String) (name : Bytes)
    (only : ∀ ti ∈ infos, ggufNameToValueName ti.name = .ok value → ti.name = name)
    (present : map value = some name ∨
      ∃ ti ∈ infos, ggufNameToValueName ti.name = .ok value) :
    infos.foldl (fun map ti =>
      match ggufNameToValueName ti.name with
      | .ok mapped => assign map mapped ti.name
      | .error _ => map) map value = some name := by
  induction infos generalizing map with
  | nil => exact present.elim id fun none => by simp at none
  | cons first rest ih =>
      apply ih _ fun ti listed => only ti (List.mem_cons_of_mem _ listed)
      dsimp only
      cases translated : ggufNameToValueName first.name with
      | error status =>
          rcases present with before | ⟨ti, listed, owns⟩
          · exact Or.inl before
          · rcases List.mem_cons.mp listed with rfl | later
            · rw [translated] at owns
              cases owns
            · exact Or.inr ⟨ti, later, owns⟩
      | ok mapped =>
          by_cases same : value = mapped
          · subst same
            have own := only first List.mem_cons_self translated
            exact Or.inl (by simp [assign, own])
          · rcases present with before | ⟨ti, listed, owns⟩
            · exact Or.inl (by simpa [assign, same] using before)
            · rcases List.mem_cons.mp listed with rfl | later
              · rw [translated] at owns
                exact absurd (Except.ok.inj owns).symm same
              · exact Or.inr ⟨ti, later, owns⟩

/-- Two accepted names share a value exactly when they spell one layer's tensor in two ways;
in a file without such a pair every accepted tensor is the one its value is loaded from. -/
theorem name_mapping_injective_iff (file : GGUFFile) (first second : Bytes)
    (value other : String) (different : first ≠ second)
    (one : ggufNameToValueName first = .ok value)
    (two : ggufNameToValueName second = .ok other) :
    (value ≠ other ↔ ¬ SameLayerTensor first second) ∧
    ((∀ ti ∈ file.tensorInfos, ∀ rival ∈ file.tensorInfos, ti.name ≠ rival.name →
        ¬ SameLayerTensor ti.name rival.name) →
      ∀ ti ∈ file.tensorInfos, ∀ loaded, ggufNameToValueName ti.name = .ok loaded →
        mapNames file loaded = some ti.name) := by
  constructor
  · rw [ne_eq, value_eq_iff one two]
    exact not_congr (or_iff_right different)
  · intro spelled ti listed loaded accepted
    refine foldNames_owner _ _ _ _ (fun rival member owns => ?_) (Or.inr ⟨ti, listed, accepted⟩)
    by_contra apart
    rcases (value_eq_iff owns accepted).mp rfl with same | collide
    · exact apart same
    · exact spelled rival member ti listed apart collide

/-- A file of two layers' query weights. -/
def twoLayers : GGUFFile where
  version := 3
  tensorCount := 2
  metadataKvCount := 0
  dataOffset := 0
  sourcePath := "two.gguf"
  memoryView := none
  metadata := []
  tensorInfos := [⟨ascii "blk.0.attn_q.weight", .F32, [2, 2], 0⟩,
    ⟨ascii "blk.1.attn_q.weight", .F32, [2, 2], 16⟩]

theorem name_mapping_injective_iff_layers :
    ¬ SameLayerTensor (ascii "blk.0.attn_q.weight") (ascii "blk.1.attn_q.weight") :=
  (name_mapping_injective_iff twoLayers (ascii "blk.0.attn_q.weight")
    (ascii "blk.1.attn_q.weight") "layer_0.q_proj.weight" "layer_1.q_proj.weight"
    (by decide +kernel) (by decide +kernel) (by decide +kernel)).1.mp (by decide)

/-- `blk.00.attn_q.weight` is read as layer 0 as well. -/
theorem leadingZero_collides :
    ¬ ∀ first second value other, first ≠ second → ggufNameToValueName first = .ok value →
      ggufNameToValueName second = .ok other → value ≠ other := by
  intro injective
  have plain : ggufNameToValueName (ascii "blk.0.attn_q.weight") = .ok "layer_0.q_proj.weight" := by
    decide +kernel
  have padded : ggufNameToValueName (ascii "blk.00.attn_q.weight") =
      .ok "layer_0.q_proj.weight" := by
    decide +kernel
  exact injective _ _ _ _ (by decide +kernel) plain padded rfl

end WeightLoader

end MiniLLM
