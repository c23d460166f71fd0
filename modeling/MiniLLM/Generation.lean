import MiniLLM.CandidateTokens
import MiniLLM.CachedDecoding
import Mathlib.Data.List.GetD

/-!
The generation loop of examples/generate.cpp: a prefill of the prompt, then one-token
runs on a second context that shares the KV cache. It returns the tokens that sampling
from the decoder's own logits over the whole history would return.
-/

namespace MiniLLM

open Loops Softmax CpuKernelAdapter

variable {α : Type} [Field α] [LinearOrder α]

/-- The sampler with its configuration, its draws, and the token that ends a text. -/
structure Sampling (α : Type) [LinearOrder α] where
  ops : SamplerOps α
  cfg : SamplingConfig α
  draws : Nat → α
  eos : Int

def Sampling.next (sampling : Sampling α) (vocab step : Nat) (logits : Buffer α)
    (tokens : List Int) : Option Int :=
  Sampler.sample sampling.ops (some logits) vocab sampling.cfg tokens (sampling.draws step)

namespace Sampler

/-- The sampler returns a token of the vocabulary. -/
theorem sample_inside (ops : SamplerOps α) (logits : Buffer α) {vocab : Nat} (some : 0 < vocab)
    (cfg : SamplingConfig α) (tokens : List Int) (r : α) :
    ∃ id, sample ops (.some logits) vocab cfg tokens r = .some id ∧ 0 ≤ id ∧ id < vocab := by
  have length := probabilities_length ops cfg tokens ((List.range vocab).map logits)
  rw [List.length_map, List.length_range] at length
  simp only [sample, if_neg (show ¬ (vocab : Int) ≤ 0 by omega), Int.toNat_natCast]
  generalize probabilities ops cfg tokens ((List.range vocab).map logits) = probs at *
  have nonempty : probs ≠ [] := by
    rw [← List.length_pos_iff]
    omega
  have set := nucleus_candidates nonempty (topTokens_ranked ops cfg probs)
  have inside : ∀ c ∈ nucleus cfg (topTokens ops cfg probs), 0 ≤ c.id ∧ c.id < vocab := by
    intro c listed
    have token : Token probs c := by
      have order := topTokens_ranked ops cfg probs
      unfold nucleus at listed
      split at listed
      · exact order.tokens c (List.take_subset _ _ listed)
      · exact order.tokens c listed
    obtain ⟨i, id, found⟩ := token
    have := (List.getElem?_eq_some_iff.mp found).1
    omega
  generalize nucleus cfg (topTokens ops cfg probs) = candidates at *
  split
  · obtain ⟨first, rest, rfl⟩ := List.exists_cons_of_ne_nil set.nonempty
    refine ⟨_, rfl, ?_⟩
    refine List.foldlRecOn (motive := fun best : TokenProb α => 0 ≤ best.id ∧ best.id < vocab) _ _
      (inside first List.mem_cons_self) fun best held c listed => ?_
    split
    · exact inside c listed
    · exact held
  · obtain ⟨id, listed, chosen⟩ := stochastic_mem r set.nonempty
    obtain ⟨c, member, rfl⟩ := List.mem_map.mp listed
    exact ⟨_, chosen, inside c member⟩

/-- Only the logits of the vocabulary count. -/
theorem sample_congr (ops : SamplerOps α) {logits others : Buffer α} {vocab : Nat}
    (same : ∀ t < vocab, logits t = others t) (cfg : SamplingConfig α) (tokens : List Int) (r : α) :
    sample ops (some logits) vocab cfg tokens r = sample ops (some others) vocab cfg tokens r := by
  have rows : (List.range vocab).map logits = (List.range vocab).map others :=
    List.map_congr_left fun t member => same t (List.mem_range.mp member)
  simp only [sample, Int.toNat_natCast, rows]

end Sampler

namespace Decoder

/-- The ids go to the tensor of every input named `input_ids`. -/
def fillIds (dec : Decoder α) (n : Nat) (ids : List Int) (ctx : ModelContext α) : ModelContext α :=
  { ctx with tokens := fun id =>
      match (dec.graph n).values[id]? with
      | some value =>
          if value.name = "input_ids" ∧ value.kind = .input then
            (ctx.tokens id).map fun tensor =>
              { tensor with data := copyFloats ids.length tensor.data 0 fun i => ids.getD i 0 }
          else ctx.tokens id
      | none => ctx.tokens id }

/-- The decode loop, `steps` tokens at most; `tokens` is `all_tokens`. -/
def decodeLoop (dec : Decoder α) (sampling : Sampling α) :
    Nat → Nat → List Int → ModelContext α → List Int
  | 0, _, tokens, _ => tokens
  | steps + 1, step, tokens, ctx =>
      match dec.run 1 (dec.fillIds 1 [tokens.getLastD 0] ctx) with
      | (some _, _) => tokens
      | (none, ctx) =>
          match dec.logitsTensor 1 ctx with
          | none => tokens
          | some logits =>
              match sampling.next dec.vocab step logits.data tokens with
              | none => tokens
              | some next =>
                  if next = sampling.eos then tokens
                  else decodeLoop dec sampling steps (step + 1) (tokens ++ [next]) ctx

/-- The program after its setup: the prompt and what was generated, unless the prefill fails. Its
contexts hold a tensor for every value, where the source has planned arenas: `planned_run_agrees` is
about those. -/
def generate (dec : Decoder α) (sampling : Sampling α) (prompt : List Int) (maxNewTokens : Nat)
    (prefillCtx decodeCtx : ModelContext α) : Option (List Int) :=
  let promptLen := prompt.length
  let cache := KVCache.init {} dec.numLayers dec.nkv dec.hd (promptLen + maxNewTokens : Nat)
  let prefillCtx := { prefillCtx with kvCache := some cache, kvCacheAdvanceTokens := promptLen }
  match dec.run promptLen (dec.fillIds promptLen prompt prefillCtx) with
  | (some _, _) => none
  | (none, prefillCtx) =>
      match dec.logitsTensor promptLen prefillCtx with
      | none => none
      | some logits =>
          match sampling.next dec.vocab 0
              (fun t => logits.data ((promptLen - 1) * dec.vocab + t)) prompt with
          | none => none
          | some first =>
              if first = sampling.eos then some prompt
              else some (decodeLoop dec sampling (maxNewTokens - 1) 1 (prompt ++ [first])
                { decodeCtx with kvCache := prefillCtx.kvCache, kvCacheAdvanceTokens := 1 })

/-- The decoder on a text. -/
def onText (dec : Decoder α) (tokens : List Int) : Decoder α := dec.reading fun p => tokens.getD p 0

/-- Sampling from the decoder's logits behind the whole text, `steps` tokens at most. -/
def continued (dec : Decoder α) (sampling : Sampling α) : Nat → Nat → List Int → List Int
  | 0, _, tokens => tokens
  | steps + 1, step, tokens =>
      match sampling.next dec.vocab step ((dec.onText tokens).logits (tokens.length - 1)) tokens with
      | none => tokens
      | some next =>
          if next = sampling.eos then tokens
          else continued dec sampling steps (step + 1) (tokens ++ [next])

/-- A context with a tensor for every value and the weights in place. -/
def Equipped (dec : Decoder α) (n : Nat) (ctx : ModelContext α) : Prop :=
  ∃ tokens, (dec.reading tokens).Loaded 0 n ctx

section Contexts

variable {dec : Decoder α} {start n : Nat} {ctx : ModelContext α}

omit [Field α] [LinearOrder α] in
theorem Loaded.equipped {tokens : Nat → Int} (loaded : (dec.reading tokens).Loaded start n ctx) :
    dec.Equipped n ctx := by
  refine ⟨fun s => tokens (start + s), fun id value found => ?_⟩
  have held := loaded id value found
  split at held
  · next input =>
      rw [if_pos input]
      simpa only [reading, Nat.zero_add] using held
  · next computed =>
      rw [if_neg computed]
      exact held

omit [LinearOrder α] in
theorem Runs.named (runs : dec.Runs start n) {value : Value} (member : value ∈ (dec.graph n).values)
    (input : value.kind = .input) : value.name = "input_ids" := by
  obtain ⟨_, meanings, _, _, denotes, _⟩ := runs.denotes
  obtain ⟨id, found⟩ := List.getElem?_of_mem member
  have known : id < meanings.length := by
    rw [denotes.length]
    exact (List.getElem?_eq_some_iff.mp found).1
  obtain ⟨other, foundOther, _, describes⟩ :=
    denotes.value id _ (List.getElem?_eq_getElem known)
  obtain rfl := Option.some.inj (found.symm.trans foundOther)
  generalize meanings[id] = meaning at describes
  cases meaning with
  | tokens => exact describes.2
  | weight name dims =>
      rw [describes.1] at input
      cases input
  | rows width s =>
      rcases describes with is | is <;> rw [is] at input <;> cases input

omit [LinearOrder α] in
/-- Filling in the ids loads a context. -/
theorem Equipped.fill (equipped : dec.Equipped n ctx) (runs : dec.Runs start n) {ids : List Int}
    (length : ids.length = n) (same : ∀ s < n, ids.getD s 0 = dec.tokens (start + s)) :
    dec.Loaded start n (dec.fillIds n ids ctx) := by
  obtain ⟨tokens, loaded⟩ := equipped
  intro id value found
  have held := loaded id value found
  split at held
  · next input =>
      obtain ⟨unbound, tensor, binds, allocated, shape, _⟩ := held
      have named := runs.named (List.mem_of_getElem? found) input
      rw [if_pos input]
      refine ⟨unbound, { tensor with data := copyFloats ids.length tensor.data 0 fun i => ids.getD i 0 },
        ?_, allocated, shape, fun s below => ?_⟩
      · simp only [fillIds, found, named, input, and_self, if_true, binds, Option.map_some]
      · have inside : 0 ≤ s ∧ s < 0 + ids.length := by omega
        simp only [copyFloats, if_pos inside, Nat.sub_zero]
        exact same s below
  · next computed =>
      rw [if_neg computed]
      exact held

end Contexts

section Loop

variable [IsStrictOrderedRing α] {dec : Decoder α} (law : ExpLaw dec.ops.exp)
  (wf : dec.WellFormed) (layers : dec.numLayers < 2147483648)

/-- The decode context behind the tokens sampled so far; the last one is not in the
cache yet. -/
structure Decoding (dec : Decoder α) (capacity : Nat) (tokens : List Int) (ctx : ModelContext α)
    (cache : KVCache α) : Prop where
  equipped : dec.Equipped 1 ctx
  noPaged : ctx.pagedKvCache = none
  advance : ctx.kvCacheAdvanceTokens = 1
  attached : ctx.kvCache = some cache
  cached : (dec.onText tokens).Cached cache (tokens.length - 1)
  capacity : cache.maxSeqLen = capacity
  inside : ∀ token ∈ tokens, 0 ≤ token ∧ token < dec.vocab
  some : tokens ≠ []

omit [LinearOrder α] [IsStrictOrderedRing α] in
/-- More text behind the rows of a cache. -/
theorem Cached.onText_append {cache : KVCache α} {tokens : List Int} {len : Nat}
    (cached : (dec.onText tokens).Cached cache len) (short : len ≤ tokens.length) (more : List Int) :
    (dec.onText (tokens ++ more)).Cached cache len := by
  refine ⟨cached.layers, cached.length, cached.int, fun layer known row below c column => ?_⟩
  have same : ∀ i ≤ row, tokens.getD i 0 = (tokens ++ more).getD i 0 := by
    intro i earlier
    rw [List.getD_append _ _ _ _ (by omega)]
  obtain ⟨key, value⟩ := cached.rows layer known row below c column
  exact ⟨key.trans (congrFun (dec.layerKeys_causal layer same) c),
    value.trans (congrFun (dec.layerValues_causal layer same) c)⟩

include law wf layers

/-- One round of the decode loop: the logits behind the text are there, and whatever token
is taken next, the context is ready for it. -/
theorem Decoding.round {capacity : Nat} {tokens : List Int} {ctx : ModelContext α}
    {cache : KVCache α} (decoding : dec.Decoding capacity tokens ctx cache) (fits : dec.Fits 1)
    (indices : dec.CacheFits capacity) (room : tokens.length ≤ capacity) :
    ∃ after logits, dec.run 1 (dec.fillIds 1 [tokens.getLastD 0] ctx) = (none, after) ∧
      dec.logitsTensor 1 after = .some logits ∧
      (∀ t < dec.vocab, logits.data t = (dec.onText tokens).logits (tokens.length - 1) t) ∧
      ∀ next : Int, 0 ≤ next → next < dec.vocab →
        ∃ grown, dec.Decoding capacity (tokens ++ [next]) after grown := by
  have length := List.length_pos_of_ne_nil decoding.some
  let text := dec.onText tokens
  let start := tokens.length - 1
  have last : tokens.getLastD 0 = tokens.getD start 0 := by
    rw [List.getLastD_eq_getLast?, List.getLast?_eq_getElem?, List.getD_eq_getElem?_getD]
  have lastInside := decoding.inside (tokens.getD start 0) (by
    rw [List.getD_eq_getElem _ _ (by omega)]
    exact List.getElem_mem _)
  have early := indices.tiles
  have runs : text.Runs start 1 :=
    ⟨wf.reading _, Nat.one_pos, fits.reading _, by omega, layers, fun i below => by
      obtain rfl : i = 0 := by omega
      exact lastInside⟩
  have loaded : text.Loaded start 1 (dec.fillIds 1 [tokens.getLastD 0] ctx) :=
    Equipped.fill (show text.Equipped 1 ctx from decoding.equipped) runs rfl fun s below => by
      obtain rfl : s = 0 := by omega
      exact last
  obtain ⟨fine, ⟨logits, found, rows⟩, stillLoaded, noPaged, advance, grown, attached, cached, max⟩ :=
    Runs.cached (show ExpLaw text.ops.exp from law) runs
      ((indices.reading _).mono (by omega)) loaded decoding.noPaged
      decoding.attached decoding.cached decoding.advance (by rw [decoding.capacity]; omega) (Or.inr rfl)
  refine ⟨(dec.run 1 (dec.fillIds 1 [tokens.getLastD 0] ctx)).2, logits, Prod.ext fine rfl, found,
    fun t below => ?_, fun next low high => ⟨grown, ?_⟩⟩
  · have row := rows 0 Nat.one_pos t below
    rwa [Nat.zero_mul, Nat.zero_add] at row
  · have whole : start + 1 = tokens.length := by omega
    rw [whole] at cached
    refine ⟨stillLoaded.equipped, noPaged, advance, attached, ?_, max.trans decoding.capacity,
      fun token member => ?_, by simp⟩
    · rw [List.length_append, List.length_singleton, Nat.add_sub_cancel]
      exact cached.onText_append le_rfl [next]
    · rcases List.mem_append.mp member with old | new
      · exact decoding.inside token old
      · rw [List.mem_singleton.mp new]
        exact ⟨low, high⟩

theorem Decoding.loop {capacity : Nat} (sampling : Sampling α) (fits : dec.Fits 1)
    (indices : dec.CacheFits capacity) (steps : Nat) :
    ∀ (step : Nat) (tokens : List Int) (ctx : ModelContext α) (cache : KVCache α),
      dec.Decoding capacity tokens ctx cache → tokens.length + steps ≤ capacity + 1 →
      dec.decodeLoop sampling steps step tokens ctx = dec.continued sampling steps step tokens := by
  induction steps with
  | zero => exact fun _ _ _ _ _ _ => rfl
  | succ steps ih =>
      intro step tokens ctx cache decoding room
      obtain ⟨after, logits, ran, found, rows, ready⟩ :=
        decoding.round law wf layers fits indices (by omega)
      have same := Sampler.sample_congr sampling.ops rows sampling.cfg tokens (sampling.draws step)
      obtain ⟨next, chosen, low, high⟩ := Sampler.sample_inside sampling.ops
        ((dec.onText tokens).logits (tokens.length - 1)) wf.positive.2.2.1 sampling.cfg tokens
        (sampling.draws step)
      simp only [decodeLoop, ran, found, continued, Sampling.next, same, chosen]
      split
      · rfl
      · obtain ⟨grown, decodingNext⟩ := ready next low high
        refine ih (step + 1) (tokens ++ [next]) after grown decodingNext ?_
        rw [List.length_append, List.length_singleton]
        omega

/-- A prefill on a new cache: the logits behind the prompt, and its rows in the cache. -/
theorem prefill {prompt : List Int} (nonempty : prompt ≠ [])
    (inside : ∀ token ∈ prompt, 0 ≤ token ∧ token < dec.vocab) (fits : dec.Fits prompt.length)
    {capacity : Nat} (room : prompt.length ≤ capacity) (int : capacity < 2147483648)
    {ctx : ModelContext α} (ready : dec.Equipped prompt.length ctx)
    (plain : ctx.pagedKvCache = none) :
    ∃ after logits grown, dec.run prompt.length (dec.fillIds prompt.length prompt
        { ctx with kvCache := some (KVCache.init {} dec.numLayers dec.nkv dec.hd capacity)
                   kvCacheAdvanceTokens := prompt.length }) = (none, after) ∧
      dec.logitsTensor prompt.length after = some logits ∧
      (∀ t < dec.vocab, logits.data ((prompt.length - 1) * dec.vocab + t) =
        (dec.onText prompt).logits (prompt.length - 1) t) ∧
      after.kvCache = some grown ∧ (dec.onText prompt).Cached grown prompt.length ∧
      grown.maxSeqLen = capacity := by
  have length := List.length_pos_of_ne_nil nonempty
  let text := dec.onText prompt
  have read : ∀ i < prompt.length, text.tokens i ∈ prompt := by
    intro i below
    change prompt.getD i 0 ∈ prompt
    rw [List.getD_eq_getElem _ _ below]
    exact List.getElem_mem _
  have runs : text.Runs 0 prompt.length :=
    ⟨wf.reading _, length, fits.reading _, by omega, layers,
      fun i below => inside _ (read _ (by omega))⟩
  let cache : KVCache α := KVCache.init {} dec.numLayers dec.nkv dec.hd capacity
  obtain ⟨empty, max⟩ : text.Cached cache 0 ∧ cache.maxSeqLen = capacity :=
    init_cached (show text.WellFormed from wf.reading _) (by omega) int
  let start : ModelContext α :=
    { ctx with kvCache := some cache, kvCacheAdvanceTokens := prompt.length }
  have loaded : text.Loaded 0 prompt.length (dec.fillIds prompt.length prompt start) :=
    Equipped.fill (show text.Equipped prompt.length start from ready) runs rfl
      fun s _ => by rw [Nat.zero_add]; rfl
  obtain ⟨fine, ⟨logits, found, rows⟩, _, _, _, grown, attached, cached, sameMax⟩ :=
    Runs.cached (show ExpLaw text.ops.exp from law) runs
      (by rw [Nat.zero_add]; exact runs.fits.cache) loaded plain
      (show (dec.fillIds prompt.length prompt start).kvCache = some cache from rfl) empty rfl
      (by rw [max]; omega) (Or.inl rfl)
  rw [Nat.zero_add] at cached
  refine ⟨_, logits, grown, Prod.ext fine rfl, found, fun t below => ?_, attached, cached,
    sameMax.trans max⟩
  have last := rows (prompt.length - 1) (by omega) t below
  rwa [Nat.zero_add] at last

/-- The program generates what sampling from the logits of the whole text at every step
generates. -/
theorem generate_continues (sampling : Sampling α) {prompt : List Int} (nonempty : prompt ≠ [])
    (inside : ∀ token ∈ prompt, 0 ≤ token ∧ token < dec.vocab) (fits : dec.Fits prompt.length)
    {maxNewTokens : Nat} (indices : dec.CacheFits (prompt.length + maxNewTokens))
    {prefillCtx decodeCtx : ModelContext α} (prefillReady : dec.Equipped prompt.length prefillCtx)
    (decodeReady : dec.Equipped 1 decodeCtx) (prefillPlain : prefillCtx.pagedKvCache = none)
    (decodePlain : decodeCtx.pagedKvCache = none) :
    dec.generate sampling prompt maxNewTokens prefillCtx decodeCtx =
      some (dec.continued sampling (maxNewTokens - 1 + 1) 0 prompt) := by
  have length := List.length_pos_of_ne_nil nonempty
  have room := indices.tiles
  simp only [Cpu.kvTile] at room
  obtain ⟨after, logits, grown, ran, found, row, attached, cached, max⟩ :=
    dec.prefill law wf layers nonempty inside fits (show prompt.length ≤ prompt.length + maxNewTokens
      by omega) (by omega) prefillReady prefillPlain
  have same := Sampler.sample_congr sampling.ops row sampling.cfg prompt (sampling.draws 0)
  obtain ⟨next, chosen, low, high⟩ := Sampler.sample_inside sampling.ops
    ((dec.onText prompt).logits (prompt.length - 1)) wf.positive.2.2.1 sampling.cfg prompt
    (sampling.draws 0)
  have whole : dec.generate sampling prompt maxNewTokens prefillCtx decodeCtx =
      if next = sampling.eos then some prompt
      else some (dec.decodeLoop sampling (maxNewTokens - 1) 1 (prompt ++ [next])
        { decodeCtx with kvCache := after.kvCache, kvCacheAdvanceTokens := 1 }) := by
    unfold generate
    dsimp only
    rw [ran]
    simp only [found, Sampling.next, same, chosen]
  have chosenHere : sampling.next dec.vocab 0 ((dec.onText prompt).logits (prompt.length - 1))
      prompt = some next := chosen
  rw [whole, continued, chosenHere]
  dsimp only
  split
  · rfl
  · have decoding : dec.Decoding (prompt.length + maxNewTokens) (prompt ++ [next])
        { decodeCtx with kvCache := after.kvCache, kvCacheAdvanceTokens := 1 } grown := by
      refine ⟨decodeReady, decodePlain, rfl, attached, ?_, max, fun token member => ?_, by simp⟩
      · rw [List.length_append, List.length_singleton, Nat.add_sub_cancel]
        exact cached.onText_append le_rfl [next]
      · rcases List.mem_append.mp member with old | new
        · exact inside token old
        · rw [List.mem_singleton.mp new]
          exact ⟨low, high⟩
    rw [decoding.loop law wf layers sampling (fits.mono length) indices (maxNewTokens - 1) 1 _ _ _ (by
      rw [List.length_append, List.length_singleton]
      omega)]

end Loop

section Tiny

def tinySampling : Sampling ℚ :=
  { ops := Sampler.flatOps, cfg := Sampler.flatConfig, draws := fun _ => 1 / 2, eos := 7 }

theorem generate_continues_tiny :
    tinyDecoder.generate tinySampling [0, 1] 2 (tinyDecoder.newContext 0 2)
        (tinyDecoder.newContext 0 1) =
      some (tinyDecoder.continued tinySampling 2 0 [0, 1]) :=
  generate_continues unitOps_law tinyDecoder_wellFormed (by decide) tinySampling
    (show [0, 1] ≠ [] by decide) (by decide) (tinyDecoder_fits (by decide) (by decide))
    (tinyDecoder_fits (show 0 < 4 by decide) (by decide)).cache
    ⟨_, newContext_loaded tinyDecoder 0 2⟩ ⟨_, newContext_loaded tinyDecoder 0 1⟩ rfl rfl

end Tiny

end Decoder

end MiniLLM
