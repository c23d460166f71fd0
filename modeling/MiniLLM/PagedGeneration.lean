import MiniLLM.PagedServing

/-!
The program of examples/generate_paged.cpp: several prompts are prefilled one after the
other on contiguous caches, their rows are copied to one paged cache, and a decode loop
gives every sequence one token a round on a shared context. Beside it stands what a prompt
gets alone. Token counts are `int`s and exact below 2³¹.
-/

namespace MiniLLM

open Loops CpuKernelAdapter Softmax PagedKVCache
open scoped List

/-- `PagedGenerationSession`, with its flag of `seq_done`. -/
structure PagedGenerationSession where
  promptTokens : List Int
  generatedTokens : List Int := []
  seqDone : Bool := false

namespace PagedGenerationSession

/-- A sampled token ends the sequence or joins it; a full sequence is done. -/
def push (session : PagedGenerationSession) (eos : Int) (maxNewTokens : Nat) (next : Int) :
    PagedGenerationSession :=
  if next = eos then { session with seqDone := true }
  else
    { session with
      generatedTokens := session.generatedTokens ++ [next]
      seqDone := decide (session.generatedTokens.length + 1 ≥ maxNewTokens) }

def text (session : PagedGenerationSession) : List Int :=
  session.promptTokens ++ session.generatedTokens

end PagedGenerationSession

variable {α : Type} [Field α] [LinearOrder α]

/-- The sampler as the program sets it up: greedy. -/
def pagedSampling (ops : SamplerOps α) (eos : Int) : Sampling α where
  ops := ops
  cfg := { greedy := true, topK := 1, topP := 1, temperature := 0, repetitionPenalty := 11 / 10 }
  draws := fun _ => 0
  eos := eos

namespace Decoder

/-- Blocks for every sequence, for its prompt and what it may generate. -/
def reserveAll (prompts : List (List Int)) (maxNewTokens : Nat) (cache : PagedKVCache α) :
    Option Status × PagedKVCache α :=
  loopTry prompts.length (fun id cache =>
    let (st, cache) := cache.ensureSequence id
    if !st.isOk then (some st, cache)
    else
      let (st, cache) := cache.reserveSequence id ((prompts.getD id []).length + maxNewTokens)
      if !st.isOk then (some st, cache) else (none, cache)) cache

/-- The rows of one layer. -/
def copyLayer (seqId promptLen : Nat) (kv : KVCache α) (layer : Nat) (cache : PagedKVCache α) :
    Option Status × PagedKVCache α :=
  let (st, cache) := cache.writeTokens seqId layer 0 (some (kv.layer layer).k)
    (some (kv.layer layer).v) promptLen
  if !st.isOk then (some st, cache) else (none, cache)

/-- The rows of a contiguous cache, layer by layer, into the paged one. -/
def copyToPaged (dec : Decoder α) (seqId promptLen : Nat) (kv : KVCache α)
    (cache : PagedKVCache α) : Option Status × PagedKVCache α :=
  match loopTry dec.numLayers (copyLayer seqId promptLen kv) cache with
  | (some st, cache) => (some st, cache)
  | (none, cache) =>
      let (st, cache) := cache.setSequenceLength seqId promptLen
      if !st.isOk then (some st, cache) else (none, cache)

/-- Prefill of one prompt: its rows in the paged cache and its first token. -/
def prefillSession (dec : Decoder α) (sampling : Sampling α) (maxNewTokens seqId : Nat)
    (ctx : ModelContext α) (prompt : List Int) (cache : PagedKVCache α) :
    Option (PagedKVCache α × Int) :=
  let promptLen := prompt.length
  let kv := KVCache.init {} dec.numLayers dec.nkv dec.hd (promptLen + maxNewTokens : Nat)
  match dec.run promptLen (dec.fillIds promptLen prompt
      { ctx with kvCache := some kv, kvCacheAdvanceTokens := promptLen }) with
  | (some _, _) => none
  | (none, ctx) =>
      match dec.copyToPaged seqId promptLen (ctx.kvCache.getD kv) cache with
      | (some _, _) => none
      | (none, cache) =>
          match dec.logitsTensor promptLen ctx with
          | none => none
          | some logits =>
              (sampling.next dec.vocab 0
                (fun t => logits.data ((promptLen - 1) * dec.vocab + t)) prompt).map (cache, ·)

/-- What the loops of the program work on. -/
structure PagedGeneration (α : Type) where
  cache : PagedKVCache α
  ctx : ModelContext α
  sessions : Nat → PagedGenerationSession

/-- Step 6; the program ends with exit code 1 when a prefill fails. -/
def prefillAll (dec : Decoder α) (sampling : Sampling α) (maxNewTokens : Nat)
    (contexts : Nat → ModelContext α) (count : Nat) (state : PagedGeneration α) :
    Option Int × PagedGeneration α :=
  loopTry count (fun id state =>
    let session := state.sessions id
    match dec.prefillSession sampling maxNewTokens id (contexts id) session.promptTokens
        state.cache with
    | none => (some 1, state)
    | some (cache, first) =>
        (none, { state with
          cache := cache
          sessions := Function.update state.sessions id
            { session with generatedTokens := session.generatedTokens ++ [first] } })) state

/-- One sequence's turn in a round of the decode loop. -/
def turn (dec : Decoder α) (sampling : Sampling α) (maxNewTokens id : Nat)
    (state : PagedGeneration α) : PagedGeneration α :=
  let session := state.sessions id
  if session.seqDone then state
  else
    -- The last token is run now: its row is not in the cache yet.
    let (failure, ctx) :=
      dec.serveRun state.cache id [session.generatedTokens.getLastD 0] state.ctx
    -- A failed run ends this sequence only.
    let next : PagedGenerationSession :=
      if failure.isSome then { session with seqDone := true }
      else
        match dec.logitsTensor 1 ctx with
        | none => { session with seqDone := true }
        | some logits =>
            match sampling.next dec.vocab 0 logits.data session.text with
            | none => { session with seqDone := true }
            | some token => session.push sampling.eos maxNewTokens token
    { cache := ctx.pagedKvCache.getD state.cache, ctx := ctx,
      sessions := Function.update state.sessions id next }

/-- Step 7: rounds over all sequences while one is active. -/
def decodeRounds (dec : Decoder α) (sampling : Sampling α) (maxNewTokens count : Nat) :
    Nat → PagedGeneration α → PagedGeneration α
  | 0, state => state
  | steps + 1, state =>
      -- `active_count` counts the flags of `seq_done` that are not set.
      if (List.range count).all fun id => (state.sessions id).seqDone then state
      else
        decodeRounds dec sampling maxNewTokens count steps
          (loop count (dec.turn sampling maxNewTokens) state)

/-- The program on tokenized prompts: the generated tokens of each, or its exit code. Its contexts are
those of `generate`. -/
def generatePaged (dec : Decoder α) (sampling : Sampling α) (prompts : List (List Int))
    (maxNewTokens blockSize maxBlocks : Nat) (contexts : Nat → ModelContext α)
    (decodeCtx : ModelContext α) : Except Int (List (List Int)) :=
  let (st, cache) := PagedKVCache.init {} dec.numLayers dec.nkv dec.hd blockSize maxBlocks
  if !st.isOk then .error 1
  else
    match reserveAll prompts maxNewTokens cache with
    | (some _, _) => .error 1
    | (none, cache) =>
        let sessions := fun id => { promptTokens := prompts.getD id [] }
        match dec.prefillAll sampling maxNewTokens contexts prompts.length
            { cache := cache, ctx := decodeCtx, sessions := sessions } with
        | (some code, _) => .error code
        | (none, state) =>
            let final := dec.decodeRounds sampling maxNewTokens prompts.length maxNewTokens state
            .ok ((List.range prompts.length).map fun id => (final.sessions id).generatedTokens)

/-- A turn of a sequence on its own: sampling from the decoder's logits behind its text. -/
def turnAlone (dec : Decoder α) (sampling : Sampling α) (maxNewTokens : Nat)
    (session : PagedGenerationSession) : PagedGenerationSession :=
  if session.seqDone then session
  else
    match sampling.next dec.vocab 0
        ((dec.onText session.text).logits (session.text.length - 1)) session.text with
    | none => { session with seqDone := true }
    | some token => session.push sampling.eos maxNewTokens token

/-- The session of a prompt behind its first token. -/
def firstAlone (dec : Decoder α) (sampling : Sampling α) (prompt : List Int) :
    PagedGenerationSession :=
  { promptTokens := prompt
    generatedTokens := (sampling.next dec.vocab 0
      ((dec.onText prompt).logits (prompt.length - 1)) prompt).toList }

/-- What a prompt gets alone. -/
def generatedAlone (dec : Decoder α) (sampling : Sampling α) (maxNewTokens : Nat)
    (prompt : List Int) : List Int :=
  ((dec.turnAlone sampling maxNewTokens)^[maxNewTokens]
    (dec.firstAlone sampling prompt)).generatedTokens

section Alone

variable {dec : Decoder α} (sampling : Sampling α) {maxNewTokens : Nat}

/-- What holds of the session of a prompt after any number of turns alone. -/
structure Speaks (dec : Decoder α) (prompt : List Int) (turns : Nat)
    (session : PagedGenerationSession) : Prop where
  prompt : session.promptTokens = prompt
  nonempty : session.generatedTokens ≠ []
  inside : ∀ token ∈ session.generatedTokens, 0 ≤ token ∧ token < dec.vocab
  short : session.generatedTokens.length ≤ turns + 1

omit [Field α] [LinearOrder α] in
theorem Speaks.push {prompt : List Int} {turns : Nat} {session : PagedGenerationSession}
    (speaks : Speaks dec prompt turns session) (eos : Int) {token : Int}
    (inside : 0 ≤ token ∧ token < dec.vocab) :
    Speaks dec prompt (turns + 1) (session.push eos maxNewTokens token) := by
  have short := speaks.short
  unfold PagedGenerationSession.push
  split
  · exact ⟨speaks.prompt, speaks.nonempty, speaks.inside, Nat.le_succ_of_le short⟩
  · refine ⟨speaks.prompt, by simp, fun other member => ?_, ?_⟩
    · rcases List.mem_append.mp member with old | new
      · exact speaks.inside other old
      · rw [List.mem_singleton.mp new]
        exact inside
    · simp only [List.length_append, List.length_singleton]
      omega

theorem Speaks.turn (wf : dec.WellFormed) {prompt : List Int} {turns : Nat}
    {session : PagedGenerationSession} (speaks : Speaks dec prompt turns session) :
    Speaks dec prompt (turns + 1) (dec.turnAlone sampling maxNewTokens session) := by
  have short := speaks.short
  unfold turnAlone
  split
  · exact ⟨speaks.prompt, speaks.nonempty, speaks.inside, Nat.le_succ_of_le short⟩
  · obtain ⟨token, chosen, inside⟩ := Sampler.sample_inside sampling.ops
      ((dec.onText session.text).logits (session.text.length - 1)) wf.positive.2.2.1 sampling.cfg
      session.text (sampling.draws 0)
    rw [show sampling.next dec.vocab 0 ((dec.onText session.text).logits (session.text.length - 1))
      session.text = some token from chosen]
    exact speaks.push sampling.eos inside

theorem speaks_alone (wf : dec.WellFormed) (prompt : List Int) (turns : Nat) :
    Speaks dec prompt turns
      ((dec.turnAlone sampling maxNewTokens)^[turns] (dec.firstAlone sampling prompt)) := by
  induction turns with
  | zero =>
      obtain ⟨first, chosen, inside⟩ := Sampler.sample_inside sampling.ops
        ((dec.onText prompt).logits (prompt.length - 1)) wf.positive.2.2.1 sampling.cfg prompt
        (sampling.draws 0)
      have tokens : (dec.firstAlone sampling prompt).generatedTokens = [first] := by
        rw [firstAlone, show sampling.next dec.vocab 0 ((dec.onText prompt).logits
          (prompt.length - 1)) prompt = some first from chosen]
        rfl
      refine ⟨rfl, ?_, ?_, ?_⟩
      all_goals rw [Function.iterate_zero, id_eq, tokens]
      · exact List.cons_ne_nil _ _
      · simpa using inside
      · exact le_rfl
  | succ turns ih =>
      rw [Function.iterate_succ_apply']
      exact ih.turn sampling wf

/-- A sequence that is done stays as it is. -/
theorem turnAlone_done {session : PagedGenerationSession} (done : session.seqDone = true)
    (turns : Nat) : (dec.turnAlone sampling maxNewTokens)^[turns] session = session := by
  refine Function.iterate_fixed ?_ turns
  rw [turnAlone, if_pos done]

/-- An active sequence has its last token behind the text of the turn. -/
theorem turnAlone_open {session : PagedGenerationSession}
    (active : (dec.turnAlone sampling maxNewTokens session).seqDone = false) :
    (dec.turnAlone sampling maxNewTokens session).promptTokens ++
      (dec.turnAlone sampling maxNewTokens session).generatedTokens.dropLast = session.text := by
  unfold turnAlone at active ⊢
  split at active
  · next done =>
      rw [done] at active
      cases active
  · next ongoing =>
      rw [if_neg ongoing]
      split at active
      · cases active
      · next token chosen =>
          simp only [PagedGenerationSession.push] at active ⊢
          split at active
          · cases active
          · next apart =>
              rw [if_neg apart, List.dropLast_concat]
              rfl

/-- The session of a prompt after `turns` turns, beside the program for one sequence. -/
structure Follows (dec : Decoder α) (sampling : Sampling α) (maxNewTokens : Nat)
    (prompt : List Int) (turns : Nat) (session : PagedGenerationSession) : Prop where
  active : session.seqDone = false → session.generatedTokens.length = turns + 1 ∧
    turns + 1 < maxNewTokens ∧ dec.continued sampling maxNewTokens 0 prompt =
      dec.continued sampling (maxNewTokens - (turns + 1)) (turns + 1) session.text
  ended : session.seqDone = true → session.text = dec.continued sampling maxNewTokens 0 prompt

theorem Follows.turn (wf : dec.WellFormed) {ops : SamplerOps α} {eos : Int} {prompt : List Int}
    {turns : Nat} {session : PagedGenerationSession}
    (follows : dec.Follows (pagedSampling ops eos) maxNewTokens prompt turns session) :
    dec.Follows (pagedSampling ops eos) maxNewTokens prompt (turns + 1)
      (dec.turnAlone (pagedSampling ops eos) maxNewTokens session) := by
  by_cases done : session.seqDone = true
  · rw [turnAlone, if_pos done]
    refine ⟨fun active => ?_, follows.ended⟩
    rw [done] at active
    cases active
  obtain ⟨length, early, same⟩ := follows.active (Bool.eq_false_iff.mpr done)
  obtain ⟨rest, left⟩ := Nat.exists_eq_add_of_lt early
  rw [show maxNewTokens - (turns + 1) = rest + 1 by omega, continued] at same
  obtain ⟨token, chosen, _⟩ := Sampler.sample_inside ops
    ((dec.onText session.text).logits (session.text.length - 1)) wf.positive.2.2.1
    (pagedSampling ops eos).cfg session.text ((pagedSampling ops eos).draws 0)
  -- Greedy sampling draws nothing, so the step it is at does not matter.
  have next : ∀ step, (pagedSampling ops eos).next dec.vocab step
      ((dec.onText session.text).logits (session.text.length - 1)) session.text = some token :=
    fun _ => chosen
  rw [next] at same
  rw [turnAlone, if_neg done, next]
  simp only [PagedGenerationSession.push] at same ⊢
  by_cases stop : token = (pagedSampling ops eos).eos
  · rw [if_pos stop] at same ⊢
    exact ⟨fun no => (by cases no), fun _ => same.symm⟩
  · rw [if_neg stop] at same ⊢
    have grown : session.promptTokens ++ (session.generatedTokens ++ [token]) =
        session.text ++ [token] := (List.append_assoc _ _ _).symm
    refine ⟨fun active => ?_, fun full => ?_⟩
    · have short := of_decide_eq_false active
      refine ⟨by rw [List.length_append, length]; rfl, by omega, ?_⟩
      rw [same, show maxNewTokens - (turns + 1 + 1) = rest by omega]
      exact congrArg _ grown.symm
    · have enough := of_decide_eq_true full
      obtain rfl : rest = 0 := by omega
      exact grown.trans same.symm

/-- When the first token does not end the text, what a prompt gets alone is what the
program for one sequence generates. -/
theorem generatedAlone_continued (wf : dec.WellFormed) {ops : SamplerOps α} {eos : Int}
    {prompt : List Int} (budget : 2 ≤ maxNewTokens)
    (goes : (pagedSampling ops eos).next dec.vocab 0
      ((dec.onText prompt).logits (prompt.length - 1)) prompt ≠ some eos) :
    prompt ++ dec.generatedAlone (pagedSampling ops eos) maxNewTokens prompt =
      dec.continued (pagedSampling ops eos) maxNewTokens 0 prompt := by
  obtain ⟨first, chosen, _⟩ := Sampler.sample_inside ops
    ((dec.onText prompt).logits (prompt.length - 1)) wf.positive.2.2.1
    (pagedSampling ops eos).cfg prompt ((pagedSampling ops eos).draws 0)
  change (pagedSampling ops eos).next dec.vocab 0
    ((dec.onText prompt).logits (prompt.length - 1)) prompt = some first at chosen
  rw [chosen] at goes
  have start : dec.Follows (pagedSampling ops eos) maxNewTokens prompt 0
      (dec.firstAlone (pagedSampling ops eos) prompt) := by
    refine ⟨fun _ => ?_, fun no => (by cases no)⟩
    obtain ⟨more, rfl⟩ := Nat.exists_eq_add_of_le' (show 1 ≤ maxNewTokens by omega)
    rw [firstAlone, continued, chosen]
    refine ⟨rfl, budget, ?_⟩
    exact if_neg fun stop => goes (congrArg some stop)
  have follows : ∀ turns, dec.Follows (pagedSampling ops eos) maxNewTokens prompt turns
      ((dec.turnAlone (pagedSampling ops eos) maxNewTokens)^[turns]
        (dec.firstAlone (pagedSampling ops eos) prompt)) := by
    intro turns
    induction turns with
    | zero => exact start
    | succ turns ih =>
        rw [Function.iterate_succ_apply']
        exact ih.turn wf
  have ended := (follows maxNewTokens).ended (by
    by_contra active
    have early := ((follows maxNewTokens).active (Bool.eq_false_iff.mpr active)).2.1
    omega)
  rw [PagedGenerationSession.text, (speaks_alone _ wf prompt maxNewTokens).prompt] at ended
  exact ended

end Alone

end Decoder

end MiniLLM
