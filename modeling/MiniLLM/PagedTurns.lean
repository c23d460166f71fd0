import MiniLLM.PromptRows

/-!
The prefills and the decode loop of the program over several prompts. Each sequence's turns
in the loop are its turns alone, so each prompt gets the tokens it would get alone.
-/

namespace MiniLLM

open Loops CpuKernelAdapter Softmax PagedKVCache
open scoped List

variable {α : Type} [Field α] [LinearOrder α]

namespace Decoder

section Loops

variable [IsStrictOrderedRing α] {dec : Decoder α} (law : ExpLaw dec.ops.exp)
  (wf : dec.WellFormed) (layers : dec.numLayers < 2147483648) (sampling : Sampling α)
  {prompts : List (List Int)} {maxNewTokens blockSize : Nat}

/-- What the program is given: prompts that fit. -/
structure Given (dec : Decoder α) (prompts : List (List Int)) (maxNewTokens blockSize : Nat) :
    Prop where
  nonempty : ∀ p ∈ prompts, p ≠ []
  inside : ∀ p ∈ prompts, ∀ token ∈ p, 0 ≤ token ∧ token < dec.vocab
  fits : ∀ p ∈ prompts, dec.Fits p.length
  rounds : ∀ p ∈ prompts, p.length + maxNewTokens + blockSize < 2147483648

/-- The blocks of every prompt and its tokens are in the tables. -/
structure Holding (dec : Decoder α) (prompts : List (List Int)) (maxNewTokens blockSize : Nat)
    (cache : PagedKVCache α) (texts : Texts) : Prop where
  serving : ∃ map, dec.Serving cache texts map
  size : cache.blockSize = blockSize
  reserved : ∀ id : Nat, id < prompts.length →
    cache.missingBlocks id ((prompts.getD id []).length + maxNewTokens) ≤ 0

omit [LinearOrder α] [IsStrictOrderedRing α] in
theorem Holding.beside {cache after : PagedKVCache α} {texts others : Texts} {map next : RowMap α}
    {seqId : Int} (holding : dec.Holding prompts maxNewTokens blockSize cache texts)
    (beside : Beside cache map seqId after next) (serving : ∃ map, dec.Serving after others map) :
    dec.Holding prompts maxNewTokens blockSize after others :=
  ⟨serving, beside.shape.blockSize.trans holding.size, fun id known =>
    (beside.missing _ _).trans (holding.reserved id known)⟩

include law wf layers

/-- The prefill of one prompt. -/
theorem Holding.prefill (given : dec.Given prompts maxNewTokens blockSize) {cache : PagedKVCache α}
    {texts : Texts} (holding : dec.Holding prompts maxNewTokens blockSize cache texts) {id : Nat}
    (known : id < prompts.length) (free : texts id = some []) {ctx : ModelContext α}
    (equipped : dec.Equipped (prompts.getD id []).length ctx) (plain : ctx.pagedKvCache = none) :
    ∃ after first, dec.prefillSession sampling maxNewTokens id ctx (prompts.getD id []) cache =
        some (after, first) ∧
      (dec.firstAlone sampling (prompts.getD id [])).generatedTokens = [first] ∧
      dec.Holding prompts maxNewTokens blockSize after
        (Function.update texts id (some (prompts.getD id []))) := by
  have member := getD_mem known
  have reserved := holding.reserved id known
  have rounds := given.rounds _ member
  have size := holding.size
  obtain ⟨map, serving⟩ := holding.serving
  generalize prompts.getD id [] = prompt at *
  obtain ⟨left, logits, grown, ran, found, row, attached, cached, _⟩ :=
    dec.prefill law wf layers (given.nonempty _ member) (given.inside _ member)
      (given.fits _ member) (show prompt.length ≤ prompt.length + maxNewTokens by omega) (by omega)
      equipped plain
  obtain ⟨after, next, copied, beside, servingNext⟩ := serving.copy free (given.nonempty _ member)
    (given.inside _ member) cached reserved (by omega) (by rw [size]; omega)
  obtain ⟨first, chosen, inside⟩ := Sampler.sample_inside sampling.ops
    ((dec.onText prompt).logits (prompt.length - 1)) wf.positive.2.2.1 sampling.cfg prompt
    (sampling.draws 0)
  have same := Sampler.sample_congr sampling.ops row sampling.cfg prompt (sampling.draws 0)
  refine ⟨after, first, ?_, ?_, holding.beside beside ⟨next, servingNext⟩⟩
  · unfold prefillSession
    dsimp only
    rw [ran]
    simp only [attached, Option.getD_some, copied, found, Sampling.next, same, chosen,
      Option.map_some]
  · rw [firstAlone, show sampling.next dec.vocab 0 ((dec.onText prompt).logits
      (prompt.length - 1)) prompt = some first from chosen]
    rfl

/-- The next token of a sequence on the shared cache: the logits behind it and its row. -/
theorem Holding.run (given : dec.Given prompts maxNewTokens blockSize) {cache : PagedKVCache α}
    {texts : Texts} (holding : dec.Holding prompts maxNewTokens blockSize cache texts) {id : Nat}
    (known : id < prompts.length) {text : List Int} {last : Int} (is : texts id = some text)
    (lastInside : 0 ≤ last ∧ last < dec.vocab)
    (behind : text.length + 1 ≤ (prompts.getD id []).length + maxNewTokens)
    {ctx : ModelContext α} (equipped : dec.Equipped 1 ctx) (unset : ctx.pagedKvWritePos < 0)
    (idle : ctx.kvCacheAdvanceTokens ≤ 0) :
    ∃ after logits, dec.serveRun cache id [last] ctx = (none, after) ∧
      dec.logitsTensor 1 after = some logits ∧
      (∀ t < dec.vocab, logits.data t = (dec.onText (text ++ [last])).logits text.length t) ∧
      dec.Equipped 1 after ∧ after.pagedKvWritePos < 0 ∧ after.kvCacheAdvanceTokens ≤ 0 ∧
      dec.Holding prompts maxNewTokens blockSize (after.pagedKvCache.getD cache)
        (Function.update texts id (some (text ++ [last]))) := by
  have member := getD_mem known
  have reserved := holding.reserved id known
  have rounds := given.rounds _ member
  have size := holding.size
  have length := List.length_pos_of_ne_nil (given.nonempty _ member)
  have fitsOne : dec.Fits 1 := (given.fits _ member).mono length
  generalize (prompts.getD id []).length = promptLen at *
  obtain ⟨map, serving⟩ := holding.serving
  have sound : dec.Sound (cache, texts) (.run id [last] ctx) := by
    refine ⟨by omega, List.cons_ne_nil _ _, fitsOne, fun token one => ?_, equipped, unset, idle,
      text, is, ?_⟩
    · rw [List.mem_singleton.mp one]
      exact lastInside
    · rw [size, List.length_singleton]
      omega
  obtain ⟨fine, after, next, mode, beside, succeeded⟩ := serving.run law wf layers sound is
  obtain ⟨_, servingNext⟩ := (Serving.step law wf layers ⟨map, serving⟩ sound).2
  -- The blocks reserved at the start cover this token, so the run cannot fail.
  have room : cache.shortage id (text.length + [last].length) ≤ 0 := by
    have less := cache.shortage_mono id serving.pool.ready
      (show (0 : Int) < text.length + 1 by omega)
      (show (text.length + 1 : Int) ≤ promptLen + maxNewTokens by omega) (by rw [size]; omega)
    have covered : cache.shortage id (promptLen + maxNewTokens) ≤ 0 :=
      sub_nonpos.mpr (reserved.trans (Int.natCast_nonneg _))
    rw [List.length_singleton, Nat.cast_one]
    exact less.trans covered
  have ran := fine.mpr room
  have left := succeeded ran
  rw [List.length_singleton] at left
  simp only [serveStep, serve, textsAfter, ran, Option.isNone_none, if_true, is,
    Option.map_some] at servingNext
  have cacheAfter := mode.attached
  generalize dec.serveRun cache id [last] ctx = result at ran left servingNext cacheAfter
  obtain ⟨failure, grown⟩ := result
  obtain rfl : failure = none := ran
  obtain ⟨logits, found, rows⟩ := left.answers
  refine ⟨grown, logits, rfl, found, fun t below => ?_, left.loaded.equipped, left.unset,
    left.idle, ?_⟩
  · have row := rows 0 Nat.one_pos t below
    rw [Nat.zero_mul, Nat.zero_add, Nat.add_zero] at row
    exact row
  · dsimp only at cacheAfter servingNext
    rw [cacheAfter, Option.getD_some] at servingNext ⊢
    exact holding.beside beside ⟨_, servingNext⟩

/-- The decode loop on its way: sequence `id` has taken `turns id` turns. -/
structure Speaking (dec : Decoder α) (sampling : Sampling α) (prompts : List (List Int))
    (maxNewTokens blockSize : Nat) (turns : Nat → Nat) (state : PagedGeneration α) : Prop where
  equipped : dec.Equipped 1 state.ctx
  unset : state.ctx.pagedKvWritePos < 0
  idle : state.ctx.kvCacheAdvanceTokens ≤ 0
  sessions : ∀ id < prompts.length, state.sessions id =
    (dec.turnAlone sampling maxNewTokens)^[turns id] (dec.firstAlone sampling (prompts.getD id []))
  holding : ∃ texts, dec.Holding prompts maxNewTokens blockSize state.cache texts ∧
    ∀ id : Nat, id < prompts.length → (state.sessions id).seqDone = false → texts id =
      some ((state.sessions id).promptTokens ++ (state.sessions id).generatedTokens.dropLast)

omit [IsStrictOrderedRing α] law wf layers in
/-- The loop passes over a sequence that is done; alone it would stay as it is. -/
theorem Speaking.pass {turns : Nat → Nat} {state : PagedGeneration α}
    (speaking : dec.Speaking sampling prompts maxNewTokens blockSize turns state) {id : Nat}
    (known : id < prompts.length) (done : (state.sessions id).seqDone = true) :
    dec.Speaking sampling prompts maxNewTokens blockSize
      (Function.update turns id (turns id + 1)) (dec.turn sampling maxNewTokens id state) := by
  have alone := speaking.sessions id known
  have same : dec.turn sampling maxNewTokens id state = state := by
    rw [Decoder.turn]
    exact if_pos done
  rw [same]
  refine ⟨speaking.equipped, speaking.unset, speaking.idle, fun other below => ?_,
    speaking.holding⟩
  by_cases here : other = id
  · subst here
    rw [Function.update_self, Function.iterate_succ_apply', ← alone]
    exact (turnAlone_done sampling done 1).symm
  · rw [Function.update_of_ne here]
    exact speaking.sessions other below

/-- A turn of one sequence in the loop is its turn alone. -/
theorem Speaking.turn (given : dec.Given prompts maxNewTokens blockSize) {turns : Nat → Nat}
    {state : PagedGeneration α}
    (speaking : dec.Speaking sampling prompts maxNewTokens blockSize turns state) {id : Nat}
    (known : id < prompts.length) (early : turns id < maxNewTokens) :
    dec.Speaking sampling prompts maxNewTokens blockSize
      (Function.update turns id (turns id + 1)) (dec.turn sampling maxNewTokens id state) := by
  have alone := speaking.sessions id known
  by_cases done : (state.sessions id).seqDone = true
  · exact speaking.pass sampling known done
  -- The last token of an active sequence is not in the cache yet.
  obtain ⟨texts, holding, fed⟩ := speaking.holding
  have active := Bool.eq_false_iff.mpr done
  have is := fed id known active
  have speaks : Speaks dec (prompts.getD id []) (turns id) (state.sessions id) := by
    rw [alone]
    exact speaks_alone sampling wf _ _
  obtain ⟨before, last, split⟩ : ∃ before last, (state.sessions id).generatedTokens =
      before ++ [last] :=
    ⟨_, _, (List.dropLast_append_getLast speaks.nonempty).symm⟩
  have lastIs : (state.sessions id).generatedTokens.getLastD 0 = last := by rw [split]; simp
  rw [split, List.dropLast_concat] at is
  have whole : (state.sessions id).promptTokens ++ before ++ [last] = (state.sessions id).text := by
    rw [PagedGenerationSession.text, split, List.append_assoc]
  have behind : ((state.sessions id).promptTokens ++ before).length + 1 ≤
      (prompts.getD id []).length + maxNewTokens := by
    have short := speaks.short
    rw [split, List.length_append, List.length_singleton] at short
    rw [List.length_append, speaks.prompt]
    omega
  obtain ⟨after, logits, ran, found, row, equipped, unset, idle, held⟩ :=
    holding.run law wf layers given known is
      (speaks.inside last (by rw [split]; simp)) behind speaking.equipped speaking.unset
      speaking.idle
  have textLength : (state.sessions id).text.length - 1 =
      ((state.sessions id).promptTokens ++ before).length := by
    rw [← whole, List.length_append, List.length_singleton, Nat.add_sub_cancel]
  rw [whole, ← textLength] at row
  rw [whole] at held
  have same := Sampler.sample_congr sampling.ops row sampling.cfg (state.sessions id).text
    (sampling.draws 0)
  have turned : dec.turn sampling maxNewTokens id state =
      { cache := after.pagedKvCache.getD state.cache, ctx := after,
        sessions := Function.update state.sessions id
          (dec.turnAlone sampling maxNewTokens (state.sessions id)) } := by
    simp only [Decoder.turn, turnAlone, active, Bool.false_eq_true, if_false, lastIs, ran,
      Option.isSome_none, found, Sampling.next, same]
  rw [turned]
  -- Its session has moved on; the others' sessions and texts are as before.
  refine ⟨equipped, unset, idle, fun other below => ?_, _, held, fun other below ongoing => ?_⟩
  all_goals by_cases here : other = id
  · subst here
    simp only [Function.update_self]
    rw [Function.iterate_succ_apply', ← alone]
  · simp only [Function.update_of_ne here]
    exact speaking.sessions other below
  · subst here
    simp only [Function.update_self] at ongoing ⊢
    rw [turnAlone_open sampling ongoing]
  · have apart : (other : Int) ≠ id := by omega
    simp only [Function.update_of_ne here] at ongoing ⊢
    rw [Function.update_of_ne apart]
    exact fed other below ongoing

omit [IsStrictOrderedRing α] law wf layers in
theorem Speaking.congr {turns others : Nat → Nat} {state : PagedGeneration α}
    (speaking : dec.Speaking sampling prompts maxNewTokens blockSize turns state)
    (same : ∀ id < prompts.length, turns id = others id) :
    dec.Speaking sampling prompts maxNewTokens blockSize others state := by
  refine ⟨speaking.equipped, speaking.unset, speaking.idle, fun id below => ?_, speaking.holding⟩
  rw [← same id below]
  exact speaking.sessions id below

/-- A round: a turn of every sequence. -/
theorem Speaking.round (given : dec.Given prompts maxNewTokens blockSize) {turns : Nat}
    {state : PagedGeneration α}
    (speaking : dec.Speaking sampling prompts maxNewTokens blockSize (fun _ => turns) state)
    (early : turns < maxNewTokens) :
    dec.Speaking sampling prompts maxNewTokens blockSize (fun _ => turns + 1)
      (loop prompts.length (dec.turn sampling maxNewTokens) state) := by
  have rule := loop_invariant
    (fun i => dec.Speaking sampling prompts maxNewTokens blockSize
      (fun id => if id < i then turns + 1 else turns)) prompts.length
    (dec.turn sampling maxNewTokens) state (by simpa using speaking) (by
      intro i state below on
      refine (on.turn law wf layers sampling given below (by simpa using early)).congr sampling
        fun id _ => ?_
      by_cases here : id = i
      · subst here
        simp
      · rw [Function.update_of_ne here]
        simp only [show id < i + 1 ↔ id < i by omega])
  exact rule.congr sampling fun id below => if_pos below

/-- All rounds, ended early or not. -/
theorem Speaking.rounds (given : dec.Given prompts maxNewTokens blockSize) (steps : Nat) {turns : Nat}
    {state : PagedGeneration α}
    (speaking : dec.Speaking sampling prompts maxNewTokens blockSize (fun _ => turns) state)
    (total : turns + steps = maxNewTokens) (id : Nat) (known : id < prompts.length) :
    (dec.decodeRounds sampling maxNewTokens prompts.length steps state).sessions id =
      (dec.turnAlone sampling maxNewTokens)^[maxNewTokens]
        (dec.firstAlone sampling (prompts.getD id [])) := by
  induction steps generalizing turns state with
  | zero =>
      obtain rfl : turns = maxNewTokens := total
      exact speaking.sessions id known
  | succ steps ih =>
      rw [decodeRounds]
      split
      · next all =>
          -- Ended early: more turns alone change nothing.
          have done := List.all_eq_true.mp all id (List.mem_range.mpr known)
          have same : (dec.turnAlone sampling maxNewTokens)^[steps + 1] (state.sessions id) =
              state.sessions id := turnAlone_done sampling done _
          rw [speaking.sessions id known, ← Function.iterate_add_apply,
            show steps + 1 + turns = maxNewTokens by omega] at same
          rw [same, speaking.sessions id known]
      · exact ih (speaking.round law wf layers sampling given (by omega)) (by omega)

/-- The prefills on their way: `i` prompts have their first token and their rows. -/
structure Prefilled (dec : Decoder α) (sampling : Sampling α) (prompts : List (List Int))
    (maxNewTokens blockSize : Nat) (decodeCtx : ModelContext α) (i : Nat)
    (state : PagedGeneration α) : Prop where
  ctx : state.ctx = decodeCtx
  first : ∀ id < i, state.sessions id = dec.firstAlone sampling (prompts.getD id [])
  rest : ∀ id ≥ i, state.sessions id = { promptTokens := prompts.getD id [] }
  holding : ∃ texts, dec.Holding prompts maxNewTokens blockSize state.cache texts ∧
    (∀ id : Nat, id < i → texts id = some (prompts.getD id [])) ∧
    ∀ id : Nat, i ≤ id → texts id = some []

/-- The prefill of one more prompt. -/
theorem Prefilled.step (given : dec.Given prompts maxNewTokens blockSize)
    {decodeCtx : ModelContext α} {i : Nat} {state : PagedGeneration α}
    (prefilled : dec.Prefilled sampling prompts maxNewTokens blockSize decodeCtx i state)
    (below : i < prompts.length) {ctx : ModelContext α}
    (equipped : dec.Equipped (prompts.getD i []).length ctx) (plain : ctx.pagedKvCache = none) :
    ∃ after first, dec.prefillSession sampling maxNewTokens i ctx (state.sessions i).promptTokens
        state.cache = some (after, first) ∧
      dec.Prefilled sampling prompts maxNewTokens blockSize decodeCtx (i + 1)
        { state with
          cache := after
          sessions := Function.update state.sessions i { state.sessions i with
            generatedTokens := (state.sessions i).generatedTokens ++ [first] } } := by
  obtain ⟨sameCtx, first, rest, texts, held, filled, free⟩ := prefilled
  obtain ⟨after, token, ran, tokens, grown⟩ := held.prefill law wf layers sampling given below
    (free i le_rfl) equipped plain
  have own := rest i le_rfl
  rw [own]
  refine ⟨after, token, ran, sameCtx, fun id early => ?_, fun id later => ?_, _, grown,
    fun id early => ?_, fun id later => ?_⟩
  · dsimp only
    by_cases here : id = i
    · subst here
      rw [Function.update_self, ← tokens]
      rfl
    · rw [Function.update_of_ne here]
      exact first id (by omega)
  · dsimp only
    rw [Function.update_of_ne (show id ≠ i by omega)]
    exact rest id (by omega)
  · by_cases here : id = i
    · subst here
      exact Function.update_self _ _ _
    · rw [Function.update_of_ne (show (id : Int) ≠ i by omega)]
      exact filled id (by omega)
  · rw [Function.update_of_ne (show (id : Int) ≠ i by omega)]
    exact free id (by omega)

/-- Every prompt is prefilled, and no sequence has taken a turn. -/
theorem prefillAll_speaking (given : dec.Given prompts maxNewTokens blockSize)
    {contexts : Nat → ModelContext α}
    (prepared : ∀ id < prompts.length, dec.Equipped (prompts.getD id []).length (contexts id) ∧
      (contexts id).pagedKvCache = none) {cache : PagedKVCache α}
    (holding : dec.Holding prompts maxNewTokens blockSize cache (fun _ => some []))
    {decodeCtx : ModelContext α} (equipped : dec.Equipped 1 decodeCtx)
    (unset : decodeCtx.pagedKvWritePos < 0) (idle : decodeCtx.kvCacheAdvanceTokens ≤ 0) :
    ∃ after, dec.prefillAll sampling maxNewTokens contexts prompts.length
        { cache := cache, ctx := decodeCtx,
          sessions := fun id => { promptTokens := prompts.getD id [] } } = (none, after) ∧
      dec.Speaking sampling prompts maxNewTokens blockSize (fun _ => 0) after := by
  refine ends_exists (Ends.mono ?_ (fun _ _ no => no) (loopTry_invariant
    (dec.Prefilled sampling prompts maxNewTokens blockSize decodeCtx) (fun _ _ => False) _ _ _
    ⟨rfl, fun _ early => absurd early (Nat.not_lt_zero _), fun _ _ => rfl, _, holding,
      fun _ early => absurd early (Nat.not_lt_zero _), fun _ _ => rfl⟩ ?_))
  · rintro state ⟨rfl, first, _, texts, held, filled, _⟩
    refine ⟨equipped, unset, idle, first, texts, held, fun id below _ => ?_⟩
    rw [first id below, filled id below, firstAlone]
    cases sampling.next dec.vocab 0 _ (prompts.getD id []) <;> simp
  · intro i state below prefilled
    obtain ⟨after, first, ran, next⟩ := prefilled.step law wf layers sampling given below
      (prepared i below).1 (prepared i below).2
    simp only [ran]
    exact next

/-- When the blocks of all prompts fit the pool, the program succeeds, and every prompt
gets the tokens that it gets alone, whatever the others are. They are those of the program
for one sequence unless the first one ends the text. -/
theorem paged_as_alone (given : dec.Given prompts maxNewTokens blockSize) {maxBlocks : Nat}
    (size : 0 < blockSize) (blocks : 0 < maxBlocks)
    (bounds : (.init dec.numLayers dec.nkv dec.hd blockSize maxBlocks : PagedKVCache.Op α).Bounded)
    (room : (prompts.map (blocksFor blockSize maxNewTokens)).sum ≤ maxBlocks) (eos : Int)
    (samplerOps : SamplerOps α) {contexts : Nat → ModelContext α}
    (prepared : ∀ id < prompts.length, dec.Equipped (prompts.getD id []).length (contexts id) ∧
      (contexts id).pagedKvCache = none) {decodeCtx : ModelContext α}
    (equipped : dec.Equipped 1 decodeCtx) (unset : decodeCtx.pagedKvWritePos < 0)
    (idle : decodeCtx.kvCacheAdvanceTokens ≤ 0) :
    dec.generatePaged (pagedSampling samplerOps eos) prompts maxNewTokens blockSize maxBlocks
        contexts decodeCtx =
      .ok (prompts.map (dec.generatedAlone (pagedSampling samplerOps eos) maxNewTokens)) ∧
    (2 ≤ maxNewTokens → ∀ prompt ∈ prompts, (pagedSampling samplerOps eos).next dec.vocab 0
        ((dec.onText prompt).logits (prompt.length - 1)) prompt ≠ some eos →
      prompt ++ dec.generatedAlone (pagedSampling samplerOps eos) maxNewTokens prompt =
        dec.continued (pagedSampling samplerOps eos) maxNewTokens 0 prompt) := by
  refine ⟨?_, fun budget prompt _ goes => generatedAlone_continued wf budget goes⟩
  have made := init_made wf size blocks
  obtain ⟨map, serving⟩ := init_serving wf size blocks bounds
  rw [made] at serving
  obtain ⟨filled, reserved, reserving⟩ := reserveAll_reserved serving.pool.ready
    serving.refined (fun _ => rfl) given.nonempty given.rounds (by simpa using room)
  have holding : dec.Holding prompts maxNewTokens blockSize filled (fun _ => some []) :=
    ⟨⟨map, serving.pool.sameShape reserving.shape, reserving.refined, serving.lengths, serving.ints,
      serving.inside, serving.length, serving.rows⟩, reserving.shape.blockSize, reserving.reserved⟩
  obtain ⟨state, prefilled, speaking⟩ := prefillAll_speaking law wf layers
    (pagedSampling samplerOps eos) given prepared holding equipped unset idle
  unfold generatePaged
  rw [made]
  simp only [Status.isOk_makeOk, Bool.not_true, Bool.false_eq_true, if_false, reserved, prefilled]
  refine congrArg Except.ok (List.ext_getElem (by simp) fun id below _ => ?_)
  have known : id < prompts.length := by simpa using below
  rw [List.getElem_map, List.getElem_map, List.getElem_range, generatedAlone,
    speaking.rounds law wf layers _ given maxNewTokens (Nat.zero_add _) id known,
    List.getD_eq_getElem _ _ known]

end Loops

section Tiny

-- Two prompts whose blocks fill the pool.
def tinyPrompts : List (List Int) := [[0, 1], [1]]

theorem tinyPrompts_given : tinyDecoder.Given tinyPrompts 2 1 := by
  have fits : ∀ n, 0 < n → n < 100 → tinyDecoder.Fits n :=
    fun n some short => tinyDecoder_fits some short
  refine ⟨by decide, by decide, fun p member => ?_, fun p member => ?_⟩
  all_goals rcases List.mem_pair.mp member with rfl | rfl
  · exact fits 2 (by decide) (by decide)
  · exact fits 1 (by decide) (by decide)
  · decide
  · decide

theorem paged_as_alone_tiny :
    tinyDecoder.generatePaged (pagedSampling tinySampling.ops 5) tinyPrompts 2 1 7
        (fun id => tinyDecoder.newContext 0 (tinyPrompts.getD id []).length)
        (tinyDecoder.newContext 0 1) =
      .ok (tinyPrompts.map (tinyDecoder.generatedAlone (pagedSampling tinySampling.ops 5) 2)) ∧
    ∀ prompt ∈ tinyPrompts,
      prompt ++ tinyDecoder.generatedAlone (pagedSampling tinySampling.ops 5) 2 prompt =
        tinyDecoder.continued (pagedSampling tinySampling.ops 5) 2 0 prompt := by
  have equipped : ∀ n, tinyDecoder.Equipped n (tinyDecoder.newContext 0 n) :=
    fun n => ⟨_, newContext_loaded tinyDecoder 0 n⟩
  have room : (tinyPrompts.map (blocksFor 1 2)).sum ≤ 7 := by decide
  have unset : (tinyDecoder.newContext 0 1).pagedKvWritePos < 0 := by decide
  have idle : (tinyDecoder.newContext 0 1).kvCacheAdvanceTokens ≤ 0 := by decide
  obtain ⟨ran, same⟩ := paged_as_alone unitOps_law
    tinyDecoder_wellFormed (by decide) tinyPrompts_given
    Nat.one_pos (by decide) (by decide) room 5 tinySampling.ops (fun id _ => ⟨equipped _, rfl⟩) (equipped 1)
    unset idle
  refine ⟨ran, fun prompt member => same le_rfl prompt member fun stop => ?_⟩
  -- The end token is no token of the vocabulary.
  obtain ⟨token, chosen, _, below⟩ := Sampler.sample_inside tinySampling.ops
    ((tinyDecoder.onText prompt).logits (prompt.length - 1)) (show 0 < 2 by decide)
    (pagedSampling tinySampling.ops 5).cfg prompt 0
  obtain rfl : token = 5 := Option.some.inj (chosen.symm.trans stop)
  exact absurd below (by decide)

end Tiny

end Decoder

end MiniLLM
