import MiniLLM.PagedDecoding
import MiniLLM.Generation

/-!
Serving sequences from one paged cache. Between runs of chunks of any size, on any
sequences in any order, the caller reserves and frees; a run may fail for lack of blocks.
Each run that succeeds leaves the logits that its sequence gets on its own.
-/

namespace MiniLLM

open Loops CpuKernelAdapter Softmax PagedKVCache

variable {α : Type} [Field α] [LinearOrder α]

namespace Decoder

/-- What a caller does with the shared cache. -/
inductive Call (α : Type) where
  | run (seqId : Int) (tokens : List Int) (ctx : ModelContext α)
  | reserve (seqId total : Int)
  | free (seqId : Int)

/-- The next tokens of a sequence, run on the shared cache. -/
def serveRun (dec : Decoder α) (cache : PagedKVCache α) (seqId : Int) (tokens : List Int)
    (ctx : ModelContext α) : Option Failure × ModelContext α :=
  dec.run tokens.length (dec.fillIds tokens.length tokens
    { ctx with pagedKvCache := some cache, pagedSequenceId := seqId })

/-- The shared cache after a call. -/
def serve (dec : Decoder α) (cache : PagedKVCache α) : Call α → PagedKVCache α
  | .run seqId tokens ctx => (dec.serveRun cache seqId tokens ctx).2.pagedKvCache.getD cache
  | .reserve seqId total => (cache.reserveSequence seqId total).2
  | .free seqId => (cache.freeSequence seqId).2

/-- The text of each sequence since it was freed; none once a run on it has failed. -/
abbrev Texts := Int → Option (List Int)

def textsAfter (dec : Decoder α) (cache : PagedKVCache α) (texts : Texts) : Call α → Texts
  | .run seqId tokens ctx => Function.update texts seqId
      (if (dec.serveRun cache seqId tokens ctx).1.isNone then (texts seqId).map (· ++ tokens)
      else none)
  | .reserve _ _ => texts
  | .free seqId => Function.update texts seqId (some [])

/-- A call, with the texts beside the cache. -/
def serveStep (dec : Decoder α) (state : PagedKVCache α × Texts) (call : Call α) :
    PagedKVCache α × Texts :=
  (dec.serve state.1 call, dec.textsAfter state.1 state.2 call)

/-- A run is given a context of its own or one whose last run went through, and a
sequence whose last run failed is freed before it is run again. -/
def Sound (dec : Decoder α) (state : PagedKVCache α × Texts) : Call α → Prop
  | .run seqId tokens ctx => 0 ≤ seqId ∧ tokens ≠ [] ∧ dec.Fits tokens.length ∧
      (∀ token ∈ tokens, 0 ≤ token ∧ token < dec.vocab) ∧ dec.Equipped tokens.length ctx ∧
      ctx.pagedKvWritePos < 0 ∧ ctx.kvCacheAdvanceTokens ≤ 0 ∧
      ∃ text, state.2 seqId = some text ∧
        (text.length + tokens.length + state.1.blockSize : Int) ≤ 2147483648
  | .reserve _ _ => True
  | .free _ => True

/-- The cache holds every text in every layer. -/
structure Serving (dec : Decoder α) (cache : PagedKVCache α) (texts : Texts) (map : RowMap α) :
    Prop where
  pool : dec.Pool cache
  refined : cache.Refines map
  lengths : ∀ id, 0 ≤ map.length id
  ints : ∀ id, map.length id < 2147483648
  inside : ∀ id text, texts id = some text → ∀ token ∈ text, 0 ≤ token ∧ token < dec.vocab
  length : ∀ id text, texts id = some text → map.length id = text.length
  rows : ∀ id text, texts id = some text → ∀ layer < dec.numLayers,
    (dec.onText text).RowsOf map id layer text.length

section Steps

variable {dec : Decoder α} {cache after : PagedKVCache α} {texts : Texts} {map next : RowMap α}

omit [LinearOrder α] in
/-- More text behind the rows of a sequence. -/
theorem RowsOf.onText_append {seqId : Int} {layer : Nat} {text : List Int}
    (rows : (dec.onText text).RowsOf map seqId layer text.length) (more : List Int) :
    (dec.onText (text ++ more)).RowsOf map seqId layer text.length := by
  intro pos below
  have same : ∀ i ≤ pos, text.getD i 0 = (text ++ more).getD i 0 := by
    intro i earlier
    rw [List.getD_append _ _ _ _ (by omega)]
  obtain ⟨row, found, held⟩ := rows pos below
  refine ⟨row, found, fun c inside => ?_⟩
  obtain ⟨key, value⟩ := held c inside
  exact ⟨key.trans (congrFun (dec.layerKeys_causal layer same) c),
    value.trans (congrFun (dec.layerValues_causal layer same) c)⟩

omit [LinearOrder α] in
/-- A call that leaves the rows and lengths of all sequences but one, whose text changes. -/
theorem Serving.change (serving : dec.Serving cache texts map) {seqId : Int}
    (shape : SameShape cache after) (refined : after.Refines next)
    (lengths : ∀ id, id ≠ seqId → next.length id = map.length id)
    (frame : ∀ id l pos, id ≠ seqId → next.row id l pos = map.row id l pos)
    (low : 0 ≤ next.length seqId) (high : next.length seqId < 2147483648) {own : Option (List Int)}
    (inside : ∀ text, own = some text → ∀ token ∈ text, 0 ≤ token ∧ token < dec.vocab)
    (length : ∀ text, own = some text → next.length seqId = text.length)
    (rows : ∀ text, own = some text → ∀ layer < dec.numLayers,
      (dec.onText text).RowsOf next seqId layer text.length) :
    dec.Serving after (Function.update texts seqId own) next := by
  refine ⟨serving.pool.sameShape shape, refined, fun id => ?_, fun id => ?_, fun id text is => ?_,
    fun id text is => ?_, fun id text is layer known => ?_⟩
  all_goals by_cases same : id = seqId
  · rw [same]
    exact low
  · rw [lengths id same]
    exact serving.lengths id
  · rw [same]
    exact high
  · rw [lengths id same]
    exact serving.ints id
  · subst same
    rw [Function.update_self] at is
    exact inside text is
  · rw [Function.update_of_ne same] at is
    exact serving.inside id text is
  · subst same
    rw [Function.update_self] at is
    exact length text is
  · rw [Function.update_of_ne same] at is
    rw [lengths id same]
    exact serving.length id text is
  · subst same
    rw [Function.update_self] at is
    exact rows text is layer known
  · rw [Function.update_of_ne same] at is
    exact (serving.rows id text is layer known).congr fun pos => frame id layer pos same

omit [LinearOrder α] in
theorem Serving.ready (serving : dec.Serving cache texts map) : PagedKVCache.Serving cache := by
  refine ⟨serving.pool.ready, fun id => ?_, fun id => ?_, serving.refined.owned,
    serving.refined.rowFits⟩
  all_goals rw [serving.refined.length]
  · exact serving.lengths id
  · exact serving.ints id

omit [LinearOrder α] in
/-- The sequence of a sound run is as long as its text. -/
theorem Serving.begins (serving : dec.Serving cache texts map) {seqId : Int} {text tokens : List Int}
    (is : texts seqId = some text) (known : 0 ≤ seqId) {ctx : ModelContext α}
    (unset : ctx.pagedKvWritePos < 0) (idle : ctx.kvCacheAdvanceTokens ≤ 0) :
    (dec.onText (text ++ tokens)).Begins text.length
      ({ ctx.toRuntimeContext with pagedKvCache := some cache, pagedSequenceId := seqId } :
        RuntimeContext α) cache map := by
  refine ⟨⟨serving.ready, rfl, lt_trans unset (by decide)⟩, ⟨serving.pool.ready, serving.pool.heads,
    serving.pool.headDim, serving.pool.layers⟩, serving.refined, known, unset, idle,
    serving.length seqId text is, fun layer below => ?_⟩
  exact (serving.rows seqId text is layer below).onText_append tokens

end Steps

section Sessions

variable [IsStrictOrderedRing α] {dec : Decoder α} (law : ExpLaw dec.ops.exp)
  (wf : dec.WellFormed) (layers : dec.numLayers < 2147483648)
include law wf layers

/-- A sound run: when it succeeds and what it then leaves. -/
theorem Serving.run {cache : PagedKVCache α} {texts : Texts} {map : RowMap α}
    (serving : dec.Serving cache texts map) {seqId : Int} {tokens : List Int} {ctx : ModelContext α}
    (sound : dec.Sound (cache, texts) (.run seqId tokens ctx)) {text : List Int}
    (is : texts seqId = some text) :
    ((dec.serveRun cache seqId tokens ctx).1 = none ↔
        cache.shortage seqId (text.length + tokens.length) ≤ 0) ∧
      ∃ after next,
        PagedMode (dec.serveRun cache seqId tokens ctx).2.toRuntimeContext after ∧
        Beside cache map seqId after next ∧
        ((dec.serveRun cache seqId tokens ctx).1 = none →
          (dec.onText (text ++ tokens)).Extends text.length tokens.length seqId
            (dec.serveRun cache seqId tokens ctx).2 next) := by
  obtain ⟨known, some, fits, inside, equipped, unset, idle, other, same, rounds⟩ := sound
  obtain rfl := Option.some.inj (is.symm.trans same)
  let whole := dec.onText (text ++ tokens)
  have behind : ∀ i, whole.tokens (text.length + i) = tokens.getD i 0 := by
    intro i
    change (text ++ tokens).getD (text.length + i) 0 = _
    rw [List.getD_append_right _ _ _ _ (by omega), Nat.add_sub_cancel_left]
  have runs : whole.Runs text.length tokens.length := by
    refine ⟨wf.reading _, List.length_pos_of_ne_nil some, fits.reading _, by omega, layers,
      fun i below => ?_⟩
    rw [behind, List.getD_eq_getElem _ _ below]
    exact inside _ (List.getElem_mem below)
  have loaded : whole.Loaded text.length tokens.length (dec.fillIds tokens.length tokens
      { ctx with pagedKvCache := .some cache, pagedSequenceId := seqId }) :=
    Equipped.fill (show whole.Equipped tokens.length
      { ctx with pagedKvCache := .some cache, pagedSequenceId := seqId } from equipped) runs rfl
      fun s _ => (behind s).symm
  exact Runs.paged (show ExpLaw whole.ops.exp from law) runs loaded
    (serving.begins is known unset idle) rounds

theorem Serving.step {state : PagedKVCache α × Texts} {call : Call α}
    (serving : ∃ map, dec.Serving state.1 state.2 map) (sound : dec.Sound state call) :
    SameShape state.1 (dec.serveStep state call).1 ∧
      ∃ map, dec.Serving (dec.serveStep state call).1 (dec.serveStep state call).2 map := by
  obtain ⟨cache, texts⟩ := state
  obtain ⟨map, serving⟩ := serving
  cases call with
  | run seqId tokens ctx =>
      obtain ⟨text, is⟩ : ∃ text, texts seqId = some text := by
        obtain ⟨_, _, _, _, _, _, _, text, is, _⟩ := sound
        exact ⟨text, is⟩
      obtain ⟨_, after, next, mode, beside, succeeded⟩ := serving.run law wf layers sound is
      have cacheAfter : dec.serve cache (.run seqId tokens ctx) = after := by
        simp only [serve, mode.attached, Option.getD_some]
      -- Only a run that went through extends the text.
      have grown : ∀ own, (if (dec.serveRun cache seqId tokens ctx).1.isNone then
          (texts seqId).map (· ++ tokens) else none) = some own →
          own = text ++ tokens ∧ (dec.serveRun cache seqId tokens ctx).1 = none := by
        intro own isOwn
        split at isOwn
        · next fine =>
            rw [is, Option.map_some, Option.some.injEq] at isOwn
            exact ⟨isOwn.symm, Option.isNone_iff_eq_none.mp fine⟩
        · cases isOwn
      simp only [serveStep, cacheAfter, textsAfter]
      refine ⟨beside.shape, next, ?_⟩
      refine serving.change beside.shape beside.refined beside.lengths beside.frame
        (by rw [← beside.refined.length]; exact mode.lengths seqId)
        (by rw [← beside.refined.length]; exact mode.ints seqId) ?_ ?_ ?_
      · intro own isOwn token member
        obtain ⟨rfl, _⟩ := grown own isOwn
        rcases List.mem_append.mp member with old | new
        · exact serving.inside seqId text is token old
        · exact sound.2.2.2.1 token new
      · intro own isOwn
        obtain ⟨rfl, fine⟩ := grown own isOwn
        rw [List.length_append]
        exact (succeeded fine).length
      · intro own isOwn
        obtain ⟨rfl, fine⟩ := grown own isOwn
        rw [List.length_append]
        exact (succeeded fine).rows
  | reserve seqId total =>
      have refined := reserveSequence_refines seqId total serving.refined
      have shape := (reserveSequence_extends cache seqId total).sameShape
      exact ⟨shape, map, serving.pool.sameShape shape,
        refined, serving.lengths, serving.ints, serving.inside, serving.length, serving.rows⟩
  | free seqId =>
      have refined := freeSequence_refines seqId serving.refined
      have shape : SameShape cache (cache.freeSequence seqId).2 := by
        unfold freeSequence
        split
        · exact SameShape.refl cache
        · obtain ⟨free, used, frame⟩ := freeBlocks_frame (cache.sequence seqId).blocks cache
          dsimp only
          rw [frame]
          exact ⟨rfl, rfl, rfl, rfl, rfl⟩
      have length : (map.erase seqId).length seqId = 0 := if_pos rfl
      refine ⟨shape, map.erase seqId, serving.change shape refined (fun id other => if_neg other)
        (fun id _ _ other => if_neg other) (by rw [length]) (by rw [length]; decide) (fun text is => ?_) (fun text is => ?_)
        fun text is layer _ pos below => ?_⟩
      · obtain rfl := Option.some.inj is
        exact fun _ member => absurd member List.not_mem_nil
      · obtain rfl := Option.some.inj is
        exact length
      · obtain rfl := Option.some.inj is
        exact absurd below (Nat.not_lt_zero pos)

omit law layers [LinearOrder α] [IsStrictOrderedRing α] in
/-- A new cache: all blocks free and no sequence. -/
theorem init_made {blockSize maxBlocks : Nat} (size : 0 < blockSize) (blocks : 0 < maxBlocks) :
    PagedKVCache.init ({} : PagedKVCache α) dec.numLayers dec.nkv dec.hd blockSize maxBlocks =
      (.makeOk, { layers := List.replicate dec.numLayers zeroLayer
                  freeBlocks := (List.range maxBlocks).reverse
                  blockUsed := fun _ => false
                  sequences := []
                  numKvHeads := dec.nkv
                  headDim := dec.hd
                  blockSize := blockSize
                  maxBlocks := maxBlocks }) := by
  obtain ⟨_, _, _, numLayers, _, nkv, hd⟩ := wf.positive
  unfold PagedKVCache.init
  rw [if_neg (by omega)]
  simp only [Int.toNat_natCast]

omit law layers [LinearOrder α] [IsStrictOrderedRing α] in
/-- A new cache serves sequences without text. -/
theorem init_serving {blockSize maxBlocks : Nat} (size : 0 < blockSize) (blocks : 0 < maxBlocks)
    (bounds : (.init dec.numLayers dec.nkv dec.hd blockSize maxBlocks : PagedKVCache.Op α).Bounded) :
    ∃ map : RowMap α, dec.Serving
      (PagedKVCache.init {} dec.numLayers dec.nkv dec.hd blockSize maxBlocks).2
      (fun _ => some []) map := by
  have refined := init_refines ({} : PagedKVCache α) dec.numLayers dec.nkv dec.hd blockSize
    maxBlocks bounds
  rw [init_made wf size blocks] at refined ⊢
  refine ⟨_, ⟨?_, rfl, rfl, ?_⟩, refined, fun id => ?_, fun id => ?_, fun id text is => ?_,
    fun id text is => ?_, fun id text is => ?_⟩
  · simp [initialized, size, blocks]
  · simp [PagedKVCache.numLayers]
  · exact le_rfl
  · change (0 : Int) < 2147483648
    decide
  · obtain rfl := Option.some.inj is
    exact fun _ member => absurd member List.not_mem_nil
  · obtain rfl := Option.some.inj is
    rfl
  · obtain rfl := Option.some.inj is
    exact fun _ _ pos below => absurd below (Nat.not_lt_zero pos)

/-- In every session of sound calls, a run succeeds exactly if the free blocks suffice for
its tokens, and then computes what its sequence gets on its own, without a cache. -/
theorem served_as_alone {blockSize maxBlocks : Nat} (size : 0 < blockSize) (blocks : 0 < maxBlocks)
    (bounds : (.init dec.numLayers dec.nkv dec.hd blockSize maxBlocks : PagedKVCache.Op α).Bounded)
    {calls : List (Call α)}
    (sound : Machine.Guarded dec.serveStep dec.Sound
      ((PagedKVCache.init {} dec.numLayers dec.nkv dec.hd blockSize maxBlocks).2, fun _ => some [])
      calls)
    {prior rest : List (Call α)} {seqId : Int} {tokens : List Int} {ctx : ModelContext α}
    (split : calls = prior ++ .run seqId tokens ctx :: rest) :
    let state := Machine.run dec.serveStep
      ((PagedKVCache.init {} dec.numLayers dec.nkv dec.hd blockSize maxBlocks).2, fun _ => some [])
      prior
    ∃ text, state.2 seqId = some text ∧
      ((dec.serveRun state.1 seqId tokens ctx).1 = none ↔
        state.1.missingBlocks seqId (text.length + tokens.length) ≤ state.1.freeBlocks.length) ∧
      ((dec.serveRun state.1 seqId tokens ctx).1 = none →
        ∃ own, dec.logitsTensor tokens.length (dec.serveRun state.1 seqId tokens ctx).2 = some own ∧
          (∀ s < tokens.length, ∀ t < dec.vocab, own.data (s * dec.vocab + t) =
            (dec.onText (text ++ tokens)).logits (text.length + s) t) ∧
          ∀ alone, dec.Equipped (text ++ tokens).length alone → Uncached alone.toRuntimeContext →
            dec.Fits (text ++ tokens).length → ∃ full, dec.logitsTensor (text ++ tokens).length
                (dec.run (text ++ tokens).length
                  (dec.fillIds (text ++ tokens).length (text ++ tokens) alone)).2 = some full ∧
              ∀ s < tokens.length, ∀ t < dec.vocab, own.data (s * dec.vocab + t) =
                full.data ((text.length + s) * dec.vocab + t)) := by
  intro state
  rw [split, Machine.guarded_append] at sound
  obtain ⟨early, here, _⟩ := sound
  obtain ⟨map, serving⟩ : ∃ map, dec.Serving state.1 state.2 map :=
    Machine.guarded_invariant dec.serveStep dec.Sound
      (fun state => ∃ map, dec.Serving state.1 state.2 map)
      (fun _ _ serving sound => (Serving.step law wf layers serving sound).2) _ prior
      (init_serving wf size blocks bounds) early
  obtain ⟨_, some, _, inside, _, _, _, text, is, _⟩ := id here
  obtain ⟨fine, _, _, _, _, succeeded⟩ := serving.run law wf layers here is
  refine ⟨text, is, fine.trans ?_, fun success => ?_⟩
  · unfold shortage
    exact sub_nonpos
  obtain ⟨own, found, rows⟩ := (succeeded success).answers
  refine ⟨own, found, rows, fun alone equipped uncached fits => ?_⟩
  let whole := dec.onText (text ++ tokens)
  have runs : whole.Runs 0 (text ++ tokens).length := by
    have short := fits.tiles
    refine ⟨wf.reading _, List.length_pos_of_ne_nil (by simp [some]), fits.reading _, by omega,
      layers, fun i below => ?_⟩
    have entry : whole.tokens (0 + i) = (text ++ tokens)[i] := by
      rw [Nat.zero_add]
      exact List.getD_eq_getElem _ _ below
    rw [entry]
    rcases List.mem_append.mp (List.getElem_mem below) with old | new
    · exact serving.inside seqId text is _ old
    · exact inside _ new
  have loaded : whole.Loaded 0 (text ++ tokens).length
      (dec.fillIds (text ++ tokens).length (text ++ tokens) alone) :=
    Equipped.fill (show whole.Equipped _ alone from equipped) runs rfl
      fun s _ => by rw [Nat.zero_add]; rfl
  obtain ⟨_, ⟨full, foundFull, fullRows⟩, _⟩ :=
    runs.uncached (show ExpLaw whole.ops.exp from law) loaded
      (show Uncached _ from ⟨uncached.noPaged, uncached.noCache, uncached.idle⟩)
  refine ⟨full, foundFull, fun s below t column => ?_⟩
  have length : (text ++ tokens).length = text.length + tokens.length := List.length_append
  have same := fullRows (text.length + s) (by omega) t column
  rw [Nat.zero_add] at same
  exact (rows s below t column).trans same.symm

end Sessions

section Tiny

-- Two sequences side by side: a prompt of two tokens, then one token of the other.
def tinyCalls : List (Call ℚ) :=
  [.run 0 [0, 1] (tinyDecoder.newContext 0 2), .run 1 [1] (tinyDecoder.newContext 0 1)]

def tinyStart : PagedKVCache ℚ × Texts :=
  ((PagedKVCache.init {} tinyDecoder.numLayers tinyDecoder.nkv tinyDecoder.hd 1 3).2,
    fun _ => some [])

theorem tinyCalls_sound :
    Machine.Guarded tinyDecoder.serveStep tinyDecoder.Sound tinyStart tinyCalls := by
  have equipped : ∀ n, tinyDecoder.Equipped n (tinyDecoder.newContext 0 n) :=
    fun n => ⟨_, newContext_loaded tinyDecoder 0 n⟩
  have fits : ∀ n, 0 < n → n < 100 → tinyDecoder.Fits n :=
    fun n some short => tinyDecoder_fits some short
  have first : tinyDecoder.Sound tinyStart (.run 0 [0, 1] (tinyDecoder.newContext 0 2)) :=
    ⟨by decide, by decide, fits 2 (by decide) (by decide), by decide, equipped 2, by decide,
      by decide, [], rfl, by decide⟩
  have wf := tinyDecoder_wellFormed
  have shape := (Serving.step unitOps_law wf (by decide)
    (init_serving wf (show 0 < 1 by decide) (show 0 < 3 by decide) (by decide)) first).1
  refine ⟨first, ⟨by decide, by decide, fits 1 (by decide) (by decide), by decide, equipped 1,
    by decide, by decide, [], rfl, ?_⟩, trivial⟩
  exact shape.blockSize.symm ▸ (by decide)

theorem served_as_alone_tiny :
    ∃ text, (Machine.run tinyDecoder.serveStep tinyStart
        [.run 0 [0, 1] (tinyDecoder.newContext 0 2)]).2 1 = some text ∧
      ((tinyDecoder.serveRun (Machine.run tinyDecoder.serveStep tinyStart
            [.run 0 [0, 1] (tinyDecoder.newContext 0 2)]).1 1 [1] (tinyDecoder.newContext 0 1)).1 =
          none →
        ∃ own, tinyDecoder.logitsTensor 1 (tinyDecoder.serveRun (Machine.run tinyDecoder.serveStep
              tinyStart [.run 0 [0, 1] (tinyDecoder.newContext 0 2)]).1 1 [1]
              (tinyDecoder.newContext 0 1)).2 = some own ∧
          ∀ t < 2, own.data t = (tinyDecoder.onText (text ++ [1])).logits text.length t) := by
  obtain ⟨text, is, _, succeeded⟩ := @served_as_alone ℚ _ _ _ tinyDecoder unitOps_law
    tinyDecoder_wellFormed (by decide) 1 3 (by decide) (by decide) (by decide)
    tinyCalls tinyCalls_sound [.run 0 [0, 1] (tinyDecoder.newContext 0 2)] [] 1 [1]
    (tinyDecoder.newContext 0 1) rfl
  refine ⟨text, is, fun success => ?_⟩
  obtain ⟨own, found, rows, _⟩ := succeeded success
  refine ⟨own, found, fun t below => ?_⟩
  simpa [tinyDecoder] using rows 0 Nat.one_pos t below

end Tiny

end Decoder

end MiniLLM
