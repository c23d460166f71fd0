import MiniLLM.DecoderRuns

/-!
Incremental decoding of the whole model: a prefill and one-token runs that hand on the
KV cache compute, position by position, the logits of one run over all tokens.
-/

namespace MiniLLM

open Loops Softmax CpuKernelAdapter

namespace Decoder

variable {α : Type} [Field α] [LinearOrder α]

/-- Prefill on `n` tokens and `r` one-token runs, each on its own context and on the
cache the run before it left. -/
def cachedRuns (dec : Decoder α) (contexts : Nat → ModelContext α) (cache : KVCache α) (n : Nat) :
    Nat → Option Failure × ModelContext α
  | 0 => dec.run n { contexts 0 with kvCache := some cache, kvCacheAdvanceTokens := n }
  | r + 1 => dec.run 1 { contexts (r + 1) with
      kvCache := (cachedRuns dec contexts cache n r).2.kvCache, kvCacheAdvanceTokens := 1 }

section Runs

variable [IsStrictOrderedRing α] {dec : Decoder α} (law : ExpLaw dec.ops.exp)
include law

/-- A graph built for `n` tokens, compiled and run without a cache, computes the logits
of every position. -/
theorem run_computes_logits {n : Nat} {ctx : ModelContext α} (runs : dec.Runs 0 n)
    (loaded : dec.Loaded 0 n ctx) (uncached : Uncached ctx.toRuntimeContext) :
    (dec.run n ctx).1 = none ∧ dec.Answers 0 n (dec.run n ctx).2 := by
  obtain ⟨fine, answers, _⟩ := runs.uncached law loaded uncached
  exact ⟨fine, answers⟩

theorem cachedRuns_answer {n m : Nat} {contexts : Nat → ModelContext α} {cache : KVCache α}
    (runs : ∀ r ≤ m, dec.Runs (runStart n r) (runTokens n r))
    (loaded : ∀ r ≤ m, dec.Loaded (runStart n r) (runTokens n r) (contexts r))
    (noPaged : ∀ r ≤ m, (contexts r).pagedKvCache = none) (cached : dec.Cached cache 0)
    (indices : dec.CacheFits (n + m)) (room : (n + m : Int) ≤ cache.maxSeqLen) (r : Nat) (inside : r ≤ m) :
    (dec.cachedRuns contexts cache n r).1 = none ∧
      dec.Answers (runStart n r) (runTokens n r) (dec.cachedRuns contexts cache n r).2 ∧
      ∃ after, (dec.cachedRuns contexts cache n r).2.kvCache = some after ∧
        dec.Cached after (n + r) ∧ after.maxSeqLen = cache.maxSeqLen := by
  induction r with
  | zero =>
      have ready : dec.Loaded 0 n
          { contexts 0 with kvCache := some cache, kvCacheAdvanceTokens := n } :=
        (loaded 0 inside).rebind rfl rfl
      obtain ⟨fine, answers, _, _, _, after, attached, grown, max⟩ :=
        Runs.cached law (show dec.Runs 0 n from runs 0 inside) (indices.mono (by omega)) ready
          (noPaged 0 inside) rfl cached rfl (by omega) (Or.inl rfl)
      refine ⟨fine, answers, after, attached, ?_, max⟩
      rwa [Nat.zero_add] at grown
  | succ r ih =>
      obtain ⟨_, _, before, attachedBefore, cachedBefore, maxBefore⟩ := ih (by omega)
      have ready : dec.Loaded (n + r) 1 { contexts (r + 1) with
          kvCache := (dec.cachedRuns contexts cache n r).2.kvCache, kvCacheAdvanceTokens := 1 } :=
        (loaded (r + 1) inside).rebind rfl rfl
      obtain ⟨fine, answers, _, _, _, after, attached, grown, max⟩ :=
        Runs.cached law (show dec.Runs (n + r) 1 from runs (r + 1) inside)
          (indices.mono (by omega)) ready (noPaged (r + 1) inside) attachedBefore cachedBefore rfl (by rw [maxBefore]; omega)
          (Or.inr rfl)
      refine ⟨fine, answers, after, attached, ?_, max.trans maxBefore⟩
      rwa [Nat.add_assoc] at grown

/-- The logits of the runs with the cache are those of one run over all tokens. -/
theorem cachedRuns_agree {n m : Nat} {contexts : Nat → ModelContext α} {whole : ModelContext α}
    (runs : dec.Runs 0 (n + m)) (some : 0 < n)
    (loadedWhole : dec.Loaded 0 (n + m) whole) (uncached : Uncached whole.toRuntimeContext)
    (loaded : ∀ r ≤ m, dec.Loaded (runStart n r) (runTokens n r) (contexts r))
    (noPaged : ∀ r ≤ m, (contexts r).pagedKvCache = none) {capacity : Nat}
    (room : n + m ≤ capacity) (int : capacity < 2147483648) :
    (dec.run (n + m) whole).1 = none ∧
      ∃ full, dec.logitsTensor (n + m) (dec.run (n + m) whole).2 = .some full ∧
        ∀ r ≤ m,
          (dec.cachedRuns contexts
            (KVCache.init {} dec.numLayers dec.nkv dec.hd capacity) n r).1 = none ∧
          ∃ own, dec.logitsTensor (runTokens n r) (dec.cachedRuns contexts
              (KVCache.init {} dec.numLayers dec.nkv dec.hd capacity) n r).2 = .some own ∧
            ∀ s < runTokens n r, ∀ t < dec.vocab, own.data (s * dec.vocab + t) =
              full.data ((runStart n r + s) * dec.vocab + t) := by
  obtain ⟨fine, ⟨full, found, rows⟩, _⟩ := runs.uncached law loadedWhole uncached
  have ends : ∀ r ≤ m, runStart n r + runTokens n r ≤ n + m ∧ 0 < runTokens n r := by
    intro r inside
    cases r <;> simp only [runStart, runTokens] <;> omega
  have parts : ∀ r ≤ m, dec.Runs (runStart n r) (runTokens n r) := by
    intro r inside
    obtain ⟨last, tokens⟩ := ends r inside
    have all := runs.last
    refine ⟨runs.wellFormed, tokens, runs.fits.mono (by omega), by omega, runs.layers,
      fun i below => ?_⟩
    have whole := runs.inside (runStart n r + i) (by omega)
    rwa [Nat.zero_add] at whole
  obtain ⟨empty, max⟩ := init_cached runs.wellFormed (show 0 < capacity by omega) int
  refine ⟨fine, full, found, fun r inside => ?_⟩
  obtain ⟨ran, ⟨own, foundOwn, ownRows⟩, _⟩ :=
    cachedRuns_answer law parts loaded noPaged empty runs.fits.cache (by rw [max]; omega) r inside
  refine ⟨ran, own, foundOwn, fun s below t column => ?_⟩
  have last := (ends r inside).1
  rw [ownRows s below t column, rows _ (by omega) t column, Nat.zero_add]

end Runs

section Tiny

-- One layer with norms of its heads; exp and the roots are only taken where they are 1.
def tinyDecoder : Decoder ℚ where
  ops := unitOps
  vocab := 2
  hidden := 2
  intermediate := 1
  numLayers := 1
  nh := 1
  nkv := 1
  hd := 2
  eps := 1
  base := 1
  useQkNorm := true
  weights _ _ := 0
  tokens p := p % 2

theorem tinyDecoder_wellFormed : tinyDecoder.WellFormed := ⟨by decide, by decide, by decide⟩

theorem tinyDecoder_fits {n : Nat} (tokens : 0 < n) (short : n < 100) : tinyDecoder.Fits n := by
  have narrow : ∀ width ∈ tinyDecoder.widths, width ≤ 2 := by decide
  refine ⟨fun width listed => ?_, by decide, ?_⟩
  · have count := Nat.mul_le_mul_left n (narrow width listed)
    change n * width + 8 < 2147483648
    omega
  · simp only [Cpu.kvTile]
    omega

theorem tinyDecoder_runs {n : Nat} (tokens : 0 < n) (short : n < 100) : tinyDecoder.Runs 0 n := by
  refine ⟨tinyDecoder_wellFormed, tokens, tinyDecoder_fits tokens short, by omega, by decide,
    fun i _ => ?_⟩
  change 0 ≤ ((0 + i : Nat) : Int) % 2 ∧ ((0 + i : Nat) : Int) % 2 < 2
  omega

theorem run_computes_logits_tiny :
    (tinyDecoder.run 3 (tinyDecoder.newContext 0 3)).1 = none ∧
      tinyDecoder.Answers 0 3 (tinyDecoder.run 3 (tinyDecoder.newContext 0 3)).2 :=
  run_computes_logits unitOps_law (tinyDecoder_runs (by decide) (by decide))
    (newContext_loaded tinyDecoder 0 3) ⟨rfl, rfl, le_rfl⟩

theorem cachedRuns_agree_tiny :
    ∃ full, tinyDecoder.logitsTensor 3 (tinyDecoder.run 3 (tinyDecoder.newContext 0 3)).2 =
        some full ∧
      ∃ own, tinyDecoder.logitsTensor 1 (tinyDecoder.cachedRuns
          (fun r => tinyDecoder.newContext (runStart 2 r) (runTokens 2 r))
          (KVCache.init {} 1 1 2 3) 2 1).2 = some own ∧
        ∀ t < 2, own.data t = full.data (2 * 2 + t) := by
  obtain ⟨_, full, found, all⟩ := @cachedRuns_agree ℚ _ _ _ tinyDecoder unitOps_law 2 1
    (fun r => tinyDecoder.newContext (runStart 2 r) (runTokens 2 r)) (tinyDecoder.newContext 0 3)
    (tinyDecoder_runs (by decide) (by decide)) (by decide) (newContext_loaded tinyDecoder 0 3)
    ⟨rfl, rfl, le_rfl⟩ (fun r _ => newContext_loaded tinyDecoder _ _) (fun _ _ => rfl) 3
    (by decide) (by decide)
  obtain ⟨_, own, foundOwn, rows⟩ := all 1 le_rfl
  refine ⟨full, found, own, foundOwn, fun t below => ?_⟩
  simpa [runTokens, runStart, tinyDecoder] using rows 0 Nat.one_pos t below

end Tiny

end Decoder

end MiniLLM
