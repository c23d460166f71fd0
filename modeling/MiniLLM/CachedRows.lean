import MiniLLM.ContiguousCache

/-!
Contiguous caches that hold the same rows. A call of the attention kernel stores its
chunk behind the rows that count and reads nothing behind the chunk, so on two caches
with the same rows it stores and computes the same.
-/

namespace MiniLLM

open Loops Strides Cpu

namespace Cpu

variable {α : Type} [Field α] [LinearOrder α] (ops : FloatOps α)

omit [LinearOrder α] in
theorem dot_congr (q : Buffer α) {k k' : Buffer α} {n : Nat} (same : ∀ d < n, k d = k' d) :
    dot ops q k n = dot ops q k' n := by
  rw [dot_eq, dot_eq]
  refine Finset.sum_congr rfl fun d inside => ?_
  rw [same d (Finset.mem_range.mp inside)]

omit [Field α] [LinearOrder α] in
theorem simdMap_congr {n : Nat} {f g : Nat → α → α} (row : Buffer α)
    (same : ∀ d < n, ∀ x, f d x = g d x) : simdMap ops n f row = simdMap ops n g row := by
  funext d
  rw [simdMap_apply, simdMap_apply]
  split
  · next inside => exact same d inside _
  · rfl

/-- Rows that a query cannot tell apart: the first `kvLen` of K and V, `headDim` floats each. -/
structure FlashRow.Same (headDim kvLen : Nat) (row row' : FlashRow α) : Prop where
  query : row'.q = row.q
  mask : row'.causalAt = row.causalAt
  keys : ∀ ki < kvLen, ∀ d < headDim, row'.k ki d = row.k ki d
  values : ∀ ki < kvLen, ∀ d < headDim, row'.v ki d = row.v ki d

section Flash

variable {headDim kvLen : Nat} {row row' : FlashRow α} (same : FlashRow.Same headDim kvLen row row')
include same

omit [Field α] [LinearOrder α] in
theorem FlashRow.Same.masked (ki : Nat) : row'.masked ki = row.masked ki := by
  rw [FlashRow.masked, FlashRow.masked, same.mask]

theorem FlashRow.Same.tileScores {kt count : Nat} (inside : kt + count ≤ kvLen) :
    tileScores ops headDim row' kt count = tileScores ops headDim row kt count := by
  refine loop_congr count _ _ _ fun i tile below => ?_
  rw [same.masked, same.query, dot_congr ops row.q (same.keys (kt + i) (by omega))]

theorem FlashRow.Same.flashTile {kt tileEnd : Nat} (inside : tileEnd ≤ kvLen)
    (state : FlashState α) :
    flashTile ops headDim row' kt tileEnd state = flashTile ops headDim row kt tileEnd state := by
  obtain past | tile := Nat.le_total tileEnd kt
  · have none : tileEnd - kt = 0 := by omega
    simp only [Cpu.flashTile, Cpu.tileScores, none, loop]
  · have scores := same.tileScores ops (show kt + (tileEnd - kt) ≤ kvLen by omega)
    simp only [Cpu.flashTile, scores]
    refine congrArg (FlashState.mk _ _) (loop_congr _ _ _ _ fun i o below => ?_)
    split
    · rfl
    · refine simdMap_congr ops o fun d column x => ?_
      rw [same.values (kt + i) (by omega) d column]

theorem FlashRow.Same.flashRow : flashRow ops headDim kvLen row' = flashRow ops headDim kvLen row := by
  have tiles : flashTiles ops headDim kvLen row' = flashTiles ops headDim kvLen row := by
    refine congrArg Prod.snd (loopTry_congr _ _ _ _ fun t state _ => ?_)
    rw [same.masked, same.flashTile ops (Nat.min_le_right _ _)]
  rw [Cpu.flashRow, Cpu.flashRow, tiles]

end Flash

end Cpu

namespace KVCacheLayer

variable {α : Type}

/-- The first `len` rows of two layers are the same. -/
def SameRows (width len : Nat) (a b : KVCacheLayer α) : Prop :=
  ∀ row < len, ∀ c < width, b.k (row * width + c) = a.k (row * width + c) ∧
    b.v (row * width + c) = a.v (row * width + c)

theorem SameRows.refl (width len : Nat) (a : KVCacheLayer α) : SameRows width len a a :=
  fun _ _ _ _ => ⟨rfl, rfl⟩

theorem SameRows.symm {width len : Nat} {a b : KVCacheLayer α} (same : SameRows width len a b) :
    SameRows width len b a :=
  fun row below c inside => ⟨(same row below c inside).1.symm, (same row below c inside).2.symm⟩

theorem SameRows.trans {width len : Nat} {a b c : KVCacheLayer α} (first : SameRows width len a b)
    (second : SameRows width len b c) : SameRows width len a c :=
  fun row below c inside =>
    ⟨(second row below c inside).1.trans (first row below c inside).1,
      (second row below c inside).2.trans (first row below c inside).2⟩

theorem SameRows.mono {width len len' : Nat} {a b : KVCacheLayer α} (same : SameRows width len' a b)
    (fewer : len ≤ len') : SameRows width len a b :=
  fun row below => same row (Nat.lt_of_lt_of_le below fewer)

end KVCacheLayer

namespace CpuKernelAdapter

open KVCacheLayer

variable {α : Type}

section Storing

variable {args : AttentionArgs α} {first width : Nat} (hidden : args.kvHidden = width)
include hidden

/-- The chunk leaves the rows before it. -/
theorem cacheRows_below (layer : KVCacheLayer α) :
    SameRows width first layer (cacheRows args first layer) :=
  fun row below _ inside => (cacheRows_at args first width layer hidden inside).2 row below

/-- Layers that agree before the chunk agree behind it. -/
theorem cacheRows_same {a b : KVCacheLayer α} (same : SameRows width first a b) :
    SameRows width (first + args.seqLen.toNat) (cacheRows args first a) (cacheRows args first b) := by
  intro row below c inside
  obtain ⟨newA, oldA⟩ := cacheRows_at args first width a hidden inside
  obtain ⟨newB, oldB⟩ := cacheRows_at args first width b hidden inside
  by_cases old : row < first
  · rw [(oldA row old).1, (oldA row old).2, (oldB row old).1, (oldB row old).2]
    exact same row old c inside
  · obtain ⟨s, rfl⟩ := Nat.exists_eq_add_of_le (Nat.not_lt.mp old)
    have chunk : s < args.seqLen.toNat := by omega
    rw [(newA s chunk).1, (newA s chunk).2, (newB s chunk).1, (newB s chunk).2]
    exact ⟨rfl, rfl⟩

end Storing

section Attending

variable [Field α]

theorem interleave_congr {seqLen nh hd : Nat} {source source' : Nat → Nat → Buffer α}
    (same : ∀ s < seqLen, ∀ h < nh, ∀ d < hd, source' s h d = source s h d) :
    interleave seqLen nh hd source' = interleave seqLen nh hd source := by
  refine loop_congr seqLen _ _ _ fun s buffer insideS => ?_
  refine loop_congr nh _ _ _ fun h buffer insideH => ?_
  refine loop_congr hd _ _ _ fun d buffer insideD => ?_
  rw [same s insideS h insideH d insideD]

variable [LinearOrder α] (ops : FloatOps α) {args : AttentionArgs α} {nh nkv hd : Nat}
  (geometry : Geometry args nh nkv hd) {a b : KVCacheLayer α}
include geometry

/-- Attention over a chunk reads the rows of the chunk. -/
theorem attendBatch_same (same : SameRows (nkv * hd) args.seqLen.toNat a b) (output : Buffer α) :
    attendBatch ops args b.k b.v 0 output = attendBatch ops args a.k a.v 0 output := by
  have cell : ∀ s < args.seqLen.toNat, ∀ h < nh, ∀ d < hd,
      b.k (s * (nkv * hd) + h / (nh / nkv) * hd + d) =
          a.k (s * (nkv * hd) + h / (nh / nkv) * hd + d) ∧
        b.v (s * (nkv * hd) + h / (nh / nkv) * hd + d) =
          a.v (s * (nkv * hd) + h / (nh / nkv) * hd + d) := by
    intro s insideS h insideH d insideD
    rw [Nat.add_assoc]
    exact same s insideS _ (strided_lt (groupHead_lt geometry.divides insideH) insideD)
  unfold attendBatch
  simp only [geometry.heads, geometry.kvHeads, geometry.headDim, geometry.kvHidden,
    Int.toNat_natCast, Nat.zero_mul, Nat.zero_add]
  rw [interleave_congr fun s insideS h insideH d insideD => (cell s insideS h insideH d insideD).1,
    interleave_congr fun s insideS h insideH d insideD => (cell s insideS h insideH d insideD).2]

/-- What the call writes is read off the rows up to the last one it stored. -/
theorem attendStored_same {first : Nat} (decode : first = 0 ∨ args.seqLen = 1)
    (same : SameRows (nkv * hd) (first + args.seqLen.toNat) a b) :
    attendStored ops args first b = attendStored ops args first a := by
  unfold attendStored
  by_cases prefill : first = 0
  · rw [if_pos prefill, if_pos prefill]
    exact attendBatch_same ops geometry (same.mono (by omega)) _
  · have single := decode.resolve_left prefill
    have rows : SameRows (nkv * hd) (first + 1) a b := same.mono (by rw [single]; rfl)
    rw [if_neg prefill, if_neg prefill]
    simp only [geometry.heads, geometry.kvHeads, geometry.headDim, Int.toNat_natCast]
    refine congrArg (copyFloats _ _ _) (loop_congr nh _ _ _ fun h output insideH => ?_)
    refine congrArg (copyFloats _ _ _) (FlashRow.Same.flashRow ops ⟨rfl, rfl, ?_, ?_⟩)
    all_goals
      intro ki below d insideD
      have cell := rows ki below _ (strided_lt (groupHead_lt geometry.divides insideH) insideD)
      rw [← Nat.add_assoc] at cell
    · exact cell.1
    · exact cell.2

end Attending

section Outcomes

variable [Field α] [LinearOrder α] (ops : FloatOps α) (args : AttentionArgs α) (cache : KVCache α)
  (ctx : RuntimeContext α) (output : Nat)

/-- The contiguous path refuses a call before it touches anything, or accepts it. -/
theorem cachedAttention_ends :
    args.batch = 1 ∧ CacheAccepts args cache ∨
      ∃ st, cachedAttention ops args output cache ctx = (some (.returned st), ctx) := by
  by_cases batch : args.batch = 1
  · by_cases accepts : CacheAccepts args cache
    · exact Or.inl ⟨batch, accepts⟩
    · right
      have refused : (cachedAttention ops args output cache ctx).1 ≠ none :=
        mt (cachedAttention_accepts ops batch output cache).mp accepts
      unfold cachedAttention at refused ⊢
      split_ifs at refused ⊢
      all_goals first | exact ⟨_, rfl⟩ | exact absurd rfl refused
  · right
    unfold cachedAttention
    rw [if_pos batch]
    exact ⟨_, rfl⟩

/-- How a call ends depends on the sizes of the cache and on its length. -/
theorem cachedAttention_outcome {twin : KVCache α} (other : RuntimeContext α)
    (numLayers : twin.numLayers = cache.numLayers) (maxSeqLen : twin.maxSeqLen = cache.maxSeqLen)
    (cachedLen : twin.cachedLen = cache.cachedLen) :
    (cachedAttention ops args output twin other).1 =
      (cachedAttention ops args output cache ctx).1 := by
  have appends : ∀ n, twin.canAppend n = cache.canAppend n := fun n => by
    rw [KVCache.canAppend, KVCache.canAppend, maxSeqLen, cachedLen]
  unfold cachedAttention
  rw [numLayers, maxSeqLen, cachedLen, appends, appends]
  split_ifs <;> rfl

end Outcomes

end CpuKernelAdapter

namespace KVCache

open KVCacheLayer

variable {α : Type} [Zero α]

/-- Two caches of one size and length; layer `l` has the same first `len l` rows in both. -/
structure Agrees (width : Nat) (len : Int → Nat) (a b : KVCache α) : Prop where
  numLayers : b.numLayers = a.numLayers
  maxSeqLen : b.maxSeqLen = a.maxSeqLen
  cachedLen : b.cachedLen = a.cachedLen
  rows : ∀ l, 0 ≤ l → l < a.numLayers → SameRows width (len l) (a.layer l) (b.layer l)

/-- The rows that count, layer by layer. -/
def counted {α : Type} (cache : KVCache α) : Int → Nat := fun _ => cache.cachedLen.toNat

/-- The length is one that `set_cached_len` leaves, the capacity an `int`. -/
structure Bounded (cache : KVCache α) : Prop where
  low : 0 ≤ cache.cachedLen
  fits : cache.cachedLen ≤ cache.maxSeqLen
  int : cache.maxSeqLen < 2147483648

section Agreement

variable {width : Nat} {len len' : Int → Nat} {a b c : KVCache α}

theorem Agrees.refl (width : Nat) (len : Int → Nat) (a : KVCache α) : Agrees width len a a :=
  ⟨rfl, rfl, rfl, fun _ _ _ => SameRows.refl _ _ _⟩

theorem Agrees.symm (agrees : Agrees width len a b) : Agrees width len b a :=
  ⟨agrees.numLayers.symm, agrees.maxSeqLen.symm, agrees.cachedLen.symm, fun l low high =>
    (agrees.rows l low (by rw [← agrees.numLayers]; exact high)).symm⟩

theorem Agrees.trans (first : Agrees width len a b) (second : Agrees width len b c) :
    Agrees width len a c :=
  ⟨second.numLayers.trans first.numLayers, second.maxSeqLen.trans first.maxSeqLen,
    second.cachedLen.trans first.cachedLen, fun l low high =>
      (first.rows l low high).trans (second.rows l low (by rw [first.numLayers]; exact high))⟩

theorem Agrees.mono (agrees : Agrees width len' a b)
    (fewer : ∀ l, 0 ≤ l → l < a.numLayers → len l ≤ len' l) : Agrees width len a b :=
  ⟨agrees.numLayers, agrees.maxSeqLen, agrees.cachedLen, fun l low high =>
    (agrees.rows l low high).mono (fewer l low high)⟩

theorem Agrees.initialized (agrees : Agrees width len a b) : b.initialized = a.initialized := by
  rw [KVCache.initialized, KVCache.initialized, agrees.maxSeqLen]

theorem Agrees.counted (agrees : Agrees width len a b) : b.counted = a.counted := by
  funext l
  rw [KVCache.counted, KVCache.counted, agrees.cachedLen]

theorem Agrees.canAppend (agrees : Agrees width len a b) (n : Int) :
    b.canAppend n = a.canAppend n := by
  rw [KVCache.canAppend, KVCache.canAppend, agrees.maxSeqLen, agrees.cachedLen]

omit [Zero α] in
theorem Bounded.advance (bounded : a.Bounded) (n : Int) : (a.advance n).Bounded := by
  obtain ⟨low, fits, int⟩ := bounded
  refine ⟨?_, ?_, int⟩
  all_goals
    simp only [KVCache.advance, KVCache.setCachedLen]
    omega

theorem Agrees.bounded (agrees : Agrees width len a b) (bounded : a.Bounded) : b.Bounded := by
  obtain ⟨low, fits, int⟩ := bounded
  rw [← agrees.cachedLen] at low fits
  rw [← agrees.maxSeqLen] at fits int
  exact ⟨low, fits, int⟩

theorem Agrees.advance (agrees : Agrees width len a b) (n : Int) :
    Agrees width len (a.advance n) (b.advance n) := by
  refine ⟨agrees.numLayers, agrees.maxSeqLen, ?_, agrees.rows⟩
  simp only [KVCache.advance, KVCache.setCachedLen, agrees.maxSeqLen, agrees.cachedLen]

end Agreement

end KVCache

namespace CpuKernelAdapter

open KVCacheLayer

variable {α : Type} [Field α] {args : AttentionArgs α} {width : Nat} {len : Int → Nat}
  {a b : KVCache α}

omit [Field α] in
theorem cacheAccepts_agrees [Zero α] {args' : AttentionArgs α} (accepts : CacheAccepts args a)
    (agrees : KVCache.Agrees width len a b) (seqLen : args'.seqLen = args.seqLen)
    (layerIdx : args'.layerIdx = args.layerIdx) : CacheAccepts args' b := by
  obtain ⟨tokens, layer, length, room, decode⟩ := accepts
  rw [← seqLen] at tokens room decode
  rw [← layerIdx, ← agrees.numLayers] at layer
  rw [← agrees.maxSeqLen, ← agrees.cachedLen] at length room
  rw [← agrees.cachedLen] at decode
  exact ⟨tokens, layer, length, room, decode⟩

section Chunks

variable (accepts : CacheAccepts args a) (hidden : args.kvHidden = width)
include accepts

theorem storeChunk_layer (l : Int) (low : 0 ≤ l) :
    (storeChunk args a).layer l =
      if l = args.layerIdx then cacheRows args a.cachedLen.toNat (a.layer l) else a.layer l := by
  obtain ⟨layerLow, layerHigh⟩ := accepts.layer
  split
  · next same =>
      rw [same]
      exact a.modifyLayer_layer _ _ layerLow layerHigh
  · next apart => exact storeChunk_other layerLow low apart

include hidden

/-- The chunk goes behind the rows that count. -/
theorem storeChunk_keeps : KVCache.Agrees width a.counted a (storeChunk args a) := by
  refine ⟨storeChunk_numLayers, rfl, rfl, fun l low _ => ?_⟩
  rw [storeChunk_layer accepts l low]
  split
  · exact cacheRows_below hidden _
  · exact SameRows.refl _ _ _

/-- Both caches then hold the same chunk. -/
theorem storeChunk_agrees (agrees : KVCache.Agrees width len a b)
    (holds : a.cachedLen.toNat ≤ len args.layerIdx) :
    KVCache.Agrees width
      (fun l => if l = args.layerIdx then a.cachedLen.toNat + args.seqLen.toNat else len l)
      (storeChunk args a) (storeChunk args b) := by
  have twin : CacheAccepts args b := cacheAccepts_agrees accepts agrees rfl rfl
  refine ⟨by rw [storeChunk_numLayers, storeChunk_numLayers, agrees.numLayers], agrees.maxSeqLen,
    agrees.cachedLen, fun l low high => ?_⟩
  rw [storeChunk_numLayers] at high
  rw [storeChunk_layer accepts l low, storeChunk_layer twin l low, agrees.cachedLen]
  have rows := agrees.rows l low high
  split
  · next same =>
      subst same
      exact cacheRows_same hidden (rows.mono holds)
  · exact rows

end Chunks

end CpuKernelAdapter

end MiniLLM
