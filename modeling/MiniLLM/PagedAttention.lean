import MiniLLM.AttentionRows
import MiniLLM.SequenceCapacity

/-!
One call of the attention kernel in paged mode. The chunk's rows go to the map
behind the cache, one `write_tokens` call each; the two softmax passes over the
pointers are then attention over the rows of the map.
-/

namespace MiniLLM.PagedKVCache

open Loops

variable {Elem : Type}

/-- The rows `rows 0, …` at the positions from `startPos` on. -/
def RowMap.place (map : RowMap Elem) (sequenceId layer startPos : Int)
    (rows : Nat → Buffer Elem × Buffer Elem) (count : Nat) : RowMap Elem :=
  { map with
    length := fun id =>
      if id = sequenceId ∧ 0 < count then max (map.length sequenceId) (startPos + count)
      else map.length id
    row := fun id l pos =>
      if id = sequenceId ∧ l = layer ∧ startPos ≤ pos ∧ pos < startPos + count then
        some (rows (pos - startPos).toNat)
      else map.row id l pos }

section Placing

variable (map : RowMap Elem) (sequenceId layer startPos : Int)

theorem RowMap.place_none (rows : Nat → Buffer Elem × Buffer Elem) :
    map.place sequenceId layer startPos rows 0 = map := by
  apply RowMap.ext
  · rfl
  · funext id
    exact if_neg fun some => absurd some.2 (by omega)
  · funext id l pos
    exact if_neg fun inside => by omega

/-- A chunk written is its rows placed. -/
theorem RowMap.write_place (k v : Buffer Elem) (count : Nat) :
    map.write sequenceId layer startPos (some k) (some v) count =
      map.place sequenceId layer startPos
        (fun s => (fun j => k (s * map.width + j), fun j => v (s * map.width + j))) count := by
  apply RowMap.ext
  · exact write_width map sequenceId layer startPos _ _ _
  · funext id
    exact map.write_length sequenceId layer startPos k v count id
  · funext id l pos
    exact map.write_row sequenceId layer startPos k v count id l pos

/-- Row `i` behind `i` rows placed. -/
theorem RowMap.place_snoc (rows : Nat → Buffer Elem × Buffer Elem) (i : Nat) :
    (map.place sequenceId layer startPos rows i).write sequenceId layer (startPos + i)
        (some (rows i).1) (some (rows i).2) 1 =
      map.place sequenceId layer startPos rows (i + 1) := by
  have one : (1 : Int) = (1 : Nat) := rfl
  rw [one, write_place]
  simp only [place]
  apply RowMap.ext
  · rfl
  · funext id
    by_cases same : id = sequenceId
    · subst same
      simp only [true_and, Nat.succ_pos, if_true]
      split <;> omega
    · simp only [same, false_and, if_false]
  · funext id l pos
    dsimp only
    by_cases here : id = sequenceId ∧ l = layer ∧ pos = startPos + i
    · obtain ⟨rfl, rfl, rfl⟩ := here
      rw [if_pos ⟨rfl, rfl, by omega, by omega⟩, if_pos ⟨rfl, rfl, by omega, by omega⟩,
        show (startPos + i - (startPos + i)).toNat = 0 by omega,
        show (startPos + i - startPos).toNat = i by omega]
      simp only [Nat.zero_mul, Nat.zero_add]
    · rw [if_neg fun inside => here ⟨inside.1, inside.2.1, by omega⟩]
      have same : (id = sequenceId ∧ l = layer ∧ startPos ≤ pos ∧ pos < startPos + i) ↔
          (id = sequenceId ∧ l = layer ∧ startPos ≤ pos ∧ pos < startPos + (i + 1 : Nat)) := by
        constructor
        · rintro ⟨known, inLayer, low, high⟩
          exact ⟨known, inLayer, low, by omega⟩
        · rintro ⟨known, inLayer, low, high⟩
          have : pos ≠ startPos + i := fun last => here ⟨known, inLayer, last⟩
          exact ⟨known, inLayer, low, by omega⟩
      simp only [same]

end Placing

end MiniLLM.PagedKVCache

namespace MiniLLM.CpuKernelAdapter

open Loops Strides Cpu Softmax Finset PagedKVCache

variable {α : Type} [Field α]

section Writes

-- Row `s` of the chunk's K and V tensors.
def chunkRow (args : AttentionArgs α) (s : Nat) : Buffer α × Buffer α :=
  (fun d => args.k.data (s * args.kvHidden.toNat + d),
    fun d => args.v.data (s * args.kvHidden.toNat + d))

/-- The write loop stores the chunk row by row; on an error the rows before it stay. -/
theorem pagedWrites_places {args : AttentionArgs α} {paged : PagedKVCache α} {map : RowMap α}
    (seqId start : Int) (low : 0 ≤ start) (int : start < 2147483648) (refined : paged.Refines map) :
    Ends (fun after =>
        (after.Refines (map.place seqId args.layerIdx start (chunkRow args) args.seqLen.toNat) ∧
          SameShape paged after) ∧ start + args.seqLen.toNat < 2147483648 ∧
          (0 < args.seqLen.toNat → 0 ≤ seqId ∧ 0 ≤ args.layerIdx ∧
            args.layerIdx < paged.numLayers))
      (fun _ after => ∃ i ≤ args.seqLen.toNat,
        (after.Refines (map.place seqId args.layerIdx start (chunkRow args) i) ∧
          SameShape paged after) ∧ start + i < 2147483648)
      (pagedWrites args seqId start paged) := by
  refine loopTry_invariant
    (fun i after => (after.Refines (map.place seqId args.layerIdx start (chunkRow args) i) ∧
        SameShape paged after) ∧ start + i < 2147483648 ∧
      (0 < i → 0 ≤ seqId ∧ 0 ≤ args.layerIdx ∧ args.layerIdx < paged.numLayers))
    _ _ _ paged ⟨⟨by rwa [RowMap.place_none], SameShape.refl paged⟩, by simpa using int,
      fun no => by omega⟩ ?_
  rintro i state below ⟨⟨held, shape⟩, bound, _⟩
  have place : wrap32 (start + i) = start + i := wrap32_eq _ (by omega) bound
  obtain ⟨written, accepted⟩ := writeToken_refines seqId args.layerIdx (start + i)
    (fun d => args.k.data (i * args.kvHidden.toNat + d))
    (fun d => args.v.data (i * args.kvHidden.toNat + d)) bound held
  have kept := shape.trans (writeTokens_sameShape state seqId args.layerIdx (start + i)
    (some fun d => args.k.data (i * args.kvHidden.toNat + d))
    (some fun d => args.v.data (i * args.kvHidden.toNat + d)) 1)
  have next : (map.place seqId args.layerIdx start (chunkRow args) i).write seqId args.layerIdx
      (start + i) (some fun d => args.k.data (i * args.kvHidden.toNat + d))
      (some fun d => args.v.data (i * args.kvHidden.toNat + d)) 1 =
        map.place seqId args.layerIdx start (chunkRow args) (i + 1) :=
    map.place_snoc seqId args.layerIdx start (chunkRow args) i
  dsimp only
  rw [place]
  generalize state.writeTokens seqId args.layerIdx (start + i)
    (some fun d => args.k.data (i * args.kvHidden.toNat + d))
    (some fun d => args.v.data (i * args.kvHidden.toNat + d)) 1 = result at *
  obtain ⟨st, after⟩ := result
  cases fine : st.isOk with
  | true =>
      simp only [fine, if_true, Bool.not_true, Bool.false_eq_true, if_false] at written ⊢
      obtain ⟨known, layerLow, layerHigh, _, room, _⟩ := accepted fine
      rw [shape.numLayers] at layerHigh
      rw [next] at written
      exact ⟨⟨written, kept⟩, by push_cast; omega, fun _ => ⟨known, layerLow, layerHigh⟩⟩
  | false =>
      simp only [fine, Bool.false_eq_true, if_false, Bool.not_false, if_true] at written ⊢
      exact ⟨i, below.le, ⟨written, kept⟩, bound⟩

/-- The map after the first `count` rows of the chunk. -/
def chunkWritten (map : RowMap α) (args : AttentionArgs α) (seqId start : Int) (count : Nat) :
    RowMap α :=
  map.write seqId args.layerIdx start (some args.k.data) (some args.v.data) count

omit [Field α] in
theorem chunkWritten_place {map : RowMap α} {args : AttentionArgs α}
    (width : args.kvHidden = map.width) (seqId start : Int) (count : Nat) :
    chunkWritten map args seqId start count =
      map.place seqId args.layerIdx start (chunkRow args) count := by
  have natural : map.width = args.kvHidden.toNat := by omega
  rw [chunkWritten, RowMap.write_place, natural]
  rfl

/-- Rows of the map's width are a chunk of the map. -/
theorem pagedWrites_refines {args : AttentionArgs α} {paged : PagedKVCache α} {map : RowMap α}
    (seqId start : Int) (low : 0 ≤ start) (int : start < 2147483648)
    (width : args.kvHidden = map.width) (refined : paged.Refines map) :
    Ends (fun after => (after.Refines (chunkWritten map args seqId start args.seqLen.toNat) ∧
          SameShape paged after) ∧ start + args.seqLen.toNat < 2147483648 ∧
          (0 < args.seqLen.toNat → 0 ≤ seqId ∧ 0 ≤ args.layerIdx ∧
            args.layerIdx < paged.numLayers))
      (fun _ after => ∃ i, after.Refines (chunkWritten map args seqId start i) ∧
        SameShape paged after)
      (pagedWrites args seqId start paged) := by
  simp only [chunkWritten_place width]
  exact Ends.mono (fun _ held => held) (fun _ _ ⟨i, _, held, _⟩ => ⟨i, held⟩)
    (pagedWrites_places seqId start low int refined)

end Writes

section Rows

variable [LinearOrder α]

-- The K rows and the V rows of one layer of a sequence, by position.
def keyRows (map : RowMap α) (seqId layer : Int) (pos : Nat) : Buffer α :=
  ((map.row seqId layer pos).getD (fun _ => 0, fun _ => 0)).1

def valueRows (map : RowMap α) (seqId layer : Int) (pos : Nat) : Buffer α :=
  ((map.row seqId layer pos).getD (fun _ => 0, fun _ => 0)).2

/-- Every position below `len` has a row. -/
def Filled (map : RowMap α) (seqId layer : Int) (len : Int) : Prop :=
  ∀ pos : Int, 0 ≤ pos → pos < len → (map.row seqId layer pos).isSome

/-- The pointers to head `head` of the first `limit` positions lead to `k` and `v`. -/
def Points (paged : PagedKVCache α) (seqId li head : Int) (limit hd : Nat)
    (k v : Nat → Buffer α) : Prop :=
  ∀ pos : Nat, pos < limit → ∃ key value, paged.keyPtr seqId li pos head = .ok key ∧
    paged.valuePtr seqId li pos head = .ok value ∧ ∀ d < hd, key d = k pos d ∧ value d = v pos d

omit [Field α] [LinearOrder α] in
theorem mapLoop_at (n : Nat) (f : Nat → α → α) (row : Buffer α) {d : Nat} (inside : d < n) :
    mapLoop n f row d = f d (row d) := by
  have rule := loop_invariant
    (fun i (stored : Buffer α) => ∀ d, stored d = if d < i then f d (row d) else row d) n
    (fun d row => store row d (f d (row d))) row (fun d => by simp) ?_
  · rw [mapLoop, rule d, if_pos inside]
  · intro i stored _ held d
    by_cases here : d = i
    · subst here
      rw [store_same, held d, if_neg (Nat.lt_irrefl d), if_pos (Nat.lt_succ_self d)]
    · rw [store_other _ _ _ _ here, held d]
      by_cases below : d < i
      · rw [if_pos below, if_pos (by omega)]
      · rw [if_neg below, if_neg (by omega)]

theorem pagedScores_at (ops : FloatOps α) {paged : PagedKVCache α} {seqId li head : Int}
    {limit hd : Nat} {k v : Nat → Buffer α} (points : Points paged seqId li head limit hd k v)
    (q : Buffer α) :
    Ends (fun state => ∀ pos < limit, state.1 pos = score ops hd q (k pos)) (fun _ _ => False)
      (pagedScores ops paged seqId li head limit hd q) := by
  refine loopTry_invariant
    (fun i (state : Buffer α × α) => ∀ pos < i, state.1 pos = score ops hd q (k pos)) _ _ _ _
    (fun pos below => absurd below (Nat.not_lt_zero pos)) ?_
  intro i state below held
  obtain ⟨key, value, found, _, same⟩ := points i below
  have dot : loop hd (fun d dot => dot + q d * key d) 0 = ∑ d ∈ range hd, q d * k i d := by
    have sum := loop_invariant (fun n (sum : α) => sum = ∑ d ∈ range n, q d * key d) hd
      (fun d dot => dot + q d * key d) 0 rfl fun d sum _ held => by rw [held, sum_range_succ]
    rw [sum]
    exact sum_congr rfl fun d member => by rw [(same d (mem_range.mp member)).1]
  simp only [found, dot]
  intro pos inside
  by_cases here : pos = i
  · subst here
    exact store_same _ _ _
  · exact (store_other _ _ _ _ here).trans (held pos (by omega))

omit [LinearOrder α] in
theorem pagedWeights_at (ops : FloatOps α) (limit : Nat) (scores : Buffer α) (m : α) :
    (∀ pos < limit, (pagedWeights ops limit scores m).1 pos = ops.exp (scores pos - m)) ∧
      (pagedWeights ops limit scores m).2 = ∑ pos ∈ range limit, ops.exp (scores pos - m) := by
  have rule := loop_invariant
    (fun i (state : Buffer α × α) =>
      (∀ pos, state.1 pos = if pos < i then ops.exp (scores pos - m) else scores pos) ∧
        state.2 = ∑ pos ∈ range i, ops.exp (scores pos - m))
    limit
    (fun pos state =>
      (store state.1 pos (ops.exp (state.1 pos - m)), state.2 + ops.exp (state.1 pos - m)))
    (scores, 0) ⟨fun pos => by simp, by simp⟩ ?_
  · exact ⟨fun pos inside => (rule.1 pos).trans (if_pos inside), rule.2⟩
  · rintro i state _ ⟨held, sum⟩
    have here : state.1 i = scores i := by rw [held i, if_neg (Nat.lt_irrefl i)]
    refine ⟨fun pos => ?_, ?_⟩
    · dsimp only
      by_cases same : pos = i
      · subst same
        rw [store_same, here, if_pos (Nat.lt_succ_self pos)]
      · rw [store_other _ _ _ _ same, held pos]
        by_cases below : pos < i
        · rw [if_pos below, if_pos (by omega)]
        · rw [if_neg below, if_neg (by omega)]
    · rw [sum, here, sum_range_succ]

variable [IsStrictOrderedRing α]

/-- The two passes over the pointers are attention over the rows they lead to. -/
theorem pagedRow_at (ops : FloatOps α) (law : ExpLaw ops.exp) {paged : PagedKVCache α}
    {seqId li head : Int} {limit hd : Nat} {k v : Nat → Buffer α} (some : 0 < limit)
    (points : Points paged seqId li head limit hd k v) (q : Buffer α) :
    ∃ row, pagedRow ops paged seqId li head limit hd q = .ok row ∧
      ∀ d < hd, row d = attend ops hd q k v limit d := by
  have scored := pagedScores_at ops points q
  unfold pagedRow
  generalize pagedScores ops paged seqId li head limit hd q = result at scored
  obtain ⟨err, scores, m⟩ := result
  cases err with
  | some st => exact scored.elim
  | none =>
      change ∀ pos < limit, scores pos = score ops hd q (k pos) at scored
      obtain ⟨weights, total⟩ := pagedWeights_at ops limit scores m
      have positive : ¬ (pagedWeights ops limit scores m).2 ≤ 0 := by
        rw [total, not_le]
        exact sum_pos (fun pos _ => law.pos _) ⟨0, mem_range.mpr some⟩
      dsimp only
      rw [if_neg positive]
      generalize pagedWeights ops limit scores m = state at weights total
      obtain ⟨weight, sum⟩ := state
      dsimp only at weights total ⊢
      generalize result : loopTry limit _ _ = final
      -- The value loop has summed the weighted rows of the positions passed.
      have ended : Ends (fun out : Buffer α => ∀ d < hd, out d =
          ∑ pos ∈ range limit, weight pos / sum * v pos d) (fun _ _ => False) final := by
        rw [← result]
        refine loopTry_invariant (fun i (out : Buffer α) => ∀ d < hd, out d =
          ∑ pos ∈ range i, weight pos / sum * v pos d) _ _ _ _ (fun d _ => by simp) ?_
        intro i out below held
        obtain ⟨_, value, _, found, same⟩ := points i below
        simp only [found]
        intro d inside
        rw [mapLoop_at hd _ out inside, held d inside, sum_range_succ, (same d inside).2]
      obtain ⟨out, rfl, values⟩ := ends_exists ended
      refine ⟨out, rfl, fun d inside => ?_⟩
      rw [values d inside, attend, ← average_two_pass law _ _ m limit, total]
      refine sum_congr rfl fun pos member => ?_
      rw [weights pos (mem_range.mp member), scored pos (mem_range.mp member)]
      congr 2
      exact sum_congr rfl fun i inner => by rw [scored i (mem_range.mp inner)]

-- The row a query row gets, once no pointer is missing.
def attendedRow (ops : FloatOps α) (paged : PagedKVCache α) (seqId li head : Int) (limit hd : Nat)
    (q : Buffer α) : Buffer α :=
  match pagedRow ops paged seqId li head limit hd q with
  | .ok row => row
  | .error _ => fun _ => 0

/-- Every head's pointers lead to its slices of the rows `K` and `V`. -/
def HeadsPoint (paged : PagedKVCache α) (seqId li : Int) (limit nkv hd : Nat)
    (K V : Nat → Buffer α) : Prop :=
  ∀ head < nkv, Points paged seqId li head limit hd (fun pos d => K pos (head * hd + d))
    fun pos d => V pos (head * hd + d)

omit [IsStrictOrderedRing α] [LinearOrder α] in
theorem HeadsPoint.shorter {paged : PagedKVCache α} {seqId li : Int} {limit less nkv hd : Nat}
    {K V : Nat → Buffer α} (points : HeadsPoint paged seqId li limit nkv hd K V)
    (le : less ≤ limit) : HeadsPoint paged seqId li less nkv hd K V :=
  fun head below pos inside => points head below pos (Nat.lt_of_lt_of_le inside le)

omit [IsStrictOrderedRing α] [LinearOrder α] in
/-- The rows of the map are what the pointers of a cache that refines it lead to. -/
theorem headsPoint_rows {paged : PagedKVCache α} {map : RowMap α} (refined : paged.Refines map)
    {seqId li : Int} {limit nkv hd : Nat} (heads : paged.numKvHeads = nkv)
    (headDim : paged.headDim = hd) (inside : limit ≤ paged.sequenceLength seqId)
    (filled : Filled map seqId li limit) :
    HeadsPoint paged seqId li limit nkv hd (keyRows map seqId li) (valueRows map seqId li) := by
  intro head below pos early
  obtain ⟨rows, entry⟩ := Option.isSome_iff_exists.mp (filled pos (by omega) (by omega))
  obtain ⟨key, value, found, foundValue, same⟩ := refined.pointers entry (by omega)
    (Int.natCast_nonneg head) (by omega)
  refine ⟨key, value, found, foundValue, fun d insideD => ?_⟩
  rw [headDim, Int.toNat_natCast] at same
  simp only [keyRows, valueRows, entry, Option.getD_some]
  exact same d insideD

theorem attendedRow_at (ops : FloatOps α) (law : ExpLaw ops.exp) {paged : PagedKVCache α}
    {seqId li : Int} {limit nh nkv hd : Nat} {K V : Nat → Buffer α} (some : 0 < limit)
    (divides : nkv ∣ nh) (points : HeadsPoint paged seqId li limit nkv hd K V) (q : Buffer α)
    {h : Nat} (inside : h < nh) :
    pagedRow ops paged seqId li ↑(h / (nh / nkv)) limit hd q =
        .ok (attendedRow ops paged seqId li ↑(h / (nh / nkv)) limit hd q) ∧
      ∀ d < hd, attendedRow ops paged seqId li ↑(h / (nh / nkv)) limit hd q d =
        attend ops hd q (fun pos d => K pos (h / (nh / nkv) * hd + d))
          (fun pos d => V pos (h / (nh / nkv) * hd + d)) limit d := by
  obtain ⟨row, found, same⟩ :=
    pagedRow_at ops law some (points _ (groupHead_lt divides inside)) q
  have here : attendedRow ops paged seqId li ↑(h / (nh / nkv)) limit hd q = row := by
    simp only [attendedRow, found]
  rw [here]
  exact ⟨found, same⟩

/-- The one-row path: each head attends over the whole sequence. -/
theorem pagedAttentionDecode_at (ops : FloatOps α) (law : ExpLaw ops.exp) {paged : PagedKVCache α}
    {seqId li : Int} {limit nh nkv hd : Nat} {K V : Nat → Buffer α}
    (ready : paged.initialized = true) (heads : paged.numKvHeads = nkv)
    (headDim : paged.headDim = hd) (positive : 0 < nh ∧ 0 < nkv ∧ 0 < hd) (divides : nkv ∣ nh)
    (length : paged.sequenceLength seqId = limit) (some : 0 < limit)
    (points : HeadsPoint paged seqId li limit nkv hd K V) (q output : Buffer α) :
    Ends (fun out => ∀ h < nh, ∀ d < hd, out (h * hd + d) =
        attend ops hd (fun d => q (h * hd + d)) (fun pos d => K pos (h / (nh / nkv) * hd + d))
          (fun pos d => V pos (h / (nh / nkv) * hd + d)) limit d)
      (fun _ _ => False) (pagedAttentionDecode ops paged seqId li q output nh hd) := by
  have whole : ((nh : Int) % (nkv : Int)) = 0 := by
    have := Nat.mod_eq_zero_of_dvd divides
    omega
  have fine : ¬ ((nh : Int) ≤ 0 ∨ (hd : Int) ≤ 0) := by omega
  have kvFine : ¬ (nkv ≤ 0 ∨ (nh : Int) % nkv ≠ 0) := by omega
  have kvLen : ¬ ((limit : Int) ≤ 0) := by omega
  unfold pagedAttentionDecode
  simp only [ready, heads, headDim, Bool.not_true, Bool.false_eq_true, if_false, fine, kvFine,
    ne_eq, not_true_eq_false, length, kvLen, Int.toNat_natCast]
  rw [loopTry_total nh _ (fun h out => copyFloats hd out (h * hd)
    (attendedRow ops paged seqId li ↑(h / (nh / nkv)) limit hd fun d => q (h * hd + d))) output ?_]
  · intro h insideH d insideD
    have copied := copyRows_at 1 nh hd (fun _ h => h * hd)
      (fun _ h => attendedRow ops paged seqId li ↑(h / (nh / nkv)) limit hd
        fun d => q (h * hd + d)) output ?_ Nat.one_pos insideH insideD
    · exact copied.trans ((attendedRow_at ops law some divides points _ insideH).2 d insideD)
    · intro a _ b _ a' _ b' _ d insideD d' insideD' same
      exact ⟨by omega, (strided_inj insideD insideD' same).1⟩
  · intro h out insideH
    rw [(attendedRow_at ops law some divides points _ insideH).1]

/-- The chunk path: each row attends over the positions up to its own. -/
theorem pagedAttentionChunk_at (ops : FloatOps α) (law : ExpLaw ops.exp) {paged : PagedKVCache α}
    {seqId li : Int} {start seqLen nh nkv hd : Nat} {K V : Nat → Buffer α} (divides : nkv ∣ nh)
    (int : start + seqLen < 2147483648)
    (points : HeadsPoint paged seqId li (start + seqLen) nkv hd K V) (q output : Buffer α) :
    Ends (fun out => ∀ h < nh, ∀ s < seqLen, ∀ d < hd,
        out (h * seqLen * hd + s * hd + d) =
          attend ops hd (fun d => q (h * seqLen * hd + s * hd + d))
            (fun pos d => K pos (h / (nh / nkv) * hd + d))
            (fun pos d => V pos (h / (nh / nkv) * hd + d)) (start + s + 1) d)
      (fun _ _ => False)
      (pagedAttentionChunk ops paged seqId li start q output nh (nh / nkv) seqLen hd) := by
  have limit : ∀ s < seqLen, (wrap32 (start + s + 1)).toNat = start + s + 1 := by
    intro s inside
    rw [wrap32_eq _ (by omega) (by omega)]
    omega
  have row := fun (h s : Nat) (insideH : h < nh) (insideS : s < seqLen) =>
    attendedRow_at ops law (Nat.succ_pos (start + s)) divides
      (points.shorter (show start + s + 1 ≤ start + seqLen by omega))
      (fun d => q (h * seqLen * hd + s * hd + d)) insideH
  unfold pagedAttentionChunk
  rw [loopTry_total nh _ (fun h out => loop seqLen (fun s out =>
    copyFloats hd out (h * seqLen * hd + s * hd)
      (attendedRow ops paged seqId li ↑(h / (nh / nkv)) (start + s + 1) hd
        fun d => q (h * seqLen * hd + s * hd + d))) out) output ?_]
  · intro h insideH s insideS d insideD
    have copied := copyRows_at nh seqLen hd (fun h s => h * seqLen * hd + s * hd)
      (fun h s => attendedRow ops paged seqId li ↑(h / (nh / nkv)) (start + s + 1) hd
        fun d => q (h * seqLen * hd + s * hd + d)) output ?_ insideH insideS insideD
    · exact copied.trans ((row h s insideH insideS).2 d insideD)
    · intro a _ b insideB a' _ b' insideB' d insideD d' insideD' same
      have parts := strided3_inj insideB insideB' insideD insideD' same
      exact ⟨parts.1, parts.2.1⟩
  · intro h out insideH
    refine loopTry_total seqLen _ _ out fun s out insideS => ?_
    rw [limit s insideS, (row h s insideH insideS).1]

end Rows

section Call

variable [LinearOrder α]

omit [Field α] [LinearOrder α] in
theorem writeOutput_at {args : AttentionArgs α} {nh nkv hd : Nat} (geometry : Geometry args nh nkv hd)
    (oBuf : Buffer α) {s j : Nat} (insideS : s < args.seqLen.toNat) (insideJ : j < nh * hd) :
    writeOutput args oBuf (s * (nh * hd) + j) =
      oBuf (j / hd * args.seqLen.toNat * hd + s * hd + j % hd) := by
  have width : 0 < hd := Nat.pos_of_mul_pos_left (Nat.lt_of_le_of_lt (Nat.zero_le j) insideJ)
  have head : j / hd < nh := Nat.div_lt_of_lt_mul (by rwa [Nat.mul_comm])
  have copied := copyRows_at args.seqLen.toNat nh hd (fun s h => s * (nh * hd) + h * hd)
    (fun s h d => oBuf (h * args.seqLen.toNat * hd + s * hd + d)) args.output.data ?_ insideS head
    (Nat.mod_lt j width)
  · unfold writeOutput
    simp only [geometry.heads, geometry.headDim, geometry.qHidden, Int.toNat_natCast]
    rw [storeRows_eq, ← copied]
    congr 1
    have column := Nat.div_add_mod' j hd
    omega
  · intro a _ b insideB a' _ b' insideB' d insideD d' insideD' same
    simp only [← Nat.mul_assoc] at same
    have parts := strided3_inj insideB insideB' insideD insideD' same
    exact ⟨parts.1, parts.2.1⟩

-- Shape and allocation of a tensor: kernels write its data only.
def form (tensor : Tensor α) : Shape × Bool := (tensor.shape, tensor.allocated)

def SameForms (before after : Nat → Option (Tensor α)) : Prop :=
  ∀ id, (after id).map form = (before id).map form

omit [Field α] [LinearOrder α] in
theorem SameForms.refl (bindings : Nat → Option (Tensor α)) : SameForms bindings bindings :=
  fun _ => rfl

omit [Field α] [LinearOrder α] in
theorem SameForms.symm {a b : Nat → Option (Tensor α)} (forms : SameForms a b) : SameForms b a :=
  fun id => (forms id).symm

omit [Field α] [LinearOrder α] in
theorem SameForms.trans {a b c : Nat → Option (Tensor α)} (first : SameForms a b)
    (second : SameForms b c) : SameForms a c := fun id => (second id).trans (first id)

omit [Field α] [LinearOrder α] in
theorem writeData_forms (ctx : RuntimeContext α) (id : Nat) (data : Buffer α) :
    SameForms ctx.bindings (ctx.writeData id data).bindings := by
  intro other
  simp only [RuntimeContext.writeData]
  split
  · next same =>
      subst same
      cases ctx.bindings other <;> rfl
  · rfl

/-- Whatever becomes of it, the call leaves the position it wrote at and the rows
its write loop stored. -/
theorem pagedAttention_frame (ops : FloatOps α) (args : AttentionArgs α) (output : Nat)
    (paged : PagedKVCache α) (ctx : RuntimeContext α) :
    ∃ bindings, (pagedAttention ops args output paged ctx).2 =
      { ctx with
        pagedKvWritePos := pagedPosition ctx paged
        pagedKvCache :=
          some (pagedWrites args ctx.pagedSequenceId (pagedPosition ctx paged) paged).2
        bindings := bindings } ∧ SameForms ctx.bindings bindings := by
  unfold pagedAttention
  dsimp only
  generalize pagedWrites args ctx.pagedSequenceId (pagedPosition ctx paged) paged = writes
  obtain ⟨err, after⟩ := writes
  cases err with
  | some st => exact ⟨ctx.bindings, rfl, SameForms.refl _⟩
  | none =>
      dsimp only
      split
      · exact ⟨ctx.bindings, rfl, SameForms.refl _⟩
      · split
        · exact ⟨ctx.bindings, rfl, SameForms.refl _⟩
        · exact ⟨_, rfl, writeData_forms _ output _⟩

/-- A call that succeeds has stored its whole chunk. -/
theorem pagedAttention_wrote {ops : FloatOps α} {args : AttentionArgs α} {output : Nat}
    {paged : PagedKVCache α} {ctx : RuntimeContext α}
    (fine : (pagedAttention ops args output paged ctx).1 = none) :
    (pagedWrites args ctx.pagedSequenceId (pagedPosition ctx paged) paged).1 = none := by
  unfold pagedAttention at fine
  dsimp only at fine
  generalize pagedWrites args ctx.pagedSequenceId (pagedPosition ctx paged) paged = writes
    at fine ⊢
  obtain ⟨err, after⟩ := writes
  cases err with
  | none => rfl
  | some st => cases fine

/-- The output rows of a chunk at positions `start, …` over the rows of a map. -/
def RowsAttend (ops : FloatOps α) (nh nkv hd : Nat) (args : AttentionArgs α) (K V : Nat → Buffer α)
    (start : Nat) (data : Buffer α) : Prop :=
  ∀ s < args.seqLen.toNat, ∀ j < nh * hd, data (s * (nh * hd) + j) =
    attentionRow ops nh nkv hd (fun j => args.q.data (s * (nh * hd) + j)) K V (start + s + 1) j

variable [IsStrictOrderedRing α]

/-- Attention behind the write loop: no pointer is missing, and every row of the
chunk attends over the rows up to its position. -/
theorem attended_rows (ops : FloatOps α) (law : ExpLaw ops.exp) {args : AttentionArgs α}
    {nh nkv hd : Nat} (geometry : Geometry args nh nkv hd)
    (positive : 0 < nh ∧ 0 < nkv ∧ 0 < hd) {paged : PagedKVCache α} {seqId : Int} {start : Nat}
    {K V : Nat → Buffer α} (ready : paged.initialized = true) (heads : paged.numKvHeads = nkv)
    (headDim : paged.headDim = hd) (int : start + args.seqLen.toNat < 2147483648)
    (length : args.seqLen = 1 → paged.sequenceLength seqId = (start + 1 : Nat))
    (points : HeadsPoint paged seqId args.layerIdx (start + args.seqLen.toNat) nkv hd K V) :
    Ends (fun oBuf => RowsAttend ops nh nkv hd args K V start (writeOutput args oBuf))
      (fun _ _ => False)
      (if args.seqLen = 1 then
        pagedAttentionDecode ops paged seqId args.layerIdx
          (interleave args.seqLen.toNat args.nh.toNat args.hd.toNat fun s h d =>
            args.q.data (s * args.qHidden.toNat + h * args.hd.toNat + d)) (fun _ => 0) args.nh args.hd
      else
        pagedAttentionChunk ops paged seqId args.layerIdx start
          (interleave args.seqLen.toNat args.nh.toNat args.hd.toNat fun s h d =>
            args.q.data (s * args.qHidden.toNat + h * args.hd.toNat + d)) (fun _ => 0) args.nh.toNat
          (args.nh.toNat / args.nkv.toNat) args.seqLen.toNat args.hd.toNat) := by
  simp only [geometry.heads, geometry.kvHeads, geometry.headDim, geometry.qHidden,
    Int.toNat_natCast]
  have query : ∀ s < args.seqLen.toNat, ∀ h < nh, ∀ d < hd,
      interleave args.seqLen.toNat nh hd (fun s h d => args.q.data (s * (nh * hd) + h * hd + d))
        (h * args.seqLen.toNat * hd + s * hd + d) = args.q.data (s * (nh * hd) + (h * hd + d)) := by
    intro s insideS h insideH d insideD
    rw [Nat.mul_assoc, interleave_at _ _ _ _ insideS insideH insideD, Nat.add_assoc]
  generalize interleave args.seqLen.toNat nh hd
    (fun s h d => args.q.data (s * (nh * hd) + h * hd + d)) = qBuf at query
  -- Row (h, s) of the heads-first output is head h of output row s.
  have place : ∀ oBuf : Buffer α, (∀ h < nh, ∀ s < args.seqLen.toNat, ∀ d < hd,
      oBuf (h * args.seqLen.toNat * hd + s * hd + d) =
        attend ops hd (fun d => qBuf (h * args.seqLen.toNat * hd + s * hd + d))
          (fun pos d => K pos (h / (nh / nkv) * hd + d))
          (fun pos d => V pos (h / (nh / nkv) * hd + d)) (start + s + 1) d) →
      RowsAttend ops nh nkv hd args K V start (writeOutput args oBuf) := by
    intro oBuf rows s insideS j insideJ
    have head : j / hd < nh := Nat.div_lt_of_lt_mul (by rwa [Nat.mul_comm])
    have column := Nat.mod_lt j positive.2.2
    rw [writeOutput_at geometry oBuf insideS insideJ, rows _ head s insideS _ column]
    exact attend_congr ops hd column (fun d insideD => query s insideS _ head d insideD)
      (fun _ _ _ _ => rfl) fun _ _ _ _ => rfl
  by_cases single : args.seqLen = 1
  · have one : args.seqLen.toNat = 1 := by omega
    rw [if_pos single]
    rw [one] at points place
    refine Ends.mono (fun oBuf rows => place oBuf fun h insideH s insideS d insideD => ?_)
      (fun _ _ no => no) (pagedAttentionDecode_at ops law ready heads headDim positive
        geometry.divides (length single) (Nat.succ_pos start) points qBuf fun _ => 0)
    obtain rfl : s = 0 := by omega
    simpa using rows h insideH d insideD
  · rw [if_neg single]
    exact Ends.mono (fun oBuf rows => place oBuf rows) (fun _ _ no => no)
      (pagedAttentionChunk_at ops law geometry.divides int points qBuf fun _ => 0)

omit [Field α] [LinearOrder α] [IsStrictOrderedRing α] in
theorem chunkWritten_filled {map : RowMap α} {args : AttentionArgs α} {seqId : Int} {start : Nat}
    (filled : Filled map seqId args.layerIdx start) (count : Nat) :
    Filled (chunkWritten map args seqId start count) seqId args.layerIdx (start + count) := by
  intro pos low high
  rw [chunkWritten, RowMap.write_row]
  simp only [RowMap.written]
  split
  · rfl
  · next outside =>
      by_cases old : pos < start
      · exact filled pos low old
      · exact absurd ⟨trivial, trivial, by omega, high⟩ outside

-- The context behind the write loop.
def wroteAt (ctx : RuntimeContext α) (start : Int) (cache : PagedKVCache α) : RuntimeContext α :=
  { ctx with pagedKvWritePos := start, pagedKvCache := some cache }

/-- Behind a write loop that stored the whole chunk, attention over the rows of the
map cannot fail. -/
theorem pagedAttention_written (ops : FloatOps α) (law : ExpLaw ops.exp) {args : AttentionArgs α}
    {nh nkv hd : Nat} (geometry : Geometry args nh nkv hd) (natural : 0 ≤ args.seqLen)
    (positive : 0 < nh ∧ 0 < nkv ∧ 0 < hd) (output : Nat) {paged cache : PagedKVCache α}
    {map : RowMap α} {ctx : RuntimeContext α} {start : Nat}
    (place : pagedPosition ctx paged = start) (ready : paged.initialized = true)
    (heads : paged.numKvHeads = nkv) (headDim : paged.headDim = hd)
    (length : map.length ctx.pagedSequenceId = start ∨
      map.length ctx.pagedSequenceId = start + args.seqLen.toNat)
    (filled : Filled map ctx.pagedSequenceId args.layerIdx start)
    (wrote : pagedWrites args ctx.pagedSequenceId start paged = (none, cache))
    (held : cache.Refines (chunkWritten map args ctx.pagedSequenceId start args.seqLen.toNat))
    (shape : SameShape paged cache) (bound : (start : Int) + args.seqLen.toNat < 2147483648) :
    ∃ oBuf, pagedAttention ops args output paged ctx =
        (none, (wroteAt ctx start cache).writeData output (writeOutput args oBuf)) ∧
      RowsAttend ops nh nkv hd args
        (keyRows (chunkWritten map args ctx.pagedSequenceId start args.seqLen.toNat)
          ctx.pagedSequenceId args.layerIdx)
        (valueRows (chunkWritten map args ctx.pagedSequenceId start args.seqLen.toNat)
          ctx.pagedSequenceId args.layerIdx) start (writeOutput args oBuf) := by
  have grown := chunkWritten_filled filled args.seqLen.toNat
  have len : cache.sequenceLength ctx.pagedSequenceId = (start + args.seqLen.toNat : Nat) := by
    rw [held.length, chunkWritten, RowMap.write_length]
    split <;> omega
  have points : HeadsPoint cache ctx.pagedSequenceId args.layerIdx
      (start + args.seqLen.toNat) nkv hd _ _ :=
    headsPoint_rows held (shape.numKvHeads.trans heads) (shape.headDim.trans headDim)
      (by rw [len]) (by push_cast; exact grown)
  have attended := attended_rows ops law geometry positive (shape.initialized.trans ready)
    (shape.numKvHeads.trans heads) (shape.headDim.trans headDim) (by omega)
    (fun one => by rw [len]; congr 1; omega) points
  unfold pagedAttention
  dsimp only
  rw [place, wrote]
  dsimp only
  rw [if_neg (not_lt.mpr natural)]
  generalize (if args.seqLen = 1 then _ else _) = final at attended ⊢
  obtain ⟨err, oBuf⟩ := final
  cases err with
  | some st => exact attended.elim
  | none => exact ⟨oBuf, rfl, attended⟩

/-- The attention kernel in paged mode: the rows of the chunk go to the map and its
output rows attend over the map, or it stops in the write loop. -/
theorem pagedAttention_attends (ops : FloatOps α) (law : ExpLaw ops.exp) {args : AttentionArgs α}
    {nh nkv hd : Nat} (geometry : Geometry args nh nkv hd) (natural : 0 ≤ args.seqLen)
    (positive : 0 < nh ∧ 0 < nkv ∧ 0 < hd) (output : Nat) {paged : PagedKVCache α}
    {map : RowMap α} {ctx : RuntimeContext α} {start : Nat}
    (place : pagedPosition ctx paged = start) (int : (start : Int) < 2147483648)
    (ready : paged.initialized = true) (heads : paged.numKvHeads = nkv)
    (headDim : paged.headDim = hd) (refined : paged.Refines map)
    (length : map.length ctx.pagedSequenceId = start ∨
      map.length ctx.pagedSequenceId = start + args.seqLen.toNat)
    (filled : Filled map ctx.pagedSequenceId args.layerIdx start) :
    Ends
      (fun after => ∃ cache data,
        after = (wroteAt ctx start cache).writeData output data ∧
        cache.Refines (chunkWritten map args ctx.pagedSequenceId start args.seqLen.toNat) ∧
        SameShape paged cache ∧ (start : Int) + args.seqLen.toNat < 2147483648 ∧
        RowsAttend ops nh nkv hd args
          (keyRows (chunkWritten map args ctx.pagedSequenceId start args.seqLen.toNat)
            ctx.pagedSequenceId args.layerIdx)
          (valueRows (chunkWritten map args ctx.pagedSequenceId start args.seqLen.toNat)
            ctx.pagedSequenceId args.layerIdx) start data)
      (fun _ after => (pagedWrites args ctx.pagedSequenceId start paged).1 ≠ none ∧ ∃ cache i,
        after = wroteAt ctx start cache ∧
        cache.Refines (chunkWritten map args ctx.pagedSequenceId start i) ∧ SameShape paged cache)
      (pagedAttention ops args output paged ctx) := by
  have width : args.kvHidden = map.width := by
    rw [geometry.kvHidden, refined.width, kvHidden_eq refined.rowFits, heads, headDim]
  have writes := @pagedWrites_refines _ _ args paged map ctx.pagedSequenceId start
    (Int.natCast_nonneg start) int width refined
  cases wrote : pagedWrites args ctx.pagedSequenceId start paged with
  | mk err cache =>
      rw [wrote] at writes
      cases err with
      | some st =>
          obtain ⟨i, held, shape⟩ := writes
          unfold pagedAttention
          dsimp only
          rw [place, wrote]
          exact ⟨by simp, cache, i, rfl, held, shape⟩
      | none =>
          obtain ⟨⟨held, shape⟩, bound, _⟩ := writes
          obtain ⟨oBuf, same, attended⟩ := pagedAttention_written ops law geometry natural positive
            output place ready heads headDim length filled wrote held shape bound
          rw [same]
          exact ⟨cache, writeOutput args oBuf, rfl, held, shape, bound, attended⟩

end Call

end MiniLLM.CpuKernelAdapter
