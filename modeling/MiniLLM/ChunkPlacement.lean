import MiniLLM.PagedAttention

/-!
Where the two kernels that know of positions put a chunk. RoPE rotates row `s` for the
chunk's position plus `s`, and the write loop of attention stores row `s` there: that row
is read at that position and every other row as before.
-/

namespace MiniLLM

namespace PagedKVCache

open Loops

variable {Elem : Type} [Zero Elem]

/-- Every row that a block of a sequence holds. -/
def contents (cache : PagedKVCache Elem) : RowMap Elem where
  width := cache.kvHidden
  length := cache.sequenceLength
  row id layer pos :=
    match cache.physicalBlockForPosition id pos with
    | .error _ => none
    | .ok block =>
        if 0 < cache.blockSize ∧ 0 ≤ layer ∧ layer < cache.numLayers then
          some (fun j => cache.storage true layer (cache.rowIndex block pos + j),
            fun j => cache.storage false layer (cache.rowIndex block pos + j))
        else none

theorem contents_refines {cache : PagedKVCache Elem} (owned : cache.Owned) (fits : cache.RowFits) :
    cache.Refines cache.contents := by
  refine ⟨owned, fits, by dsimp only [contents], fun _ => by dsimp only [contents],
    fun id layer pos rows entry => ?_⟩
  simp only [contents] at entry
  cases found : cache.physicalBlockForPosition id pos with
  | error st => simp [found] at entry
  | ok block =>
      rw [found] at entry
      dsimp only at entry
      split at entry
      · next inside =>
          obtain rfl := Option.some.inj entry
          exact ⟨block, inside.1, inside.2.1, inside.2.2, found, fun _ _ => rfl, fun _ _ => rfl⟩
      · cases entry

/-- What a pointer leads to is a slice of the contents. -/
theorem tokenPtr_contents {cache : PagedKVCache Elem} (size : 0 < cache.blockSize)
    {id layer pos head : Int} {key value : Buffer Elem}
    (foundKey : cache.keyPtr id layer pos head = .ok key)
    (foundValue : cache.valuePtr id layer pos head = .ok value) :
    pos < cache.sequenceLength id ∧ 0 ≤ head ∧ head < cache.numKvHeads ∧
      ∃ rows, cache.contents.row id layer pos = some rows ∧
        ∀ d, key d = rows.1 (head.toNat * cache.headDim + d) ∧
          value d = rows.2 (head.toNat * cache.headDim + d) := by
  unfold keyPtr tokenPtr at foundKey
  unfold valuePtr tokenPtr at foundValue
  by_cases layers : layer < 0 ∨ layer ≥ cache.numLayers
  · simp [layers] at foundKey
  by_cases heads : head < 0 ∨ head ≥ cache.numKvHeads
  · simp [layers, heads] at foundKey
  by_cases outside : pos < 0 ∨ pos ≥ cache.sequenceLength id
  · simp [layers, heads, outside] at foundKey
  simp only [layers, heads, outside, if_false] at foundKey foundValue
  refine ⟨by omega, by omega, by omega, ?_⟩
  cases found : cache.physicalBlockForPosition id pos with
  | error st => simp [found] at foundKey
  | ok block =>
      rw [found] at foundKey foundValue
      obtain rfl := Except.ok.inj foundKey
      obtain rfl := Except.ok.inj foundValue
      refine ⟨(fun j => cache.storage true layer (cache.rowIndex block pos + j),
        fun j => cache.storage false layer (cache.rowIndex block pos + j)), ?_, fun d => ?_⟩
      · simp only [contents, found]
        exact if_pos ⟨size, by omega, by omega⟩
      · simp only [Nat.add_assoc, and_self]

/-- A cache that is ready for runs. -/
structure Serving (cache : PagedKVCache Elem) : Prop where
  ready : cache.initialized = true
  lengths : ∀ id, 0 ≤ cache.sequenceLength id
  ints : ∀ id, cache.sequenceLength id < 2147483648
  owned : cache.Owned
  rowFits : cache.RowFits

omit [Zero Elem] in
theorem Serving.size {cache : PagedKVCache Elem} (serving : cache.Serving) : 0 < cache.blockSize := by
  have ready := serving.ready
  simp only [initialized, Bool.and_eq_true, decide_eq_true_eq] at ready
  exact ready.1

theorem runs_serving {calls : List (Op Elem)} (bounds : ∀ op ∈ calls, op.IsInt ∧ op.Bounded)
    (ready : (runs calls).initialized = true) : (runs calls).Serving :=
  ⟨ready, runs_nonneg calls, (runs_ints calls fun op member => (bounds op member).1).length,
    runs_owned calls, runs_rowFits calls fun op member => (bounds op member).2⟩

end PagedKVCache

namespace CpuKernelAdapter

open Loops Strides Cpu PagedKVCache

variable {α : Type} [Field α]

section Rotations

/-- The rows of a RoPE call are rotated for the positions from `start` on. -/
def Rotates (ops : FloatOps α) (args : RopeArgs α) (start : Int) (data : Buffer α) : Prop :=
  ∀ s < args.seqLen.toNat, ∀ h < args.hidden.toNat / args.headDim.toNat,
    ∀ d < args.headDim.toNat / 2 * 2,
      data (s * args.hidden.toNat + h * args.headDim.toNat + d) =
        rotated ops args.ropeBase args.headDim.toNat (start + s)
          (fun d => args.x.data (s * args.hidden.toNat + h * args.headDim.toNat + d)) d

/-- Heads of rows do not meet. -/
theorem headRows_apart {hidden headDim width : Nat} (narrow : width ≤ headDim)
    {a b a' b' d d' : Nat} (head : b < hidden / headDim) (head' : b' < hidden / headDim)
    (inside : d < width) (inside' : d' < width)
    (same : a * hidden + b * headDim + d = a' * hidden + b' * headDim + d') : a = a' ∧ b = b' := by
  have below : ∀ {b d : Nat}, b < hidden / headDim → d < width → b * headDim + d < hidden := by
    intro b d head inside
    calc b * headDim + d < hidden / headDim * headDim := strided_lt head (by omega)
      _ ≤ hidden := Nat.div_mul_le_self hidden headDim
  rw [Nat.add_assoc, Nat.add_assoc] at same
  obtain ⟨rows, columns⟩ := strided_inj (below head inside) (below head' inside') same
  exact ⟨rows, (strided_inj (by omega) (by omega) columns).1⟩

theorem ropeRows_rotates (ops : FloatOps α) (args : RopeArgs α) (pos : Int) :
    Rotates ops args pos (ropeRows ops args pos) := by
  intro s row h head d inside
  have copied : ropeRows ops args pos = copyRows args.seqLen.toNat
      (args.hidden.toNat / args.headDim.toNat) (args.headDim.toNat / 2 * 2)
      (fun s h => s * args.hidden.toNat + h * args.headDim.toNat)
      (fun s h => rotated ops args.ropeBase args.headDim.toNat (pos + s)
        fun d => args.x.data (s * args.hidden.toNat + h * args.headDim.toNat + d))
      args.output.data := by
    refine loop_congr _ _ _ _ fun s o _ => loop_congr _ _ _ _ fun h o _ => ?_
    have rotates := applyRopeRow_pairs ops
      (fun d => args.x.data (s * args.hidden.toNat + h * args.headDim.toNat + d)) o
      (s * args.hidden.toNat + h * args.headDim.toNat) args.headDim.toNat args.ropeBase (pos + s)
    simpa [applyRope, loop] using rotates
  rw [copied]
  refine copyRows_at _ _ _ _ _ _ ?_ row head inside
  intro a _ b headB a' _ b' headB' d insideD d' insideD' same
  exact headRows_apart (Nat.div_mul_le_self _ 2) headB headB' insideD insideD' same

end Rotations

section Stored

omit [Field α] in
/-- Shape and lengths behind the write loop, whatever the cache. -/
theorem pagedWrites_frame (args : AttentionArgs α) (seqId start : Int) (paged : PagedKVCache α) :
    SameShape paged (pagedWrites args seqId start paged).2 ∧
      ∀ id, paged.sequenceLength id ≤ (pagedWrites args seqId start paged).2.sequenceLength id := by
  refine loopTry_preserves
    (fun after => SameShape paged after ∧
      ∀ id, paged.sequenceLength id ≤ after.sequenceLength id)
    _ _ paged ⟨SameShape.refl paged, fun id => le_refl _⟩ ?_
  rintro s after _ ⟨shape, grown⟩
  have kept := writeTokens_sameShape after seqId args.layerIdx (wrap32 (start + s))
    (some fun d => args.k.data (s * args.kvHidden.toNat + d))
    (some fun d => args.v.data (s * args.kvHidden.toNat + d)) 1
  have more := writeTokens_grows after seqId args.layerIdx (wrap32 (start + s))
    (some fun d => args.k.data (s * args.kvHidden.toNat + d))
    (some fun d => args.v.data (s * args.kvHidden.toNat + d)) 1
  dsimp only
  generalize after.writeTokens seqId args.layerIdx (wrap32 (start + s))
    (some fun d => args.k.data (s * args.kvHidden.toNat + d))
    (some fun d => args.v.data (s * args.kvHidden.toNat + d)) 1 = result at *
  obtain ⟨st, next⟩ := result
  dsimp only
  split <;> exact ⟨shape.trans kept, fun id => (grown id).trans (more id)⟩

/-- The first `count` rows of a chunk are read at the positions from `start` on, and
every other row as before. -/
structure Stores (args : AttentionArgs α) (seqId start : Int) (count : Nat)
    (before after : PagedKVCache α) : Prop where
  shape : SameShape before after
  lengths : ∀ id, after.sequenceLength id =
    if id = seqId ∧ 0 < count then max (before.sequenceLength seqId) (start + count)
    else before.sequenceLength id
  rows : ∀ s < count, ∀ head < before.numKvHeads, ∃ key value,
    after.keyPtr seqId args.layerIdx (start + s) head = .ok key ∧
    after.valuePtr seqId args.layerIdx (start + s) head = .ok value ∧
    ∀ d < before.headDim,
      key d = args.k.data (s * args.kvHidden.toNat + (head * before.headDim + d)) ∧
      value d = args.v.data (s * args.kvHidden.toNat + (head * before.headDim + d))
  frame : ∀ {id layer pos head : Int} {key value : Buffer α},
    ¬ (id = seqId ∧ layer = args.layerIdx ∧ start ≤ pos ∧ pos < start + count) →
    before.keyPtr id layer pos head = .ok key → before.valuePtr id layer pos head = .ok value →
    ∃ key' value', after.keyPtr id layer pos head = .ok key' ∧
      after.valuePtr id layer pos head = .ok value' ∧
      ∀ d < before.headDim, key' d = key d ∧ value' d = value d

/-- A row that is mapped to its floats still is read as before. -/
theorem contents_kept {before after : PagedKVCache α} {map : RowMap α} (size : 0 < before.blockSize)
    (held : after.Refines map) (shape : SameShape before after) {id layer pos head : Int}
    {key value : Buffer α} (grown : before.sequenceLength id ≤ after.sequenceLength id)
    (kept : ∀ rows, before.contents.row id layer pos = some rows → map.row id layer pos = some rows)
    (foundKey : before.keyPtr id layer pos head = .ok key)
    (foundValue : before.valuePtr id layer pos head = .ok value) :
    ∃ key' value', after.keyPtr id layer pos head = .ok key' ∧
      after.valuePtr id layer pos head = .ok value' ∧
      ∀ d < before.headDim, key' d = key d ∧ value' d = value d := by
  obtain ⟨inside, low, high, rows, entry, slices⟩ := tokenPtr_contents size foundKey foundValue
  obtain ⟨key', value', foundKey', foundValue', same⟩ := held.pointers (kept rows entry)
    (lt_of_lt_of_le inside grown) low (by rw [shape.numKvHeads]; exact high)
  refine ⟨key', value', foundKey', foundValue', fun d below => ?_⟩
  rw [shape.headDim] at same
  rw [(same d below).1, (same d below).2, (slices d).1, (slices d).2]
  exact ⟨rfl, rfl⟩

theorem place_stores {args : AttentionArgs α} {seqId start : Int} {count : Nat}
    {before after : PagedKVCache α} (size : 0 < before.blockSize)
    (held : after.Refines
      (before.contents.place seqId args.layerIdx start (chunkRow args) count))
    (shape : SameShape before after) : Stores args seqId start count before after := by
  refine ⟨shape, fun id => held.length id, fun s below head inside => ?_, ?_⟩
  · have entry : (before.contents.place seqId args.layerIdx start (chunkRow args) count).row seqId
        args.layerIdx (start + s) = some (chunkRow args s) := by
      simp only [RowMap.place]
      rw [if_pos ⟨trivial, trivial, by omega, by omega⟩, show (start + s - start).toNat = s by omega]
    have length := held.length seqId
    have long := Int.le_max_right (before.sequenceLength seqId) (start + count)
    simp only [RowMap.place] at length
    rw [if_pos ⟨trivial, by omega⟩] at length
    have below : (start + s : Int) < after.sequenceLength seqId := by
      rw [length]
      exact lt_of_lt_of_le (by omega) long
    obtain ⟨key, value, foundKey, foundValue, same⟩ := held.pointers entry below
      (Int.natCast_nonneg head) (by rw [shape.numKvHeads]; omega)
    rw [shape.headDim, Int.toNat_natCast] at same
    exact ⟨key, value, foundKey, foundValue, same⟩
  · intro id layer pos head key value apart foundKey foundValue
    refine contents_kept size held shape ?_ (fun rows entry => ?_) foundKey foundValue
    · rw [held.length id]
      simp only [RowMap.place]
      split
      · next same =>
          rw [same.1]
          exact Int.le_max_left _ _
      · exact le_refl _
    · simp only [RowMap.place]
      rw [if_neg apart]
      exact entry

theorem Stores.none (args : AttentionArgs α) (seqId start : Int) {paged : PagedKVCache α}
    (serving : paged.Serving) : Stores args seqId start 0 paged paged := by
  have held := contents_refines serving.owned serving.rowFits
  rw [← RowMap.place_none paged.contents seqId args.layerIdx start (chunkRow args)] at held
  exact place_stores serving.size held (SameShape.refl paged)

/-- The write loop stores rows of the chunk from `start` on, all of them if it succeeds. -/
theorem pagedWrites_stores (args : AttentionArgs α) (seqId : Int) {start : Int}
    {paged : PagedKVCache α} (serving : paged.Serving) (low : 0 ≤ start) (int : start < 2147483648) :
    (pagedWrites args seqId start paged).2.Serving ∧
      ∃ count ≤ args.seqLen.toNat,
        Stores args seqId start count paged (pagedWrites args seqId start paged).2 ∧
        ((pagedWrites args seqId start paged).1 = none → count = args.seqLen.toNat) := by
  have writes := @pagedWrites_places _ _ args _ _ seqId start low int
    (contents_refines serving.owned serving.rowFits)
  have placed : ∃ count ≤ args.seqLen.toNat, ((pagedWrites args seqId start paged).2.Refines
      (paged.contents.place seqId args.layerIdx start (chunkRow args) count) ∧
        SameShape paged (pagedWrites args seqId start paged).2) ∧ start + count < 2147483648 ∧
        ((pagedWrites args seqId start paged).1 = none → count = args.seqLen.toNat) := by
    generalize pagedWrites args seqId start paged = result at writes
    obtain ⟨err, after⟩ := result
    cases err with
    | none => exact ⟨_, le_refl _, writes.1, writes.2.1, fun _ => rfl⟩
    | some st =>
        obtain ⟨count, below, held, bound⟩ := writes
        exact ⟨count, below, held, bound, fun no => by cases no⟩
  obtain ⟨count, below, ⟨held, shape⟩, bound, all⟩ := placed
  have stores := place_stores serving.size held shape
  refine ⟨⟨shape.initialized.trans serving.ready, fun id => ?_, fun id => ?_, held.owned,
    held.rowFits⟩, count, below, stores, all⟩
  · have := serving.lengths
    rw [stores.lengths]
    split
    · exact le_trans (this seqId) (Int.le_max_left _ _)
    · exact this id
  · rw [stores.lengths]
    split
    · exact Int.max_lt.mpr ⟨serving.ints seqId, bound⟩
    · exact serving.ints id

end Stored

end CpuKernelAdapter

end MiniLLM
