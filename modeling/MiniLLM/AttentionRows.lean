import MiniLLM.RuntimeContext
import MiniLLM.FlashAttention

/-!
What the attention kernel writes, row by row. `attentionRow` is the output row of
a query row that attends to the first `n` key and value rows; the no-cache,
prefill and decode paths all write it, from the rows they find in their buffers.
-/

namespace MiniLLM.CpuKernelAdapter

open Loops Strides Cpu Softmax

variable {α : Type} [Field α] [LinearOrder α]

/-- Head `h` of the output attends with head `h` of the query to the head of its
group in the rows. -/
def attentionRow (ops : FloatOps α) (nh nkv hd : Nat) (q : Buffer α) (k v : Nat → Buffer α)
    (n : Nat) : Buffer α := fun j =>
  attend ops hd (fun d => q (j / hd * hd + d)) (fun i d => k i (j / hd / (nh / nkv) * hd + d))
    (fun i d => v i (j / hd / (nh / nkv) * hd + d)) n (j % hd)

omit [LinearOrder α] in
theorem attend_congr (ops : FloatOps α) (hd : Nat) {q q' : Buffer α} {k k' v v' : Nat → Buffer α}
    {n d : Nat} (inside : d < hd) (sameQ : ∀ d < hd, q d = q' d)
    (sameK : ∀ i < n, ∀ d < hd, k i d = k' i d) (sameV : ∀ i < n, ∀ d < hd, v i d = v' i d) :
    attend ops hd q k v n d = attend ops hd q' k' v' n d := by
  apply average_congr
  · intro i below
    have sums : ∑ d ∈ Finset.range hd, q d * k i d = ∑ d ∈ Finset.range hd, q' d * k' i d :=
      Finset.sum_congr rfl fun d member => by
        rw [sameQ d (Finset.mem_range.mp member), sameK i below d (Finset.mem_range.mp member)]
    rw [score, score, sums]
  · intro i below
    exact sameV i below d inside

theorem groupHead_lt {nh nkv h : Nat} (divides : nkv ∣ nh) (inside : h < nh) :
    h / (nh / nkv) < nkv := by
  obtain ⟨group, rfl⟩ := divides
  have positive : 0 < nkv := Nat.pos_of_mul_pos_right (Nat.lt_of_le_of_lt (Nat.zero_le h) inside)
  rw [Nat.mul_div_cancel_left group positive]
  exact Nat.div_lt_of_lt_mul (by rwa [Nat.mul_comm])

omit [LinearOrder α] in
/-- The output row depends on the first `n` rows, `nkv * hd` floats of each. -/
theorem attentionRow_congr (ops : FloatOps α) {nh nkv hd : Nat} (divides : nkv ∣ nh)
    {q q' : Buffer α} {k k' v v' : Nat → Buffer α} {n j : Nat} (inside : j < nh * hd)
    (sameQ : ∀ i < nh * hd, q i = q' i)
    (sameK : ∀ i < n, ∀ c < nkv * hd, k i c = k' i c)
    (sameV : ∀ i < n, ∀ c < nkv * hd, v i c = v' i c) :
    attentionRow ops nh nkv hd q k v n j = attentionRow ops nh nkv hd q' k' v' n j := by
  have head : j / hd < nh := Nat.div_lt_of_lt_mul (by rwa [Nat.mul_comm])
  have width : 0 < hd := Nat.pos_of_mul_pos_left (Nat.lt_of_le_of_lt (Nat.zero_le j) inside)
  have group := groupHead_lt divides head
  exact attend_congr ops hd (Nat.mod_lt j width) (fun d below => sameQ _ (strided_lt head below))
    (fun i below d insideD => sameK i below _ (strided_lt group insideD))
    (fun i below d insideD => sameV i below _ (strided_lt group insideD))

omit [LinearOrder α] in
theorem interleave_at (seqLen nh hd : Nat) (source : Nat → Nat → Buffer α) {s h d : Nat}
    (insideS : s < seqLen) (insideH : h < nh) (insideD : d < hd) :
    interleave seqLen nh hd source (h * (seqLen * hd) + s * hd + d) = source s h d := by
  rw [interleave, storeRows_eq, ← Nat.mul_assoc]
  refine copyRows_at seqLen nh hd (fun s h => h * seqLen * hd + s * hd) source _ ?_
    insideS insideH insideD
  intro a insideA b _ a' insideA' b' _ d insideD d' insideD' same
  have parts := strided3_inj insideA insideA' insideD insideD' same
  exact ⟨parts.2.1, parts.1⟩

omit [Field α] [LinearOrder α] in
/-- A heads-first buffer put back in place row by row. -/
theorem deinterleave_at (first seqLen nh hd : Nat) (source output : Buffer α) {s j : Nat}
    (insideS : s < seqLen) (insideJ : j < nh * hd) :
    storeRows nh seqLen hd (fun h s => first + s * (nh * hd) + h * hd)
        (fun h s d => source (h * seqLen * hd + s * hd + d)) output (first + s * (nh * hd) + j) =
      source (j / hd * (seqLen * hd) + s * hd + j % hd) := by
  have width : 0 < hd := Nat.pos_of_mul_pos_left (Nat.lt_of_le_of_lt (Nat.zero_le j) insideJ)
  have head : j / hd < nh := Nat.div_lt_of_lt_mul (by rwa [Nat.mul_comm])
  have column : j = j / hd * hd + j % hd := (Nat.div_add_mod' j hd).symm
  have copied := copyRows_at nh seqLen hd (fun h s => first + s * (nh * hd) + h * hd)
    (fun h s d => source (h * seqLen * hd + s * hd + d)) output ?_ head insideS (Nat.mod_lt j width)
  · rw [storeRows_eq]
    conv_lhs => rw [column, ← Nat.add_assoc]
    rw [copied, Nat.mul_assoc]
  · intro a insideA b _ a' insideA' b' _ d insideD d' insideD' same
    have rows : b * nh * hd + a * hd + d = b' * nh * hd + a' * hd + d' := by
      rw [Nat.mul_assoc, Nat.mul_assoc]
      omega
    have parts := strided3_inj insideA insideA' insideD insideD' rows
    exact ⟨parts.2.1, parts.1⟩

/-- The arguments `attentionArgs` accepts, as exact geometry. -/
structure Geometry (args : AttentionArgs α) (nh nkv hd : Nat) : Prop where
  heads : args.nh = nh
  kvHeads : args.nkv = nkv
  headDim : args.hd = hd
  qHidden : args.qHidden = (nh * hd : Nat)
  kvHidden : args.kvHidden = (nkv * hd : Nat)
  divides : nkv ∣ nh

/-- Row `s` of batch element `b` of a [batch, seq, hidden] buffer. -/
def batchRow (data : Buffer α) (seqLen hidden b s : Nat) : Buffer α :=
  fun j => data (b * seqLen * hidden + s * hidden + j)

theorem attendBatch_at [IsStrictOrderedRing α] (ops : FloatOps α) (law : ExpLaw ops.exp)
    (args : AttentionArgs α) {nh nkv hd : Nat} (geometry : Geometry args nh nkv hd)
    (k v : Buffer α) (b : Nat) (output : Buffer α) {s j : Nat} (insideS : s < args.seqLen.toNat)
    (insideJ : j < nh * hd) :
    attendBatch ops args k v b output
        (b * args.seqLen.toNat * (nh * hd) + s * (nh * hd) + j) =
      attentionRow ops nh nkv hd (batchRow args.q.data args.seqLen.toNat (nh * hd) b s)
        (batchRow k args.seqLen.toNat (nkv * hd) b) (batchRow v args.seqLen.toNat (nkv * hd) b)
        (if args.causal then s + 1 else args.seqLen.toNat) j := by
  have width : 0 < hd := Nat.pos_of_mul_pos_left (Nat.lt_of_le_of_lt (Nat.zero_le j) insideJ)
  have head : j / hd < nh := Nat.div_lt_of_lt_mul (by rwa [Nat.mul_comm])
  unfold attendBatch
  simp only [geometry.heads, geometry.kvHeads, geometry.headDim, geometry.qHidden,
    geometry.kvHidden, Int.toNat_natCast]
  rw [deinterleave_at _ _ _ _ _ _ insideS insideJ,
    flashSdpaRows_at ops law _ _ _ _ nh args.seqLen.toNat args.seqLen.toNat hd args.causal head insideS
      (Nat.mod_lt j width) fun _ => insideS]
  apply attend_congr ops hd (Nat.mod_lt j width)
  · intro d insideD
    rw [interleave_at _ _ _ _ insideS head insideD]
    simp only [batchRow, Nat.add_assoc]
  · intro i below d insideD
    have insideI : i < args.seqLen.toNat := by
      cases causal : args.causal <;> simp only [causal] at below <;> simp at below <;> omega
    rw [interleave_at _ _ _ _ insideI head insideD]
    simp only [batchRow, Nat.add_assoc]
  · intro i below d insideD
    have insideI : i < args.seqLen.toNat := by
      cases causal : args.causal <;> simp only [causal] at below <;> simp at below <;> omega
    rw [interleave_at _ _ _ _ insideI head insideD]
    simp only [batchRow, Nat.add_assoc]

omit [Field α] [LinearOrder α] in
/-- The rows of the chunk are in the layer, and the rows before them as they were. -/
theorem cacheRows_at (args : AttentionArgs α) (first width : Nat) (layer : KVCacheLayer α)
    (kvHidden : args.kvHidden = width) {c : Nat} (inside : c < width) :
    (∀ s < args.seqLen.toNat,
      (cacheRows args first layer).k ((first + s) * width + c) = args.k.data (s * width + c) ∧
        (cacheRows args first layer).v ((first + s) * width + c) = args.v.data (s * width + c)) ∧
    ∀ row < first, (cacheRows args first layer).k (row * width + c) = layer.k (row * width + c) ∧
      (cacheRows args first layer).v (row * width + c) = layer.v (row * width + c) := by
  have rule := loop_invariant
    (fun n (stored : KVCacheLayer α) =>
      (∀ s < n, stored.k ((first + s) * width + c) = args.k.data (s * width + c) ∧
        stored.v ((first + s) * width + c) = args.v.data (s * width + c)) ∧
      ∀ row < first, stored.k (row * width + c) = layer.k (row * width + c) ∧
        stored.v (row * width + c) = layer.v (row * width + c))
    args.seqLen.toNat
    (fun s stored =>
      { k := copyFloats width stored.k ((first + s) * width) fun d => args.k.data (s * width + d)
        v := copyFloats width stored.v ((first + s) * width) fun d => args.v.data (s * width + d) })
    layer ⟨fun s below => absurd below (Nat.not_lt_zero s), fun row _ => ⟨rfl, rfl⟩⟩ ?_
  · simpa only [cacheRows, kvHidden, Int.toNat_natCast] using rule
  · rintro n stored _ ⟨chunk, before⟩
    dsimp only at chunk before ⊢
    have apart : ∀ row, row ≠ first + n → ∀ d < width,
        (first + n) * width + d ≠ row * width + c := by
      intro row different d insideD same
      exact different (strided_inj insideD inside same).1.symm
    constructor
    · intro s below
      by_cases here : s = n
      · subst here
        exact ⟨copyFloats_inside _ _ _ _ inside, copyFloats_inside _ _ _ _ inside⟩
      · have away := apart (first + s) (by omega)
        have old := chunk s (by omega)
        exact ⟨(copyFloats_outside _ _ _ _ away).trans old.1,
          (copyFloats_outside _ _ _ _ away).trans old.2⟩
    · intro row below
      have away := apart row (by omega)
      have old := before row below
      exact ⟨(copyFloats_outside _ _ _ _ away).trans old.1,
        (copyFloats_outside _ _ _ _ away).trans old.2⟩

end MiniLLM.CpuKernelAdapter
