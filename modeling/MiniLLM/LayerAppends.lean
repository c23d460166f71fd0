import MiniLLM.SequenceCapacity

/-!
One batch of tokens appended to a sequence layer by layer. `append_tokens` takes
its position from the length of the sequence, and the call for the first layer
has already moved that length: with several layers the rows of a batch end up
one behind the other, with one layer they lie where the tokens are.
-/

namespace MiniLLM.PagedKVCache

open Loops

variable {Elem : Type} [Zero Elem]

section Calls

omit [Zero Elem] in
theorem Writes.done {cache : PagedKVCache Elem} {sequenceId layer startPos : Int} {k v : Buffer Elem}
    {tokenCount : Int} {result : Status × PagedKVCache Elem}
    (writes : cache.Writes sequenceId layer startPos k v tokenCount result)
    (fine : result.1.isOk = true) :
    (cache.reserveSequence sequenceId (wrap32 (startPos + tokenCount))).1.isOk = true ∧
      ((cache.reserveSequence sequenceId (wrap32 (startPos + tokenCount))).2.writeRows
        sequenceId layer startPos k v tokenCount.toNat).1 = none := by
  cases writes with
  | noBlocks bad => exact absurd fine (by simp [bad])
  | stopped st after reserved wrote =>
      have bad := writeRows_error _ sequenceId layer startPos k v tokenCount.toNat wrote
      exact absurd fine (by simp [bad])
  | written after reserved wrote => exact ⟨reserved, by rw [wrote]⟩

/-- A write that reports success has stored its rows, without any bound on the
position: every row found its block. -/
theorem writeTokens_ok_refines {cache : PagedKVCache Elem} {map : RowMap Elem}
    (sequenceId layer startPos : Int) (k v : Buffer Elem) (count : Nat)
    (startInt : startPos < 2147483648) (countInt : count < 2147483648) (refined : cache.Refines map)
    (fine : (cache.writeTokens sequenceId layer startPos (some k) (some v) count).1.isOk = true) :
    (cache.writeTokens sequenceId layer startPos (some k) (some v) count).2.Refines
        (map.write sequenceId layer startPos (some k) (some v) count) ∧
      (0 < count → 0 ≤ sequenceId ∧ startPos + count < 2147483648) := by
  rcases writeTokens_cases cache sequenceId layer startPos (some k) (some v) count with
    ⟨same, idle⟩ | ⟨kb, vb, sameK, sameV, ⟨nonneg, positive, low, high⟩, writes⟩
  · have empty := idle fine
    rw [same]
    exact ⟨by simpa [RowMap.write, empty] using refined, fun some => by omega⟩
  · obtain rfl := Option.some.inj sameK
    obtain rfl := Option.some.inj sameV
    obtain ⟨reservedOk, done⟩ := writes.done fine
    obtain ⟨ensured, total, _, _⟩ := reserveSequence_ok cache sequenceId _ reservedOk
    have ready := (ensureSequence_ok cache sequenceId ensured).1
    have endPos := wrap32_add_nonneg startPos count nonneg (by omega) startInt (by omega) total
    have isInt := wrap32_lt (startPos + count)
    have reserved := reserveSequence_refines sequenceId (wrap32 (startPos + count)) refined
    have extended := reserveSequence_extends cache sequenceId (wrap32 (startPos + count))
    have found := writeRows_found _ sequenceId layer startPos k v _ done
    have stored := writes_refines refined (by omega) (fun _ => ⟨endPos, ?_⟩) writes
    · rw [fine] at stored
      rw [endPos] at isInt
      exact ⟨stored, fun _ => ⟨(reserveSequence_known cache sequenceId _ reservedOk).1, isInt⟩⟩
    rw [endPos] at isInt
    refine Ends.mono (fun _ held => held) (fun _ _ no => no.elim)
      (writeRows_holds _ map sequenceId layer startPos k v (count : Int).toNat reserved.owned
        reserved.width ?_ low ?_ nonneg (by omega) (fun t below => ?_) reserved.rows)
    · rw [extended.blockSize]
      simp [initialized] at ready
      exact ready.1
    · rw [numLayers, extended.layers]
      exact high
    · have place := found t below
      have here := wrap32_eq (startPos + t) (by omega) (by omega)
      rwa [here] at place

end Calls

section Batches

/-- Tokens to append: how many, and for each layer their K rows and their V rows. -/
structure Batch (Elem : Type) where
  count : Nat
  k : Nat → Buffer Elem
  v : Nat → Buffer Elem

def Batch.call (sequenceId : Int) (batch : Batch Elem) (layer : Nat) : Op Elem :=
  .appendTokens sequenceId layer (some (batch.k layer)) (some (batch.v layer)) batch.count

-- Layer 0 to the last, batch after batch.
def appends (sequenceId : Int) (layers : Nat) (batches : List (Batch Elem)) : List (Op Elem) :=
  batches.flatMap fun batch => (List.range layers).map (batch.call sequenceId)

def Batch.rows (width layer : Nat) (batch : Batch Elem) : List (Buffer Elem × Buffer Elem) :=
  (List.range batch.count).map fun t =>
    (fun j => batch.k layer (t * width + j), fun j => batch.v layer (t * width + j))

def tokens (batches : List (Batch Elem)) : Nat := (batches.map (·.count)).sum

/-- No call of the run fails. -/
def Succeeds (cache : PagedKVCache Elem) (ops : List (Op Elem)) : Prop :=
  Machine.Guarded step (fun cache op => (cache.apply op).1.isOk = true) cache ops

/-- The sequence has the tokens of the batches, and in every layer the rows of
token `p` at position `p`. -/
structure InPlace (cache : PagedKVCache Elem) (sequenceId : Int) (batches : List (Batch Elem)) :
    Prop where
  length : cache.sequenceLength sequenceId = tokens batches
  rows : ∀ (layer head p : Nat) (row : Buffer Elem × Buffer Elem), layer < cache.numLayers →
    head < cache.numKvHeads →
    (batches.flatMap (·.rows (cache.numKvHeads * cache.headDim) layer))[p]? = some row →
    ∃ key value, cache.keyPtr sequenceId layer p head = .ok key ∧
      cache.valuePtr sequenceId layer p head = .ok value ∧
      ∀ d < cache.headDim, key d = row.1 (head * cache.headDim + d) ∧
        value d = row.2 (head * cache.headDim + d)

omit [Zero Elem] in
theorem rows_length (width layer : Nat) (batches : List (Batch Elem)) :
    (batches.flatMap (·.rows width layer)).length = tokens batches := by
  simp [tokens, Batch.rows, List.length_flatMap]

/-- The map behind a cache whose rows nobody has asked about yet. -/
theorem blank_refines {cache : PagedKVCache Elem} (owned : cache.Owned) (fits : cache.RowFits) :
    cache.Refines { width := cache.kvHidden, length := cache.sequenceLength } :=
  ⟨owned, fits, by dsimp only, fun _ => rfl, fun _ _ _ _ none => by simp at none⟩

theorem step_width (cache : PagedKVCache Elem) (sequenceId : Int) (batch : Batch Elem)
    (layer : Nat) :
    SameShape cache (cache.step (batch.call sequenceId layer)) :=
  writeTokens_sameShape cache sequenceId layer _ _ _ batch.count

/-- A call that succeeds moves the length by the tokens of its batch. -/
theorem call_length {cache : PagedKVCache Elem} (owned : cache.Owned) (fits : cache.RowFits)
    (sequenceId : Int) (batch : Batch Elem) (layer : Nat) (lengthInt : cache.sequenceLength sequenceId < 2147483648)
    (countInt : batch.count < 2147483648)
    (fine : (cache.apply (batch.call sequenceId layer)).1.isOk = true) :
    (cache.step (batch.call sequenceId layer)).sequenceLength sequenceId =
        cache.sequenceLength sequenceId + batch.count ∧
      cache.sequenceLength sequenceId + batch.count < 2147483648 := by
  obtain ⟨refined, bound⟩ := writeTokens_ok_refines sequenceId layer
    (cache.sequenceLength sequenceId) (batch.k layer) (batch.v layer) batch.count lengthInt countInt
    (blank_refines owned fits) fine
  have length := refined.length sequenceId
  rw [RowMap.write_length] at length
  dsimp only at length
  by_cases some : 0 < batch.count
  · rw [if_pos ⟨rfl, some⟩] at length
    exact ⟨length.trans (Int.max_eq_right (by omega)), (bound some).2⟩
  · rw [if_neg (by omega)] at length
    exact ⟨length.trans (by omega), by omega⟩

end Batches

section Runs

theorem calls_length (sequenceId : Int) (calls : List (Batch Elem × Nat)) {cache : PagedKVCache Elem}
    (owned : cache.Owned) (fits : cache.RowFits)
    (lengthInt : cache.sequenceLength sequenceId < 2147483648)
    (countInt : ∀ call ∈ calls, call.1.count < 2147483648)
    (fine : cache.Succeeds (calls.map fun call => call.1.call sequenceId call.2)) :
    (Machine.run step cache (calls.map fun call => call.1.call sequenceId call.2)).sequenceLength
        sequenceId = cache.sequenceLength sequenceId + (calls.map (·.1.count)).sum := by
  induction calls generalizing cache with
  | nil => simp [Machine.run]
  | cons call rest ih =>
      obtain ⟨first, later⟩ := fine
      simp only [List.mem_cons, forall_eq_or_imp] at countInt
      obtain ⟨moved, bound⟩ :=
        call_length owned fits sequenceId call.1 call.2 lengthInt countInt.1 first
      have tail := ih (step_owned cache _ owned)
        (fits.of_shape (step_width cache sequenceId call.1 call.2)) (by rw [moved]; exact bound) countInt.2 later
      rw [List.map_cons, Machine.run, tail, moved]
      simp [Int.add_assoc]

omit [Zero Elem] in
theorem layered_tokens (layers : Nat) (batches : List (Batch Elem)) :
    ((batches.flatMap fun batch => (List.range layers).map (batch, ·)).map (·.1.count)).sum =
      layers * tokens batches := by
  induction batches with
  | nil => simp [tokens]
  | cons batch rest ih =>
      rw [List.flatMap_cons, List.map_append, List.sum_append_nat, ih]
      simp [tokens, Nat.mul_add, Function.comp_def]

/-- Every call of every layer moves the length. -/
theorem appends_length (sequenceId : Int) (layers : Nat) (batches : List (Batch Elem))
    {cache : PagedKVCache Elem} (owned : cache.Owned) (fits : cache.RowFits)
    (lengthInt : cache.sequenceLength sequenceId < 2147483648)
    (countInt : ∀ batch ∈ batches, batch.count < 2147483648)
    (fine : cache.Succeeds (appends sequenceId layers batches)) :
    (Machine.run step cache (appends sequenceId layers batches)).sequenceLength sequenceId =
      cache.sequenceLength sequenceId + (layers * tokens batches : Nat) := by
  have same : appends sequenceId layers batches =
      (batches.flatMap fun batch => (List.range layers).map (batch, ·)).map
        fun call => call.1.call sequenceId call.2 := by
    simp [appends, List.map_flatMap, Function.comp_def]
  have counts : ∀ call ∈ batches.flatMap fun batch => (List.range layers).map (batch, ·),
      call.1.count < 2147483648 := by
    intro call member
    obtain ⟨batch, inside, paired⟩ := List.mem_flatMap.mp member
    obtain ⟨layer, _, rfl⟩ := List.mem_map.mp paired
    exact countInt batch inside
  have moved := calls_length sequenceId _ owned fits lengthInt counts (by rw [← same]; exact fine)
  rwa [← same, layered_tokens] at moved

/-- The first `rows.length` positions of the only layer hold `rows`. -/
def StoredFrom (cache : PagedKVCache Elem) (sequenceId : Int)
    (rows : List (Buffer Elem × Buffer Elem)) : Prop :=
  ∃ map, cache.Refines map ∧ map.length sequenceId = rows.length ∧
    ∀ (p : Nat) row, rows[p]? = some row → map.row sequenceId 0 p = some row

theorem call_stored {cache : PagedKVCache Elem} (sequenceId : Int) (batch : Batch Elem)
    (rows : List (Buffer Elem × Buffer Elem)) (stored : cache.StoredFrom sequenceId rows)
    (lengthInt : cache.sequenceLength sequenceId < 2147483648) (countInt : batch.count < 2147483648)
    (fine : (cache.apply (batch.call sequenceId 0)).1.isOk = true) :
    (cache.step (batch.call sequenceId 0)).StoredFrom sequenceId
      (rows ++ batch.rows cache.kvHidden 0) := by
  obtain ⟨map, refined, length, entries⟩ := stored
  have start : cache.sequenceLength sequenceId = rows.length := (refined.length _).trans length
  obtain ⟨written, _⟩ := writeTokens_ok_refines sequenceId 0 (cache.sequenceLength sequenceId)
    (batch.k 0) (batch.v 0) batch.count lengthInt countInt refined fine
  have width := refined.width
  have size : (rows ++ batch.rows cache.kvHidden 0).length = rows.length + batch.count := by
    simp [Batch.rows]
  refine ⟨_, written, ?_, fun p row entry => ?_⟩
  · rw [RowMap.write_length, length, start, size]
    by_cases some : 0 < batch.count
    · rw [if_pos ⟨rfl, some⟩, Int.max_eq_right (by omega)]
      rfl
    · rw [if_neg (by omega)]
      omega
  · rw [RowMap.write_row, start]
    simp only [RowMap.written]
    by_cases old : p < rows.length
    · rw [List.getElem?_append_left old] at entry
      rw [if_neg (by omega)]
      exact entries p row entry
    · rw [List.getElem?_append_right (by omega)] at entry
      simp only [Batch.rows, List.getElem?_map, Option.map_eq_some_iff] at entry
      obtain ⟨t, here, rfl⟩ := entry
      obtain ⟨inside, rfl⟩ := List.getElem?_eq_some_iff.mp here
      rw [List.length_range] at inside
      have offset : ((p : Int) - rows.length).toNat = p - rows.length := by omega
      rw [if_pos ⟨trivial, trivial, by omega, by omega⟩, List.getElem_range, offset, width]

/-- With one layer the rows of the batches follow each other as the tokens do. -/
theorem batches_stored (sequenceId : Int) (batches : List (Batch Elem)) {cache : PagedKVCache Elem}
    (rows : List (Buffer Elem × Buffer Elem)) (owned : cache.Owned) (fits : cache.RowFits)
    (stored : cache.StoredFrom sequenceId rows)
    (lengthInt : cache.sequenceLength sequenceId < 2147483648)
    (countInt : ∀ batch ∈ batches, batch.count < 2147483648)
    (fine : cache.Succeeds (batches.map fun batch => batch.call sequenceId 0)) :
    (Machine.run step cache (batches.map fun batch => batch.call sequenceId 0)).StoredFrom sequenceId
        (rows ++ batches.flatMap (·.rows cache.kvHidden 0)) ∧
      SameShape cache (Machine.run step cache (batches.map fun batch => batch.call sequenceId 0)) := by
  induction batches generalizing cache rows with
  | nil => exact ⟨by simpa [Machine.run] using stored, SameShape.refl cache⟩
  | cons batch rest ih =>
      obtain ⟨first, later⟩ := fine
      simp only [List.mem_cons, forall_eq_or_imp] at countInt
      have shape := step_width cache sequenceId batch 0
      have width : (cache.step (batch.call sequenceId 0)).kvHidden = cache.kvHidden := by
        simp only [kvHidden, shape.numKvHeads, shape.headDim]
      obtain ⟨moved, bound⟩ := call_length owned fits sequenceId batch 0 lengthInt countInt.1 first
      have next := call_stored sequenceId batch rows stored lengthInt countInt.1 first
      obtain ⟨whole, same⟩ := ih _ (step_owned cache _ owned) (fits.of_shape shape) next
        (by rw [moved]; exact bound)
        countInt.2 later
      rw [width, List.append_assoc] at whole
      exact ⟨by simpa [Machine.run] using whole, shape.trans same⟩

/-- After appending batches to an empty sequence of a cache whose rows an `int` counts,
once for each layer, the tokens are in place exactly when there is one layer or no
token. -/
theorem layer_appends_in_place (calls : List (Op Elem)) (bounds : ∀ op ∈ calls, op.Bounded)
    (sequenceId : Int) (batches : List (Batch Elem)) (empty : (runs calls).sequenceLength sequenceId = 0)
    (countInt : ∀ batch ∈ batches, batch.count < 2147483648)
    (fine : (runs calls).Succeeds (appends sequenceId (runs calls).numLayers batches)) :
    (runs (calls ++ appends sequenceId (runs calls).numLayers batches)).InPlace sequenceId batches ↔
      (runs calls).numLayers = 1 ∨ tokens batches = 0 := by
  have owned := runs_owned calls
  have fits := runs_rowFits calls bounds
  rw [runs, Machine.run_append]
  change (Machine.run step (runs calls) _).InPlace sequenceId batches ↔ _
  generalize runs calls = cache at empty fine owned fits ⊢
  have lengthInt : cache.sequenceLength sequenceId < 2147483648 := by rw [empty]; decide
  have moved := appends_length sequenceId cache.numLayers batches owned fits lengthInt countInt fine
  rw [empty, Int.zero_add] at moved
  constructor
  · intro placed
    have length := placed.length
    rw [moved] at length
    by_contra neither
    have several : cache.numLayers * tokens batches = tokens batches := by omega
    rcases Nat.eq_zero_or_pos (tokens batches) with none | some
    · exact neither (Or.inr none)
    · exact neither (Or.inl (Nat.eq_of_mul_eq_mul_right some (by omega)))
  · intro condition
    by_cases none : tokens batches = 0
    · refine ⟨by rw [moved, none]; simp, fun layer head p row _ _ entry => ?_⟩
      have inside := (List.getElem?_eq_some_iff.mp entry).1
      rw [rows_length] at inside
      omega
    · have one : cache.numLayers = 1 := by omega
      rw [one] at fine moved ⊢
      have single : appends sequenceId 1 batches =
          batches.map fun batch => batch.call sequenceId 0 := by
        simp [appends, List.range_one, List.map_eq_flatMap]
      rw [single] at fine moved ⊢
      obtain ⟨⟨map, refined, length, entries⟩, shape⟩ := batches_stored sequenceId batches [] owned
        fits ⟨_, blank_refines owned fits, by simpa using empty, by simp⟩ lengthInt countInt fine
      refine ⟨by rw [moved, Nat.one_mul], fun layer head p row inLayers inHeads entry => ?_⟩
      have first : layer = 0 := by
        rw [shape.numLayers] at inLayers
        omega
      subst first
      have below := (List.getElem?_eq_some_iff.mp entry).1
      rw [rows_length] at below
      rw [shape.numKvHeads, shape.headDim, ← kvHidden_eq fits] at entry
      apply refined.pointers (entries p row (by simpa using entry))
      · rw [moved, Nat.one_mul]
        omega
      · omega
      · omega

-- One layer and two blocks of two tokens: a batch of one token, then one of two.
def oneLayer : List (Batch Nat) :=
  [⟨1, fun _ _ => 7, fun _ _ => 8⟩, ⟨2, fun _ j => j, fun _ j => j⟩]

theorem layer_appends_in_place_oneLayer :
    (runs ([.init 1 1 1 2 2] ++
        appends 0 (runs ([.init 1 1 1 2 2] : List (Op Nat))).numLayers oneLayer)).InPlace 0 oneLayer ↔
      (runs ([.init 1 1 1 2 2] : List (Op Nat))).numLayers = 1 ∨ tokens oneLayer = 0 :=
  layer_appends_in_place [.init 1 1 1 2 2] (by decide) 0 oneLayer (by decide) (by decide)
    ⟨by decide, by decide, trivial⟩

/-- Two layers and one token: the second layer has the token at position one. -/
theorem second_layer_behind_first :
    (runs ([.init 2 1 1 2 2] : List (Op Nat))).sequenceLength 0 = 0 ∧
      (runs ([.init 2 1 1 2 2] : List (Op Nat))).Succeeds
        (appends 0 2 [⟨1, fun _ _ => 7, fun _ _ => 8⟩]) ∧
      ¬ (runs ([.init 2 1 1 2 2] ++ appends 0 2 [⟨1, fun _ _ => 7, fun _ _ => 8⟩])).InPlace 0
        [⟨1, fun _ _ => 7, fun _ _ => 8⟩] := by
  refine ⟨by decide, ⟨by decide, by decide, trivial⟩, fun placed => ?_⟩
  have length := placed.length
  exact absurd length (by decide)

end Runs

end MiniLLM.PagedKVCache
