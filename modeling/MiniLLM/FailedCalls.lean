import MiniLLM.SequenceCapacity

/-!
Calls of the paged cache that report an error. A reservation is refused before
any block moves. Once it is granted, rounding in `int` gives every position of
the chunk a block, so the write loop behind it cannot stop half way.
-/

namespace MiniLLM.PagedKVCache

open Loops

variable {Elem : Type} [Zero Elem]

/-- Two states no accessor tells apart, but for empty sequences one of them lists. -/
structure Unchanged (before after : PagedKVCache Elem) : Prop where
  length : ∀ id, after.sequenceLength id = before.sequenceLength id
  table : ∀ id, before.known id = true → after.blockTable id = before.blockTable id
  fresh : ∀ id table, before.known id = false → after.blockTable id = some table → table = []
  freeBlocks : after.freeBlocks = before.freeBlocks
  blockUsed : after.blockUsed = before.blockUsed
  storage : ∀ key layer, after.storage key layer = before.storage key layer

theorem Unchanged.refl (cache : PagedKVCache Elem) : Unchanged cache cache := by
  refine ⟨fun _ => rfl, fun _ _ => rfl, fun id table unknown found => ?_, rfl, rfl, fun _ _ => rfl⟩
  simp [blockTable, unknown] at found

theorem ensureSequence_unchanged (cache : PagedKVCache Elem) (sequenceId : Int) :
    Unchanged cache (cache.ensureSequence sequenceId).2 := by
  have sequences := ensureSequence_sequence cache sequenceId
  obtain ⟨count, same⟩ := ensureSequence_frame cache sequenceId
  refine ⟨fun id => ?_, fun id knows => ?_, fun id table unknown found => ?_, by rw [same],
    by rw [same], fun key layer => by rw [same]; rfl⟩
  · rw [sequenceLength_eq, sequenceLength_eq, sequences]
  · have still : (cache.ensureSequence sequenceId).2.known id = true := by
      rw [same]
      simp only [known, List.length_append, Bool.and_eq_true, decide_eq_true_eq] at knows ⊢
      exact ⟨knows.1, by omega⟩
    simp only [blockTable, knows, still, Bool.not_true, Bool.false_eq_true, if_false, sequences]
  · unfold blockTable at found
    split at found
    · cases found
    · obtain rfl := Option.some.inj found
      rw [sequences]
      by_cases low : 0 ≤ id
      · have beyond : cache.sequences.length ≤ id.toNat := by simpa [known, low] using unknown
        simp [sequence, beyond]
      · next listed =>
          simp [known, low] at listed

/-- The tokens a call asks its sequence to hold. -/
def Op.total (cache : PagedKVCache Elem) : Op Elem → Option Int
  | .reserveSequence _ total => some total
  | .setSequenceLength _ length => some length
  | .writeTokens _ _ start _ _ count => some (start + count)
  | .appendTokens id _ _ _ count => some (cache.sequenceLength id + count)
  | _ => none

theorem reserveSequence_unchanged (cache : PagedKVCache Elem) (sequenceId totalTokens : Int)
    (bad : (cache.reserveSequence sequenceId totalTokens).1.isOk = false) :
    Unchanged cache (cache.reserveSequence sequenceId totalTokens).2 := by
  rw [reserveSequence_failed cache sequenceId totalTokens bad]
  exact ensureSequence_unchanged cache sequenceId

/-- The write loop behind a reservation that was granted does not stop. -/
theorem writeRows_complete (cache : PagedKVCache Elem) (sequenceId layer startPos : Int)
    (k v : Buffer Elem) (tokenCount : Int) (owned : cache.Owned)
    (accepts : cache.Accepts layer startPos tokenCount)
    (fits : startPos + tokenCount + cache.blockSize < 2147483648)
    (fine : (cache.reserveSequence sequenceId (startPos + tokenCount)).1.isOk = true) :
    ((cache.reserveSequence sequenceId (startPos + tokenCount)).2.writeRows sequenceId layer startPos
      k v tokenCount.toNat).1 = none := by
  obtain ⟨nonneg, some, low, high⟩ := accepts
  have reserved := reserveSequence_owned cache sequenceId (startPos + tokenCount) owned
  have extended := reserveSequence_extends cache sequenceId (startPos + tokenCount)
  have covers := fun pos => reserveSequence_covers cache sequenceId (startPos + tokenCount) pos
    fine (by omega)
  have rows := writeRows_holds (cache.reserveSequence sequenceId (startPos + tokenCount)).2
    { width := (cache.reserveSequence sequenceId (startPos + tokenCount)).2.kvHidden }
    sequenceId layer startPos k v tokenCount.toNat reserved (by dsimp only)
    (by rw [extended.blockSize]; exact (covers startPos nonneg (by omega)).1) low
    (by rw [numLayers, extended.layers]; exact high) nonneg (by omega)
    (fun t below => (covers (startPos + t) (by omega) (by omega)).2)
    fun _ _ _ _ none => by simp at none
  generalize (cache.reserveSequence sequenceId (startPos + tokenCount)).2.writeRows sequenceId layer
    startPos k v tokenCount.toNat = result at rows
  obtain ⟨err, after⟩ := result
  cases err with
  | none => rfl
  | some st => exact rows.elim

theorem writeTokens_unchanged (cache : PagedKVCache Elem) (sequenceId layer startPos : Int)
    (k v : Option (Buffer Elem)) (tokenCount : Int) (owned : cache.Owned)
    (fits : startPos + tokenCount + cache.blockSize < 2147483648)
    (bad : (cache.writeTokens sequenceId layer startPos k v tokenCount).1.isOk = false) :
    Unchanged cache (cache.writeTokens sequenceId layer startPos k v tokenCount).2 := by
  rcases writeTokens_cases cache sequenceId layer startPos k v tokenCount with
    ⟨same, _⟩ | ⟨kb, vb, rfl, rfl, accepts, writes⟩
  · rw [same]
    exact Unchanged.refl cache
  · have complete := writeRows_complete cache sequenceId layer startPos kb vb tokenCount owned
      accepts fits
    obtain ⟨nonneg, some, _, _⟩ := accepts
    rw [← wrap32_eq (startPos + tokenCount) (by omega) (by omega)] at complete
    generalize cache.writeTokens sequenceId layer startPos (Option.some kb) (Option.some vb)
      tokenCount = result at writes bad
    cases writes with
    | noBlocks refused => exact reserveSequence_unchanged cache sequenceId _ refused
    | stopped st after fine wrote =>
        have never := complete fine
        rw [wrote] at never
        cases never
    | written after fine wrote => simp at bad

/-- In every reachable state a failed reservation, length change or write leaves
lengths, tables, free list, bitmap and storage as they were. -/
theorem failed_call_unchanged (ops : List (Op Elem)) (op : Op Elem) (total : Int)
    (asks : op.total (runs ops) = some total) (fits : total + (runs ops).blockSize < 2147483648)
    (bad : ((runs ops).apply op).1.isOk = false) : Unchanged (runs ops) ((runs ops).step op) := by
  have owned := runs_owned ops
  generalize runs ops = cache at asks fits bad owned ⊢
  cases op with
  | reserveSequence id tokens => exact reserveSequence_unchanged cache id tokens bad
  | setSequenceLength id length =>
      simp only [apply] at bad
      simp only [step, apply]
      rcases setSequenceLength_cases cache id length with ⟨_, _, same⟩ | ⟨_, refused, same⟩ | ⟨_, _, same⟩
      · rw [same]
        exact Unchanged.refl cache
      · rw [same]
        exact reserveSequence_unchanged cache id length refused
      · simp [same] at bad
  | writeTokens id layer start k v count =>
      obtain rfl := Option.some.inj asks
      exact writeTokens_unchanged cache id layer start k v count owned fits bad
  | appendTokens id layer k v count =>
      obtain rfl := Option.some.inj asks
      exact writeTokens_unchanged cache id layer _ k v count owned fits bad
  | init | reset | ensureSequence | freeSequence => cases asks

-- Two blocks of two tokens, one of them taken.
theorem failed_call_unchanged_shortOfBlocks :
    Unchanged (runs ([.init 1 1 1 2 2, .setSequenceLength 1 2] : List (Op Nat)))
      ((runs ([.init 1 1 1 2 2, .setSequenceLength 1 2] : List (Op Nat))).step
        (.writeTokens 0 0 0 (some id) (some id) 3)) :=
  failed_call_unchanged [.init 1 1 1 2 2, .setSequenceLength 1 2]
    (.writeTokens 0 0 0 (some id) (some id) 3) 3 rfl (by decide) (by decide)

end MiniLLM.PagedKVCache
