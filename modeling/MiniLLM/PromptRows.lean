import MiniLLM.PagedGeneration
import MiniLLM.Reservations

/-!
The paged cache before the decode loop: every prompt gets blocks for itself and for what
it may generate, and its rows are copied from a contiguous cache.
-/

namespace MiniLLM

open Loops CpuKernelAdapter Softmax PagedKVCache
open scoped List

variable {α : Type} [Field α] [LinearOrder α]

namespace Decoder

section Reserving

omit [LinearOrder α] in
theorem Beside.missing {before after : PagedKVCache α} {base map : RowMap α} {seqId : Int}
    (beside : Beside before base seqId after map) (id total : Int) :
    after.missingBlocks id total ≤ before.missingBlocks id total := by
  have grown := (beside.tables id).length_le
  simp only [missingBlocks, neededBlocks, beside.shape.blockSize]
  omega

theorem getD_mem {prompts : List (List Int)} {id : Nat} (known : id < prompts.length) :
    prompts.getD id [] ∈ prompts := by
  rw [List.getD_eq_getElem _ _ known]
  exact List.getElem_mem known

/-- Blocks for a prompt and the tokens behind it. -/
def blocksFor (blockSize maxNewTokens : Nat) (prompt : List Int) : Nat :=
  (prompt.length + maxNewTokens + blockSize - 1) / blockSize

section

variable {cache after : PagedKVCache α} {map : RowMap α} {prompts : List (List Int)}
  {maxNewTokens i : Nat}

/-- The reservations on their way: `i` prompts hold their blocks, the others have none. -/
structure Reserving (cache : PagedKVCache α) (map : RowMap α) (prompts : List (List Int))
    (maxNewTokens i : Nat) (after : PagedKVCache α) : Prop where
  shape : SameShape cache after
  refined : after.Refines map
  free : after.freeBlocks.length +
    ((prompts.map (blocksFor cache.blockSize maxNewTokens)).take i).sum = cache.freeBlocks.length
  reserved : ∀ id : Nat, id < i →
    after.missingBlocks id ((prompts.getD id []).length + maxNewTokens) ≤ 0
  rest : ∀ id : Nat, i ≤ id → (after.sequence id).blocks = []

omit [LinearOrder α] in
/-- The blocks of one more prompt. -/
theorem Reserving.step (ready : cache.initialized = true)
    (nonempty : ∀ p ∈ prompts, p ≠ [])
    (rounds : ∀ p ∈ prompts, p.length + maxNewTokens + cache.blockSize < 2147483648)
    (room : (prompts.map (blocksFor cache.blockSize maxNewTokens)).sum ≤ cache.freeBlocks.length)
    (below : i < prompts.length) (reserving : Reserving cache map prompts maxNewTokens i after) :
    (after.ensureSequence i).1 = .makeOk ∧
      ((after.ensureSequence i).2.reserveSequence i
        ((prompts.getD i []).length + maxNewTokens)).1 = .makeOk ∧
      Reserving cache map prompts maxNewTokens (i + 1) ((after.ensureSequence i).2.reserveSequence i
        ((prompts.getD i []).length + maxNewTokens)).2 := by
  obtain ⟨shape, held, free, reserved, rest⟩ := reserving
  have size : 0 < cache.blockSize := by
    simp only [initialized, Bool.and_eq_true, decide_eq_true_eq] at ready
    exact ready.1
  have member := getD_mem below
  have fits := rounds _ member
  have some := List.length_pos_of_ne_nil (nonempty _ member)
  -- The sum of the needs, split at this prompt.
  have taken : ((prompts.map (blocksFor cache.blockSize maxNewTokens)).take (i + 1)).sum =
      ((prompts.map (blocksFor cache.blockSize maxNewTokens)).take i).sum +
        blocksFor cache.blockSize maxNewTokens (prompts.getD i []) := by
    rw [List.sum_take_succ _ i (by rw [List.length_map]; exact below), List.getElem_map,
      List.getD_eq_getElem _ _ below]
  have total := (prompts.map (blocksFor cache.blockSize maxNewTokens)).sum_take_add_sum_drop (i + 1)
  obtain ⟨prompt, is⟩ : ∃ prompt, prompts.getD i [] = prompt := ⟨_, rfl⟩
  rw [is] at fits some taken ⊢
  let wanted : Int := prompt.length + maxNewTokens
  -- What this prompt needs is missing altogether, and it is there.
  have needed : after.neededBlocks wanted = blocksFor cache.blockSize maxNewTokens prompt := by
    rw [neededBlocks_eq after wanted (by omega) (by rw [shape.blockSize]; exact size)
      (by rw [shape.blockSize]; omega), shape.blockSize, blocksFor, Int.natCast_ediv,
      Nat.cast_sub (by omega)]
    push_cast
    rfl
  have missing : after.missingBlocks i wanted = blocksFor cache.blockSize maxNewTokens prompt := by
    rw [missingBlocks, needed, rest i le_rfl]
    simp
  have fine := reserveSequence_succeeds after i wanted (shape.initialized.trans ready)
    (by omega) (by omega) (by omega)
  have blocks := reserveSequence_blocks after i wanted (by rw [fine]; rfl)
  have short := reserveSequence_shortage after i wanted wanted
  have extended := reserveSequence_extends after i wanted
  have others := fun id low apart => reserveSequence_others after i id wanted low apart
  rw [reserveSequence_ensured after i wanted]
  have left : (after.reserveSequence i wanted).2.missingBlocks i wanted = 0 := by
    have same : (after.reserveSequence i wanted).2.neededBlocks wanted =
        after.neededBlocks wanted := by
      simp only [neededBlocks, extended.blockSize]
    rw [rest i le_rfl] at blocks
    rw [missingBlocks, same, blocks, needed]
    simp
  refine ⟨ensureSequence_succeeds after i (shape.initialized.trans ready) (by omega), fine,
    shape.trans extended.sameShape, reserveSequence_refines i wanted held, ?_, fun id early => ?_,
    fun id later => ?_⟩
  · simp only [shortage] at short
    omega
  · by_cases here : id = i
    · subst here
      rw [is]
      exact left.le
    · rw [missingBlocks_congr extended.blockSize (by rw [others id (by omega) (by omega)])]
      exact reserved id (by omega)
  · rw [others id (by omega) (by omega)]
    exact rest id (by omega)

omit [LinearOrder α] in
/-- The reservations go through when the blocks of all prompts fit the pool. -/
theorem reserveAll_reserved (ready : cache.initialized = true) (refined : cache.Refines map)
    (empty : ∀ id : Nat, (cache.sequence id).blocks = []) (nonempty : ∀ p ∈ prompts, p ≠ [])
    (rounds : ∀ p ∈ prompts, p.length + maxNewTokens + cache.blockSize < 2147483648)
    (room : (prompts.map (blocksFor cache.blockSize maxNewTokens)).sum ≤ cache.freeBlocks.length) :
    ∃ after, reserveAll prompts maxNewTokens cache = (none, after) ∧
      Reserving cache map prompts maxNewTokens prompts.length after := by
  refine ends_exists (loopTry_invariant (Reserving cache map prompts maxNewTokens)
    (fun _ _ => False) _ _ cache
    ⟨SameShape.refl cache, refined, by simp, fun _ none => absurd none (Nat.not_lt_zero _),
      fun id _ => empty id⟩ fun i after below reserving => ?_)
  obtain ⟨ensured, fine, next⟩ := reserving.step ready nonempty rounds room below
  dsimp only
  generalize after.ensureSequence i = first at ensured fine next ⊢
  obtain ⟨st, base⟩ := first
  obtain rfl : st = .makeOk := ensured
  simp only [Status.isOk_makeOk, Bool.not_true, Bool.false_eq_true, if_false]
  generalize base.reserveSequence i _ = second at fine next ⊢
  obtain ⟨st, last⟩ := second
  obtain rfl : st = .makeOk := fine
  exact next

end

end Reserving

section Copying

variable {cache before after : PagedKVCache α} {base map next : RowMap α} {seqId : Int}

omit [LinearOrder α] in
/-- A length that a sequence has blocks for. -/
theorem setSequenceLength_beside (ready : cache.initialized = true) (refined : cache.Refines map)
    (known : 0 ≤ seqId) {length : Int} (low : 0 ≤ length)
    (room : cache.missingBlocks seqId length ≤ cache.freeBlocks.length) :
    (cache.setSequenceLength seqId length).1 = .makeOk ∧
      Beside cache map seqId (cache.setSequenceLength seqId length).2
        (map.withLength seqId length) := by
  have fine := reserveSequence_succeeds cache seqId length ready known low room
  have held := setSequenceLength_refines seqId length refined
  have extended := reserveSequence_extends cache seqId length
  have inside := (reserveSequence_known cache seqId length (by rw [fine]; rfl)).2
  rcases setSequenceLength_cases cache seqId length with
    ⟨negative, _⟩ | ⟨_, bad, _⟩ | ⟨_, _, same⟩
  · omega
  · rw [fine] at bad
    cases bad
  · rw [same] at held ⊢
    have grown := modifyLength_extends _ seqId (fun seq => { seq with length := length })
      (fun _ => rfl) inside
    exact ⟨rfl, (extended.trans grown).sameShape, held, (extended.trans grown).blocks,
      fun id apart => if_neg apart, fun _ _ _ _ => rfl⟩

variable {dec : Decoder α} {texts : Texts}

/-- The copy on its way: `i` layers of the sequence hold the prompt's rows. The first
write already makes the sequence as long as the prompt. -/
structure Copying (dec : Decoder α) (cache : PagedKVCache α) (map : RowMap α) (id : Nat)
    (prompt : List Int) (i : Nat) (after : PagedKVCache α) (next : RowMap α) : Prop where
  beside : Beside cache map id after next
  length : next.length id = if i = 0 then 0 else (prompt.length : Int)
  rows : ∀ layer < i, (dec.onText prompt).RowsOf next id layer prompt.length

omit [LinearOrder α] in
/-- One more layer. -/
theorem Copying.step {id layer : Nat} {prompt : List Int} {kv : KVCache α}
    (copying : dec.Copying cache map id prompt layer after next) (pool : dec.Pool cache)
    (some : prompt ≠ []) (rounds : (prompt.length + cache.blockSize : Int) < 2147483648)
    (cached : (dec.onText prompt).Cached kv prompt.length)
    (room : after.shortage id prompt.length ≤ 0) (below : layer < dec.numLayers) :
    let written := after.writeTokens id layer 0 (.some (kv.layer layer).k)
      (.some (kv.layer layer).v) prompt.length
    written.1.isOk = true ∧ ∃ rows, dec.Copying cache map id prompt (layer + 1) written.2 rows := by
  intro written
  obtain ⟨beside, grown, held⟩ := copying
  have length := List.length_pos_of_ne_nil some
  have own := pool.sameShape beside.shape
  have high := own.layers
  have size := beside.shape.blockSize
  have fine : written.1.isOk = true := (@writeTokens_ok_iff _ after id layer 0 prompt.length
    own.ready (by omega) ⟨by omega, by omega⟩ le_rfl length (by omega) (kv.layer layer).k
    (kv.layer layer).v).mpr (by rw [Int.zero_add]; exact room)
  have refined := writeTokens_refines id layer 0 (.some (kv.layer layer).k)
    (.some (kv.layer layer).v) prompt.length (by omega) beside.refined
  have width := own.width beside.refined
  rw [if_pos fine] at refined
  refine ⟨fine, _, beside.write (writeTokens_sameShape after id layer 0 _ _ _) refined
    (writeTokens_tables after id layer 0 _ _ _), ?_, fun other early pos inside => ?_⟩
  · rw [RowMap.write_length, if_pos ⟨rfl, length⟩, grown, if_neg (Nat.succ_ne_zero layer)]
    split <;> omega
  · by_cases here : other = layer
    · subst here
      rw [RowMap.write_row]
      simp only [RowMap.written, true_and]
      rw [if_pos (by omega), width, show ((pos : Int) - 0).toNat = pos by omega]
      exact ⟨_, rfl, fun c column => cached.rows other below pos inside c column⟩
    · rw [RowMap.write_untouched _ _ _ fun same => here (by
        have := same.2.1
        omega)]
      exact held other (by omega) pos inside

omit [LinearOrder α] in
/-- A sequence without text takes over the rows of a contiguous cache. -/
theorem Serving.copy (serving : dec.Serving cache texts map) {id : Nat}
    (free : texts id = some []) {prompt : List Int} (some : prompt ≠ [])
    (inside : ∀ token ∈ prompt, 0 ≤ token ∧ token < dec.vocab) {kv : KVCache α}
    (cached : (dec.onText prompt).Cached kv prompt.length) {total : Int}
    (reserved : cache.missingBlocks id total ≤ 0) (within : prompt.length ≤ total)
    (rounds : total + cache.blockSize < 2147483648) :
    ∃ after next, dec.copyToPaged id prompt.length kv cache = (none, after) ∧
      Beside cache map id after next ∧
      dec.Serving after (Function.update texts id (.some prompt)) next := by
  have length := List.length_pos_of_ne_nil some
  -- Room for the prompt, as long as only this sequence is written.
  have room : ∀ {after : PagedKVCache α} {next : RowMap α}, Beside cache map id after next →
      after.shortage id prompt.length ≤ 0 := by
    intro after next beside
    have less := after.shortage_mono id (beside.shape.initialized.trans serving.pool.ready)
      (show 0 < (prompt.length : Int) by omega) within
      (by rw [beside.shape.blockSize]; omega)
    have missing := beside.missing id total
    simp only [shortage] at less ⊢
    omega
  obtain ⟨copied, loops, rows, beside, grown, held⟩ := ends_exists (loopTry_invariant
    (fun i (after : PagedKVCache α) => ∃ rows, dec.Copying cache map id prompt i after rows)
    (fun (_ : Status) _ => False) dec.numLayers (copyLayer id prompt.length kv) cache
    ⟨map, Beside.refl serving.refined, serving.length id [] free,
      fun _ none => absurd none (Nat.not_lt_zero _)⟩ (by
      rintro layer after below ⟨rows, copying⟩
      obtain ⟨fine, next⟩ := copying.step serving.pool some (by omega) cached
        (room copying.beside) below
      unfold copyLayer
      dsimp only at fine next ⊢
      generalize after.writeTokens id layer 0 (.some (kv.layer layer).k)
        (.some (kv.layer layer).v) prompt.length = result at fine next ⊢
      obtain ⟨st, written⟩ := result
      simp only at fine next
      simp only [fine, Bool.not_true, Bool.false_eq_true, if_false]
      exact next))
  obtain ⟨set, last⟩ := setSequenceLength_beside
    (beside.shape.initialized.trans serving.pool.ready) beside.refined
    (show (0 : Int) ≤ id by omega) (show 0 ≤ (prompt.length : Int) by omega)
    (sub_nonpos.mp (room beside))
  have whole := beside.trans last
  refine ⟨(copied.setSequenceLength id prompt.length).2, _, ?_, whole, ?_⟩
  · unfold copyToPaged
    rw [loops]
    dsimp only
    generalize copied.setSequenceLength id prompt.length = result at set
    obtain ⟨st, after⟩ := result
    obtain rfl : st = .makeOk := set
    rfl
  · have own : (rows.withLength id prompt.length).length id = prompt.length := if_pos rfl
    refine serving.change whole.shape whole.refined whole.lengths whole.frame (by rw [own]; omega)
      (by rw [own]; omega) (fun text is => ?_) (fun text is => ?_) fun text is layer known => ?_
    all_goals obtain rfl := Option.some.inj is
    · exact inside
    · exact own
    · exact held layer known

end Copying

end Decoder

end MiniLLM
