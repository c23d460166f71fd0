import MiniLLM.TenancySteps

/-!
Lengths and block tables. A write loop that is left without an error has found a
block for each of its positions, so a write never counts a token it has no room
for. Only `set_sequence_length` trusts the rounding of `reserve_sequence`, and
near the largest `int` that rounding asks for no block at all.
-/

namespace MiniLLM.PagedKVCache

open Loops

variable {Elem : Type}

/-- No sequence is longer than its blocks. -/
def Covered (cache : PagedKVCache Elem) : Prop :=
  ∀ id, cache.sequenceLength id ≤ (cache.sequence id).blocks.length * cache.blockSize

section Writes

/-- A row that was written had a block. -/
theorem writeRow_found (cache : PagedKVCache Elem) (sequenceId layer startPos : Int)
    (k v : Buffer Elem) (t : Nat)
    (done : (writeRow sequenceId layer startPos k v t cache).1 = none) :
    ∃ block, cache.physicalBlockForPosition sequenceId (wrap32 (startPos + t)) = .ok block := by
  cases place : cache.physicalBlockForPosition sequenceId (wrap32 (startPos + t)) with
  | ok block => exact ⟨block, rfl⟩
  | error st =>
      simp only [writeRow, mutableTokenPtr, place] at done
      split_ifs at done

/-- The positions of a finished write loop all had a block. -/
theorem writeRows_found (cache : PagedKVCache Elem) (sequenceId layer startPos : Int)
    (k v : Buffer Elem) (count : Nat)
    (done : (cache.writeRows sequenceId layer startPos k v count).1 = none) :
    ∀ t < count, ∃ block,
      cache.physicalBlockForPosition sequenceId (wrap32 (startPos + t)) = .ok block := by
  have rule := loopTry_invariant
    (fun i c => c = { cache with layers := c.layers } ∧ ∀ t < i, ∃ block,
      cache.physicalBlockForPosition sequenceId (wrap32 (startPos + t)) = .ok block)
    (fun (_ : Status) _ => True) count (writeRow sequenceId layer startPos k v) cache
    ⟨rfl, fun _ none => absurd none (Nat.not_lt_zero _)⟩ (by
      rintro i c below ⟨frame, found⟩
      have next := writeRow_frame c sequenceId layer startPos k v i
      have here := writeRow_found c sequenceId layer startPos k v i
      generalize writeRow sequenceId layer startPos k v i c = result at next here
      obtain ⟨err, after⟩ := result
      cases err with
      | some st => exact trivial
      | none =>
          obtain ⟨block, place⟩ := here rfl
          refine ⟨next.trans (by rw [frame]), fun t inside => ?_⟩
          rcases Nat.lt_succ_iff_lt_or_eq.mp inside with before | rfl
          · exact found t before
          · exact ⟨block, by rw [frame] at place; exact place⟩)
  change Ends _ _ (cache.writeRows sequenceId layer startPos k v count) at rule
  generalize cache.writeRows sequenceId layer startPos k v count = result at rule done
  obtain ⟨err, after⟩ := result
  dsimp only at done
  subst done
  exact rule.2

/-- A position is in a block when the blocks reach beyond it. -/
theorem physicalBlock_lt {cache : PagedKVCache Elem} (positive : 0 < cache.blockSize)
    {sequenceId pos : Int} {block : Nat}
    (found : cache.physicalBlockForPosition sequenceId pos = .ok block) :
    pos < (cache.sequence sequenceId).blocks.length * cache.blockSize := by
  obtain ⟨_, _, nonneg, entry⟩ := (physicalBlock_ok_iff _ _ _ _).mp found
  have logical := (List.getElem?_eq_some_iff.mp entry).1
  rw [Nat.div_lt_iff_lt_mul positive] at logical
  have exact : ((cache.sequence sequenceId).blocks.length * cache.blockSize : Nat) =
    ((cache.sequence sequenceId).blocks.length : Int) * cache.blockSize := by push_cast; rfl
  omega

end Writes

section Lengths

/-- A write keeps a length or raises it to the end of the chunk. -/
theorem writeTokens_length (cache : PagedKVCache Elem) (sequenceId layer startPos : Int)
    (k v : Option (Buffer Elem)) (tokenCount other : Int) :
    (cache.writeTokens sequenceId layer startPos k v tokenCount).2.sequenceLength other =
        cache.sequenceLength other ∨
      (cache.writeTokens sequenceId layer startPos k v tokenCount).2.sequenceLength other =
        max (cache.sequenceLength other) (wrap32 (startPos + tokenCount)) := by
  rcases writeTokens_cases cache sequenceId layer startPos k v tokenCount with
    ⟨same, _⟩ | ⟨kb, vb, rfl, rfl, _, writes⟩
  · exact Or.inl (by rw [same])
  · have lengths := reserveSequence_lengths cache sequenceId (wrap32 (startPos + tokenCount)) other
    have knows := reserveSequence_known cache sequenceId (wrap32 (startPos + tokenCount))
    have frame := writeRows_frame
      (cache.reserveSequence sequenceId (wrap32 (startPos + tokenCount))).2 sequenceId layer
      startPos kb vb tokenCount.toNat
    have kept : ((cache.reserveSequence sequenceId (wrap32 (startPos + tokenCount))).2.writeRows
        sequenceId layer startPos kb vb tokenCount.toNat).2.sequenceLength other =
          cache.sequenceLength other := by
      rw [frame]
      exact lengths
    generalize cache.writeTokens sequenceId layer startPos (some kb) (some vb) tokenCount = result
      at writes
    cases writes with
    | noBlocks _ => exact Or.inl lengths
    | stopped st after _ wrote =>
        rw [wrote] at kept
        exact Or.inl kept
    | written after fine wrote =>
        obtain ⟨low, bound⟩ := knows fine
        rw [wrote] at kept frame
        dsimp only at kept frame
        rw [modifyLength_lengths after sequenceId other _ low (by rw [frame]; exact bound)]
        split
        · next same =>
            subst same
            rw [sequenceLength_eq, if_pos low] at kept
            rw [← kept]
            exact Or.inr rfl
        · exact Or.inl kept

/-- No call of `write_tokens` shortens a sequence. -/
theorem writeTokens_grows (cache : PagedKVCache Elem) (sequenceId layer startPos : Int)
    (k v : Option (Buffer Elem)) (tokenCount other : Int) :
    cache.sequenceLength other ≤
      (cache.writeTokens sequenceId layer startPos k v tokenCount).2.sequenceLength other := by
  rcases writeTokens_length cache sequenceId layer startPos k v tokenCount other with same | raised
  · exact Int.le_of_eq same.symm
  · rw [raised]
    exact Int.le_max_left _ _

/-- The length a call leaves: the one before, none, one that was asked for, or the
end of a chunk. -/
theorem step_length_cases [Zero Elem] (cache : PagedKVCache Elem) (op : Op Elem) (id : Int) :
    (cache.step op).sequenceLength id = cache.sequenceLength id ∨
      (cache.step op).sequenceLength id = 0 ∨
      (∃ length, 0 ≤ length ∧ op = .setSequenceLength id length ∧
        (cache.step op).sequenceLength id = length) ∨
      ∃ sum, (cache.step op).sequenceLength id = max (cache.sequenceLength id) (wrap32 sum) := by
  cases op with
  | init layers heads dim size blocks =>
      have empty : (cache.step (.init layers heads dim size blocks)).sequences = [] := by
        simp only [step, apply, init]
        split <;> rfl
      exact Or.inr (Or.inl (uninitialized_length _ empty id))
  | reset =>
      exact Or.inr (Or.inl (uninitialized_length _ (show (cache.step .reset).sequences = [] from rfl) id))
  | ensureSequence sequenceId =>
      left
      change (cache.ensureSequence sequenceId).2.sequenceLength id = _
      rw [sequenceLength_eq, ensureSequence_sequence, ← sequenceLength_eq]
  | reserveSequence sequenceId total =>
      exact Or.inl (reserveSequence_lengths cache sequenceId total id)
  | setSequenceLength sequenceId length =>
      have kept := reserveSequence_lengths cache sequenceId length id
      have knows := reserveSequence_known cache sequenceId length
      simp only [step, apply]
      rcases setSequenceLength_cases cache sequenceId length with
        ⟨_, _, same⟩ | ⟨_, _, same⟩ | ⟨nonneg, fine, same⟩
      · exact Or.inl (by rw [same])
      · exact Or.inl (by rw [same, kept])
      · obtain ⟨low, bound⟩ := knows fine
        rw [same, modifyLength_lengths _ sequenceId id _ low bound]
        by_cases named : id = sequenceId
        · exact Or.inr (Or.inr (Or.inl ⟨length, nonneg, by rw [named], if_pos named⟩))
        · exact Or.inl (by rw [if_neg named, kept])
  | writeTokens sequenceId layer start k v count =>
      rcases writeTokens_length cache sequenceId layer start k v count id with same | raised
      · exact Or.inl same
      · exact Or.inr (Or.inr (Or.inr ⟨_, raised⟩))
  | appendTokens sequenceId layer k v count =>
      rcases writeTokens_length cache sequenceId layer (cache.sequenceLength sequenceId) k v count id
        with same | raised
      · exact Or.inl same
      · exact Or.inr (Or.inr (Or.inr ⟨_, raised⟩))
  | freeSequence sequenceId =>
      change (cache.freeSequence sequenceId).2.sequenceLength id = _ ∨
        (cache.freeSequence sequenceId).2.sequenceLength id = _ ∨ _
      rw [sequenceLength_eq, sequenceLength_eq]
      by_cases low : 0 ≤ id
      · rw [freeSequence_sequence cache sequenceId id low]
        by_cases same : id = sequenceId
        · exact Or.inr (Or.inl (by simp [same]))
        · exact Or.inl (by simp [same])
      · exact Or.inr (Or.inl (if_neg low))

/-- No call makes a length negative. -/
theorem step_nonneg [Zero Elem] {cache : PagedKVCache Elem} (op : Op Elem)
    (nonneg : ∀ id, 0 ≤ cache.sequenceLength id) (id : Int) :
    0 ≤ (cache.step op).sequenceLength id := by
  rcases step_length_cases cache op id with same | none | ⟨length, low, _, set⟩ | ⟨sum, raised⟩
  · rw [same]
    exact nonneg id
  · exact Int.le_of_eq none.symm
  · rw [set]
    exact low
  · rw [raised]
    exact Int.le_trans (nonneg id) (Int.le_max_left _ _)

theorem runs_nonneg [Zero Elem] (ops : List (Op Elem)) (id : Int) :
    0 ≤ (runs ops).sequenceLength id :=
  Machine.run_invariant step (fun cache => ∀ id, 0 ≤ cache.sequenceLength id)
    (fun _ op nonneg => step_nonneg op nonneg) {} ops
    (fun id => Int.le_of_eq (uninitialized_length {} rfl id).symm) id

/-- The numbers a cache keeps are `int`s. -/
structure Ints (cache : PagedKVCache Elem) : Prop where
  size : cache.blockSize < 2147483648
  length : ∀ id, cache.sequenceLength id < 2147483648

theorem step_ints [Zero Elem] {cache : PagedKVCache Elem} (ints : cache.Ints) (owned : cache.Owned)
    (op : Op Elem) (isInt : op.IsInt) : (cache.step op).Ints := by
  constructor
  · cases op with
    | init layers heads dim size blocks =>
        have sizeInt := isInt.2.2.2.1
        simp only [step, apply, init]
        split
        · exact (by decide : 0 < 2147483648)
        · change size.toNat < 2147483648
          omega
    | reset => exact ints.size
    | ensureSequence i | reserveSequence i _ | setSequenceLength i _ | writeTokens i _ _ _ _ _
    | appendTokens i _ _ _ _ | freeSequence i =>
        have apart : i ≠ i + 1 := by omega
        have same := fun op : Op Elem => fun other : ¬ op.Concerns (i + 1) =>
          (step_untouched cache op (i + 1) owned other).blockSize
        rw [same _ (by exact apart)]
        exact ints.size
  · intro id
    rcases step_length_cases cache op id with same | none | ⟨length, _, rfl, set⟩ | ⟨sum, raised⟩
    · rw [same]
      exact ints.length id
    · rw [none]
      decide
    · rw [set]
      exact isInt
    · rw [raised]
      exact Int.max_lt.mpr ⟨ints.length id, wrap32_lt sum⟩

/-- The lengths a cache keeps are `int`s, whatever its calls. -/
theorem runs_ints [Zero Elem] (calls : List (Op Elem)) (isInt : ∀ op ∈ calls, op.IsInt) :
    (runs calls).Ints := by
  have rule := Machine.guarded_invariant step (fun _ op => op.IsInt)
    (fun cache : PagedKVCache Elem => cache.Ints ∧ cache.Owned)
    (fun cache op kept int => ⟨step_ints kept.1 kept.2 op int, step_owned cache op kept.2⟩) {} calls
    ⟨⟨(by decide : 0 < 2147483648), fun id => by rw [uninitialized_length _ rfl]; decide⟩, release_owned {}⟩
    (Machine.guarded_of_forall step Op.IsInt {} calls isInt)
  exact rule.1

end Lengths

section Steps

theorem Covered.extends {before after : PagedKVCache Elem} (covered : before.Covered)
    (extended : Extends before after)
    (lengths : ∀ id, after.sequenceLength id = before.sequenceLength id) : after.Covered := by
  intro id
  obtain ⟨suffix, same⟩ := extended.blocks id
  have more : ((before.sequence id).blocks.length : Int) * before.blockSize ≤
      (after.sequence id).blocks.length * before.blockSize := by
    rw [← same, List.length_append]
    exact Int.mul_le_mul_of_nonneg_right (by omega) (by omega)
  rw [lengths, extended.blockSize]
  exact Int.le_trans (covered id) more

theorem reserveSequence_covered {cache : PagedKVCache Elem} (covered : cache.Covered)
    (sequenceId totalTokens : Int) : (cache.reserveSequence sequenceId totalTokens).2.Covered :=
  covered.extends (reserveSequence_extends cache sequenceId totalTokens)
    (reserveSequence_lengths cache sequenceId totalTokens)

theorem modifyLength_covered_iff {cache : PagedKVCache Elem} (covered : cache.Covered)
    (sequenceId : Int) (f : Sequence → Sequence) (keeps : ∀ seq, (f seq).blocks = seq.blocks)
    (low : 0 ≤ sequenceId) (bound : sequenceId.toNat < cache.sequences.length) :
    (cache.modifySequence sequenceId f).Covered ↔
      (f (cache.sequence sequenceId)).length ≤
        (cache.sequence sequenceId).blocks.length * cache.blockSize := by
  have lengths := fun id => modifyLength_lengths cache sequenceId id f low bound
  have blocks : ∀ id, ((cache.modifySequence sequenceId f).sequence id).blocks =
      (cache.sequence id).blocks := by
    intro id
    rw [modifySequence_sequence cache sequenceId id f bound]
    split
    · exact keeps _
    · rfl
  constructor
  · intro after
    have own := after sequenceId
    rwa [lengths, if_pos rfl, blocks] at own
  · intro fits id
    rw [lengths, blocks]
    split
    · next same => rw [same]; exact fits
    · exact covered id

theorem writeTokens_covered {cache : PagedKVCache Elem} (covered : cache.Covered)
    (sequenceId layer startPos : Int) (k v : Option (Buffer Elem)) (tokenCount : Int)
    (startInt : startPos < 2147483648) (countInt : tokenCount < 2147483648) :
    (cache.writeTokens sequenceId layer startPos k v tokenCount).2.Covered := by
  rcases writeTokens_cases cache sequenceId layer startPos k v tokenCount with
    ⟨same, _⟩ | ⟨kb, vb, rfl, rfl, ⟨nonneg, some, low, high⟩, writes⟩
  · rwa [same]
  have reserved := reserveSequence_covered covered sequenceId (wrap32 (startPos + tokenCount))
  have frame := writeRows_frame
    (cache.reserveSequence sequenceId (wrap32 (startPos + tokenCount))).2 sequenceId layer startPos
    kb vb tokenCount.toNat
  have found := writeRows_found
    (cache.reserveSequence sequenceId (wrap32 (startPos + tokenCount))).2 sequenceId layer startPos
    kb vb tokenCount.toNat
  generalize cache.writeTokens sequenceId layer startPos (Option.some kb) (Option.some vb) tokenCount = result
    at writes
  cases writes with
  | noBlocks _ => exact reserved
  | stopped st after _ wrote =>
      rw [wrote] at frame
      dsimp only at frame
      rw [frame]
      exact reserved
  | written after fine wrote =>
      obtain ⟨ensured, total, _, _⟩ := reserveSequence_ok cache sequenceId _ fine
      obtain ⟨known, bound⟩ := reserveSequence_known cache sequenceId _ fine
      have ready := (ensureSequence_ok cache sequenceId ensured).1
      have extended := reserveSequence_extends cache sequenceId (wrap32 (startPos + tokenCount))
      have endPos := wrap32_add_nonneg startPos tokenCount nonneg (by omega) startInt countInt total
      have isInt := wrap32_lt (startPos + tokenCount)
      rw [endPos] at frame reserved found wrote bound extended isInt ⊢
      generalize (cache.reserveSequence sequenceId (startPos + tokenCount)).2 = base
        at frame reserved found wrote bound extended
      have positive : 0 < base.blockSize := by
        rw [extended.blockSize]
        simp [initialized] at ready
        exact ready.1
      -- The last row written bounds the length.
      obtain ⟨block, last⟩ := found (by rw [wrote]) (tokenCount.toNat - 1) (by omega)
      rw [wrap32_eq _ (by omega) (by omega)] at last
      have inside := physicalBlock_lt positive last
      rw [wrote] at frame
      dsimp only at frame
      have rows : after.Covered := by
        rw [frame]
        exact reserved
      have same : after.sequence sequenceId = base.sequence sequenceId := by
        rw [frame]
        rfl
      have size : after.blockSize = base.blockSize := by rw [frame]
      have inTable : sequenceId.toNat < after.sequences.length := by
        rw [frame]
        exact bound
      have before := rows sequenceId
      rw [sequenceLength_eq, if_pos known] at before
      refine (modifyLength_covered_iff rows sequenceId
        (fun seq => { seq with length := max seq.length (startPos + tokenCount) }) (fun _ => rfl)
        known inTable).mpr ?_
      refine Int.max_le.mpr ⟨before, ?_⟩
      rw [same, size]
      omega

/-- A new length fits the blocks the sequence has, or rounding it up to blocks
stays in `int`. -/
def Rounds (cache : PagedKVCache Elem) : Op Elem → Prop
  | .setSequenceLength id length => cache.initialized = true → 0 ≤ id →
      length ≤ (cache.sequence id).blocks.length * cache.blockSize ∨
        length + cache.blockSize ≤ 2147483648
  | _ => True

theorem setSequenceLength_covered_iff [Zero Elem] {cache : PagedKVCache Elem}
    (covered : cache.Covered) (sizeInt : cache.blockSize < 2147483648) (id length : Int)
    (isInt : length < 2147483648) :
    (cache.step (.setSequenceLength id length)).Covered ↔
      cache.Rounds (.setSequenceLength id length) := by
  change (cache.setSequenceLength id length).2.Covered ↔ _
  have reserved := reserveSequence_covered covered id length
  have needs := fun (ready : cache.initialized = true) nonneg count =>
    neededBlocks_le_iff cache length count (by simp [initialized] at ready; exact ready.1) (by omega)
      nonneg isInt
  have missing : cache.missingBlocks id length =
    cache.neededBlocks length - (cache.sequence id).blocks.length := rfl
  rcases setSequenceLength_cases cache id length with
    ⟨negative, _, same⟩ | ⟨nonneg, refused, same⟩ | ⟨nonneg, fine, same⟩
  · have room : (0 : Int) ≤ (cache.sequence id).blocks.length * cache.blockSize :=
      Int.mul_nonneg (by omega) (by omega)
    rw [same]
    exact ⟨fun _ _ _ => Or.inl (by omega), fun _ => covered⟩
  · rw [same]
    refine ⟨fun _ ready low => ?_, fun _ => reserved⟩
    by_contra excess
    have enough := (needs ready nonneg (cache.sequence id).blocks.length).mpr (Or.inr (by omega))
    have succeeds := reserveSequence_succeeds cache id length ready low nonneg (by omega)
    simp [succeeds] at refused
  · obtain ⟨ensured, _, _, _⟩ := reserveSequence_ok cache id length fine
    obtain ⟨known, bound⟩ := reserveSequence_known cache id length fine
    obtain ⟨table, size⟩ := reserveSequence_granted cache id length fine
    have extended := reserveSequence_extends cache id length
    have ready := (ensureSequence_ok cache id ensured).1
    rw [same, modifyLength_covered_iff reserved id (fun seq => { seq with length := length })
      (fun _ => rfl) known bound, table, size, extended.blockSize]
    dsimp only
    constructor
    · intro fits _ _
      by_cases excess : 2147483648 < length + cache.blockSize
      · have enough := (needs ready nonneg (cache.sequence id).blocks.length).mpr (Or.inr excess)
        left
        rwa [show max (cache.sequence id).blocks.length (cache.neededBlocks length).toNat =
          (cache.sequence id).blocks.length by omega] at fits
      · right
        omega
    · intro rounds
      have enough : cache.neededBlocks length ≤
          (max (cache.sequence id).blocks.length (cache.neededBlocks length).toNat : Nat) := by
        omega
      rcases (needs ready nonneg _).mp enough with fits | excess
      · exact fits
      · rcases rounds ready known with fits | inside
        · refine Int.le_trans fits (Int.mul_le_mul_of_nonneg_right ?_ (by omega))
          omega
        · omega

theorem empty_covered {cache : PagedKVCache Elem} (empty : cache.sequences = []) :
    cache.Covered := by
  intro id
  rw [uninitialized_length cache empty id]
  exact Int.mul_nonneg (by omega) (by omega)

theorem freeSequence_covered {cache : PagedKVCache Elem} (covered : cache.Covered)
    (sequenceId : Int) : (cache.freeSequence sequenceId).2.Covered := by
  intro id
  by_cases low : 0 ≤ id
  · have before := covered id
    rw [sequenceLength_eq, if_pos low] at before ⊢
    rw [freeSequence_sequence cache sequenceId id low, (freeSequence_geometry cache sequenceId).1]
    split
    · simp
    · exact before
  · rw [sequenceLength_eq, if_neg low]
    exact Int.mul_nonneg (by omega) (by omega)

theorem step_covered_iff [Zero Elem] {cache : PagedKVCache Elem} (covered : cache.Covered)
    (ints : cache.Ints) (op : Op Elem) (isInt : op.IsInt) :
    (cache.step op).Covered ↔ cache.Rounds op := by
  have always : (cache.step op).Covered → cache.Rounds op = True →
      ((cache.step op).Covered ↔ cache.Rounds op) := fun kept free => by simp [kept, free]
  cases op with
  | init layers heads dim size blocks =>
      refine always (empty_covered ?_) rfl
      change (cache.init layers heads dim size blocks).2.sequences = []
      unfold init
      dsimp only
      split <;> rfl
  | reset => exact always (empty_covered rfl) rfl
  | ensureSequence id =>
      refine always (covered.extends (ensureSequence_extends cache id) fun other => ?_) rfl
      change (cache.ensureSequence id).2.sequenceLength other = _
      rw [sequenceLength_eq, sequenceLength_eq, ensureSequence_sequence]
  | reserveSequence id total => exact always (reserveSequence_covered covered id total) rfl
  | setSequenceLength id length => exact setSequenceLength_covered_iff covered ints.size id length isInt
  | writeTokens id layer start k v count =>
      exact always (writeTokens_covered covered id layer start k v count isInt.1 isInt.2) rfl
  | appendTokens id layer k v count =>
      exact always (writeTokens_covered covered id layer _ k v count (ints.length id) isInt) rfl
  | freeSequence id => exact always (freeSequence_covered covered id) rfl

/-- Lengths at which rounding up to blocks stays in `int`. -/
def LengthsFit (cache : PagedKVCache Elem) : Prop :=
  ∀ id, cache.sequenceLength id + cache.blockSize < 2147483648

theorem lengthsFit_of_all {cache : PagedKVCache Elem} (size : cache.blockSize < 2147483648)
    (all : ∀ seq ∈ cache.sequences, seq.length + cache.blockSize < 2147483648) :
    cache.LengthsFit := by
  intro id
  unfold sequenceLength
  split
  · omega
  · next knows =>
      have bound : id.toNat < cache.sequences.length := by
        simp [known] at knows
        exact knows.2
      exact all _ (List.mem_of_getElem? (sequence_getElem? cache id bound))

/-- A call that leaves such lengths leaves them within the blocks. -/
theorem step_covered [Zero Elem] {cache : PagedKVCache Elem} (covered : cache.Covered)
    (ints : cache.Ints) (op : Op Elem) (isInt : op.IsInt) (fits : (cache.step op).LengthsFit) :
    (cache.step op).Covered := by
  refine (step_covered_iff covered ints op isInt).mpr ?_
  cases op with
  | setSequenceLength id length =>
      intro ready known
      simp only [step, apply] at fits
      rcases setSequenceLength_cases cache id length with
        ⟨negative, _, _⟩ | ⟨nonneg, refused, same⟩ | ⟨nonneg, fine, same⟩
      · have room : (0 : Int) ≤ (cache.sequence id).blocks.length * cache.blockSize :=
          Int.mul_nonneg (by omega) (by omega)
        exact Or.inl (by omega)
      · refine (step_covered_iff covered ints (.setSequenceLength id length) isInt).mp ?_ ready known
        simp only [step, apply]
        rw [same]
        exact reserveSequence_covered covered id length
      · have extended := reserveSequence_extends cache id length
        obtain ⟨_, bound⟩ := reserveSequence_known cache id length fine
        have own := fits id
        rw [same, modifyLength_lengths _ id id _ known bound, if_pos rfl] at own
        change length + ((cache.reserveSequence id length).2.blockSize : Int) < _ at own
        rw [extended.blockSize] at own
        exact Or.inr (by omega)
  | _ => trivial

end Steps

section Runs

variable [Zero Elem]

/-- Every position below a length has a physical block that the accessors find. -/
structure Addressable (cache : PagedKVCache Elem) : Prop where
  capacity : ∀ id table, cache.blockTable id = some table →
    cache.sequenceLength id ≤ table.length * cache.blockSize
  block : ∀ id pos : Int, 0 ≤ pos → pos < cache.sequenceLength id →
    ∃ block, cache.physicalBlockForPosition id pos = .ok block
  pointers : ∀ id layer pos head : Int, 0 ≤ layer → layer < cache.numLayers → 0 ≤ head →
    head < cache.numKvHeads → 0 ≤ pos → pos < cache.sequenceLength id →
    (∃ key, cache.keyPtr id layer pos head = .ok key) ∧
      ∃ value, cache.valuePtr id layer pos head = .ok value

omit [Zero Elem] in
theorem Covered.found {cache : PagedKVCache Elem} (covered : cache.Covered) {id pos : Int}
    (nonneg : 0 ≤ pos) (below : pos < cache.sequenceLength id) :
    ∃ block, cache.physicalBlockForPosition id pos = .ok block := by
  have knows : cache.known id = true := by
    by_contra unknown
    have none : cache.sequenceLength id = 0 := by simp [sequenceLength, unknown]
    omega
  have bounds : 0 ≤ id ∧ id.toNat < cache.sequences.length := by simpa [known] using knows
  have fits := covered id
  have positive : 0 < cache.blockSize := by
    by_contra zero
    have size : cache.blockSize = 0 := by omega
    rw [size] at fits
    simp at fits
    omega
  have logical : pos.toNat / cache.blockSize < (cache.sequence id).blocks.length := by
    rw [Nat.div_lt_iff_lt_mul positive]
    have product : ((cache.sequence id).blocks.length * cache.blockSize : Nat) =
      ((cache.sequence id).blocks.length : Int) * cache.blockSize := by push_cast; rfl
    omega
  exact ⟨_, (physicalBlock_ok_iff _ _ _ _).mpr
    ⟨bounds.1, bounds.2, nonneg, List.getElem?_eq_getElem logical⟩⟩

theorem covered_iff_addressable (cache : PagedKVCache Elem) :
    cache.Covered ↔ cache.Addressable := by
  constructor
  · intro covered
    refine ⟨fun id table found => ?_, fun id pos => covered.found, ?_⟩
    · unfold blockTable at found
      split at found
      · cases found
      · obtain rfl := Option.some.inj found
        exact covered id
    · intro id layer pos head layerLow layerHigh headLow headHigh nonneg below
      obtain ⟨block, place⟩ := covered.found nonneg below
      have inLayers : ¬ (layer < 0 ∨ layer ≥ cache.numLayers) := by omega
      have inHeads : ¬ (head < 0 ∨ head ≥ cache.numKvHeads) := by omega
      have inLength : ¬ (pos < 0 ∨ pos ≥ cache.sequenceLength id) := by omega
      have pointer : ∀ key, ∃ p, cache.tokenPtr key id layer pos head = .ok p := by
        intro key
        simp only [tokenPtr, inLayers, inHeads, inLength, if_false, place]
        exact ⟨_, rfl⟩
      exact ⟨pointer true, pointer false⟩
  · intro addressable id
    by_cases knows : cache.known id = true
    · exact addressable.capacity id _ (by simp [blockTable, knows])
    · have none : cache.sequenceLength id = 0 := by simp [sequenceLength, knows]
      rw [none]
      exact Int.mul_nonneg (by omega) (by omega)

theorem runs_covered (ops : List (Op Elem)) (isInt : ∀ op ∈ ops, op.IsInt)
    (rounds : Machine.Guarded step Rounds {} ops) :
    (runs ops).Covered ∧ (runs ops).Ints := by
  have ints := Machine.guarded_of_forall step Op.IsInt ({} : PagedKVCache Elem) ops isInt
  have rule := Machine.guarded_invariant step (fun cache op => op.IsInt ∧ cache.Rounds op)
    (fun cache => (cache.Covered ∧ cache.Ints) ∧ cache.Owned)
    (fun cache op kept guard => ⟨⟨(step_covered_iff kept.1.1 kept.1.2 op guard.1).mpr guard.2,
      step_ints kept.1.2 kept.2 op guard.1⟩, step_owned cache op kept.2⟩) {} ops
    ⟨⟨empty_covered rfl, (by decide : 0 < 2147483648), fun id => by rw [uninitialized_length _ rfl]; decide⟩,
      release_owned {}⟩ ((Machine.guarded_and step _ _ _ ops).mpr ⟨ints, rounds⟩)
  exact rule.1

/-- Along a run of calls with `int` arguments every position below a length stays
addressable exactly as long as each length set fits its blocks or rounds in `int`. -/
theorem length_within_capacity (ops : List (Op Elem)) (isInt : ∀ op ∈ ops, op.IsInt) :
    (∀ first rest, ops = first ++ rest → (runs first).Addressable) ↔
      Machine.Guarded step Rounds {} ops := by
  constructor
  · intro all
    rcases Machine.guarded_or_first step Rounds {} ops with
      rounds | ⟨first, op, rest, split, before, excess⟩
    · exact rounds
    have inside : ∀ other ∈ first, other.IsInt := fun other member =>
      isInt other (by rw [split]; exact List.mem_append_left _ member)
    obtain ⟨covered, ints⟩ := runs_covered first inside before
    have after := all (first ++ [op]) rest (by simp [split])
    rw [← covered_iff_addressable, runs, Machine.run_append] at after
    exact absurd ((step_covered_iff covered ints op (isInt op (by simp [split]))).mp after) excess
  · intro rounds first rest split
    rw [← covered_iff_addressable]
    refine (runs_covered first (fun op member => isInt op ?_) ?_).1
    · rw [split]
      exact List.mem_append_left _ member
    · rw [split, Machine.guarded_append] at rounds
      exact rounds.1

-- Two blocks of two tokens; the run fills them and one more call fails.
def filled : List (Op Nat) :=
  [.init 1 1 1 2 2, .setSequenceLength 0 3, .appendTokens 0 0 (some id) (some id) 1,
    .reserveSequence 1 1]

theorem length_within_capacity_filled :
    (∀ first rest, filled = first ++ rest → (runs first).Addressable) ↔
      Machine.Guarded step Rounds {} filled :=
  length_within_capacity filled (by simp [filled, Op.IsInt])

/-- The largest length is accepted without a block. -/
theorem longest_length_unbacked :
    (∀ op ∈ ([.init 1 1 1 2 1, .setSequenceLength 0 2147483647] : List (Op Nat)), op.IsInt) ∧
      ((runs [.init 1 1 1 2 1] : PagedKVCache Nat).setSequenceLength 0 2147483647).1 = .makeOk ∧
      (runs ([.init 1 1 1 2 1, .setSequenceLength 0 2147483647] : List (Op Nat))).blockTable 0 =
        some [] ∧
      ¬ (runs ([.init 1 1 1 2 1, .setSequenceLength 0 2147483647] : List (Op Nat))).Addressable := by
  refine ⟨by simp [Op.IsInt], by decide, by decide, fun addressable => ?_⟩
  have fits := addressable.capacity 0 [] (by decide)
  exact absurd fits (by decide)

end Runs

end MiniLLM.PagedKVCache
