import MiniLLM.AdmissionControl
import MiniLLM.ReadAfterWrite

/-!
One sequence of the paged cache on its own. `Tenancy` is what the calls of a
sequence make of the cache by themselves: a length, a number of blocks and the
rows written, with zeros wherever nothing was written. A call on another
sequence leaves the table of this one and every row in it untouched.
-/

namespace MiniLLM

namespace PagedKVCache

open Loops

variable {Elem : Type}

structure Tenancy (Elem : Type) where
  numLayers : Nat := 0
  numKvHeads : Nat := 0
  headDim : Nat := 0
  blockSize : Nat := 0
  maxBlocks : Nat := 0
  length : Int := 0
  blocks : Nat := 0
  row : Int → Int → Option (Buffer Elem × Buffer Elem) := fun _ _ => none

namespace Tenancy

def kvHidden (t : Tenancy Elem) : Nat := t.numKvHeads * t.headDim

def neededBlocks (t : Tenancy Elem) (totalTokens : Int) : Int :=
  if totalTokens = 0 then 0 else ceilDivInt totalTokens t.blockSize

def reserve (t : Tenancy Elem) (totalTokens : Int) : Tenancy Elem :=
  { t with blocks := max t.blocks (t.neededBlocks totalTokens).toNat }

/-- The cells a write covers: a row without a block is not stored. -/
def Covered (t : Tenancy Elem) (layer startPos tokenCount l pos : Int) : Prop :=
  l = layer ∧ startPos ≤ pos ∧ pos < startPos + tokenCount ∧ pos.toNat / t.blockSize < t.blocks

instance (t : Tenancy Elem) (layer startPos tokenCount l pos : Int) :
    Decidable (t.Covered layer startPos tokenCount l pos) := inferInstanceAs (Decidable (_ ∧ _))

def store (t : Tenancy Elem) (layer startPos : Int) (k v : Buffer Elem) (tokenCount : Int) :
    Tenancy Elem :=
  { t with
    row := fun l pos =>
      if t.Covered layer startPos tokenCount l pos then
        some (fun j => k ((pos - startPos).toNat * t.kvHidden + j),
          fun j => v ((pos - startPos).toNat * t.kvHidden + j))
      else t.row l pos }

/-- A write whose reservation succeeds stores rows even when it fails later. -/
def write (t : Tenancy Elem) (layer startPos : Int) (k v : Option (Buffer Elem))
    (tokenCount : Int) (ok : Bool) : Tenancy Elem :=
  match k, v with
  | some k, some v =>
      if startPos < 0 ∨ tokenCount ≤ 0 ∨ layer < 0 ∨ layer ≥ t.numLayers then t
      else
        let endPos := wrap32 (startPos + tokenCount)
        if ok = true ∨ (0 ≤ endPos ∧ t.neededBlocks endPos ≤ t.blocks) then
          { (t.reserve endPos).store layer startPos k v tokenCount with
            length := if ok then max t.length endPos else t.length }
        else t
  | _, _ => t

/-- The update a call of the sequence stands for, given whether it succeeded. -/
def after (t : Tenancy Elem) (op : Op Elem) (ok : Bool) : Tenancy Elem :=
  match op with
  | .init layers heads dim size blocks =>
      if ok then
        { numLayers := layers.toNat, numKvHeads := heads.toNat, headDim := dim.toNat
          blockSize := size.toNat, maxBlocks := blocks.toNat }
      else {}
  | .reset => { t with length := 0, blocks := 0, row := fun _ _ => none }
  | .ensureSequence _ => t
  | .reserveSequence _ total => if ok then t.reserve total else t
  | .setSequenceLength _ length => if ok then { t.reserve length with length := length } else t
  | .writeTokens _ layer start k v count => t.write layer start k v count ok
  | .appendTokens _ layer k v count => t.write layer t.length k v count ok
  | .freeSequence _ => { t with length := 0, blocks := 0, row := fun _ _ => none }

/-- What `token_ptr` returns where only this sequence has ever been stored. -/
def tokenPtr [Zero Elem] (t : Tenancy Elem) (key : Bool) (layer tokenPos kvHead : Int) :
    Except Status (Buffer Elem) :=
  if layer < 0 ∨ layer ≥ t.numLayers then
    .error (.outOfRange "layer index out of range")
  else if kvHead < 0 ∨ kvHead ≥ t.numKvHeads then
    .error (.outOfRange "KV head index out of range")
  else if tokenPos < 0 ∨ tokenPos ≥ t.length then
    .error (.outOfRange "token position outside sequence length")
  else if t.blocks ≤ tokenPos.toNat / t.blockSize then
    .error (.outOfRange "token position outside block table")
  else
    let rows := (t.row layer tokenPos).getD (fun _ => 0, fun _ => 0)
    .ok fun d => (if key then rows.1 else rows.2) (kvHead.toNat * t.headDim + d)

end Tenancy

/-- `init` and `reset` concern every sequence, the other calls the one they name. -/
def Op.Concerns (id : Int) : Op Elem → Prop
  | .init _ _ _ _ _ => True
  | .reset => True
  | .ensureSequence i => i = id
  | .reserveSequence i _ => i = id
  | .setSequenceLength i _ => i = id
  | .writeTokens i _ _ _ _ _ => i = id
  | .appendTokens i _ _ _ _ => i = id
  | .freeSequence i => i = id

instance (id : Int) : (op : Op Elem) → Decidable (op.Concerns id)
  | .init _ _ _ _ _ | .reset => inferInstanceAs (Decidable True)
  | .ensureSequence i | .reserveSequence i _ | .setSequenceLength i _
  | .writeTokens i _ _ _ _ _ | .appendTokens i _ _ _ _ | .freeSequence i =>
      inferInstanceAs (Decidable (i = id))

-- No argument of a call exceeds an `int`.
def Op.IsInt : Op Elem → Prop
  | .init layers heads dim size blocks => layers < 2147483648 ∧ heads < 2147483648 ∧
      dim < 2147483648 ∧ size < 2147483648 ∧ blocks < 2147483648
  | .reserveSequence _ total => total < 2147483648
  | .setSequenceLength _ length => length < 2147483648
  | .writeTokens _ _ start _ _ count => start < 2147483648 ∧ count < 2147483648
  | .appendTokens _ _ _ _ count => count < 2147483648
  | _ => True

section History

variable [Zero Elem]

/-- The calls of a run that concern one sequence, each with whether it succeeded. -/
def historyFrom (id : Int) : PagedKVCache Elem → List (Op Elem) → List (Op Elem × Bool)
  | _, [] => []
  | cache, op :: rest =>
      (if op.Concerns id then [(op, (cache.apply op).1.isOk)] else []) ++
        historyFrom id (cache.step op) rest

def history (id : Int) (ops : List (Op Elem)) : List (Op Elem × Bool) := historyFrom id {} ops

def Tenancy.of (calls : List (Op Elem × Bool)) : Tenancy Elem :=
  calls.foldl (fun t call => t.after call.1 call.2) {}

/-- The cache beside the tenancies of all its sequences, one call later. -/
def tenantStep (state : PagedKVCache Elem × (Int → Tenancy Elem)) (op : Op Elem) :
    PagedKVCache Elem × (Int → Tenancy Elem) :=
  (state.1.step op, fun id =>
    if op.Concerns id then (state.2 id).after op (state.1.apply op).1.isOk else state.2 id)

theorem tenancy_history (id : Int) (ops : List (Op Elem)) :
    (Machine.run tenantStep ({}, fun _ => {}) ops).2 id = Tenancy.of (history id ops) := by
  have rule : ∀ (ops : List (Op Elem)) (state : PagedKVCache Elem × (Int → Tenancy Elem)),
      (Machine.run tenantStep state ops).2 id =
        (historyFrom id state.1 ops).foldl (fun t call => t.after call.1 call.2) (state.2 id) := by
    intro ops
    induction ops with
    | nil => intro state; rfl
    | cons op rest ih =>
        intro state
        rw [Machine.run, ih, historyFrom, List.foldl_append]
        by_cases concerned : op.Concerns id
        · simp [tenantStep, concerned]
        · simp [tenantStep, concerned]
  exact rule ops _

theorem tenant_cache (ops : List (Op Elem)) :
    (Machine.run tenantStep ({}, fun _ => {}) ops).1 = runs ops :=
  Machine.run_project Prod.fst tenantStep step (fun _ _ => rfl) ({}, fun _ => {}) ops

end History

/-- The sequence a call reserves for, and up to which position. -/
def Op.demand (cache : PagedKVCache Elem) : Op Elem → Option (Int × Int)
  | .reserveSequence id total => some (id, total)
  | .setSequenceLength id length => some (id, length)
  | .writeTokens id _ start _ _ count =>
      if count = 0 then none else some (id, wrap32 (start + count))
  | .appendTokens id _ _ _ count =>
      if count = 0 then none else some (id, wrap32 (cache.sequenceLength id + count))
  | _ => none

/-- The block table of a sequence once a reservation has been met. -/
def granted (cache : PagedKVCache Elem) (sequenceId totalTokens : Int) : List Nat :=
  (cache.sequence sequenceId).blocks ++
    cache.freeBlocks.reverse.take (cache.missingBlocks sequenceId totalTokens).toNat

/-- Every position counted in the length and not written in some layer has zeros
in the storage the sequence is granted for it. -/
def ZeroFilled [Zero Elem] (cache : PagedKVCache Elem) (id total : Int) (later : Tenancy Elem) :
    Prop :=
  ∀ (layer pos : Int) (block : Nat), 0 ≤ layer → layer < cache.numLayers → 0 ≤ pos →
    pos < later.length → later.row layer pos = none →
    (cache.granted id total)[pos.toNat / cache.blockSize]? = some block →
    ∀ key, ∀ j < cache.kvHidden, cache.storage key layer (cache.rowIndex block pos + j) = 0

/-- A call that succeeds leaves no position of its sequence readable whose storage
holds rows of somebody else. -/
def Clean [Zero Elem] (state : PagedKVCache Elem × (Int → Tenancy Elem)) (op : Op Elem) : Prop :=
  ∀ id total, op.demand state.1 = some (id, total) → (state.1.apply op).1.isOk = true →
    state.1.ZeroFilled id total ((state.2 id).after op true)

section Frame

variable [Zero Elem]

/-- What a call on other sequences leaves of one: its table, and every row in it. -/
structure Untouched (id : Int) (before after : PagedKVCache Elem) : Prop
    extends SameShape before after where
  sequence : 0 ≤ id → after.sequence id = before.sequence id
  rows : 0 ≤ id → ∀ l pos rows block, before.Holds id l pos rows block →
    after.Holds id l pos rows block

theorem Untouched.refl (id : Int) (cache : PagedKVCache Elem) : Untouched id cache cache :=
  ⟨⟨rfl, rfl, rfl, rfl, rfl⟩, fun _ => rfl, fun _ _ _ _ _ held => held⟩

theorem Untouched.trans {id : Int} {a b c : PagedKVCache Elem} (first : Untouched id a b)
    (second : Untouched id b c) : Untouched id a c :=
  ⟨first.toSameShape.trans second.toSameShape,
    fun low => (second.sequence low).trans (first.sequence low),
    fun low l pos rows block held => second.rows low l pos rows block
      (first.rows low l pos rows block held)⟩

theorem Extends.untouched {id : Int} {before after : PagedKVCache Elem}
    (extended : Extends before after)
    (same : 0 ≤ id → after.sequence id = before.sequence id) : Untouched id before after :=
  ⟨extended.sameShape, same, fun _ _ _ _ _ held => held.extends extended⟩

theorem reserveSequence_untouched (cache : PagedKVCache Elem) (sequenceId total id : Int)
    (apart : sequenceId ≠ id) :
    Untouched id cache (cache.reserveSequence sequenceId total).2 :=
  (reserveSequence_extends cache sequenceId total).untouched fun low =>
    reserveSequence_others cache sequenceId id total low (Ne.symm apart)

theorem modifyLength_untouched (cache : PagedKVCache Elem) (sequenceId id : Int)
    (f : Sequence → Sequence) (keeps : ∀ seq, (f seq).blocks = seq.blocks) (low : 0 ≤ sequenceId)
    (bound : sequenceId.toNat < cache.sequences.length) (apart : sequenceId ≠ id) :
    Untouched id cache (cache.modifySequence sequenceId f) :=
  (modifyLength_extends cache sequenceId f keeps bound).untouched fun nonneg => by
    rw [modifySequence_sequence cache sequenceId id f bound, if_neg (by omega)]

/-- A row write keeps the rows of all other cells, whether it finds its block or not. -/
theorem writeRow_holds (cache : PagedKVCache Elem) (sequenceId layer startPos : Int)
    (k v : Buffer Elem) (t : Nat) (owned : cache.Owned) (low : 0 ≤ layer)
    (high : layer < cache.numLayers) {id l pos : Int} {rows : Buffer Elem × Buffer Elem}
    {block : Nat} (held : cache.Holds id l pos rows block)
    (apart : ¬ (id = sequenceId ∧ l = layer ∧ pos = wrap32 (startPos + t))) :
    (writeRow sequenceId layer startPos k v t cache).2.Holds id l pos rows block := by
  have inside : ¬ (layer < 0 ∨ layer ≥ cache.numLayers) := by omega
  cases found : cache.physicalBlockForPosition sequenceId (wrap32 (startPos + t)) with
  | error st => simpa only [writeRow, mutableTokenPtr, inside, if_false, found] using held
  | ok home =>
      simp only [writeRow, mutableTokenPtr, inside, if_false, found]
      exact putRow_holds_other cache sequenceId layer (wrap32 (startPos + t)) home
        (fun j => k (t * cache.kvHidden + j), fun j => v (t * cache.kvHidden + j)) owned low high
        found held apart

theorem writeRow_untouched (cache : PagedKVCache Elem) (sequenceId layer startPos : Int)
    (k v : Buffer Elem) (t : Nat) (id : Int) (owned : cache.Owned) (low : 0 ≤ layer)
    (high : layer < cache.numLayers) (apart : sequenceId ≠ id) :
    Untouched id cache (writeRow sequenceId layer startPos k v t cache).2 := by
  have frame := writeRow_frame cache sequenceId layer startPos k v t
  refine ⟨⟨writeRow_numLayers cache sequenceId layer startPos k v t, by rw [frame], by rw [frame],
    by rw [frame], by rw [frame]⟩, fun _ => by rw [frame]; rfl, fun _ l pos rows block held => ?_⟩
  exact writeRow_holds cache sequenceId layer startPos k v t owned low high held
    fun same => apart same.1.symm

theorem writeRows_untouched (cache : PagedKVCache Elem) (sequenceId layer startPos : Int)
    (k v : Buffer Elem) (count : Nat) (id : Int) (owned : cache.Owned) (low : 0 ≤ layer)
    (high : layer < cache.numLayers) (apart : sequenceId ≠ id) :
    Untouched id cache (cache.writeRows sequenceId layer startPos k v count).2 := by
  have rule := loopTry_preserves
    (fun c => c = { cache with layers := c.layers } ∧ Untouched id cache c)
    count (writeRow sequenceId layer startPos k v) cache ⟨rfl, Untouched.refl id cache⟩ (by
      rintro i c _ ⟨frame, same⟩
      have ownedC : c.Owned := by rw [frame]; exact owned.congr rfl rfl rfl rfl
      refine ⟨?_, same.trans (writeRow_untouched c sequenceId layer startPos k v i id ownedC low
        (by rw [same.numLayers]; exact high) apart)⟩
      rw [writeRow_frame, frame])
  exact rule.2

theorem writeTokens_untouched (cache : PagedKVCache Elem) (sequenceId layer startPos : Int)
    (k v : Option (Buffer Elem)) (tokenCount id : Int) (owned : cache.Owned)
    (apart : sequenceId ≠ id) :
    Untouched id cache (cache.writeTokens sequenceId layer startPos k v tokenCount).2 := by
  rcases writeTokens_cases cache sequenceId layer startPos k v tokenCount with
    ⟨same, _⟩ | ⟨kb, vb, _, _, ⟨_, _, low, high⟩, writes⟩
  · rw [same]
    exact Untouched.refl id cache
  · have reserved := reserveSequence_untouched cache sequenceId (wrap32 (startPos + tokenCount)) id
      apart
    have knows := reserveSequence_known cache sequenceId (wrap32 (startPos + tokenCount))
    have rows := writeRows_untouched _ sequenceId layer startPos kb vb tokenCount.toNat id
      (reserveSequence_owned cache sequenceId (wrap32 (startPos + tokenCount)) owned) low
      (by rw [reserved.numLayers]; exact high) apart
    have frame := writeRows_frame (cache.reserveSequence sequenceId
      (wrap32 (startPos + tokenCount))).2 sequenceId layer startPos kb vb tokenCount.toNat
    generalize cache.writeTokens sequenceId layer startPos k v tokenCount = result at writes
    cases writes with
    | noBlocks _ => exact reserved
    | stopped st after _ wrote =>
        rw [wrote] at rows
        exact reserved.trans rows
    | written after fine wrote =>
        rw [wrote] at rows frame
        obtain ⟨low, bound⟩ := knows fine
        dsimp only at frame
        refine reserved.trans (rows.trans
          (modifyLength_untouched after sequenceId id _ (fun _ => rfl) low ?_ apart))
        rw [frame]
        exact bound

theorem freeSequence_untouched (cache : PagedKVCache Elem) (sequenceId id : Int)
    (apart : sequenceId ≠ id) : Untouched id cache (cache.freeSequence sequenceId).2 := by
  have sequence := fun low : 0 ≤ id => (freeSequence_sequence cache sequenceId id low).trans
    (if_neg (Ne.symm apart))
  obtain ⟨free, used, seqs, frame, size⟩ : ∃ free used seqs, (cache.freeSequence sequenceId).2 =
      { cache with freeBlocks := free, blockUsed := used, sequences := seqs } ∧
        seqs.length = cache.sequences.length := by
    unfold freeSequence
    split
    · exact ⟨_, _, _, rfl, rfl⟩
    · obtain ⟨free, used, frame⟩ := freeBlocks_frame (cache.sequence sequenceId).blocks cache
      dsimp only
      rw [frame]
      exact ⟨_, _, _, rfl, by simp⟩
  rw [frame] at sequence ⊢
  refine ⟨⟨rfl, rfl, rfl, rfl, rfl⟩, sequence, ?_⟩
  intro low l pos rows block held
  obtain ⟨_, bound, nonneg, entry⟩ := (physicalBlock_ok_iff _ _ _ _).mp held.found
  refine ⟨held.positive, held.low, held.high, (physicalBlock_ok_iff _ _ _ _).mpr
    ⟨low, ?_, nonneg, ?_⟩, held.key, held.value⟩
  · rw [size]
    exact bound
  · rw [sequence low]
    exact entry

/-- A call that does not concern a sequence leaves it alone. -/
theorem step_untouched (cache : PagedKVCache Elem) (op : Op Elem) (id : Int) (owned : cache.Owned)
    (other : ¬ op.Concerns id) : Untouched id cache (cache.step op) := by
  cases op with
  | init | reset => exact absurd trivial other
  | ensureSequence i =>
      exact (ensureSequence_extends cache i).untouched fun _ => ensureSequence_sequence cache i id
  | reserveSequence i total => exact reserveSequence_untouched cache i total id other
  | setSequenceLength i length =>
      have reserved := reserveSequence_untouched cache i length id other
      have knows := reserveSequence_known cache i length
      change Untouched id cache (cache.setSequenceLength i length).2
      unfold setSequenceLength
      split
      · exact Untouched.refl id cache
      · dsimp only
        split
        · exact reserved
        · next fine =>
            obtain ⟨low, bound⟩ := knows (by simpa using fine)
            exact reserved.trans (modifyLength_untouched _ i id
              (fun seq => { seq with length := length }) (fun _ => rfl) low bound other)
  | writeTokens i layer start k v count =>
      exact writeTokens_untouched cache i layer start k v count id owned other
  | appendTokens i layer k v count =>
      exact writeTokens_untouched cache i layer _ k v count id owned other
  | freeSequence i => exact freeSequence_untouched cache i id other

/-- Only `init` gives a cache another shape. -/
theorem step_shape (cache : PagedKVCache Elem) (op : Op Elem) (owned : cache.Owned) :
    SameShape cache (cache.step op) ∨
      ∃ layers heads dim size blocks, op = .init layers heads dim size blocks := by
  cases op with
  | init layers heads dim size blocks => exact Or.inr ⟨layers, heads, dim, size, blocks, rfl⟩
  | reset => exact Or.inl ⟨by simp [step, apply, reset, numLayers], rfl, rfl, rfl, rfl⟩
  | ensureSequence id | reserveSequence id _ | setSequenceLength id _ | freeSequence id
  | writeTokens id _ _ _ _ _ | appendTokens id _ _ _ _ =>
      refine Or.inl (step_untouched cache _ (id + 1) owned fun same => ?_).toSameShape
      simp only [Op.Concerns] at same
      omega

theorem step_rowFits {cache : PagedKVCache Elem} (op : Op Elem) (owned : cache.Owned)
    (bounds : op.Bounded) (fits : cache.RowFits) : (cache.step op).RowFits := by
  rcases step_shape cache op owned with shape | ⟨layers, heads, dim, size, blocks, rfl⟩
  · exact fits.of_shape shape
  · change (cache.init layers heads dim size blocks).2.RowFits
    unfold init
    dsimp only
    split
    · exact release_rowFits cache
    · exact rowFloats_fit (bounds (by omega)).1 (by omega) (by omega)

theorem runs_rowFits (ops : List (Op Elem)) (bounds : ∀ op ∈ ops, op.Bounded) :
    (runs ops).RowFits :=
  (Machine.guarded_invariant step (fun _ op => op.Bounded)
    (fun cache => cache.Owned ∧ cache.RowFits)
    (fun cache op kept bounds => ⟨step_owned cache op kept.1, step_rowFits op kept.1 bounds kept.2⟩)
    {} ops ⟨release_owned {}, release_rowFits {}⟩
    (Machine.guarded_of_forall step Op.Bounded {} ops bounds)).2

end Frame

end PagedKVCache

end MiniLLM
