import MiniLLM.TenancySteps
import MiniLLM.RuntimeContext

/-!
Two runs of the paged cache that agree on one sequence. Each sequence is shown
its tenancy along a run exactly when no call hands it storage in which rows of
another sequence are still to be seen; runs that agree on the calls of one
sequence then show it the same rows.
-/

namespace MiniLLM

namespace PagedKVCache

open Loops

variable {Elem : Type}

section Exactness

variable [Zero Elem]

/-- A write loop keeps the rows it does not cover. -/
theorem writeRows_elsewhere (cache : PagedKVCache Elem) (id layer startPos : Int)
    (k v : Buffer Elem) (count : Nat) (owned : cache.Owned) (low : 0 ≤ layer)
    (high : layer < cache.numLayers) (nonneg : 0 ≤ startPos) (fits : startPos + count < 2147483648)
    {l pos : Int} {rows : Buffer Elem × Buffer Elem} {block : Nat}
    (held : cache.Holds id l pos rows block)
    (outside : ¬ (l = layer ∧ startPos ≤ pos ∧ pos < startPos + count)) :
    (cache.writeRows id layer startPos k v count).2.Holds id l pos rows block := by
  have rule := loopTry_invariant
    (fun _ c => c = { cache with layers := c.layers } ∧ c.numLayers = cache.numLayers ∧
      c.Holds id l pos rows block)
    (fun _ c => c = { cache with layers := c.layers } ∧ c.numLayers = cache.numLayers ∧
      c.Holds id l pos rows block)
    count (writeRow id layer startPos k v) cache ⟨rfl, rfl, held⟩ (by
      rintro i c below ⟨frame, size, stays⟩
      have ownedC : c.Owned := by rw [frame]; exact owned.congr rfl rfl rfl rfl
      have other := writeRow_untouched c id layer startPos k v i (id + 1) ownedC low
        (by rw [size]; exact high) (by omega)
      refine (ends_iff _ _).mpr ⟨by rw [writeRow_frame, frame], other.numLayers.trans size, ?_⟩
      refine writeRow_holds c id layer startPos k v i ownedC low (by rw [size]; exact high) stays ?_
      rintro ⟨_, sameLayer, place⟩
      rw [wrap32_eq _ (by omega) (by omega)] at place
      exact outside ⟨sameLayer, by omega, by omega⟩)
  exact ((ends_iff _ _).mp rule).2.2

/-- A write keeps what the storage of a granted cell held, if it does not cover it. -/
theorem Tenanted.writes_elsewhere {cache : PagedKVCache Elem} {id layer startPos tokenCount : Int}
    {t : Tenancy Elem} (tenant : cache.Tenanted id t) (owned : cache.Owned)
    (k v : Option (Buffer Elem)) (startInt : startPos < 2147483648)
    (countInt : tokenCount < 2147483648) (nonempty : tokenCount ≠ 0)
    (ok : (cache.writeTokens id layer startPos k v tokenCount).1.isOk = true)
    {l pos : Int} {block : Nat} (low : 0 ≤ l) (high : l < cache.numLayers) (nonneg : 0 ≤ pos)
    (unwritten : (t.write layer startPos k v tokenCount true).row l pos = none)
    (place : (cache.granted id (wrap32 (startPos + tokenCount)))[pos.toNat / cache.blockSize]? =
      some block) :
    (cache.writeTokens id layer startPos k v tokenCount).2.Holds id l pos
      (fun j => cache.storage true l (cache.rowIndex block pos + j),
        fun j => cache.storage false l (cache.rowIndex block pos + j)) block := by
  rcases writeTokens_cases cache id layer startPos k v tokenCount with
    ⟨_, idle⟩ | ⟨kb, vb, rfl, rfl, accepts, writes⟩
  · exact absurd (idle ok) nonempty
  generalize cache.writeTokens id layer startPos (some kb) (some vb) tokenCount = result
    at writes ok
  have ⟨startLow, positive, layerLow, layerHigh⟩ := accepts
  cases writes with
  | noBlocks bad => rw [bad] at ok; cases ok
  | stopped st after _ wrote =>
      rw [writeRows_error _ id layer startPos kb vb tokenCount.toNat wrote] at ok
      cases ok
  | written after fine wrote =>
      have ends := wrap32_add_nonneg startPos tokenCount startLow (by omega) startInt countInt
        (reserveSequence_ok cache id _ fine).2.1
      have highest := wrap32_lt (startPos + tokenCount)
      rw [ends] at fine wrote place highest
      have held := granted_holds cache fine low high nonneg place
      have extended := reserveSequence_extends cache id (startPos + tokenCount)
      obtain ⟨_, known, bound, _⟩ := tenant.stored owned kb vb accepts fine (congrArg Prod.snd wrote)
      have outside : ¬ (l = layer ∧ startPos ≤ pos ∧ pos < startPos + tokenCount.toNat) := by
        rintro ⟨sameLayer, after, before⟩
        have covered : (t.reserve (startPos + tokenCount)).Covered layer startPos tokenCount l pos := by
          have inside := (List.getElem?_eq_some_iff.mp place).1
          rw [(reserveSequence_granted cache id _ fine).2, ← tenant.blocks known, ← tenant.needed,
            ← tenant.blockSize] at inside
          exact ⟨sameLayer, after, by omega, inside⟩
        rw [Tenancy.write, if_neg (by rw [tenant.layers]; omega), if_pos (Or.inl rfl), ends]
          at unwritten
        simp [Tenancy.store, covered] at unwritten
      have stays := writeRows_elsewhere _ id layer startPos kb vb tokenCount.toNat
        (reserveSequence_owned cache id _ owned) layerLow
        (by rw [numLayers, extended.layers]; exact layerHigh) startLow (by omega) held outside
      rw [wrote] at stays
      exact stays.extends (modifyLength_extends after id
        (fun seq => { seq with length := max seq.length (wrap32 (startPos + tokenCount)) })
        (fun _ => rfl) bound)

/-- A call that succeeds leaves every granted cell it does not write as it was. -/
theorem Tenanted.demand_keeps {cache : PagedKVCache Elem} {id total : Int} {t : Tenancy Elem}
    (tenant : cache.Tenanted id t) (owned : cache.Owned) (op : Op Elem) (isInt : op.IsInt)
    (demand : op.demand cache = some (id, total)) (ok : (cache.apply op).1.isOk = true)
    {layer pos : Int} {block : Nat} (low : 0 ≤ layer) (high : layer < cache.numLayers)
    (nonneg : 0 ≤ pos) (unwritten : (t.after op true).row layer pos = none)
    (place : (cache.granted id total)[pos.toNat / cache.blockSize]? = some block) :
    (cache.step op).Holds id layer pos
      (fun j => cache.storage true layer (cache.rowIndex block pos + j),
        fun j => cache.storage false layer (cache.rowIndex block pos + j)) block := by
  cases op with
  | init | reset | ensureSequence | freeSequence => simp [Op.demand] at demand
  | reserveSequence i total' =>
      obtain ⟨rfl, rfl⟩ := Prod.mk.inj (Option.some.inj demand)
      exact granted_holds cache ok low high nonneg place
  | setSequenceLength i length =>
      obtain ⟨rfl, rfl⟩ := Prod.mk.inj (Option.some.inj demand)
      change (cache.setSequenceLength i length).1.isOk = true at ok
      change (cache.setSequenceLength i length).2.Holds i layer pos _ block
      unfold setSequenceLength at ok ⊢
      by_cases negative : length < 0
      · simp [negative] at ok
      simp only [negative, if_false] at ok ⊢
      cases fine : (cache.reserveSequence i length).1.isOk with
      | false => simp [fine] at ok
      | true =>
          obtain ⟨_, bound⟩ := reserveSequence_known cache i length fine
          exact (granted_holds cache fine low high nonneg place).extends
            (modifyLength_extends _ i (fun seq => { seq with length := length }) (fun _ => rfl) bound)
  | writeTokens i l start k v count =>
      by_cases none : count = 0
      · simp [Op.demand, none] at demand
      · rw [Op.demand, if_neg none] at demand
        obtain ⟨rfl, rfl⟩ := Prod.mk.inj (Option.some.inj demand)
        exact tenant.writes_elsewhere owned k v isInt.1 isInt.2 none ok low high nonneg unwritten place
  | appendTokens i l k v count =>
      by_cases none : count = 0
      · simp [Op.demand, none] at demand
      · rw [Op.demand, if_neg none] at demand
        obtain ⟨rfl, rfl⟩ := Prod.mk.inj (Option.some.inj demand)
        have sameStart := tenant.length
        have startInt := tenant.lengthInt
        rw [Tenancy.after, sameStart] at unwritten
        rw [sameStart] at startInt
        exact tenant.writes_elsewhere owned k v startInt isInt none ok low high nonneg unwritten place

omit [Zero Elem] in
theorem writeTokens_reserved (cache : PagedKVCache Elem) (id layer startPos : Int)
    (k v : Option (Buffer Elem)) {tokenCount : Int} (nonempty : tokenCount ≠ 0)
    (ok : (cache.writeTokens id layer startPos k v tokenCount).1.isOk = true) :
    (cache.reserveSequence id (wrap32 (startPos + tokenCount))).1.isOk = true := by
  rcases writeTokens_cases cache id layer startPos k v tokenCount with
    ⟨_, idle⟩ | ⟨kb, vb, rfl, rfl, _, writes⟩
  · exact absurd (idle ok) nonempty
  · generalize cache.writeTokens id layer startPos (some kb) (some vb) tokenCount = result
      at writes ok
    cases writes with
    | noBlocks bad => rw [bad] at ok; cases ok
    | stopped _ _ fine _ => exact fine
    | written _ fine _ => exact fine

/-- A call that succeeds has made the reservation it demands. -/
theorem demand_reserved (cache : PagedKVCache Elem) {id total : Int} (op : Op Elem)
    (demand : op.demand cache = some (id, total)) (ok : (cache.apply op).1.isOk = true) :
    (cache.reserveSequence id total).1.isOk = true := by
  cases op with
  | init | reset | ensureSequence | freeSequence => simp [Op.demand] at demand
  | reserveSequence i total' =>
      obtain ⟨rfl, rfl⟩ := Prod.mk.inj (Option.some.inj demand)
      exact ok
  | setSequenceLength i length =>
      obtain ⟨rfl, rfl⟩ := Prod.mk.inj (Option.some.inj demand)
      change (cache.setSequenceLength i length).1.isOk = true at ok
      by_contra no
      have bad : (cache.reserveSequence i length).1.isOk = false := by simpa using no
      simp only [setSequenceLength, bad] at ok
      split at ok
      · cases ok
      · exact no ok
  | writeTokens i l start k v count | appendTokens i l k v count =>
      by_cases none : count = 0
      · simp [Op.demand, none] at demand
      · rw [Op.demand, if_neg none] at demand
        obtain ⟨rfl, rfl⟩ := Prod.mk.inj (Option.some.inj demand)
        exact writeTokens_reserved cache i l _ k v none ok

theorem Tenanted.write_eq {cache : PagedKVCache Elem} {id layer startPos tokenCount : Int}
    {t : Tenancy Elem} (tenant : cache.Tenanted id t) (k v : Option (Buffer Elem))
    (nonempty : tokenCount ≠ 0)
    (ok : (cache.writeTokens id layer startPos k v tokenCount).1.isOk = true) :
    ∃ length row, t.write layer startPos k v tokenCount true =
      { t.reserve (wrap32 (startPos + tokenCount)) with length := length, row := row } := by
  by_cases accepts : k.isSome = true ∧ v.isSome = true ∧ cache.Accepts layer startPos tokenCount
  · obtain ⟨hasK, hasV, nonneg, positive, low, high⟩ := accepts
    obtain ⟨kb, rfl⟩ := Option.isSome_iff_exists.mp hasK
    obtain ⟨vb, rfl⟩ := Option.isSome_iff_exists.mp hasV
    rw [Tenancy.write, if_neg (by rw [tenant.layers]; omega), if_pos (Or.inl rfl)]
    exact ⟨_, _, rfl⟩
  · exact absurd ((writeTokens_refused cache id layer startPos k v tokenCount accepts).2 ok) nonempty

/-- A call that succeeds grows the table to what it demands. -/
theorem Tenanted.after_eq {cache : PagedKVCache Elem} {id total : Int} {t : Tenancy Elem}
    (tenant : cache.Tenanted id t) (op : Op Elem) (demand : op.demand cache = some (id, total))
    (ok : (cache.apply op).1.isOk = true) :
    ¬ op.Concerns (id + 1) ∧
      ∃ length row, t.after op true = { t.reserve total with length := length, row := row } := by
  cases op with
  | init | reset | ensureSequence | freeSequence => simp [Op.demand] at demand
  | reserveSequence i total' | setSequenceLength i total' =>
      obtain ⟨rfl, rfl⟩ := Prod.mk.inj (Option.some.inj demand)
      exact ⟨fun same => by simp only [Op.Concerns] at same; omega, _, _, rfl⟩
  | writeTokens i l start k v count =>
      by_cases none : count = 0
      · simp [Op.demand, none] at demand
      · rw [Op.demand, if_neg none] at demand
        obtain ⟨rfl, rfl⟩ := Prod.mk.inj (Option.some.inj demand)
        exact ⟨fun same => by simp only [Op.Concerns] at same; omega, tenant.write_eq k v none ok⟩
  | appendTokens i l k v count =>
      by_cases none : count = 0
      · simp [Op.demand, none] at demand
      · rw [Op.demand, if_neg none] at demand
        obtain ⟨rfl, rfl⟩ := Prod.mk.inj (Option.some.inj demand)
        refine ⟨fun same => by simp only [Op.Concerns] at same; omega, ?_⟩
        rw [Tenancy.after, tenant.length]
        exact tenant.write_eq k v none ok

/-- A sequence that is shown its tenancy after a call was handed zeros only. -/
theorem Tenanted.filled {cache : PagedKVCache Elem} {id total : Int} {t : Tenancy Elem}
    (tenant : cache.Tenanted id t) (owned : cache.Owned) (op : Op Elem) (isInt : op.IsInt)
    (demand : op.demand cache = some (id, total)) (ok : (cache.apply op).1.isOk = true)
    (shows : ∀ key layer pos head, SameRow (cache.step op).headDim
      ((cache.step op).tokenPtr key id layer pos head) ((t.after op true).tokenPtr key layer pos head)) :
    cache.ZeroFilled id total (t.after op true) := by
  intro layer pos block low high nonneg below unwritten place key j inRow
  have held := tenant.demand_keeps owned op isInt demand ok low high nonneg unwritten place
  obtain ⟨other, length, row, later⟩ := tenant.after_eq op demand ok
  have shape := (step_untouched cache op (id + 1) owned other).toSameShape
  have inHeadRow : j < cache.numKvHeads * cache.headDim := by
    rw [← kvHidden_eq tenant.rowFits]
    exact inRow
  have width : 0 < cache.headDim := by
    by_contra none
    simp [Nat.eq_zero_of_not_pos none] at inHeadRow
  have head : j / cache.headDim < cache.numKvHeads :=
    Nat.div_lt_of_lt_mul (by rw [Nat.mul_comm]; exact inHeadRow)
  have inHeads : ¬ (((j / cache.headDim : Nat) : Int) < 0 ∨
      ((j / cache.headDim : Nat) : Int) ≥ cache.numKvHeads) :=
    not_or.mpr ⟨Int.not_lt.mpr (Int.natCast_nonneg _), Int.not_le.mpr (Int.ofNat_lt.mpr head)⟩
  have reading := shows key layer pos (j / cache.headDim : Nat)
  -- The tenancy shows zeros there, so the pointer of the cache must.
  have zeros : (t.after op true).tokenPtr key layer pos (j / cache.headDim : Nat) =
      .ok fun _ => 0 := by
    have inside := (List.getElem?_eq_some_iff.mp place).1
    have reserved := demand_reserved cache op demand ok
    rw [(reserveSequence_granted cache id total reserved).2,
      ← tenant.blocks (reserveSequence_known cache id total reserved).1, ← tenant.needed] at inside
    rw [later] at below unwritten ⊢
    simp only at below unwritten
    simp only [Tenancy.tokenPtr, Tenancy.reserve, tenant.layers, tenant.heads, tenant.blockSize,
      unwritten, Option.getD_none]
    rw [if_neg (by omega), if_neg inHeads, if_neg (by omega), if_neg (by omega)]
    cases key <;> rfl
  rw [zeros] at reading
  have split := Nat.div_add_mod' j cache.headDim
  have index : (cache.step op).rowIndex block pos + (j / cache.headDim : Nat) * cache.headDim +
      j % cache.headDim = (cache.step op).rowIndex block pos + j := by omega
  have inStep : j < (cache.step op).kvHidden := by
    rw [kvHidden, shape.numKvHeads, shape.headDim]
    exact inRow
  unfold PagedKVCache.tokenPtr at reading
  rw [shape.numLayers, shape.numKvHeads, shape.headDim, held.found] at reading
  rw [if_neg (by omega), if_neg inHeads] at reading
  split at reading
  · exact reading.elim
  · have zero := reading (j % cache.headDim) (Nat.mod_lt j width)
    beta_reduce at zero
    rw [Int.toNat_natCast, index] at zero
    cases key with
    | true => exact (held.key j inStep).symm.trans zero
    | false => exact (held.value j inStep).symm.trans zero

end Exactness

section Runs

variable [Zero Elem]

/-- Cache and tenancies agree on every sequence. -/
structure Shared (state : PagedKVCache Elem × (Int → Tenancy Elem)) : Prop where
  owned : state.1.Owned
  tenants : ∀ id, state.1.Tenanted id (state.2 id)

theorem start_shared : Shared (({}, fun _ => {}) : PagedKVCache Elem × (Int → Tenancy Elem)) :=
  ⟨release_owned {}, fun id => tenanted_empty ⟨rfl, rfl, rfl, rfl, rfl⟩
    (show 0 < 2147483648 by decide) (release_rowFits {}) (fun some => absurd some (Nat.lt_irrefl 0)) (fun _ => rfl) rfl rfl
    fun _ _ => rfl⟩

theorem Shared.step {state : PagedKVCache Elem × (Int → Tenancy Elem)} (shared : Shared state)
    (op : Op Elem) (isInt : op.IsInt) (bounds : op.Bounded) (clean : Clean state op) :
    Shared (tenantStep state op) := by
  refine ⟨step_owned state.1 op shared.owned, fun id => ?_⟩
  by_cases concerned : op.Concerns id
  · simp only [tenantStep, concerned, if_true]
    exact (shared.tenants id).step shared.owned op isInt bounds concerned fun total => clean id total
  · simp only [tenantStep, concerned, if_false]
    exact (shared.tenants id).untouched (step_untouched state.1 op id shared.owned concerned)

theorem runs_shared (ops : List (Op Elem)) (bounded : ∀ op ∈ ops, op.IsInt ∧ op.Bounded)
    (clean : Machine.Guarded tenantStep Clean ({}, fun _ => {}) ops) :
    Shared (Machine.run tenantStep ({}, fun _ => {}) ops) := by
  have ints := Machine.guarded_of_forall tenantStep (fun op => op.IsInt ∧ op.Bounded)
    ({}, fun _ => {}) ops bounded
  exact Machine.guarded_invariant tenantStep
    (fun state op => (op.IsInt ∧ op.Bounded) ∧ Clean state op) Shared
    (fun state op shared good => shared.step op good.1.1 good.1.2 good.2) _ ops start_shared
    ((Machine.guarded_and tenantStep _ _ _ ops).mpr ⟨ints, clean⟩)

/-- The pointers of every sequence return what the calls of that sequence alone have
made of it. -/
def Isolated (ops : List (Op Elem)) : Prop :=
  ∀ id key layer pos head, SameRow (runs ops).headDim
    ((runs ops).tokenPtr key id layer pos head)
    ((Tenancy.of (history id ops)).tokenPtr key layer pos head)

theorem Shared.isolated {ops : List (Op Elem)}
    (shared : Shared (Machine.run tenantStep ({}, fun _ => {}) ops)) : Isolated ops := by
  intro id key layer pos head
  have tenant := shared.tenants id
  rw [tenancy_history] at tenant
  rw [← tenant_cache]
  exact tenant.tokenPtr key layer pos head

/-- A run shows every sequence its own rows throughout exactly when every step is clean. -/
theorem isolated_iff (ops : List (Op Elem)) (bounded : ∀ op ∈ ops, op.IsInt ∧ op.Bounded) :
    (∀ first, first <+: ops → Isolated first) ↔
      Machine.Guarded tenantStep Clean ({}, fun _ => {}) ops := by
  constructor
  · intro isolated
    rcases Machine.guarded_or_first tenantStep Clean ({}, fun _ => {}) ops with
      all | ⟨first, op, rest, split, before, dirty⟩
    · exact all
    · have inside : ∀ other ∈ first ++ [op], other.IsInt ∧ other.Bounded := fun other member =>
        bounded other (by rw [split]; simp at member ⊢; tauto)
      have shared := runs_shared first (fun other member => inside other (by simp [member])) before
      have after := isolated (first ++ [op]) ⟨rest, by rw [split]; simp⟩
      refine absurd (fun id total demand ok => ?_) dirty
      refine (shared.tenants id).filled shared.owned op (inside op (by simp)).1 demand ok
        fun key layer pos head => ?_
      have shows := after id key layer pos head
      have concerned : op.Concerns id := by
        cases op <;> simp_all [Op.demand, Op.Concerns]
      rw [← tenancy_history, ← tenant_cache, Machine.run_append] at shows
      simpa [Machine.run, tenantStep, concerned, ok] using shows
  · rintro clean first ⟨rest, rfl⟩
    exact (runs_shared first (fun op member => bounded op (by simp [member]))
      ((Machine.guarded_append tenantStep Clean _ first rest).mp clean).1).isolated

omit [Zero Elem] in
theorem SameRow.symm {width : Nat} {first second : Except Status (Buffer Elem)}
    (same : SameRow width first second) : SameRow width second first := by
  cases first <;> cases second
  · exact Eq.symm same
  · exact same
  · exact same
  · exact fun d inside => (same d inside).symm

omit [Zero Elem] in
theorem SameRow.trans {width : Nat} {first second third : Except Status (Buffer Elem)}
    (left : SameRow width first second) (right : SameRow width second third) :
    SameRow width first third := by
  cases first <;> cases second <;> cases third
  · exact Eq.trans left right
  · exact right.elim
  · exact left.elim
  · exact left.elim
  · exact left.elim
  · exact left.elim
  · exact right.elim
  · exact fun d inside => (left d inside).trans (right d inside)

end Runs

end PagedKVCache

namespace CpuKernelAdapter

open Loops PagedKVCache

variable {α : Type} [Field α] [LinearOrder α]

/-- Paged attention reads the cache through its pointers only. -/
structure SameSequence (first second : PagedKVCache α) (seqId : Int) : Prop where
  ready : first.initialized = second.initialized
  heads : first.numKvHeads = second.numKvHeads
  headDim : first.headDim = second.headDim
  length : first.sequenceLength seqId = second.sequenceLength seqId
  rows : ∀ key layer pos head, SameRow first.headDim
    (first.tokenPtr key seqId layer pos head) (second.tokenPtr key seqId layer pos head)

theorem pagedScores_congr (ops : FloatOps α) {first second : PagedKVCache α} {seqId : Int}
    (same : SameSequence first second seqId) (li kvHead : Int) (limit : Nat) (q : Buffer α) :
    pagedScores ops first seqId li kvHead limit first.headDim q =
      pagedScores ops second seqId li kvHead limit first.headDim q := by
  refine loopTry_congr limit _ _ _ fun pos state _ => ?_
  have rows := same.rows true li pos kvHead
  simp only [keyPtr]
  generalize first.tokenPtr true seqId li pos kvHead = left at rows
  generalize second.tokenPtr true seqId li pos kvHead = right at rows
  cases left with
  | error st => cases right with
    | error st' =>
        have sameStatus : st = st' := rows
        rw [sameStatus]
    | ok k' => exact rows.elim
  | ok k => cases right with
    | error st' => exact rows.elim
    | ok k' =>
        have dots : loop first.headDim (fun d dot => dot + q d * k d) 0 =
            loop first.headDim (fun d dot => dot + q d * k' d) 0 :=
          loop_congr _ _ _ _ fun d dot inside => by rw [rows d inside]
        simp only [dots]

theorem pagedRow_congr (ops : FloatOps α) {first second : PagedKVCache α} {seqId : Int}
    (same : SameSequence first second seqId) (li kvHead : Int) (limit : Nat) (q : Buffer α) :
    pagedRow ops first seqId li kvHead limit first.headDim q =
      pagedRow ops second seqId li kvHead limit first.headDim q := by
  unfold pagedRow
  rw [pagedScores_congr ops same]
  generalize pagedScores ops second seqId li kvHead limit first.headDim q = scored
  obtain ⟨err, scores, maxScore⟩ := scored
  cases err with
  | some st => rfl
  | none =>
      dsimp only
      generalize pagedWeights ops limit scores maxScore = weighed
      obtain ⟨weights, sum⟩ := weighed
      dsimp only
      split
      · rfl
      · -- The value loop stops at the same rows and adds the same values.
        congr 1
        refine loopTry_congr limit _ _ _ fun pos out _ => ?_
        have rows := same.rows false li pos kvHead
        simp only [valuePtr]
        generalize first.tokenPtr false seqId li pos kvHead = left at rows
        generalize second.tokenPtr false seqId li pos kvHead = right at rows
        cases left with
        | error st => cases right with
          | error st' =>
              have sameStatus : st = st' := rows
              rw [sameStatus]
          | ok v' => exact rows.elim
        | ok v => cases right with
          | error st' => exact rows.elim
          | ok v' =>
              have added : mapLoop first.headDim (fun d x => x + weights pos / sum * v d) out =
                  mapLoop first.headDim (fun d x => x + weights pos / sum * v' d) out :=
                loop_congr _ _ _ _ fun d row inside => by
                  beta_reduce
                  rw [rows d inside]
              simp only [added]

theorem pagedAttentionDecode_congr (ops : FloatOps α) {first second : PagedKVCache α} {seqId : Int}
    (same : SameSequence first second seqId) (li : Int) (q output : Buffer α)
    (numHeads headDim : Int) :
    pagedAttentionDecode ops first seqId li q output numHeads headDim =
      pagedAttentionDecode ops second seqId li q output numHeads headDim := by
  unfold pagedAttentionDecode
  rw [same.ready, same.heads, same.length]
  by_cases width : headDim = first.headDim
  · subst width
    rw [← same.headDim]
    simp only [Int.toNat_natCast]
    simp only [pagedRow_congr ops same]
  · have width' : headDim ≠ second.headDim := by rwa [← same.headDim]
    simp only [width, width', ne_eq, not_false_eq_true, if_true]

end CpuKernelAdapter

namespace PagedKVCache

open CpuKernelAdapter

variable {α : Type} [Field α] [LinearOrder α]

omit [LinearOrder α] in
theorem Shared.sameSequence {first second : List (Op α)}
    (left : Shared (Machine.run tenantStep ({}, fun _ => {}) first))
    (right : Shared (Machine.run tenantStep ({}, fun _ => {}) second)) {id : Int}
    (same : history id first = history id second) :
    SameSequence (runs first) (runs second) id := by
  have a := left.tenants id
  have b := right.tenants id
  rw [tenancy_history, tenant_cache] at a b
  rw [← same] at b
  have width := a.headDim.symm.trans b.headDim
  refine ⟨?_, a.heads.symm.trans b.heads, width, a.length.symm.trans b.length,
    fun key layer pos head => ?_⟩
  · rw [initialized, initialized, ← a.blockSize, ← a.maxBlocks, b.blockSize, b.maxBlocks]
  · have second := b.tokenPtr key layer pos head
    rw [← width] at second
    exact (a.tokenPtr key layer pos head).trans second.symm

/-- Where every cache has rows that an `int` counts, isolation holds along a run exactly
when no step lets a sequence read storage it has not written unless zeros are stored
there; and two such runs that agree on the calls of one sequence show it the same rows
and compute the same attention. -/
theorem sequence_isolation :
    (∀ ops : List (Op α), (∀ op ∈ ops, op.IsInt ∧ op.Bounded) →
      ((∀ first, first <+: ops → Isolated first) ↔
        Machine.Guarded tenantStep Clean ({}, fun _ => {}) ops)) ∧
    ∀ ops others : List (Op α), (∀ op ∈ ops, op.IsInt ∧ op.Bounded) →
      (∀ op ∈ others, op.IsInt ∧ op.Bounded) →
      Machine.Guarded tenantStep Clean ({}, fun _ => {}) ops →
      Machine.Guarded tenantStep Clean ({}, fun _ => {}) others →
      ∀ id, history id ops = history id others →
        (∀ layer pos head, SameRow (runs ops).headDim
            ((runs ops).keyPtr id layer pos head) ((runs others).keyPtr id layer pos head) ∧
          SameRow (runs ops).headDim
            ((runs ops).valuePtr id layer pos head) ((runs others).valuePtr id layer pos head)) ∧
        ∀ (floats : FloatOps α) (layer : Int) (q output : Loops.Buffer α) (numHeads headDim : Int),
          pagedAttentionDecode floats (runs ops) id layer q output numHeads headDim =
            pagedAttentionDecode floats (runs others) id layer q output numHeads headDim := by
  refine ⟨isolated_iff, fun ops others ints ints' clean clean' id same => ?_⟩
  have agree := (runs_shared ops ints clean).sameSequence (runs_shared others ints' clean') same
  exact ⟨fun layer pos head => ⟨agree.rows true layer pos head, agree.rows false layer pos head⟩,
    fun floats layer q output numHeads headDim =>
      pagedAttentionDecode_congr floats agree layer q output numHeads headDim⟩

-- A row appended for sequence 4 after one for sequence 2, and on its own.
def beside : List (Op ℚ) :=
  [.init 1 1 1 1 2, .appendTokens 2 0 (some fun _ => 5) (some fun _ => 6) 1,
    .appendTokens 4 0 (some fun _ => 7) (some fun _ => 8) 1]

def alone : List (Op ℚ) :=
  [.init 1 1 1 1 2, .appendTokens 4 0 (some fun _ => 7) (some fun _ => 8) 1]

-- A first append writes the only position it counts.
theorem clean_append {state : PagedKVCache ℚ × (Int → Tenancy ℚ)} {i : Int}
    {k v : Loops.Buffer ℚ} (layers : state.1.numLayers = 1)
    (fresh : state.2 i =
      { numLayers := 1, numKvHeads := 1, headDim := 1, blockSize := 1, maxBlocks := 2 }) :
    Clean state (.appendTokens i 0 (some k) (some v) 1) := by
  intro id total demand ok layer pos block low high nonneg below unwritten _
  obtain ⟨rfl, _⟩ := Prod.mk.inj (Option.some.inj demand)
  have first : layer = 0 := by omega
  subst first
  rw [fresh] at below unwritten
  change pos < 1 at below
  obtain rfl : pos = 0 := by omega
  cases unwritten

theorem sequence_isolation_beside :
    SameRow 1 ((runs beside).keyPtr 4 0 0 0) ((runs alone).keyPtr 4 0 0 0) := by
  have succeeds : ((runs (beside.take 2)).apply
      (.appendTokens 4 0 (some fun _ => 7) (some fun _ => 8) 1)).1.isOk =
      ((runs (alone.take 1)).apply
        (.appendTokens 4 0 (some fun _ => 7) (some fun _ => 8) 1)).1.isOk := by decide
  have histories : history 4 beside = history 4 alone := by
    simp only [history, beside, alone, historyFrom, Op.Concerns, if_true, List.append_nil]
    exact congrArg (fun ok => [_, (_, ok)]) succeeds
  have agree := sequence_isolation.2 beside alone (by simp [beside, Op.IsInt, Op.Bounded])
    (by simp [alone, Op.IsInt, Op.Bounded])
    ⟨fun _ _ none => (by cases none), clean_append rfl rfl, clean_append rfl rfl, trivial⟩
    ⟨fun _ _ none => (by cases none), clean_append rfl rfl, trivial⟩ 4 histories
  exact (agree.1 0 0 0).1

-- One block, written for sequence 0, freed, and counted in the length of sequence 1.
def recycled : List (Op ℚ) :=
  [.init 1 1 1 1 1, .writeTokens 0 0 0 (some fun _ => 7) (some fun _ => 7) 1, .freeSequence 0,
    .setSequenceLength 1 1]

def unshared : List (Op ℚ) := [.init 1 1 1 1 1, .setSequenceLength 1 1]

/-- A sequence that only sets its length reads what another has left in its block. -/
theorem recycled_block_leaks :
    (∀ op ∈ recycled, op.IsInt ∧ op.Bounded) ∧ history 1 recycled = history 1 unshared ∧
      ¬ Isolated recycled ∧
      ¬ SameRow (runs recycled).headDim
        ((runs recycled).keyPtr 1 0 0 0) ((runs unshared).keyPtr 1 0 0 0) := by
  obtain ⟨row, read, seven⟩ : ∃ row, (runs recycled).keyPtr 1 0 0 0 = .ok row ∧ row 0 = 7 :=
    ⟨_, rfl, by decide⟩
  obtain ⟨blank, other, zero⟩ : ∃ row, (runs unshared).keyPtr 1 0 0 0 = .ok row ∧ row 0 = 0 :=
    ⟨_, rfl, by decide⟩
  obtain ⟨own, alone, none⟩ : ∃ row,
      (Tenancy.of (history 1 recycled)).tokenPtr true 0 0 0 = .ok row ∧ row 0 = 0 :=
    ⟨_, rfl, by decide⟩
  have differ : ∀ row' : Loops.Buffer ℚ, row' 0 = 0 → ¬ SameRow 1 (.ok row) (.ok row') := by
    intro row' zero same
    have equal : row 0 = row' 0 := same 0 (by decide)
    rw [seven, zero] at equal
    norm_num at equal
  -- In both runs the call on sequence 1 succeeds.
  have succeeds : ((runs (recycled.take 3)).apply (.setSequenceLength 1 1)).1.isOk =
      ((runs (unshared.take 1)).apply (.setSequenceLength 1 1)).1.isOk := by decide
  have histories : history 1 recycled = history 1 unshared := by
    simp only [history, recycled, unshared, historyFrom, Op.Concerns, if_true, List.append_nil]
    exact congrArg (fun ok => [_, (_, ok)]) succeeds
  refine ⟨by simp [recycled, Op.IsInt, Op.Bounded], histories, fun isolated => ?_, ?_⟩
  · have shown := isolated 1 true 0 0 0
    rw [alone, show (runs recycled).tokenPtr true 1 0 0 0 = .ok row from read] at shown
    exact differ own none shown
  · rw [read, other]
    exact differ blank zero

end PagedKVCache

end MiniLLM
