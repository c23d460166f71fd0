import MiniLLM.PagedKVCache
import Mathlib.Data.List.Perm.Basic

/-!
Block ownership of the paged cache. Every operation is first reduced to the few
moves it is made of (`ensureSequence`, `takeBlock`, `freeBlock`, row writes and
length changes); each move keeps the ownership invariant, and so does a run.
-/

namespace MiniLLM.PagedKVCache

open Loops
open scoped List

variable {Elem : Type}

/-- The block tables of all sequences, in sequence order. -/
def tables (cache : PagedKVCache Elem) : List Nat := cache.sequences.flatMap (·.blocks)

-- Blocks of every sequence but one.
def otherTables (cache : PagedKVCache Elem) (index : Nat) : List Nat :=
  (cache.sequences.eraseIdx index).flatMap (·.blocks)

/-- Free list and block tables partition the physical blocks, and the bitmap
marks exactly the blocks in a table. -/
structure Owned (cache : PagedKVCache Elem) : Prop where
  partition : (cache.freeBlocks ++ cache.tables).Perm (List.range cache.maxBlocks)
  used : ∀ block, cache.blockUsed block = true ↔ block ∈ cache.tables

theorem Owned.nodup {cache : PagedKVCache Elem} (owned : cache.Owned) :
    (cache.freeBlocks ++ cache.tables).Nodup :=
  owned.partition.nodup_iff.mpr List.nodup_range

theorem Owned.lt_maxBlocks {cache : PagedKVCache Elem} (owned : cache.Owned) {block : Nat}
    (member : block ∈ cache.tables) : block < cache.maxBlocks :=
  List.mem_range.mp (owned.partition.mem_iff.mp (List.mem_append_right _ member))

/-- Ownership reads the free list, the bitmap, the tables and the block count. -/
theorem Owned.congr {before after : PagedKVCache Elem} (owned : before.Owned)
    (free : after.freeBlocks = before.freeBlocks) (used : after.blockUsed = before.blockUsed)
    (same : after.tables = before.tables) (count : after.maxBlocks = before.maxBlocks) :
    after.Owned :=
  ⟨by rw [free, same, count]; exact owned.partition, by rw [used, same]; exact owned.used⟩

theorem tables_perm (cache : PagedKVCache Elem) (index : Nat)
    (bound : index < cache.sequences.length) :
    cache.tables.Perm ((cache.sequences[index]).blocks ++ cache.otherTables index) := by
  have split := (List.getElem_cons_eraseIdx_perm bound).symm.flatMap_right (·.blocks)
  simpa [tables, otherTables] using split

theorem tables_modify (cache : PagedKVCache Elem) (sequenceId : Int) (f : Sequence → Sequence)
    (bound : sequenceId.toNat < cache.sequences.length) :
    (cache.modifySequence sequenceId f).tables.Perm
      ((f cache.sequences[sequenceId.toNat]).blocks ++ cache.otherTables sequenceId.toNat) := by
  have split := tables_perm (cache.modifySequence sequenceId f) sequenceId.toNat
    (by simpa [modifySequence] using bound)
  simpa [modifySequence, otherTables, List.eraseIdx_modify_of_eq] using split

theorem tables_modify_length (cache : PagedKVCache Elem) (sequenceId : Int)
    (f : Sequence → Sequence) (keeps : ∀ seq, (f seq).blocks = seq.blocks) :
    (cache.modifySequence sequenceId f).tables = cache.tables := by
  have pointwise : ∀ (index : Nat) (sequences : List Sequence),
      (sequences.modify index f).flatMap (·.blocks) = sequences.flatMap (·.blocks) := by
    intro index sequences
    induction sequences generalizing index with
    | nil => simp
    | cons head rest ih => cases index <;> simp [keeps, ih]
  exact pointwise sequenceId.toNat cache.sequences

section Moves

theorem release_owned (cache : PagedKVCache Elem) : cache.release.Owned :=
  ⟨by simp [release, tables], by simp [release, tables]⟩

theorem init_owned [Zero Elem] (cache : PagedKVCache Elem)
    (layers heads dim size blocks : Int) :
    (cache.init layers heads dim size blocks).2.Owned := by
  unfold init
  dsimp only
  split
  · exact cache.release_owned
  · exact ⟨by simp [tables, List.reverse_perm], by simp [tables]⟩

theorem reset_owned [Zero Elem] (cache : PagedKVCache Elem) : cache.reset.Owned :=
  ⟨by simp [reset, tables, List.reverse_perm], by simp [reset, tables]⟩

theorem ensureSequence_owned (cache : PagedKVCache Elem) (sequenceId : Int)
    (owned : cache.Owned) : (cache.ensureSequence sequenceId).2.Owned := by
  unfold ensureSequence
  split
  · exact owned
  · split
    · exact owned
    · refine owned.congr rfl rfl ?_ rfl
      simp [tables, List.flatMap_replicate]

/-- A taken block joins the tables; nothing else moves. -/
theorem takeBlock_tables (cache : PagedKVCache Elem) (sequenceId : Int)
    (bound : sequenceId.toNat < cache.sequences.length) :
    (cache.takeBlock sequenceId).tables ~ cache.freeBlocks.getLastD 0 :: cache.tables := by
  have split := tables_modify cache sequenceId
    (fun seq => { seq with blocks := seq.blocks ++ [cache.freeBlocks.getLastD 0] }) bound
  have whole := tables_perm cache sequenceId.toNat bound
  simp only [List.append_assoc, List.singleton_append] at split
  exact split.trans (List.perm_middle.trans (whole.symm.cons _))

theorem takeBlock_owned (cache : PagedKVCache Elem) (sequenceId : Int) (owned : cache.Owned)
    (bound : sequenceId.toNat < cache.sequences.length) (available : cache.freeBlocks ≠ []) :
    (cache.takeBlock sequenceId).Owned := by
  have grown := takeBlock_tables cache sequenceId bound
  have popped : cache.freeBlocks.dropLast ++ [cache.freeBlocks.getLastD 0] =
      cache.freeBlocks := by
    rw [List.getLastD_eq_getLast?, List.getLast?_eq_some_getLast available, Option.getD_some]
    exact List.dropLast_append_getLast available
  constructor
  · calc (cache.takeBlock sequenceId).freeBlocks ++ (cache.takeBlock sequenceId).tables
        ~ cache.freeBlocks.dropLast ++ (cache.freeBlocks.getLastD 0 :: cache.tables) :=
          grown.append_left _
      _ ~ cache.freeBlocks ++ cache.tables := by
          rw [← List.singleton_append, ← List.append_assoc, popped]
      _ ~ List.range cache.maxBlocks := owned.partition
  · intro block
    rw [grown.mem_iff, List.mem_cons, ← owned.used]
    by_cases same : block = cache.freeBlocks.getLastD 0 <;> simp [takeBlock, same]

/-- While a table is being returned, `rest` holds its blocks still to be freed. -/
structure Draining (cache : PagedKVCache Elem) (rest others : List Nat) : Prop where
  partition : (cache.freeBlocks ++ (rest ++ others)) ~ List.range cache.maxBlocks
  used : ∀ block, cache.blockUsed block = true ↔ block ∈ rest ++ others

theorem freeBlock_draining (cache : PagedKVCache Elem) (block : Nat) (rest others : List Nat)
    (drain : cache.Draining (block :: rest) others) :
    (cache.freeBlock block).Draining rest others := by
  have inside : block < cache.maxBlocks :=
    List.mem_range.mp (drain.partition.mem_iff.mp (by simp))
  have marked : cache.blockUsed block = true := (drain.used block).mpr (by simp)
  have distinct : (cache.freeBlocks ++ (block :: rest ++ others)).Nodup :=
    drain.partition.nodup_iff.mpr List.nodup_range
  have fresh : block ∉ rest ++ others := by
    have tail := (List.nodup_append.mp distinct).2.1
    exact (List.nodup_cons.mp tail).1
  constructor
  · simpa [freeBlock, inside, marked] using drain.partition
  · intro other
    by_cases same : other = block
    · subst same
      simpa [freeBlock, inside, marked] using fresh
    · have before := drain.used other
      simp only [List.cons_append, List.mem_cons, same, false_or] at before
      simpa [freeBlock, inside, marked, same] using before

theorem freeBlocks_draining (blocks : List Nat) (cache : PagedKVCache Elem) (others : List Nat)
    (drain : cache.Draining blocks others) :
    (blocks.foldl (fun c block => c.freeBlock block) cache).Draining [] others := by
  induction blocks generalizing cache with
  | nil => exact drain
  | cons block rest ih => exact ih _ (freeBlock_draining cache block rest others drain)

/-- Giving blocks back changes the free list and the bitmap only. -/
theorem freeBlocks_frame (blocks : List Nat) (cache : PagedKVCache Elem) :
    ∃ free used, blocks.foldl (fun c block => c.freeBlock block) cache =
      { cache with freeBlocks := free, blockUsed := used } := by
  induction blocks generalizing cache with
  | nil => exact ⟨_, _, rfl⟩
  | cons block rest ih =>
      have first : ∃ free used, cache.freeBlock block =
          { cache with freeBlocks := free, blockUsed := used } := by
        unfold freeBlock
        split
        · exact ⟨_, _, rfl⟩
        · exact ⟨_, _, rfl⟩
      obtain ⟨free, used, same⟩ := first
      obtain ⟨free', used', later⟩ := ih (cache.freeBlock block)
      rw [List.foldl_cons, later, same]
      exact ⟨free', used', rfl⟩

theorem freeSequence_owned (cache : PagedKVCache Elem) (sequenceId : Int)
    (owned : cache.Owned) : (cache.freeSequence sequenceId).2.Owned := by
  unfold freeSequence
  split
  · exact owned
  · next knows =>
      have bound : sequenceId.toNat < cache.sequences.length := by
        simp [known] at knows; exact knows.2
      have table : (cache.sequence sequenceId).blocks =
          cache.sequences[sequenceId.toNat].blocks := by
        simp [sequence, List.getD_eq_getElem?_getD, bound]
      have whole := tables_perm cache sequenceId.toNat bound
      rw [← table] at whole
      have drain : cache.Draining (cache.sequence sequenceId).blocks
          (cache.otherTables sequenceId.toNat) :=
        ⟨(whole.symm.append_left _).trans owned.partition,
          fun block => (owned.used block).trans whole.mem_iff⟩
      have drained := freeBlocks_draining _ cache _ drain
      have frame := freeBlocks_frame (cache.sequence sequenceId).blocks cache
      generalize (cache.sequence sequenceId).blocks.foldl
        (fun c block => c.freeBlock block) cache = freed at drained frame
      have seqs : freed.sequences = cache.sequences := by
        obtain ⟨free, used, same⟩ := frame
        rw [same]
      have emptied : (freed.modifySequence sequenceId
          fun _ => { length := 0, blocks := [] }).tables ~
          cache.otherTables sequenceId.toNat := by
        have split := tables_modify freed sequenceId
          (fun _ => { length := 0, blocks := [] }) (by rw [seqs]; exact bound)
        simpa [otherTables, seqs] using split
      exact ⟨(emptied.append_left _).trans drained.partition,
        fun block => (drained.used block).trans (by simpa using emptied.mem_iff.symm)⟩

theorem takeBlock_frame (cache : PagedKVCache Elem) (sequenceId : Int) :
    (cache.takeBlock sequenceId).sequences.length = cache.sequences.length ∧
      (cache.takeBlock sequenceId).freeBlocks.length = cache.freeBlocks.length - 1 := by
  simp [takeBlock]

theorem takeBlocks_owned (cache : PagedKVCache Elem) (sequenceId : Int) (n : Nat)
    (owned : cache.Owned) (bound : sequenceId.toNat < cache.sequences.length)
    (available : n ≤ cache.freeBlocks.length) : (cache.takeBlocks sequenceId n).Owned := by
  have rule := loop_invariant
    (fun i c => c.Owned ∧ c.sequences.length = cache.sequences.length ∧
      c.freeBlocks.length = cache.freeBlocks.length - i)
    n (fun _ c => c.takeBlock sequenceId) cache ⟨owned, rfl, rfl⟩ (by
      rintro i c below ⟨held, size, count⟩
      have frame := takeBlock_frame c sequenceId
      have nonempty : c.freeBlocks ≠ [] := by
        intro none
        simp [none] at count
        omega
      exact ⟨takeBlock_owned c sequenceId held (by omega) nonempty, by omega, by omega⟩)
  exact rule.1

end Moves

section Operations

theorem reserveSequence_owned (cache : PagedKVCache Elem) (sequenceId totalTokens : Int)
    (owned : cache.Owned) : (cache.reserveSequence sequenceId totalTokens).2.Owned := by
  have ensured := ensureSequence_owned cache sequenceId owned
  cases result : (cache.reserveSequence sequenceId totalTokens).1.isOk with
  | false => rwa [reserveSequence_failed cache sequenceId totalTokens result]
  | true =>
      obtain ⟨fine, _, room, same⟩ := reserveSequence_ok cache sequenceId totalTokens result
      obtain ⟨count, frame⟩ := ensureSequence_frame cache sequenceId
      rw [same]
      apply takeBlocks_owned _ _ _ ensured (ensureSequence_ok cache sequenceId fine).2.2
      rw [frame]
      change _ ≤ cache.freeBlocks.length
      omega

theorem modifyLength_owned (cache : PagedKVCache Elem) (sequenceId : Int)
    (f : Sequence → Sequence) (keeps : ∀ seq, (f seq).blocks = seq.blocks)
    (owned : cache.Owned) : (cache.modifySequence sequenceId f).Owned :=
  owned.congr rfl rfl (tables_modify_length cache sequenceId f keeps) rfl

theorem setSequenceLength_owned (cache : PagedKVCache Elem) (sequenceId length : Int)
    (owned : cache.Owned) : (cache.setSequenceLength sequenceId length).2.Owned := by
  have reserved := reserveSequence_owned cache sequenceId length owned
  unfold setSequenceLength
  dsimp only
  split
  · exact owned
  · split
    · exact reserved
    · exact modifyLength_owned _ sequenceId (fun seq => { seq with length := length })
        (fun _ => rfl) reserved

theorem writeRows_owned (cache : PagedKVCache Elem) (sequenceId layer startPos : Int)
    (k v : Buffer Elem) (count : Nat) (owned : cache.Owned) :
    (cache.writeRows sequenceId layer startPos k v count).2.Owned := by
  rw [writeRows_frame]
  exact owned.congr rfl rfl rfl rfl

theorem writeTokens_owned (cache : PagedKVCache Elem) (sequenceId layer startPos : Int)
    (k v : Option (Buffer Elem)) (tokenCount : Int) (owned : cache.Owned) :
    (cache.writeTokens sequenceId layer startPos k v tokenCount).2.Owned := by
  have reserved :=
    reserveSequence_owned cache sequenceId (wrap32 (startPos + tokenCount)) owned
  rcases writeTokens_cases cache sequenceId layer startPos k v tokenCount with
    ⟨same, _⟩ | ⟨kb, vb, _, _, _, writes⟩
  · rwa [same]
  · have rows := writeRows_owned _ sequenceId layer startPos kb vb tokenCount.toNat reserved
    generalize cache.writeTokens sequenceId layer startPos k v tokenCount = result at writes
    cases writes with
    | noBlocks _ => exact reserved
    | stopped st after _ wrote => rwa [wrote] at rows
    | written after _ wrote =>
        rw [wrote] at rows
        exact modifyLength_owned after sequenceId _ (fun _ => rfl) rows

theorem step_owned [Zero Elem] (cache : PagedKVCache Elem) (op : Op Elem) (owned : cache.Owned) :
    (cache.step op).Owned := by
  cases op with
  | init layers heads dim size blocks => exact init_owned cache layers heads dim size blocks
  | reset => exact reset_owned cache
  | ensureSequence id => exact ensureSequence_owned cache id owned
  | reserveSequence id total => exact reserveSequence_owned cache id total owned
  | setSequenceLength id length => exact setSequenceLength_owned cache id length owned
  | writeTokens id layer start k v count =>
      exact writeTokens_owned cache id layer start k v count owned
  | appendTokens id layer k v count => exact writeTokens_owned cache id layer _ k v count owned
  | freeSequence id => exact freeSequence_owned cache id owned

end Operations

theorem runs_owned [Zero Elem] (ops : List (Op Elem)) : (runs ops).Owned :=
  Machine.run_invariant step Owned step_owned {} ops (release_owned {})

section Counts

/-- The number of blocks that the last `init` made; one that is refused leaves none. -/
def Op.blockCount (count : Nat) : Op Elem → Nat
  | .init layers heads dim size blocks =>
      if layers ≤ 0 ∨ heads ≤ 0 ∨ dim ≤ 0 ∨ size ≤ 0 ∨ blocks ≤ 0 then 0 else blocks.toNat
  | _ => count

theorem ensureSequence_maxBlocks (cache : PagedKVCache Elem) (sequenceId : Int) :
    (cache.ensureSequence sequenceId).2.maxBlocks = cache.maxBlocks := by
  obtain ⟨count, frame⟩ := ensureSequence_frame cache sequenceId
  rw [frame]

theorem reserveSequence_maxBlocks (cache : PagedKVCache Elem) (sequenceId totalTokens : Int) :
    (cache.reserveSequence sequenceId totalTokens).2.maxBlocks = cache.maxBlocks := by
  have ensured := ensureSequence_maxBlocks cache sequenceId
  cases result : (cache.reserveSequence sequenceId totalTokens).1.isOk with
  | false => rwa [reserveSequence_failed cache sequenceId totalTokens result]
  | true =>
      obtain ⟨_, _, _, same⟩ := reserveSequence_ok cache sequenceId totalTokens result
      rw [same]
      exact loop_invariant (fun _ (c : PagedKVCache Elem) => c.maxBlocks = cache.maxBlocks) _
        (fun _ c => c.takeBlock sequenceId) _ ensured fun _ _ _ kept => kept

theorem writeTokens_maxBlocks (cache : PagedKVCache Elem) (sequenceId layer startPos : Int)
    (k v : Option (Buffer Elem)) (tokenCount : Int) :
    (cache.writeTokens sequenceId layer startPos k v tokenCount).2.maxBlocks =
      cache.maxBlocks := by
  have reserved := reserveSequence_maxBlocks cache sequenceId (wrap32 (startPos + tokenCount))
  rcases writeTokens_cases cache sequenceId layer startPos k v tokenCount with
    ⟨same, _⟩ | ⟨kb, vb, _, _, _, writes⟩
  · rw [same]
  · have rows : ((cache.reserveSequence sequenceId (wrap32 (startPos + tokenCount))).2.writeRows
        sequenceId layer startPos kb vb tokenCount.toNat).2.maxBlocks = cache.maxBlocks := by
      rw [writeRows_frame]
      exact reserved
    generalize cache.writeTokens sequenceId layer startPos k v tokenCount = result at writes
    cases writes with
    | noBlocks _ => exact reserved
    | stopped _ _ _ wrote | written _ _ wrote => rwa [wrote] at rows

theorem freeSequence_maxBlocks (cache : PagedKVCache Elem) (sequenceId : Int) :
    (cache.freeSequence sequenceId).2.maxBlocks = cache.maxBlocks := by
  unfold freeSequence
  split
  · rfl
  · obtain ⟨free, used, frame⟩ := freeBlocks_frame (cache.sequence sequenceId).blocks cache
    dsimp only
    rw [frame]
    rfl

theorem step_maxBlocks [Zero Elem] (cache : PagedKVCache Elem) (op : Op Elem) :
    (cache.step op).maxBlocks = op.blockCount cache.maxBlocks := by
  cases op with
  | init layers heads dim size blocks =>
      change (cache.init layers heads dim size blocks).2.maxBlocks = _
      unfold init Op.blockCount
      dsimp only
      split <;> rfl
  | reset => rfl
  | ensureSequence id => exact ensureSequence_maxBlocks cache id
  | reserveSequence id total => exact reserveSequence_maxBlocks cache id total
  | setSequenceLength id length =>
      have reserved := reserveSequence_maxBlocks cache id length
      change (cache.setSequenceLength id length).2.maxBlocks = cache.maxBlocks
      unfold setSequenceLength
      split
      · rfl
      · dsimp only
        split <;> exact reserved
  | writeTokens id layer start k v count => exact writeTokens_maxBlocks cache id layer start k v count
  | appendTokens id layer k v count => exact writeTokens_maxBlocks cache id layer _ k v count
  | freeSequence id => exact freeSequence_maxBlocks cache id

theorem run_maxBlocks [Zero Elem] (ops : List (Op Elem)) (cache : PagedKVCache Elem) :
    (Machine.run step cache ops).maxBlocks =
      ops.foldl (fun count op => op.blockCount count) cache.maxBlocks := by
  induction ops generalizing cache with
  | nil => rfl
  | cons op rest ih => rw [Machine.run, ih, step_maxBlocks, List.foldl_cons]

end Counts

/-- After every run, failing calls included, no block of the last `init` is lost, shared,
or both free and owned, and the bitmap agrees with the tables. -/
theorem block_ownership [Zero Elem] (ops : List (Op Elem)) :
    ((runs ops).freeBlocks ++ (runs ops).sequences.flatMap (·.blocks)) ~
        List.range (runs ops).maxBlocks ∧
      (∀ block, (runs ops).blockUsed block = true ↔
        ∃ seq ∈ (runs ops).sequences, block ∈ seq.blocks) ∧
      (runs ops).maxBlocks = ops.foldl (fun count op => op.blockCount count) 0 :=
  ⟨(runs_owned ops).partition, fun block =>
    ((runs_owned ops).used block).trans List.mem_flatMap, run_maxBlocks ops {}⟩

end MiniLLM.PagedKVCache
