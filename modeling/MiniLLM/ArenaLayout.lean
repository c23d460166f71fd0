import MiniLLM.PlannerRanges
import Mathlib.Algebra.BigOperators.Ring.List

/-!
The arenas of a plan. Buffers with the same key share an arena, numbered in the
order of their first buffers; while no sum wraps, a buffer starts where the earlier
ones of its arena end.
-/

namespace MiniLLM.MemoryPlanner

section Numbers

/-- The arenas in use are told apart by their numbers. -/
structure Numbered (arenas : ArenaInfo) : Prop where
  below : ∀ key entry, arenas.find key = some entry → entry.1 < arenas.size
  injective : ∀ key other a b, arenas.find key = some a → arenas.find other = some b →
    a.1 = b.1 → key = other

theorem numbered_empty : Numbered {} where
  below _ _ found := by cases found
  injective _ _ _ _ found := by cases found

/-- The end of the buffer's arena once the buffer is in it. -/
def endOf (alignment : Nat) (arenas : ArenaInfo) (buffer : MemoryBuffer) : Nat :=
  match arenas.find buffer.key with
  | none => buffer.bytes
  | some (_, offset) => wrapSize (alignUp offset alignment + buffer.bytes)

/-- Placing a buffer changes what is known of its own arena only. -/
theorem layoutBuffer_find (alignment : Nat) (arenas : ArenaInfo) (buffer : MemoryBuffer)
    (key : PoolKey) :
    (layoutBuffer alignment arenas buffer).1.find key =
      if key = buffer.key then
        some ((layoutBuffer alignment arenas buffer).2.arenaIndex, endOf alignment arenas buffer)
      else arenas.find key := by
  unfold layoutBuffer endOf
  cases found : arenas.find buffer.key with
  | none => rfl
  | some entry => rfl

/-- A buffer opens the arena of its key or joins it. -/
theorem layoutBuffer_cases (alignment : Nat) (arenas : ArenaInfo) (buffer : MemoryBuffer) :
    arenas.find buffer.key = none ∧
        (layoutBuffer alignment arenas buffer).2 =
          { buffer with arenaIndex := arenas.size, offset := 0 } ∧
        (layoutBuffer alignment arenas buffer).1.size = arenas.size + 1 ∨
      ∃ entry, arenas.find buffer.key = some entry ∧
        (layoutBuffer alignment arenas buffer).2 =
          { buffer with arenaIndex := entry.1, offset := alignUp entry.2 alignment } ∧
        (layoutBuffer alignment arenas buffer).1.size = arenas.size := by
  unfold layoutBuffer
  cases found : arenas.find buffer.key with
  | none => exact Or.inl ⟨rfl, rfl, rfl⟩
  | some entry => exact Or.inr ⟨entry, rfl, rfl, rfl⟩

theorem layout_cons (alignment : Nat) (arenas : ArenaInfo) (buffer : MemoryBuffer)
    (rest : List MemoryBuffer) :
    layout alignment arenas (buffer :: rest) =
      (layoutBuffer alignment arenas buffer).2 ::
        layout alignment (layoutBuffer alignment arenas buffer).1 rest := rfl

theorem layoutBuffer_same (alignment : Nat) (arenas : ArenaInfo) (buffer : MemoryBuffer) :
    ∃ arenaIndex offset, (layoutBuffer alignment arenas buffer).2 =
      { buffer with arenaIndex := arenaIndex, offset := offset } := by
  rcases layoutBuffer_cases alignment arenas buffer with ⟨-, same, -⟩ | ⟨entry, -, same, -⟩
  · exact ⟨_, _, same⟩
  · exact ⟨_, _, same⟩

/-- The number a buffer gets is the old one of its arena, or a new one. -/
theorem layoutBuffer_number {alignment : Nat} {arenas : ArenaInfo} (buffer : MemoryBuffer)
    (numbered : Numbered arenas) :
    (layoutBuffer alignment arenas buffer).2.arenaIndex <
        (layoutBuffer alignment arenas buffer).1.size ∧
      arenas.size ≤ (layoutBuffer alignment arenas buffer).1.size ∧
      ∀ key entry, arenas.find key = some entry →
        ((layoutBuffer alignment arenas buffer).2.arenaIndex = entry.1 ↔ key = buffer.key) := by
  rcases layoutBuffer_cases alignment arenas buffer with ⟨missing, same, size⟩ | ⟨own, found, same, size⟩
  · rw [same, size]
    refine ⟨Nat.lt_succ_self _, Nat.le_succ _, fun key entry there => ?_⟩
    have old := numbered.below key entry there
    constructor
    · intro equal
      exact absurd equal old.ne'
    · rintro rfl
      rw [missing] at there
      cases there
  · rw [same, size]
    refine ⟨numbered.below _ _ found, le_refl _, fun key entry there => ?_⟩
    constructor
    · exact fun equal => (numbered.injective _ _ _ _ found there equal).symm
    · rintro rfl
      rw [found] at there
      rw [Option.some.inj there]

theorem layoutBuffer_numbered (alignment : Nat) {arenas : ArenaInfo} (buffer : MemoryBuffer)
    (numbered : Numbered arenas) : Numbered (layoutBuffer alignment arenas buffer).1 := by
  obtain ⟨below, grows, number⟩ := layoutBuffer_number buffer numbered
  constructor
  · intro key entry found
    rw [layoutBuffer_find] at found
    split at found
    · obtain rfl := Option.some.inj found
      exact below
    · exact (numbered.below key entry found).trans_le grows
  · intro key other a b left right equal
    rw [layoutBuffer_find] at left right
    split at left
    · next here =>
        obtain rfl := Option.some.inj left
        split at right
        · next there => rw [here, there]
        · exact here.trans ((number other b right).mp equal).symm
    · split at right
      · next there =>
          obtain rfl := Option.some.inj right
          exact ((number key a left).mp equal.symm).trans there.symm
      · exact numbered.injective key other a b left right equal

/-- `arena_info` behind a list of buffers. -/
def arenasAfter (alignment : Nat) (arenas : ArenaInfo) (buffers : List MemoryBuffer) : ArenaInfo :=
  buffers.foldl (fun arenas buffer => (layoutBuffer alignment arenas buffer).1) arenas

theorem arenasAfter_numbered (alignment : Nat) (buffers : List MemoryBuffer) {arenas : ArenaInfo}
    (numbered : Numbered arenas) : Numbered (arenasAfter alignment arenas buffers) := by
  induction buffers generalizing arenas with
  | nil => exact numbered
  | cons buffer rest ih => exact ih (layoutBuffer_numbered alignment buffer numbered)

/-- An arena keeps its number. -/
theorem arenasAfter_keeps (alignment : Nat) (buffers : List MemoryBuffer) {arenas : ArenaInfo}
    {key : PoolKey} {entry : Nat × Nat} (numbered : Numbered arenas)
    (found : arenas.find key = some entry) :
    ∃ offset, (arenasAfter alignment arenas buffers).find key = some (entry.1, offset) := by
  induction buffers generalizing arenas entry with
  | nil => exact ⟨entry.2, found⟩
  | cons buffer rest ih =>
      obtain ⟨-, -, number⟩ := @layoutBuffer_number alignment _ buffer numbered
      have later := layoutBuffer_numbered alignment buffer numbered
      have next := layoutBuffer_find alignment arenas buffer key
      split at next
      · next here =>
          rw [(number key entry found).mpr here] at next
          have kept := ih later next
          exact kept
      · rw [found] at next
        exact ih later next

/-- Every buffer carries the number of its key's arena. -/
theorem layout_numbers (alignment : Nat) (buffers : List MemoryBuffer) {arenas : ArenaInfo}
    (numbered : Numbered arenas) :
    ∀ buffer ∈ layout alignment arenas buffers, ∃ offset,
      (arenasAfter alignment arenas buffers).find buffer.key =
        some (buffer.arenaIndex, offset) := by
  induction buffers generalizing arenas with
  | nil => simp [layout]
  | cons buffer rest ih =>
      have later := layoutBuffer_numbered alignment buffer numbered
      intro placed member
      rw [layout_cons] at member
      rcases List.mem_cons.mp member with rfl | behind
      · have next := layoutBuffer_find alignment arenas buffer buffer.key
        rw [if_pos rfl] at next
        obtain ⟨_, _, same⟩ := layoutBuffer_same alignment arenas buffer
        have key : (layoutBuffer alignment arenas buffer).2.key = buffer.key := by
          rw [same]
          rfl
        rw [key]
        exact arenasAfter_keeps alignment rest later next
      · exact ih later placed behind

/-- Buffers are in one arena when their keys agree. -/
theorem layout_arenas {alignment : Nat} {buffers : List MemoryBuffer} {a b : MemoryBuffer}
    (left : a ∈ layout alignment {} buffers) (right : b ∈ layout alignment {} buffers) :
    a.arenaIndex = b.arenaIndex ↔ a.key = b.key := by
  obtain ⟨_, foundA⟩ := layout_numbers alignment buffers numbered_empty a left
  obtain ⟨_, foundB⟩ := layout_numbers alignment buffers numbered_empty b right
  constructor
  · exact (arenasAfter_numbered alignment buffers numbered_empty).injective _ _ _ _ foundA foundB
  · intro same
    rw [same, foundB] at foundA
    exact (congrArg Prod.fst (Option.some.inj foundA)).symm

end Numbers

section Offsets

/-- The end of an arena that holds these buffers, in the integers. -/
def arenaEnd (alignment : Nat) (buffers : List MemoryBuffer) : Nat :=
  buffers.foldl (fun offset buffer => roundUp offset alignment + buffer.bytes) 0

theorem foldl_arenaEnd {alignment : Nat} {buffers : List MemoryBuffer}
    (whole : ∀ buffer ∈ buffers, alignment ∣ buffer.bytes) {offset : Nat}
    (start : alignment ∣ offset) :
    buffers.foldl (fun offset buffer => roundUp offset alignment + buffer.bytes) offset =
      offset + (buffers.map MemoryBuffer.bytes).sum := by
  induction buffers generalizing offset with
  | nil => simp
  | cons buffer rest ih =>
      have here := whole buffer List.mem_cons_self
      rw [List.foldl_cons, roundUp_of_dvd start,
        ih (fun other member => whole other (List.mem_cons_of_mem _ member))
          (Nat.dvd_add start here),
        List.map_cons, List.sum_cons, Nat.add_assoc]

/-- Buffers of aligned sizes leave no gaps. -/
theorem arenaEnd_eq {alignment : Nat} {buffers : List MemoryBuffer}
    (whole : ∀ buffer ∈ buffers, alignment ∣ buffer.bytes) :
    arenaEnd alignment buffers = (buffers.map MemoryBuffer.bytes).sum := by
  rw [arenaEnd, foldl_arenaEnd whole (Nat.dvd_zero _), Nat.zero_add]

def ofKey (key : PoolKey) (buffers : List MemoryBuffer) : List MemoryBuffer :=
  buffers.filter fun buffer => buffer.key = key

def keyBytes (key : PoolKey) (buffers : List MemoryBuffer) : Nat :=
  ((ofKey key buffers).map MemoryBuffer.bytes).sum

theorem keyBytes_append (key : PoolKey) (left right : List MemoryBuffer) :
    keyBytes key (left ++ right) = keyBytes key left + keyBytes key right := by
  simp [keyBytes, ofKey]

theorem keyBytes_le (key : PoolKey) (buffers : List MemoryBuffer) :
    keyBytes key buffers ≤ (buffers.map MemoryBuffer.bytes).sum :=
  (List.Sublist.map _ (List.filter_sublist)).sum_le_sum fun _ _ => Nat.zero_le _

theorem keyBytes_take {buffers : List MemoryBuffer} {i j : Nat} {buffer : MemoryBuffer}
    (found : buffers[i]? = some buffer) (later : i < j) :
    keyBytes buffer.key (buffers.take i) + buffer.bytes ≤ keyBytes buffer.key (buffers.take j) := by
  obtain ⟨inside, rfl⟩ := List.getElem?_eq_some_iff.mp found
  have own : keyBytes buffers[i].key [buffers[i]] = buffers[i].bytes := by simp [keyBytes, ofKey]
  have first : buffers.take (i + 1) = buffers.take i ++ [buffers[i]] := by simp
  have split : buffers.take j = buffers.take (i + 1) ++ (buffers.take j).drop (i + 1) := by
    have parts := List.take_append_drop (i + 1) (buffers.take j)
    rw [List.take_take, min_eq_left later] at parts
    exact parts.symm
  rw [split, keyBytes_append, first, keyBytes_append, own]
  exact Nat.le_add_right _ _

theorem keyBytes_dvd {alignment : Nat} (key : PoolKey) {buffers : List MemoryBuffer}
    (whole : ∀ buffer ∈ buffers, alignment ∣ buffer.bytes) : alignment ∣ keyBytes key buffers := by
  apply List.dvd_sum
  intro bytes member
  obtain ⟨buffer, kept, rfl⟩ := List.mem_map.mp member
  exact whole buffer (List.mem_filter.mp kept).1

theorem alignUp_of_dvd {value alignment : Nat} (whole : alignment ∣ value) :
    alignUp value alignment = value := by
  unfold alignUp
  split
  · rfl
  · exact if_pos (Nat.mod_eq_zero_of_dvd whole)

/-- Each arena ends where the buffers in it do. -/
def Ends (arenas : ArenaInfo) (earlier : List MemoryBuffer) : Prop :=
  ∀ key, (arenas.find key = none → keyBytes key earlier = 0) ∧
    ∀ entry, arenas.find key = some entry → entry.2 = keyBytes key earlier

theorem layoutBuffer_ends {alignment : Nat} {arenas : ArenaInfo} {earlier : List MemoryBuffer}
    {buffer : MemoryBuffer} (ends : Ends arenas earlier)
    (whole : ∀ other ∈ earlier, alignment ∣ other.bytes)
    (fits : keyBytes buffer.key (earlier ++ [buffer]) ≤ sizeMax) :
    (layoutBuffer alignment arenas buffer).2.offset = keyBytes buffer.key earlier ∧
      Ends (layoutBuffer alignment arenas buffer).1 (earlier ++ [buffer]) := by
  have own : keyBytes buffer.key [buffer] = buffer.bytes := by simp [keyBytes, ofKey]
  rw [keyBytes_append, own] at fits
  have aligned := alignUp_of_dvd (keyBytes_dvd buffer.key whole)
  obtain ⟨missing, known⟩ := ends buffer.key
  have offset : (layoutBuffer alignment arenas buffer).2.offset = keyBytes buffer.key earlier ∧
      endOf alignment arenas buffer = keyBytes buffer.key earlier + buffer.bytes := by
    unfold endOf
    rcases layoutBuffer_cases alignment arenas buffer with
      ⟨absent, same, -⟩ | ⟨entry, found, same, -⟩
    · rw [same, absent, missing absent]
      exact ⟨rfl, (Nat.zero_add _).symm⟩
    · rw [same, found]
      dsimp only
      rw [known entry found, aligned, wrapSize_self fits]
      exact ⟨rfl, rfl⟩
  refine ⟨offset.1, fun key => ?_⟩
  rw [layoutBuffer_find, keyBytes_append]
  split
  · next here =>
      rw [here, own, offset.2]
      refine ⟨(by simp), fun entry found => ?_⟩
      obtain rfl := Option.some.inj found
      rfl
  · next elsewhere =>
      have none_of : keyBytes key [buffer] = 0 := by simp [keyBytes, ofKey, Ne.symm elsewhere]
      rw [none_of, Nat.add_zero]
      exact ends key

/-- A buffer starts behind the earlier ones of its arena. -/
theorem layout_offsets {alignment : Nat} {buffers : List MemoryBuffer} {arenas : ArenaInfo}
    {earlier : List MemoryBuffer} (ends : Ends arenas earlier)
    (whole : ∀ other ∈ earlier ++ buffers, alignment ∣ other.bytes)
    (fits : ∀ key, keyBytes key (earlier ++ buffers) ≤ sizeMax) {i : Nat} {placed : MemoryBuffer}
    (found : (layout alignment arenas buffers)[i]? = some placed) :
    placed.offset = keyBytes placed.key (earlier ++ buffers.take i) := by
  induction buffers generalizing arenas earlier i with
  | nil => simp [layout] at found
  | cons buffer rest ih =>
      have split : earlier ++ buffer :: rest = (earlier ++ [buffer]) ++ rest := by simp
      rw [split] at whole fits
      have small : keyBytes buffer.key (earlier ++ [buffer]) ≤ sizeMax := by
        refine le_trans ?_ (fits buffer.key)
        rw [keyBytes_append _ (earlier ++ [buffer])]
        exact Nat.le_add_right _ _
      obtain ⟨offset, next⟩ := layoutBuffer_ends ends
        (fun other member => whole other (by simp [member])) small
      rw [layout_cons] at found
      cases i with
      | zero =>
          obtain rfl := Option.some.inj found
          obtain ⟨_, _, same⟩ := layoutBuffer_same alignment arenas buffer
          have key : (layoutBuffer alignment arenas buffer).2.key = buffer.key := by
            rw [same]
            rfl
          rw [offset, key]
          simp
      | succ i =>
          have behind := ih next whole fits found
          rw [behind]
          simp

/-- Two buffers that differ in their places only. -/
def SameBuffer (buffer placed : MemoryBuffer) : Prop :=
  ∃ arenaIndex offset, placed = { buffer with arenaIndex := arenaIndex, offset := offset }

theorem layout_same (alignment : Nat) (buffers : List MemoryBuffer) (arenas : ArenaInfo) :
    List.Forall₂ SameBuffer buffers (layout alignment arenas buffers) := by
  induction buffers generalizing arenas with
  | nil => exact List.Forall₂.nil
  | cons buffer rest ih =>
      exact List.Forall₂.cons (layoutBuffer_same alignment arenas buffer) (ih _)

theorem keyBytes_same {buffers placed : List MemoryBuffer}
    (same : List.Forall₂ SameBuffer buffers placed) (pool : PoolKey) :
    keyBytes pool placed = keyBytes pool buffers := by
  induction same with
  | nil => rfl
  | @cons buffer other buffers placed here _ ih =>
      obtain ⟨arenaIndex, offset, rfl⟩ := here
      have key : MemoryBuffer.key { buffer with arenaIndex := arenaIndex, offset := offset } =
        buffer.key := rfl
      unfold keyBytes ofKey at ih ⊢
      simp only [List.filter_cons, key]
      split
      · simpa using ih
      · exact ih

end Offsets

end MiniLLM.MemoryPlanner
