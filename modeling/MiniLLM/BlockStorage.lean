import Mathlib.Data.List.Basic
import Mathlib.Order.MinMax

/-!
Bytes at addresses, the blocks of them in use, and an allocator that is known by
two facts only: a new block lies inside the address space and apart from the
blocks in use.
-/

namespace MiniLLM.BlockStorage

structure Region where
  base : Nat
  size : Nat
  deriving DecidableEq, Repr

namespace Region

def Covers (region : Region) (address : Nat) : Prop :=
  region.base ≤ address ∧ address < region.base + region.size

def Apart (a b : Region) : Prop := a.base + a.size ≤ b.base ∨ b.base + b.size ≤ a.base

def Within (a b : Region) : Prop := b.base ≤ a.base ∧ a.base + a.size ≤ b.base + b.size

instance (a b : Region) : Decidable (Apart a b) := inferInstanceAs (Decidable (_ ∨ _))

instance (a b : Region) : Decidable (Within a b) := inferInstanceAs (Decidable (_ ∧ _))

def contents (region : Region) (bytes : Nat → UInt8) : List UInt8 :=
  (List.range region.size).map fun i => bytes (region.base + i)

theorem Apart.symm {a b : Region} (apart : a.Apart b) : b.Apart a := Or.symm apart

theorem Within.refl (a : Region) : a.Within a := ⟨le_rfl, le_rfl⟩

theorem Within.trans {a b c : Region} (inner : a.Within b) (outer : b.Within c) : a.Within c :=
  ⟨outer.1.trans inner.1, inner.2.trans outer.2⟩

theorem Within.covers {a b : Region} (within : a.Within b) {address : Nat}
    (covered : a.Covers address) : b.Covers address :=
  ⟨within.1.trans covered.1, covered.2.trans_le within.2⟩

/-- Parts of regions that lie apart lie apart. -/
theorem Apart.within {a b a' b' : Region} (apart : a'.Apart b') (left : a.Within a')
    (right : b.Within b') : a.Apart b := by
  rcases apart with before | behind
  · exact Or.inl (left.2.trans (before.trans right.1))
  · exact Or.inr (right.2.trans (behind.trans left.1))

theorem Apart.not_covers {a b : Region} (apart : a.Apart b) {address : Nat}
    (covered : a.Covers address) : ¬ b.Covers address := by
  obtain ⟨low, high⟩ := covered
  rintro ⟨low', high'⟩
  rcases apart with before | behind
  · omega
  · omega

theorem contents_congr {region : Region} {bytes other : Nat → UInt8}
    (same : ∀ address, region.Covers address → bytes address = other address) :
    region.contents bytes = region.contents other := by
  apply List.map_congr_left
  intro i member
  have inside := List.mem_range.mp member
  exact same _ ⟨Nat.le_add_right _ _, by omega⟩

@[simp] theorem contents_length (region : Region) (bytes : Nat → UInt8) :
    (region.contents bytes).length = region.size := by simp [contents]

end Region

structure Heap where
  bytes : Nat → UInt8 := fun _ => 0
  taken : List Region := []

namespace Heap

/-- The address lies in a block in use. -/
def Used (heap : Heap) (address : Nat) : Prop := ∃ block ∈ heap.taken, block.Covers address

/-- The region is part of a block in use. -/
def Stores (heap : Heap) (region : Region) : Prop := ∃ block ∈ heap.taken, region.Within block

/-- A block taken into use, zeroed. -/
def take (heap : Heap) (block : Region) : Heap where
  bytes address :=
    if block.base ≤ address ∧ address < block.base + block.size then 0 else heap.bytes address
  taken := block :: heap.taken

/-- The region filled with a list of bytes, cut or filled up with zeros. -/
def write (heap : Heap) (region : Region) (source : List UInt8) : Heap where
  bytes address :=
    if region.base ≤ address ∧ address < region.base + region.size then
      source.getD (address - region.base) 0
    else heap.bytes address
  taken := heap.taken

theorem write_outside (heap : Heap) {region : Region} (source : List UInt8) {address : Nat}
    (outside : ¬ region.Covers address) :
    (heap.write region source).bytes address = heap.bytes address := if_neg outside

theorem contents_write (heap : Heap) (region : Region) (source : List UInt8) :
    region.contents (heap.write region source).bytes =
      (List.range region.size).map fun i => source.getD i 0 := by
  apply List.map_congr_left
  intro i member
  have inside : region.Covers (region.base + i) :=
    ⟨Nat.le_add_right _ _, Nat.add_lt_add_left (List.mem_range.mp member) _⟩
  exact (if_pos inside).trans (by rw [Nat.add_sub_cancel_left])

theorem Stores.used {heap : Heap} {region : Region} (stored : heap.Stores region) {address : Nat}
    (covered : region.Covers address) : heap.Used address := by
  obtain ⟨block, member, within⟩ := stored
  exact ⟨block, member, within.covers covered⟩

end Heap

structure Allocator (limit : Nat) where
  place : Heap → Nat → Option Nat
  bounded : ∀ {heap size base}, place heap size = some base → base + size ≤ limit
  apart : ∀ {heap size base}, place heap size = some base → ∀ block ∈ heap.taken,
    Region.Apart ⟨base, size⟩ block

namespace Allocator

variable {limit : Nat}

def allocate (allocator : Allocator limit) (heap : Heap) (size : Nat) : Option (Nat × Heap) :=
  (allocator.place heap size).map fun base => (base, heap.take ⟨base, size⟩)

/-- A later heap: the blocks of the earlier one are in use and hold what they held. -/
structure Later (before after : Heap) : Prop where
  grown : ∀ block ∈ before.taken, block ∈ after.taken
  kept : ∀ address, before.Used address → after.bytes address = before.bytes address

theorem Later.refl (heap : Heap) : Later heap heap := ⟨fun _ member => member, fun _ _ => rfl⟩

theorem Later.used {before after : Heap} (later : Later before after) {address : Nat}
    (used : before.Used address) : after.Used address := by
  obtain ⟨block, member, covered⟩ := used
  exact ⟨block, later.grown block member, covered⟩

theorem Later.trans {first second third : Heap} (left : Later first second)
    (right : Later second third) : Later first third where
  grown block member := right.grown block (left.grown block member)
  kept address used := (right.kept address (left.used used)).trans (left.kept address used)

theorem Later.stores {before after : Heap} (later : Later before after) {region : Region}
    (stored : before.Stores region) : after.Stores region := by
  obtain ⟨block, member, within⟩ := stored
  exact ⟨block, later.grown block member, within⟩

theorem Later.contents {before after : Heap} (later : Later before after) {region : Region}
    (stored : before.Stores region) :
    region.contents after.bytes = region.contents before.bytes :=
  Region.contents_congr fun address covered => later.kept address (stored.used covered)

/-- What an allocation gives: a block of the size asked for, apart from those in use. -/
theorem allocate_spec {allocator : Allocator limit} {heap after : Heap} {size base : Nat}
    (allocated : allocator.allocate heap size = some (base, after)) :
    base + size ≤ limit ∧ Later heap after ∧ ⟨base, size⟩ ∈ after.taken ∧
      (∀ block ∈ heap.taken, Region.Apart ⟨base, size⟩ block) ∧
      ∀ block ∈ after.taken, block = ⟨base, size⟩ ∨ block ∈ heap.taken := by
  obtain ⟨start, placed, same⟩ := Option.map_eq_some_iff.mp allocated
  obtain ⟨rfl, rfl⟩ := Prod.mk.inj same
  have apart := allocator.apart placed
  refine ⟨allocator.bounded placed, ⟨fun block member => List.mem_cons_of_mem _ member, ?_⟩,
    List.mem_cons_self, apart, fun block member => List.mem_cons.mp member⟩
  rintro address ⟨block, member, covered⟩
  exact if_neg fun fresh => (apart block member).not_covers fresh covered

/-- Puts each block behind all others. -/
def bump (limit : Nat) : Allocator limit where
  place heap size :=
    let base := heap.taken.foldr (fun block top => max top (block.base + block.size)) 0
    if base + size ≤ limit then some base else none
  bounded := by
    intro heap size base placed
    dsimp only at placed
    split at placed
    · next fits => exact Option.some.inj placed ▸ fits
    · cases placed
  apart := by
    intro heap size base placed block member
    have top : block.base + block.size ≤
        heap.taken.foldr (fun block top => max top (block.base + block.size)) 0 := by
      generalize heap.taken = blocks at member
      induction blocks with
      | nil => cases member
      | cons head rest ih =>
          rw [List.foldr_cons]
          rcases List.mem_cons.mp member with rfl | later
          · exact le_max_right _ _
          · exact (ih later).trans (le_max_left _ _)
    dsimp only at placed
    split at placed
    · exact Or.inr (Option.some.inj placed ▸ top)
    · cases placed

end Allocator

end MiniLLM.BlockStorage
