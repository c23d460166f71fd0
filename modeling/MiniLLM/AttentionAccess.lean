import MiniLLM.PagedRuns

/-!
What the attention kernel touches. `kernel_attention` casts the attributes and the
dimensions to `int` and indexes with `int` products; a call that returns success reads
and writes the listed floats, each at the wrapped index the source computes. The work
buffers on the heap are not listed.
-/

namespace MiniLLM.CpuKernelAdapter

open Cpu

variable {α : Type}

section Status

variable [Field α] [LinearOrder α]

/-- What the kernel returns, wherever its indices lead. -/
def attentionStatus (ops : FloatOps α) (node : Node α) (ctx : RuntimeContext α) : Option Failure :=
  match attentionArgs node ctx with
  | .error failure => some failure
  | .ok args => (attentionMode ops args (node.outputs.getD 0 0) ctx).1

/-- It is the kernel's own where the indices are `int`s. -/
theorem attentionStatus_eq (ops : FloatOps α) {node : Node α} {ctx : RuntimeContext α}
    (fits : ∀ args, attentionArgs node ctx = .ok args →
      AttentionFits ops args (node.outputs.getD 0 0) ctx) :
    attentionStatus ops node ctx = (kernelAttention ops node ctx).1 := by
  unfold attentionStatus
  cases accepted : attentionArgs node ctx with
  | error failure => simp only [kernelAttention, accepted]
  | ok args => rw [kernelAttention_fits accepted (fits args accepted)]

end Status

section Accesses

/-- The buffers of a call; a cache place is the K or V buffer of the node's layer. -/
inductive Place where
  | q | k | v | output | cacheK | cacheV
  deriving DecidableEq, Repr

def Place.isCache : Place → Bool
  | .cacheK | .cacheV => true
  | _ => false

/-- `count` floats from `index` on. -/
structure Access where
  place : Place
  index : Int
  count : Int := 1
  deriving DecidableEq, Repr

def Access.Inside (size : Place → Int) (access : Access) : Prop :=
  0 ≤ access.index ∧ 0 ≤ access.count ∧ access.index + access.count ≤ size access.place

/-- The loops over rows, heads and floats around one access. -/
def headLoops (seqLen nh hd : Nat) (place : Place) (index : Nat → Nat → Nat → Int) : List Access :=
  (List.range seqLen).flatMap fun (s : Nat) =>
    (List.range nh).flatMap fun (h : Nat) =>
      (List.range hd).map fun (d : Nat) => ⟨place, wrap32 (index s h d), 1⟩

/-- A copy of one row of K and of V, from the tensors to the cache. -/
def copyRow (source target count : Int) : List Access :=
  [⟨.k, source, count⟩, ⟨.cacheK, target, count⟩, ⟨.v, source, count⟩, ⟨.cacheV, target, count⟩]

variable (args : AttentionArgs α)

def rowsOf (place : Place) (b : Nat) : List Access :=
  headLoops args.seqLen.toNat args.nh.toNat args.hd.toNat place fun s h d =>
    b * args.seqLen * args.qHidden + s * args.qHidden + h * args.hd + d

def noCacheAccesses : List Access :=
  (List.range args.batch.toNat).flatMap fun (b : Nat) =>
    let kvSrc := fun (s h d : Nat) =>
      b * args.seqLen * args.kvHidden + s * args.kvHidden + (h : Int) / (args.nh / args.nkv) * args.hd
        + d
    rowsOf args .q b ++
      headLoops args.seqLen.toNat args.nh.toNat args.hd.toNat .k kvSrc ++
      headLoops args.seqLen.toNat args.nh.toNat args.hd.toNat .v kvSrc ++
      rowsOf args .output b

/-- `nkv * hd`, the floats of a cached row. -/
def kvWidth : Int := wrap32 (args.nkv * args.hd)

def prefillAccesses : List Access :=
  let cached := fun (s h d : Nat) =>
    s * kvWidth args + (h : Int) / (args.nh / args.nkv) * args.hd + d
  ((List.range args.seqLen.toNat).flatMap fun (s : Nat) =>
      copyRow (wrap32 (s * args.kvHidden)) (wrap32 (s * kvWidth args)) (kvWidth args)) ++
    rowsOf args .q 0 ++
    headLoops args.seqLen.toNat args.nh.toNat args.hd.toNat .cacheK cached ++
    headLoops args.seqLen.toNat args.nh.toNat args.hd.toNat .cacheV cached ++
    rowsOf args .output 0

/-- `flash_sdpa_decode` points into the cache with two `int` offsets. -/
def decodeAccesses (cachedLen : Int) : List Access :=
  copyRow 0 (wrap32 (cachedLen * kvWidth args)) (kvWidth args) ++
    headLoops 1 args.nh.toNat args.hd.toNat .q (fun _ h d => h * args.hd + d) ++
    ((List.range args.nh.toNat).flatMap fun (h : Nat) =>
      (List.range (cachedLen + 1).toNat).flatMap fun (ki : Nat) =>
        let row := wrap32 (ki * kvWidth args) + wrap32 ((h : Int) / (args.nh / args.nkv) * args.hd)
        [⟨.cacheK, row, args.hd⟩, ⟨.cacheV, row, args.hd⟩]) ++
    (List.range (wrap32 (args.nh * args.hd)).toNat).map fun (i : Nat) => ⟨.output, i, 1⟩

variable (seqId start : Int) (after : PagedKVCache α)

/-- The first float of a position's row in the paged storage, behind no pointer
when the position has no block. -/
def rowStart (pos : Int) : Int :=
  match after.physicalBlockForPosition seqId pos with
  | .ok block => after.rowIndex block pos
  | .error _ => -1

/-- Reads through `key_ptr` and `value_ptr`, with the cache's own stride of a head. -/
def headReads (kvHead limit : Int) : List Access :=
  (List.range limit.toNat).flatMap fun (pos : Nat) =>
    let index := rowStart seqId after pos + kvHead * after.headDim
    [⟨.cacheK, index, args.hd⟩, ⟨.cacheV, index, args.hd⟩]

/-- `after` is the cache behind the chunk's writes. -/
def pagedAccesses : List Access :=
  ((List.range args.seqLen.toNat).flatMap fun (s : Nat) =>
      copyRow (wrap32 (s * args.kvHidden)) (rowStart seqId after (wrap32 (start + s)))
        after.kvHidden) ++
    rowsOf args .q 0 ++
    (if args.seqLen = 1 then
      (List.range args.nh.toNat).flatMap fun (h : Nat) =>
        headReads args seqId after ((h : Int) / (args.nh / after.numKvHeads))
          (after.sequenceLength seqId)
    else
      (List.range args.nh.toNat).flatMap fun (h : Nat) =>
        (List.range args.seqLen.toNat).flatMap fun (qs : Nat) =>
          headReads args seqId after ((h : Int) / (args.nh / args.nkv)) (wrap32 (start + qs + 1))) ++
    rowsOf args .output 0

end Accesses

end MiniLLM.CpuKernelAdapter
