import MiniLLM.Softmax
import MiniLLM.Strides

/-!
The attention and RoPE kernels of runtime/kernels/cpu_kernels.cpp over an exact
ordered field. `FloatOps` holds what the code takes from <cmath> and from the
build: elementary functions, the value of `-FLT_MAX` and `MINILLM_SIMD_WIDTH`.
A pointer into a buffer is the buffer of the floats at and after it, and a negative
infinity is `none`. Offsets and counters are `int`s: a kernel has no outcome where one of
them leaves `int`, or where it divides by zero.
-/

namespace MiniLLM

structure FloatOps (α : Type) where
  exp : α → α
  sqrt : α → α
  cos : α → α
  sin : α → α
  pow : α → α → α
  lowest : α
  simdWidth : Nat

namespace Cpu

open Loops Softmax Strides

variable {α : Type} [Field α] [LinearOrder α]

def hsum (width : Nat) (lanes : Buffer α) : α := loop width (fun lane sum => sum + lanes lane) 0

/-- The SIMD dot product: vector body, horizontal sum, scalar tail. -/
def dot (ops : FloatOps α) (q k : Buffer α) (n : Nat) : α :=
  let width := ops.simdWidth
  let vsum := loop (n / width)
    (fun i vsum lane => vsum lane + q (i * width + lane) * k (i * width + lane)) fun _ => 0
  loop (n % width)
    (fun t dot => dot + q (n / width * width + t) * k (n / width * width + t)) (hsum width vsum)

/-- An elementwise update of the first `n` floats: vector body, scalar tail. -/
def simdMap (ops : FloatOps α) (n : Nat) (f : Nat → α → α) (row : Buffer α) : Buffer α :=
  let width := ops.simdWidth
  let body := loop (n / width)
    (fun i row d => if i * width ≤ d ∧ d < i * width + width then f d (row d) else row d) row
  loop (n % width)
    (fun t row => store row (n / width * width + t)
      (f (n / width * width + t) (row (n / width * width + t)))) body

def scaleOf (ops : FloatOps α) (headDim : Nat) : α := 1 / ops.sqrt headDim

structure FlashState (α : Type) where
  m : Option α := none
  l : α
  o : Buffer α

-- The query row and the rows of K and V a head attends to; `causalAt` is the
-- row's own position when the mask is on.
structure FlashRow (α : Type) where
  q : Buffer α
  k : Nat → Buffer α
  v : Nat → Buffer α
  causalAt : Option Nat

def FlashRow.masked (row : FlashRow α) (ki : Nat) : Bool :=
  match row.causalAt with
  | some qi => ki > qi
  | none => false

def kvTile : Nat := 32

/-- Scores of a tile and their maximum. -/
def tileScores (ops : FloatOps α) (headDim : Nat) (row : FlashRow α) (kt count : Nat) :
    Buffer (Option α) × Option α :=
  loop count (fun i tile =>
      if row.masked (kt + i) then (store tile.1 i none, tile.2)
      else
        let score := dot ops row.q (row.k (kt + i)) headDim * scaleOf ops headDim
        (store tile.1 i (some score), maxScore tile.2 (some score)))
    (fun _ => none, none)

def tileWeights (ops : FloatOps α) (count : Nat) (scores : Buffer (Option α)) (m : Option α) :
    Buffer α × α :=
  loop count (fun i tile =>
      let e := weightAt ops.exp (scores i) m
      (store tile.1 i e, tile.2 + e))
    (fun _ => 0, 0)

def flashTile (ops : FloatOps α) (headDim : Nat) (row : FlashRow α) (kt tileEnd : Nat)
    (state : FlashState α) : FlashState α :=
  let (scores, tileMax) := tileScores ops headDim row kt (tileEnd - kt)
  let mNew := maxScore state.m tileMax
  let alpha := if state.m = none then 1 else weightAt ops.exp state.m mNew
  let (weights, tileSum) := tileWeights ops (tileEnd - kt) scores mNew
  let o := simdMap ops headDim (fun _ x => x * alpha) state.o
  let l := state.l * alpha
  let o := loop (tileEnd - kt) (fun i o =>
      let w := weights i
      if w = 0 then o else simdMap ops headDim (fun d x => w * row.v (kt + i) d + x) o) o
  { m := mNew, l := l + tileSum, o := o }

/-- The loop over the tiles of one query row; it breaks behind the diagonal. -/
def flashTiles (ops : FloatOps α) (headDim kvLen : Nat) (row : FlashRow α) : FlashState α :=
  (loopTry ((kvLen + kvTile - 1) / kvTile) (fun t state =>
      if row.masked (t * kvTile) then (some (), state)
      else (none, flashTile ops headDim row (t * kvTile) (min (t * kvTile + kvTile) kvLen) state))
    { m := none, l := 0, o := fun _ => 0 }).2

def flashRow (ops : FloatOps α) (headDim kvLen : Nat) (row : FlashRow α) : Buffer α :=
  let state := flashTiles ops headDim kvLen row
  if state.l > 0 then simdMap ops headDim (fun _ x => x * (1 / state.l)) state.o else state.o

def flashSdpaRows (ops : FloatOps α) (q k v output : Buffer α) (heads qLen kvLen headDim : Nat)
    (causal : Bool) : Buffer α :=
  let qPerHead := qLen * headDim
  let kvPerHead := kvLen * headDim
  loop heads (fun h output =>
      loop qLen (fun qi output =>
          copyFloats headDim output (h * qPerHead + qi * headDim)
            (flashRow ops headDim kvLen
              { q := fun d => q (h * qPerHead + qi * headDim + d)
                k := fun ki d => k (h * kvPerHead + ki * headDim + d)
                v := fun ki d => v (h * kvPerHead + ki * headDim + d)
                causalAt := if causal then some qi else none }))
        output)
    output

/-- `q_per_head`, `kv_per_head` and the starts of the heads. -/
def HeadsFit (heads qLen kvLen headDim : Nat) : Prop :=
  qLen * headDim ≤ intMax ∧ kvLen * headDim ≤ intMax ∧
    RowsFit heads (qLen * headDim) ∧ RowsFit heads (kvLen * headDim)

/-- The tiles the last query row comes to; under the mask it breaks at the first one
behind its position. -/
def tilesSeen (qLen kvLen : Nat) (causal : Bool) : Nat :=
  if causal then min ((kvLen + kvTile - 1) / kvTile) ((qLen - 1) / kvTile + 2)
  else (kvLen + kvTile - 1) / kvTile

/-- The `int`s of `flash_sdpa`: the offsets, the end of each tile and the counter along a
head. -/
def FlashSdpaFits (width heads qLen kvLen headDim : Nat) (causal : Bool) : Prop :=
  HeadsFit heads qLen kvLen headDim ∧ (0 < heads → 0 < qLen → 0 < kvLen →
    tilesSeen qLen kvLen causal * kvTile ≤ intMax ∧ VectorsFit width headDim)

instance (heads qLen kvLen headDim : Nat) : Decidable (HeadsFit heads qLen kvLen headDim) :=
  inferInstanceAs (Decidable (_ ∧ _))

instance (width heads qLen kvLen headDim : Nat) (causal : Bool) :
    Decidable (FlashSdpaFits width heads qLen kvLen headDim causal) :=
  inferInstanceAs (Decidable (_ ∧ _))

def flashSdpa (ops : FloatOps α) (q k v output : Buffer α) (heads qLen kvLen headDim : Nat)
    (causal : Bool) : Option (Buffer α) :=
  if FlashSdpaFits ops.simdWidth heads qLen kvLen headDim causal then
    some (flashSdpaRows ops q k v output heads qLen kvLen headDim causal)
  else none

-- The lanes are compared in turn; a register has at least one.
def hmax (width : Nat) (lanes : Buffer α) : α :=
  loop (width - 1) (fun lane m => max m (lanes (lane + 1))) (lanes 0)

-- A running maximum starts at `-FLT_MAX`, above a negative infinity.
def raise (m : α) : Option α → α
  | none => m
  | some score => max m score

def rowMax (ops : FloatOps α) (n : Nat) (row : Buffer (Option α)) : α :=
  let width := ops.simdWidth
  let vmax := loop (n / width)
    (fun i vmax lane => raise (vmax lane) (row (i * width + lane))) fun _ => ops.lowest
  loop (n % width) (fun t m => raise m (row (n / width * width + t))) (hmax width vmax)

-- The vector part of a row of exponentials: the registers stored, and their sums.
def expVectors (ops : FloatOps α) (n : Nat) (row : Buffer (Option α)) (m : α) :
    Buffer α × Buffer α :=
  let width := ops.simdWidth
  loop (n / width) (fun i acc =>
      let ve := fun lane => weightAt ops.exp (row (i * width + lane)) (some m)
      (copyFloats width acc.1 (i * width) ve, fun lane => acc.2 lane + ve lane))
    (fun _ => 0, fun _ => 0)

/-- `exp(x - max)` along a row of scores, and the sum. -/
def rowExp (ops : FloatOps α) (n : Nat) (row : Buffer (Option α)) (m : α) : Buffer α × α :=
  let width := ops.simdWidth
  let (stored, vsum) := expVectors ops n row m
  loop (n % width) (fun t acc =>
      let e := weightAt ops.exp (row (n / width * width + t)) (some m)
      (store acc.1 (n / width * width + t) e, acc.2 + e))
    (stored, hsum width vsum)

def normalize (ops : FloatOps α) (n : Nat) (sum : α) (row : Buffer α) : Buffer α :=
  let width := ops.simdWidth
  let body := loop (n / width) (fun i row d =>
      if i * width ≤ d ∧ d < i * width + width then row d * (1 / sum) else row d) row
  loop (n % width) (fun t row => store row (n / width * width + t) (row (n / width * width + t) / sum))
    body

/-- The three passes over a row of scores; exact sums are finite. -/
def softmaxRow (ops : FloatOps α) (n : Nat) (row : Buffer (Option α)) : Buffer α :=
  let (row, sum) := rowExp ops n row (rowMax ops n row)
  if sum ≤ 0 then loop n (fun j row => store row j (1 / (n : α))) row
  else normalize ops n sum row

/-- The score matrix of a head; it is written anew for each head. -/
def sdpaScores (ops : FloatOps α) (q k : Buffer α) (qLen kvLen headDim : Nat) (causal : Bool) :
    Buffer (Option α) :=
  loop qLen (fun qi scores =>
      loop kvLen (fun ki scores =>
        store scores (qi * kvLen + ki)
          (if causal = true ∧ ki > qi then none
          else some (dot ops (fun d => q (qi * headDim + d)) (fun d => k (ki * headDim + d)) headDim *
            scaleOf ops headDim)))
        scores)
    fun _ => none

def sdpaRows (ops : FloatOps α) (q k v output : Buffer α) (heads qLen kvLen headDim : Nat)
    (causal : Bool) : Buffer α :=
  let qPerHead := qLen * headDim
  let kvPerHead := kvLen * headDim
  loop heads (fun h output =>
      let scores := sdpaScores ops (fun i => q (h * qPerHead + i)) (fun i => k (h * kvPerHead + i))
        qLen kvLen headDim causal
      let weights := loop qLen (fun qi weights =>
          copyFloats kvLen weights (qi * kvLen)
            (softmaxRow ops kvLen fun ki => scores (qi * kvLen + ki)))
        fun _ => 0
      loop qLen (fun qi output =>
          loop headDim (fun d output =>
            store output (h * qPerHead + qi * headDim + d)
              (loop kvLen (fun ki acc =>
                acc + weights (qi * kvLen + ki) * v (h * kvPerHead + ki * headDim + d)) 0))
            output)
        output)
    output

/-- The `int`s of `sdpa`: the offsets, among them `qi * kv_len + ki` into the scores, and
the counters along a head and along a row of scores. -/
def SdpaFits (width heads qLen kvLen headDim : Nat) : Prop :=
  HeadsFit heads qLen kvLen headDim ∧ (0 < heads → 0 < qLen → 0 < kvLen →
    qLen * kvLen ≤ intMax + 1 ∧ VectorsFit width headDim ∧ VectorsFit width kvLen)

instance (width heads qLen kvLen headDim : Nat) :
    Decidable (SdpaFits width heads qLen kvLen headDim) :=
  inferInstanceAs (Decidable (_ ∧ _))

def sdpa (ops : FloatOps α) (q k v output : Buffer α) (heads qLen kvLen headDim : Nat)
    (causal : Bool) : Option (Buffer α) :=
  if SdpaFits ops.simdWidth heads qLen kvLen headDim then
    some (sdpaRows ops q k v output heads qLen kvLen headDim causal)
  else none

/-- The `int`s the two decode kernels share: `num_kv_heads * head_dim`, `h * head_dim`,
`ki * kv_hidden` and the counter along a head. They divide by the number of key heads and
by the size of a group. -/
def DecodeFits (width numHeads numKvHeads headDim kvLen : Nat) : Prop :=
  0 < numKvHeads ∧ numKvHeads * headDim ≤ intMax ∧ (0 < numHeads →
    numKvHeads ≤ numHeads ∧ RowsFit numHeads headDim ∧ RowsFit kvLen (numKvHeads * headDim) ∧
      (0 < kvLen → VectorsFit width headDim))

/-- `flash_sdpa_decode` also computes the end of each tile. -/
def FlashDecodeFits (width numHeads numKvHeads headDim kvLen : Nat) : Prop :=
  DecodeFits width numHeads numKvHeads headDim kvLen ∧
    (0 < numHeads → (kvLen + kvTile - 1) / kvTile * kvTile ≤ intMax)

instance (width numHeads numKvHeads headDim kvLen : Nat) :
    Decidable (DecodeFits width numHeads numKvHeads headDim kvLen) :=
  inferInstanceAs (Decidable (_ ∧ _))

instance (width numHeads numKvHeads headDim kvLen : Nat) :
    Decidable (FlashDecodeFits width numHeads numKvHeads headDim kvLen) :=
  inferInstanceAs (Decidable (_ ∧ _))

def flashSdpaDecodeRows (ops : FloatOps α) (q k v output : Buffer α)
    (numHeads numKvHeads headDim kvLen : Nat) : Buffer α :=
  let kvHidden := numKvHeads * headDim
  let groupSize := numHeads / numKvHeads
  loop numHeads (fun h output =>
      let kvH := h / groupSize
      copyFloats headDim output (h * headDim)
        (flashRow ops headDim kvLen
          { q := fun d => q (h * headDim + d)
            k := fun ki d => k (ki * kvHidden + kvH * headDim + d)
            v := fun ki d => v (ki * kvHidden + kvH * headDim + d)
            causalAt := none }))
    output

def ropeTheta (ops : FloatOps α) (base : α) (headDim d : Nat) (pos : Int) : α :=
  ops.pow base (-2 * d / headDim) * pos

def ropeEven (ops : FloatOps α) (base : α) (headDim : Nat) (pos : Int) (x : Buffer α) (d : Nat) : α :=
  x d * ops.cos (ropeTheta ops base headDim d pos) -
    x (d + headDim / 2) * ops.sin (ropeTheta ops base headDim d pos)

def ropeOdd (ops : FloatOps α) (base : α) (headDim : Nat) (pos : Int) (x : Buffer α) (d : Nat) : α :=
  x d * ops.sin (ropeTheta ops base headDim d pos) +
    x (d + headDim / 2) * ops.cos (ropeTheta ops base headDim d pos)

-- One row of `apply_rope`; `row` is the index of the row's first float in `y`.
def applyRopeRow (ops : FloatOps α) (x : Buffer α) (y : Buffer α) (row headDim : Nat) (base : α)
    (pos : Int) : Buffer α :=
  let width := ops.simdWidth
  let half := headDim / 2
  let body := loop (half / width) (fun i y =>
      copyFloats width
        (copyFloats width y (row + i * width)
          fun lane => ropeEven ops base headDim pos x (i * width + lane))
        (row + i * width + half)
        fun lane => ropeOdd ops base headDim pos x (i * width + lane)) y
  loop (half % width) (fun t y =>
      let d := half / width * width + t
      store (store y (row + d) (ropeEven ops base headDim pos x d)) (row + d + half)
        (ropeOdd ops base headDim pos x d)) body

/-- `y` is the buffer behind the output pointer and `place` the index it points to. -/
def applyRope (ops : FloatOps α) (x y : Buffer α) (place seqLen headDim : Nat) (base : α)
    (posOffset : Int) : Buffer α :=
  loop seqLen (fun s y =>
      applyRopeRow ops (fun d => x (s * headDim + d)) y (place + s * headDim) headDim base
        (posOffset + s)) y

end Cpu

end MiniLLM
