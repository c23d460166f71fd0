import MiniLLM.Strides
import Mathlib.Algebra.BigOperators.Intervals
import Mathlib.Algebra.BigOperators.Fin
import Mathlib.Data.Matrix.Mul

/-!
The matrix products of runtime/kernels/cpu_kernels.cpp over an exact commutative
semiring: `sgemm_impl` in tiles of 64, `sgemm_nt_impl` with four columns at a time,
each with a vector body of `width` lanes (`MINILLM_SIMD_WIDTH`) and a scalar tail.
`load` is `load_weight`, the value of a stored weight. The kernels compute the starts of
rows as `int` products: where one leaves `int` a kernel has no outcome.
-/

namespace MiniLLM.Gemm

open Loops Strides

variable {α W : Type} [CommSemiring α]

/-- The sum of the lanes of a register. -/
def hsum (width : Nat) (lanes : Buffer α) : α := loop width (fun lane sum => sum + lanes lane) 0

/-- `c_row[jj] += a_val * b_row[jj]` for `jj < tn`. -/
def fmaRow (width : Nat) (load : W → α) (tn : Nat) (aVal : α) (bRow : Buffer W) (cRow : Buffer α) :
    Buffer α :=
  let body := loop (tn / width) (fun v cRow =>
      copyFloats width cRow (v * width)
        fun lane => aVal * load (bRow (v * width + lane)) + cRow (v * width + lane)) cRow
  loop (tn % width) (fun t cRow =>
      let jj := tn / width * width + t
      store cRow jj (cRow jj + aVal * load (bRow jj))) body

def tile : Nat := 64

-- One (m, n, k) step of the tile loops.
def sgemmTile (width : Nat) (load : W → α) (A : Buffer α) (B : Buffer W) (M N K m n k : Nat)
    (C : Buffer α) : Buffer α :=
  let tm := min tile (M - m)
  let tn := min tile (N - n)
  let tk := min tile (K - k)
  loop tm (fun ii C =>
      loop tk (fun kk C =>
        let c := (m + ii) * N + n
        copyFloats tn C c
          (fmaRow width load tn (A ((m + ii) * K + k + kk))
            (fun jj => B ((k + kk) * N + n + jj)) fun jj => C (c + jj)))
        C)
    C

def tiles (size : Nat) : Nat := (size + tile - 1) / tile

/-- The `memset` and the tile loops of `sgemm_impl`. -/
def sgemmTiles (width : Nat) (load : W → α) (A : Buffer α) (B : Buffer W) (C : Buffer α)
    (M N K : Nat) : Buffer α :=
  loop (tiles M) (fun i C =>
      loop (tiles N) (fun j C =>
        loop (tiles K) (fun l C =>
          sgemmTile width load A B M N K (i * tile) (j * tile) (l * tile) C) C) C)
    (copyFloats (M * N) C 0 fun _ => 0)

/-- The `int`s of `sgemm_impl`: the counters of the tile loops, which step past the sizes,
and the products `(m + ii) * K`, `(m + ii) * N` and `(k + kk) * N`. -/
def SgemmFits (M N K : Nat) : Prop :=
  0 < M → 0 < N → 0 < K →
    (tiles M * tile ≤ intMax ∧ tiles N * tile ≤ intMax ∧ tiles K * tile ≤ intMax) ∧
      RowsFit M K ∧ RowsFit M N ∧ RowsFit K N

instance (M N K : Nat) : Decidable (SgemmFits M N K) :=
  inferInstanceAs (Decidable (_ → _ → _ → _))

def sgemmImpl (width : Nat) (load : W → α) (A : Buffer α) (B : Buffer W) (C : Buffer α)
    (M N K : Nat) : Option (Buffer α) :=
  if SgemmFits M N K then some (sgemmTiles width load A B C M N K) else none

-- The registers `vdot0` to `vdot3`, one for each of the rows `b c`.
def fmaVectors (width : Nat) (load : W → α) (K : Nat) (aRow : Buffer α) (b : Nat → Buffer W) :
    Nat → Buffer α :=
  loop (K / width) (fun v vdots c lane =>
      aRow (v * width + lane) * load (b c (v * width + lane)) + vdots c lane) fun _ _ => 0

/-- The dot products of `aRow` with the rows `b c`. -/
def fmaDots (width : Nat) (load : W → α) (K : Nat) (aRow : Buffer α) (b : Nat → Buffer W) :
    Buffer α :=
  loop (K % width) (fun t dots c =>
      let k := K / width * width + t
      dots c + aRow k * load (b c k))
    fun c => hsum width (fmaVectors width load K aRow b c)

/-- Four columns at a time, then the columns that are left. -/
def sgemmNtRow (width : Nat) (load : W → α) (aRow : Buffer α) (B : Buffer W) (cRow : Buffer α)
    (N K : Nat) : Buffer α :=
  let four := loop (N / 4) (fun j cRow =>
      let n := 4 * j
      copyFloats 4 cRow n (fmaDots width load K aRow fun c k => B ((n + c) * K + k))) cRow
  loop (N % 4) (fun t cRow =>
      let n := 4 * (N / 4) + t
      store cRow n (fmaDots width load K aRow (fun _ k => B (n * K + k)) 0)) four

def sgemmNtRows (width : Nat) (load : W → α) (A : Buffer α) (B : Buffer W) (C : Buffer α)
    (M N K : Nat) : Buffer α :=
  loop M (fun m C =>
      copyFloats N C (m * N)
        (sgemmNtRow width load (fun k => A (m * K + k)) B (fun n => C (m * N + n)) N K)) C

/-- The `int`s of `sgemm_nt_impl`: the products `m * K`, `m * N` and `(n + i) * K`, and the
counter along a row. -/
def SgemmNtFits (width M N K : Nat) : Prop :=
  0 < M → RowsFit M K ∧ RowsFit M N ∧ RowsFit N K ∧ (0 < N → VectorsFit width K)

instance (width M N K : Nat) : Decidable (SgemmNtFits width M N K) :=
  inferInstanceAs (Decidable (_ → _ ∧ _))

def sgemmNtImpl (width : Nat) (load : W → α) (A : Buffer α) (B : Buffer W) (C : Buffer α)
    (M N K : Nat) : Option (Buffer α) :=
  if SgemmNtFits width M N K then some (sgemmNtRows width load A B C M N K) else none

def sgemm (width : Nat) (A B C : Buffer α) (M N K : Nat) : Option (Buffer α) :=
  sgemmImpl width id A B C M N K

def sgemmNt (width : Nat) (A B C : Buffer α) (M N K : Nat) : Option (Buffer α) :=
  sgemmNtImpl width id A B C M N K

open Finset

/-- What every round adds to a cell, the loop adds up. -/
theorem loop_adds (n : Nat) (body : Nat → Buffer α → Buffer α) (C : Buffer α) (cell : Nat)
    (f : Nat → α) (adds : ∀ i < n, ∀ C, body i C cell = C cell + f i) :
    loop n body C cell = C cell + ∑ i ∈ range n, f i :=
  loop_invariant (fun i C' => C' cell = C cell + ∑ i ∈ range i, f i) n body C (by simp)
    fun i C' below same => by rw [adds i below, same, sum_range_succ, add_assoc]

omit [CommSemiring α] in
/-- A loop none of whose rounds writes a cell. -/
theorem loop_keeps (n : Nat) (body : Nat → Buffer α → Buffer α) (C : Buffer α) (cell : Nat)
    (keeps : ∀ i < n, ∀ C, body i C cell = C cell) : loop n body C cell = C cell :=
  loop_invariant (fun _ C' => C' cell = C cell) n body C rfl
    fun i C' below same => (keeps i below C').trans same

theorem hsum_eq (width : Nat) (lanes : Buffer α) :
    hsum width lanes = ∑ lane ∈ range width, lanes lane := by
  rw [hsum, loop_sum, zero_add]

theorem fmaRow_at (width : Nat) (load : W → α) (tn : Nat) (aVal : α) (bRow : Buffer W)
    (cRow : Buffer α) (d : Nat) :
    fmaRow width load tn aVal bRow cRow d =
      if d < tn then cRow d + aVal * load (bRow d) else cRow d := by
  -- `done` columns are updated: after the vector body and after each tail step.
  let done : Nat → Buffer α := fun m d =>
    if d < m then cRow d + aVal * load (bRow d) else cRow d
  have body := loop_invariant (fun v row => row = done (v * width)) (tn / width)
    (fun v cRow => copyFloats width cRow (v * width)
      fun lane => aVal * load (bRow (v * width + lane)) + cRow (v * width + lane)) cRow
    (by funext d; simp [done])
    (by
      rintro v row _ rfl
      funext d
      simp only [done, copyFloats, Nat.succ_mul]
      by_cases low : d < v * width
      · rw [if_neg (by omega), if_pos low, if_pos (by omega)]
      · by_cases high : d < v * width + width
        · rw [if_pos ⟨by omega, high⟩, if_pos high, if_neg (by omega),
            Nat.add_sub_cancel' (by omega), add_comm]
        · rw [if_neg (by omega), if_neg low, if_neg high])
  have tail := loop_invariant (fun t row => row = done (tn / width * width + t)) (tn % width)
    (fun t cRow => store cRow (tn / width * width + t) (cRow (tn / width * width + t) +
      aVal * load (bRow (tn / width * width + t)))) _ body
    (by
      rintro t row _ rfl
      funext d
      by_cases here : d = tn / width * width + t
      · subst here
        rw [store_same]
        simp only [done]
        rw [if_neg (by omega), if_pos (by omega)]
      · rw [store_other _ _ _ _ here]
        simp only [done]
        exact if_ctx_congr (by omega) (fun _ => rfl) fun _ => rfl)
  rw [Nat.div_add_mod' tn width] at tail
  exact congrFun tail d

theorem fmaDots_at (width : Nat) (load : W → α) (K : Nat) (aRow : Buffer α) (b : Nat → Buffer W)
    (c : Nat) : fmaDots width load K aRow b c = ∑ k ∈ range K, aRow k * load (b c k) := by
  have body : ∑ lane ∈ range width, fmaVectors width load K aRow b c lane =
      ∑ k ∈ range (K / width * width), aRow k * load (b c k) := loop_invariant
    (fun v (vdots : Nat → Buffer α) => ∑ lane ∈ range width, vdots c lane =
      ∑ k ∈ range (v * width), aRow k * load (b c k))
    (K / width)
    (fun v vdots c lane =>
      aRow (v * width + lane) * load (b c (v * width + lane)) + vdots c lane) (fun _ _ => 0)
    (by simp)
    (fun v vdots _ same => by
      rw [sum_add_distrib, same, Nat.succ_mul, sum_range_add, add_comm])
  have tail := loop_invariant
    (fun t (dots : Buffer α) => dots c =
      ∑ k ∈ range (K / width * width + t), aRow k * load (b c k))
    (K % width)
    (fun t dots c => dots c + aRow (K / width * width + t) * load (b c (K / width * width + t)))
    (fun c => hsum width (fmaVectors width load K aRow b c)) ((hsum_eq _ _).trans body)
    (fun t dots _ same => by rw [same, ← Nat.add_assoc, sum_range_succ])
  rwa [Nat.div_add_mod' K width] at tail

/-- A cell of a row-major table lies in a window of a row when row and column do. -/
theorem window_iff {N n tn row r c : Nat} (inside : n + tn ≤ N) (column : c < N) :
    (row * N + n ≤ r * N + c ∧ r * N + c < row * N + n + tn) ↔
      row = r ∧ n ≤ c ∧ c < n + tn := by
  constructor
  · rintro ⟨low, high⟩
    obtain ⟨d, same⟩ := Nat.exists_eq_add_of_le low
    have address : row * N + (n + d) = r * N + c := by omega
    obtain ⟨rows, columns⟩ := Strides.strided_inj (by omega) column address
    exact ⟨rows, by omega, by omega⟩
  · rintro ⟨rfl, low, high⟩
    omega

/-- The terms one tile contributes to the cell in row `r` and column `c`. -/
theorem sgemmTile_at (width : Nat) (load : W → α) (A : Buffer α) (B : Buffer W)
    {M N K m n k r c : Nat} (C : Buffer α) (rows : n ≤ N) (column : c < N) :
    sgemmTile width load A B M N K m n k C (r * N + c) = C (r * N + c) +
      if (m ≤ r ∧ r < m + min tile (M - m)) ∧ n ≤ c ∧ c < n + min tile (N - n) then
        ∑ kk ∈ range (min tile (K - k)), A (r * K + (k + kk)) * load (B ((k + kk) * N + c))
      else 0 := by
  have inside : n + min tile (N - n) ≤ N := by omega
  have step : ∀ ii kk (C : Buffer α), copyFloats (min tile (N - n)) C ((m + ii) * N + n)
      (fmaRow width load (min tile (N - n)) (A ((m + ii) * K + k + kk))
        (fun jj => B ((k + kk) * N + n + jj)) fun jj => C ((m + ii) * N + n + jj)) (r * N + c) =
      C (r * N + c) + if m + ii = r ∧ n ≤ c ∧ c < n + min tile (N - n) then
        A (r * K + (k + kk)) * load (B ((k + kk) * N + c)) else 0 := by
    intro ii kk C
    simp only [copyFloats, window_iff inside column, fmaRow_at]
    by_cases here : m + ii = r ∧ n ≤ c ∧ c < n + min tile (N - n)
    · rw [if_pos here, if_pos here]
      obtain ⟨rfl, low, high⟩ := here
      have column' : (m + ii) * N + c - ((m + ii) * N + n) = c - n := by omega
      rw [column', if_pos (by omega)]
      simp only [Nat.add_assoc, Nat.add_sub_cancel' low]
    · rw [if_neg here, if_neg here, add_zero]
  have row := fun ii (C : Buffer α) => loop_adds (min tile (K - k)) _ C (r * N + c) _
    fun kk _ C => step ii kk C
  have whole := loop_adds (min tile (M - m)) _ C (r * N + c) _ fun ii _ C => row ii C
  refine whole.trans (congrArg (C (r * N + c) + ·) ?_)
  -- Only the row r - m of the tile meets the cell.
  rw [sum_comm]
  by_cases here : (m ≤ r ∧ r < m + min tile (M - m)) ∧ n ≤ c ∧ c < n + min tile (N - n)
  · rw [if_pos here]
    refine sum_congr rfl fun kk _ => ?_
    rw [sum_eq_single (r - m)]
    · exact if_pos ⟨by omega, here.2⟩
    · exact fun ii _ other => if_neg fun same => other (by omega)
    · exact fun outside => absurd (mem_range.mpr (by omega)) outside
  · rw [if_neg here]
    refine sum_eq_zero fun kk _ => sum_eq_zero fun ii member => if_neg fun same => here ?_
    have below := mem_range.mp member
    exact ⟨by omega, same.2⟩

/-- Tile by tile, every index below the size is met once. -/
theorem sum_tiles (size : Nat) (g : Nat → α) :
    ∑ t ∈ range (tiles size), ∑ i ∈ range (min tile (size - t * tile)), g (t * tile + i) =
      ∑ k ∈ range size, g k := by
  have upTo : ∀ count, ∑ t ∈ range count, ∑ i ∈ range (min tile (size - t * tile)),
      g (t * tile + i) = ∑ k ∈ range (min size (count * tile)), g k := by
    intro count
    induction count with
    | zero => simp
    | succ count ih =>
        rw [sum_range_succ, ih, ← Nat.succ_eq_add_one, Nat.succ_mul]
        by_cases past : size ≤ count * tile
        · have done : min tile (size - count * tile) = 0 := by omega
          have whole : min size (count * tile + tile) = size := by omega
          rw [done, whole, Nat.min_eq_left past, range_zero, sum_empty, add_zero]
        · have cut : min size (count * tile + tile) =
              count * tile + min tile (size - count * tile) := by omega
          rw [cut, sum_range_add, Nat.min_eq_right (by omega)]
  have all : size ≤ tiles size * tile := by
    unfold tiles tile
    omega
  rw [upTo, Nat.min_eq_left all]

/-- An index below the size lies in one tile. -/
theorem sum_tile_of {size i : Nat} (inside : i < size) (x : α) :
    ∑ t ∈ range (tiles size),
      (if t * tile ≤ i ∧ i < t * tile + min tile (size - t * tile) then x else 0) = x := by
  have pick := sum_tiles size fun k => if k = i then x else 0
  rw [sum_ite_eq' (range size) i fun _ => x, if_pos (mem_range.mpr inside)] at pick
  refine Eq.trans (sum_congr rfl fun t _ => ?_) pick
  by_cases here : t * tile ≤ i ∧ i < t * tile + min tile (size - t * tile)
  · rw [if_pos here, sum_eq_single (i - t * tile)]
    · exact (if_pos (by omega)).symm
    · exact fun j _ other => if_neg (by omega)
    · exact fun outside => absurd (mem_range.mpr (by omega)) outside
  · rw [if_neg here]
    refine (sum_eq_zero fun j member => if_neg ?_).symm
    have below := mem_range.mp member
    omega

theorem tile_lt {size t : Nat} (inside : t < tiles size) : t * tile ≤ size := by
  unfold tiles tile at inside
  unfold tile
  omega

/-- The tiled product, cell by cell. -/
theorem sgemmTiles_at (width : Nat) (load : W → α) (A : Buffer α) (B : Buffer W) (C : Buffer α)
    {M N K r c : Nat} (row : r < M) (column : c < N) :
    sgemmTiles width load A B C M N K (r * N + c) =
      ∑ k ∈ range K, A (r * K + k) * load (B (k * N + c)) := by
  have zeroed : copyFloats (M * N) C 0 (fun _ => (0 : α)) (r * N + c) = 0 := by
    have below := Strides.strided_lt row column
    rw [copyFloats, if_pos (by omega)]
  have depth := fun i {j} (inside : j < tiles N) (C : Buffer α) =>
    (loop_adds (tiles K) _ C (r * N + c) _ fun l _ C =>
      sgemmTile_at width load A B (M := M) (K := K) (m := i * tile) (k := l * tile) (r := r) C
        (tile_lt inside) column)
  have band := fun i (C : Buffer α) => loop_adds (tiles N) _ C (r * N + c) _
    fun j inside C => depth i inside C
  have whole := loop_adds (tiles M) _ (copyFloats (M * N) C 0 fun _ => 0) (r * N + c) _
    fun i _ C => band i C
  refine whole.trans ?_
  rw [zeroed, zero_add]
  -- Of the bands and columns of tiles, the ones of r and c contribute.
  have depths : ∀ i j, ∑ l ∈ range (tiles K),
      (if (i * tile ≤ r ∧ r < i * tile + min tile (M - i * tile)) ∧
          j * tile ≤ c ∧ c < j * tile + min tile (N - j * tile) then
        ∑ kk ∈ range (min tile (K - l * tile)),
          A (r * K + (l * tile + kk)) * load (B ((l * tile + kk) * N + c))
      else 0) =
      if i * tile ≤ r ∧ r < i * tile + min tile (M - i * tile) then
        if j * tile ≤ c ∧ c < j * tile + min tile (N - j * tile) then
          ∑ k ∈ range K, A (r * K + k) * load (B (k * N + c)) else 0
      else 0 := by
    intro i j
    rw [← sum_tiles K, ← ite_and]
    split
    · rfl
    · exact sum_const_zero
  simp only [depths]
  have bands : ∀ i, ∑ j ∈ range (tiles N),
      (if i * tile ≤ r ∧ r < i * tile + min tile (M - i * tile) then
        if j * tile ≤ c ∧ c < j * tile + min tile (N - j * tile) then
          ∑ k ∈ range K, A (r * K + k) * load (B (k * N + c)) else 0
      else 0) =
      if i * tile ≤ r ∧ r < i * tile + min tile (M - i * tile) then
        ∑ k ∈ range K, A (r * K + k) * load (B (k * N + c)) else 0 := by
    intro i
    split
    · exact sum_tile_of column _
    · exact sum_const_zero
  simp only [bands]
  exact sum_tile_of row _

/-- Nothing is written behind the last row. -/
theorem sgemmTiles_frame (width : Nat) (load : W → α) (A : Buffer α) (B : Buffer W) (C : Buffer α)
    {M N K p : Nat} (behind : M * N ≤ p) : sgemmTiles width load A B C M N K p = C p := by
  have zeroed : copyFloats (M * N) C 0 (fun _ => (0 : α)) p = C p := by
    rw [copyFloats, if_neg (by omega)]
  refine Eq.trans (loop_keeps (tiles M) _ _ p fun i _ C => ?_) zeroed
  refine loop_keeps (tiles N) _ C p fun j insideJ C => loop_keeps (tiles K) _ C p fun l _ C => ?_
  refine loop_keeps _ _ C p fun ii insideI C => loop_keeps _ _ C p fun kk _ C => ?_
  have columns := tile_lt insideJ
  have rows : i * tile + ii + 1 ≤ M := by omega
  have above : (i * tile + ii) * N + N ≤ M * N := by
    rw [← Nat.succ_mul]
    exact Nat.mul_le_mul_right N rows
  exact Strides.copyFloats_outside _ _ _ _ fun d below => by omega

/-- The four columns of a round and the single ones behind them. -/
theorem sgemmNtRow_at (width : Nat) (load : W → α) (aRow : Buffer α) (B : Buffer W)
    (cRow : Buffer α) (N K n : Nat) :
    sgemmNtRow width load aRow B cRow N K n =
      if n < N then ∑ k ∈ range K, aRow k * load (B (n * K + k)) else cRow n := by
  let done : Nat → Buffer α := fun count n =>
    if n < count then ∑ k ∈ range K, aRow k * load (B (n * K + k)) else cRow n
  have four := loop_invariant (fun j row => row = done (4 * j)) (N / 4)
    (fun j cRow => copyFloats 4 cRow (4 * j)
      (fmaDots width load K aRow fun c k => B ((4 * j + c) * K + k))) cRow
    (by funext n; simp [done])
    (by
      rintro j row _ rfl
      funext n
      simp only [done, copyFloats, fmaDots_at]
      by_cases low : n < 4 * j
      · rw [if_neg (by omega), if_pos low, if_pos (by omega)]
      · by_cases high : n < 4 * j + 4
        · rw [if_pos ⟨by omega, high⟩, if_pos (by omega), Nat.add_sub_cancel' (by omega)]
        · rw [if_neg (by omega), if_neg low, if_neg (by omega)])
  have left := loop_invariant (fun t row => row = done (4 * (N / 4) + t)) (N % 4)
    (fun t cRow => store cRow (4 * (N / 4) + t)
      (fmaDots width load K aRow (fun _ k => B ((4 * (N / 4) + t) * K + k)) 0)) _ four
    (by
      rintro t row _ rfl
      funext n
      by_cases here : n = 4 * (N / 4) + t
      · rw [here, store_same, fmaDots_at]
        exact (if_pos (by omega)).symm
      · rw [store_other _ _ _ _ here]
        exact if_ctx_congr (by omega) (fun _ => rfl) fun _ => rfl)
  rw [Nat.div_add_mod N 4] at left
  exact congrFun left n

theorem sgemmNtRows_at (width : Nat) (load : W → α) (A : Buffer α) (B : Buffer W) (C : Buffer α)
    {M N K r c : Nat} (row : r < M) (column : c < N) :
    sgemmNtRows width load A B C M N K (r * N + c) =
      ∑ k ∈ range K, A (r * K + k) * load (B (c * K + k)) := by
  have rule := loop_invariant
    (fun m (C' : Buffer α) => ∀ r < m, ∀ c < N,
      C' (r * N + c) = ∑ k ∈ range K, A (r * K + k) * load (B (c * K + k)))
    M (fun m C => copyFloats N C (m * N)
      (sgemmNtRow width load (fun k => A (m * K + k)) B (fun n => C (m * N + n)) N K)) C
    (fun r below => absurd below (Nat.not_lt_zero r)) ?_
  · exact rule r row c column
  · intro m C' _ done r below c column
    rcases Nat.lt_succ_iff_lt_or_eq.mp below with before | rfl
    · rw [Strides.copyFloats_outside, done r before c column]
      intro d inside same
      have rows := (Strides.strided_inj inside column same).1
      omega
    · rw [Strides.copyFloats_inside _ _ _ _ column, sgemmNtRow_at, if_pos column]

theorem sgemmNtRows_frame (width : Nat) (load : W → α) (A : Buffer α) (B : Buffer W)
    (C : Buffer α) {M N K p : Nat} (behind : M * N ≤ p) :
    sgemmNtRows width load A B C M N K p = C p := by
  refine loop_keeps M _ C p fun m inside C => Strides.copyFloats_outside _ _ _ _ fun d below => ?_
  have above := Strides.strided_lt inside below
  omega

/-- A row-major buffer read as a matrix. -/
def matrix (rows cols : Nat) (X : Buffer α) : Matrix (Fin rows) (Fin cols) α :=
  Matrix.of fun i j => X (i * cols + j)

/-- The rows of a table of `rows` by `cols` laid out as columns. -/
def transposed {Elem : Type} (rows cols : Nat) (X : Buffer Elem) : Buffer Elem :=
  fun i => X (i % rows * cols + i / rows)

theorem transposed_at {Elem : Type} (cols : Nat) (X : Buffer Elem) {rows r c : Nat}
    (row : r < rows) : transposed rows cols X (c * rows + r) = X (r * cols + c) := by
  rw [transposed, Nat.mul_comm c, Nat.mul_add_mod, Nat.mod_eq_of_lt row,
    Nat.mul_add_div (by omega), Nat.div_eq_of_lt row, Nat.add_zero]

/-- Each kernel computes the matrix product, whatever the output held before, exactly
when the `int`s it computes are in range. -/
theorem sgemm_product (width : Nat) (load : W → α) (A : Buffer α) (B : Buffer W) (C : Buffer α)
    (M N K : Nat) :
    ((∃ out, sgemmImpl width load A B C M N K = some out ∧
        matrix M N out = matrix M K A * matrix K N (load ∘ B) ∧ ∀ p ≥ M * N, out p = C p) ↔
      SgemmFits M N K) ∧
    ((∃ out, sgemmNtImpl width load A B C M N K = some out ∧
        matrix M N out = matrix M K A * (matrix N K (load ∘ B)).transpose ∧
        ∀ p ≥ M * N, out p = C p) ↔
      SgemmNtFits width M N K) ∧
    ∀ out out', sgemmNtImpl width load A B C M N K = some out →
      sgemmImpl width load A (transposed N K B) C M N K = some out' →
      matrix M N out = matrix M N out' := by
  refine ⟨⟨?_, fun fits => ⟨_, if_pos fits, ?_, fun p behind => sgemmTiles_frame _ _ _ _ _ behind⟩⟩,
    ⟨?_, fun fits => ⟨_, if_pos fits, ?_, fun p behind => sgemmNtRows_frame _ _ _ _ _ behind⟩⟩, ?_⟩
  · rintro ⟨out, made, -⟩
    by_contra wide
    rw [sgemmImpl, if_neg wide] at made
    cases made
  · ext r c
    exact (sgemmTiles_at width load A B C r.isLt c.isLt).trans (sum_range _)
  · rintro ⟨out, made, -⟩
    by_contra wide
    rw [sgemmNtImpl, if_neg wide] at made
    cases made
  · ext r c
    exact (sgemmNtRows_at width load A B C r.isLt c.isLt).trans (sum_range _)
  · intro out out' made made'
    obtain rfl := Option.some.inj (Option.ite_none_right_eq_some.mp made).2
    obtain rfl := Option.some.inj (Option.ite_none_right_eq_some.mp made').2
    ext r c
    refine (sgemmNtRows_at width load A B C r.isLt c.isLt).trans
      (Eq.trans (sum_congr rfl fun k _ => ?_)
        (sgemmTiles_at width load A (transposed N K B) C r.isLt c.isLt).symm)
    rw [transposed_at K B c.isLt]

/-- The row 65536 of `A` would start at 2^31. -/
theorem sgemmNt_row_overflows :
    ¬ ∃ out : Buffer ℤ,
      sgemmNtImpl 8 id (fun _ => 1) (fun _ => 1) (fun _ => 0) 65537 1 32768 = some out ∧
        matrix 65537 1 out = matrix 65537 32768 (fun _ => (1 : ℤ)) *
          (matrix 1 32768 (id ∘ fun _ => (1 : ℤ))).transpose := by
  rintro ⟨out, made, -⟩
  have rows := ((Option.ite_none_right_eq_some.mp made).1 (by decide)).1.row
    (by decide : 65536 < 65537)
  exact absurd rows (by decide)

end MiniLLM.Gemm
