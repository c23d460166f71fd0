import MiniLLM.Loops
import Mathlib.Data.Nat.Basic

/-!
Row-major addresses and the copies made along them. A cell of a table with rows
of `width` cells is `row * width + column`; distinct (row, column) pairs have
distinct addresses and the address of an inner cell stays below the size of the
table. Rows copied to disjoint places are all found again.
-/

namespace MiniLLM.Strides

open Loops

universe u
variable {Elem : Type u}

section Offsets

/-- The largest `int`. -/
def intMax : Nat := 2147483647

/-- Rows of `width` cells whose starts are `int`s. -/
def RowsFit (rows width : Nat) : Prop := (rows - 1) * width ≤ intMax

instance (rows width : Nat) : Decidable (RowsFit rows width) := inferInstanceAs (Decidable (_ ≤ _))

/-- A loop over whole registers, `for (; d + width <= n; d += width)`, whose last
comparison is of `int`s. -/
def VectorsFit (width n : Nat) : Prop := (n / width + 1) * width ≤ intMax

instance (width n : Nat) : Decidable (VectorsFit width n) := inferInstanceAs (Decidable (_ ≤ _))

theorem RowsFit.row {rows width row : Nat} (fits : RowsFit rows width) (below : row < rows) :
    row * width ≤ intMax :=
  (Nat.mul_le_mul_right width (by omega)).trans fits

theorem RowsFit.of_total {rows width : Nat} (total : rows * width ≤ intMax) : RowsFit rows width :=
  (Nat.mul_le_mul_right width (Nat.sub_le rows 1)).trans total

theorem RowsFit.mono {rows rows' width width' : Nat} (fits : RowsFit rows' width')
    (fewer : rows ≤ rows') (narrower : width ≤ width') : RowsFit rows width :=
  (Nat.mul_le_mul (by omega) narrower).trans fits

theorem VectorsFit.of_total {width n : Nat} (total : n + width ≤ intMax) : VectorsFit width n := by
  have whole := Nat.div_mul_le_self n width
  rw [VectorsFit, Nat.succ_mul]
  omega

end Offsets

theorem strided_inj {width row row' column column' : Nat}
    (inside : column < width) (inside' : column' < width)
    (same : row * width + column = row' * width + column') :
    row = row' ∧ column = column' := by
  have rows : row = row' := by
    have left : (row * width + column) / width = row := by
      rw [Nat.mul_comm, Nat.mul_add_div (by omega), Nat.div_eq_of_lt inside, Nat.add_zero]
    have right : (row' * width + column') / width = row' := by
      rw [Nat.mul_comm, Nat.mul_add_div (by omega), Nat.div_eq_of_lt inside', Nat.add_zero]
    rw [← left, ← right, same]
  subst rows
  exact ⟨rfl, by omega⟩

theorem strided_lt {width rows row column : Nat} (below : row < rows) (inside : column < width) :
    row * width + column < rows * width := by
  calc row * width + column < row * width + width := by omega
    _ = (row + 1) * width := by rw [Nat.succ_mul]
    _ ≤ rows * width := Nat.mul_le_mul_right width below

/-- Three coordinates of a dense table. -/
theorem strided3_inj {B C a a' b b' c c' : Nat} (insideB : b < B) (insideB' : b' < B)
    (insideC : c < C) (insideC' : c' < C)
    (same : a * B * C + b * C + c = a' * B * C + b' * C + c') : a = a' ∧ b = b' ∧ c = c' := by
  rw [← Nat.add_mul, ← Nat.add_mul] at same
  obtain ⟨rows, columns⟩ := strided_inj insideC insideC' same
  obtain ⟨outer, inner⟩ := strided_inj insideB insideB' rows
  exact ⟨outer, inner, columns⟩

theorem copyFloats_inside (count : Nat) (target : Buffer Elem) (index : Nat)
    (source : Buffer Elem) {d : Nat} (inside : d < count) :
    copyFloats count target index source (index + d) = source d := by
  rw [copyFloats, if_pos (by omega), Nat.add_sub_cancel_left]

theorem copyFloats_outside (count : Nat) (target : Buffer Elem) (index : Nat)
    (source : Buffer Elem) {i : Nat} (outside : ∀ d < count, index + d ≠ i) :
    copyFloats count target index source i = target i := by
  rw [copyFloats, if_neg]
  rintro ⟨low, high⟩
  exact outside (i - index) (by omega) (by omega)

theorem copyFloats_congr (count : Nat) (target : Buffer Elem) (index : Nat)
    {source source' : Buffer Elem} (same : ∀ d < count, source d = source' d) :
    copyFloats count target index source = copyFloats count target index source' := by
  funext i
  by_cases inside : index ≤ i ∧ i < index + count
  · simp only [copyFloats, if_pos inside]
    exact same _ (by omega)
  · simp only [copyFloats, if_neg inside]

theorem store_eq_copyFloats (target : Buffer Elem) (index : Nat) (source : Buffer Elem) :
    store target index (source 0) = copyFloats 1 target index source := by
  funext i
  by_cases here : i = index
  · rw [here, store_same]
    exact (copyFloats_inside 1 target index source Nat.one_pos).symm
  · rw [store_other _ _ _ _ here, copyFloats, if_neg (by omega)]

/-- Storing cell after cell is a copy. -/
theorem loop_store (count : Nat) (target : Buffer Elem) (index : Nat) (source : Buffer Elem) :
    loop count (fun d t => store t (index + d) (source d)) target =
      copyFloats count target index source := by
  refine loop_invariant (fun i t => t = copyFloats i target index source) count _ target ?_ ?_
  · funext i
    exact (copyFloats_outside 0 target index source fun d below =>
      absurd below (Nat.not_lt_zero d)).symm
  · rintro i t _ rfl
    funext x
    by_cases here : x = index + i
    · rw [here, store_same, copyFloats_inside (i + 1) target index source (Nat.lt_succ_self i)]
    · rw [store_other _ _ _ _ here]
      simp only [copyFloats]
      by_cases inside : index ≤ x ∧ x < index + i
      · rw [if_pos inside, if_pos ⟨inside.1, by omega⟩]
      · rw [if_neg inside, if_neg fun wider => inside ⟨wider.1, by omega⟩]

/-- Rows copied in two nested loops. -/
def copyRows (outer inner width : Nat) (place : Nat → Nat → Nat) (source : Nat → Nat → Buffer Elem)
    (target : Buffer Elem) : Buffer Elem :=
  loop outer (fun a t => loop inner (fun b t => copyFloats width t (place a b) (source a b)) t)
    target

/-- The same copy, cell by cell. -/
def storeRows (outer inner width : Nat) (place : Nat → Nat → Nat) (source : Nat → Nat → Buffer Elem)
    (target : Buffer Elem) : Buffer Elem :=
  loop outer (fun a t =>
      loop inner (fun b t =>
        loop width (fun d t => store t (place a b + d) (source a b d)) t) t)
    target

theorem storeRows_eq (outer inner width : Nat) (place : Nat → Nat → Nat)
    (source : Nat → Nat → Buffer Elem) (target : Buffer Elem) :
    storeRows outer inner width place source target =
      copyRows outer inner width place source target :=
  loop_congr outer _ _ target fun a t _ => loop_congr inner _ _ t fun b t _ =>
    loop_store width t (place a b) (source a b)

/-- Every copied row is found at its place when no two rows overlap. -/
theorem copyRows_at (outer inner width : Nat) (place : Nat → Nat → Nat)
    (source : Nat → Nat → Buffer Elem) (target : Buffer Elem)
    (disjoint : ∀ a < outer, ∀ b < inner, ∀ a' < outer, ∀ b' < inner, ∀ d < width, ∀ d' < width,
      place a b + d = place a' b' + d' → a = a' ∧ b = b')
    {a b d : Nat} (insideA : a < outer) (insideB : b < inner) (insideD : d < width) :
    copyRows outer inner width place source target (place a b + d) = source a b d := by
  -- Rows before (i, j) in the order of the loops are in place.
  have rule := loop_invariant
    (fun i t => ∀ a < i, a < outer → ∀ b < inner, ∀ d < width, t (place a b + d) = source a b d)
    outer
    (fun a t => loop inner (fun b t => copyFloats width t (place a b) (source a b)) t) target
    (fun a below => absurd below (Nat.not_lt_zero a)) ?_
  · exact rule a insideA insideA b insideB d insideD
  · intro i t insideI done
    have innerRule := loop_invariant
      (fun j t => (∀ a < i, a < outer → ∀ b < inner, ∀ d < width,
          t (place a b + d) = source a b d) ∧
        ∀ b < j, b < inner → ∀ d < width, t (place i b + d) = source i b d)
      inner (fun b t => copyFloats width t (place i b) (source i b)) t
      ⟨done, fun b below => absurd below (Nat.not_lt_zero b)⟩ ?_
    · intro a below insideA b insideB d insideD
      rcases Nat.lt_succ_iff_lt_or_eq.mp below with before | rfl
      · exact innerRule.1 a before insideA b insideB d insideD
      · exact innerRule.2 b insideB insideB d insideD
    · rintro j t insideJ ⟨before, here⟩
      refine ⟨fun a below insideA b insideB d insideD => ?_,
        fun b below insideB d insideD => ?_⟩
      · rw [copyFloats_outside, before a below insideA b insideB d insideD]
        intro d' insideD' same
        have meet := disjoint i insideI j insideJ a insideA b insideB d' insideD' d insideD same
        omega
      · rcases Nat.lt_succ_iff_lt_or_eq.mp below with earlier | rfl
        · rw [copyFloats_outside, here b earlier insideB d insideD]
          intro d' insideD' same
          have meet := disjoint i insideI j insideJ i insideI b insideB d' insideD' d insideD same
          omega
        · exact copyFloats_inside width t (place i b) (source i b) insideD

/-- A cell outside every row keeps its value. -/
theorem copyRows_outside (outer inner width : Nat) (place : Nat → Nat → Nat)
    (source : Nat → Nat → Buffer Elem) (target : Buffer Elem) {i : Nat}
    (outside : ∀ a < outer, ∀ b < inner, ∀ d < width, place a b + d ≠ i) :
    copyRows outer inner width place source target i = target i :=
  loop_preserves (fun t => t i = target i) outer _ target rfl fun a t insideA held =>
    loop_preserves (fun t => t i = target i) inner _ t held fun b t insideB same =>
      (copyFloats_outside width t _ _ fun d inside => outside a insideA b insideB d inside).trans same

theorem fill_length {Value : Type u} (rows width : Nat) (columns : Nat → Nat)
    (cell : Nat → Nat → Value) (table : List Value) :
    (loop rows (fun a table => loop (columns a)
      (fun b table => table.set (a * width + b) (cell a b)) table) table).length = table.length :=
  loop_preserves (fun later => later.length = table.length) rows _ table rfl
    fun a later _ size => loop_preserves (fun after => after.length = table.length) (columns a) _ later
      size fun b after _ count => by rw [List.length_set]; exact count

/-- A matrix filled row by row: row `a` has its first `columns a` cells set. -/
theorem fill_rows {Value : Type u} (rows width : Nat) (columns : Nat → Nat)
    (cell : Nat → Nat → Value) (table : List Value) (size : table.length = rows * width)
    (narrow : ∀ a < rows, columns a ≤ width) {a b : Nat} (insideA : a < rows) (insideB : b < width) :
    (loop rows (fun a table => loop (columns a)
      (fun b table => table.set (a * width + b) (cell a b)) table) table)[a * width + b]? =
        if b < columns a then some (cell a b) else table[a * width + b]? := by
  have rule := loop_invariant
    (fun i later => later.length = table.length ∧ ∀ a < rows, ∀ b < width,
      later[a * width + b]? =
        if a < i ∧ b < columns a then some (cell a b) else table[a * width + b]?)
    rows (fun a table => loop (columns a)
      (fun b table => table.set (a * width + b) (cell a b)) table) table
    ⟨rfl, fun a _ b _ => by rw [if_neg (by omega)]⟩ ?_
  · rw [rule.2 a insideA b insideB]
    simp [insideA]
  · rintro i later insideI ⟨length, done⟩
    have innerRule := loop_invariant
      (fun j after => after.length = table.length ∧ ∀ a < rows, ∀ b < width,
        after[a * width + b]? =
          if (a < i ∧ b < columns a) ∨ (a = i ∧ b < j) then some (cell a b)
          else table[a * width + b]?)
      (columns i) (fun b table => table.set (i * width + b) (cell i b)) later
      ⟨length, fun a insideA b insideB => by rw [done a insideA b insideB]; simp⟩ ?_
    · refine ⟨innerRule.1, fun a insideA b insideB => ?_⟩
      rw [innerRule.2 a insideA b insideB]
      have same : (a < i ∧ b < columns a) ∨ (a = i ∧ b < columns i) ↔
          a < i + 1 ∧ b < columns a := by
        constructor
        · rintro (⟨before, inside⟩ | ⟨rfl, inside⟩)
          · exact ⟨by omega, inside⟩
          · exact ⟨by omega, inside⟩
        · rintro ⟨below, inside⟩
          rcases Nat.lt_succ_iff_lt_or_eq.mp below with before | rfl
          · exact Or.inl ⟨before, inside⟩
          · exact Or.inr ⟨rfl, inside⟩
      simp only [same]
    · rintro j after insideJ ⟨count, entries⟩
      have inRow : j < width := Nat.lt_of_lt_of_le insideJ (narrow i insideI)
      refine ⟨by rw [List.length_set]; exact count, fun a insideA b insideB => ?_⟩
      rw [List.getElem?_set]
      by_cases here : i * width + j = a * width + b
      · obtain ⟨rfl, rfl⟩ := strided_inj inRow insideB here
        have bound : i * width + j < after.length := by
          rw [count, size]
          exact strided_lt insideI inRow
        rw [if_pos rfl, if_pos bound, if_pos (Or.inr ⟨rfl, by omega⟩)]
      · rw [if_neg here, entries a insideA b insideB]
        have apart : ¬ (a = i ∧ b = j) := fun both => here (by rw [both.1, both.2])
        have same : (a < i ∧ b < columns a) ∨ (a = i ∧ b < j) ↔
            (a < i ∧ b < columns a) ∨ (a = i ∧ b < j + 1) := by omega
        simp only [same]

end MiniLLM.Strides
