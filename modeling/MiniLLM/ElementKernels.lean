import MiniLLM.FlashAttention
import MiniLLM.Gemm

/-!
The kernels of runtime/kernels/cpu_kernels.cpp that work element by element or row by
row: `rmsnorm`, `embedding`, `add`, `mul`, `silu`, `fused_silu_mul` and `softmax`. A
register and a float that is left over may be computed by different expressions; exact
arithmetic tells no difference.
-/

namespace MiniLLM.Cpu

open Loops Strides Finset

variable {α : Type} [Field α]

/-- Registers stored from `place` on, then the floats that are left. -/
def simdStore (ops : FloatOps α) (place n : Nat) (vector tail y : Buffer α) : Buffer α :=
  let width := ops.simdWidth
  let body := loop (n / width) (fun i y =>
      copyFloats width y (place + i * width) fun lane => vector (i * width + lane)) y
  loop (n % width) (fun t y =>
      store y (place + (n / width * width + t)) (tail (n / width * width + t))) body

/-- `v_sigmoid`, a lane. -/
def sigmoid (ops : FloatOps α) (x : α) : α := 1 / (1 + ops.exp (-1 * x))

def add (ops : FloatOps α) (a b y : Buffer α) (n : Nat) : Buffer α :=
  simdStore ops 0 n (fun i => a i + b i) (fun i => a i + b i) y

def mul (ops : FloatOps α) (a b y : Buffer α) (n : Nat) : Buffer α :=
  simdStore ops 0 n (fun i => a i * b i) (fun i => a i * b i) y

def silu (ops : FloatOps α) (x y : Buffer α) (n : Nat) : Buffer α :=
  simdStore ops 0 n (fun i => x i * sigmoid ops (x i)) (fun i => x i / (1 + ops.exp (-x i))) y

def fusedSiluMul (ops : FloatOps α) (gate up y : Buffer α) (n : Nat) : Buffer α :=
  simdStore ops 0 n (fun i => gate i * sigmoid ops (gate i) * up i)
    (fun i => gate i / (1 + ops.exp (-gate i)) * up i) y

def rmsnorm (ops : FloatOps α) (x gamma y : Buffer α) (rows hidden : Nat) (eps : α) : Buffer α :=
  loop rows (fun r y =>
      let row : Buffer α := fun h => x (r * hidden + h)
      let invRms := 1 / ops.sqrt (dot ops row row hidden / hidden + eps)
      simdStore ops (r * hidden) hidden (fun h => row h * invRms * gamma h)
        (fun h => row h * invRms * gamma h) y)
    y

def embedding (ops : FloatOps α) (weight : Buffer α) (ids : Buffer Int) (out : Buffer α)
    (seqLen hidden : Nat) : Buffer α :=
  loop seqLen (fun s out =>
      let row : Buffer α := fun h => weight ((ids s).toNat * hidden + h)
      simdStore ops (s * hidden) hidden row row out)
    out

def softmax [LinearOrder α] (ops : FloatOps α) (x y : Buffer α) (rows cols : Nat) : Buffer α :=
  loop rows (fun r y =>
      copyFloats cols y (r * cols) (softmaxRow ops cols fun c => some (x (r * cols + c)))) y

section Stores

omit [Field α] in
theorem simdStore_eq (ops : FloatOps α) (place n : Nat) (vector tail y : Buffer α)
    (same : ∀ i < n, vector i = tail i) :
    simdStore ops place n vector tail y = copyFloats n y place tail := by
  -- `copyFloats m` of the tail: after the vector body and after each tail step.
  have whole := Nat.div_mul_le_self n ops.simdWidth
  have body := loop_invariant
    (fun i stored => stored = copyFloats (i * ops.simdWidth) y place tail) (n / ops.simdWidth)
    (fun i y => copyFloats ops.simdWidth y (place + i * ops.simdWidth)
      fun lane => vector (i * ops.simdWidth + lane)) y
    (by funext d; simp [copyFloats])
    (by
      rintro i _ below rfl
      have fits : (i + 1) * ops.simdWidth ≤ n := (Nat.mul_le_mul_right _ below).trans whole
      funext d
      simp only [copyFloats, Nat.succ_mul] at fits ⊢
      by_cases register : place + i * ops.simdWidth ≤ d ∧
          d < place + i * ops.simdWidth + ops.simdWidth
      · rw [if_pos register, if_pos (by omega), ← same _ (by omega)]
        congr 1
        omega
      · rw [if_neg register]
        by_cases before : place ≤ d ∧ d < place + i * ops.simdWidth
        · rw [if_pos before, if_pos (by omega)]
        · rw [if_neg before, if_neg (by omega)])
  have left := loop_invariant
    (fun t stored => stored = copyFloats (n / ops.simdWidth * ops.simdWidth + t) y place tail)
    (n % ops.simdWidth)
    (fun t y => store y (place + (n / ops.simdWidth * ops.simdWidth + t))
      (tail (n / ops.simdWidth * ops.simdWidth + t))) _ body
    (by
      rintro t _ below rfl
      funext d
      simp only [copyFloats, store]
      by_cases here : d = place + (n / ops.simdWidth * ops.simdWidth + t)
      · rw [if_pos here, if_pos (by omega)]
        congr 1
        omega
      · rw [if_neg here]
        by_cases before : place ≤ d ∧ d < place + (n / ops.simdWidth * ops.simdWidth + t)
        · rw [if_pos before, if_pos (by omega)]
        · rw [if_neg before, if_neg (by omega)])
  rw [Nat.div_add_mod'] at left
  exact left

theorem sigmoid_mul (ops : FloatOps α) (x : α) : x * sigmoid ops x = x / (1 + ops.exp (-x)) := by
  rw [sigmoid, neg_one_mul, mul_one_div]

theorem add_at (ops : FloatOps α) (a b y : Buffer α) {n i : Nat} (inside : i < n) :
    add ops a b y n i = a i + b i := by
  rw [add, simdStore_eq ops 0 n _ _ y fun _ _ => rfl]
  simp [copyFloats, inside]

theorem fusedSiluMul_at (ops : FloatOps α) (gate up y : Buffer α) {n i : Nat} (inside : i < n) :
    fusedSiluMul ops gate up y n i = gate i / (1 + ops.exp (-gate i)) * up i := by
  rw [fusedSiluMul, simdStore_eq ops 0 n _ _ y fun i _ => by rw [sigmoid_mul]]
  simp [copyFloats, inside]

omit [Field α] in
/-- Rows of `width` floats copied one behind the other. -/
theorem copyRow_at (rows width : Nat) (source : Nat → Buffer α) (y : Buffer α) {r d : Nat}
    (row : r < rows) (inside : d < width) :
    loop rows (fun r y => copyFloats width y (r * width) (source r)) y (r * width + d) =
      source r d := by
  have stored := copyRows_at rows 1 width (fun r _ => r * width) (fun r _ => source r) y
    (fun a _ b insideB a' _ b' insideB' d insideD d' insideD' same =>
      ⟨(strided_inj insideD insideD' same).1, by omega⟩) row Nat.one_pos inside
  exact stored

/-- `rmsnorm` of a row. -/
def normedRow (ops : FloatOps α) (gamma : Buffer α) (hidden : Nat) (eps : α) (x : Buffer α) :
    Buffer α :=
  fun h => x h * (1 / ops.sqrt ((∑ k ∈ range hidden, x k * x k) / hidden + eps)) * gamma h

theorem rmsnorm_at (ops : FloatOps α) (x gamma y : Buffer α) {rows hidden : Nat} (eps : α)
    {r h : Nat} (row : r < rows) (inside : h < hidden) :
    rmsnorm ops x gamma y rows hidden eps (r * hidden + h) =
      normedRow ops gamma hidden eps (fun h => x (r * hidden + h)) h := by
  simp only [rmsnorm, simdStore_eq ops _ _ _ _ _ fun _ _ => rfl, dot_eq]
  exact copyRow_at rows hidden (fun r => normedRow ops gamma hidden eps fun h => x (r * hidden + h))
    y row inside

omit [Field α] in
theorem embedding_at (ops : FloatOps α) (weight : Buffer α) (ids : Buffer Int) (out : Buffer α)
    {seqLen hidden s h : Nat} (row : s < seqLen) (inside : h < hidden) :
    embedding ops weight ids out seqLen hidden (s * hidden + h) =
      weight ((ids s).toNat * hidden + h) := by
  simp only [embedding, simdStore_eq ops _ _ _ _ _ fun _ _ => rfl]
  exact copyRow_at seqLen hidden (fun s h => weight ((ids s).toNat * hidden + h)) out row inside

end Stores

end MiniLLM.Cpu
