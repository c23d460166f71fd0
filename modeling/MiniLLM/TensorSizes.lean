import MiniLLM.GgufWeightLoader
import Mathlib.Algebra.BigOperators.Group.List.Basic
import Mathlib.Algebra.GroupWithZero.Nat

/-!
How many bytes a tensor occupies. The loops of `numel` and `num_elements` guard
every product; `nbytes` multiplies once more without a guard, and `bytes` rounds
up with a sum that nothing guards.
-/

namespace MiniLLM

section GuardedProduct

/-- A product that stops before it would pass `max`. -/
def guardedProduct (max : Nat) : List Nat → Nat → Option Nat
  | [], n => some n
  | d :: rest, n => if max / d < n then none else guardedProduct max rest (n * d)

theorem prod_pos {factors : List Nat} (positive : ∀ d ∈ factors, 0 < d) : 0 < factors.prod := by
  induction factors with
  | nil => exact Nat.one_pos
  | cons d rest ih =>
      obtain ⟨head, tail⟩ := List.forall_mem_cons.mp positive
      rw [List.prod_cons]
      exact Nat.mul_pos head (ih tail)

/-- It is the exact product, or stops because that is too large. -/
theorem guardedProduct_eq (max : Nat) (factors : List Nat) (n : Nat) (small : n ≤ max)
    (positive : ∀ d ∈ factors, 0 < d) :
    guardedProduct max factors n =
      if n * factors.prod ≤ max then some (n * factors.prod) else none := by
  induction factors generalizing n with
  | nil => simp [guardedProduct, small]
  | cons d rest ih =>
      obtain ⟨head, tail⟩ := List.forall_mem_cons.mp positive
      rw [guardedProduct, List.prod_cons, ← Nat.mul_assoc]
      by_cases fits : n * d ≤ max
      · rw [if_neg (Nat.not_lt.mpr ((Nat.le_div_iff_mul_le head).mpr fits)), ih (n * d) fits tail]
      · have large : ¬ n * d * rest.prod ≤ max := fun below =>
          fits ((Nat.le_mul_of_pos_right _ (prod_pos tail)).trans below)
        rw [if_neg large, if_pos]
        exact Nat.lt_of_not_le fun below => fits ((Nat.le_div_iff_mul_le head).mp below)

end GuardedProduct

namespace Shape

/-- The number of elements of a static shape, as an exact integer. -/
def elements (shape : Shape) : Nat := (shape.dims.map Int.toNat).prod

theorem static_pos {shape : Shape} (static : shape.hasDynamicDim = false) :
    ∀ d ∈ shape.dims, 0 < d := by
  intro d member
  have nonneg : ¬ d < 0 := by
    intro negative
    rw [hasDynamicDim, List.any_eq_false] at static
    exact static d member (decide_eq_true negative)
  rcases shape.valid d member with dynamic | positive
  · omega
  · exact positive.1

theorem elements_pos {shape : Shape} (static : shape.hasDynamicDim = false) :
    0 < shape.elements := by
  apply prod_pos
  intro n member
  obtain ⟨d, listed, rfl⟩ := List.mem_map.mp member
  have positive := static_pos static d listed
  omega

theorem numelFrom_guarded (shape : Shape) (dims : List Int) (n : Nat)
    (positive : ∀ d ∈ dims, 0 < d) :
    shape.numelFrom dims n =
      (guardedProduct sizeMax (dims.map Int.toNat) n).elim
        (.error (.invalidArgument ("numel overflow for shape: " ++ shape.toString))) .ok := by
  induction dims generalizing n with
  | nil => rfl
  | cons d rest ih =>
      obtain ⟨head, tail⟩ := List.forall_mem_cons.mp positive
      rw [numelFrom, List.map_cons, guardedProduct]
      by_cases large : sizeMax / d.toNat < n
      · rw [if_pos ⟨head, large⟩, if_pos large]
        rfl
      · rw [if_neg fun guard => large guard.2, if_neg large, ih _ tail]

/-- `numel` of a static shape: the exact count, or an error past 64 bits. -/
theorem numel_static {shape : Shape} (static : shape.hasDynamicDim = false) :
    shape.numel =
      if shape.elements < 2 ^ 64 then .ok shape.elements
      else .error (.invalidArgument ("numel overflow for shape: " ++ shape.toString)) := by
  have positive : ∀ n ∈ shape.dims.map Int.toNat, 0 < n := by
    intro n member
    obtain ⟨d, listed, rfl⟩ := List.mem_map.mp member
    have positive := static_pos static d listed
    omega
  rw [numel, static, if_neg Bool.false_ne_true, numelFrom_guarded _ _ _ (static_pos static),
    guardedProduct_eq _ _ _ (by decide) positive, Nat.one_mul]
  by_cases fits : shape.elements < 2 ^ 64
  · have below : (shape.dims.map Int.toNat).prod ≤ sizeMax := Nat.le_of_lt_succ fits
    rw [if_pos fits, if_pos below]
    rfl
  · have above : ¬ (shape.dims.map Int.toNat).prod ≤ sizeMax := fun below =>
      fits (Nat.lt_succ_of_le below)
    rw [if_neg fits, if_neg above]
    rfl

end Shape

namespace ByteTensor

open Loops

/-- `release` leaves the device as it is. -/
def release (tensor : ByteTensor) : ByteTensor :=
  { tensor with allocatedBytes := 0, data := fun _ => 0, written := 0 }

/-- A failed call has released the tensor. -/
def bindCpuData (tensor : ByteTensor) (data : Option (Buffer UInt8)) (bytes : Nat) :
    Status × ByteTensor :=
  let tensor := tensor.release
  match data with
  | none => (.invalidArgument ("cannot bind null CPU storage to tensor: " ++ tensor.name), tensor)
  | some data =>
      if tensor.shape.hasDynamicDim then
        (.invalidArgument ("cannot bind tensor with dynamic shape: " ++ tensor.shape.toString),
          tensor)
      else
        match tensor.nbytes with
        | .error st => (st, tensor)
        | .ok nb =>
            if bytes < nb then
              (.outOfRange ("external CPU storage is too small for tensor " ++ tensor.name), tensor)
            else (.makeOk, { tensor with allocatedBytes := bytes, data := data, device := {} })

/-- The exact number of bytes of the elements. -/
def Occupies (tensor : ByteTensor) (exact : Nat) : Prop :=
  tensor.shape.hasDynamicDim = false ∧
    ∃ size, tensor.dtype.size = .ok size ∧ exact = tensor.shape.elements * size

/-- `nbytes` is exact or fails, and a tensor with storage has room for its elements. -/
structure SizesExact (tensor : ByteTensor) : Prop where
  exact : ∀ bytes, tensor.nbytes = .ok bytes → tensor.Occupies bytes
  allocated : ∀ after, tensor.allocateCpu = .ok after →
    ∀ bytes, tensor.Occupies bytes → bytes ≤ after.allocatedBytes
  bound : ∀ data bytes, (tensor.bindCpuData data bytes).1.isOk = true →
    ∀ needed, tensor.Occupies needed → needed ≤ (tensor.bindCpuData data bytes).2.allocatedBytes

theorem size_error {dtype : DType} {st : Status} (unsized : dtype.size = .error st) :
    st.isOk = false := by
  cases dtype <;> cases unsized <;> rfl

/-- `nbytes` fails, or stores the product modulo 2^64. -/
theorem nbytes_cases (tensor : ByteTensor) :
    (∃ st, tensor.nbytes = .error st ∧ st.isOk = false) ∨
      ∃ size, tensor.shape.hasDynamicDim = false ∧ tensor.shape.elements < 2 ^ 64 ∧
        tensor.dtype.size = .ok size ∧
        tensor.nbytes = .ok (tensor.shape.elements * size % 2 ^ 64) := by
  unfold nbytes
  cases dynamic : tensor.shape.hasDynamicDim with
  | true =>
      left
      rw [Shape.numel, if_pos dynamic]
      exact ⟨_, rfl, rfl⟩
  | false =>
      rw [Shape.numel_static dynamic]
      by_cases fits : tensor.shape.elements < 2 ^ 64
      · rw [if_pos fits]
        cases sized : tensor.dtype.size with
        | error st => exact Or.inl ⟨st, rfl, size_error sized⟩
        | ok size => exact Or.inr ⟨size, rfl, fits, rfl, rfl⟩
      · left
        rw [if_neg fits]
        exact ⟨_, rfl, rfl⟩

theorem Occupies.unique {tensor : ByteTensor} {first second : Nat} (one : tensor.Occupies first)
    (two : tensor.Occupies second) : first = second := by
  obtain ⟨_, size, sized, rfl⟩ := one
  obtain ⟨_, size', sized', rfl⟩ := two
  rw [sized, Except.ok.injEq] at sized'
  rw [sized']

theorem allocateCpu_ok {tensor after : ByteTensor} (done : tensor.allocateCpu = .ok after) :
    tensor.nbytes = .ok after.allocatedBytes := by
  unfold allocateCpu at done
  split at done
  · cases done
  · cases known : tensor.nbytes with
    | error st => simp [known, bind, Except.bind] at done
    | ok bytes =>
        simp only [known, bind, Except.bind, Except.ok.injEq] at done
        rw [← done]
        rfl

theorem bindCpuData_ok {tensor : ByteTensor} {data : Option (Buffer UInt8)} {bytes : Nat}
    (done : (tensor.bindCpuData data bytes).1.isOk = true) :
    ∃ nb, tensor.nbytes = .ok nb ∧ nb ≤ bytes ∧
      (tensor.bindCpuData data bytes).2.allocatedBytes = bytes := by
  have same : tensor.release.nbytes = tensor.nbytes := rfl
  unfold bindCpuData at done ⊢
  dsimp only at done ⊢
  rw [same] at done ⊢
  cases data with
  | none => cases done
  | some data =>
      by_cases dynamic : tensor.release.shape.hasDynamicDim = true
      · simp only [dynamic, if_true] at done
        cases done
      · simp only [dynamic, Bool.false_eq_true, if_false] at done ⊢
        rcases nbytes_cases tensor with ⟨st, failed, notOk⟩ | ⟨size, _, _, _, known⟩
        · simp only [failed, notOk] at done
          cases done
        · simp only [known] at done ⊢
          by_cases small : bytes < tensor.shape.elements * size % 2 ^ 64
          · rw [if_pos small] at done
            cases done
          · exact ⟨_, rfl, Nat.le_of_not_lt small, by rw [if_neg small]⟩

/-- Sizes are exact unless the count fits 64 bits and the count of bytes does not. -/
theorem tensor_sizes_exact_iff (tensor : ByteTensor) :
    tensor.SizesExact ↔
      ∀ size, tensor.dtype.size = .ok size → tensor.shape.hasDynamicDim = false →
        tensor.shape.elements < 2 ^ 64 → tensor.shape.elements * size < 2 ^ 64 := by
  constructor
  · intro sizes size sized static fits
    rcases nbytes_cases tensor with ⟨st, failed, _⟩ | ⟨size', _, _, sized', known⟩
    · rw [nbytes, Shape.numel_static static, if_pos fits, sized] at failed
      cases failed
    · have whole := (sizes.exact _ known).unique ⟨static, size, sized, rfl⟩
      rw [← whole]
      exact Nat.mod_lt _ (by decide)
  · intro small
    have exact : ∀ bytes, tensor.nbytes = .ok bytes → tensor.Occupies bytes := by
      intro bytes known
      rcases nbytes_cases tensor with ⟨st, failed, _⟩ | ⟨size, static, fits, sized, product⟩
      · rw [failed] at known
        cases known
      · rw [product, Except.ok.injEq, Nat.mod_eq_of_lt (small size sized static fits)] at known
        exact ⟨static, size, sized, known.symm⟩
    constructor
    · exact exact
    · intro after done bytes occupied
      rw [occupied.unique (exact _ (allocateCpu_ok done))]
    · intro data bytes done needed occupied
      obtain ⟨nb, known, room, stored⟩ := bindCpuData_ok done
      rw [stored, occupied.unique (exact nb known)]
      exact room

/-- 2^62 floats: 2^64 bytes, stored as 0. -/
def hugeTensor : ByteTensor :=
  { name := "huge", shape := { dims := [4611686018427387904] }, dtype := .float32 }

theorem hugeTensor_nbytes :
    ¬ hugeTensor.SizesExact ∧ hugeTensor.Occupies 18446744073709551616 ∧
      hugeTensor.allocateCpu.map allocatedBytes = .ok 0 := by
  have occupied : hugeTensor.Occupies 18446744073709551616 := ⟨rfl, 4, rfl, by decide⟩
  have allocated : hugeTensor.allocateCpu = .ok (hugeTensor.allocateCpuBytes 0) := by rfl
  refine ⟨fun sizes => ?_, occupied, by rw [allocated]; rfl⟩
  have room := sizes.allocated _ allocated _ occupied
  exact absurd room (by decide)

end ByteTensor

end MiniLLM
