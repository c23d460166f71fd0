import MiniLLM.GgufRoundTrip
import MiniLLM.TensorSizes

/-!
Where the bytes of a tensor of the file are, and how many. `bytes` is the exact
size except for block-quantised tensors whose count is just below 2^64. The view,
the copy out of the view and the stream read one range of the file.
-/

namespace MiniLLM

open ByteReader GgufWriter

namespace GGUFTensorInfo

def product (ti : GGUFTensorInfo) : Nat := (ti.dimensions.map Int.toNat).prod

/-- Whole blocks for all elements, in exact integers. -/
def exactBytes (ti : GGUFTensorInfo) : Nat :=
  (ti.product + ggmlBlckSize ti.dtype - 1) / ggmlBlckSize ti.dtype * ggmlDtypeSize ti.dtype

theorem numElementsFrom_guarded (ti : GGUFTensorInfo) (dims : List Int) (n : Nat)
    (positive : ∀ d ∈ dims, 0 < d) :
    ti.numElementsFrom dims n =
      (guardedProduct sizeMax (dims.map Int.toNat) n).elim
        (.error (.invalidArgument ("numel overflow for tensor: " ++ text ti.name))) .ok := by
  induction dims generalizing n with
  | nil => rfl
  | cons d rest ih =>
      obtain ⟨head, tail⟩ := List.forall_mem_cons.mp positive
      rw [numElementsFrom, List.map_cons, guardedProduct, if_neg (Int.not_le.mpr head)]
      by_cases large : sizeMax / d.toNat < n
      · rw [if_pos large, if_pos large]
        rfl
      · rw [if_neg large, if_neg large, ih _ tail]

theorem numElementsFrom_positive {ti : GGUFTensorInfo} {dims : List Int} {n total : Nat}
    (counted : ti.numElementsFrom dims n = .ok total) : ∀ d ∈ dims, 0 < d := by
  induction dims generalizing n with
  | nil => simp
  | cons d rest ih =>
      rw [numElementsFrom] at counted
      split at counted
      · cases counted
      · next head =>
          split at counted
          · cases counted
          · exact List.forall_mem_cons.mpr ⟨Int.not_le.mp head, ih counted⟩

/-- `num_elements`: the exact count of positive dimensions, below 2^64. -/
theorem numElements_ok (ti : GGUFTensorInfo) (n : Nat) :
    ti.numElements = .ok n ↔
      (∀ d ∈ ti.dimensions, 0 < d) ∧ ti.product < 2 ^ 64 ∧ n = ti.product := by
  have exact : (∀ d ∈ ti.dimensions, 0 < d) → (ti.numElements = .ok n ↔
      ti.product < 2 ^ 64 ∧ n = ti.product) := by
    intro positive
    have factors : ∀ f ∈ ti.dimensions.map Int.toNat, 0 < f := by
      intro f member
      obtain ⟨d, listed, rfl⟩ := List.mem_map.mp member
      have above := positive d listed
      omega
    rw [numElements, numElementsFrom_guarded _ _ _ positive,
      guardedProduct_eq _ _ _ (by decide) factors, Nat.one_mul]
    by_cases fits : (ti.dimensions.map Int.toNat).prod ≤ sizeMax
    · have below : ti.product < 2 ^ 64 := Nat.lt_succ_of_le fits
      rw [if_pos fits, Option.elim_some, Except.ok.injEq, and_iff_right below]
      exact eq_comm
    · have above : ¬ (ti.product < 2 ^ 64 ∧ n = ti.product) := fun below =>
        fits (Nat.le_of_lt_succ below.1)
      rw [if_neg fits]
      exact ⟨fun impossible => (by cases impossible), fun both => absurd both above⟩
  constructor
  · intro counted
    have positive := numElementsFrom_positive counted
    exact ⟨positive, (exact positive).mp counted⟩
  · exact fun ⟨positive, rest⟩ => (exact positive).mpr rest

theorem ggmlSizes (dt : GgmlDataType) :
    ggmlBlckSize dt = 0 ∨ ggmlBlckSize dt = 1 ∧ 0 < ggmlDtypeSize dt ∨
      dt = .Q8_0 ∧ ggmlBlckSize dt = 32 ∧ ggmlDtypeSize dt = 34 := by
  unfold ggmlBlckSize ggmlDtypeSize
  by_cases f32 : dt = .F32
  · simp [f32]
  · by_cases f16 : dt = .F16
    · subst f16
      decide
    · by_cases bf16 : dt = .BF16
      · subst bf16
        decide
      · by_cases q8 : dt = .Q8_0
        · subst q8
          decide
        · simp [f32, f16, bf16, q8]

/-- The sum that rounds up stays below 2^64. -/
def RoundsUp (ti : GGUFTensorInfo) : Prop :=
  ¬ (ti.dtype = .Q8_0 ∧ (∀ d ∈ ti.dimensions, 0 < d) ∧
    2 ^ 64 - 32 < ti.product ∧ ti.product < 2 ^ 64)

theorem bytes_ok {ti : GGUFTensorInfo} {count : Nat} (known : ti.bytes = .ok count) :
    (∀ d ∈ ti.dimensions, 0 < d) ∧ ti.product < 2 ^ 64 ∧ ggmlBlckSize ti.dtype ≠ 0 ∧
      count = (ti.product + ggmlBlckSize ti.dtype - 1) % 2 ^ 64 / ggmlBlckSize ti.dtype *
        ggmlDtypeSize ti.dtype := by
  unfold bytes at known
  cases counted : ti.numElements with
  | error st => simp [counted, bind, Except.bind] at known
  | ok n =>
      obtain ⟨positive, fits, rfl⟩ := (numElements_ok ti n).mp counted
      simp only [counted, bind, Except.bind] at known
      split at known
      · cases known
      · next supported =>
          split at known
          · cases known
          · obtain rfl := Except.ok.inj known
            exact ⟨positive, fits, fun zero => supported (Or.inl zero), rfl⟩

/-- The sum that wraps leaves no block at all. -/
theorem bytes_wrapped {ti : GGUFTensorInfo} (wraps : ¬ ti.RoundsUp) :
    ti.bytes = .ok 0 ∧ 0 < ti.exactBytes := by
  obtain ⟨q8, positive, low, high⟩ := not_not.mp wraps
  have counted : ti.numElements = .ok ti.product := (numElements_ok ti _).mpr ⟨positive, high, rfl⟩
  have block : ggmlBlckSize ti.dtype = 32 := by
    rw [q8]
    rfl
  have size : ggmlDtypeSize ti.dtype = 34 := by
    rw [q8]
    rfl
  have none : (ti.product + 32 - 1) % 2 ^ 64 / 32 = 0 := by omega
  constructor
  · unfold bytes
    simp only [counted, bind, Except.bind, block, size, none]
    rfl
  · unfold exactBytes
    rw [block, size]
    omega

/-- The byte size of a tensor is exact unless the sum that rounds up wraps. -/
theorem gguf_bytes_exact_iff (ti : GGUFTensorInfo) :
    (∀ count, ti.bytes = .ok count → count = ti.exactBytes) ↔ ti.RoundsUp := by
  constructor
  · intro exact
    by_contra wraps
    obtain ⟨empty, positive⟩ := bytes_wrapped wraps
    exact absurd (exact 0 empty) positive.ne
  · intro roundsUp count known
    obtain ⟨positive, fits, supported, rfl⟩ := bytes_ok known
    have small : ti.product + ggmlBlckSize ti.dtype - 1 < 2 ^ 64 := by
      rcases ggmlSizes ti.dtype with zero | ⟨one, _⟩ | ⟨q8, block, _⟩
      · exact absurd zero supported
      · omega
      · by_contra wraps
        exact roundsUp ⟨q8, positive, by omega, fits⟩
    rw [exactBytes, Nat.mod_eq_of_lt small]

/-- 16 rows of 2^60 - 1 bytes of Q8_0, as the parser reads them from a file. -/
def wrappingTensor : WireTensor where
  name := ascii "w"
  dimensions := [1152921504606846975, 16]
  dtype := 8
  offset := 0

theorem wrappingTensor_bytes :
    Reads GGUFParser.readTensorInfo wrappingTensor.write wrappingTensor.info ∧
      ¬ ∀ count, wrappingTensor.info.bytes = .ok count →
        count = wrappingTensor.info.exactBytes := by
  have ranges : ∀ dim ∈ wrappingTensor.dimensions, 0 < dim.toNat ∧ dim.toNat < 2 ^ 63 := by
    intro dim listed
    rcases List.mem_cons.mp listed with rfl | last
    · exact ⟨by decide, by decide⟩
    · cases List.mem_singleton.mp last
      exact ⟨by decide, by decide⟩
  have formed : wrappingTensor.WellFormed := ⟨by decide, by decide, by decide, ranges⟩
  refine ⟨GGUFParser.readTensorInfo_reads wrappingTensor formed, fun exact => ?_⟩
  have none : wrappingTensor.info.bytes = .ok 0 := by rfl
  exact absurd (exact 0 none) (by decide)

end GGUFTensorInfo

section Access

/-- The range of `count` bytes at an offset: inside the contents, and no 64-bit sum wraps. -/
structure Inside (contents : Bytes) (dataOffset offset : UInt64) (count : Nat) : Prop where
  unwrapped : (dataOffset + offset).toNat = dataOffset.toNat + offset.toNat
  bound : (dataOffset + offset).toNat + count ≤ contents.length

def slice (contents : Bytes) (dataOffset offset : UInt64) (count : Nat) : Bytes :=
  (contents.drop (dataOffset + offset).toNat).take count

/-- The subtraction guards of the source say exactly that. -/
theorem inside_iff (contents : Bytes) (dataOffset offset : UInt64) (count : Nat) :
    Inside contents dataOffset offset count ↔
      ¬ sizeMax - offset.toNat < dataOffset.toNat ∧
        dataOffset.toNat + offset.toNat + count ≤ contents.length := by
  have small := offset.toNat_lt
  constructor
  · rintro ⟨unwrapped, bound⟩
    have below := (dataOffset + offset).toNat_lt
    rw [unwrapped] at bound below
    exact ⟨by rw [sizeMax]; omega, bound⟩
  · rintro ⟨fits, bound⟩
    have below : dataOffset.toNat + offset.toNat < 2 ^ 64 := by
      rw [sizeMax] at fits
      omega
    have unwrapped : (dataOffset + offset).toNat = dataOffset.toNat + offset.toNat := by
      rw [UInt64.toNat_add, Nat.mod_eq_of_lt below]
    exact ⟨unwrapped, by rw [unwrapped]; exact bound⟩

theorem tensorView_ok {file : GGUFFile} {contents view : Bytes} {ti : GGUFTensorInfo}
    (mapped : file.memoryView = some contents) (viewed : file.tensorView ti = .ok view) :
    ∃ count, ti.bytes = .ok count ∧ Inside contents file.dataOffset ti.offset count ∧
      view = slice contents file.dataOffset ti.offset count := by
  unfold GGUFFile.tensorView at viewed
  rw [mapped] at viewed
  cases known : ti.bytes with
  | error st => simp [known, bind, Except.bind] at viewed
  | ok count =>
      simp only [known, bind, Except.bind] at viewed
      split at viewed
      · cases viewed
      · next fits =>
          split at viewed
          · cases viewed
          · next room =>
              obtain rfl := Except.ok.inj viewed
              have inside := (inside_iff contents file.dataOffset ti.offset count).mpr
                ⟨fits, by omega⟩
              exact ⟨count, rfl, inside, by rw [slice, inside.unwrapped]⟩

/-- Copying out of the view delivers the slice, when it is in the view. -/
theorem copyTensorBytesFromView_ok (contents : Bytes) (dataOffset offset : UInt64) {count : Nat}
    (nonempty : 0 < count) (copied : Bytes) :
    GGUFParser.copyTensorBytesFromView contents dataOffset offset count = .ok copied ↔
      Inside contents dataOffset offset count ∧ slice contents dataOffset offset count = copied := by
  unfold GGUFParser.copyTensorBytesFromView
  dsimp only
  constructor
  · intro done
    split at done
    · cases done
    · next fits =>
        split at done
        · cases done
        · next room =>
            obtain rfl := Except.ok.inj done
            have inside := (inside_iff contents dataOffset offset count).mpr ⟨fits, by omega⟩
            exact ⟨inside, by rw [slice, inside.unwrapped]⟩
  · rintro ⟨inside, rfl⟩
    obtain ⟨fits, bound⟩ := (inside_iff _ _ _ _).mp inside
    rw [if_neg fits, if_neg (by omega), slice, inside.unwrapped]

/-- Reading the stream delivers the same slice of the same requests. -/
theorem readTensorData_stream_ok (filename : String) (file : FileBytes) (dataOffset offset : UInt64)
    {count : Nat} (nonempty : 0 < count) (read : Bytes) :
    GGUFParser.readTensorData filename ⟨none, some file⟩ dataOffset offset count = .ok read ↔
      Inside file.bytes dataOffset offset count ∧
        slice file.bytes dataOffset offset count = read := by
  have addressable := file.addressable
  unfold GGUFParser.readTensorData
  dsimp only
  constructor
  · intro done
    split at done
    · cases done
    · next fits =>
        split at done
        · cases done
        · split at done
          · cases done
          · next room =>
              obtain rfl := Except.ok.inj done
              have bound : dataOffset.toNat + offset.toNat + count ≤ file.bytes.length :=
                Nat.le_of_not_lt fun short => room ⟨nonempty, short⟩
              have inside := (inside_iff file.bytes dataOffset offset count).mpr ⟨fits, bound⟩
              exact ⟨inside, by rw [slice, inside.unwrapped]⟩
  · rintro ⟨inside, rfl⟩
    obtain ⟨fits, bound⟩ := (inside_iff _ _ _ _).mp inside
    rw [if_neg fits, if_neg (by omega), if_neg (by omega), slice, inside.unwrapped]

/-- A view is the slice of the file that `bytes` and the offsets name; the copy out of
the mapped file and the read of the stream accept the same requests and deliver the same
bytes. -/
theorem tensor_access_agrees (file : GGUFFile) (contents : FileBytes)
    (mapped : file.memoryView = some contents.bytes) (ti : GGUFTensorInfo) :
    (∀ view, file.tensorView ti = .ok view →
      ∃ count, ti.bytes = .ok count ∧ Inside contents.bytes file.dataOffset ti.offset count ∧
        view = slice contents.bytes file.dataOffset ti.offset count) ∧
    ∀ (filename : String) (dataOffset offset : UInt64) (count : Nat), 0 < count → ∀ delivered,
      GGUFParser.readTensorData filename ⟨some contents.bytes, some contents⟩ dataOffset offset
          count = .ok delivered ↔
        GGUFParser.readTensorData filename ⟨none, some contents⟩ dataOffset offset count =
          .ok delivered := by
  constructor
  · exact fun view viewed => tensorView_ok mapped viewed
  · intro filename dataOffset offset count nonempty delivered
    rw [readTensorData_stream_ok filename contents dataOffset offset nonempty delivered]
    exact copyTensorBytesFromView_ok contents.bytes dataOffset offset nonempty delivered

-- Five bytes of data behind a header of two.
def sevenBytes : FileBytes where
  bytes := [0, 0, 1, 2, 3, 4, 5]
  addressable := by decide

def sevenFile : GGUFFile where
  version := 3
  tensorCount := 1
  metadataKvCount := 0
  dataOffset := 2
  sourcePath := "seven"
  memoryView := some sevenBytes.bytes
  metadata := []
  tensorInfos := []

theorem tensor_access_agrees_seven :
    slice sevenBytes.bytes 2 1 4 = [2, 3, 4, 5] ∧
      GGUFParser.readTensorData "seven" ⟨none, some sevenBytes⟩ 2 1 4 = .ok [2, 3, 4, 5] := by
  have agree := (tensor_access_agrees sevenFile sevenBytes rfl
    { name := [], dtype := .F32, dimensions := [1], offset := 1 }).2 "seven" 2 1 4 (by decide)
    [2, 3, 4, 5]
  exact ⟨by decide, agree.mp (by rfl)⟩

end Access

end MiniLLM
