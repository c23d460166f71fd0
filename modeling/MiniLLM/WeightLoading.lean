import MiniLLM.GgufWeightLoader

/-!
What a successful weight load wrote. `loadTensorFromGguf` succeeds exactly when
`Passes` holds, and then its destination holds the elements of the GGUF tensor
wherever the sizes agree (`Fits`). The copying routes compare sizes, the
converting one does not: that is where a load can succeed without `Fits`.
-/

namespace MiniLLM

open ByteReader Loops

namespace WeightLoader

variable (product : Int8 → UInt32 → UInt32)

/-- The two routes that copy a packed tensor without converting it. -/
def Native (source : GgmlDataType) (dtype : DType) : Prop :=
  source = .Q8_0 ∧ dtype = .q8_0 ∨ source = .BF16 ∧ dtype = .bfloat16

instance (source : GgmlDataType) (dtype : DType) : Decidable (Native source dtype) :=
  inferInstanceAs (Decidable (_ ∨ _))

/-- The bytes that `count` elements of the source take at the destination. -/
def loadedBytes (source : GgmlDataType) (dtype : DType) (count : Nat) : Nat :=
  if source = .Q8_0 ∧ dtype = .q8_0 then (count + 31) / 32 * 34
  else if source = .BF16 ∧ dtype = .bfloat16 then count * 2
  else count * 4

/-- Element `i` of the source as a float. -/
def floatElement (source : GgmlDataType) (raw : Bytes) (i : Nat) : UInt32 :=
  if source = .F32 then
    ⟨assemble 32 [byteAt raw (4 * i), byteAt raw (4 * i + 1), byteAt raw (4 * i + 2),
      byteAt raw (4 * i + 3)]⟩
  else if source = .F16 then f16ToF32 (u16At raw (2 * i))
  else if source = .BF16 then bf16ToF32 (u16At raw (2 * i))
  else q8Element product raw (i / 32) (i % 32)

/-- The bytes that represent element `i` of the source in a destination of type `dtype`: a
packed element is its byte under the scale of its block. -/
def sourceElement (source : GgmlDataType) (dtype : DType) (raw : Bytes) (i : Nat) : Bytes :=
  if source = .Q8_0 ∧ dtype = .q8_0 then
    [byteAt raw (i / 32 * 34), byteAt raw (i / 32 * 34 + 1), byteAt raw (i / 32 * 34 + 2 + i % 32)]
  else if source = .BF16 ∧ dtype = .bfloat16 then [byteAt raw (2 * i), byteAt raw (2 * i + 1)]
  else littleEndian 4 (floatElement product source raw i).toBitVec

/-- The bytes that hold element `i` of a tensor. -/
def elementBytes (dtype : DType) (data : Buffer UInt8) (i : Nat) : Bytes :=
  match dtype.size with
  | .ok width => (List.range width).map fun k => data (width * i + k)
  | .error _ => [data (i / 32 * 34), data (i / 32 * 34 + 1), data (i / 32 * 34 + 2 + i % 32)]

/-! The converting route. -/

/-- The first `count` floats have been stored, nothing beyond them. -/
def FloatsStored (element : Nat → UInt32) (count : Nat) (dst : Sink) : Prop :=
  dst.written = 4 * count ∧
    ∀ i, i < count → ∀ k, k < 4 →
      dst.data (4 * i + k) = byteAt (littleEndian 4 (element i).toBitVec) k

theorem FloatsStored.store {element : Nat → UInt32} {count : Nat} {dst : Sink}
    (stored : FloatsStored element count dst) :
    FloatsStored element (count + 1) (dst.storeFloat count (element count)) := by
  constructor
  · simp only [Sink.storeFloat, stored.1]
    omega
  · intro i below k small
    rcases Nat.lt_succ_iff_lt_or_eq.mp below with earlier | rfl
    · rw [← stored.2 i earlier k small]
      exact if_neg (by omega)
    · have inside : 4 * i ≤ 4 * i + k ∧ 4 * i + k < 4 * i + 4 := by omega
      simp only [Sink.storeFloat, if_pos inside]
      congr 1
      omega

theorem loop_stored (element : Nat → UInt32) (count : Nat) (data : Buffer UInt8) :
    FloatsStored element count
      (loop count (fun i dst => dst.storeFloat i (element i)) ⟨data, 0⟩) :=
  loop_invariant (FloatsStored element) count _ _
    ⟨rfl, fun i below => by omega⟩ fun i dst _ stored => stored.store

/-- The blocks of the quantised loop cover the elements in order. -/
theorem blocks_stored (element : Nat → Nat → UInt32) (count : Nat) (data : Buffer UInt8) :
    FloatsStored (fun i => element (i / 32) (i % 32)) count
      (loop ((count + 31) / 32) (fun b dst =>
        loop (min 32 (count - b * 32)) (fun i dst => dst.storeFloat (b * 32 + i) (element b i)) dst)
        ⟨data, 0⟩) := by
  have covered := loop_invariant
    (fun b dst => FloatsStored (fun i => element (i / 32) (i % 32)) (min (b * 32) count) dst)
    ((count + 31) / 32) (fun b dst =>
      loop (min 32 (count - b * 32)) (fun i dst => dst.storeFloat (b * 32 + i) (element b i)) dst)
    ⟨data, 0⟩ ⟨by simp, fun i below => by omega⟩ ?_
  · have all : min ((count + 31) / 32 * 32) count = count := by omega
    rwa [all] at covered
  · intro b dst below stored
    have start : min (b * 32) count = b * 32 := by omega
    have finish : min ((b + 1) * 32) count = b * 32 + min 32 (count - b * 32) := by omega
    rw [start] at stored
    rw [finish]
    apply loop_invariant
      (fun i dst => FloatsStored (fun i => element (i / 32) (i % 32)) (b * 32 + i) dst)
    · exact stored
    · intro i dst short done
      have block : (b * 32 + i) / 32 = b := by omega
      have offset : (b * 32 + i) % 32 = i := by omega
      have next := done.store
      rwa [block, offset] at next

theorem q8Blocks_eq (count : Nat) (fits : count + 31 < 2 ^ 64) :
    q8Blocks count = (count + 31) / 32 := by
  have sum : count + kQ8_0BlockElems - 1 = count + 31 := by
    rw [kQ8_0BlockElems]
    omega
  rw [q8Blocks, sum, Nat.mod_eq_of_lt fits, kQ8_0BlockElems]

theorem byteAt_assembled (raw : Bytes) (i k : Nat) (small : k < 4) :
    byteAt (littleEndian 4 (assemble 32 [byteAt raw (4 * i), byteAt raw (4 * i + 1),
      byteAt raw (4 * i + 2), byteAt raw (4 * i + 3)])) k = byteAt raw (4 * i + k) := by
  have word := littleEndian_assemble 32 [byteAt raw (4 * i), byteAt raw (4 * i + 1),
    byteAt raw (4 * i + 2), byteAt raw (4 * i + 3)] (by simp)
  rw [List.length_cons, List.length_cons, List.length_cons, List.length_cons, List.length_nil]
    at word
  rw [word]
  match k with
  | 0 => rfl
  | 1 => rfl
  | 2 => rfl
  | 3 => rfl

theorem known_source (source : GgmlDataType) (known : ggmlBlckSize source ≠ 0) :
    source = .F32 ∨ source = .F16 ∨ source = .BF16 ∨ source = .Q8_0 := by
  unfold ggmlBlckSize at known
  split at known
  · tauto
  · split at known
    · tauto
    · exact absurd rfl known

theorem dequantizeToF32_stored (source : GgmlDataType) (raw : Bytes) (count : Nat)
    (data : Buffer UInt8) (known : ggmlBlckSize source ≠ 0) (fits : count * 4 < 2 ^ 64) :
    ∃ dst, dequantizeToF32 product source raw ⟨data, 0⟩ count = .ok dst ∧
      FloatsStored (floatElement product source raw) count dst := by
  rcases known_source source known with rfl | rfl | rfl | rfl
  · refine ⟨_, rfl, ?_⟩
    rw [Nat.mod_eq_of_lt fits]
    constructor
    · simp only [Sink.memcpy]
      omega
    · intro i below k small
      have copied : 4 * i + k < count * 4 := by omega
      simp only [Sink.memcpy, if_pos copied]
      exact (byteAt_assembled raw i k small).symm
  · exact ⟨_, rfl, loop_stored (fun i => f16ToF32 (u16At raw (2 * i))) count data⟩
  · exact ⟨_, rfl, loop_stored (fun i => bf16ToF32 (u16At raw (2 * i))) count data⟩
  · have stored := blocks_stored (q8Element product raw) count data
    refine ⟨_, rfl, ?_⟩
    rw [q8Blocks_eq count (by omega)]
    exact stored

theorem dequantizeToF32_ok_iff (source : GgmlDataType) (raw : Bytes) (dst : Sink) (count : Nat) :
    (∃ after, dequantizeToF32 product source raw dst count = .ok after) ↔
      ggmlBlckSize source ≠ 0 := by
  constructor
  · rintro ⟨after, done⟩ unknown
    have none : ¬ (source = .F32 ∨ source = .F16 ∨ source = .BF16 ∨ source = .Q8_0) := by
      rintro (rfl | rfl | rfl | rfl) <;> revert unknown <;> decide
    rw [dequantizeToF32, if_neg (by tauto), if_neg (by tauto), if_neg (by tauto),
      if_neg (by tauto)] at done
    cases done
  · intro known
    rcases known_source source known with rfl | rfl | rfl | rfl
    · exact ⟨_, rfl⟩
    · exact ⟨_, rfl⟩
    · exact ⟨_, rfl⟩
    · exact ⟨_, rfl⟩

/-! The bytes a load reads. -/

theorem numElementsFrom_le (ti : GGUFTensorInfo) (dims : List Int) (start n : Nat)
    (bounded : start ≤ sizeMax) (counted : ti.numElementsFrom dims start = .ok n) :
    n ≤ sizeMax := by
  induction dims generalizing start with
  | nil =>
      cases counted
      exact bounded
  | cons d rest ih =>
      rw [GGUFTensorInfo.numElementsFrom] at counted
      split at counted
      · cases counted
      · split at counted
        · cases counted
        · rename_i positive small
          apply ih _ _ counted
          have room : start ≤ sizeMax / d.toNat := by omega
          exact (Nat.le_div_iff_mul_le (by omega)).mp room

theorem numElements_le (ti : GGUFTensorInfo) (n : Nat) (counted : ti.numElements = .ok n) :
    n < 2 ^ 64 := by
  have bound := numElementsFrom_le ti ti.dimensions 1 n (by decide) counted
  rw [sizeMax] at bound
  omega

theorem bytes_ok (ti : GGUFTensorInfo) (size : Nat) (sized : ti.bytes = .ok size) :
    ∃ n, ti.numElements = .ok n ∧ ggmlBlckSize ti.dtype ≠ 0 ∧ size < 2 ^ 64 ∧
      (ti.dtype = .Q8_0 → size = q8Blocks n * 34) ∧
      (ti.dtype = .BF16 → size = n * 2 ∧ n ≤ sizeMax / 2) := by
  unfold GGUFTensorInfo.bytes at sized
  cases counted : ti.numElements with
  | error st =>
      rw [counted] at sized
      cases sized
  | ok n =>
      have bound := numElements_le ti n counted
      rw [counted] at sized
      change (if ggmlBlckSize ti.dtype = 0 ∨ ggmlDtypeSize ti.dtype = 0 then _ else _) = _ at sized
      split at sized
      · cases sized
      · rename_i known
        split at sized
        · cases sized
        · rename_i small
          have total := Except.ok.inj sized
          have scaled := Nat.mul_le_of_le_div _ _ _ (Nat.le_of_not_lt small)
          rw [total, sizeMax] at scaled
          refine ⟨n, rfl, by tauto, by omega, ?_, ?_⟩
          · intro packed
            rw [← total, packed]
            rfl
          · intro half
            rw [half] at total small
            change ¬ sizeMax / 2 < (n + 1 - 1) % 2 ^ 64 / 1 at small
            change (n + 1 - 1) % 2 ^ 64 / 1 * 2 = size at total
            omega

theorem tensorView_length (file : GGUFFile) (ti : GGUFTensorInfo) (raw : Bytes)
    (viewed : file.tensorView ti = .ok raw) : ti.bytes = .ok raw.length := by
  unfold GGUFFile.tensorView at viewed
  cases mapped : file.memoryView with
  | none =>
      rw [mapped] at viewed
      cases viewed
  | some view =>
      rw [mapped] at viewed
      cases sized : ti.bytes with
      | error st =>
          rw [sized] at viewed
          cases viewed
      | ok size =>
          rw [sized] at viewed
          change (if sizeMax - ti.offset.toNat < file.dataOffset.toNat then _ else _) = _ at viewed
          split at viewed
          · cases viewed
          · split at viewed
            · cases viewed
            · cases viewed
              rw [List.length_take, List.length_drop]
              congr 1
              omega

theorem readTensorData_length (path : String) (disk : GGUFParser.Disk)
    (dataOffset tensorOffset : UInt64) (size : Nat) (raw : Bytes)
    (read : GGUFParser.readTensorData path disk dataOffset tensorOffset size = .ok raw) :
    raw.length = size := by
  unfold GGUFParser.readTensorData at read
  split at read
  · unfold GGUFParser.copyTensorBytesFromView at read
    split at read
    · cases read
    · dsimp only at read
      split at read
      · cases read
      · cases read
        rw [List.length_take, List.length_drop]
        omega
  · split at read
    · cases read
    · split at read
      · cases read
      · dsimp only at read
        split at read
        · cases read
        · split at read
          · cases read
          · cases read
            rw [List.length_take, List.length_drop]
            omega

theorem tensorRawView_length (path : String) (disk : GGUFParser.Disk) (file : GGUFFile)
    (ti : GGUFTensorInfo) (raw : Bytes) (viewed : tensorRawView path disk file ti = .ok raw) :
    ti.bytes = .ok raw.length := by
  unfold tensorRawView at viewed
  cases direct : file.tensorView ti with
  | ok view =>
      rw [direct] at viewed
      cases viewed
      exact tensorView_length file ti raw direct
  | error st =>
      rw [direct] at viewed
      dsimp only at viewed
      split at viewed
      · cases viewed
      · cases sized : ti.bytes with
        | error st =>
            rw [sized] at viewed
            cases viewed
        | ok size =>
            rw [sized] at viewed
            rw [readTensorData_length path disk _ _ size raw viewed]

/-! One load. -/

/-- The checks of `load_tensor_from_gguf`: only the copying routes compare sizes. -/
def Passes (path : String) (disk : GGUFParser.Disk) (file : GGUFFile) (ti : GGUFTensorInfo)
    (dtype : DType) (device : Device) (allocated : Nat) : Prop :=
  allocated ≠ 0 ∧ device.type ≠ .cuda ∧ ∃ raw, tensorRawView path disk file ti = .ok raw ∧
    (Native ti.dtype dtype → raw.length ≤ allocated)

/-- The GGUF tensor has the value's element count, and its loaded bytes are the destination's. -/
def Fits (ti : GGUFTensorInfo) (shape : Shape) (dtype : DType) (allocated : Nat) : Prop :=
  ∃ n, ti.numElements = .ok n ∧ shape.numel = .ok n ∧ loadedBytes ti.dtype dtype n = allocated

section Load

variable {path : String} {disk : GGUFParser.Disk} {file : GGUFFile} {ti : GGUFTensorInfo}
  {tensor : ByteTensor} {raw : Bytes}

/-- Past its first checks a load is one of two things. -/
theorem loadTensorFromGguf_native (allocated : tensor.allocatedBytes ≠ 0)
    (onCpu : tensor.device.type ≠ .cuda) (viewed : tensorRawView path disk file ti = .ok raw)
    (native : Native ti.dtype tensor.dtype) :
    (raw.length ≤ tensor.allocatedBytes →
      loadTensorFromGguf product path disk file ti tensor =
        .ok (store tensor (Sink.memcpy ⟨tensor.data, 0⟩ raw raw.length))) ∧
    (tensor.allocatedBytes < raw.length →
      ∃ st, loadTensorFromGguf product path disk file ti tensor = .error st) := by
  have sized := tensorRawView_length path disk file ti raw viewed
  obtain ⟨n, counted, known, -, packed, half⟩ := bytes_ok ti raw.length sized
  have present : (!tensor.isAllocated) = false := by simp [ByteTensor.isAllocated, allocated]
  unfold loadTensorFromGguf
  rw [present, viewed, counted]
  simp only [Bool.false_eq_true, if_false, bind, Except.bind, if_neg onCpu]
  rcases native with both | both
  · rw [if_pos both, sized]
    simp only [Nat.lt_irrefl, if_false]
    exact ⟨fun room => if_neg (by omega), fun short => ⟨_, if_pos short⟩⟩
  · have apart : ¬ (ti.dtype = .Q8_0 ∧ tensor.dtype = .q8_0) := by
      rw [both.2]
      simp
    obtain ⟨size, small⟩ := half both.1
    rw [if_neg apart, if_pos both, if_neg (by omega), ← size]
    simp only [Nat.lt_irrefl, if_false]
    exact ⟨fun room => if_neg (by omega), fun short => ⟨_, if_pos short⟩⟩

theorem loadTensorFromGguf_converted {n : Nat} (allocated : tensor.allocatedBytes ≠ 0)
    (onCpu : tensor.device.type ≠ .cuda) (viewed : tensorRawView path disk file ti = .ok raw)
    (counted : ti.numElements = .ok n) (converted : ¬ Native ti.dtype tensor.dtype) :
    loadTensorFromGguf product path disk file ti tensor =
      (dequantizeToF32 product ti.dtype raw ⟨tensor.data, 0⟩ n).map (store tensor) := by
  have present : (!tensor.isAllocated) = false := by simp [ByteTensor.isAllocated, allocated]
  unfold loadTensorFromGguf
  rw [present, viewed, counted]
  simp only [Bool.false_eq_true, if_false, bind, Except.bind, if_neg onCpu]
  rw [if_neg fun both => converted (Or.inl both), if_neg fun both => converted (Or.inr both)]
  cases dequantizeToF32 product ti.dtype raw ⟨tensor.data, 0⟩ n <;> rfl

theorem loadTensorFromGguf_iff :
    (∃ after, loadTensorFromGguf product path disk file ti tensor = .ok after) ↔
      Passes path disk file ti tensor.dtype tensor.device tensor.allocatedBytes := by
  constructor
  · rintro ⟨after, done⟩
    have allocated : tensor.allocatedBytes ≠ 0 := by
      intro empty
      have absent : (!tensor.isAllocated) = true := by simp [ByteTensor.isAllocated, empty]
      rw [loadTensorFromGguf, if_pos absent] at done
      cases done
    have present : ¬ (!tensor.isAllocated) = true := by simp [ByteTensor.isAllocated, allocated]
    cases viewed : tensorRawView path disk file ti with
    | error st =>
        rw [loadTensorFromGguf, if_neg present, viewed] at done
        cases done
    | ok raw =>
        obtain ⟨n, counted, -⟩ :=
          bytes_ok ti raw.length (tensorRawView_length path disk file ti raw viewed)
        have onCpu : tensor.device.type ≠ .cuda := by
          intro onCuda
          rw [loadTensorFromGguf, if_neg present, viewed, counted] at done
          simp only [bind, Except.bind, if_pos onCuda] at done
          cases done
        refine ⟨allocated, onCpu, raw, viewed, fun native => ?_⟩
        by_contra short
        obtain ⟨st, failed⟩ := (loadTensorFromGguf_native product allocated onCpu viewed native).2
          (by omega)
        rw [failed] at done
        cases done
  · rintro ⟨allocated, onCpu, raw, viewed, room⟩
    obtain ⟨n, counted, known, -⟩ :=
      bytes_ok ti raw.length (tensorRawView_length path disk file ti raw viewed)
    by_cases native : Native ti.dtype tensor.dtype
    · exact ⟨_, (loadTensorFromGguf_native product allocated onCpu viewed native).1 (room native)⟩
    · rw [loadTensorFromGguf_converted product allocated onCpu viewed counted native]
      obtain ⟨dst, done⟩ :=
        (dequantizeToF32_ok_iff product ti.dtype raw ⟨tensor.data, 0⟩ n).mpr known
      exact ⟨store tensor dst, by rw [done]; rfl⟩

/-- What the property asks of a loaded tensor: the load stayed inside the allocation, the element
counts agree, and every element is the source's element at the same index. -/
structure Sound (ti : GGUFTensorInfo) (raw : Bytes) (shape : Shape) (after : ByteTensor) : Prop where
  within : after.written ≤ after.allocatedBytes
  fits : Fits ti shape after.dtype after.allocatedBytes
  elements : ∀ n i, shape.numel = .ok n → i < n →
    elementBytes after.dtype after.data i = sourceElement product ti.dtype after.dtype raw i

theorem littleEndian_bytes (value : UInt32) :
    (List.range 4).map (fun k => byteAt (littleEndian 4 value.toBitVec) k) =
      littleEndian 4 value.toBitVec := by
  simp [List.range_succ, littleEndian, byteAt]

theorem sourceElement_converted (converted : ¬ Native ti.dtype tensor.dtype) (i : Nat) :
    sourceElement product ti.dtype tensor.dtype raw i =
      littleEndian 4 (floatElement product ti.dtype raw i).toBitVec := by
  rw [sourceElement, if_neg fun both => converted (Or.inl both),
    if_neg fun both => converted (Or.inr both)]

theorem loadTensorFromGguf_sound {shape : Shape} {after : ByteTensor}
    (loaded : loadTensorFromGguf product path disk file ti tensor = .ok after)
    (fits : Fits ti shape tensor.dtype tensor.allocatedBytes)
    (bounded : tensor.allocatedBytes < 2 ^ 64)
    (width : ¬ Native ti.dtype tensor.dtype → tensor.dtype.size = .ok 4) :
    ∃ raw, tensorRawView path disk file ti = .ok raw ∧ Sound product ti raw shape after := by
  obtain ⟨allocated, onCpu, raw, viewed, room⟩ :=
    (loadTensorFromGguf_iff product).mp ⟨after, loaded⟩
  obtain ⟨n, counted, same, total⟩ := fits
  obtain ⟨m, counted', known, -, packed, half⟩ :=
    bytes_ok ti raw.length (tensorRawView_length path disk file ti raw viewed)
  obtain rfl : n = m := Except.ok.inj (counted.symm.trans counted')
  refine ⟨raw, viewed, ?_⟩
  have elementCount : ∀ k, shape.numel = .ok k → k = n := fun k known =>
    Except.ok.inj (known.symm.trans same)
  by_cases native : Native ti.dtype tensor.dtype
  · rw [(loadTensorFromGguf_native product allocated onCpu viewed native).1 (room native)] at loaded
    obtain rfl := Except.ok.inj loaded
    refine ⟨by simpa [store, Sink.memcpy] using room native, ⟨n, counted, same, total⟩, ?_⟩
    intro k i numel below
    obtain rfl := elementCount k numel
    rcases native with ⟨source, dtype⟩ | ⟨source, dtype⟩
    · rw [loadedBytes, if_pos ⟨source, dtype⟩] at total
      have blocks := packed source
      rw [q8Blocks_eq k (by omega)] at blocks
      simp only [store, Sink.memcpy, elementBytes, sourceElement, dtype, source, DType.size,
        and_self, if_true]
      rw [if_pos (by omega), if_pos (by omega), if_pos (by omega)]
    · have length := (half source).1
      simp only [store, Sink.memcpy, elementBytes, sourceElement, dtype, source, DType.size,
        and_self, if_true, List.range_succ, List.range_zero, List.nil_append,
        List.map_cons, List.map_nil, Nat.add_zero, List.cons_append]
      rw [if_pos (by omega), if_pos (by omega), if_neg (by simp)]
  · rw [loadTensorFromGguf_converted product allocated onCpu viewed counted native] at loaded
    have whole : n * 4 = tensor.allocatedBytes := by
      rw [loadedBytes, if_neg fun both => native (Or.inl both),
        if_neg fun both => native (Or.inr both)] at total
      exact total
    obtain ⟨dst, done, stored⟩ :=
      dequantizeToF32_stored product ti.dtype raw n tensor.data known (by omega)
    rw [done] at loaded
    obtain rfl := Except.ok.inj loaded
    refine ⟨?_, ⟨n, counted, same, total⟩, ?_⟩
    · change dst.written ≤ tensor.allocatedBytes
      rw [stored.1]
      omega
    · intro k i numel below
      obtain rfl := elementCount k numel
      have converted : ¬ Native ti.dtype (store tensor dst).dtype := native
      rw [sourceElement_converted product converted]
      change elementBytes tensor.dtype dst.data i = _
      rw [elementBytes, width native, ← littleEndian_bytes]
      apply List.map_congr_left
      intro j member
      exact stored.2 i below j (List.mem_range.mp member)

end Load

end WeightLoader

end MiniLLM
