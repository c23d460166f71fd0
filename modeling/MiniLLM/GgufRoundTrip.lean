import MiniLLM.GGUFParser

/-!
The GGUF v3 layout and its round trip. `WireValue` and `WireTensor` are the
content of a file as it is written: tags, element types and the dimensions in
file order. The `write` functions follow the writer of the parser's tests; the
parser reads back `value` and `info`, whatever data follows the header.
-/

namespace MiniLLM

open ByteReader

inductive WireValue where
  | uint8 (value : UInt8) | int8 (value : Int8)
  | uint16 (value : UInt16) | int16 (value : Int16)
  | uint32 (value : UInt32) | int32 (value : Int32)
  | uint64 (value : UInt64) | int64 (value : Int64)
  | float32 (bits : UInt32) | float64 (bits : UInt64)
  | bool (byte : UInt8)
  | string (value : Bytes)
  | array (elemType : UInt32) (elements : List WireValue)

structure WireTensor where
  name : Bytes
  dimensions : List UInt64
  dtype : UInt32
  offset : UInt64

namespace GgufWriter

def writeU8 (v : UInt8) : Bytes := littleEndian 1 v.toBitVec
def writeU16Le (v : UInt16) : Bytes := littleEndian 2 v.toBitVec
def writeU32Le (v : UInt32) : Bytes := littleEndian 4 v.toBitVec
def writeU64Le (v : UInt64) : Bytes := littleEndian 8 v.toBitVec
def writeString (s : Bytes) : Bytes := writeU64Le (UInt64.ofNat s.length) ++ s

end GgufWriter

namespace WireValue

open GgufWriter

def type : WireValue → GgufValueType
  | .uint8 _ => .uint8 | .int8 _ => .int8
  | .uint16 _ => .uint16 | .int16 _ => .int16
  | .uint32 _ => .uint32 | .int32 _ => .int32
  | .uint64 _ => .uint64 | .int64 _ => .int64
  | .float32 _ => .float32 | .float64 _ => .float64
  | .bool _ => .bool
  | .string _ => .string
  | .array _ _ => .array

mutual

def write : WireValue → Bytes
  | .uint8 v => writeU8 v
  | .int8 v => writeU8 v.toUInt8
  | .uint16 v => writeU16Le v
  | .int16 v => writeU16Le v.toUInt16
  | .uint32 v => writeU32Le v
  | .int32 v => writeU32Le v.toUInt32
  | .uint64 v => writeU64Le v
  | .int64 v => writeU64Le v.toUInt64
  | .float32 bits => writeU32Le bits
  | .float64 bits => writeU64Le bits
  | .bool byte => writeU8 byte
  | .string s => writeString s
  | .array elemType elements =>
      writeU32Le elemType ++ (writeU64Le (UInt64.ofNat elements.length) ++ writeAll elements)

def writeAll : List WireValue → Bytes
  | [] => []
  | element :: rest => element.write ++ writeAll rest

end

mutual

/-- What the parser stores for it. -/
def value : WireValue → MetadataValue
  | .uint8 v => .uint8 v | .int8 v => .int8 v
  | .uint16 v => .uint16 v | .int16 v => .int16 v
  | .uint32 v => .uint32 v | .int32 v => .int32 v
  | .uint64 v => .uint64 v | .int64 v => .int64 v
  | .float32 bits => .float bits | .float64 bits => .double bits
  | .bool byte => .bool (byte != 0)
  | .string s => .string s
  | .array _ elements => .array (valueAll elements)

def valueAll : List WireValue → List MetadataValue
  | [] => []
  | element :: rest => element.value :: valueAll rest

end

mutual

/-- Strings and arrays within the limits, the elements of an array of the type it declares. -/
def WellFormed : WireValue → Prop
  | .string s => s.length ≤ 64 * 1024 * 1024
  | .array elemType elements =>
      elements.length ≤ 16 * 1024 * 1024 ∧ AllFormed (.ofRaw elemType) elements
  | _ => True

def AllFormed (elemType : GgufValueType) : List WireValue → Prop
  | [] => True
  | element :: rest =>
      element.type = elemType ∧ element.WellFormed ∧ AllFormed elemType rest

end

theorem writeAll_eq (elements : List WireValue) : writeAll elements = elements.flatMap write := by
  induction elements with
  | nil => rfl
  | cons element rest ih => rw [writeAll, ih, List.flatMap_cons]

theorem valueAll_eq (elements : List WireValue) : valueAll elements = elements.map value := by
  induction elements with
  | nil => rfl
  | cons element rest ih => rw [valueAll, ih, List.map_cons]

@[simp] theorem ofRaw_type (v : WireValue) : GgufValueType.ofRaw v.type.toRaw = v.type := by
  cases v <;> rfl

end WireValue

namespace WireTensor

open GgufWriter

def write (t : WireTensor) : Bytes :=
  writeString t.name ++ (writeU32Le (UInt32.ofNat t.dimensions.length) ++
    (t.dimensions.flatMap writeU64Le ++ (writeU32Le t.dtype ++ writeU64Le t.offset)))

/-- Row-major: the file's dimensions in reverse. -/
def info (t : WireTensor) : GGUFTensorInfo where
  name := t.name
  dtype := ⟨t.dtype⟩
  dimensions := (t.dimensions.map fun dim => (dim.toNat : Int)).reverse
  offset := t.offset

structure WellFormed (t : WireTensor) : Prop where
  shortName : t.name.length ≤ 64 * 1024 * 1024
  someDimension : 0 < t.dimensions.length
  fewDimensions : t.dimensions.length ≤ 8
  dimensionRange : ∀ dim ∈ t.dimensions, 0 < dim.toNat ∧ dim.toNat < 2 ^ 63

end WireTensor

/-- The content of a GGUF v3 file within the parser's limits. -/
structure GgufContent where
  metadata : List (Bytes × WireValue)
  tensors : List WireTensor
  distinctKeys : (metadata.map Prod.fst).Nodup
  shortKeys : ∀ entry ∈ metadata, entry.1.length ≤ 64 * 1024 * 1024
  formedValues : ∀ entry ∈ metadata, entry.2.WellFormed
  fewTensors : tensors.length ≤ 1024 * 1024
  formedTensors : ∀ t ∈ tensors, t.WellFormed
  nonzeroAlignment : (ascii "general.alignment", WireValue.uint32 0) ∉ metadata

namespace GgufContent

open GgufWriter

def alignment (content : GgufContent) : UInt32 :=
  match content.metadata.lookup (ascii "general.alignment") with
  | some (.uint32 v) => v
  | _ => 32

def writeEntry (entry : Bytes × WireValue) : Bytes :=
  writeString entry.1 ++ (writeU32Le entry.2.type.toRaw ++ entry.2.write)

def header (content : GgufContent) : Bytes :=
  ascii "GGUF" ++ (writeU32Le 3 ++
    (writeU64Le (UInt64.ofNat content.tensors.length) ++
      (writeU64Le (UInt64.ofNat content.metadata.length) ++
        (content.metadata.flatMap writeEntry ++ content.tensors.flatMap WireTensor.write))))

def roundUp (length alignment : Nat) : Nat := (length + alignment - 1) / alignment * alignment

/-- The header, zeros up to the alignment, the tensor data. -/
def write (content : GgufContent) (data : Bytes) : Bytes :=
  content.header ++
    (List.replicate (roundUp content.header.length content.alignment.toNat -
      content.header.length) 0 ++ data)

end GgufContent

namespace GGUFParser

open GgufWriter

theorem take_reads_of (count : Nat) (err : Status) (bytes : Bytes) (full : bytes.length = count) :
    Reads (take count err) bytes bytes := by
  subst full
  exact take_reads bytes err

theorem readU8_reads (v : UInt8) : Reads readU8 (writeU8 v) v := by
  have raw := take_reads_of 1 (.ioError "unexpected EOF reading uint8") (writeU8 v)
    (littleEndian_length 1 v.toBitVec)
  have packed := raw.map (fun b => UInt8.ofBitVec (assemble 8 b))
  rwa [writeU8, assemble_littleEndian 1 v.toBitVec v.toBitVec.isLt] at packed

theorem readU16Le_reads (v : UInt16) : Reads readU16Le (writeU16Le v) v := by
  have raw := take_reads_of 2 (.ioError "failed to read uint16") (writeU16Le v)
    (littleEndian_length 2 v.toBitVec)
  have packed := raw.map (fun b => UInt16.ofBitVec (assemble 16 b))
  rwa [writeU16Le, assemble_littleEndian 2 v.toBitVec v.toBitVec.isLt] at packed

theorem readU32Le_reads (v : UInt32) : Reads readU32Le (writeU32Le v) v := by
  have raw := take_reads_of 4 (.ioError "failed to read uint32") (writeU32Le v)
    (littleEndian_length 4 v.toBitVec)
  have packed := raw.map (fun b => UInt32.ofBitVec (assemble 32 b))
  rwa [writeU32Le, assemble_littleEndian 4 v.toBitVec v.toBitVec.isLt] at packed

theorem readU64Le_reads (v : UInt64) : Reads readU64Le (writeU64Le v) v := by
  have raw := take_reads_of 8 (.ioError "failed to read uint64") (writeU64Le v)
    (littleEndian_length 8 v.toBitVec)
  have packed := raw.map (fun b => UInt64.ofBitVec (assemble 64 b))
  rwa [writeU64Le, assemble_littleEndian 8 v.toBitVec v.toBitVec.isLt] at packed

theorem readString_reads (s : Bytes) (short : s.length ≤ 64 * 1024 * 1024) :
    Reads readString (writeString s) s := by
  have size : UInt64.size = 2 ^ 64 := rfl
  have exact_length : (UInt64.ofNat s.length).toNat = s.length :=
    UInt64.toNat_ofNat_of_lt' (by omega)
  have within : ¬ maxStringLen < UInt64.ofNat s.length := by
    rw [UInt64.lt_iff_toNat_lt, exact_length]
    simpa [maxStringLen] using short
  have streamable : ¬ streamsizeMax < UInt64.ofNat s.length := by
    rw [UInt64.lt_iff_toNat_lt, exact_length]
    have bound : streamsizeMax.toNat = 2 ^ 63 - 1 := by decide
    omega
  apply (readU64Le_reads (UInt64.ofNat s.length)).bind
  rw [if_neg within, if_neg streamable]
  exact take_reads_of _ _ s exact_length.symm

theorem toNat_ofNat (n : Nat) (fits : n < 2 ^ 64) : (UInt64.ofNat n).toNat = n :=
  UInt64.toNat_ofNat_of_lt' fits

/-- A loop that appends one item a round reads a list of them. -/
theorem push_reads {Item Out : Type} (reader : FileReader Out) (items : List Item)
    (encode : Item → Bytes) (decoded : Item → Out)
    (each : ∀ item ∈ items, Reads reader (encode item) (decoded item)) (count : Nat)
    (counted : items.length = count) :
    Reads (iterate (fun acc => do let item ← reader; pure (acc ++ [item])) count [])
      (items.flatMap encode) (items.map decoded) := by
  subst counted
  have rounds := iterate_reads (fun acc => do let item ← reader; pure (acc ++ [item])) items
    encode (fun acc item => acc ++ [decoded item])
    (fun item found acc => (each item found).map (fun item => acc ++ [item])) []
  rwa [List.foldl_append_eq_append, List.nil_append, ← List.flatMap_def,
    ← List.map_eq_flatMap] at rounds

mutual

theorem readMetadataValue_reads (v : WireValue) (formed : v.WellFormed) :
    Reads (readMetadataValue v.type) v.write v.value := by
  cases v with
  | uint8 v => exact (readU8_reads v).map _
  | int8 v =>
      have packed := (readU8_reads v.toUInt8).map
        (fun b => MetadataValue.int8 b.toInt8)
      rwa [Int8.toInt8_toUInt8] at packed
  | uint16 v => exact (readU16Le_reads v).map _
  | int16 v =>
      have packed := (readU16Le_reads v.toUInt16).map
        (fun b => MetadataValue.int16 b.toInt16)
      rwa [Int16.toInt16_toUInt16] at packed
  | uint32 v => exact (readU32Le_reads v).map _
  | int32 v =>
      have packed := (readU32Le_reads v.toUInt32).map
        (fun b => MetadataValue.int32 b.toInt32)
      rwa [Int32.toInt32_toUInt32] at packed
  | uint64 v => exact (readU64Le_reads v).map _
  | int64 v =>
      have packed := (readU64Le_reads v.toUInt64).map
        (fun b => MetadataValue.int64 b.toInt64)
      rwa [Int64.toInt64_toUInt64] at packed
  | float32 bits => exact (readU32Le_reads bits).map _
  | float64 bits => exact (readU64Le_reads bits).map _
  | bool byte => exact (readU8_reads byte).map _
  | string s => exact (readString_reads s formed).map _
  | array elemType elements =>
      obtain ⟨short, formed⟩ := formed
      have counted : (UInt64.ofNat elements.length).toNat = elements.length :=
        toNat_ofNat _ (by omega)
      have within : ¬ maxArrayLen < UInt64.ofNat elements.length := by
        rw [UInt64.lt_iff_toNat_lt, counted]
        simpa [maxArrayLen] using short
      have each := readElements_reads elements (.ofRaw elemType) formed
      change Reads (readMetadataValue .array) _ _
      rw [readMetadataValue_array, WireValue.write, WireValue.value, WireValue.writeAll_eq,
        WireValue.valueAll_eq]
      apply (readU32Le_reads elemType).bind
      apply (readU64Le_reads _).bind
      rw [if_neg within]
      exact (push_reads _ elements _ _ each _ counted.symm).map _

theorem readElements_reads (elements : List WireValue) (type : GgufValueType)
    (formed : WireValue.AllFormed type elements) :
    ∀ element ∈ elements, Reads (readMetadataValue type) element.write element.value := by
  cases elements with
  | nil => simp
  | cons element rest =>
      obtain ⟨typed, first, others⟩ := formed
      have head := readMetadataValue_reads element first
      rw [typed] at head
      exact List.forall_mem_cons.mpr ⟨head, readElements_reads rest type others⟩

end

theorem emplace_fold (entries : List (Bytes × WireValue)) (metadata : List (Bytes × MetadataValue))
    (distinct : (metadata.map Prod.fst ++ entries.map Prod.fst).Nodup) :
    entries.foldl (fun metadata entry => emplace metadata entry.1 entry.2.value) metadata =
      metadata ++ entries.map fun entry => (entry.1, entry.2.value) := by
  induction entries generalizing metadata with
  | nil => simp
  | cons entry rest ih =>
      have fresh : ∀ old ∈ metadata, old.1 ≠ entry.1 := by
        intro old found same
        have apart := (List.nodup_append.mp distinct).2.2
        exact apart old.1 (List.mem_map_of_mem found) entry.1 (by simp) same
      have added : emplace metadata entry.1 entry.2.value =
          metadata ++ [(entry.1, entry.2.value)] := by
        rw [emplace, if_neg]
        simp only [List.any_eq_true, decide_eq_true_eq]
        rintro ⟨old, found, same⟩
        exact fresh old found same
      rw [List.foldl_cons, added, ih]
      · simp
      · simpa using distinct

theorem parseMetadata_reads (entries : List (Bytes × WireValue)) (fits : entries.length < 2 ^ 64)
    (shortKeys : ∀ entry ∈ entries, entry.1.length ≤ 64 * 1024 * 1024)
    (formedValues : ∀ entry ∈ entries, entry.2.WellFormed) :
    Reads (parseMetadata (UInt64.ofNat entries.length)) (entries.flatMap GgufContent.writeEntry)
      (entries.foldl (fun metadata entry => emplace metadata entry.1 entry.2.value) []) := by
  have rounds := iterate_reads (fun metadata => do
      let key ← readString
      let typeVal ← readU32Le
      let value ← readMetadataValue (.ofRaw typeVal)
      pure (emplace metadata key value)) entries GgufContent.writeEntry
    (fun metadata entry => emplace metadata entry.1 entry.2.value) ?_ []
  · rwa [parseMetadata, toNat_ofNat _ fits]
  · intro entry found metadata
    apply (readString_reads entry.1 (shortKeys entry found)).bind
    apply (readU32Le_reads _).bind
    rw [WireValue.ofRaw_type]
    exact (readMetadataValue_reads entry.2 (formedValues entry found)).map _

theorem contentMetadata_reads (content : GgufContent) (fits : content.metadata.length < 2 ^ 64) :
    Reads (parseMetadata (UInt64.ofNat content.metadata.length))
      (content.metadata.flatMap GgufContent.writeEntry)
      (content.metadata.map fun entry => (entry.1, entry.2.value)) := by
  have reads := parseMetadata_reads content.metadata fits content.shortKeys content.formedValues
  rwa [emplace_fold _ _ (by simpa using content.distinctKeys), List.nil_append] at reads

theorem readDimensions_reads (dimensions : List UInt64) (few : dimensions.length ≤ 8)
    (range : ∀ dim ∈ dimensions, 0 < dim.toNat ∧ dim.toNat < 2 ^ 63) :
    Reads (readDimensions (UInt32.ofNat dimensions.length)) (dimensions.flatMap writeU64Le)
      (dimensions.map fun dim => (dim.toNat : Int)).reverse := by
  have counted : (UInt32.ofNat dimensions.length).toNat = dimensions.length :=
    UInt32.toNat_ofNat_of_lt' (by rw [UInt32.size]; omega)
  have rounds := iterate_reads (fun read => do
      let dim ← readU64Le
      if dim = 0 ∨ int64Max < dim then
        Reader.fail (.invalidArgument s!"GGUF tensor has invalid dimension: {dim.toNat}")
      else pure ((dim.toNat : Int) :: read)) dimensions writeU64Le
    (fun read dim => (dim.toNat : Int) :: read) ?_ []
  · rw [List.foldl_flip_cons_eq_append, List.append_nil] at rounds
    rwa [readDimensions, counted]
  · intro dim found read
    obtain ⟨positive, below⟩ := range dim found
    have valid : ¬ (dim = 0 ∨ int64Max < dim) := by
      rintro (rfl | large)
      · simp at positive
      · rw [UInt64.lt_iff_toNat_lt] at large
        have bound : int64Max.toNat = 2 ^ 63 - 1 := by decide
        omega
    apply (readU64Le_reads dim).bind_last
    rw [if_neg valid]
    exact Reads.pure _

theorem readTensorInfo_reads (t : WireTensor) (formed : t.WellFormed) :
    Reads readTensorInfo t.write t.info := by
  have counted : (UInt32.ofNat t.dimensions.length).toNat = t.dimensions.length :=
    UInt32.toNat_ofNat_of_lt' (by have := formed.fewDimensions; rw [UInt32.size]; omega)
  have valid : ¬ (UInt32.ofNat t.dimensions.length = 0 ∨
      maxTensorDims < UInt32.ofNat t.dimensions.length) := by
    have some := formed.someDimension
    have few := formed.fewDimensions
    rintro (zero | many)
    · rw [zero] at counted
      simp at counted
      omega
    · rw [UInt32.lt_iff_toNat_lt, counted] at many
      have bound : maxTensorDims.toNat = 8 := by decide
      omega
  apply (readString_reads t.name formed.shortName).bind
  apply (readU32Le_reads _).bind
  rw [if_neg valid]
  apply (readDimensions_reads t.dimensions formed.fewDimensions formed.dimensionRange).bind
  apply (readU32Le_reads t.dtype).bind
  exact (readU64Le_reads t.offset).map _

theorem parseTensorInfos_reads (tensors : List WireTensor) (few : tensors.length ≤ 1024 * 1024)
    (formed : ∀ t ∈ tensors, t.WellFormed) :
    Reads (parseTensorInfos (UInt64.ofNat tensors.length)) (tensors.flatMap WireTensor.write)
      (tensors.map WireTensor.info) := by
  have counted : (UInt64.ofNat tensors.length).toNat = tensors.length := toNat_ofNat _ (by omega)
  have within : ¬ maxTensorCount < UInt64.ofNat tensors.length := by
    rw [UInt64.lt_iff_toNat_lt, counted]
    simpa [maxTensorCount] using few
  rw [parseTensorInfos, if_neg within]
  exact push_reads _ tensors _ _ (fun t found => readTensorInfo_reads t (formed t found)) _
    counted.symm

theorem readMagic_reads : Reads readMagic (ascii "GGUF") () := by
  have raw := take_reads_of 4 magicMismatch (ascii "GGUF") (by simp [ascii])
  apply raw.bind_last
  rw [magic, if_pos rfl]
  exact Reads.pure _

theorem alignmentOf_values (content : GgufContent) :
    alignmentOf (content.metadata.map fun entry => (entry.1, entry.2.value)) =
      content.alignment := by
  have found : ∀ entries : List (Bytes × WireValue), ∀ key : Bytes,
      (entries.map fun entry => (entry.1, entry.2.value)).lookup key =
        (entries.lookup key).map WireValue.value := by
    intro entries key
    induction entries with
    | nil => rfl
    | cons entry rest ih =>
        rw [List.map_cons, List.lookup_cons, List.lookup_cons, ih]
        cases key == entry.1 <;> rfl
  rw [alignmentOf, GgufContent.alignment, found]
  cases content.metadata.lookup (ascii "general.alignment") with
  | none => rfl
  | some v => cases v <;> rfl

theorem alignment_pos (content : GgufContent) : 0 < content.alignment.toNat := by
  have member : ∀ entries : List (Bytes × WireValue), ∀ key v,
      entries.lookup key = some v → (key, v) ∈ entries := by
    intro entries key v found
    obtain ⟨before, after, split, -⟩ := List.lookup_eq_some_iff.mp found
    simp [split]
  rw [GgufContent.alignment]
  split
  · rename_i v found
    apply Nat.pos_of_ne_zero
    intro zero
    have none : v = 0 := UInt32.toNat_inj.mp zero
    subst none
    exact content.nonzeroAlignment (member _ _ _ found)
  · decide

theorem roundUp_eq (length alignment : Nat) (positive : 0 < alignment) :
    length + (alignment - length % alignment) % alignment =
      GgufContent.roundUp length alignment := by
  have parts := Nat.div_add_mod length alignment
  have below := Nat.mod_lt length positive
  rw [GgufContent.roundUp]
  rcases Nat.eq_zero_or_pos (length % alignment) with whole | part
  · have quotient : (length + alignment - 1) / alignment = length / alignment := by
      apply Nat.div_eq_of_lt_le
      · rw [Nat.mul_comm]; omega
      · rw [Nat.succ_mul, Nat.mul_comm]; omega
    rw [quotient, whole, Nat.sub_zero, Nat.mod_self, Nat.mul_comm]
    omega
  · have quotient : (length + alignment - 1) / alignment = length / alignment + 1 := by
      apply Nat.div_eq_of_lt_le
      · rw [Nat.succ_mul, Nat.mul_comm]; omega
      · rw [Nat.succ_mul, Nat.succ_mul, Nat.mul_comm]; omega
    rw [quotient, Nat.mod_eq_of_lt (by omega), Nat.succ_mul, Nat.mul_comm]
    omega

theorem alignUp_toNat (length : Nat) (alignment : UInt32) (positive : 0 < alignment.toNat)
    (fits : length < 2 ^ 63) :
    (alignUp (UInt64.ofNat length) alignment.toUInt64).toNat =
      GgufContent.roundUp length alignment.toNat := by
  have small := alignment.toNat_lt
  have below := Nat.mod_lt length positive
  have pad := Nat.mod_lt (alignment.toNat - length % alignment.toNat) positive
  have position : (UInt64.ofNat length).toNat = length := toNat_ofNat length (by omega)
  have smaller : UInt64.ofNat length % alignment.toUInt64 ≤ alignment.toUInt64 := by
    rw [UInt64.le_iff_toNat_le, UInt64.toNat_mod, position, UInt32.toNat_toUInt64]
    omega
  rw [alignUp, UInt64.toNat_add, UInt64.toNat_mod, UInt64.toNat_sub_of_le _ _ smaller,
    UInt64.toNat_mod, position, UInt32.toNat_toUInt64, Nat.mod_eq_of_lt (by omega),
    roundUp_eq length alignment.toNat positive]

theorem flatMap_length_le {Item : Type} (items : List Item) (encode : Item → Bytes)
    (some : ∀ item, 0 < (encode item).length) : items.length ≤ (items.flatMap encode).length := by
  induction items with
  | nil => simp
  | cons item rest ih =>
      have := some item
      simp only [List.length_cons, List.flatMap_cons, List.length_append]
      omega

theorem writeEntry_pos (entry : Bytes × WireValue) :
    0 < (GgufContent.writeEntry entry).length := by
  simp only [GgufContent.writeEntry, writeString, writeU64Le, List.length_append,
    littleEndian_length]
  omega

/-- What the parser makes of the header, with what follows it left unread. -/
theorem parseHeader_header (content : GgufContent) (fits : content.metadata.length < 2 ^ 64)
    (filename : String) (memoryView : Option Bytes) (rest : Bytes) :
    parseHeader filename memoryView ⟨content.header ++ rest, 0⟩ = .ok
      ({ version := 3
         tensorCount := UInt64.ofNat content.tensors.length
         metadataKvCount := UInt64.ofNat content.metadata.length
         dataOffset := alignUp (UInt64.ofNat content.header.length) content.alignment.toUInt64
         sourcePath := filename
         memoryView := memoryView
         metadata := content.metadata.map fun entry => (entry.1, entry.2.value)
         tensorInfos := content.tensors.map WireTensor.info },
       ⟨rest, content.header.length⟩) := by
  have version : ¬ (3 : UInt32) ≠ kGgufVersion := by decide
  simp only [GgufContent.header, List.append_assoc, List.length_append]
  rw [parseHeader, readMagic_reads.run_bind, (readU32Le_reads 3).run_bind, if_neg version,
    (readU64Le_reads _).run_bind, (readU64Le_reads _).run_bind,
    (contentMetadata_reads content fits).run_bind,
    (parseTensorInfos_reads content.tensors content.fewTensors content.formedTensors).run_bind]
  simp only [alignmentOf_values, Nat.zero_add, Nat.add_assoc]
  rfl

/-- Parsing what the writer wrote gives back the content. -/
theorem gguf_round_trip (content : GgufContent) (data : Bytes) (file : FileBytes)
    (written : file.bytes = content.write data) (filename : String)
    (memoryView : Option Bytes) :
    ∃ parsed, parse filename (some file) memoryView = .ok parsed ∧
      parsed.metadata = content.metadata.map (fun entry => (entry.1, entry.2.value)) ∧
      parsed.tensorInfos = content.tensors.map WireTensor.info ∧
      parsed.dataOffset.toNat =
        GgufContent.roundUp content.header.length content.alignment.toNat := by
  have length : content.header.length < 2 ^ 63 := by
    have bound := file.addressable
    rw [written, GgufContent.write, List.length_append] at bound
    omega
  have fewEntries : content.metadata.length < 2 ^ 64 := by
    have entries := flatMap_length_le content.metadata _ writeEntry_pos
    simp only [GgufContent.header, List.length_append] at length
    omega
  have header := parseHeader_header content fewEntries filename memoryView
    (List.replicate (GgufContent.roundUp content.header.length content.alignment.toNat -
      content.header.length) 0 ++ data)
  rw [parse, written, GgufContent.write, header]
  exact ⟨_, rfl, rfl, rfl, alignUp_toNat _ _ (alignment_pos content) length⟩

/-- A nested array under one key, the alignment under another, one tensor of two dimensions. -/
def nestedContent : GgufContent where
  metadata :=
    [(ascii "nested", .array 9 [.array 8 [.string (ascii "x")], .array 7 [.bool 2, .bool 0]]),
      (ascii "general.alignment", .uint32 64)]
  tensors := [{ name := ascii "w", dimensions := [2, 3], dtype := 30, offset := 64 }]
  distinctKeys := by decide +kernel
  shortKeys := by decide +kernel
  formedValues := by
    have short : (ascii "x").length ≤ 64 * 1024 * 1024 := by decide +kernel
    simp only [List.forall_mem_cons, List.not_mem_nil, false_imp_iff, implies_true, and_true]
    exact ⟨⟨by decide, rfl, ⟨by decide, rfl, short, trivial⟩, rfl,
      ⟨by decide, rfl, trivial, rfl, trivial, trivial⟩, trivial⟩, trivial⟩
  fewTensors := by decide
  formedTensors := by
    simp only [List.forall_mem_cons, List.not_mem_nil, false_imp_iff, implies_true, and_true]
    refine ⟨by decide +kernel, by decide, by decide, fun dim member => ?_⟩
    rw [List.mem_cons, List.mem_singleton] at member
    rcases member with rfl | rfl <;> decide
  nonzeroAlignment := by
    simp

def nestedFile : FileBytes where
  bytes := nestedContent.write [7]
  addressable := by decide +kernel

theorem gguf_round_trip_nested :
    ∃ parsed, parse "nested.gguf" (some nestedFile) none = .ok parsed ∧
      parsed.metadata = nestedContent.metadata.map (fun entry => (entry.1, entry.2.value)) ∧
      parsed.tensorInfos = [{ name := ascii "w", dtype := .BF16, dimensions := [3, 2], offset := 64 }] ∧
      parsed.dataOffset.toNat = 192 := by
  have offset : GgufContent.roundUp nestedContent.header.length nestedContent.alignment.toNat = 192 := by
    decide +kernel
  rw [← offset]
  exact gguf_round_trip nestedContent [7] nestedFile rfl "nested.gguf" none

end GGUFParser

end MiniLLM
