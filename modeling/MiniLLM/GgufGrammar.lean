import MiniLLM.GgufTruncation

/-!
What the parser accepts. A header it reads is a `WireHeader` within the limits,
written as the format says: the converse of the round trip, without its
conditions on the keys and on the alignment.
-/

namespace MiniLLM

open ByteReader GgufWriter

structure WireHeader where
  metadata : List (Bytes × WireValue)
  tensors : List WireTensor

namespace WireHeader

structure WellFormed (header : WireHeader) : Prop where
  fewEntries : header.metadata.length < 2 ^ 64
  shortKeys : ∀ entry ∈ header.metadata, entry.1.length ≤ 64 * 1024 * 1024
  formedValues : ∀ entry ∈ header.metadata, entry.2.WellFormed
  fewTensors : header.tensors.length ≤ 1024 * 1024
  formedTensors : ∀ t ∈ header.tensors, t.WellFormed

def write (header : WireHeader) : Bytes :=
  ascii "GGUF" ++ (writeU32Le 3 ++
    (writeU64Le (UInt64.ofNat header.tensors.length) ++
      (writeU64Le (UInt64.ofNat header.metadata.length) ++
        (header.metadata.flatMap GgufContent.writeEntry ++
          header.tensors.flatMap WireTensor.write))))

/-- The value that `general.alignment` is given first. -/
def declaredAlignment (header : WireHeader) : Option WireValue :=
  header.metadata.lookup (ascii "general.alignment")

end WireHeader

namespace GGUFParser

theorem readU8_ok {stream after : Stream} {v : UInt8} (read : readU8 stream = .ok (v, after)) :
    stream.rest = writeU8 v ++ after.rest := by
  obtain ⟨bytes, middle, taken, last⟩ := bind_ok read
  cases last
  obtain ⟨counted, split⟩ := take_ok taken
  have written := littleEndian_assemble 8 bytes (by omega)
  rw [counted] at written
  rw [writeU8, written, split]

theorem readU16Le_ok {stream after : Stream} {v : UInt16}
    (read : readU16Le stream = .ok (v, after)) : stream.rest = writeU16Le v ++ after.rest := by
  obtain ⟨bytes, middle, taken, last⟩ := bind_ok read
  cases last
  obtain ⟨counted, split⟩ := take_ok taken
  have written := littleEndian_assemble 16 bytes (by omega)
  rw [counted] at written
  rw [writeU16Le, written, split]

theorem readU32Le_ok {stream after : Stream} {v : UInt32}
    (read : readU32Le stream = .ok (v, after)) : stream.rest = writeU32Le v ++ after.rest := by
  obtain ⟨bytes, middle, taken, last⟩ := bind_ok read
  cases last
  obtain ⟨counted, split⟩ := take_ok taken
  have written := littleEndian_assemble 32 bytes (by omega)
  rw [counted] at written
  rw [writeU32Le, written, split]

theorem readU64Le_ok {stream after : Stream} {v : UInt64}
    (read : readU64Le stream = .ok (v, after)) : stream.rest = writeU64Le v ++ after.rest := by
  obtain ⟨bytes, middle, taken, last⟩ := bind_ok read
  cases last
  obtain ⟨counted, split⟩ := take_ok taken
  have written := littleEndian_assemble 64 bytes (by omega)
  rw [counted] at written
  rw [writeU64Le, written, split]

theorem readString_ok {stream after : Stream} {s : Bytes}
    (read : readString stream = .ok (s, after)) :
    s.length ≤ 64 * 1024 * 1024 ∧ stream.rest = writeString s ++ after.rest := by
  obtain ⟨len, counted, readLen, read⟩ := bind_ok read
  split at read
  · cases read
  · rename_i short
    split at read
    · cases read
    · obtain ⟨length, split⟩ := take_ok read
      have limit : maxStringLen.toNat = 64 * 1024 * 1024 := by decide
      rw [UInt64.lt_iff_toNat_lt] at short
      refine ⟨by omega, ?_⟩
      rw [readU64Le_ok readLen, split, writeString, length, UInt64.ofNat_toNat, List.append_assoc]

theorem AllFormed_of {type : GgufValueType} {elements : List WireValue}
    (each : ∀ element ∈ elements, element.type = type ∧ element.WellFormed) :
    WireValue.AllFormed type elements := by
  induction elements with
  | nil => trivial
  | cons element rest ih =>
      obtain ⟨first, others⟩ := List.forall_mem_cons.mp each
      exact ⟨first.1, first.2, ih others⟩

/-- A scalar that is repackaged is the wire value of its bytes. -/
theorem packed_ok {α : Type} {reader : FileReader α} {pack : α → MetadataValue}
    {stream after : Stream} {value : MetadataValue} (wire : α → WireValue) (type : GgufValueType)
    (typed : ∀ v, (wire v).type = type) (packed : ∀ v, pack v = (wire v).value)
    (written : ∀ v middle, reader stream = .ok (v, middle) →
      (wire v).WellFormed ∧ stream.rest = (wire v).write ++ middle.rest)
    (read : (reader >>= fun v => pure (pack v)) stream = .ok (value, after)) :
    ∃ wire : WireValue, (wire.type = type ∧ wire.WellFormed) ∧
      stream.rest = wire.write ++ after.rest ∧ value = wire.value := by
  obtain ⟨v, middle, readV, last⟩ := bind_ok read
  cases last
  obtain ⟨formed, bytes⟩ := written v after readV
  exact ⟨wire v, ⟨typed v, formed⟩, bytes, packed v⟩

/-- A value that was read is what some well-formed wire value stands for. -/
theorem readNested_ok {fuel : Nat} {type : GgufValueType} {stream after : Stream}
    {value : MetadataValue} (read : readNested fuel type stream = .ok (value, after)) :
    ∃ wire : WireValue, (wire.type = type ∧ wire.WellFormed) ∧
      stream.rest = wire.write ++ after.rest ∧ value = wire.value := by
  induction fuel generalizing type stream after value with
  | zero => cases read
  | succ fuel ih =>
      cases type with
      | unknown raw => cases read
      | array =>
          obtain ⟨elemTypeVal, tagged, readTag, read⟩ := bind_ok read
          obtain ⟨arrayLen, counted, readCount, read⟩ := bind_ok read
          split at read
          · cases read
          · rename_i short
            obtain ⟨arr, ended, readAll, last⟩ := bind_ok read
            cases last
            obtain ⟨elements, length, formed, bytes, rfl⟩ :=
              iterate_ok (fun wire : WireValue =>
                  wire.type = GgufValueType.ofRaw elemTypeVal ∧ wire.WellFormed)
                WireValue.write (fun arr wire => arr ++ [wire.value])
                (fun arr stream next after round => by
                  obtain ⟨elem, middle, readElem, last⟩ := bind_ok round
                  cases last
                  obtain ⟨wire, good, split, rfl⟩ := ih readElem
                  exact ⟨wire, good, split, rfl⟩) readAll
            have limit : maxArrayLen.toNat = 16 * 1024 * 1024 := by decide
            rw [UInt64.lt_iff_toNat_lt] at short
            refine ⟨.array elemTypeVal elements, ⟨rfl, by omega, AllFormed_of formed⟩, ?_, ?_⟩
            · rw [readU32Le_ok readTag, readU64Le_ok readCount, bytes, WireValue.write,
                WireValue.writeAll_eq, length, UInt64.ofNat_toNat]
              simp only [List.append_assoc]
            · rw [WireValue.value, WireValue.valueAll_eq, List.foldl_append_eq_append,
                List.nil_append, ← List.flatMap_def, ← List.map_eq_flatMap]
      | string =>
          exact packed_ok .string _ (fun _ => rfl) (fun _ => rfl)
            (fun s middle readS => readString_ok readS) read
      | uint8 =>
          exact packed_ok .uint8 _ (fun _ => rfl) (fun _ => rfl)
            (fun v middle readV => ⟨trivial, readU8_ok readV⟩) read
      | uint16 =>
          exact packed_ok .uint16 _ (fun _ => rfl) (fun _ => rfl)
            (fun v middle readV => ⟨trivial, readU16Le_ok readV⟩) read
      | uint32 =>
          exact packed_ok .uint32 _ (fun _ => rfl) (fun _ => rfl)
            (fun v middle readV => ⟨trivial, readU32Le_ok readV⟩) read
      | uint64 =>
          exact packed_ok .uint64 _ (fun _ => rfl) (fun _ => rfl)
            (fun v middle readV => ⟨trivial, readU64Le_ok readV⟩) read
      | float32 =>
          exact packed_ok .float32 _ (fun _ => rfl) (fun _ => rfl)
            (fun v middle readV => ⟨trivial, readU32Le_ok readV⟩) read
      | float64 =>
          exact packed_ok .float64 _ (fun _ => rfl) (fun _ => rfl)
            (fun v middle readV => ⟨trivial, readU64Le_ok readV⟩) read
      | bool =>
          exact packed_ok .bool _ (fun _ => rfl) (fun _ => rfl)
            (fun v middle readV => ⟨trivial, readU8_ok readV⟩) read
      | int8 =>
          refine packed_ok (fun v : UInt8 => .int8 v.toInt8) _ (fun _ => rfl) (fun _ => rfl)
            ?_ read
          intro v middle readV
          rw [WireValue.write, UInt8.toUInt8_toInt8]
          exact ⟨trivial, readU8_ok readV⟩
      | int16 =>
          refine packed_ok (fun v : UInt16 => .int16 v.toInt16) _ (fun _ => rfl) (fun _ => rfl)
            ?_ read
          intro v middle readV
          rw [WireValue.write, UInt16.toUInt16_toInt16]
          exact ⟨trivial, readU16Le_ok readV⟩
      | int32 =>
          refine packed_ok (fun v : UInt32 => .int32 v.toInt32) _ (fun _ => rfl) (fun _ => rfl)
            ?_ read
          intro v middle readV
          rw [WireValue.write, UInt32.toUInt32_toInt32]
          exact ⟨trivial, readU32Le_ok readV⟩
      | int64 =>
          refine packed_ok (fun v : UInt64 => .int64 v.toInt64) _ (fun _ => rfl) (fun _ => rfl)
            ?_ read
          intro v middle readV
          rw [WireValue.write, UInt64.toUInt64_toInt64]
          exact ⟨trivial, readU64Le_ok readV⟩

theorem parseMetadata_ok {kvCount : UInt64} {stream after : Stream}
    {metadata : List (Bytes × MetadataValue)}
    (read : parseMetadata kvCount stream = .ok (metadata, after)) :
    ∃ entries : List (Bytes × WireValue), entries.length = kvCount.toNat ∧
      (∀ entry ∈ entries, entry.1.length ≤ 64 * 1024 * 1024 ∧ entry.2.WellFormed) ∧
      stream.rest = entries.flatMap GgufContent.writeEntry ++ after.rest ∧
      metadata = entries.foldl (fun metadata entry => emplace metadata entry.1 entry.2.value) [] := by
  refine iterate_ok (fun entry : Bytes × WireValue =>
    entry.1.length ≤ 64 * 1024 * 1024 ∧ entry.2.WellFormed) _ _ ?_ read
  intro metadata stream next after round
  obtain ⟨key, named, readKey, round⟩ := bind_ok round
  obtain ⟨typeVal, tagged, readTag, round⟩ := bind_ok round
  obtain ⟨value, middle, readValue, last⟩ := bind_ok round
  cases last
  obtain ⟨short, keyBytes⟩ := readString_ok readKey
  obtain ⟨wire, ⟨typed, formed⟩, bytes, rfl⟩ := readNested_ok readValue
  refine ⟨(key, wire), ⟨short, formed⟩, ?_, rfl⟩
  rw [keyBytes, readU32Le_ok readTag, bytes, GgufContent.writeEntry, typed,
    GgufValueType.toRaw_ofRaw]
  simp only [List.append_assoc]

theorem readDimensions_ok {dims : UInt32} {stream after : Stream} {dimensions : List Int}
    (read : readDimensions dims stream = .ok (dimensions, after)) :
    ∃ wire : List UInt64, wire.length = dims.toNat ∧
      (∀ dim ∈ wire, 0 < dim.toNat ∧ dim.toNat < 2 ^ 63) ∧
      stream.rest = wire.flatMap writeU64Le ++ after.rest ∧
      dimensions = (wire.map fun dim => (dim.toNat : Int)).reverse := by
  have found := iterate_ok (fun dim : UInt64 => 0 < dim.toNat ∧ dim.toNat < 2 ^ 63) writeU64Le
    (fun dimensions dim => (dim.toNat : Int) :: dimensions) ?_ read
  · obtain ⟨wire, length, range, bytes, rfl⟩ := found
    refine ⟨wire, length, range, bytes, ?_⟩
    rw [List.foldl_flip_cons_eq_append, List.append_nil]
  · intro dimensions stream next after round
    obtain ⟨dim, middle, readDim, round⟩ := bind_ok round
    split at round
    · cases round
    · rename_i valid
      cases round
      rw [not_or, UInt64.lt_iff_toNat_lt] at valid
      have limit : int64Max.toNat = 2 ^ 63 - 1 := by decide
      have nonzero : dim.toNat ≠ 0 := fun zero => valid.1 (UInt64.toNat_inj.mp zero)
      exact ⟨dim, ⟨by omega, by omega⟩, readU64Le_ok readDim, rfl⟩

theorem readTensorInfo_ok {stream after : Stream} {info : GGUFTensorInfo}
    (read : readTensorInfo stream = .ok (info, after)) :
    ∃ t : WireTensor, t.WellFormed ∧ stream.rest = t.write ++ after.rest ∧ info = t.info := by
  obtain ⟨name, named, readName, read⟩ := bind_ok read
  obtain ⟨dims, counted, readDims, read⟩ := bind_ok read
  split at read
  · cases read
  · rename_i valid
    obtain ⟨dimensions, sized, readSizes, read⟩ := bind_ok read
    obtain ⟨dtypeVal, typed, readType, read⟩ := bind_ok read
    obtain ⟨offset, ended, readOffset, last⟩ := bind_ok read
    cases last
    obtain ⟨short, nameBytes⟩ := readString_ok readName
    obtain ⟨wire, length, range, sizeBytes, rfl⟩ := readDimensions_ok readSizes
    rw [not_or, UInt32.lt_iff_toNat_lt] at valid
    have limit : maxTensorDims.toNat = 8 := by decide
    have nonzero : dims.toNat ≠ 0 := fun zero => valid.1 (UInt32.toNat_inj.mp zero)
    refine ⟨⟨name, wire, dtypeVal, offset⟩, ⟨short, ?_, ?_, range⟩, ?_, rfl⟩
    · change 0 < wire.length
      omega
    · change wire.length ≤ 8
      omega
    · rw [nameBytes, readU32Le_ok readDims, sizeBytes, readU32Le_ok readType,
        readU64Le_ok readOffset, WireTensor.write]
      simp only [length, UInt32.ofNat_toNat, List.append_assoc]

theorem parseTensorInfos_ok {tensorCount : UInt64} {stream after : Stream}
    {infos : List GGUFTensorInfo}
    (read : parseTensorInfos tensorCount stream = .ok (infos, after)) :
    ∃ tensors : List WireTensor, tensors.length = tensorCount.toNat ∧
      tensors.length ≤ 1024 * 1024 ∧ (∀ t ∈ tensors, t.WellFormed) ∧
      stream.rest = tensors.flatMap WireTensor.write ++ after.rest ∧
      infos = tensors.map WireTensor.info := by
  rw [parseTensorInfos] at read
  split at read
  · cases read
  · rename_i few
    have limit : maxTensorCount.toNat = 1024 * 1024 := by decide
    rw [UInt64.lt_iff_toNat_lt] at few
    obtain ⟨tensors, length, formed, bytes, rfl⟩ := iterate_ok WireTensor.WellFormed
      WireTensor.write (fun infos t => infos ++ [t.info]) (fun infos stream next after round => by
        obtain ⟨info, middle, readInfo, last⟩ := bind_ok round
        cases last
        obtain ⟨t, formed, split, rfl⟩ := readTensorInfo_ok readInfo
        exact ⟨t, formed, split, rfl⟩) read
    refine ⟨tensors, length, by omega, formed, bytes, ?_⟩
    rw [List.foldl_append_eq_append, List.nil_append, ← List.flatMap_def, ← List.map_eq_flatMap]

theorem readMagic_ok {stream after : Stream} (read : readMagic stream = .ok ((), after)) :
    stream.rest = ascii "GGUF" ++ after.rest := by
  obtain ⟨bytes, middle, taken, last⟩ := bind_ok read
  split at last
  · rename_i same
    cases last
    rw [(take_ok taken).2, same, magic]
  · cases last

theorem emplace_lookup (entries : List (Bytes × WireValue))
    (metadata : List (Bytes × MetadataValue)) (key : Bytes) :
    (entries.foldl (fun metadata entry => emplace metadata entry.1 entry.2.value) metadata).lookup
        key =
      (metadata.lookup key).or ((entries.lookup key).map WireValue.value) := by
  induction entries generalizing metadata with
  | nil => simp
  | cons entry rest ih =>
      rw [List.foldl_cons, ih, emplace, List.lookup_cons]
      by_cases held : (metadata.any fun old => old.1 = entry.1) = true
      · rw [if_pos held]
        -- a key that is there already keeps its value
        by_cases same : key = entry.1
        · have present : metadata.lookup key ≠ none := by
            rw [Ne, List.lookup_eq_none_iff]
            simp only [List.any_eq_true, decide_eq_true_eq] at held
            obtain ⟨old, found, named⟩ := held
            intro absent
            have differs := absent old found
            simp [same, named] at differs
          obtain ⟨value, found⟩ := Option.ne_none_iff_exists'.mp present
          rw [found, Option.some_or, Option.some_or]
        · have differs : (key == entry.1) = false := beq_false_of_ne same
          rw [differs]
      · rw [if_neg held, List.lookup_append]
        by_cases same : key = entry.1
        · have absent : metadata.lookup key = none := by
            rw [List.lookup_eq_none_iff]
            intro old found
            simp only [List.any_eq_true, decide_eq_true_eq, not_exists, not_and] at held
            rw [same, bne_iff_ne]
            exact fun named => held old found named.symm
          rw [absent, same]
          simp
        · have differs : (key == entry.1) = false := beq_false_of_ne same
          rw [List.lookup_cons, differs]
          simp

end GGUFParser

open GGUFParser

/-- What the parser keeps of it. -/
def WireHeader.fields (header : WireHeader) : HeaderFields where
  version := 3
  tensorCount := UInt64.ofNat header.tensors.length
  metadataKvCount := UInt64.ofNat header.metadata.length
  metadata := header.metadata.foldl (fun metadata entry => emplace metadata entry.1 entry.2.value) []
  tensorInfos := header.tensors.map WireTensor.info

namespace GGUFParser

theorem headerFields_reads (header : WireHeader) (formed : header.WellFormed) :
    Reads headerFields header.write header.fields := by
  have version : ¬ (3 : UInt32) ≠ kGgufVersion := by decide
  apply readMagic_reads.bind
  apply (readU32Le_reads 3).bind
  rw [if_neg version]
  apply (readU64Le_reads _).bind
  apply (readU64Le_reads _).bind
  apply (parseMetadata_reads _ formed.fewEntries formed.shortKeys formed.formedValues).bind
  exact (parseTensorInfos_reads _ formed.fewTensors formed.formedTensors).map _

/-- The headers that are read are the well-formed ones. -/
theorem headerFields_ok (stream after : Stream) (fields : HeaderFields) :
    headerFields stream = .ok (fields, after) ↔
      ∃ header : WireHeader, header.WellFormed ∧ stream.rest = header.write ++ after.rest ∧
        after.position = stream.position + header.write.length ∧ fields = header.fields := by
  constructor
  · intro whole
    have read := whole
    obtain ⟨_, marked, readMark, read⟩ := bind_ok read
    obtain ⟨version, versioned, readVersion, read⟩ := bind_ok read
    split at read
    · cases read
    · rename_i supported
      obtain ⟨tensorCount, one, readTensors, read⟩ := bind_ok read
      obtain ⟨metadataKvCount, two, readEntries, read⟩ := bind_ok read
      obtain ⟨metadata, three, readMetadata, read⟩ := bind_ok read
      obtain ⟨infos, four, readInfos, last⟩ := bind_ok read
      cases last
      obtain ⟨entries, entryCount, formedEntries, entryBytes, -⟩ := parseMetadata_ok readMetadata
      obtain ⟨tensors, count, few, formedTensors, tensorBytes, -⟩ := parseTensorInfos_ok readInfos
      have number : version = 3 := not_not.mp supported
      have bound := metadataKvCount.toNat_lt
      have formed : (WireHeader.mk entries tensors).WellFormed :=
        ⟨by rw [entryCount]; exact bound, fun entry found => (formedEntries entry found).1,
          fun entry found => (formedEntries entry found).2, few, formedTensors⟩
      have bytes : stream.rest = (WireHeader.mk entries tensors).write ++ after.rest := by
        rw [readMagic_ok readMark, readU32Le_ok readVersion, readU64Le_ok readTensors,
          readU64Le_ok readEntries, entryBytes, tensorBytes, WireHeader.write]
        simp only [number, count, entryCount, UInt64.ofNat_toNat, List.append_assoc]
      have again := headerFields_reads _ formed after.rest stream.position
      rw [← bytes, whole] at again
      obtain ⟨same, place⟩ := Prod.mk.inj (Except.ok.inj again)
      exact ⟨⟨entries, tensors⟩, formed, bytes, congrArg Stream.position place, same⟩
  · rintro ⟨header, formed, bytes, place, rfl⟩
    have read := headerFields_reads header formed after.rest stream.position
    rwa [← bytes, ← place] at read

/-- The alignment that the file is read with. -/
theorem alignmentOf_fields (header : WireHeader) :
    alignmentOf header.fields.metadata =
      match header.declaredAlignment with
      | some (.uint32 v) => v
      | _ => kGgufDefaultAlignment := by
  rw [alignmentOf, WireHeader.fields, emplace_lookup, WireHeader.declaredAlignment]
  cases header.metadata.lookup (ascii "general.alignment") with
  | none => rfl
  | some v => cases v <;> rfl

end GGUFParser

end MiniLLM
