import MiniLLM.GgufRoundTrip

/-!
A header that is cut short. `headerFields` is what `parse` reads of a file before
it places the data region. Every reader under it is framed: it decides on the
bytes it uses and needs all of them, so a cut at any depth reaches the caller.
-/

namespace MiniLLM

open ByteReader

namespace GGUFParser

structure HeaderFields where
  version : UInt32
  tensorCount : UInt64
  metadataKvCount : UInt64
  metadata : List (Bytes × MetadataValue)
  tensorInfos : List GGUFTensorInfo

def headerFields : FileReader HeaderFields := do
  readMagic
  let version ← readU32Le
  if version ≠ kGgufVersion then
    Reader.fail (.unsupported
      s!"unsupported GGUF version {version.toNat} (only v3 is supported)")
  else do
    let tensorCount ← readU64Le
    let metadataKvCount ← readU64Le
    let metadata ← parseMetadata metadataKvCount
    let tensorInfos ← parseTensorInfos tensorCount
    pure {
      version := version
      tensorCount := tensorCount
      metadataKvCount := metadataKvCount
      metadata := metadata
      tensorInfos := tensorInfos }

/-- The file that `parse` makes of the fields when the stream stands at `rawOffset`. -/
def HeaderFields.file (fields : HeaderFields) (filename : String) (memoryView : Option Bytes)
    (rawOffset : UInt64) : GGUFFile :=
  { version := fields.version
    tensorCount := fields.tensorCount
    metadataKvCount := fields.metadataKvCount
    dataOffset := alignUp rawOffset (alignmentOf fields.metadata).toUInt64
    sourcePath := filename
    memoryView := memoryView
    metadata := fields.metadata
    tensorInfos := fields.tensorInfos }

theorem parseHeader_fields (filename : String) (memoryView : Option Bytes) :
    parseHeader filename memoryView = (do
      let fields ← headerFields
      let rawOffset ← tellg
      pure (fields.file filename memoryView rawOffset)) := by
  simp only [parseHeader, headerFields, bind_assoc]
  congr 1
  funext _
  congr 1
  funext version
  split
  · rw [Reader.fail_bind]
  · simp only [bind_assoc, pure_bind, HeaderFields.file]

/-- Past its fields a header cannot be rejected. -/
theorem parseHeader_ok (filename : String) (memoryView : Option Bytes) (stream after : Stream)
    (file : GGUFFile) :
    parseHeader filename memoryView stream = .ok (file, after) ↔
      ∃ fields, headerFields stream = .ok (fields, after) ∧
        file = fields.file filename memoryView (UInt64.ofNat after.position) := by
  rw [parseHeader_fields]
  change Reader.bind _ _ _ = _ ↔ _
  rw [Reader.bind]
  cases read : headerFields stream with
  | error status => simp
  | ok pair =>
      change Except.ok (pair.1.file filename memoryView (UInt64.ofNat pair.2.position), pair.2) =
        Except.ok (file, after) ↔ _
      constructor
      · intro same
        cases same
        exact ⟨pair.1, rfl, rfl⟩
      · rintro ⟨fields, same, rfl⟩
        cases same
        rfl

theorem parseHeader_error (filename : String) (memoryView : Option Bytes) (stream : Stream)
    (status : Status) :
    parseHeader filename memoryView stream = .error status ↔
      headerFields stream = .error status := by
  rw [parseHeader_fields]
  change Reader.bind _ _ _ = _ ↔ _
  rw [Reader.bind]
  cases headerFields stream with
  | error failed => simp
  | ok pair =>
      change Except.ok (pair.1.file filename memoryView (UInt64.ofNat pair.2.position), pair.2) =
        Except.error status ↔ _
      simp

theorem readU8_framed : Framed readU8 :=
  (take_framed 1 _).bind fun _ => Framed.pure _

theorem readU16Le_framed : Framed readU16Le :=
  (take_framed 2 _).bind fun _ => Framed.pure _

theorem readU32Le_framed : Framed readU32Le :=
  (take_framed 4 _).bind fun _ => Framed.pure _

theorem readU64Le_framed : Framed readU64Le :=
  (take_framed 8 _).bind fun _ => Framed.pure _

theorem readString_framed : Framed readString := by
  apply readU64Le_framed.bind
  intro len
  split
  · exact Framed.fail _
  · split
    · exact Framed.fail _
    · exact take_framed _ _

theorem readNested_framed (fuel : Nat) (type : GgufValueType) : Framed (readNested fuel type) := by
  induction fuel generalizing type with
  | zero => exact Framed.fail _
  | succ fuel ih =>
      have packed : ∀ {α : Type} {reader : FileReader α} (pack : α → MetadataValue),
          Framed reader → Framed (reader >>= fun v => pure (pack v)) :=
        fun _ framed => framed.bind fun _ => Framed.pure _
      cases type with
      | uint8 => exact packed _ readU8_framed
      | int8 => exact packed _ readU8_framed
      | uint16 => exact packed _ readU16Le_framed
      | int16 => exact packed _ readU16Le_framed
      | uint32 => exact packed _ readU32Le_framed
      | int32 => exact packed _ readU32Le_framed
      | uint64 => exact packed _ readU64Le_framed
      | int64 => exact packed _ readU64Le_framed
      | float32 => exact packed _ readU32Le_framed
      | float64 => exact packed _ readU64Le_framed
      | bool => exact packed _ readU8_framed
      | string => exact packed _ readString_framed
      | unknown raw => exact Framed.fail _
      | array =>
          apply readU32Le_framed.bind
          intro elemTypeVal
          apply readU64Le_framed.bind
          intro arrayLen
          split
          · exact Framed.fail _
          · apply Framed.bind
            · apply iterate_framed
              intro arr
              exact (ih _).bind fun _ => Framed.pure _
            · exact fun _ => Framed.pure _

/-- The fuel of a value follows the stream, so two streams meet at a common fuel. -/
theorem readMetadataValue_framed (type : GgufValueType) : Framed (readMetadataValue type) where
  exactly := by
    intro stream value after read
    obtain ⟨used, split, -⟩ := (readNested_framed _ type).exactly _ _ _ read
    refine ⟨used, split, fun rest position => ?_⟩
    have total : stream.rest.length = used.length + after.rest.length := by
      rw [split, List.length_append]
    have here := readNested_fuel type stream _ (stream.rest.length + rest.length + 1)
      (Nat.lt_succ_self _) (by omega)
    rw [readMetadataValue, here] at read
    obtain ⟨same, split', reads⟩ := (readNested_framed _ type).exactly _ _ _ read
    obtain rfl : used = same := List.append_cancel_right (split.symm.trans split')
    have there := readNested_fuel type ⟨used ++ rest, position⟩ _
      (stream.rest.length + rest.length + 1) (Nat.lt_succ_self _)
      (by simp only [List.length_append]; omega)
    rw [readMetadataValue, there, reads]
  whole := by
    intro stream value after read count position fewer
    have there := readNested_fuel type ⟨stream.rest.take count, position⟩ _
      (stream.rest.length + 1) (Nat.lt_succ_self _) (by simp only [List.length_take]; omega)
    rw [readMetadataValue, there]
    exact (readNested_framed _ type).whole _ _ _ read count position fewer

theorem parseMetadata_framed (kvCount : UInt64) : Framed (parseMetadata kvCount) := by
  apply iterate_framed
  intro metadata
  apply readString_framed.bind
  intro key
  apply readU32Le_framed.bind
  intro typeVal
  exact (readMetadataValue_framed _).bind fun _ => Framed.pure _

theorem readDimensions_framed (dims : UInt32) : Framed (readDimensions dims) := by
  apply iterate_framed
  intro dimensions
  apply readU64Le_framed.bind
  intro dim
  split
  · exact Framed.fail _
  · exact Framed.pure _

theorem readTensorInfo_framed : Framed readTensorInfo := by
  apply readString_framed.bind
  intro name
  apply readU32Le_framed.bind
  intro dims
  split
  · exact Framed.fail _
  · apply (readDimensions_framed dims).bind
    intro dimensions
    apply readU32Le_framed.bind
    intro dtypeVal
    exact readU64Le_framed.bind fun _ => Framed.pure _

theorem parseTensorInfos_framed (tensorCount : UInt64) : Framed (parseTensorInfos tensorCount) := by
  unfold parseTensorInfos
  split
  · exact Framed.fail _
  · apply iterate_framed
    intro infos
    exact readTensorInfo_framed.bind fun _ => Framed.pure _

theorem readMagic_framed : Framed readMagic := by
  apply (take_framed 4 magicMismatch).bind
  intro bytes
  split
  · exact Framed.pure _
  · exact Framed.fail _

theorem headerFields_framed : Framed headerFields := by
  apply readMagic_framed.bind
  intro _
  apply readU32Le_framed.bind
  intro version
  split
  · exact Framed.fail _
  · apply readU64Le_framed.bind
    intro tensorCount
    apply readU64Le_framed.bind
    intro metadataKvCount
    apply (parseMetadata_framed metadataKvCount).bind
    intro metadata
    exact (parseTensorInfos_framed tensorCount).bind fun _ => Framed.pure _

/-- A file cut anywhere before the end of its header is not accepted. -/
theorem truncated_header_rejected (filename : String) (memoryView : Option Bytes)
    (whole cut : FileBytes) (file : GGUFFile) (after : Stream)
    (accepted : parseHeader filename memoryView ⟨whole.bytes, 0⟩ = .ok (file, after))
    (count : Nat) (proper : count < after.position) (truncated : cut.bytes = whole.bytes.take count)
    (otherName : String) (otherView : Option Bytes) :
    ∃ status, parse otherName (some cut) otherView = .error status := by
  obtain ⟨fields, read, -⟩ := (parseHeader_ok _ _ _ _ _).mp accepted
  obtain ⟨used, split, reads⟩ := headerFields_framed.exactly _ _ _ read
  have position : after.position = used.length := by
    have again := reads after.rest 0
    rw [← split, read] at again
    have reached := congrArg Stream.position (Prod.mk.inj (Except.ok.inj again)).2
    simpa using reached
  have fewer : count + after.rest.length < whole.bytes.length := by
    rw [show whole.bytes = _ from split, List.length_append]
    omega
  obtain ⟨status, failed⟩ := headerFields_framed.whole _ _ _ read count 0 fewer
  refine ⟨status, ?_⟩
  have rejected := (parseHeader_error otherName otherView _ _).mpr failed
  rw [parse, truncated, rejected]

/-- The header of `nestedFile` without its last byte. -/
def cutHeader : FileBytes where
  bytes := nestedFile.bytes.take (nestedContent.header.length - 1)
  addressable := by
    have whole := nestedFile.addressable
    rw [List.length_take]
    omega

theorem truncated_header_rejected_nested :
    ∃ status, parse "cut.gguf" (some cutHeader) none = .error status := by
  have accepted := parseHeader_header nestedContent (by decide) "nested.gguf" none
    (List.replicate (GgufContent.roundUp nestedContent.header.length
      nestedContent.alignment.toNat - nestedContent.header.length) 0 ++ [7])
  have truncated : cutHeader.bytes = nestedFile.bytes.take (nestedContent.header.length - 1) := by
    rw [cutHeader]
  exact truncated_header_rejected "nested.gguf" none nestedFile cutHeader _ _ accepted
    (nestedContent.header.length - 1) (by decide +kernel) truncated "cut.gguf" none

end GGUFParser

end MiniLLM
