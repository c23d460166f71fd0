import MiniLLM.ByteReader
import MiniLLM.GgufFormat
import MiniLLM.Graph

/-!
io/gguf_parser. An open file is its bytes with the bound a stream position has;
`parse` reads it front to back and `tellg` is the position reached. Floats are
their bit patterns. The metadata map is an association list: `emplace` keeps the
first value of a key. A metadata value is read with as much fuel as bytes are
left; `readMetadataValue_array` is the source's recursion, without it.
-/

namespace MiniLLM

open ByteReader

inductive MetadataValue where
  | uint8 (value : UInt8) | int8 (value : Int8)
  | uint16 (value : UInt16) | int16 (value : Int16)
  | uint32 (value : UInt32) | int32 (value : Int32)
  | uint64 (value : UInt64) | int64 (value : Int64)
  | float (bits : UInt32) | double (bits : UInt64)
  | bool (value : Bool)
  | string (value : Bytes)
  | array (elements : List MetadataValue)
  deriving Repr

structure GGUFTensorInfo where
  name : Bytes
  dtype : GgmlDataType
  dimensions : List Int
  offset : UInt64
  deriving DecidableEq, Repr

/-- A file on disk: its length is a stream offset. -/
structure FileBytes where
  bytes : Bytes
  addressable : bytes.length < 2 ^ 63

structure GGUFFile where
  version : UInt32
  tensorCount : UInt64
  metadataKvCount : UInt64
  dataOffset : UInt64
  sourcePath : String
  memoryView : Option Bytes
  metadata : List (Bytes × MetadataValue)
  tensorInfos : List GGUFTensorInfo

namespace GGUFTensorInfo

def numElementsFrom (ti : GGUFTensorInfo) : List Int → Nat → Except Status Nat
  | [], n => .ok n
  | d :: rest, n =>
      if d ≤ 0 then
        .error (.invalidArgument ("invalid non-positive dimension for tensor: " ++ text ti.name))
      else if sizeMax / d.toNat < n then
        .error (.invalidArgument ("numel overflow for tensor: " ++ text ti.name))
      else ti.numElementsFrom rest (n * d.toNat)

def numElements (ti : GGUFTensorInfo) : Except Status Nat := ti.numElementsFrom ti.dimensions 1

/-- `*ne + blck - 1` is a `size_t` sum. -/
def bytes (ti : GGUFTensorInfo) : Except Status Nat := do
  let ne ← ti.numElements
  let blck := ggmlBlckSize ti.dtype
  let dtypeSz := ggmlDtypeSize ti.dtype
  if blck = 0 ∨ dtypeSz = 0 then
    .error (.unsupported ("unsupported GGML dtype for tensor byte size: " ++ text ti.name))
  else
    let numBlocks := ((ne + blck - 1) % 2 ^ 64) / blck
    if sizeMax / dtypeSz < numBlocks then
      .error (.invalidArgument ("byte size overflow for tensor: " ++ text ti.name))
    else .ok (numBlocks * dtypeSz)

end GGUFTensorInfo

namespace GGUFFile

def tensorView (file : GGUFFile) (ti : GGUFTensorInfo) : Except Status Bytes := do
  match file.memoryView with
  | none =>
      .error (.unsupported ("GGUF memory view unavailable for file: " ++
        if file.sourcePath.isEmpty then "<unknown>" else file.sourcePath))
  | some raw =>
      let byteCount ← ti.bytes
      if sizeMax - ti.offset.toNat < file.dataOffset.toNat then
        .error (.outOfRange ("tensor offset overflow for: " ++ text ti.name))
      else
        let absOffset := file.dataOffset.toNat + ti.offset.toNat
        if raw.length < absOffset ∨ raw.length - absOffset < byteCount then
          .error (.outOfRange
            ("tensor byte range exceeds mapped GGUF file bounds for: " ++ text ti.name))
        else .ok ((raw.drop absOffset).take byteCount)

end GGUFFile

namespace GGUFParser

abbrev FileReader := Reader Status

def readU8 : FileReader UInt8 := do
  let b ← take 1 (.ioError "unexpected EOF reading uint8")
  pure ⟨assemble 8 b⟩

def readU16Le : FileReader UInt16 := do
  let b ← take 2 (.ioError "failed to read uint16")
  pure ⟨assemble 16 b⟩

def readU32Le : FileReader UInt32 := do
  let b ← take 4 (.ioError "failed to read uint32")
  pure ⟨assemble 32 b⟩

def readU64Le : FileReader UInt64 := do
  let b ← take 8 (.ioError "failed to read uint64")
  pure ⟨assemble 64 b⟩

def maxStringLen : UInt64 := 64 * 1024 * 1024

def streamsizeMax : UInt64 := 0x7FFFFFFFFFFFFFFF

def readString : FileReader Bytes := do
  let len ← readU64Le
  if maxStringLen < len then
    Reader.fail (.invalidArgument s!"GGUF string too long: {len.toNat} bytes")
  else if streamsizeMax < len then
    Reader.fail (.invalidArgument s!"GGUF string length overflows streamsize: {len.toNat}")
  else
    take len.toNat (.ioError "failed to read string")

def maxArrayLen : UInt64 := 16 * 1024 * 1024

/-- The `fuel` counts nested arrays. -/
def readNested : Nat → GgufValueType → FileReader MetadataValue
  | 0, _ => Reader.fail (.ioError "nested too deep")
  | fuel + 1, type =>
      match type with
      | .uint8 => do let v ← readU8; pure (.uint8 v)
      | .int8 => do let v ← readU8; pure (.int8 v.toInt8)
      | .uint16 => do let v ← readU16Le; pure (.uint16 v)
      | .int16 => do let v ← readU16Le; pure (.int16 v.toInt16)
      | .uint32 => do let v ← readU32Le; pure (.uint32 v)
      | .int32 => do let v ← readU32Le; pure (.int32 v.toInt32)
      | .uint64 => do let v ← readU64Le; pure (.uint64 v)
      | .int64 => do let v ← readU64Le; pure (.int64 v.toInt64)
      | .float32 => do let raw ← readU32Le; pure (.float raw)
      | .float64 => do let raw ← readU64Le; pure (.double raw)
      | .bool => do let v ← readU8; pure (.bool (v != 0))
      | .string => do let s ← readString; pure (.string s)
      | .array => do
          let elemTypeVal ← readU32Le
          let arrayLen ← readU64Le
          if maxArrayLen < arrayLen then
            Reader.fail (.invalidArgument s!"GGUF metadata array too long: {arrayLen.toNat}")
          else do
            let arr ← iterate (fun arr => do
              let elem ← readNested fuel (.ofRaw elemTypeVal)
              pure (arr ++ [elem])) arrayLen.toNat []
            pure (.array arr)
      | .unknown raw =>
          Reader.fail (.unsupported s!"unsupported GGUF metadata type: {raw.toNat}")

def readMetadataValue (type : GgufValueType) : FileReader MetadataValue := fun stream =>
  readNested (stream.rest.length + 1) type stream

def emplace (metadata : List (Bytes × MetadataValue)) (key : Bytes) (value : MetadataValue) :
    List (Bytes × MetadataValue) :=
  if metadata.any fun entry => entry.1 = key then metadata else metadata ++ [(key, value)]

def parseMetadata (kvCount : UInt64) : FileReader (List (Bytes × MetadataValue)) :=
  iterate (fun metadata => do
    let key ← readString
    let typeVal ← readU32Le
    let value ← readMetadataValue (.ofRaw typeVal)
    pure (emplace metadata key value)) kvCount.toNat []

def maxTensorCount : UInt64 := 1024 * 1024

def maxTensorDims : UInt32 := 8

def int64Max : UInt64 := 0x7FFFFFFFFFFFFFFF

/-- The vector is filled from its end, `dimensions[dims - d - 1]`. -/
def readDimensions (dims : UInt32) : FileReader (List Int) :=
  iterate (fun dimensions => do
    let dim ← readU64Le
    if dim = 0 ∨ int64Max < dim then
      Reader.fail (.invalidArgument s!"GGUF tensor has invalid dimension: {dim.toNat}")
    else pure ((dim.toNat : Int) :: dimensions)) dims.toNat []

def readTensorInfo : FileReader GGUFTensorInfo := do
  let name ← readString
  let dims ← readU32Le
  if dims = 0 ∨ maxTensorDims < dims then
    Reader.fail (.invalidArgument s!"GGUF tensor has invalid dimension count: {dims.toNat}")
  else do
    let dimensions ← readDimensions dims
    let dtypeVal ← readU32Le
    let offset ← readU64Le
    pure { name := name, dtype := ⟨dtypeVal⟩, dimensions := dimensions, offset := offset }

def parseTensorInfos (tensorCount : UInt64) : FileReader (List GGUFTensorInfo) :=
  if maxTensorCount < tensorCount then
    Reader.fail (.invalidArgument s!"GGUF tensor count too large: {tensorCount.toNat}")
  else
    iterate (fun infos => do
      let info ← readTensorInfo
      pure (infos ++ [info])) tensorCount.toNat []

def magic : Bytes := ascii "GGUF"

def magicMismatch : Status := .invalidArgument "invalid GGUF file: magic number mismatch"

def readMagic : FileReader Unit := do
  let bytes ← take 4 magicMismatch
  if bytes = magic then pure () else Reader.fail magicMismatch

def tellg : FileReader UInt64 := fun stream => .ok (UInt64.ofNat stream.position, stream)

def alignmentOf (metadata : List (Bytes × MetadataValue)) : UInt32 :=
  match metadata.lookup (ascii "general.alignment") with
  | some (.uint32 v) => v
  | _ => kGgufDefaultAlignment

def alignUp (rawOffset alignment : UInt64) : UInt64 :=
  rawOffset + (alignment - rawOffset % alignment) % alignment

/-- A zero `general.alignment` divides by zero in the source; the value here then means nothing. -/
def parseHeader (filename : String) (memoryView : Option Bytes) : FileReader GGUFFile := do
  readMagic
  let version ← readU32Le
  if version ≠ kGgufVersion then
    Reader.fail (.unsupported
      s!"unsupported GGUF version {version.toNat} (only v3 is supported)")
  else do
    let tensorCount ← readU64Le
    let metadataKvCount ← readU64Le
    let metadata ← parseMetadata metadataKvCount
    let tensorInfos ← parseTensorInfos tensorCount
    let rawOffset ← tellg
    pure {
      version := version
      tensorCount := tensorCount
      metadataKvCount := metadataKvCount
      dataOffset := alignUp rawOffset (alignmentOf metadata).toUInt64
      sourcePath := filename
      memoryView := memoryView
      metadata := metadata
      tensorInfos := tensorInfos }

/-- `memoryView` is what mapping the file gave; a file that cannot be mapped still parses. -/
def parse (filename : String) (opened : Option FileBytes) (memoryView : Option Bytes) :
    Except Status GGUFFile :=
  match opened with
  | none => .error (.ioError ("cannot open file: " ++ filename))
  | some file =>
      match parseHeader filename memoryView ⟨file.bytes, 0⟩ with
      | .error status => .error status
      | .ok (parsed, _) => .ok parsed

/-- The file as `read_tensor_data` finds it: mapped again, or else opened as a stream. -/
structure Disk where
  mapped : Option Bytes
  opened : Option FileBytes

def copyTensorBytesFromView (bytes : Bytes) (dataOffset tensorOffset : UInt64) (byteCount : Nat) :
    Except Status Bytes :=
  if sizeMax - tensorOffset.toNat < dataOffset.toNat then
    .error (.outOfRange "tensor byte offset overflow")
  else
    let absOffset := dataOffset.toNat + tensorOffset.toNat
    if bytes.length < absOffset ∨ bytes.length - absOffset < byteCount then
      .error (.outOfRange "tensor byte range exceeds mapped GGUF file bounds")
    else .ok ((bytes.drop absOffset).take byteCount)

def readTensorData (filename : String) (disk : Disk) (dataOffset tensorOffset : UInt64)
    (byteCount : Nat) : Except Status Bytes :=
  match disk.mapped with
  | some bytes => copyTensorBytesFromView bytes dataOffset tensorOffset byteCount
  | none =>
      match disk.opened with
      | none => .error (.ioError ("cannot open file: " ++ filename))
      | some file =>
          if sizeMax - tensorOffset.toNat < dataOffset.toNat then
            .error (.outOfRange ("tensor offset overflow for: " ++ filename))
          else
            let absOffset := dataOffset.toNat + tensorOffset.toNat
            if 2 ^ 63 - 1 < absOffset then
              .error (.outOfRange ("tensor offset exceeds stream seek range for: " ++ filename))
            else if 0 < byteCount ∧ file.bytes.length < absOffset + byteCount then
              .error (.ioError s!"read of {byteCount} bytes at offset {absOffset} failed")
            else .ok ((file.bytes.drop absOffset).take byteCount)

/-! Every reader moves forward, so the fuel of a value never runs out. -/

theorem readU8_consumes : Consumes readU8 :=
  (take_consumes 0 _).bind fun _ => Forward.pure _

theorem readU16Le_consumes : Consumes readU16Le :=
  (take_consumes 1 _).bind fun _ => Forward.pure _

theorem readU32Le_consumes : Consumes readU32Le :=
  (take_consumes 3 _).bind fun _ => Forward.pure _

theorem readU64Le_consumes : Consumes readU64Le :=
  (take_consumes 7 _).bind fun _ => Forward.pure _

theorem readString_consumes : Consumes readString := by
  apply readU64Le_consumes.bind
  intro len
  split
  · exact (Consumes.fail _).forward
  · split
    · exact (Consumes.fail _).forward
    · exact take_forward _ _

theorem readNested_consumes (fuel : Nat) (type : GgufValueType) :
    Consumes (readNested fuel type) := by
  induction fuel generalizing type with
  | zero => exact Consumes.fail _
  | succ fuel ih =>
      have packed : ∀ {α : Type} {reader : FileReader α} (pack : α → MetadataValue),
          Consumes reader → Consumes (reader >>= fun v => pure (pack v)) :=
        fun _ consumes => consumes.bind fun _ => Forward.pure _
      cases type with
      | uint8 => exact packed _ readU8_consumes
      | int8 => exact packed _ readU8_consumes
      | uint16 => exact packed _ readU16Le_consumes
      | int16 => exact packed _ readU16Le_consumes
      | uint32 => exact packed _ readU32Le_consumes
      | int32 => exact packed _ readU32Le_consumes
      | uint64 => exact packed _ readU64Le_consumes
      | int64 => exact packed _ readU64Le_consumes
      | float32 => exact packed _ readU32Le_consumes
      | float64 => exact packed _ readU64Le_consumes
      | bool => exact packed _ readU8_consumes
      | string => exact packed _ readString_consumes
      | unknown raw => exact Consumes.fail _
      | array =>
          apply readU32Le_consumes.bind
          intro elemTypeVal
          apply readU64Le_consumes.forward.bind
          intro arrayLen
          split
          · exact (Consumes.fail _).forward
          · apply Forward.bind
            · apply iterate_forward
              intro arr
              exact (ih _).forward.bind fun _ => Forward.pure _
            · exact fun _ => Forward.pure _

/-- With more fuel than bytes left, the fuel makes no difference. -/
theorem readNested_fuel (type : GgufValueType) (stream : Stream) (fuel other : Nat)
    (enough : stream.rest.length < fuel) (also : stream.rest.length < other) :
    readNested fuel type stream = readNested other type stream := by
  induction fuel generalizing type stream other with
  | zero => omega
  | succ fuel ih =>
      cases other with
      | zero => omega
      | succ other =>
          cases type with
          | array =>
              apply bind_agree
              intro elemTypeVal tagged readTag
              have shorter := readU32Le_consumes _ _ _ readTag
              apply bind_agree
              intro arrayLen counted readCount
              have shortest := readU64Le_consumes _ _ _ readCount
              split
              · rfl
              · apply bind_agree_first
                apply iterate_agree _ _ counted.rest.length
                · intro arr
                  exact (readNested_consumes _ _).forward.bind fun _ => Forward.pure _
                · intro arr inner short
                  apply bind_agree_first
                  exact ih _ _ _ (by omega) (by omega)
                · exact Nat.le_refl _
          | _ => rfl

/-- The source's own recursion on the elements of an array. -/
theorem readMetadataValue_array :
    readMetadataValue .array = (do
      let elemTypeVal ← readU32Le
      let arrayLen ← readU64Le
      if maxArrayLen < arrayLen then
        Reader.fail (.invalidArgument s!"GGUF metadata array too long: {arrayLen.toNat}")
      else do
        let arr ← iterate (fun arr => do
          let elem ← readMetadataValue (.ofRaw elemTypeVal)
          pure (arr ++ [elem])) arrayLen.toNat []
        pure (.array arr)) := by
  funext stream
  apply bind_agree
  intro elemTypeVal tagged readTag
  have shorter := readU32Le_consumes _ _ _ readTag
  apply bind_agree
  intro arrayLen counted readCount
  have shortest := readU64Le_consumes _ _ _ readCount
  split
  · rfl
  · apply bind_agree_first
    apply iterate_agree _ _ counted.rest.length
    · intro arr
      exact (readNested_consumes _ _).forward.bind fun _ => Forward.pure _
    · intro arr inner short
      apply bind_agree_first
      exact readNested_fuel _ _ _ _ (by omega) (by omega)
    · exact Nat.le_refl _

end GGUFParser

end MiniLLM
