import MiniLLM.MeteredReader
import MiniLLM.GGUFParser

/-!
The parser with its work counted: a metadata value when it is built, array
elements included, a tensor info where its variable is declared, a round where a
loop begins one. `fuel` bounds the depth of the source's recursion; without it a
run has no result. The header's fixed fields pay for whatever fails first.
-/

namespace MiniLLM

open ByteReader

namespace GGUFParser.Counted

open ByteReader.Metered (tick outOfFuel)

abbrev MeteredFile := Metered Status

def readU8 : MeteredFile UInt8 := do
  let b ← Metered.take 1 (.ioError "unexpected EOF reading uint8")
  pure ⟨assemble 8 b⟩

def readU16Le : MeteredFile UInt16 := do
  let b ← Metered.take 2 (.ioError "failed to read uint16")
  pure ⟨assemble 16 b⟩

def readU32Le : MeteredFile UInt32 := do
  let b ← Metered.take 4 (.ioError "failed to read uint32")
  pure ⟨assemble 32 b⟩

def readU64Le : MeteredFile UInt64 := do
  let b ← Metered.take 8 (.ioError "failed to read uint64")
  pure ⟨assemble 64 b⟩

def readString : MeteredFile Bytes := do
  let len ← readU64Le
  if maxStringLen < len then
    Metered.fail (.invalidArgument s!"GGUF string too long: {len.toNat} bytes")
  else if streamsizeMax < len then
    Metered.fail (.invalidArgument s!"GGUF string length overflows streamsize: {len.toNat}")
  else
    Metered.take len.toNat (.ioError "failed to read string")

def construct (value : MetadataValue) : MeteredFile MetadataValue := do
  tick .constructed
  pure value

def readMetadataValue : Nat → GgufValueType → MeteredFile MetadataValue
  | 0, _ => outOfFuel
  | fuel + 1, type =>
      match type with
      | .uint8 => do let v ← readU8; construct (.uint8 v)
      | .int8 => do let v ← readU8; construct (.int8 v.toInt8)
      | .uint16 => do let v ← readU16Le; construct (.uint16 v)
      | .int16 => do let v ← readU16Le; construct (.int16 v.toInt16)
      | .uint32 => do let v ← readU32Le; construct (.uint32 v)
      | .int32 => do let v ← readU32Le; construct (.int32 v.toInt32)
      | .uint64 => do let v ← readU64Le; construct (.uint64 v)
      | .int64 => do let v ← readU64Le; construct (.int64 v.toInt64)
      | .float32 => do let raw ← readU32Le; construct (.float raw)
      | .float64 => do let raw ← readU64Le; construct (.double raw)
      | .bool => do let v ← readU8; construct (.bool (v != 0))
      | .string => do let s ← readString; construct (.string s)
      | .array => do
          let elemTypeVal ← readU32Le
          let arrayLen ← readU64Le
          if maxArrayLen < arrayLen then
            Metered.fail (.invalidArgument s!"GGUF metadata array too long: {arrayLen.toNat}")
          else do
            let arr ← Metered.iterate (fun arr => do
              let elem ← readMetadataValue fuel (.ofRaw elemTypeVal)
              pure (arr ++ [elem])) arrayLen.toNat []
            construct (.array arr)
      | .unknown raw => Metered.fail (.unsupported s!"unsupported GGUF metadata type: {raw.toNat}")

def parseMetadata (fuel : Nat) (kvCount : UInt64) : MeteredFile (List (Bytes × MetadataValue)) :=
  Metered.iterate (fun metadata => do
    let key ← readString
    let typeVal ← readU32Le
    let value ← readMetadataValue fuel (.ofRaw typeVal)
    pure (emplace metadata key value)) kvCount.toNat []

def readDimensions (dims : UInt32) : MeteredFile (List Int) :=
  Metered.iterate (fun dimensions => do
    let dim ← readU64Le
    if dim = 0 ∨ int64Max < dim then
      Metered.fail (.invalidArgument s!"GGUF tensor has invalid dimension: {dim.toNat}")
    else pure ((dim.toNat : Int) :: dimensions)) dims.toNat []

/-- `GGUFTensorInfo info;` comes before the first read. -/
def readTensorInfo : MeteredFile GGUFTensorInfo := do
  tick .constructed
  let name ← readString
  let dims ← readU32Le
  if dims = 0 ∨ maxTensorDims < dims then
    Metered.fail (.invalidArgument s!"GGUF tensor has invalid dimension count: {dims.toNat}")
  else do
    let dimensions ← readDimensions dims
    let dtypeVal ← readU32Le
    let offset ← readU64Le
    pure { name := name, dtype := ⟨dtypeVal⟩, dimensions := dimensions, offset := offset }

def parseTensorInfos (tensorCount : UInt64) : MeteredFile (List GGUFTensorInfo) :=
  if maxTensorCount < tensorCount then
    Metered.fail (.invalidArgument s!"GGUF tensor count too large: {tensorCount.toNat}")
  else
    Metered.iterate (fun infos => do
      let info ← readTensorInfo
      pure (infos ++ [info])) tensorCount.toNat []

def readMagic : MeteredFile Unit := do
  let bytes ← Metered.take 4 magicMismatch
  if bytes = magic then pure () else Metered.fail magicMismatch

def tellg : MeteredFile UInt64 := fun stream =>
  some (.zero, .ok (UInt64.ofNat stream.position, stream))

def parseHeader (fuel : Nat) (filename : String) (memoryView : Option Bytes) :
    MeteredFile GGUFFile := do
  readMagic
  let version ← readU32Le
  if version ≠ kGgufVersion then
    Metered.fail (.unsupported s!"unsupported GGUF version {version.toNat} (only v3 is supported)")
  else do
    let tensorCount ← readU64Le
    let metadataKvCount ← readU64Le
    let metadata ← parseMetadata fuel metadataKvCount
    let tensorInfos ← parseTensorInfos tensorCount
    let rawOffset ← tellg
    pure {
      version := version
      tensorCount := tensorCount
      metadataKvCount := metadataKvCount
      dataOffset := alignUp rawOffset (alignmentOf metadata).toUInt64
      sourcePath := filename
      memoryView := memoryView
      metadata := metadata
      tensorInfos := tensorInfos }

section Fields

variable {m : Meter} {limit : Nat}

theorem readU8_meters : Meters m limit 1 0 readU8 GGUFParser.readU8 :=
  (Meters.take 1 _).andThen 0 0 (fun _ => Meters.pure _) (by omega) le_rfl (by omega)

theorem readU16Le_meters : Meters m limit 2 0 readU16Le GGUFParser.readU16Le :=
  (Meters.take 2 _).andThen 0 0 (fun _ => Meters.pure _) (by omega) le_rfl (by omega)

theorem readU32Le_meters : Meters m limit 4 0 readU32Le GGUFParser.readU32Le :=
  (Meters.take 4 _).andThen 0 0 (fun _ => Meters.pure _) (by omega) le_rfl (by omega)

theorem readU64Le_meters : Meters m limit 8 0 readU64Le GGUFParser.readU64Le :=
  (Meters.take 8 _).andThen 0 0 (fun _ => Meters.pure _) (by omega) le_rfl (by omega)

theorem readString_meters : Meters m limit 8 0 readString GGUFParser.readString := by
  apply readU64Le_meters.andThen 0 0 _ (by omega) le_rfl (by omega)
  intro len
  split
  · exact Meters.fail _
  · split
    · exact Meters.fail _
    · exact (Meters.take _ _).weaken (Int.natCast_nonneg _) le_rfl

theorem construct_meters (value : MetadataValue) :
    Meters m limit (-Work.price .constructed m) (Work.price .constructed m) (construct value)
      (pure value : FileReader MetadataValue) := by
  have built : Meters m limit 0 0 (pure value : MeteredFile MetadataValue)
      (pure value : FileReader MetadataValue) := Meters.pure value
  exact (built.ticked .constructed le_rfl).weaken (by omega) (by omega)

/-- Own bytes that pay for the value, whatever its elements pay for themselves. -/
theorem constructed_after {gain debt : Int} {α : Type} {metered : MeteredFile α}
    {plain : FileReader α} (pack : α → MetadataValue)
    (meters : Meters m limit gain debt metered plain) (covers : 1 ≤ gain) (paid : debt ≤ 0) :
    Meters m limit (Work.price .rounds m) 0 (metered >>= fun v => construct (pack v))
      (plain >>= fun v => pure (pack v)) := by
  have prices := Work.price_sum m
  have cost := Work.price_nonneg .rounds m
  exact meters.andThen _ _ (fun v => construct_meters (pack v)) (by omega) paid (by omega)

end Fields

/-- An element pays for its round; the type and the length pay for one that fails. -/
theorem readMetadataValue_meters (m : Meter) (fuel : Nat) (type : GgufValueType) :
    Meters m fuel (Work.price .rounds m) 0 (readMetadataValue fuel type)
      (GGUFParser.readMetadataValue type) := by
  have prices := Work.price_sum m
  have cost := Work.price_nonneg .rounds m
  have built := Work.price_nonneg .constructed m
  induction fuel generalizing type with
  | zero => exact fun stream short => absurd short (Nat.not_lt_zero _)
  | succ fuel ih =>
      cases type with
      | uint8 => exact constructed_after .uint8 readU8_meters (by omega) (by omega)
      | int8 => exact constructed_after (.int8 ·.toInt8) readU8_meters (by omega) (by omega)
      | uint16 => exact constructed_after .uint16 readU16Le_meters (by omega) (by omega)
      | int16 => exact constructed_after (.int16 ·.toInt16) readU16Le_meters (by omega) (by omega)
      | uint32 => exact constructed_after .uint32 readU32Le_meters (by omega) (by omega)
      | int32 => exact constructed_after (.int32 ·.toInt32) readU32Le_meters (by omega) (by omega)
      | uint64 => exact constructed_after .uint64 readU64Le_meters (by omega) (by omega)
      | int64 => exact constructed_after (.int64 ·.toInt64) readU64Le_meters (by omega) (by omega)
      | float32 => exact constructed_after .float readU32Le_meters (by omega) (by omega)
      | float64 => exact constructed_after .double readU64Le_meters (by omega) (by omega)
      | bool => exact constructed_after (.bool <| · != 0) readU8_meters (by omega) (by omega)
      | string => exact constructed_after .string readString_meters (by omega) (by omega)
      | unknown raw => exact Meters.fail _
      | array =>
          rw [readMetadataValue_array]
          apply readU32Le_meters.andThen_shorter 1 0 _ (by omega) le_rfl (by omega)
          intro elemTypeVal
          apply readU64Le_meters.andThen (-1) 1 _ (by omega) (by omega) (by omega)
          intro arrayLen
          split
          · exact (Meters.fail _).weaken le_rfl (by omega)
          · have less : fuel + 1 - (4 : Int).toNat ≤ fuel := Nat.sub_le fuel 3
            have element := (ih (.ofRaw elemTypeVal)).shorten less
            have elements := Meters.iterate (fun arr => element.andThen 0 0
              (fun elem => Meters.pure (arr ++ [elem])) (by omega) le_rfl (by omega)) le_rfl
              arrayLen.toNat []
            exact elements.andThen _ _ (fun arr => construct_meters (.array arr)) (by omega)
              (by omega) (by omega)

section Loops

variable (m : Meter) (fuel : Nat)

theorem parseMetadata_meters (kvCount : UInt64) :
    Meters m fuel 0 1 (parseMetadata fuel kvCount) (GGUFParser.parseMetadata kvCount) := by
  have cost := Work.price_nonneg .rounds m
  have single := Work.price_le_one .rounds m
  refine (Meters.iterate (fun metadata => ?_) le_rfl kvCount.toNat []).weaken le_rfl (by omega)
  apply readString_meters.andThen 0 0 _ (by omega) le_rfl (by omega)
  intro key
  apply readU32Le_meters.andThen 0 0 _ (by omega) le_rfl (by omega)
  intro typeVal
  exact (readMetadataValue_meters m fuel (.ofRaw typeVal)).andThen 0 0
    (fun value => Meters.pure (emplace metadata key value)) (by omega) le_rfl (by omega)

theorem readDimensions_meters (dims : UInt32) :
    Meters m fuel 0 1 (readDimensions dims) (GGUFParser.readDimensions dims) := by
  have single := Work.price_le_one .rounds m
  refine (Meters.iterate (fun dimensions => ?_) le_rfl dims.toNat []).weaken le_rfl (by omega)
  apply readU64Le_meters.andThen 0 0 _ (by omega) le_rfl (by omega)
  intro dim
  split
  · exact Meters.fail _
  · exact Meters.pure _

theorem readTensorInfo_meters :
    Meters m fuel 1 (Work.price .constructed m) readTensorInfo GGUFParser.readTensorInfo := by
  have single := Work.price_le_one .constructed m
  refine (Meters.ticked .constructed (?_ : Meters m fuel 2 0 _ _) le_rfl).weaken (by omega)
    (by omega)
  apply readString_meters.andThen 0 0 _ (by omega) le_rfl (by omega)
  intro name
  apply readU32Le_meters.andThen 0 1 _ (by omega) le_rfl (by omega)
  intro dims
  split
  · exact (Meters.fail _).weaken le_rfl (by omega)
  · apply (readDimensions_meters m fuel dims).andThen 0 1 _ (by omega) le_rfl (by omega)
    intro dimensions
    apply readU32Le_meters.andThen 0 0 _ (by omega) (by omega) (by omega)
    intro dtypeVal
    apply readU64Le_meters.andThen 0 0 _ (by omega) le_rfl (by omega)
    intro offset
    exact Meters.pure _

theorem parseTensorInfos_meters (tensorCount : UInt64) :
    Meters m fuel 0 1 (parseTensorInfos tensorCount)
      (GGUFParser.parseTensorInfos tensorCount) := by
  have single := Work.price_le_one .rounds m
  have shared := Work.price_sum m
  have solvent := Work.price_nonneg .constructed m
  rw [parseTensorInfos, GGUFParser.parseTensorInfos]
  split
  · exact (Meters.fail _).weaken le_rfl (by omega)
  · refine (Meters.iterate (fun infos => ?_) solvent tensorCount.toNat []).weaken le_rfl
      (by omega)
    exact (readTensorInfo_meters m fuel).andThen 0 0 (fun info => Meters.pure (infos ++ [info]))
      (by omega) le_rfl (by omega)

theorem readMagic_meters : Meters m fuel 4 0 readMagic GGUFParser.readMagic := by
  apply (Meters.take 4 _).andThen 0 0 _ (by omega) le_rfl (by omega)
  intro bytes
  split
  · exact Meters.pure _
  · exact Meters.fail _

theorem tellg_meters : Meters m fuel 0 0 tellg GGUFParser.tellg :=
  fun _ _ => ⟨.zero, rfl, Nat.zero_add _, by simp [Work.zero]⟩

/-- Magic, version and counts are 24 bytes: more than any failing round owes. -/
theorem parseHeader_meters (filename : String) (memoryView : Option Bytes) :
    Meters m fuel 0 0 (parseHeader fuel filename memoryView)
      (GGUFParser.parseHeader filename memoryView) := by
  apply (readMagic_meters m fuel).andThen 0 0 _ (by omega) le_rfl (by omega)
  intro _
  apply readU32Le_meters.andThen 0 0 _ (by omega) le_rfl (by omega)
  intro version
  split
  · exact Meters.fail _
  · apply readU64Le_meters.andThen 0 0 _ (by omega) le_rfl (by omega)
    intro tensorCount
    apply readU64Le_meters.andThen 0 1 _ (by omega) le_rfl (by omega)
    intro metadataKvCount
    apply (parseMetadata_meters m fuel metadataKvCount).andThen 0 1 _ (by omega) le_rfl (by omega)
    intro metadata
    apply (parseTensorInfos_meters m fuel tensorCount).andThen 0 0 _ (by omega) le_rfl (by omega)
    intro tensorInfos
    apply (tellg_meters m fuel).andThen 0 0 _ (by omega) le_rfl (by omega)
    intro rawOffset
    exact Meters.pure _

end Loops

/-- Any fuel above the length will do, and the counted parser is then the plain one. -/
theorem parse_work_bounded (filename : String) (memoryView : Option Bytes) (bytes : Bytes)
    (fuel : Nat) (enough : bytes.length < fuel) :
    ∃ work,
      parseHeader fuel filename memoryView ⟨bytes, 0⟩ =
        some (work, GGUFParser.parseHeader filename memoryView ⟨bytes, 0⟩) ∧
      work.constructed ≤ work.consumed ∧ work.rounds ≤ work.consumed ∧
      work.consumed ≤ bytes.length := by
  have ⟨work, ran, built⟩ :=
    parseHeader_meters .constructed fuel filename memoryView ⟨bytes, 0⟩ enough
  have ⟨again, ranAgain, began⟩ :=
    parseHeader_meters .rounds fuel filename memoryView ⟨bytes, 0⟩ enough
  obtain rfl : work = again := by
    rw [ran] at ranAgain
    exact (Prod.mk.inj (Option.some.inj ranAgain)).1
  have ⟨few, within⟩ := built.bounds le_rfl le_rfl
  exact ⟨work, ran, few, (began.bounds le_rfl le_rfl).1, within⟩

/-- A header that claims 2^64 - 1 metadata entries and holds none. -/
def crowdedHeader : Bytes :=
  ascii "GGUF" ++ [3, 0, 0, 0] ++ List.replicate 8 0 ++ List.replicate 8 255

theorem parse_work_bounded_crowded :
    ∃ work,
      parseHeader 25 "crowded.gguf" none ⟨crowdedHeader, 0⟩ =
        some (work, GGUFParser.parseHeader "crowded.gguf" none ⟨crowdedHeader, 0⟩) ∧
      work.constructed ≤ work.consumed ∧ work.rounds ≤ work.consumed ∧
      work.consumed ≤ crowdedHeader.length :=
  parse_work_bounded "crowded.gguf" none crowdedHeader 25 (by decide)

end GGUFParser.Counted

end MiniLLM
