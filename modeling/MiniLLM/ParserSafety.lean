import MiniLLM.CheckedReader
import MiniLLM.GgufGrammar

/-!
The parser with its unsafe steps checked: indices into the buffers and the
dimension vector, casts, allocation sizes and the arithmetic of the data offset.
Up to the data offset it is the plain parser; there it can divide by zero.
-/

namespace MiniLLM

open ByteReader GgufWriter

namespace GGUFParser.Checked

open ByteReader.Checked

abbrev CheckedFile := ByteReader.Checked Status

def readU8 : CheckedFile UInt8 := do
  let v ← word 8 1 (.ioError "unexpected EOF reading uint8")
  pure ⟨v⟩

def readU16Le : CheckedFile UInt16 := do
  let v ← word 16 2 (.ioError "failed to read uint16")
  pure ⟨v⟩

def readU32Le : CheckedFile UInt32 := do
  let v ← word 32 4 (.ioError "failed to read uint32")
  pure ⟨v⟩

def readU64Le : CheckedFile UInt64 := do
  let v ← word 64 8 (.ioError "failed to read uint64")
  pure ⟨v⟩

def readString : CheckedFile Bytes := do
  let len ← readU64Le
  if maxStringLen < len then
    fail (.invalidArgument s!"GGUF string too long: {len.toNat} bytes")
  else if streamsizeMax < len then
    fail (.invalidArgument s!"GGUF string length overflows streamsize: {len.toNat}")
  else do
    reserve (len.toNat + 1) 1
    let size ← toSigned len
    readInto len.toNat size.toNat (.ioError "failed to read string")

/-- `sizeof` in bytes. -/
def sizeofMetadataValue : Nat := 40
def sizeofTensorInfo : Nat := 72

def readNested : Nat → GgufValueType → CheckedFile MetadataValue
  | 0, _ => fail (.ioError "nested too deep")
  | fuel + 1, type =>
      match type with
      | .uint8 => do let v ← readU8; pure (.uint8 v)
      | .int8 => do let v ← readU8; pure (.int8 v.toInt8)
      | .uint16 => do let v ← readU16Le; pure (.uint16 v)
      | .int16 => do let v ← readU16Le; pure (.int16 v.toInt16)
      | .uint32 => do let v ← readU32Le; pure (.uint32 v)
      | .int32 => do let v ← readU32Le; pure (.int32 v.toInt32)
      | .uint64 => do let v ← readU64Le; pure (.uint64 v)
      | .int64 => do let v ← readU64Le; pure (.int64 v.toInt64)
      | .float32 => do let raw ← readU32Le; pure (.float raw)
      | .float64 => do let raw ← readU64Le; pure (.double raw)
      | .bool => do let v ← readU8; pure (.bool (v != 0))
      | .string => do let s ← readString; pure (.string s)
      | .array => do
          let elemTypeVal ← readU32Le
          let arrayLen ← readU64Le
          if maxArrayLen < arrayLen then
            fail (.invalidArgument s!"GGUF metadata array too long: {arrayLen.toNat}")
          else do
            reserve arrayLen.toNat sizeofMetadataValue
            let arr ← iterate (fun arr => do
              let elem ← readNested fuel (.ofRaw elemTypeVal)
              pure (arr ++ [elem])) arrayLen.toNat []
            pure (.array arr)
      | .unknown raw => fail (.unsupported s!"unsupported GGUF metadata type: {raw.toNat}")

def readMetadataValue (type : GgufValueType) : CheckedFile MetadataValue := fun stream =>
  readNested (stream.rest.length + 1) type stream

def parseMetadata (kvCount : UInt64) : CheckedFile (List (Bytes × MetadataValue)) :=
  iterate (fun metadata => do
    let key ← readString
    let typeVal ← readU32Le
    let value ← readMetadataValue (.ofRaw typeVal)
    pure (emplace metadata key value)) kvCount.toNat []

/-- One pass of the dimension loop: the counter `d` with the vector it fills. -/
def readDimension (dims : UInt32) : UInt32 × List Int → CheckedFile (UInt32 × List Int)
  | (d, dimensions) => do
      let dim ← readU64Le
      if dim = 0 ∨ int64Max < dim then
        fail (.invalidArgument s!"GGUF tensor has invalid dimension: {dim.toNat}")
      else do
        let value ← toSigned dim
        let above ← sub32 dims d
        let i ← sub32 above 1
        let dimensions ← put dimensions i.toNat value
        pure (d + 1, dimensions)

def readDimensions (dims : UInt32) : CheckedFile (List Int) := do
  let filled ← iterate (readDimension dims) dims.toNat (0, List.replicate dims.toNat 0)
  pure filled.2

def readTensorInfo : CheckedFile GGUFTensorInfo := do
  let name ← readString
  let dims ← readU32Le
  if dims = 0 ∨ maxTensorDims < dims then
    fail (.invalidArgument s!"GGUF tensor has invalid dimension count: {dims.toNat}")
  else do
    let dimensions ← readDimensions dims
    let dtypeVal ← readU32Le
    let offset ← readU64Le
    pure { name := name, dtype := ⟨dtypeVal⟩, dimensions := dimensions, offset := offset }

def parseTensorInfos (tensorCount : UInt64) : CheckedFile (List GGUFTensorInfo) :=
  if maxTensorCount < tensorCount then
    fail (.invalidArgument s!"GGUF tensor count too large: {tensorCount.toNat}")
  else do
    reserve tensorCount.toNat sizeofTensorInfo
    iterate (fun infos => do
      let info ← readTensorInfo
      pure (infos ++ [info])) tensorCount.toNat []

def readMagic : CheckedFile Unit := do
  let bytes ← readInto 4 4 magicMismatch
  if bytes = magic then pure () else fail magicMismatch

/-- `raw_offset + (alignment - raw_offset % alignment) % alignment` -/
def alignUp (rawOffset alignment : UInt64) : CheckedFile UInt64 := do
  let part ← remainder rawOffset alignment
  let short ← sub alignment part
  let pad ← remainder short alignment
  add rawOffset pad

def parseHeader (filename : String) (memoryView : Option Bytes) : CheckedFile GGUFFile := do
  readMagic
  let version ← readU32Le
  if version ≠ kGgufVersion then
    fail (.unsupported s!"unsupported GGUF version {version.toNat} (only v3 is supported)")
  else do
    let tensorCount ← readU64Le
    let metadataKvCount ← readU64Le
    let metadata ← parseMetadata metadataKvCount
    let tensorInfos ← parseTensorInfos tensorCount
    let rawOffset ← lift tellg
    let dataOffset ← alignUp rawOffset (alignmentOf metadata).toUInt64
    pure {
      version := version
      tensorCount := tensorCount
      metadataKvCount := metadataKvCount
      dataOffset := dataOffset
      sourcePath := filename
      memoryView := memoryView
      metadata := metadata
      tensorInfos := tensorInfos }

def parse (filename : String) (opened : Option FileBytes) (memoryView : Option Bytes) :
    Except (Fault Status) GGUFFile :=
  match opened with
  | none => .error (.error (.ioError ("cannot open file: " ++ filename)))
  | some file =>
      match parseHeader filename memoryView ⟨file.bytes, 0⟩ with
      | .error fault => .error fault
      | .ok (parsed, _) => .ok parsed

/-! Up to the data offset nothing traps. -/

theorem readU8_lift : readU8 = lift GGUFParser.readU8 := by
  rw [readU8, GGUFParser.readU8, word_lift, lift_bind, lift_bind, bind_assoc]
  rfl

theorem readU16Le_lift : readU16Le = lift GGUFParser.readU16Le := by
  rw [readU16Le, GGUFParser.readU16Le, word_lift, lift_bind, lift_bind, bind_assoc]
  rfl

theorem readU32Le_lift : readU32Le = lift GGUFParser.readU32Le := by
  rw [readU32Le, GGUFParser.readU32Le, word_lift, lift_bind, lift_bind, bind_assoc]
  rfl

theorem readU64Le_lift : readU64Le = lift GGUFParser.readU64Le := by
  rw [readU64Le, GGUFParser.readU64Le, word_lift, lift_bind, lift_bind, bind_assoc]
  rfl

theorem reserve_ok (count size limit : Nat) (within : count ≤ limit)
    (fits : limit * size < 2 ^ 64) : (reserve count size : CheckedFile Unit) = pure () := by
  have room := Nat.mul_le_mul_right size within
  rw [reserve, if_pos (by omega)]

theorem toSigned_ok (v : UInt64) (small : v.toNat < 2 ^ 63) :
    (toSigned v : CheckedFile Int) = pure (v.toNat : Int) := by
  rw [toSigned, if_pos small]

theorem readString_lift : readString = lift GGUFParser.readString := by
  rw [readString, GGUFParser.readString, readU64Le_lift, lift_bind]
  congr 1
  funext len
  rw [lift_ite, lift_ite]
  split
  · rfl
  · rename_i short
    have limit : maxStringLen.toNat = 64 * 1024 * 1024 := by decide
    rw [UInt64.lt_iff_toNat_lt, limit] at short
    split
    · rfl
    · rw [reserve_ok (len.toNat + 1) 1 (64 * 1024 * 1024 + 1) (by omega) (by omega), pure_bind,
        toSigned_ok len (by omega), pure_bind, readInto, Int.toNat_natCast, if_pos le_rfl]

theorem readNested_lift (fuel : Nat) (type : GgufValueType) :
    readNested fuel type = lift (GGUFParser.readNested fuel type) := by
  induction fuel generalizing type with
  | zero => rfl
  | succ fuel ih =>
      cases type with
      | array =>
          simp only [readNested, GGUFParser.readNested, readU32Le_lift, readU64Le_lift, lift_bind,
            lift_ite]
          congr 1
          funext elemTypeVal
          congr 1
          funext arrayLen
          split
          · rfl
          · rename_i short
            have limit : maxArrayLen.toNat = 16 * 1024 * 1024 := by decide
            rw [UInt64.lt_iff_toNat_lt, limit] at short
            rw [reserve_ok arrayLen.toNat sizeofMetadataValue (16 * 1024 * 1024) (by omega)
              (by decide), pure_bind, lift_iterate]
            simp only [ih, lift_bind, lift_pure]
      | _ =>
          simp only [readNested, GGUFParser.readNested, readU8_lift, readU16Le_lift,
            readU32Le_lift, readU64Le_lift, readString_lift, lift_bind, lift_pure, lift_fail]

theorem readMetadataValue_lift (type : GgufValueType) :
    readMetadataValue type = lift (GGUFParser.readMetadataValue type) := by
  funext stream
  rw [readMetadataValue, readNested_lift]
  rfl

theorem parseMetadata_lift (kvCount : UInt64) :
    parseMetadata kvCount = lift (GGUFParser.parseMetadata kvCount) := by
  simp only [parseMetadata, GGUFParser.parseMetadata, lift_iterate, lift_bind, lift_pure,
    readString_lift, readU32Le_lift, readMetadataValue_lift]

/-- One round writes the slot before those already filled. -/
theorem fill_slot (dims d : UInt32) (left : Nat) (filled : List Int) (dim : UInt64)
    (small : dim.toNat < 2 ^ 63) (rest : d.toNat + (left + 1) = dims.toNat) :
    (do
      let value ← toSigned dim
      let above ← sub32 dims d
      let i ← sub32 above 1
      let dimensions ← put (List.replicate (left + 1) 0 ++ filled) i.toNat value
      pure (d + 1, dimensions) : CheckedFile (UInt32 × List Int)) =
    pure (d + 1, List.replicate left 0 ++ (dim.toNat : Int) :: filled) := by
  have later : d ≤ dims := by
    rw [UInt32.le_iff_toNat_le]
    omega
  have remaining : (dims - d).toNat = left + 1 := by
    rw [UInt32.toNat_sub_of_le _ _ later]
    omega
  have one : (1 : UInt32) ≤ dims - d := by
    rw [UInt32.le_iff_toNat_le, remaining]
    exact Nat.succ_le_succ (Nat.zero_le left)
  have slot : (dims - d - 1).toNat = left := by
    rw [UInt32.toNat_sub_of_le _ _ one, remaining]
    rfl
  rw [toSigned_ok dim small, pure_bind, sub32, if_pos later, pure_bind, sub32, if_pos one,
    pure_bind, slot, put, if_pos (by simp; omega), pure_bind]
  congr 2
  rw [List.replicate_succ', List.append_assoc, List.set_append_right _ _ (by simp)]
  simp

theorem readDimension_lift (dims d : UInt32) (left : Nat) (filled : List Int)
    (rest : d.toNat + (left + 1) = dims.toNat) :
    readDimension dims (d, List.replicate (left + 1) 0 ++ filled) =
      lift (do
        let dim ← GGUFParser.readU64Le
        if dim = 0 ∨ int64Max < dim then
          Reader.fail (.invalidArgument s!"GGUF tensor has invalid dimension: {dim.toNat}")
        else pure ((dim.toNat : Int) :: filled)) >>= fun filled =>
          pure (d + 1, List.replicate left 0 ++ filled) := by
  rw [readDimension, readU64Le_lift, lift_bind, bind_assoc]
  congr 1
  funext dim
  rw [lift_ite]
  split
  · rfl
  · rename_i valid
    have limit : int64Max.toNat = 2 ^ 63 - 1 := by decide
    rw [not_or, UInt64.lt_iff_toNat_lt, limit] at valid
    rw [fill_slot dims d left filled dim (by omega) rest, lift_pure, pure_bind]

/-- The slots fill from the last one down, as the plain loop conses. -/
theorem fill_lift (dims : UInt32) (left : Nat) (d : UInt32) (filled : List Int)
    (rest : d.toNat + left = dims.toNat) :
    iterate (readDimension dims) left (d, List.replicate left 0 ++ filled) =
      lift (iterate (fun dimensions => do
        let dim ← GGUFParser.readU64Le
        if dim = 0 ∨ int64Max < dim then
          Reader.fail (.invalidArgument s!"GGUF tensor has invalid dimension: {dim.toNat}")
        else pure ((dim.toNat : Int) :: dimensions)) left filled) >>= fun dimensions =>
          pure (dims, dimensions) := by
  induction left generalizing d filled with
  | zero =>
      obtain rfl : d = dims := UInt32.toNat_inj.mp rest
      rfl
  | succ left ih =>
      have next : (d + 1).toNat = d.toNat + 1 := by
        have bound := dims.toNat_lt
        rw [UInt32.toNat_add, Nat.mod_eq_of_lt]
        · rfl
        · change d.toNat + 1 < 2 ^ 32
          omega
      change readDimension dims (d, _) >>= iterate (readDimension dims) left = _
      rw [readDimension_lift dims d left filled rest, bind_assoc]
      simp only [pure_bind]
      have others := fun filled => ih (d + 1) filled (by omega)
      simp only [others]
      rw [← bind_assoc, ← lift_bind]
      rfl

theorem readDimensions_lift (dims : UInt32) :
    readDimensions dims = lift (GGUFParser.readDimensions dims) := by
  have whole := fill_lift dims dims.toNat 0 [] (by simp)
  rw [List.append_nil] at whole
  rw [readDimensions, whole, bind_assoc]
  simp only [pure_bind, bind_pure]
  rfl

theorem readTensorInfo_lift : readTensorInfo = lift GGUFParser.readTensorInfo := by
  simp only [readTensorInfo, GGUFParser.readTensorInfo, lift_bind, lift_pure, lift_ite, lift_fail,
    readString_lift, readU32Le_lift, readU64Le_lift, readDimensions_lift]

theorem parseTensorInfos_lift (tensorCount : UInt64) :
    parseTensorInfos tensorCount = lift (GGUFParser.parseTensorInfos tensorCount) := by
  rw [parseTensorInfos, GGUFParser.parseTensorInfos, lift_ite]
  split
  · rfl
  · rename_i few
    have limit : maxTensorCount.toNat = 1024 * 1024 := by decide
    rw [UInt64.lt_iff_toNat_lt, limit] at few
    rw [reserve_ok tensorCount.toNat sizeofTensorInfo (1024 * 1024) (by omega) (by decide),
      pure_bind, lift_iterate]
    simp only [lift_bind, lift_pure, readTensorInfo_lift]

theorem readMagic_lift : readMagic = lift GGUFParser.readMagic := by
  rw [readMagic, GGUFParser.readMagic, readInto, if_pos le_rfl, lift_bind]
  simp only [lift_ite, lift_pure, lift_fail]

theorem parseHeader_lift (filename : String) (memoryView : Option Bytes) :
    parseHeader filename memoryView = (do
      let fields ← lift headerFields
      let rawOffset ← lift tellg
      let dataOffset ← alignUp rawOffset (alignmentOf fields.metadata).toUInt64
      pure { fields.file filename memoryView rawOffset with dataOffset := dataOffset }) := by
  simp only [parseHeader, headerFields, readMagic_lift, readU32Le_lift, readU64Le_lift,
    parseMetadata_lift, parseTensorInfos_lift, lift_bind, lift_ite, lift_fail, lift_pure,
    bind_assoc]
  congr 1
  funext _
  congr 1
  funext version
  split
  · rfl
  · simp only [bind_assoc, pure_bind, HeaderFields.file]

/-- The offset is computed without a trap for every nonzero alignment. -/
theorem alignUp_ok (rawOffset : UInt64) (alignment : UInt32) (small : rawOffset.toNat < 2 ^ 63)
    (nonzero : alignment ≠ 0) :
    alignUp rawOffset alignment.toUInt64 =
      pure (GGUFParser.alignUp rawOffset alignment.toUInt64) := by
  have bound := alignment.toNat_lt
  have positive : 0 < alignment.toNat :=
    Nat.pos_of_ne_zero fun zero => nonzero (UInt32.toNat_inj.mp zero)
  have wide : alignment.toUInt64 ≠ 0 := by
    intro zero
    have none := congrArg UInt64.toNat zero
    rw [UInt32.toNat_toUInt64] at none
    exact positive.ne' none
  have part : (rawOffset % alignment.toUInt64).toNat < alignment.toNat := by
    rw [UInt64.toNat_mod, UInt32.toNat_toUInt64]
    exact Nat.mod_lt _ positive
  have below : rawOffset % alignment.toUInt64 ≤ alignment.toUInt64 := by
    rw [UInt64.le_iff_toNat_le, UInt32.toNat_toUInt64]
    exact part.le
  have pad : ((alignment.toUInt64 - rawOffset % alignment.toUInt64) % alignment.toUInt64).toNat <
      alignment.toNat := by
    rw [UInt64.toNat_mod, UInt32.toNat_toUInt64]
    exact Nat.mod_lt _ positive
  rw [alignUp, remainder, if_neg wide, pure_bind, sub, if_pos below, pure_bind, remainder,
    if_neg wide, pure_bind, add, if_pos (by omega), GGUFParser.alignUp]

theorem alignUp_zero (rawOffset : UInt64) : alignUp rawOffset 0 = trap .divisionByZero := by
  rw [alignUp, remainder, if_pos rfl]
  rfl

/-- Where the fields end decides the rest: the offset is the only step that can trap. -/
theorem parseHeader_ends (filename : String) (memoryView : Option Bytes) (file : FileBytes) :
    (∃ status, headerFields ⟨file.bytes, 0⟩ = .error status ∧
      parseHeader filename memoryView ⟨file.bytes, 0⟩ = .error (.error status)) ∨
    ∃ fields after, headerFields ⟨file.bytes, 0⟩ = .ok (fields, after) ∧
      parseHeader filename memoryView ⟨file.bytes, 0⟩ =
        if alignmentOf fields.metadata = 0 then .error (.trap .divisionByZero)
        else .ok (fields.file filename memoryView (UInt64.ofNat after.position), after) := by
  rw [parseHeader_lift]
  change (∃ status, _ ∧ Reader.bind (lift headerFields) _ _ = _) ∨
    ∃ fields after, _ ∧ Reader.bind (lift headerFields) _ _ = _
  rw [Reader.bind, lift]
  cases read : headerFields ⟨file.bytes, 0⟩ with
  | error status => exact Or.inl ⟨status, rfl, rfl⟩
  | ok pair =>
      obtain ⟨fields, after⟩ := pair
      refine Or.inr ⟨fields, after, rfl, ?_⟩
      have short : after.position < 2 ^ 63 := by
        obtain ⟨header, -, bytes, place, -⟩ := (headerFields_ok _ _ _).mp read
        have total : file.bytes.length = _ := congrArg List.length bytes
        rw [List.length_append] at total
        have bound := file.addressable
        simp only at place
        omega
      have position : (UInt64.ofNat after.position).toNat = after.position :=
        toNat_ofNat _ (by omega)
      change (alignUp (UInt64.ofNat after.position) (alignmentOf fields.metadata).toUInt64 >>= _)
        after = _
      split
      · rename_i zero
        rw [zero]
        change (alignUp _ 0 >>= _) after = _
        rw [alignUp_zero]
        rfl
      · rename_i nonzero
        rw [alignUp_ok _ _ (by omega) nonzero, pure_bind]
        rfl

end GGUFParser.Checked

open GGUFParser

/-- A well-formed header that gives `general.alignment` the UINT32 value 0 first. -/
def ZeroAlignment (bytes : Bytes) : Prop :=
  ∃ header : WireHeader, header.WellFormed ∧ header.write <+: bytes ∧
    header.declaredAlignment = some (.uint32 0)

namespace GGUFParser.Checked

theorem alignmentOf_zero (header : WireHeader) :
    alignmentOf header.fields.metadata = 0 ↔ header.declaredAlignment = some (.uint32 0) := by
  rw [alignmentOf_fields]
  constructor
  · intro zero
    split at zero
    · rename_i v declared
      rw [declared, zero]
    · cases zero
  · intro declared
    rw [declared]

theorem zeroAlignment_iff (bytes : Bytes) :
    ZeroAlignment bytes ↔ ∃ fields after, headerFields ⟨bytes, 0⟩ = .ok (fields, after) ∧
      alignmentOf fields.metadata = 0 := by
  constructor
  · rintro ⟨header, formed, ⟨rest, bytes⟩, declared⟩
    refine ⟨header.fields, ⟨rest, header.write.length⟩, ?_, (alignmentOf_zero header).mpr declared⟩
    exact (headerFields_ok _ _ _).mpr ⟨header, formed, bytes.symm, (Nat.zero_add _).symm, rfl⟩
  · rintro ⟨fields, after, read, zero⟩
    obtain ⟨header, formed, bytes, -, rfl⟩ := (headerFields_ok _ _ _).mp read
    exact ⟨header, formed, ⟨after.rest, bytes.symm⟩, (alignmentOf_zero header).mp zero⟩

/-- Without a zero alignment the checked parser is the parser. -/
theorem parse_agrees (filename : String) (memoryView : Option Bytes) (file : FileBytes)
    (nonzero : ¬ ZeroAlignment file.bytes) :
    parse filename (some file) memoryView =
      embed (GGUFParser.parse filename (some file) memoryView) := by
  rw [parse, GGUFParser.parse]
  rcases parseHeader_ends filename memoryView file with ⟨status, read, ends⟩ |
      ⟨fields, after, read, ends⟩
  · rw [ends, (parseHeader_error filename memoryView _ _).mpr read]
    rfl
  · have divides : alignmentOf fields.metadata ≠ 0 := fun zero =>
      nonzero ((zeroAlignment_iff _).mpr ⟨fields, after, read, zero⟩)
    rw [ends, if_neg divides, (parseHeader_ok filename memoryView _ _ _).mpr ⟨fields, read, rfl⟩]
    rfl

theorem parse_traps (filename : String) (memoryView : Option Bytes) (file : FileBytes)
    (zero : ZeroAlignment file.bytes) :
    parse filename (some file) memoryView = .error (.trap .divisionByZero) := by
  obtain ⟨fields, after, read, divisor⟩ := (zeroAlignment_iff _).mp zero
  rw [parse]
  rcases parseHeader_ends filename memoryView file with ⟨status, failed, -⟩ |
      ⟨others, ended, again, ends⟩
  · rw [read] at failed
    cases failed
  · rw [read] at again
    cases again
    rw [ends, if_pos divisor]

/-- No step traps: the outcome is a file or a status. -/
def Safe (outcome : Except (Fault Status) GGUFFile) : Prop :=
  ∀ trap, outcome ≠ .error (.trap trap)

theorem embed_safe (outcome : Except Status GGUFFile) : Safe (embed outcome) := by
  intro trap same
  cases outcome <;> cases same

/-- The parser is safe on a file exactly when its header declares no zero alignment. -/
theorem parse_safe_iff (filename : String) (opened : Option FileBytes)
    (memoryView : Option Bytes) :
    Safe (parse filename opened memoryView) ↔
      ∀ file, opened = some file → ¬ ZeroAlignment file.bytes := by
  cases opened with
  | none =>
      refine ⟨fun _ file absent => ?_, fun _ => ?_⟩
      · cases absent
      · exact embed_safe (.error (.ioError ("cannot open file: " ++ filename)))
  | some file =>
      constructor
      · intro safe other same zero
        cases same
        exact safe .divisionByZero (parse_traps filename memoryView file zero)
      · intro nonzero
        rw [parse_agrees filename memoryView file (nonzero file rfl)]
        exact embed_safe _

/-- One metadata entry, `general.alignment` = UINT32 0, and no tensor. -/
def zeroAlignmentHeader : WireHeader where
  metadata := [(ascii "general.alignment", .uint32 0)]
  tensors := []

def zeroAlignmentFile : FileBytes where
  bytes := zeroAlignmentHeader.write
  addressable := by decide +kernel

theorem zero_alignment_divides :
    ¬ ∀ (filename : String) (opened : Option FileBytes) (memoryView : Option Bytes),
      Safe (parse filename opened memoryView) := by
  intro safe
  have formed : zeroAlignmentHeader.WellFormed := by
    refine ⟨by decide, ?_, ?_, by decide, by simp [zeroAlignmentHeader]⟩
    · simp [zeroAlignmentHeader, ascii]
    · simp [zeroAlignmentHeader, WireValue.WellFormed]
  have zero : ZeroAlignment zeroAlignmentFile.bytes :=
    ⟨zeroAlignmentHeader, formed, List.prefix_rfl, by simp [WireHeader.declaredAlignment,
      zeroAlignmentHeader]⟩
  exact safe "zero.gguf" (some zeroAlignmentFile) none .divisionByZero
    (parse_traps "zero.gguf" none zeroAlignmentFile zero)

end GGUFParser.Checked

end MiniLLM
