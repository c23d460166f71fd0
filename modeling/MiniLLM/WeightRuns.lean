import MiniLLM.WeightLoading

/-!
`load_weights` and `load_shared_weights` over all values of a graph. A run
succeeds exactly when every value with a GGUF tensor passes the checks, so what
it loaded is sound exactly when passing the checks implies `Fits`.
-/

namespace MiniLLM

open ByteReader Loops

namespace WeightLoader

variable (product : Int8 → UInt32 → UInt32)

/-! The GGUF tensor a value is loaded from. -/

def weightOf (file : GGUFFile) (name : String) : Option GGUFTensorInfo :=
  (buildValueToGgufMap file name).bind (buildGgufTensorMap file)

theorem buildGgufTensorMap_listed (file : GGUFFile) (ti : GGUFTensorInfo)
    (listed : ti ∈ file.tensorInfos) : ∃ found, buildGgufTensorMap file ti.name = some found := by
  have rule : ∀ infos : List GGUFTensorInfo, ∀ map : Bytes → Option GGUFTensorInfo,
      (ti ∈ infos ∨ ∃ found, map ti.name = some found) →
      ∃ found, infos.foldl (fun map ti => assign map ti.name ti) map ti.name = some found := by
    intro infos
    induction infos with
    | nil => exact fun map present => present.elim (fun no => by simp at no) id
    | cons first rest ih =>
        intro map present
        apply ih
        by_cases same : ti.name = first.name
        · exact Or.inr ⟨first, by simp [assign, same]⟩
        · rcases present with member | found
          · rcases List.mem_cons.mp member with rfl | later
            · exact absurd rfl same
            · exact Or.inl later
          · exact Or.inr (by simpa [assign, same] using found)
  exact rule _ _ (Or.inl listed)

theorem foldNames_listed (infos : List GGUFTensorInfo) (map : String → Option Bytes) (name : String)
    (ggufName : Bytes)
    (found : infos.foldl (fun map ti =>
      match ggufNameToValueName ti.name with
      | .ok mapped => assign map mapped ti.name
      | .error _ => map) map name = some ggufName) :
    map name = some ggufName ∨ ∃ ti ∈ infos, ti.name = ggufName := by
  induction infos generalizing map with
  | nil => exact Or.inl found
  | cons first rest ih =>
      rcases ih _ found with early | ⟨ti, member, same⟩
      · dsimp only at early
        cases translated : ggufNameToValueName first.name with
        | error st =>
            rw [translated] at early
            exact Or.inl early
        | ok mapped =>
            rw [translated] at early
            by_cases same : name = mapped
            · refine Or.inr ⟨first, List.mem_cons_self, ?_⟩
              simpa [assign, same] using early
            · exact Or.inl (by simpa [assign, same] using early)
      · exact Or.inr ⟨ti, List.mem_cons_of_mem _ member, same⟩

theorem mapNames_listed (file : GGUFFile) (name : String) (ggufName : Bytes)
    (mapped : mapNames file name = some ggufName) :
    ∃ ti ∈ file.tensorInfos, ti.name = ggufName := by
  rcases foldNames_listed _ _ _ _ mapped with impossible | listed
  · cases impossible
  · exact listed

/-- The lookup `gguf_tensor_map.at` always finds its name. -/
theorem weightOf_mapped (file : GGUFFile) (name : String) (ggufName : Bytes)
    (mapped : buildValueToGgufMap file name = some ggufName) :
    ∃ ti, buildGgufTensorMap file ggufName = some ti := by
  have listed : ∀ other, mapNames file other = some ggufName →
      ∃ ti, buildGgufTensorMap file ggufName = some ti := by
    intro other found
    obtain ⟨ti, member, rfl⟩ := mapNames_listed file other ggufName found
    exact buildGgufTensorMap_listed file ti member
  unfold buildValueToGgufMap at mapped
  cases head : mapNames file "lm_head.weight" with
  | some own =>
      simp only [head] at mapped
      exact listed name mapped
  | none =>
      cases embedded : mapNames file "tok_embeddings.weight" with
      | none =>
          simp only [head, embedded] at mapped
          exact listed name mapped
      | some embedding =>
          simp only [head, embedded, assign] at mapped
          split at mapped
          · obtain rfl := Option.some.inj mapped
            exact listed _ embedded
          · exact listed name mapped

/-! `load_weights`. -/

/-- A destination allocated for the value's shape. -/
def AllocatedFor (shape : Shape) (tensor : ByteTensor) : Prop :=
  tensor.shape = shape ∧ tensor.allocatedBytes < 2 ^ 64 ∧
    ∃ m, shape.numel = .ok m ∧
      (tensor.dtype = .q8_0 ∧ tensor.allocatedBytes = (m + 31) / 32 * 34 ∨
        ∃ width, tensor.dtype.size = .ok width ∧ tensor.allocatedBytes = m * width % 2 ^ 64)

theorem size_cases {dtype : DType} {width : Nat} (sized : dtype.size = .ok width) :
    width = 1 ∨ width = 2 ∨ width = 4 ∨ width = 8 := by
  cases dtype <;> cases sized <;> simp

/-- A float for every element fills a destination allocated for the shape only at width 4. -/
theorem width_four (count width : Nat) (some : count ≠ 0) (bounded : count * 4 < 2 ^ 64)
    (widths : width = 1 ∨ width = 2 ∨ width = 4 ∨ width = 8) :
    count * 4 = count * width % 2 ^ 64 → width = 4 := by
  rcases widths with rfl | rfl | rfl | rfl
  · have small : count * 1 % 2 ^ 64 = count * 1 := Nat.mod_eq_of_lt (by omega)
    rw [small]
    omega
  · have small : count * 2 % 2 ^ 64 = count * 2 := Nat.mod_eq_of_lt (by omega)
    rw [small]
    omega
  · exact fun _ => rfl
  · omega

theorem packed_never (count allocated : Nat) (some : allocated ≠ 0)
    (filled : count * 4 = allocated) (size : allocated = (count + 31) / 32 * 34) : False := by
  omega

theorem AllocatedFor.width {ti : GGUFTensorInfo} {shape : Shape} {tensor : ByteTensor}
    (allocated : AllocatedFor shape tensor)
    (fits : Fits ti shape tensor.dtype tensor.allocatedBytes) (some : tensor.allocatedBytes ≠ 0)
    (converted : ¬ Native ti.dtype tensor.dtype) : tensor.dtype.size = .ok 4 := by
  obtain ⟨-, bounded, m, counted, storage⟩ := allocated
  obtain ⟨n, -, counted', total⟩ := fits
  obtain rfl : m = n := Except.ok.inj (counted.symm.trans counted')
  rw [loadedBytes, if_neg fun both => converted (Or.inl both),
    if_neg fun both => converted (Or.inr both)] at total
  rcases storage with ⟨packed, size⟩ | ⟨width, sized, size⟩
  · exact (packed_never m _ some total size).elim
  · rw [sized, width_four m width (by omega) (by omega) (size_cases sized) (total.trans size)]

structure Destinations {Num : Type} (graph : Graph Num) where
  bindings : Bindings
  allocated : ∀ v id tensor, (v, id) ∈ graph.values.zipIdx → v.kind = .constant →
    bindings id = some tensor → AllocatedFor v.shape tensor

section Runs

variable {Num : Type} (path : String) (disk : GGUFParser.Disk) (file : GGUFFile)
  (graph : Graph Num)

/-- The round of a value that has a GGUF tensor, and of one that has none. -/
theorem loadValue_weight (v : Value) (id : Nat) (ctx : Bindings) (ti : GGUFTensorInfo)
    (constant : v.kind = .constant) (weight : weightOf file v.name = some ti) :
    loadValue product path disk file (v, id) ctx =
      match ctx id with
      | none => (some (.runtimeError
          ("tensor not found in RuntimeContext for value: " ++ v.name)), ctx)
      | some tensor =>
          match loadTensorFromGguf product path disk file ti tensor with
          | .error st => (some st, ctx)
          | .ok loaded => (none, assign ctx id loaded) := by
  obtain ⟨ggufName, mapped, found⟩ := Option.bind_eq_some_iff.mp weight
  cases bound : ctx id with
  | none => simp [loadValue, constant, mapped, found, bound]
  | some tensor =>
      cases loaded : loadTensorFromGguf product path disk file ti tensor <;>
        simp [loadValue, constant, mapped, found, bound, loaded]

theorem loadValue_other (v : Value) (id : Nat) (ctx : Bindings)
    (other : ∀ ti, v.kind = .constant → weightOf file v.name ≠ some ti) :
    loadValue product path disk file (v, id) ctx = (none, ctx) := by
  unfold loadValue
  by_cases constant : v.kind = .constant
  · rw [if_neg (by simpa using constant)]
    cases mapped : buildValueToGgufMap file v.name with
    | none => rfl
    | some ggufName =>
        obtain ⟨ti, found⟩ := weightOf_mapped file v.name ggufName mapped
        exact absurd (by simp [weightOf, mapped, found]) (other ti constant)
  · rw [if_pos constant]

/-- After the rounds of `done`, from the bindings `start`. -/
def Loaded (start : Bindings) (done : List (Value × Nat)) (ctx : Bindings) : Prop :=
  (∀ id, id ∉ done.map Prod.snd → ctx id = start id) ∧
    ∀ v id ti, (v, id) ∈ done → v.kind = .constant → weightOf file v.name = some ti →
      ∃ tensor after, start id = some tensor ∧
        loadTensorFromGguf product path disk file ti tensor = .ok after ∧ ctx id = some after

theorem loadWeights_loaded (start : Bindings) :
    ((loadWeights product path disk file graph start).1 = none ↔
        ∀ v id ti, (v, id) ∈ graph.values.zipIdx → v.kind = .constant →
          weightOf file v.name = some ti → ∃ tensor, start id = some tensor ∧
            Passes path disk file ti tensor.dtype tensor.device tensor.allocatedBytes) ∧
      ((loadWeights product path disk file graph start).1 = none →
        Loaded product path disk file start graph.values.zipIdx
          (loadWeights product path disk file graph start).2) := by
  have distinct : (graph.values.zipIdx.map Prod.snd).Nodup := by
    rw [List.zipIdx_map_snd]
    exact List.nodup_range'
  have run := tryList_ok_iff (Loaded product path disk file start)
    (fun _ item => ∀ ti, item.1.kind = .constant → weightOf file item.1.name = some ti →
      ∃ tensor, start item.2 = some tensor ∧
        Passes path disk file ti tensor.dtype tensor.device tensor.allocatedBytes)
    (loadValue product path disk file) graph.values.zipIdx start
    ⟨fun _ _ => rfl, fun v id ti no => by simp at no⟩ ?_
  · refine ⟨run.1.trans ⟨fun all v id ti member constant weight => ?_,
      fun all first item rest split ti constant weight => ?_⟩, run.2⟩
    · obtain ⟨first, rest, split⟩ := List.append_of_mem member
      exact all first (v, id) rest split ti constant weight
    · exact all item.1 item.2 ti (by rw [split]; simp) constant weight
  · rintro first ⟨v, id⟩ rest ctx split ⟨untouched, loaded⟩
    have fresh : id ∉ first.map Prod.snd := by
      rw [split, List.map_append, List.map_cons] at distinct
      intro earlier
      exact (List.nodup_append.mp distinct).2.2 id earlier id (by simp) rfl
    by_cases weighty : ∃ ti, v.kind = .constant ∧ weightOf file v.name = some ti
    · obtain ⟨ti, constant, weight⟩ := weighty
      have only : ∀ other, weightOf file v.name = some other → other = ti :=
        fun other found => Option.some.inj (found.symm.trans weight)
      rw [loadValue_weight product path disk file v id ctx ti constant weight,
        untouched id fresh]
      cases bound : start id with
      | none =>
          refine ⟨⟨fun failed => by simp at failed, fun accepted => ?_⟩, fun failed => by simp at failed⟩
          obtain ⟨tensor, found, -⟩ := accepted ti constant weight
          cases found
      | some tensor =>
          have iff : (∃ after, loadTensorFromGguf product path disk file ti tensor = .ok after) ↔ _ :=
            loadTensorFromGguf_iff product
          dsimp only
          cases result : loadTensorFromGguf product path disk file ti tensor with
          | error st =>
              refine ⟨⟨fun failed => by simp at failed, fun accepted => ?_⟩,
                fun failed => by simp at failed⟩
              obtain ⟨other, found, passes⟩ := accepted ti constant weight
              obtain rfl := Option.some.inj found
              obtain ⟨after, done⟩ := iff.mpr passes
              rw [result] at done
              cases done
          | ok after =>
              refine ⟨⟨fun _ other _ found => ?_, fun _ => rfl⟩, fun _ => ⟨?_, ?_⟩⟩
              · obtain rfl := only other found
                exact ⟨tensor, rfl, iff.mp ⟨after, result⟩⟩
              · intro other absent
                rw [List.map_append, List.mem_append, not_or] at absent
                have different : other ≠ id := by simpa using absent.2
                simpa [assign, different] using untouched other absent.1
              · intro w other ti' member constant' weight'
                rcases List.mem_append.mp member with earlier | last
                · have different : other ≠ id := by
                    rintro rfl
                    exact fresh (List.mem_map_of_mem earlier)
                  simpa [assign, different] using loaded w other ti' earlier constant' weight'
                · obtain ⟨rfl, rfl⟩ := Prod.mk.inj (List.mem_singleton.mp last)
                  obtain rfl := only ti' weight'
                  exact ⟨tensor, after, bound, result, by simp [assign]⟩
    · have other : ∀ ti, v.kind = .constant → weightOf file v.name ≠ some ti :=
        fun ti constant weight => weighty ⟨ti, constant, weight⟩
      rw [loadValue_other product path disk file v id ctx other]
      refine ⟨⟨fun _ ti constant weight => absurd weight (other ti constant), fun _ => rfl⟩,
        fun _ => ⟨fun key absent => untouched key ?_, ?_⟩⟩
      · rw [List.map_append, List.mem_append, not_or] at absent
        exact absent.1
      · intro w key ti' member constant' weight'
        rcases List.mem_append.mp member with earlier | last
        · exact loaded w key ti' earlier constant' weight'
        · obtain ⟨rfl, rfl⟩ := Prod.mk.inj (List.mem_singleton.mp last)
          exact absurd weight' (other ti' constant')

/-- Every value that a successful `load_weights` loaded is sound. -/
def LoadSound (start : Destinations graph) : Prop :=
  ∀ after, loadWeights product path disk file graph start.bindings = (none, after) →
    ∀ v id ti, (v, id) ∈ graph.values.zipIdx → v.kind = .constant →
      weightOf file v.name = some ti →
      ∃ raw tensor, tensorRawView path disk file ti = .ok raw ∧ after id = some tensor ∧
        Sound product ti raw v.shape tensor

/-- When every weight passes the loader's checks, every weight fits its destination. -/
def LoadCondition (start : Destinations graph) : Prop :=
  (∀ v id ti, (v, id) ∈ graph.values.zipIdx → v.kind = .constant →
      weightOf file v.name = some ti → ∃ tensor, start.bindings id = some tensor ∧
        Passes path disk file ti tensor.dtype tensor.device tensor.allocatedBytes) →
    ∀ v id ti tensor, (v, id) ∈ graph.values.zipIdx → v.kind = .constant →
      weightOf file v.name = some ti → start.bindings id = some tensor →
      Fits ti v.shape tensor.dtype tensor.allocatedBytes

theorem loadTensorFromGguf_storage {ti : GGUFTensorInfo} {tensor after : ByteTensor}
    (loaded : loadTensorFromGguf product path disk file ti tensor = .ok after) :
    after.shape = tensor.shape ∧ after.dtype = tensor.dtype ∧ after.device = tensor.device ∧
      after.allocatedBytes = tensor.allocatedBytes := by
  obtain ⟨allocated, onCpu, raw, viewed, room⟩ :=
    (loadTensorFromGguf_iff product).mp ⟨after, loaded⟩
  obtain ⟨n, counted, -⟩ :=
    bytes_ok ti raw.length (tensorRawView_length path disk file ti raw viewed)
  by_cases native : Native ti.dtype tensor.dtype
  · rw [(loadTensorFromGguf_native product allocated onCpu viewed native).1 (room native)] at loaded
    obtain rfl := Except.ok.inj loaded
    exact ⟨rfl, rfl, rfl, rfl⟩
  · rw [loadTensorFromGguf_converted product allocated onCpu viewed counted native] at loaded
    cases done : dequantizeToF32 product ti.dtype raw ⟨tensor.data, 0⟩ n with
    | error st =>
        rw [done] at loaded
        cases loaded
    | ok dst =>
        rw [done] at loaded
        obtain rfl := Except.ok.inj loaded
        exact ⟨rfl, rfl, rfl, rfl⟩

theorem loadSound_iff (start : Destinations graph) :
    LoadSound product path disk file graph start ↔
      LoadCondition path disk file graph start := by
  obtain ⟨success, loaded⟩ := loadWeights_loaded product path disk file graph start.bindings
  constructor
  · intro sound passes v id ti tensor member constant weight bound
    have finished := success.mpr passes
    obtain ⟨raw, after, viewed, stored, right⟩ :=
      sound _ (Prod.ext finished rfl) v id ti member constant weight
    obtain ⟨before, result, found, done, kept⟩ := (loaded finished).2 v id ti member constant weight
    obtain rfl := Option.some.inj (bound.symm.trans found)
    obtain rfl := Option.some.inj (stored.symm.trans kept)
    obtain ⟨-, dtype, -, size⟩ := loadTensorFromGguf_storage product path disk file done
    rw [← dtype, ← size]
    exact right.fits
  · intro condition after finished v id ti member constant weight
    have ok := congrArg Prod.fst finished
    have passes := success.mp ok
    have final := loaded ok
    rw [finished] at final
    obtain ⟨before, result, found, done, kept⟩ := final.2 v id ti member constant weight
    have allocated := start.allocated v id before member constant found
    have fits := condition passes v id ti before member constant weight found
    have some := ((loadTensorFromGguf_iff product).mp ⟨result, done⟩).1
    obtain ⟨raw, viewed, sound⟩ := loadTensorFromGguf_sound product done fits allocated.2.1
      (allocated.width fits some)
    exact ⟨raw, result, viewed, kept, sound⟩

/-! `load_shared_weights`. -/

/-- The bytes a shared weight is given. -/
def sharedBytes (shape : Shape) (ti : GGUFTensorInfo) : Except Status Nat :=
  if ti.dtype = .Q8_0 then ti.bytes
  else do
    let n ← shape.numel
    let width ← (ggmlToDtype ti.dtype).size
    .ok (n * width % 2 ^ 64)

theorem ggmlToDtype_native (source : GgmlDataType) :
    Native source (ggmlToDtype source) ∧ (ggmlToDtype source = .q8_0 ↔ source = .Q8_0) ∨
      ¬ Native source (ggmlToDtype source) ∧ source ≠ .Q8_0 ∧ ggmlToDtype source = .float32 := by
  by_cases float : source = .F32
  · subst float
    right
    decide
  by_cases half : source = .F16
  · subst half
    right
    decide
  by_cases brain : source = .BF16
  · subst brain
    left
    decide
  by_cases packed : source = .Q8_0
  · subst packed
    left
    decide
  right
  have dtype : ggmlToDtype source = .float32 := by simp [ggmlToDtype, float, half, brain, packed]
  refine ⟨?_, packed, dtype⟩
  rintro (⟨same, -⟩ | ⟨same, -⟩)
  · exact packed same
  · exact brain same

/-- A shared weight of shape `shape` before its load. -/
def sharedDestination (name : String) (shape : Shape) (ti : GGUFTensorInfo) (allocated : Nat) :
    ByteTensor :=
  { name := name, shape := shape, dtype := ggmlToDtype ti.dtype, device := {},
    allocatedBytes := allocated }

theorem allocateCuda_fails (tensor : ByteTensor) : ∃ st, tensor.allocateCuda = .error st := by
  unfold ByteTensor.allocateCuda
  split
  · exact ⟨_, rfl⟩
  · cases tensor.nbytes with
    | error st => exact ⟨st, rfl⟩
    | ok size => exact ⟨_, rfl⟩

theorem sharedTensor_cuda (v : Value) (ti : GGUFTensorInfo) (onCuda : v.device.type = .cuda) :
    ∃ st, sharedTensor v ti = .error st := by
  unfold sharedTensor
  dsimp only
  rw [if_pos onCuda]
  generalize (if v.device.type = .cuda ∧ ggmlToDtype ti.dtype ≠ .bfloat16 ∧
    ggmlToDtype ti.dtype ≠ .q8_0 then DType.float32 else ggmlToDtype ti.dtype) = dtype
  by_cases packed : dtype = .q8_0
  · rw [if_pos packed]
    cases ti.bytes with
    | error st => exact ⟨st, rfl⟩
    | ok size => exact ⟨_, rfl⟩
  · rw [if_neg packed]
    exact allocateCuda_fails _

theorem sharedTensor_ok (v : Value) (ti : GGUFTensorInfo) (tensor : ByteTensor) :
    sharedTensor v ti = .ok tensor ↔ v.device.type ≠ .cuda ∧
      ∃ allocated, sharedBytes v.shape ti = .ok allocated ∧
        tensor = sharedDestination v.name v.shape ti allocated := by
  have packed : ggmlToDtype ti.dtype = .q8_0 ↔ ti.dtype = .Q8_0 := by
    rcases ggmlToDtype_native ti.dtype with ⟨-, iff⟩ | ⟨-, other, float⟩
    · exact iff
    · simp [other, float]
  by_cases onCuda : v.device.type = .cuda
  · refine ⟨fun made => ?_, fun made => absurd onCuda made.1⟩
    obtain ⟨st, failed⟩ := sharedTensor_cuda v ti onCuda
    rw [failed] at made
    cases made
  · have plain : ¬ (v.device.type = .cuda ∧ ggmlToDtype ti.dtype ≠ .bfloat16 ∧
        ggmlToDtype ti.dtype ≠ .q8_0) := fun both => onCuda both.1
    unfold sharedTensor sharedBytes
    rw [if_neg onCuda]
    simp only [if_neg plain, packed]
    by_cases native : ti.dtype = .Q8_0
    · rw [if_pos native, if_pos native]
      cases sized : ti.bytes with
      | error st => simp [bind, Except.bind]
      | ok size =>
          simp only [bind, Except.bind, Except.ok.injEq, exists_eq_left', ne_eq, onCuda,
            not_false_eq_true, true_and]
          exact eq_comm
    · rw [if_neg native, if_neg native]
      unfold ByteTensor.allocateCpu ByteTensor.nbytes
      by_cases dynamic : v.shape.hasDynamicDim
      · rw [if_pos dynamic]
        simp [Shape.numel, dynamic, bind, Except.bind]
      · rw [if_neg dynamic]
        dsimp only
        cases counted : v.shape.numel with
        | error st => simp [bind, Except.bind]
        | ok n =>
            cases sized : (ggmlToDtype ti.dtype).size with
            | error st => simp [bind, Except.bind]
            | ok width =>
                simp only [bind, Except.bind, Except.ok.injEq, exists_eq_left', ne_eq, onCuda,
                  not_false_eq_true, true_and]
                exact eq_comm

def SharedPasses (v : Value) (ti : GGUFTensorInfo) : Prop :=
  v.device.type ≠ .cuda ∧ ∃ allocated, sharedBytes v.shape ti = .ok allocated ∧
    Passes path disk file ti (ggmlToDtype ti.dtype) {} allocated

theorem loadShared_ok (v : Value) (ti : GGUFTensorInfo) (after : ByteTensor) :
    loadShared product path disk file v ti = .ok after ↔ v.device.type ≠ .cuda ∧
      ∃ allocated, sharedBytes v.shape ti = .ok allocated ∧
        loadTensorFromGguf product path disk file ti
          (sharedDestination v.name v.shape ti allocated) = .ok after := by
  have made := sharedTensor_ok v ti
  unfold loadShared
  cases allocated : sharedTensor v ti with
  | error st =>
      simp only [bind, Except.bind]
      constructor
      · intro failed
        cases failed
      · rintro ⟨onCpu, size, sized, -⟩
        have impossible := (made _).mpr ⟨onCpu, size, sized, rfl⟩
        rw [allocated] at impossible
        cases impossible
  | ok tensor =>
      obtain ⟨onCpu, size, sized, rfl⟩ := (made tensor).mp allocated
      simp only [bind, Except.bind]
      constructor
      · exact fun loaded => ⟨onCpu, size, sized, loaded⟩
      · rintro ⟨-, other, same, loaded⟩
        obtain rfl := Except.ok.inj (sized.symm.trans same)
        exact loaded

theorem loadShared_ok_iff (v : Value) (ti : GGUFTensorInfo) :
    (∃ after, loadShared product path disk file v ti = .ok after) ↔
      SharedPasses path disk file v ti := by
  constructor
  · rintro ⟨after, loaded⟩
    obtain ⟨onCpu, size, sized, done⟩ := (loadShared_ok product path disk file v ti after).mp loaded
    exact ⟨onCpu, size, sized, (loadTensorFromGguf_iff product).mp ⟨after, done⟩⟩
  · rintro ⟨onCpu, size, sized, passes⟩
    obtain ⟨after, done⟩ : ∃ after, loadTensorFromGguf product path disk file ti
        (sharedDestination v.name v.shape ti size) = .ok after :=
      (loadTensorFromGguf_iff product).mpr passes
    exact ⟨after, (loadShared_ok product path disk file v ti after).mpr
      ⟨onCpu, size, sized, done⟩⟩

/-- A later value may use the tensor that `first` was loaded into. -/
def Compatible (first v : Value) (ti : GGUFTensorInfo) : Prop :=
  first.shape = v.shape ∧ (ggmlToDtype ti.dtype = v.dtype ∨
    (ggmlToDtype ti.dtype = .bfloat16 ∧ v.dtype = .float32) ∨
    (ggmlToDtype ti.dtype = .q8_0 ∧ v.dtype = .float32)) ∧ v.device = {}

theorem checkCompatibleWeight_iff (tensor : ByteTensor) (first v : Value) (ti : GGUFTensorInfo)
    (loaded : loadShared product path disk file first ti = .ok tensor) :
    checkCompatibleWeight tensor v = none ↔ Compatible first v ti := by
  obtain ⟨-, size, -, done⟩ := (loadShared_ok product path disk file first ti tensor).mp loaded
  obtain ⟨shape, dtype, device, -⟩ := loadTensorFromGguf_storage product path disk file done
  have read : checkCompatibleWeight tensor v = none ↔
      tensor.shape = v.shape ∧ (tensor.dtype = v.dtype ∨
        (tensor.dtype = .bfloat16 ∧ v.dtype = .float32) ∨
        (tensor.dtype = .q8_0 ∧ v.dtype = .float32)) ∧ tensor.device = v.device := by
    unfold checkCompatibleWeight
    split
    · rename_i differs
      exact ⟨fun failed => (by cases failed), fun right => absurd right.1 differs⟩
    · rename_i same
      split
      · rename_i wrong
        exact ⟨fun failed => (by cases failed), fun right => absurd right.2.1 wrong⟩
      · rename_i right
        split
        · rename_i elsewhere
          exact ⟨fun failed => (by cases failed), fun right => absurd right.2.2 elsewhere⟩
        · rename_i here
          exact ⟨fun _ => ⟨not_not.mp same, not_not.mp right, not_not.mp here⟩, fun _ => rfl⟩
  rw [read, shape, dtype, device, Compatible, sharedDestination, @eq_comm _ v.device]

/-- The first constant among `done` that is loaded from `ggufName`. -/
def firstUse (done : List Value) (ggufName : Bytes) : Option Value :=
  done.find? fun v => v.kind = .constant ∧ buildValueToGgufMap file v.name = some ggufName

/-- The first value of a GGUF tensor is loaded; a later one only has to be compatible with it. -/
def Accepts (done : List Value) (v : Value) : Prop :=
  ∀ ggufName ti, v.kind = .constant → buildValueToGgufMap file v.name = some ggufName →
    buildGgufTensorMap file ggufName = some ti →
    (firstUse file done ggufName = none → SharedPasses path disk file v ti) ∧
      ∀ first, firstUse file done ggufName = some first → Compatible first v ti

structure Shared (done : List Value) (weights : SharedWeightStore) : Prop where
  unused : ∀ ggufName, firstUse file done ggufName = none →
    weights.storageByGgufName ggufName = none
  used : ∀ ggufName first, firstUse file done ggufName = some first →
    ∃ ti tensor, buildGgufTensorMap file ggufName = some ti ∧
      loadShared product path disk file first ti = .ok tensor ∧
      weights.storageByGgufName ggufName = some tensor
  aliased : ∀ v ∈ done, v.kind = .constant → ∀ ggufName,
    buildValueToGgufMap file v.name = some ggufName →
    weights.aliasesByValueName v.name = some ggufName ∧
      ∃ first, firstUse file done ggufName = some first ∧ first.shape = v.shape

theorem firstUse_snoc (done : List Value) (v : Value) (ggufName : Bytes) :
    firstUse file (done ++ [v]) ggufName =
      (firstUse file done ggufName).or
        (if v.kind = .constant ∧ buildValueToGgufMap file v.name = some ggufName then some v
         else none) := by
  rw [firstUse, List.find?_append, List.find?_singleton, firstUse]
  simp only [decide_eq_true_eq]

theorem firstUse_keeps (done : List Value) (v : Value) (ggufName : Bytes) (first : Value)
    (found : firstUse file done ggufName = some first) :
    firstUse file (done ++ [v]) ggufName = some first := by
  rw [firstUse_snoc, found]
  rfl

/-- A value without a GGUF tensor leaves the store alone. -/
theorem Shared.skip {done : List Value} {weights : SharedWeightStore} {v : Value}
    (shared : Shared product path disk file done weights)
    (other : ∀ ggufName, ¬ (v.kind = .constant ∧
      buildValueToGgufMap file v.name = some ggufName)) :
    Shared product path disk file (done ++ [v]) weights := by
  have same : ∀ ggufName, firstUse file (done ++ [v]) ggufName = firstUse file done ggufName := by
    intro ggufName
    rw [firstUse_snoc, if_neg (other ggufName), Option.or_none]
  refine ⟨fun ggufName none => shared.unused ggufName (same ggufName ▸ none),
    fun ggufName first found => shared.used ggufName first (same ggufName ▸ found), ?_⟩
  intro w member constant ggufName mapped
  rcases List.mem_append.mp member with earlier | last
  · obtain ⟨named', first, found, shape⟩ := shared.aliased w earlier constant ggufName mapped
    exact ⟨named', first, (same ggufName).trans found, shape⟩
  · obtain rfl := List.mem_singleton.mp last
    exact absurd ⟨constant, mapped⟩ (other ggufName)

/-- An alias of a tensor that is already stored. -/
theorem Shared.aliasTo {done : List Value} {weights : SharedWeightStore} {v first : Value}
    {ggufName : Bytes} (shared : Shared product path disk file done weights)
    (mapped : buildValueToGgufMap file v.name = some ggufName)
    (found : firstUse file done ggufName = some first) (shape : first.shape = v.shape) :
    Shared product path disk file (done ++ [v])
      { weights with aliasesByValueName := assign weights.aliasesByValueName v.name ggufName } := by
  have same : ∀ other, firstUse file (done ++ [v]) other = firstUse file done other := by
    intro other
    rw [firstUse_snoc]
    by_cases this : ggufName = other
    · rw [← this, found]
      rfl
    · rw [if_neg (by rw [mapped]; simp [this]), Option.or_none]
  refine ⟨fun other none => shared.unused other (same other ▸ none),
    fun other w used => shared.used other w (same other ▸ used), ?_⟩
  intro w member constant other mapped'
  rcases List.mem_append.mp member with earlier | last
  · obtain ⟨named', w', used, shape'⟩ := shared.aliased w earlier constant other mapped'
    refine ⟨?_, w', (same other).trans used, shape'⟩
    by_cases named : w.name = v.name
    · rw [named, mapped] at mapped'
      simp [assign, named, Option.some.inj mapped']
    · simpa [assign, named] using named'
  · obtain rfl := List.mem_singleton.mp last
    obtain rfl := Option.some.inj (mapped.symm.trans mapped')
    exact ⟨by simp [assign], first, (same ggufName).trans found, shape⟩

/-- A tensor that is loaded and stored. -/
theorem Shared.store {done : List Value} {weights : SharedWeightStore} {v : Value}
    {ggufName : Bytes} {ti : GGUFTensorInfo} {tensor : ByteTensor}
    (shared : Shared product path disk file done weights) (constant : v.kind = .constant)
    (mapped : buildValueToGgufMap file v.name = some ggufName)
    (found : buildGgufTensorMap file ggufName = some ti)
    (fresh : firstUse file done ggufName = none)
    (loaded : loadShared product path disk file v ti = .ok tensor) (total : Nat) :
    Shared product path disk file (done ++ [v])
      { storageByGgufName := assign weights.storageByGgufName ggufName tensor
        aliasesByValueName := assign weights.aliasesByValueName v.name ggufName
        totalBytes := total } := by
  have here : firstUse file (done ++ [v]) ggufName = some v := by
    rw [firstUse_snoc, fresh, if_pos ⟨constant, mapped⟩]
    rfl
  have elsewhere : ∀ other, other ≠ ggufName →
      firstUse file (done ++ [v]) other = firstUse file done other := by
    intro other different
    rw [firstUse_snoc, if_neg (by rw [mapped]; simp [Ne.symm different]), Option.or_none]
  refine ⟨?_, ?_, ?_⟩
  · intro other none
    by_cases this : other = ggufName
    · rw [this, here] at none
      cases none
    · rw [elsewhere other this] at none
      simpa [assign, this] using shared.unused other none
  · intro other first used
    by_cases this : other = ggufName
    · subst this
      obtain rfl := Option.some.inj (here.symm.trans used)
      exact ⟨ti, tensor, found, loaded, by simp [assign]⟩
    · rw [elsewhere other this] at used
      simpa [assign, this] using shared.used other first used
  · intro w member constant' other mapped'
    rcases List.mem_append.mp member with earlier | last
    · obtain ⟨named', w', used, shape⟩ := shared.aliased w earlier constant' other mapped'
      refine ⟨?_, w', firstUse_keeps file done v other w' used, shape⟩
      by_cases named : w.name = v.name
      · rw [named, mapped] at mapped'
        simp [assign, named, Option.some.inj mapped']
      · simpa [assign, named] using named'
    · obtain rfl := List.mem_singleton.mp last
      obtain rfl := Option.some.inj (mapped.symm.trans mapped')
      exact ⟨by simp [assign], w, here, rfl⟩

theorem shareValue_step (done : List Value) (v : Value) (weights : SharedWeightStore)
    (shared : Shared product path disk file done weights) :
    ((shareValue product path disk file v weights).1 = none ↔ Accepts path disk file done v) ∧
      ((shareValue product path disk file v weights).1 = none →
        Shared product path disk file (done ++ [v])
          (shareValue product path disk file v weights).2) := by
  unfold shareValue
  by_cases constant : v.kind = .constant
  swap
  · rw [if_pos constant]
    exact ⟨⟨fun _ _ _ yes => absurd yes constant, fun _ => rfl⟩,
      fun _ => shared.skip product path disk file fun _ both => constant both.1⟩
  rw [if_neg (not_not.mpr constant)]
  cases mapped : buildValueToGgufMap file v.name with
  | none =>
      refine ⟨⟨fun _ ggufName ti _ yes => ?_, fun _ => rfl⟩,
        fun _ => shared.skip product path disk file fun ggufName both => ?_⟩
      · rw [mapped] at yes
        cases yes
      · rw [mapped] at both
        cases both.2
  | some ggufName =>
      obtain ⟨ti, found⟩ := weightOf_mapped file v.name ggufName mapped
      dsimp only
      rw [found]
      dsimp only
      have only : ∀ other ti', buildValueToGgufMap file v.name = some other →
          buildGgufTensorMap file other = some ti' → other = ggufName ∧ ti' = ti := by
        intro other ti' mapped' found'
        obtain rfl := Option.some.inj (mapped.symm.trans mapped')
        exact ⟨rfl, Option.some.inj (found'.symm.trans found)⟩
      cases use : firstUse file done ggufName with
      | none =>
          rw [shared.unused ggufName use]
          dsimp only
          have iff := loadShared_ok_iff product path disk file v ti
          cases result : loadShared product path disk file v ti with
          | error st =>
              refine ⟨⟨fun failed => by simp at failed, fun accepted => ?_⟩,
                fun failed => by simp at failed⟩
              obtain ⟨tensor, loaded⟩ := iff.mpr ((accepted ggufName ti constant mapped found).1 use)
              rw [result] at loaded
              cases loaded
          | ok tensor =>
              refine ⟨⟨fun _ other ti' _ mapped' found' => ?_, fun _ => rfl⟩,
                fun _ => shared.store product path disk file constant mapped found use result _⟩
              obtain ⟨rfl, rfl⟩ := only other ti' mapped' found'
              refine ⟨fun _ => iff.mp ⟨tensor, result⟩, fun first yes => ?_⟩
              rw [use] at yes
              cases yes
      | some first =>
          obtain ⟨ti', tensor, found', loaded, stored⟩ := shared.used ggufName first use
          obtain rfl := Option.some.inj (found.symm.trans found')
          rw [stored]
          dsimp only
          have iff := checkCompatibleWeight_iff product path disk file tensor first v ti loaded
          cases checked : checkCompatibleWeight tensor v with
          | some st =>
              refine ⟨⟨fun failed => by simp at failed, fun accepted => ?_⟩,
                fun failed => by simp at failed⟩
              have right := iff.mpr ((accepted ggufName ti constant mapped found).2 first use)
              rw [checked] at right
              cases right
          | none =>
              have compatible := iff.mp checked
              refine ⟨⟨fun _ other ti' _ mapped' found' => ?_, fun _ => rfl⟩,
                fun _ => shared.aliasTo product path disk file mapped use compatible.1⟩
              obtain ⟨rfl, rfl⟩ := only other ti' mapped' found'
              refine ⟨fun none => ?_, fun w yes => ?_⟩
              · rw [use] at none
                cases none
              · obtain rfl := Option.some.inj (use.symm.trans yes)
                exact compatible

/-- Every value of a successful `load_shared_weights` is sound in the tensor it is given. -/
def SharedSound : Prop :=
  ∀ weights, loadSharedWeights product path disk file graph = .ok weights →
    ∀ v ti, v ∈ graph.values → v.kind = .constant → weightOf file v.name = some ti →
      ∃ raw ggufName tensor, tensorRawView path disk file ti = .ok raw ∧
        weights.aliasesByValueName v.name = some ggufName ∧
        weights.storageByGgufName ggufName = some tensor ∧ Sound product ti raw v.shape tensor

def SharedCondition : Prop :=
  (∀ done v rest, graph.values = done ++ v :: rest → Accepts path disk file done v) →
    ∀ v ti allocated, v ∈ graph.values → v.kind = .constant → weightOf file v.name = some ti →
      sharedBytes v.shape ti = .ok allocated →
      Fits ti v.shape (ggmlToDtype ti.dtype) allocated

theorem loadSharedWeights_shared :
    (∀ weights, loadSharedWeights product path disk file graph = .ok weights →
        Shared product path disk file graph.values weights) ∧
      ((∃ weights, loadSharedWeights product path disk file graph = .ok weights) ↔
        ∀ done v rest, graph.values = done ++ v :: rest → Accepts path disk file done v) := by
  have run := tryList_ok_iff (Shared product path disk file) (Accepts path disk file)
    (shareValue product path disk file) graph.values {}
    ⟨fun _ _ => rfl, fun _ _ no => (by cases no), fun v no => by simp at no⟩
    fun done v rest weights _ shared => shareValue_step product path disk file done v weights shared
  unfold loadSharedWeights
  generalize tryList (shareValue product path disk file) graph.values {} = result at run
  obtain ⟨err, final⟩ := result
  cases err with
  | some st =>
      refine ⟨fun weights failed => (by cases failed), ⟨fun ⟨weights, failed⟩ => (by cases failed), ?_⟩⟩
      intro accepted
      have impossible := run.1.mpr accepted
      cases impossible
  | none =>
      refine ⟨fun weights done => ?_, fun _ => run.1.mp rfl, fun _ => ⟨final, rfl⟩⟩
      obtain rfl := Except.ok.inj done
      exact run.2 rfl

theorem sharedBytes_bounded (shape : Shape) (ti : GGUFTensorInfo) (allocated : Nat)
    (sized : sharedBytes shape ti = .ok allocated) : allocated < 2 ^ 64 := by
  unfold sharedBytes at sized
  split at sized
  · obtain ⟨n, -, -, bound, -⟩ := bytes_ok ti allocated sized
    exact bound
  · cases counted : shape.numel with
    | error st =>
        rw [counted] at sized
        cases sized
    | ok n =>
        cases known : (ggmlToDtype ti.dtype).size with
        | error st =>
            rw [counted, known] at sized
            cases sized
        | ok width =>
            rw [counted, known] at sized
            obtain rfl := Except.ok.inj sized
            exact Nat.mod_lt _ (by decide)

theorem sharedSound_iff :
    SharedSound product path disk file graph ↔ SharedCondition path disk file graph := by
  obtain ⟨stored, success⟩ := loadSharedWeights_shared product path disk file graph
  -- the tensor of a value: the one its first use was loaded into, of the value's own shape
  have given : ∀ weights, loadSharedWeights product path disk file graph = .ok weights →
      ∀ v ti, v ∈ graph.values → v.kind = .constant → weightOf file v.name = some ti →
      ∃ ggufName first tensor before allocated,
        weights.aliasesByValueName v.name = some ggufName ∧
        weights.storageByGgufName ggufName = some tensor ∧
        sharedBytes v.shape ti = .ok allocated ∧
        before = sharedDestination first v.shape ti allocated ∧
        loadTensorFromGguf product path disk file ti before = .ok tensor := by
    intro weights loaded v ti member constant weight
    obtain ⟨ggufName, mapped, found⟩ := Option.bind_eq_some_iff.mp weight
    obtain ⟨named, first, used, shape⟩ :=
      (stored weights loaded).aliased v member constant ggufName mapped
    obtain ⟨ti', tensor, found', done, kept⟩ := (stored weights loaded).used ggufName first used
    obtain rfl := Option.some.inj (found.symm.trans found')
    obtain ⟨-, allocated, sized, finished⟩ :=
      (loadShared_ok product path disk file first ti tensor).mp done
    rw [shape] at sized finished
    exact ⟨ggufName, first.name, tensor, _, allocated, named, kept, sized, rfl, finished⟩
  constructor
  · intro sound accepted v ti allocated member constant weight sized
    obtain ⟨weights, loaded⟩ := success.mpr accepted
    obtain ⟨raw, ggufName, tensor, -, named, kept, right⟩ :=
      sound weights loaded v ti member constant weight
    obtain ⟨ggufName', first, tensor', before, allocated', named', kept', sized', rfl, done⟩ :=
      given weights loaded v ti member constant weight
    obtain rfl := Option.some.inj (named.symm.trans named')
    obtain rfl := Option.some.inj (kept.symm.trans kept')
    obtain rfl := Except.ok.inj (sized.symm.trans sized')
    obtain ⟨-, dtype, -, size⟩ := loadTensorFromGguf_storage product path disk file done
    have fits := right.fits
    rw [dtype, size] at fits
    exact fits
  · intro condition weights loaded v ti member constant weight
    have accepted := success.mp ⟨weights, loaded⟩
    obtain ⟨ggufName, first, tensor, before, allocated, named, kept, sized, rfl, done⟩ :=
      given weights loaded v ti member constant weight
    have fits := condition accepted v ti allocated member constant weight sized
    have width : ¬ Native ti.dtype (ggmlToDtype ti.dtype) →
        (ggmlToDtype ti.dtype).size = .ok 4 := by
      intro converted
      rcases ggmlToDtype_native ti.dtype with ⟨native, -⟩ | ⟨-, -, float⟩
      · exact absurd native converted
      · rw [float]
        rfl
    obtain ⟨raw, viewed, right⟩ := loadTensorFromGguf_sound product done fits
      (sharedBytes_bounded v.shape ti allocated sized) width
    exact ⟨raw, ggufName, tensor, viewed, named, kept, right⟩

/-- A load is sound exactly when the checks that it passes leave only tensors that fit. -/
theorem weight_load_soundness :
    (∀ start : Destinations graph, LoadSound product path disk file graph start ↔
        LoadCondition path disk file graph start) ∧
      (SharedSound product path disk file graph ↔ SharedCondition path disk file graph) :=
  ⟨loadSound_iff product path disk file graph, sharedSound_iff product path disk file graph⟩

end Runs

/-- One weight of one element, and a GGUF tensor of two for it. -/
def normGraph : Graph Unit where
  values := [{ name := "output_norm.weight", shape := { dims := [1] }, dtype := .float32,
               kind := .constant }]

def normTensor : GGUFTensorInfo :=
  { name := ascii "output_norm.weight", dtype := .F32, dimensions := [2], offset := 0 }

def normFile : GGUFFile where
  version := 3
  tensorCount := 1
  metadataKvCount := 0
  dataOffset := 0
  sourcePath := "norm.gguf"
  memoryView := some [0, 0, 128, 63, 0, 0, 0, 64]
  metadata := []
  tensorInfos := [normTensor]

def normDestination : Destinations normGraph where
  bindings id := if id = 0 then
    some { name := "output_norm.weight", shape := { dims := [1] }, dtype := .float32,
           allocatedBytes := 4 } else none
  allocated := by
    rintro v id tensor member - bound
    have only : (v, id) = (normGraph.values.head (by decide), 0) := by
      simpa [normGraph] using member
    obtain ⟨rfl, rfl⟩ := Prod.mk.inj only
    obtain rfl := Option.some.inj bound
    exact ⟨rfl, by decide, 1, rfl, Or.inr ⟨4, rfl, by decide⟩⟩

/-- The two elements are accepted for the one, and written past its four bytes. -/
theorem oversized_weight :
    ¬ LoadSound (fun _ _ => 0) "norm.gguf" ⟨none, none⟩ normFile normGraph normDestination ∧
      ¬ SharedSound (fun _ _ => 0) "norm.gguf" ⟨none, none⟩ normFile normGraph := by
  have weight : weightOf normFile "output_norm.weight" = some normTensor := by decide +kernel
  have view : tensorRawView "norm.gguf" ⟨none, none⟩ normFile normTensor =
      .ok [0, 0, 128, 63, 0, 0, 0, 64] := rfl
  have passes : Passes "norm.gguf" ⟨none, none⟩ normFile normTensor .float32 {} 4 :=
    ⟨by decide, by decide, _, view, by decide⟩
  have misfit : ∀ shape : Shape, shape.numel = .ok 1 → ∀ dtype allocated,
      ¬ Fits normTensor shape dtype allocated := by
    rintro shape one dtype allocated ⟨n, counted, numel, -⟩
    have two : normTensor.numElements = .ok 2 := rfl
    obtain rfl := Except.ok.inj (counted.symm.trans two)
    cases one.symm.trans numel
  rw [loadSound_iff, sharedSound_iff]
  constructor
  · intro condition
    refine misfit _ rfl _ _ (condition ?_ _ 0 normTensor _ List.mem_cons_self rfl weight rfl)
    intro v id ti member _ weight'
    have only : (v, id) = (normGraph.values.head (by decide), 0) := by
      simpa [normGraph] using member
    obtain ⟨rfl, rfl⟩ := Prod.mk.inj only
    obtain rfl := Option.some.inj (weight.symm.trans weight')
    exact ⟨_, rfl, passes⟩
  · intro condition
    refine misfit _ rfl _ _ (condition ?_ _ normTensor 4 List.mem_cons_self rfl weight rfl)
    intro done v rest split ggufName ti _ mapped found
    cases done with
    | cons first more => simp [normGraph] at split
    | nil =>
        obtain ⟨rfl, -⟩ := List.cons.inj split
        have same : weightOf normFile "output_norm.weight" = some ti :=
          Option.bind_eq_some_iff.mpr ⟨ggufName, mapped, found⟩
        obtain rfl := Option.some.inj (weight.symm.trans same)
        exact ⟨fun _ => ⟨by decide, 4, rfl, passes⟩, fun first no => by cases no⟩

end WeightLoader

end MiniLLM
