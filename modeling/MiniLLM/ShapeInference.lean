import MiniLLM.GraphBuilder
import MiniLLM.TensorSizes
import Mathlib.Data.List.Forall2

/-!
The other functions of graph/shape_infer.cpp, and inference on symbolic shapes: what
it gives covers what it gives on every instance of the shapes. Signed products are
taken modulo 2^64.
-/

namespace MiniLLM.ShapeInfer

def inferMatmulShape (a b : Shape) : Except Failure Shape :=
  if a.rank ≠ 2 ∨ b.rank ≠ 2 then
    mismatch ("MatMul expects rank-2 inputs, got " ++ a.toString ++ " and " ++ b.toString)
  else
    let kA := a.dims.getD 1 0
    let kB := b.dims.getD 0 0
    if kA ≥ 0 ∧ kB ≥ 0 ∧ kA ≠ kB then
      mismatch ("MatMul inner dims mismatch: " ++ a.toString ++ " x " ++ b.toString)
    else Shape.make [a.dims.getD 0 0, b.dims.getD 1 0]

/-- `infer_axis` is exact here, an `int` in the source. -/
structure TargetScan where
  inferAxis : Option Nat := none
  knownProduct : Int := 1

/-- The loop over the dimensions of the target, from axis `i` on. -/
def scanFrom (target : Shape) : List Int → Nat → TargetScan → Except Failure TargetScan
  | [], _, scan => .ok scan
  | dim :: rest, i, scan =>
      if dim = -1 then
        if scan.inferAxis.isSome then
          mismatch ("Reshape target can contain at most one inferred dim: " ++ target.toString)
        else scanFrom target rest (i + 1) { scan with inferAxis := some i }
      else if dim ≤ 0 then
        mismatch ("Reshape target dims must be positive or -1: " ++ target.toString)
      else
        scanFrom target rest (i + 1) { scan with knownProduct := wrap64 (scan.knownProduct * dim) }

def scanTarget (target : Shape) : Except Failure TargetScan := scanFrom target target.dims 0 {}

/-- The error of a call that is handed on. -/
def handOn {A : Type} (result : Except Status A) : Except Failure A := result.mapError .returned

/-- `static_cast<int64_t>(*input_numel)` over the known product, behind its check. The smallest
`int64` has no remainder by -1. -/
def inferDim (input target : Shape) (axis : Nat) (inputNumel : Nat) (knownProduct : Int) :
    Except Failure Shape :=
  if knownProduct = -1 ∧ wrap64 inputNumel = -9223372036854775808 then .error .undefined
  else if knownProduct = 0 ∨ (wrap64 inputNumel).tmod knownProduct ≠ 0 then
    mismatch ("Reshape cannot infer target dim for " ++ input.toString ++ " -> " ++ target.toString)
  else Shape.make (target.dims.set axis (wrap64 ((wrap64 inputNumel).tdiv knownProduct)))

def inferReshapeShape (input target : Shape) : Except Failure Shape := do
  let scan ← scanTarget target
  if input.hasDynamicDim then .ok target
  else
    let inputNumel ← handOn input.numel
    match scan.inferAxis with
    | some axis => inferDim input target axis inputNumel scan.knownProduct
    | none =>
        let targetNumel ← handOn target.numel
        if inputNumel ≠ targetNumel then
          mismatch ("Reshape element count mismatch: " ++ input.toString ++ " -> " ++
            target.toString)
        else .ok target

/-- A negative axis counts from the end. -/
def fromEnd (axis rank : Int) : Int := if axis < 0 then axis + rank else axis

def inferTransposeShape (input : Shape) (axis0 axis1 : Int) : Except Failure Shape :=
  let rank : Int := input.rank
  if rank ≤ 0 then mismatch ("Transpose expects rank >= 1, got " ++ input.toString)
  else
    let axis0 := fromEnd axis0 rank
    let axis1 := fromEnd axis1 rank
    if axis0 < 0 ∨ axis0 ≥ rank ∨ axis1 < 0 ∨ axis1 ≥ rank then
      .error (.returned (.outOfRange
        ("Transpose axes out of range for shape " ++ input.toString)))
    else
      Shape.make ((input.dims.set axis0.toNat (input.dims.getD axis1.toNat 0)).set axis1.toNat
        (input.dims.getD axis0.toNat 0))

section Target

/-- The product of the dimensions that are not inferred, as an exact integer. -/
def known (dims : List Int) : Nat := ((dims.filter (· ≠ -1)).map Int.toNat).prod

theorem known_cons {dim : Int} (rest : List Int) (static : dim ≠ -1) :
    known (dim :: rest) = dim.toNat * known rest := by
  simp [known, static]

theorem known_inferred (first rest : List Int) :
    known (first ++ -1 :: rest) = known first * known rest := by
  simp [known]

theorem known_pos {dims : List Int}
    (valid : ∀ d ∈ dims, d = -1 ∨ 0 < d ∧ d < 9223372036854775808) : 0 < known dims := by
  apply prod_pos
  intro factor member
  obtain ⟨d, listed, rfl⟩ := List.mem_map.mp member
  obtain ⟨inside, static⟩ := List.mem_filter.mp listed
  have range := valid d inside
  have other : d ≠ -1 := by simpa using static
  omega

/-- Over dimensions that are not inferred the loop multiplies. -/
theorem scanFrom_known (target : Shape) {dims : List Int} {i : Nat} {axis : Option Nat} {k : Int}
    (valid : ∀ d ∈ dims, d = -1 ∨ 0 < d ∧ d < 9223372036854775808) (static : -1 ∉ dims) :
    scanFrom target dims i ⟨axis, wrap64 k⟩ = .ok ⟨axis, wrap64 (k * known dims)⟩ := by
  induction dims generalizing i k with
  | nil => simp [scanFrom, known]
  | cons dim rest ih =>
      obtain ⟨head, tail⟩ := List.forall_mem_cons.mp valid
      obtain ⟨other, others⟩ := List.ne_and_not_mem_of_not_mem_cons static
      have positive : 0 < dim := by omega
      have cast : ((dim.toNat : Nat) : Int) = dim := by omega
      rw [scanFrom, if_neg (Ne.symm other), if_neg (by omega), wrap64_mul, ih tail others,
        known_cons rest (Ne.symm other), Int.mul_assoc, Int.natCast_mul, cast]

theorem scanFrom_append (target : Shape) (first rest : List Int) (i : Nat) (scan : TargetScan) :
    scanFrom target (first ++ rest) i scan =
      scanFrom target first i scan >>= scanFrom target rest (i + first.length) := by
  induction first generalizing i scan with
  | nil => rfl
  | cons dim first ih =>
      have place : i + (dim :: first).length = i + 1 + first.length := by
        rw [List.length_cons]
        omega
      simp only [List.cons_append, scanFrom]
      rw [place]
      split
      · split
        · rfl
        · exact ih _ _
      · split
        · rfl
        · exact ih _ _

/-- What the loop over a target finds: no inferred axis, one, or too many. -/
inductive Scanned (target : Shape) : Prop where
  | none (static : -1 ∉ target.dims)
      (found : scanTarget target = .ok ⟨Option.none, wrap64 (known target.dims)⟩)
  | one (first rest : List Int) (split : target.dims = first ++ -1 :: rest)
      (before : -1 ∉ first) (behind : -1 ∉ rest)
      (found : scanTarget target = .ok ⟨some first.length, wrap64 (known target.dims)⟩)
  | many (several : 2 ≤ target.dims.count (-1)) (st : Status)
      (failed : scanTarget target = .error (.returned st))

theorem scanned (target : Shape) : Scanned target := by
  have valid := target.valid
  have start : ({} : TargetScan) = ⟨none, wrap64 1⟩ := rfl
  have found : scanTarget target = scanFrom target target.dims 0 ⟨none, wrap64 1⟩ := rfl
  by_cases static : -1 ∉ target.dims
  · refine .none static ?_
    rw [found, scanFrom_known target valid static, Int.one_mul]
  · obtain ⟨first, rest, split, before⟩ := List.eq_append_cons_of_mem (not_not.mp static)
    rw [split] at valid
    have validFirst := fun d member => valid d (List.mem_append_left _ member)
    have validRest := fun d member =>
      valid d (List.mem_append_right _ (List.mem_cons_of_mem _ member))
    have prefixed : scanTarget target = scanFrom target rest (first.length + 1)
        ⟨some first.length, wrap64 (known first)⟩ := by
      rw [found, split, scanFrom_append, scanFrom_known target validFirst before, Int.one_mul,
        Nat.zero_add]
      rfl
    by_cases behind : -1 ∉ rest
    · refine .one first rest split before behind ?_
      rw [prefixed, scanFrom_known target validRest behind, split, known_inferred,
        Int.natCast_mul]
    · obtain ⟨second, more, splitRest, middle⟩ := List.eq_append_cons_of_mem (not_not.mp behind)
      have validSecond := fun d member => validRest d (by
        rw [splitRest]
        exact List.mem_append_left _ member)
      refine .many ?_ (.shapeMismatch
        ("Reshape target can contain at most one inferred dim: " ++ target.toString)) ?_
      · rw [split, splitRest]
        simp only [List.count_append, List.count_cons_self]
        omega
      · rw [prefixed, splitRest, scanFrom_append, scanFrom_known target validSecond middle]
        rfl

end Target

section Instances

/-- Equal where the symbolic dimension is not dynamic. -/
def Replaces (concrete symbolic : Int) : Prop := symbolic ≠ -1 → concrete = symbolic

/-- Dynamic dimensions replaced, each on its own. -/
def Instance (concrete symbolic : Shape) : Prop :=
  List.Forall₂ Replaces concrete.dims symbolic.dims

/-- What inference gives on the instance is an instance of what it gives in general. -/
def Covers (symbolic concrete : Except Failure Shape) : Prop :=
  ∀ shape, concrete = .ok shape → ∃ general, symbolic = .ok general ∧ Instance shape general

theorem Replaces.refl (dim : Int) : Replaces dim dim := fun _ => rfl

theorem Instance.refl (shape : Shape) : Instance shape shape :=
  List.forall₂_same.mpr fun dim _ => Replaces.refl dim

theorem Instance.rank {concrete symbolic : Shape} (inst : Instance concrete symbolic) :
    concrete.rank = symbolic.rank := inst.length_eq

theorem getD_replaces {concrete symbolic : List Int}
    (replaced : List.Forall₂ Replaces concrete symbolic) (i : Nat) :
    Replaces (concrete.getD i 0) (symbolic.getD i 0) := by
  induction replaced generalizing i with
  | nil => exact Replaces.refl 0
  | cons head _ ih =>
      cases i with
      | zero => exact head
      | succ i => exact ih i

theorem set_replaces {concrete symbolic : List Int}
    (replaced : List.Forall₂ Replaces concrete symbolic) (i : Nat) {c s : Int}
    (new : Replaces c s) : List.Forall₂ Replaces (concrete.set i c) (symbolic.set i s) := by
  induction replaced generalizing i with
  | nil => exact List.Forall₂.nil
  | cons head tail ih =>
      cases i with
      | zero => exact List.Forall₂.cons new tail
      | succ i => exact List.Forall₂.cons head (ih i)

/-- A check that static dimensions agree passes on the symbolic ones when it does on these. -/
theorem agree_symbolic {c c' s s' : Int} (first : Replaces c s) (second : Replaces c' s')
    (agree : ¬ (c ≥ 0 ∧ c' ≥ 0 ∧ c ≠ c')) : ¬ (s ≥ 0 ∧ s' ≥ 0 ∧ s ≠ s') := by
  rintro ⟨low, low', differ⟩
  have same := first (by omega)
  have same' := second (by omega)
  omega

/-- The constructor takes dimensions of shapes. -/
theorem make_covers {concrete symbolic : List Int}
    (valid : ∀ d ∈ symbolic, d = -1 ∨ 0 < d ∧ d < 9223372036854775808)
    (replaced : List.Forall₂ Replaces concrete symbolic) :
    Covers (Shape.make symbolic) (Shape.make concrete) := by
  intro shape made
  refine ⟨⟨symbolic, valid⟩, Shape.make_ok valid, ?_⟩
  rw [Instance, Shape.make_dims made]
  exact replaced

theorem getD_valid (shape : Shape) {i : Nat} (inside : i < shape.rank) :
    shape.dims.getD i 0 = -1 ∨
      0 < shape.dims.getD i 0 ∧ shape.dims.getD i 0 < 9223372036854775808 := by
  rw [List.getD_eq_getElem?_getD, List.getElem?_eq_getElem inside, Option.getD_some]
  exact shape.valid _ (List.getElem_mem inside)

theorem matmul_covers {a b a' b' : Shape} (instA : Instance a' a) (instB : Instance b' b) :
    Covers (inferMatmulShape a b) (inferMatmulShape a' b') := by
  unfold inferMatmulShape
  rw [instA.rank, instB.rank]
  by_cases ranks : a.rank ≠ 2 ∨ b.rank ≠ 2
  · intro shape made
    rw [if_pos ranks] at made
    cases made
  · have rankA : a.rank = 2 := by omega
    have rankB : b.rank = 2 := by omega
    rw [if_neg ranks, if_neg ranks]
    intro shape made
    dsimp only at made ⊢
    split at made
    · cases made
    · next agree =>
        rw [if_neg (agree_symbolic (getD_replaces instA 1) (getD_replaces instB 0) agree)]
        refine make_covers ?_ ?_ shape made
        · intro d member
          rcases List.mem_cons.mp member with rfl | last
          · exact getD_valid a (by omega)
          · obtain rfl := List.mem_singleton.mp last
            exact getD_valid b (by omega)
        · exact List.Forall₂.cons (getD_replaces instA 0)
            (List.Forall₂.cons (getD_replaces instB 1) List.Forall₂.nil)

theorem getLastD_replaces {concrete symbolic : List Int}
    (replaced : List.Forall₂ Replaces concrete symbolic) {c s : Int} (fallback : Replaces c s) :
    Replaces (concrete.getLastD c) (symbolic.getLastD s) := by
  induction replaced generalizing c s with
  | nil => exact fallback
  | cons head _ ih =>
      rw [List.getLastD_cons, List.getLastD_cons]
      exact ih head

theorem append_replaces {concrete symbolic : List Int}
    (replaced : List.Forall₂ Replaces concrete symbolic) {c s : Int} (last : Replaces c s) :
    List.Forall₂ Replaces (concrete ++ [c]) (symbolic ++ [s]) :=
  List.rel_append replaced (List.Forall₂.cons last List.Forall₂.nil)

theorem append_valid {dims : List Int} {last : Int}
    (front : ∀ d ∈ dims, d = -1 ∨ 0 < d ∧ d < 9223372036854775808)
    (back : last = -1 ∨ 0 < last ∧ last < 9223372036854775808) :
    ∀ d ∈ dims ++ [last], d = -1 ∨ 0 < d ∧ d < 9223372036854775808 := by
  intro d member
  rcases List.mem_append.mp member with early | late
  · exact front d early
  · obtain rfl := List.mem_singleton.mp late
    exact back

theorem linear_covers {x weight x' weight' : Shape} (instX : Instance x' x)
    (instW : Instance weight' weight) :
    Covers (inferLinearShape x weight) (inferLinearShape x' weight') := by
  unfold inferLinearShape
  rw [instX.rank, instW.rank]
  by_cases matrix : weight.rank ≠ 2
  · intro shape made
    rw [if_pos matrix] at made
    cases made
  · rw [if_neg matrix, if_neg matrix]
    by_cases scalar : x.rank < 1
    · intro shape made
      rw [if_pos scalar] at made
      cases made
    · rw [if_neg scalar, if_neg scalar]
      intro shape made
      dsimp only at made ⊢
      split at made
      · cases made
      · next agree =>
          rw [if_neg (agree_symbolic (getLastD_replaces instX (Replaces.refl 0))
            (getD_replaces instW 1) agree)]
          refine make_covers ?_ ?_ shape made
          · exact append_valid (fun d member => x.valid d (List.dropLast_subset _ member))
              (getD_valid weight (by omega))
          · rw [List.dropLast_eq_take, List.dropLast_eq_take, instX.length_eq]
            exact append_replaces (List.forall₂_take _ instX) (getD_replaces instW 0)

theorem embedding_covers {ids weight ids' weight' : Shape} (instIds : Instance ids' ids)
    (instW : Instance weight' weight) :
    Covers (inferEmbeddingShape ids weight) (inferEmbeddingShape ids' weight') := by
  unfold inferEmbeddingShape
  rw [instIds.rank, instW.rank]
  by_cases ranks : ids.rank < 1 ∨ weight.rank ≠ 2
  · intro shape made
    rw [if_pos ranks] at made
    cases made
  · rw [if_neg ranks, if_neg ranks]
    apply make_covers
    · exact append_valid ids.valid (getD_valid weight (by omega))
    · exact append_replaces instIds (getD_replaces instW 1)

/-- Static dimensions that differ do so on every instance. -/
theorem mismatchAxis_none {a b a' b' : Shape} (instA : Instance a' a) (instB : Instance b' b)
    (agree : mismatchAxis a' b' = none) : mismatchAxis a b = none := by
  unfold mismatchAxis Instance at *
  generalize a.dims = as, a'.dims = as', b.dims = bs, b'.dims = bs' at *
  induction instA generalizing bs bs' with
  | nil => rfl
  | cons headA _ ih =>
      cases instB with
      | nil => rfl
      | cons headB tailB =>
          simp only [List.zip_cons_cons, List.findIdx?_cons] at agree ⊢
          split at agree
          · cases agree
          · next head =>
              have symbolic := agree_symbolic headA headB (by simpa using head)
              rw [if_neg (by simpa using symbolic)]
              rw [Option.map_eq_none_iff] at agree ⊢
              exact ih _ _ tailB agree

theorem sameShape_covers (rankText dimText : String) {a b a' b' : Shape} (instA : Instance a' a)
    (instB : Instance b' b) :
    Covers (inferSameShape rankText dimText a b) (inferSameShape rankText dimText a' b') := by
  intro shape made
  unfold inferSameShape at made ⊢
  rw [instA.rank, instB.rank] at made
  by_cases ranks : a.rank ≠ b.rank
  · rw [if_pos ranks] at made
    cases made
  · rw [if_neg ranks] at made ⊢
    cases axis : mismatchAxis a' b' with
    | some i =>
        rw [axis] at made
        cases made
    | none =>
        rw [axis] at made
        obtain rfl := Except.ok.inj made
        rw [mismatchAxis_none instA instB axis]
        exact ⟨a, rfl, instA⟩

/-- Nothing is replaced where nothing is dynamic. -/
theorem replaces_static {concrete symbolic : List Int}
    (replaced : List.Forall₂ Replaces concrete symbolic) (static : -1 ∉ symbolic) :
    concrete = symbolic := by
  induction replaced with
  | nil => rfl
  | cons head _ ih =>
      obtain ⟨other, others⟩ := List.ne_and_not_mem_of_not_mem_cons static
      rw [head (Ne.symm other), ih others]

theorem replaces_inferred {concrete first rest : List Int}
    (replaced : List.Forall₂ Replaces concrete (first ++ -1 :: rest)) (before : -1 ∉ first)
    (behind : -1 ∉ rest) : ∃ dim, concrete = first ++ dim :: rest := by
  have front := replaces_static (List.forall₂_take_append _ _ _ replaced) before
  have back := List.forall₂_drop_append _ _ _ replaced
  obtain ⟨dim, others, _, same, joined⟩ := List.forall₂_cons_right_iff.mp back
  refine ⟨dim, ?_⟩
  rw [← List.take_append_drop first.length concrete, front, joined,
    replaces_static same behind]

theorem static_instance {concrete symbolic : Shape} (inst : Instance concrete symbolic)
    (static : symbolic.hasDynamicDim = false) : concrete = symbolic := by
  have same : concrete.dims = symbolic.dims := by
    refine replaces_static inst fun dynamic => ?_
    exact absurd (Shape.static_pos static (-1) dynamic) (by decide)
  cases concrete
  cases symbolic
  cases same
  rfl

theorem set_inferred (first rest : List Int) (dim : Int) :
    List.Forall₂ Replaces ((first ++ -1 :: rest).set first.length dim) (first ++ -1 :: rest) := by
  rw [List.set_append_right _ _ (Nat.le_refl _), Nat.sub_self, List.set_cons_zero]
  exact List.rel_append (List.forall₂_same.mpr fun d _ => Replaces.refl d)
    (List.Forall₂.cons (fun inferred => absurd rfl inferred)
      (List.forall₂_same.mpr fun d _ => Replaces.refl d))

/-- A dynamic input leaves the target as it is. -/
theorem reshape_dynamic {input target : Shape} {scan : TargetScan}
    (found : scanTarget target = .ok scan) (dynamic : input.hasDynamicDim = true) :
    inferReshapeShape input target = .ok target := by
  rw [inferReshapeShape, found]
  exact if_pos dynamic

/-- Whatever reshape infers differs from the target on an inferred axis only. -/
theorem reshape_instance {input target shape : Shape}
    (made : inferReshapeShape input target = .ok shape) : Instance shape target := by
  unfold inferReshapeShape at made
  obtain ⟨scan, scanning, made⟩ := bind_eq_ok made
  split at made
  · obtain rfl := Except.ok.inj made
    exact Instance.refl target
  · obtain ⟨inputNumel, _, made⟩ := bind_eq_ok made
    cases scanned target with
    | none _ found =>
        rw [found] at scanning
        obtain rfl := Except.ok.inj scanning
        obtain ⟨targetNumel, _, made⟩ := bind_eq_ok made
        split at made
        · cases made
        · obtain rfl := Except.ok.inj made
          exact Instance.refl target
    | one first rest split _ _ found =>
        rw [found] at scanning
        obtain rfl := Except.ok.inj scanning
        unfold inferDim at made
        dsimp only at made
        split at made
        · cases made
        · split at made
          · cases made
          · rw [Instance, Shape.make_dims made, split]
            exact set_inferred first rest _
    | many _ st failed =>
        rw [failed] at scanning
        cases scanning

theorem reshape_covers {input input' : Shape} (target : Shape) (inst : Instance input' input) :
    Covers (inferReshapeShape input target) (inferReshapeShape input' target) := by
  intro shape made
  cases dynamic : input.hasDynamicDim with
  | false =>
      obtain rfl := static_instance inst dynamic
      exact ⟨shape, made, Instance.refl shape⟩
  | true =>
      have passed := made
      unfold inferReshapeShape at passed
      obtain ⟨scan, found, _⟩ := bind_eq_ok passed
      exact ⟨target, reshape_dynamic found dynamic, reshape_instance made⟩

theorem transpose_covers {input input' : Shape} (axis0 axis1 : Int) (inst : Instance input' input) :
    Covers (inferTransposeShape input axis0 axis1) (inferTransposeShape input' axis0 axis1) := by
  unfold inferTransposeShape
  rw [inst.rank]
  dsimp only
  by_cases scalar : (input.rank : Int) ≤ 0
  · intro shape made
    rw [if_pos scalar] at made
    cases made
  · rw [if_neg scalar, if_neg scalar]
    generalize fromEnd axis0 input.rank = first
    generalize fromEnd axis1 input.rank = second
    by_cases outside : first < 0 ∨ first ≥ input.rank ∨ second < 0 ∨ second ≥ input.rank
    · intro shape made
      rw [if_pos outside] at made
      cases made
    · rw [if_neg outside, if_neg outside]
      apply make_covers
      · intro d member
        rcases List.mem_or_eq_of_mem_set member with inner | rfl
        · rcases List.mem_or_eq_of_mem_set inner with old | rfl
          · exact input.valid d old
          · exact getD_valid input (by omega)
        · exact getD_valid input (by omega)
      · exact set_replaces (set_replaces inst _ (getD_replaces inst _)) _ (getD_replaces inst _)

/-- Inference on symbolic shapes succeeds where it does on an instance of them, and gives
a shape that the instance's result is an instance of. -/
theorem symbolic_inference_sound :
    (∀ a b a' b', Instance a' a → Instance b' b →
        Covers (inferMatmulShape a b) (inferMatmulShape a' b') ∧
        Covers (inferLinearShape a b) (inferLinearShape a' b') ∧
        Covers (inferElementwiseShape a b) (inferElementwiseShape a' b') ∧
        Covers (inferAddShape a b) (inferAddShape a' b') ∧
        Covers (inferEmbeddingShape a b) (inferEmbeddingShape a' b')) ∧
      ∀ input input', Instance input' input →
        (∀ target, Covers (inferReshapeShape input target) (inferReshapeShape input' target)) ∧
        ∀ axis0 axis1, Covers (inferTransposeShape input axis0 axis1)
          (inferTransposeShape input' axis0 axis1) := by
  constructor
  · intro a b a' b' instA instB
    exact ⟨matmul_covers instA instB, linear_covers instA instB, sameShape_covers _ _ instA instB,
      sameShape_covers _ _ instA instB, embedding_covers instA instB⟩
  · intro input input' inst
    exact ⟨fun target => reshape_covers target inst,
      fun axis0 axis1 => transpose_covers axis0 axis1 inst⟩

-- A dynamic number of rows, run with two.
theorem symbolic_inference_sound_twoRows :
    inferMatmulShape { dims := [2, 4] } { dims := [4, 8] } = .ok { dims := [2, 8] } ∧
      Covers (inferMatmulShape { dims := [-1, 4] } { dims := [4, 8] })
        (inferMatmulShape { dims := [2, 4] } { dims := [4, 8] }) ∧
      Covers (inferReshapeShape { dims := [-1, 4] } { dims := [2, -1] })
        (inferReshapeShape { dims := [2, 4] } { dims := [2, -1] }) := by
  have rows : Instance { dims := [2, 4] } { dims := [-1, 4] } :=
    List.Forall₂.cons (fun dynamic => absurd rfl dynamic)
      (List.Forall₂.cons (Replaces.refl 4) List.Forall₂.nil)
  have sound := symbolic_inference_sound
  exact ⟨by rfl, (sound.1 _ _ _ _ rows (Instance.refl _)).1, (sound.2 _ _ rows).1 _⟩

end Instances

end MiniLLM.ShapeInfer
