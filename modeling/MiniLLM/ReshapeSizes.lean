import MiniLLM.ShapeInference
import Mathlib.Tactic.Ring

/-!
When `infer_reshape_shape` is exact. The inferred dimension comes out of an `int64`
quotient: it is right for counts and known products below 2^63, and from there on
the casts and the wrapped product decide what is thrown, refused or inferred.
-/

namespace MiniLLM.ShapeInfer

/-- A static shape that agrees with the target and has the elements of the input. -/
structure Fits (input target shape : Shape) : Prop where
  static : shape.hasDynamicDim = false
  agrees : Instance shape target
  count : shape.elements = input.elements

/-- What the count is divided by, where the code comes to a division. -/
def divisor (input target : Shape) : Option Int :=
  match scanTarget target, input.numel with
  | .ok ⟨some _, knownProduct⟩, .ok _ => if knownProduct = 0 then none else some knownProduct
  | _, _ => none

structure ReshapeExact (input target : Shape) : Prop where
  returns : inferReshapeShape input target ≠ .error .thrown
  defined : inferReshapeShape input target ≠ .error .undefined
  divides : ∀ k, divisor input target = some k → k = known target.dims
  fits : ∀ shape, inferReshapeShape input target = .ok shape → Fits input target shape
  refuses : ∀ st, inferReshapeShape input target = .error (.returned st) →
    2 ≤ target.dims.count (-1) ∨ ¬ ∃ shape, Fits input target shape

/-- No -1 and no count past 64 bits that would fit; one -1 and counts and products
that the signed quotient handles. -/
def ReshapeSafe (input target : Shape) : Prop :=
  2 ≤ target.dims.count (-1) ∨
    target.dims.count (-1) = 0 ∧
      (input.elements < 2 ^ 64 ∨ known target.dims ≠ input.elements) ∨
    target.dims.count (-1) = 1 ∧
      if input.elements < 2 ^ 64 then
        2 ^ 64 ∣ known target.dims ∨ known target.dims < 2 ^ 63 ∧
          (input.elements < 2 ^ 63 ∨
            ¬ known target.dims ∣ input.elements ∧ ¬ known target.dims ∣ 2 ^ 64 - input.elements)
      else ¬ (known target.dims ∣ input.elements ∧ input.elements / known target.dims < 2 ^ 63)

section Cases

variable {input target : Shape}

theorem known_static {dims : List Int} (static : -1 ∉ dims) :
    known dims = (dims.map Int.toNat).prod := by
  have all : dims.filter (· ≠ -1) = dims := List.filter_eq_self.mpr fun d member => by
    simpa using fun same : d = -1 => static (same ▸ member)
  rw [known, all]

theorem target_static (static : -1 ∉ target.dims) : target.hasDynamicDim = false := by
  rw [Shape.hasDynamicDim, List.any_eq_false]
  intro d member
  have other : d ≠ -1 := fun same => static (same ▸ member)
  have range := target.valid d member
  simp only [decide_eq_true_eq]
  omega

theorem exact_of_error (divides : ∀ k, divisor input target = some k → k = known target.dims)
    {st : Status} (result : inferReshapeShape input target = .error (.returned st)) :
    ReshapeExact input target ↔
      2 ≤ target.dims.count (-1) ∨ ¬ ∃ shape, Fits input target shape := by
  constructor
  · exact fun exact => exact.refuses st result
  · intro refused
    refine ⟨by rw [result]; simp, by rw [result]; simp, divides, fun shape made => ?_, fun _ _ => refused⟩
    rw [result] at made
    cases made

theorem exact_of_ok (divides : ∀ k, divisor input target = some k → k = known target.dims)
    {shape : Shape} (result : inferReshapeShape input target = .ok shape) :
    ReshapeExact input target ↔ Fits input target shape := by
  constructor
  · exact fun exact => exact.fits shape result
  · intro fits
    refine ⟨by rw [result]; simp, by rw [result]; simp, divides, fun other made => ?_, fun st failed => ?_⟩
    · rw [result, Except.ok.injEq] at made
      rwa [← made]
    · rw [result] at failed
      cases failed

/-- Too many inferred axes are refused. -/
theorem exact_many (several : 2 ≤ target.dims.count (-1)) {st : Status}
    (failed : scanTarget target = .error (.returned st)) : ReshapeExact input target := by
  have result : inferReshapeShape input target = .error (.returned st) := by
    rw [inferReshapeShape, failed]
    rfl
  refine (exact_of_error (fun k found => ?_) result).mpr (Or.inl several)
  simp [divisor, failed] at found

/-- Without an inferred axis the only candidate is the target itself. -/
theorem fits_target (static : -1 ∉ target.dims) :
    (∃ shape, Fits input target shape) ↔ known target.dims = input.elements := by
  constructor
  · rintro ⟨shape, fits⟩
    have same := static_instance fits.agrees (target_static static)
    rw [known_static static, ← fits.count, same]
    rfl
  · intro count
    refine ⟨target, target_static static, Instance.refl target, ?_⟩
    rw [← count, known_static static]
    rfl

theorem exact_static (inputStatic : input.hasDynamicDim = false) (static : -1 ∉ target.dims)
    {k : Int} (found : scanTarget target = .ok ⟨none, k⟩) :
    ReshapeExact input target ↔
      input.elements < 2 ^ 64 ∨ known target.dims ≠ input.elements := by
  have undivided : ∀ k, divisor input target = some k → k = known target.dims := by
    intro k divided
    simp [divisor, found] at divided
  have none : target.dims.count (-1) = 0 := List.count_eq_zero.mpr static
  have unfolded : inferReshapeShape input target = (handOn input.numel >>= fun inputNumel =>
      handOn target.numel >>= fun targetNumel =>
        if inputNumel ≠ targetNumel then
          mismatch ("Reshape element count mismatch: " ++ input.toString ++ " -> " ++
            target.toString)
        else .ok target) := by
    rw [inferReshapeShape, found]
    exact if_neg (by rw [inputStatic]; decide)
  have count : target.elements = known target.dims := (known_static static).symm
  rw [Shape.numel_static inputStatic, Shape.numel_static (target_static static), count] at unfolded
  have refused : ∀ {st : Status}, inferReshapeShape input target = .error (.returned st) →
      (ReshapeExact input target ↔ known target.dims ≠ input.elements) := by
    intro st result
    rw [exact_of_error undivided result, fits_target static, none]
    simp
  by_cases small : input.elements < 2 ^ 64
  · rw [if_pos small] at unfolded
    refine iff_of_true ?_ (Or.inl small)
    by_cases fits : known target.dims < 2 ^ 64
    · rw [if_pos fits] at unfolded
      by_cases same : input.elements = known target.dims
      · have result : inferReshapeShape input target = .ok target := by
          rw [unfolded]
          exact if_neg (not_not.mpr same)
        exact (exact_of_ok undivided result).mpr
          ⟨target_static static, Instance.refl target, count.trans same.symm⟩
      · have result := unfolded.trans (if_pos same)
        exact (refused result).mpr (Ne.symm same)
    · rw [if_neg fits] at unfolded
      exact (refused unfolded).mpr (by omega)
  · rw [if_neg small] at unfolded
    rw [refused unfolded, or_iff_right small]

/-- With one inferred axis a candidate is a dimension for it. -/
theorem fits_inferred {first rest : List Int} (split : target.dims = first ++ -1 :: rest)
    (before : -1 ∉ first) (behind : -1 ∉ rest) {shape : Shape} :
    Fits input target shape ↔ ∃ dim, 0 < dim ∧ shape.dims = first ++ dim :: rest ∧
      known target.dims * dim.toNat = input.elements := by
  have product : ∀ dim, ((first ++ dim :: rest).map Int.toNat).prod =
      known target.dims * dim.toNat := by
    intro dim
    rw [split, known_inferred, known_static before, known_static behind, List.map_append,
      List.map_cons, List.prod_append, List.prod_cons]
    ring
  constructor
  · rintro ⟨static, agrees, count⟩
    rw [Instance, split] at agrees
    obtain ⟨dim, dims⟩ := replaces_inferred agrees before behind
    have positive := Shape.static_pos static dim (by rw [dims]; simp)
    refine ⟨dim, positive, dims, ?_⟩
    rw [← product, ← count, Shape.elements, dims]
  · rintro ⟨dim, positive, dims, count⟩
    refine ⟨?_, ?_, ?_⟩
    · refine target_static ?_
      rw [dims, List.mem_append, List.mem_cons]
      rintro (front | same | back)
      · exact before front
      · omega
      · exact behind back
    · rw [Instance, dims, split]
      have set := set_inferred first rest dim
      rwa [List.set_append_right _ _ (Nat.le_refl _), Nat.sub_self, List.set_cons_zero] at set
    · rw [Shape.elements, dims, product, count]

theorem inferred_valid {first rest : List Int} (split : target.dims = first ++ -1 :: rest)
    {dim : Int} (valid : dim = -1 ∨ 0 < dim ∧ dim < 9223372036854775808) :
    ∀ d ∈ first ++ dim :: rest, d = -1 ∨ 0 < d ∧ d < 9223372036854775808 := by
  have others := target.valid
  rw [split] at others
  intro d member
  rcases List.mem_append.mp member with front | back
  · exact others d (List.mem_append_left _ front)
  · rcases List.mem_cons.mp back with rfl | back
    · exact valid
    · exact others d (List.mem_append_right _ (List.mem_cons_of_mem _ back))

/-- Some candidate fits when the quotient is exact and an `int64`. -/
theorem exists_fits {first rest : List Int} (split : target.dims = first ++ -1 :: rest)
    (before : -1 ∉ first) (behind : -1 ∉ rest) (inputStatic : input.hasDynamicDim = false) :
    (∃ shape, Fits input target shape) ↔
      known target.dims ∣ input.elements ∧ input.elements / known target.dims < 2 ^ 63 := by
  have some := Shape.elements_pos inputStatic
  have positive := known_pos target.valid
  simp only [fits_inferred split before behind]
  constructor
  · rintro ⟨shape, dim, above, dims, count⟩
    have range := shape.valid dim (by rw [dims]; simp)
    rw [← count, Nat.mul_div_cancel_left _ positive]
    exact ⟨Nat.dvd_mul_right _ _, by omega⟩
  · rintro ⟨divides, small⟩
    have quotient := Nat.div_pos (Nat.le_of_dvd some divides) positive
    refine ⟨⟨_, inferred_valid split (Or.inr ⟨Int.natCast_pos.mpr quotient, by omega⟩)⟩, _,
      Int.natCast_pos.mpr quotient, rfl, ?_⟩
    rw [Int.toNat_natCast, Nat.mul_div_cancel' divides]

/-- What the quotient of the casts comes to. -/
theorem wrap64_cast {n : Nat} (small : n < 2 ^ 64) :
    wrap64 n = if n < 2 ^ 63 then (n : Int) else (n : Int) - 2 ^ 64 := by
  unfold wrap64
  split <;> omega

theorem wrap64_zero {n : Nat} : wrap64 n = 0 ↔ 2 ^ 64 ∣ n := by
  unfold wrap64
  omega

/-- A product that has wrapped is not the exact one. -/
theorem wrap64_exact {n : Nat} : wrap64 n = n ↔ n < 2 ^ 63 := by
  unfold wrap64
  omega

theorem tmod_zero {n k : Nat} : (n : Int).tmod k = 0 ↔ k ∣ n := by
  rw [← Int.dvd_iff_tmod_eq_zero, Int.natCast_dvd_natCast]

theorem reshape_one (inputStatic : input.hasDynamicDim = false) {axis : Nat} {k : Int}
    (found : scanTarget target = .ok ⟨some axis, k⟩) (small : input.elements < 2 ^ 64) :
    inferReshapeShape input target = inferDim input target axis input.elements k ∧
      divisor input target = if k = 0 then none else some k := by
  have numel : input.numel = .ok input.elements := by
    rw [Shape.numel_static inputStatic, if_pos small]
  constructor
  · rw [inferReshapeShape, found, numel]
    exact if_neg (by rw [inputStatic]; decide)
  · rw [divisor, found, numel]

theorem inferDim_refused {axis n : Nat} {k : Int} (nonneg : 0 ≤ k)
    (refused : k = 0 ∨ (wrap64 n).tmod k ≠ 0) :
    inferDim input target axis n k = mismatch ("Reshape cannot infer target dim for " ++
      input.toString ++ " -> " ++ target.toString) := by
  rw [inferDim, if_neg (by omega), if_pos refused]

theorem inferDim_make {first rest : List Int} (split : target.dims = first ++ -1 :: rest)
    {n : Nat} {k : Int} (known : 0 < k) (exact : (wrap64 n).tmod k = 0) :
    inferDim input target first.length n k =
      Shape.make (first ++ wrap64 ((wrap64 n).tdiv k) :: rest) := by
  have checked : ¬ (k = 0 ∨ (wrap64 n).tmod k ≠ 0) := fun refused =>
    refused.elim (by omega) fun inexact => inexact exact
  rw [inferDim, if_neg (by omega), if_neg checked, split, List.set_append_right _ _ (Nat.le_refl _), Nat.sub_self,
    List.set_cons_zero]

/-- Below 2^63 the quotient of the casts is the quotient. -/
theorem inferDim_small {first rest : List Int} (split : target.dims = first ++ -1 :: rest)
    (before : -1 ∉ first) (behind : -1 ∉ rest) (inputStatic : input.hasDynamicDim = false)
    (small : input.elements < 2 ^ 63) (divides : known target.dims ∣ input.elements) :
    ∃ shape, inferDim input target first.length input.elements (known target.dims) = .ok shape ∧
      Fits input target shape := by
  have positive := known_pos target.valid
  have some := Shape.elements_pos inputStatic
  have quotient := Nat.div_pos (Nat.le_of_dvd some divides) positive
  have bound := Nat.div_le_self input.elements (known target.dims)
  have cast : wrap64 input.elements = (input.elements : Int) := wrap64_exact.mpr small
  have dim : wrap64 ((wrap64 input.elements).tdiv (known target.dims)) =
      ((input.elements / known target.dims : Nat) : Int) := by
    rw [cast, ← Int.ofNat_tdiv]
    exact wrap64_exact.mpr (by omega)
  have valid := inferred_valid split
    (Or.inr ⟨Int.natCast_pos.mpr quotient, show (_ : Int) < 9223372036854775808 by omega⟩)
  refine ⟨⟨_, valid⟩, ?_, (fits_inferred split before behind).mpr
    ⟨_, Int.natCast_pos.mpr quotient, rfl, ?_⟩⟩
  · rw [inferDim_make split (by omega) (by rw [cast]; exact tmod_zero.mpr divides), dim]
    exact Shape.make_ok valid
  · rw [Int.toNat_natCast, Nat.mul_div_cancel' divides]

theorem tmod_negative {n k : Nat} (low : 2 ^ 63 ≤ n) (high : n < 2 ^ 64) :
    (wrap64 n).tmod k = 0 ↔ k ∣ 2 ^ 64 - n := by
  have cast : wrap64 n = -((2 ^ 64 - n : Nat) : Int) := by
    rw [wrap64_cast high, if_neg (Nat.not_lt.mpr low)]
    omega
  rw [cast, Int.neg_tmod, Int.neg_eq_zero, tmod_zero]

/-- From 2^63 on the cast count is negative: what is inferred is never a dimension. -/
theorem inferDim_negative {first rest : List Int} (split : target.dims = first ++ -1 :: rest)
    {n : Nat} (low : 2 ^ 63 ≤ n) (high : n < 2 ^ 64) (divides : known target.dims ∣ 2 ^ 64 - n) :
    inferDim input target first.length n (known target.dims) = .error .thrown ∨
      ∃ shape, inferDim input target first.length n (known target.dims) = .ok shape ∧
        shape.hasDynamicDim = true := by
  have positive := known_pos target.valid
  have cast : wrap64 n = -((2 ^ 64 - n : Nat) : Int) := by
    rw [wrap64_cast high, if_neg (Nat.not_lt.mpr low)]
    omega
  have some := Nat.div_pos (Nat.le_of_dvd (by omega) divides) positive
  have bound := Nat.div_le_self (2 ^ 64 - n) (known target.dims)
  have negative : wrap64 ((wrap64 n).tdiv (known target.dims)) < 0 := by
    rw [cast, Int.neg_tdiv, ← Int.ofNat_tdiv, wrap64]
    omega
  rw [inferDim_make split (by omega) ((tmod_negative low high).mpr divides)]
  generalize wrap64 ((wrap64 n).tdiv (known target.dims)) = dim at negative
  by_cases valid : ∀ d ∈ first ++ dim :: rest, d = -1 ∨ 0 < d ∧ d < 9223372036854775808
  · refine Or.inr ⟨_, Shape.make_ok valid, ?_⟩
    rw [Shape.hasDynamicDim, List.any_eq_true]
    exact ⟨dim, List.mem_append_right _ List.mem_cons_self, decide_eq_true negative⟩
  · exact Or.inl (dif_neg valid)

theorem exact_negative {first rest : List Int} (split : target.dims = first ++ -1 :: rest)
    (low : 2 ^ 63 ≤ input.elements) (high : input.elements < 2 ^ 64)
    (divides : known target.dims ∣ 2 ^ 64 - input.elements)
    (result : inferReshapeShape input target =
      inferDim input target first.length input.elements (known target.dims)) :
    ¬ ReshapeExact input target := by
  intro exact
  rcases @inferDim_negative input target first rest split _ low high divides with
    thrown | ⟨shape, made, dynamic⟩
  · exact exact.returns (result.trans thrown)
  · have fits := exact.fits shape (result.trans made)
    rw [fits.static] at dynamic
    cases dynamic

theorem count_one {first rest : List Int} (split : target.dims = first ++ -1 :: rest)
    (before : -1 ∉ first) (behind : -1 ∉ rest) : target.dims.count (-1) = 1 := by
  rw [split, List.count_append, List.count_cons_self, List.count_eq_zero.mpr before,
    List.count_eq_zero.mpr behind]

theorem exact_one {first rest : List Int} (split : target.dims = first ++ -1 :: rest)
    (before : -1 ∉ first) (behind : -1 ∉ rest) (inputStatic : input.hasDynamicDim = false)
    (found : scanTarget target = .ok ⟨some first.length, wrap64 (known target.dims)⟩)
    (small : input.elements < 2 ^ 64) :
    ReshapeExact input target ↔
      2 ^ 64 ∣ known target.dims ∨ known target.dims < 2 ^ 63 ∧
        (input.elements < 2 ^ 63 ∨
          ¬ known target.dims ∣ input.elements ∧ ¬ known target.dims ∣ 2 ^ 64 - input.elements) := by
  obtain ⟨result, divided⟩ := reshape_one inputStatic found small
  have candidates := exists_fits split before behind inputStatic
  have positive := known_pos target.valid
  have some := Shape.elements_pos inputStatic
  by_cases zero : 2 ^ 64 ∣ known target.dims
  · -- The product has wrapped to zero: nothing fits and nothing is divided.
    have wrapped := wrap64_zero.mpr zero
    rw [if_pos wrapped] at divided
    have refused := result.trans (inferDim_refused wrapped.ge (Or.inl wrapped))
    refine iff_of_true ((exact_of_error (fun k found => ?_) refused).mpr (Or.inr ?_)) (Or.inl zero)
    · rw [divided] at found
      cases found
    · rw [candidates]
      rintro ⟨divides, _⟩
      have large := Nat.le_of_dvd positive zero
      have below := Nat.le_of_dvd some divides
      omega
  · have kept : ¬ wrap64 (known target.dims) = 0 := fun wrapped => zero (wrap64_zero.mp wrapped)
    rw [if_neg kept] at divided
    by_cases whole : known target.dims < 2 ^ 63
    · have same : wrap64 (known target.dims) = (known target.dims : Int) := wrap64_exact.mpr whole
      rw [same] at divided result
      have divides : ∀ k, divisor input target = Option.some k → k = known target.dims := by
        intro k found
        rw [divided, Option.some.injEq] at found
        exact found.symm
      by_cases low : input.elements < 2 ^ 63
      · refine iff_of_true ?_ (Or.inr ⟨whole, Or.inl low⟩)
        by_cases exact : known target.dims ∣ input.elements
        · obtain ⟨shape, made, fits⟩ := inferDim_small split before behind inputStatic low exact
          exact (exact_of_ok divides (result.trans made)).mpr fits
        · have inexact : (wrap64 input.elements).tmod (known target.dims) ≠ 0 := by
            rw [show wrap64 input.elements = input.elements from wrap64_exact.mpr low]
            exact fun remainder => exact (tmod_zero.mp remainder)
          have refused := result.trans (inferDim_refused (by omega) (Or.inr inexact))
          refine (exact_of_error divides refused).mpr (Or.inr ?_)
          rw [candidates]
          exact fun both => exact both.1
      · have high := Nat.le_of_not_lt low
        by_cases negative : known target.dims ∣ 2 ^ 64 - input.elements
        · refine iff_of_false (exact_negative split high small negative result) ?_
          rintro (wrapped | ⟨_, below | ⟨_, other⟩⟩)
          · exact zero wrapped
          · exact low below
          · exact other negative
        · have inexact : (wrap64 input.elements).tmod (known target.dims) ≠ 0 :=
            fun remainder => negative ((tmod_negative high small).mp remainder)
          have refused := result.trans (inferDim_refused (by omega) (Or.inr inexact))
          rw [exact_of_error divides refused, candidates, count_one split before behind]
          -- An exact quotient by 2 or more is below 2^63.
          have half : known target.dims ∣ input.elements →
              input.elements / known target.dims < 2 ^ 63 := by
            intro exact
            have other : known target.dims ≠ 1 := fun one => negative (one ▸ Nat.one_dvd _)
            have bound := Nat.div_le_div_left (show 2 ≤ known target.dims by omega)
              (show 0 < 2 by decide) (a := input.elements)
            omega
          constructor
          · rintro (several | inexact)
            · omega
            · exact Or.inr ⟨whole, Or.inr ⟨fun exact => inexact ⟨exact, half exact⟩, negative⟩⟩
          · rintro (wrapped | ⟨_, below | ⟨other, _⟩⟩)
            · exact absurd wrapped zero
            · exact absurd below low
            · exact Or.inr fun both => other both.1
    · refine iff_of_false (fun exact => ?_) ?_
      · have same := exact.divides _ divided
        exact whole (wrap64_exact.mp same)
      · rintro (wrapped | ⟨below, _⟩)
        · exact zero wrapped
        · exact whole below

/-- Reshape inference is exact on the safe counts and products and on no others. -/
theorem reshape_exact_iff (inputStatic : input.hasDynamicDim = false) :
    ReshapeExact input target ↔ ReshapeSafe input target := by
  unfold ReshapeSafe
  cases scanned target with
  | none static found =>
      have count : target.dims.count (-1) = 0 := List.count_eq_zero.mpr static
      rw [exact_static inputStatic static found, count]
      simp
  | one first rest split before behind found =>
      rw [count_one split before behind]
      by_cases small : input.elements < 2 ^ 64
      · rw [exact_one split before behind inputStatic found small, if_pos small]
        simp
      · have numel : input.numel = .error (.invalidArgument
            ("numel overflow for shape: " ++ input.toString)) := by
          rw [Shape.numel_static inputStatic, if_neg small]
        have refused : inferReshapeShape input target = .error (.returned (.invalidArgument
            ("numel overflow for shape: " ++ input.toString))) := by
          rw [inferReshapeShape, found, numel]
          exact if_neg (by rw [inputStatic]; decide)
        have undivided : ∀ k, divisor input target = some k → k = known target.dims := by
          intro k divided
          rw [divisor, found, numel] at divided
          cases divided
        rw [exact_of_error undivided refused, exists_fits split before behind inputStatic,
          count_one split before behind, if_neg small]
        simp
  | many several st failed =>
      exact iff_of_true (exact_many several failed) (Or.inl several)

end Cases

section Limits

-- 2^63 + 1 = 119537721 * 77158673929; twice that wraps to 2.
def wrappingTarget : Shape := { dims := [2, 119537721, 77158673929, -1] }

def fourElements : Shape := { dims := [4] }

/-- Four elements are given a shape of 2^65 + 4, and 2^63 elements one that throws. -/
theorem wrappingTarget_inferred :
    ¬ ReshapeExact fourElements wrappingTarget ∧
      inferReshapeShape fourElements wrappingTarget =
        .ok { dims := [2, 119537721, 77158673929, 2] } ∧
      inferReshapeShape { dims := [4611686018427387904, 2] } { dims := [-1] } = .error .thrown := by
  have inferred : inferReshapeShape fourElements wrappingTarget =
      .ok { dims := [2, 119537721, 77158673929, 2] } := by rfl
  refine ⟨fun exact => ?_, inferred, by rfl⟩
  have count := (exact.fits _ inferred).count
  exact absurd count (by decide)

theorem reshape_exact_six :
    inferReshapeShape { dims := [2, 3] } { dims := [3, -1] } = .ok { dims := [3, 2] } ∧
      ReshapeExact { dims := [2, 3] } { dims := [3, -1] } := by
  have exact := @reshape_exact_iff { dims := [2, 3] } { dims := [3, -1] } (by decide)
  exact ⟨by rfl, exact.mpr (by unfold ReshapeSafe; decide)⟩

end Limits

end MiniLLM.ShapeInfer
