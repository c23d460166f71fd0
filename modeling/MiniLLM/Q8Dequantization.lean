import MiniLLM.FloatFormat
import MiniLLM.WeightLoading
import Mathlib.Data.Nat.Bitwise

/-!
Q8_0 weights read in two ways: converted to floats when they are loaded, or
decoded element by element inside the CPU kernels. Both have a half-to-float
decoder of their own. A float is its 32-bit word; multiplication and `ldexp`
round to the nearest word, and here nothing is lost to rounding.
-/

namespace MiniLLM

open ByteReader Loops FloatFormat

namespace Cpu

/-- The words of the format fit in 32 bits. -/
def word (bits : Nat) : UInt32 := UInt32.ofNat bits

def floatValue (float : UInt32) : Option Dyadic := binary32.value float.toNat

def multiply (a b : UInt32) : UInt32 := word (binary32.multiply a.toNat b.toNat)

/-- `static_cast<float>(i)` -/
def floatOfInt (i : Int) : UInt32 := word (binary32.round (i < 0) i.natAbs 0)

/-- `std::ldexp(static_cast<float>(n), exp)` -/
def ldexp (n : Nat) (exp : Int) : UInt32 := word (binary32.round false n exp)

def f16ToF32 (bits : UInt16) : UInt32 :=
  let neg := bits &&& 0x8000 ≠ 0
  let exp := (bits.toUInt32 >>> 10) &&& 0x1F
  let mant := bits.toUInt32 &&& 0x3FF
  let value :=
    if exp = 0 then
      if mant = 0 then 0 else ldexp mant.toNat (-24)
    else if exp = 31 then
      if mant = 0 then word binary32.infinity else word binary32.quietNaN
    else ldexp (0x400 ||| mant).toNat ((exp.toNat : Int) - 25)
  if neg then word (binary32.negate value.toNat) else value

/-- The scale of the block that begins at byte `block`. -/
def q8_0Scale (blocks : Bytes) (block : Nat) : UInt32 := f16ToF32 (WeightLoader.u16At blocks block)

def q8_0Value (blocks : Bytes) (elementIndex : Nat) : UInt32 :=
  let blockIndex := elementIndex / kQ8_0BlockElems
  let blockOffset := elementIndex % kQ8_0BlockElems
  let block := blockIndex * kQ8_0BlockSize
  multiply (q8_0Scale blocks block)
    (floatOfInt (WeightLoader.byteAt blocks (block + 2 + blockOffset)).toInt8.toInt)

theorem word_toNat {bits : Nat} (short : bits < 2 ^ 32) : (word bits).toNat = bits := by
  rw [word, UInt32.toNat_ofNat']
  omega

theorem word_round (neg : Bool) (n : Nat) (k : Int) :
    (word (binary32.round neg n k)).toNat = binary32.round neg n k :=
  word_toNat (Format.compose_lt neg (Format.below_sign (Format.nearest_le _)))

/-! The two decoders. -/

theorem half_exp (bits : UInt16) :
    ((bits.toUInt32 >>> 10) &&& 0x1F).toNat = bits.toNat / 2 ^ 10 % 2 ^ 5 := by
  rw [UInt32.toNat_and, UInt32.toNat_shiftRight, UInt16.toNat_toUInt32]
  change bits.toNat >>> 10 &&& 2 ^ 5 - 1 = _
  rw [Nat.and_two_pow_sub_one_eq_mod, Nat.shiftRight_eq_div_pow]

theorem half_mant (bits : UInt16) : (bits.toUInt32 &&& 0x3FF).toNat = bits.toNat % 2 ^ 10 := by
  rw [UInt32.toNat_and, UInt16.toNat_toUInt32]
  change bits.toNat &&& 2 ^ 10 - 1 = _
  rw [Nat.and_two_pow_sub_one_eq_mod]

theorem half_sign (bits : UInt16) :
    ((bits.toUInt32 >>> 15) &&& 0x1).toNat = (binary16.negative bits.toNat).toNat := by
  rw [UInt32.toNat_and, UInt32.toNat_shiftRight, UInt16.toNat_toUInt32]
  change bits.toNat >>> 15 &&& 2 ^ 1 - 1 = (decide (bits.toNat / 2 ^ 15 % 2 = 1)).toNat
  rw [Nat.and_two_pow_sub_one_eq_mod, Nat.shiftRight_eq_div_pow, Nat.pow_one]
  generalize bits.toNat / 2 ^ 15 = top
  rcases Nat.mod_two_eq_zero_or_one top with even | odd
  · simp [even]
  · simp [odd]

theorem half_neg (bits : UInt16) : bits &&& 0x8000 ≠ 0 ↔ binary16.negative bits.toNat = true := by
  have bit : (bits &&& 0x8000).toNat = (bits.toNat.testBit 15).toNat * 2 ^ 15 := by
    rw [UInt16.toNat_and]
    change bits.toNat &&& 2 ^ 15 = _
    exact Nat.and_two_pow _ _
  rw [ne_eq, ← UInt16.toNat_inj, bit]
  change _ ↔ decide (bits.toNat / 2 ^ 15 % 2 = 1) = true
  rw [← Nat.testBit_eq_decide_div_mod_eq]
  cases bits.toNat.testBit 15 <;> simp

/-- The fields of a finite half, as both decoders extract them. -/
theorem half_finite {bits : UInt16} {n : Nat} {k : Int}
    (finite : binary16.decode bits.toNat = some (n, k)) :
    (bits.toUInt32 &&& 0x3FF).toNat < 2 ^ 10 ∧ ((bits.toUInt32 >>> 10) &&& 0x1F).toNat < 31 ∧
      (((bits.toUInt32 >>> 10) &&& 0x1F = 0 ∧ n = (bits.toUInt32 &&& 0x3FF).toNat ∧ k = -24) ∨
        ((bits.toUInt32 >>> 10) &&& 0x1F ≠ 0 ∧ n = 2 ^ 10 + (bits.toUInt32 &&& 0x3FF).toNat ∧
          k = (-24 : Int) + (((bits.toUInt32 >>> 10) &&& 0x1F).toNat : Int) - 1)) := by
  have ⟨ordinary, kinds⟩ := Format.decode_some finite
  have fieldLow : bits.toNat / 2 ^ 10 % 2 ^ 5 < 32 := Nat.mod_lt _ (Nat.two_pow_pos _)
  have low : bits.toNat % 2 ^ 10 < 2 ^ 10 := Nat.mod_lt _ (Nat.two_pow_pos _)
  change bits.toNat / 2 ^ 10 % 2 ^ 5 ≠ 31 at ordinary
  change (bits.toNat / 2 ^ 10 % 2 ^ 5 = 0 ∧ n = bits.toNat % 2 ^ 10 ∧ k = -24) ∨
    (bits.toNat / 2 ^ 10 % 2 ^ 5 ≠ 0 ∧ n = 2 ^ 10 + bits.toNat % 2 ^ 10 ∧
      k = (-24 : Int) + ((bits.toNat / 2 ^ 10 % 2 ^ 5 : Nat) : Int) - 1) at kinds
  rw [← UInt32.toNat_inj, ne_eq, ← UInt32.toNat_inj, half_exp, half_mant]
  exact ⟨low, by omega, kinds⟩

theorem signed_word (negative : Bool) (n : Nat) (k : Int) :
    (if negative = true then word (binary32.negate (ldexp n k).toNat) else ldexp n k) =
      word (binary32.round negative n k) := by
  cases negative with
  | false => rw [if_neg Bool.false_ne_true, ldexp]
  | true => rw [if_pos rfl, ldexp, word_round, Format.negate_round, Bool.not_false]

/-- A finite half decodes to the nearest word of its value. -/
theorem f16ToF32_finite {bits : UInt16} {n : Nat} {k : Int}
    (finite : binary16.decode bits.toNat = some (n, k)) :
    f16ToF32 bits = word (binary32.round (binary16.negative bits.toNat) n k) := by
  obtain ⟨low, field, kinds⟩ := half_finite finite
  rw [f16ToF32, ← signed_word]
  simp only [half_neg]
  generalize (bits.toUInt32 >>> 10) &&& 0x1F = exp at field kinds ⊢
  generalize bits.toUInt32 &&& 0x3FF = mant at low kinds ⊢
  rcases kinds with ⟨subnormal, rfl, rfl⟩ | ⟨normal, rfl, rfl⟩
  · rw [if_pos subnormal]
    by_cases zero : mant = 0
    · rw [if_pos zero, zero]
      rfl
    · rw [if_neg zero]
  · have ordinary : exp ≠ 31 := by
      rintro rfl
      exact absurd field (by decide)
    have joined : (0x400 ||| mant).toNat = 2 ^ 10 + mant.toNat := by
      rw [UInt32.toNat_or]
      exact (Nat.two_pow_add_eq_or_of_lt low 1).symm
    have shifted : (exp.toNat : Int) - 25 = -24 + exp.toNat - 1 := by omega
    rw [if_neg normal, if_neg ordinary, joined, shifted]

end Cpu

namespace WeightLoader

open Cpu

/-- Sign, exponent and mantissa of a float side by side. -/
theorem joined_toNat {sign exp mant : UInt32} (bit : sign.toNat < 2) (byte : exp.toNat < 2 ^ 8)
    (low : mant.toNat < 2 ^ 23) :
    ((sign <<< 31) ||| (exp <<< 23) ||| mant).toNat =
      sign.toNat * 2 ^ 31 + (exp.toNat * 2 ^ 23 + mant.toNat) := by
  have top : (sign <<< 31).toNat = sign.toNat <<< 31 := by
    rw [UInt32.toNat_shiftLeft]
    change sign.toNat <<< 31 % 2 ^ 32 = _
    rw [Nat.shiftLeft_eq, Nat.mod_eq_of_lt (by omega)]
  have middle : (exp <<< 23).toNat = exp.toNat <<< 23 := by
    rw [UInt32.toNat_shiftLeft]
    change exp.toNat <<< 23 % 2 ^ 32 = _
    rw [Nat.shiftLeft_eq, Nat.mod_eq_of_lt (by omega)]
  rw [UInt32.or_assoc, UInt32.toNat_or, UInt32.toNat_or, top, middle,
    ← Nat.shiftLeft_add_eq_or_of_lt low, ← Nat.shiftLeft_add_eq_or_of_lt, Nat.shiftLeft_eq,
    Nat.shiftLeft_eq]
  rw [Nat.shiftLeft_eq]
  omega

/-- The word of a float with the given fields. -/
theorem joined_eq {sign exp mant : UInt32} {negative : Bool} (bit : sign.toNat = negative.toNat)
    (byte : exp.toNat < 255) (low : mant.toNat < 2 ^ 23) :
    (sign <<< 31) ||| (exp <<< 23) ||| mant =
      word (binary32.compose negative (exp.toNat * 2 ^ 23 + mant.toNat)) := by
  have small := Bool.toNat_lt negative
  rw [← UInt32.toNat_inj, joined_toNat (by omega) (by omega) low, word_toNat, Format.compose, bit]
  · cases negative with
    | false => simp
    | true => rfl
  · exact @Format.compose_lt binary32 _ negative (by change _ < 2 ^ 31; omega)

theorem nearest_binary32 {n : Nat} (nonzero : n ≠ 0) {k : Int} (digits : n < 2 ^ 24)
    (normal : -126 ≤ n.log2 + k) (range : n.log2 + k ≤ 127) :
    binary32.nearest (Dyadic.ofIntWithPrec n (-k)) =
      (n.log2 + k + 126).toNat * 2 ^ 23 + n * 2 ^ (23 - n.log2) := by
  have size : n.log2 < 24 := (Nat.log2_lt nonzero).mpr digits
  have least : binary32.least = -149 := rfl
  have bits : binary32.mantBits = 23 := rfl
  have special : binary32.special = 255 := rfl
  have place : max ((n.log2 : Int) + k - 23) (-149) = n.log2 + k - 23 := by omega
  have lifted : ((n.log2 : Int) + k - 23 - -149).toNat = (n.log2 + k + 126).toNat := by omega
  have shift : (k - ((n.log2 : Int) + k - 23)).toNat = 23 - n.log2 := by omega
  have high := (leading_bit nonzero (Nat.le_of_lt_succ size)).2
  have exact := @Format.nearest_exact binary32 n nonzero k digits
    (by rw [least]; omega)
  rw [least, bits, special, Nat.cast_ofNat, place, lifted, shift] at exact
  rw [exact, min_eq_left (by omega)]

theorem shiftLeft_mant {mant : UInt32} (low : mant.toNat < 2 ^ 10) :
    (mant <<< 13).toNat = mant.toNat * 2 ^ 13 := by
  rw [UInt32.toNat_shiftLeft]
  change mant.toNat <<< 13 % 2 ^ 32 = _
  rw [Nat.shiftLeft_eq, Nat.mod_eq_of_lt (by omega)]

/-- The leading bit is shifted to bit 10, and the exponent goes down as far. -/
theorem normalized {mant : UInt32} (nonzero : mant.toNat ≠ 0) (low : mant.toNat < 2 ^ 10) :
    (1 - (10 - mant.log2) + 112).toNat = 103 + mant.toNat.log2 ∧
      (mant <<< (10 - mant.log2) &&& 0x3FF).toNat + 2 ^ 10 =
        mant.toNat * 2 ^ (10 - mant.toNat.log2) := by
  have leading : mant.log2.toNat = mant.toNat.log2 := rfl
  have size : mant.toNat.log2 < 10 := (Nat.log2_lt nonzero).mpr low
  have shift : (10 - mant.log2).toNat = 10 - mant.toNat.log2 := by
    rw [UInt32.toNat_sub_of_le, leading]
    · rfl
    · rw [UInt32.le_iff_toNat_le, leading]
      exact size.le
  constructor
  · rw [UInt32.toNat_add, UInt32.toNat_sub, shift]
    change ((2 ^ 32 - (10 - mant.toNat.log2) + 1) % 2 ^ 32 + 112) % 2 ^ 32 = _
    omega
  · have ⟨floor, ceiling⟩ := leading_bit nonzero size.le
    have moved : (mant <<< (10 - mant.log2)).toNat = mant.toNat * 2 ^ (10 - mant.toNat.log2) := by
      rw [UInt32.toNat_shiftLeft, shift, Nat.mod_eq_of_lt (by omega : 10 - mant.toNat.log2 < 32),
        Nat.shiftLeft_eq, Nat.mod_eq_of_lt (by omega)]
    rw [UInt32.toNat_and, moved]
    change (mant.toNat * 2 ^ (10 - mant.toNat.log2) &&& 2 ^ 10 - 1) + 2 ^ 10 = _
    rw [Nat.and_two_pow_sub_one_eq_mod]
    omega

/-- The decoder of the loader gives the same word. -/
theorem f16ToF32_finite {bits : UInt16} {n : Nat} {k : Int}
    (finite : binary16.decode bits.toNat = some (n, k)) :
    f16ToF32 bits = word (binary32.round (binary16.negative bits.toNat) n k) := by
  obtain ⟨low, field, kinds⟩ := half_finite finite
  have sign := half_sign bits
  rw [f16ToF32, Format.round]
  generalize (bits.toUInt32 >>> 10) &&& 0x1F = exp at field kinds ⊢
  generalize bits.toUInt32 &&& 0x3FF = mant at low kinds ⊢
  generalize (bits.toUInt32 >>> 15) &&& 0x1 = top at sign ⊢
  rcases kinds with ⟨subnormal, rfl, rfl⟩ | ⟨normal, rfl, rfl⟩
  · rw [if_pos subnormal]
    by_cases zero : mant = 0
    · have nothing := @joined_eq _ 0 0 _ sign (by decide) (by decide)
      have rest : binary32.nearest (Dyadic.ofIntWithPrec ((0 : UInt32).toNat : Int) (- -24)) = 0 := rfl
      rw [if_pos zero, zero, rest]
      simpa using nothing
    · -- The leading bit of a subnormal half becomes the hidden one.
      have nonzero : mant.toNat ≠ 0 := fun empty => zero (UInt32.toNat_inj.mp empty)
      have size : mant.toNat.log2 < 10 := (Nat.log2_lt nonzero).mpr low
      obtain ⟨lowered, leading⟩ := normalized nonzero low
      have short : (mant <<< (10 - mant.log2) &&& 0x3FF).toNat < 2 ^ 10 := by
        rw [UInt32.toNat_and]
        exact Nat.and_lt_two_pow _ (by decide)
      rw [if_neg zero, joined_eq sign (by rw [lowered]; omega)
        (by rw [shiftLeft_mant short]; omega), lowered, shiftLeft_mant short,
        nearest_binary32 nonzero (by omega) (by omega) (by omega)]
      have place : ((mant.toNat.log2 : Int) + -24 + 126).toNat = 102 + mant.toNat.log2 := by omega
      have scaled : mant.toNat * 2 ^ (23 - mant.toNat.log2) =
          mant.toNat * 2 ^ (10 - mant.toNat.log2) * 2 ^ 13 := by
        rw [Nat.mul_assoc, ← Nat.pow_add]
        congr 2
        omega
      have same : ∀ rest : Nat, (103 + mant.toNat.log2) * 2 ^ 23 + rest * 2 ^ 13 =
          (102 + mant.toNat.log2) * 2 ^ 23 + (rest + 2 ^ 10) * 2 ^ 13 := by omega
      rw [place, scaled, ← leading, same]
  · have ordinary : exp ≠ 31 := by
      rintro rfl
      exact absurd field (by decide)
    have log : (2 ^ 10 + mant.toNat).log2 = 10 := by
      rw [Nat.log2_eq_iff (by omega)]
      omega
    have place : (((10 : Nat) : Int) + (-24 + exp.toNat - 1) + 126).toNat = exp.toNat + 111 := by
      omega
    have raised : (exp + 112).toNat = exp.toNat + 112 := by
      rw [UInt32.toNat_add]
      change (exp.toNat + 112) % 2 ^ 32 = _
      omega
    rw [if_neg normal, if_neg ordinary, joined_eq sign (by rw [raised]; omega)
      (by rw [shiftLeft_mant low]; omega), raised, shiftLeft_mant low,
      nearest_binary32 (by omega) (by omega) (by rw [log]; omega) (by rw [log]; omega), log, place]
    have same : (exp.toNat + 112) * 2 ^ 23 + mant.toNat * 2 ^ 13 =
        (exp.toNat + 111) * 2 ^ 23 + (2 ^ 10 + mant.toNat) * 2 ^ (23 - 10) := by omega
    rw [same]

/-! The two ways to read a block. -/

theorem decode_bounds {bits : UInt16} {n : Nat} {k : Int}
    (finite : binary16.decode bits.toNat = some (n, k)) : n < 2 ^ 11 ∧ -24 ≤ k ∧ k ≤ 5 := by
  obtain ⟨low, field, ⟨-, rfl, rfl⟩ | ⟨normal, rfl, rfl⟩⟩ := half_finite finite
  · omega
  · have positive : ((bits.toUInt32 >>> 10) &&& 0x1F).toNat ≠ 0 := fun zero =>
      normal (UInt32.toNat_inj.mp zero)
    omega

theorem floatValue_round (negative : Bool) {n : Nat} {k : Int} (digits : n < 2 ^ 24)
    (fine : -149 ≤ k) (range : n.log2 + k ≤ 127) :
    floatValue (word (binary32.round negative n k)) = some (signed negative n k) := by
  rw [floatValue, word_round]
  exact @Format.value_round binary32 negative n k (by decide) digits fine range

theorem log2_le {n bound : Nat} (below : n < 2 ^ (bound + 1)) : n.log2 ≤ bound := by
  by_cases zero : n = 0
  · rw [zero, Nat.log2_zero]
    exact Nat.zero_le _
  · exact Nat.lt_succ_iff.mp ((Nat.log2_lt zero).mpr below)

/-- The decoders agree on every finite half, and lose nothing of it. -/
theorem f16ToF32_agrees {bits : UInt16} (finite : (binary16.decode bits.toNat).isSome) :
    f16ToF32 bits = Cpu.f16ToF32 bits ∧
      floatValue (Cpu.f16ToF32 bits) = binary16.value bits.toNat := by
  obtain ⟨⟨n, k⟩, decoded⟩ := Option.isSome_iff_exists.mp finite
  obtain ⟨short, low, high⟩ := decode_bounds decoded
  have size := log2_le short
  refine ⟨(f16ToF32_finite decoded).trans (Cpu.f16ToF32_finite decoded).symm, ?_⟩
  rw [Cpu.f16ToF32_finite decoded, floatValue_round _ (by omega) (by omega) (by omega),
    Format.value, decoded]
  rfl

theorem multiply_comm (a b : UInt32) : multiply a b = multiply b a := by
  rw [multiply, multiply, Format.multiply_comm]

/-- `static_cast<float>(qs[i]) * scale` -/
def floatProduct (q : Int8) (scale : UInt32) : UInt32 := multiply (floatOfInt q.toInt) scale

theorem q8Element_eq (src : Bytes) (i : Nat)
    (finite : (binary16.decode (u16At src (i / 32 * 34)).toNat).isSome) :
    q8Element floatProduct src (i / 32) (i % 32) = q8_0Value src i := by
  rw [q8_0Value, q8_0Scale, multiply_comm]
  simp only [kQ8_0BlockElems, kQ8_0BlockSize, ← (f16ToF32_agrees finite).1]
  rfl

/-- The product of a scale and an 8-bit value fits in a float. -/
theorem q8_0Value_exact (src : Bytes) (i : Nat)
    (finite : (binary16.decode (u16At src (i / 32 * 34)).toNat).isSome) :
    floatValue (q8_0Value src i) = (binary16.value (u16At src (i / 32 * 34)).toNat).map
      (· * ((byteAt src (i / 32 * 34 + 2 + i % 32)).toInt8.toInt : Dyadic)) := by
  obtain ⟨⟨n, k⟩, decoded⟩ := Option.isSome_iff_exists.mp finite
  obtain ⟨short, low, high⟩ := decode_bounds decoded
  have size := log2_le short
  have least := (byteAt src (i / 32 * 34 + 2 + i % 32)).toInt8.le_toInt
  have most := (byteAt src (i / 32 * 34 + 2 + i % 32)).toInt8.toInt_lt
  rw [q8_0Value, q8_0Scale]
  simp only [kQ8_0BlockElems, kQ8_0BlockSize]
  rw [Cpu.f16ToF32_finite decoded, Format.value, decoded, floatValue, multiply]
  generalize (byteAt src (i / 32 * 34 + 2 + i % 32)).toInt8.toInt = q at least most ⊢
  generalize binary16.negative (u16At src (i / 32 * 34)).toNat = neg
  have small : q.natAbs ≤ 128 := by omega
  have digits : n * q.natAbs < 2 ^ 19 :=
    (Nat.mul_le_mul (Nat.le_of_lt short) small).trans_lt (by decide)
  have productSize := log2_le digits
  have scale := floatValue_round neg (n := n) (k := k) (by omega) (by omega) (by omega)
  have factor := floatValue_round (decide (q < 0)) (n := q.natAbs) (k := 0) (by omega) (by omega)
    (by have := @log2_le q.natAbs 7 (by omega); omega)
  rw [floatValue, word_round] at scale factor
  have product := @Format.value_multiply binary32 _ _ _ _ _ _ (by decide)
    (scale.trans (by rw [Format.negative_round])) (factor.trans (by rw [Format.negative_round]))
    (by change _ < 2 ^ 24; omega) (by change (-149 : Int) ≤ _; omega) (by change _ ≤ (127 : Int); omega)
  obtain ⟨sign, m, j, rounded⟩ := Format.multiply_finite binary32 scale factor
  rw [Format.negative_round, Format.negative_round] at product
  rw [floatOfInt, word_round, word_round, rounded, word_round, ← rounded, product]
  have whole : signed (decide (q < 0)) q.natAbs 0 = (q : Dyadic) := by
    have same : (if decide (q < 0) = true then -((q.natAbs : Nat) : Int) else (q.natAbs : Int)) = q := by
      simp only [decide_eq_true_eq]
      split <;> omega
    rw [signed, same]
    rfl
  rw [whole]
  rfl

/-- The float at index `i` of a load's destination. -/
def Sink.floatAt (dst : Sink) (i : Nat) : UInt32 :=
  ⟨assemble 32 [dst.data (4 * i), dst.data (4 * i + 1), dst.data (4 * i + 2), dst.data (4 * i + 3)]⟩

theorem FloatsStored.floatAt {element : Nat → UInt32} {count : Nat} {dst : Sink}
    (stored : FloatsStored element count dst) {i : Nat} (below : i < count) :
    dst.floatAt i = element i := by
  have bytes : ∀ word : BitVec 32, [byteAt (littleEndian 4 word) 0, byteAt (littleEndian 4 word) 1,
      byteAt (littleEndian 4 word) 2, byteAt (littleEndian 4 word) 3] = littleEndian 4 word :=
    fun _ => rfl
  have first := stored.2 i below 0 (by decide)
  rw [Nat.add_zero] at first
  rw [Sink.floatAt, first, stored.2 i below 1 (by decide), stored.2 i below 2 (by decide),
    stored.2 i below 3 (by decide), bytes, assemble_littleEndian 4 _ (element i).toBitVec.isLt]

/-- Loading converts each element to the float that the kernels decode, which is the exact
product of scale and value; the two half-to-float decoders agree on all finite scales. -/
theorem q8_0_agrees (src : Bytes) (data : Buffer UInt8) (numElements : Nat)
    (held : (numElements + 31) / 32 * 34 ≤ src.length) (addressable : src.length < 2 ^ 64)
    (finite : ∀ block < (numElements + 31) / 32,
      (binary16.decode (u16At src (block * 34)).toNat).isSome) :
    (∀ bits : UInt16, (binary16.decode bits.toNat).isSome →
      f16ToF32 bits = Cpu.f16ToF32 bits ∧
        floatValue (f16ToF32 bits) = binary16.value bits.toNat) ∧
    ∃ dst, dequantizeToF32 floatProduct .Q8_0 src ⟨data, 0⟩ numElements = .ok dst ∧
      ∀ i < numElements, dst.floatAt i = q8_0Value src i ∧
        floatValue (dst.floatAt i) = (binary16.value (u16At src (i / 32 * 34)).toNat).map
          (· * ((byteAt src (i / 32 * 34 + 2 + i % 32)).toInt8.toInt : Dyadic)) := by
  constructor
  · intro bits finite
    obtain ⟨same, exact⟩ := f16ToF32_agrees finite
    exact ⟨same, same ▸ exact⟩
  · have stored := blocks_stored (q8Element floatProduct src) numElements data
    refine ⟨_, rfl, fun i below => ?_⟩
    have scale := finite (i / 32) (by omega)
    rw [q8Blocks_eq numElements (by omega)]
    have read := stored.floatAt below
    rw [q8Element_eq src i scale] at read
    exact ⟨read, (congrArg floatValue read).trans (q8_0Value_exact src i scale)⟩

/-- A block of scale 1 and one of the smallest scale, of which one element is used. -/
def mixedBlocks : Bytes := 0x00 :: 0x3C :: List.replicate 32 2 ++ 0x01 :: 0x00 :: List.replicate 32 0xFF

theorem q8_0_agrees_mixed :
    ∃ dst, dequantizeToF32 floatProduct .Q8_0 mixedBlocks ⟨fun _ => 0, 0⟩ 33 = .ok dst ∧
      dst.floatAt 32 = q8_0Value mixedBlocks 32 ∧
      floatValue (dst.floatAt 32) = some (Dyadic.ofIntWithPrec (-1) 24) := by
  obtain ⟨dst, loaded, each⟩ := (q8_0_agrees mixedBlocks (fun _ => 0) 33 (by decide) (by decide)
    (by decide)).2
  exact ⟨dst, loaded, each 32 (by decide)⟩

end WeightLoader

end MiniLLM
