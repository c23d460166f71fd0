import Mathlib.Algebra.Order.Ring.Int
import Mathlib.Algebra.Ring.Nat
import Mathlib.Tactic.Ring

/-!
Binary floating-point formats: a word is a sign, an exponent field and a
mantissa field, and a finite one stands for a dyadic number. `nearest` rounds to
the nearest word, ties to even; a dyadic number whose digits fit is not changed.
-/

namespace MiniLLM.FloatFormat

open Dyadic

def signed (negative : Bool) (n : Nat) (k : Int) : Dyadic :=
  ofIntWithPrec (if negative then -(n : Int) else n) (-k)

structure Format where
  expBits : Nat
  mantBits : Nat

def binary16 : Format := ⟨5, 10⟩

def binary32 : Format := ⟨8, 23⟩

namespace Format

variable (format : Format)

def bias : Int := 2 ^ (format.expBits - 1) - 1

/-- The exponent of the last place of a subnormal number. -/
def least : Int := 1 - format.bias - format.mantBits

/-- The exponent field of infinities and NaNs. -/
def special : Nat := 2 ^ format.expBits - 1

/-- Significand and exponent of a finite word. -/
def decode (word : Nat) : Option (Nat × Int) :=
  let exp := word / 2 ^ format.mantBits % 2 ^ format.expBits
  let mant := word % 2 ^ format.mantBits
  if exp = format.special then none
  else if exp = 0 then some (mant, format.least)
  else some (2 ^ format.mantBits + mant, format.least + exp - 1)

def negative (word : Nat) : Bool := word / 2 ^ (format.expBits + format.mantBits) % 2 = 1

def value (word : Nat) : Option Dyadic :=
  (format.decode word).map fun parts => signed (format.negative word) parts.1 parts.2

/-- A word from its sign and the rest. -/
def compose (negative : Bool) (magnitude : Nat) : Nat :=
  (if negative then 2 ^ (format.expBits + format.mantBits) else 0) + magnitude

/-- `n / 2 ^ s`, to the nearest integer and from the middle to the even one. -/
def roundEven (n s : Nat) : Nat :=
  let quotient := n / 2 ^ s
  let rest := n % 2 ^ s
  if 2 ^ s < 2 * rest ∨ (2 ^ s = 2 * rest ∧ quotient % 2 = 1) then quotient + 1 else quotient

/-- The nearest word to a number, without the sign; from the largest on it is infinite. -/
def nearest : Dyadic → Nat
  | .zero => 0
  | .ofOdd n q _ =>
      let place := max (n.natAbs.log2 - q - format.mantBits) format.least
      let significand :=
        if place ≤ -q then n.natAbs * 2 ^ (-q - place).toNat
        else roundEven n.natAbs (place + q).toNat
      min ((place - format.least).toNat * 2 ^ format.mantBits + significand)
        (format.special * 2 ^ format.mantBits)

def round (negative : Bool) (n : Nat) (k : Int) : Nat :=
  format.compose negative (format.nearest (ofIntWithPrec n (-k)))

def infinity : Nat := format.special * 2 ^ format.mantBits

def quietNaN : Nat := format.infinity + 2 ^ (format.mantBits - 1)

def negate (word : Nat) : Nat :=
  format.compose (!format.negative word) (word % 2 ^ (format.expBits + format.mantBits))

def isNaN (word : Nat) : Bool :=
  (format.decode word).isNone && word % 2 ^ format.mantBits != 0

/-- A NaN factor or infinity times zero give the quiet NaN. -/
def multiply (a b : Nat) : Nat :=
  let negative := format.negative a != format.negative b
  match format.decode a, format.decode b with
  | some (m, j), some (n, k) => format.round negative (m * n) (j + k)
  | left, right =>
      if format.isNaN a || format.isNaN b || left.any (·.1 == 0) || right.any (·.1 == 0) then
        format.quietNaN
      else format.compose negative format.infinity

/-- Two finite factors. -/
theorem multiply_finite {a b : Nat} {x y : Dyadic} (first : format.value a = some x)
    (second : format.value b = some y) : ∃ neg n k, format.multiply a b = format.round neg n k := by
  obtain ⟨parts, left, -⟩ := Option.map_eq_some_iff.mp first
  obtain ⟨others, right, -⟩ := Option.map_eq_some_iff.mp second
  rw [multiply]
  simp only [left, right]
  exact ⟨_, _, _, rfl⟩

theorem multiply_comm (a b : Nat) : format.multiply a b = format.multiply b a := by
  unfold multiply
  cases left : format.decode a with
  | none =>
      cases right : format.decode b <;>
        simp [Bool.or_comm, bne_comm (a := format.negative a)]
  | some x =>
      cases right : format.decode b with
      | none => simp [Bool.or_comm, bne_comm (a := format.negative a)]
      | some y => simp [Nat.mul_comm x.1, Int.add_comm x.2, bne_comm (a := format.negative a)]

end Format

/-! Odd parts. -/

theorem ofIntWithPrec_odd {n : Nat} (nonzero : n ≠ 0) (p : Int) :
    ∃ (odd t : Nat) (isOdd : (odd : Int) % 2 = 1), n = odd * 2 ^ t ∧
      ofIntWithPrec n p = .ofOdd odd (p - t) isOdd := by
  have positive : (n : Int) ≠ 0 := by exact_mod_cast nonzero
  have parity := Int.shiftRight_trailingZeros_mod_two positive
  have divides := Int.two_pow_trailingZeros_dvd positive
  have split : ofIntWithPrec n p = .ofOdd ((n : Int) >>> (n : Int).trailingZeros)
      (p - (n : Int).trailingZeros) parity := by
    rw [ofIntWithPrec, dif_neg positive]
  generalize (n : Int).trailingZeros = t at parity divides split
  have quotient : (n : Int) >>> t = ((n / 2 ^ t : Nat) : Int) := by
    rw [Int.shiftRight_eq_div_pow]
    push_cast
    rfl
  simp only [quotient] at parity split
  refine ⟨n / 2 ^ t, t, parity, ?_, split⟩
  rw [Nat.div_mul_cancel (by exact_mod_cast divides)]

theorem log2_mul_two_pow {n : Nat} (nonzero : n ≠ 0) (t : Nat) :
    (n * 2 ^ t).log2 = n.log2 + t := by
  have low := Nat.log2_self_le nonzero
  have high := @Nat.lt_log2_self n
  rw [Nat.log2_eq_iff (Nat.mul_ne_zero nonzero (Nat.ne_of_gt (Nat.two_pow_pos t)))]
  constructor
  · rw [Nat.pow_add]
    exact Nat.mul_le_mul_right _ low
  · rw [Nat.add_right_comm, Nat.pow_add]
    exact Nat.mul_lt_mul_of_pos_right high (Nat.two_pow_pos t)

/-- Shifted up to `place`, the leading bit is bit `place`. -/
theorem leading_bit {n : Nat} (nonzero : n ≠ 0) {place : Nat} (size : n.log2 ≤ place) :
    2 ^ place ≤ n * 2 ^ (place - n.log2) ∧ n * 2 ^ (place - n.log2) < 2 ^ (place + 1) := by
  constructor
  · calc 2 ^ place = 2 ^ n.log2 * 2 ^ (place - n.log2) := by
          rw [← Nat.pow_add, Nat.add_sub_cancel' size]
      _ ≤ n * 2 ^ (place - n.log2) := Nat.mul_le_mul_right _ (Nat.log2_self_le nonzero)
  · calc n * 2 ^ (place - n.log2)
        < 2 ^ (n.log2 + 1) * 2 ^ (place - n.log2) :=
          Nat.mul_lt_mul_of_pos_right Nat.lt_log2_self (Nat.two_pow_pos _)
      _ = 2 ^ (place + 1) := by
          rw [← Nat.pow_add, Nat.add_right_comm, Nat.add_sub_cancel' size]

theorem ofIntWithPrec_mul (m n p q : Int) :
    ofIntWithPrec m p * ofIntWithPrec n q = ofIntWithPrec (m * n) (p + q) := by
  have two : (2 : Rat) ≠ 0 := by decide
  rw [← toRat_inj, toRat_mul]
  simp only [toRat_ofIntWithPrec_eq_mul_two_pow]
  rw [Int.neg_add, Rat.zpow_add two, Int.cast_mul]
  ring

theorem signed_mul (first second : Bool) (m n : Nat) (j k : Int) :
    signed first m j * signed second n k = signed (first != second) (m * n) (j + k) := by
  rw [signed, signed, signed, ofIntWithPrec_mul, Int.neg_add]
  congr 1
  cases first <;> cases second <;> simp

theorem signed_inj_magnitude {neg : Bool} {m n : Nat} {j k : Int}
    (same : signed neg m j = signed neg n k) : ofIntWithPrec m (-j) = ofIntWithPrec n (-k) := by
  cases neg with
  | false => exact same
  | true =>
      rw [signed, signed] at same
      simp only [if_true, ← neg_ofIntWithPrec] at same
      have negated := congrArg (fun x : Dyadic => -x) same
      simpa using negated

theorem ofIntWithPrec_scale (n : Int) (p : Int) (t : Nat) :
    ofIntWithPrec (n * 2 ^ t) (p + t) = ofIntWithPrec n p := by
  rw [← Int.shiftLeft_eq, ofIntWithPrec_shiftLeft_add]

namespace Format

variable {format : Format}

/-- What `nearest` computes where no digit is lost. -/
theorem nearest_exact {n : Nat} (nonzero : n ≠ 0) {k : Int}
    (digits : n < 2 ^ (format.mantBits + 1)) (fine : format.least ≤ k) :
    format.nearest (ofIntWithPrec n (-k)) =
      min (((max (n.log2 + k - format.mantBits) format.least) - format.least).toNat *
          2 ^ format.mantBits +
        n * 2 ^ (k - max (n.log2 + k - format.mantBits) format.least).toNat)
      (format.special * 2 ^ format.mantBits) := by
  obtain ⟨odd, t, isOdd, rfl, split⟩ := ofIntWithPrec_odd nonzero (-k)
  have oddNonzero : odd ≠ 0 := fun zero => nonzero (by rw [zero, Nat.zero_mul])
  have size : (odd * 2 ^ t).log2 < format.mantBits + 1 := (Nat.log2_lt nonzero).mpr digits
  have place : (odd.log2 : Int) - (-k - t) - format.mantBits =
      (odd * 2 ^ t).log2 + k - format.mantBits := by
    rw [log2_mul_two_pow oddNonzero]
    omega
  rw [split, nearest]
  simp only [Int.natAbs_natCast, place]
  generalize h : max (((odd * 2 ^ t).log2 : Int) + k - format.mantBits) format.least = unit
  have low : unit ≤ k := by omega
  rw [if_pos (by omega)]
  congr 2
  rw [Nat.mul_assoc, ← Nat.pow_add]
  congr 2
  omega

/-- The two kinds of finite words. -/
theorem decode_some {word n : Nat} {k : Int} (finite : format.decode word = some (n, k)) :
    word / 2 ^ format.mantBits % 2 ^ format.expBits ≠ format.special ∧
      ((word / 2 ^ format.mantBits % 2 ^ format.expBits = 0 ∧ n = word % 2 ^ format.mantBits ∧
          k = format.least) ∨
        (word / 2 ^ format.mantBits % 2 ^ format.expBits ≠ 0 ∧
          n = 2 ^ format.mantBits + word % 2 ^ format.mantBits ∧
          k = format.least + (word / 2 ^ format.mantBits % 2 ^ format.expBits : Nat) - 1)) := by
  rw [decode] at finite
  split at finite
  · cases finite
  · rename_i ordinary
    refine ⟨ordinary, ?_⟩
    split at finite
    · rename_i subnormal
      obtain ⟨rfl, rfl⟩ := Prod.mk.inj (Option.some.inj finite)
      exact .inl ⟨subnormal, rfl, rfl⟩
    · rename_i normal
      obtain ⟨rfl, rfl⟩ := Prod.mk.inj (Option.some.inj finite)
      exact .inr ⟨normal, rfl, rfl⟩

/-- The fields of a word are found again. -/
theorem fields_compose {exp mant : Nat} (short : exp < 2 ^ format.expBits)
    (low : mant < 2 ^ format.mantBits) (neg : Bool) :
    format.compose neg (exp * 2 ^ format.mantBits + mant) / 2 ^ format.mantBits %
        2 ^ format.expBits = exp ∧
      format.compose neg (exp * 2 ^ format.mantBits + mant) % 2 ^ format.mantBits = mant ∧
      format.negative (format.compose neg (exp * 2 ^ format.mantBits + mant)) = neg := by
  have whole : format.compose neg (exp * 2 ^ format.mantBits + mant) =
      mant + 2 ^ format.mantBits * (exp + 2 ^ format.expBits * neg.toNat) := by
    rw [compose]
    cases neg
    · simp only [Bool.false_eq_true, if_false, Bool.toNat_false]
      ring
    · simp only [if_true, Bool.toNat_true, Nat.pow_add]
      ring
  have quotient : format.compose neg (exp * 2 ^ format.mantBits + mant) / 2 ^ format.mantBits =
      exp + 2 ^ format.expBits * neg.toNat := by
    rw [whole, Nat.add_mul_div_left _ _ (Nat.two_pow_pos _), Nat.div_eq_of_lt low, Nat.zero_add]
  refine ⟨?_, ?_, ?_⟩
  · rw [quotient, Nat.add_mul_mod_self_left, Nat.mod_eq_of_lt short]
  · rw [whole, Nat.add_mul_mod_self_left, Nat.mod_eq_of_lt low]
  · rw [negative, Nat.add_comm format.expBits, Nat.pow_add, ← Nat.div_div_eq_div_mul, quotient,
      Nat.add_mul_div_left _ _ (Nat.two_pow_pos _), Nat.div_eq_of_lt short, Nat.zero_add]
    cases neg <;> rfl

theorem decode_compose {exp mant : Nat} (short : exp < 2 ^ format.expBits)
    (low : mant < 2 ^ format.mantBits) (neg : Bool) :
    format.value (format.compose neg (exp * 2 ^ format.mantBits + mant)) =
      if exp = format.special then none
      else if exp = 0 then some (signed neg mant format.least)
      else some (signed neg (2 ^ format.mantBits + mant) (format.least + exp - 1)) := by
  obtain ⟨exponent, mantissa, sign⟩ := fields_compose short low neg
  rw [value, decode]
  simp only [exponent, mantissa, sign]
  split
  · rfl
  · split <;> rfl

theorem signed_scale (neg : Bool) (n : Nat) {k place : Int} (low : place ≤ k) :
    signed neg (n * 2 ^ (k - place).toNat) place = signed neg n k := by
  have exponent : -place = -k + ((k - place).toNat : Int) := by omega
  rw [signed, signed, exponent, ← ofIntWithPrec_scale _ (-k) (k - place).toNat]
  congr 1
  cases neg
  · push_cast
    rfl
  · push_cast
    simp only [if_true]
    ring

theorem nearest_le (d : Dyadic) : format.nearest d ≤ format.infinity := by
  cases d with
  | zero => exact Nat.zero_le _
  | ofOdd n q isOdd => exact min_le_right _ _

/-- A magnitude up to infinity leaves the bit of the sign alone. -/
theorem below_sign {magnitude : Nat} (finite : magnitude ≤ format.infinity) :
    magnitude < 2 ^ (format.expBits + format.mantBits) := by
  have special : format.special < 2 ^ format.expBits :=
    Nat.sub_lt (Nat.two_pow_pos _) Nat.one_pos
  rw [Nat.pow_add]
  exact finite.trans_lt (Nat.mul_lt_mul_of_pos_right special (Nat.two_pow_pos _))

theorem negative_compose {magnitude : Nat} (neg : Bool)
    (low : magnitude < 2 ^ (format.expBits + format.mantBits)) :
    format.negative (format.compose neg magnitude) = neg := by
  rw [negative, compose]
  cases neg with
  | false =>
      rw [if_neg Bool.false_ne_true, Nat.zero_add, Nat.div_eq_of_lt low]
      rfl
  | true =>
      rw [if_pos rfl, Nat.add_div_left _ (Nat.two_pow_pos _), Nat.div_eq_of_lt low]
      rfl

theorem negate_compose {magnitude : Nat} (neg : Bool)
    (low : magnitude < 2 ^ (format.expBits + format.mantBits)) :
    format.negate (format.compose neg magnitude) = format.compose (!neg) magnitude := by
  have rest : format.compose neg magnitude % 2 ^ (format.expBits + format.mantBits) =
      magnitude := by
    rw [compose]
    cases neg with
    | false => rw [if_neg Bool.false_ne_true, Nat.zero_add, Nat.mod_eq_of_lt low]
    | true => rw [if_pos rfl, Nat.add_mod_left, Nat.mod_eq_of_lt low]
  rw [negate, negative_compose neg low, rest]

theorem compose_lt {magnitude : Nat} (neg : Bool)
    (low : magnitude < 2 ^ (format.expBits + format.mantBits)) :
    format.compose neg magnitude < 2 ^ (format.expBits + format.mantBits + 1) := by
  rw [compose, Nat.pow_succ]
  split <;> omega

theorem negative_round (neg : Bool) (n : Nat) (k : Int) :
    format.negative (format.round neg n k) = neg :=
  negative_compose neg (below_sign (nearest_le _))

theorem negate_round (neg : Bool) (n : Nat) (k : Int) :
    format.negate (format.round neg n k) = format.round (!neg) n k :=
  negate_compose neg (below_sign (nearest_le _))

/-- A number with few enough digits, neither too small nor too large, is a word's value. -/
theorem value_round (neg : Bool) {n : Nat} {k : Int} (wide : 0 < format.expBits)
    (digits : n < 2 ^ (format.mantBits + 1)) (fine : format.least ≤ k)
    (range : n.log2 + k ≤ format.bias) :
    format.value (format.round neg n k) = some (signed neg n k) := by
  have two : 2 ^ format.expBits = 2 * 2 ^ (format.expBits - 1) := by
    rw [← Nat.pow_succ', Nat.succ_eq_add_one, Nat.sub_add_cancel wide]
  have special : (format.special : Int) = 2 * format.bias + 1 := by
    have positive := Nat.two_pow_pos (format.expBits - 1)
    have casted : (2 : Int) ^ (format.expBits - 1) = ((2 ^ (format.expBits - 1) : Nat) : Int) := by
      push_cast
      rfl
    rw [Format.special, bias, casted, two]
    omega
  have below : format.special < 2 ^ format.expBits :=
    Nat.sub_lt (Nat.two_pow_pos _) Nat.one_pos
  have some : 0 < format.special := by
    have positive := Nat.two_pow_pos (format.expBits - 1)
    rw [Format.special, two]
    omega
  rw [round]
  by_cases zero : n = 0
  · subst zero
    have nothing := @decode_compose format 0 0 (Nat.two_pow_pos _) (Nat.two_pow_pos _) neg
    rw [if_neg some.ne, if_pos rfl, Nat.zero_mul, Nat.zero_add] at nothing
    have same : ofIntWithPrec ((0 : Nat) : Int) (-k) = .zero := rfl
    rw [same, nearest, nothing]
    cases neg <;> rfl
  · have size : n.log2 < format.mantBits + 1 := (Nat.log2_lt zero).mpr digits
    have least : format.least = 1 - format.bias - format.mantBits := rfl
    rw [nearest_exact zero digits fine]
    by_cases normal : format.least ≤ n.log2 + k - format.mantBits
    · -- The leading bit falls on the first digit of the significand.
      rw [max_eq_left normal]
      generalize exponent : ((n.log2 + k - format.mantBits) - format.least).toNat = lifted
      have shift : (k - (n.log2 + k - format.mantBits)).toNat = format.mantBits - n.log2 := by omega
      obtain ⟨low, high⟩ := leading_bit zero (Nat.le_of_lt_succ size)
      rw [← shift] at low high
      rw [Nat.pow_succ'] at high
      have value := @signed_scale neg n k (n.log2 + k - format.mantBits) (by omega)
      generalize n * 2 ^ (k - (n.log2 + k - format.mantBits)).toNat = significand at *
      obtain ⟨mant, rfl⟩ := Nat.exists_eq_add_of_le low
      have field : lifted * 2 ^ format.mantBits + (2 ^ format.mantBits + mant) =
          (lifted + 1) * 2 ^ format.mantBits + mant := by ring
      have finite : lifted + 1 < format.special := by omega
      have room : (lifted + 1) * 2 ^ format.mantBits + mant ≤
          format.special * 2 ^ format.mantBits :=
        calc (lifted + 1) * 2 ^ format.mantBits + mant
            ≤ (lifted + 1) * 2 ^ format.mantBits + 2 ^ format.mantBits := by omega
          _ = (lifted + 1 + 1) * 2 ^ format.mantBits := (Nat.succ_mul _ _).symm
          _ ≤ format.special * 2 ^ format.mantBits := Nat.mul_le_mul_right _ finite
      rw [field, min_eq_left room, decode_compose (by omega) (by omega), if_neg (by omega),
        if_neg (by omega), ← value]
      congr 2
      omega
    · -- A subnormal number: the field of the exponent is 0.
      rw [max_eq_right (by omega), Int.sub_self, Int.toNat_zero, Nat.zero_mul, Nat.zero_add]
      have low : n * 2 ^ (k - format.least).toNat < 2 ^ format.mantBits := by
        calc n * 2 ^ (k - format.least).toNat
            < 2 ^ (n.log2 + 1) * 2 ^ (k - format.least).toNat :=
              Nat.mul_lt_mul_of_pos_right Nat.lt_log2_self (Nat.two_pow_pos _)
          _ = 2 ^ (n.log2 + 1 + (k - format.least).toNat) := (Nat.pow_add _ _ _).symm
          _ ≤ 2 ^ format.mantBits := Nat.pow_le_pow_right Nat.two_pos (by omega)
      have room : n * 2 ^ (k - format.least).toNat ≤ format.special * 2 ^ format.mantBits :=
        low.le.trans (Nat.le_mul_of_pos_left _ some)
      have value := @decode_compose format 0 _ (Nat.two_pow_pos _) low neg
      rw [if_neg some.ne, if_pos rfl, Nat.zero_mul, Nat.zero_add, signed_scale neg n fine] at value
      rw [min_eq_left room, value]

/-- The product of two finite words, where its digits fit. -/
theorem value_multiply {a b m n : Nat} {j k : Int} (wide : 0 < format.expBits)
    (first : format.value a = some (signed (format.negative a) m j))
    (second : format.value b = some (signed (format.negative b) n k))
    (digits : m * n < 2 ^ (format.mantBits + 1)) (fine : format.least ≤ j + k)
    (range : (m * n).log2 + (j + k) ≤ format.bias) :
    format.value (format.multiply a b) =
      some (signed (format.negative a) m j * signed (format.negative b) n k) := by
  obtain ⟨⟨m', j'⟩, left, sameLeft⟩ := Option.map_eq_some_iff.mp first
  obtain ⟨⟨n', k'⟩, right, sameRight⟩ := Option.map_eq_some_iff.mp second
  have product : ofIntWithPrec ((m' * n' : Nat) : Int) (-(j' + k')) =
      ofIntWithPrec ((m * n : Nat) : Int) (-(j + k)) := by
    rw [Int.neg_add, Int.neg_add, Nat.cast_mul, Nat.cast_mul, ← ofIntWithPrec_mul,
      ← ofIntWithPrec_mul, signed_inj_magnitude sameLeft, signed_inj_magnitude sameRight]
  have rounded : format.multiply a b =
      format.round (format.negative a != format.negative b) (m * n) (j + k) := by
    rw [multiply]
    simp only [left, right, round, product]
  rw [rounded, value_round _ wide digits fine range, signed_mul]

end Format

end MiniLLM.FloatFormat
