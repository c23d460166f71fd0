import Mathlib.Algebra.Order.Ring.Int

/-!
The error type of the engine and its machine integers. `Status` is
core/status.h; `std::expected<T, Status>` is `Except Status T`. Token counts and
positions are C++ `int`s held as `Int`; `wrap32` is what a 32-bit sum or product
stores.
-/

namespace MiniLLM

inductive ErrorCode where
  | ok | invalidArgument | outOfRange | shapeMismatch | unsupported | notImplemented
  | runtimeError | internalError | ioError | notFound | typeError
  deriving DecidableEq, Repr

structure Status where
  code : ErrorCode := .ok
  message : String := ""
  deriving DecidableEq, Repr

namespace Status

def makeOk : Status := {}
def invalidArgument (message : String) : Status := ⟨.invalidArgument, message⟩
def outOfRange (message : String) : Status := ⟨.outOfRange, message⟩
def shapeMismatch (message : String) : Status := ⟨.shapeMismatch, message⟩
def unsupported (message : String) : Status := ⟨.unsupported, message⟩
def notImplemented (message : String) : Status := ⟨.notImplemented, message⟩
def runtimeError (message : String) : Status := ⟨.runtimeError, message⟩
def internalError (message : String) : Status := ⟨.internalError, message⟩
def ioError (message : String) : Status := ⟨.ioError, message⟩
def notFound (message : String) : Status := ⟨.notFound, message⟩
def typeError (message : String) : Status := ⟨.typeError, message⟩

def isOk (status : Status) : Bool := status.code == .ok

def codeName : ErrorCode → String
  | .ok => "Ok" | .invalidArgument => "InvalidArgument" | .outOfRange => "OutOfRange"
  | .shapeMismatch => "ShapeMismatch" | .unsupported => "Unsupported"
  | .notImplemented => "NotImplemented" | .runtimeError => "RuntimeError"
  | .internalError => "InternalError" | .ioError => "IOError" | .notFound => "NotFound"
  | .typeError => "TypeError"

def toString (status : Status) : String :=
  if status.message = "" then codeName status.code
  else codeName status.code ++ ": " ++ status.message

@[simp] theorem isOk_makeOk : makeOk.isOk = true := rfl
@[simp] theorem isOk_invalidArgument (m : String) : (invalidArgument m).isOk = false := rfl
@[simp] theorem isOk_outOfRange (m : String) : (outOfRange m).isOk = false := rfl
@[simp] theorem isOk_shapeMismatch (m : String) : (shapeMismatch m).isOk = false := rfl
@[simp] theorem isOk_unsupported (m : String) : (unsupported m).isOk = false := rfl
@[simp] theorem isOk_notImplemented (m : String) : (notImplemented m).isOk = false := rfl
@[simp] theorem isOk_runtimeError (m : String) : (runtimeError m).isOk = false := rfl
@[simp] theorem isOk_internalError (m : String) : (internalError m).isOk = false := rfl
@[simp] theorem isOk_ioError (m : String) : (ioError m).isOk = false := rfl
@[simp] theorem isOk_notFound (m : String) : (notFound m).isOk = false := rfl
@[simp] theorem isOk_typeError (m : String) : (typeError m).isOk = false := rfl

end Status

theorem bind_eq_ok {A B Err : Type} {x : Except Err A} {f : A → Except Err B} {r : B}
    (fine : (x >>= f) = .ok r) : ∃ a, x = .ok a ∧ f a = .ok r := by
  cases x with
  | error e => cases fine
  | ok a => exact ⟨a, rfl, fine⟩

theorem bind_of_ok {A B Err : Type} {x : Except Err A} {f : A → Except Err B} {a : A} {r : B}
    (first : x = .ok a) (rest : f a = .ok r) : (x >>= f) = .ok r := by
  rw [first]
  exact rest

/-- The value an `int` holds after arithmetic modulo 2^32. -/
def wrap32 (x : Int) : Int := (x + 2147483648) % 4294967296 - 2147483648

theorem wrap32_eq (x : Int) (low : -2147483648 ≤ x) (high : x < 2147483648) :
    wrap32 x = x := by
  unfold wrap32; omega

def IsInt (x : Int) : Prop := -2147483648 ≤ x ∧ x < 2147483648

theorem IsInt.wrap {x : Int} (int : IsInt x) : wrap32 x = x := wrap32_eq x int.1 int.2

theorem wrap32_le (count : Nat) : wrap32 count ≤ count := by
  unfold wrap32; omega

theorem wrap32_lt (x : Int) : wrap32 x < 2147483648 := by
  unfold wrap32; omega

/-- Casting the factors before an `int` product changes nothing. -/
theorem wrap32_mul (x y : Int) : wrap32 (wrap32 x * wrap32 y) = wrap32 (x * y) := by
  have remainder : ∀ z, wrap32 z % 4294967296 = z % 4294967296 := by
    intro z
    unfold wrap32
    omega
  have product : (wrap32 x * wrap32 y) % 4294967296 = (x * y) % 4294967296 := by
    rw [Int.mul_emod, remainder, remainder, ← Int.mul_emod]
  unfold wrap32 at *
  omega

/-- The value an `int64_t` holds after arithmetic modulo 2^64. -/
def wrap64 (x : Int) : Int :=
  (x + 9223372036854775808) % 18446744073709551616 - 9223372036854775808

theorem wrap64_eq {x : Int} (low : -9223372036854775808 ≤ x) (high : x < 9223372036854775808) :
    wrap64 x = x := by
  unfold wrap64; omega

/-- A factor that has wrapped changes nothing. -/
theorem wrap64_mul (x y : Int) : wrap64 (wrap64 x * y) = wrap64 (x * y) := by
  have remainder : wrap64 x % 18446744073709551616 = x % 18446744073709551616 := by
    unfold wrap64
    omega
  have product : (wrap64 x * y) % 18446744073709551616 = (x * y) % 18446744073709551616 := by
    rw [Int.mul_emod, remainder, ← Int.mul_emod]
  unfold wrap64 at *
  omega

/-- The value a `size_t` holds after arithmetic modulo 2^64. -/
def wrapSize (x : Nat) : Nat := x % 18446744073709551616

theorem wrapSize_eq {x : Nat} (fits : x < 18446744073709551616) : wrapSize x = x :=
  Nat.mod_eq_of_lt fits

/-- A sum of two non-negative `int`s that stays non-negative did not wrap. -/
theorem wrap32_add_nonneg (x y : Int) (xlow : 0 ≤ x) (ylow : 0 ≤ y)
    (xhigh : x < 2147483648) (yhigh : y < 2147483648) (kept : 0 ≤ wrap32 (x + y)) :
    wrap32 (x + y) = x + y := by
  unfold wrap32 at kept ⊢; omega

end MiniLLM
