import MiniLLM.ByteReader

/-!
Readers whose unsafe steps are checked: a division, an index or a machine sum
that goes wrong is a trap and not a value. `lift` embeds a plain reader, which
never traps; a checked reader is safe when it equals one that is lifted.
-/

namespace MiniLLM.ByteReader

inductive Trap where
  | divisionByZero | outOfBounds | wraps
  deriving DecidableEq, Repr

inductive Fault (Err : Type) where
  | error (err : Err)
  | trap (trap : Trap)
  deriving DecidableEq, Repr

variable {Err α β Item : Type}

abbrev Checked (Err α : Type) := Reader (Fault Err) α

def embed {Result : Type} : Except Err Result → Except (Fault Err) Result
  | .error err => .error (.error err)
  | .ok result => .ok result

def lift (reader : Reader Err α) : Checked Err α := fun stream => embed (reader stream)

namespace Checked

def trap (trap : Trap) : Checked Err α := Reader.fail (.trap trap)

def fail (err : Err) : Checked Err α := Reader.fail (.error err)

/-- `items[i]` -/
def index (items : List Item) (i : Nat) : Checked Err Item :=
  match items[i]? with
  | some item => pure item
  | none => trap .outOfBounds

/-- `items[i] = item` -/
def put (items : List Item) (i : Nat) (item : Item) : Checked Err (List Item) :=
  if i < items.length then pure (items.set i item) else trap .outOfBounds

def add (a b : UInt64) : Checked Err UInt64 :=
  if a.toNat + b.toNat < 2 ^ 64 then pure (a + b) else trap .wraps

def sub (a b : UInt64) : Checked Err UInt64 :=
  if b ≤ a then pure (a - b) else trap .wraps

def sub32 (a b : UInt32) : Checked Err UInt32 :=
  if b ≤ a then pure (a - b) else trap .wraps

def remainder (a b : UInt64) : Checked Err UInt64 :=
  if b = 0 then trap .divisionByZero else pure (a % b)

/-- A cast to a signed 64-bit type. -/
def toSigned (v : UInt64) : Checked Err Int :=
  if v.toNat < 2 ^ 63 then pure (v.toNat : Int) else trap .wraps

/-- Room for `count` elements of `size` bytes. -/
def reserve (count size : Nat) : Checked Err Unit :=
  if count * size < 2 ^ 64 then pure () else trap .wraps

/-- `read(buffer, count)` with a buffer of `size` bytes. -/
def readInto (size count : Nat) (err : Err) : Checked Err (List UInt8) :=
  if count ≤ size then lift (take count err) else trap .outOfBounds

/-- `b[i] << (i * 8)` from index `i` on, joined by `|`. -/
def gather (w : Nat) (b : List UInt8) : Nat → Nat → Checked Err (BitVec w)
  | _, 0 => pure 0
  | i, count + 1 => do
      let byte ← index b i
      let rest ← gather w b (i + 1) count
      pure ((byte.toBitVec.setWidth w <<< (i * 8)) ||| rest)

/-- A word read through a buffer of its own size. -/
def word (w count : Nat) (err : Err) : Checked Err (BitVec w) := do
  let b ← readInto count count err
  gather w b 0 count

end Checked

@[simp] theorem lift_pure (value : α) : lift (pure value : Reader Err α) = pure value := rfl

@[simp] theorem lift_fail (err : Err) : lift (Reader.fail err : Reader Err α) = Checked.fail err :=
  rfl

theorem lift_bind (first : Reader Err α) (next : α → Reader Err β) :
    lift (first >>= next) = lift first >>= fun value => lift (next value) := by
  funext stream
  change embed (Reader.bind first next stream) = Reader.bind (lift first) _ stream
  rw [Reader.bind, Reader.bind, lift]
  cases first stream <;> rfl

theorem lift_ite (p : Prop) [Decidable p] (left right : Reader Err α) :
    lift (if p then left else right) = if p then lift left else lift right := by
  split <;> rfl

theorem lift_iterate (body : β → Reader Err β) (count : Nat) (acc : β) :
    lift (iterate body count acc) = iterate (fun acc => lift (body acc)) count acc := by
  induction count generalizing acc with
  | zero => rfl
  | succ count ih =>
      have step := lift_bind (body acc) (iterate body count)
      simp only [ih] at step
      exact step

theorem lift_ok {reader : Reader Err α} {stream : Stream} {result : α × Stream} :
    lift reader stream = .ok result ↔ reader stream = .ok result := by
  rw [lift]
  cases reader stream <;> simp [embed]

namespace Checked

theorem index_ok (items : List Item) (i : Nat) (inside : i < items.length) :
    (index items i : Checked Err Item) = pure items[i] := by
  rw [index, List.getElem?_eq_getElem inside]

theorem gather_ok (w : Nat) (b : List UInt8) (i count : Nat) (whole : i + count = b.length) :
    (gather w b i count : Checked Err (BitVec w)) = pure (assembleFrom w i (b.drop i)) := by
  induction count generalizing i with
  | zero => rw [gather, List.drop_of_length_le (by omega), assembleFrom]
  | succ count ih =>
      have inside : i < b.length := by omega
      rw [gather, index_ok b i inside, pure_bind, ih (i + 1) (by omega), pure_bind,
        List.drop_eq_getElem_cons inside, assembleFrom]

theorem word_lift (w count : Nat) (err : Err) :
    word w count err = lift (do
      let b ← take count err
      pure (assemble w b)) := by
  rw [word, readInto, if_pos le_rfl, lift_bind]
  funext stream
  apply bind_agree
  intro b after read
  have full := (take_ok (lift_ok.mp read)).1
  rw [gather_ok w b 0 count (by omega), List.drop_zero, lift_pure, assemble]

end Checked

end MiniLLM.ByteReader
