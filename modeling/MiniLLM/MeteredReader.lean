import MiniLLM.ByteReader

/-!
Readers that keep account of their work, also when they fail: how often each
meter ticked and how many bytes left the stream. A run without a result ran out
of fuel. `Meters` relates such a reader to a plain one; its rules add up what
the bytes pay for.
-/

namespace MiniLLM.ByteReader

inductive Meter where
  | constructed | rounds
  deriving DecidableEq, Repr

structure Work where
  constructed : Nat
  rounds : Nat
  consumed : Nat
  deriving DecidableEq, Repr

namespace Work

def zero : Work := ⟨0, 0, 0⟩

def add (first more : Work) : Work :=
  ⟨first.constructed + more.constructed, first.rounds + more.rounds,
    first.consumed + more.consumed⟩

def ticks (work : Work) : Meter → Nat
  | .constructed => work.constructed
  | .rounds => work.rounds

def one : Meter → Work
  | .constructed => ⟨1, 0, 0⟩
  | .rounds => ⟨0, 1, 0⟩

@[simp] theorem zero_ticks (m : Meter) : zero.ticks m = 0 := by cases m <;> rfl

@[simp] theorem add_ticks (first more : Work) (m : Meter) :
    (first.add more).ticks m = first.ticks m + more.ticks m := by cases m <;> rfl

@[simp] theorem add_consumed (first more : Work) :
    (first.add more).consumed = first.consumed + more.consumed := rfl

@[simp] theorem one_consumed (m : Meter) : (one m).consumed = 0 := by cases m <;> rfl

@[simp] theorem consumed_ticks (count : Nat) (m : Meter) : (Work.mk 0 0 count).ticks m = 0 := by
  cases m <;> rfl

/-- What one tick of a meter costs on another. -/
def price (counted m : Meter) : Int := if counted = m then 1 else 0

theorem price_nonneg (counted m : Meter) : 0 ≤ price counted m := by
  cases counted <;> cases m <;> decide

theorem price_le_one (counted m : Meter) : price counted m ≤ 1 := by
  cases counted <;> cases m <;> decide

theorem price_sum (m : Meter) : price .constructed m + price .rounds m = 1 := by
  cases m <;> decide

theorem one_ticks (counted m : Meter) : ((one counted).ticks m : Int) = price counted m := by
  cases counted <;> cases m <;> rfl

end Work

variable {Err α β Item : Type}

abbrev Metered (Err α : Type) := Stream → Option (Work × Except Err (α × Stream))

namespace Metered

protected def pure (value : α) : Metered Err α := fun stream => some (.zero, .ok (value, stream))

protected def fail (err : Err) : Metered Err α := fun _ => some (.zero, .error err)

def outOfFuel : Metered Err α := fun _ => none

protected def bind (first : Metered Err α) (next : α → Metered Err β) : Metered Err β := fun stream =>
  match first stream with
  | none => none
  | some (work, .error err) => some (work, .error err)
  | some (work, .ok (value, after)) =>
      (next value after).map fun run => (work.add run.1, run.2)

instance : Monad (Metered Err) where
  pure := Metered.pure
  bind := Metered.bind

def tick (m : Meter) : Metered Err Unit := fun stream => some (.one m, .ok ((), stream))

/-- A short read still takes what is left of the stream. -/
protected def take (count : Nat) (err : Err) : Metered Err (List UInt8) := fun stream =>
  if stream.rest.length < count then some (⟨0, 0, stream.rest.length⟩, .error err)
  else some (⟨0, 0, count⟩,
    .ok (stream.rest.take count, ⟨stream.rest.drop count, stream.position + count⟩))

/-- `count` rounds of a loop, each one counted when it begins. -/
protected def iterate (body : β → Metered Err β) : Nat → β → Metered Err β
  | 0, acc => Pure.pure acc
  | count + 1, acc => do
      tick .rounds
      let next ← body acc
      Metered.iterate body count next

end Metered

/-- What the consumed bytes pay for: on a success the ticks and `gain` more, on a failure all
but `debt` of the ticks. -/
def Work.Paid (m : Meter) (gain debt : Int) (before : Stream) (work : Work) :
    Except Err (α × Stream) → Prop
  | .ok (_, after) =>
      work.consumed + after.rest.length = before.rest.length ∧
        (work.ticks m : Int) + gain ≤ work.consumed
  | .error _ =>
      work.consumed ≤ before.rest.length ∧ (work.ticks m : Int) ≤ work.consumed + debt

namespace Work.Paid

variable {m : Meter} {gain debt : Int} {before : Stream} {work : Work}
  {result : Except Err (α × Stream)}

theorem weaken {less more : Int} (paid : work.Paid m gain debt before result)
    (low : less ≤ gain) (high : debt ≤ more) : work.Paid m less more before result := by
  cases result with
  | error err =>
      have owing := paid.2
      exact ⟨paid.1, by omega⟩
  | ok pair =>
      have spare := paid.2
      exact ⟨paid.1, by omega⟩

/-- Work done before a run that succeeded in it and left `middle`. -/
theorem after_ok {more owed : Int} {value : β} {middle : Stream} {others : Work}
    (paid : work.Paid m gain debt before (.ok (value, middle) : Except Err (β × Stream)))
    (later : others.Paid m more owed middle result) :
    (work.add others).Paid m (gain + more) (owed - gain) before result := by
  have ⟨used, spare⟩ := paid
  cases result with
  | error err =>
      have ⟨within, owing⟩ := later
      constructor
      · rw [add_consumed]
        omega
      · rw [add_consumed, add_ticks]
        omega
  | ok pair =>
      have ⟨rest, kept⟩ := later
      constructor
      · rw [add_consumed]
        omega
      · rw [add_consumed, add_ticks]
        omega

theorem bounds (paid : work.Paid m gain debt before result) (spare : 0 ≤ gain)
    (solvent : debt ≤ 0) :
    work.ticks m ≤ work.consumed ∧ work.consumed ≤ before.rest.length := by
  cases result with
  | error err =>
      have ⟨within, owing⟩ := paid
      exact ⟨by omega, within⟩
  | ok pair =>
      have ⟨used, kept⟩ := paid
      exact ⟨by omega, by omega⟩

end Work.Paid

/-- On fewer than `limit` bytes the metered reader ends, with the plain reader's result. -/
def Meters (m : Meter) (limit : Nat) (gain debt : Int) (metered : Metered Err α)
    (plain : Reader Err α) : Prop :=
  ∀ stream, stream.rest.length < limit → ∃ work, metered stream = some (work, plain stream) ∧
    work.Paid m gain debt stream (plain stream)

namespace Meters

variable {m : Meter} {limit : Nat} {gain debt : Int}

theorem weaken {less more : Int} {metered : Metered Err α} {plain : Reader Err α}
    (meters : Meters m limit gain debt metered plain) (low : less ≤ gain) (high : debt ≤ more) :
    Meters m limit less more metered plain := by
  intro stream short
  have ⟨work, ran, paid⟩ := meters stream short
  exact ⟨work, ran, paid.weaken low high⟩

theorem shorten {smaller : Nat} {metered : Metered Err α} {plain : Reader Err α}
    (meters : Meters m limit gain debt metered plain) (less : smaller ≤ limit) :
    Meters m smaller gain debt metered plain :=
  fun stream short => meters stream (short.trans_le less)

theorem pure (value : α) :
    Meters m limit 0 0 (Pure.pure value : Metered Err α) (Pure.pure value) :=
  fun _ _ => ⟨.zero, rfl, Nat.zero_add _, by simp [Work.zero]⟩

theorem fail (err : Err) :
    Meters m limit gain 0 (Metered.fail err : Metered Err α) (Reader.fail err) :=
  fun _ _ => ⟨.zero, rfl, Nat.zero_le _, by simp [Work.zero]⟩

theorem take (count : Nat) (err : Err) :
    Meters m limit count 0 (Metered.take count err) (ByteReader.take count err) := by
  intro stream _
  rw [Metered.take, ByteReader.take]
  split
  · exact ⟨_, rfl, Nat.le_refl _, by simp⟩
  · rename_i enough
    refine ⟨_, rfl, ?_, by simp⟩
    exact (congrArg (count + ·) List.length_drop).trans
      (Nat.add_sub_cancel' (Nat.le_of_not_lt enough))

theorem tick (counted : Meter) :
    Meters m limit (-Work.price counted m) 0 (Metered.tick counted : Metered Err Unit)
      (Pure.pure ()) := by
  intro stream _
  refine ⟨.one counted, rfl, ?_, ?_⟩
  · rw [Work.one_consumed, Nat.zero_add]
  · rw [Work.one_ticks, Work.one_consumed]
    omega

/-- What the first reader gains also shortens what the next one reads. -/
theorem bind_shorter {more owed : Int} {first : Metered Err α} {plain : Reader Err α}
    {next : α → Metered Err β} {plainNext : α → Reader Err β}
    (head : Meters m limit gain debt first plain)
    (tail : ∀ value, Meters m (limit - gain.toNat) more owed (next value) (plainNext value)) :
    Meters m limit (gain + more) (max debt (owed - gain)) (first >>= next)
      (plain >>= plainNext) := by
  intro stream short
  change ∃ work, Metered.bind first next stream = some (work, Reader.bind plain plainNext stream) ∧
    work.Paid m _ _ stream (Reader.bind plain plainNext stream)
  have ⟨work, ran, paid⟩ := head stream short
  rw [Metered.bind, Reader.bind, ran]
  cases result : plain stream with
  | error err =>
      rw [result] at paid
      exact ⟨work, rfl, paid.1, paid.2.trans (by omega)⟩
  | ok pair =>
      rw [result] at paid
      have ⟨used, spare⟩ := paid
      have ⟨others, ranNext, paidNext⟩ := tail pair.1 pair.2 (by omega)
      refine ⟨work.add others, by simp only [ranNext, Option.map_some], ?_⟩
      exact (paid.after_ok paidNext).weaken le_rfl (le_max_right _ _)

/-- The same for bounds that are already known. -/
theorem andThen_shorter {kept owing : Int} (more owed : Int) {first : Metered Err α}
    {plain : Reader Err α} {next : α → Metered Err β} {plainNext : α → Reader Err β}
    (head : Meters m limit gain debt first plain)
    (tail : ∀ value, Meters m (limit - gain.toNat) more owed (next value) (plainNext value))
    (low : kept ≤ gain + more) (early : debt ≤ owing) (late : owed - gain ≤ owing) :
    Meters m limit kept owing (first >>= next) (plain >>= plainNext) :=
  (head.bind_shorter tail).weaken low (max_le early late)

theorem andThen {kept owing : Int} (more owed : Int) {first : Metered Err α}
    {plain : Reader Err α} {next : α → Metered Err β} {plainNext : α → Reader Err β}
    (head : Meters m limit gain debt first plain)
    (tail : ∀ value, Meters m limit more owed (next value) (plainNext value))
    (low : kept ≤ gain + more) (early : debt ≤ owing) (late : owed - gain ≤ owing) :
    Meters m limit kept owing (first >>= next) (plain >>= plainNext) :=
  head.andThen_shorter more owed (fun value => (tail value).shorten (Nat.sub_le _ _)) low early
    late

/-- A tick first. -/
theorem ticked (counted : Meter) {metered : Metered Err α} {plain : Reader Err α}
    (meters : Meters m limit gain debt metered plain) (solvent : 0 ≤ debt) :
    Meters m limit (gain - Work.price counted m) (debt + Work.price counted m)
      (Metered.tick counted >>= fun _ => metered) plain := by
  have cost := Work.price_nonneg counted m
  exact (tick counted).andThen gain debt (fun _ => meters) (by omega) (by omega) (by omega)

/-- Rounds that each pay for their own beginning pay for the loop. -/
theorem iterate {metered : β → Metered Err β} {plain : β → Reader Err β}
    (round : ∀ acc, Meters m limit (Work.price .rounds m) debt (metered acc) (plain acc))
    (solvent : 0 ≤ debt) (count : Nat) (acc : β) :
    Meters m limit 0 (debt + Work.price .rounds m) (Metered.iterate metered count acc)
      (ByteReader.iterate plain count acc) := by
  have cost := Work.price_nonneg .rounds m
  induction count generalizing acc with
  | zero => exact (pure acc).weaken le_rfl (by omega)
  | succ count ih =>
      have began : Meters m limit (Work.price .rounds m) debt
          (metered acc >>= fun next => Metered.iterate metered count next)
          (plain acc >>= fun next => ByteReader.iterate plain count next) :=
        (round acc).andThen _ _ ih (by omega) le_rfl (by omega)
      exact (began.ticked .rounds solvent).weaken (by omega) le_rfl

end Meters

end MiniLLM.ByteReader
