import Mathlib.Algebra.BigOperators.Group.Finset.Basic
import Mathlib.Logic.Function.Basic

/-!
Counted loops and flat buffers. `loop n body` is `for (i = 0; i < n; ++i)`,
`loopTry` is the same loop with an early return that keeps the state reached so
far. A buffer is the total function of its indices; `store` writes one cell.
The rules below are the only way the proofs look inside a loop.
-/

namespace MiniLLM.Loops

universe u v w
variable {State : Type u} {Err : Type v} {Elem : Type u}

def loop : Nat → (Nat → State → State) → State → State
  | 0, _, state => state
  | n + 1, body, state => body n (loop n body state)

def loopTryFrom (body : Nat → State → Option Err × State) : Nat → Nat → State → Option Err × State
  | _, 0, state => (none, state)
  | index, n + 1, state =>
      match body index state with
      | (none, next) => loopTryFrom body (index + 1) n next
      | (some err, next) => (some err, next)

def loopTry (n : Nat) (body : Nat → State → Option Err × State) (state : State) :
    Option Err × State := loopTryFrom body 0 n state

/-- The same early return over the items of a list. -/
def tryList {Item : Type w} (body : Item → State → Option Err × State) :
    List Item → State → Option Err × State
  | [], state => (none, state)
  | item :: rest, state =>
      match body item state with
      | (none, next) => tryList body rest next
      | (some err, next) => (some err, next)

abbrev Buffer (Elem : Type u) := Nat → Elem

def store (buffer : Buffer Elem) (index : Nat) (value : Elem) : Buffer Elem :=
  fun i => if i = index then value else buffer i

/-- `memcpy` of `count` cells from `source` to `target + index`. -/
def copyFloats (count : Nat) (target : Buffer Elem) (index : Nat) (source : Buffer Elem) :
    Buffer Elem :=
  fun i => if index ≤ i ∧ i < index + count then source (i - index) else target i

@[simp] theorem store_same (buffer : Buffer Elem) (index : Nat) (value : Elem) :
    store buffer index value index = value := by simp [store]

theorem store_other (buffer : Buffer Elem) (index i : Nat) (value : Elem)
    (different : i ≠ index) : store buffer index value i = buffer i := by
  simp [store, different]

/-- The invariant rule of a counted loop. -/
theorem loop_invariant (P : Nat → State → Prop) (n : Nat) (body : Nat → State → State)
    (state : State) (start : P 0 state)
    (advance : ∀ i state, i < n → P i state → P (i + 1) (body i state)) :
    P n (loop n body state) := by
  induction n with
  | zero => exact start
  | succ n ih =>
      exact advance n _ (Nat.lt_succ_self n)
        (ih fun i state below => advance i state (Nat.lt_succ_of_lt below))

/-- An accumulator that only adds. -/
theorem loop_sum {Sum : Type u} [AddCommMonoid Sum] (n : Nat) (f : Nat → Sum) (start : Sum) :
    loop n (fun i sum => sum + f i) start = start + ∑ i ∈ Finset.range n, f i :=
  loop_invariant (fun i sum => sum = start + ∑ k ∈ Finset.range i, f k) n _ start (by simp)
    fun i sum _ same => by rw [same, Finset.sum_range_succ, add_assoc]

theorem loop_preserves (P : State → Prop) (n : Nat) (body : Nat → State → State)
    (state : State) (start : P state)
    (keep : ∀ i state, i < n → P state → P (body i state)) : P (loop n body state) :=
  loop_invariant (fun _ => P) n body state start keep

theorem loop_congr (n : Nat) (body other : Nat → State → State) (state : State)
    (same : ∀ i state, i < n → body i state = other i state) :
    loop n body state = loop n other state := by
  induction n with
  | zero => rfl
  | succ n ih =>
      rw [loop, loop, ih fun i state below => same i state (Nat.lt_succ_of_lt below)]
      exact same n _ (Nat.lt_succ_self n)

/-- How a fallible computation ended: `P` of the state after success, `Q` of the
error and of the state it leaves behind. -/
def Ends (P : State → Prop) (Q : Err → State → Prop) : Option Err × State → Prop
  | (none, state) => P state
  | (some err, state) => Q err state

theorem Ends.mono {P P' : State → Prop} {Q Q' : Err → State → Prop}
    {result : Option Err × State} (success : ∀ state, P state → P' state)
    (failure : ∀ err state, Q err state → Q' err state) (ended : Ends P Q result) :
    Ends P' Q' result := by
  obtain ⟨err, state⟩ := result
  cases err with
  | none => exact success state ended
  | some err => exact failure err state ended

/-- What holds of the state however the computation ended. -/
theorem ends_iff (P : State → Prop) (result : Option Err × State) :
    Ends P (fun _ => P) result ↔ P result.2 := by
  obtain ⟨err, state⟩ := result
  cases err <;> exact Iff.rfl

/-- A computation that cannot fail. -/
theorem ends_exists {P : State → Prop} {result : Option Err × State}
    (ended : Ends P (fun _ _ => False) result) : ∃ state, result = (none, state) ∧ P state := by
  obtain ⟨err, state⟩ := result
  cases err with
  | none => exact ⟨state, rfl, ended⟩
  | some err => exact ended.elim

theorem loopTryFrom_invariant (P : Nat → State → Prop) (Q : Err → State → Prop)
    (body : Nat → State → Option Err × State) (index n : Nat) (state : State)
    (start : P index state)
    (advance : ∀ i state, index ≤ i → i < index + n → P i state →
      Ends (P (i + 1)) Q (body i state)) :
    Ends (P (index + n)) Q (loopTryFrom body index n state) := by
  induction n generalizing index state with
  | zero => exact start
  | succ n ih =>
      have first := advance index state (Nat.le_refl _) (by omega) start
      rw [loopTryFrom]
      cases result : body index state with
      | mk err next =>
          rw [result] at first
          cases err with
          | some err => exact first
          | none =>
              have rest := ih (index + 1) next first
                (fun i state low high => advance i state (by omega) (by omega))
              rwa [Nat.add_right_comm, Nat.add_assoc] at rest

/-- The invariant rule of a loop with early return: `P` counts the completed
rounds, `Q` describes the state an error leaves behind. -/
theorem loopTry_invariant (P : Nat → State → Prop) (Q : Err → State → Prop) (n : Nat)
    (body : Nat → State → Option Err × State) (state : State) (start : P 0 state)
    (advance : ∀ i state, i < n → P i state → Ends (P (i + 1)) Q (body i state)) :
    Ends (P n) Q (loopTry n body state) := by
  have rule := loopTryFrom_invariant P Q body 0 n state start
    (fun i state _ high => advance i state (by omega))
  rwa [Nat.zero_add] at rule

/-- A loop whose rounds all succeed is the plain loop. -/
theorem loopTry_total (n : Nat) (body : Nat → State → Option Err × State)
    (next : Nat → State → State) (state : State)
    (total : ∀ i state, i < n → body i state = (none, next i state)) :
    loopTry n body state = (none, loop n next state) := by
  have rule := loopTry_invariant (fun i after => after = loop i next state) (fun _ _ => False) n
    body state rfl fun i after below same => by rw [total i after below, same]; rfl
  generalize loopTry n body state = result at rule ⊢
  obtain ⟨err, after⟩ := result
  cases err with
  | none => exact congrArg (Prod.mk none) rule
  | some err => exact rule.elim

theorem loopTry_congr (n : Nat) (body other : Nat → State → Option Err × State) (state : State)
    (same : ∀ i state, i < n → body i state = other i state) :
    loopTry n body state = loopTry n other state := by
  have rule : ∀ index count state, index + count ≤ n →
      loopTryFrom body index count state = loopTryFrom other index count state := by
    intro index count
    induction count generalizing index with
    | zero => intro state _; rfl
    | succ count ih =>
        intro state inside
        rw [loopTryFrom, loopTryFrom, same index state (by omega)]
        generalize other index state = result
        obtain ⟨err, next⟩ := result
        cases err with
        | some err => rfl
        | none => exact ih (index + 1) next (by omega)
  exact rule 0 n state (by omega)

/-- An error in the first round ends the loop. -/
theorem loopTry_stops (n : Nat) (body : Nat → State → Option Err × State) (state after : State)
    (err : Err) (some : 0 < n) (first : body 0 state = (.some err, after)) :
    loopTry n body state = (.some err, after) := by
  obtain ⟨m, rfl⟩ := Nat.exists_eq_succ_of_ne_zero (Nat.ne_of_gt some)
  simp only [loopTry, loopTryFrom, first]

/-- The invariant rule over a list: `P` sees the items already done. -/
theorem tryList_invariant {Item : Type w} (P : List Item → State → Prop) (Q : Err → State → Prop)
    (body : Item → State → Option Err × State) (items : List Item) (state : State)
    (start : P [] state)
    (advance : ∀ first item rest state, items = first ++ item :: rest → P first state →
      Ends (P (first ++ [item])) Q (body item state)) :
    Ends (P items) Q (tryList body items state) := by
  have rule : ∀ first rest state, items = first ++ rest → P first state →
      Ends (P items) Q (tryList body rest state) := by
    intro first rest
    induction rest generalizing first with
    | nil =>
        intro state same held
        rw [List.append_nil] at same
        rw [same]
        exact held
    | cons item rest ih =>
        intro state same held
        have next := advance first item rest state same held
        rw [tryList]
        cases result : body item state with
        | mk err after =>
            rw [result] at next
            cases err with
            | some err => exact next
            | none => exact ih (first ++ [item]) after (by simpa using same) next
  exact rule [] items state rfl start

/-- A list run succeeds when every item is acceptable after the ones before it. -/
theorem tryList_ok_iff {Item : Type w} (P : List Item → State → Prop)
    (accepts : List Item → Item → Prop) (body : Item → State → Option Err × State)
    (items : List Item) (state : State) (start : P [] state)
    (advance : ∀ first item rest state, items = first ++ item :: rest → P first state →
      ((body item state).1 = none ↔ accepts first item) ∧
        ((body item state).1 = none → P (first ++ [item]) (body item state).2)) :
    ((tryList body items state).1 = none ↔
        ∀ first item rest, items = first ++ item :: rest → accepts first item) ∧
      ((tryList body items state).1 = none → P items (tryList body items state).2) := by
  have rule : ∀ first rest state, items = first ++ rest → P first state →
      ((tryList body rest state).1 = none ↔
          ∀ more item last, rest = more ++ item :: last → accepts (first ++ more) item) ∧
        ((tryList body rest state).1 = none → P items (tryList body rest state).2) := by
    intro first rest
    induction rest generalizing first with
    | nil =>
        intro state same held
        rw [List.append_nil] at same
        rw [same]
        exact ⟨⟨fun _ more item last split => by simp at split, fun _ => rfl⟩, fun _ => held⟩
    | cons item rest ih =>
        intro state same held
        obtain ⟨accepted, next⟩ := advance first item rest state same held
        rw [tryList]
        cases result : body item state with
        | mk err after =>
            rw [result] at accepted next
            cases err with
            | some err =>
                have refused : ¬ accepts first item := fun yes => by simpa using accepted.mpr yes
                refine ⟨⟨fun failed => by simp at failed, fun all => ?_⟩, fun failed => by simp at failed⟩
                have head := all [] item rest rfl
                rw [List.append_nil] at head
                exact absurd head refused
            | none =>
                obtain ⟨iff, final⟩ := ih (first ++ [item]) after (by simpa using same) (next rfl)
                refine ⟨iff.trans ⟨fun all more other last split => ?_, fun all more other last split => ?_⟩,
                  final⟩
                · cases more with
                  | nil =>
                      obtain ⟨rfl, rfl⟩ := List.cons.inj split
                      rw [List.append_nil]
                      exact accepted.mp rfl
                  | cons head more =>
                      obtain ⟨rfl, tail⟩ := List.cons.inj split
                      simpa using all more other last tail
                · simpa using all (item :: more) other last (by simp [split])
  exact rule [] items state rfl start

theorem tryList_append {Item : Type w} (body : Item → State → Option Err × State)
    (first second : List Item) (state : State) :
    tryList body (first ++ second) state =
      match tryList body first state with
      | (none, mid) => tryList body second mid
      | (some err, mid) => (some err, mid) := by
  induction first generalizing state with
  | nil => rfl
  | cons item rest ih =>
      simp only [List.cons_append, tryList]
      generalize body item state = result
      obtain ⟨err, next⟩ := result
      cases err with
      | some err => rfl
      | none => exact ih next

/-- A list run on more state carries the narrower run inside it. -/
theorem tryList_project {Item : Type w} {Wide : Type v} (project : Wide → State)
    (wide : Item → Wide → Option Err × Wide) (body : Item → State → Option Err × State)
    (commutes : ∀ item state, ((wide item state).1, project (wide item state).2) =
      body item (project state)) (items : List Item) (state : Wide) :
    ((tryList wide items state).1, project (tryList wide items state).2) =
      tryList body items (project state) := by
  induction items generalizing state with
  | nil => rfl
  | cons item rest ih =>
      have head := commutes item state
      rw [tryList, tryList, ← head]
      generalize wide item state = result
      obtain ⟨err, next⟩ := result
      cases err with
      | some err => rfl
      | none => exact ih next

/-- What every item preserves, failing or not, holds when the list is left. -/
theorem tryList_preserves {Item : Type w} (P : State → Prop)
    (body : Item → State → Option Err × State) (items : List Item) (state : State) (start : P state)
    (keep : ∀ item ∈ items, ∀ state, P state → P (body item state).2) :
    P (tryList body items state).2 :=
  (ends_iff P _).mp (tryList_invariant (fun _ => P) (fun _ => P) body items state start
    fun first item rest state split held => (ends_iff P _).mpr
      (keep item (by rw [split]; simp) state held))

theorem loopTry_preserves (P : State → Prop) (n : Nat)
    (body : Nat → State → Option Err × State) (state : State) (start : P state)
    (keep : ∀ i state, i < n → P state → P (body i state).2) : P (loopTry n body state).2 :=
  (ends_iff P _).mp (loopTry_invariant (fun _ => P) (fun _ => P) n body state start
    fun i state below held => (ends_iff P _).mpr (keep i state below held))

/-- Two list runs that agree item by item: they fail at the same item, or both end related. -/
theorem tryList_relates {Item : Type w} {Other : Type u} (R : List Item → State → Other → Prop)
    (body : Item → State → Option Err × State) (other : Item → Other → Option Err × Other)
    (items : List Item) (state : State) (twin : Other) (start : R [] state twin)
    (advance : ∀ first item rest state twin, items = first ++ item :: rest → R first state twin →
      (body item state).1 = (other item twin).1 ∧
        ((body item state).1 = none → R (first ++ [item]) (body item state).2 (other item twin).2)) :
    (tryList body items state).1 = (tryList other items twin).1 ∧
      ((tryList body items state).1 = none →
        R items (tryList body items state).2 (tryList other items twin).2) := by
  have rule : ∀ first rest state twin, items = first ++ rest → R first state twin →
      (tryList body rest state).1 = (tryList other rest twin).1 ∧
        ((tryList body rest state).1 = none →
          R items (tryList body rest state).2 (tryList other rest twin).2) := by
    intro first rest
    induction rest generalizing first with
    | nil =>
        intro state twin same held
        rw [List.append_nil] at same
        exact ⟨rfl, fun _ => same ▸ held⟩
    | cons item rest ih =>
        intro state twin same held
        obtain ⟨equal, next⟩ := advance first item rest state twin same held
        rw [tryList, tryList]
        generalize body item state = left at equal next
        generalize other item twin = right at equal next
        obtain ⟨err, after⟩ := left
        obtain ⟨err', after'⟩ := right
        obtain rfl : err = err' := equal
        cases err with
        | some err => exact ⟨rfl, fun failed => by cases failed⟩
        | none => exact ih (first ++ [item]) after after' (by simpa using same) (next rfl)
  exact rule [] items state twin rfl start

end MiniLLM.Loops
