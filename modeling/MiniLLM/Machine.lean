import Mathlib.Logic.Basic

/-!
Runs of a deterministic machine. `step` is total: an operation that reports an
error is a step like any other. `Guarded` says that every step of a run meets a
condition in the state it is taken from, so an invariant that only some inputs
preserve still holds along the runs made of those inputs.
-/

namespace MiniLLM.Machine

universe u v w
variable {State : Type u} {Label : Type v}

def run (step : State → Label → State) : State → List Label → State
  | state, [] => state
  | state, label :: rest => run step (step state label) rest

def Guarded (step : State → Label → State) (guard : State → Label → Prop) :
    State → List Label → Prop
  | _, [] => True
  | state, label :: rest => guard state label ∧ Guarded step guard (step state label) rest

theorem run_append (step : State → Label → State) (state : State)
    (first second : List Label) :
    run step state (first ++ second) = run step (run step state first) second := by
  induction first generalizing state with
  | nil => rfl
  | cons label rest ih => exact ih (step state label)

theorem guarded_append (step : State → Label → State) (guard : State → Label → Prop)
    (state : State) (first second : List Label) :
    Guarded step guard state (first ++ second) ↔
      Guarded step guard state first ∧ Guarded step guard (run step state first) second := by
  induction first generalizing state with
  | nil => simp [Guarded, run]
  | cons label rest ih => simp [Guarded, run, ih, and_assoc]

/-- A run meets the guard throughout, or there is a first step that does not. -/
theorem guarded_or_first (step : State → Label → State) (guard : State → Label → Prop)
    (state : State) (labels : List Label) :
    Guarded step guard state labels ∨ ∃ first label rest, labels = first ++ label :: rest ∧
      Guarded step guard state first ∧ ¬ guard (run step state first) label := by
  induction labels generalizing state with
  | nil => exact Or.inl trivial
  | cons label rest ih =>
      by_cases good : guard state label
      · rcases ih (step state label) with all | ⟨first, bad, later, same, before, fails⟩
        · exact Or.inl ⟨good, all⟩
        · exact Or.inr ⟨label :: first, bad, later, by rw [same]; rfl, ⟨good, before⟩, fails⟩
      · exact Or.inr ⟨[], label, rest, rfl, trivial, good⟩

/-- The run rule: what every guarded step preserves, a guarded run preserves. -/
theorem guarded_invariant (step : State → Label → State) (guard : State → Label → Prop)
    (invariant : State → Prop)
    (preserve : ∀ state label, invariant state → guard state label → invariant (step state label))
    (state : State) (labels : List Label)
    (start : invariant state) (guarded : Guarded step guard state labels) :
    invariant (run step state labels) := by
  induction labels generalizing state with
  | nil => exact start
  | cons label rest ih => exact ih _ (preserve state label start guarded.1) guarded.2

theorem guarded_of_forall (step : State → Label → State) (guard : Label → Prop) (state : State)
    (labels : List Label) (all : ∀ label ∈ labels, guard label) :
    Guarded step (fun _ => guard) state labels := by
  induction labels generalizing state with
  | nil => trivial
  | cons label rest ih =>
      simp only [List.mem_cons, forall_eq_or_imp] at all
      exact ⟨all.1, ih _ all.2⟩

theorem guarded_and (step : State → Label → State) (first second : State → Label → Prop)
    (state : State) (labels : List Label) :
    Guarded step (fun state label => first state label ∧ second state label) state labels ↔
      Guarded step first state labels ∧ Guarded step second state labels := by
  induction labels generalizing state with
  | nil => simp [Guarded]
  | cons label rest ih =>
      rw [Guarded, Guarded, Guarded, ih]
      exact and_and_and_comm

theorem run_invariant (step : State → Label → State) (invariant : State → Prop)
    (preserve : ∀ state label, invariant state → invariant (step state label))
    (state : State) (labels : List Label) (start : invariant state) :
    invariant (run step state labels) := by
  induction labels generalizing state with
  | nil => exact start
  | cons label rest ih => exact ih _ (preserve state label start)

/-- A machine that carries more state than another runs the other inside it. -/
theorem run_project {Wide : Type w} (project : Wide → State) (wide : Wide → Label → Wide)
    (step : State → Label → State)
    (commutes : ∀ state label, project (wide state label) = step (project state) label)
    (state : Wide) (labels : List Label) :
    project (run wide state labels) = run step (project state) labels := by
  induction labels generalizing state with
  | nil => rfl
  | cons label rest ih => rw [run, ih, commutes]; rfl

theorem guarded_project {Wide : Type w} (project : Wide → State) (wide : Wide → Label → Wide)
    (step : State → Label → State) (guard : State → Label → Prop)
    (commutes : ∀ state label, project (wide state label) = step (project state) label)
    (state : Wide) (labels : List Label) :
    Guarded wide (fun state label => guard (project state) label) state labels ↔
      Guarded step guard (project state) labels := by
  induction labels generalizing state with
  | nil => exact Iff.rfl
  | cons label rest ih => rw [Guarded, Guarded, ih, commutes]

/-- A guard may be weakened to what the invariant and the old guard imply. -/
theorem guarded_mono (step : State → Label → State) (strong weak : State → Label → Prop)
    (implies : ∀ state label, strong state label → weak state label)
    (state : State) (labels : List Label) (guarded : Guarded step strong state labels) :
    Guarded step weak state labels := by
  induction labels generalizing state with
  | nil => trivial
  | cons label rest ih => exact ⟨implies state label guarded.1, ih _ guarded.2⟩

end MiniLLM.Machine
