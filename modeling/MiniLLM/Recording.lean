import Mathlib.Logic.Relation

/-!
Computations that record what they touch, and rules for saying exactly when every
event of a run meets a condition. `Yields` is a weakest precondition: its first
assertion holds if and only if the events of the run meet the condition and its
last assertion holds behind them.
-/

namespace MiniLLM.Recording

variable {Event A B : Type}

/-- Without a result the computation ran out of fuel. -/
structure Recorded (Event A : Type) where
  events : List Event
  result : Option A

namespace Recorded

instance : Monad (Recorded Event) where
  pure a := ⟨[], some a⟩
  bind run next :=
    match run.result with
    | none => ⟨run.events, none⟩
    | some a => ⟨run.events ++ (next a).events, (next a).result⟩

def event (e : Event) : Recorded Event Unit := ⟨[e], some ()⟩

def outOfFuel : Recorded Event A := ⟨[], none⟩

/-- A step that touches nothing. -/
def lift (result : Option A) : Recorded Event A := ⟨[], result⟩

theorem bind_eq {run : Recorded Event A} {value : A} (ended : run.result = some value)
    (next : A → Recorded Event B) :
    run >>= next = ⟨run.events ++ (next value).events, (next value).result⟩ := by
  change (match run.result with
    | none => ⟨run.events, none⟩
    | some a => ⟨run.events ++ (next a).events, (next a).result⟩ : Recorded Event B) = _
  rw [ended]

theorem bind_none {run : Recorded Event A} (spent : run.result = none)
    (next : A → Recorded Event B) : run >>= next = ⟨run.events, none⟩ := by
  change (match run.result with
    | none => ⟨run.events, none⟩
    | some a => ⟨run.events ++ (next a).events, (next a).result⟩ : Recorded Event B) = _
  rw [spent]

instance : LawfulMonad (Recorded Event) := LawfulMonad.mk' _
  (fun run => by
    change run >>= (fun a => pure a) = run
    cases ended : run.result with
    | none =>
        rw [bind_none ended, ← ended]
    | some value =>
        rw [bind_eq ended]
        change (⟨run.events ++ [], some value⟩ : Recorded Event _) = run
        rw [List.append_nil, ← ended])
  (fun value next => by
    rw [@bind_eq _ _ _ (pure value) value rfl]
    rfl)
  (fun run next last => by
    cases ended : run.result with
    | none => rw [bind_none ended, bind_none ended, bind_none rfl]
    | some value =>
        rw [bind_eq ended, bind_eq ended]
        cases then' : (next value).result with
        | none => rw [bind_none then', bind_none rfl]
        | some other =>
            rw [bind_eq then', @bind_eq _ _ _ _ other rfl, List.append_assoc])

end Recorded

open Recorded

structure Yields (Meets : Event → Prop) (before : Prop) (run : Recorded Event A) (value : A)
    (after : Prop) : Prop where
  result : run.result = some value
  events : ((∀ e ∈ run.events, Meets e) ∧ after) ↔ before

namespace Yields

variable {Meets : Event → Prop} {before middle after : Prop} {value : A}

theorem lift {result : Option A} (some : result = some value) :
    Yields Meets after (Recorded.lift result) value after :=
  ⟨some, and_iff_right fun e none => (by cases none)⟩

theorem pure (value : A) (after : Prop) : Yields Meets after (Pure.pure value) value after :=
  lift rfl

theorem event (e : Event) (after : Prop) :
    Yields Meets (Meets e ∧ after) (Recorded.event e) () after :=
  ⟨rfl, by rw [Recorded.event, List.forall_mem_singleton]⟩

theorem bind {run : Recorded Event A} {next : A → Recorded Event B} {end' : B}
    (first : Yields Meets before run value middle)
    (later : Yields Meets middle (next value) end' after) :
    Yields Meets before (run >>= next) end' after := by
  rw [bind_eq first.result]
  exact ⟨later.result, by
    rw [← first.events, ← later.events, List.forall_mem_append, and_assoc]⟩

theorem congr {run : Recorded Event A} (yields : Yields Meets middle run value after)
    (same : before ↔ middle) : Yields Meets before run value after :=
  ⟨yields.result, yields.events.trans same.symm⟩

theorem whole {run : Recorded Event A} (yields : Yields Meets before run value True) :
    (∀ e ∈ run.events, Meets e) ↔ before := by
  rw [← yields.events, and_iff_left trivial]

/-- What a run leaves behind besides. -/
theorem frame {run : Recorded Event A} (yields : Yields Meets before run value True)
    (after : Prop) : Yields Meets (before ∧ after) run value after :=
  ⟨yields.result, and_congr_left' yields.whole⟩

theorem mapM {step : B → Recorded Event A} {f : B → A} {condition : B → Prop}
    (each : ∀ b after, Yields Meets (condition b ∧ after) (step b) (f b) after) (items : List B) :
    Yields Meets ((∀ b ∈ items, condition b) ∧ after) (items.mapM step) (items.map f) after := by
  induction items with
  | nil => exact (pure [] after).congr (and_iff_right fun b none => (by cases none))
  | cons first rest ih =>
      rw [List.mapM_cons]
      refine Yields.congr ?_ (by rw [List.forall_mem_cons, and_assoc])
      refine (each first _).bind ?_
      refine ih.bind ?_
      exact pure _ _

theorem foldlM {step : A → B → Recorded Event A} {f : A → B → A} {condition : B → Prop}
    (each : ∀ a b after, Yields Meets (condition b ∧ after) (step a b) (f a b) after)
    (items : List B) (start : A) :
    Yields Meets ((∀ b ∈ items, condition b) ∧ after) (items.foldlM step start)
      (items.foldl f start) after := by
  induction items generalizing start with
  | nil => exact (pure start after).congr (and_iff_right fun b none => (by cases none))
  | cons first rest ih =>
      rw [List.foldlM_cons]
      refine Yields.congr ?_ (by rw [List.forall_mem_cons, and_assoc])
      exact (each start first _).bind (ih _)

end Yields

/-! What holds wherever a relation leads. -/

section Always

variable {State : Type} (step : State → State → Prop) (Good : State → Prop)

def Always (s : State) : Prop := ∀ t, Relation.ReflTransGen step s t → Good t

variable {step Good}

theorem always_iff {s : State} :
    Always step Good s ↔ Good s ∧ ∀ t, step s t → Always step Good t := by
  constructor
  · intro always
    exact ⟨always s .refl, fun t first u later => always u (.head first later)⟩
  · rintro ⟨here, onward⟩ t reached
    rcases reached.cases_head with rfl | ⟨u, first, later⟩
    · exact here
    · exact onward u first t later

end Always

end MiniLLM.Recording
