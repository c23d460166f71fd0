import MiniLLM.Graph
import MiniLLM.Loops

/-!
runtime/kernel_registry.cpp and the CPU executor of runtime/executor.cpp, over
whatever context the kernels work on. A kernel reports success as `none`; it may
have changed the context before it fails.
-/

namespace MiniLLM

open Loops

/-- How a call fails: by a status, by an exception of the standard library, or without a
defined outcome, as where an index computed in `int` leaves `int`. -/
inductive Failure where
  | returned (status : Status)
  | thrown
  | undefined
  deriving DecidableEq, Repr

/-- The outcome of a function that has none on some inputs. -/
def Failure.ofDefined {β : Type} : Option β → Except Failure β
  | some result => .ok result
  | none => .error .undefined

abbrev KernelFn (Num Ctx : Type) := Node Num → Ctx → Option Failure × Ctx

/-- The kernels registered for the CPU. -/
abbrev KernelRegistry (Num Ctx : Type) := OpType → Option (KernelFn Num Ctx)

def KernelRegistry.find {Num Ctx : Type} (registry : KernelRegistry Num Ctx) (op : OpType) :
    Except Status (KernelFn Num Ctx) :=
  match registry op with
  | some kernel => .ok kernel
  | none => .error (.notImplemented ("no kernel registered for op " ++ op.name))

namespace CpuExecutor

variable {Num Ctx : Type}

def kernelFailed (nid : Nat) (node : Node Num) (st : Status) : Status :=
  .runtimeError ("kernel " ++ node.opType.name ++ " failed for node #" ++ toString nid ++
    " (" ++ node.name ++ "): " ++ st.toString)

/-- One round of the loop of `run`. -/
def runNode (registry : KernelRegistry Num Ctx) (graph : Graph Num) (nid : Nat) (ctx : Ctx) :
    Option Failure × Ctx :=
  match graph.node nid with
  | .error st => (some (.returned st), ctx)
  | .ok node =>
      if node.opType = .input ∨ node.opType = .constant then (none, ctx)
      else if node.opType = .output then (none, ctx)
      else
        match registry.find node.opType with
        | .error st => (some (.returned st), ctx)
        | .ok kernel =>
            match kernel node ctx with
            | (none, ctx) => (none, ctx)
            | (some (.returned st), ctx) => (some (.returned (kernelFailed nid node st)), ctx)
            | (some .thrown, ctx) => (some .thrown, ctx)
            | (some .undefined, ctx) => (some .undefined, ctx)

/-- A node leaves the context alone, or its kernel ran. -/
theorem runNode_cases (registry : KernelRegistry Num Ctx) (graph : Graph Num) (nid : Nat)
    (ctx : Ctx) :
    (runNode registry graph nid ctx).2 = ctx ∧
        (∀ node, graph.node nid = .ok node → (registry node.opType).isSome →
          node.opType = .input ∨ node.opType = .constant ∨ node.opType = .output) ∨
      ∃ node kernel, graph.node nid = .ok node ∧ registry node.opType = some kernel ∧
        (runNode registry graph nid ctx).2 = (kernel node ctx).2 ∧
        ((runNode registry graph nid ctx).1 = none ↔ (kernel node ctx).1 = none) := by
  unfold runNode
  cases found : graph.node nid with
  | error st => exact Or.inl ⟨rfl, fun node no => by cases no⟩
  | ok node =>
      dsimp only
      by_cases source : node.opType = .input ∨ node.opType = .constant
      · rw [if_pos source]
        refine Or.inl ⟨rfl, fun other same _ => ?_⟩
        obtain rfl := Except.ok.inj same
        tauto
      rw [if_neg source]
      by_cases sink : node.opType = .output
      · rw [if_pos sink]
        refine Or.inl ⟨rfl, fun other same _ => ?_⟩
        obtain rfl := Except.ok.inj same
        tauto
      rw [if_neg sink]
      unfold KernelRegistry.find
      cases registered : registry node.opType with
      | none =>
          refine Or.inl ⟨rfl, fun other same some => ?_⟩
          obtain rfl := Except.ok.inj same
          simp [registered] at some
      | some kernel =>
          refine Or.inr ⟨node, kernel, rfl, registered, ?_⟩
          dsimp only
          generalize kernel node ctx = result
          obtain ⟨err, after⟩ := result
          cases err with
          | none => exact ⟨rfl, Iff.rfl⟩
          | some failure => cases failure <;> simp

def runNodes (registry : KernelRegistry Num Ctx) (graph : Graph Num) (order : List Nat)
    (ctx : Ctx) : Option Failure × Ctx :=
  tryList (runNode registry graph) order ctx

/-- `run` of an executor compiled for `graph` with execution order `order`. -/
def run (registry : KernelRegistry Num Ctx) (advance : Ctx → Status × Ctx) (graph : Graph Num)
    (order : List Nat) (ctx : Ctx) : Option Failure × Ctx :=
  match runNodes registry graph order ctx with
  | (some failure, ctx) => (some failure, ctx)
  | (none, ctx) =>
      let (st, ctx) := advance ctx
      if !st.isOk then
        (some (.returned (.runtimeError ("KV cache advance failed: " ++ st.toString))), ctx)
      else (none, ctx)

end CpuExecutor

end MiniLLM
