import MiniLLM.PlannedExecution
import MiniLLM.ShapeInference
import MiniLLM.GraphTyping
import MiniLLM.Machine

/-!
Graphs made by any sequence of calls of graph/graph_builder.h, with any ids and any
outcome. A call that fails leaves the graph as it was. What keeps such a graph
executable is asked of two calls only: `rms_norm`, which does not look its weight up,
and `output`, which relabels whatever it is given.
-/

namespace MiniLLM

open ShapeInfer MiniLLM.Graph Machine

namespace GraphBuilder

variable {Num A : Type}

section Operations

def matmul (a b : Nat) (name : String) : GraphBuilder Num Nat := do
  let av ← getValue a
  let bv ← getValue b
  let outShape ← check (inferMatmulShape av.shape bv.shape)
  emit .matMul [a, b] outShape av name []

def mul (a b : Nat) (name : String) : GraphBuilder Num Nat := do
  let av ← getValue a
  let bv ← getValue b
  let outShape ← check (inferElementwiseShape av.shape bv.shape)
  emit .mul [a, b] outShape av name []

def silu (x : Nat) (name : String) : GraphBuilder Num Nat := do
  let xv ← getValue x
  let outShape ← check (inferSameShapeUnary xv.shape)
  emit .siLU [x] outShape xv name []

def softmax (x : Nat) (axis : Int) (name : String) : GraphBuilder Num Nat := do
  let xv ← getValue x
  let outShape ← check (inferSameShapeUnary xv.shape)
  emit .softmax [x] outShape xv name [("axis", .int axis)]

def reshape (x : Nat) (targetShape : Shape) (name : String) : GraphBuilder Num Nat := do
  let xv ← getValue x
  let outShape ← check (inferReshapeShape xv.shape targetShape)
  emit .reshape [x] outShape xv name [("shape", .shape outShape)]

def transpose (x : Nat) (axis0 axis1 : Int) (name : String) : GraphBuilder Num Nat := do
  let xv ← getValue x
  let outShape ← check (inferTransposeShape xv.shape axis0 axis1)
  emit .transpose [x] outShape xv name [("axis0", .int axis0), ("axis1", .int axis1)]

/-- A call of the builder's interface. -/
inductive Call (Num : Type) where
  | input (name : String) (shape : Shape) (dtype : DType) (device : Device)
  | constant (name : String) (shape : Shape) (dtype : DType) (device : Device)
  | embedding (inputIds weight : Nat) (name : String)
  | matmul (a b : Nat) (name : String)
  | linear (x weight : Nat) (bias : Option Nat) (name : String)
  | add (a b : Nat) (name : String)
  | mul (a b : Nat) (name : String)
  | rmsNorm (x weight : Nat) (eps : Num) (name : String)
  | silu (x : Nat) (name : String)
  | swiglu (gate up : Nat) (name : String)
  | rope (x : Nat) (numHeads headDim : Int) (ropeBase : Num) (name : String)
  | attention (q k v : Nat) (causal : Bool) (numHeads numKvHeads headDim layerIdx : Int)
      (name : String)
  | qkNorm (x weight : Nat) (eps : Num) (numHeads headDim : Int) (name : String)
  | softmax (x : Nat) (axis : Int) (name : String)
  | reshape (x : Nat) (targetShape : Shape) (name : String)
  | transpose (x : Nat) (axis0 axis1 : Int) (name : String)
  | output (x : Nat)

def Call.run : Call Num → GraphBuilder Num Nat
  | .input name shape dtype device => GraphBuilder.input name shape dtype device
  | .constant name shape dtype device => GraphBuilder.constant name shape dtype device
  | .embedding inputIds weight name => GraphBuilder.embedding inputIds weight name
  | .matmul a b name => GraphBuilder.matmul a b name
  | .linear x weight bias name => GraphBuilder.linear x weight bias name
  | .add a b name => GraphBuilder.add a b name
  | .mul a b name => GraphBuilder.mul a b name
  | .rmsNorm x weight eps name => GraphBuilder.rmsNorm x weight eps name
  | .silu x name => GraphBuilder.silu x name
  | .swiglu gate up name => GraphBuilder.swiglu gate up name
  | .rope x numHeads headDim ropeBase name => GraphBuilder.rope x numHeads headDim ropeBase name
  | .attention q k v causal numHeads numKvHeads headDim layerIdx name =>
      GraphBuilder.attention q k v causal numHeads numKvHeads headDim layerIdx name
  | .qkNorm x weight eps numHeads headDim name =>
      GraphBuilder.qkNorm x weight eps numHeads headDim name
  | .softmax x axis name => GraphBuilder.softmax x axis name
  | .reshape x targetShape name => GraphBuilder.reshape x targetShape name
  | .transpose x axis0 axis1 name => GraphBuilder.transpose x axis0 axis1 name
  | .output x => GraphBuilder.output x

/-- The graph after a call, whatever the call returned. -/
def build (graph : Graph Num) (call : Call Num) : Graph Num := (call.run graph).2

end Operations

section Growth

/-- An operation the executor runs a kernel for. -/
def Executed (op : OpType) : Prop := op ≠ .input ∧ op ≠ .constant ∧ op ≠ .output

instance (op : OpType) : Decidable (Executed op) := inferInstanceAs (Decidable (_ ∧ _))

/-- A call leaves the graph alone, or adds a value and the node that makes it. -/
inductive Grows (graph after : Graph Num) : Prop where
  | same (unchanged : after = graph)
  | node (value : Value) (node : Node Num) (kind : value.kind = .intermediate)
      (op : Executed node.opType) (inputs : ∀ x ∈ node.inputs, x < graph.values.length)
      (outputs : node.outputs = [graph.values.length])
      (grown : after = { values := graph.values ++ [value], nodes := graph.nodes ++ [node] })

/-- `m` grows every graph that has the values `known`. -/
def Adds (known : List Nat) (m : GraphBuilder Num A) : Prop :=
  ∀ graph : Graph Num, (∀ x ∈ known, x < graph.values.length) → Grows graph (m graph).2

theorem adds_getValue {known : List Nat} {x : Nat} {f : Value → GraphBuilder Num A}
    (next : ∀ value, Adds (x :: known) (f value)) : Adds known (getValue x >>= f) := by
  intro graph there
  rw [bind_run, getValue, Graph.value]
  cases found : graph.values[x]? with
  | none => exact .same rfl
  | some value =>
      refine next value graph fun y member => ?_
      rcases List.mem_cons.mp member with rfl | old
      · exact (List.getElem?_eq_some_iff.mp found).1
      · exact there y old

theorem adds_check {B : Type} {known : List Nat} {result : Except Failure B}
    {f : B → GraphBuilder Num A} (next : ∀ b, Adds known (f b)) :
    Adds known (check result >>= f) := by
  intro graph there
  rw [bind_run, check]
  cases result with
  | error failure => exact .same rfl
  | ok b => exact next b graph there

theorem adds_emit {known inputs : List Nat} {op : OpType} {shape : Shape} {like : Value}
    {name : String} {attrs : List (String × AttributeValue Num)} (executed : Executed op)
    (listed : ∀ x ∈ inputs, x ∈ known) : Adds known (emit op inputs shape like name attrs) := by
  intro graph there
  rw [emit_run]
  exact .node _ _ rfl executed (fun x used => there x (listed x used)) rfl rfl

theorem adds_linear (x weight : Nat) (bias : Option Nat) (name : String) :
    Adds [] (linear x weight bias name : GraphBuilder Num Nat) := by
  refine adds_getValue fun xv => adds_getValue fun wv => adds_check fun outShape => ?_
  cases bias with
  | none => exact adds_emit (by decide) (by simp)
  | some bias =>
      refine adds_getValue fun bv => ?_
      split
      · exact fun graph _ => .same rfl
      · exact adds_emit (by decide) (by simp)

/-- A call that works on values: none of `input`, `constant` and `output`. -/
def Call.Operation : Call Num → Prop
  | .input .. | .constant .. | .output .. => False
  | _ => True

/-- The operands a call does not look up. -/
def Call.unchecked : Call Num → List Nat
  | .rmsNorm _ weight _ _ => [weight]
  | _ => []

/-- What the calls themselves do not check: unchecked operands exist, and an output is a value
that is neither input nor constant. -/
def Aimed (graph : Graph Num) (call : Call Num) : Prop :=
  (∀ x ∈ call.unchecked, x < graph.values.length) ∧
    ∀ x value, call = .output x → graph.values[x]? = some value →
      value.kind ≠ .input ∧ value.kind ≠ .constant

theorem adds_call {call : Call Num} (operation : call.Operation) :
    Adds call.unchecked call.run := by
  cases call with
  | input | constant | output => exact operation.elim
  | rmsNorm x weight eps name =>
      exact adds_getValue fun _ => adds_check fun _ => adds_emit (by decide) (by
        simp [Call.unchecked])
  | linear x weight bias name => exact adds_linear x weight bias name
  | embedding | matmul | add | mul | swiglu =>
      exact adds_getValue fun _ => adds_getValue fun _ => adds_check fun _ =>
        adds_emit (by decide) (by simp)
  | qkNorm =>
      exact adds_getValue fun _ => adds_getValue fun _ => adds_check fun _ =>
        adds_emit (by decide) (by simp)
  | attention =>
      exact adds_getValue fun _ => adds_getValue fun _ => adds_getValue fun _ =>
        adds_emit (by decide) (by simp)
  | silu | rope | softmax | reshape | transpose =>
      exact adds_getValue fun _ => adds_check fun _ => adds_emit (by decide) (by simp)

/-- How a call changes the graph. -/
theorem build_cases {graph : Graph Num} {call : Call Num} (aimed : Aimed graph call) :
    Grows graph (build graph call) ∨
      (∃ value, (value.kind = .input ∨ value.kind = .constant) ∧
        build graph call = { graph with values := graph.values ++ [value] }) ∨
      ∃ x value, graph.values[x]? = some value ∧ value.kind ≠ .input ∧ value.kind ≠ .constant ∧
        build graph call = { graph with values := graph.values.modify x fun value =>
          { value with kind := .output } } := by
  by_cases operation : call.Operation
  · exact Or.inl (adds_call operation graph aimed.1)
  cases call with
  | input name shape dtype device => exact Or.inr (Or.inl ⟨_, Or.inl rfl, rfl⟩)
  | constant name shape dtype device => exact Or.inr (Or.inl ⟨_, Or.inr rfl, rfl⟩)
  | output x =>
      change Grows graph (GraphBuilder.output x graph).2 ∨ _
      unfold build
      change _ ∨ _ ∨ ∃ x' value, _ ∧ _ ∧ _ ∧ (GraphBuilder.output x graph).2 = _
      unfold GraphBuilder.output
      rw [bind_run, getValue, Graph.value]
      cases found : graph.values[x]? with
      | none => exact Or.inl (.same rfl)
      | some value =>
          obtain ⟨notInput, notConstant⟩ := aimed.2 x value rfl found
          exact Or.inr (Or.inr ⟨x, value, found, notInput, notConstant, rfl⟩)
  | _ => exact absurd trivial operation

end Growth

section Invariant

/-- The graph under construction: every node makes one value of its own, behind its inputs, and
the values that nodes make are the intermediates and the outputs. -/
structure Built (graph : Graph Num) : Prop where
  wired : ∀ node ∈ graph.nodes, graph.Wired node
  executed : ∀ node ∈ graph.nodes, Executed node.opType
  ascending : graph.nodes.Pairwise fun a b => ∀ x ∈ a.outputs, ∀ y ∈ b.outputs, x < y
  made : ∀ id value, graph.values[id]? = some value →
    ((value.kind ≠ .input ∧ value.kind ≠ .constant) ↔ ∃ node ∈ graph.nodes, id ∈ node.outputs)

theorem built_empty : Built ({} : Graph Num) where
  wired := fun _ member => nomatch member
  executed := fun _ member => nomatch member
  ascending := .nil
  made := fun _ _ found => nomatch found

variable {graph : Graph Num}

theorem Built.output_lt (built : Built graph) {node : Node Num} (member : node ∈ graph.nodes)
    {id : Nat} (out : id ∈ node.outputs) : id < graph.values.length := by
  obtain ⟨only, is, inside, _⟩ := built.wired node member
  rw [is, List.mem_singleton] at out
  exact out ▸ inside

/-- More values, or other kinds, leave the wiring alone. -/
theorem Built.rewire (built : Built graph) {values : List Value}
    (longer : graph.values.length ≤ values.length)
    (made : ∀ id value, values[id]? = some value →
      ((value.kind ≠ .input ∧ value.kind ≠ .constant) ↔ ∃ node ∈ graph.nodes, id ∈ node.outputs)) :
    Built { graph with values := values } where
  wired := fun node member => by
    obtain ⟨out, is, inside, behind⟩ := built.wired node member
    exact ⟨out, is, inside.trans_le longer, behind⟩
  executed := built.executed
  ascending := built.ascending
  made := made

theorem Built.addValue (built : Built graph) {value : Value}
    (kind : value.kind = .input ∨ value.kind = .constant) :
    Built { graph with values := graph.values ++ [value] } := by
  refine built.rewire (by simp) fun id held found => ?_
  rcases Nat.lt_or_ge id graph.values.length with old | new
  · rw [List.getElem?_append_left old] at found
    exact built.made id held found
  · obtain rfl : held = value := by
      rw [List.getElem?_append_right new, List.getElem?_singleton] at found
      split at found
      · exact (Option.some.inj found).symm
      · cases found
    refine iff_of_false (fun neither => kind.elim neither.1 neither.2) ?_
    rintro ⟨node, member, out⟩
    exact absurd (built.output_lt member out) (Nat.not_lt.mpr new)

theorem Built.markOutput (built : Built graph) {x : Nat} {value : Value}
    (found : graph.values[x]? = some value) (notInput : value.kind ≠ .input)
    (notConstant : value.kind ≠ .constant) :
    Built { graph with values := graph.values.modify x fun value =>
      { value with kind := .output } } := by
  refine built.rewire (by simp) fun id held there => ?_
  by_cases same : x = id
  · subst same
    obtain rfl : held = { value with kind := .output } := by simpa [found] using there.symm
    exact iff_of_true ⟨by simp, by simp⟩ ((built.made x value found).mp ⟨notInput, notConstant⟩)
  · refine built.made id held ?_
    simpa [same] using there

theorem Built.addNode (built : Built graph) {value : Value} {node : Node Num}
    (kind : value.kind = .intermediate) (op : Executed node.opType)
    (inputs : ∀ x ∈ node.inputs, x < graph.values.length)
    (outputs : node.outputs = [graph.values.length]) :
    Built { values := graph.values ++ [value], nodes := graph.nodes ++ [node] } := by
  have last : ∀ other ∈ [node], other = node := fun other => List.mem_singleton.mp
  refine ⟨fun other member => ?_, fun other member => ?_, ?_, fun id held found => ?_⟩
  · rcases List.mem_append.mp member with old | new
    · obtain ⟨out, is, inside, behind⟩ := built.wired other old
      exact ⟨out, is, by simp; omega, behind⟩
    · rw [last other new]
      exact ⟨_, outputs, by simp, inputs⟩
  · rcases List.mem_append.mp member with old | new
    · exact built.executed other old
    · exact last other new ▸ op
  · refine List.pairwise_append.mpr ⟨built.ascending, List.pairwise_singleton _ _, ?_⟩
    intro old member new is x made y output
    rw [last new is, outputs, List.mem_singleton] at output
    exact output ▸ built.output_lt member made
  · rcases Nat.lt_or_ge id graph.values.length with old | new
    · rw [List.getElem?_append_left old] at found
      have other : id ∉ node.outputs := by simp [outputs, Nat.ne_of_lt old]
      simp only [built.made id held found, List.mem_append, List.mem_singleton, or_and_right,
        exists_or, exists_eq_left, other, or_false]
    · have is : id = graph.values.length := by
        have inside := (List.getElem?_eq_some_iff.mp found).1
        rw [List.length_append, List.length_singleton] at inside
        omega
      obtain rfl : held = value := by simpa [is] using found.symm
      exact iff_of_true (by simp [kind]) ⟨node, by simp, by simp [outputs, is]⟩

/-- The step: any call, whatever it returns. -/
theorem Built.call (built : Built graph) {call : Call Num} (aimed : Aimed graph call) :
    Built (build graph call) := by
  rcases build_cases aimed with grows | ⟨value, kind, is⟩ | ⟨x, value, found, notInput, notConstant, is⟩
  · cases grows with
    | same unchanged =>
        rw [unchanged]
        exact built
    | node value node kind op inputs outputs grown =>
        exact grown ▸ built.addNode kind op inputs outputs
  · exact is ▸ built.addValue kind
  · exact is ▸ built.markOutput found notInput notConstant

end Invariant

section Executable

variable {graph : Graph Num}

/-- What a node feeds is made behind it. -/
theorem Built.feeds_lt (built : Built graph) {i j : Nat} (feeds : graph.Feeds i j) {a b : Node Num}
    (foundA : graph.nodes[i]? = some a) (foundB : graph.nodes[j]? = some b) :
    ∀ x ∈ a.outputs, ∀ y ∈ b.outputs, x < y := by
  obtain ⟨a', b', vid, foundA', foundB', made, used⟩ := feeds
  obtain rfl := Option.some.inj (foundA.symm.trans foundA')
  obtain rfl := Option.some.inj (foundB.symm.trans foundB')
  obtain ⟨outA, isA, _, _⟩ := built.wired a (List.mem_of_getElem? foundA)
  obtain ⟨outB, isB, _, behind⟩ := built.wired b (List.mem_of_getElem? foundB)
  rw [isA, List.mem_singleton] at made
  subst made
  simp only [isA, isB, List.mem_singleton, forall_eq]
  exact behind vid used

theorem Built.acyclic (built : Built graph) (i : Nat) : ¬ Relation.TransGen graph.Feeds i i := by
  have ascending : ∀ j, Relation.TransGen graph.Feeds i j → ∀ a b, graph.nodes[i]? = some a →
      graph.nodes[j]? = some b → ∀ x ∈ a.outputs, ∀ y ∈ b.outputs, x < y := by
    intro j path
    induction path with
    | single feeds => exact fun a b foundA foundB => built.feeds_lt feeds foundA foundB
    | tail _ feeds ih =>
        intro a c foundA foundC x outX z outZ
        obtain ⟨b, _, _, foundB, _, _, _⟩ := id feeds
        obtain ⟨y, is, _, _⟩ := built.wired b (List.mem_of_getElem? foundB)
        have outY : y ∈ b.outputs := by simp [is]
        exact (ih a b foundA foundB x outX y outY).trans
          (built.feeds_lt feeds foundB foundC y outY z outZ)
  intro cycle
  obtain ⟨a, foundA⟩ : ∃ a, graph.nodes[i]? = some a := by
    obtain ⟨_, feeds, _⟩ := Relation.TransGen.head'_iff.mp cycle
    obtain ⟨a, _, _, foundA, _, _, _⟩ := feeds
    exact ⟨a, foundA⟩
  obtain ⟨x, is, _, _⟩ := built.wired a (List.mem_of_getElem? foundA)
  exact Nat.lt_irrefl x (ascending i cycle a a foundA foundA x (by simp [is]) x (by simp [is]))

theorem Built.single (built : Built graph) : graph.SingleProducer := by
  intro i j a b vid foundA foundB outA outB
  obtain ⟨insideA, rfl⟩ := List.getElem?_eq_some_iff.mp foundA
  obtain ⟨insideB, rfl⟩ := List.getElem?_eq_some_iff.mp foundB
  have order := List.pairwise_iff_getElem.mp built.ascending
  rcases Nat.lt_trichotomy i j with before | same | behind
  · exact absurd (order i j insideA insideB before vid outA vid outB) (Nat.lt_irrefl vid)
  · exact same
  · exact absurd (order j i insideB insideA behind vid outB vid outA) (Nat.lt_irrefl vid)

theorem Built.dataflow (built : Built graph) : graph.Dataflow where
  produced := fun id value found kind => by
    obtain ⟨node, member, out⟩ := (built.made id value found).mp (by
      rcases kind with is | is <;> simp [is])
    obtain ⟨i, there⟩ := List.mem_iff_getElem?.mp member
    exact ⟨i, node, there, out, built.executed node member, fun j other placed outs =>
      built.single j i other node id placed there outs out⟩
  external := fun id value found kind i node there out => by
    obtain ⟨notInput, notConstant⟩ :=
      (built.made id value found).mpr ⟨node, List.mem_of_getElem? there, out⟩
    exact kind.elim notInput notConstant

theorem Built.validate (built : Built graph) : graph.validate = .makeOk := by
  have clean : (graph.nodes.zipIdx.findSome? fun entry => graph.nodeError entry.2 entry.1) = none := by
    rw [List.findSome?_eq_none_iff]
    rintro ⟨node, id⟩ member
    have listed := List.mem_of_getElem? (List.mem_zipIdx_iff_getElem?.mp member)
    obtain ⟨out, only, inside, behind⟩ := built.wired node listed
    have values : (node.inputs ++ node.outputs).findSome? (graph.missingValue id node) = none := by
      rw [List.findSome?_eq_none_iff]
      intro value used
      refine if_neg (Nat.not_le.mpr ?_)
      rcases List.mem_append.mp used with input | output
      · exact (behind value input).trans inside
      · exact built.output_lt listed output
    rw [nodeError, values]
    exact if_neg fun output => (built.executed node listed).2.2 output.1
  rw [Graph.validate, clean]

/-- Whatever the calls were and whichever of them failed, as long as unchecked operands were
there and outputs were computed, the graph validates, has an order to run in, and is wired as
execution takes it to be. -/
theorem built_graph_executable {calls : List (Call Num)} (aimed : Guarded build Aimed {} calls) :
    (run build {} calls).validate = .makeOk ∧ (run build {} calls).Dataflow ∧
      ∃ order, (run build {} calls).topologicalSort = .ok order ∧
        (run build {} calls).Ordered order := by
  have built := guarded_invariant build Aimed Built (fun _ _ built aimed => built.call aimed) {}
    calls built_empty aimed
  obtain ⟨iff, ordered⟩ := topologicalSort_cases (by rw [built.validate]; rfl) built.single
  obtain ⟨order, sorts⟩ := iff.mpr built.acyclic
  exact ⟨built.validate, built.dataflow, order, sorts, ordered order sorts⟩

/-- A small graph; the multiplication of vectors is refused and leaves no trace. -/
def sampleCalls : List (Call Int) :=
  [.input "x" pairShape .float32 ⟨.cpu, 0⟩, .silu 0 "silu", .matmul 0 1 "bad",
    .rmsNorm 1 0 1 "norm", .add 2 0 "sum", .output 3]

theorem built_graph_executable_sample :
    (run build {} sampleCalls).validate = .makeOk ∧ (run build {} sampleCalls).Dataflow ∧
      ∃ order, (run build {} sampleCalls).topologicalSort = .ok order ∧
        (run build {} sampleCalls).Ordered order := by
  have free : ∀ {graph : Graph Int} {call : Call Int}, call.unchecked = [] →
      (∀ x, call ≠ .output x) → Aimed graph call := fun none other =>
    ⟨by simp [none], fun x _ is => absurd is (other x)⟩
  refine built_graph_executable ⟨free rfl (by simp), free rfl (by simp), free rfl (by simp), ?_,
    free rfl (by simp), ?_, trivial⟩
  · refine ⟨fun x used => ?_, by simp⟩
    obtain rfl := List.mem_singleton.mp used
    decide
  · refine ⟨fun x used => (nomatch used), fun x value is found => ?_⟩
    cases is
    obtain rfl := Option.some.inj found
    decide

end Executable

end GraphBuilder

end MiniLLM
