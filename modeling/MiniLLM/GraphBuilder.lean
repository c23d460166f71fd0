import MiniLLM.Executor

/-!
graph/shape_infer.cpp and graph/graph_builder.cpp, the operations the
transformer builder uses. An operation changes the graph it works on and keeps
what it changed when it fails. `std::invalid_argument` of the `Shape` constructor
is a thrown failure.
-/

namespace MiniLLM

/-- The `Shape` constructor. -/
def Shape.make (dims : List Int) : Except Failure Shape :=
  if valid : ∀ d ∈ dims, d = -1 ∨ 0 < d ∧ d < 9223372036854775808 then .ok ⟨dims, valid⟩
  else .error .thrown

theorem Shape.make_dims {dims : List Int} {shape : Shape} (made : Shape.make dims = .ok shape) :
    shape.dims = dims := by
  unfold Shape.make at made
  split at made
  · obtain rfl := Except.ok.inj made
    rfl
  · cases made

theorem Shape.make_ok {dims : List Int}
    (valid : ∀ d ∈ dims, d = -1 ∨ 0 < d ∧ d < 9223372036854775808) :
    Shape.make dims = .ok ⟨dims, valid⟩ := dif_pos valid

namespace ShapeInfer

def mismatch {A : Type} (message : String) : Except Failure A :=
  .error (.returned (.shapeMismatch message))

def inferLinearShape (x weight : Shape) : Except Failure Shape :=
  if weight.rank ≠ 2 then mismatch ("Linear weight must be rank 2, got " ++ weight.toString)
  else if x.rank < 1 then mismatch ("Linear input must have rank >= 1, got " ++ x.toString)
  else
    let inFeat := x.dims.getLastD 0
    let wIn := weight.dims.getD 1 0
    if inFeat ≥ 0 ∧ wIn ≥ 0 ∧ inFeat ≠ wIn then
      mismatch ("Linear in_features mismatch: x " ++ x.toString ++ " vs weight " ++ weight.toString)
    else Shape.make (x.dims.dropLast ++ [weight.dims.getD 0 0])

/-- The first axis on which two static dimensions differ. -/
def mismatchAxis (a b : Shape) : Option Nat :=
  (a.dims.zip b.dims).findIdx? fun (da, db) => da ≥ 0 ∧ db ≥ 0 ∧ da ≠ db

def inferSameShape (rankText dimText : String) (a b : Shape) : Except Failure Shape :=
  if a.rank ≠ b.rank then
    mismatch (rankText ++ " requires same rank: " ++ a.toString ++ " vs " ++ b.toString)
  else
    match mismatchAxis a b with
    | some i => mismatch (dimText ++ " dim mismatch at axis " ++ toString i ++ ": " ++ a.toString ++
        " vs " ++ b.toString)
    | none => .ok a

def inferElementwiseShape (a b : Shape) : Except Failure Shape :=
  inferSameShape "Elementwise op" "Elementwise" a b

def inferAddShape (a b : Shape) : Except Failure Shape := inferSameShape "Add" "Add" a b

def inferSameShapeUnary (x : Shape) : Except Failure Shape := .ok x

def inferEmbeddingShape (inputIds weight : Shape) : Except Failure Shape :=
  if inputIds.rank < 1 ∨ weight.rank ≠ 2 then
    mismatch ("Embedding expects input_ids rank>=1 and weight rank 2, got " ++ inputIds.toString ++
      " and " ++ weight.toString)
  else Shape.make (inputIds.dims ++ [weight.dims.getD 1 0])

end ShapeInfer

/-- A computation on a graph under construction. -/
abbrev GraphBuilder (Num : Type) := ExceptT Failure (StateM (Graph Num))

namespace GraphBuilder

open ShapeInfer

variable {Num : Type}

def check {A : Type} (result : Except Failure A) : GraphBuilder Num A := fun graph => (result, graph)

def getValue (id : Nat) : GraphBuilder Num Value := fun graph =>
  match graph.value id with
  | .ok value => (.ok value, graph)
  | .error st => (.error (.returned st), graph)

def addValue (value : Value) : GraphBuilder Num Nat := fun graph =>
  (.ok graph.values.length, { graph with values := graph.values ++ [value] })

def addNode (node : Node Num) : GraphBuilder Num Nat := fun graph =>
  (.ok graph.nodes.length, { graph with nodes := graph.nodes ++ [node] })

/-- `set_attr` on the node, if there is one. -/
def setAttr (nid : Nat) (key : String) (value : AttributeValue Num) : GraphBuilder Num Unit :=
  fun graph =>
    (.ok (), { graph with nodes := graph.nodes.modify nid fun node =>
      { node with attrs := fun other => if other = key then some value else node.attrs other } })

def setAttrs (nid : Nat) : List (String × AttributeValue Num) → GraphBuilder Num Unit
  | [] => pure ()
  | attr :: rest => do
      setAttr nid attr.1 attr.2
      setAttrs nid rest

def input (name : String) (shape : Shape) (dtype : DType) (device : Device) : GraphBuilder Num Nat :=
  addValue ⟨name, shape, dtype, device, .input⟩

def constant (name : String) (shape : Shape) (dtype : DType) (device : Device) :
    GraphBuilder Num Nat := addValue ⟨name, shape, dtype, device, .constant⟩

/-- The end of every operation: the output value and its node, with the dtype and
device of `like`. -/
def emit (op : OpType) (inputs : List Nat) (shape : Shape) (like : Value) (name : String)
    (attrs : List (String × AttributeValue Num)) : GraphBuilder Num Nat := do
  let out ← addValue ⟨name ++ ".out", shape, like.dtype, like.device, .intermediate⟩
  let nid ← addNode { opType := op, name := name, inputs := inputs, outputs := [out] }
  setAttrs nid attrs
  return out

def embedding (inputIds weight : Nat) (name : String) : GraphBuilder Num Nat := do
  let iv ← getValue inputIds
  let wv ← getValue weight
  let outShape ← check (inferEmbeddingShape iv.shape wv.shape)
  emit .embedding [inputIds, weight] outShape wv name []

def linear (x weight : Nat) (bias : Option Nat) (name : String) : GraphBuilder Num Nat := do
  let xv ← getValue x
  let wv ← getValue weight
  let outShape ← check (inferLinearShape xv.shape wv.shape)
  match bias with
  | some bias =>
      let bv ← getValue bias
      if bv.shape.rank ≠ 1 ∨ bv.shape.dim 0 ≠ wv.shape.dim 0 then
        check (mismatch ("Linear bias must have shape [" ++ toString (wv.shape.dims.getD 0 0) ++
          "], got " ++ bv.shape.toString))
      else emit .linear [x, weight, bias] outShape wv name []
  | none => emit .linear [x, weight] outShape wv name []

def add (a b : Nat) (name : String) : GraphBuilder Num Nat := do
  let av ← getValue a
  let bv ← getValue b
  let outShape ← check (inferAddShape av.shape bv.shape)
  emit .add [a, b] outShape av name []

def rmsNorm (x weight : Nat) (eps : Num) (name : String) : GraphBuilder Num Nat := do
  let xv ← getValue x
  let outShape ← check (inferSameShapeUnary xv.shape)
  emit .rmsNorm [x, weight] outShape xv name [("eps", .double eps)]

def swiglu (gate up : Nat) (name : String) : GraphBuilder Num Nat := do
  let gv ← getValue gate
  let uv ← getValue up
  let outShape ← check (inferElementwiseShape gv.shape uv.shape)
  emit .swiGLU [gate, up] outShape gv name []

def rope (x : Nat) (numHeads headDim : Int) (ropeBase : Num) (name : String) :
    GraphBuilder Num Nat := do
  let xv ← getValue x
  let outShape ← check (inferSameShapeUnary xv.shape)
  emit .roPE [x] outShape xv name
    [("num_heads", .int numHeads), ("head_dim", .int headDim), ("rope_base", .double ropeBase)]

def attention (q k v : Nat) (causal : Bool) (numHeads numKvHeads headDim layerIdx : Int)
    (name : String) : GraphBuilder Num Nat := do
  let qv ← getValue q
  let _ ← getValue k
  let _ ← getValue v
  emit .attention [q, k, v] qv.shape qv name
    [("causal", .bool causal), ("num_heads", .int numHeads), ("num_kv_heads", .int numKvHeads),
      ("head_dim", .int headDim), ("layer_idx", .int layerIdx)]

def qkNorm (x weight : Nat) (eps : Num) (numHeads headDim : Int) (name : String) :
    GraphBuilder Num Nat := do
  let xv ← getValue x
  let _ ← getValue weight
  let outShape ← check (inferSameShapeUnary xv.shape)
  emit .qkNorm [x, weight] outShape xv name
    [("eps", .double eps), ("num_heads", .int numHeads), ("head_dim", .int headDim)]

def output (x : Nat) : GraphBuilder Num Nat := do
  let _ ← getValue x
  fun graph => (.ok x, { graph with values := graph.values.modify x fun value =>
    { value with kind := .output } })

/-- What a run leaves: `P` of the result and the graph, `Q` of the graph behind an error. -/
def Yields {A : Type} (m : GraphBuilder Num A) (graph : Graph Num) (P : A → Graph Num → Prop)
    (Q : Graph Num → Prop) : Prop :=
  match m graph with
  | (.ok a, after) => P a after
  | (.error _, after) => Q after

section Rules

variable {A B : Type} {graph : Graph Num} {P : A → Graph Num → Prop} {R : B → Graph Num → Prop}
  {Q : Graph Num → Prop}

theorem bind_run (m : GraphBuilder Num A) (f : A → GraphBuilder Num B) (graph : Graph Num) :
    (m >>= f) graph = match m graph with
      | (.ok a, after) => f a after
      | (.error failure, after) => (.error failure, after) := by
  change ExceptT.bindCont f (m graph).1 (m graph).2 = _
  rcases m graph with ⟨_ | _, _⟩ <;> rfl

theorem Yields.bind {m : GraphBuilder Num A} {f : A → GraphBuilder Num B}
    (first : Yields m graph P Q) (next : ∀ a after, P a after → Yields (f a) after R Q) :
    Yields (m >>= f) graph R Q := by
  unfold Yields at first ⊢
  rw [bind_run]
  generalize m graph = result at first ⊢
  obtain ⟨failure | a, after⟩ := result
  · exact first
  · exact next a after first

theorem Yields.mono {m : GraphBuilder Num A} {P' : A → Graph Num → Prop} {Q' : Graph Num → Prop}
    (yields : Yields m graph P Q) (success : ∀ a after, P a after → P' a after)
    (failure : ∀ after, Q after → Q' after) : Yields m graph P' Q' := by
  unfold Yields at yields ⊢
  generalize m graph = result at yields ⊢
  obtain ⟨_ | a, after⟩ := result
  · exact failure after yields
  · exact success a after yields

theorem modify_last {E : Type} (items : List E) (item : E) (f : E → E) :
    (items ++ [item]).modify items.length f = items ++ [f item] := by
  induction items with
  | nil => rfl
  | cons head rest ih => simp [ih]

/-- The attributes a node has after `set_attr` for each of the list. -/
def attrsOf (attrs : List (String × AttributeValue Num)) : String → Option (AttributeValue Num) :=
  attrs.foldl (fun held attr other => if other = attr.1 then some attr.2 else held other) fun _ => none

/-- Setting attributes of the node added last. -/
theorem setAttrs_run (nodes : List (Node Num)) (node : Node Num)
    (attrs : List (String × AttributeValue Num)) (values : List Value) :
    setAttrs nodes.length attrs { values := values, nodes := nodes ++ [node] } =
      (.ok (), { values := values, nodes := nodes ++ [{ node with
        attrs := attrs.foldl (fun held attr other =>
          if other = attr.1 then some attr.2 else held other) node.attrs }] }) := by
  induction attrs generalizing node with
  | nil => rfl
  | cons attr rest ih =>
      rw [setAttrs, bind_run]
      simp only [setAttr, modify_last]
      exact ih _

/-- The value and the node an operation ends with. -/
theorem emit_run (op : OpType) (inputs : List Nat) (shape : Shape) (like : Value) (name : String)
    (attrs : List (String × AttributeValue Num)) (graph : Graph Num) :
    emit op inputs shape like name attrs graph = (.ok graph.values.length,
      { values := graph.values ++ [⟨name ++ ".out", shape, like.dtype, like.device, .intermediate⟩]
        nodes := graph.nodes ++ [{
          opType := op, name := name, inputs := inputs, outputs := [graph.values.length]
          attrs := attrsOf attrs }] }) := by
  unfold emit
  rw [bind_run]
  simp only [addValue]
  rw [bind_run]
  simp only [addNode]
  rw [bind_run, setAttrs_run]
  rfl

end Rules

end GraphBuilder

end MiniLLM
