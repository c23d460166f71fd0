import MiniLLM.TopologicalSort
import MiniLLM.GraphBuilder

/-!
Shapes through a graph under construction. A computation has a type over the
shapes it may rely on: it succeeds, keeps every shape there is, and leaves a
graph whose nodes fit their kernels if it found one.
-/

namespace MiniLLM

namespace Graph

variable {Num : Type}

/-- Value `id` has these dimensions. -/
def Has (graph : Graph Num) (id : Nat) (dims : List Int) : Prop :=
  ∃ value, graph.values[id]? = some value ∧ value.shape.dims = dims

/-- Value `id` is an output, made by a node of the graph. -/
structure Returns (graph : Graph Num) (id : Nat) : Prop where
  kind : ∃ value, graph.values[id]? = some value ∧ value.kind = .output
  node : ∃ node ∈ graph.nodes, node.outputs = [id]

/-- The shapes the CPU adapter of a node's operation takes its inputs and its output to have. -/
inductive Fits (graph : Graph Num) (node : Node Num) : Prop where
  | embedding {ids weight out : Nat} {lead : List Int} {vocab hidden : Int}
      (op : node.opType = .embedding) (inputs : node.inputs = [ids, weight])
      (outputs : node.outputs = [out]) (rank : lead ≠ []) (idsShape : graph.Has ids lead)
      (weightShape : graph.Has weight [vocab, hidden])
      (outShape : graph.Has out (lead ++ [hidden]))
  | linear {x weight out : Nat} {lead : List Int} {inFeatures outFeatures : Int}
      (op : node.opType = .linear) (inputs : node.inputs = [x, weight])
      (outputs : node.outputs = [out]) (xShape : graph.Has x (lead ++ [inFeatures]))
      (weightShape : graph.Has weight [outFeatures, inFeatures])
      (outShape : graph.Has out (lead ++ [outFeatures]))
  | rmsNorm {x gamma out : Nat} {lead : List Int} {hidden : Int}
      (op : node.opType = .rmsNorm) (inputs : node.inputs = [x, gamma])
      (outputs : node.outputs = [out]) (xShape : graph.Has x (lead ++ [hidden]))
      (gammaShape : graph.Has gamma [hidden]) (outShape : graph.Has out (lead ++ [hidden]))
  | qkNorm {x gamma out : Nat} {lead : List Int} {numHeads headDim : Int}
      (op : node.opType = .qkNorm) (inputs : node.inputs = [x, gamma])
      (outputs : node.outputs = [out]) (heads : node.attrInt "num_heads" 12 = numHeads)
      (dim : node.attrInt "head_dim" 64 = headDim) (positive : 0 < numHeads ∧ 0 < headDim)
      (xShape : graph.Has x (lead ++ [numHeads * headDim]))
      (gammaShape : graph.Has gamma [headDim])
      (outShape : graph.Has out (lead ++ [numHeads * headDim]))
  | roPE {x out : Nat} {lead : List Int} {numHeads headDim : Int}
      (op : node.opType = .roPE) (inputs : node.inputs = [x]) (outputs : node.outputs = [out])
      (heads : node.attrInt "num_heads" 12 = numHeads)
      (dim : node.attrInt "head_dim" 64 = headDim) (positive : 0 < numHeads ∧ 0 < headDim)
      (xShape : graph.Has x (lead ++ [numHeads * headDim]))
      (outShape : graph.Has out (lead ++ [numHeads * headDim]))
  | attention {q k v out : Nat} {batch seqLen numHeads numKvHeads headDim : Int}
      (op : node.opType = .attention) (inputs : node.inputs = [q, k, v])
      (outputs : node.outputs = [out]) (heads : node.attrInt "num_heads" 12 = numHeads)
      (kvHeads : node.attrInt "num_kv_heads" 12 = numKvHeads)
      (dim : node.attrInt "head_dim" 64 = headDim)
      (positive : 0 < numHeads ∧ 0 < numKvHeads ∧ 0 < headDim)
      (grouped : numHeads % numKvHeads = 0)
      (qShape : graph.Has q [batch, seqLen, numHeads * headDim])
      (kShape : graph.Has k [batch, seqLen, numKvHeads * headDim])
      (vShape : graph.Has v [batch, seqLen, numKvHeads * headDim])
      (outShape : graph.Has out [batch, seqLen, numHeads * headDim])
  | swiGLU {gate up out : Nat} {dims : List Int}
      (op : node.opType = .swiGLU) (inputs : node.inputs = [gate, up])
      (outputs : node.outputs = [out]) (gateShape : graph.Has gate dims)
      (upShape : graph.Has up dims) (outShape : graph.Has out dims)
  | add {a b out : Nat} {dims : List Int}
      (op : node.opType = .add) (inputs : node.inputs = [a, b])
      (outputs : node.outputs = [out]) (aShape : graph.Has a dims) (bShape : graph.Has b dims)
      (outShape : graph.Has out dims)

/-- A node of one output, behind its inputs. -/
def Wired (graph : Graph Num) (node : Node Num) : Prop :=
  ∃ out, node.outputs = [out] ∧ out < graph.values.length ∧ ∀ x ∈ node.inputs, x < out

structure Sound (graph : Graph Num) : Prop where
  fits : ∀ node ∈ graph.nodes, graph.Fits node
  wired : ∀ node ∈ graph.nodes, graph.Wired node
  ascending : graph.nodes.Pairwise fun a b => ∀ x ∈ a.outputs, ∀ y ∈ b.outputs, x < y

/-- The shapes of `graph` are shapes of `after`. -/
def Keeps (graph after : Graph Num) : Prop := ∀ id dims, graph.Has id dims → after.Has id dims

section Has

variable {graph after : Graph Num} {id : Nat} {dims : List Int}

theorem Has.lt (has : graph.Has id dims) : id < graph.values.length := by
  obtain ⟨value, found, _⟩ := has
  exact (List.getElem?_eq_some_iff.mp found).1

theorem Keeps.length_le (keeps : graph.Keeps after) :
    graph.values.length ≤ after.values.length := by
  by_contra short
  obtain ⟨value, found⟩ : ∃ value, graph.values[after.values.length]? = some value :=
    ⟨_, List.getElem?_eq_getElem (by omega)⟩
  have inside := (keeps _ _ ⟨value, found, rfl⟩).lt
  omega

theorem Fits.mono {node : Node Num} (fits : graph.Fits node) (keeps : graph.Keeps after) :
    after.Fits node := by
  cases fits with
  | embedding op ins outs rank a b c =>
      exact .embedding op ins outs rank (keeps _ _ a) (keeps _ _ b) (keeps _ _ c)
  | linear op ins outs a b c => exact .linear op ins outs (keeps _ _ a) (keeps _ _ b) (keeps _ _ c)
  | rmsNorm op ins outs a b c =>
      exact .rmsNorm op ins outs (keeps _ _ a) (keeps _ _ b) (keeps _ _ c)
  | qkNorm op ins outs heads dim positive a b c =>
      exact .qkNorm op ins outs heads dim positive (keeps _ _ a) (keeps _ _ b) (keeps _ _ c)
  | roPE op ins outs heads dim positive a b =>
      exact .roPE op ins outs heads dim positive (keeps _ _ a) (keeps _ _ b)
  | attention op ins outs heads kvHeads dim positive grouped a b c d =>
      exact .attention op ins outs heads kvHeads dim positive grouped (keeps _ _ a) (keeps _ _ b)
        (keeps _ _ c) (keeps _ _ d)
  | swiGLU op ins outs a b c => exact .swiGLU op ins outs (keeps _ _ a) (keeps _ _ b) (keeps _ _ c)
  | add op ins outs a b c => exact .add op ins outs (keeps _ _ a) (keeps _ _ b) (keeps _ _ c)

theorem Wired.mono {node : Node Num} (wired : graph.Wired node) (keeps : graph.Keeps after) :
    after.Wired node := by
  obtain ⟨out, only, inside, behind⟩ := wired
  exact ⟨out, only, Nat.lt_of_lt_of_le inside keeps.length_le, behind⟩

/-- The same nodes over kept shapes. -/
theorem Sound.of_keeps (sound : graph.Sound) (keeps : graph.Keeps after)
    (same : after.nodes = graph.nodes) : after.Sound := by
  refine ⟨?_, ?_, ?_⟩ <;> rw [same]
  · exact fun node member => (sound.fits node member).mono keeps
  · exact fun node member => (sound.wired node member).mono keeps
  · exact sound.ascending

theorem keeps_append (graph : Graph Num) (value : Value) (nodes : List (Node Num)) :
    graph.Keeps { values := graph.values ++ [value], nodes := nodes } := by
  rintro id dims ⟨held, found, shape⟩
  refine ⟨held, ?_, shape⟩
  rw [List.getElem?_append_left (List.getElem?_eq_some_iff.mp found).1]
  exact found

theorem has_append (graph : Graph Num) (value : Value) (nodes : List (Node Num)) :
    Has { values := graph.values ++ [value], nodes := nodes } graph.values.length
      value.shape.dims :=
  ⟨value, by simp, rfl⟩

end Has

section Sorting

variable {graph : Graph Num}

theorem Sound.order (sound : graph.Sound) {i j : Nat} {a b : Node Num}
    (foundA : graph.nodes[i]? = some a) (foundB : graph.nodes[j]? = some b) (before : i < j) :
    ∀ x ∈ a.outputs, ∀ y ∈ b.outputs, x < y := by
  obtain ⟨insideA, rfl⟩ := List.getElem?_eq_some_iff.mp foundA
  obtain ⟨insideB, rfl⟩ := List.getElem?_eq_some_iff.mp foundB
  exact List.pairwise_iff_getElem.mp sound.ascending i j insideA insideB before

theorem Sound.singleProducer (sound : graph.Sound) : graph.SingleProducer := by
  intro i j a b vid foundA foundB inA inB
  rcases Nat.lt_trichotomy i j with before | same | behind
  · exact absurd (sound.order foundA foundB before vid inA vid inB) (Nat.lt_irrefl vid)
  · exact same
  · exact absurd (sound.order foundB foundA behind vid inB vid inA) (Nat.lt_irrefl vid)

/-- A node stands in front of the nodes it feeds. -/
theorem Sound.feeds_lt (sound : graph.Sound) {i j : Nat} (feeds : graph.Feeds i j) : i < j := by
  obtain ⟨a, b, vid, foundA, foundB, made, used⟩ := feeds
  obtain ⟨out, only, _, behind⟩ := sound.wired b (List.mem_of_getElem? foundB)
  have later : vid < out := behind vid used
  have outB : out ∈ b.outputs := by simp [only]
  rcases Nat.lt_trichotomy i j with before | rfl | back
  · exact before
  · rw [foundA] at foundB
    obtain rfl := Option.some.inj foundB
    rw [only, List.mem_singleton] at made
    omega
  · exact absurd (sound.order foundB foundA back out outB vid made) (by omega)

theorem Sound.acyclic (sound : graph.Sound) (i : Nat) : ¬ Relation.TransGen graph.Feeds i i := by
  have ascending : ∀ j, Relation.TransGen graph.Feeds i j → i < j := by
    intro j path
    induction path with
    | single feeds => exact sound.feeds_lt feeds
    | tail _ feeds ih => exact ih.trans (sound.feeds_lt feeds)
  exact fun cycle => Nat.lt_irrefl i (ascending i cycle)

theorem Fits.op_ne_output {node : Node Num} (fits : graph.Fits node) : node.opType ≠ .output := by
  cases fits with
  | embedding op | linear op | rmsNorm op | qkNorm op | roPE op | attention op | swiGLU op | add op =>
      rw [op]
      decide

theorem Sound.validate (sound : graph.Sound) : graph.validate = .makeOk := by
  have clean : (graph.nodes.zipIdx.findSome? fun entry => graph.nodeError entry.2 entry.1) = none := by
    rw [List.findSome?_eq_none_iff]
    rintro ⟨node, id⟩ member
    have listed : node ∈ graph.nodes := List.mem_of_getElem? (List.mem_zipIdx_iff_getElem?.mp member)
    obtain ⟨out, only, inside, behind⟩ := sound.wired node listed
    have values : (node.inputs ++ node.outputs).findSome? (graph.missingValue id node) = none := by
      rw [List.findSome?_eq_none_iff]
      intro value used
      rw [only, List.mem_append, List.mem_singleton] at used
      have bound : value < graph.values.length := by
        rcases used with input | rfl
        · exact (behind value input).trans inside
        · exact inside
      exact if_neg (Nat.not_le.mpr bound)
    have op := (sound.fits node listed).op_ne_output
    rw [nodeError, values]
    exact if_neg fun output => op output.1
  rw [Graph.validate, clean]

theorem Sound.sorts (sound : graph.Sound) :
    ∃ order, graph.topologicalSort = .ok order ∧ graph.Ordered order := by
  have valid : graph.validate.isOk = true := by
    rw [sound.validate]
    rfl
  obtain ⟨iff, ordered⟩ := topologicalSort_cases valid sound.singleProducer
  obtain ⟨order, sorts⟩ := iff.mpr sound.acyclic
  exact ⟨order, sorts, ordered order sorts⟩

end Sorting

end Graph

namespace GraphBuilder

open MiniLLM.Graph ShapeInfer

variable {Num A B : Type}

/-- `m` succeeds where the shapes of `context` are there, keeps what is sound, and its result has
the shapes `result`. -/
def Typed (context : List (Nat × List Int)) (m : GraphBuilder Num A)
    (result : A → List (Nat × List Int)) : Prop :=
  ∀ graph : Graph Num, (∀ entry ∈ context, graph.Has entry.1 entry.2) →
    Yields m graph
      (fun a after => graph.Keeps after ∧ (graph.Sound → after.Sound) ∧
        ∀ entry ∈ result a, after.Has entry.1 entry.2)
      (fun _ => False)

section Rules

variable {context : List (Nat × List Int)} {result : A → List (Nat × List Int)}
  {final : B → List (Nat × List Int)}

theorem typed_pure {a : A} (listed : result a ⊆ context) :
    Typed context (pure a : GraphBuilder Num A) result := by
  intro graph held
  exact ⟨fun _ _ has => has, id, fun entry member => held entry (listed member)⟩

theorem Typed.bind {m : GraphBuilder Num A} {f : A → GraphBuilder Num B}
    (first : Typed context m result) (next : ∀ a, Typed (result a ++ context) (f a) final) :
    Typed context (m >>= f) final := by
  intro graph held
  refine Yields.bind (first graph held) fun a mid ⟨keeps, sound, made⟩ => ?_
  refine (next a mid fun entry member => ?_).mono (fun b after typed => ?_) fun _ fails => fails
  · rcases List.mem_append.mp member with new | old
    · exact made entry new
    · exact keeps _ _ (held entry old)
  · obtain ⟨kept, sounder, has⟩ := typed
    exact ⟨fun id dims there => kept _ _ (keeps _ _ there), fun start => sounder (sound start), has⟩

theorem typed_getValue {x : Nat} {dims : List Int} {f : Value → GraphBuilder Num B}
    (listed : (x, dims) ∈ context)
    (next : ∀ value, value.shape.dims = dims → Typed context (f value) final) :
    Typed context (getValue x >>= f) final := by
  intro graph held
  obtain ⟨value, found, shape⟩ := held _ listed
  unfold Yields
  rw [bind_run, getValue, Graph.value, found]
  exact next value shape graph held

theorem typed_check {checked : Except Failure A} {a : A} {f : A → GraphBuilder Num B}
    (passes : checked = .ok a) (next : Typed context (f a) final) :
    Typed context (check checked >>= f) final := by
  intro graph held
  subst passes
  unfold Yields
  rw [bind_run]
  exact next graph held

theorem typed_addValue {value : Value} :
    Typed context (addValue value : GraphBuilder Num Nat) fun id => [(id, value.shape.dims)] := by
  intro graph held
  refine ⟨keeps_append graph value _, fun sound => sound.of_keeps (keeps_append graph value _) rfl, ?_⟩
  intro entry member
  rw [List.mem_singleton] at member
  subst member
  exact has_append graph value _

/-- An operation's node fits if it does over the shapes of its inputs and its output. -/
theorem typed_emit {op : OpType} {inputs : List Nat} {shape : Shape} {like : Value} {name : String}
    {attrs : List (String × AttributeValue Num)}
    (listed : ∀ x ∈ inputs, ∃ dims, (x, dims) ∈ context)
    (fits : ∀ (graph : Graph Num) out, (∀ entry ∈ context, graph.Has entry.1 entry.2) →
      graph.Has out shape.dims →
      graph.Fits { opType := op, name := name, inputs := inputs, outputs := [out]
                   attrs := attrsOf attrs }) :
    Typed context (emit op inputs shape like name attrs) fun id => [(id, shape.dims)] := by
  intro graph held
  unfold Yields
  rw [emit_run]
  have keeps := keeps_append graph ⟨name ++ ".out", shape, like.dtype, like.device, .intermediate⟩
    (graph.nodes ++ [{ opType := op, name := name, inputs := inputs
                       outputs := [graph.values.length], attrs := attrsOf attrs }])
  have made := has_append graph ⟨name ++ ".out", shape, like.dtype, like.device, .intermediate⟩
    (graph.nodes ++ [{ opType := op, name := name, inputs := inputs
                       outputs := [graph.values.length], attrs := attrsOf attrs }])
  refine ⟨keeps, fun sound => ⟨?_, ?_, ?_⟩, ?_⟩
  · intro node member
    rcases List.mem_append.mp member with old | new
    · exact (sound.fits node old).mono keeps
    · rw [List.mem_singleton] at new
      subst new
      exact fits _ _ (fun entry member => keeps _ _ (held entry member)) made
  · intro node member
    rcases List.mem_append.mp member with old | new
    · exact (sound.wired node old).mono keeps
    · rw [List.mem_singleton] at new
      subst new
      refine ⟨_, rfl, made.lt, fun x used => ?_⟩
      obtain ⟨dims, there⟩ := listed x used
      exact (held _ there).lt
  · refine List.pairwise_append.mpr ⟨sound.ascending, List.pairwise_singleton _ _, ?_⟩
    rintro old member new last x made y output
    rw [List.mem_singleton] at last
    subst last
    obtain ⟨out, only, inside, _⟩ := sound.wired old member
    rw [only, List.mem_singleton] at made
    rw [List.mem_singleton] at output
    omega
  · intro entry member
    rw [List.mem_singleton] at member
    subst member
    exact made

/-- `output` changes the kind of a value only. -/
theorem typed_output {x : Nat} {dims : List Int} (listed : (x, dims) ∈ context) :
    Typed context (output x : GraphBuilder Num Nat) fun id => [(id, dims)] := by
  refine typed_getValue listed fun value _ graph held => ?_
  have keeps : graph.Keeps { graph with values := graph.values.modify x fun value =>
      { value with kind := .output } } := by
    rintro id dims ⟨held, found, shape⟩
    by_cases same : x = id
    · exact ⟨{ held with kind := .output }, by simp [same, found], shape⟩
    · exact ⟨held, by simp [same, found], shape⟩
  refine ⟨keeps, fun sound => sound.of_keeps keeps rfl, fun entry member => ?_⟩
  rw [List.mem_singleton] at member
  subst member
  exact keeps _ _ (held _ listed)

end Rules

end GraphBuilder

end MiniLLM
