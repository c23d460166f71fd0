import MiniLLM.DecoderStreams
import MiniLLM.TransformerShapes
import MiniLLM.IncrementalDecoding

/-!
What the values of a decoder's graph stand for: the token ids, a weight, or a stream
of rows. A graph denotes such meanings when every node relates its own; the graph of
`build_transformer` denotes the streams of the decoder it was configured for.
-/

namespace MiniLLM

open Loops Cpu CpuKernelAdapter RowStream

inductive Meaning (α : Type) where
  | tokens
  | weight (name : String) (dims : List Nat)
  | rows (width : Nat) (stream : RowStream α)

namespace Meaning

variable {α : Type}

/-- The dimensions of the value in a graph for `n` tokens. -/
def dims (n : Nat) : Meaning α → List Int
  | tokens => [1, (n : Int)]
  | weight _ dims => dims.map Nat.cast
  | rows width _ => [1, (n : Int), (width : Int)]

def Describes (meaning : Meaning α) (value : Value) : Prop :=
  match meaning with
  | tokens => value.kind = .input ∧ value.name = "input_ids"
  | weight name _ => value.kind = .constant ∧ value.name = name
  | rows _ _ => value.kind = .intermediate ∨ value.kind = .output

end Meaning

namespace Decoder

variable {α : Type}

/-- The widths of its rows. -/
def widths (dec : Decoder α) : List Nat :=
  [dec.hidden, dec.intermediate, dec.vocab, dec.nh * dec.hd, dec.nkv * dec.hd]

/-- Positive sizes, grouped heads, and rotated heads of even width. -/
structure WellFormed (dec : Decoder α) : Prop where
  positive : 0 < dec.hidden ∧ 0 < dec.intermediate ∧ 0 < dec.vocab ∧ 0 < dec.numLayers ∧
    0 < dec.nh ∧ 0 < dec.nkv ∧ 0 < dec.hd
  grouped : dec.nkv ∣ dec.nh
  even : dec.hd % 2 = 0

theorem WellFormed.reading {dec : Decoder α} (wf : dec.WellFormed) (tokens : Nat → Int) :
    (dec.reading tokens).WellFormed := ⟨wf.positive, wf.grouped, wf.even⟩

theorem WellFormed.width_pos {dec : Decoder α} (wf : dec.WellFormed) {width : Nat}
    (listed : width ∈ dec.widths) : 0 < width := by
  obtain ⟨hidden, intermediate, vocab, _, nh, nkv, hd⟩ := wf.positive
  simp only [widths, List.mem_cons, List.not_mem_nil, or_false] at listed
  rcases listed with rfl | rfl | rfl | rfl | rfl
  · exact hidden
  · exact intermediate
  · exact vocab
  · exact Nat.mul_pos nh hd
  · exact Nat.mul_pos nkv hd

end Decoder

variable {α : Type} [Field α]

/-- How a node relates the meanings of its values. -/
inductive Law (dec : Decoder α) (means : Nat → Meaning α → Prop) (node : Node α) : Prop where
  | embedding {ids weight out : Nat} {name : String} (op : node.opType = .embedding)
      (inputs : node.inputs = [ids, weight]) (outputs : node.outputs = [out])
      (idsMean : means ids .tokens)
      (weightMeans : means weight (.weight name [dec.vocab, dec.hidden]))
      (outMeans : means out (.rows dec.hidden
        (embedded (dec.weights name) dec.hidden dec.tokens)))
  | linear {x weight out inFeatures outFeatures : Nat} {name : String} {s : RowStream α}
      (op : node.opType = .linear) (inputs : node.inputs = [x, weight])
      (outputs : node.outputs = [out]) (xMeans : means x (.rows inFeatures s))
      (weightMeans : means weight (.weight name [outFeatures, inFeatures]))
      (outMeans : means out (.rows outFeatures (projected (dec.weights name) inFeatures s)))
      (side : inFeatures = dec.hidden ∨ outFeatures = dec.hidden)
  | rmsNorm {x gamma out hidden : Nat} {name : String} {s : RowStream α}
      (op : node.opType = .rmsNorm) (inputs : node.inputs = [x, gamma])
      (outputs : node.outputs = [out]) (eps : ∀ fallback, node.attrDouble "eps" fallback = dec.eps)
      (xMeans : means x (.rows hidden s)) (gammaMeans : means gamma (.weight name [hidden]))
      (outMeans : means out (.rows hidden (normed dec.ops (dec.weights name) hidden dec.eps s)))
  | qkNorm {x gamma out heads : Nat} {name : String} {s : RowStream α}
      (op : node.opType = .qkNorm) (inputs : node.inputs = [x, gamma])
      (outputs : node.outputs = [out]) (eps : ∀ fallback, node.attrDouble "eps" fallback = dec.eps)
      (dim : node.attrInt "head_dim" 64 = dec.hd) (xMeans : means x (.rows (heads * dec.hd) s))
      (gammaMeans : means gamma (.weight name [dec.hd]))
      (outMeans : means out (.rows (heads * dec.hd)
        (headsNormed dec.ops (dec.weights name) dec.hd dec.eps s)))
  | roPE {x out heads : Nat} {s : RowStream α} (op : node.opType = .roPE)
      (inputs : node.inputs = [x]) (outputs : node.outputs = [out])
      (dim : node.attrInt "head_dim" 64 = dec.hd)
      (base : ∀ fallback, node.attrDouble "rope_base" fallback = dec.base)
      (xMeans : means x (.rows (heads * dec.hd) s))
      (outMeans : means out (.rows (heads * dec.hd) (headsRotated dec.ops dec.hd dec.base s)))
  | attention {q k v out layer : Nat} {s : RowStream α}
      (attends : AttentionNode node dec.nh dec.nkv dec.hd layer true) (known : layer < dec.numLayers)
      (inputs : node.inputs = [q, k, v]) (outputs : node.outputs = [out])
      (qMeans : means q (.rows (dec.nh * dec.hd) s))
      (kMeans : means k (.rows (dec.nkv * dec.hd) (dec.layerKeys layer)))
      (vMeans : means v (.rows (dec.nkv * dec.hd) (dec.layerValues layer)))
      (outMeans : means out (.rows (dec.nh * dec.hd)
        (attended dec.ops dec.nh dec.nkv dec.hd s (dec.layerKeys layer) (dec.layerValues layer))))
  | swiGLU {gate up out width : Nat} {g u : RowStream α} (op : node.opType = .swiGLU)
      (inputs : node.inputs = [gate, up]) (outputs : node.outputs = [out])
      (gateMeans : means gate (.rows width g)) (upMeans : means up (.rows width u))
      (outMeans : means out (.rows width (gated dec.ops g u)))
  | add {a b out width : Nat} {s t : RowStream α} (op : node.opType = .add)
      (inputs : node.inputs = [a, b]) (outputs : node.outputs = [out])
      (aMeans : means a (.rows width s)) (bMeans : means b (.rows width t))
      (outMeans : means out (.rows width (summed s t)))

theorem Law.op {dec : Decoder α} {means : Nat → Meaning α → Prop} {node : Node α}
    (law : Law dec means node) : node.opType ∈
      [OpType.embedding, .linear, .rmsNorm, .qkNorm, .roPE, .attention, .swiGLU, .add] := by
  cases law with
  | attention attends => simp [attends.op]
  | embedding op | linear op | rmsNorm op | qkNorm op | roPE op | swiGLU op | add op => simp [op]

theorem Law.mono {dec : Decoder α} {means more : Nat → Meaning α → Prop} {node : Node α}
    (law : Law dec means node) (kept : ∀ id meaning, means id meaning → more id meaning) :
    Law dec more node := by
  cases law with
  | embedding op ins outs a b c =>
      exact .embedding op ins outs (kept _ _ a) (kept _ _ b) (kept _ _ c)
  | linear op ins outs a b c side =>
      exact .linear op ins outs (kept _ _ a) (kept _ _ b) (kept _ _ c) side
  | rmsNorm op ins outs eps a b c =>
      exact .rmsNorm op ins outs eps (kept _ _ a) (kept _ _ b) (kept _ _ c)
  | qkNorm op ins outs eps dim a b c =>
      exact .qkNorm op ins outs eps dim (kept _ _ a) (kept _ _ b) (kept _ _ c)
  | roPE op ins outs dim base a b => exact .roPE op ins outs dim base (kept _ _ a) (kept _ _ b)
  | attention attends known ins outs a b c d =>
      exact .attention attends known ins outs (kept _ _ a) (kept _ _ b) (kept _ _ c) (kept _ _ d)
  | swiGLU op ins outs a b c => exact .swiGLU op ins outs (kept _ _ a) (kept _ _ b) (kept _ _ c)
  | add op ins outs a b c => exact .add op ins outs (kept _ _ a) (kept _ _ b) (kept _ _ c)

/-- The meanings of a graph's values, in order. -/
structure Denotes (dec : Decoder α) (n : Nat) (graph : Graph α) (meanings : List (Meaning α)) :
    Prop where
  length : meanings.length = graph.values.length
  value : ∀ (id : Nat) (meaning : Meaning α), meanings[id]? = some meaning →
    ∃ value : Value, graph.values[id]? = some value ∧ value.shape.dims = meaning.dims n ∧
      meaning.Describes value
  law : ∀ node ∈ graph.nodes, Law dec (fun id meaning => meanings[id]? = some meaning) node
  made : ∀ (id : Nat) width s, meanings[id]? = some (.rows width s) →
    width ∈ dec.widths ∧ ∃ node ∈ graph.nodes, node.outputs = [id]

section Grown

variable {dec : Decoder α} {n : Nat}

omit [Field α] in
theorem meaning_kept {meanings more : List (Meaning α)} {id : Nat} {meaning : Meaning α}
    (known : meanings[id]? = some meaning) : (meanings ++ more)[id]? = some meaning := by
  rw [List.getElem?_append_left (List.getElem?_eq_some_iff.mp known).1, known]

/-- A new value, and perhaps the node that makes it. -/
theorem Denotes.append {graph : Graph α} {meanings : List (Meaning α)} {value : Value}
    {meaning : Meaning α} (denotes : Denotes dec n graph meanings) (nodes : List (Node α))
    (shape : value.shape.dims = meaning.dims n) (describes : meaning.Describes value)
    (laws : ∀ node ∈ nodes,
      Law dec (fun id m => (meanings ++ [meaning])[id]? = some m) node)
    (made : ∀ width s, meaning = .rows width s → width ∈ dec.widths ∧
      ∃ node ∈ nodes, node.outputs = [graph.values.length]) :
    Denotes dec n { values := graph.values ++ [value], nodes := graph.nodes ++ nodes }
      (meanings ++ [meaning]) := by
  have last : ∀ id other, (meanings ++ [meaning])[id]? = some other →
      meanings[id]? = some other ∨ id = graph.values.length ∧ other = meaning := by
    intro id other known
    rcases Nat.lt_or_ge id meanings.length with old | new
    · rw [List.getElem?_append_left old] at known
      exact Or.inl known
    · rw [List.getElem?_append_right new, List.getElem?_singleton] at known
      split at known
      · have length := denotes.length
        exact Or.inr ⟨by omega, (Option.some.inj known).symm⟩
      · cases known
  refine ⟨by simp [denotes.length], fun id other known => ?_, fun node member => ?_,
    fun id width s known => ?_⟩
  · rcases last id other known with old | ⟨rfl, rfl⟩
    · obtain ⟨held, found, rest⟩ := denotes.value id other old
      refine ⟨held, ?_, rest⟩
      rw [List.getElem?_append_left (List.getElem?_eq_some_iff.mp found).1]
      exact found
    · exact ⟨value, by simp, shape, describes⟩
  · rcases List.mem_append.mp member with old | new
    · exact (denotes.law node old).mono fun id m known => meaning_kept known
    · exact laws node new
  · rcases last id _ known with old | ⟨rfl, is⟩
    · obtain ⟨listed, node, member, outputs⟩ := denotes.made id width s old
      exact ⟨listed, node, List.mem_append_left _ member, outputs⟩
    · obtain ⟨listed, node, member, outputs⟩ := made width s is.symm
      exact ⟨listed, node, List.mem_append_right _ member, outputs⟩

theorem Denotes.fresh {graph : Graph α} {meanings : List (Meaning α)}
    (denotes : Denotes dec n graph meanings) (meaning : Meaning α) :
    (meanings ++ [meaning])[graph.values.length]? = some meaning := by
  simp [← denotes.length]

end Grown

namespace GraphBuilder

open ShapeInfer MiniLLM.Graph

section Gives

variable {A B : Type} {P : A → Prop} {Q : B → Prop}

/-- What `m` returns satisfies `P`. -/
def Gives (m : GraphBuilder α A) (P : A → Prop) : Prop :=
  ∀ graph, Yields m graph (fun a _ => P a) fun _ => True

omit [Field α] in
theorem gives_pure {a : A} (holds : P a) : Gives (pure a : GraphBuilder α A) P := fun _ => holds

omit [Field α] in
theorem Gives.bind {m : GraphBuilder α A} {f : A → GraphBuilder α B} (first : Gives m P)
    (next : ∀ a, P a → Gives (f a) Q) : Gives (m >>= f) Q := fun graph =>
  Yields.bind (first graph) fun a mid holds => next a holds mid

omit [Field α] in
theorem gives_any (m : GraphBuilder α A) : Gives m fun _ => True := by
  intro graph
  unfold Yields
  split <;> trivial

omit [Field α] in
theorem gives_after {m : GraphBuilder α A} {f : A → GraphBuilder α B}
    (next : ∀ a, Gives (f a) Q) : Gives (m >>= f) Q := (gives_any m).bind fun a _ => next a

omit [Field α] in
theorem Yields.and {m : GraphBuilder α A} {graph : Graph α} {S : A → Graph α → Prop}
    {T : Graph α → Prop} (first : Yields m graph S T)
    (second : Yields m graph (fun a _ => P a) fun _ => True) :
    Yields m graph (fun a after => S a after ∧ P a) T := by
  unfold Yields at first second ⊢
  generalize m graph = result at first second ⊢
  obtain ⟨failure | a, after⟩ := result
  · exact first
  · exact ⟨first, second⟩

end Gives

variable {A B : Type} {dec : Decoder α} {n : Nat}

/-- `m` succeeds where the meanings of `context` are known, and its result has the meanings
`result`. -/
def Denoting (dec : Decoder α) (n : Nat) (context : List (Nat × Meaning α)) (m : GraphBuilder α A)
    (result : A → List (Nat × Meaning α)) : Prop :=
  ∀ graph meanings, Denotes dec n graph meanings →
    (∀ entry ∈ context, meanings[entry.1]? = some entry.2) →
    Yields m graph
      (fun a after => ∃ more, Denotes dec n after (meanings ++ more) ∧
        ∀ entry ∈ result a, (meanings ++ more)[entry.1]? = some entry.2)
      (fun _ => False)

section Rules

variable {context : List (Nat × Meaning α)} {result : A → List (Nat × Meaning α)}
  {final : B → List (Nat × Meaning α)}

theorem denoting_pure {a : A} (listed : result a ⊆ context) :
    Denoting dec n context (pure a : GraphBuilder α A) result := by
  intro graph meanings denotes known
  refine ⟨[], ?_, fun entry member => meaning_kept (known entry (listed member))⟩
  rwa [List.append_nil]

theorem Denoting.bind_gives {m : GraphBuilder α A} {f : A → GraphBuilder α B} {P : A → Prop}
    (first : Denoting dec n context m result) (holds : Gives m P)
    (next : ∀ a, P a → Denoting dec n (result a ++ context) (f a) final) :
    Denoting dec n context (m >>= f) final := by
  intro graph meanings denotes known
  refine Yields.bind ((first graph meanings denotes known).and (holds graph))
    fun a mid ⟨⟨more, made, has⟩, fact⟩ => ?_
  refine (next a fact mid _ made fun entry member => ?_).mono
    (fun b after ⟨rest, whole, gives⟩ => ?_) fun _ fails => fails
  · rcases List.mem_append.mp member with new | old
    · exact has entry new
    · exact meaning_kept (known entry old)
  · exact ⟨more ++ rest, by rwa [← List.append_assoc], by rwa [← List.append_assoc]⟩

theorem Denoting.bind {m : GraphBuilder α A} {f : A → GraphBuilder α B}
    (first : Denoting dec n context m result)
    (next : ∀ a, Denoting dec n (result a ++ context) (f a) final) :
    Denoting dec n context (m >>= f) final :=
  first.bind_gives (P := fun _ => True) (gives_any m) fun a _ => next a

theorem denoting_getValue {x : Nat} {meaning : Meaning α} {f : Value → GraphBuilder α B}
    (listed : (x, meaning) ∈ context)
    (next : ∀ value, value.shape.dims = meaning.dims n → Denoting dec n context (f value) final) :
    Denoting dec n context (getValue x >>= f) final := by
  intro graph meanings denotes known
  obtain ⟨value, found, shape, _⟩ := denotes.value x meaning (known _ listed)
  unfold Yields
  rw [bind_run, getValue, Graph.value, found]
  exact next value shape graph meanings denotes known

theorem denoting_check {checked : Except Failure A} {a : A} {f : A → GraphBuilder α B}
    (passes : checked = .ok a) (next : Denoting dec n context (f a) final) :
    Denoting dec n context (check checked >>= f) final := by
  intro graph meanings denotes known
  subst passes
  unfold Yields
  rw [bind_run]
  exact next graph meanings denotes known

theorem denoting_addValue {value : Value} (meaning : Meaning α)
    (shape : value.shape.dims = meaning.dims n) (describes : meaning.Describes value)
    (given : ∀ width s, meaning ≠ .rows width s) :
    Denoting dec n context (addValue value : GraphBuilder α Nat) fun id => [(id, meaning)] := by
  intro graph meanings denotes _
  refine ⟨[meaning], ?_, ?_⟩
  · have grown := denotes.append [] shape describes (by simp)
      fun width s is => absurd is (given width s)
    rwa [List.append_nil] at grown
  · simpa using denotes.fresh meaning

/-- An operation, with the law of its node. -/
theorem denoting_emit {op : OpType} {inputs : List Nat} {shape : Shape} {like : Value}
    {name : String} {attrs : List (String × AttributeValue α)} {width : Nat} {s : RowStream α}
    (dims : shape.dims = (Meaning.rows width s).dims n) (listed : width ∈ dec.widths)
    (law : ∀ (means : Nat → Meaning α → Prop) out, (∀ entry ∈ context, means entry.1 entry.2) →
      means out (.rows width s) → Law dec means { opType := op, name := name, inputs := inputs
                                                  outputs := [out], attrs := attrsOf attrs }) :
    Denoting dec n context (emit op inputs shape like name attrs)
      fun id => [(id, .rows width s)] := by
  intro graph meanings denotes known
  unfold Yields
  rw [emit_run]
  have fresh := denotes.fresh (.rows width s)
  refine ⟨[.rows width s], denotes.append _ dims (Or.inl rfl) (fun node member => ?_) ?_, ?_⟩
  · obtain rfl := List.mem_singleton.mp member
    exact law _ _ (fun entry member => meaning_kept (known entry member)) fresh
  · rintro _ _ ⟨rfl, rfl⟩
    exact ⟨listed, _, List.mem_singleton.mpr rfl, rfl⟩
  · simpa using fresh

theorem denoting_output {x width : Nat} {s : RowStream α} (listed : (x, .rows width s) ∈ context) :
    Denoting dec n context (output x : GraphBuilder α Nat) fun id => [(id, .rows width s)] := by
  refine denoting_getValue listed fun value _ graph meanings denotes known => ?_
  have is := known _ listed
  refine ⟨[], ⟨?_, fun id meaning held => ?_, ?_, ?_⟩, ?_⟩
  · simp [denotes.length]
  · rw [List.append_nil] at held
    obtain ⟨old, found, shape, describes⟩ := denotes.value id meaning held
    by_cases same : x = id
    · subst same
      obtain rfl := Option.some.inj (is.symm.trans held)
      exact ⟨{ old with kind := .output }, by simp [found], shape, Or.inr rfl⟩
    · exact ⟨old, by simp [same, found], shape, describes⟩
  · rw [List.append_nil]
    exact denotes.law
  · rw [List.append_nil]
    exact denotes.made
  · simpa using is

end Rules

end GraphBuilder

end MiniLLM
