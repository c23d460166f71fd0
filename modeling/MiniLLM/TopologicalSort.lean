import MiniLLM.Graph
import MiniLLM.Kahn
import Mathlib.Algebra.BigOperators.Group.Finset.Piecewise

/-!
`topological_sort` of graph/graph.cpp. A node depends on the nodes that produce
its inputs; a value listed as an output by several nodes belongs to the last of
them. In-degrees are exact. A graph whose values have one producer each sorts
exactly when no node depends on itself through others.
-/

namespace MiniLLM.Graph

open Kahn Finset

variable {Num : Type}

/-- Values with the index of a node that lists them, in the order of the loops. -/
def listed (graph : Graph Num) (side : Node Num → List Nat) : List (Nat × Nat) :=
  graph.nodes.zipIdx.flatMap fun entry => (side entry.1).map fun vid => (vid, entry.2)

def setProducer (producer : Nat → Option Nat) (entry : Nat × Nat) : Nat → Option Nat :=
  fun vid => if vid = entry.1 then some entry.2 else producer vid

def valueProducer (graph : Graph Num) : Nat → Option Nat :=
  (graph.listed Node.outputs).foldl setProducer fun _ => none

/-- Counters are exact here, `int`s in the source. -/
structure Dependencies where
  adj : Nat → List Nat := fun _ => []
  inDegree : Nat → Nat := fun _ => 0

def addEdge (producer : Nat → Option Nat) (deps : Dependencies) (entry : Nat × Nat) : Dependencies :=
  match producer entry.1 with
  | some p =>
      { adj := fun u => if u = p then deps.adj u ++ [entry.2] else deps.adj u
        inDegree := fun v => if v = entry.2 then deps.inDegree v + 1 else deps.inDegree v }
  | none => deps

def dependencies (graph : Graph Num) : Dependencies :=
  (graph.listed Node.inputs).foldl (addEdge graph.valueProducer) {}

/-- Each round of the loop takes one node, so `n` rounds empty the queue. -/
def topologicalSort (graph : Graph Num) : Except Status (List Nat) :=
  let st := graph.validate
  if !st.isOk then .error st
  else
    let n := graph.nodes.length
    let deps := graph.dependencies
    let order := (drain deps.adj n (start deps.inDegree n)).order
    if order.length ≠ n then .error (.runtimeError "graph has cycles") else .ok order

/-- Node `i` produces a value that node `j` consumes. -/
def Feeds (graph : Graph Num) (i j : Nat) : Prop :=
  ∃ source target vid, graph.nodes[i]? = some source ∧ graph.nodes[j]? = some target ∧
    vid ∈ source.outputs ∧ vid ∈ target.inputs

/-- Each value is an output of at most one node. -/
def SingleProducer (graph : Graph Num) : Prop :=
  ∀ (i j : Nat) a b (vid : Nat), graph.nodes[i]? = some a → graph.nodes[j]? = some b →
    vid ∈ a.outputs → vid ∈ b.outputs → i = j

section Edges

theorem mem_listed (graph : Graph Num) (side : Node Num → List Nat) (vid i : Nat) :
    (vid, i) ∈ graph.listed side ↔ ∃ node, graph.nodes[i]? = some node ∧ vid ∈ side node := by
  simp only [listed, List.mem_flatMap, List.mem_map, Prod.mk.injEq, Prod.exists,
    List.mem_zipIdx_iff_getElem?]
  constructor
  · rintro ⟨node, index, found, _, member, rfl, rfl⟩
    exact ⟨node, found, member⟩
  · rintro ⟨node, found, member⟩
    exact ⟨node, i, found, vid, member, rfl, rfl⟩

/-- The map holds a listed producer, and one for every listed value. -/
theorem valueProducer_listed (graph : Graph Num) (vid : Nat) :
    (∀ p, graph.valueProducer vid = some p → (vid, p) ∈ graph.listed Node.outputs) ∧
      ∀ p, (vid, p) ∈ graph.listed Node.outputs → ∃ last, graph.valueProducer vid = some last := by
  unfold valueProducer
  induction graph.listed Node.outputs using List.reverseRecOn with
  | nil => simp
  | append_singleton entries entry ih =>
      rw [List.foldl_append]
      simp only [List.foldl_cons, List.foldl_nil, setProducer, List.mem_append, List.mem_singleton]
      by_cases here : vid = entry.1
      · subst here
        simp only [if_true, Option.some.injEq, exists_eq', implies_true, and_true]
        rintro p rfl
        exact Or.inr rfl
      · simp only [if_neg here]
        refine ⟨fun p found => Or.inl (ih.1 p found), fun p member => ?_⟩
        rcases member with old | same
        · exact ih.2 p old
        · exact absurd (congrArg Prod.fst same) here

theorem valueProducer_eq {graph : Graph Num} (single : graph.SingleProducer) {vid p : Nat} :
    graph.valueProducer vid = some p ↔ ∃ node, graph.nodes[p]? = some node ∧ vid ∈ node.outputs := by
  obtain ⟨sound, complete⟩ := graph.valueProducer_listed vid
  rw [← mem_listed]
  refine ⟨sound p, fun member => ?_⟩
  obtain ⟨last, found⟩ := complete p member
  obtain ⟨a, foundA, outA⟩ := (mem_listed _ _ _ _).mp (sound last found)
  obtain ⟨b, foundB, outB⟩ := (mem_listed _ _ _ _).mp member
  rw [found, single last p a b vid foundA foundB outA outB]

/-- What the edge loop has stored after some of the uses. -/
theorem foldl_addEdge (producer : Nat → Option Nat) {n : Nat}
    (inside : ∀ vid p, producer vid = some p → p < n) (uses : List (Nat × Nat)) :
    let deps := uses.foldl (addEdge producer) {}
    (∀ u v, v ∈ deps.adj u ↔ ∃ vid, (vid, v) ∈ uses ∧ producer vid = some u) ∧
      ∀ v, deps.inDegree v = ∑ u ∈ range n, (deps.adj u).count v := by
  induction uses using List.reverseRecOn with
  | nil => simp
  | append_singleton uses entry ih =>
      obtain ⟨edges, degrees⟩ := ih
      rw [List.foldl_append]
      simp only [List.foldl_cons, List.foldl_nil, addEdge]
      generalize uses.foldl (addEdge producer) {} = deps at edges degrees
      obtain ⟨vid, i⟩ := entry
      cases produced : producer vid with
      | none =>
          refine ⟨fun u v => (edges u v).trans ⟨?_, ?_⟩, degrees⟩
          · rintro ⟨value, member, found⟩
            exact ⟨value, List.mem_append_left _ member, found⟩
          · rintro ⟨value, member, found⟩
            rcases List.mem_append.mp member with old | last
            · exact ⟨value, old, found⟩
            · obtain ⟨rfl, rfl⟩ := Prod.mk.inj (List.mem_singleton.mp last)
              rw [produced] at found
              cases found
      | some p =>
          refine ⟨fun u v => ?_, fun v => ?_⟩
          · simp only [List.mem_append, List.mem_singleton, Prod.mk.injEq]
            constructor
            · intro member
              by_cases same : u = p
              · subst same
                rw [if_pos rfl, List.mem_append, List.mem_singleton] at member
                rcases member with old | rfl
                · obtain ⟨value, use, found⟩ := (edges u v).mp old
                  exact ⟨value, Or.inl use, found⟩
                · exact ⟨vid, Or.inr ⟨rfl, rfl⟩, produced⟩
              · rw [if_neg same] at member
                obtain ⟨value, use, found⟩ := (edges u v).mp member
                exact ⟨value, Or.inl use, found⟩
            · rintro ⟨value, use | ⟨rfl, rfl⟩, found⟩
              · have old := (edges u v).mpr ⟨value, use, found⟩
                split
                · exact List.mem_append_left _ old
                · exact old
              · rw [produced, Option.some.injEq] at found
                rw [if_pos found.symm]
                simp
          · have counts : ∀ u, (if u = p then deps.adj u ++ [i] else deps.adj u).count v =
                (deps.adj u).count v + if u = p then (if v = i then 1 else 0) else 0 := by
              intro u
              by_cases same : u = p
              · by_cases target : v = i <;> simp [same, target, Ne.symm]
              · simp [same]
            simp only [counts, sum_add_distrib, ← degrees v, sum_ite_eq', mem_range,
              inside vid p produced, if_true]
            split <;> rfl

theorem dependencies_edges {graph : Graph Num} (single : graph.SingleProducer) :
    (∀ u v, v ∈ graph.dependencies.adj u ↔ graph.Feeds u v) ∧
      ∀ v, graph.dependencies.inDegree v =
        ∑ u ∈ range graph.nodes.length, (graph.dependencies.adj u).count v := by
  obtain ⟨edges, degrees⟩ := foldl_addEdge graph.valueProducer (n := graph.nodes.length)
    (fun vid p found => by
      obtain ⟨node, place, _⟩ := (valueProducer_eq single).mp found
      exact (List.getElem?_eq_some_iff.mp place).1) (graph.listed Node.inputs)
  refine ⟨fun u v => (edges u v).trans ?_, degrees⟩
  simp only [mem_listed, valueProducer_eq single]
  constructor
  · rintro ⟨vid, ⟨target, foundV, input⟩, source, foundU, output⟩
    exact ⟨source, target, vid, foundU, foundV, output, input⟩
  · rintro ⟨source, target, vid, foundU, foundV, output, input⟩
    exact ⟨vid, ⟨target, foundV, input⟩, source, foundU, output⟩

end Edges

section Order

/-- Every node once, each behind the nodes that feed it. -/
structure Ordered (graph : Graph Num) (order : List Nat) : Prop where
  perm : order.Perm (List.range graph.nodes.length)
  before : ∀ first j rest, order = first ++ j :: rest → ∀ i, graph.Feeds i j → i ∈ first

theorem Feeds.bounds {graph : Graph Num} {i j : Nat} (feeds : graph.Feeds i j) :
    i < graph.nodes.length ∧ j < graph.nodes.length := by
  obtain ⟨_, _, _, foundI, foundJ, _, _⟩ := feeds
  exact ⟨(List.getElem?_eq_some_iff.mp foundI).1, (List.getElem?_eq_some_iff.mp foundJ).1⟩

theorem topologicalSort_length {graph : Graph Num} {order : List Nat}
    (sorted : graph.topologicalSort = .ok order) : order.length = graph.nodes.length := by
  simp only [topologicalSort] at sorted
  split at sorted
  · cases sorted
  · split at sorted
    · cases sorted
    · next full =>
        obtain rfl := Except.ok.inj sorted
        exact not_not.mp full

/-- The rounds of the loop empty the queue. -/
theorem topologicalSort_drained {graph : Graph Num} (single : graph.SingleProducer) :
    (drain graph.dependencies.adj graph.nodes.length
      (start graph.dependencies.inDegree graph.nodes.length)).queue = [] := by
  obtain ⟨edges, degrees⟩ := dependencies_edges single
  exact (drain_done (fun u v member => ((edges u v).mp member).bounds.2) degrees).2

/-- A validated graph sorts when its nodes feed each other without a cycle. -/
theorem topologicalSort_cases {graph : Graph Num} (valid : graph.validate.isOk = true)
    (single : graph.SingleProducer) :
    ((∃ order, graph.topologicalSort = .ok order) ↔
        ∀ i, ¬ Relation.TransGen graph.Feeds i i) ∧
      ∀ order, graph.topologicalSort = .ok order → graph.Ordered order := by
  obtain ⟨edges, degrees⟩ := dependencies_edges single
  have sameEdge : Edge graph.dependencies.adj graph.nodes.length = graph.Feeds := by
    funext u v
    simp only [Edge, edges, eq_iff_iff, and_iff_right_iff_imp]
    exact fun feeds => feeds.bounds.1
  obtain ⟨iff, sorted⟩ := drain_sorts (n := graph.nodes.length)
    (fun u v member => ((edges u v).mp member).bounds.2) degrees
  rw [Acyclic, sameEdge] at iff
  unfold topologicalSort
  simp only [valid, Bool.not_true, Bool.false_eq_true, if_false]
  rw [← iff]
  refine ⟨?_, fun order done => ?_⟩
  · split
    · next short => simp [short]
    · next full => simpa using full
  · split at done
    · cases done
    · next full =>
        obtain rfl := Except.ok.inj done
        have result := sorted (not_not.mp full)
        exact ⟨result.perm, fun first j rest same i feeds =>
          result.before first j rest same i (by rw [sameEdge]; exact feeds)⟩

theorem Ordered.idxOf_lt {graph : Graph Num} {order : List Nat} (ordered : graph.Ordered order)
    {i j : Nat} (feeds : graph.Feeds i j) : order.idxOf i < order.idxOf j := by
  have member : j ∈ order := ordered.perm.mem_iff.mpr (List.mem_range.mpr feeds.bounds.2)
  exact idxOf_lt_of_before member fun first rest split => ordered.before first j rest split i feeds

/-- The sort succeeds exactly on graphs without a cycle; its order has every node once,
each producer strictly before its consumers. The loop ends with an empty queue. -/
theorem topological_sort_correct {graph : Graph Num} (valid : graph.validate.isOk = true)
    (single : graph.SingleProducer) :
    (drain graph.dependencies.adj graph.nodes.length
        (start graph.dependencies.inDegree graph.nodes.length)).queue = [] ∧
      ((∃ order, graph.topologicalSort = .ok order) ↔
        ∀ i, ¬ Relation.TransGen graph.Feeds i i) ∧
      ∀ order, graph.topologicalSort = .ok order →
        order.Nodup ∧ (∀ i, i ∈ order ↔ i < graph.nodes.length) ∧
          ∀ i j, graph.Feeds i j → order.idxOf i < order.idxOf j := by
  obtain ⟨acyclic, sorted⟩ := topologicalSort_cases valid single
  refine ⟨topologicalSort_drained single, acyclic, fun order sorts => ?_⟩
  have ordered := sorted order sorts
  constructor
  · exact ordered.perm.nodup_iff.mpr List.nodup_range
  · constructor
    · intro i
      rw [ordered.perm.mem_iff, List.mem_range]
    · exact fun i j feeds => ordered.idxOf_lt feeds

-- A node that reads one value twice, listed before its producer.
def twiceGraph : Graph Int :=
  { values := [⟨"x", {}, .float32, {}, .intermediate⟩, ⟨"y", {}, .float32, {}, .intermediate⟩]
    nodes := [{ opType := .add, inputs := [0, 0], outputs := [1] },
      { opType := .siLU, inputs := [], outputs := [0] }] }

theorem topological_sort_correct_twice :
    twiceGraph.topologicalSort = .ok [1, 0] ∧ ∀ i, ¬ Relation.TransGen twiceGraph.Feeds i i := by
  have single : twiceGraph.SingleProducer := by
    intro i j a b vid foundA foundB outA outB
    rcases i with _ | _ | i <;> rcases j with _ | _ | j <;>
      simp only [twiceGraph, List.getElem?_cons_zero, List.getElem?_cons_succ, List.getElem?_nil,
        Option.some.injEq, reduceCtorEq] at foundA foundB <;>
      subst foundA <;> subst foundB <;> simp_all
  have sorts : twiceGraph.topologicalSort = .ok [1, 0] := by rfl
  have correct := topological_sort_correct (by rfl) single
  exact ⟨sorts, correct.2.1.mp ⟨_, sorts⟩⟩

end Order

end MiniLLM.Graph
