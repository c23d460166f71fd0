import Mathlib.Algebra.BigOperators.Group.Finset.Basic
import Mathlib.Algebra.Order.BigOperators.Group.Finset
import Mathlib.Data.Fintype.EquivFin
import Mathlib.Data.List.Basic
import Mathlib.Logic.Relation

/-!
Kahn's algorithm over vertices `0 .. n - 1`. Adjacency lists may name a vertex
several times, and the incoming edges are counted as often. The queue is taken
at its front; the order holds the vertices taken.
-/

namespace MiniLLM.Kahn

structure Work where
  degree : Nat → Nat
  queue : List Nat
  order : List Nat

/-- One edge out of the vertex just taken. -/
def relax (work : Work) (next : Nat) : Work :=
  { work with
    degree := fun v => if v = next then work.degree v - 1 else work.degree v
    queue := if work.degree next - 1 = 0 then work.queue ++ [next] else work.queue }

def visit (adj : Nat → List Nat) (work : Work) : Work :=
  match work.queue with
  | [] => work
  | cur :: rest => (adj cur).foldl relax { work with queue := rest, order := work.order ++ [cur] }

/-- At most `fuel` rounds of the loop. -/
def drain (adj : Nat → List Nat) : Nat → Work → Work
  | 0, work => work
  | fuel + 1, work => drain adj fuel (visit adj work)

def start (degree : Nat → Nat) (n : Nat) : Work :=
  { degree := degree, queue := (List.range n).filter fun v => degree v = 0, order := [] }

def Edge (adj : Nat → List Nat) (n u v : Nat) : Prop := u < n ∧ v ∈ adj u

def Acyclic (adj : Nat → List Nat) (n : Nat) : Prop :=
  ∀ v, ¬ Relation.TransGen (Edge adj n) v v

/-- Every vertex once, and behind all vertices with an edge to it. -/
structure Sorted (adj : Nat → List Nat) (n : Nat) (order : List Nat) : Prop where
  perm : order.Perm (List.range n)
  before : ∀ first v rest, order = first ++ v :: rest → ∀ u, Edge adj n u v → u ∈ first

/-- What stands in front of every occurrence has the lower index. -/
theorem idxOf_lt_of_before {order : List Nat} {u v : Nat} (member : v ∈ order)
    (before : ∀ first rest, order = first ++ v :: rest → u ∈ first) :
    order.idxOf u < order.idxOf v := by
  obtain ⟨first, rest, split, fresh⟩ := List.eq_append_cons_of_mem member
  have early := before first rest split
  rw [split, List.idxOf_append_of_mem early, List.idxOf_append_of_notMem fresh]
  exact Nat.lt_of_lt_of_le (List.idxOf_lt_length_iff.mpr early) (Nat.le_add_right _ _)

section Relax

/-- The vertices taken or queued are those without an incoming edge left. -/
structure Tracked (n : Nat) (work : Work) : Prop where
  nodup : (work.order ++ work.queue).Nodup
  seen : ∀ v, v ∈ work.order ++ work.queue ↔ v < n ∧ work.degree v = 0

theorem relax_tracked {n next : Nat} {work : Work} (tracked : Tracked n work)
    (inside : next < n) (positive : 0 < work.degree next) : Tracked n (relax work next) := by
  have fresh : next ∉ work.order ++ work.queue := by
    intro member
    have zero := ((tracked.seen next).mp member).2
    omega
  by_cases last : work.degree next - 1 = 0
  · simp only [relax, last, if_true]
    constructor
    · rw [← List.append_assoc]
      exact tracked.nodup.append (List.nodup_singleton next)
        (List.disjoint_singleton.mpr fresh)
    · intro v
      rw [← List.append_assoc, List.mem_append, tracked.seen, List.mem_singleton]
      by_cases same : v = next
      · subst same
        simp [inside, last]
      · simp [same]
  · simp only [relax, last, if_false]
    refine ⟨tracked.nodup, fun v => ?_⟩
    rw [tracked.seen]
    by_cases same : v = next
    · subst same
      simp only [if_true]
      omega
    · simp [same]

/-- All edges out of a vertex: each target loses as many as name it. -/
theorem relaxAll (n : Nat) (targets : List Nat) {work : Work} (tracked : Tracked n work)
    (inside : ∀ v ∈ targets, v < n) (enough : ∀ v, targets.count v ≤ work.degree v) :
    Tracked n (targets.foldl relax work) ∧ (targets.foldl relax work).order = work.order ∧
      ∀ v, (targets.foldl relax work).degree v + targets.count v = work.degree v := by
  induction targets generalizing work with
  | nil => exact ⟨tracked, rfl, fun v => rfl⟩
  | cons next rest ih =>
      have head := enough next
      rw [List.count_cons_self] at head
      have one := relax_tracked tracked (inside next List.mem_cons_self) (by omega)
      have lost : ∀ v, (relax work next).degree v + (if v = next then 1 else 0) =
          work.degree v := by
        intro v
        simp only [relax]
        split
        · next same =>
            subst same
            omega
        · rfl
      have counts : ∀ v, (next :: rest).count v = rest.count v + if v = next then 1 else 0 := by
        intro v
        rw [List.count_cons]
        by_cases same : v = next <;> simp [same, Ne.symm]
      obtain ⟨final, order, degrees⟩ := ih one
        (fun v member => inside v (List.mem_cons_of_mem next member)) (by
          intro v
          have more := enough v
          rw [counts v] at more
          have step := lost v
          omega)
      refine ⟨final, order, fun v => ?_⟩
      have rest := degrees v
      have step := lost v
      rw [counts v, List.foldl_cons]
      omega

end Relax

section Invariant

variable {adj : Nat → List Nat} {n : Nat}

open Finset

/-- The loop invariant: the edges into a vertex are those left and those out of
the vertices taken. -/
structure Invariant (adj : Nat → List Nat) (n : Nat) (work : Work) : Prop extends
    Tracked n work where
  balance : ∀ v, work.degree v + ∑ u ∈ work.order.toFinset, (adj u).count v =
    ∑ u ∈ range n, (adj u).count v
  before : ∀ first v rest, work.order = first ++ v :: rest → ∀ u, Edge adj n u v → u ∈ first

theorem Invariant.inside {work : Work} (invariant : Invariant adj n work) :
    ∀ v ∈ work.order ++ work.queue, v < n := fun v member => ((invariant.seen v).mp member).1

theorem Invariant.order_subset {work : Work} (invariant : Invariant adj n work) :
    work.order.toFinset ⊆ range n := by
  intro v member
  rw [List.mem_toFinset] at member
  exact Finset.mem_range.mpr (invariant.inside v (List.mem_append_left _ member))

/-- A vertex outside the order still counts for its targets. -/
theorem Invariant.count_le {work : Work} (invariant : Invariant adj n work) {u : Nat}
    (below : u < n) (outside : u ∉ work.order) (v : Nat) : (adj u).count v ≤ work.degree v := by
  have balance := invariant.balance v
  have subset : insert u work.order.toFinset ⊆ range n :=
    Finset.insert_subset (Finset.mem_range.mpr below) invariant.order_subset
  have total := sum_le_sum_of_subset (f := fun u => (adj u).count v) subset
  rw [sum_insert (by simpa using outside)] at total
  omega

/-- No incoming edge left: all vertices with an edge here have been taken. -/
theorem Invariant.sources {work : Work} (invariant : Invariant adj n work) {v : Nat}
    (zero : work.degree v = 0) : ∀ u, Edge adj n u v → u ∈ work.order := by
  rintro u ⟨below, target⟩
  by_contra outside
  have counted := invariant.count_le below outside v
  have positive := List.count_pos_iff.mpr target
  omega

theorem start_invariant {degree : Nat → Nat}
    (degrees : ∀ v, degree v = ∑ u ∈ range n, (adj u).count v) :
    Invariant adj n (start degree n) := by
  refine ⟨⟨?_, fun v => ?_⟩, fun v => ?_, fun first v rest empty => ?_⟩
  · exact List.nodup_range.filter _
  · simp [start]
  · simpa [start] using degrees v
  · simp [start] at empty

theorem visit_invariant {work : Work} (inside : ∀ u, ∀ v ∈ adj u, v < n)
    (invariant : Invariant adj n work) : Invariant adj n (visit adj work) := by
  unfold visit
  split
  · exact invariant
  · next cur rest queue =>
    have nodup := invariant.nodup
    have seen := invariant.seen
    rw [queue] at nodup seen
    obtain ⟨below, zero⟩ := (seen cur).mp (by simp)
    have outside : cur ∉ work.order := by
      intro member
      exact (List.nodup_append.mp nodup).2.2 cur member cur List.mem_cons_self rfl
    have tracked : Tracked n { work with queue := rest, order := work.order ++ [cur] } := by
      refine ⟨?_, fun v => ?_⟩
      · simpa [List.append_assoc] using nodup
      · rw [← seen v]
        simp
    have enough : ∀ v, (adj cur).count v ≤ work.degree v := invariant.count_le below outside
    obtain ⟨final, order, degrees⟩ := relaxAll n (adj cur) tracked (inside cur) enough
    refine ⟨final, fun v => ?_, fun first v after split u edge => ?_⟩
    · have balance := invariant.balance v
      have lost := degrees v
      dsimp only at lost
      rw [order]
      dsimp only
      rw [List.toFinset_append, List.toFinset_cons, List.toFinset_nil,
        Finset.insert_empty, union_comm, ← Finset.insert_eq, sum_insert (by simpa using outside)]
      omega
    · rw [order] at split
      rcases List.append_eq_append_iff.mp split with ⟨more, same, single⟩ | ⟨more, same, single⟩
      · -- `v` is the vertex just taken
        cases more with
        | nil =>
            rw [List.nil_append, List.cons.injEq] at single
            rw [List.append_nil] at same
            rw [same]
            rw [← single.1] at edge
            exact invariant.sources zero u edge
        | cons head tail => simp at single
      · cases more with
        | nil =>
            rw [List.nil_append, List.cons.injEq] at single
            rw [List.append_nil] at same
            rw [← same]
            rw [single.1] at edge
            exact invariant.sources zero u edge
        | cons head tail =>
            rw [List.cons_append, List.cons.injEq] at single
            rw [← single.1] at same
            exact invariant.before first v tail same u edge

theorem visit_order (work : Work) :
    work.queue = [] ∨ (visit adj work).order.length = work.order.length + 1 := by
  cases queue : work.queue with
  | nil => exact Or.inl rfl
  | cons cur rest =>
      right
      have kept : ∀ (targets : List Nat) (work : Work),
          (targets.foldl relax work).order = work.order := by
        intro targets
        induction targets with
        | nil => exact fun _ => rfl
        | cons next rest ih => exact fun work => ih (relax work next)
      simp [visit, queue, kept]

theorem drain_idle (fuel : Nat) {work : Work} (idle : work.queue = []) : drain adj fuel work = work := by
  induction fuel with
  | zero => rfl
  | succ fuel ih =>
      have same : visit adj work = work := by simp [visit, idle]
      rw [drain, same, ih]

theorem drain_invariant (inside : ∀ u, ∀ v ∈ adj u, v < n) (fuel : Nat) {work : Work}
    (invariant : Invariant adj n work) :
    Invariant adj n (drain adj fuel work) ∧
      ((drain adj fuel work).queue = [] ∨
        (drain adj fuel work).order.length = work.order.length + fuel) := by
  induction fuel generalizing work with
  | zero => exact ⟨invariant, Or.inr rfl⟩
  | succ fuel ih =>
      obtain ⟨final, progress⟩ := ih (visit_invariant inside invariant)
      refine ⟨final, ?_⟩
      have step : work.queue = [] ∨ _ := @visit_order adj work
      rcases step with idle | grown
      · have same : visit adj work = work := by simp [visit, idle]
        rw [drain, same, drain_idle fuel idle]
        exact Or.inl idle
      · rw [drain]
        rcases progress with done | long
        · exact Or.inl done
        · exact Or.inr (by omega)

theorem Invariant.length_le {work : Work} (invariant : Invariant adj n work) :
    (work.order ++ work.queue).length ≤ n := by
  have subset : work.order ++ work.queue ⊆ List.range n := fun v member =>
    List.mem_range.mpr (invariant.inside v member)
  have bound := (invariant.nodup.subperm subset).length_le
  rwa [List.length_range] at bound

/-- After as many rounds as vertices the queue is empty. -/
theorem drain_done (inside : ∀ u, ∀ v ∈ adj u, v < n) {degree : Nat → Nat}
    (degrees : ∀ v, degree v = ∑ u ∈ range n, (adj u).count v) :
    Invariant adj n (drain adj n (start degree n)) ∧ (drain adj n (start degree n)).queue = [] := by
  obtain ⟨invariant, progress⟩ := drain_invariant inside n (start_invariant degrees)
  refine ⟨invariant, ?_⟩
  rcases progress with done | long
  · exact done
  · have bound := invariant.length_le
    rw [List.length_append, long] at bound
    exact List.length_eq_zero_iff.mp (by omega)

/-- With an empty queue the order has every vertex or misses a cycle. -/
theorem Invariant.complete {work : Work} (invariant : Invariant adj n work)
    (idle : work.queue = []) (acyclic : Acyclic adj n) : work.order.length = n := by
  have bound := invariant.length_le
  rw [List.length_append, idle] at bound
  by_contra short
  have trans : IsTrans (Fin n) fun u v => Relation.TransGen (Edge adj n) u v :=
    ⟨fun _ _ _ first second => first.trans second⟩
  have irrefl : Std.Irrefl fun u v : Fin n => Relation.TransGen (Edge adj n) u v :=
    ⟨fun v => acyclic v⟩
  have founded := Finite.wellFounded_of_trans_of_irrefl
    fun u v : Fin n => Relation.TransGen (Edge adj n) u v
  -- a first vertex outside the order
  obtain ⟨outside, missing⟩ : ∃ v : Fin n, v.val ∉ work.order := by
    by_contra all
    push Not at all
    have subset : List.range n ⊆ work.order := fun v member =>
      all ⟨v, List.mem_range.mp member⟩
    have long := (List.nodup_range.subperm subset).length_le
    rw [List.length_range] at long
    simp only [List.length_nil] at bound
    omega
  obtain ⟨first, firstMissing, least⟩ :=
    founded.has_min {v : Fin n | v.val ∉ work.order} ⟨outside, missing⟩
  have pending : work.degree first.val ≠ 0 := by
    intro zero
    have member := (invariant.seen first.val).mpr ⟨first.isLt, zero⟩
    rw [idle, List.append_nil] at member
    exact firstMissing member
  -- one of its incoming edges comes from outside the order
  have balance := invariant.balance first.val
  obtain ⟨u, below, outsideU, target⟩ : ∃ u < n, u ∉ work.order ∧ first.val ∈ adj u := by
    by_contra none
    push Not at none
    have same : ∑ u ∈ range n, (adj u).count first.val =
        ∑ u ∈ work.order.toFinset, (adj u).count first.val := by
      refine (sum_subset invariant.order_subset fun u member fresh => ?_).symm
      exact List.count_eq_zero.mpr
        (none u (Finset.mem_range.mp member) (by simpa using fresh))
    omega
  exact least ⟨u, below⟩ outsideU (Relation.TransGen.single ⟨below, target⟩)

theorem Invariant.sorted {work : Work} (invariant : Invariant adj n work)
    (full : work.order.length = n) : Sorted adj n work.order := by
  refine ⟨?_, invariant.before⟩
  have nodup := (List.nodup_append.mp invariant.nodup).1
  have subset : work.order ⊆ List.range n := fun v member =>
    List.mem_range.mpr (invariant.inside v (List.mem_append_left _ member))
  exact (nodup.subperm subset).perm_of_length_le (by rw [List.length_range, full])

/-- An order with every vertex behind its sources leaves no cycle. -/
theorem Sorted.acyclic {order : List Nat} (sorted : Sorted adj n order)
    (inside : ∀ u, ∀ v ∈ adj u, v < n) : Acyclic adj n := by
  have later : ∀ u v, Edge adj n u v → order.idxOf u < order.idxOf v := by
    intro u v edge
    have member : v ∈ order := sorted.perm.mem_iff.mpr (List.mem_range.mpr (inside u v edge.2))
    exact idxOf_lt_of_before member fun first rest split => sorted.before first v rest split u edge
  have path : ∀ u v, Relation.TransGen (Edge adj n) u v → order.idxOf u < order.idxOf v := by
    intro u v reach
    induction reach with
    | single edge => exact later _ _ edge
    | tail _ edge ih => exact ih.trans (later _ _ edge)
  exact fun v cycle => Nat.lt_irrefl _ (path v v cycle)

/-- The loop takes every vertex exactly when there is no cycle, and then in a
sorted order. -/
theorem drain_sorts (inside : ∀ u, ∀ v ∈ adj u, v < n) {degree : Nat → Nat}
    (degrees : ∀ v, degree v = ∑ u ∈ range n, (adj u).count v) :
    ((drain adj n (start degree n)).order.length = n ↔ Acyclic adj n) ∧
      ((drain adj n (start degree n)).order.length = n →
        Sorted adj n (drain adj n (start degree n)).order) := by
  obtain ⟨invariant, idle⟩ := drain_done inside degrees
  exact ⟨⟨fun full => (invariant.sorted full).acyclic inside, invariant.complete idle⟩,
    invariant.sorted⟩

end Invariant

end MiniLLM.Kahn
