import Mathlib.Data.List.Basic

/-!
Merging neighbours by rank: the leftmost pair of lowest rank is joined, until no
neighbours have a rank. The order of the merges is determined, and so is what
they end in.
-/

namespace MiniLLM.PairMerging

variable {Piece Other : Type}

def neighbours (pieces : List Piece) : List (Piece × Piece) := pieces.zip pieces.tail

theorem neighbours_cons (a b : Piece) (rest : List Piece) :
    neighbours (a :: b :: rest) = (a, b) :: neighbours (b :: rest) := rfl

theorem neighbours_map (f : Piece → Other) (pieces : List Piece) :
    neighbours (pieces.map f) = (neighbours pieces).map (Prod.map f f) := by
  rw [neighbours, neighbours, ← List.map_tail, List.zip_map]

theorem neighbours_middle (before : List Piece) (a b : Piece) (after : List Piece) :
    (a, b) ∈ neighbours (before ++ a :: b :: after) := by
  induction before with
  | nil => exact List.mem_cons_self
  | cons c before ih =>
      cases before with
      | nil => exact List.mem_cons_of_mem _ ih
      | cons d before => exact List.mem_cons_of_mem _ ih

/-- The pairs up to `a` begin before it, and stay pairs when the list goes on. -/
theorem neighbours_before {before : List Piece} {a : Piece} {pair : Piece × Piece}
    (listed : pair ∈ neighbours (before ++ [a])) (after : List Piece) :
    pair.1 ∈ before ∧ pair ∈ neighbours (before ++ a :: after) := by
  induction before with
  | nil => simp [neighbours] at listed
  | cons c before ih =>
      cases before with
      | nil =>
          have first : pair = (c, a) := by simpa [neighbours] using listed
          rw [first]
          exact ⟨List.mem_cons_self, List.mem_cons_self⟩
      | cons d before =>
          rcases List.mem_cons.mp listed with rfl | later
          · exact ⟨List.mem_cons_self, List.mem_cons_self⟩
          · have ⟨start, stays⟩ := ih later
            exact ⟨List.mem_cons_of_mem _ start, List.mem_cons_of_mem _ stays⟩

section Merging

variable (rank : Piece → Piece → Option Int) (join : Piece → Piece → Piece)

/-- The pair `a`, `b`: to its left every rank is higher, to its right none is lower. -/
structure Leftmost (before : List Piece) (a b : Piece) (after : List Piece) (r : Int) : Prop where
  ranked : rank a b = some r
  left : ∀ pair ∈ neighbours (before ++ [a]), ∀ s, rank pair.1 pair.2 = some s → r < s
  right : ∀ pair ∈ neighbours (b :: after), ∀ s, rank pair.1 pair.2 = some s → r ≤ s

inductive Merges : List Piece → List Piece → Prop
  | done {pieces : List Piece} :
      (∀ pair ∈ neighbours pieces, rank pair.1 pair.2 = none) → Merges pieces pieces
  | step {before after final : List Piece} {a b : Piece} {r : Int} :
      Leftmost rank before a b after r → Merges (before ++ join a b :: after) final →
      Merges (before ++ a :: b :: after) final

variable {rank} {join}

/-- A single piece has no neighbours. -/
theorem Merges.short {pieces : List Piece} (short : pieces.length ≤ 1) :
    Merges rank join pieces pieces := by
  match pieces with
  | [] => exact done fun _ none => absurd none List.not_mem_nil
  | [piece] => exact done fun _ none => absurd none List.not_mem_nil
  | _ :: _ :: _ => exact absurd short (by simp)

/-- Were the second pair further right, each would be strictly better than the other. -/
theorem Leftmost.not_later {before after before' after' : List Piece} {a b a' b' : Piece}
    {r r' : Int} (one : Leftmost rank before a b after r)
    (two : Leftmost rank before' a' b' after' r') {between : List Piece}
    (further : before' = before ++ a :: between)
    (same : b :: after = between ++ a' :: b' :: after') : False := by
  have behind : r ≤ r' := by
    apply one.right (a', b') _ r' two.ranked
    rw [same]
    exact neighbours_middle between a' b' after'
  have ahead : r' < r := by
    apply two.left (a, b) _ r one.ranked
    rw [further]
    cases between with
    | nil =>
        cases (List.cons_eq_cons.mp same).1
        simpa using neighbours_middle before a b []
    | cons c between =>
        cases (List.cons_eq_cons.mp same).1
        simpa using neighbours_middle before a b (between ++ [a'])
  omega

theorem Leftmost.unique {before after before' after' : List Piece} {a b a' b' : Piece}
    {r r' : Int} (one : Leftmost rank before a b after r)
    (two : Leftmost rank before' a' b' after' r')
    (same : before ++ a :: b :: after = before' ++ a' :: b' :: after') :
    before = before' ∧ a = a' ∧ b = b' ∧ after = after' := by
  rcases List.append_eq_append_iff.mp same with ⟨between, further, rest⟩ | ⟨between, further, rest⟩
  · cases between with
    | nil =>
        simp only [List.append_nil, List.nil_append, List.cons.injEq] at further rest
        exact ⟨further.symm, rest⟩
    | cons c between =>
        cases (List.cons_eq_cons.mp rest).1
        exact (one.not_later two further (List.cons_eq_cons.mp rest).2).elim
  · cases between with
    | nil =>
        simp only [List.append_nil, List.nil_append, List.cons.injEq] at further rest
        exact ⟨further, rest.1.symm, rest.2.1.symm, rest.2.2.symm⟩
    | cons c between =>
        cases (List.cons_eq_cons.mp rest).1
        exact (two.not_later one further (List.cons_eq_cons.mp rest).2).elim

theorem Merges.inversion {pieces final : List Piece} (merges : Merges rank join pieces final) :
    ((∀ pair ∈ neighbours pieces, rank pair.1 pair.2 = none) ∧ final = pieces) ∨
    ∃ before a b after r, pieces = before ++ a :: b :: after ∧
      Leftmost rank before a b after r ∧ Merges rank join (before ++ join a b :: after) final := by
  cases merges with
  | done unranked => exact Or.inl ⟨unranked, rfl⟩
  | step best more => exact Or.inr ⟨_, _, _, _, _, rfl, best, more⟩

theorem Leftmost.not_done {before after : List Piece} {a b : Piece} {r : Int}
    (best : Leftmost rank before a b after r)
    (unranked : ∀ pair ∈ neighbours (before ++ a :: b :: after),
      rank pair.1 pair.2 = none) : False := by
  have none := unranked (a, b) (neighbours_middle before a b after)
  rw [best.ranked] at none
  cases none

theorem Merges.unique {pieces first second : List Piece}
    (one : Merges rank join pieces first) (two : Merges rank join pieces second) :
    first = second := by
  induction one with
  | done unranked =>
      rcases two.inversion with ⟨-, same⟩ | ⟨before, a, b, after, r, rfl, best, -⟩
      · exact same.symm
      · exact (best.not_done unranked).elim
  | step best _ ih =>
      rcases two.inversion with ⟨unranked, -⟩ | ⟨before, a, b, after, r, same, other, more⟩
      · exact (best.not_done unranked).elim
      · obtain ⟨rfl, rfl, rfl, rfl⟩ := best.unique other same
        exact ih more

end Merging

end MiniLLM.PairMerging
