import MiniLLM.BPETokenizer
import MiniLLM.LinkedChain

/-!
`bpe` against merging by rank. The live symbols are the chain from symbol 0; one
that was absorbed is off it, keeps its stale text and link, and may go on
absorbing without a trace on the chain.
-/

namespace MiniLLM

open Loops PairMerging LinkedChain

namespace BPETokenizer

section Scan

variable {ranks : MergeRanks} {symbols : Symbols}

/-- Symbol `i` and the one its link names have rank `r`. -/
def Candidate (ranks : MergeRanks) (symbols : Symbols) (i : Nat) (r : Int) : Prop :=
  0 ≤ (symbols i).next ∧
    ranks.rank (symbols i).text (symbols (symbols i).next.toNat).text = some r

/-- The lowest rank among the first `n` symbols, at the first place that has it. -/
structure Lowest (ranks : MergeRanks) (symbols : Symbols) (n : Nat) (best : Int × Int) : Prop where
  bound : ∀ k < n, ∀ r, Candidate ranks symbols k r → best.1 ≤ r
  place : best = (2147483647, -1) ∨ ∃ i < n, best.2 = i ∧ Candidate ranks symbols i best.1 ∧
    ∀ k < i, ∀ r, Candidate ranks symbols k r → best.1 < r

theorem consider_candidate {i : Nat} {r : Int} (candidate : Candidate ranks symbols i r)
    (best : Int × Int) :
    consider ranks symbols i best = if r < best.1 then (r, (i : Int)) else best := by
  rw [consider, if_neg (not_lt.mpr candidate.1), candidate.2]

theorem consider_other {i : Nat} (none : ∀ r, ¬ Candidate ranks symbols i r)
    (best : Int × Int) : consider ranks symbols i best = best := by
  rw [consider]
  split
  · rfl
  · rename_i linked
    split
    · rename_i rank known
      exact absurd ⟨not_lt.mp linked, known⟩ (none rank)
    · rfl

theorem consider_lowest {n : Nat} {best : Int × Int} (lowest : Lowest ranks symbols n best) :
    Lowest ranks symbols (n + 1) (consider ranks symbols n best) := by
  have kept (bound : ∀ r, Candidate ranks symbols n r → best.1 ≤ r) :
      Lowest ranks symbols (n + 1) best := by
    constructor
    · intro k below r other
      rcases Nat.lt_succ_iff_lt_or_eq.mp below with earlier | rfl
      · exact lowest.bound k earlier r other
      · exact bound r other
    · exact lowest.place.imp_right fun ⟨i, below, rest⟩ => ⟨i, Nat.lt_succ_of_lt below, rest⟩
  by_cases found : ∃ r, Candidate ranks symbols n r
  · obtain ⟨r, candidate⟩ := found
    have only : ∀ s, Candidate ranks symbols n s → s = r := fun s other =>
      Option.some.inj (other.2.symm.trans candidate.2)
    rw [consider_candidate candidate]
    split
    · rename_i lower
      constructor
      · intro k below s other
        rcases Nat.lt_succ_iff_lt_or_eq.mp below with earlier | rfl
        · exact lower.le.trans (lowest.bound k earlier s other)
        · exact (only s other).ge
      · exact Or.inr ⟨n, Nat.lt_succ_self n, rfl, candidate, fun k below s other =>
          lower.trans_le (lowest.bound k below s other)⟩
    · rename_i higher
      exact kept fun s other => (not_lt.mp higher).trans (only s other).ge
  · have none := not_exists.mp found
    rw [consider_other none]
    exact kept fun r other => absurd other (none r)

theorem findBest_lowest (ranks : MergeRanks) (symbols : Symbols) (count : Nat) :
    Lowest ranks symbols count (findBest ranks count symbols) :=
  loop_invariant (Lowest ranks symbols) count _ _
    ⟨fun k below => absurd below (Nat.not_lt_zero k), Or.inl rfl⟩
    fun _ _ _ lowest => consider_lowest lowest

/-- The scan stops the loop when no symbol has a ranked pair. -/
theorem findBest_cases (ranks : MergeRanks) (symbols : Symbols) (count : Nat) :
    ((findBest ranks count symbols).2 = -1 ∧
      ∀ k < count, ∀ r, ¬ Candidate ranks symbols k r) ∨
    ∃ i < count, ∃ r, (findBest ranks count symbols).2 = i ∧ Candidate ranks symbols i r ∧
      (∀ k < count, ∀ s, Candidate ranks symbols k s → r ≤ s) ∧
      ∀ k < i, ∀ s, Candidate ranks symbols k s → r < s := by
  have ⟨bound, place⟩ := findBest_lowest ranks symbols count
  rcases place with start | ⟨i, below, index, candidate, first⟩
  · rw [start] at bound ⊢
    refine Or.inl ⟨rfl, fun k below r candidate => ?_⟩
    exact absurd (bound k below r candidate) (not_le.mpr (ranks.small _ _ _ candidate.2))
  · exact Or.inr ⟨i, below, _, index, candidate, bound, first⟩

end Scan

section Absorbing

def links (symbols : Symbols) : Nat → Int := fun i => (symbols i).next

def textsOf (symbols : Symbols) (indices : List Nat) : List Bytes :=
  indices.map fun i => (symbols i).text

theorem store_field {Field : Type} (field : Symbol → Field) (symbols : Symbols) (i k : Nat)
    (symbol : Symbol) (same : field symbol = field (symbols i)) :
    field (store symbols i symbol k) = field (symbols k) := by
  by_cases here : k = i
  · rw [here, store_same, same]
  · rw [store_other _ _ _ _ here]

@[simp] theorem setPrev_text (symbols : Symbols) (i k : Nat) (p : Int) :
    (setPrev symbols i p k).text = (symbols k).text := store_field Symbol.text symbols i k _ rfl

@[simp] theorem setPrev_next (symbols : Symbols) (i k : Nat) (p : Int) :
    (setPrev symbols i p k).next = (symbols k).next := store_field Symbol.next symbols i k _ rfl

@[simp] theorem setText_next (symbols : Symbols) (i k : Nat) (text : Bytes) :
    (setText symbols i text k).next = (symbols k).next := store_field Symbol.next symbols i k _ rfl

@[simp] theorem setText_prev (symbols : Symbols) (i k : Nat) (text : Bytes) :
    (setText symbols i text k).prev = (symbols k).prev := store_field Symbol.prev symbols i k _ rfl

@[simp] theorem setNext_text (symbols : Symbols) (i k : Nat) (next : Int) :
    (setNext symbols i next k).text = (symbols k).text := store_field Symbol.text symbols i k _ rfl

@[simp] theorem setNext_prev (symbols : Symbols) (i k : Nat) (next : Int) :
    (setNext symbols i next k).prev = (symbols k).prev := store_field Symbol.prev symbols i k _ rfl

@[simp] theorem setText_same (symbols : Symbols) (i : Nat) (text : Bytes) :
    (setText symbols i text i).text = text := by rw [setText, store_same]

@[simp] theorem setNext_same (symbols : Symbols) (i : Nat) (next : Int) :
    (setNext symbols i next i).next = next := by rw [setNext, store_same]

theorem setText_other {symbols : Symbols} {i k : Nat} {text : Bytes} (different : k ≠ i) :
    (setText symbols i text k).text = (symbols k).text := by
  rw [setText, store_other _ _ _ _ different]

theorem setNext_other {symbols : Symbols} {i k : Nat} {next : Int} (different : k ≠ i) :
    (setNext symbols i next k).next = (symbols k).next := by
  rw [setNext, store_other _ _ _ _ different]

theorem setPrev_other {symbols : Symbols} {i k : Nat} {p : Int} (different : k ≠ i) :
    (setPrev symbols i p k).prev = (symbols k).prev := by
  rw [setPrev, store_other _ _ _ _ different]

variable {symbols : Symbols} {best j : Nat}

/-- The absorbing symbol takes the text and the link of the next one. -/
theorem absorb_same (linked : (symbols best).next = j) :
    (absorb symbols best best).text = (symbols best).text ++ (symbols j).text ∧
      (absorb symbols best best).next = (symbols j).next := by
  rw [absorb]
  split <;> simp [linked]

/-- Texts and links of all others stay, those of absorbed symbols included. -/
theorem absorb_other {k : Nat} (different : k ≠ best) :
    (absorb symbols best k).text = (symbols k).text ∧
      (absorb symbols best k).next = (symbols k).next := by
  rw [absorb]
  split <;> simp [setText_other different, setNext_other different]

theorem absorb_head (linked : (symbols best).next = j) (apart : j ≠ best) (later : j ≠ 0)
    (further : (symbols j).next ≠ 0) : (absorb symbols best 0).prev = (symbols 0).prev := by
  have target : (setNext (setText symbols best ((symbols best).text ++ (symbols j).text)) best
      (symbols j).next j).next = (symbols j).next := by
    rw [setNext_other apart, setText_next]
  rw [absorb, linked, Int.toNat_natCast, setPrev_other later.symm, setText_next, target]
  split
  · rw [setPrev_other (by omega), setNext_prev, setText_prev]
  · rw [setNext_prev, setText_prev]

end Absorbing

/-- The array with the chain of its live symbols. -/
structure Linked (count : Nat) (symbols : Symbols) (live : List Nat) : Prop where
  forward : Forward (links symbols) count
  chain : Chain (links symbols) 0 live
  head : (symbols 0).prev = -1

section Step

variable {count : Nat} {symbols : Symbols} {live : List Nat} {ranks : MergeRanks}

theorem candidate_link (linked : Linked count symbols live) {i : Nat} {r : Int} (below : i < count)
    (candidate : Candidate ranks symbols i r) :
    ∃ j : Nat, (symbols i).next = j ∧ i < j ∧ j < count ∧
      ranks.rank (symbols i).text (symbols j).text = some r := by
  have ⟨present, ranked⟩ := candidate
  refine ⟨(symbols i).next.toNat, (Int.toNat_of_nonneg present).symm, ?_, ?_, ranked⟩
  all_goals
    rcases linked.forward i below with ended | ⟨later, inside⟩ <;> unfold links at * <;> omega

/-- Whatever absorbs, the links stay forward and fewer cells are left to reach. -/
theorem absorb_forward (linked : Linked count symbols live) {i j : Nat} (below : i < count)
    (next : (symbols i).next = j) :
    Forward (links (absorb symbols i)) count ∧
      measure (links (absorb symbols i)) count < measure (links symbols) count := by
  apply forward_absorb linked.forward below next
  · exact (absorb_same next).2
  · exact fun k different => (absorb_other different).2

theorem absorb_start (linked : Linked count symbols live) {i j : Nat} (below : i < count)
    (next : (symbols i).next = j) : (absorb symbols i 0).prev = -1 := by
  have first := linked.forward i below
  have second := linked.forward j
  unfold links at first second
  rw [absorb_head next (by omega) (by omega) (by omega), linked.head]

/-- An absorbed symbol that goes on absorbing does not touch the live chain. -/
theorem absorb_ghost (linked : Linked count symbols live) {i j : Nat} (below : i < count)
    (next : (symbols i).next = j) (ghost : i ∉ live) :
    Linked count (absorb symbols i) live ∧ textsOf (absorb symbols i) live = textsOf symbols live := by
  have apart : ∀ k ∈ live, k ≠ i := fun k member same => ghost (same ▸ member)
  constructor
  · exact ⟨(absorb_forward linked below next).1,
      linked.chain.congr fun k member => (absorb_other (apart k member)).2,
      absorb_start linked below next⟩
  · exact List.map_congr_left fun k member => (absorb_other (apart k member)).1

/-- A live symbol takes in the next live one. -/
theorem absorb_live (positive : 0 < count) (linked : Linked count symbols live) {i j : Nat}
    (below : i < count) (next : (symbols i).next = j) (alive : i ∈ live) :
    ∃ before after, live = before ++ i :: j :: after ∧
      Linked count (absorb symbols i) (before ++ i :: after) ∧
      textsOf (absorb symbols i) (before ++ i :: after) =
        textsOf symbols before ++
          ((symbols i).text ++ (symbols j).text) :: textsOf symbols after := by
  obtain ⟨before, rest, rfl⟩ := List.append_of_mem alive
  have onward : Chain (links symbols) (links symbols i) rest := linked.chain.reach
  cases rest with
  | nil =>
      have ended : (symbols i).next < 0 := onward
      omega
  | cons k after =>
      have index : (symbols i).next = k := onward.1
      obtain rfl : j = k := Int.ofNat_inj.mp (next.symm.trans index)
      have sorted := linked.chain.sorted linked.forward (Int.natCast_pos.mpr positive)
      have distinct : (before ++ i :: j :: after).Nodup := sorted.imp Nat.ne_of_lt
      have ⟨text, link⟩ := absorb_same next
      have kept : ∀ k, k ≠ i → links (absorb symbols i) k = links symbols k :=
        fun k different => (absorb_other different).2
      have chain := linked.chain.absorb distinct link kept
      refine ⟨before, after, rfl, ⟨(absorb_forward linked below next).1, chain,
        absorb_start linked below next⟩, ?_⟩
      have ⟨_, others, apart⟩ := List.nodup_append.mp distinct
      have fresh := (List.nodup_cons.mp others).1
      rw [textsOf, List.map_append, List.map_cons, text]
      congr 1
      · refine List.map_congr_left fun k member => (absorb_other ?_).1
        exact apart k member i List.mem_cons_self
      · congr 1
        refine List.map_congr_left fun k member => (absorb_other ?_).1
        rintro rfl
        exact fresh (List.mem_cons_of_mem _ member)

/-- The ranks of live neighbours are ranks the scan has seen. -/
theorem neighbour_candidate {indices : List Nat} {start : Int}
    (chain : Chain (links symbols) start indices) {pair : Nat × Nat}
    (listed : pair ∈ neighbours indices) {r : Int}
    (ranked : ranks.rank (symbols pair.1).text (symbols pair.2).text = some r) :
    Candidate ranks symbols pair.1 r := by
  have link : (symbols pair.1).next = pair.2 := chain.links pair listed
  constructor
  · omega
  · rwa [link, Int.toNat_natCast]

theorem textsOf_neighbours {indices : List Nat} {pair : Bytes × Bytes}
    (listed : pair ∈ neighbours (textsOf symbols indices)) :
    ∃ k m, (k, m) ∈ neighbours indices ∧ pair = ((symbols k).text, (symbols m).text) := by
  rw [textsOf, neighbours_map] at listed
  obtain ⟨⟨k, m⟩, member, rfl⟩ := List.mem_map.mp listed
  exact ⟨k, m, member, rfl⟩

theorem absorb_leftmost (positive : 0 < count) {before after : List Nat} {i j : Nat}
    (linked : Linked count symbols (before ++ i :: j :: after)) {r : Int}
    (candidate : Candidate ranks symbols i r) (next : (symbols i).next = j)
    (lowest : ∀ k < count, ∀ s, Candidate ranks symbols k s → r ≤ s)
    (first : ∀ k < i, ∀ s, Candidate ranks symbols k s → r < s) :
    Leftmost ranks.rank (textsOf symbols before) (symbols i).text (symbols j).text
      (textsOf symbols after) r := by
  have inside : (0 : Int) < count := Int.natCast_pos.mpr positive
  have sorted := linked.chain.sorted linked.forward inside
  have below := linked.chain.below linked.forward inside
  constructor
  · have ranked := candidate.2
    rwa [next, Int.toNat_natCast] at ranked
  · intro pair listed s ranked
    have joined : textsOf symbols before ++ [(symbols i).text] = textsOf symbols (before ++ [i]) := by
      simp [textsOf]
    rw [joined] at listed
    obtain ⟨k, m, member, rfl⟩ := textsOf_neighbours listed
    have ⟨ahead, stays⟩ := neighbours_before member (j :: after)
    have earlier : k < i := (List.pairwise_append.mp sorted).2.2 k ahead i List.mem_cons_self
    exact first k earlier s (neighbour_candidate linked.chain stays ranked)
  · intro pair listed s ranked
    have paired : pair ∈ neighbours (textsOf symbols (j :: after)) := listed
    obtain ⟨k, m, member, rfl⟩ := textsOf_neighbours paired
    have known : k ∈ j :: after := (List.of_mem_zip member).1
    have found := neighbour_candidate linked.chain.reach member ranked
    exact lowest k (below k (by simp_all)) s found

/-- Either the merges are over, or one more leads on from a state of the same kind. -/
theorem mergeLoop_merges (ranks : MergeRanks) (positive : 0 < count) (fuel : Nat) (linked : Linked count symbols live)
    (enough : measure (links symbols) count < fuel) :
    ∃ final rest, mergeLoop ranks count fuel symbols = some final ∧ Linked count final rest ∧
      Merges ranks.rank (· ++ ·) (textsOf symbols live) (textsOf final rest) := by
  induction fuel generalizing symbols live with
  | zero => exact absurd enough (Nat.not_lt_zero _)
  | succ fuel ih =>
      rw [mergeLoop]
      rcases findBest_cases ranks symbols count with
        ⟨index, none⟩ | ⟨i, below, r, index, candidate, lowest, first⟩
      · rw [if_pos (by omega)]
        refine ⟨symbols, live, rfl, linked, Merges.done fun pair listed => ?_⟩
        obtain ⟨k, m, member, rfl⟩ := textsOf_neighbours listed
        have inside := linked.chain.below linked.forward (Int.natCast_pos.mpr positive)
        by_contra ranked
        obtain ⟨r, ranked⟩ := Option.ne_none_iff_exists'.mp ranked
        exact none k (inside k (List.of_mem_zip member).1) r
          (neighbour_candidate linked.chain member ranked)
      · rw [if_neg (by omega), index, Int.toNat_natCast]
        obtain ⟨j, next, -, -, -⟩ := candidate_link linked below candidate
        have less := (absorb_forward linked below next).2
        by_cases alive : i ∈ live
        · obtain ⟨before, after, rfl, onward, texts⟩ :=
            absorb_live positive linked below next alive
          obtain ⟨final, rest, ran, ended, merges⟩ := ih onward (by omega)
          refine ⟨final, rest, ran, ended, ?_⟩
          have best := absorb_leftmost positive linked candidate next lowest first
          rw [texts] at merges
          have step := Merges.step best merges
          simpa [textsOf] using step
        · have ⟨onward, texts⟩ := absorb_ghost linked below next alive
          obtain ⟨final, rest, ran, ended, merges⟩ := ih onward (by omega)
          exact ⟨final, rest, ran, ended, texts ▸ merges⟩

end Step

section Whole

variable {count : Nat} {symbols : Symbols} {live : List Nat} {ranks : MergeRanks}
  (vocabMap : Bytes → Option Int)

theorem walk_chain {start : Int} {indices : List Nat} (chain : Chain (links symbols) start indices)
    (fuel : Nat) (enough : indices.length ≤ fuel) :
    walk vocabMap symbols fuel start = some ((textsOf symbols indices).filterMap vocabMap) := by
  induction indices generalizing start fuel with
  | nil =>
      have ended : start < 0 := chain
      cases fuel <;> exact if_pos ended
  | cons i rest ih =>
      have index : start = i := chain.1
      cases fuel with
      | zero => cases enough
      | succ fuel =>
          have tail := ih chain.2 fuel (Nat.le_of_succ_le_succ enough)
          have step : (symbols i).next = links symbols i := rfl
          have texts : textsOf symbols (i :: rest) = (symbols i).text :: textsOf symbols rest := rfl
          rw [walk, if_neg (by omega), index, Int.toNat_natCast, step, tail, Option.map_some, texts]
          cases known : vocabMap (symbols i).text with
          | none => rw [List.filterMap_cons_none known]; rfl
          | some id => rw [List.filterMap_cons_some known]; rfl

theorem collect_live (positive : 0 < count) (linked : Linked count symbols live) :
    collect vocabMap count symbols = some ((textsOf symbols live).filterMap vocabMap) := by
  obtain ⟨more, rfl⟩ := Nat.exists_eq_succ_of_ne_zero positive.ne'
  have starts : (List.range (more + 1)).find? (fun i =>
      decide ¬ ((symbols i).prev = -2 ∨ ((symbols i).prev ≠ -1 ∧ (symbols i).prev ≠ -2))) =
      some 0 := by
    rw [List.range_succ_eq_map, List.find?_cons_of_pos]
    simp [linked.head]
  have few : live.length ≤ more + 1 + 1 := by
    cases live with
    | nil => exact Nat.zero_le _
    | cons i rest =>
        have index : (0 : Int) = i := linked.chain.1
        have tail := (linked.chain.2.after linked.forward (by omega)).2
        rw [List.length_cons]
        omega
  rw [collect, starts]
  exact walk_chain vocabMap linked.chain _ few

/-- Before any merge every symbol is live. -/
theorem linkSymbols_chain (size : Int) (texts : List Bytes) (start : Nat) (rest : Nat)
    (whole : (start + rest : Int) = size) (some : 0 < rest) :
    Chain (links (linkSymbols size texts)) start (List.range' start rest) := by
  induction rest generalizing start with
  | zero => cases some
  | succ rest ih =>
      constructor
      · rfl
      · have inside : (start : Int) < size := by omega
        rw [links, linkSymbols, if_pos inside]
        cases rest with
        | zero =>
            rw [if_neg (by omega)]
            exact neg_one_lt_zero
        | succ rest =>
            rw [if_pos (by omega)]
            exact ih (start + 1) (by omega) (Nat.succ_pos rest)

theorem linkSymbols_linked (size : Int) (texts : List Bytes) (positive : 0 < size) :
    Linked size.toNat (linkSymbols size texts) (List.range size.toNat) := by
  constructor
  · intro i below
    rw [links, linkSymbols, if_pos (by omega)]
    dsimp only
    split <;> omega
  · rw [List.range_eq_range']
    exact linkSymbols_chain size texts 0 size.toNat (by omega) (by omega)
  · rw [linkSymbols, if_pos (by omega)]
    rfl

theorem linkSymbols_texts (size : Int) (texts : List Bytes) (fits : size ≤ texts.length) :
    textsOf (linkSymbols size texts) (List.range size.toNat) = texts.take size.toNat := by
  apply List.ext_getElem
  · rw [textsOf, List.length_map, List.length_range, List.length_take]
    omega
  · intro i short long
    have below : i < texts.length := (List.length_take_le' _ _).trans_lt' long
    have inside : (i : Int) < size := by
      rw [textsOf, List.length_map, List.length_range] at short
      omega
    simp [textsOf, linkSymbols, inside, below]

/-- Linking, merging and collecting the first `size` of the symbols. -/
theorem linked_merges (ranks : MergeRanks) (size : Int) (texts : List Bytes)
    (fits : size ≤ texts.length) :
    ∃ final, Merges ranks.rank (· ++ ·) (texts.take size.toNat) final ∧
      (mergeLoop ranks size.toNat (size.toNat * size.toNat + 1) (linkSymbols size texts)).bind
        (collect vocabMap size.toNat) = some (final.filterMap vocabMap) := by
  by_cases positive : 0 < size
  · have start := linkSymbols_linked size texts positive
    have enough := Nat.lt_succ_of_le (measure_le (links (linkSymbols size texts)) size.toNat)
    obtain ⟨final, rest, ran, ended, merges⟩ :=
      mergeLoop_merges ranks (by omega) _ start enough
    rw [linkSymbols_texts size texts fits] at merges
    refine ⟨_, merges, ?_⟩
    rw [ran]
    exact collect_live vocabMap (by omega) ended
  · have empty : size.toNat = 0 := by omega
    have idle : (findBest ranks 0 (linkSymbols size texts)).2 = -1 := rfl
    rw [empty, List.take_zero, mergeLoop, idle, if_pos (by omega)]
    exact ⟨[], Merges.short (Nat.zero_le 1), rfl⟩

/-- Whatever the word, `bpe` ends, with the merges of the symbols its `int` size leaves. -/
theorem bpe_merges (ranks : MergeRanks) (word : Bytes) :
    ∃ final, Merges ranks.rank (· ++ ·)
        ((splitSymbols word.length word).take
          (wrap32 (splitSymbols word.length word).length).toNat) final ∧
      bpe ranks vocabMap word = some (final.filterMap vocabMap) := by
  rw [bpe]
  generalize splitSymbols word.length word = texts
  match texts with
  | [] =>
      rw [List.take_nil]
      exact ⟨[], Merges.short (Nat.zero_le 1), rfl⟩
  | [single] =>
      have one : wrap32 ([single].length : Nat) = 1 := by
        rw [List.length_singleton]
        exact wrap32_eq _ (by omega) (by omega)
      rw [one]
      refine ⟨[single], Merges.short le_rfl, ?_⟩
      cases known : vocabMap single <;> simp [known]
  | first :: second :: others => exact linked_merges vocabMap ranks _ _ (wrap32_le _)

end Whole

/-! Words of whole characters. -/

/-- The UTF-8 bytes of a text. -/
def utf8 (chars : List Char) : Bytes := chars.flatMap String.utf8EncodeChar

theorem utf8CharLen_leads : ∀ n < 256,
    utf8CharLen (UInt8.ofNat n &&& 0x1f ||| 0xc0) = 2 ∧
      utf8CharLen (UInt8.ofNat n &&& 0x0f ||| 0xe0) = 3 ∧
      utf8CharLen (UInt8.ofNat n &&& 0x07 ||| 0xf0) = 4 := by
  decide +kernel

theorem utf8CharLen_lead (byte : UInt8) :
    utf8CharLen (byte &&& 0x1f ||| 0xc0) = 2 ∧ utf8CharLen (byte &&& 0x0f ||| 0xe0) = 3 ∧
      utf8CharLen (byte &&& 0x07 ||| 0xf0) = 4 := by
  have table := utf8CharLen_leads byte.toNat byte.toNat_lt
  rwa [UInt8.ofNat_toNat] at table

/-- The first byte of a character tells how many there are. -/
theorem utf8EncodeChar_lead (c : Char) :
    ∃ lead tail, String.utf8EncodeChar c = lead :: tail ∧ utf8CharLen lead = tail.length + 1 := by
  rcases c.utf8Size_eq with one | two | three | four
  · refine ⟨_, _, String.utf8EncodeChar_eq_singleton one, ?_⟩
    have small := Char.utf8Size_eq_one_iff.mp one
    rw [utf8CharLen, if_pos]
    · rfl
    · rw [UInt32.le_iff_toNat_le] at small
      rw [UInt8.lt_iff_toNat_lt, UInt32.toNat_toUInt8]
      exact (Nat.mod_le _ _).trans_lt (Nat.lt_succ_of_le small)
  · exact ⟨_, _, String.utf8EncodeChar_eq_cons_cons two, (utf8CharLen_lead _).1⟩
  · exact ⟨_, _, String.utf8EncodeChar_eq_cons_cons_cons three, (utf8CharLen_lead _).2.1⟩
  · exact ⟨_, _, String.utf8EncodeChar_eq_cons_cons_cons_cons four, (utf8CharLen_lead _).2.2⟩

theorem splitSymbols_utf8 (chars : List Char) (fuel : Nat) (enough : chars.length ≤ fuel) :
    splitSymbols fuel (utf8 chars) = chars.map String.utf8EncodeChar := by
  induction chars generalizing fuel with
  | nil => cases fuel <;> rfl
  | cons c rest ih =>
      obtain ⟨lead, tail, bytes, size⟩ := utf8EncodeChar_lead c
      have whole : utf8 (c :: rest) = lead :: (tail ++ utf8 rest) := by
        rw [utf8, List.flatMap_cons, bytes]
        rfl
      cases fuel with
      | zero => cases enough
      | succ fuel =>
          have tailSplit := ih fuel (Nat.le_of_succ_le_succ enough)
          rw [whole, splitSymbols, size, List.take_succ_cons, List.drop_succ_cons,
            List.take_left, List.drop_left, tailSplit, List.map_cons, bytes]

theorem utf8_length (chars : List Char) : chars.length ≤ (utf8 chars).length := by
  induction chars with
  | nil => exact Nat.zero_le _
  | cons c rest ih =>
      obtain ⟨lead, tail, bytes, -⟩ := utf8EncodeChar_lead c
      rw [utf8, List.flatMap_cons, List.length_append, bytes, List.length_cons, List.length_cons]
      have later : (rest.flatMap String.utf8EncodeChar).length = (utf8 rest).length := rfl
      omega

/-- The ids of what the reference algorithm leaves, pieces without an id left out. -/
def MergesTo (ranks : MergeRanks) (vocabMap : Bytes → Option Int) (chars : List Char)
    (ids : List Int) : Prop :=
  ∃ final, Merges ranks.rank (· ++ ·) (chars.map String.utf8EncodeChar) final ∧
    ids = final.filterMap vocabMap

def noMerges : MergeRanks := ⟨fun _ _ => none, fun _ _ _ ranked => by cases ranked⟩

theorem noMerges_done (pieces : List Bytes) : Merges noMerges.rank (· ++ ·) pieces pieces :=
  Merges.done fun _ _ => rfl

/-- Without merges and with one id for everything `bpe` counts the symbols it got to. -/
theorem bpe_noMerges (chars : List Char) :
    bpe noMerges (fun _ => some 0) (utf8 chars) =
      some (List.replicate (min (wrap32 chars.length).toNat chars.length) 0) := by
  obtain ⟨final, merges, ran⟩ := bpe_merges (fun _ => some 0) noMerges (utf8 chars)
  rw [splitSymbols_utf8 chars _ (utf8_length chars), List.length_map] at merges
  rw [ran, merges.unique (noMerges_done _), List.filterMap_eq_map',  List.map_const',
    List.length_take, List.length_map]

theorem bpe_exact_iff (chars : List Char) :
    (∀ ranks vocabMap, ∃ ids, MergesTo ranks vocabMap chars ids ∧
      bpe ranks vocabMap (utf8 chars) = some ids) ↔ chars.length < 2 ^ 31 := by
  constructor
  · intro exact
    obtain ⟨ids, ⟨final, merges, rfl⟩, ran⟩ := exact noMerges fun _ => some 0
    rw [bpe_noMerges, merges.unique (noMerges_done _)] at ran
    have counted := congrArg List.length (Option.some.inj ran)
    rw [List.filterMap_eq_map', List.length_replicate, List.length_map, List.length_map] at counted
    have bound := wrap32_lt chars.length
    omega
  · intro short ranks vocabMap
    obtain ⟨final, merges, ran⟩ := bpe_merges vocabMap ranks (utf8 chars)
    have size : wrap32 chars.length = chars.length := wrap32_eq _ (by omega) (by omega)
    rw [splitSymbols_utf8 chars _ (utf8_length chars), List.length_map, size,
      Int.toNat_natCast, List.take_of_length_le (by rw [List.length_map])] at merges
    exact ⟨_, ⟨final, merges, rfl⟩, ran⟩

section Runs

variable (ranks : MergeRanks) (count : Nat)

/-- The states of the merge loop. -/
inductive Reaches (start : Symbols) : Symbols → Prop
  | start : Reaches start start
  | merge {symbols : Symbols} : Reaches start symbols → 0 ≤ (findBest ranks count symbols).2 →
      Reaches start (absorb symbols (findBest ranks count symbols).2.toNat)

variable {ranks} {count} {start symbols : Symbols} {live : List Nat}

theorem findBest_inside (found : 0 ≤ (findBest ranks count symbols).2) :
    ∃ i < count, ∃ r, (findBest ranks count symbols).2 = i ∧ Candidate ranks symbols i r := by
  rcases findBest_cases ranks symbols count with
    ⟨index, -⟩ | ⟨i, below, r, index, candidate, -⟩
  · omega
  · exact ⟨i, below, r, index, candidate⟩

theorem reaches_linked (first : Linked count start live)
    (reached : Reaches ranks count start symbols) :
    ∃ live, Linked count symbols live := by
  induction reached with
  | start => exact ⟨live, first⟩
  | merge _ found ih =>
      obtain ⟨live, linked⟩ := ih
      obtain ⟨i, below, r, index, candidate⟩ := findBest_inside found
      obtain ⟨j, next, -, -, -⟩ := candidate_link linked below candidate
      rw [index, Int.toNat_natCast]
      by_cases alive : i ∈ live
      · obtain ⟨before, after, -, onward, -⟩ :=
          absorb_live (Nat.zero_lt_of_lt below) linked below next alive
        exact ⟨_, onward⟩
      · exact ⟨live, (absorb_ghost linked below next alive).1⟩

/-- The chain of live symbols, which a merge at a symbol off it leaves as it is. -/
def GhostSafe (symbols : Symbols) (best : Nat) : Prop :=
  ∃ live, Chain (links symbols) 0 live ∧
    (best ∉ live → Chain (links (absorb symbols best)) 0 live ∧
      textsOf (absorb symbols best) live = textsOf symbols live)

theorem reaches_ghostSafe {size : Int} {texts : List Bytes}
    (reached : Reaches ranks size.toNat (linkSymbols size texts) symbols)
    (found : 0 ≤ (findBest ranks size.toNat symbols).2) :
    GhostSafe symbols (findBest ranks size.toNat symbols).2.toNat := by
  obtain ⟨i, below, r, index, candidate⟩ := findBest_inside found
  have first := linkSymbols_linked size texts (by omega)
  obtain ⟨live, linked⟩ := reaches_linked first reached
  obtain ⟨j, next, -, -, -⟩ := candidate_link linked below candidate
  rw [index, Int.toNat_natCast]
  refine ⟨live, linked.chain, fun ghost => ?_⟩
  have ⟨onward, same⟩ := absorb_ghost linked below next ghost
  exact ⟨onward.chain, same⟩

end Runs

/-- `bpe` is the reference for every table and vocabulary exactly on words of fewer than 2^31
characters; on every word its absorbed symbols leave the live chain alone. -/
theorem bpe_correct_iff (chars : List Char) :
    ((∀ ranks vocabMap, ∃ ids, MergesTo ranks vocabMap chars ids ∧
      bpe ranks vocabMap (utf8 chars) = some ids) ↔ chars.length < 2 ^ 31) ∧
    ∀ ranks symbols,
      Reaches ranks (wrap32 chars.length).toNat
        (linkSymbols (wrap32 chars.length) (chars.map String.utf8EncodeChar)) symbols →
      0 ≤ (findBest ranks (wrap32 chars.length).toNat symbols).2 →
      GhostSafe symbols (findBest ranks (wrap32 chars.length).toNat symbols).2.toNat :=
  ⟨bpe_exact_iff chars, fun _ _ reached found => reaches_ghostSafe reached found⟩

-- `b` goes into `a`, and absorbed it still goes on to take in `c`, which stays live.
example : bpe ⟨fun a b => if a = [97] ∧ b = [98] then some 0 else
      if a = [98] ∧ b = [99] then some 1 else none, by grind⟩
    (fun piece => if piece = [97, 98] then some 7 else if piece = [99] then some 8 else none)
    [97, 98, 99] = some [7, 8] := by decide

/-- With 2^31 characters the `int` size is negative and no symbol is looked at. -/
theorem negativeSize_empty :
    ¬ ∀ ranks vocabMap, ∃ ids,
      MergesTo ranks vocabMap (List.replicate (2 ^ 31) 'a') ids ∧
      bpe ranks vocabMap (utf8 (List.replicate (2 ^ 31) 'a')) = some ids := by
  rw [bpe_exact_iff, List.length_replicate]
  exact lt_irrefl _

end BPETokenizer

end MiniLLM
