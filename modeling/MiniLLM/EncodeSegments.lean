import MiniLLM.BpeMerging
import MiniLLM.PreTokenize
import MiniLLM.Segmentation

/-!
`encode` against cutting the text at its added tokens. The search keeps the first
token with the earliest occurrence; since the tokens are sorted by length, that
is the longest one. Tokens are not empty, so the search ends.
-/

namespace MiniLLM

open ByteReader Segmentation

namespace BPETokenizer

section Search

variable {text token : Bytes} {pos : Nat}

theorem find_some {i : Nat} (found : find text token pos = some i) :
    pos ≤ i ∧ token <+: text.drop i ∧ ∀ k, pos ≤ k → k < i → ¬ token <+: text.drop k := by
  rw [find, List.find?_range'_eq_some] at found
  obtain ⟨here, inside, earlier⟩ := found
  refine ⟨(List.mem_range'_1.mp inside).1, List.isPrefixOf_iff_prefix.mp here, fun k low high => ?_⟩
  have other := earlier k low high
  rw [Bool.not_eq_true', ← Bool.not_eq_true] at other
  exact fun starts => other (List.isPrefixOf_iff_prefix.mpr starts)

theorem find_none (nonempty : token ≠ []) (missing : find text token pos = none) (i : Nat)
    (after : pos ≤ i) : ¬ token <+: text.drop i := by
  intro starts
  rw [find, List.find?_range'_eq_none] at missing
  have within : i < pos + (text.length + 1 - pos) := by
    by_contra beyond
    rw [List.drop_of_length_le (by omega), List.prefix_nil] at starts
    exact nonempty starts
  have absent := missing i after within
  rw [List.isPrefixOf_iff_prefix.mpr starts] at absent
  cases absent

end Search

/-- Of the tokens searched so far the first with the earliest occurrence. -/
def Chosen (tokens : List (Bytes × Int)) (text : Bytes) (pos : Nat) (best : Match) : Prop :=
  match best.earliest with
  | none => ∀ entry ∈ tokens, find text entry.1 pos = none
  | some e => ∃ entry ∈ tokens, find text entry.1 pos = some e ∧ best.matchedId = entry.2 ∧
      best.matchedLen = entry.1.length ∧
      (∀ other ∈ tokens, ∀ f, find text other.1 pos = some f → e ≤ f) ∧
      ∀ other ∈ tokens, find text other.1 pos = some e → other.1.length ≤ entry.1.length

theorem Chosen.of_none {tokens : List (Bytes × Int)} {text : Bytes} {pos : Nat} {best : Match}
    (nothing : best.earliest = none) : Chosen tokens text pos best ↔
      ∀ entry ∈ tokens, find text entry.1 pos = none := by
  rw [Chosen, nothing]

theorem Chosen.of_some {tokens : List (Bytes × Int)} {text : Bytes} {pos e : Nat} {best : Match}
    (place : best.earliest = some e) : Chosen tokens text pos best ↔
      ∃ entry ∈ tokens, find text entry.1 pos = some e ∧ best.matchedId = entry.2 ∧
        best.matchedLen = entry.1.length ∧
        (∀ other ∈ tokens, ∀ f, find text other.1 pos = some f → e ≤ f) ∧
        ∀ other ∈ tokens, find text other.1 pos = some e → other.1.length ≤ entry.1.length := by
  rw [Chosen, place]

section Choice

variable {tokens : List (Bytes × Int)} {text : Bytes} {pos : Nat} {best : Match}
  {entry : Bytes × Int}

/-- A token that is not found, or no earlier than the choice and no longer. -/
theorem Chosen.keep (chosen : Chosen tokens text pos best)
    (late : foundBefore (find text entry.1 pos) best.earliest = false)
    (shorter : ∀ other ∈ tokens, entry.1.length ≤ other.1.length) :
    Chosen (tokens ++ [entry]) text pos best := by
  cases place : best.earliest with
  | none =>
      rw [Chosen.of_none place] at chosen ⊢
      refine List.forall_mem_append.mpr ⟨chosen, List.forall_mem_singleton.mpr ?_⟩
      cases found : find text entry.1 pos with
      | none => rfl
      | some f =>
          rw [place, found] at late
          cases late
  | some e =>
      rw [Chosen.of_some place] at chosen ⊢
      obtain ⟨kept, listed, here, id, len, first, longest⟩ := chosen
      have behind : ∀ f, find text entry.1 pos = some f → e ≤ f := by
        intro f found
        rw [place, found] at late
        exact not_lt.mp (of_decide_eq_false late)
      exact ⟨kept, List.mem_append_left _ listed, here, id, len,
        List.forall_mem_append.mpr ⟨first, List.forall_mem_singleton.mpr behind⟩,
        List.forall_mem_append.mpr
          ⟨longest, List.forall_mem_singleton.mpr fun _ => shorter kept listed⟩⟩

/-- A token that is found before every other so far. -/
theorem Chosen.replace (chosen : Chosen tokens text pos best)
    (early : foundBefore (find text entry.1 pos) best.earliest = true) :
    Chosen (tokens ++ [entry]) text pos ⟨find text entry.1 pos, entry.2, entry.1.length⟩ := by
  cases found : find text entry.1 pos with
  | none =>
      rw [found] at early
      cases early
  | some f =>
      have ahead : ∀ other ∈ tokens, ∀ g, find text other.1 pos = some g → f < g := by
        intro other listed g there
        cases place : best.earliest with
        | none =>
            rw [Chosen.of_none place] at chosen
            rw [chosen other listed] at there
            cases there
        | some e =>
            obtain ⟨-, -, -, -, -, first, -⟩ := (Chosen.of_some place).mp chosen
            rw [found, place] at early
            exact (of_decide_eq_true early).trans_le (first other listed g there)
      refine (Chosen.of_some rfl).mpr ⟨entry, by simp, found, rfl, rfl, ?_, ?_⟩
      · refine List.forall_mem_append.mpr ⟨fun other listed g there =>
          (ahead other listed g there).le, List.forall_mem_singleton.mpr fun g there => ?_⟩
        exact (Option.some.inj (found.symm.trans there)).le
      · refine List.forall_mem_append.mpr ⟨fun other listed there => ?_,
          List.forall_mem_singleton.mpr fun _ => le_rfl⟩
        exact absurd (ahead other listed f there) (lt_irrefl f)

end Choice

theorem findAdded_chosen (tokens : List (Bytes × Int)) (text : Bytes) (pos : Nat)
    (descending : tokens.Pairwise fun a b => b.1.length ≤ a.1.length) :
    Chosen tokens text pos (findAdded tokens text pos) := by
  induction tokens using List.reverseRecOn with
  | nil => exact fun entry none => by cases none
  | append_singleton tokens entry ih =>
      have ⟨before, _, shorter⟩ := List.pairwise_append.mp descending
      have chosen := ih before
      rw [findAdded, List.foldl_append]
      change Chosen _ _ _ (if foundBefore _ (findAdded tokens text pos).earliest then _ else _)
      cases order : foundBefore (find text entry.1 pos) (findAdded tokens text pos).earliest with
      | true =>
          rw [if_pos rfl]
          exact chosen.replace order
      | false =>
          rw [if_neg Bool.false_ne_true]
          exact chosen.keep order fun other listed =>
            shorter other listed entry (List.mem_singleton_self entry)

variable (host : Host) (tokenizer : BPETokenizer)

/-- No token is left, or the search has found the one that cuts the rest of the text. -/
theorem findAdded_none {text : Bytes} {pos : Nat}
    (nothing : (findAdded tokenizer.addedTokens text pos).earliest = none) :
    ∀ marker ∈ tokenizer.addedTokens, ∀ i, ¬ marker.1 <+: (text.drop pos).drop i := by
  have chosen := findAdded_chosen tokenizer.addedTokens text pos tokenizer.descending
  rw [Chosen.of_none nothing] at chosen
  intro marker listed i
  rw [List.drop_drop]
  exact find_none (tokenizer.nonempty marker listed) (chosen marker listed) _ (Nat.le_add_right _ _)

theorem findAdded_some {text : Bytes} {pos e : Nat}
    (place : (findAdded tokenizer.addedTokens text pos).earliest = some e) :
    ∃ marker, FirstLongest tokenizer.addedTokens (text.drop pos) (e - pos) marker ∧
      (findAdded tokenizer.addedTokens text pos).matchedId = marker.2 ∧
      (findAdded tokenizer.addedTokens text pos).matchedLen = marker.1.length ∧ pos ≤ e ∧
      0 < marker.1.length ∧ e + marker.1.length ≤ text.length := by
  have chosen := findAdded_chosen tokenizer.addedTokens text pos tokenizer.descending
  obtain ⟨marker, listed, found, id, len, first, longest⟩ := (Chosen.of_some place).mp chosen
  have ⟨after, here, _⟩ := find_some found
  have positive := List.length_pos_iff.mpr (tokenizer.nonempty marker listed)
  have inside := here.length_le
  rw [List.length_drop] at inside
  -- a token that begins somewhere is found there or before
  have seen : ∀ other ∈ tokenizer.addedTokens, ∀ k, pos ≤ k → other.1 <+: text.drop k →
      ∃ f, find text other.1 pos = some f ∧ e ≤ f ∧ f ≤ k := by
    intro other member k low starts
    cases there : find text other.1 pos with
    | none => exact absurd starts (find_none (tokenizer.nonempty other member) there k low)
    | some f =>
        refine ⟨f, rfl, first other member f there, ?_⟩
        by_contra later
        exact (find_some there).2.2 k low (not_le.mp later) starts
  refine ⟨marker, ⟨listed, ?_, ?_, ?_⟩, id, len, after, positive, by omega⟩
  · rwa [List.drop_drop, Nat.add_sub_cancel' after]
  · intro other member i below starts
    rw [List.drop_drop] at starts
    obtain ⟨f, -, low, high⟩ := seen other member (pos + i) (Nat.le_add_right _ _) starts
    omega
  · intro other member starts
    rw [List.drop_drop, Nat.add_sub_cancel' after] at starts
    obtain ⟨f, there, low, high⟩ := seen other member e after starts
    exact longest other member (by rw [there, le_antisymm high low])

/-- A segment's ids: the token's own, or those of the pieces of what lies in between. -/
def segmentIds : Segment UInt8 Int → Option (List Int)
  | .plain symbols => encodePlain host tokenizer symbols
  | .marked _ id => some [id]

theorem mapM_total {A B : Type} {f : A → Option B} (total : ∀ a, ∃ b, f a = some b)
    (items : List A) : ∃ results, items.mapM f = some results := by
  induction items with
  | nil => exact ⟨[], rfl⟩
  | cons first rest ih =>
      obtain ⟨head, one⟩ := total first
      obtain ⟨tail, more⟩ := ih
      exact ⟨head :: tail, by rw [List.mapM_cons, one, more]; rfl⟩

theorem encodePlain_total (segment : Bytes) :
    ∃ ids, encodePlain host tokenizer segment = some ids := by
  have pieces : ∀ piece, ∃ ids,
      bpe tokenizer.bpeRanks tokenizer.vocabMap (bytesToUnicode piece) = some ids := by
    intro piece
    obtain ⟨final, -, ran⟩ := bpe_merges tokenizer.vocabMap tokenizer.bpeRanks
      (bytesToUnicode piece)
    exact ⟨_, ran⟩
  obtain ⟨ids, ran⟩ := mapM_total pieces (preTokenize host segment)
  exact ⟨ids.flatten, by rw [encodePlain, ran]; rfl⟩

/-- What lies before a token is tokenised if there is anything. -/
theorem between_ids (symbols : Bytes) :
    ∃ ids, (Segment.between symbols).mapM (segmentIds host tokenizer) = some ids ∧
      (symbols = [] → ids.flatten = []) ∧
      (symbols ≠ [] → encodePlain host tokenizer symbols = some ids.flatten) := by
  cases symbols with
  | nil => exact ⟨[], rfl, fun _ => rfl, fun nonempty => absurd rfl nonempty⟩
  | cons first rest =>
      obtain ⟨ids, ran⟩ := encodePlain_total host tokenizer (first :: rest)
      refine ⟨[ids], ?_, fun empty => absurd empty (List.cons_ne_nil _ _), fun _ => ?_⟩
      · rw [Segment.between, List.mapM_cons, segmentIds, ran]
        rfl
      · rw [ran, List.flatten_singleton]

theorem segments_ids {before : List (Segment UInt8 Int)} {ids : List (List Int)}
    (head : before.mapM (segmentIds host tokenizer) = some ids) (marker : Bytes × Int)
    {segments : List (Segment UInt8 Int)} {more : List (List Int)}
    (tail : segments.mapM (segmentIds host tokenizer) = some more) :
    (before ++ .marked marker.1 marker.2 :: segments).mapM (segmentIds host tokenizer) =
      some (ids ++ [marker.2] :: more) := by
  rw [List.mapM_append, head, List.mapM_cons, segmentIds, tail]
  rfl

theorem encodeFrom_segments (text : Bytes) (fuel pos : Nat) (tokens : List Int)
    (inside : pos ≤ text.length) (enough : text.length - pos < fuel) :
    ∃ segments ids, Segmented tokenizer.addedTokens (text.drop pos) segments ∧
      segments.mapM (segmentIds host tokenizer) = some ids ∧
      encodeFrom host tokenizer text fuel pos tokens = some (tokens ++ ids.flatten) := by
  induction fuel generalizing pos tokens with
  | zero => exact absurd enough (Nat.not_lt_zero _)
  | succ fuel ih =>
      rw [encodeFrom]
      by_cases more : pos < text.length
      · rw [if_pos more]
        cases place : (findAdded tokenizer.addedTokens text pos).earliest with
        | none =>
            have rest : text.drop pos ≠ [] := by
              rw [ne_eq, List.drop_eq_nil_iff]
              omega
            obtain ⟨ids, ran, -, plain⟩ := between_ids host tokenizer (text.drop pos)
            refine ⟨_, ids, Segmented.rest (findAdded_none tokenizer place), ran, ?_⟩
            simp only [place, plain rest, Option.map_some]
        | some e =>
            obtain ⟨marker, first, id, len, after, positive, fits⟩ :=
              findAdded_some tokenizer place
            obtain ⟨ids, ran, empty, plain⟩ :=
              between_ids host tokenizer ((text.drop pos).take (e - pos))
            have onward : pos + (e - pos + marker.1.length) = e + marker.1.length := by omega
            simp only [place, id, len]
            split
            · rename_i gap
              have some : (text.drop pos).take (e - pos) ≠ [] := by
                rw [ne_eq, List.take_eq_nil_iff, List.drop_eq_nil_iff]
                omega
              rw [plain some, Option.bind_some]
              obtain ⟨segments, others, later, ranLater, whole⟩ :=
                ih (e + marker.1.length) (tokens ++ ids.flatten ++ [marker.2]) fits (by omega)
              refine ⟨_, _, Segmented.marker first (by rwa [List.drop_drop, onward]),
                segments_ids host tokenizer ran marker ranLater, ?_⟩
              rw [whole, List.flatten_append, List.flatten_cons, List.append_assoc,
                List.append_assoc]
            · rename_i adjacent
              have none : (text.drop pos).take (e - pos) = [] := by
                rw [List.take_eq_nil_iff]
                omega
              obtain ⟨segments, others, later, ranLater, whole⟩ :=
                ih (e + marker.1.length) (tokens ++ [marker.2]) fits (by omega)
              refine ⟨_, _, Segmented.marker first (by rwa [List.drop_drop, onward]),
                segments_ids host tokenizer ran marker ranLater, ?_⟩
              rw [whole, List.flatten_append, List.flatten_cons, empty none, List.nil_append,
                List.append_assoc]
      · rw [if_neg more]
        have ended : text.drop pos = [] := List.drop_of_length_le (by omega)
        have unmarked : ∀ marker ∈ tokenizer.addedTokens, ∀ i,
            ¬ marker.1 <+: ([] : Bytes).drop i := by
          intro marker listed i starts
          rw [List.drop_nil, List.prefix_nil] at starts
          exact tokenizer.nonempty marker listed starts
        refine ⟨[], [], ?_, rfl, by rw [List.flatten_nil, List.append_nil]⟩
        rw [ended]
        exact Segmented.rest unmarked

/-- `encode` is the one cut of the text at its added tokens, each stretch tokenised; no loop is
cut short by its fuel. -/
theorem encode_segmentation (text : Bytes) (addBos addEos : Bool) :
    (∀ segment fuel, segment.length ≤ fuel →
      piecesFrom host ⟨segment, host.beyond segment⟩ fuel 0 = preTokenize host segment) ∧
    ∃ segments ids, Segmented tokenizer.addedTokens text segments ∧
      (∀ others, Segmented tokenizer.addedTokens text others → others = segments) ∧
      segments.flatMap Segment.symbols = text ∧
      segments.mapM (segmentIds host tokenizer) = some ids ∧
      encode host tokenizer text addBos addEos =
        some ((if addBos ∧ 0 ≤ tokenizer.bosId then [tokenizer.bosId] else []) ++ ids.flatten ++
          if addEos ∧ 0 ≤ tokenizer.eosId then [tokenizer.eosId] else []) := by
  obtain ⟨segments, ids, segmented, emitted, ran⟩ := encodeFrom_segments host tokenizer text
    (text.length + 1) 0 (if addBos ∧ 0 ≤ tokenizer.bosId then [tokenizer.bosId] else [])
    (Nat.zero_le _) (by omega)
  rw [List.drop_zero] at segmented
  refine ⟨preTokenize_fuel host, segments, ids, segmented,
    fun others cut => cut.unique tokenizer.distinct segmented, segmented.whole, emitted, ?_⟩
  rw [encode, ran, Option.map_some]
  split
  · rfl
  · rw [List.append_nil]

end BPETokenizer

end MiniLLM
