import Mathlib.Data.List.Nodup

/-!
Cutting a text at markers: again and again the earliest place where one begins,
and of those that begin there the longest. The cut is determined when each
marker is listed once, and its segments are the whole text in order.
-/

namespace MiniLLM.Segmentation

variable {Symbol Id : Type}

inductive Segment (Symbol Id : Type) where
  | plain (symbols : List Symbol)
  | marked (symbols : List Symbol) (id : Id)

namespace Segment

def symbols : Segment Symbol Id → List Symbol
  | .plain symbols => symbols
  | .marked symbols _ => symbols

/-- What lies between two markers, if anything does. -/
def between : List Symbol → List (Segment Symbol Id)
  | [] => []
  | first :: rest => [.plain (first :: rest)]

theorem between_symbols (text : List Symbol) :
    (between text : List (Segment Symbol Id)).flatMap symbols = text := by
  cases text with
  | nil => rfl
  | cons first rest => exact List.append_nil _

end Segment

open Segment

variable (markers : List (List Symbol × Id))

structure FirstLongest (text : List Symbol) (place : Nat) (marker : List Symbol × Id) : Prop where
  listed : marker ∈ markers
  here : marker.1 <+: text.drop place
  earliest : ∀ other ∈ markers, ∀ i < place, ¬ other.1 <+: text.drop i
  longest : ∀ other ∈ markers, other.1 <+: text.drop place → other.1.length ≤ marker.1.length

inductive Segmented : List Symbol → List (Segment Symbol Id) → Prop
  | rest {text : List Symbol} :
      (∀ marker ∈ markers, ∀ i, ¬ marker.1 <+: text.drop i) → Segmented text (between text)
  | marker {text : List Symbol} {place : Nat} {marker : List Symbol × Id}
      {segments : List (Segment Symbol Id)} :
      FirstLongest markers text place marker →
      Segmented (text.drop (place + marker.1.length)) segments →
      Segmented text (between (text.take place) ++ .marked marker.1 marker.2 :: segments)

variable {markers}

/-- Every symbol of the text is in exactly one segment, in its place. -/
theorem Segmented.whole {text : List Symbol} {segments : List (Segment Symbol Id)}
    (segmented : Segmented markers text segments) : segments.flatMap symbols = text := by
  induction segmented with
  | rest none => exact between_symbols _
  | @marker text place marker segments first later ih =>
      have head : marker.1 ++ text.drop (place + marker.1.length) = text.drop place := by
        rw [← List.drop_drop]
        exact (List.prefix_iff_eq_append.mp first.here)
      rw [List.flatMap_append, between_symbols, List.flatMap_cons, ih, symbols, head,
        List.take_append_drop]

theorem FirstLongest.unique (distinct : (markers.map Prod.fst).Nodup) {text : List Symbol}
    {place other : Nat} {marker rival : List Symbol × Id}
    (one : FirstLongest markers text place marker) (two : FirstLongest markers text other rival) :
    place = other ∧ marker = rival := by
  have same : place = other := by
    rcases Nat.lt_trichotomy place other with before | same | after
    · exact absurd one.here (two.earliest marker one.listed place before)
    · exact same
    · exact absurd two.here (one.earliest rival two.listed other after)
  subst same
  refine ⟨rfl, List.inj_on_of_nodup_map distinct one.listed two.listed ?_⟩
  have size : marker.1.length = rival.1.length :=
    Nat.le_antisymm (two.longest marker one.listed one.here) (one.longest rival two.listed two.here)
  exact (List.prefix_of_prefix_length_le one.here two.here (Nat.le_of_eq size)).eq_of_length size

theorem Segmented.inversion {text : List Symbol} {segments : List (Segment Symbol Id)}
    (segmented : Segmented markers text segments) :
    ((∀ marker ∈ markers, ∀ i, ¬ marker.1 <+: text.drop i) ∧ segments = between text) ∨
    ∃ place marker rest, FirstLongest markers text place marker ∧
      Segmented markers (text.drop (place + marker.1.length)) rest ∧
      segments = between (text.take place) ++ .marked marker.1 marker.2 :: rest := by
  cases segmented with
  | rest none => exact Or.inl ⟨none, rfl⟩
  | marker first later => exact Or.inr ⟨_, _, _, first, later, rfl⟩

theorem Segmented.unique (distinct : (markers.map Prod.fst).Nodup) {text : List Symbol}
    {one two : List (Segment Symbol Id)} (first : Segmented markers text one)
    (second : Segmented markers text two) : one = two := by
  induction first generalizing two with
  | rest none =>
      rcases second.inversion with ⟨-, same⟩ | ⟨place, marker, rest, found, -, -⟩
      · exact same.symm
      · exact absurd found.here (none marker found.listed place)
  | marker found _ ih =>
      rcases second.inversion with ⟨none, -⟩ | ⟨place, rival, rest, other, later, rfl⟩
      · exact absurd found.here (none _ found.listed _)
      · obtain ⟨rfl, rfl⟩ := found.unique distinct other
        rw [ih later]

end MiniLLM.Segmentation
