import MiniLLM.ScannerTouches

/-!
The scanner stays within the text, and its pieces are the text, where every
character that it comes to ends within the text. The length of a character is what
its first byte claims, so a text that breaks off within a character is read and
copied beyond its end.
-/

namespace MiniLLM

open ByteReader Recording

namespace BPETokenizer

/-- No byte at or beyond the end is read or copied. -/
def WithinText (text : Bytes) : Watched.Event → Prop
  | .byte place => place < text.length
  | _ => True

/-- The characters that the scanner comes to end within the text. -/
def CharactersFit (host : Host) (text : Bytes) : Prop :=
  ∀ spot, Comes host ⟨text, host.beyond text⟩ spot → spot.place < text.length →
    spot.place + (TextView.utf8Decode ⟨text, host.beyond text⟩ spot.place).2 ≤ text.length

section Bounds

variable {host : Host} {text : Bytes} {beyond : Nat → UInt8}

theorem telling_withinText : Watched.Telling ⟨text, beyond⟩ (WithinText text) where
  inside _ below := below
  ascii _ _ _ := trivial
  same _ := Iff.rfl

theorem decodes_withinText {p : Nat} :
    Watched.Decodes ⟨text, beyond⟩ (WithinText text) p ↔
      p + (TextView.utf8Decode ⟨text, beyond⟩ p).2 ≤ text.length := by
  have len := utf8Decode_len ⟨text, beyond⟩ p
  constructor
  · intro decodes
    have last : p + ((TextView.utf8Decode ⟨text, beyond⟩ p).2 - 1) < text.length :=
      decodes _ (by omega)
    omega
  · intro fits k short
    exact show p + k < text.length by omega

theorem fresh_withinText :
    Watched.Fresh host ⟨text, host.beyond text⟩ (WithinText text) 0 ↔ CharactersFit host text := by
  refine forall_congr' fun spot => imp_congr_right fun _ => imp_congr_right fun _ => ?_
  rw [decodes_withinText]
  exact and_iff_left fun _ => trivial

/-- Pieces that are copied within the text are the rest of it. -/
theorem piecesFrom_flatten (p : Nat)
    (fresh : Watched.Fresh host ⟨text, beyond⟩ (WithinText text) p) :
    (piecesFrom host ⟨text, beyond⟩ (text.length - p) p).flatten = text.drop p := by
  by_cases more : p < text.length
  · have later := @pieceEnd_lt host ⟨text, beyond⟩ p more
    have ⟨copied, onward⟩ := telling_withinText.onward_pieceEnd more fresh
    have fits : pieceEnd host ⟨text, beyond⟩ p ≤ text.length := by
      have last : pieceEnd host ⟨text, beyond⟩ p - 1 < text.length := copied _ (by omega)
      omega
    have whole := @span_drop text beyond p (pieceEnd host ⟨text, beyond⟩ p - p) (by omega)
    rw [Nat.add_sub_cancel' later.le] at whole
    have split := @piecesFrom_eq host ⟨text, beyond⟩ p more
    rw [TextView.size] at split
    rw [split, List.flatten_cons, piecesFrom_flatten _ onward, whole,
      ← Nat.add_sub_cancel' later.le, ← List.drop_drop, Nat.add_sub_cancel_left,
      List.take_append_drop]
  · rw [Nat.sub_eq_zero_of_le (not_lt.mp more), List.drop_of_length_le (not_lt.mp more)]
    rfl
termination_by text.length - p

end Bounds

/-- `pre_tokenize` ends, stays within the text and loses nothing of it where characters fit. -/
theorem preTokenize_bounds_iff (host : Host) (text : Bytes) :
    ((∃ pieces, (Watched.preTokenize host text).result = some pieces ∧ pieces.flatten = text) ∧
      ∀ e ∈ (Watched.preTokenize host text).events, WithinText text e) ↔
      CharactersFit host text := by
  have yields := Watched.preTokenize_yields host text telling_withinText
  rw [yields.whole, fresh_withinText]
  constructor
  · exact fun both => both.2
  · intro fits
    refine ⟨⟨_, yields.result, ?_⟩, fits⟩
    exact piecesFrom_flatten 0 (fresh_withinText.mpr fits)

/-- The byte behind a lead byte that ends the text is read. -/
theorem truncated_read : ¬ ((∃ pieces, (Watched.preTokenize cLocale [0xC3]).result = some pieces ∧
      pieces.flatten = [0xC3]) ∧
    ∀ e ∈ (Watched.preTokenize cLocale [0xC3]).events, WithinText [0xC3] e) := by
  intro bounds
  have read : Watched.Event.byte 1 ∈ (Watched.preTokenize cLocale [0xC3]).events := by decide
  exact absurd (bounds.2 _ read) (Nat.lt_irrefl 1)

end BPETokenizer

end MiniLLM
