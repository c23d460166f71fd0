import MiniLLM.BPETokenizer

/-!
The loops of `pre_tokenize` come to an end. A character is at least one byte, so
every pass moves forward and the bytes left bound the passes.
-/

namespace MiniLLM

namespace BPETokenizer

/-! The bytes of a text as the scanner sees them. -/

section Bytes

variable {text : Bytes} {beyond : Nat → UInt8} {p : Nat}

theorem lt_of_drop {c : UInt8} {rest : Bytes} (here : text.drop p = c :: rest) :
    p < text.length := by
  have size := congrArg List.length here
  rw [List.length_drop, List.length_cons] at size
  omega

theorem byteAt_drop {c : UInt8} {rest : Bytes} (here : text.drop p = c :: rest) :
    TextView.byteAt ⟨text, beyond⟩ p = c := by
  have found : text[p]? = some c := by
    rw [← Nat.add_zero p, ← List.getElem?_drop, here]
    rfl
  rw [TextView.byteAt, TextView.size, if_pos (lt_of_drop here), List.getD_eq_getElem?_getD, found]
  rfl

theorem drop_cons {c : UInt8} {rest : Bytes} (here : text.drop p = c :: rest) :
    text.drop (p + 1) = rest := by
  rw [← List.drop_drop, here]
  rfl

theorem span_drop (count : Nat) (inside : p + count ≤ text.length) :
    TextView.span ⟨text, beyond⟩ p (p + count) = (text.drop p).take count := by
  rw [TextView.span, Nat.add_sub_cancel_left]
  induction count generalizing p with
  | zero => rfl
  | succ count ih =>
      cases here : text.drop p with
      | nil =>
          rw [List.drop_eq_nil_iff] at here
          omega
      | cons c rest =>
          rw [List.range'_succ, List.map_cons, ih (by omega), byteAt_drop here, drop_cons here]
          rfl

end Bytes

/-! Tests of characters. -/

theorem newline_space {cp : UInt32} (line : unicodeIsNewline cp = true) :
    unicodeIsSpace cp = true := by
  simp only [unicodeIsNewline, unicodeIsSpace, Bool.or_eq_true] at line ⊢
  tauto

/-- The two spellings of the test for symbols. -/
theorem symbol_eq (host : Host) (cp : UInt32) :
    (!unicodeIsSpace cp && !unicodeIsNewline cp && !host.isdigit cp && !host.isalpha cp) =
      isOther host cp := by
  rw [isOther, Bool.and_right_comm]
  cases line : unicodeIsNewline cp with
  | true => simp [newline_space line]
  | false => simp

theorem spaced_eq (host : Host) (cp : UInt32) :
    (!unicodeIsSpace cp && !unicodeIsNewline cp && !host.isalpha cp && !host.isdigit cp) =
      isOther host cp := by
  rw [← symbol_eq, Bool.and_right_comm]

section Progress

variable (host : Host) (view : TextView)

theorem utf8Decode_len (p : Nat) : 0 < (view.utf8Decode p).2 := by
  rw [TextView.utf8Decode]
  split
  · exact Nat.one_pos
  · split
    · exact Nat.two_pos
    · split <;> exact Nat.zero_lt_succ _

/-- With as much fuel as bytes are left the fuel makes no difference. -/
theorem skip_fuel (more : UInt32 → Bool) (fuel other p : Nat) (enough : view.size - p ≤ fuel)
    (also : view.size - p ≤ other) : skip view more fuel p = skip view more other p := by
  induction fuel generalizing other p with
  | zero =>
      cases other with
      | zero => rfl
      | succ other => rw [skip, skip, if_neg (by omega)]
  | succ fuel ih =>
      cases other with
      | zero => rw [skip, skip, if_neg (by omega)]
      | succ other =>
          have len := utf8Decode_len view p
          rw [skip, skip]
          split
          · exact ih other _ (by omega) (by omega)
          · rfl

/-- The source's own loop. -/
theorem skipAll_eq (more : UInt32 → Bool) (p : Nat) :
    skipAll view more p =
      if p < view.size ∧ more (view.utf8Decode p).1 = true then
        skipAll view more (p + (view.utf8Decode p).2)
      else p := by
  have len := utf8Decode_len view p
  rw [skipAll, skip_fuel view more _ (view.size - p + 1) p le_rfl (Nat.le_succ _), skip, skipAll]
  split
  · exact skip_fuel view more _ _ _ (by omega) le_rfl
  · rfl

theorem skip_le (more : UInt32 → Bool) (fuel p : Nat) : p ≤ skip view more fuel p := by
  induction fuel generalizing p with
  | zero => exact Nat.le_refl p
  | succ fuel ih =>
      rw [skip]
      split
      · exact (Nat.le_add_right _ _).trans (ih _)
      · exact Nat.le_refl p

theorem skip_lt (more : UInt32 → Bool) (fuel : Nat) {p : Nat} (inside : p < view.size)
    (first : more (view.utf8Decode p).1 = true) : p < skip view more (fuel + 1) p := by
  have len := utf8Decode_len view p
  rw [skip, if_pos ⟨inside, first⟩]
  exact (Nat.lt_add_of_pos_right len).trans_le (skip_le view more _ _)

theorem skipAll_lt (more : UInt32 → Bool) {p : Nat} (inside : p < view.size)
    (first : more (view.utf8Decode p).1 = true) : p < skipAll view more p := by
  have len := utf8Decode_len view p
  rw [skipAll_eq, if_pos ⟨inside, first⟩]
  exact (Nat.lt_add_of_pos_right len).trans_le (skip_le view more _ _)

/-- A loop stops at the end or at a character that does not pass. -/
theorem skipAll_stops (more : UInt32 → Bool) (p : Nat)
    (inside : skipAll view more p < view.size) :
    more (view.utf8Decode (skipAll view more p)).1 = false := by
  have len := utf8Decode_len view p
  rw [skipAll_eq] at inside ⊢
  split
  · rename_i passes
    rw [if_pos passes] at inside
    exact skipAll_stops more _ inside
  · rename_i ended
    rw [if_neg ended] at inside
    exact Bool.eq_false_of_not_eq_true fun passes => ended ⟨inside, passes⟩
termination_by view.size - p

/-- Every pass of the loop moves forward. -/
theorem pieceEnd_lt {p : Nat} (inside : p < view.size) : p < pieceEnd host view p := by
  have len := utf8Decode_len view p
  have onward : ∀ more from', p < from' → p < skipAll view more from' :=
    fun more from' later => later.trans_le (skip_le view more _ from')
  rw [pieceEnd]
  dsimp only
  split
  · omega
  · split
    · exact onward _ _ (Nat.lt_add_of_pos_right len)
    · split
      · exact onward _ _ (Nat.lt_add_of_pos_right len)
      · split
        · rename_i digit
          exact skip_lt view host.isdigit 2 inside digit
        · split
          · rename_i other
            apply onward
            apply skipAll_lt view _ inside
            simp only [isOther, Bool.and_eq_true] at other ⊢
            exact ⟨⟨other.1.1.1, other.2⟩, other.1.2⟩
          · split
            · exact onward _ _ (onward _ _ (Nat.lt_succ_self p))
            · split
              · split
                · rename_i line
                  exact (skip_le view _ _ p).trans_lt (skipAll_lt view _ line.1 line.2)
                · exact inside
              · exact Nat.lt_add_of_pos_right len

/-- More passes than bytes are left are never made. -/
theorem piecesFrom_fuel (fuel other p : Nat) (enough : view.size - p ≤ fuel)
    (also : view.size - p ≤ other) :
    piecesFrom host view fuel p = piecesFrom host view other p := by
  induction fuel generalizing other p with
  | zero =>
      cases other with
      | zero => rfl
      | succ other => rw [piecesFrom, piecesFrom, if_neg (by omega)]
  | succ fuel ih =>
      cases other with
      | zero => rw [piecesFrom, piecesFrom, if_neg (by omega)]
      | succ other =>
          rw [piecesFrom, piecesFrom]
          split
          · rename_i inside
            have later := pieceEnd_lt host view inside
            rw [ih other _ (by omega) (by omega)]
          · rfl

/-- The outer loop of the source, one piece each time. -/
theorem piecesFrom_eq {p : Nat} (inside : p < view.size) :
    piecesFrom host view (view.size - p) p =
      view.span p (pieceEnd host view p) ::
        piecesFrom host view (view.size - pieceEnd host view p) (pieceEnd host view p) := by
  have later := pieceEnd_lt host view inside
  rw [piecesFrom_fuel host view _ (view.size - p + 1) p le_rfl (Nat.le_succ _), piecesFrom,
    if_pos inside, emit, if_pos later, List.singleton_append,
    piecesFrom_fuel host view (view.size - p) (view.size - pieceEnd host view p) _ (by omega)
      le_rfl]

theorem preTokenize_fuel (segment : Bytes) (fuel : Nat) (enough : segment.length ≤ fuel) :
    piecesFrom host ⟨segment, host.beyond segment⟩ fuel 0 = preTokenize host segment :=
  piecesFrom_fuel host _ _ _ 0 enough le_rfl

end Progress

end BPETokenizer

end MiniLLM
