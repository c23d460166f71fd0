import MiniLLM.ScannerWalk

/-!
Each function of the scanner with exactly what it needs: a condition on its events,
and on the place behind it, is a condition on the walk. One pass of the loop takes
the walk from one piece to the next.
-/

namespace MiniLLM

open ByteReader Recording

namespace BPETokenizer

namespace Watched

/-! What each function touches. -/

section Touches

variable {host : Host} {view : TextView} {Meets : Event → Prop} {p : Nat} {after : Prop}

theorem byteAt_yields (p : Nat) (after : Prop) :
    Yields Meets (Meets (.byte p) ∧ after) (byteAt view p) (view.byteAt p) after :=
  (Yields.event _ _).bind (.pure _ _)

theorem utf8Decode_yields (p : Nat) (after : Prop) :
    Yields Meets (Decodes view Meets p ∧ after) (utf8Decode view p) (view.utf8Decode p) after := by
  rw [Decodes]
  by_cases one : (view.byteAt p).toUInt32 < 0x80
  · have run : Yields Meets (Meets (.byte p) ∧ after) (utf8Decode view p) (view.utf8Decode p)
        after := by
      refine (byteAt_yields p _).bind ?_
      rw [TextView.utf8Decode]
      simp only [if_pos one]
      exact .pure _ _
    refine run.congr ?_
    rw [TextView.utf8Decode]
    simp only [if_pos one]
    simp
  · by_cases two : (view.byteAt p).toUInt32 &&& 0xE0 = 0xC0
    · have run : Yields Meets (Meets (.byte p) ∧ Meets (.byte (p + 1)) ∧ after)
          (utf8Decode view p) (view.utf8Decode p) after := by
        refine (byteAt_yields p _).bind ?_
        rw [TextView.utf8Decode]
        simp only [if_neg one, if_pos two]
        exact (byteAt_yields (p + 1) _).bind (.pure _ _)
      refine run.congr ?_
      rw [TextView.utf8Decode]
      simp only [if_neg one, if_pos two, Nat.forall_lt_succ_right]
      simp [and_assoc]
    · by_cases three : (view.byteAt p).toUInt32 &&& 0xF0 = 0xE0
      · have run : Yields Meets
            (Meets (.byte p) ∧ Meets (.byte (p + 1)) ∧ Meets (.byte (p + 2)) ∧ after)
            (utf8Decode view p) (view.utf8Decode p) after := by
          refine (byteAt_yields p _).bind ?_
          rw [TextView.utf8Decode]
          simp only [if_neg one, if_neg two, if_pos three]
          refine (byteAt_yields (p + 1) _).bind ?_
          exact (byteAt_yields (p + 2) _).bind (.pure _ _)
        refine run.congr ?_
        rw [TextView.utf8Decode]
        simp only [if_neg one, if_neg two, if_pos three, Nat.forall_lt_succ_right]
        simp [and_assoc]
      · have run : Yields Meets (Meets (.byte p) ∧ Meets (.byte (p + 1)) ∧
            Meets (.byte (p + 2)) ∧ Meets (.byte (p + 3)) ∧ after)
            (utf8Decode view p) (view.utf8Decode p) after := by
          refine (byteAt_yields p _).bind ?_
          rw [TextView.utf8Decode]
          simp only [if_neg one, if_neg two, if_neg three]
          refine (byteAt_yields (p + 1) _).bind ?_
          refine (byteAt_yields (p + 2) _).bind ?_
          exact (byteAt_yields (p + 3) _).bind (.pure _ _)
        refine run.congr ?_
        rw [TextView.utf8Decode]
        simp only [if_neg one, if_neg two, if_neg three, Nat.forall_lt_succ_right]
        simp [and_assoc]

theorem unicodeIsLetter_yields (cp : UInt32) (after : Prop) :
    Yields Meets (Classifies Meets cp ∧ after) (unicodeIsLetter host cp) (host.isalpha cp) after :=
  (Yields.event _ _).bind (.pure _ _)

theorem Telling.digit_yields (telling : Telling view Meets) (cp : UInt32) (after : Prop) :
    Yields Meets (Classifies Meets cp ∧ after) (unicodeIsDigit host cp) (host.isdigit cp) after :=
  Yields.congr ((Yields.event _ _).bind (.pure _ _))
    (and_congr_left' (telling.same (wrap32 cp.toNat)).symm)

theorem Telling.other_yields (telling : Telling view Meets) (cp : UInt32) (after : Prop) :
    Yields Meets (Classifies Meets cp ∧ after) (isOther host cp) (BPETokenizer.isOther host cp)
      after := by
  rw [isOther, BPETokenizer.isOther]
  by_cases space : unicodeIsSpace cp = true
  · simp only [space, if_true, Bool.not_true, Bool.false_and]
    exact (Yields.pure _ _).congr (and_iff_right (telling.space space))
  · rw [Bool.not_eq_true] at space
    simp only [space, Bool.false_eq_true, if_false, Bool.not_false, Bool.true_and]
    cases letter : host.isalpha cp with
    | true =>
        refine (unicodeIsLetter_yields cp after).bind ?_
        simp only [letter, if_true]
        exact .pure _ _
    | false =>
        refine Yields.congr ((unicodeIsLetter_yields cp (Classifies Meets cp ∧ after)).bind ?_)
          and_self_left.symm
        simp only [letter, Bool.false_eq_true, if_false]
        exact (telling.digit_yields cp after).bind (.pure _ _)

/-- Only bytes of the text are read for a contraction. -/
theorem Telling.contraction_yields (telling : Telling view Meets) (p : Nat) (after : Prop) :
    Yields Meets after (matchContraction view p) (BPETokenizer.matchContraction view p) after := by
  have read : ∀ q, q < view.size → Yields Meets after (byteAt view q) (view.byteAt q) after :=
    fun q inside => (byteAt_yields q after).congr (and_iff_right (telling.inside q inside)).symm
  have ends : ∀ lower upper : UInt8, Yields Meets after
      (if p + 2 < view.size then do
        let third ← byteAt view (p + 2)
        return if third = lower ∨ third = upper then 3 else 0
      else return 0)
      (if p + 2 < view.size ∧ (view.byteAt (p + 2) = lower ∨ view.byteAt (p + 2) = upper) then 3
      else 0) after := by
    intro lower upper
    by_cases more : p + 2 < view.size
    · simp only [more, true_and]
      exact (read _ more).bind (.pure _ _)
    · rw [if_neg more, if_neg fun both => more both.1]
      exact .pure _ _
  rw [matchContraction, BPETokenizer.matchContraction]
  by_cases short : view.size ≤ p + 1
  · rw [if_pos short, if_pos short]
    exact .pure _ _
  · rw [if_neg short, if_neg short]
    refine (read _ (not_le.mp short)).bind ?_
    split
    · exact .pure _ _
    · split
      · exact ends 108 76
      · split
        · exact ends 101 69
        · split
          · exact ends 101 69
          · exact .pure _ _

/-- A loop touches what its places need, where each needs its character and the next place. -/
theorem skip_yields {more : UInt32 → Recorded Event Bool} {passes : UInt32 → Bool}
    {asks : UInt32 → Prop} {place : Nat → Prop}
    (test : ∀ cp after, Yields Meets (asks cp ∧ after) (more cp) (passes cp) after)
    (stops : ∀ p < view.size, place p →
      Decodes view Meets p ∧ asks (view.utf8Decode p).1)
    (goes : ∀ p < view.size, passes (view.utf8Decode p).1 = true → (place p ↔
      (Decodes view Meets p ∧ asks (view.utf8Decode p).1) ∧ place (p + (view.utf8Decode p).2)))
    {spent : Nat → Recorded Event Nat} (fuel p : Nat)
    (last : fuel ≤ view.size - p → ∀ q, spent q = Pure.pure q) :
    Yields Meets (place p) (skip view spent more fuel p) (BPETokenizer.skip view passes fuel p)
      (place (BPETokenizer.skip view passes fuel p)) := by
  induction fuel generalizing p with
  | zero =>
      rw [skip, BPETokenizer.skip, last (Nat.zero_le _)]
      exact .pure _ _
  | succ fuel ih =>
      have len := utf8Decode_len view p
      rw [skip, BPETokenizer.skip]
      by_cases inside : p < view.size
      · simp only [inside, true_and]
        cases passed : passes (view.utf8Decode p).1 with
        | true =>
            refine Yields.congr ?_ ((goes p inside passed).trans and_assoc)
            refine (utf8Decode_yields p _).bind ((test _ _).bind ?_)
            simp only [passed, if_true]
            exact ih _ fun spent' => last (by omega)
        | false =>
            -- The character that stops the loop is read, and the walk is still there.
            have same : place p ↔
                Decodes view Meets p ∧ asks (view.utf8Decode p).1 ∧ place p := by
              rw [← and_assoc]
              exact ⟨fun here => ⟨stops p inside here, here⟩, fun both => both.2⟩
            rw [if_neg Bool.false_ne_true]
            refine Yields.congr ?_ same
            refine (utf8Decode_yields p _).bind ((test _ _).bind ?_)
            simp only [passed, Bool.false_eq_true, if_false]
            exact .pure _ _
      · rw [if_neg inside, if_neg fun both => inside both.1]
        exact .pure _ _

theorem skipAll_yields {more : UInt32 → Recorded Event Bool} {passes : UInt32 → Bool}
    {asks : UInt32 → Prop} {place : Nat → Prop}
    (test : ∀ cp after, Yields Meets (asks cp ∧ after) (more cp) (passes cp) after)
    (stops : ∀ p < view.size, place p →
      Decodes view Meets p ∧ asks (view.utf8Decode p).1)
    (goes : ∀ p < view.size, passes (view.utf8Decode p).1 = true → (place p ↔
      (Decodes view Meets p ∧ asks (view.utf8Decode p).1) ∧ place (p + (view.utf8Decode p).2)))
    (p : Nat) :
    Yields Meets (place p) (skipAll view more p) (BPETokenizer.skipAll view passes p)
      (place (BPETokenizer.skipAll view passes p)) := by
  rw [skipAll, BPETokenizer.skipAll,
    skip_fuel view passes (view.size - p) (view.size + 1) p le_rfl (by omega)]
  exact skip_yields test stops goes _ p fun low => by omega

/-- A test that asks no more than a character on the walk needs, and that no blank passes. -/
structure CharTest (host : Host) (Meets : Event → Prop) (more : UInt32 → Recorded Event Bool)
    (passes : UInt32 → Bool) (asks : UInt32 → Prop) : Prop where
  yields : ∀ cp after, Yields Meets (asks cp ∧ after) (more cp) (passes cp) after
  weak : ∀ cp, Classifies Meets cp → asks cp
  enough : ∀ cp, passes cp = true → asks cp → Classifies Meets cp
  plain : ∀ cp, passes cp = true → startsBlanks host cp = false

variable {more : UInt32 → Recorded Event Bool} {passes : UInt32 → Bool} {asks : UInt32 → Prop}

theorem CharTest.stops (test : CharTest host Meets more passes asks) (p : Nat)
    (inside : p < view.size) (onward : Onward host view Meets p) :
    Decodes view Meets p ∧ asks (view.utf8Decode p).1 :=
  (fresh_good inside onward.2).imp_right (test.weak _)

theorem CharTest.goes (test : CharTest host Meets more passes asks) (telling : Telling view Meets)
    (p : Nat) (inside : p < view.size) (passed : passes (view.utf8Decode p).1 = true) :
    Onward host view Meets p ↔ (Decodes view Meets p ∧ asks (view.utf8Decode p).1) ∧
      Onward host view Meets (p + (view.utf8Decode p).2) := by
  rw [telling.onward_plain inside (test.plain _ passed)]
  exact and_congr_left' (and_congr_right' ⟨test.weak _, test.enough _ passed⟩)

theorem CharTest.skipAll (test : CharTest host Meets more passes asks)
    (telling : Telling view Meets) (p : Nat) :
    Yields Meets (Onward host view Meets p) (skipAll view more p)
      (BPETokenizer.skipAll view passes p)
      (Onward host view Meets (BPETokenizer.skipAll view passes p)) :=
  skipAll_yields test.yields test.stops (test.goes telling) p

theorem letters_test :
    CharTest host Meets (unicodeIsLetter host) host.isalpha (Classifies Meets) where
  yields := unicodeIsLetter_yields
  weak _ classifies := classifies
  enough _ _ classifies := classifies
  plain cp letter := by rw [startsBlanks, letter, Bool.not_true, Bool.and_false, Bool.false_and]

theorem Telling.digits (telling : Telling view Meets) :
    CharTest host Meets (unicodeIsDigit host) host.isdigit (Classifies Meets) where
  yields := telling.digit_yields
  weak _ classifies := classifies
  enough _ _ classifies := classifies
  plain cp digit := by rw [startsBlanks, digit, Bool.not_true, Bool.and_false]

theorem Telling.others (telling : Telling view Meets) :
    CharTest host Meets (isOther host) (BPETokenizer.isOther host) (Classifies Meets) where
  yields := telling.other_yields
  weak _ classifies := classifies
  enough _ _ classifies := classifies
  plain cp other := by
    simp only [BPETokenizer.isOther, Bool.and_eq_true, Bool.not_eq_true'] at other
    rw [startsBlanks, other.1.1, Bool.false_and, Bool.false_and, Bool.false_and]

theorem Telling.newlines (telling : Telling view Meets) :
    CharTest host Meets (fun cp => return unicodeIsNewline cp) unicodeIsNewline fun _ => True where
  yields cp after := (Yields.pure _ _).congr (and_iff_right trivial)
  weak _ _ := trivial
  enough cp line _ := telling.space (newline_space line)
  plain cp line := by
    rw [startsBlanks, line, Bool.not_true, Bool.and_false, Bool.false_and, Bool.false_and]

/-- A piece is copied, and the walk goes on behind it. -/
theorem Telling.emit_yields (telling : Telling view Meets) {after : Nat → Prop}
    (behind : Behind host view Meets after) (inside : p ≤ view.size) (q : Nat) :
    Yields Meets (Onward host view Meets q) (emit view p q) (BPETokenizer.emit view p q, q)
      (after q) := by
  have copied : Yields Meets ((∀ i ∈ List.range' p (q - p), Meets (.byte i)) ∧ after q)
      ((List.range' p (q - p)).mapM (byteAt view)) (view.span p q) (after q) :=
    .mapM byteAt_yields _
  refine Yields.congr (copied.bind (.pure _ _)) ((behind q).trans (and_congr_left' ?_))
  constructor
  · intro all i listed
    obtain ⟨low, high⟩ := List.mem_range'_1.mp listed
    exact all i (by omega)
  · intro between i below
    by_cases before : i < p
    · exact telling.inside i (before.trans_le inside)
    · exact between i (List.mem_range'_1.mpr ⟨not_lt.mp before, by omega⟩)

theorem peek_yields {more : UInt32 → Recorded Event Bool} {passes : UInt32 → Bool}
    {asks : UInt32 → Prop}
    (test : ∀ cp after, Yields Meets (asks cp ∧ after) (more cp) (passes cp) after) (p : Nat)
    (after : Prop) :
    Yields Meets ((p < view.size → Decodes view Meets p ∧ asks (view.utf8Decode p).1) ∧ after)
      (peek view p more) (decide (p < view.size) && passes (view.utf8Decode p).1) after := by
  rw [peek]
  by_cases inside : p < view.size
  · simp only [inside, if_true, decide_true, Bool.true_and, true_implies, and_assoc]
    exact (utf8Decode_yields p _).bind (test _ _)
  · simp only [inside, if_false, decide_false, Bool.false_and, false_implies, true_and]
    exact .pure _ _

theorem Telling.symbols_yields (telling : Telling view Meets) {after : Nat → Prop}
    (behind : Behind host view Meets after) {start : Nat} (inside : start ≤ view.size) (p : Nat) :
    Yields Meets (Onward host view Meets p) (symbols host view start p)
      (BPETokenizer.emit view start (BPETokenizer.skipAll view unicodeIsNewline
        (BPETokenizer.skipAll view (BPETokenizer.isOther host) p)),
        BPETokenizer.skipAll view unicodeIsNewline
          (BPETokenizer.skipAll view (BPETokenizer.isOther host) p))
      (after (BPETokenizer.skipAll view unicodeIsNewline
        (BPETokenizer.skipAll view (BPETokenizer.isOther host) p))) :=
  (telling.others.skipAll telling p).bind
    ((telling.newlines.skipAll telling _).bind (telling.emit_yields behind inside _))

/-- Where a run of white space ends. -/
def blanksEnd (view : TextView) (p : Nat) : Nat :=
  let blank := BPETokenizer.skipAll view (fun cp => unicodeIsSpace cp && !unicodeIsNewline cp) p
  if blank < view.size ∧ unicodeIsNewline (view.utf8Decode blank).1 = true then
    BPETokenizer.skipAll view unicodeIsNewline blank
  else view.size

theorem Telling.whiteSpace_yields (telling : Telling view Meets) {after : Nat → Prop}
    (behind : Behind host view Meets after) (inside : p ≤ view.size) :
    Yields Meets (Running host view Meets p) (whiteSpace view p)
      (BPETokenizer.emit view p (blanksEnd view p), blanksEnd view p)
      (after (blanksEnd view p)) := by
  have ignore : ∀ (f : UInt32 → Bool) (cp : UInt32) (after : Prop),
      Yields Meets (True ∧ after) (Pure.pure (f cp)) (f cp) after :=
    fun f cp after => (Yields.pure _ _).congr (and_iff_right trivial)
  have blanks := @skipAll_yields view Meets _ _ _ (Running host view Meets)
    (ignore fun cp => unicodeIsSpace cp && !unicodeIsNewline cp)
    (fun q low running => ⟨((always_iff.mp running).1 low).1, trivial⟩)
    (fun q low passed => by
      rw [Bool.and_eq_true, Bool.not_eq_true'] at passed
      rw [running_blank low passed.1 passed.2, and_iff_left trivial]) p
  have stopped := skipAll_stops view (fun cp => unicodeIsSpace cp && !unicodeIsNewline cp) p
  rw [whiteSpace, blanksEnd]
  refine blanks.bind ?_
  generalize BPETokenizer.skipAll view (fun cp => unicodeIsSpace cp && !unicodeIsNewline cp) p =
    blank at stopped ⊢
  have rest : Yields Meets True (emit view p view.size)
      (BPETokenizer.emit view p view.size, view.size) (after view.size) :=
    (telling.emit_yields behind inside _).congr
      (iff_of_true trivial ((telling.onward le_rfl).mpr (fresh_end le_rfl)))
  by_cases low : blank < view.size
  · cases line : unicodeIsNewline (view.utf8Decode blank).1 with
    | true =>
        rw [if_pos ⟨low, rfl⟩]
        -- The newline is looked at, then passed over like any other character.
        have again : Running host view Meets blank ↔
            (blank < view.size → Decodes view Meets blank ∧ True) ∧
              Onward host view Meets blank := by
          rw [running_line low line, telling.onward low.le]
          exact ⟨fun fresh => ⟨fun _ => ⟨(fresh_good low fresh).1, trivial⟩, fresh⟩,
            fun both => both.2⟩
        refine Yields.congr ((peek_yields (ignore unicodeIsNewline) blank _).bind ?_) again
        simp only [low, line, decide_true, Bool.true_and, if_true]
        exact (telling.newlines.skipAll telling blank).bind (telling.emit_yields behind inside _)
    | false =>
        have solid : unicodeIsSpace (view.utf8Decode blank).1 = false := by
          have other := stopped low
          rwa [line, Bool.not_false, Bool.and_true] at other
        rw [if_neg fun both => Bool.false_ne_true both.2]
        -- It is looked at twice, and nothing behind it is looked at.
        have twice : Running host view Meets blank ↔
            (blank < view.size → Decodes view Meets blank ∧ True) ∧
              (blank < view.size → Decodes view Meets blank ∧ True) ∧ True := by
          rw [running_stop low solid]
          simp only [low, true_implies, and_true, and_self]
        refine Yields.congr ((peek_yields (ignore unicodeIsNewline) blank _).bind ?_) twice
        simp only [line, Bool.and_false, Bool.false_eq_true, if_false]
        refine (peek_yields (ignore unicodeIsSpace) blank True).bind ?_
        exact rest
  · rw [if_neg fun both => low both.1]
    have nothing : Running host view Meets blank ↔
        (blank < view.size → Decodes view Meets blank ∧ True) ∧
          (blank < view.size → Decodes view Meets blank ∧ True) ∧ True :=
      iff_of_true (running_end (not_lt.mp low))
        ⟨fun inside => absurd inside low, fun inside => absurd inside low, trivial⟩
    refine Yields.congr ((peek_yields (ignore unicodeIsNewline) blank _).bind ?_) nothing
    rw [decide_eq_false low]
    simp only [Bool.false_and, Bool.false_eq_true, if_false]
    refine (peek_yields (ignore unicodeIsSpace) blank True).bind ?_
    exact rest

end Touches

/-! One pass of the loop. -/

section Pass

variable {host : Host} {view : TextView} {Meets : Event → Prop} {p : Nat}

/-- A look at a character that the walk comes to anyway. -/
theorem look_onward : Onward host view Meets p ↔
    (p < view.size → Decodes view Meets p ∧ Classifies Meets (view.utf8Decode p).1) ∧
      Onward host view Meets p :=
  ⟨fun onward => ⟨fun inside => fresh_good inside onward.2, onward⟩, fun both => both.2⟩

/-- The branches for white space. -/
theorem Telling.spaces_yields (telling : Telling view Meets) {after : Nat → Prop}
    (behind : Behind host view Meets after) (inside : p < view.size)
    (space : unicodeIsSpace (view.utf8Decode p).1 = true)
    (letter : host.isalpha (view.utf8Decode p).1 = false)
    (digit : host.isdigit (view.utf8Decode p).1 = false) {q : Nat}
    (ended : (if (view.utf8Decode p).1 = 32 ∧ p + 1 < view.size ∧
        BPETokenizer.isOther host (view.utf8Decode (p + 1)).1 = true then
          BPETokenizer.skipAll view unicodeIsNewline
            (BPETokenizer.skipAll view (BPETokenizer.isOther host) (p + 1))
        else blanksEnd view p) = q) :
    ∃ rest, (Fresh host view Meets p ↔
        Decodes view Meets p ∧ Classifies Meets (view.utf8Decode p).1 ∧ rest) ∧
      Yields Meets rest (do
        let spaced ← if (view.utf8Decode p).1 = 32 then peek view (p + 1) (isOther host)
          else pure false
        if spaced then symbols host view p (p + 1) else whiteSpace view p)
        (BPETokenizer.emit view p q, q) (after q) := by
  have classifies : Classifies Meets (view.utf8Decode p).1 := telling.space space
  by_cases spaced : (view.utf8Decode p).1 = 32 ∧ p + 1 < view.size ∧
      BPETokenizer.isOther host (view.utf8Decode (p + 1)).1 = true
  · rw [if_pos spaced] at ended
    subst ended
    have blank : startsBlanks host (view.utf8Decode p).1 = true := by
      rw [spaced.1] at letter digit ⊢
      rw [startsBlanks, letter, digit]
      rfl
    refine ⟨Onward host view Meets (p + 1), ?_, ?_⟩
    · rw [telling.fresh_spaced spaced.2.1 blank spaced.1 spaced.2.2, and_iff_right classifies]
    · rw [if_pos spaced.1]
      refine Yields.congr ((peek_yields telling.others.yields _ _).bind ?_) look_onward
      simp only [spaced.2.1, spaced.2.2, decide_true, Bool.true_and, if_true]
      exact telling.symbols_yields behind inside.le (p + 1)
  · rw [if_neg spaced] at ended
    subst ended
    cases line : unicodeIsNewline (view.utf8Decode p).1 with
    | true =>
        have other : ¬ (view.utf8Decode p).1 = 32 := by
          intro same
          rw [same] at line
          cases line
        refine ⟨Running host view Meets p, ?_, ?_⟩
        · rw [running_line inside line]
          exact ⟨fun fresh => ⟨(fresh_good inside fresh).1, classifies, fresh⟩, fun all => all.2.2⟩
        · simp only [if_neg other, pure_bind, Bool.false_eq_true, if_false]
          exact telling.whiteSpace_yields behind inside.le
    | false =>
        have blank : startsBlanks host (view.utf8Decode p).1 = true := by
          rw [startsBlanks, space, line, letter, digit]
          rfl
        have fresh := telling.fresh_blanks inside blank spaced
        refine ⟨_, fresh.trans ⟨fun both =>
          ⟨((always_iff.mp both.2).1 inside).1, classifies, both⟩, fun all => all.2.2⟩, ?_⟩
        by_cases same : (view.utf8Decode p).1 = 32
        · rw [if_pos same]
          simp only [same, true_implies]
          refine (peek_yields telling.others.yields _ _).bind ?_
          have apart : ¬ (p + 1 < view.size ∧
              BPETokenizer.isOther host (view.utf8Decode (p + 1)).1 = true) :=
            fun both => spaced ⟨same, both⟩
          rw [← decide_eq_true_eq (p := _ ∧ _), Bool.decide_and, Bool.decide_eq_true] at apart
          rw [Bool.eq_false_of_not_eq_true apart]
          exact telling.whiteSpace_yields behind inside.le
        · simp only [same, if_false, false_implies, true_and, pure_bind, Bool.false_eq_true]
          exact telling.whiteSpace_yields behind inside.le

theorem Telling.classified_yields (telling : Telling view Meets) {after : Nat → Prop}
    (behind : Behind host view Meets after) (inside : p < view.size)
    (apart : ¬ ((view.utf8Decode p).1 = 39 ∧ 0 < BPETokenizer.matchContraction view p)) :
    ∃ rest, (Fresh host view Meets p ↔
        Decodes view Meets p ∧ Classifies Meets (view.utf8Decode p).1 ∧ rest) ∧
      Yields Meets rest (classified host view p (view.utf8Decode p).1 (view.utf8Decode p).2
          (host.isalpha (view.utf8Decode p).1) (host.isdigit (view.utf8Decode p).1))
        (BPETokenizer.emit view p (pieceEnd host view p), pieceEnd host view p)
        (after (pieceEnd host view p)) := by
  obtain ⟨q, ended⟩ : ∃ q, pieceEnd host view p = q := ⟨_, rfl⟩
  rw [ended]
  rw [pieceEnd] at ended
  simp only [if_neg apart, symbol_eq, spaced_eq] at ended
  have onward : startsBlanks host (view.utf8Decode p).1 = false → (Fresh host view Meets p ↔
      Decodes view Meets p ∧ Classifies Meets (view.utf8Decode p).1 ∧
        Onward host view Meets (p + (view.utf8Decode p).2)) := fun plain => by
    rw [← telling.onward inside.le, telling.onward_plain inside plain, and_assoc]
  have here : Fresh host view Meets p ↔ Decodes view Meets p ∧
      Classifies Meets (view.utf8Decode p).1 ∧ Onward host view Meets p := by
    rw [telling.onward inside.le]
    exact ⟨fun fresh => ⟨(fresh_good inside fresh).1, (fresh_good inside fresh).2, fresh⟩,
      fun all => all.2.2⟩
  have letters : CharTest host Meets (unicodeIsLetter host) host.isalpha (Classifies Meets) :=
    letters_test
  rw [classified]
  simp only [symbol_eq]
  cases letter : host.isalpha (view.utf8Decode p).1 with
  | true =>
      -- Letters: the walk is behind the first one when the loop begins.
      refine ⟨_, onward (letters.plain _ letter), ?_⟩
      rw [letter, if_pos rfl] at ended
      subst ended
      exact (letters.skipAll telling _).bind (telling.emit_yields behind inside.le _)
  | false =>
      rw [letter, if_neg Bool.false_ne_true] at ended
      simp only [Bool.false_eq_true, if_false]
      cases symbol : BPETokenizer.isOther host (view.utf8Decode p).1 with
      | true =>
          have digit : host.isdigit (view.utf8Decode p).1 = false := by
            rw [BPETokenizer.isOther, Bool.and_eq_true, Bool.not_eq_true'] at symbol
            exact symbol.2
          simp only [symbol, digit, true_and, Bool.false_eq_true, if_false, if_true] at ended ⊢
          have plain := telling.others.plain _ symbol
          -- The look ahead is at the next character of the walk, whatever comes of it.
          by_cases ahead : p + (view.utf8Decode p).2 < view.size ∧
              host.isalpha (view.utf8Decode (p + (view.utf8Decode p).2)).1 = true
          · rw [if_pos ahead] at ended
            subst ended
            refine ⟨_, onward plain, Yields.congr ((peek_yields letters.yields _ _).bind ?_)
              look_onward⟩
            simp only [ahead.1, ahead.2, decide_true, Bool.true_and, if_true]
            exact (letters.skipAll telling _).bind (telling.emit_yields behind inside.le _)
          · rw [if_neg ahead] at ended
            subst ended
            have look : Onward host view Meets p ↔ (p + (view.utf8Decode p).2 < view.size →
                Decodes view Meets (p + (view.utf8Decode p).2) ∧
                  Classifies Meets (view.utf8Decode (p + (view.utf8Decode p).2)).1) ∧
                Onward host view Meets p :=
              ⟨fun now => ⟨(look_onward.mp ((onward plain).mp now.2).2.2).1, now⟩, fun both => both.2⟩
            refine ⟨_, here, Yields.congr ((peek_yields letters.yields _ _).bind ?_) look⟩
            rw [← decide_eq_true_eq (p := _ ∧ _), Bool.decide_and, Bool.decide_eq_true] at ahead
            rw [Bool.eq_false_of_not_eq_true ahead]
            exact telling.symbols_yields behind inside.le p
      | false =>
          simp only [symbol, Bool.false_eq_true, if_false, false_and] at ended ⊢
          cases digit : host.isdigit (view.utf8Decode p).1 with
          | true =>
              -- The loop decodes this digit again.
              rw [digit, if_pos rfl] at ended
              subst ended
              refine ⟨_, here, ?_⟩
              refine (Yields.pure _ _).bind ?_
              simp only [Bool.false_eq_true, if_false, if_true]
              exact (skip_yields telling.digits.yields telling.digits.stops
                (telling.digits.goes telling) 3 p fun _ q => rfl).bind
                  (telling.emit_yields behind inside.le _)
          | false =>
              rw [digit, if_neg Bool.false_ne_true] at ended
              have space : unicodeIsSpace (view.utf8Decode p).1 = true := by
                rw [BPETokenizer.isOther, letter, digit, Bool.not_false, Bool.and_true,
                  Bool.and_true, Bool.not_eq_false'] at symbol
                exact symbol
              simp only [pure_bind, space, Bool.true_or, Bool.false_eq_true, if_false, if_true]
                at ended ⊢
              exact telling.spaces_yields behind inside space letter digit ended

theorem Telling.onward_contraction (telling : Telling view Meets) (inside : p < view.size)
    (quote : (view.utf8Decode p).1 = 39) (matched : 0 < BPETokenizer.matchContraction view p) :
    Onward host view Meets p ↔
      Onward host view Meets (p + BPETokenizer.matchContraction view p) := by
  obtain ⟨text, beyond⟩ := view
  cases here : text.drop p with
  | nil =>
      rw [List.drop_eq_nil_iff] at here
      exact absurd inside (not_lt.mpr here)
  | cons c rest =>
      obtain ⟨word, after, rfl, length, contraction⟩ := matchContraction_word here matched
      have lead : c = 39 := by
        cases shape : word with
        | nil =>
            rw [shape] at contraction
            cases contraction
        | cons d word =>
            rw [shape] at contraction here
            have low := contraction_lead here contraction quote
            rw [utf8Decode_low here low] at quote
            rw [← UInt8.toNat_inj, ← UInt8.toNat_toUInt32, show c.toUInt32 = 39 from quote]
            rfl
      subst lead
      have onward := @Telling.onward_word host text beyond Meets telling (39 :: word) after p here
        contraction.plain
      rwa [List.length_cons, ← length] at onward

theorem Telling.piece_yields (telling : Telling view Meets) {after : Nat → Prop}
    (behind : Behind host view Meets after) (inside : p < view.size) :
    Yields Meets (Fresh host view Meets p) (piece host view p)
      (BPETokenizer.emit view p (pieceEnd host view p), pieceEnd host view p)
      (after (pieceEnd host view p)) := by
  have look : ∀ after, Yields Meets after
      (contractionAt view p (view.utf8Decode p).1)
      (if (view.utf8Decode p).1 = 39 then BPETokenizer.matchContraction view p else 0) after := by
    intro after
    rw [contractionAt]
    split
    · exact telling.contraction_yields p after
    · exact .pure _ _
  rw [piece]
  by_cases matched : (view.utf8Decode p).1 = 39 ∧ 0 < BPETokenizer.matchContraction view p
  · have ended : pieceEnd host view p = p + BPETokenizer.matchContraction view p := by
      rw [pieceEnd]
      exact if_pos matched
    have same : Fresh host view Meets p ↔ Decodes view Meets p ∧
        Onward host view Meets (p + BPETokenizer.matchContraction view p) := by
      rw [← telling.onward_contraction inside matched.1 matched.2, telling.onward inside.le]
      exact ⟨fun fresh => ⟨(fresh_good inside fresh).1, fresh⟩, fun both => both.2⟩
    rw [ended]
    refine Yields.congr ((utf8Decode_yields p _).bind ((look _).bind ?_)) same
    simp only [matched.1, matched.2, if_true]
    exact (telling.contraction_yields p _).bind (telling.emit_yields behind inside.le _)
  · obtain ⟨rest, same, branches⟩ := telling.classified_yields behind inside matched
    refine Yields.congr ((utf8Decode_yields p _).bind ((look _).bind ?_)) same
    have none : ¬ 0 < if (view.utf8Decode p).1 = 39 then BPETokenizer.matchContraction view p
        else 0 := by
      split
      · rename_i quote
        exact fun some => matched ⟨quote, some⟩
      · exact Nat.lt_irrefl 0
    rw [if_neg none]
    refine Yields.congr ((unicodeIsLetter_yields _ (Classifies Meets (view.utf8Decode p).1 ∧
      rest)).bind ?_) and_self_left.symm
    exact (telling.digit_yields _ _).bind branches

/-- A piece that may be copied ends where all bytes before may be. -/
theorem Telling.onward_pieceEnd (telling : Telling view Meets) (inside : p < view.size)
    (fresh : Fresh host view Meets p) : Onward host view Meets (pieceEnd host view p) :=
  ((telling.piece_yields (fun _ => ⟨fun onward => ⟨onward.1, onward⟩, fun both => both.2⟩)
    inside).events.mpr fresh).2

/-- Every pass, until the text ends. -/
theorem Telling.piecesFrom_yields (telling : Telling view Meets) (fuel p : Nat)
    (enough : view.size - p < fuel) :
    Yields Meets (Fresh host view Meets p) (piecesFrom host view fuel p)
      (BPETokenizer.piecesFrom host view (view.size - p) p) True := by
  induction fuel generalizing p with
  | zero => exact absurd enough (Nat.not_lt_zero _)
  | succ fuel ih =>
      rw [piecesFrom]
      by_cases inside : p < view.size
      · have later := pieceEnd_lt host view inside
        rw [if_pos inside, piecesFrom_eq host view inside]
        refine (telling.piece_yields (fun _ => Iff.rfl) inside).bind ((ih _ (by omega)).bind ?_)
        rw [BPETokenizer.emit, if_pos later]
        exact .pure _ _
      · rw [if_neg inside, Nat.sub_eq_zero_of_le (not_lt.mp inside)]
        exact (Yields.pure _ _).congr (iff_of_true (fresh_end (not_lt.mp inside)) trivial)

/-- What `pre_tokenize` touches meets a condition if and only if the characters it comes to do;
its loops end, with the pieces of the model. -/
theorem preTokenize_yields (host : Host) (text : Bytes) {Meets : Event → Prop}
    (telling : Telling ⟨text, host.beyond text⟩ Meets) :
    Yields Meets (Fresh host ⟨text, host.beyond text⟩ Meets 0) (preTokenize host text)
      (BPETokenizer.preTokenize host text) True :=
  telling.piecesFrom_yields (text.length + 1) 0 (Nat.lt_succ_self _)

end Pass

end Watched

end BPETokenizer

end MiniLLM
