import MiniLLM.PreTokenize

/-!
The pieces of an ASCII text against the pattern that `pre_tokenize` compiles by
hand. All branches of the loop but one emit a word of the pattern; the branch for
blanks that no newline follows takes the rest of the text into one piece. Where
that happens can be told from the text.
-/

namespace MiniLLM

open ByteReader

namespace BPETokenizer

/-! The pattern. -/

section Pattern

variable (host : Host)

def isLetter (c : UInt8) : Bool := host.isalpha c.toUInt32

def isDigitByte (c : UInt8) : Bool := host.isdigit c.toUInt32

def isSpace (c : UInt8) : Bool := unicodeIsSpace c.toUInt32

def isNewline (c : UInt8) : Bool := unicodeIsNewline c.toUInt32

def isBlank (c : UInt8) : Bool := isSpace c && !isNewline c

def isSymbol (c : UInt8) : Bool := isOther host c.toUInt32

/-- `'s`, `'t`, `'d`, `'m`, `'ll`, `'ve` and `'re` in any case. -/
inductive Contraction : Bytes → Prop
  | short {letter : UInt8} :
      letter ∈ ([115, 116, 100, 109, 83, 84, 68, 77] : List UInt8) → Contraction [39, letter]
  | ll {first second : UInt8} : first ∈ ([108, 76] : List UInt8) →
      second ∈ ([108, 76] : List UInt8) → Contraction [39, first, second]
  | ve {first second : UInt8} : first ∈ ([118, 86, 114, 82] : List UInt8) →
      second ∈ ([101, 69] : List UInt8) → Contraction [39, first, second]

/-- The alternatives of the pattern. -/
inductive Word : Bytes → Prop
  | contraction {word : Bytes} : Contraction word → Word word
  | letters {lead run : Bytes} : lead.length ≤ 1 →
      (∀ c ∈ lead, isNewline c = false ∧ isLetter host c = false ∧ isDigitByte host c = false) →
      run ≠ [] → (∀ c ∈ run, isLetter host c = true) → Word (lead ++ run)
  | digits {run : Bytes} : run ≠ [] → run.length ≤ 3 →
      (∀ c ∈ run, isDigitByte host c = true) → Word run
  | symbols {lead run lines : Bytes} : lead = [] ∨ lead = [32] → run ≠ [] →
      (∀ c ∈ run, isSymbol host c = true) → (∀ c ∈ lines, isNewline c = true) →
      Word (lead ++ (run ++ lines))
  | blanks {run lines : Bytes} : run ++ lines ≠ [] → (∀ c ∈ run, isBlank c = true) →
      (∀ c ∈ lines, isNewline c = true) → Word (run ++ lines)

/-- Every blank before a character that is no space stands alone, and is a space before a symbol
or has only letters after it. -/
def LoneBlanks (text : Bytes) : Prop :=
  ∀ before b c after, text = before ++ b :: c :: after → isBlank b = true → isSpace c = false →
    (∀ d ∈ before.getLast?, isBlank d = false) ∧
      ((b = 32 ∧ isSymbol host c = true) ∨ ∀ d ∈ c :: after, isLetter host d = true)

/-- A letter or a digit is no white space, in any locale. -/
def Standard : Prop :=
  ∀ cp, unicodeIsSpace cp = true → host.isalpha cp = false ∧ host.isdigit cp = false

end Pattern

/-! The scanner on ASCII. -/

section Ascii

variable {text : Bytes} {beyond : Nat → UInt8}

theorem utf8Decode_low {p : Nat} {c : UInt8} {rest : Bytes} (here : text.drop p = c :: rest)
    (small : c < 0x80) : TextView.utf8Decode ⟨text, beyond⟩ p = (c.toUInt32, 1) := by
  have low : c.toUInt32 < 0x80 := by
    rw [UInt8.lt_iff_toNat_lt] at small
    rw [UInt32.lt_iff_toNat_lt, UInt8.toNat_toUInt32]
    exact small
  rw [TextView.utf8Decode]
  simp only [byteAt_drop here, if_pos low]

theorem utf8Decode_ascii (ascii : ∀ c ∈ text, c < 0x80) {p : Nat} {c : UInt8} {rest : Bytes}
    (here : text.drop p = c :: rest) :
    TextView.utf8Decode ⟨text, beyond⟩ p = (c.toUInt32, 1) :=
  utf8Decode_low here (ascii c (List.mem_of_mem_drop (by rw [here]; exact List.mem_cons_self)))

/-- What a loop of the scanner passes over: the longest run, up to the bound. -/
structure Passed (text : Bytes) (more : UInt32 → Bool) (fuel p : Nat) (run after : Bytes) :
    Prop where
  whole : text.drop p = run ++ after
  all : ∀ c ∈ run, more c.toUInt32 = true
  short : run.length ≤ fuel
  longest : run.length < fuel → ∀ c ∈ after.head?, more c.toUInt32 = false

theorem Passed.behind {more : UInt32 → Bool} {fuel p : Nat} {run after : Bytes}
    (passed : Passed text more fuel p run after) : text.drop (p + run.length) = after := by
  rw [← List.drop_drop, passed.whole, List.drop_left]

theorem skip_ascii (ascii : ∀ c ∈ text, c < 0x80) (more : UInt32 → Bool) (fuel p : Nat) :
    ∃ run after, Passed text more fuel p run after ∧
      skip ⟨text, beyond⟩ more fuel p = p + run.length := by
  induction fuel generalizing p with
  | zero =>
      exact ⟨[], text.drop p, ⟨rfl, fun c none => (by cases none), le_rfl,
        fun more => absurd more (Nat.lt_irrefl 0)⟩, rfl⟩
  | succ fuel ih =>
      rw [skip]
      cases here : text.drop p with
      | nil =>
          refine ⟨[], [], ⟨here, fun c none => (by cases none), Nat.zero_le _,
            fun _ c none => (by cases none)⟩, if_neg fun inside => ?_⟩
          rw [List.drop_eq_nil_iff] at here
          exact absurd inside.1 (not_lt.mpr here)
      | cons c rest =>
          rw [utf8Decode_ascii ascii here]
          by_cases passes : more c.toUInt32 = true
          · obtain ⟨run, after, passed, ended⟩ := ih (p + 1)
            have whole : rest = run ++ after := (drop_cons here).symm.trans passed.whole
            refine ⟨c :: run, after, ⟨by rw [here, whole, List.cons_append], ?_, ?_, ?_⟩, ?_⟩
            · exact List.forall_mem_cons.mpr ⟨passes, passed.all⟩
            · exact Nat.succ_le_succ passed.short
            · exact fun shorter => passed.longest (Nat.lt_of_succ_lt_succ shorter)
            · rw [if_pos ⟨lt_of_drop here, passes⟩, ended, List.length_cons]
              omega
          · refine ⟨[], c :: rest, ⟨here, fun c none => (by cases none), Nat.zero_le _,
              fun _ d first => ?_⟩, if_neg fun both => passes both.2⟩
            obtain rfl := Option.some.inj first
            exact Bool.eq_false_of_not_eq_true passes

theorem skipAll_ascii (ascii : ∀ c ∈ text, c < 0x80) (more : UInt32 → Bool) (p : Nat) :
    ∃ run after, Passed text more (text.length + 1) p run after ∧
      skipAll ⟨text, beyond⟩ more p = p + run.length := by
  rw [skipAll, skip_fuel _ more _ (text.length + 1) p le_rfl (by
    simp only [TextView.size]; omega)]
  exact skip_ascii ascii more _ p

theorem Passed.first {more : UInt32 → Bool} {fuel p : Nat} {run after rest : Bytes} {c : UInt8}
    (passed : Passed text more (fuel + 1) p run after) (here : text.drop p = c :: rest)
    (passes : more c.toUInt32 = true) : ∃ others, run = c :: others := by
  cases shape : run with
  | nil =>
      have whole : c :: rest = after := by rw [← here, passed.whole, shape, List.nil_append]
      have stopped := passed.longest (by rw [shape]; exact Nat.zero_lt_succ fuel) c
        (by rw [← whole]; rfl)
      exact absurd passes (by rw [stopped]; exact Bool.false_ne_true)
  | cons d others =>
      have whole := passed.whole
      rw [here, shape, List.cons_append, List.cons.injEq] at whole
      exact ⟨others, by rw [whole.1]⟩

/-- No loop that can run to the end of the text is cut short. -/
theorem Passed.stops {more : UInt32 → Bool} {p : Nat} {run after : Bytes}
    (passed : Passed text more (text.length + 1) p run after) :
    ∀ c ∈ after.head?, more c.toUInt32 = false := by
  apply passed.longest
  have size := congrArg List.length passed.whole
  rw [List.length_drop, List.length_append] at size
  omega

theorem third_byte {p : Nat} {n : UInt8} {rest : Bytes} (next : text.drop (p + 1) = n :: rest)
    {lower upper : UInt8} (matched : 0 < if p + 2 < TextView.size ⟨text, beyond⟩ ∧
      (TextView.byteAt ⟨text, beyond⟩ (p + 2) = lower ∨
        TextView.byteAt ⟨text, beyond⟩ (p + 2) = upper) then 3 else 0) :
    ∃ d after, rest = d :: after ∧ d ∈ [lower, upper] ∧
      (if p + 2 < TextView.size ⟨text, beyond⟩ ∧ (TextView.byteAt ⟨text, beyond⟩ (p + 2) = lower ∨
        TextView.byteAt ⟨text, beyond⟩ (p + 2) = upper) then 3 else 0) = 3 := by
  by_cases both : p + 2 < TextView.size ⟨text, beyond⟩ ∧ (TextView.byteAt ⟨text, beyond⟩ (p + 2) = lower ∨
    TextView.byteAt ⟨text, beyond⟩ (p + 2) = upper)
  · cases ended : rest with
    | nil =>
        have nothing := (drop_cons next).trans ended
        rw [List.drop_eq_nil_iff] at nothing
        exact absurd both.1 (not_lt.mpr nothing)
    | cons d after =>
        have third := @byteAt_drop text beyond _ _ _ ((drop_cons next).trans ended)
        refine ⟨d, after, rfl, ?_, if_pos both⟩
        rw [← third, List.mem_pair]
        exact both.2
  · rw [if_neg both] at matched
    exact absurd matched (Nat.lt_irrefl 0)

theorem matchContraction_word {p : Nat} {c : UInt8} {rest : Bytes}
    (here : text.drop p = c :: rest) (matched : 0 < matchContraction ⟨text, beyond⟩ p) :
    ∃ word after, rest = word ++ after ∧
      matchContraction ⟨text, beyond⟩ p = word.length + 1 ∧ Contraction (39 :: word) := by
  have next := drop_cons here
  cases rest with
  | nil =>
      rw [List.drop_eq_nil_iff] at next
      rw [matchContraction, if_pos (show TextView.size ⟨text, beyond⟩ ≤ p + 1 from next)] at matched
      exact absurd matched (Nat.lt_irrefl 0)
  | cons n rest =>
      have inside := lt_of_drop next
      rw [matchContraction] at matched ⊢
      simp only [byteAt_drop next] at matched ⊢
      rw [if_neg (show ¬ TextView.size ⟨text, beyond⟩ ≤ p + 1 from not_le.mpr inside)]
        at matched ⊢
      by_cases short : n = 115 ∨ n = 116 ∨ n = 100 ∨ n = 109 ∨ n = 83 ∨ n = 84 ∨ n = 68 ∨ n = 77
      · rw [if_pos short]
        exact ⟨[n], rest, rfl, rfl, .short (by simpa using short)⟩
      · rw [if_neg short] at matched ⊢
        by_cases l : n = 108 ∨ n = 76
        · rw [if_pos l] at matched ⊢
          obtain ⟨d, after, rfl, second, three⟩ := third_byte next matched
          rw [three]
          exact ⟨[n, d], after, rfl, rfl, .ll (List.mem_pair.mpr l) second⟩
        · rw [if_neg l] at matched ⊢
          have ve : n = 118 ∨ n = 86 ∨ n = 114 ∨ n = 82 := by
            by_contra neither
            rw [if_neg (by tauto), if_neg (by tauto)] at matched
            exact absurd matched (Nat.lt_irrefl 0)
          have same : ∀ ends : Nat, (if n = 118 ∨ n = 86 then ends
              else if n = 114 ∨ n = 82 then ends else 0) = ends := by
            intro ends
            split
            · rfl
            · rw [if_pos (by tauto)]
          rw [same] at matched ⊢
          obtain ⟨d, after, rfl, second, three⟩ := third_byte next matched
          rw [three]
          exact ⟨[n, d], after, rfl, rfl, .ve (by simpa using ve) second⟩

end Ascii

section Words

variable {host : Host}

theorem isBlank_isSpace {c : UInt8} (blank : isBlank c = true) : isSpace c = true := by
  rw [isBlank, Bool.and_eq_true] at blank
  exact blank.1

theorem isNewline_isSpace {c : UInt8} (line : isNewline c = true) : isSpace c = true :=
  newline_space line

theorem isNewline_not_blank {c : UInt8} (line : isNewline c = true) : isBlank c = false := by
  rw [isBlank, line, Bool.not_true, Bool.and_false]

theorem not_blank {c : UInt8} (solid : isSpace c = false) : isBlank c = false := by
  rw [isBlank, solid, Bool.false_and]

theorem isSymbol_not_space {c : UInt8} (symbol : isSymbol host c = true) : isSpace c = false := by
  simp only [isSymbol, isOther, Bool.and_eq_true, Bool.not_eq_true'] at symbol
  exact symbol.1.1

theorem Standard.letter (standard : Standard host) {c : UInt8} (letter : isLetter host c = true) :
    isSpace c = false := by
  rw [← Bool.not_eq_true]
  intro space
  exact Bool.false_ne_true ((standard _ space).1.symm.trans letter)

theorem Standard.digit (standard : Standard host) {c : UInt8}
    (digit : isDigitByte host c = true) : isSpace c = false := by
  rw [← Bool.not_eq_true]
  intro space
  exact Bool.false_ne_true ((standard _ space).2.symm.trans digit)

/-- Checks a short list of bytes, not all bytes. -/
theorem forall_listed {P : UInt8 → Prop} [DecidablePred P] {listed : List UInt8}
    (all : (listed.all fun c => decide (P c)) = true) : ∀ c ∈ listed, P c :=
  fun c member => of_decide_eq_true (List.all_eq_true.mp all c member)

theorem Contraction.plain {word : Bytes} (contraction : Contraction word) :
    ∀ c ∈ word, c < 0x80 ∧ isSpace c = false := by
  have quote : (39 : UInt8) < 0x80 ∧ isSpace 39 = false := by decide
  have plain : ∀ listed : List UInt8,
      (listed.all fun c => decide (c < 0x80 ∧ isSpace c = false)) = true →
        ∀ c ∈ listed, c < 0x80 ∧ isSpace c = false := fun _ => forall_listed
  cases contraction with
  | short letter =>
      rw [List.forall_mem_cons, List.forall_mem_singleton]
      exact ⟨quote, plain _ (by decide) _ letter⟩
  | ll first second =>
      rw [List.forall_mem_cons, List.forall_mem_cons, List.forall_mem_singleton]
      exact ⟨quote, plain _ (by decide) _ first, plain _ (by decide) _ second⟩
  | ve first second =>
      rw [List.forall_mem_cons, List.forall_mem_cons, List.forall_mem_singleton]
      exact ⟨quote, plain _ (by decide) _ first, plain _ (by decide) _ second⟩

/-- A piece after which the next blanks begin anew. -/
def Settled (host : Host) (piece : Bytes) : Prop :=
  (∀ d ∈ piece.getLast?, isBlank d = false) ∧
    ∀ before b c after, piece = before ++ b :: c :: after → isBlank b = true →
      isSpace c = false →
        (∀ d ∈ before.getLast?, isBlank d = false) ∧ b = 32 ∧ isSymbol host c = true

theorem Settled.solid {piece : Bytes} (solid : ∀ c ∈ piece, isBlank c = false) :
    Settled host piece := by
  refine ⟨fun d last => solid d (List.mem_of_mem_getLast? last), fun before b c after cut blank => ?_⟩
  have member : b ∈ piece := by
    rw [cut]
    exact List.mem_append_right _ List.mem_cons_self
  exact absurd blank (by rw [solid b member]; exact Bool.false_ne_true)

theorem Settled.loneBlanks {piece after : Bytes} (settled : Settled host piece)
    (nonempty : piece ≠ []) : LoneBlanks host (piece ++ after) ↔ LoneBlanks host after := by
  have last : ∀ d ∈ piece.getLast?, isBlank d = false := settled.1
  constructor
  · intro lone before b c rest cut blank solid
    have ⟨alone, next⟩ := lone (piece ++ before) b c rest
      (by rw [cut, List.append_assoc]) blank solid
    refine ⟨fun d found => alone d ?_, next⟩
    rw [List.getLast?_append, found]
    rfl
  · intro lone before b c rest cut blank solid
    rcases List.append_eq_append_iff.mp cut with ⟨middle, rfl, split⟩ | ⟨middle, rfl, split⟩
    · -- The blank is behind the piece.
      have ⟨alone, next⟩ := lone middle b c rest split blank solid
      refine ⟨fun d found => ?_, next⟩
      rw [List.getLast?_append] at found
      cases there : middle.getLast? with
      | none =>
          rw [there] at found
          exact last d found
      | some e =>
          rw [there] at found
          exact alone d (there.trans found)
    · cases middle with
      | nil =>
          rw [List.append_nil] at last
          exact ⟨last, (lone [] b c rest split.symm blank solid).2⟩
      | cons b' middle =>
          rw [List.cons_append, List.cons.injEq] at split
          obtain ⟨rfl, split⟩ := split
          cases middle with
          | nil =>
              refine absurd blank ?_
              rw [last b (by rw [List.getLast?_append]; rfl)]
              exact Bool.false_ne_true
          | cons c' middle =>
              rw [List.cons_append, List.cons.injEq] at split
              obtain ⟨rfl, -⟩ := split
              have ⟨alone, space, symbol⟩ := settled.2 before b c middle rfl blank solid
              exact ⟨alone, .inl ⟨space, symbol⟩⟩

/-- A space or nothing, then letters, digits, symbols or newlines. -/
theorem Settled.of_lead {lead body : Bytes} (space : lead = [] ∨ lead = [32])
    (solid : ∀ c ∈ body, isBlank c = false) (some : body ≠ [])
    (head : ∀ c ∈ body.head?, isSymbol host c = true) : Settled host (lead ++ body) := by
  rcases space with rfl | rfl
  · exact .solid solid
  · refine ⟨fun d last => ?_, fun before b c after cut blank _ => ?_⟩
    · rw [List.getLast?_append_of_ne_nil _ some] at last
      exact solid d (List.mem_of_mem_getLast? last)
    · cases before with
      | nil =>
          rw [List.singleton_append, List.nil_append, List.cons.injEq] at cut
          obtain ⟨rfl, rfl⟩ := cut
          exact ⟨fun d none => (by cases none), rfl, head c rfl⟩
      | cons first before =>
          rw [List.singleton_append, List.cons_append, List.cons.injEq] at cut
          have member : b ∈ body := by
            rw [cut.2]
            exact List.mem_append_right _ List.mem_cons_self
          exact absurd blank (by rw [solid b member]; exact Bool.false_ne_true)

theorem Settled.of_lines {run lines : Bytes} (spaces : ∀ c ∈ run, isSpace c = true)
    (newlines : ∀ c ∈ lines, isNewline c = true) (some : lines ≠ []) :
    Settled host (run ++ lines) := by
  refine ⟨fun d last => ?_, fun before b c after cut _ solid => ?_⟩
  · rw [List.getLast?_append_of_ne_nil _ some] at last
    exact isNewline_not_blank (newlines d (List.mem_of_mem_getLast? last))
  · have member : c ∈ run ++ lines := by
      rw [cut]
      exact List.mem_append_right _ (List.mem_cons_of_mem _ List.mem_cons_self)
    have space : isSpace c = true := (List.mem_append.mp member).elim (spaces c)
      fun line => isNewline_isSpace (newlines c line)
    exact absurd space (by rw [solid]; exact Bool.false_ne_true)

theorem Standard.letter_blank (standard : Standard host) {c : UInt8}
    (letter : isLetter host c = true) (blank : isBlank c = true) : False :=
  Bool.false_ne_true ((standard.letter letter).symm.trans (isBlank_isSpace blank))

theorem symbol_blank {c : UInt8} (symbol : isSymbol host c = true) (blank : isBlank c = true) :
    False :=
  Bool.false_ne_true ((isSymbol_not_space symbol).symm.trans (isBlank_isSpace blank))

/-- A word that begins with a blank: letters behind it, a symbol behind a space, or white space. -/
theorem Word.after_blank (standard : Standard host) {b : UInt8} {rest : Bytes}
    (blank : isBlank b = true) (word : Word host (b :: rest)) :
    (∀ c ∈ rest, isLetter host c = true) ∨ (b = 32 ∧ ∃ c ∈ rest.head?, isSymbol host c = true) ∨
      ∀ c ∈ b :: rest, isSpace c = true := by
  have cut : ∃ piece, Word host piece ∧ b :: rest = piece := ⟨_, word, rfl⟩
  obtain ⟨piece, word, cut⟩ := cut
  cases word with
  | contraction contraction =>
      have first := (contraction.plain b (by rw [← cut]; exact List.mem_cons_self)).2
      exact absurd (isBlank_isSpace blank) (by rw [first]; exact Bool.false_ne_true)
  | @letters lead letters short plain nonempty all =>
      rcases lead with _ | ⟨b', _ | ⟨_, _⟩⟩
      · rw [List.nil_append] at cut
        exact (standard.letter_blank (all b (by rw [← cut]; exact List.mem_cons_self)) blank).elim
      · rw [List.singleton_append, List.cons.injEq] at cut
        rw [cut.2]
        exact .inl all
      · simp at short
  | digits nonempty short all =>
      have first := standard.digit (all b (by rw [← cut]; exact List.mem_cons_self))
      exact absurd (isBlank_isSpace blank) (by rw [first]; exact Bool.false_ne_true)
  | @symbols lead symbols lines space nonempty all newlines =>
      obtain ⟨symbol, others, rfl⟩ := List.exists_cons_of_ne_nil nonempty
      have first := all symbol List.mem_cons_self
      rcases space with rfl | rfl
      · rw [List.nil_append, List.cons_append, List.cons.injEq] at cut
        rw [← cut.1] at first
        exact (symbol_blank first blank).elim
      · rw [List.singleton_append, List.cons_append, List.cons.injEq] at cut
        rw [cut.2]
        exact .inr (.inl ⟨cut.1, symbol, rfl, first⟩)
  | @blanks spaces lines nonempty all newlines =>
      rw [cut]
      exact .inr (.inr fun c member => (List.mem_append.mp member).elim
        (fun listed => isBlank_isSpace (all c listed))
        fun listed => isNewline_isSpace (newlines c listed))

/-- Blanks and what follows them are a word of the pattern only if it is one blank and letters. -/
theorem blanks_word_iff (standard : Standard host) {run after : Bytes} {d : UInt8}
    (blanks : ∀ c ∈ run, isBlank c = true) (some : run ≠ []) (solid : isSpace d = false)
    (apart : ¬ (run = [32] ∧ isSymbol host d = true)) :
    Word host (run ++ d :: after) ↔ LoneBlanks host (run ++ d :: after) := by
  obtain ⟨b, run, rfl⟩ := List.exists_cons_of_ne_nil some
  have blank := blanks b List.mem_cons_self
  rw [List.cons_append]
  constructor
  · intro word
    rcases word.after_blank standard blank with letters | ⟨rfl, c, first, symbol⟩ | spaces
    · -- One blank: another would be among the letters.
      intro before b' c rest split blank' solid'
      cases before with
      | nil =>
          rw [List.nil_append, List.cons.injEq] at split
          refine ⟨fun e none => (by cases none), .inr fun e member => letters e ?_⟩
          rwa [split.2]
      | cons first before =>
          rw [List.cons_append, List.cons.injEq] at split
          refine (standard.letter_blank (letters b' ?_) blank').elim
          rw [split.2]
          exact List.mem_append_right _ List.mem_cons_self
    · cases run with
      | nil =>
          obtain rfl := Option.some.inj first
          exact absurd ⟨rfl, symbol⟩ apart
      | cons second run =>
          obtain rfl := Option.some.inj first
          exact (symbol_blank symbol (blanks second
            (List.mem_cons_of_mem _ List.mem_cons_self))).elim
    · have space := spaces d
        (List.mem_cons_of_mem _ (List.mem_append_right _ List.mem_cons_self))
      exact absurd space (by rw [solid]; exact Bool.false_ne_true)
  · intro lone
    rcases List.eq_nil_or_concat run with rfl | ⟨front, last, rfl⟩
    · have ⟨_, next⟩ := lone [] b d after rfl blank solid
      have letters : ∀ e ∈ d :: after, isLetter host e = true := by
        rcases next with ⟨rfl, symbol⟩ | letters
        · exact absurd ⟨rfl, symbol⟩ apart
        · exact letters
      refine .letters (show [b].length ≤ 1 from le_rfl) ?_ (List.cons_ne_nil d after) letters
      refine List.forall_mem_singleton.mpr ⟨?_, ?_, ?_⟩
      · rw [isBlank, Bool.and_eq_true, Bool.not_eq_true'] at blank
        exact blank.2
      · exact (standard _ (isBlank_isSpace blank)).1
      · exact (standard _ (isBlank_isSpace blank)).2
    · -- Two blanks: the last one does not stand alone.
      have lastBlank := blanks last (by simp)
      have ⟨alone, _⟩ := lone (b :: front) last d after (by simp) lastBlank solid
      have before : ∀ e ∈ (b :: front).getLast?, isBlank e = true := fun e member =>
        blanks e (by
          have listed := List.mem_of_mem_getLast? member
          simp only [List.mem_cons, List.concat_eq_append, List.mem_append] at listed ⊢
          tauto)
      obtain ⟨e, there⟩ := Option.isSome_iff_exists.mp
        (List.getLast?_isSome.mpr (List.cons_ne_nil b front))
      exact absurd (before e there) (by rw [alone e there]; exact Bool.false_ne_true)

end Words


section Pieces

variable {host : Host} {text : Bytes} {beyond : Nat → UInt8}

/-- What one pass of the loop emits, and what it leaves. -/
structure Cut (host : Host) (rest piece after : Bytes) : Prop where
  whole : rest = piece ++ after
  nonempty : piece ≠ []
  fits : (Word host piece ∧ Settled host piece) ∨
    after = [] ∧ (Word host piece ↔ LoneBlanks host piece)

/-- Letters, perhaps behind one character that is neither. -/
theorem Cut.letters (standard : Standard host) {lead run after : Bytes} (short : lead.length ≤ 1)
    (plain : ∀ c ∈ lead, isSymbol host c = true) (nonempty : run ≠ [])
    (all : ∀ c ∈ run, isLetter host c = true) :
    Cut host (lead ++ run ++ after) (lead ++ run) after where
  whole := rfl
  nonempty := fun empty => nonempty (List.append_eq_nil_iff.mp empty).2
  fits := by
    refine .inl ⟨.letters short (fun c member => ?_) nonempty all, .solid fun c member => ?_⟩
    · have symbol := plain c member
      have space := isSymbol_not_space symbol
      simp only [isSymbol, isOther, Bool.and_eq_true, Bool.not_eq_true'] at symbol
      refine ⟨?_, symbol.1.2, symbol.2⟩
      rw [← Bool.not_eq_true]
      exact fun line => absurd (isNewline_isSpace line) (by rw [space]; exact Bool.false_ne_true)
    · exact not_blank ((List.mem_append.mp member).elim
        (fun listed => isSymbol_not_space (plain c listed)) fun listed => standard.letter (all c listed))

/-- Symbols and the newlines behind them, perhaps after a space. -/
theorem Cut.symbols {lead run lines after : Bytes} (space : lead = [] ∨ lead = [32])
    (nonempty : run ≠ []) (all : ∀ c ∈ run, isSymbol host c = true)
    (newlines : ∀ c ∈ lines, isNewline c = true) :
    Cut host (lead ++ (run ++ lines) ++ after) (lead ++ (run ++ lines)) after where
  whole := rfl
  nonempty := fun empty =>
    nonempty (List.append_eq_nil_iff.mp (List.append_eq_nil_iff.mp empty).2).1
  fits := by
    refine .inl ⟨.symbols space nonempty all newlines, .of_lead space (fun c member => ?_) ?_ ?_⟩
    · exact (List.mem_append.mp member).elim (fun listed => not_blank (isSymbol_not_space (all c listed)))
        fun listed => isNewline_not_blank (newlines c listed)
    · exact fun empty => nonempty (List.append_eq_nil_iff.mp empty).1
    · obtain ⟨first, others, rfl⟩ := List.exists_cons_of_ne_nil nonempty
      intro c head
      obtain rfl := Option.some.inj head
      exact all first List.mem_cons_self

/-- White space up to a newline, and the newlines. -/
theorem Cut.lines {run lines after : Bytes} (blanks : ∀ c ∈ run, isBlank c = true)
    (newlines : ∀ c ∈ lines, isNewline c = true) (nonempty : lines ≠ []) :
    Cut host (run ++ lines ++ after) (run ++ lines) after where
  whole := rfl
  nonempty := fun empty => nonempty (List.append_eq_nil_iff.mp empty).2
  fits := .inl ⟨.blanks (fun empty => nonempty (List.append_eq_nil_iff.mp empty).2) blanks newlines,
    .of_lines (fun c member => isBlank_isSpace (blanks c member)) newlines nonempty⟩

/-- Blanks that no newline follows: the piece is the rest of the text. -/
theorem Cut.rest (standard : Standard host) {run after : Bytes} (some : run ≠ [])
    (blanks : ∀ c ∈ run, isBlank c = true) (solid : ∀ c ∈ after.head?, isSpace c = false)
    (apart : ∀ c ∈ after.head?, ¬ (run = [32] ∧ isSymbol host c = true)) :
    Cut host (run ++ after) (run ++ after) [] where
  whole := (List.append_nil _).symm
  nonempty := fun empty => some (List.append_eq_nil_iff.mp empty).1
  fits := by
    refine .inr ⟨rfl, ?_⟩
    cases after with
    | nil =>
        refine iff_of_true (.blanks ?_ blanks fun c none => (by cases none)) ?_
        · rwa [List.append_nil]
        · intro before b c after cut _ nonspace
          have member : c ∈ run := by
            rw [← List.append_nil run, cut]
            exact List.mem_append_right _ (List.mem_cons_of_mem _ List.mem_cons_self)
          exact absurd (isBlank_isSpace (blanks c member))
            (by rw [nonspace]; exact Bool.false_ne_true)
    | cons d after => exact blanks_word_iff standard blanks some (solid d rfl) (apart d rfl)

/-- The two loops for symbols and for the newlines behind them. -/
theorem symbols_run (ascii : ∀ c ∈ text, c < 0x80) {p : Nat} {c : UInt8} {rest : Bytes}
    (here : text.drop p = c :: rest) (symbol : isSymbol host c = true) :
    ∃ run lines after, c :: rest = run ++ lines ++ after ∧ run ≠ [] ∧
      (∀ c ∈ run, isSymbol host c = true) ∧ (∀ c ∈ lines, isNewline c = true) ∧
      skipAll ⟨text, beyond⟩ unicodeIsNewline (skipAll ⟨text, beyond⟩ (isOther host) p) =
        p + (run ++ lines).length := by
  obtain ⟨run, after, passed, ended⟩ := @skipAll_ascii text beyond ascii (isOther host) p
  obtain ⟨lines, later, passedLines, endedLines⟩ :=
    @skipAll_ascii text beyond ascii unicodeIsNewline (p + run.length)
  obtain ⟨others, shape⟩ := passed.first here symbol
  refine ⟨run, lines, later, ?_, ?_, passed.all, passedLines.all, ?_⟩
  · rw [← here, passed.whole, ← passed.behind, passedLines.whole, List.append_assoc]
  · rw [shape]
    exact List.cons_ne_nil c others
  · rw [ended, endedLines, List.length_append, Nat.add_assoc]

/-- The branch for white space. -/
theorem blanks_cut (standard : Standard host) (ascii : ∀ c ∈ text, c < 0x80) {p : Nat}
    {c : UInt8} {rest : Bytes} (here : text.drop p = c :: rest)
    (space : (unicodeIsSpace c.toUInt32 || unicodeIsNewline c.toUInt32) = true)
    (apart : ¬ (c.toUInt32 = 32 ∧ p + 1 < TextView.size ⟨text, beyond⟩ ∧
      isOther host (TextView.utf8Decode ⟨text, beyond⟩ (p + 1)).1 = true)) :
    ∃ piece after, Cut host (c :: rest) piece after ∧
      (let blank := skipAll ⟨text, beyond⟩ (fun cp => unicodeIsSpace cp && !unicodeIsNewline cp) p
      if blank < TextView.size ⟨text, beyond⟩ ∧
          unicodeIsNewline (TextView.utf8Decode ⟨text, beyond⟩ blank).1 = true then
        skipAll ⟨text, beyond⟩ unicodeIsNewline blank
      else TextView.size ⟨text, beyond⟩) = p + piece.length := by
  obtain ⟨run, after, passed, ended⟩ := @skipAll_ascii text beyond ascii
    (fun cp => unicodeIsSpace cp && !unicodeIsNewline cp) p
  have whole : c :: rest = run ++ after := here.symm.trans passed.whole
  have inside := lt_of_drop here
  have size := congrArg List.length passed.whole
  rw [List.length_drop, List.length_append] at size
  have behind := passed.behind
  simp only [ended]
  cases after with
  | nil =>
      have nonempty : run ≠ [] := by
        rw [← List.append_nil run, ← whole]
        exact List.cons_ne_nil c rest
      -- The text ends in blanks.
      have cut : Cut host (run ++ []) (run ++ []) [] :=
        .rest standard nonempty passed.all (fun d none => (by cases none)) fun d none =>
          (by cases none)
      refine ⟨run ++ [], [], by rw [whole]; exact cut, ?_⟩
      rw [List.length_nil] at size
      rw [if_neg (fun more => absurd more.1 (by simp only [TextView.size]; omega)), List.append_nil]
      simp only [TextView.size]
      omega
  | cons d after =>
      have inner := lt_of_drop behind
      rw [utf8Decode_ascii ascii behind]
      have stopped := passed.stops d rfl
      by_cases line : unicodeIsNewline d.toUInt32 = true
      · obtain ⟨lines, later, passedLines, endedLines⟩ :=
          @skipAll_ascii text beyond ascii unicodeIsNewline (p + run.length)
        obtain ⟨others, shape⟩ := passedLines.first behind line
        have cut : Cut host (run ++ lines ++ later) (run ++ lines) later :=
          .lines passed.all passedLines.all (by rw [shape]; exact List.cons_ne_nil d others)
        refine ⟨run ++ lines, later, ?_, ?_⟩
        · rw [whole, ← behind, passedLines.whole, ← List.append_assoc]
          exact cut
        · rw [if_pos ⟨inner, line⟩, endedLines, List.length_append, Nat.add_assoc]
      · -- `p = end`: the piece takes in the rest of the text.
        rw [Bool.not_eq_true] at line
        have solid : isSpace d = false := by
          rwa [line, Bool.not_false, Bool.and_true] at stopped
        have nonempty : run ≠ [] := by
          rintro rfl
          rw [List.nil_append, List.cons.injEq] at whole
          rw [whole.1, line, Bool.or_false] at space
          exact absurd space (by rw [show unicodeIsSpace d.toUInt32 = false from solid]; exact
            Bool.false_ne_true)
        have cut : Cut host (run ++ d :: after) (run ++ d :: after) [] := by
          refine .rest standard nonempty passed.all (fun e first => ?_) fun e first => ?_
          · obtain rfl := Option.some.inj first
            exact solid
          · obtain rfl := Option.some.inj first
            rintro ⟨rfl, symbol⟩
            rw [List.singleton_append, List.cons.injEq] at whole
            obtain ⟨rfl, rfl⟩ := whole
            refine apart ⟨rfl, inner, ?_⟩
            rw [show p + 1 = p + [(32 : UInt8)].length from rfl, utf8Decode_ascii ascii behind]
            exact symbol
        refine ⟨run ++ d :: after, [], by rw [whole]; exact cut, ?_⟩
        rw [if_neg fun more => absurd more.2 (by rw [line]; exact Bool.false_ne_true),
          List.length_append]
        simp only [TextView.size]
        omega

theorem pieceEnd_cut (standard : Standard host) (ascii : ∀ c ∈ text, c < 0x80) {p : Nat}
    {c : UInt8} {rest : Bytes} (here : text.drop p = c :: rest) :
    ∃ piece after, Cut host (c :: rest) piece after ∧
      pieceEnd host ⟨text, beyond⟩ p = p + piece.length := by
  have next := drop_cons here
  rw [pieceEnd]
  simp only [utf8Decode_ascii ascii here, symbol_eq, spaced_eq]
  split
  · rename_i contraction
    obtain rfl : c = 39 := by
      rw [← UInt8.toNat_inj, ← UInt8.toNat_toUInt32, contraction.1]
      rfl
    obtain ⟨word, after, rfl, length, matched⟩ := matchContraction_word here contraction.2
    have solid : ∀ d ∈ 39 :: word, isBlank d = false := fun d member =>
      not_blank (matched.plain d member).2
    exact ⟨39 :: word, after, ⟨rfl, List.cons_ne_nil _ _,
      .inl ⟨.contraction matched, .solid solid⟩⟩, by rw [length, List.length_cons]⟩
  · split
    · rename_i letter
      obtain ⟨run, after, passed, ended⟩ := @skipAll_ascii text beyond ascii host.isalpha (p + 1)
      have cut : Cut host (([] ++ c :: run) ++ after) ([] ++ c :: run) after :=
        .letters standard (Nat.zero_le 1) (fun c none => (by cases none)) (List.cons_ne_nil c run)
          (List.forall_mem_cons.mpr ⟨letter, passed.all⟩)
      have whole : c :: rest = [] ++ c :: run ++ after := by
        rw [← next, passed.whole]
        rfl
      refine ⟨c :: run, after, by rw [whole]; exact cut, ?_⟩
      rw [ended, List.length_cons]
      omega
    · rename_i noLetter
      split
      · rename_i ahead
        obtain ⟨run, after, passed, ended⟩ := @skipAll_ascii text beyond ascii host.isalpha (p + 1)
        have symbol : isSymbol host c = true := ahead.1
        have nonempty : run ≠ [] := by
          cases shape : rest with
          | nil =>
              rw [shape, List.drop_eq_nil_iff] at next
              exact absurd ahead.2.1 (not_lt.mpr next)
          | cons n others =>
              rw [shape] at next
              have letter := ahead.2.2
              rw [utf8Decode_ascii ascii next] at letter
              obtain ⟨more, first⟩ := passed.first next letter
              rw [first]
              exact List.cons_ne_nil n more
        have cut : Cut host ([c] ++ run ++ after) ([c] ++ run) after :=
          .letters standard le_rfl (List.forall_mem_singleton.mpr symbol) nonempty passed.all
        have whole : c :: rest = [c] ++ run ++ after := by
          rw [← next, passed.whole]
          rfl
        refine ⟨[c] ++ run, after, by rw [whole]; exact cut, ?_⟩
        rw [ended, List.singleton_append, List.length_cons]
        omega
      · split
        · rename_i digit
          obtain ⟨run, after, passed, ended⟩ := @skip_ascii text beyond ascii host.isdigit 3 p
          obtain ⟨others, shape⟩ := passed.first here digit
          have nonempty : run ≠ [] := by
            rw [shape]
            exact List.cons_ne_nil c others
          have solid : ∀ d ∈ run, isBlank d = false := fun d member =>
            not_blank (standard.digit (passed.all d member))
          exact ⟨run, after, ⟨here.symm.trans passed.whole, nonempty,
            .inl ⟨.digits nonempty passed.short passed.all, .solid solid⟩⟩, ended⟩
        · rename_i noDigit
          split
          · rename_i symbol
            obtain ⟨run, lines, after, whole, nonempty, all, newlines, ended⟩ :=
              @symbols_run host text beyond ascii p c rest here symbol
            have cut : Cut host ([] ++ (run ++ lines) ++ after) ([] ++ (run ++ lines)) after :=
              .symbols (.inl rfl) nonempty all newlines
            exact ⟨run ++ lines, after, by rw [whole]; exact cut, ended⟩
          · rename_i noSymbol
            split
            · rename_i space
              have blank : c = 32 := by
                rw [← UInt8.toNat_inj, ← UInt8.toNat_toUInt32, space.1]
                rfl
              subst blank
              cases shape : rest with
              | nil =>
                  rw [shape, List.drop_eq_nil_iff] at next
                  exact absurd space.2.1 (not_lt.mpr next)
              | cons n others =>
                  rw [shape] at next
                  have symbol : isSymbol host n = true := by
                    have other := space.2.2
                    rwa [utf8Decode_ascii ascii next] at other
                  obtain ⟨run, lines, after, whole, nonempty, all, newlines, ended⟩ :=
                    @symbols_run host text beyond ascii (p + 1) n others next symbol
                  have cut : Cut host ([32] ++ (run ++ lines) ++ after) ([32] ++ (run ++ lines))
                      after := .symbols (.inr rfl) nonempty all newlines
                  refine ⟨[32] ++ (run ++ lines), after, by rw [whole]; exact cut, ?_⟩
                  rw [ended, List.singleton_append, List.length_cons]
                  omega
            · rename_i noSpace
              have space : (unicodeIsSpace c.toUInt32 || unicodeIsNewline c.toUInt32) = true := by
                rw [isOther, Bool.eq_false_of_not_eq_true noLetter,
                  Bool.eq_false_of_not_eq_true noDigit, Bool.not_false, Bool.and_true,
                  Bool.and_true, Bool.not_eq_true'] at noSymbol
                rw [Bool.eq_true_of_not_eq_false noSymbol, Bool.true_or]
              rw [if_pos space]
              exact blanks_cut standard ascii here space noSpace

theorem piecesFrom_words (standard : Standard host) (ascii : ∀ c ∈ text, c < 0x80) (p : Nat) :
    (∀ piece ∈ piecesFrom host ⟨text, beyond⟩ (TextView.size ⟨text, beyond⟩ - p) p,
      Word host piece) ↔ LoneBlanks host (text.drop p) := by
  cases here : text.drop p with
  | nil =>
      rw [List.drop_eq_nil_iff] at here
      rw [show TextView.size ⟨text, beyond⟩ - p = 0 from Nat.sub_eq_zero_of_le here]
      refine iff_of_true (fun piece none => (by cases none)) fun before b c after cut => ?_
      simp at cut
  | cons c rest =>
      have inside := lt_of_drop here
      obtain ⟨piece, after, cut, ended⟩ := @pieceEnd_cut host text beyond standard ascii p c rest here
      have long := List.length_pos_iff.mpr cut.nonempty
      have fits : p + piece.length ≤ text.length := by
        have size := congrArg List.length (here.trans cut.whole)
        rw [List.length_drop, List.length_append] at size
        omega
      have behind : text.drop (p + piece.length) = after := by
        rw [← List.drop_drop, here, cut.whole, List.drop_left]
      have emitted : TextView.span ⟨text, beyond⟩ p (p + piece.length) = piece := by
        rw [span_drop _ fits, here, cut.whole, List.take_left]
      rw [piecesFrom_eq host ⟨text, beyond⟩ inside, ended, emitted, List.forall_mem_cons,
        piecesFrom_words standard ascii (p + piece.length), behind, cut.whole]
      rcases cut.fits with ⟨word, settled⟩ | ⟨rfl, whole⟩
      · rw [settled.loneBlanks cut.nonempty, and_iff_right word]
      · rw [List.append_nil, whole]
        refine and_iff_left fun before b c after cut => ?_
        simp at cut
termination_by text.length - p

/-- On ASCII the pieces are words of the pattern only where the loop is never left early. -/
theorem preTokenize_words_iff (host : Host) (standard : Standard host) (text : Bytes)
    (ascii : ∀ c ∈ text, c < 0x80) :
    (∀ piece ∈ preTokenize host text, Word host piece) ↔ LoneBlanks host text :=
  @piecesFrom_words host text (host.beyond text) standard ascii 0

end Pieces

/-- The "C" locale, with zeros behind every string. -/
def cLocale : Host where
  isalpha cp := (65 ≤ cp && cp ≤ 90) || (97 ≤ cp && cp ≤ 122)
  isdigit cp := 48 ≤ cp && cp ≤ 57
  beyond _ _ := 0
  hashOrder entries := entries
  permutes := .refl

theorem cLocale_standard : Standard cLocale := by
  intro cp space
  simp only [unicodeIsSpace, Bool.or_eq_true, beq_iff_eq] at space
  rcases space with ((((rfl | rfl) | rfl) | rfl) | rfl) | rfl <;> exact ⟨rfl, rfl⟩

theorem preTokenize_words_iff_two :
    (∀ piece ∈ preTokenize cLocale [97, 32, 98], Word cLocale piece) ↔
      LoneBlanks cLocale [97, 32, 98] :=
  preTokenize_words_iff cLocale cLocale_standard [97, 32, 98] (forall_listed (by decide))

/-- Of "a b c" the second piece is " b c". -/
theorem rest_unsplit : ¬ ∀ piece ∈ preTokenize cLocale [97, 32, 98, 32, 99], Word cLocale piece := by
  have pieces : preTokenize cLocale [97, 32, 98, 32, 99] = [[97], [32, 98, 32, 99]] := by decide
  rw [pieces]
  intro words
  have lone := (@blanks_word_iff cLocale cLocale_standard [32] [32, 99] 98
    (List.forall_mem_singleton.mpr rfl)
    (List.cons_ne_nil _ _) rfl (by decide)).mp (words [32, 98, 32, 99] (by simp))
  rcases (lone [] 32 98 [32, 99] rfl rfl rfl).2 with symbol | letters
  · exact absurd symbol.2 (by decide)
  · exact absurd (letters 32 (by simp)) (by decide)

end BPETokenizer

end MiniLLM
