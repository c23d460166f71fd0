import MiniLLM.PatternWords
import MiniLLM.WatchedScanner

/-!
The characters that the scanner comes to, as a walk over the text. From a run of
blanks the walk goes on only where the run ends in a newline. What the scanner needs
of its events is a condition on the characters of the walk.
-/

namespace MiniLLM

open ByteReader Recording

namespace BPETokenizer

/-- How the scanner comes to a character: to classify it, to see whether a space goes with it,
or within a run of blanks. -/
inductive Phase where
  | fresh
  | peek
  | blank
  deriving DecidableEq

structure Spot where
  phase : Phase
  place : Nat

section Walk

variable (host : Host) (view : TextView)

/-- A blank that is no letter or digit to the locale. -/
def startsBlanks (cp : UInt32) : Bool :=
  unicodeIsSpace cp && !unicodeIsNewline cp && !host.isalpha cp && !host.isdigit cp

/-- From one character to the next. -/
inductive Follows : Spot → Spot → Prop
  | next {p : Nat} : p < view.size → startsBlanks host (view.utf8Decode p).1 = false →
      Follows ⟨.fresh, p⟩ ⟨.fresh, p + (view.utf8Decode p).2⟩
  | peek {p : Nat} : p + 1 < view.size → startsBlanks host (view.utf8Decode p).1 = true →
      (view.utf8Decode p).1 = 32 → Follows ⟨.fresh, p⟩ ⟨.peek, p + 1⟩
  | symbol {p : Nat} : p < view.size → isOther host (view.utf8Decode p).1 = true →
      Follows ⟨.peek, p⟩ ⟨.fresh, p⟩
  | blanks {p : Nat} : p < view.size → startsBlanks host (view.utf8Decode p).1 = true →
      ¬ ((view.utf8Decode p).1 = 32 ∧ p + 1 < view.size ∧
        isOther host (view.utf8Decode (p + 1)).1 = true) →
      Follows ⟨.fresh, p⟩ ⟨.blank, p + (view.utf8Decode p).2⟩
  | blank {p : Nat} : p < view.size → unicodeIsSpace (view.utf8Decode p).1 = true →
      unicodeIsNewline (view.utf8Decode p).1 = false →
      Follows ⟨.blank, p⟩ ⟨.blank, p + (view.utf8Decode p).2⟩
  | line {p : Nat} : p < view.size → unicodeIsNewline (view.utf8Decode p).1 = true →
      Follows ⟨.blank, p⟩ ⟨.fresh, p⟩

/-- The scanner comes to the character. -/
def Comes (spot : Spot) : Prop := Relation.ReflTransGen (Follows host view) ⟨.fresh, 0⟩ spot

end Walk

theorem isSpace_low {cp : UInt32} (space : unicodeIsSpace cp = true) : cp.toNat < 128 := by
  simp only [unicodeIsSpace, Bool.or_eq_true, beq_iff_eq] at space
  rcases space with ((((rfl | rfl) | rfl) | rfl) | rfl) | rfl <;> decide

namespace Watched

/-! Conditions on events that depend on the characters only. -/

section Conditions

variable (host : Host) (view : TextView) (Meets : Event → Prop)

/-- Bytes of the text meet the condition, and so do ASCII arguments. -/
structure Telling : Prop where
  inside : ∀ i < view.size, Meets (.byte i)
  ascii : ∀ arg : Int, 0 ≤ arg → arg < 128 → Meets (.isalpha arg)
  same : ∀ arg, Meets (.isdigit arg) ↔ Meets (.isalpha arg)

def Decodes (p : Nat) : Prop := ∀ k < (view.utf8Decode p).2, Meets (.byte (p + k))

def Classifies (cp : UInt32) : Prop := Meets (.isalpha (wrap32 cp.toNat))

/-- What a character on the walk needs. -/
def Good (spot : Spot) : Prop :=
  spot.place < view.size → Decodes view Meets spot.place ∧
    (spot.phase ≠ .blank → Classifies Meets (view.utf8Decode spot.place).1)

def Fresh (p : Nat) : Prop := Always (Follows host view) (Good view Meets) ⟨.fresh, p⟩

def Running (p : Nat) : Prop := Always (Follows host view) (Good view Meets) ⟨.blank, p⟩

/-- All bytes before the place may be copied, and the walk can go on there. -/
def Onward (p : Nat) : Prop := (∀ i < p, Meets (.byte i)) ∧ Fresh host view Meets p

/-- What is left of `Onward` once a piece is copied. -/
def Behind (after : Nat → Prop) : Prop :=
  ∀ q, Onward host view Meets q ↔ (∀ i < q, Meets (.byte i)) ∧ after q

end Conditions

section Telling

variable {host : Host} {view : TextView} {Meets : Event → Prop} {p : Nat}

theorem Telling.classifies (telling : Telling view Meets) {cp : UInt32} (low : cp.toNat < 128) :
    Classifies Meets cp := by
  rw [Classifies, wrap32_eq _ (by omega) (by omega)]
  exact telling.ascii _ (Int.natCast_nonneg _) (by omega)

theorem Telling.space (telling : Telling view Meets) {cp : UInt32}
    (space : unicodeIsSpace cp = true) : Classifies Meets cp :=
  telling.classifies (isSpace_low space)

theorem Telling.onward (telling : Telling view Meets) (inside : p ≤ view.size) :
    Onward host view Meets p ↔ Fresh host view Meets p :=
  and_iff_right fun i below => telling.inside i (below.trans_le inside)

/-- A character within the text, and what is behind it. -/
theorem Telling.onward_next (telling : Telling view Meets) (inside : p < view.size)
    (decodes : Decodes view Meets p) : Onward host view Meets (p + (view.utf8Decode p).2) ↔
      Fresh host view Meets (p + (view.utf8Decode p).2) := by
  refine and_iff_right fun i below => ?_
  by_cases before : i < p
  · exact telling.inside i (before.trans inside)
  · rw [← Nat.add_sub_cancel' (not_lt.mp before)]
    exact decodes (i - p) (by omega)

theorem fresh_good (inside : p < view.size) (fresh : Fresh host view Meets p) :
    Decodes view Meets p ∧ Classifies Meets (view.utf8Decode p).1 := by
  have ⟨decodes, classifies⟩ := (always_iff.mp fresh).1 inside
  exact ⟨decodes, classifies fun phase => by cases phase⟩

theorem fresh_end (outside : view.size ≤ p) : Fresh host view Meets p := by
  refine always_iff.mpr ⟨fun inside => absurd inside (not_lt.mpr outside), fun t step => ?_⟩
  cases step <;> omega

theorem running_end (outside : view.size ≤ p) : Running host view Meets p := by
  refine always_iff.mpr ⟨fun inside => absurd inside (not_lt.mpr outside), fun t step => ?_⟩
  cases step <;> omega

theorem Telling.onward_plain (telling : Telling view Meets) (inside : p < view.size)
    (plain : startsBlanks host (view.utf8Decode p).1 = false) :
    Onward host view Meets p ↔
      (Decodes view Meets p ∧ Classifies Meets (view.utf8Decode p).1) ∧
        Onward host view Meets (p + (view.utf8Decode p).2) := by
  rw [telling.onward inside.le]
  constructor
  · intro fresh
    have good := fresh_good inside fresh
    exact ⟨good, (telling.onward_next inside good.1).mpr
      ((always_iff.mp fresh).2 _ (.next inside plain))⟩
  · rintro ⟨good, onward⟩
    refine always_iff.mpr ⟨fun _ => ⟨good.1, fun _ => good.2⟩, fun t step => ?_⟩
    cases step with
    | next => exact onward.2
    | peek _ blank _ => rw [plain] at blank; cases blank
    | blanks _ blank _ => rw [plain] at blank; cases blank

theorem running_blank (inside : p < view.size)
    (space : unicodeIsSpace (view.utf8Decode p).1 = true)
    (line : unicodeIsNewline (view.utf8Decode p).1 = false) :
    Running host view Meets p ↔
      Decodes view Meets p ∧ Running host view Meets (p + (view.utf8Decode p).2) := by
  constructor
  · intro running
    have ⟨good, onward⟩ := always_iff.mp running
    exact ⟨(good inside).1, onward _ (.blank inside space line)⟩
  · rintro ⟨decodes, running⟩
    refine always_iff.mpr ⟨fun _ => ⟨decodes, fun other => absurd rfl other⟩, fun t step => ?_⟩
    cases step with
    | blank => exact running
    | line _ newline => rw [line] at newline; cases newline

theorem running_line (inside : p < view.size)
    (line : unicodeIsNewline (view.utf8Decode p).1 = true) :
    Running host view Meets p ↔ Fresh host view Meets p := by
  constructor
  · intro running
    exact (always_iff.mp running).2 _ (.line inside line)
  · intro fresh
    refine always_iff.mpr ⟨fun _ => ⟨(fresh_good inside fresh).1, fun other => absurd rfl other⟩,
      fun t step => ?_⟩
    cases step with
    | blank _ _ other => rw [line] at other; cases other
    | line => exact fresh

/-- Behind blanks another character ends the walk. -/
theorem running_stop (inside : p < view.size)
    (solid : unicodeIsSpace (view.utf8Decode p).1 = false) :
    Running host view Meets p ↔ Decodes view Meets p := by
  constructor
  · intro running
    exact ((always_iff.mp running).1 inside).1
  · intro decodes
    refine always_iff.mpr ⟨fun _ => ⟨decodes, fun other => absurd rfl other⟩, fun t step => ?_⟩
    cases step with
    | blank _ space _ => rw [solid] at space; cases space
    | line _ newline => rw [newline_space newline] at solid; cases solid

/-- A space and the symbol behind it. -/
theorem Telling.fresh_spaced (telling : Telling view Meets) (inside : p + 1 < view.size)
    (blank : startsBlanks host (view.utf8Decode p).1 = true) (space : (view.utf8Decode p).1 = 32)
    (other : BPETokenizer.isOther host (view.utf8Decode (p + 1)).1 = true) :
    Fresh host view Meets p ↔ Decodes view Meets p ∧ Onward host view Meets (p + 1) := by
  rw [telling.onward inside.le]
  constructor
  · intro fresh
    have ⟨good, onward⟩ := always_iff.mp fresh
    have peek := onward _ (.peek inside blank space)
    exact ⟨(good ((Nat.lt_succ_self p).trans inside)).1,
      (always_iff.mp peek).2 _ (.symbol inside other)⟩
  · rintro ⟨decodes, fresh⟩
    have spaced : Classifies Meets (view.utf8Decode p).1 := by
      rw [space]
      exact telling.space rfl
    refine always_iff.mpr ⟨fun _ => ⟨decodes, fun _ => spaced⟩, fun t step => ?_⟩
    cases step with
    | next _ plain => rw [blank] at plain; cases plain
    | blanks _ _ apart => exact absurd ⟨space, inside, other⟩ apart
    | peek =>
        have good := fresh_good inside fresh
        refine always_iff.mpr ⟨fun _ => ⟨good.1, fun _ => good.2⟩, fun t step => ?_⟩
        cases step with
        | symbol => exact fresh

/-- Blanks, after a look at the character behind a space. -/
theorem Telling.fresh_blanks (telling : Telling view Meets) (inside : p < view.size)
    (blank : startsBlanks host (view.utf8Decode p).1 = true)
    (apart : ¬ ((view.utf8Decode p).1 = 32 ∧ p + 1 < view.size ∧
      BPETokenizer.isOther host (view.utf8Decode (p + 1)).1 = true)) :
    Fresh host view Meets p ↔ ((view.utf8Decode p).1 = 32 → p + 1 < view.size →
        Decodes view Meets (p + 1) ∧ Classifies Meets (view.utf8Decode (p + 1)).1) ∧
      Running host view Meets p := by
  have starts := blank
  simp only [startsBlanks, Bool.and_eq_true, Bool.not_eq_true'] at starts
  rw [running_blank inside starts.1.1.1 starts.1.1.2]
  constructor
  · intro fresh
    have ⟨good, onward⟩ := always_iff.mp fresh
    refine ⟨fun space more => ?_, (good inside).1, onward _ (.blanks inside blank apart)⟩
    have peeked := (always_iff.mp (onward _ (.peek more blank space))).1 more
    exact ⟨peeked.1, peeked.2 fun phase => by cases phase⟩
  · rintro ⟨peeked, decodes, running⟩
    refine always_iff.mpr ⟨fun _ => ⟨decodes, fun _ => telling.space starts.1.1.1⟩,
      fun t step => ?_⟩
    cases step with
    | next _ plain => rw [blank] at plain; cases plain
    | blanks => exact running
    | peek more _ space =>
        have good := peeked space more
        refine always_iff.mpr ⟨fun _ => ⟨good.1, fun _ => good.2⟩, fun t step => ?_⟩
        cases step with
        | symbol _ other => exact absurd ⟨space, more, other⟩ apart

end Telling

/-! A contraction is plain characters. -/

section Contractions

variable {host : Host} {text : Bytes} {beyond : Nat → UInt8} {Meets : Event → Prop}

theorem or_part {x y : UInt32} (low : (x ||| y) ||| 39 = 39) : x ||| 39 = 39 ∧ y ||| 39 = 39 := by
  constructor
  · calc x ||| 39 = x ||| ((x ||| y) ||| 39) := by rw [low]
      _ = (x ||| y) ||| 39 := by rw [← UInt32.or_assoc, ← UInt32.or_assoc, UInt32.or_self]
      _ = 39 := low
  · calc y ||| 39 = y ||| ((x ||| y) ||| 39) := by rw [low]
      _ = (x ||| y) ||| 39 := by
          rw [UInt32.or_comm x y, ← UInt32.or_assoc, ← UInt32.or_assoc, UInt32.or_self]
      _ = 39 := low

theorem shifted_part {x y : UInt32} (quote : (x <<< 6) ||| y = 39) : y = 39 := by
  have below : (x <<< 6).toNat ≤ 39 := by
    calc (x <<< 6).toNat ≤ ((x <<< 6) ||| y).toNat := by
          rw [UInt32.toNat_or]
          exact Nat.left_le_or
      _ = 39 := by
          rw [quote]
          rfl
  have zero : x <<< 6 = 0 := by
    rw [← UInt32.toNat_inj]
    rw [UInt32.toNat_shiftLeft, Nat.shiftLeft_eq] at below ⊢
    change x.toNat * 2 ^ 6 % 2 ^ 32 ≤ 39 at below
    change x.toNat * 2 ^ 6 % 2 ^ 32 = 0
    omega
  rwa [zero, UInt32.zero_or] at quote

/-- The apostrophe of a contraction is one byte: no letter behind it continues a longer code. -/
theorem contraction_lead {p : Nat} {c d : UInt8} {rest word : Bytes}
    (here : text.drop p = c :: d :: rest) (matched : Contraction (39 :: d :: word))
    (quote : (TextView.utf8Decode ⟨text, beyond⟩ p).1 = 39) : c < 0x80 := by
  have apart : ∀ listed : List UInt8, (listed.all fun d => decide (d.toUInt32 &&& 0x3F ≠ 39 ∧
      ((d.toUInt32 &&& 0x3F) <<< 6) ||| 39 ≠ 39 ∧ ((d.toUInt32 &&& 0x3F) <<< 12) ||| 39 ≠ 39)) =
        true → ∀ d ∈ listed, d.toUInt32 &&& 0x3F ≠ 39 ∧
          ((d.toUInt32 &&& 0x3F) <<< 6) ||| 39 ≠ 39 ∧
            ((d.toUInt32 &&& 0x3F) <<< 12) ||| 39 ≠ 39 := fun _ => forall_listed
  have ⟨two, three, four⟩ : d.toUInt32 &&& 0x3F ≠ 39 ∧ ((d.toUInt32 &&& 0x3F) <<< 6) ||| 39 ≠ 39 ∧
      ((d.toUInt32 &&& 0x3F) <<< 12) ||| 39 ≠ 39 := by
    cases matched with
    | short letter => exact apart _ (by decide) d letter
    | ll first _ => exact apart _ (by decide) d first
    | ve first _ => exact apart _ (by decide) d first
  have same : ∀ cp : UInt32, cp = 39 → cp ||| 39 = 39 := by
    rintro cp rfl
    exact UInt32.or_self
  rw [TextView.utf8Decode] at quote
  simp only [byteAt_drop here, byteAt_drop (drop_cons here)] at quote
  split at quote
  · rename_i low
    rw [UInt32.lt_iff_toNat_lt, UInt8.toNat_toUInt32] at low
    rw [UInt8.lt_iff_toNat_lt]
    exact low
  · split at quote
    · exact absurd (shifted_part quote) two
    · split at quote
      · exact absurd (or_part (or_part (same _ quote)).1).2 three
      · exact absurd (or_part (or_part (or_part (same _ quote)).1).1).2 four

theorem Telling.onward_word (telling : Telling ⟨text, beyond⟩ Meets) {word after : Bytes} {p : Nat}
    (here : text.drop p = word ++ after) (plain : ∀ c ∈ word, c < 0x80 ∧ isSpace c = false) :
    Onward host ⟨text, beyond⟩ Meets p ↔ Onward host ⟨text, beyond⟩ Meets (p + word.length) := by
  induction word generalizing p with
  | nil => rfl
  | cons c word ih =>
      have inside := lt_of_drop here
      have ⟨⟨low, solid⟩, others⟩ := List.forall_mem_cons.mp plain
      have decoded := @utf8Decode_low text beyond p c (word ++ after) here low
      have notBlank : startsBlanks host c.toUInt32 = false := by
        rw [startsBlanks, show unicodeIsSpace c.toUInt32 = false from solid]
        rfl
      have decodes : Decodes ⟨text, beyond⟩ Meets p := by
        intro k short
        rw [decoded] at short
        exact telling.inside (p + k) (show p + k < text.length by omega)
      have classifies : Classifies Meets c.toUInt32 := by
        apply telling.classifies
        rw [UInt8.toNat_toUInt32]
        exact UInt8.lt_iff_toNat_lt.mp low
      rw [telling.onward_plain inside (by rw [decoded]; exact notBlank), decoded,
        and_iff_right ⟨decodes, classifies⟩, ih (drop_cons here) others, List.length_cons,
        Nat.add_assoc, Nat.add_comm 1]

end Contractions

end Watched

end BPETokenizer

end MiniLLM
