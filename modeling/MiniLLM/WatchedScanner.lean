import MiniLLM.PreTokenize
import MiniLLM.Recording

/-!
`pre_tokenize` with what it touches: the bytes it reads, also to copy a piece, and
the arguments it passes to `std::isalpha` and `std::isdigit`. A loop that is cut
short by its fuel has no result.
-/

namespace MiniLLM

open ByteReader Recording

namespace BPETokenizer

namespace Watched

/-- A call records its argument, which is an `int`. -/
inductive Event where
  | byte (place : Nat)
  | isalpha (arg : Int)
  | isdigit (arg : Int)
  deriving DecidableEq

open Recorded

section Scanner

variable (host : Host) (view : TextView)

def byteAt (p : Nat) : Recorded Event UInt8 := do
  event (.byte p)
  return view.byteAt p

def utf8Decode (p : Nat) : Recorded Event (UInt32 × Nat) := do
  let lead ← byteAt view p
  let c := lead.toUInt32
  if c < 0x80 then return (c, 1)
  else if c &&& 0xE0 = 0xC0 then
    let s1 ← byteAt view (p + 1)
    return (((c &&& 0x1F) <<< 6) ||| (s1.toUInt32 &&& 0x3F), 2)
  else if c &&& 0xF0 = 0xE0 then
    let s1 ← byteAt view (p + 1)
    let s2 ← byteAt view (p + 2)
    return (((c &&& 0x0F) <<< 12) ||| ((s1.toUInt32 &&& 0x3F) <<< 6) ||| (s2.toUInt32 &&& 0x3F), 3)
  else
    let s1 ← byteAt view (p + 1)
    let s2 ← byteAt view (p + 2)
    let s3 ← byteAt view (p + 3)
    return (((c &&& 0x07) <<< 18) ||| ((s1.toUInt32 &&& 0x3F) <<< 12) |||
      ((s2.toUInt32 &&& 0x3F) <<< 6) ||| (s3.toUInt32 &&& 0x3F), 4)

def unicodeIsLetter (cp : UInt32) : Recorded Event Bool := do
  event (.isalpha (wrap32 cp.toNat))
  return host.isalpha cp

def unicodeIsDigit (cp : UInt32) : Recorded Event Bool := do
  event (.isdigit (wrap32 cp.toNat))
  return host.isdigit cp

/-- `!unicode_is_space(cp) && !unicode_is_letter(cp) && !unicode_is_digit(cp)`; one caller also asks
for a newline, which is a space. -/
def isOther (cp : UInt32) : Recorded Event Bool := do
  if unicodeIsSpace cp then return false
  else if ← unicodeIsLetter host cp then return false
  else
    let digit ← unicodeIsDigit host cp
    return !digit

def matchContraction (p : Nat) : Recorded Event Nat := do
  let ends (lower upper : UInt8) : Recorded Event Nat := do
    -- read once, whichever of the two letters it is
    if p + 2 < view.size then
      let third ← byteAt view (p + 2)
      return if third = lower ∨ third = upper then 3 else 0
    else return 0
  if view.size ≤ p + 1 then return 0
  else
    let next ← byteAt view (p + 1)
    if next = 115 ∨ next = 116 ∨ next = 100 ∨ next = 109 ∨
        next = 83 ∨ next = 84 ∨ next = 68 ∨ next = 77 then return 2
    else if next = 108 ∨ next = 76 then ends 108 76
    else if next = 118 ∨ next = 86 then ends 101 69
    else if next = 114 ∨ next = 82 then ends 101 69
    else return 0

/-- A loop over characters; `spent` says what comes of one that its count ends. -/
def skip (spent : Nat → Recorded Event Nat) (more : UInt32 → Recorded Event Bool) :
    Nat → Nat → Recorded Event Nat
  | 0, p => spent p
  | fuel + 1, p => do
      if p < view.size then
        let next ← utf8Decode view p
        if ← more next.1 then skip spent more fuel (p + next.2)
        else return p
      else return p

def skipAll (more : UInt32 → Recorded Event Bool) (p : Nat) : Recorded Event Nat :=
  skip view (fun _ => outOfFuel) more (view.size + 1) p

/-- `emit`, and where the loop goes on. -/
def emit (p q : Nat) : Recorded Event (List Bytes × Nat) := do
  let bytes ← (List.range' p (q - p)).mapM (byteAt view)
  return (if p < q then [bytes] else [], q)

/-- `p < end`, and then whether the character there passes. -/
def peek (p : Nat) (test : UInt32 → Recorded Event Bool) : Recorded Event Bool := do
  if p < view.size then
    let next ← utf8Decode view p
    test next.1
  else return false

/-- A run of symbols and the newlines behind it. -/
def symbols (start p : Nat) : Recorded Event (List Bytes × Nat) := do
  let run ← skipAll view (isOther host) p
  let lines ← skipAll view (fun cp => return unicodeIsNewline cp) run
  emit view start lines

def whiteSpace (p : Nat) : Recorded Event (List Bytes × Nat) := do
  let blank ← skipAll view (fun cp => return unicodeIsSpace cp && !unicodeIsNewline cp) p
  if ← peek view blank fun cp => return unicodeIsNewline cp then
    let lines ← skipAll view (fun cp => return unicodeIsNewline cp) blank
    emit view p lines
  else
    -- `trailing`, which nothing uses
    let _ ← peek view blank fun cp => return unicodeIsSpace cp
    emit view p view.size

/-- The branches of the loop once the character is classified. -/
def classified (p : Nat) (cp : UInt32) (clen : Nat) (isLetter isDigit : Bool) :
    Recorded Event (List Bytes × Nat) := do
  let isSpace := unicodeIsSpace cp
  let isNewline := unicodeIsNewline cp
  if isLetter then
    let q ← skipAll view (unicodeIsLetter host) (p + clen)
    emit view p q
  else
    let symbol := !isSpace && !isNewline && !isDigit && !isLetter
    let ahead ← if symbol then peek view (p + clen) (unicodeIsLetter host) else pure false
    if ahead then
      let q ← skipAll view (unicodeIsLetter host) (p + clen)
      emit view p q
    else if isDigit then
      let q ← skip view (fun q => return q) (unicodeIsDigit host) 3 p
      emit view p q
    else if symbol then symbols host view p p
    else
      let spaced ← if cp = 32 then peek view (p + 1) (isOther host) else pure false
      if spaced then symbols host view p (p + 1)
      else if isSpace || isNewline then whiteSpace view p
      else emit view p (p + clen)

/-- `cp == '\''`, and only then the bytes behind it. -/
def contractionAt (p : Nat) (cp : UInt32) : Recorded Event Nat :=
  if cp = 39 then matchContraction view p else pure 0

/-- The body of the loop. -/
def piece (p : Nat) : Recorded Event (List Bytes × Nat) := do
  let next ← utf8Decode view p
  if 0 < (← contractionAt view p next.1) then
    let mlen ← matchContraction view p
    emit view p (p + mlen)
  else
    let isLetter ← unicodeIsLetter host next.1
    let isDigit ← unicodeIsDigit host next.1
    classified host view p next.1 next.2 isLetter isDigit

def piecesFrom : Nat → Nat → Recorded Event (List Bytes)
  | 0, _ => outOfFuel
  | fuel + 1, p => do
      if p < view.size then
        let first ← piece host view p
        let rest ← piecesFrom fuel first.2
        return first.1 ++ rest
      else return []

def preTokenize (text : Bytes) : Recorded Event (List Bytes) :=
  piecesFrom host ⟨text, host.beyond text⟩ (text.length + 1) 0

end Scanner

end Watched

end BPETokenizer

end MiniLLM
