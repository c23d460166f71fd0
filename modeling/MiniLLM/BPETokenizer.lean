import MiniLLM.GGUFParser
import MiniLLM.Loops
import Mathlib.Data.List.Sort
import Mathlib.Data.List.Nodup
import Mathlib.Logic.Function.Basic

/-!
io/bpe_tokenizer. A text is its bytes; what memory holds after a text, how the C
library classifies characters and in which order a hash map is walked are the
host's. A piece of `pre_tokenize` ends where `pieceEnd` says, which is the body
of its loop. The symbols of `bpe` are an array with `int` links into itself.
-/

namespace MiniLLM

open ByteReader Loops

/-- What the C library and the memory of a process decide. -/
structure Host where
  isalpha : UInt32 → Bool
  isdigit : UInt32 → Bool
  beyond : Bytes → Nat → UInt8
  hashOrder : List (Bytes × Int) → List (Bytes × Int)
  permutes : ∀ entries, (hashOrder entries).Perm entries

/-- `bpe_ranks_`: a rank is the index of a merge in a metadata array, which has at most 2^24. -/
structure MergeRanks where
  rank : Bytes → Bytes → Option Int
  small : ∀ a b r, rank a b = some r → r < 2147483647

/-- An initialised tokenizer; the added tokens are the entries of a map, sorted by length. -/
structure BPETokenizer where
  vocab : List Bytes
  vocabMap : Bytes → Option Int
  bpeRanks : MergeRanks
  bosId : Int
  eosId : Int
  padId : Int
  addedTokens : List (Bytes × Int)
  distinct : (addedTokens.map Prod.fst).Nodup
  nonempty : ∀ entry ∈ addedTokens, entry.1 ≠ []
  descending : addedTokens.Pairwise fun a b => b.1.length ≤ a.1.length

namespace BPETokenizer

/-! The byte mapping. -/

def isDirect (b : Nat) : Bool :=
  (33 ≤ b && b ≤ 126) || (161 ≤ b && b ≤ 172) || (174 ≤ b && b ≤ 255)

/-- `g_byte_to_unicode` and the counter `n` of the loop that fills it. -/
def byteToUnicode : List UInt32 × Nat :=
  (List.range 256).foldl (fun (table, n) b =>
    if isDirect b then (table ++ [UInt32.ofNat b], n)
    else (table ++ [UInt32.ofNat (256 + n)], n + 1)) ([], 0)

def encodeCodepoint (cp : UInt32) : Bytes :=
  let continuation (shift : UInt32) : UInt32 := 0x80 ||| ((cp >>> shift) &&& 0x3F)
  let codes : List UInt32 :=
    if cp < 0x80 then [cp]
    else if cp < 0x800 then [(0xC0 : UInt32) ||| (cp >>> 6), continuation 0]
    else if cp < 0x10000 then [(0xE0 : UInt32) ||| (cp >>> 12), continuation 6, continuation 0]
    else [(0xF0 : UInt32) ||| (cp >>> 18), continuation 12, continuation 6, continuation 0]
  codes.map UInt32.toUInt8

def bytesToUnicode (raw : Bytes) : Bytes :=
  raw.flatMap fun b => encodeCodepoint (byteToUnicode.1.getD b.toNat 0)

/-! UTF-8 helpers. -/

def utf8CharLen (c : UInt8) : Nat :=
  if c < 0x80 then 1
  else if c &&& 0xE0 = 0xC0 then 2
  else if c &&& 0xF0 = 0xE0 then 3
  else if c &&& 0xF8 = 0xF0 then 4
  else 1

/-- The memory that `text.data()` points to: the text, a zero byte, and what follows. -/
structure TextView where
  text : Bytes
  beyond : Nat → UInt8

namespace TextView

def size (view : TextView) : Nat := view.text.length

def byteAt (view : TextView) (p : Nat) : UInt8 :=
  if p < view.size then view.text.getD p 0
  else if p = view.size then 0
  else view.beyond (p - view.size - 1)

def utf8Decode (view : TextView) (p : Nat) : UInt32 × Nat :=
  let c := (view.byteAt p).toUInt32
  let s1 := (view.byteAt (p + 1)).toUInt32 &&& 0x3F
  let s2 := (view.byteAt (p + 2)).toUInt32 &&& 0x3F
  let s3 := (view.byteAt (p + 3)).toUInt32 &&& 0x3F
  if c < 0x80 then (c, 1)
  else if c &&& 0xE0 = 0xC0 then (((c &&& 0x1F) <<< 6) ||| s1, 2)
  else if c &&& 0xF0 = 0xE0 then (((c &&& 0x0F) <<< 12) ||| (s1 <<< 6) ||| s2, 3)
  else (((c &&& 0x07) <<< 18) ||| (s1 <<< 12) ||| (s2 <<< 6) ||| s3, 4)

/-- The bytes from `p` up to `q`. -/
def span (view : TextView) (p q : Nat) : Bytes := (List.range' p (q - p)).map view.byteAt

end TextView

def unicodeIsSpace (cp : UInt32) : Bool :=
  cp == 32 || cp == 9 || cp == 10 || cp == 13 || cp == 12 || cp == 11

def unicodeIsNewline (cp : UInt32) : Bool := cp == 10 || cp == 13

/-! `pre_tokenize`. -/

section PreTokenize

variable (host : Host) (view : TextView)

/-- `while (p < end) { decode; if (!more(cp)) break; p += len; }`, on at most `fuel` characters. -/
def skip (more : UInt32 → Bool) : Nat → Nat → Nat
  | 0, p => p
  | fuel + 1, p =>
      if p < view.size ∧ more (view.utf8Decode p).1 = true then
        skip more fuel (p + (view.utf8Decode p).2)
      else p

/-- A loop that can run to the end of the text. -/
def skipAll (more : UInt32 → Bool) (p : Nat) : Nat := skip view more (view.size - p) p

def matchContraction (p : Nat) : Nat :=
  let next := view.byteAt (p + 1)
  let third := view.byteAt (p + 2)
  let ends (lower upper : UInt8) : Nat :=
    if p + 2 < view.size ∧ (third = lower ∨ third = upper) then 3 else 0
  if view.size ≤ p + 1 then 0
  else if next = 115 ∨ next = 116 ∨ next = 100 ∨ next = 109 ∨
      next = 83 ∨ next = 84 ∨ next = 68 ∨ next = 77 then 2
  else if next = 108 ∨ next = 76 then ends 108 76
  else if next = 118 ∨ next = 86 then ends 101 69
  else if next = 114 ∨ next = 82 then ends 101 69
  else 0

def isOther (cp : UInt32) : Bool := !unicodeIsSpace cp && !host.isalpha cp && !host.isdigit cp

/-- Where the loop has moved `p` when it emits a piece or begins its next pass. -/
def pieceEnd (p : Nat) : Nat :=
  let cp := (view.utf8Decode p).1
  let clen := (view.utf8Decode p).2
  let isLetter := host.isalpha cp
  let isDigit := host.isdigit cp
  let isSpace := unicodeIsSpace cp
  let isNewline := unicodeIsNewline cp
  if cp = 39 ∧ 0 < matchContraction view p then p + matchContraction view p
  else if isLetter then skipAll view host.isalpha (p + clen)
  else if (!isSpace && !isNewline && !isDigit && !isLetter) = true ∧ p + clen < view.size ∧
      host.isalpha (view.utf8Decode (p + clen)).1 = true then
    skipAll view host.isalpha (p + clen)
  else if isDigit then skip view host.isdigit 3 p
  else if (!isSpace && !isNewline && !isDigit && !isLetter) = true then
    skipAll view unicodeIsNewline (skipAll view (isOther host) p)
  else if cp = 32 ∧ p + 1 < view.size ∧
      (!unicodeIsSpace (view.utf8Decode (p + 1)).1 &&
        !unicodeIsNewline (view.utf8Decode (p + 1)).1 &&
        !host.isalpha (view.utf8Decode (p + 1)).1 &&
        !host.isdigit (view.utf8Decode (p + 1)).1) = true then
    skipAll view unicodeIsNewline (skipAll view (isOther host) (p + 1))
  else if isSpace || isNewline then
    let blank := skipAll view (fun cp => unicodeIsSpace cp && !unicodeIsNewline cp) p
    if blank < view.size ∧ unicodeIsNewline (view.utf8Decode blank).1 = true then
      skipAll view unicodeIsNewline blank
    else view.size
  else p + clen

/-- `if (from < to) pieces.emplace_back(from, to - from);` -/
def emit (p q : Nat) : List Bytes := if p < q then [view.span p q] else []

def piecesFrom : Nat → Nat → List Bytes
  | 0, _ => []
  | fuel + 1, p =>
      if p < view.size then
        emit view p (pieceEnd host view p) ++ piecesFrom fuel (pieceEnd host view p)
      else []

/-- Every pass moves `p` forward, so the fuel lasts; see `piecesFrom_eq`. -/
def preTokenize (text : Bytes) : List Bytes :=
  piecesFrom host ⟨text, host.beyond text⟩ text.length 0

end PreTokenize

/-! `bpe`. -/

structure Symbol where
  text : Bytes
  prev : Int := -1
  next : Int := -1
  deriving DecidableEq, Repr

abbrev Symbols := Buffer Symbol

/-- Each character's bytes; one that the end cuts off ends there, which no word of `encode` has. -/
def splitSymbols : Nat → Bytes → List Bytes
  | _, [] => []
  | 0, _ => []
  | fuel + 1, c :: rest =>
      (c :: rest).take (utf8CharLen c) :: splitSymbols fuel ((c :: rest).drop (utf8CharLen c))

def linkSymbols (count : Int) (texts : List Bytes) : Symbols := fun i =>
  if (i : Int) < count then
    { text := texts.getD i []
      prev := (i : Int) - 1
      next := if (i : Int) + 1 < count then (i : Int) + 1 else -1 }
  else { text := texts.getD i [] }

section Merging

variable (ranks : MergeRanks)

/-- One pass of the scan for `best_rank` and `best_idx`. -/
def consider (symbols : Symbols) (i : Nat) (best : Int × Int) : Int × Int :=
  if (symbols i).next < 0 then best
  else
    match ranks.rank (symbols i).text (symbols (symbols i).next.toNat).text with
    | some rank => if rank < best.1 then (rank, (i : Int)) else best
    | none => best

def findBest (count : Nat) (symbols : Symbols) : Int × Int :=
  loop count (consider ranks symbols) (2147483647, -1)

def setText (symbols : Symbols) (i : Nat) (text : Bytes) : Symbols :=
  store symbols i { symbols i with text := text }

def setNext (symbols : Symbols) (i : Nat) (next : Int) : Symbols :=
  store symbols i { symbols i with next := next }

def setPrev (symbols : Symbols) (i : Nat) (prev : Int) : Symbols :=
  store symbols i { symbols i with prev := prev }

/-- The symbol at `best` takes in the one after it. -/
def absorb (symbols : Symbols) (best : Nat) : Symbols :=
  let j := (symbols best).next.toNat
  let symbols := setText symbols best ((symbols best).text ++ (symbols j).text)
  let symbols := setNext symbols best (symbols j).next
  let symbols :=
    if 0 ≤ (symbols j).next then setPrev symbols (symbols j).next.toNat best else symbols
  setPrev symbols j (-2)

def mergeLoop (count : Nat) : Nat → Symbols → Option Symbols
  | 0, _ => none
  | fuel + 1, symbols =>
      let bestIdx := (findBest ranks count symbols).2
      if bestIdx < 0 then some symbols
      else mergeLoop count fuel (absorb symbols bestIdx.toNat)

end Merging

/-- `while (cur >= 0)`, pushing the ids of the pieces that have one. -/
def walk (vocabMap : Bytes → Option Int) (symbols : Symbols) : Nat → Int → Option (List Int)
  | 0, cur => if cur < 0 then some [] else none
  | fuel + 1, cur =>
      if cur < 0 then some []
      else
        (walk vocabMap symbols fuel (symbols cur.toNat).next).map
          ((vocabMap (symbols cur.toNat).text).toList ++ ·)

/-- The loop over all symbols stops at the first that begins a list. -/
def collect (vocabMap : Bytes → Option Int) (count : Nat) (symbols : Symbols) :
    Option (List Int) :=
  let head := (List.range count).find? fun i =>
    ¬ ((symbols i).prev = -2 ∨ ((symbols i).prev ≠ -1 ∧ (symbols i).prev ≠ -2))
  match head with
  | none => some []
  | some i => walk vocabMap symbols (count + 1) i

/-- Indices are `int`s, also the converted size; without a result the fuel ran out. -/
def bpe (ranks : MergeRanks) (vocabMap : Bytes → Option Int) (word : Bytes) :
    Option (List Int) :=
  let texts := splitSymbols word.length word
  match texts with
  | [] => some []
  | [single] => some (vocabMap single).toList
  | _ =>
      let size := wrap32 texts.length
      let count := size.toNat
      (mergeLoop ranks count (count * count + 1) (linkSymbols size texts)).bind
        (collect vocabMap count)

/-! `encode`. -/

/-- `text.find(token, pos)`, nothing for `npos`. -/
def find (text token : Bytes) (pos : Nat) : Option Nat :=
  (List.range' pos (text.length + 1 - pos)).find? fun i => token.isPrefixOf (text.drop i)

/-- `found < earliest`, where `npos` is above every position. -/
def foundBefore (found earliest : Option Nat) : Bool :=
  match found, earliest with
  | none, _ => false
  | some _, none => true
  | some f, some e => f < e

structure Match where
  earliest : Option Nat
  matchedId : Int
  matchedLen : Nat
  deriving DecidableEq, Repr

def findAdded (addedTokens : List (Bytes × Int)) (text : Bytes) (pos : Nat) : Match :=
  addedTokens.foldl (fun best entry =>
    if foundBefore (find text entry.1 pos) best.earliest then
      ⟨find text entry.1 pos, entry.2, entry.1.length⟩
    else best) ⟨none, -1, 0⟩

variable (host : Host) (tokenizer : BPETokenizer)

/-- The ids of a stretch without added tokens. -/
def encodePlain (segment : Bytes) : Option (List Int) :=
  ((preTokenize host segment).mapM fun piece =>
    bpe tokenizer.bpeRanks tokenizer.vocabMap (bytesToUnicode piece)).map List.flatten

def encodeFrom (text : Bytes) : Nat → Nat → List Int → Option (List Int)
  | 0, _, _ => none
  | fuel + 1, pos, tokens =>
      if pos < text.length then
        let found := findAdded tokenizer.addedTokens text pos
        match found.earliest with
        | none => (encodePlain host tokenizer (text.drop pos)).map (tokens ++ ·)
        | some earliest =>
            if pos < earliest then
              (encodePlain host tokenizer ((text.drop pos).take (earliest - pos))).bind fun ids =>
                encodeFrom text fuel (earliest + found.matchedLen)
                  (tokens ++ ids ++ [found.matchedId])
            else
              encodeFrom text fuel (earliest + found.matchedLen) (tokens ++ [found.matchedId])
      else some tokens

/-- `std::expected` never holds an error here; without a result the fuel ran out. -/
def encode (text : Bytes) (addBos addEos : Bool) : Option (List Int) :=
  let tokens := if addBos ∧ 0 ≤ tokenizer.bosId then [tokenizer.bosId] else []
  (encodeFrom host tokenizer text (text.length + 1) 0 tokens).map fun tokens =>
    if addEos ∧ 0 ≤ tokenizer.eosId then tokens ++ [tokenizer.eosId] else tokens

end BPETokenizer

end MiniLLM
