import MiniLLM.EncodeSegments
import MiniLLM.ScannerTouches
import MiniLLM.TokenizerInit

/-!
The arguments of `std::isalpha` and `std::isdigit`, which are defined for the values
of an `unsigned char` and for `EOF` only. They are code points of characters that the
scanner comes to, in every stretch of a text that `encode` splits and in every
vocabulary string that `init` scans.
-/

namespace MiniLLM

open ByteReader Recording Segmentation

namespace BPETokenizer

namespace Watched

open Recorded

variable (host : Host)

def encodePlain (tokenizer : BPETokenizer) (segment : Bytes) : Recorded Event (List Int) := do
  let pieces ← preTokenize host segment
  lift ((pieces.mapM fun piece =>
    bpe tokenizer.bpeRanks tokenizer.vocabMap (bytesToUnicode piece)).map List.flatten)

def encodeFrom (tokenizer : BPETokenizer) (text : Bytes) :
    Nat → Nat → List Int → Recorded Event (List Int)
  | 0, _, _ => outOfFuel
  | fuel + 1, pos, tokens =>
      if pos < text.length then
        let found := findAdded tokenizer.addedTokens text pos
        match found.earliest with
        | none => do
            let ids ← encodePlain host tokenizer (text.drop pos)
            return tokens ++ ids
        | some earliest =>
            if pos < earliest then do
              let ids ← encodePlain host tokenizer ((text.drop pos).take (earliest - pos))
              encodeFrom tokenizer text fuel (earliest + found.matchedLen)
                (tokens ++ ids ++ [found.matchedId])
            else
              encodeFrom tokenizer text fuel (earliest + found.matchedLen)
                (tokens ++ [found.matchedId])
      else return tokens

def encode (tokenizer : BPETokenizer) (text : Bytes) (addBos addEos : Bool) :
    Recorded Event (List Int) := do
  let start := if addBos ∧ 0 ≤ tokenizer.bosId then [tokenizer.bosId] else []
  let tokens ← encodeFrom host tokenizer text (text.length + 1) 0 start
  return if addEos ∧ 0 ≤ tokenizer.eosId then tokens ++ [tokenizer.eosId] else tokens

def addedEntries (vocab : List Bytes) : Recorded Event (List (Bytes × Int)) :=
  vocab.zipIdx.foldlM (fun entries entry => do
    if entry.1 = [] then return entries
    else
      let pieces ← preTokenize host entry.1
      return if 1 < pieces.length then insertEntry entries entry.1 (wrap32 entry.2)
        else entries) []

/-- The added tokens that `init` makes from a file. -/
def init (file : GGUFFile) : Recorded Event (Except Status (List (Bytes × Int))) :=
  match tokensOf file with
  | .error status => return .error status
  | .ok vocab => do
      let added ← addedEntries host vocab
      return .ok (sortAdded host added)

end Watched

/-- The C library defines the classification of this `int`. -/
def Classifiable (arg : Int) : Prop := (0 ≤ arg ∧ arg ≤ 255) ∨ arg = -1

def InDomain : Watched.Event → Prop
  | .byte _ => True
  | .isalpha arg => Classifiable arg
  | .isdigit arg => Classifiable arg

/-- The characters that the scanner classifies are Latin-1 code points. -/
def CharactersLow (host : Host) (text : Bytes) : Prop :=
  ∀ spot, Comes host ⟨text, host.beyond text⟩ spot → spot.place < text.length →
    spot.phase ≠ .blank →
      (TextView.utf8Decode ⟨text, host.beyond text⟩ spot.place).1.toNat ≤ 255

theorem masked_lt (x m s : UInt32) (small : m.toNat * 2 ^ (s.toNat % 32) < 2 ^ 21) :
    ((x &&& m) <<< s).toNat < 2 ^ 21 := by
  rw [UInt32.toNat_shiftLeft, Nat.shiftLeft_eq, UInt32.toNat_and]
  calc (x.toNat &&& m.toNat) * 2 ^ (s.toNat % 32) % 2 ^ 32
      ≤ (x.toNat &&& m.toNat) * 2 ^ (s.toNat % 32) := Nat.mod_le _ _
    _ ≤ m.toNat * 2 ^ (s.toNat % 32) := Nat.mul_le_mul_right _ Nat.and_le_right
    _ < 2 ^ 21 := small

theorem or_lt {x y : UInt32} (first : x.toNat < 2 ^ 21) (second : y.toNat < 2 ^ 21) :
    (x ||| y).toNat < 2 ^ 21 := by
  rw [UInt32.toNat_or]
  exact Nat.or_lt_two_pow first second

theorem utf8Decode_lt (view : TextView) (p : Nat) : (view.utf8Decode p).1.toNat < 2 ^ 21 := by
  have last : ∀ x : UInt32, (x &&& 0x3F).toNat < 2 ^ 21 := fun x => by
    rw [UInt32.toNat_and]
    exact Nat.and_le_right.trans_lt (by decide)
  rw [TextView.utf8Decode]
  split
  · rename_i low
    exact (UInt32.lt_iff_toNat_lt.mp low).trans (by decide)
  · split
    · exact or_lt (masked_lt _ 0x1F 6 (by decide)) (last _)
    · split
      · exact or_lt (or_lt (masked_lt _ 0x0F 12 (by decide)) (masked_lt _ 0x3F 6 (by decide)))
          (last _)
      · exact or_lt (or_lt (or_lt (masked_lt _ 0x07 18 (by decide))
          (masked_lt _ 0x3F 12 (by decide))) (masked_lt _ 0x3F 6 (by decide))) (last _)

section Domain

variable {view : TextView}

theorem telling_inDomain : Watched.Telling view InDomain where
  inside _ _ := trivial
  ascii _ low high := .inl ⟨low, by omega⟩
  same _ := Iff.rfl

theorem classifies_inDomain {cp : UInt32} (small : cp.toNat < 2 ^ 21) :
    Watched.Classifies InDomain cp ↔ cp.toNat ≤ 255 := by
  have same : wrap32 cp.toNat = cp.toNat := wrap32_eq _ (by omega) (by omega)
  rw [Watched.Classifies, same]
  change (0 ≤ (cp.toNat : Int) ∧ (cp.toNat : Int) ≤ 255) ∨ (cp.toNat : Int) = -1 ↔ _
  omega

theorem fresh_inDomain (host : Host) (text : Bytes) :
    Watched.Fresh host ⟨text, host.beyond text⟩ InDomain 0 ↔ CharactersLow host text := by
  refine forall_congr' fun spot => imp_congr_right fun _ => imp_congr_right fun _ => ?_
  rw [classifies_inDomain (utf8Decode_lt _ _)]
  exact and_iff_right fun _ _ => trivial

end Domain

section Encoding

variable (host : Host) (tokenizer : BPETokenizer)

theorem preTokenize_domain (text : Bytes) (after : Prop) :
    Yields InDomain (CharactersLow host text ∧ after) (Watched.preTokenize host text)
      (preTokenize host text) after := by
  rw [← fresh_inDomain]
  exact (Watched.preTokenize_yields host text telling_inDomain).frame after

theorem encodePlain_domain {segment : Bytes} {ids : List Int}
    (encoded : encodePlain host tokenizer segment = some ids) (after : Prop) :
    Yields InDomain (CharactersLow host segment ∧ after)
      (Watched.encodePlain host tokenizer segment) ids after :=
  (preTokenize_domain host segment _).bind (.lift encoded)

/-- The stretches between added tokens. -/
def SegmentsLow (segments : List (Segment UInt8 Int)) : Prop :=
  ∀ symbols, Segment.plain symbols ∈ segments → CharactersLow host symbols

theorem charactersLow_nil : CharactersLow host [] := fun _ _ inside =>
  absurd inside (Nat.not_lt_zero _)

theorem segmentsLow_between (symbols : Bytes) :
    SegmentsLow host (Segment.between symbols) ↔ CharactersLow host symbols := by
  cases symbols with
  | nil => exact iff_of_true (fun s none => (by cases none)) (charactersLow_nil host)
  | cons first rest =>
      constructor
      · intro low
        exact low _ List.mem_cons_self
      · intro low s listed
        obtain rfl := Segment.plain.inj (List.mem_singleton.mp listed)
        exact low

theorem segmentsLow_marker (symbols : Bytes) (marker : Bytes × Int)
    (segments : List (Segment UInt8 Int)) :
    SegmentsLow host (Segment.between symbols ++ .marked marker.1 marker.2 :: segments) ↔
      CharactersLow host symbols ∧ SegmentsLow host segments := by
  rw [← segmentsLow_between]
  constructor
  · intro low
    exact ⟨fun s listed => low s (List.mem_append_left _ listed),
      fun s listed => low s (List.mem_append_right _ (List.mem_cons_of_mem _ listed))⟩
  · rintro ⟨first, later⟩ s listed
    rcases List.mem_append.mp listed with before | behind
    · exact first s before
    · rcases List.mem_cons.mp behind with same | more
      · cases same
      · exact later s more

theorem encodeFrom_domain (text : Bytes) (fuel pos : Nat) (tokens : List Int)
    (inside : pos ≤ text.length) (enough : text.length - pos < fuel) :
    ∃ segments ids, Segmented tokenizer.addedTokens (text.drop pos) segments ∧
      encodeFrom host tokenizer text fuel pos tokens = some ids ∧
      Yields InDomain (SegmentsLow host segments)
        (Watched.encodeFrom host tokenizer text fuel pos tokens) ids True := by
  induction fuel generalizing pos tokens with
  | zero => exact absurd enough (Nat.not_lt_zero _)
  | succ fuel ih =>
      rw [Watched.encodeFrom, encodeFrom]
      by_cases more : pos < text.length
      · rw [if_pos more, if_pos more]
        cases place : (findAdded tokenizer.addedTokens text pos).earliest with
        | none =>
            obtain ⟨ids, encoded⟩ := encodePlain_total host tokenizer (text.drop pos)
            simp only [place, encoded]
            refine ⟨_, tokens ++ ids, Segmented.rest (findAdded_none tokenizer place), rfl, ?_⟩
            refine Yields.congr ((encodePlain_domain host tokenizer encoded True).bind
              (.pure _ _)) ?_
            rw [segmentsLow_between, and_iff_left trivial]
        | some e =>
            obtain ⟨marker, first, id, len, after, positive, fits⟩ :=
              findAdded_some tokenizer place
            have onward : pos + (e - pos + marker.1.length) = e + marker.1.length := by omega
            simp only [place, id, len]
            split
            · obtain ⟨ids, encoded⟩ :=
                encodePlain_total host tokenizer ((text.drop pos).take (e - pos))
              obtain ⟨segments, others, later, same, yields⟩ :=
                ih (e + marker.1.length) (tokens ++ ids ++ [marker.2]) fits (by omega)
              refine ⟨_, others, Segmented.marker first (by rwa [List.drop_drop, onward]),
                by rw [encoded, Option.bind_some, same], ?_⟩
              exact Yields.congr ((encodePlain_domain host tokenizer encoded _).bind yields)
                (segmentsLow_marker host _ marker segments)
            · -- An added token begins at once: nothing is scanned before it.
              rename_i adjacent
              have none : (text.drop pos).take (e - pos) = [] := by
                rw [List.take_eq_nil_iff]
                omega
              obtain ⟨segments, others, later, same, yields⟩ :=
                ih (e + marker.1.length) (tokens ++ [marker.2]) fits (by omega)
              refine ⟨_, others, Segmented.marker first (by rwa [List.drop_drop, onward]), same, ?_⟩
              refine yields.congr ?_
              rw [segmentsLow_marker, none, and_iff_right (charactersLow_nil host)]
      · rw [if_neg more, if_neg more]
        have ended : text.drop pos = [] := List.drop_of_length_le (not_lt.mp more)
        have unmarked : ∀ marker ∈ tokenizer.addedTokens, ∀ i,
            ¬ marker.1 <+: ([] : Bytes).drop i := by
          intro marker listed i starts
          rw [List.drop_nil, List.prefix_nil] at starts
          exact tokenizer.nonempty marker listed starts
        refine ⟨Segment.between [], tokens, by rw [ended]; exact Segmented.rest unmarked, rfl, ?_⟩
        exact (Yields.pure _ _).congr (iff_of_true
          ((segmentsLow_between host []).mpr (charactersLow_nil host)) trivial)

/-- One run of `encode`: its segments, the ids of the model, and what it needs. -/
theorem encode_yields (text : Bytes) (addBos addEos : Bool) :
    ∃ segments ids, Segmented tokenizer.addedTokens text segments ∧
      encode host tokenizer text addBos addEos = some ids ∧
      Yields InDomain (SegmentsLow host segments)
        (Watched.encode host tokenizer text addBos addEos) ids True := by
  obtain ⟨segments, ids, segmented, same, yields⟩ := encodeFrom_domain host tokenizer text
    (text.length + 1) 0 (if addBos ∧ 0 ≤ tokenizer.bosId then [tokenizer.bosId] else [])
    (Nat.zero_le _) (by omega)
  rw [List.drop_zero] at segmented
  refine ⟨segments, _, segmented, ?_, yields.bind (.pure _ _)⟩
  rw [encode, same, Option.map_some]

theorem encode_result (text : Bytes) (addBos addEos : Bool) :
    (Watched.encode host tokenizer text addBos addEos).result =
      encode host tokenizer text addBos addEos := by
  obtain ⟨_, ids, _, same, yields⟩ := encode_yields host tokenizer text addBos addEos
  rw [same, yields.result]

theorem encode_domain (text : Bytes) (addBos addEos : Bool) :
    (∀ e ∈ (Watched.encode host tokenizer text addBos addEos).events, InDomain e) ↔
      ∀ segments, Segmented tokenizer.addedTokens text segments → SegmentsLow host segments := by
  obtain ⟨segments, ids, segmented, _, yields⟩ := encode_yields host tokenizer text addBos addEos
  rw [yields.whole]
  constructor
  · intro low others cut
    rw [cut.unique tokenizer.distinct segmented]
    exact low
  · exact fun low => low segments segmented

theorem addedEntries_domain (vocab : List Bytes) (after : Prop) :
    Yields InDomain ((∀ entry ∈ vocab, CharactersLow host entry) ∧ after)
      (Watched.addedEntries host vocab) (addedEntries host vocab) after := by
  have each : ∀ (entries : List (Bytes × Int)) (entry : Bytes × Nat) (after : Prop),
      Yields InDomain (CharactersLow host entry.1 ∧ after)
        (if entry.1 = [] then Pure.pure entries
        else do
          let pieces ← Watched.preTokenize host entry.1
          return if 1 < pieces.length then insertEntry entries entry.1 (wrap32 entry.2)
            else entries)
        (if entry.1 = [] then entries
        else if 1 < (preTokenize host entry.1).length then
          insertEntry entries entry.1 (wrap32 entry.2)
        else entries) after := by
    intro entries entry after
    split
    · rename_i empty
      rw [empty]
      exact (Yields.pure _ _).congr (and_iff_right (charactersLow_nil host))
    · exact (preTokenize_domain host entry.1 after).bind (.pure _ _)
  refine (Yields.foldlM each vocab.zipIdx []).congr (and_congr_left' ?_)
  constructor
  · intro low entry listed
    exact low entry.1 (List.mem_of_getElem? (List.mem_zipIdx_iff_getElem?.mp listed))
  · intro low entry listed
    obtain ⟨index, found⟩ := List.mem_iff_getElem?.mp listed
    exact low (entry, index) (List.mk_mem_zipIdx_iff_getElem?.mpr found)

theorem init_domain (file : GGUFFile) :
    (∀ e ∈ (Watched.init host file).events, InDomain e) ↔
      ∀ vocab, tokensOf file = .ok vocab → ∀ entry ∈ vocab, CharactersLow host entry := by
  rw [Watched.init]
  cases tokens : tokensOf file with
  | error status =>
      exact iff_of_true (fun e none => (by cases none)) fun vocab read => (by cases read)
  | ok vocab =>
      have run : Yields InDomain ((∀ entry ∈ vocab, CharactersLow host entry) ∧ True)
          (do
            let added ← Watched.addedEntries host vocab
            return (Except.ok (sortAdded host added) : Except Status (List (Bytes × Int))))
          (.ok (sortAdded host (addedEntries host vocab))) True := by
        refine (addedEntries_domain host vocab True).bind ?_
        exact .pure _ _
      rw [run.whole, and_iff_left trivial]
      constructor
      · rintro low _ read
        obtain rfl := Except.ok.inj read
        exact low
      · exact fun low => low vocab rfl

/-- The arguments are defined exactly for texts and vocabularies whose classified characters are
code points up to 255. -/
theorem classification_iff (file : GGUFFile) (text : Bytes) (addBos addEos : Bool) :
    ((∀ e ∈ (Watched.encode host tokenizer text addBos addEos).events, InDomain e) ∧
      ∀ e ∈ (Watched.init host file).events, InDomain e) ↔
      (∀ segments, Segmented tokenizer.addedTokens text segments → SegmentsLow host segments) ∧
        ∀ vocab, tokensOf file = .ok vocab → ∀ entry ∈ vocab, CharactersLow host entry :=
  and_congr (encode_domain host tokenizer text addBos addEos) (init_domain host file)

end Encoding

theorem noToken_nonempty (entry : Bytes × Int) (listed : entry ∈ []) : entry.1 ≠ [] :=
  absurd listed List.not_mem_nil

theorem noToken_descending : List.Pairwise (fun a b => b.1.length ≤ a.1.length)
    ([] : List (Bytes × Int)) := .nil

/-- A tokenizer without vocabulary. -/
def bare : BPETokenizer where
  vocab := []
  vocabMap _ := none
  bpeRanks := noMerges
  bosId := -1
  eosId := -1
  padId := -1
  addedTokens := []
  distinct := List.nodup_nil
  nonempty := noToken_nonempty
  descending := noToken_descending

/-- The character U+4E2D is passed to `std::isalpha` as 20013. -/
theorem ideograph_classified : ¬ ∀ e ∈
    (Watched.encode cLocale bare [0xE4, 0xB8, 0xAD] false false).events, InDomain e := by
  rw [encode_domain]
  intro low
  have cut : Segmented bare.addedTokens [0xE4, 0xB8, 0xAD] (Segment.between [0xE4, 0xB8, 0xAD]) :=
    Segmented.rest fun marker none => (by cases none)
  have first := low _ cut _ List.mem_cons_self ⟨.fresh, 0⟩ .refl (Nat.zero_lt_succ 2)
    fun phase => by cases phase
  exact absurd first (by decide)

end BPETokenizer

end MiniLLM
