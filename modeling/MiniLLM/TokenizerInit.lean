import MiniLLM.BPETokenizer
import MiniLLM.GgufGrammar

/-!
`BPETokenizer::init`. The map of added tokens is a list of entries with distinct
keys; the vector made from it is in the order of the hash map before it is
sorted. The merges are those of a file that the parser limits.
-/

namespace MiniLLM

open ByteReader

namespace BPETokenizer

def getI64 (metadata : List (Bytes × MetadataValue)) (key : String) : Int :=
  match metadata.lookup (ascii key) with
  | some (.int32 v) => v.toInt
  | some (.uint32 v) => wrap32 v.toNat
  | some (.int64 v) => wrap32 v.toInt
  | some (.uint64 v) => wrap32 v.toNat
  | some (.bool v) => if v then 1 else 0
  | _ => -1

def readTokens : List MetadataValue → Except Status (List Bytes)
  | [] => .ok []
  | .string s :: rest => do
      let tokens ← readTokens rest
      .ok (s :: tokens)
  | _ :: _ => .error (.typeError "tokenizer.ggml.tokens element is not a string")

def tokensOf (file : GGUFFile) : Except Status (List Bytes) :=
  match file.metadata.lookup (ascii "tokenizer.ggml.tokens") with
  | none => .error (.notFound "tokenizer.ggml.tokens not found in GGUF metadata")
  | some (.array elements) => readTokens elements
  | some _ => .error (.typeError "tokenizer.ggml.tokens is not an array")

/-- `vocab_map_`: of equal tokens the last one counts. -/
def vocabMapOf (vocab : List Bytes) : Bytes → Option Int :=
  vocab.zipIdx.foldl (fun map entry => Function.update map entry.1 (some (wrap32 entry.2)))
    fun _ => none

/-- No merges, or a value that is no array, leave the table empty. -/
def mergesOf (file : GGUFFile) : List MetadataValue :=
  match file.metadata.lookup (ascii "tokenizer.ggml.merges") with
  | some (.array elements) => elements
  | _ => []

/-- The parts before and after the first space. -/
def splitMerge (merge : Bytes) : Option (Bytes × Bytes) :=
  let left := merge.takeWhile (· != 32)
  if left.length < merge.length then some (left, merge.drop (left.length + 1)) else none

def mergePair : MetadataValue → Option (Bytes × Bytes)
  | .string merge => splitMerge merge
  | _ => none

def rankMerges (merges : List MetadataValue) : Bytes × Bytes → Option Int :=
  merges.zipIdx.foldl (fun ranks entry =>
    (mergePair entry.1).elim ranks fun pair =>
      Function.update ranks pair (some (wrap32 entry.2))) fun _ => none

/-- What the parser lets through as the length of an array. -/
def mergesLimit : Nat := 16 * 1024 * 1024

theorem rankMerges_small {merges : List MetadataValue} (few : merges.length ≤ mergesLimit)
    (pair : Bytes × Bytes) (r : Int) (ranked : rankMerges merges pair = some r) :
    r < 2147483647 := by
  revert pair r
  rw [rankMerges]
  refine List.foldlRecOn (motive := fun ranks : Bytes × Bytes → Option Int =>
    ∀ pair r, ranks pair = some r → r < 2147483647) _ _ ?_ ?_
  · intro pair r none
    cases none
  · intro ranks small entry listed pair r ranked
    have index : entry.2 < merges.length := by
      have bound := List.snd_lt_add_of_mem_zipIdx listed
      omega
    cases found : mergePair entry.1 with
    | none =>
        rw [found] at ranked
        exact small pair r ranked
    | some merged =>
        rw [found, Option.elim_some] at ranked
        by_cases same : pair = merged
        · rw [same, Function.update_self] at ranked
          have few : merges.length ≤ 16777216 := few
          rw [← Option.some.inj ranked, wrap32_eq _ (by omega) (by omega)]
          omega
        · rw [Function.update_of_ne same] at ranked
          exact small pair r ranked

def ranksOf (merges : List MetadataValue) (few : merges.length ≤ mergesLimit) : MergeRanks where
  rank := fun a b => rankMerges merges (a, b)
  small := fun a b r ranked => rankMerges_small few (a, b) r ranked

theorem mergesOf_parsed (header : WireHeader) (formed : header.WellFormed) {file : GGUFFile}
    (read : file.metadata = header.fields.metadata) : (mergesOf file).length ≤ mergesLimit := by
  rw [mergesOf, read, WireHeader.fields, GGUFParser.emplace_lookup]
  cases found : header.metadata.lookup (ascii "tokenizer.ggml.merges") with
  | none => exact Nat.zero_le _
  | some v =>
      obtain ⟨before, after, split, -⟩ := List.lookup_eq_some_iff.mp found
      have listed : (ascii "tokenizer.ggml.merges", v) ∈ header.metadata := by
        rw [split]
        simp
      have limits := formed.formedValues _ listed
      cases v with
      | array elemType elements =>
          have few : elements.length ≤ 16 * 1024 * 1024 := limits.1
          change (WireValue.valueAll elements).length ≤ mergesLimit
          rwa [WireValue.valueAll_eq, List.length_map]
      | _ => exact Nat.zero_le _

/-- Arrays of a file that was parsed are within the parser's limit. -/
theorem parse_merges (filename : String) (opened : Option FileBytes)
    (memoryView : Option Bytes) (file : GGUFFile)
    (parsed : GGUFParser.parse filename opened memoryView = .ok file) :
    (mergesOf file).length ≤ mergesLimit := by
  cases opened with
  | none => cases parsed
  | some disk =>
      rw [GGUFParser.parse] at parsed
      cases read : GGUFParser.parseHeader filename memoryView ⟨disk.bytes, 0⟩ with
      | error status =>
          rw [read] at parsed
          cases parsed
      | ok pair =>
          rw [read] at parsed
          obtain rfl : pair.1 = file := Except.ok.inj parsed
          obtain ⟨fields, fielded, same⟩ := (GGUFParser.parseHeader_ok _ _ _ _ _).mp read
          obtain ⟨header, formed, -, -, rfl⟩ := (GGUFParser.headerFields_ok _ _ _).mp fielded
          exact mergesOf_parsed header formed (by rw [same]; rfl)

/-! `added_tokens_map_` and the vector sorted from it. -/

/-- `map[key] = value` -/
def insertEntry (entries : List (Bytes × Int)) (key : Bytes) (value : Int) :
    List (Bytes × Int) :=
  if key ∈ entries.map Prod.fst then
    entries.map fun entry => if entry.1 = key then (key, value) else entry
  else entries ++ [(key, value)]

/-- Tokens that `pre_tokenize` would split. -/
def addedEntries (host : Host) (vocab : List Bytes) : List (Bytes × Int) :=
  vocab.zipIdx.foldl (fun entries entry =>
    if entry.1 = [] then entries
    else if 1 < (preTokenize host entry.1).length then
      insertEntry entries entry.1 (wrap32 entry.2)
    else entries) []

def sortAdded (host : Host) (entries : List (Bytes × Int)) : List (Bytes × Int) :=
  (host.hashOrder entries).mergeSort fun a b => decide (b.1.length ≤ a.1.length)

theorem insertEntry_keys (entries : List (Bytes × Int)) (key : Bytes) (value : Int) :
    (insertEntry entries key value).map Prod.fst =
      if key ∈ entries.map Prod.fst then entries.map Prod.fst
      else entries.map Prod.fst ++ [key] := by
  rw [insertEntry]
  split
  · rw [List.map_map]
    apply List.map_congr_left
    intro entry _
    simp only [Function.comp]
    split
    · rename_i same
      exact same.symm
    · rfl
  · rw [List.map_append]
    rfl

/-- Keys are distinct and not empty. -/
def Keyed (entries : List (Bytes × Int)) : Prop :=
  (entries.map Prod.fst).Nodup ∧ [] ∉ entries.map Prod.fst

theorem insertEntry_keyed {entries : List (Bytes × Int)} (keyed : Keyed entries) {key : Bytes}
    (nonempty : key ≠ []) (value : Int) : Keyed (insertEntry entries key value) := by
  unfold Keyed
  rw [insertEntry_keys]
  split
  · exact keyed
  · rename_i fresh
    constructor
    · rw [List.nodup_append]
      refine ⟨keyed.1, List.nodup_singleton key, fun k listed other last => ?_⟩
      rw [List.mem_singleton.mp last]
      rintro rfl
      exact fresh listed
    · rw [List.mem_append, List.mem_singleton]
      rintro (old | new)
      · exact keyed.2 old
      · exact nonempty new.symm

theorem addedEntries_keyed (host : Host) (vocab : List Bytes) :
    Keyed (addedEntries host vocab) := by
  refine List.foldlRecOn (motive := Keyed) _ _ ⟨List.nodup_nil, List.not_mem_nil⟩ ?_
  intro entries keyed entry _
  split
  · exact keyed
  · rename_i nonempty
    split
    · exact insertEntry_keyed keyed nonempty _
    · exact keyed

theorem sortAdded_perm (host : Host) (entries : List (Bytes × Int)) :
    (sortAdded host entries).Perm entries :=
  (List.mergeSort_perm _ _).trans (host.permutes entries)

theorem sortAdded_descending (host : Host) (entries : List (Bytes × Int)) :
    (sortAdded host entries).Pairwise fun a b => b.1.length ≤ a.1.length := by
  have total : ∀ a b : Bytes × Int,
      (decide (b.1.length ≤ a.1.length) || decide (a.1.length ≤ b.1.length)) = true := by
    intro a b
    rw [Bool.or_eq_true, decide_eq_true_eq, decide_eq_true_eq]
    exact Nat.le_total _ _
  have transitive : ∀ a b c : Bytes × Int, decide (b.1.length ≤ a.1.length) = true →
      decide (c.1.length ≤ b.1.length) = true → decide (c.1.length ≤ a.1.length) = true := by
    intro a b c first second
    rw [decide_eq_true_eq] at first second ⊢
    exact second.trans first
  exact (List.pairwise_mergeSort transitive total (host.hashOrder entries)).imp
    fun ordered => of_decide_eq_true ordered

/-- On a default-constructed tokenizer. -/
def init (host : Host) (file : GGUFFile) (few : (mergesOf file).length ≤ mergesLimit) :
    Except Status BPETokenizer := do
  let vocab ← tokensOf file
  let added := addedEntries host vocab
  have order := (sortAdded_perm host added).map Prod.fst
  have keyed := addedEntries_keyed host vocab
  .ok {
    vocab := vocab
    vocabMap := vocabMapOf vocab
    bpeRanks := ranksOf (mergesOf file) few
    bosId := getI64 file.metadata "tokenizer.ggml.bos_token_id"
    eosId := getI64 file.metadata "tokenizer.ggml.eos_token_id"
    padId := getI64 file.metadata "tokenizer.ggml.padding_token_id"
    addedTokens := sortAdded host added
    distinct := order.nodup_iff.mpr keyed.1
    nonempty := fun entry listed empty =>
      keyed.2 (order.subset (List.mem_map.mpr ⟨entry, listed, empty⟩))
    descending := sortAdded_descending host added }

end BPETokenizer

end MiniLLM
