import MiniLLM.PreTokenize
import Mathlib.Data.List.Range

/-!
The way back from mapped text to bytes. `init_byte_unicode_table` fills both
tables in one go: a printable byte keeps its code, the others are numbered from
256 on. The inverse table says with 0xFF that a code has no byte, which is also
what it holds for the byte 0xFF.
-/

namespace MiniLLM

open ByteReader Loops

namespace BPETokenizer

/-- `g_unicode_to_byte`: the direct bytes first, the others as the counter `n` meets them. -/
def unicodeToByte : Buffer UInt8 :=
  let direct := loop 256 (fun b table =>
    if isDirect b then store table b (UInt8.ofNat b) else table) fun _ => 0xFF
  (loop 256 (fun b (state : Buffer UInt8 × Nat) =>
    if isDirect b then state
    else (store state.1 (256 + state.2) (UInt8.ofNat b), state.2 + 1)) (direct, 0)).1

/-- `while (p < end)` of `unicode_to_bytes`, whose decoder has the masks of `utf8_decode`. -/
def unicodeToBytesFrom (view : TextView) : Nat → Nat → Bytes
  | 0, _ => []
  | fuel + 1, p =>
      if p < view.size then
        let cp := (view.utf8Decode p).1.toNat
        (if cp < 65536 ∧ unicodeToByte cp ≠ 0xFF then [unicodeToByte cp] else []) ++
          unicodeToBytesFrom view fuel (p + (view.utf8Decode p).2)
      else []

def unicodeToBytes (host : Host) (mapped : Bytes) : Bytes :=
  unicodeToBytesFrom ⟨mapped, host.beyond mapped⟩ mapped.length 0

/-! The tables. -/

/-- How many bytes below `b` are numbered from 256 on. -/
def indirectBelow (b : Nat) : Nat := (List.range b).countP fun c => !isDirect c

def codepoint (b : Nat) : Nat := if isDirect b then b else 256 + indirectBelow b

theorem indirectBelow_succ (b : Nat) :
    indirectBelow (b + 1) = indirectBelow b + if isDirect b then 0 else 1 := by
  rw [indirectBelow, List.range_succ, List.countP_append, ← indirectBelow, List.countP_singleton]
  cases isDirect b <;> rfl

theorem indirectBelow_le (b : Nat) : indirectBelow b ≤ b :=
  List.countP_le_length.trans (List.length_range).le

theorem indirectBelow_lt {b c : Nat} (below : b < c) (indirect : isDirect b = false) :
    indirectBelow b < indirectBelow c := by
  induction c with
  | zero => omega
  | succ c ih =>
      rw [indirectBelow_succ]
      rcases Nat.lt_succ_iff_lt_or_eq.mp below with before | rfl
      · exact (ih before).trans_le (Nat.le_add_right _ _)
      · rw [indirect]
        exact Nat.lt_succ_self _

theorem codepoint_lt {b : Nat} (byte : b < 256) : codepoint b < 512 := by
  have few := indirectBelow_le b
  unfold codepoint
  split <;> omega

theorem byteToUnicode_rounds (n : Nat) :
    (List.range n).foldl (fun (state : List UInt32 × Nat) b =>
      if isDirect b then (state.1 ++ [UInt32.ofNat b], state.2)
      else (state.1 ++ [UInt32.ofNat (256 + state.2)], state.2 + 1)) ([], 0) =
      ((List.range n).map fun b => UInt32.ofNat (codepoint b), indirectBelow n) := by
  induction n with
  | zero => rfl
  | succ n ih =>
      rw [List.range_succ, List.foldl_append, ih, List.map_append, indirectBelow_succ]
      rw [List.foldl_cons, List.foldl_nil, List.map_singleton, codepoint]
      cases isDirect n <;> rfl

theorem byteToUnicode_getD (b : UInt8) :
    byteToUnicode.1.getD b.toNat 0 = UInt32.ofNat (codepoint b.toNat) := by
  have byte : b.toNat < 256 := b.toNat_lt
  have rounds := byteToUnicode_rounds 256
  change byteToUnicode = _ at rounds
  rw [rounds, List.getD_eq_getElem?_getD, List.getElem?_map, List.getElem?_range byte]
  rfl

/-- After the rounds below `n`: the direct codes, and the numbers given so far. -/
structure Filled (n : Nat) (state : Buffer UInt8 × Nat) : Prop where
  counter : state.2 = indirectBelow n
  direct : ∀ b < 256, isDirect b = true → state.1 b = UInt8.ofNat b
  numbered : ∀ b < n, isDirect b = false → state.1 (256 + indirectBelow b) = UInt8.ofNat b

theorem Filled.round {n : Nat} {state : Buffer UInt8 × Nat} (filled : Filled n state) :
    Filled (n + 1) (if isDirect n then state
      else (store state.1 (256 + state.2) (UInt8.ofNat n), state.2 + 1)) := by
  cases kind : isDirect n with
  | true =>
      refine ⟨?_, filled.direct, fun b below indirect => ?_⟩
      · rw [if_pos rfl, indirectBelow_succ, kind]
        exact filled.counter
      · rcases Nat.lt_succ_iff_lt_or_eq.mp below with before | rfl
        · exact filled.numbered b before indirect
        · rw [kind] at indirect
          cases indirect
  | false =>
      rw [if_neg Bool.false_ne_true]
      refine ⟨?_, fun b byte direct => ?_, fun b below indirect => ?_⟩
      · rw [indirectBelow_succ, kind, filled.counter]
        rfl
      · exact (store_other _ _ b _ (by omega)).trans (filled.direct b byte direct)
      · rw [filled.counter]
        rcases Nat.lt_succ_iff_lt_or_eq.mp below with before | rfl
        · have less := indirectBelow_lt before indirect
          exact (store_other _ _ (256 + indirectBelow b) _ (by omega)).trans
            (filled.numbered b before indirect)
        · exact store_same _ _ _

theorem unicodeToByte_codepoint {b : Nat} (byte : b < 256) :
    unicodeToByte (codepoint b) = UInt8.ofNat b := by
  have direct := loop_invariant (fun n (table : Buffer UInt8) =>
      ∀ b < n, isDirect b = true → table b = UInt8.ofNat b) 256
    (fun b table => if isDirect b then store table b (UInt8.ofNat b) else table) (fun _ => 0xFF)
    (fun b none => by omega) (by
      intro n table _ held b below direct
      rcases Nat.lt_succ_iff_lt_or_eq.mp below with before | rfl
      · split
        · rw [store_other _ _ _ _ (by omega)]
          exact held b before direct
        · exact held b before direct
      · rw [if_pos direct, store_same])
  have filled : Filled 256 _ := loop_invariant Filled 256 _ (_, 0)
    ⟨rfl, direct, fun b none => by omega⟩ fun n state _ filled => filled.round
  unfold codepoint
  split
  · rename_i direct
    exact filled.direct b byte direct
  · rename_i indirect
    exact filled.numbered b byte (Bool.not_eq_true _ ▸ indirect)

/-! There and back. -/

theorem encodeCodepoint_char : ∀ cp < 512,
    encodeCodepoint (UInt32.ofNat cp) = String.utf8EncodeChar (Char.ofNat cp) := by
  decide +kernel

/-- The lead and the continuation byte of a code from 128 on. -/
def encodedPair (cp : UInt32) : UInt8 × UInt8 :=
  (((0xC0 : UInt32) ||| (cp >>> 6)).toUInt8, ((0x80 : UInt32) ||| ((cp >>> 0) &&& 0x3F)).toUInt8)

theorem encodedPair_decodes : ∀ n < 512, 128 ≤ n →
    ¬ (encodedPair (UInt32.ofNat n)).1.toUInt32 < 0x80 ∧
    (encodedPair (UInt32.ofNat n)).1.toUInt32 &&& 0xE0 = 0xC0 ∧
    (((encodedPair (UInt32.ofNat n)).1.toUInt32 &&& 0x1F) <<< 6) |||
      ((encodedPair (UInt32.ofNat n)).2.toUInt32 &&& 0x3F) = UInt32.ofNat n := by
  decide +kernel

theorem encodeCodepoint_decodes {cp : Nat} (small : cp < 512) (before rest : Bytes)
    (beyond : Nat → UInt8) :
    TextView.utf8Decode ⟨before ++ (encodeCodepoint (UInt32.ofNat cp) ++ rest), beyond⟩
      before.length = (UInt32.ofNat cp, (encodeCodepoint (UInt32.ofNat cp)).length) := by
  have here : ∀ first more, TextView.byteAt ⟨before ++ first :: more, beyond⟩ before.length =
      first := by
    intro first more
    simp [TextView.byteAt, TextView.size]
  have next : ∀ first second more,
      TextView.byteAt ⟨before ++ first :: second :: more, beyond⟩ (before.length + 1) = second := by
    intro first second more
    simp [TextView.byteAt, TextView.size]
  have value : (UInt32.ofNat cp).toNat = cp := by
    rw [UInt32.toNat_ofNat']
    omega
  by_cases ascii : cp < 128
  · have low : UInt32.ofNat cp < 0x80 := by
      rw [UInt32.lt_iff_toNat_lt, value]
      exact ascii
    have back : (UInt32.ofNat cp).toUInt8.toUInt32 = UInt32.ofNat cp := by
      rw [← UInt32.toNat_inj, UInt8.toNat_toUInt32, UInt32.toNat_toUInt8, value]
      omega
    have code : encodeCodepoint (UInt32.ofNat cp) = [(UInt32.ofNat cp).toUInt8] := by
      rw [encodeCodepoint]
      simp only [if_pos low, List.map_cons, List.map_nil]
    rw [code, List.singleton_append, TextView.utf8Decode]
    simp only [here, back, if_pos low, List.length_singleton]
  · obtain ⟨high, lead, joined⟩ := encodedPair_decodes cp small (Nat.le_of_not_lt ascii)
    have code : encodeCodepoint (UInt32.ofNat cp) =
        [(encodedPair (UInt32.ofNat cp)).1, (encodedPair (UInt32.ofNat cp)).2] := by
      have above : ¬ UInt32.ofNat cp < 0x80 := by
        rw [UInt32.lt_iff_toNat_lt, value]
        exact ascii
      have below : UInt32.ofNat cp < 0x800 := by
        rw [UInt32.lt_iff_toNat_lt, value]
        exact small.trans (by decide)
      rw [encodeCodepoint]
      simp only [if_neg above, if_pos below, List.map_cons, List.map_nil]
      rfl
    rw [code, List.cons_append, List.singleton_append, TextView.utf8Decode]
    simp only [here, next, if_neg high, if_pos lead, joined]
    rfl

theorem unicodeToBytesFrom_mapped (beyond : Nat → UInt8) (s before : Bytes) (fuel : Nat)
    (enough : (bytesToUnicode s).length ≤ fuel) :
    unicodeToBytesFrom ⟨before ++ bytesToUnicode s, beyond⟩ fuel before.length =
      s.filter (· != 0xFF) := by
  induction s generalizing before fuel with
  | nil =>
      cases fuel with
      | zero => rfl
      | succ fuel =>
          rw [unicodeToBytesFrom, if_neg (by simp [TextView.size, bytesToUnicode])]
          rfl
  | cons b rest ih =>
      have small := codepoint_lt b.toNat_lt
      have value : (UInt32.ofNat (codepoint b.toNat)).toNat = codepoint b.toNat := by
        rw [UInt32.toNat_ofNat']
        omega
      have code : bytesToUnicode (b :: rest) =
          encodeCodepoint (UInt32.ofNat (codepoint b.toNat)) ++ bytesToUnicode rest := by
        rw [bytesToUnicode, List.flatMap_cons, byteToUnicode_getD, bytesToUnicode]
      have decoded := encodeCodepoint_decodes small before (bytesToUnicode rest) beyond
      have written : 0 < (encodeCodepoint (UInt32.ofNat (codepoint b.toNat))).length := by
        have len := utf8Decode_len ⟨before ++ (encodeCodepoint (UInt32.ofNat (codepoint b.toNat)) ++
          bytesToUnicode rest), beyond⟩ before.length
        rwa [decoded] at len
      rw [code, List.length_append] at enough
      obtain ⟨fuel, rfl⟩ := Nat.exists_eq_succ_of_ne_zero (show fuel ≠ 0 by omega)
      rw [code, unicodeToBytesFrom, if_pos (by simp [TextView.size]; omega)]
      have later := ih (before ++ encodeCodepoint (UInt32.ofNat (codepoint b.toNat))) fuel (by omega)
      rw [List.append_assoc, List.length_append] at later
      rw [decoded, later]
      simp only [value, unicodeToByte_codepoint b.toNat_lt, UInt8.ofNat_toNat]
      rw [List.filter_cons]
      by_cases absent : b = 0xFF
      · simp [absent]
      · rw [if_pos ⟨by omega, absent⟩, if_pos (bne_iff_ne.mpr absent)]
        rfl

theorem unicodeToBytes_mapped (host : Host) (s : Bytes) :
    unicodeToBytes host (bytesToUnicode s) = s.filter (· != 0xFF) :=
  unicodeToBytesFrom_mapped (host.beyond (bytesToUnicode s)) s [] _ le_rfl

theorem bytesToUnicode_valid (s : Bytes) :
    ByteArray.IsValidUTF8 (bytesToUnicode s).toByteArray := by
  refine ⟨s.map fun b => Char.ofNat (codepoint b.toNat), ?_⟩
  rw [List.utf8Encode, List.flatMap_map, bytesToUnicode]
  refine congrArg List.toByteArray (List.flatMap_congr fun b _ => ?_)
  rw [byteToUnicode_getD, encodeCodepoint_char _ (codepoint_lt b.toNat_lt)]

/-- The mapped text is UTF-8, and the way back restores it unless the byte 0xFF occurs. -/
theorem byteMapping_iff (host : Host) (s : Bytes) :
    (unicodeToBytes host (bytesToUnicode s) = s ∧
      ByteArray.IsValidUTF8 (bytesToUnicode s).toByteArray) ↔ 0xFF ∉ s := by
  rw [unicodeToBytes_mapped, and_iff_left (bytesToUnicode_valid s), List.filter_eq_self]
  constructor
  · intro kept listed
    exact bne_iff_ne.mp (kept 0xFF listed) rfl
  · intro absent b listed
    exact bne_iff_ne.mpr fun same => absent (same ▸ listed)

/-- 0xFF is mapped to U+00FF, which is taken for a code without a byte. -/
theorem byteMapping_ff : ¬ ∀ (host : Host) (s : Bytes),
    unicodeToBytes host (bytesToUnicode s) = s ∧
      ByteArray.IsValidUTF8 (bytesToUnicode s).toByteArray := by
  intro restored
  have kept := (restored ⟨fun _ => false, fun _ => false, fun _ _ => 0, id, List.Perm.refl⟩ [0xFF]).1
  rw [unicodeToBytes_mapped] at kept
  cases kept

end BPETokenizer

end MiniLLM
