import Mathlib.Algebra.Order.Ring.Int
import Mathlib.Data.List.Basic

/-!
Sequential readers of a byte stream. A reader fails or returns a value and the
stream after it; the stream keeps what is unread and the position reached.
`Reads reader bytes value` says that the reader consumes exactly `bytes`,
whatever follows them. Its rules are the composition rules of a decoder.
-/

namespace MiniLLM.ByteReader

structure Stream where
  rest : List UInt8
  position : Nat
  deriving DecidableEq, Repr

variable {Err α β Item : Type}

abbrev Reader (Err α : Type) := Stream → Except Err (α × Stream)

namespace Reader

def pure (value : α) : Reader Err α := fun stream => .ok (value, stream)

def fail (err : Err) : Reader Err α := fun _ => .error err

def bind (first : Reader Err α) (next : α → Reader Err β) : Reader Err β := fun stream =>
  match first stream with
  | .error err => .error err
  | .ok (value, after) => next value after

instance : Monad (Reader Err) where
  pure := pure
  bind := bind

instance : LawfulMonad (Reader Err) := LawfulMonad.mk' _
  (by
    intro α reader
    funext stream
    change bind reader pure stream = _
    rw [bind]
    cases reader stream <;> rfl)
  (fun _ _ => rfl)
  (by
    intro α β γ first next last
    funext stream
    change bind (bind first next) last stream = bind first (fun value => bind (next value) last) stream
    simp only [bind]
    cases first stream <;> rfl)

theorem fail_bind (err : Err) (next : α → Reader Err β) : fail err >>= next = fail err := rfl

end Reader

/-- Exactly `count` bytes, or the error when fewer are left. -/
def take (count : Nat) (err : Err) : Reader Err (List UInt8) := fun stream =>
  if stream.rest.length < count then .error err
  else .ok (stream.rest.take count, ⟨stream.rest.drop count, stream.position + count⟩)

/-- `count` rounds of a loop that reads and updates `acc`. -/
def iterate (body : β → Reader Err β) : Nat → β → Reader Err β
  | 0, acc => Reader.pure acc
  | count + 1, acc => Reader.bind (body acc) (iterate body count)

def Reads (reader : Reader Err α) (bytes : List UInt8) (value : α) : Prop :=
  ∀ rest position, reader ⟨bytes ++ rest, position⟩ = .ok (value, ⟨rest, position + bytes.length⟩)

theorem Reads.pure (value : α) : Reads (Pure.pure value : Reader Err α) [] value :=
  fun _ _ => rfl

/-- A reader that is followed by another hands over what it leaves. -/
theorem Reads.run_bind {first : Reader Err α} {bytes : List UInt8} {value : α}
    (head : Reads first bytes value) (next : α → Reader Err β) (rest : List UInt8)
    (position : Nat) :
    (first >>= next) ⟨bytes ++ rest, position⟩ = next value ⟨rest, position + bytes.length⟩ := by
  change Reader.bind first next _ = _
  rw [Reader.bind, head rest position]

theorem Reads.bind {first : Reader Err α} {next : α → Reader Err β}
    {bytes more : List UInt8} {value : α} {result : β}
    (head : Reads first bytes value) (tail : Reads (next value) more result) :
    Reads (first >>= next) (bytes ++ more) result := by
  intro rest position
  rw [List.append_assoc, head.run_bind, tail rest, List.length_append, Nat.add_assoc]

/-- The last step of a chain reads nothing more. -/
theorem Reads.bind_last {first : Reader Err α} {next : α → Reader Err β}
    {bytes : List UInt8} {value : α} {result : β}
    (head : Reads first bytes value) (tail : Reads (next value) [] result) :
    Reads (first >>= next) bytes result := by
  have chained := head.bind tail
  rwa [List.append_nil] at chained

theorem Reads.map {first : Reader Err α} (pack : α → β) {bytes : List UInt8} {value : α}
    (head : Reads first bytes value) :
    Reads (first >>= fun a => Pure.pure (pack a)) bytes (pack value) :=
  head.bind_last (Reads.pure (pack value))

theorem take_reads (bytes : List UInt8) (err : Err) : Reads (take bytes.length err) bytes bytes := by
  intro rest position
  simp [take]

/-- A loop reads the items' bytes in order and folds what each round does. -/
theorem iterate_reads (body : β → Reader Err β) (items : List Item)
    (encode : Item → List UInt8) (update : β → Item → β)
    (round : ∀ item ∈ items, ∀ acc, Reads (body acc) (encode item) (update acc item)) (acc : β) :
    Reads (iterate body items.length acc) (items.flatMap encode) (items.foldl update acc) := by
  induction items generalizing acc with
  | nil => exact Reads.pure acc
  | cons item rest ih =>
      have first := round item List.mem_cons_self acc
      have others := ih (fun item found => round item (List.mem_cons_of_mem _ found))
        (update acc item)
      exact first.bind others

theorem bind_ok {first : Reader Err α} {next : α → Reader Err β} {stream after : Stream}
    {result : β} (read : (first >>= next) stream = .ok (result, after)) :
    ∃ value middle, first stream = .ok (value, middle) ∧
      next value middle = .ok (result, after) := by
  change Reader.bind first next stream = _ at read
  rw [Reader.bind] at read
  cases head : first stream with
  | error err => simp [head] at read
  | ok pair =>
      rw [head] at read
      exact ⟨pair.1, pair.2, rfl, read⟩

theorem take_ok {count : Nat} {err : Err} {stream after : Stream} {bytes : List UInt8}
    (read : take count err stream = .ok (bytes, after)) :
    bytes.length = count ∧ stream.rest = bytes ++ after.rest := by
  rw [take] at read
  split at read
  · cases read
  · rename_i enough
    cases read
    simp only [List.length_take, List.take_append_drop, and_true]
    omega

/-- A loop that succeeds has read one item a round. -/
theorem iterate_ok {body : β → Reader Err β} (formed : Item → Prop) (encode : Item → List UInt8)
    (update : β → Item → β)
    (round : ∀ acc stream next after, body acc stream = .ok (next, after) →
      ∃ item, formed item ∧ stream.rest = encode item ++ after.rest ∧ next = update acc item)
    {count : Nat} {acc result : β} {stream after : Stream}
    (read : iterate body count acc stream = .ok (result, after)) :
    ∃ items : List Item, items.length = count ∧ (∀ item ∈ items, formed item) ∧
      stream.rest = items.flatMap encode ++ after.rest ∧ result = items.foldl update acc := by
  induction count generalizing acc stream with
  | zero =>
      cases read
      exact ⟨[], rfl, by simp, rfl, rfl⟩
  | succ count ih =>
      obtain ⟨next, middle, head, tail⟩ := bind_ok read
      obtain ⟨item, good, first, rfl⟩ := round _ _ _ _ head
      obtain ⟨items, counted, formed, rest, rfl⟩ := ih tail
      refine ⟨item :: items, by rw [List.length_cons, counted], ?_, ?_, rfl⟩
      · exact List.forall_mem_cons.mpr ⟨good, formed⟩
      · rw [first, rest, List.flatMap_cons, List.append_assoc]

/-- What a reader leaves unread when it succeeds is at most what it was given. -/
def Forward (reader : Reader Err α) : Prop :=
  ∀ stream value after, reader stream = .ok (value, after) →
    after.rest.length ≤ stream.rest.length

/-- The same with at least one byte read. -/
def Consumes (reader : Reader Err α) : Prop :=
  ∀ stream value after, reader stream = .ok (value, after) →
    after.rest.length < stream.rest.length

theorem Consumes.forward {reader : Reader Err α} (consumes : Consumes reader) : Forward reader :=
  fun stream value after read => (consumes stream value after read).le

theorem Forward.pure (value : α) : Forward (Pure.pure value : Reader Err α) := by
  intro stream result after read
  cases read
  exact le_rfl

theorem Consumes.fail (err : Err) : Consumes (Reader.fail err : Reader Err α) := by
  intro stream value after read
  cases read

theorem Forward.bind {first : Reader Err α} {next : α → Reader Err β}
    (head : Forward first) (tail : ∀ value, Forward (next value)) : Forward (first >>= next) := by
  intro stream result after read
  obtain ⟨value, middle, one, two⟩ := bind_ok read
  exact (tail value _ _ _ two).trans (head _ _ _ one)

theorem Consumes.bind {first : Reader Err α} {next : α → Reader Err β}
    (head : Consumes first) (tail : ∀ value, Forward (next value)) :
    Consumes (first >>= next) := by
  intro stream result after read
  obtain ⟨value, middle, one, two⟩ := bind_ok read
  exact (tail value _ _ _ two).trans_lt (head _ _ _ one)

theorem take_consumes (count : Nat) (err : Err) : Consumes (take (count + 1) err) := by
  intro stream value after read
  rw [take] at read
  split at read
  · cases read
  · rename_i enough
    cases read
    simp only [List.length_drop]
    omega

theorem take_forward (count : Nat) (err : Err) : Forward (take count err) := by
  intro stream value after read
  rw [take] at read
  split at read
  · cases read
  · cases read
    simp

theorem iterate_forward (body : β → Reader Err β) (forward : ∀ acc, Forward (body acc))
    (count : Nat) (acc : β) : Forward (iterate body count acc) := by
  induction count generalizing acc with
  | zero => exact Forward.pure acc
  | succ count ih => exact Forward.bind (forward acc) ih

/-- A success is decided by the bytes it used and by no others. -/
def Exact (reader : Reader Err α) : Prop :=
  ∀ stream value after, reader stream = .ok (value, after) →
    ∃ used, stream.rest = used ++ after.rest ∧ Reads reader used value

/-- A success needs every byte it used: on fewer of them the reader fails. -/
def Whole (reader : Reader Err α) : Prop :=
  ∀ stream value after, reader stream = .ok (value, after) →
    ∀ count position, count + after.rest.length < stream.rest.length →
      ∃ err, reader ⟨stream.rest.take count, position⟩ = .error err

theorem Exact.pure (value : α) : Exact (Pure.pure value : Reader Err α) := by
  intro stream result after read
  cases read
  exact ⟨[], rfl, Reads.pure value⟩

theorem Whole.pure (value : α) : Whole (Pure.pure value : Reader Err α) := by
  intro stream result after read count position fewer
  cases read
  omega

theorem Exact.fail (err : Err) : Exact (Reader.fail err : Reader Err α) := by
  intro stream value after read
  cases read

theorem Whole.fail (err : Err) : Whole (Reader.fail err : Reader Err α) := by
  intro stream value after read
  cases read

theorem Exact.bind {first : Reader Err α} {next : α → Reader Err β}
    (head : Exact first) (tail : ∀ value, Exact (next value)) : Exact (first >>= next) := by
  intro stream result after read
  obtain ⟨value, middle, one, two⟩ := bind_ok read
  obtain ⟨used, split, reads⟩ := head _ _ _ one
  obtain ⟨more, rest, others⟩ := tail value _ _ _ two
  exact ⟨used ++ more, by rw [split, rest, List.append_assoc], reads.bind others⟩

/-- A cut falls within what the first reader used or within what the second did. -/
theorem Whole.bind {first : Reader Err α} {next : α → Reader Err β}
    (exact_head : Exact first) (head : Whole first) (tail : ∀ value, Whole (next value)) :
    Whole (first >>= next) := by
  intro stream result after read count position fewer
  obtain ⟨value, middle, one, two⟩ := bind_ok read
  obtain ⟨used, split, reads⟩ := exact_head _ _ _ one
  have total : stream.rest.length = used.length + middle.rest.length := by
    rw [split, List.length_append]
  by_cases within : count < used.length
  · obtain ⟨err, failed⟩ := head _ _ _ one count position (by omega)
    refine ⟨err, ?_⟩
    change Reader.bind first next _ = _
    rw [Reader.bind, failed]
  · have cut : stream.rest.take count = used ++ middle.rest.take (count - used.length) := by
      rw [split, List.take_append, List.take_of_length_le (by omega)]
    rw [cut, reads.run_bind]
    exact tail value _ _ _ two _ _ (by omega)

theorem take_exact (count : Nat) (err : Err) : Exact (take count err) := by
  intro stream value after read
  rw [take] at read
  split at read
  · cases read
  · rename_i enough
    cases read
    refine ⟨stream.rest.take count, by simp, ?_⟩
    have full : (stream.rest.take count).length = count := by
      rw [List.length_take]
      omega
    have reads := take_reads (stream.rest.take count) err
    rwa [full] at reads

theorem take_whole (count : Nat) (err : Err) : Whole (take count err) := by
  intro stream value after read cut position fewer
  rw [take] at read
  split at read
  · cases read
  · rename_i enough
    cases read
    simp only [List.length_drop] at fewer
    refine ⟨err, ?_⟩
    rw [take, if_pos]
    simp only [List.length_take]
    omega

/-- The reader of a format that marks its own end. -/
structure Framed (reader : Reader Err α) : Prop where
  exactly : Exact reader
  whole : Whole reader

theorem Framed.pure (value : α) : Framed (Pure.pure value : Reader Err α) :=
  ⟨Exact.pure value, Whole.pure value⟩

theorem Framed.fail (err : Err) : Framed (Reader.fail err : Reader Err α) :=
  ⟨Exact.fail err, Whole.fail err⟩

theorem Framed.bind {first : Reader Err α} {next : α → Reader Err β}
    (head : Framed first) (tail : ∀ value, Framed (next value)) : Framed (first >>= next) :=
  ⟨head.exactly.bind fun value => (tail value).exactly,
    Whole.bind head.exactly head.whole fun value => (tail value).whole⟩

theorem take_framed (count : Nat) (err : Err) : Framed (take count err) :=
  ⟨take_exact count err, take_whole count err⟩

theorem iterate_framed (body : β → Reader Err β) (framed : ∀ acc, Framed (body acc))
    (count : Nat) (acc : β) : Framed (iterate body count acc) := by
  induction count generalizing acc with
  | zero => exact Framed.pure acc
  | succ count ih => exact (framed acc).bind ih

/-- Continuations that agree after the first reader agree in sequence. -/
theorem bind_agree {first : Reader Err α} {left right : α → Reader Err β} {stream : Stream}
    (agree : ∀ value after, first stream = .ok (value, after) →
      left value after = right value after) :
    (first >>= left) stream = (first >>= right) stream := by
  change Reader.bind first left stream = Reader.bind first right stream
  rw [Reader.bind, Reader.bind]
  cases read : first stream with
  | error err => rfl
  | ok pair => exact agree pair.1 pair.2 read

theorem bind_agree_first {left right : Reader Err α} {next : α → Reader Err β} {stream : Stream}
    (agree : left stream = right stream) : (left >>= next) stream = (right >>= next) stream := by
  change Reader.bind left next stream = Reader.bind right next stream
  rw [Reader.bind, Reader.bind, agree]

theorem iterate_agree (left right : β → Reader Err β) (limit : Nat)
    (forward : ∀ acc, Forward (left acc))
    (agree : ∀ acc stream, stream.rest.length ≤ limit → left acc stream = right acc stream)
    (count : Nat) (acc : β) (stream : Stream) (short : stream.rest.length ≤ limit) :
    iterate left count acc stream = iterate right count acc stream := by
  induction count generalizing acc stream with
  | zero => rfl
  | succ count ih =>
      have head : (right acc >>= iterate right count) stream =
          (left acc >>= iterate right count) stream :=
        bind_agree_first (agree acc stream short).symm
      have tail : (left acc >>= iterate left count) stream =
          (left acc >>= iterate right count) stream :=
        bind_agree fun next after read =>
          ih next after ((forward acc _ _ _ read).trans short)
      exact tail.trans head.symm

/-! Little-endian words. -/

/-- `b[i] << (i * 8)` over the bytes from index `i` on, joined by `|`. -/
def assembleFrom (w : Nat) : Nat → List UInt8 → BitVec w
  | _, [] => 0
  | i, byte :: rest => (byte.toBitVec.setWidth w <<< (i * 8)) ||| assembleFrom w (i + 1) rest

def assemble (w : Nat) (bytes : List UInt8) : BitVec w := assembleFrom w 0 bytes

/-- `push_back((v >> (i * 8)) & 0xFF)` for the first `count` bytes. -/
def littleEndian {w : Nat} (count : Nat) (value : BitVec w) : List UInt8 :=
  (List.range count).map fun i => ⟨(value >>> (i * 8)).setWidth 8⟩

@[simp] theorem littleEndian_length {w : Nat} (count : Nat) (value : BitVec w) :
    (littleEndian count value).length = count := by simp [littleEndian]

theorem littleEndian_succ {w : Nat} (count : Nat) (value : BitVec w) :
    littleEndian (count + 1) value =
      ⟨value.setWidth 8⟩ :: littleEndian count (value >>> 8) := by
  rw [littleEndian, List.range_succ_eq_map, List.map_cons, List.map_map, littleEndian]
  have first : value >>> (0 * 8) = value := by simp
  rw [first]
  congr 1
  apply List.map_congr_left
  intro i _
  have shifts : (i + 1) * 8 = 8 + i * 8 := by omega
  simp [shifts, BitVec.shiftRight_add]

theorem assembleFrom_succ (w i : Nat) (bytes : List UInt8) :
    assembleFrom w (i + 1) bytes = assembleFrom w i bytes <<< 8 := by
  induction bytes generalizing i with
  | nil => simp [assembleFrom]
  | cons byte rest ih =>
      have shifts : (i + 1) * 8 = i * 8 + 8 := by omega
      rw [assembleFrom, assembleFrom, ih (i + 1), BitVec.shiftLeft_or_distrib, shifts,
        BitVec.shiftLeft_add]

theorem assemble_cons (w : Nat) (byte : UInt8) (rest : List UInt8) :
    assemble w (byte :: rest) = byte.toBitVec.setWidth w ||| (assemble w rest <<< 8) := by
  rw [assemble, assembleFrom, assembleFrom_succ]
  simp [assemble]

theorem assemble_littleEndian {w : Nat} (count : Nat) (value : BitVec w)
    (fits : value.toNat < 2 ^ (count * 8)) :
    assemble w (littleEndian count value) = value := by
  induction count generalizing value with
  | zero =>
      apply BitVec.eq_of_toNat_eq
      have zero : value.toNat = 0 := by omega
      simp [littleEndian, assemble, assembleFrom, zero]
  | succ count ih =>
      have high : (value >>> 8).toNat < 2 ^ (count * 8) := by
        rw [BitVec.toNat_ushiftRight, Nat.shiftRight_eq_div_pow]
        apply Nat.div_lt_of_lt_mul
        rw [← Nat.pow_add]
        simpa [Nat.succ_mul, Nat.add_comm] using fits
      rw [littleEndian_succ, assemble_cons, ih _ high]
      apply BitVec.eq_of_getLsbD_eq
      intro i below
      by_cases low : i < 8
      · simp [low, below]
      · have sum : 8 + (i - 8) = i := by omega
        simp [low, below, sum]

theorem assemble_getLsbD (w : Nat) (bytes : List UInt8) (i : Nat) (below : i < w) :
    (assemble w bytes).getLsbD i = (bytes.getD (i / 8) 0).toBitVec.getLsbD (i % 8) := by
  induction bytes generalizing i with
  | nil => simp [assemble, assembleFrom]
  | cons byte rest ih =>
      rw [assemble_cons, BitVec.getLsbD_or, BitVec.getLsbD_setWidth, BitVec.getLsbD_shiftLeft]
      by_cases low : i < 8
      · have first : i / 8 = 0 := by omega
        have same : i % 8 = i := by omega
        simp [low, below, first, same]
      · have later : i / 8 = (i - 8) / 8 + 1 := by omega
        have same : i % 8 = (i - 8) % 8 := by omega
        have beyond : byte.toBitVec.getLsbD i = false := BitVec.getLsbD_of_ge _ _ (by omega)
        rw [later, same, List.getD_cons_succ, ← ih (i - 8) (by omega), beyond]
        simp [low, below]

/-- Writing a word back gives the bytes it was assembled from. -/
theorem littleEndian_assemble (w : Nat) (bytes : List UInt8) (fits : bytes.length * 8 ≤ w) :
    littleEndian bytes.length (assemble w bytes) = bytes := by
  apply List.ext_getElem (by simp)
  intro k short long
  simp only [littleEndian, List.getElem_map, List.getElem_range]
  apply UInt8.eq_of_toBitVec_eq
  apply BitVec.eq_of_getLsbD_eq
  intro j small
  have index : (k * 8 + j) / 8 = k := by omega
  have bit : (k * 8 + j) % 8 = j := by omega
  have member : bytes.getD k 0 = bytes[k] := by simp [long]
  rw [BitVec.getLsbD_setWidth, BitVec.getLsbD_ushiftRight,
    assemble_getLsbD w bytes (k * 8 + j) (by omega), index, bit, member]
  simp [small]

end MiniLLM.ByteReader
