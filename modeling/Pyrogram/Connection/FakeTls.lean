import Pyrogram.Connection.Framing
import Mathlib.Data.List.ReduceOption

/-!
# Fake-TLS records

To a proxy with an ee secret the stream is cut into records that look like TLS application
data.  `wrap` puts the header of the stream into the first record, and a change-cipher-spec
in front of it.  `recv` serves reads out of a buffer, and takes any record that is not
application data for an error, a change-cipher-spec too.

`_read_exactly` is `TCP._recv_from_socket`.

## Main definitions

* `FakeTlsRecords` — the two directions, with the socket.
* `FakeTlsRecords.wrap`, `recv` — writing and reading.
* `record`, `served` — a record of some payload; what reads of a stream return.

## Main results

* `wrapAll_eq` — what is written.
* `recv_step` — one read takes its bytes off the stream.
* `carries_stream` — **the records carry the stream unchanged.**
* `change_cipher_spec_misread` — a change-cipher-spec among the records loses bytes.
-/

namespace Pyrogram

structure FakeTlsRecords where
  prologue : List UInt8
  buffer : List UInt8 := []
  sentChangeCipherSpec : Bool := false
  /-- What `_read_exactly` reads from. -/
  arrivals : List Arrival := []
  deriving DecidableEq, Repr

namespace FakeTlsRecords

def APPLICATION_DATA_PREFIX : List UInt8 := [0x17, 0x03, 0x03]

def RECORD_LENGTH_SIZE : ℕ := 2

def RECORD_HEADER_SIZE : ℕ := APPLICATION_DATA_PREFIX.length + RECORD_LENGTH_SIZE

def CHANGE_CIPHER_SPEC : List UInt8 := [0x14, 0x03, 0x03, 0x00, 0x01, 0x01]

def MAX_RECORD_PAYLOAD : ℕ := 2878

variable {r : FakeTlsRecords} {stream payload : List UInt8} {payloads : List (List UInt8)}
    {length fuel : ℕ}

/-! ### Writing -/

/-- `payload[start : start + _MAX_RECORD_PAYLOAD]` for every `start` of the `range`. -/
def chunks (payload : List UInt8) : List (List UInt8) :=
  (List.range ((payload.length + MAX_RECORD_PAYLOAD - 1) / MAX_RECORD_PAYLOAD)).map fun i =>
    (payload.drop (i * MAX_RECORD_PAYLOAD)).take MAX_RECORD_PAYLOAD

/-- The loop of `wrap`. -/
def appendRecords (wire : List UInt8) : List (List UInt8) → Except Exc (List UInt8)
  | [] => .ok wire
  | chunk :: chunks => do
      let length ← Aes.toBytes chunk.length RECORD_LENGTH_SIZE
      appendRecords (wire ++ (APPLICATION_DATA_PREFIX ++ length ++ chunk)) chunks

def wrap (r : FakeTlsRecords) (data : List UInt8) : Except Exc (List UInt8) × FakeTlsRecords :=
  let payload := r.prologue ++ data
  let wire := if r.sentChangeCipherSpec then [] else CHANGE_CIPHER_SPEC
  (appendRecords wire (chunks payload), { r with prologue := [], sentChangeCipherSpec := true })

/-- What several calls of `wrap` write. -/
def wrapAll (r : FakeTlsRecords) : List (List UInt8) → Except Exc (List UInt8)
  | [] => .ok []
  | data :: datas => do
      let wire ← (r.wrap data).1
      let rest ← wrapAll (r.wrap data).2 datas
      .ok (wire ++ rest)

/-! ### Reading -/

def hexDigit (n : ℕ) : Char := Char.ofNat (if n < 10 then 48 + n else 87 + n)

/-- `bytes.hex`. -/
def hex (bytes : List UInt8) : String :=
  String.ofList (bytes.flatMap fun b => [hexDigit (b.toNat / 16), hexDigit (b.toNat % 16)])

/-- `_read_record`; the message of an `OSError`, or `None`. -/
def readRecord (arrivals : List Arrival) : Except String (Option (List UInt8)) × List Arrival :=
  match recvFromSocket RECORD_HEADER_SIZE arrivals with
  | (none, arrivals) => (.ok none, arrivals)
  | (some header, arrivals) =>
      if header.take APPLICATION_DATA_PREFIX.length ≠ APPLICATION_DATA_PREFIX then
        (.error ("fake-TLS: expected an application-data record, got " ++ hex header), arrivals)
      else
        let length := Aes.fromBytes (header.drop (header.length - RECORD_LENGTH_SIZE))
        let (payload, arrivals) := recvFromSocket length arrivals
        (.ok payload, arrivals)

/-- `recv`, for a number of turns of its loop at most. -/
def recv (length : ℕ) :
    ℕ → FakeTlsRecords → Option (Except String (Option (List UInt8)) × FakeTlsRecords)
  | 0, _ => none
  | fuel + 1, r =>
      if r.buffer.length < length then
        match readRecord r.arrivals with
        | (.error message, arrivals) => some (.error message, { r with arrivals })
        | (.ok none, arrivals) => some (.ok none, { r with arrivals })
        | (.ok (some record), arrivals) =>
            recv length fuel { r with buffer := r.buffer ++ record, arrivals }
      else some (.ok (some (r.buffer.take length)), { r with buffer := r.buffer.drop length })

/-- What several calls of `recv` come to. -/
def recvAll (fuel : ℕ) (r : FakeTlsRecords) :
    List ℕ → Option (List (Except String (Option (List UInt8))))
  | [] => some []
  | length :: lengths => do
      let (result, r) ← r.recv length fuel
      let results ← recvAll fuel r lengths
      some (result :: results)

/-! ### The streams -/

/-- A record of application data. -/
def record (payload : List UInt8) : List UInt8 :=
  APPLICATION_DATA_PREFIX ++ (LittleEndian.encode 2 payload.length).reverse ++ payload

/-- What reads of some lengths return of a stream. -/
def served (stream : List UInt8) : List ℕ → List (Option (List UInt8))
  | [] => []
  | length :: lengths =>
      if length ≤ stream.length then some (stream.take length) :: served
        (stream.drop length) lengths
      else none :: served stream lengths

theorem flatten_served_prefix (stream : List UInt8) (lengths : List ℕ) :
    ((served stream lengths).reduceOption).flatten <+: stream := by
  induction lengths generalizing stream with
  | nil => exact List.nil_prefix
  | cons length lengths ih =>
    rw [served]
    split
    · rw [List.reduceOption_cons_of_some, List.flatten_cons]
      have hrest := ih (stream.drop length)
      conv_rhs => rw [← List.take_append_drop length stream]
      exact (List.prefix_append_right_inj _).mpr hrest
    · rw [List.reduceOption_cons_of_none]
      exact ih stream

theorem length_served (stream : List UInt8) (lengths : List ℕ) :
    List.Forall₂ (fun length result => ∀ bytes ∈ result, bytes.length = length) lengths
      (served stream lengths) := by
  induction lengths generalizing stream with
  | nil => exact .nil
  | cons length lengths ih =>
    rw [served]
    split
    · next hle =>
      refine .cons ?_ (ih _)
      rintro bytes hbytes
      obtain rfl : stream.take length = bytes := Option.some.inj hbytes
      exact List.length_take_of_le hle
    · exact .cons nofun (ih _)

/-! ### What is written -/

theorem flatten_chunks (payload : List UInt8) : (chunks payload).flatten = payload := by
  have htake : ∀ k,
    ((List.range k).map fun i => (payload.drop (i * MAX_RECORD_PAYLOAD)).take
    MAX_RECORD_PAYLOAD).flatten =
      payload.take (k * MAX_RECORD_PAYLOAD) := by
    intro k
    induction k with
    | zero => simp
    | succ k ih =>
      rw [List.range_succ, List.map_append, List.flatten_append, ih, Nat.succ_mul, List.take_add]
      simp
  rw [chunks, htake]
  refine List.take_of_length_le ?_
  unfold MAX_RECORD_PAYLOAD
  omega

theorem length_le_of_mem_chunks {chunk : List UInt8} (h : chunk ∈ chunks payload) :
    chunk.length ≤ MAX_RECORD_PAYLOAD := by
  obtain ⟨i, -, rfl⟩ := List.mem_map.mp h
  exact List.length_take_le _ _

/-- A length that fits is written. -/
theorem appendRecords_eq (wire : List UInt8) {chunks : List (List UInt8)}
    (h : ∀ chunk ∈ chunks, chunk.length ≤ MAX_RECORD_PAYLOAD) :
    appendRecords wire chunks = .ok (wire ++ chunks.flatMap record) := by
  induction chunks generalizing wire with
  | nil => simp [appendRecords]
  | cons chunk chunks ih =>
    obtain ⟨hchunk, hchunks⟩ := List.forall_mem_cons.mp h
    have hlength : Aes.toBytes chunk.length RECORD_LENGTH_SIZE =
        .ok (LittleEndian.encode 2 chunk.length).reverse :=
      if_pos (hchunk.trans_lt (by decide))
    rw [appendRecords, hlength, Except.bind_ok, ih _ hchunks, List.flatMap_cons,
      ← List.append_assoc]
    simp only [record, List.append_assoc]

theorem wrap_eq (r : FakeTlsRecords) (data : List UInt8) :
    (r.wrap data).1 = .ok ((if r.sentChangeCipherSpec then [] else CHANGE_CIPHER_SPEC) ++
      (chunks (r.prologue ++ data)).flatMap record) :=
  appendRecords_eq _ fun _ => length_le_of_mem_chunks

/-- After the first call, only records are written. -/
theorem wrapAll_eq (datas : List (List UInt8)) :
    wrapAll { r with prologue := [], sentChangeCipherSpec := true } datas =
      .ok ((datas.flatMap chunks).flatMap record) := by
  induction datas with
  | nil => rfl
  | cons data datas ih =>
    rw [wrapAll, wrap_eq, Except.bind_ok]
    refine Eq.trans (congrArg (· >>= _) ih) ?_
    rw [Except.bind_ok, List.flatMap_cons, List.flatMap_append]
    rfl

/-! ### What is read -/

theorem readRecord_record {arrivals : List Arrival} {rest : List UInt8}
    (hpayload : payload.length < 2 ^ 16)
    (h : Arrival.Deliver arrivals (record payload ++ rest)) :
    ∃ arrivals', readRecord arrivals = (.ok (some payload), arrivals') ∧
      Arrival.Deliver arrivals' rest := by
  rw [record, List.append_assoc] at h
  have hsize : (RECORD_HEADER_SIZE : ℤ) =
      ([] ++ (APPLICATION_DATA_PREFIX ++ (LittleEndian.encode 2 payload.length).reverse)).length
        := by
    simp [RECORD_HEADER_SIZE, RECORD_LENGTH_SIZE]
  obtain ⟨arrivals₁, hheader, h₁⟩ := recvLoop_of_deliver [] h hsize
  have hpayloadSize : (payload.length : ℤ) = ([] ++ payload).length := rfl
  obtain ⟨arrivals₂, hread, h₂⟩ := recvLoop_of_deliver [] h₁ hpayloadSize
  have hlength : Aes.fromBytes
    ((APPLICATION_DATA_PREFIX ++ (LittleEndian.encode 2 payload.length).reverse).drop
      ((APPLICATION_DATA_PREFIX ++ (LittleEndian.encode 2 payload.length).reverse).length
        - RECORD_LENGTH_SIZE)) =
      payload.length := by
    rw [show (APPLICATION_DATA_PREFIX ++ (LittleEndian.encode 2 payload.length).reverse).length
      - RECORD_LENGTH_SIZE =
      APPLICATION_DATA_PREFIX.length by
        simp [RECORD_LENGTH_SIZE], List.drop_left, Aes.fromBytes, List.reverse_reverse,
      LittleEndian.decode_encode (hpayload.trans_le (by decide))]
  refine ⟨arrivals₂, ?_, h₂⟩
  rw [readRecord, recvFromSocket, hheader]
  dsimp only
  rw [List.nil_append, List.take_left, if_neg (not_not.mpr rfl), hlength, recvFromSocket, hread]
  rfl

theorem eq_nil_of_deliver {arrivals : List Arrival} (h : Arrival.Deliver arrivals []) :
    arrivals = [] := by
  generalize hstream : [] = stream at h
  cases h with
  | nil => rfl
  | chunk hne => exact absurd (List.append_eq_nil_iff.mp hstream.symm).1 hne

/-- What is still to be read: the buffer, and then the payloads of a number of records. -/
def Holds (r : FakeTlsRecords) (stream : List UInt8) (n : ℕ) : Prop :=
  ∃ payloads : List (List UInt8), payloads.length ≤ n ∧
    (∀ payload ∈ payloads, payload.length < 2 ^ 16) ∧
    Arrival.Deliver r.arrivals (payloads.flatMap record) ∧ r.buffer ++ payloads.flatten = stream

/-- **One read** takes its bytes off the stream, or finds that it ends. -/
theorem recv_step (h : Holds r stream fuel) (length : ℕ) :
    ∃ r', r.recv length (fuel + 1) =
        some (.ok (if length ≤ stream.length then some (stream.take length) else none), r') ∧
      Holds r' (if length ≤ stream.length then stream.drop length else stream) fuel := by
  obtain ⟨payloads, hfuel, hlength, hdeliver, rfl⟩ := h
  induction payloads generalizing r fuel with
  | nil =>
    rw [List.flatten_nil, List.append_nil]
    rw [recv]
    by_cases hle : length ≤ r.buffer.length
    · rw [if_neg (Nat.not_lt_of_le hle), if_pos hle, if_pos hle]
      exact ⟨_, rfl, [], hfuel, hlength, hdeliver, List.append_nil _⟩
    · rw [if_pos (Nat.lt_of_not_le hle), if_neg hle, if_neg hle, eq_nil_of_deliver hdeliver]
      exact ⟨_, rfl, [], hfuel, hlength, .nil, List.append_nil _⟩
  | cons payload payloads ih =>
    obtain ⟨hpayload, hpayloads⟩ := List.forall_mem_cons.mp hlength
    by_cases hle : length ≤ r.buffer.length
    · have hwhole : length ≤ (r.buffer ++ (payload :: payloads).flatten).length := by
        rw [List.length_append]
        omega
      rw [recv, if_neg (Nat.not_lt_of_le hle), if_pos hwhole, if_pos hwhole,
        List.take_append_of_le_length hle, List.drop_append_of_le_length hle]
      exact ⟨_, rfl, payload :: payloads, hfuel, hlength, hdeliver, rfl⟩
    · cases fuel with
      | zero => cases hfuel
      | succ fuel =>
        rw [List.flatMap_cons] at hdeliver
        obtain ⟨arrivals', hread, hdeliver'⟩ := readRecord_record hpayload hdeliver
        obtain ⟨r', hrecv, payloads', hfuel', hrest⟩ :=
          ih (r := { r with buffer := r.buffer ++ payload, arrivals := arrivals' })
          (Nat.le_of_succ_le_succ hfuel) hpayloads hdeliver'
        rw [List.flatten_cons, ← List.append_assoc]
        refine ⟨r', ?_, payloads', hfuel'.trans fuel.le_succ, hrest⟩
        rw [recv, if_pos (Nat.lt_of_not_le hle), hread]
        exact hrecv

theorem recvAll_eq (h : Holds r stream fuel) (lengths : List ℕ) :
    recvAll (fuel + 1) r lengths = some ((served stream lengths).map .ok) := by
  induction lengths generalizing r stream with
  | nil => rfl
  | cons length lengths ih =>
    obtain ⟨r', hrecv, hholds⟩ := recv_step h length
    rw [recvAll, hrecv]
    refine Eq.trans (Option.bind_some ..) ?_
    dsimp only
    rw [ih hholds, served]
    split <;> rfl

/-- A record of another kind is an error, and the buffer stays. -/
theorem recv_eq_error {header rest : List UInt8} (hlength : r.buffer.length < length)
    (hheader : header.length = RECORD_HEADER_SIZE)
    (hother : header.take APPLICATION_DATA_PREFIX.length ≠ APPLICATION_DATA_PREFIX)
    (h : Arrival.Deliver r.arrivals (header ++ rest)) :
    ∃ arrivals', r.recv length (fuel + 1) =
      some (.error ("fake-TLS: expected an application-data record, got " ++ hex header),
        { r with arrivals := arrivals' }) := by
  have hsize : (RECORD_HEADER_SIZE : ℤ) = ([] ++ header).length := by simp [hheader]
  obtain ⟨arrivals', hread, -⟩ := recvLoop_of_deliver [] h hsize
  refine ⟨arrivals', ?_⟩
  have herror : readRecord r.arrivals =
      (.error ("fake-TLS: expected an application-data record, got " ++ hex header),
        arrivals') := by
    rw [readRecord, recvFromSocket, hread]
    exact if_pos hother
  rw [recv, if_pos hlength, herror]

/-- **The records carry the stream unchanged.**  The calls of `wrap`, of which there is one at
least, write a change-cipher-spec and records of at most 2878 bytes, which hold the prologue
and the data.  Reads out of any records return the bytes of their payloads in order, each as
many as were asked for, until too few are left.  A record of another kind is an error. -/
theorem carries_stream (prologue data : List UInt8) (datas : List (List UInt8)) (lengths : List ℕ)
    (hbuffer : r.buffer = []) (hdeliver : Arrival.Deliver r.arrivals (payloads.flatMap record))
    (hpayloads : ∀ payload ∈ payloads, payload.length < 2 ^ 16) :
    (∃ written : List (List UInt8), wrapAll { prologue } (data :: datas) =
      .ok (CHANGE_CIPHER_SPEC ++ written.flatMap record) ∧
      (∀ payload ∈ written, payload.length ≤ 2878) ∧
        written.flatten = prologue ++ (data :: datas).flatten) ∧
    (∃ results, (∀ fuel > payloads.length, recvAll fuel r lengths = some (results.map .ok)) ∧
      results = served payloads.flatten lengths ∧
        results.reduceOption.flatten <+: payloads.flatten ∧
      List.Forall₂ (fun length result => ∀ bytes ∈ result, bytes.length = length) lengths results) ∧
    ∀ (r : FakeTlsRecords) (length fuel : ℕ) (header rest : List UInt8), r.buffer.length < length →
      Arrival.Deliver r.arrivals (header ++ rest) → header.length = RECORD_HEADER_SIZE →
      header.take APPLICATION_DATA_PREFIX.length ≠ APPLICATION_DATA_PREFIX →
      ∃ arrivals', r.recv length (fuel + 1) =
        some (.error ("fake-TLS: expected an application-data record, got " ++ hex header),
          { r with arrivals := arrivals' }) := by
  refine ⟨⟨chunks (prologue ++ data) ++ datas.flatMap chunks, ?_, ?_, ?_⟩,
    ⟨served payloads.flatten lengths, ?_, rfl,
    flatten_served_prefix _ _, length_served _ _⟩, ?_⟩
  · rw [wrapAll, wrap_eq, Except.bind_ok]
    refine (congrArg (· >>= _) (wrapAll_eq (r := { prologue }) datas)).trans ?_
    rw [Except.bind_ok, List.flatMap_append, ← List.append_assoc]
    rfl
  · intro payload hpayload
    rcases List.mem_append.mp hpayload with h | h
    · exact length_le_of_mem_chunks h
    · obtain ⟨data', -, h⟩ := List.mem_flatMap.mp h
      exact length_le_of_mem_chunks h
  · have hflatten : (datas.flatMap chunks).flatten = datas.flatten := by
      induction datas with
      | nil => rfl
      | cons data datas ih => rw [List.flatMap_cons, List.flatten_append, flatten_chunks, ih,
          List.flatten_cons]
    rw [List.flatten_append, flatten_chunks, hflatten, List.flatten_cons, List.append_assoc]
  · intro fuel hfuel
    obtain ⟨n, rfl⟩ : ∃ n, fuel = n + 1 := Nat.exists_eq_add_one.mpr (by omega)
    refine recvAll_eq ⟨payloads, by omega, hpayloads, hdeliver, ?_⟩ lengths
    rw [hbuffer, List.nil_append]
  · intro r length fuel header rest hlength h hheader hother
    exact recv_eq_error hlength hheader hother h

/-- Two records in three pieces, and reads across their boundary. -/
theorem carries_stream_twoRecords :
    ∃ results, results = served [1, 2, 3, 4, 5] [2, 0, 2, 2, 1] ∧
      recvAll 3
        { prologue := []
          arrivals := [.chunk [0x17, 0x03], .chunk [0x03, 0x00, 0x03, 1, 2, 3, 0x17],
            .chunk [0x03, 0x03, 0x00, 0x02, 4, 5]] } [2, 0, 2, 2, 1] =
        some (results.map .ok) := by
  have hdeliver : Arrival.Deliver [.chunk [0x17, 0x03], .chunk [0x03, 0x00, 0x03, 1, 2, 3, 0x17],
      .chunk [0x03, 0x03, 0x00, 0x02, 4, 5]] ([[1, 2, 3], [4, 5]].flatMap record) :=
    .chunk nofun (.chunk nofun (.chunk nofun .nil))
  obtain ⟨-, ⟨results, hread, hresults, -⟩, -⟩ :=
    carries_stream (r := { prologue := [], arrivals := _ }) [] [] []
    [2, 0, 2, 2, 1] rfl hdeliver (by decide)
  exact ⟨results, hresults, hread 3 (by decide)⟩

/-- Behind a change-cipher-spec, a byte out of the middle of the stream is read first. -/
theorem change_cipher_spec_misread :
    ∃ (r : FakeTlsRecords) (payload : List UInt8), r.buffer = [] ∧ payload.length < 2 ^ 16 ∧
      Arrival.Deliver r.arrivals (CHANGE_CIPHER_SPEC ++ record payload) ∧
      ((recvAll 2 r [1, 1, 1]).map fun results =>
        (results.filterMap Except.toOption).reduceOption.flatten) = some [42] ∧
      ¬ [42] <+: payload := by
  refine ⟨⟨[], [], false,
    [.chunk (CHANGE_CIPHER_SPEC ++ record ([3, 3, 0, 1, 42] ++ List.replicate 18 0))]⟩,
    [3, 3, 0, 1, 42] ++ List.replicate 18 0, rfl, by decide, ?_, by decide, by decide⟩
  exact List.append_nil (CHANGE_CIPHER_SPEC ++ record _) ▸ .chunk nofun .nil

end FakeTlsRecords

end Pyrogram
