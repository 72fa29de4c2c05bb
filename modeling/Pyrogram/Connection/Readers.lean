import Pyrogram.ByteReader
import Pyrogram.Connection.FakeTls

/-!
# The framings over any reader

`TCP.recv` reads from the socket or out of fake-TLS records, decrypted where the connection is
obfuscated; the framings only call it.  Here they are computations over any reader of bytes, and
both sources are such readers.

## Main definitions

* `Framing.recvOver` — `recv` of the transports, with `TCP.recv` for a parameter.
* `available` — the bytes that arrive before the stream ends, times out or fails.
* `Tcp.reader`, `FakeTlsRecords.reader` — the two sources.

## Main results

* `Framing.reads_sendAll` — **frames are read back over any reader.**
* `Framing.recvOver_tcp` — over the socket `recvOver` is `recv`.
* `Framing.round_trip` — **what is sent is received, however the stream is cut up.**
* `recvFromSocket_eq` — what an exact read of the socket comes to.
* `FakeTlsRecords.isSome_recv`, `FakeTlsRecords.recv_of_carries` — an exact read out of records
  ends, and returns the bytes of their payloads.
-/

namespace Pyrogram

open BlockModes LittleEndian

/-! ### The framings -/

section Recv

variable {ε σ : Type*} (R : ByteReader ε σ)

open ByteReader (Computation andThen done Reads reads_read)

def TCPAbridged.recvOver : Computation ε σ (List UInt8) :=
  andThen (R.read 1) fun length =>
    if length = [0x7f] then andThen (R.read 3) fun length => R.read (decode length * 4)
    else R.read (decode length * 4)

def TCPIntermediate.recvOver : Computation ε σ (List UInt8) :=
  andThen (R.read 4) fun length => R.read (decodeSigned length)

def TCPFull.recvOver : Computation ε σ (List UInt8) :=
  andThen (R.read 4) fun lengthBytes =>
    andThen (R.read (decode lengthBytes - 4)) fun packet =>
      let packet := lengthBytes ++ packet
      let checksum := packet.drop (packet.length - 4)
      let packet := packet.take (packet.length - 4)
      done (if (crc32 packet).toNat ≠ decode checksum then none else some (packet.drop 8))

def TCPIntermediatePadded.recvOver : Computation ε σ (List UInt8) :=
  andThen (R.read 4) fun length =>
    andThen (R.read (decodeSigned length)) fun data =>
      done (some (TCPIntermediatePadded.strip (decodeSigned length) data))

/-- `recv` of the transports. -/
def Framing.recvOver : Framing → Computation ε σ (List UInt8)
  | .abridged => TCPAbridged.recvOver R
  | .intermediate => TCPIntermediate.recvOver R
  | .full => TCPFull.recvOver R
  | .intermediatePadded => TCPIntermediatePadded.recvOver R

/-! ### Frames are read back -/

variable {R} {data frame : List UInt8}

theorem TCPAbridged.reads_send (hsend : send data = some frame) (hwords : 4 ∣ data.length) :
    R.Reads (recvOver R) frame data := by
  obtain ⟨length, hlength⟩ := hwords
  rw [send, hlength, Nat.mul_div_cancel_left _ (by decide)] at hsend
  split at hsend
  · next hshort =>
    obtain rfl := Option.some.inj hsend
    have hdecode : decode (encode 1 length) = length := decode_encode (by omega)
    have hne : encode 1 length ≠ [0x7f] := by
      intro heq
      rw [heq] at hdecode
      exact absurd hdecode (by simp; omega)
    refine (reads_read (by rw [length_encode]; rfl)).andThen ?_
    rw [if_neg hne, hdecode]
    exact reads_read (by rw [hlength]; omega)
  · split at hsend
    · next hlong =>
      obtain rfl := Option.some.inj hsend
      have hdecode : decode (encode 3 length) = length := decode_encode (by omega)
      rw [List.cons_append, ← List.singleton_append]
      refine (reads_read rfl).andThen ?_
      rw [if_pos rfl]
      refine (reads_read (by rw [length_encode]; rfl)).andThen ?_
      rw [hdecode]
      exact reads_read (by rw [hlength]; omega)
    · cases hsend

theorem TCPIntermediate.reads_send (hsend : send data = some frame) :
    R.Reads (recvOver R) frame data := by
  obtain ⟨length, hencode, rfl⟩ := Option.map_eq_some_iff.mp hsend
  refine (reads_read (by rw [length_encodeSigned hencode]; rfl)).andThen ?_
  exact reads_read (decodeSigned_encodeSigned hencode)

theorem TCPFull.reads_send {seqNo : ℕ} (hsend : send seqNo data = some frame) :
    R.Reads (recvOver R) frame data := by
  unfold send at hsend
  split at hsend
  · next hfits =>
    obtain rfl := Option.some.inj hsend
    have hdecode : decode (encode 4 (data.length + 12)) = data.length + 12 :=
      decode_encode (by omega)
    generalize hplain : encode 4 (data.length + 12) ++ encode 4 seqNo ++ data = plain
    have hdrop : plain.drop 8 = data := by
      rw [← hplain]
      exact List.drop_left' (by rw [List.length_append, length_encode, length_encode])
    have hsplit : plain ++ encode 4 (crc32 plain).toNat =
        encode 4 (data.length + 12) ++
          (encode 4 seqNo ++ data ++ encode 4 (crc32 plain).toNat) := by
      rw [← List.append_assoc, ← List.append_assoc, hplain]
    show R.Reads _ (plain ++ encode 4 (crc32 plain).toNat) data
    rw [hsplit]
    refine (reads_read (by rw [length_encode]; rfl)).andThen ?_
    refine (reads_read ?_).andThen_done ?_
    · rw [hdecode]
      simp only [List.length_append, length_encode]
      omega
    · have hfront : (plain ++ encode 4 (crc32 plain).toNat).length - 4 = plain.length := by
        rw [List.length_append, length_encode, Nat.add_sub_cancel]
      dsimp only
      rw [← hsplit, hfront, List.take_left, List.drop_left, hdrop,
        if_neg (not_not_intro (decode_encode (UInt32.toNat_lt _)).symm)]
  · cases hsend

theorem TCPIntermediatePadded.reads_send {padding : List UInt8} {k : ℕ}
    (hsend : send padding data = some frame)
    (hlength : data.length = 24 + 16 * k) (hauth : data.take 8 ≠ List.replicate 8 0)
    (hpadding : padding.length < 16) :
    R.Reads (recvOver R) frame data := by
  obtain ⟨length, hencode, rfl⟩ := Option.map_eq_some_iff.mp hsend
  have hdecode := decodeSigned_encodeSigned hencode
  rw [List.append_assoc]
  refine (reads_read (by rw [length_encodeSigned hencode]; rfl)).andThen ?_
  rw [hdecode]
  refine (reads_read (by rw [List.length_append, Nat.cast_add])).andThen_done ?_
  rw [strip_append hlength hauth hpadding]

theorem Framing.reads_send {framing : Framing} {seqNo : ℕ} {packet : Packet}
    (hsend : framing.send seqNo packet = some frame)
    (hcarries : framing.Carries packet) : R.Reads (framing.recvOver R) frame packet.data := by
  cases framing with
  | abridged => exact TCPAbridged.reads_send hsend hcarries
  | intermediate => exact TCPIntermediate.reads_send hsend
  | full => exact TCPFull.reads_send hsend
  | intermediatePadded =>
    obtain ⟨⟨k, hlength⟩, hauth, hpadding⟩ := hcarries
    exact TCPIntermediatePadded.reads_send hsend hlength hauth hpadding

theorem Framing.forall₂_reads {framing : Framing} {seqNo : ℕ} {packets : List Packet}
    {frames : List (List UInt8)}
    (hsend : framing.sendAll seqNo packets = some frames)
    (hcarries : ∀ packet ∈ packets, framing.Carries packet) :
    List.Forall₂ (fun frame data => R.Reads (framing.recvOver R) frame data) frames
      (packets.map (·.data)) := by
  induction packets generalizing seqNo frames with
  | nil =>
    obtain rfl := Option.some.inj hsend
    exact .nil
  | cons packet packets ih =>
    rw [sendAll] at hsend
    obtain ⟨frame, hframe, hsend⟩ := Option.bind_eq_some_iff.mp hsend
    obtain ⟨frames, hframes, hsend⟩ := Option.bind_eq_some_iff.mp hsend
    obtain rfl := Option.some.inj hsend
    rw [List.forall_mem_cons] at hcarries
    exact .cons (reads_send hframe hcarries.1) (ih hframes hcarries.2)

/-- **Frames are read back over any reader**, in order, and nothing after them. -/
theorem Framing.reads_sendAll {framing : Framing} {seqNo : ℕ} {packets : List Packet}
    {frames : List (List UInt8)}
    (hsend : framing.sendAll seqNo packets = some frames)
    (hcarries : ∀ packet ∈ packets, framing.Carries packet) :
    R.Reads (ByteReader.times (framing.recvOver R) packets.length) frames.flatten
      (packets.map fun p => some p.data) := by
  have h := ByteReader.Reads.times (forall₂_reads (R := R) hsend hcarries)
  rwa [List.length_map, List.map_map] at h

/-- What every read leaves alone, a framing does. -/
theorem Framing.keeps_recvOver {τ : Type*} {view : σ → τ}
    (h : ∀ length, ByteReader.Keeps view (R.read length))
    (framing : Framing) : ByteReader.Keeps view (framing.recvOver R) := by
  cases framing with
  | abridged =>
    refine (h 1).andThen ?_
    intro length
    split
    · exact (h 3).andThen fun _ => h _
    · exact h _
  | intermediate => exact (h 4).andThen fun _ => h _
  | full => exact (h 4).andThen fun _ => (h _).andThen fun _ => ByteReader.keeps_done _
  | intermediatePadded =>
      exact (h 4).andThen fun _ => (h _).andThen fun _ => ByteReader.keeps_done _

end Recv

/-! ### The socket -/

/-- The bytes that arrive before the stream ends, a read times out or fails. -/
def available : List Arrival → List UInt8
  | .chunk (b :: bytes) :: arrivals => b :: bytes ++ available arrivals
  | _ => []

theorem available_chunk {bytes : List UInt8} (h : bytes ≠ []) (arrivals : List Arrival) :
    available (.chunk bytes :: arrivals) = bytes ++ available arrivals := by
  cases bytes with
  | nil => exact absurd rfl h
  | cons b bytes => rfl

theorem recvLoop_of_le {length : ℤ} {data : List UInt8} (h : length ≤ data.length)
    (arrivals : List Arrival) :
    recvLoop length data arrivals = (some data, arrivals) := by
  cases arrivals with
  | nil => rw [recvLoop, if_pos h]
  | cons arrival arrivals => cases arrival <;> rw [recvLoop, if_pos h]

/-- The loop returns as many bytes as are asked for where they arrive, and else nothing. -/
theorem recvLoop_eq (data : List UInt8) (n : ℕ) (arrivals : List Arrival) :
    if n ≤ (available arrivals).length then
      ∃ arrivals', recvLoop (data.length + n) data arrivals =
        (some (data ++ (available arrivals).take n), arrivals') ∧
        available arrivals' = (available arrivals).drop n
    else (recvLoop (data.length + n) data arrivals).1 = none := by
  -- on what arrives: a chunk is taken as a whole, or in part where it is longer than asked for
  induction arrivals generalizing data n with
  | nil =>
    rw [recvLoop]
    by_cases hn : n = 0
    · subst hn
      simp [available]
    · have hlt : ¬(data.length + n : ℤ) ≤ data.length := by omega
      simp [available, hn, hlt]
  | cons arrival arrivals ih =>
    by_cases hn : n = 0
    · subst hn
      rw [if_pos (Nat.zero_le _)]
      refine ⟨arrival :: arrivals, ?_, rfl⟩
      rw [recvLoop_of_le (by omega), List.take_zero, List.append_nil]
    · have hmore : ¬(data.length + n : ℤ) ≤ data.length := by omega
      cases arrival with
      | timedOut | failed =>
        rw [recvLoop, if_neg hmore]
        simp [available, hn]
      | chunk bytes =>
        have hroom : ((data.length + n : ℤ) - data.length).toNat = n := by omega
        rw [recvLoop, if_neg hmore]
        dsimp only
        rw [hroom]
        by_cases hbytes : bytes = []
        · subst hbytes
          simp [available, hn]
        · rw [if_neg hbytes, available_chunk hbytes]
          by_cases hfits : bytes.length ≤ n
          · -- the chunk is taken as a whole
            have hrest := ih (data ++ bytes) (n - bytes.length)
            have hlength : ((data ++ bytes).length + (n - bytes.length : ℕ) : ℤ) =
                data.length + n := by
              rw [List.length_append]
              omega
            rw [hlength] at hrest
            rw [if_pos hfits, List.length_append]
            by_cases hle : n ≤ bytes.length + (available arrivals).length
            · rw [if_pos (by omega)] at hrest
              obtain ⟨arrivals', hloop, hleft⟩ := hrest
              rw [if_pos hle]
              refine ⟨arrivals', ?_, ?_⟩
              · rw [hloop, List.append_assoc, List.take_append, List.take_of_length_le hfits]
              · rw [hleft, List.drop_append, List.drop_of_length_le hfits, List.nil_append]
            · rw [if_neg (by omega)] at hrest
              rw [if_neg hle, hrest]
          -- the rest of the chunk stays for the next read
          · have hle : n ≤ (bytes ++ available arrivals).length := by
              rw [List.length_append]
              omega
            have hdrop : bytes.drop n ≠ [] := by
              intro hnil
              exact hfits (List.drop_eq_nil_iff.mp hnil)
            rw [if_neg hfits, if_pos hle]
            refine ⟨.chunk (bytes.drop n) :: arrivals, ?_, ?_⟩
            · rw [List.take_append_of_le_length (by omega)]
            · rw [available_chunk hdrop, List.drop_append_of_le_length (by omega)]

/-- **An exact read of the socket** comes to the bytes asked for where as many arrive, and else to
nothing. -/
theorem recvFromSocket_eq (n : ℕ) (arrivals : List Arrival) :
    if n ≤ (available arrivals).length then
      ∃ arrivals', recvFromSocket n arrivals = (some ((available arrivals).take n), arrivals') ∧
        available arrivals' = (available arrivals).drop n
    else (recvFromSocket n arrivals).1 = none := by
  have h := recvLoop_eq [] n arrivals
  rw [List.length_nil, Nat.cast_zero, zero_add, List.nil_append] at h
  exact h

theorem recvFromSocket_append {arrivals : List Arrival} {want rest : List UInt8}
    (h : available arrivals = want ++ rest) :
    ∃ arrivals', recvFromSocket want.length arrivals = (some want, arrivals') ∧
      available arrivals' = rest := by
  have hread := recvFromSocket_eq want.length arrivals
  rwa [h, List.length_append, if_pos (by omega), List.take_left, List.drop_left] at hread

/-- What is read has arrived. -/
theorem available_of_recvFromSocket {n : ℕ} {data : List UInt8} {arrivals arrivals' : List Arrival}
    (h : recvFromSocket n arrivals = (some data, arrivals')) :
    data.length = n ∧ available arrivals = data ++ available arrivals' := by
  have hread := recvFromSocket_eq n arrivals
  rw [h] at hread
  split at hread
  · next hle =>
    obtain ⟨arrivals₁, heq, hleft⟩ := hread
    obtain ⟨hdata, rfl⟩ := Prod.mk.inj heq
    obtain rfl := Option.some.inj hdata
    exact ⟨List.length_take_of_le hle, by rw [hleft, List.take_append_drop]⟩
  · cases hread

section Tcp

variable (cipher : Aes.Cipher) (key : List UInt8)

/-- `TCP.recv` over a socket as a reader. -/
def Tcp.reader (ε : Type*) : ByteReader ε Tcp where
  read length t := (.ok (t.recv cipher key length).1, (t.recv cipher key length).2)
  Holds t plain := t.Holds cipher key plain
  read_append := by
    intro t want rest h
    obtain ⟨t', hrecv, hrest⟩ := t.recv_append want.length h rfl
    exact ⟨t', by rw [hrecv], hrest⟩

/-- **Over the socket** the framings are those of `recv`. -/
theorem Framing.recvOver_tcp (ε : Type*) (framing : Framing) (t : Tcp) :
    framing.recvOver (Tcp.reader cipher key ε) t =
      (.ok (framing.recv cipher key t).1, (framing.recv cipher key t).2) := by
  -- each framing reads a length and then the packet; a read that fails ends both the same way
  cases framing with
  | abridged =>
    show TCPAbridged.recvOver _ t =
      (.ok (TCPAbridged.recv cipher key t).1, (TCPAbridged.recv cipher key t).2)
    unfold TCPAbridged.recvOver TCPAbridged.recv ByteReader.andThen Tcp.reader
    dsimp only
    cases h : Tcp.recv cipher key 1 t with
    | mk length t₁ =>
      cases length with
      | none => rfl
      | some length =>
        dsimp only
        split
        · cases h₂ : Tcp.recv cipher key 3 t₁ with
          | mk length t₂ =>
            dsimp only
            rw [h₂]
            cases length <;> rfl
        · rfl
  | intermediate =>
    show TCPIntermediate.recvOver _ t =
      (.ok (TCPIntermediate.recv cipher key t).1, (TCPIntermediate.recv cipher key t).2)
    unfold TCPIntermediate.recvOver TCPIntermediate.recv ByteReader.andThen Tcp.reader
    dsimp only
    cases h : Tcp.recv cipher key 4 t with
    | mk length t₁ => cases length <;> rfl
  | full =>
    show TCPFull.recvOver _ t = (.ok (TCPFull.recv cipher key t).1, (TCPFull.recv cipher key t).2)
    unfold TCPFull.recvOver TCPFull.recv ByteReader.andThen Tcp.reader
    dsimp only
    cases h : Tcp.recv cipher key 4 t with
    | mk length t₁ =>
      cases length with
      | none => rfl
      | some length =>
        dsimp only
        cases h₂ : Tcp.recv cipher key (decode length - 4) t₁ with
        | mk packet t₂ =>
          cases packet with
          | none => rfl
          | some packet =>
            dsimp only [ByteReader.done]
            split <;> rfl
  | intermediatePadded =>
    show TCPIntermediatePadded.recvOver _ t =
      (.ok (TCPIntermediatePadded.recv cipher key t).1, (TCPIntermediatePadded.recv cipher key t).2)
    unfold TCPIntermediatePadded.recvOver TCPIntermediatePadded.recv ByteReader.andThen Tcp.reader
    dsimp only
    cases h : Tcp.recv cipher key 4 t with
    | mk length t₁ =>
      cases length with
      | none => rfl
      | some length =>
        dsimp only
        cases h₂ : Tcp.recv cipher key (decodeSigned length) t₁ with
        | mk data t₂ => cases data <;> rfl

namespace Framing

variable {cipher key} {framing : Framing} {packet : Packet} {packets : List Packet} {seqNo : ℕ}
    {t : Tcp}
  {frame later : List UInt8}

/-- **A frame is read back, and nothing after it.** -/
theorem recv_send (hsend : framing.send seqNo packet = some frame)
    (hcarries : framing.Carries packet)
    (h : t.Holds cipher key (frame ++ later)) :
    ∃ t', framing.recv cipher key t = (some packet.data, t') ∧ t'.Holds cipher key later := by
  obtain ⟨t', hread, hlater⟩ := reads_send (R := Tcp.reader cipher key Empty) hsend hcarries h
  rw [recvOver_tcp] at hread
  obtain ⟨hdata, hrest⟩ := Prod.mk.inj hread
  exact ⟨t', Prod.ext (Except.ok.inj hdata) hrest, hlater⟩

/-- **So are the frames of a sequence of packets**, in order. -/
theorem recvAll_sendAll {frames : List (List UInt8)}
    (hsend : framing.sendAll seqNo packets = some frames)
    (hcarries : ∀ packet ∈ packets, framing.Carries packet)
    (h : t.Holds cipher key (frames.flatten ++ later)) :
    ∃ t', framing.recvAll cipher key packets.length t = (packets.map (some ·.data), t') ∧
      t'.Holds cipher key later := by
  induction packets generalizing seqNo frames t with
  | nil =>
    cases hsend
    exact ⟨t, rfl, h⟩
  | cons packet packets ih =>
    rw [sendAll] at hsend
    obtain ⟨frame, hframe, hsend⟩ := Option.bind_eq_some_iff.mp hsend
    obtain ⟨frames, hframes, hsend⟩ := Option.bind_eq_some_iff.mp hsend
    cases hsend
    rw [List.flatten_cons, List.append_assoc] at h
    obtain ⟨t₁, hrecv, h₁⟩ := recv_send hframe (hcarries packet (List.mem_cons_self ..)) h
    obtain ⟨t₂, hrecvAll, h₂⟩ := ih hframes (fun p hp => hcarries p (List.mem_cons_of_mem _ hp)) h₁
    refine ⟨t₂, ?_, h₂⟩
    rw [List.length_cons, recvAll, hrecv]
    dsimp only
    rw [hrecvAll, List.map_cons]

/-- **What is sent is received, however the stream is cut up**: in order, without a
byte of what is written later, and a frame of `TCPFull` with a wrong checksum is not
returned. -/
theorem round_trip {frames laterFrames : List (List UInt8)}
    (hsend : framing.sendAll 0 packets = some frames)
    (hcarries : ∀ packet ∈ packets, framing.Carries packet) (encrypt : Option Aes.Counter)
    {arrivals : List Arrival}
    (h : Arrival.Deliver arrivals (Tcp.encryptAll cipher key encrypt (frames ++ laterFrames))) :
    ∃ t', framing.recvAll cipher key packets.length ⟨arrivals, encrypt⟩ =
      (packets.map (some ·.data), t') ∧
      t'.Holds cipher key laterFrames.flatten ∧
      ∀ damaged checksum rest, framing = full → TCPFull.Damaged damaged checksum →
        laterFrames.flatten = damaged ++ checksum ++ rest →
          (framing.recv cipher key t').1 = none := by
  have hholds : Tcp.Holds cipher key ⟨arrivals, encrypt⟩
      (frames.flatten ++ laterFrames.flatten) := by
    rw [← List.flatten_append]
    cases encrypt with
    | none =>
      rw [Tcp.encryptAll] at h
      exact h
    | some counter =>
      rw [Tcp.encryptAll_some] at h
      exact h
  obtain ⟨t', hrecvAll, hlater⟩ := recvAll_sendAll hsend hcarries hholds
  refine ⟨t', hrecvAll, hlater, ?_⟩
  rintro damaged checksum rest rfl hdamaged hflatten
  rw [hflatten] at hlater
  obtain ⟨t'', hrecv, -⟩ := TCPFull.recv_frame hdamaged.header hdamaged.length
    hdamaged.length_checksum hlater
  rw [recv, hrecv]
  exact if_pos hdamaged.wrong.symm

/-- A packet that arrives in three pieces, and then a frame damaged on its way. -/
theorem round_trip_damaged :
    ∃ t', full.recvAll (fun _ => Equiv.refl _) [] 1
      ⟨[.chunk [13, 0], .chunk [0, 0, 0, 0, 0, 0, 7, 90, 102],
        .chunk [34, 137, 13, 0, 0, 0, 1, 0, 0, 0, 9, 123, 82, 253, 36]], none⟩ = ([some [7]], t') ∧
      (full.recv (fun _ => Equiv.refl _) [] t').1 = none := by
  have harrivals : Arrival.Deliver [.chunk [13, 0], .chunk [0, 0, 0, 0, 0, 0, 7, 90, 102],
        .chunk [34, 137, 13, 0, 0, 0, 1, 0, 0, 0, 9, 123, 82, 253, 36]]
      ([13, 0] ++ ([0, 0, 0, 0, 0, 0, 7, 90, 102] ++
        ([34, 137, 13, 0, 0, 0, 1, 0, 0, 0, 9, 123, 82, 253, 36] ++ []))) :=
    .chunk (by decide) (.chunk (by decide) (.chunk (by decide) .nil))
  have hsend : full.sendAll 0 [⟨[7], []⟩] =
      some [[13, 0, 0, 0, 0, 0, 0, 0, 7, 90, 102, 34, 137]] := by
    decide +kernel
  have hdamaged : TCPFull.Damaged [13, 0, 0, 0, 1, 0, 0, 0, 9] [123, 82, 253, 36] :=
    ⟨by decide, by decide, rfl, by decide +kernel⟩
  obtain ⟨t', hrecvAll, -, hwrong⟩ := @round_trip (fun _ => Equiv.refl _) [] full [⟨[7], []⟩]
    [[13, 0, 0, 0, 0, 0, 0, 0, 7, 90, 102, 34, 137]]
    [[13, 0, 0, 0, 1, 0, 0, 0, 9, 123, 82, 253, 36]]
    hsend (fun _ _ => trivial) none _ harrivals
  exact ⟨t', hrecvAll, hwrong _ _ [] rfl hdamaged rfl⟩

end Framing

end Tcp

/-! ### Fake-TLS records -/

namespace FakeTlsRecords

variable {r : FakeTlsRecords} {arrivals arrivals' : List Arrival} {payload : List UInt8}
    {payloads : List (List UInt8)}

/-- A record that arrives is read. -/
theorem readRecord_of_available {rest : List UInt8} (hpayload : payload.length < 2 ^ 16)
    (h : available arrivals = record payload ++ rest) :
    ∃ arrivals', readRecord arrivals = (.ok (some payload), arrivals') ∧
      available arrivals' = rest := by
  rw [record, List.append_assoc] at h
  obtain ⟨arrivals₁, hheader, h₁⟩ := recvFromSocket_append h
  obtain ⟨arrivals₂, hbody, h₂⟩ := recvFromSocket_append h₁
  refine ⟨arrivals₂, ?_, h₂⟩
  have hsize : (APPLICATION_DATA_PREFIX ++ (encode 2 payload.length).reverse).length =
      RECORD_HEADER_SIZE := by
    simp [RECORD_HEADER_SIZE, RECORD_LENGTH_SIZE]
  have hdrop : (APPLICATION_DATA_PREFIX ++ (encode 2 payload.length).reverse).drop
      ((APPLICATION_DATA_PREFIX ++ (encode 2 payload.length).reverse).length - RECORD_LENGTH_SIZE) =
      (encode 2 payload.length).reverse := by
    rw [hsize]
    exact List.drop_left' (by decide)
  have hdecode : Aes.fromBytes (encode 2 payload.length).reverse = payload.length := by
    rw [Aes.fromBytes, List.reverse_reverse, decode_encode (hpayload.trans_le (by decide))]
  rw [hsize] at hheader
  rw [readRecord, hheader]
  dsimp only
  rw [List.take_left, if_neg (not_not_intro rfl), hdrop, hdecode, hbody]

/-- A record that is read has taken its header off what arrives, at least. -/
theorem available_of_readRecord (h : readRecord arrivals = (.ok (some payload), arrivals')) :
    (available arrivals').length < (available arrivals).length := by
  rw [readRecord] at h
  cases hheader : recvFromSocket RECORD_HEADER_SIZE arrivals with
  | mk header arrivals₁ =>
    rw [hheader] at h
    cases header with
    | none => cases h
    | some header =>
      obtain ⟨hsize, hfirst⟩ := available_of_recvFromSocket hheader
      have hpos : 0 < header.length := hsize.symm ▸ (by decide : 0 < RECORD_HEADER_SIZE)
      dsimp only at h
      split at h
      · cases h
      · cases hbody : recvFromSocket
          (Aes.fromBytes (header.drop (header.length - RECORD_LENGTH_SIZE))) arrivals₁ with
        | mk body arrivals₂ =>
          rw [hbody] at h
          dsimp only at h
          obtain ⟨hpayload, rfl⟩ := Prod.mk.inj h
          obtain rfl := Except.ok.inj hpayload
          obtain ⟨-, hsecond⟩ := available_of_recvFromSocket hbody
          have hlengths := congrArg List.length hsecond
          rw [List.length_append] at hlengths
          rw [hfirst, List.length_append]
          omega

/-- The turns that the loop of `recv` may take: each takes some of the bytes that arrive. -/
def turns (r : FakeTlsRecords) : ℕ := (available r.arrivals).length + 1

/-- **The loop ends.** -/
theorem isSome_recv (length : ℕ) {fuel : ℕ} (h : (available r.arrivals).length < fuel) :
    (r.recv length fuel).isSome := by
  induction fuel generalizing r with
  | zero => cases h
  | succ fuel ih =>
    rw [recv]
    split
    · cases hread : readRecord r.arrivals with
      | mk result arrivals =>
        cases result with
        | error message => rfl
        | ok record =>
          cases record with
          | none => rfl
          | some record =>
            refine ih ?_
            exact (available_of_readRecord hread).trans_le (Nat.le_of_lt_succ h)
    · rfl

/-- What is left of the stream: the buffer, and the payloads of the records that arrive. -/
def Carries (r : FakeTlsRecords) (stream : List UInt8) : Prop :=
  ∃ (payloads : List (List UInt8)) (rest : List UInt8),
    (∀ payload ∈ payloads, payload.length < 2 ^ 16) ∧
    available r.arrivals = payloads.flatMap record ++ rest ∧ r.buffer ++ payloads.flatten = stream

/-- **An exact read out of records** returns the bytes of their payloads. -/
theorem recv_of_carries {want rest : List UInt8} {fuel : ℕ} (h : r.Carries (want ++ rest))
    (hfuel : (available r.arrivals).length < fuel) :
    ∃ r', r.recv want.length fuel = some (.ok (some want), r') ∧ r'.Carries rest := by
  obtain ⟨payloads, later, hlength, havailable, hstream⟩ := h
  -- on the records still to be read: there is enough in the buffer, or one more is read
  induction payloads generalizing r fuel with
  | nil =>
    rw [List.flatten_nil, List.append_nil] at hstream
    obtain ⟨fuel, rfl⟩ := Nat.exists_eq_add_one_of_ne_zero (Nat.ne_zero_of_lt hfuel)
    refine ⟨{ r with buffer := rest }, ?_, [], later, hlength, havailable, List.append_nil _⟩
    rw [recv, hstream, if_neg (by rw [List.length_append]; omega), List.take_left, List.drop_left]
  | cons payload payloads ih =>
    obtain ⟨fuel, rfl⟩ := Nat.exists_eq_add_one_of_ne_zero (Nat.ne_zero_of_lt hfuel)
    obtain ⟨hpayload, hpayloads⟩ := List.forall_mem_cons.mp hlength
    by_cases hmore : r.buffer.length < want.length
    · rw [List.flatMap_cons, List.append_assoc] at havailable
      obtain ⟨arrivals', hread, hleft⟩ := readRecord_of_available hpayload havailable
      have hfewer : (available arrivals').length < fuel :=
        (available_of_readRecord hread).trans_le (Nat.le_of_lt_succ hfuel)
      rw [List.flatten_cons, ← List.append_assoc] at hstream
      obtain ⟨r', hrecv, hcarries⟩ :=
        ih (r := { r with buffer := r.buffer ++ payload, arrivals := arrivals' })
        hfewer hpayloads hleft hstream
      refine ⟨r', ?_, hcarries⟩
      rw [recv, if_pos hmore, hread]
      exact hrecv
    · have hle : want.length ≤ r.buffer.length := not_lt.mp hmore
      have htake : r.buffer.take want.length = want := by
        have h := congrArg (List.take want.length) hstream
        rwa [List.take_append_of_le_length hle, List.take_left] at h
      have hdrop : r.buffer.drop want.length ++ (payload :: payloads).flatten = rest := by
        have h := congrArg (List.drop want.length) hstream
        rwa [List.drop_append_of_le_length hle, List.drop_left] at h
      refine ⟨{ r with
        buffer := r.buffer.drop want.length }, ?_, payload :: payloads, later, hlength,
          havailable, hdrop⟩
      rw [recv, if_neg hmore, htake]

/-- `recv` does not touch what `wrap` uses. -/
theorem sender_of_recv {length fuel : ℕ} {result : Except String (Option (List UInt8))}
    {r' : FakeTlsRecords}
    (h : r.recv length fuel = some (result, r')) :
    (r'.prologue, r'.sentChangeCipherSpec) = (r.prologue, r.sentChangeCipherSpec) := by
  induction fuel generalizing r with
  | zero => cases h
  | succ fuel ih =>
    rw [recv] at h
    split at h
    · split at h
      · cases h
        rfl
      · cases h
        rfl
      · next record arrivals _ =>
        exact ih (r := { r with buffer := r.buffer ++ record, arrivals }) h
    · cases h
      rfl

/-- `recv` as a reader; a slice of a negative length ends that many bytes before the end of the
buffer. -/
def reader : ByteReader String FakeTlsRecords where
  read length r :=
    if 0 ≤ length then (r.recv length.toNat r.turns).getD (.ok none, r)
    else
      let n := r.buffer.length - length.natAbs
      (.ok (some (r.buffer.take n)), { r with buffer := r.buffer.drop n })
  Holds := Carries
  read_append := by
    intro r want rest h
    obtain ⟨r', hrecv, hcarries⟩ := recv_of_carries h (Nat.lt_succ_self _)
    refine ⟨r', ?_, hcarries⟩
    rw [if_pos (Int.natCast_nonneg _), Int.toNat_natCast]
    exact congrArg (Option.getD · _) hrecv

theorem keeps_reader (length : ℤ) :
    ByteReader.Keeps (fun r : FakeTlsRecords => (r.prologue, r.sentChangeCipherSpec))
      (reader.read length) := by
  intro r
  dsimp only [reader]
  split
  · cases h : r.recv length.toNat r.turns with
    | none => rfl
    | some result => exact sender_of_recv h
  · rfl

end FakeTlsRecords

end Pyrogram
