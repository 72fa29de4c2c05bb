import Pyrogram.Crypto.Aes
import Pyrogram.LittleEndian

/-!
# The framing of the TCP transports

Each transport writes a packet as one frame and reads it back with two or three
calls of `TCP.recv`, each for an exact number of bytes.  The socket hands the byte
stream over in pieces of its own choosing; `_recv_from_socket` puts them together,
and where the connection is obfuscated `TCP.recv` decrypts what it got.

## Main definitions

* `Arrival` — what a read of the socket comes to.
* `Tcp.recv` — an exact number of bytes, decrypted.
* `Framing.send`, `Framing.recv` — the frame of a packet, and reading one.
* `Tcp.Holds` — the bytes that are still to be read, decrypted.

## Main results

* `Tcp.recv_append` — **the pieces do not matter** to an exact read.
* `TCPFull.recv_frame` — what is made of a frame with any checksum.
* `Framing.isSome_send` — the packets that have a frame.
-/

namespace Pyrogram

open BlockModes LittleEndian

/-! ### The socket -/

/-- What `reader.read` comes to. -/
inductive Arrival
  /-- Some bytes arrive; none is the end of the stream. -/
  | chunk (bytes : List UInt8)
  | timedOut
  /-- `OSError`. -/
  | failed
  deriving DecidableEq, Repr

/-- The loop of `_recv_from_socket`; what is not read of a chunk is left for the next
read. -/
def recvLoop (length : ℤ) : List UInt8 → List Arrival → Option (List UInt8) × List Arrival
  | data, [] => (if length ≤ data.length then some data else none, [])
  | data, arrival :: arrivals =>
      if length ≤ data.length then (some data, arrival :: arrivals)
      else
        match arrival with
        | .chunk bytes =>
            let room := (length - data.length).toNat
            if bytes = [] then (none, arrivals)
            else if bytes.length ≤ room then recvLoop length (data ++ bytes) arrivals
            -- `reader.read` returns no more than there is room for
            else (some (data ++ bytes.take room), .chunk (bytes.drop room) :: arrivals)
        | .timedOut | .failed => (none, arrivals)

/-- `TCP._recv_from_socket`. -/
def recvFromSocket (length : ℤ) (arrivals : List Arrival) : Option (List UInt8) × List Arrival :=
  recvLoop length [] arrivals

/-- The receiving side of a `TCP`: the socket, and the counter of `_decrypt`. -/
structure Tcp where
  arrivals : List Arrival
  decrypt : Option Aes.Counter := none
  deriving DecidableEq, Repr

section Transports

variable (cipher : Aes.Cipher) (key : List UInt8)

namespace Tcp

/-- `TCP.recv` over a socket. -/
def recv (length : ℤ) (t : Tcp) : Option (List UInt8) × Tcp :=
  match recvFromSocket length t.arrivals, t.decrypt with
  | (some data, arrivals), some counter =>
      let (data, counter) := Aes.ctr cipher key counter data
      (some data, ⟨arrivals, some counter⟩)
  | (data, arrivals), decrypt => (data, ⟨arrivals, decrypt⟩)

end Tcp

/-! ### Checksums -/

/-- One bit of the division by the polynomial of CRC-32. -/
def crcBit (c : UInt32) : UInt32 :=
  if c &&& 1 = 1 then (c >>> 1) ^^^ 0xEDB88320 else c >>> 1

def crcByte (c : UInt32) (b : UInt8) : UInt32 := crcBit^[8] (c ^^^ b.toUInt32)

/-- `binascii.crc32`. -/
def crc32 (data : List UInt8) : UInt32 := data.foldl crcByte 0xFFFFFFFF ^^^ 0xFFFFFFFF

example : crc32 "123456789".toUTF8.toList = 0xCBF43926 := by decide +kernel

/-! ### The transports -/

/-- The transports by the frames they write. -/
inductive Framing
  | abridged
  | intermediate
  | full
  | intermediatePadded
  deriving DecidableEq, Repr

/-- The frame that `TCPAbridged.send` writes; `length.to_bytes(3, "little")` raises
where the length needs more. -/
def TCPAbridged.send (data : List UInt8) : Option (List UInt8) :=
  let length := data.length / 4
  if length ≤ 126 then some (encode 1 length ++ data)
  else if length < 2 ^ 24 then some (0x7f :: encode 3 length ++ data)
  else none

def TCPAbridged.recv (t : Tcp) : Option (List UInt8) × Tcp :=
  match t.recv cipher key 1 with
  | (none, t) => (none, t)
  | (some length, t) =>
      if length = [0x7f] then
        match t.recv cipher key 3 with
        | (none, t) => (none, t)
        | (some length, t) => t.recv cipher key (decode length * 4)
      else t.recv cipher key (decode length * 4)

/-- The frame that `TCPIntermediate.send` writes; `pack("<i", ..)` raises where the
length does not fit. -/
def TCPIntermediate.send (data : List UInt8) : Option (List UInt8) :=
  (encodeSigned 4 data.length).map (· ++ data)

def TCPIntermediate.recv (t : Tcp) : Option (List UInt8) × Tcp :=
  match t.recv cipher key 4 with
  | (none, t) => (none, t)
  | (some length, t) => t.recv cipher key (decodeSigned length)

/-- The frame that `TCPFull.send` writes when it has sent `seqNo` others;
`pack("<II", ..)` raises where one of the two does not fit. -/
def TCPFull.send (seqNo : ℕ) (data : List UInt8) : Option (List UInt8) :=
  if data.length + 12 < 2 ^ 32 ∧ seqNo < 2 ^ 32 then
    let data := encode 4 (data.length + 12) ++ encode 4 seqNo ++ data
    some (data ++ encode 4 (crc32 data).toNat)
  else none

def TCPFull.recv (t : Tcp) : Option (List UInt8) × Tcp :=
  match t.recv cipher key 4 with
  | (none, t) => (none, t)
  | (some lengthBytes, t) =>
      match t.recv cipher key (decode lengthBytes - 4) with
      | (none, t) => (none, t)
      | (some packet, t) =>
          let packet := lengthBytes ++ packet
          -- `packet[-4:]` and `packet[:-4]`
          let checksum := packet.drop (packet.length - 4)
          let packet := packet.take (packet.length - 4)
          if (crc32 packet).toNat ≠ decode checksum then (none, t) else (some (packet.drop 8), t)

/-- The frame that `TCPIntermediatePadded.send` writes with this padding. -/
def TCPIntermediatePadded.send (padding data : List UInt8) : Option (List UInt8) :=
  (encodeSigned 4 (data.length + padding.length)).map (· ++ data ++ padding)

/-- What `TCPIntermediatePadded.recv` makes of `data`, the `length` bytes of a frame. -/
def TCPIntermediatePadded.strip (length : ℤ) (data : List UInt8) : List UInt8 :=
  if length < 24 then
    if 8 ≤ length ∧ data.take 4 = List.replicate 4 0xff then data.take 8 else data.take 4
  else if data.take 8 ≠ List.replicate 8 0 then
    let strip := ((length - 24) % 16).toNat
    if strip ≠ 0 then data.take (data.length - strip) else data
  else data

def TCPIntermediatePadded.recv (t : Tcp) : Option (List UInt8) × Tcp :=
  match t.recv cipher key 4 with
  | (none, t) => (none, t)
  | (some length, t) =>
      match t.recv cipher key (decodeSigned length) with
      | (none, t) => (none, t)
      | (some data, t) => (some (strip (decodeSigned length) data), t)

/-- A packet, and the padding that `TCPIntermediatePadded` draws for it. -/
structure Framing.Packet where
  data : List UInt8
  padding : List UInt8 := []
  deriving DecidableEq, Repr

namespace Framing

/-- `send`, when `seqNo` packets were sent before. -/
def send : Framing → ℕ → Packet → Option (List UInt8)
  | abridged, _, packet => TCPAbridged.send packet.data
  | intermediate, _, packet => TCPIntermediate.send packet.data
  | full, seqNo, packet => TCPFull.send seqNo packet.data
  | intermediatePadded, _, packet => TCPIntermediatePadded.send packet.padding packet.data

def recv : Framing → Tcp → Option (List UInt8) × Tcp
  | abridged => TCPAbridged.recv cipher key
  | intermediate => TCPIntermediate.recv cipher key
  | full => TCPFull.recv cipher key
  | intermediatePadded => TCPIntermediatePadded.recv cipher key

/-- The frames of successive packets; `none` where a `send` raises. -/
def sendAll (framing : Framing) : ℕ → List Packet → Option (List (List UInt8))
  | _, [] => some []
  | seqNo, packet :: packets => do
      let frame ← framing.send seqNo packet
      let frames ← sendAll framing (seqNo + 1) packets
      return frame :: frames

/-- Successive calls of `recv`. -/
def recvAll (framing : Framing) : ℕ → Tcp → List (Option (List UInt8)) × Tcp
  | 0, t => ([], t)
  | n + 1, t =>
      let (packet, t) := framing.recv cipher key t
      let (packets, t) := recvAll framing n t
      (packet :: packets, t)

/-- The packets that a format is made for: words for the abridged one, encrypted
messages for the padded one, whose padding is below sixteen bytes. -/
def Carries : Framing → Packet → Prop
  | abridged, packet => 4 ∣ packet.data.length
  | intermediate, _ | full, _ => True
  | intermediatePadded, packet =>
      (∃ k, packet.data.length = 24 + 16 * k) ∧ packet.data.take 8 ≠ List.replicate 8 0 ∧
        packet.padding.length < 16

end Framing

/-- What `TCP.send` writes for these frames, `_encrypt` being at the counter. -/
def Tcp.encryptAll : Option Aes.Counter → List (List UInt8) → List UInt8
  | none, frames => frames.flatten
  | some _, [] => []
  | some counter, frame :: frames =>
      let (data, counter) := Aes.ctr cipher key counter frame
      data ++ encryptAll (some counter) frames

/-! ### Reading an exact number of bytes -/

/-- Nothing but these bytes arrives, in pieces of whatever size. -/
inductive Arrival.Deliver : List Arrival → List UInt8 → Prop
  | nil : Deliver [] []
  | chunk {bytes rest : List UInt8} {arrivals : List Arrival} (hne : bytes ≠ [])
      (h : Deliver arrivals rest) : Deliver (.chunk bytes :: arrivals) (bytes ++ rest)

/-- **The loop puts the pieces together**: it returns the bytes asked for and leaves
the others where they are. -/
theorem recvLoop_of_deliver {arrivals : List Arrival} {want rest : List UInt8} {length : ℤ}
    (data : List UInt8)
    (h : Arrival.Deliver arrivals (want ++ rest)) (hlength : length = (data ++ want).length) :
    ∃ arrivals', recvLoop length data arrivals = (some (data ++ want), arrivals') ∧
      Arrival.Deliver arrivals' rest := by
  generalize hstream : want ++ rest = stream at h
  -- on what is delivered: a chunk ends before what is asked for, with it, or beyond it
  induction h generalizing want data with
  | nil =>
    obtain ⟨rfl, rfl⟩ := List.append_eq_nil_iff.mp hstream
    refine ⟨[], ?_, .nil⟩
    rw [List.append_nil] at hlength ⊢
    rw [recvLoop, if_pos hlength.le]
  | @chunk bytes more arrivals hne harrivals ih =>
    rw [List.length_append, Nat.cast_add] at hlength
    by_cases hdone : length ≤ data.length
    · obtain rfl : want = [] := List.length_eq_zero_iff.mp (by omega)
      refine ⟨.chunk bytes :: arrivals, ?_, ?_⟩
      · rw [recvLoop, if_pos hdone, List.append_nil]
      · rw [List.nil_append] at hstream
        exact hstream ▸ .chunk hne harrivals
    · have hroom : (length - data.length).toNat = want.length := by omega
      rw [recvLoop, if_neg hdone]
      dsimp only
      rw [if_neg hne, hroom]
      rcases List.append_eq_append_iff.mp hstream with ⟨piece, rfl, rfl⟩ | ⟨want', rfl, rfl⟩
      · rcases eq_or_ne piece [] with rfl | hpiece
        · -- the piece is the last one asked for
          rw [List.append_nil] at hne ⊢
          obtain ⟨arrivals', hloop, hdeliver⟩ := @ih [] (data ++ want) (by simpa) rfl
          refine ⟨arrivals', ?_, hdeliver⟩
          rw [if_pos le_rfl, hloop, List.append_nil]
        · -- the piece goes beyond what is asked for
          have hbeyond : ¬ (want ++ piece).length ≤ want.length := by
            have := List.length_pos_iff.mpr hpiece
            rw [List.length_append]
            omega
          refine ⟨.chunk piece :: arrivals, ?_, .chunk hpiece harrivals⟩
          rw [if_neg hbeyond, List.take_left, List.drop_left]
      · have hfits : bytes.length ≤ (bytes ++ want').length := by
          rw [List.length_append]
          exact Nat.le_add_right ..
        obtain ⟨arrivals', hloop, hdeliver⟩ := @ih want' (data ++ bytes)
          (by rw [List.append_assoc, List.length_append, Nat.cast_add, hlength]) rfl
        refine ⟨arrivals', ?_, hdeliver⟩
        rw [if_pos hfits, hloop, List.append_assoc]

variable {cipher key}

/-- What is written is the frames with the keystream added to them. -/
theorem Tcp.encryptAll_some (counter : Aes.Counter) (frames : List (List UInt8)) :
    encryptAll cipher key (some counter) frames =
      (Aes.keystream cipher key).apply counter frames.flatten := by
  induction frames generalizing counter with
  | nil => rfl
  | cons frame frames ih =>
    rw [encryptAll, Aes.ctr_eq]
    dsimp only
    rw [ih, List.flatten_cons, Keystream.apply_append]

variable (cipher key) in
/-- What is still to be read is `plain`, once it is decrypted. -/
def Tcp.Holds (t : Tcp) (plain : List UInt8) : Prop :=
  Arrival.Deliver t.arrivals
    (t.decrypt.elim plain fun counter => (Aes.keystream cipher key).apply counter plain)

/-- **The pieces do not matter to `recv`**: it returns the bytes asked for and leaves
all that follow. -/
theorem Tcp.recv_append {t : Tcp} {want rest : List UInt8} (length : ℤ)
    (h : t.Holds cipher key (want ++ rest)) (hlength : length = want.length) :
    ∃ t', t.recv cipher key length = (some want, t') ∧ t'.Holds cipher key rest := by
  obtain ⟨arrivals, decrypt⟩ := t
  cases decrypt with
  | none =>
    obtain ⟨arrivals', hloop, hdeliver⟩ := recvLoop_of_deliver [] h hlength
    refine ⟨⟨arrivals', none⟩, ?_, hdeliver⟩
    rw [recv, recvFromSocket, hloop]
    rfl
  | some counter =>
    have happly : Arrival.Deliver arrivals ((Aes.keystream cipher key).apply counter want ++
        (Aes.keystream cipher key).apply ((Aes.keystream cipher key).advance counter want.length)
          rest) := by
      rw [← Keystream.apply_append]
      exact h
    obtain ⟨arrivals', hloop, hdeliver⟩ := recvLoop_of_deliver [] happly
      (hlength.trans (by rw [List.nil_append, Keystream.length_apply]))
    refine ⟨⟨arrivals', some ((Aes.keystream cipher key).advance counter want.length)⟩, ?_,
      hdeliver⟩
    rw [recv, recvFromSocket, hloop]
    dsimp only
    rw [Aes.ctr_eq, List.nil_append, Keystream.apply_apply, Keystream.length_apply]

/-! ### The parts of a frame -/

variable {t : Tcp} {data frame later : List UInt8}

/-- What `TCPFull.recv` makes of a frame that has the length its first four bytes say. -/
theorem TCPFull.recv_frame {checksum : List UInt8} (hframe : 4 ≤ frame.length)
    (hlength : decode (frame.take 4) = frame.length + 4) (hchecksum : checksum.length = 4)
    (h : t.Holds cipher key (frame ++ checksum ++ later)) :
    ∃ t', recv cipher key t =
        (if (crc32 frame).toNat ≠ decode checksum then none else some (frame.drop 8), t') ∧
      t'.Holds cipher key later := by
  have htake : (frame.take 4).length = 4 := by
    rw [List.length_take]
    omega
  rw [← List.take_append_drop 4 frame, List.append_assoc, List.append_assoc] at h
  obtain ⟨t₁, hrecv₁, h₁⟩ := Tcp.recv_append 4 h (by rw [htake]; rfl)
  rw [← List.append_assoc] at h₁
  obtain ⟨t₂, hrecv₂, h₂⟩ := Tcp.recv_append (decode (frame.take 4) - 4) h₁
    (by rw [hlength, List.length_append, List.length_drop, hchecksum]; omega)
  have hpacket : frame.take 4 ++ (frame.drop 4 ++ checksum) = frame ++ checksum := by
    rw [← List.append_assoc, List.take_append_drop]
  have hfront : (frame ++ checksum).length - 4 = frame.length := by
    rw [List.length_append, hchecksum, Nat.add_sub_cancel]
  refine ⟨t₂, ?_, h₂⟩
  rw [recv, hrecv₁]
  dsimp only
  rw [hrecv₂]
  dsimp only
  rw [hpacket, hfront, List.take_left, List.drop_left]
  split <;> rfl

theorem TCPIntermediatePadded.strip_append {padding : List UInt8} {k : ℕ}
    (hlength : data.length = 24 + 16 * k) (hauth : data.take 8 ≠ List.replicate 8 0)
    (hpadding : padding.length < 16) :
    strip (data.length + padding.length) (data ++ padding) = data := by
  have hmod : (((data.length + padding.length : ℤ) - 24) % 16).toNat = padding.length := by
    rw [hlength]
    push_cast
    omega
  have htake : (data ++ padding).take 8 = data.take 8 :=
    List.take_append_of_le_length (by omega)
  rw [strip, if_neg (by omega), htake, if_pos hauth, hmod]
  dsimp only
  split
  · rw [List.length_append, Nat.add_sub_cancel, List.take_left]
  · next hzero =>
    rw [List.length_eq_zero_iff.mp (not_not.mp hzero), List.append_nil]

/-- A frame of `TCPFull` whose checksum is not that of the bytes before it. -/
structure TCPFull.Damaged (frame checksum : List UInt8) : Prop where
  header : 4 ≤ frame.length
  length : decode (frame.take 4) = frame.length + 4
  length_checksum : checksum.length = 4
  wrong : decode checksum ≠ (crc32 frame).toNat

namespace Framing

variable {framing : Framing} {packet : Packet} {seqNo : ℕ}

/-- The lengths of the packets that a `send` does not raise on. -/
theorem isSome_send : (framing.send seqNo packet).isSome ↔
    match framing with
    | abridged => packet.data.length < 2 ^ 26
    | intermediate => packet.data.length < 2 ^ 31
    | full => packet.data.length + 12 < 2 ^ 32 ∧ seqNo < 2 ^ 32
    | intermediatePadded => packet.data.length + packet.padding.length < 2 ^ 31 := by
  -- each length must fit its field
  cases framing with
  | abridged =>
    rw [send, TCPAbridged.send]
    dsimp only
    split
    · next hshort => exact iff_of_true rfl (by omega)
    · split
      · next hlong => exact iff_of_true rfl (by omega)
      · next hlong => exact iff_of_false (by simp) (by omega)
  | intermediate =>
    rw [send, TCPIntermediate.send, Option.isSome_map]
    unfold encodeSigned
    split
    · next hfits => exact iff_of_true rfl (by omega)
    · next hfits => exact iff_of_false (by simp) (by omega)
  | full =>
    rw [send, TCPFull.send]
    split
    · next hfits => exact iff_of_true rfl hfits
    · next hfits => exact iff_of_false (by simp) hfits
  | intermediatePadded =>
    rw [send, TCPIntermediatePadded.send, Option.isSome_map]
    unfold encodeSigned
    split
    · next hfits => exact iff_of_true rfl (by omega)
    · next hfits => exact iff_of_false (by simp) (by omega)

end Framing

end Transports

end Pyrogram
