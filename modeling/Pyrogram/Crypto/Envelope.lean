import Pyrogram.Crypto.Mtproto

/-!
# What an accepted packet looks like

`unpack` checks a packet in nine places.  The length field of a message is a
signed integer, and neither of its two uses minds a negative one: `data.read`
takes a negative size for "to the end", and the slice that makes the padding
counts a negative start from the end.

## Main definitions

* `plaintext`, `lengthField` — the decrypted packet and the length it declares.
* `Envelope` — a packet from which exactly the declared body was read, with
  padding of the prescribed size after it.

## Main results

* `unpack_eq_ok` — `unpack` accepts exactly the packets that pass every check.
* `unpack_envelope_iff` — **an accepted packet is such an envelope exactly when its
  length field is greater than −12**.
* `unpack_of_negative` — one that is accepted with another length field has its
  padding read as part of the body.
-/

namespace Pyrogram.Mtproto

open Raw LittleEndian

variable {β : Type} {sha256 : Sha256} {aes : Ige256} {objects : ℕ → Option (Parser β)}
  {b sessionId authKey authKeyId data : List UInt8} {m : Message β}

/-- The plaintext `unpack` decrypts a packet to, its padding included. -/
def plaintext (sha256 : Sha256) (aes : Ige256) (b authKey : List UInt8) :
    Except Exc (List UInt8) :=
  aes.decrypt (b.drop 24) (kdf sha256 authKey ((b.drop 8).take 16) false).1
    (kdf sha256 authKey ((b.drop 8).take 16) false).2

/-- The length a plaintext declares for its body. -/
def lengthField (data : List UInt8) : ℤ := decodeSigned ((data.drop 28).take 4)

/-- The checks that `unpack` makes once it has read the message. -/
structure Sealed (sha256 : Sha256) (b authKey data : List UInt8) (m : Message β) : Prop where
  msgKey : (b.drop 8).take 16 = msgKeyOf sha256 authKey 96 data
  padding : 12 ≤ (sliceFrom (data.drop 32) m.length).length ∧
    (sliceFrom (data.drop 32) m.length).length ≤ 1024
  payload : (data.drop 32).length % 4 = 0
  msgId : m.msgId % 2 ≠ 0

/-- **`unpack` accepts exactly the packets that pass every check.** -/
theorem unpack_eq_ok : unpack sha256 aes objects b sessionId authKey authKeyId = .ok m ↔
    b.take 8 = authKeyId ∧ ∃ data, plaintext sha256 aes b authKey = .ok data ∧
      (data.drop 8).take 8 = sessionId ∧ (Message.read objects (data.drop 16)).1 = .ok m ∧
        Sealed sha256 b authKey data m := by
  simp only [unpack, Except.bind_eq_ok, SecurityCheckMismatch.check_eq_ok, decide_eq_true_eq,
    Except.mapError_eq_ok, pure, Except.pure, Except.ok.injEq]
  constructor
  · rintro ⟨-, hid, data, hdata, -, hsession, m, hm, -, hkey, -, hpad, -, hpay, -, hodd, rfl⟩
    exact ⟨hid, data, hdata, hsession, hm, hkey, hpad, hpay, hodd⟩
  · rintro ⟨hid, data, hdata, hsession, hm, hkey, hpad, hpay, hodd⟩
    exact ⟨(), hid, data, hdata, (), hsession, m, hm, (), hkey, (), hpad, (), hpay, (), hodd, rfl⟩

/-! ### What is read -/

/-- The fields of a message that was read. -/
theorem read_eq_ok (h : (Message.read objects (data.drop 16)).1 = .ok m) :
    m.msgId = decodeSigned ((data.drop 16).take 8) ∧
      m.seqNo = decodeSigned ((data.drop 24).take 4) ∧ m.length = lengthField data ∧
        TLObject.readObject objects (bytesRead (lengthField data) (data.drop 32)).1 =
          .ok m.body := by
  simp only [Message.read, List.drop_drop] at h
  cases hbody : TLObject.readObject objects
    (bytesRead (decodeSigned ((data.drop (16 + 12)).take 4)) (data.drop (16 + 16))).1 with
  | error e =>
    rw [hbody] at h
    cases h
  | ok body =>
    rw [hbody] at h
    obtain rfl := Except.ok.inj h
    exact ⟨rfl, rfl, rfl, hbody⟩

/-- The envelope of a message: what the checks of `unpack` are for. -/
structure Envelope (sha256 : Sha256) (objects : ℕ → Option (Parser β))
    (b sessionId authKey authKeyId data : List UInt8) (m : Message β) : Prop where
  authKeyId : b.take 8 = authKeyId
  sessionId : (data.drop 8).take 8 = sessionId
  length_nonneg : 0 ≤ lengthField data
  length_le : lengthField data ≤ (data.drop 32).length
  /-- The body is read from exactly the declared bytes. -/
  body : TLObject.readObject objects ((data.drop 32).take (lengthField data).toNat) = .ok m.body
  msgId : m.msgId = decodeSigned ((data.drop 16).take 8)
  seqNo : m.seqNo = decodeSigned ((data.drop 24).take 4)
  length : m.length = lengthField data
  /-- What follows them is padding. -/
  padding : 12 ≤ ((data.drop 32).drop (lengthField data).toNat).length ∧
    ((data.drop 32).drop (lengthField data).toNat).length ≤ 1024
  msgKey : (b.drop 8).take 16 = msgKeyOf sha256 authKey 96 data
  msgId_odd : m.msgId % 2 = 1

/-- A slice from a negative start has at most that many bytes. -/
theorem length_sliceFrom_of_neg {i : ℤ} (hi : i < 0) : ((sliceFrom b i).length : ℤ) ≤ -i := by
  rw [sliceFrom, if_pos hi, List.length_drop]
  omega

/-- No length from −11 to −1 is accepted: the padding is too short. -/
theorem length_nonneg_of_sealed (hm : m.length = lengthField data) (h : -12 < lengthField data)
    (hs : Sealed sha256 b authKey data m) : 0 ≤ lengthField data := by
  by_contra hneg
  have hneg' : m.length < 0 := by omega
  have hle := length_sliceFrom_of_neg (b := data.drop 32) hneg'
  have hpad := hs.padding.1
  omega

/-- **An accepted packet is an envelope exactly when its length field is greater
than −12**; in particular, when it is not negative. -/
theorem unpack_envelope_iff (hdata : plaintext sha256 aes b authKey = .ok data)
    (h : unpack sha256 aes objects b sessionId authKey authKeyId = .ok m) :
    Envelope sha256 objects b sessionId authKey authKeyId data m ↔ -12 < lengthField data := by
  constructor
  · intro henv
    have hnonneg := henv.length_nonneg
    omega
  · intro hlen
    obtain ⟨hid, data', hdata', hsession, hm, hsealed⟩ := unpack_eq_ok.mp h
    obtain rfl : data' = data := Except.ok.inj (hdata'.symm.trans hdata)
    obtain ⟨hmsgId, hseqNo, hlength, hbody⟩ := read_eq_ok hm
    have hnonneg : 0 ≤ lengthField data' := length_nonneg_of_sealed hlength hlen hsealed
    have hbytes : (bytesRead (lengthField data') (data'.drop 32)).1 =
        (data'.drop 32).take (lengthField data').toNat := by
      rw [bytesRead, if_neg (by omega)]
    have hslice : sliceFrom (data'.drop 32) m.length =
        (data'.drop 32).drop (lengthField data').toNat := by
      rw [sliceFrom, hlength, if_neg (by omega)]
    have hpad := hsealed.padding
    rw [hslice] at hpad
    have hle : lengthField data' ≤ (data'.drop 32).length := by
      have hpos := hpad.1
      rw [List.length_drop] at hpos
      omega
    refine ⟨hid, hsession, hnonneg, hle, hbytes ▸ hbody, hmsgId, hseqNo, hlength, hpad,
      hsealed.msgKey, ?_⟩
    have hodd := hsealed.msgId
    omega

/-- **With any other length field the padding is read as part of the body**: the
body is read from all the bytes there are, of which the last ones are counted as
padding as well. -/
theorem unpack_of_negative (hdata : plaintext sha256 aes b authKey = .ok data)
    (h : unpack sha256 aes objects b sessionId authKey authKeyId = .ok m)
    (hlen : lengthField data ≤ -12) :
    TLObject.readObject objects (data.drop 32) = .ok m.body ∧ 12 ≤ (data.drop 32).length := by
  obtain ⟨-, data', hdata', -, hm, hsealed⟩ := unpack_eq_ok.mp h
  obtain rfl : data' = data := Except.ok.inj (hdata'.symm.trans hdata)
  obtain ⟨-, -, -, hbody⟩ := read_eq_ok hm
  rw [bytesRead, if_pos (by omega)] at hbody
  refine ⟨hbody, ?_⟩
  have hpad := hsealed.padding.1
  rw [sliceFrom, List.length_drop] at hpad
  omega

/-! ### A packet with a negative length -/

/-- SHA-256 and AES are not told apart from these here. -/
def zeroSha256 : Sha256 := fun _ => ⟨List.replicate 32 0, by simp⟩

def plainAes : Ige256 := .ofCipher fun _ => Equiv.refl _

/-- The class `boolTrue`, which has no fields. -/
def boolObjects (id : ℕ) : Option (Parser Bool) :=
  if id = BoolTrue.id then some fun b => .ok (true, b) else none

/-- The plaintext of msg_id 1 and seq_no 0, with zeros for salt and session id. -/
def plaintextOf (length : ℕ) (payload : List UInt8) : List UInt8 :=
  List.replicate 16 0 ++ encode 8 1 ++ encode 4 0 ++ encode 4 length ++ payload

/-- The constructor id of `boolTrue` and 12 bytes of padding. -/
def truePayload : List UInt8 := encode 4 BoolTrue.id ++ List.replicate 12 0

def packetOf (length : ℕ) : List UInt8 := List.replicate 24 0 ++ plaintextOf length truePayload

/-- Declared with its length 4, the message is an envelope. -/
theorem unpack_boolTrue : Envelope zeroSha256 boolObjects (packetOf 4) (List.replicate 8 0) []
    (List.replicate 8 0) (plaintextOf 4 truePayload) ⟨1, 0, 4, true⟩ := by
  have hdata : plaintext zeroSha256 plainAes (packetOf 4) [] = .ok (plaintextOf 4 truePayload) := by
    decide
  have h : unpack zeroSha256 plainAes boolObjects (packetOf 4) (List.replicate 8 0) []
      (List.replicate 8 0) = .ok ⟨1, 0, 4, true⟩ := by decide
  exact (unpack_envelope_iff hdata h).mpr (by decide)

/-- Declared with the length −16, it is accepted all the same: its 16 bytes are
read as the body and counted as the padding. -/
theorem unpack_boolTrue_negative :
    plaintext zeroSha256 plainAes (packetOf (2 ^ 32 - 16)) [] =
        .ok (plaintextOf (2 ^ 32 - 16) truePayload) ∧
      lengthField (plaintextOf (2 ^ 32 - 16) truePayload) = -16 ∧
      unpack zeroSha256 plainAes boolObjects (packetOf (2 ^ 32 - 16)) (List.replicate 8 0) []
        (List.replicate 8 0) = .ok ⟨1, 0, -16, true⟩ ∧
      ¬ Envelope zeroSha256 boolObjects (packetOf (2 ^ 32 - 16)) (List.replicate 8 0) []
        (List.replicate 8 0) (plaintextOf (2 ^ 32 - 16) truePayload) ⟨1, 0, -16, true⟩ := by
  refine ⟨by decide, by decide, by decide, ?_⟩
  intro h
  exact absurd h.length_nonneg (by decide)

end Pyrogram.Mtproto
