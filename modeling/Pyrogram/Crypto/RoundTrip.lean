import Pyrogram.Crypto.Envelope

/-!
# Sealing and opening agree

What `pack` seals for the server, the server opens, and what the server seals
`unpack` opens.  The server is not part of the sources: `unpackAsServer` is
`unpack` in the other direction, and `packAsServer` is `pack` in the other
direction, as the tests of the session write it.

## Main definitions

* `packAsServer`, `unpackAsServer` — the server's side.
* `Seals` — a packet that opens to a plaintext in one of the two directions.

## Main results

* `seals_of_encrypt` — a sealed plaintext opens to itself, in both directions.
* `unpack_pack` — **both round trips**, for any keyed permutation as the block
  cipher and any function as SHA-256.
-/

namespace Pyrogram.Mtproto

open Raw LittleEndian

section Server

variable {β : Type} (sha256 : Sha256) (aes : Ige256) (urandom : Urandom)
  (writeBody : β → List UInt8)

/-- `pack` in the direction the server writes. -/
def packAsServer (message : Message β) (salt : ℤ) (sessionId authKey authKeyId : List UInt8) :
    Except Exc (List UInt8) := do
  let data := (← Int.new Long.size salt) ++ sessionId ++ (← message.write writeBody)
  let padding := (urandom (paddingSize data)).val
  -- 96 = 88 + 8, the offset an incoming message keys on
  let msgKey := msgKeyOf sha256 authKey 96 (data ++ padding)
  let (aesKey, aesIv) := kdf sha256 authKey msgKey false
  return authKeyId ++ msgKey ++ (← aes.encrypt (data ++ padding) aesKey aesIv)

/-- What the server takes from a packet: salt, session id, message and padding. -/
def unpackAsServer (b authKey authKeyId : List UInt8) :
    Except Exc (ℤ × List UInt8 × List UInt8 × List UInt8) := do
  SecurityCheckMismatch.check (b.take 8 = authKeyId) "b.read(8) == auth_key_id"
  let msgKey := (b.drop 8).take 16
  let (aesKey, aesIv) := kdf sha256 authKey msgKey true
  let data ← aes.decrypt (b.drop 24) aesKey aesIv
  SecurityCheckMismatch.check (msgKey = msgKeyOf sha256 authKey 88 data)
    "msg_key == sha256(auth_key[88:88 + 32] + data.getvalue()).digest()[8:24]"
  let payload := data.drop 32
  let padding := sliceFrom payload (lengthField data)
  SecurityCheckMismatch.check (12 ≤ padding.length ∧ padding.length ≤ 1024)
    "12 <= len(padding) <= 1024"
  let message := slice data 16 (32 + (lengthField data).toNat)
  return (decodeSigned (data.take 8), (data.drop 8).take 8, message, padding)

end Server

variable {β : Type} {sha256 : Sha256} {cipher : Aes.Cipher} {urandom : Urandom}
  {objects : ℕ → Option (Parser β)} {writeBody : β → List UInt8} {m : Message β} {salt : ℤ}
  {authKey authKeyId sessionId s w plain packet padding : List UInt8}

/-! ### Sealing -/

/-- The packet opens to `plain` under the key derivation of one direction. -/
structure Seals (sha256 : Sha256) (aes : Ige256) (authKey authKeyId : List UInt8) (x : ℕ)
    (outgoing : Bool) (plain packet : List UInt8) : Prop where
  authKeyId : packet.take 8 = authKeyId
  msgKey : (packet.drop 8).take 16 = msgKeyOf sha256 authKey x plain
  decrypt : aes.decrypt (packet.drop 24)
    (kdf sha256 authKey (msgKeyOf sha256 authKey x plain) outgoing).1
    (kdf sha256 authKey (msgKeyOf sha256 authKey x plain) outgoing).2 = .ok plain
  length : (packet.drop 24).length = plain.length

/-- **A sealed plaintext of whole blocks opens to itself**, in either direction. -/
theorem seals_of_encrypt (sha256 : Sha256) (cipher : Aes.Cipher) (authKey : List UInt8)
    (hid : authKeyId.length = 8) (hplain : 16 ∣ plain.length) (x : ℕ) (outgoing : Bool) :
    ∃ c, (Ige256.ofCipher cipher).encrypt plain
        (kdf sha256 authKey (msgKeyOf sha256 authKey x plain) outgoing).1
        (kdf sha256 authKey (msgKeyOf sha256 authKey x plain) outgoing).2 = .ok c ∧
      Seals sha256 (.ofCipher cipher) authKey authKeyId x outgoing plain
        (authKeyId ++ msgKeyOf sha256 authKey x plain ++ c) := by
  obtain ⟨c, henc, hlen, hdec⟩ := Aes.ige_decrypt_encrypt cipher hplain
    (length_kdf_snd sha256 authKey (msgKeyOf sha256 authKey x plain) outgoing)
  have hkey : (msgKeyOf sha256 authKey x plain).length = 16 :=
    length_msgKeyOf sha256 authKey x plain
  have hdrop : (authKeyId ++ msgKeyOf sha256 authKey x plain ++ c).drop 8 =
      msgKeyOf sha256 authKey x plain ++ c := by
    rw [List.append_assoc, List.drop_left' hid]
  have hrest : (authKeyId ++ msgKeyOf sha256 authKey x plain ++ c).drop 24 = c := by
    rw [List.drop_left' (by rw [List.length_append, hid, hkey])]
  refine ⟨c, henc, ?_, ?_, ?_, ?_⟩
  · rw [List.append_assoc, List.take_left' hid]
  · rw [hdrop, List.take_left' hkey]
  · rw [hrest]
    exact hdec
  · rw [hrest, hlen]

/-- The plaintext of a message: salt, session id, message and padding. -/
def plainOf (urandom : Urandom) (s sessionId w : List UInt8) : List UInt8 :=
  s ++ sessionId ++ w ++ (urandom (paddingSize (s ++ sessionId ++ w))).val

theorem plainOf_whole (urandom : Urandom) (s sessionId w : List UInt8) :
    16 ∣ (plainOf urandom s sessionId w).length := by
  rw [plainOf, List.length_append, (urandom _).property]
  exact (paddingSize_bounds _).2.2

/-- `pack` seals the plaintext in the direction of the client. -/
theorem exists_pack (sha256 : Sha256) (cipher : Aes.Cipher) (urandom : Urandom)
    (sessionId authKey : List UInt8) (hid : authKeyId.length = 8)
    (hs : Int.new Long.size salt = .ok s) (hw : m.write writeBody = .ok w) :
    ∃ packet, pack sha256 (.ofCipher cipher) urandom writeBody m salt sessionId authKey authKeyId =
        .ok packet ∧
      Seals sha256 (.ofCipher cipher) authKey authKeyId 88 true (plainOf urandom s sessionId w)
        packet := by
  obtain ⟨c, henc, hseals⟩ := seals_of_encrypt sha256 cipher authKey hid
    (plainOf_whole urandom s sessionId w) 88 true
  refine ⟨_, ?_, hseals⟩
  rw [pack, hs, Except.bind_ok, hw, Except.bind_ok]
  exact congrArg (· >>= fun c => .ok (authKeyId ++ msgKeyOf sha256 authKey 88
    (plainOf urandom s sessionId w) ++ c)) henc

/-- `packAsServer` seals it in the direction of the server. -/
theorem exists_packAsServer (sha256 : Sha256) (cipher : Aes.Cipher) (urandom : Urandom)
    (sessionId authKey : List UInt8) (hid : authKeyId.length = 8)
    (hs : Int.new Long.size salt = .ok s) (hw : m.write writeBody = .ok w) :
    ∃ packet, packAsServer sha256 (.ofCipher cipher) urandom writeBody m salt sessionId authKey
        authKeyId = .ok packet ∧
      Seals sha256 (.ofCipher cipher) authKey authKeyId 96 false (plainOf urandom s sessionId w)
        packet := by
  obtain ⟨c, henc, hseals⟩ := seals_of_encrypt sha256 cipher authKey hid
    (plainOf_whole urandom s sessionId w) 96 false
  refine ⟨_, ?_, hseals⟩
  rw [packAsServer, hs, Except.bind_ok, hw, Except.bind_ok]
  exact congrArg (· >>= fun c => .ok (authKeyId ++ msgKeyOf sha256 authKey 96
    (plainOf urandom s sessionId w) ++ c)) henc

/-! ### Opening -/

/-- Where the parts of a plaintext are: salt, session id, the message with its
length field, and after the declared bytes the padding. -/
theorem plain_parts (padding : List UInt8) (hs : Int.new Long.size salt = .ok s)
    (hsession : sessionId.length = 8) (hw : m.write writeBody = .ok w) (hm : m.Framed writeBody) :
    decodeSigned ((s ++ sessionId ++ w ++ padding).take 8) = salt ∧
      ((s ++ sessionId ++ w ++ padding).drop 8).take 8 = sessionId ∧
      (s ++ sessionId ++ w ++ padding).drop 16 = w ++ padding ∧
      lengthField (s ++ sessionId ++ w ++ padding) = m.length ∧
      sliceFrom ((s ++ sessionId ++ w ++ padding).drop 32) m.length = padding := by
  have hslen : s.length = 8 := Int.length_new hs
  -- all fields but the body are of fixed length
  obtain ⟨msgId, seqNo, length, hmsgId, hseqNo, hlength, rfl⟩ := Message.write_eq_ok.mp hw
  have h1 : msgId.length = 8 := Int.length_new hmsgId
  have h2 : seqNo.length = 4 := Int.length_new hseqNo
  have h3 : length.length = 4 := Int.length_new hlength
  -- where the body begins, and where its length stands
  have hd16 :
      (s ++ sessionId ++ (msgId ++ seqNo ++ length ++ writeBody m.body) ++ padding).drop 16 =
        (msgId ++ seqNo ++ length ++ writeBody m.body) ++ padding := by
    rw [List.append_assoc, List.drop_left' (by rw [List.length_append, hslen, hsession])]
  have hd28 :
      (s ++ sessionId ++ (msgId ++ seqNo ++ length ++ writeBody m.body) ++ padding).drop 28 =
        length ++ (writeBody m.body ++ padding) := by
    rw [show 28 = 16 + 12 from rfl, ← List.drop_drop, hd16, List.append_assoc, List.append_assoc,
      List.drop_left' (by rw [List.length_append, h1, h2])]
  have hd32 :
      (s ++ sessionId ++ (msgId ++ seqNo ++ length ++ writeBody m.body) ++ padding).drop 32 =
        writeBody m.body ++ padding := by
    rw [show 32 = 28 + 4 from rfl, ← List.drop_drop, hd28, List.drop_left' h3]
  refine ⟨?_, ?_, hd16, ?_, ?_⟩
  · rw [List.append_assoc, List.append_assoc, List.take_left' hslen, Int.decodeSigned_new hs]
  · rw [List.append_assoc, List.append_assoc, List.drop_left' hslen, List.take_left' hsession]
  · rw [lengthField, hd28, List.take_left' h3, Int.decodeSigned_new hlength]
  · rw [hd32, hm, sliceFrom, if_neg (by omega), Int.toNat_natCast, List.drop_left]

/-- What the server opens. -/
theorem unpackAsServer_of_seals (hs : Int.new Long.size salt = .ok s)
    (hsession : sessionId.length = 8)
    (hw : m.write writeBody = .ok w) (hm : m.Framed writeBody)
    (hpad : 12 ≤ padding.length ∧ padding.length ≤ 1024)
    (h : Seals sha256 (.ofCipher cipher) authKey authKeyId 88 true (s ++ sessionId ++ w ++ padding)
      packet) :
    unpackAsServer sha256 (.ofCipher cipher) packet authKey authKeyId =
      .ok (salt, sessionId, w, padding) := by
  obtain ⟨hsalt, hid, hrest, hlength, hpadding⟩ :=
    plain_parts padding hs hsession hw hm
  have hmessage : slice (s ++ sessionId ++ w ++ padding) 16 (32 + m.length.toNat) = w := by
    have hwlen : w.length = 16 + m.length.toNat := by
      rw [Message.length_write hw, hm, Int.toNat_natCast]
    rw [slice, List.drop_take, hrest, show 32 + m.length.toNat - 16 = w.length by omega,
      List.take_left]
  simp only [unpackAsServer, h.authKeyId, h.msgKey, h.decrypt, SecurityCheckMismatch.check,
    decide_true, if_true, Except.bind_ok, hlength, hpadding, hpad, and_self, hsalt, hid, hmessage]
  rfl

/-- What the client opens. -/
theorem unpack_of_seals (hs : Int.new Long.size salt = .ok s) (hsession : sessionId.length = 8)
    (hw : m.write writeBody = .ok w) (hm : m.Framed writeBody)
    (hpad : 12 ≤ padding.length ∧ padding.length ≤ 1024)
    (hwhole : 16 ∣ (s ++ sessionId ++ w ++ padding).length) (hodd : m.msgId % 2 = 1)
    (hbody : TLObject.readObject objects (writeBody m.body) = .ok m.body)
    (h : Seals sha256 (.ofCipher cipher) authKey authKeyId 96 false (s ++ sessionId ++ w ++ padding)
      packet) :
    unpack sha256 (.ofCipher cipher) objects packet sessionId authKey authKeyId = .ok m := by
  obtain ⟨-, hid, hrest, -, hpadding⟩ := plain_parts padding hs hsession hw hm
  refine unpack_eq_ok.mpr ⟨h.authKeyId, s ++ sessionId ++ w ++ padding, ?_, hid, ?_, ?_, ?_, ?_, ?_⟩
  · rw [plaintext, h.msgKey]
    exact h.decrypt
  · rw [hrest, Message.read_write hm hw hbody]
  · exact h.msgKey
  · rw [hpadding]
    exact hpad
  · -- the payload is the plaintext less two blocks
    rw [List.length_drop]
    omega
  · omega

/-- **Sealing and opening agree.**  The server recovers salt, session id and the
bytes of the message from what `pack` seals, with 12 to 27 bytes of padding and
an encrypted part of whole blocks; and `unpack` recovers a message with an odd
msg_id whose body is read back from what the server seals. -/
theorem unpack_pack (hid : authKeyId.length = 8) (hsession : sessionId.length = 8)
    (hs : Int.new Long.size salt = .ok s) (hw : m.write writeBody = .ok w)
    (hm : m.Framed writeBody) :
    (∃ packet padding,
      pack sha256 (.ofCipher cipher) urandom writeBody m salt sessionId authKey authKeyId =
          .ok packet ∧
        unpackAsServer sha256 (.ofCipher cipher) packet authKey authKeyId =
          .ok (salt, sessionId, w, padding) ∧
        12 ≤ padding.length ∧ padding.length ≤ 27 ∧ 16 ∣ (packet.drop 24).length) ∧
    (m.msgId % 2 = 1 → TLObject.readObject objects (writeBody m.body) = .ok m.body →
      ∃ packet,
        packAsServer sha256 (.ofCipher cipher) urandom writeBody m salt sessionId authKey
            authKeyId = .ok packet ∧
          unpack sha256 (.ofCipher cipher) objects packet sessionId authKey authKeyId = .ok m) := by
  have hbounds := paddingSize_bounds (s ++ sessionId ++ w)
  have hplen := (urandom (paddingSize (s ++ sessionId ++ w))).property
  have hwhole := plainOf_whole urandom s sessionId w
  have hpad : 12 ≤ (urandom (paddingSize (s ++ sessionId ++ w))).val.length ∧
      (urandom (paddingSize (s ++ sessionId ++ w))).val.length ≤ 1024 := by omega
  constructor
  · obtain ⟨packet, hpack, hseals⟩ := exists_pack sha256 cipher urandom sessionId authKey hid hs hw
    refine ⟨packet, _, hpack, unpackAsServer_of_seals hs hsession hw hm hpad hseals, ?_, ?_, ?_⟩
    · exact hpad.1
    · omega
    · rw [hseals.length]
      exact hwhole
  · intro hodd hbody
    obtain ⟨packet, hpack, hseals⟩ :=
      exists_packAsServer sha256 cipher urandom sessionId authKey hid hs hw
    exact ⟨packet, hpack, unpack_of_seals hs hsession hw hm hpad hwhole hodd hbody hseals⟩

/-- A body as its constructor id. -/
def writeBool (b : Bool) : List UInt8 := encode 4 (if b then BoolTrue.id else BoolFalse.id)

theorem unpack_pack_boolTrue :
    (∃ packet padding,
      pack zeroSha256 (.ofCipher fun _ => Equiv.refl _) (fun n => ⟨List.replicate n 7, by simp⟩)
          writeBool ⟨5, 0, 4, true⟩ 3 (List.replicate 8 1) [] (List.replicate 8 2) = .ok packet ∧
        unpackAsServer zeroSha256 (.ofCipher fun _ => Equiv.refl _) packet [] (List.replicate 8 2) =
          .ok (3, List.replicate 8 1, encode 8 5 ++ encode 4 0 ++ encode 4 4 ++ writeBool true,
            padding) ∧
        12 ≤ padding.length ∧ padding.length ≤ 27 ∧ 16 ∣ (packet.drop 24).length) ∧
    ∃ packet,
      packAsServer zeroSha256 (.ofCipher fun _ => Equiv.refl _)
          (fun n => ⟨List.replicate n 7, by simp⟩) writeBool ⟨5, 0, 4, true⟩ 3 (List.replicate 8 1)
          [] (List.replicate 8 2) = .ok packet ∧
        unpack zeroSha256 (.ofCipher fun _ => Equiv.refl _) boolObjects packet (List.replicate 8 1)
          [] (List.replicate 8 2) = .ok ⟨5, 0, 4, true⟩ := by
  have hs : Int.new Long.size 3 = .ok (encode 8 3) := by decide
  have hw : Message.write writeBool ⟨5, 0, 4, true⟩ =
    .ok (encode 8 5 ++ encode 4 0 ++ encode 4 4 ++ writeBool true) := by decide
  have hid : (List.replicate 8 (2 : UInt8)).length = 8 := rfl
  have hsession : (List.replicate 8 (1 : UInt8)).length = 8 := rfl
  obtain ⟨hpack, hunpack⟩ := unpack_pack hid hsession hs hw rfl
  exact ⟨hpack, hunpack (by decide) (by decide)⟩

end Pyrogram.Mtproto
