import Pyrogram.Crypto.Aes
import Mathlib.Tactic.Common

/-!
# The obfuscated2 handshake

The 64 bytes that open a connection through an MTProxy: the keys of both directions
are read off the nonce and its reverse, and its last eight bytes go out encrypted,
with the tag of the framing and the data center among them.  SHA-256 and the block
cipher are parameters.

## Main definitions

* `generateObfuscated2Nonce`, `buildObfuscated2Header` — the two functions of `tcp.py`.
* `Peer.accept` — the other side, which knows the secret and the header.
* `Aligned` — what one side encrypts, in any pieces, the other decrypts, in any pieces.

## Main results

* `exists_opens` — the peer has the ciphers of both directions.
* `buildObfuscated2Header_agrees` — **the peer reads the tag and the data center, and
  both directions are aligned.**
-/

namespace Pyrogram.Obfuscated2

open BlockModes

/-- `OBFUSCATED2_SECRET_SIZE` -/
def secretSize : ℕ := 16

/-- `_OBFUSCATE_TAG_SIZE` -/
def obfuscateTagSize : ℕ := 4

/-- `_OBFUSCATED2_RESERVED_PREFIXES` -/
def reservedPrefixes : List (List UInt8) :=
  [[0x48, 0x45, 0x41, 0x44], [0x50, 0x4f, 0x53, 0x54], [0x47, 0x45, 0x54, 0x20],
    [0x4f, 0x50, 0x54, 0x49],
    [0xdd, 0xdd, 0xdd, 0xdd], [0xee, 0xee, 0xee, 0xee], [0x16, 0x03, 0x01, 0x02]]

/-- The nonce, and the header it becomes. -/
abbrev Buffer := {b : List UInt8 // b.length = 64}

/-! ### The ciphers of a connection -/

/-- The arguments of `ctr256_encrypt` and `ctr256_decrypt`, which are one function. -/
structure CipherArgs where
  key : List UInt8
  /-- `iv` and `state`, changed in place by every call. -/
  counter : Aes.Counter
  deriving DecidableEq, Repr

namespace CipherArgs

variable (cipher : Aes.BlockFunction)

/-- `aes.ctr256_encrypt(data, *self)` -/
def crypt (a : CipherArgs) (data : List UInt8) : List UInt8 × CipherArgs :=
  let (out, counter) := Aes.ctrWith (cipher a.key) a.counter data
  (out, { a with counter := counter })

/-- One call after the other. -/
def cryptAll (a : CipherArgs) : List (List UInt8) → List UInt8
  | [] => []
  | data :: rest => (a.crypt cipher data).1 ++ cryptAll (a.crypt cipher data).2 rest

theorem crypt_eq (a : CipherArgs) (data : List UInt8) :
    a.crypt cipher data = ((Aes.keystreamWith (cipher a.key)).apply a.counter data,
      { a with counter := (Aes.keystreamWith (cipher a.key)).advance a.counter data.length }) := by
  unfold crypt
  rw [Aes.ctrWith_eq]

/-- How the data is cut into calls does not matter. -/
theorem cryptAll_eq (a : CipherArgs) (pieces : List (List UInt8)) :
    a.cryptAll cipher pieces =
      (Aes.keystreamWith (cipher a.key)).apply a.counter pieces.flatten := by
  induction pieces generalizing a with
  | nil => rfl
  | cons data rest ih => rw [cryptAll, ih, crypt_eq, List.flatten_cons, Keystream.apply_append]

end CipherArgs

/-- Whatever the sender encrypts from here on, the receiver decrypts; neither depends
on how the bytes are cut into calls. -/
def Aligned (cipher : Aes.BlockFunction) (sender receiver : CipherArgs) : Prop :=
  ∀ sent received : List (List UInt8), received.flatten = sender.cryptAll cipher sent →
    receiver.cryptAll cipher received = sent.flatten

theorem aligned_refl (cipher : Aes.BlockFunction) (a : CipherArgs) : Aligned cipher a a := by
  intro sent received h
  rw [CipherArgs.cryptAll_eq, h, CipherArgs.cryptAll_eq, Keystream.apply_apply]

/-! ### The header -/

/-- What `generate_obfuscated2_nonce` lets pass. -/
def Allowed (nonce : Buffer) : Prop :=
  nonce.val.head? ≠ some 0xef ∧ nonce.val.take 4 ∉ reservedPrefixes ∧
    nonce.val.extract 4 8 ≠ [0, 0, 0, 0]

instance : DecidablePred Allowed := fun nonce => by
  unfold Allowed
  infer_instance

/-- `os.urandom` gives the candidates. -/
def generateObfuscated2Nonce (candidates : List Buffer) : Option Buffer :=
  candidates.find? (Allowed ·)

/-- `b[i:i + len(bs)] = bs` -/
def Buffer.assign (b : Buffer) (i : ℕ) (bs : List UInt8) (h : i + bs.length ≤ 64) : Buffer :=
  ⟨b.val.take i ++ bs ++ b.val.drop (i + bs.length), by simp [b.property]; omega⟩

/-- `bytearray(b[i:i + 16])` -/
def ivAt (b : List UInt8) (i : ℕ) (h : i + 16 ≤ b.length) : Aes.Block :=
  ⟨b.extract i (i + 16), by simp; omega⟩

/-- `nonce[8:56]` -/
def Buffer.tail (b : Buffer) : List UInt8 := b.val.extract 8 56

@[simp] theorem Buffer.length_tail (b : Buffer) :
    b.tail.length = 48 := by simp [Buffer.tail, b.property]

/-- `nonce[55:7:-1]` -/
def Buffer.reversedTail (b : Buffer) : List UInt8 := b.tail.reverse

@[simp] theorem Buffer.length_reversedTail (b : Buffer) : b.reversedTail.length = 48 := by
  simp [Buffer.reversedTail]

/-- `dc_id.to_bytes(2, "little", signed=True)` -/
def dcBytes (dcId : ℤ) : Except Exc {b : List UInt8 // b.length = 2} :=
  match h : LittleEndian.encodeSigned 2 dcId with
  | some b => .ok ⟨b, LittleEndian.length_encodeSigned h⟩
  | none => .error (.overflowError "int too big to convert")

structure Header where
  header : Buffer
  encrypt : CipherArgs
  decrypt : CipherArgs

section Build

variable (cipher : Aes.BlockFunction) (sha256 : List UInt8 → List UInt8)

/-- `finalize_obfuscated2_tag(nonce, encrypt=encrypt)`, and what it leaves of `encrypt`. -/
def finalizeObfuscated2Tag (nonce : Buffer) (encrypt : CipherArgs) :
    {b : List UInt8 // b.length = 8} × CipherArgs :=
  (⟨(encrypt.crypt cipher nonce.val).1.extract 56 64, by
    simp [CipherArgs.crypt_eq, nonce.property]⟩,
    (encrypt.crypt cipher nonce.val).2)

def buildObfuscated2Header (nonce : Buffer) (secret : List UInt8) (dcId : ℤ)
    (obfuscateTag : List UInt8) :
    Except Exc Header :=
  if secret.length ≠ secretSize then
    .error (.valueError
      s!"obfuscated2: secret must be exactly {secretSize} bytes, got {secret.length}")
  else if htag : obfuscateTag.length ≠ obfuscateTagSize then
    .error (.valueError s!"obfuscated2: obfuscate_tag must be exactly {obfuscateTagSize} bytes")
  else do
    let encrypt : CipherArgs :=
      ⟨sha256 (nonce.val.extract 8 40 ++ secret),
        .start (ivAt nonce.val 40 (by simp [nonce.property]))⟩
    let decrypt : CipherArgs :=
      ⟨sha256 (nonce.reversedTail.extract 0 32 ++ secret),
        .start (ivAt nonce.reversedTail 32 (by simp))⟩
    let tagged := nonce.assign 56 obfuscateTag (by simp [not_not.mp htag, obfuscateTagSize])
    let dc ← dcBytes dcId
    let filled := tagged.assign 60 dc.val (by simp [dc.property])
    let (tag, encrypt) := finalizeObfuscated2Tag cipher filled encrypt
    return ⟨filled.assign 56 tag.val (by simp [tag.property]), encrypt, decrypt⟩

/-! ### The other side -/

/-- A peer that has read the header: what it decrypts to, and the ciphers of both
directions as they stand afterwards. -/
structure Peer where
  opened : List UInt8
  receive : CipherArgs
  send : CipherArgs

/-- The cipher of the direction whose key and iv are read from these 48 bytes. -/
def deriveCipher (secret b : List UInt8) (h : b.length = 48) : CipherArgs :=
  ⟨sha256 (b.take 32 ++ secret), .start (ivAt b 32 (by omega))⟩

def Peer.accept (secret : List UInt8) (header : Buffer) : Peer :=
  let receive := deriveCipher sha256 secret header.tail (by simp)
  let (opened, receive) := receive.crypt cipher header.val
  ⟨opened, receive, deriveCipher sha256 secret header.tail.reverse (by simp)⟩

/-- The tag of the framing. -/
def Peer.tag (p : Peer) : List UInt8 := p.opened.extract 56 60

/-- The data center the client asks for. -/
def Peer.dcId (p : Peer) : ℤ := LittleEndian.decodeSigned (p.opened.extract 60 62)

end Build

/-! ### Agreement -/

theorem dcBytes_eq_ok {dcId : ℤ} (h : -2 ^ 15 ≤ dcId ∧ dcId < 2 ^ 15) :
    ∃ dc, dcBytes dcId = .ok dc ∧ LittleEndian.decodeSigned dc.val = dcId := by
  have henc : LittleEndian.encodeSigned 2 dcId =
      some (LittleEndian.encode 2 (dcId % 256 ^ 2).toNat) :=
    if_pos (by omega)
  unfold dcBytes
  split
  · next b hb => exact ⟨_, rfl, LittleEndian.decodeSigned_encodeSigned hb⟩
  · next hb => cases henc.symm.trans hb

theorem Buffer.assign_val (b : Buffer) {i : ℕ} {bs : List UInt8} (h : i + bs.length ≤ 64) :
    (b.assign i bs h).val = b.val.take i ++ bs ++ b.val.drop (i + bs.length) := rfl

/-- A write behind the first `n` bytes leaves them alone. -/
theorem Buffer.take_assign (b : Buffer) {i n : ℕ} {bs : List UInt8} (h : i + bs.length ≤ 64)
    (hn : n ≤ i) :
    (b.assign i bs h).val.take n = b.val.take n := by
  have hlen : n ≤ (b.val.take i).length := by simp [b.property]; omega
  rw [b.assign_val, List.append_assoc, List.take_append_of_le_length hlen, List.take_take,
    min_eq_left hn]

/-- What is before byte 56 decides the tail. -/
theorem Buffer.tail_congr {a b : Buffer} (h : a.val.take 56 = b.val.take 56) : a.tail = b.tail := by
  have htail : ∀ c : Buffer, c.tail = (c.val.take 56).drop 8 := by
    intro c
    rw [Buffer.tail, List.extract_eq_take_drop, List.drop_take]
  rw [htail, htail, h]

/-- The buffer that is encrypted, from its 57th byte on. -/
theorem Buffer.drop_filled (nonce : Buffer) {tag dc : List UInt8} (htag : tag.length = 4)
    (hdc : dc.length = 2)
    (h₁ : 56 + tag.length ≤ 64) (h₂ : 60 + dc.length ≤ 64) :
    (((nonce.assign 56 tag h₁).assign 60 dc h₂).val).drop 56 = tag ++
      (dc ++ nonce.val.drop 62) := by
  have hhead : (nonce.val.take 56).length = 56 := by simp [nonce.property]
  have htagged : (nonce.assign 56 tag h₁).val = (nonce.val.take 56 ++ tag) ++
      nonce.val.drop 60 := by
    rw [Buffer.assign_val, htag]
  have hlen : (nonce.val.take 56 ++ tag).length = 60 := by simp [nonce.property, htag]
  rw [Buffer.assign_val, htagged, hdc, List.take_left' hlen, ← List.drop_drop, List.drop_left' hlen,
    List.drop_drop, List.append_assoc, List.append_assoc, List.drop_left' hhead]

section

variable (cipher : Aes.BlockFunction) (sha256 : List UInt8 → List UInt8)

/-- The end of the header decrypts to the end of the buffer that was encrypted: the
keystream of its last eight bytes starts at byte 56 on both sides. -/
theorem crypt_header (a : CipherArgs) (filled : Buffer) (h) :
    (a.crypt cipher
      (filled.assign 56 (finalizeObfuscated2Tag cipher filled a).1.val h).val).1.drop 56 =
        filled.val.drop 56 := by
  have hlen : (filled.val.take 56).length = 56 := by simp [filled.property]
  -- the header is the plain beginning, and the encrypted end
  have hheader : (filled.assign 56 (finalizeObfuscated2Tag cipher filled a).1.val h).val =
    filled.val.take 56 ++
      (Aes.keystreamWith (cipher a.key)).apply
        ((Aes.keystreamWith (cipher a.key)).advance a.counter 56) (filled.val.drop 56) := by
    have hend : filled.val.drop (56 + 8) = [] := by simp [filled.property]
    have hcrypt : (a.crypt cipher filled.val).1.drop 56 =
        (Aes.keystreamWith (cipher a.key)).apply
          ((Aes.keystreamWith (cipher a.key)).advance a.counter 56) (filled.val.drop 56) := by
      rw [CipherArgs.crypt_eq]
      conv_lhs => rw [← List.take_append_drop 56 filled.val]
      rw [Keystream.apply_append, hlen, List.drop_left' (by simp [filled.property])]
    show filled.val.take 56 ++ (finalizeObfuscated2Tag cipher filled a).1.val ++
      filled.val.drop _ = _
    rw [(finalizeObfuscated2Tag cipher filled a).1.property, hend, List.append_nil]
    congr 1
    show (a.crypt cipher filled.val).1.extract 56 64 = _
    rw [List.extract_eq_take_drop, hcrypt, List.take_of_length_le (by simp [filled.property])]
  rw [hheader, CipherArgs.crypt_eq, Keystream.apply_append, hlen, Keystream.apply_apply,
    List.drop_left' (by simp [filled.property])]

theorem deriveCipher_congr {secret b c : List UInt8} (h : b = c) (hb : b.length = 48)
    (hc : c.length = 48) :
    deriveCipher sha256 secret b hb = deriveCipher sha256 secret c hc := by
  subst h
  rfl

/-- The slices the client reads off the nonce are those of its 48 bytes. -/
theorem deriveCipher_tail (nonce : Buffer) (secret : List UInt8) :
    deriveCipher sha256 secret nonce.tail (by simp) =
    ⟨sha256 (nonce.val.extract 8 40 ++ secret),
      .start (ivAt nonce.val 40 (by simp [nonce.property]))⟩ := by
  have hkey : nonce.tail.take 32 = nonce.val.extract 8 40 := by simp [Buffer.tail, List.take_take]
  have hiv : ivAt nonce.tail 32 (by simp) = ivAt nonce.val 40 (by simp [nonce.property]) :=
    Subtype.ext (by simp [ivAt, Buffer.tail, List.drop_take, List.take_take])
  rw [deriveCipher, hkey, hiv]

/-- A peer that reads the header has the ciphers of both directions. -/
structure Opens (secret tag : List UInt8) (dcId : ℤ) (nonce : Buffer) (h : Header) : Prop where
  /-- The bytes 0 to 55 on the wire are the nonce's own. -/
  head : h.header.val.take 56 = nonce.val.take 56
  tag : (Peer.accept cipher sha256 secret h.header).tag = tag
  dcId : (Peer.accept cipher sha256 secret h.header).dcId = dcId
  receive : (Peer.accept cipher sha256 secret h.header).receive = h.encrypt
  send : (Peer.accept cipher sha256 secret h.header).send = h.decrypt

/-- A header is built, and the peer opens it: it reads the same 48 bytes of the nonce. -/
theorem exists_opens (nonce : Buffer) {secret tag : List UInt8} {dcId : ℤ}
    (hsecret : secret.length = secretSize) (htag : tag.length = obfuscateTagSize)
    (hdc : -2 ^ 15 ≤ dcId ∧ dcId < 2 ^ 15) :
    ∃ h, buildObfuscated2Header cipher sha256 nonce secret dcId tag = .ok h ∧
      Opens cipher sha256 secret tag dcId nonce h := by
  obtain ⟨dc, hok, hdecode⟩ := dcBytes_eq_ok hdc
  let encrypt := deriveCipher sha256 secret nonce.tail (by simp)
  let filled := (nonce.assign 56 tag (by simp [htag, obfuscateTagSize])).assign 60 dc.val
    (by simp [dc.property])
  let header := filled.assign 56 (finalizeObfuscated2Tag cipher filled encrypt).1.val
    (by rw [(finalizeObfuscated2Tag cipher filled encrypt).1.property])
  have hhead : header.val.take 56 = nonce.val.take 56 := by
    rw [filled.take_assign _ (Nat.le_refl 56), Buffer.take_assign _ _ (by decide : 56 ≤ 60),
      nonce.take_assign _ (Nat.le_refl 56)]
  have htail : header.tail = nonce.tail := Buffer.tail_congr hhead
  have hreceive : deriveCipher sha256 secret header.tail (by simp) = encrypt :=
    deriveCipher_congr sha256 htail _ _
  have hopened : (encrypt.crypt cipher header.val).1.drop 56 = tag ++
      (dc.val ++ nonce.val.drop 62) := by
    rw [crypt_header, Buffer.drop_filled nonce htag dc.property]
  refine ⟨⟨header, (encrypt.crypt cipher filled.val).2, deriveCipher sha256 secret
    nonce.reversedTail (by simp)⟩, ?_, ?_⟩
  · rw [buildObfuscated2Header, if_neg (not_not.mpr hsecret), dif_neg (not_not.mpr htag), hok,
      ← deriveCipher_tail]
    simp only [Except.bind_ok, deriveCipher, List.extract_eq_take_drop, List.drop_zero]
    rfl
  · refine ⟨hhead, ?_, ?_, ?_, ?_⟩
    · show (((deriveCipher sha256 secret header.tail _).crypt cipher header.val).1.extract 56 60) =
        tag
      rw [hreceive, List.extract_eq_take_drop, hopened]
      exact List.take_left' htag
    · show LittleEndian.decodeSigned
        (((deriveCipher sha256 secret header.tail _).crypt cipher header.val).1.extract 60 62) =
        dcId
      rw [hreceive, List.extract_eq_take_drop, ← List.drop_drop (i := 4) (j := 56), hopened,
        @List.drop_left' _ _ _ 4 htag,
        @List.take_left' _ _ _ (62 - 60) dc.property, hdecode]
    · show ((deriveCipher sha256 secret header.tail _).crypt cipher header.val).2 =
        (encrypt.crypt cipher filled.val).2
      rw [hreceive, CipherArgs.crypt_eq, CipherArgs.crypt_eq, header.property, filled.property]
    · exact deriveCipher_congr sha256 (congrArg List.reverse htail) (by simp) (by simp)

/-- What the client and its peer agree on. -/
structure Agrees (secret tag : List UInt8) (dcId : ℤ) (nonce : Buffer) (h : Header) : Prop where
  head : h.header.val.take 56 = nonce.val.take 56
  tag : (Peer.accept cipher sha256 secret h.header).tag = tag
  dcId : (Peer.accept cipher sha256 secret h.header).dcId = dcId
  upstream : Aligned cipher h.encrypt (Peer.accept cipher sha256 secret h.header).receive
  downstream : Aligned cipher (Peer.accept cipher sha256 secret h.header).send h.decrypt

section

variable {cipher sha256}

/-- The header is not taken for a web request or a TLS record either. -/
theorem Agrees.allowed {secret tag : List UInt8} {dcId : ℤ} {nonce : Buffer} {h : Header}
    (hagrees : Agrees cipher sha256 secret tag dcId nonce h) (hallowed : Allowed nonce) :
    Allowed h.header := by
  obtain ⟨hmarker, hpre, hzero⟩ := hallowed
  have hhead : ∀ b : Buffer, b.val.head? = (b.val.take 56).head? :=
    fun b => by rw [List.head?_take, if_neg (by decide)]
  have htake : ∀ b : Buffer, b.val.take 4 = (b.val.take 56).take 4 :=
    fun b => by simp [List.take_take]
  have hextract : ∀ b : Buffer, b.val.extract 4 8 = (b.val.take 56).extract 4 8 := fun b => by
    simp [List.drop_take, List.take_take]
  refine ⟨?_, ?_, ?_⟩
  · rwa [hhead, hagrees.head, ← hhead]
  · rwa [htake, hagrees.head, ← htake]
  · rwa [hextract, hagrees.head, ← hextract]

/-- A nonce that is generated is allowed. -/
theorem allowed_of_generate {candidates : List Buffer} {nonce : Buffer}
    (h : generateObfuscated2Nonce candidates = some nonce) : Allowed nonce := by
  simpa using List.find?_some h

end

/-- **The handshake agrees**: for every nonce, every key of the right size, every data
center that fits and every tag; and where the nonce was generated, the header begins as is
allowed. -/
theorem buildObfuscated2Header_agrees (nonce : Buffer) {secret tag : List UInt8} {dcId : ℤ}
    (hsecret : secret.length = secretSize) (htag : tag.length = obfuscateTagSize)
    (hdc : -2 ^ 15 ≤ dcId ∧ dcId < 2 ^ 15) :
    ∃ h, buildObfuscated2Header cipher sha256 nonce secret dcId tag = .ok h ∧
      Agrees cipher sha256 secret tag dcId nonce h ∧
        ∀ candidates, generateObfuscated2Nonce candidates = some nonce → Allowed h.header := by
  obtain ⟨h, hbuilt, hopens⟩ := exists_opens cipher sha256 nonce hsecret htag hdc
  have hagrees : Agrees cipher sha256 secret tag dcId nonce h := by
    refine ⟨hopens.head, hopens.tag, hopens.dcId, ?_, ?_⟩
    · rw [hopens.receive]
      exact aligned_refl cipher h.encrypt
    · rw [hopens.send]
      exact aligned_refl cipher h.decrypt
  exact ⟨h, hbuilt, hagrees, fun _ hgenerated => hagrees.allowed (allowed_of_generate hgenerated)⟩

/-- A nonce and a tag of zeros, with the identity for the cipher and for the hash. -/
theorem buildObfuscated2Header_agrees_zeros :
    ∃ h, buildObfuscated2Header (fun _ => id) id ⟨List.replicate 64 0, rfl⟩
      (List.replicate 16 1) (-2)
        [0xef, 0xef, 0xef, 0xef] = .ok h ∧
      Agrees (fun _ => id) id (List.replicate 16 1) [0xef, 0xef, 0xef, 0xef] (-2)
        ⟨List.replicate 64 0, rfl⟩ h := by
  have hdc : (-2 ^ 15 : ℤ) ≤ -2 ∧ (-2 : ℤ) < 2 ^ 15 := by decide
  obtain ⟨h, hbuilt, hagrees, -⟩ :=
    @buildObfuscated2Header_agrees (fun _ => id) id ⟨List.replicate 64 0, rfl⟩
    (List.replicate 16 1) [0xef, 0xef, 0xef, 0xef] (-2) rfl rfl hdc
  exact ⟨h, hbuilt, hagrees⟩

end

end Pyrogram.Obfuscated2
