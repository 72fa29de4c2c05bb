import Pyrogram.Crypto.Aes
import Pyrogram.Raw.Message

/-!
# Sealing and opening messages

`crypto/mtproto.py`: the key derivation, `pack` for the messages of the client
and `unpack` for those of the server.  SHA-256, the IGE functions of `aes`, the
classes of the objects and the random bytes are parameters.

## Main definitions

* `kdf`, `pack`, `unpack`.
-/

namespace Pyrogram.Mtproto

open Raw LittleEndian

/-- `sha256(b).digest()`. -/
abbrev Sha256 := List UInt8 → {digest : List UInt8 // digest.length = 32}

/-- `urandom`. -/
abbrev Urandom := (n : ℕ) → {b : List UInt8 // b.length = n}

/-- `ige256_encrypt` and `ige256_decrypt`, on the data, the key and the iv. -/
structure Ige256 where
  encrypt : List UInt8 → List UInt8 → List UInt8 → Except Exc (List UInt8)
  decrypt : List UInt8 → List UInt8 → List UInt8 → Except Exc (List UInt8)

/-- The two functions without the `tgcrypto` extension. -/
def Ige256.ofCipher (cipher : Aes.Cipher) : Ige256 where
  encrypt data key iv := Aes.ige cipher data key iv true
  decrypt data key iv := Aes.ige cipher data key iv false

/-- `b[i:j]`. -/
def slice (b : List UInt8) (i j : ℕ) : List UInt8 := (b.take j).drop i

/-- `b[i:]`; a negative `i` counts from the end. -/
def sliceFrom (b : List UInt8) (i : ℤ) : List UInt8 :=
  b.drop (if i < 0 then (b.length + i).toNat else i.toNat)

def kdf (sha256 : Sha256) (authKey msgKey : List UInt8) (outgoing : Bool) :
    List UInt8 × List UInt8 :=
  let x := if outgoing then 0 else 8
  let sha256A := (sha256 (msgKey ++ slice authKey x (x + 36))).val
  let sha256B := (sha256 (slice authKey (x + 40) (x + 76) ++ msgKey)).val
  let aesKey := sha256A.take 8 ++ slice sha256B 8 24 ++ slice sha256A 24 32
  let aesIv := sha256B.take 8 ++ slice sha256A 8 24 ++ slice sha256B 24 32
  (aesKey, aesIv)

/-- The msg_key of a plaintext with padding; `x` is 88 for a message of the
client and 96 for one of the server. -/
def msgKeyOf (sha256 : Sha256) (authKey : List UInt8) (x : ℕ) (data : List UInt8) : List UInt8 :=
  slice (sha256 (slice authKey x (x + 32) ++ data)).val 8 24

/-- `-(len(data) + 12) % 16 + 12`. -/
def paddingSize (data : List UInt8) : ℕ := (-(data.length + 12 : ℤ) % 16 + 12).toNat

section Pack

variable {β : Type} (sha256 : Sha256) (aes : Ige256) (urandom : Urandom)
  (writeBody : β → List UInt8)

def pack (message : Message β) (salt : ℤ) (sessionId authKey authKeyId : List UInt8) :
    Except Exc (List UInt8) := do
  let data := (← Int.new Long.size salt) ++ sessionId ++ (← message.write writeBody)
  let padding := (urandom (paddingSize data)).val
  -- 88 = 88 + 0 (outgoing message)
  let msgKey := msgKeyOf sha256 authKey 88 (data ++ padding)
  let (aesKey, aesIv) := kdf sha256 authKey msgKey true
  return authKeyId ++ msgKey ++ (← aes.encrypt (data ++ padding) aesKey aesIv)

end Pack

/-! ### Opening a packet -/

/-- `bytes.hex()`. -/
def hex (b : List UInt8) : List Char :=
  b.flatMap fun x => [Nat.digitChar (x.toNat / 16), Nat.digitChar (x.toNat % 16)]

/-- `[s[i : i + n] for i in range(0, len(s), n)]`. -/
def cut (n : ℕ) (s : List Char) : List (List Char) :=
  (List.range ((s.length + n - 1) / n)).map fun i => (s.drop (n * i)).take n

/-- The text of the error about an unknown constructor. -/
def unknownConstructor (id : ℕ) (left : List UInt8) : String :=
  let left := (cut 64 (hex left)).map (cut 8)
  let left := "\n".intercalate (left.map fun left => " ".intercalate (left.map String.ofList))
  "The server sent an unknown constructor: 0x" ++ String.ofList (Nat.toDigits 16 id) ++ "\n" ++ left

/-- The `except KeyError` around `Message.read`; `left` is what `data` has left. -/
def onUnreadable (left : List UInt8) : Exc → Exc
  | .keyError id =>
      if id = 0 then .connectionError "Received empty data. Check your internet connection."
      else .valueError (unknownConstructor id left)
  | e => e

section Unpack

variable {β : Type} (sha256 : Sha256) (aes : Ige256) (objects : ℕ → Option (Parser β))

def unpack (b sessionId authKey authKeyId : List UInt8) : Except Exc (Message β) := do
  SecurityCheckMismatch.check (b.take 8 = authKeyId) "b.read(8) == auth_key_id"
  let msgKey := (b.drop 8).take 16
  let (aesKey, aesIv) := kdf sha256 authKey msgKey false
  let data ← aes.decrypt (b.drop 24) aesKey aesIv
  SecurityCheckMismatch.check ((data.drop 8).take 8 = sessionId) "data.read(8) == session_id"
  let (read, left) := Message.read objects (data.drop 16)
  let message ← read.mapError (onUnreadable left)
  -- 96 = 88 + 8 (incoming message)
  SecurityCheckMismatch.check (msgKey = msgKeyOf sha256 authKey 96 data)
    "msg_key == sha256(auth_key[96:96 + 32] + data.getvalue()).digest()[8:24]"
  -- the payload comes after salt (8), session_id (8), msg_id (8), seq_no (4) and length (4)
  let payload := data.drop 32
  let padding := sliceFrom payload message.length
  SecurityCheckMismatch.check (12 ≤ padding.length ∧ padding.length ≤ 1024)
    "12 <= len(padding) <= 1024"
  SecurityCheckMismatch.check (payload.length % 4 = 0) "len(payload) % 4 == 0"
  SecurityCheckMismatch.check (message.msgId % 2 ≠ 0) "message.msg_id % 2 != 0"
  return message

end Unpack

/-! ### Slices -/

theorem length_slice {b : List UInt8} {i j : ℕ} (h : j ≤ b.length) :
    (slice b i j).length = j - i := by
  rw [slice, List.length_drop, List.length_take, Nat.min_eq_left h]

@[simp] theorem length_msgKeyOf (sha256 : Sha256) (authKey : List UInt8) (x : ℕ)
    (data : List UInt8) : (msgKeyOf sha256 authKey x data).length = 16 :=
  length_slice (by rw [(sha256 _).property]; decide)

/-- The iv has two blocks. -/
theorem length_kdf_snd (sha256 : Sha256) (authKey msgKey : List UInt8) (outgoing : Bool) :
    (kdf sha256 authKey msgKey outgoing).2.length = 32 := by
  unfold kdf
  simp only [List.length_append, List.length_take]
  rw [length_slice (by rw [(sha256 _).property]; decide),
    length_slice (by rw [(sha256 _).property]), (sha256 _).property]
  rfl

theorem paddingSize_bounds (data : List UInt8) :
    12 ≤ paddingSize data ∧ paddingSize data ≤ 27 ∧ 16 ∣ data.length + paddingSize data := by
  unfold paddingSize
  refine ⟨?_, ?_, ?_⟩
  · omega
  · omega
  · omega

end Pyrogram.Mtproto
