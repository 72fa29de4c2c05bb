import Pyrogram.Crypto.Modular
import Pyrogram.Crypto.Mtproto
import Pyrogram.Raw.Primitives

/-!
# Creating an auth key

`Auth.create`: three requests to the server, each answer used at once, and the checks
after the last one.  An attempt that raises is followed by another, up to `MAX_RETRIES`
times, and over the next endpoint after a connection error.

SHA-1, the IGE functions of `aes`, the public keys and the random bytes are parameters.
A server answers on the strength of a state of its own; it may fail to answer, which is
then an exception of the client.

## Main definitions

* `PQInnerData`, `ServerDHInnerData`, `ClientDHInnerData` — the objects that are encrypted.
* `exchange` — one attempt.
* `create` — the loop over the attempts.

## Main results

* `read_write` of the three objects — they are read back from what was written.
* `exists_exchanged` — what an attempt that comes to a key has gone through and checked.
* `attempt_of_create` — the key that is returned is that of one attempt.
-/

namespace Pyrogram.Auth

open Raw LittleEndian Aes Mtproto

/-- `sha1(b).digest()` -/
abbrev Sha1 := List UInt8 → {digest : List UInt8 // digest.length = 20}

/-! ### Objects -/

/-- `write`, where it raises `OverflowError`. -/
def written : Option (List UInt8) → Except Exc (List UInt8)
  | some w => .ok w
  | none => .error (.overflowError "int too big to convert")

structure PQInnerData where
  pq : List UInt8
  p : List UInt8
  q : List UInt8
  nonce : ℤ
  serverNonce : ℤ
  newNonce : ℤ
  deriving DecidableEq, Repr

namespace PQInnerData

def id : ℕ := 0x83C95AEC

def write (x : PQInnerData) : Option (List UInt8) := do
  let pq ← Core.bytes.new x.pq
  let p ← Core.bytes.new x.p
  let q ← Core.bytes.new x.q
  let nonce ← Core.int128.new x.nonce
  let serverNonce ← Core.int128.new x.serverNonce
  let newNonce ← Core.int256.new x.newNonce
  return encode 4 id ++ (pq ++ (p ++ (q ++ (nonce ++ (serverNonce ++ newNonce)))))

/-- `TLObject.read`, where it gives this object. -/
def read (b : List UInt8) : Option PQInnerData :=
  if decode (b.take 4) = id then do
    let (pq, b) ← Core.bytes.read (b.drop 4)
    let (p, b) ← Core.bytes.read b
    let (q, b) ← Core.bytes.read b
    let (nonce, b) ← Core.int128.read b
    let (serverNonce, b) ← Core.int128.read b
    let (newNonce, _) ← Core.int256.read b
    return { pq, p, q, nonce, serverNonce, newNonce }
  else none

theorem read_write {x : PQInnerData} {w : List UInt8} (h : x.write = some w) (rest : List UInt8) :
    read (w ++ rest) = some x := by
  simp only [write, Option.bind_eq_bind, Option.bind_eq_some_iff, Option.pure_def,
    Option.some.injEq] at h
  obtain ⟨pq, hpq, p, hp, q, hq, nonce, hnonce, serverNonce, hserverNonce, newNonce, hnewNonce,
      rfl⟩ := h
  have hid : decode ((encode 4 id ++ (pq ++ (p ++ (q ++ (nonce ++ (serverNonce ++ newNonce))))) ++
      rest).take 4) = id := by
    rw [List.append_assoc, List.take_left' (length_encode 4 _), decode_encode (by decide)]
  rw [read, if_pos hid]
  simp only [List.append_assoc, List.drop_left' (length_encode 4 _), Option.bind_eq_bind,
    Core.read_new hpq trivial,
    Core.read_new hp trivial, Core.read_new hq trivial, Core.read_new hnonce trivial,
    Core.read_new hserverNonce trivial, Core.read_new hnewNonce trivial, Option.bind_some,
      Option.pure_def]

end PQInnerData

structure ServerDHInnerData where
  nonce : ℤ
  serverNonce : ℤ
  g : ℤ
  dhPrime : List UInt8
  gA : List UInt8
  serverTime : ℤ
  deriving DecidableEq, Repr

namespace ServerDHInnerData

def id : ℕ := 0xB5890DBA

def write (x : ServerDHInnerData) : Option (List UInt8) := do
  let nonce ← Core.int128.new x.nonce
  let serverNonce ← Core.int128.new x.serverNonce
  let g ← Core.int.new x.g
  let dhPrime ← Core.bytes.new x.dhPrime
  let gA ← Core.bytes.new x.gA
  let serverTime ← Core.int.new x.serverTime
  return encode 4 id ++ (nonce ++ (serverNonce ++ (g ++ (dhPrime ++ (gA ++ serverTime)))))

/-- `TLObject.read`, where it gives this object. -/
def read (b : List UInt8) : Option ServerDHInnerData :=
  if decode (b.take 4) = id then do
    let (nonce, b) ← Core.int128.read (b.drop 4)
    let (serverNonce, b) ← Core.int128.read b
    let (g, b) ← Core.int.read b
    let (dhPrime, b) ← Core.bytes.read b
    let (gA, b) ← Core.bytes.read b
    let (serverTime, _) ← Core.int.read b
    return { nonce, serverNonce, g, dhPrime, gA, serverTime }
  else none

theorem read_write {x : ServerDHInnerData} {w : List UInt8} (h : x.write = some w)
    (rest : List UInt8) :
    read (w ++ rest) = some x := by
  simp only [write, Option.bind_eq_bind, Option.bind_eq_some_iff, Option.pure_def,
    Option.some.injEq] at h
  obtain ⟨nonce, hnonce, serverNonce, hserverNonce, g, hg, dhPrime, hdhPrime, gA, hgA, serverTime,
      hserverTime, rfl⟩ := h
  have hid : decode ((encode 4 id ++
      (nonce ++ (serverNonce ++ (g ++ (dhPrime ++ (gA ++ serverTime))))) ++ rest).take 4) = id := by
    rw [List.append_assoc, List.take_left' (length_encode 4 _), decode_encode (by decide)]
  rw [read, if_pos hid]
  simp only [List.append_assoc, List.drop_left' (length_encode 4 _), Option.bind_eq_bind,
    Core.read_new hnonce trivial,
    Core.read_new hserverNonce trivial, Core.read_new hg trivial, Core.read_new hdhPrime trivial,
    Core.read_new hgA trivial, Core.read_new hserverTime trivial, Option.bind_some, Option.pure_def]

end ServerDHInnerData

structure ClientDHInnerData where
  nonce : ℤ
  serverNonce : ℤ
  retryId : ℤ
  gB : List UInt8
  deriving DecidableEq, Repr

namespace ClientDHInnerData

def id : ℕ := 0x6643B654

def write (x : ClientDHInnerData) : Option (List UInt8) := do
  let nonce ← Core.int128.new x.nonce
  let serverNonce ← Core.int128.new x.serverNonce
  let retryId ← Core.long.new x.retryId
  let gB ← Core.bytes.new x.gB
  return encode 4 id ++ (nonce ++ (serverNonce ++ (retryId ++ gB)))

/-- `TLObject.read`, where it gives this object. -/
def read (b : List UInt8) : Option ClientDHInnerData :=
  if decode (b.take 4) = id then do
    let (nonce, b) ← Core.int128.read (b.drop 4)
    let (serverNonce, b) ← Core.int128.read b
    let (retryId, b) ← Core.long.read b
    let (gB, _) ← Core.bytes.read b
    return { nonce, serverNonce, retryId, gB }
  else none

theorem read_write {x : ClientDHInnerData} {w : List UInt8} (h : x.write = some w)
    (rest : List UInt8) :
    read (w ++ rest) = some x := by
  simp only [write, Option.bind_eq_bind, Option.bind_eq_some_iff, Option.pure_def,
    Option.some.injEq] at h
  obtain ⟨nonce, hnonce, serverNonce, hserverNonce, retryId, hretryId, gB, hgB, rfl⟩ := h
  have hid : decode ((encode 4 id ++ (nonce ++ (serverNonce ++ (retryId ++ gB))) ++ rest).take 4) =
      id := by
    rw [List.append_assoc, List.take_left' (length_encode 4 _), decode_encode (by decide)]
  rw [read, if_pos hid]
  simp only [List.append_assoc, List.drop_left' (length_encode 4 _), Option.bind_eq_bind,
    Core.read_new hnonce trivial,
    Core.read_new hserverNonce trivial, Core.read_new hretryId trivial, Core.read_new hgB trivial,
      Option.bind_some,
    Option.pure_def]

end ClientDHInnerData

/-! ### Numbers and bytes -/

structure PublicKey where
  m : ℕ
  e : ℕ
  deriving DecidableEq, Repr

/-- `rsa.encrypt` -/
def encryptRsa (keys : ℤ → Option PublicKey) (data : List UInt8) (fingerprint : ℤ) :
    Except Exc (List UInt8) :=
  match keys fingerprint with
  | some key => toBytes (fromBytes data ^ key.e % key.m) 256
  | none => .error (.other "KeyError")

/-- `prime.CURRENT_DH_PRIME` -/
def currentDhPrime : ℕ :=
  0xC71CAEB9C6B1C9048E6C522F70F13F73980D40238E3E21C14934D037563D930F48198A0AA7C14058229493D22530F4DBFA336F6E0AC925139543AED44CCE7C3720FD51F69458705AC68CD4FE6B6B13ABDC9746512969328454F18FAF8C595F642477FE96BB2A941D5BCD1D4AC8CC49880708FA9B378E3C4F3A9060BEE67CF9A4A4A695811051907E162753B56B0F6B410DBA74D8A84B2A14B3144E0EF1284754FD17ED950D5965B4B9DD46582DB1178D169C6BC465B0D6FF9CA3928FEF5B9AE4E418FC15E83EBEA0F87FA9FF5EED70050DED2849F47BF959D956850CE929851F0D8115F635B105EE2E4E15D04B2454BF6F4FADF034B10403119CD8E3B92FCC5B

/-- `-n % block` -/
def paddingSize (n block : ℕ) : ℕ := (-(n : ℤ) % block).toNat

section Client

variable (sha1 : Sha1)

/-- `sha + data + padding` -/
def withHash (urandom : Urandom) (block : ℕ) (data : List UInt8) : List UInt8 :=
  (sha1 data).val ++ data ++ (urandom (paddingSize (data.length + 20) block)).val

/-- `tmp_aes_key` and `tmp_aes_iv`. -/
def tmpAes (newNonce serverNonce : List UInt8) : List UInt8 × List UInt8 :=
  ((sha1 (newNonce ++ serverNonce)).val ++ (sha1 (serverNonce ++ newNonce)).val.take 12,
    (sha1 (serverNonce ++ newNonce)).val.drop 12 ++ (sha1 (newNonce ++ newNonce)).val ++
      newNonce.take 4)

/-! ### Messages -/

structure ResPQ where
  nonce : ℤ
  serverNonce : ℤ
  pq : List UInt8
  serverPublicKeyFingerprints : List ℤ
  deriving DecidableEq, Repr

structure ReqDHParams where
  nonce : ℤ
  serverNonce : ℤ
  p : List UInt8
  q : List UInt8
  publicKeyFingerprint : ℤ
  encryptedData : List UInt8
  deriving DecidableEq, Repr

inductive ServerDHParams
  | ok (nonce serverNonce : ℤ) (encryptedAnswer : List UInt8)
  | fail (nonce serverNonce : ℤ)
  deriving DecidableEq, Repr

structure SetClientDHParams where
  nonce : ℤ
  serverNonce : ℤ
  encryptedData : List UInt8
  deriving DecidableEq, Repr

/-- `dh_gen_ok`, `dh_gen_retry` and `dh_gen_fail`. -/
inductive DhGen
  | ok
  | retry
  | fail
  deriving DecidableEq, Repr

structure SetClientDHParamsAnswer where
  kind : DhGen
  nonce : ℤ
  serverNonce : ℤ
  deriving DecidableEq, Repr

/-- A server; connecting to it is a part of the first request. -/
structure Server (σ : Type) where
  reqPqMulti : σ → ℤ → Except Exc (ResPQ × σ)
  reqDHParams : σ → ReqDHParams → Except Exc (ServerDHParams × σ)
  setClientDHParams : σ → SetClientDHParams → Except Exc (SetClientDHParamsAnswer × σ)

/-! ### One attempt -/

/-- What one attempt draws at random. -/
structure Draws where
  nonce : {b : List UInt8 // b.length = 16}
  newNonce : {b : List UInt8 // b.length = 32}
  b : {b : List UInt8 // b.length = 256}
  /-- `prime.decompose` -/
  decompose : ℕ → Except Exc ℕ
  /-- The padding before RSA, and that before IGE. -/
  padding : Urandom × Urandom

variable (keys : ℤ → Option PublicKey) (aes : Ige256)

/-- The first fingerprint of a key that is known. -/
def ResPQ.publicKeyFingerprint (resPq : ResPQ) : Except Exc ℤ :=
  match resPq.serverPublicKeyFingerprints.find? fun i => (keys i).isSome with
  | some fingerprint => .ok fingerprint
  | none => .error (.other "Exception")

/-- Steps 3 and 4. -/
def requestDHParams (draws : Draws) (resPq : ResPQ) : Except Exc ReqDHParams := do
  let fingerprint ← resPq.publicKeyFingerprint keys
  let pq := fromBytes resPq.pq
  let g ← draws.decompose pq
  if g = 0 then .error (.other "ZeroDivisionError")
  else
    let p ← toBytes (min g (pq / g)) 4
    let q ← toBytes (max g (pq / g)) 4
    let nonce := decodeSigned draws.nonce.val
    let data ← written (PQInnerData.write
      { pq := resPq.pq, p, q, nonce, serverNonce := resPq.serverNonce,
        newNonce := decodeSigned draws.newNonce.val })
    let encryptedData ← encryptRsa keys (withHash sha1 draws.padding.1 255 data) fingerprint
    return {
      nonce
      serverNonce := resPq.serverNonce
      p
      q
      publicKeyFingerprint := fingerprint
      encryptedData }

/-- What the answer to that holds. -/
structure Opened where
  serverNonce : List UInt8
  newNonce : List UInt8
  answerWithHash : List UInt8
  inner : ServerDHInnerData
  deriving DecidableEq, Repr

def ServerDHParams.encryptedAnswer : ServerDHParams → Except Exc (List UInt8)
  | .ok _ _ encryptedAnswer => .ok encryptedAnswer
  | .fail _ _ => .error (.other "AttributeError")

/-- Any other object has not the attributes. -/
def readInner (answer : List UInt8) : Except Exc ServerDHInnerData :=
  match ServerDHInnerData.read answer with
  | some inner => .ok inner
  | none => .error (.other "AttributeError")

/-- Step 5. -/
def openAnswer (draws : Draws) (resPq : ResPQ) (params : ServerDHParams) : Except Exc Opened := do
  let encryptedAnswer ← params.encryptedAnswer
  let serverNonce ← Int.new 16 resPq.serverNonce
  let newNonce ← Int.new 32 (decodeSigned draws.newNonce.val)
  let (key, iv) := tmpAes sha1 newNonce serverNonce
  let answerWithHash ← aes.decrypt encryptedAnswer key iv
  let inner ← readInner (answerWithHash.drop 20)
  return { serverNonce, newNonce, answerWithHash, inner }

/-- Step 6: `g_b`, and the request that takes it to the server. -/
def requestSetParams (draws : Draws) (opened : Opened) :
    Except Exc (List UInt8 × SetClientDHParams) := do
  let nonce := decodeSigned draws.nonce.val
  let serverNonce := decodeSigned opened.serverNonce
  let gB ← toBytes (← pow opened.inner.g (fromBytes draws.b.val) (fromBytes opened.inner.dhPrime))
    256
  let data ← written (ClientDHInnerData.write { nonce, serverNonce, retryId := 0, gB })
  let (key, iv) := tmpAes sha1 opened.newNonce opened.serverNonce
  let encryptedData ← aes.encrypt (withHash sha1 draws.padding.2 16 data) key iv
  return (gB, { nonce, serverNonce, encryptedData })

/-- Steps 7 and 8. -/
def authKeyOf (draws : Draws) (opened : Opened) : Except Exc (List UInt8) := do
  toBytes (← pow (fromBytes opened.inner.gA) (fromBytes draws.b.val)
    (fromBytes opened.inner.dhPrime)) 256

def ServerDHParams.nonces : ServerDHParams → ℤ × ℤ
  | .ok nonce serverNonce _ | .fail nonce serverNonce => (nonce, serverNonce)

/-- The security checks. -/
def securityChecks (draws : Draws) (resPq : ResPQ) (params : ServerDHParams) (opened : Opened)
    (gB : List UInt8)
    (answer : SetClientDHParamsAnswer) : Except Exc Unit := do
  let nonce := decodeSigned draws.nonce.val
  let serverNonce := decodeSigned opened.serverNonce
  let dhPrime : ℤ := fromBytes opened.inner.dhPrime
  let g := opened.inner.g
  let gA : ℤ := fromBytes opened.inner.gA
  let gB : ℤ := fromBytes gB
  SecurityCheckMismatch.check (dhPrime = currentDhPrime) "dh_prime == prime.CURRENT_DH_PRIME"
  SecurityCheckMismatch.check (1 < g ∧ g < dhPrime - 1) "1 < g < dh_prime - 1"
  SecurityCheckMismatch.check (1 < gA ∧ gA < dhPrime - 1) "1 < g_a < dh_prime - 1"
  SecurityCheckMismatch.check (1 < gB ∧ gB < dhPrime - 1) "1 < g_b < dh_prime - 1"
  SecurityCheckMismatch.check (2 ^ (2048 - 64) < gA ∧ gA < dhPrime - 2 ^ (2048 - 64))
    "2 ** (2048 - 64) < g_a < dh_prime - 2 ** (2048 - 64)"
  SecurityCheckMismatch.check (2 ^ (2048 - 64) < gB ∧ gB < dhPrime - 2 ^ (2048 - 64))
    "2 ** (2048 - 64) < g_b < dh_prime - 2 ** (2048 - 64)"
  let written ← written opened.inner.write
  SecurityCheckMismatch.check (opened.answerWithHash.take 20 = (sha1 written).val)
    "answer_with_hash[:20] == sha1(answer).digest()"
  SecurityCheckMismatch.check (nonce = resPq.nonce) "nonce == res_pq.nonce"
  SecurityCheckMismatch.check (nonce = params.nonces.1) "nonce == server_dh_params.nonce"
  SecurityCheckMismatch.check (serverNonce = params.nonces.2)
    "server_nonce == server_dh_params.server_nonce"
  SecurityCheckMismatch.check (nonce = answer.nonce) "nonce == set_client_dh_params_answer.nonce"
  SecurityCheckMismatch.check (serverNonce = answer.serverNonce)
    "server_nonce == set_client_dh_params_answer.server_nonce"

/-- The body of the `try`: the key, and the state the server is left in. -/
def exchange {σ : Type} (server : Server σ) (s : σ) (draws : Draws) :
    Except Exc (List UInt8 × σ) := do
  let (resPq, s) ← server.reqPqMulti s (decodeSigned draws.nonce.val)
  let (params, s) ← server.reqDHParams s (← requestDHParams sha1 keys draws resPq)
  let opened ← openAnswer sha1 aes draws resPq params
  let (gB, request) ← requestSetParams sha1 aes draws opened
  let (answer, s) ← server.setClientDHParams s request
  let authKey ← authKeyOf draws opened
  securityChecks sha1 draws resPq params opened gB answer
  return (authKey, s)

/-! ### What an attempt goes through -/

/-- The messages of an attempt, and what the client reads out of them. -/
structure Transcript where
  resPq : ResPQ
  reqDHParams : ReqDHParams
  params : ServerDHParams
  opened : Opened
  gB : List UInt8
  setClientDHParams : SetClientDHParams
  answer : SetClientDHParamsAnswer

/-- The messages are those of an attempt that comes to a key. -/
structure Exchanged {σ : Type} (server : Server σ) (s : σ) (draws : Draws) (t : Transcript)
    (authKey : List UInt8) (s' : σ) :
    Prop where
  states : ∃ s₁ s₂, server.reqPqMulti s (decodeSigned draws.nonce.val) = .ok (t.resPq, s₁) ∧
    server.reqDHParams s₁ t.reqDHParams = .ok (t.params, s₂) ∧
    server.setClientDHParams s₂ t.setClientDHParams = .ok (t.answer, s')
  reqDHParams : requestDHParams sha1 keys draws t.resPq = .ok t.reqDHParams
  opened : openAnswer sha1 aes draws t.resPq t.params = .ok t.opened
  setClientDHParams : requestSetParams sha1 aes draws t.opened = .ok (t.gB, t.setClientDHParams)
  authKey : authKeyOf draws t.opened = .ok authKey

/-- What the security checks let pass. -/
structure Transcript.Checked (t : Transcript) (draws : Draws) : Prop where
  dhPrime : fromBytes t.opened.inner.dhPrime = currentDhPrime
  g : 1 < t.opened.inner.g ∧ t.opened.inner.g < (currentDhPrime : ℤ) - 1
  gA : 2 ^ (2048 - 64) < (fromBytes t.opened.inner.gA : ℤ) ∧
    (fromBytes t.opened.inner.gA : ℤ) < (currentDhPrime : ℤ) - 2 ^ (2048 - 64)
  gB : 2 ^ (2048 - 64) < (fromBytes t.gB : ℤ) ∧ (fromBytes t.gB : ℤ) < (currentDhPrime : ℤ) - 2 ^
    (2048 - 64)
  /-- The hash is that of the object that was read. -/
  hash : ∃ w, t.opened.inner.write = some w ∧ t.opened.answerWithHash.take 20 = (sha1 w).val
  nonce : decodeSigned draws.nonce.val = t.resPq.nonce ∧
    decodeSigned draws.nonce.val = t.params.nonces.1 ∧
    decodeSigned draws.nonce.val = t.answer.nonce
  serverNonce : decodeSigned t.opened.serverNonce = t.params.nonces.2 ∧
    decodeSigned t.opened.serverNonce = t.answer.serverNonce

/-- The nonces of the encrypted parameters, which the code compares with nothing. -/
structure Transcript.InnerNonces (t : Transcript) (draws : Draws) : Prop where
  innerNonce : t.opened.inner.nonce = decodeSigned draws.nonce.val
  innerServerNonce : t.opened.inner.serverNonce = decodeSigned t.opened.serverNonce

/-- What a key may be returned for: nothing is out of range, and no nonce of any message differs. -/
structure Transcript.Agreed (t : Transcript) (draws : Draws) : Prop extends
    t.Checked sha1 draws, t.InnerNonces draws

theorem Transcript.Checked.agreed_iff {sha1 : Sha1} {t : Transcript} {draws : Draws}
    (h : t.Checked sha1 draws) :
    t.Agreed sha1 draws ↔ t.InnerNonces draws :=
  ⟨fun hagreed => hagreed.toInnerNonces, fun hinner => ⟨h, hinner⟩⟩

theorem written_eq_ok {x : Option (List UInt8)} {w : List UInt8} : written x = .ok w ↔
    x = some w := by
  cases x <;> simp [written]

variable {sha1 keys aes}

theorem checked_of_securityChecks {draws : Draws} {t : Transcript}
    (h : securityChecks sha1 draws t.resPq t.params t.opened t.gB t.answer = .ok ()) :
    t.Checked sha1 draws := by
  simp only [securityChecks, Except.bind_eq_ok, SecurityCheckMismatch.check_eq_ok,
    decide_eq_true_eq, written_eq_ok] at h
  obtain ⟨-, hprime, -, hg, -, -, -, -, -, hgA, -, hgB, w, hw, -, hhash, -, hn, -, hn1, -, hs1, -,
      hn2, hs2⟩ := h
  have hprime' := Int.ofNat_inj.mp hprime
  rw [hprime] at hg hgA hgB
  exact ⟨hprime', hg, hgA, hgB, ⟨w, hw, hhash⟩, ⟨hn, hn1, hn2⟩, ⟨hs1, hs2⟩⟩

/-- **An attempt that comes to a key** has gone through all the steps, and all the checks. -/
theorem exists_exchanged {σ : Type} {server : Server σ} {s s' : σ} {draws : Draws}
    {authKey : List UInt8}
    (h : exchange sha1 keys aes server s draws = .ok (authKey, s')) :
    ∃ t, Exchanged sha1 keys aes server s draws t authKey s' ∧ t.Checked sha1 draws := by
  simp only [exchange, Except.bind_eq_ok, Prod.exists, pure, Except.pure, Except.ok.injEq,
    Prod.mk.injEq] at h
  obtain ⟨resPq, s₁, hresPq, request, hrequest, params, s₂, hparams, opened, hopened, gB, setParams,
    hset, answer, s₃,
    hanswer, key, hkey, ⟨⟩, hchecks, rfl, rfl⟩ := h
  refine ⟨⟨resPq, request, params, opened, gB, setParams, answer⟩, ?_, checked_of_securityChecks
    hchecks⟩
  exact ⟨⟨s₁, s₂, hresPq, hparams, hanswer⟩, hrequest, hopened, hset, hkey⟩

end Client

/-! ### The attempts -/

/-- `MAX_RETRIES` -/
def maxRetries : ℕ := 5

/-- What `create` comes to: the key of an attempt, and the state the server is left in. -/
inductive Created (σ : Type)
  | returned (attempt : ℕ) (authKey : List UInt8) (s : σ)
  | raised (e : Exc)
  deriving DecidableEq, Repr

section Create

variable {σ : Type} (attempt : ℕ → Except Exc (List UInt8 × σ))

/-- The attempts from the `n`th on over one endpoint. -/
def attempts (fallback : Exc → ℕ → Created σ) : ℕ → ℕ → Created σ
  | retriesLeft, n =>
      match attempt n with
      | .ok (authKey, s) => .returned n authKey s
      | .error (.connectionError msg) => fallback (.connectionError msg) (n + 1)
      -- not an `Exception`
      | .error (.other "CancelledError") => .raised (.other "CancelledError")
      | .error e =>
          match retriesLeft with
          | 0 => .raised e
          | retriesLeft + 1 => attempts fallback retriesLeft (n + 1)

/-- `create`, with the endpoints there are after the one in use. -/
def create : ℕ → ℕ → Created σ
  | 0, n => attempts attempt (fun e _ => .raised e) maxRetries n
  | endpoints + 1, n => attempts attempt (fun _ n => create endpoints n) maxRetries n

variable {attempt}

theorem attempt_of_attempts {fallback : Exc → ℕ → Created σ} {k : ℕ} {authKey : List UInt8} {s : σ}
    (hfallback : ∀ e n, fallback e n = .returned k authKey s → attempt k = .ok (authKey, s)) :
    ∀ {retriesLeft n : ℕ}, attempts attempt fallback retriesLeft n = .returned k authKey s →
      attempt k = .ok (authKey, s) := by
  intro retriesLeft
  induction retriesLeft with
  | zero =>
    intro n h
    unfold attempts at h
    split at h
    · next hok =>
      cases h
      exact hok
    · exact hfallback _ _ h
    · cases h
    · cases h
  | succ retriesLeft ih =>
    intro n h
    unfold attempts at h
    split at h
    · next hok =>
      cases h
      exact hok
    · exact hfallback _ _ h
    · cases h
    · exact ih h

/-- **The key that is returned is that of one attempt**, after any number of failed ones. -/
theorem attempt_of_create : ∀ {endpoints n k : ℕ} {authKey : List UInt8} {s : σ},
    create attempt endpoints n = .returned k authKey s → attempt k = .ok (authKey, s) := by
  intro endpoints
  induction endpoints with
  | zero =>
    intro n k authKey s h
    refine attempt_of_attempts ?_ h
    intro e n h
    cases h
  | succ endpoints ih =>
    intro n k authKey s h
    refine attempt_of_attempts ?_ h
    intro e n h
    exact ih h

end Create

end Pyrogram.Auth
