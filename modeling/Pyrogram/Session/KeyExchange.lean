import Pyrogram.Session.Auth

/-!
# The two sides of a key exchange

An honest server, which keeps the private keys and a secret of its own, and the client
of `Auth.create`.  After the last request the server either stores the key and answers
`dh_gen_ok`, or stores nothing and answers `dh_gen_retry` or `dh_gen_fail`.

## Main definitions

* `Rsa` — the public keys, and the private ones that undo them.
* `Honest` — what the server draws; `Honest.server` — how it answers; `Honest.serverWith` — the
  same with other parameters in its answer.
* `Honest.plain` — the exchange without its ciphers.

## Main results

* `exchange_honest` — both sides come to the same key.
* `exchange_of_plain` — an exchange that nothing is in the way of comes to a key.
* `create_agrees` — **the server has stored the key that is returned exactly when it has
  answered `dh_gen_ok`.**
-/

namespace Pyrogram.Auth

open Raw LittleEndian Aes Mtproto

/-! ### RSA -/

/-- The public keys, and the exponents that undo them; a block of 255 bytes is less than
each modulus. -/
structure Rsa where
  keys : ℤ → Option PublicKey
  d : ℤ → ℕ
  fits : ∀ f key, keys f = some key → 256 ^ 255 ≤ key.m ∧ key.m ≤ 256 ^ 256
  inverse : ∀ f key, keys f = some key → ∀ x < key.m, (x ^ key.e % key.m) ^ d f % key.m = x

/-- The block of 255 bytes that was encrypted. -/
def Rsa.decrypt (rsa : Rsa) (data : List UInt8) (fingerprint : ℤ) : Except Exc (List UInt8) :=
  match rsa.keys fingerprint with
  | some key => toBytes (fromBytes data ^ rsa.d fingerprint % key.m) 255
  | none => .error (.other "KeyError")

theorem Rsa.decrypt_encrypt (rsa : Rsa) {data c : List UInt8} {fingerprint : ℤ}
    (hlength : data.length = 255)
    (h : encryptRsa rsa.keys data fingerprint = .ok c) : rsa.decrypt c fingerprint = .ok data := by
  unfold encryptRsa at h
  split at h
  · next key hkey =>
    have hlt : fromBytes data < key.m := by
      have hdata := fromBytes_lt data
      rw [hlength] at hdata
      exact Nat.lt_of_lt_of_le hdata (rsa.fits _ _ hkey).1
    rw [Rsa.decrypt, hkey]
    simp only [(fromBytes_of_toBytes h).1, rsa.inverse _ _ hkey _ hlt]
    rw [← hlength, toBytes_fromBytes]
  · cases h

/-! ### The server -/

/-- What the server draws for one exchange. -/
structure Honest where
  serverNonce : {b : List UInt8 // b.length = 16}
  pq : {b : List UInt8 // b.length ≤ 8}
  fingerprints : List ℤ
  dhPrime : {p : ℕ // p < 256 ^ 256}
  g : ℕ
  a : ℕ
  serverTime : ℤ
  padding : Urandom
  /-- Whether each of its answers arrives. -/
  arrives : Fin 3 → Except Exc Unit
  kind : DhGen

/-- What the server keeps of one exchange. -/
structure HonestState where
  nonce : ℤ := 0
  newNonce : List UInt8 := []
  stored : Option (List UInt8) := none
  deriving DecidableEq, Repr

namespace Honest

variable (sha1 : Sha1) (rsa : Rsa) (aes : Ige256) (honest : Honest)

def reqPqMulti (s : HonestState) (nonce : ℤ) : Except Exc (ResPQ × HonestState) := do
  honest.arrives 0
  return ({
    nonce
    serverNonce := decodeSigned honest.serverNonce.val
    pq := honest.pq.val
    serverPublicKeyFingerprints := honest.fingerprints }, { s with nonce })

/-- A request that is not what it should be. -/
def refuse (cond : Bool) : Except Exc Unit :=
  if cond then .ok () else .error (.connectionError "")

/-- What the client is told of the parameters. -/
def innerData (s : HonestState) : Except Exc ServerDHInnerData := do
  let dhPrime ← toBytes honest.dhPrime.val 256
  let gA ← toBytes (honest.g ^ honest.a % honest.dhPrime.val) 256
  return {
    nonce := s.nonce
    serverNonce := decodeSigned honest.serverNonce.val
    g := honest.g
    dhPrime, gA
    serverTime := honest.serverTime }

/-- The answer to the second request, with the parameters that `innerData` puts in it. -/
def reqDHParams (innerData : HonestState → Except Exc ServerDHInnerData) (s : HonestState)
    (request : ReqDHParams) :
    Except Exc (ServerDHParams × HonestState) := do
  honest.arrives 1
  let dataWithHash ← rsa.decrypt request.encryptedData request.publicKeyFingerprint
  match PQInnerData.read (dataWithHash.drop 20) with
  | none => .error (.connectionError "")
  | some inner =>
      let data ← written inner.write
      refuse (dataWithHash.take 20 = (sha1 data).val ∧ inner.pq = honest.pq.val ∧
        inner.nonce = s.nonce ∧
        inner.serverNonce = decodeSigned honest.serverNonce.val)
      let newNonce ← Int.new 32 inner.newNonce
      let answer ← written (← innerData s).write
      let (key, iv) := tmpAes sha1 newNonce honest.serverNonce.val
      let encryptedAnswer ← aes.encrypt (withHash sha1 honest.padding 16 answer) key iv
      return (.ok s.nonce (decodeSigned honest.serverNonce.val) encryptedAnswer,
        { s with newNonce })

def setClientDHParams (s : HonestState) (request : SetClientDHParams) :
    Except Exc (SetClientDHParamsAnswer × HonestState) := do
  let (key, iv) := tmpAes sha1 s.newNonce honest.serverNonce.val
  let dataWithHash ← aes.decrypt request.encryptedData key iv
  match ClientDHInnerData.read (dataWithHash.drop 20) with
  | none => .error (.connectionError "")
  | some inner =>
      let data ← written inner.write
      refuse (dataWithHash.take 20 = (sha1 data).val ∧ inner.nonce = s.nonce ∧
        inner.serverNonce = decodeSigned honest.serverNonce.val)
      let authKey ← toBytes (fromBytes inner.gB ^ honest.a % honest.dhPrime.val) 256
      honest.arrives 2
      return (⟨honest.kind, s.nonce, decodeSigned honest.serverNonce.val⟩,
        { s with stored := if honest.kind = .ok then some authKey else none })

def serverWith (innerData : HonestState → Except Exc ServerDHInnerData) : Server HonestState where
  reqPqMulti := honest.reqPqMulti
  reqDHParams := honest.reqDHParams sha1 rsa aes innerData
  setClientDHParams := honest.setClientDHParams sha1 aes

def server : Server HonestState := honest.serverWith sha1 rsa aes honest.innerData

end Honest

/-! ### Blocks -/

variable {sha1 : Sha1} {rsa : Rsa} {cipher : Cipher}

theorem length_withHash (urandom : Urandom) (block : ℕ) (data : List UInt8) :
    (withHash sha1 urandom block data).length =
      data.length + 20 + paddingSize (data.length + 20) block := by
  simp only [withHash, List.length_append, (sha1 data).property, (urandom _).property]
  omega

theorem take_withHash (urandom : Urandom) (block : ℕ) (data : List UInt8) :
    (withHash sha1 urandom block data).take 20 = (sha1 data).val := by
  rw [withHash, List.append_assoc, List.take_left' (sha1 data).property]

theorem drop_withHash (urandom : Urandom) (block : ℕ) (data : List UInt8) :
    (withHash sha1 urandom block data).drop 20 =
    data ++ (urandom (paddingSize (data.length + 20) block)).val := by
  rw [withHash, List.append_assoc, List.drop_left' (sha1 data).property]

theorem dvd_length_withHash (urandom : Urandom) (data : List UInt8) :
    16 ∣ (withHash sha1 urandom 16 data).length := by
  rw [length_withHash, paddingSize]
  omega

theorem length_withHash_rsa (urandom : Urandom) {data : List UInt8} (h : data.length + 20 ≤ 255) :
    (withHash sha1 urandom 255 data).length = 255 := by
  rw [length_withHash, paddingSize]
  omega

theorem length_tmpAes {newNonce serverNonce : List UInt8} (hnonce : 4 ≤ newNonce.length) :
    (tmpAes sha1 newNonce serverNonce).2.length = 32 := by
  simp only [tmpAes, List.length_append, List.length_drop, List.length_take, (sha1 _).property]
  omega

theorem exists_encrypt (urandom : Urandom) (data : List UInt8) {newNonce serverNonce : List UInt8}
    (hnonce : 4 ≤ newNonce.length) :
    ∃ c, (Ige256.ofCipher cipher).encrypt (withHash sha1 urandom 16 data)
      (tmpAes sha1 newNonce serverNonce).1
      (tmpAes sha1 newNonce serverNonce).2 = .ok c := by
  have hwhole : 16 ∣ (withHash sha1 urandom 16 data).length := dvd_length_withHash urandom data
  obtain ⟨c, hc, -, -⟩ := @ige_decrypt_encrypt cipher _ (tmpAes sha1 newNonce serverNonce).1 _
    hwhole (length_tmpAes hnonce)
  exact ⟨c, hc⟩

/-- What one side encrypts the other decrypts. -/
theorem decrypt_encrypt (urandom : Urandom) {data newNonce serverNonce c : List UInt8}
    (hnonce : 4 ≤ newNonce.length)
    (h : (Ige256.ofCipher cipher).encrypt (withHash sha1 urandom 16 data)
      (tmpAes sha1 newNonce serverNonce).1
      (tmpAes sha1 newNonce serverNonce).2 = .ok c) :
    (Ige256.ofCipher cipher).decrypt c (tmpAes sha1 newNonce serverNonce).1
      (tmpAes sha1 newNonce serverNonce).2 =
      .ok (withHash sha1 urandom 16 data) := by
  have hwhole : 16 ∣ (withHash sha1 urandom 16 data).length := dvd_length_withHash urandom data
  obtain ⟨c', hc', -, hback⟩ := @ige_decrypt_encrypt cipher _ (tmpAes sha1 newNonce serverNonce).1 _
    hwhole (length_tmpAes hnonce)
  obtain rfl : c' = c := Except.ok.inj (hc'.symm.trans h)
  exact hback

/-! ### What each side does -/

theorem length_bytes_new {value w : List UInt8} (h : Core.bytes.new value = some w)
    (hshort : value.length ≤ 253) :
    w.length ≤ value.length + 4 := by
  have hnew : some (UInt8.ofNat value.length :: value ++
      List.replicate (Bytes.pad (value.length + 1)) 0) = some w :=
    (if_pos hshort).symm.trans h
  obtain rfl := Option.some.inj hnew
  simp only [List.cons_append, List.length_cons, List.length_append, List.length_replicate,
    Bytes.pad]
  omega

/-- The block for RSA has room for the data. -/
theorem length_pqInnerData {x : PQInnerData} {w : List UInt8} (h : x.write = some w)
    (hpq : x.pq.length ≤ 8)
    (hp : x.p.length = 4) (hq : x.q.length = 4) : w.length + 20 ≤ 255 := by
  simp only [PQInnerData.write, Option.bind_eq_bind, Option.bind_eq_some_iff, Option.pure_def,
    Option.some.injEq] at h
  obtain ⟨pq, hpq', p, hp', q, hq', nonce, hnonce, serverNonce, hserverNonce, newNonce, hnewNonce,
      rfl⟩ := h
  have h₁ := length_bytes_new hpq' (by omega)
  have h₂ := length_bytes_new hp' (by omega)
  have h₃ := length_bytes_new hq' (by omega)
  have h₄ := length_encodeSigned hnonce
  have h₅ := length_encodeSigned hserverNonce
  have h₆ := length_encodeSigned hnewNonce
  simp only [List.length_append, length_encode]
  omega

/-- A nonce goes through the wire as a number. -/
theorem new_decodeSigned {n : ℕ} (b : {b : List UInt8 // b.length = n}) :
    Int.new n (decodeSigned b.val) = .ok b.val := by
  have hencoded := encodeSigned_decodeSigned b.val
  rw [b.property] at hencoded
  exact Int.new_eq_ok.mpr hencoded

section Client

variable {keys : ℤ → Option PublicKey} {aes : Ige256} {draws : Draws} {resPq : ResPQ}
    {request : ReqDHParams}
  {params : ServerDHParams} {opened : Opened} {gB : List UInt8} {setParams : SetClientDHParams}

theorem requestDHParams_spec (h : requestDHParams sha1 keys draws resPq = .ok request) : ∃ data,
    PQInnerData.write
      { pq := resPq.pq
        p := request.p
        q := request.q
        nonce := decodeSigned draws.nonce.val
        serverNonce := resPq.serverNonce
        newNonce := decodeSigned draws.newNonce.val } = some data ∧
      encryptRsa keys (withHash sha1 draws.padding.1 255 data) request.publicKeyFingerprint =
        .ok request.encryptedData ∧
      request.p.length = 4 ∧ request.q.length = 4 := by
  simp only [requestDHParams, Except.bind_eq_ok] at h
  obtain ⟨fingerprint, -, g, -, h⟩ := h
  split at h
  · cases h
  · simp only [Except.bind_eq_ok, written_eq_ok, pure, Except.pure, Except.ok.injEq] at h
    obtain ⟨p, hp, q, hq, data, hdata, c, hc, rfl⟩ := h
    exact ⟨data, hdata, hc, (fromBytes_of_toBytes hp).2, (fromBytes_of_toBytes hq).2⟩

theorem openAnswer_spec (h : openAnswer sha1 aes draws resPq params = .ok opened) :
    ∃ nonce serverNonce encryptedAnswer,
    params = .ok nonce serverNonce encryptedAnswer ∧
      Int.new 16 resPq.serverNonce = .ok opened.serverNonce ∧
      opened.newNonce = draws.newNonce.val ∧
      aes.decrypt encryptedAnswer (tmpAes sha1 opened.newNonce opened.serverNonce).1
        (tmpAes sha1 opened.newNonce opened.serverNonce).2 = .ok opened.answerWithHash ∧
      ServerDHInnerData.read (opened.answerWithHash.drop 20) = some opened.inner := by
  simp only [openAnswer, Except.bind_eq_ok, new_decodeSigned, pure, Except.pure,
    Except.ok.injEq] at h
  obtain ⟨encryptedAnswer, hparams, serverNonce, hserverNonce, _, rfl, answerWithHash, hanswer,
      inner, hinner, rfl⟩ := h
  cases params with
  | fail _ _ => cases hparams
  | ok nonce serverNonce' encryptedAnswer' =>
    obtain rfl := Except.ok.inj hparams
    refine ⟨nonce, serverNonce', _, rfl, hserverNonce, rfl, hanswer, ?_⟩
    unfold readInner at hinner
    split at hinner
    · next hread =>
      cases hinner
      exact hread
    · cases hinner

theorem requestSetParams_spec (h : requestSetParams sha1 aes draws opened = .ok (gB, setParams)) :
    ∃ n data,
    pow opened.inner.g (fromBytes draws.b.val) (fromBytes opened.inner.dhPrime) = .ok n ∧
      toBytes n 256 = .ok gB ∧
      ClientDHInnerData.write
        { nonce := decodeSigned draws.nonce.val
          serverNonce := decodeSigned opened.serverNonce
          retryId := 0
          gB := gB } = some data ∧
      aes.encrypt (withHash sha1 draws.padding.2 16 data)
        (tmpAes sha1 opened.newNonce opened.serverNonce).1
        (tmpAes sha1 opened.newNonce opened.serverNonce).2 = .ok setParams.encryptedData := by
  simp only [requestSetParams, Except.bind_eq_ok, written_eq_ok, pure, Except.pure, Except.ok.injEq,
    Prod.mk.injEq] at h
  obtain ⟨n, hn, gB', hgB, data, hdata, c, hc, rfl, rfl⟩ := h
  exact ⟨n, data, hn, hgB, hdata, hc⟩

end Client

namespace Honest

variable {aes : Ige256} {honest : Honest} {s s' : HonestState} {request : ReqDHParams}
    {params : ServerDHParams}
  {innerData : HonestState → Except Exc ServerDHInnerData}
  {setParams : SetClientDHParams} {answer : SetClientDHParamsAnswer}

theorem reqPqMulti_spec {nonce : ℤ} {resPq : ResPQ}
    (h : honest.reqPqMulti s nonce = .ok (resPq, s')) :
    resPq = {
      nonce
      serverNonce := decodeSigned honest.serverNonce.val
      pq := honest.pq.val
      serverPublicKeyFingerprints := honest.fingerprints } ∧ s' = { s with nonce } := by
  simp only [reqPqMulti, Except.bind_eq_ok, pure, Except.pure, Except.ok.injEq, Prod.mk.injEq] at h
  obtain ⟨-, -, rfl, rfl⟩ := h
  exact ⟨rfl, rfl⟩

/-- The parameters go out under the keys of the nonces that came in. -/
theorem reqDHParams_spec {data : List UInt8} {x : PQInnerData} {urandom : Urandom}
    (hdecrypt : rsa.decrypt request.encryptedData request.publicKeyFingerprint =
      .ok (withHash sha1 urandom 255 data))
    (hdata : x.write = some data)
    (h : honest.reqDHParams sha1 rsa aes innerData s request = .ok (params, s')) :
    ∃ newNonce inner w encryptedAnswer, Int.new 32 x.newNonce = .ok newNonce ∧
      innerData s = .ok inner ∧
      inner.write = some w ∧
      aes.encrypt (withHash sha1 honest.padding 16 w)
        (tmpAes sha1 newNonce honest.serverNonce.val).1
        (tmpAes sha1 newNonce honest.serverNonce.val).2 = .ok encryptedAnswer ∧
      params = .ok s.nonce (decodeSigned honest.serverNonce.val) encryptedAnswer ∧
        s' = { s with newNonce } := by
  simp only [reqDHParams, hdecrypt, Except.bind_ok, drop_withHash, PQInnerData.read_write hdata,
    Except.bind_eq_ok, written_eq_ok, pure, Except.pure, Except.ok.injEq, Prod.mk.injEq] at h
  obtain ⟨-, -, -, -, -, -, newNonce, hnewNonce, inner, hinner, w, hw, encryptedAnswer, hencrypted,
      rfl, rfl⟩ := h
  exact ⟨newNonce, inner, w, encryptedAnswer, hnewNonce, hinner, hw, hencrypted, rfl, rfl⟩

theorem innerData_spec {inner : ServerDHInnerData} (h : honest.innerData s = .ok inner) :
    inner.g = honest.g ∧
    fromBytes inner.dhPrime = honest.dhPrime.val ∧ fromBytes inner.gA = honest.g ^ honest.a %
      honest.dhPrime.val := by
  simp only [innerData, Except.bind_eq_ok, pure, Except.pure, Except.ok.injEq] at h
  obtain ⟨dhPrime, hprime, gA, hgA, rfl⟩ := h
  exact ⟨rfl, (fromBytes_of_toBytes hprime).1, (fromBytes_of_toBytes hgA).1⟩

/-- The key is made of the `g_b` that came in, and stored with `dh_gen_ok` only. -/
theorem setClientDHParams_spec {data : List UInt8} {x : ClientDHInnerData} {urandom : Urandom}
    (hdecrypt : aes.decrypt setParams.encryptedData
      (tmpAes sha1 s.newNonce honest.serverNonce.val).1
      (tmpAes sha1 s.newNonce honest.serverNonce.val).2 = .ok (withHash sha1 urandom 16 data))
    (hdata : x.write = some data)
    (h : honest.setClientDHParams sha1 aes s setParams = .ok (answer, s')) :
    ∃ authKey, toBytes (fromBytes x.gB ^ honest.a % honest.dhPrime.val) 256 = .ok authKey ∧
      s'.stored = if honest.kind = .ok then some authKey else none := by
  simp only [setClientDHParams, hdecrypt, Except.bind_ok, drop_withHash,
    ClientDHInnerData.read_write hdata, Except.bind_eq_ok,
    pure, Except.pure, Except.ok.injEq, Prod.mk.injEq] at h
  obtain ⟨-, -, -, -, authKey, hkey, -, -, -, rfl⟩ := h
  exact ⟨authKey, hkey, rfl⟩

end Honest

/-! ### Agreement -/

/-- What the server puts in its answer arrives, under the nonces of both sides. -/
theorem opened_of_exchanged {honest : Honest}
    {innerData : HonestState → Except Exc ServerDHInnerData} {draws : Draws}
    {t : Transcript} {authKey : List UInt8} {s : HonestState}
    (h : Exchanged sha1 rsa.keys (Ige256.ofCipher cipher)
      (honest.serverWith sha1 rsa (Ige256.ofCipher cipher) innerData) {}
      draws t authKey s) :
    innerData { nonce := decodeSigned draws.nonce.val } = .ok t.opened.inner ∧
      t.opened.serverNonce = honest.serverNonce.val ∧ t.opened.newNonce = draws.newNonce.val ∧
      honest.setClientDHParams sha1 (Ige256.ofCipher cipher)
        { nonce := decodeSigned draws.nonce.val, newNonce := draws.newNonce.val }
          t.setClientDHParams = .ok (t.answer, s) := by
  obtain ⟨⟨s₁, s₂, hpq, hdh, hset⟩, hrequest, hopened, -, -⟩ := h
  obtain ⟨hres, rfl⟩ := Honest.reqPqMulti_spec hpq
  -- the new nonce arrives
  obtain ⟨data, hdata, hencrypted, hp, hq⟩ := requestDHParams_spec hrequest
  have hroom : data.length + 20 ≤ 255 :=
    length_pqInnerData hdata (by rw [hres]; exact honest.pq.property) hp hq
  have hdecrypt := rsa.decrypt_encrypt (length_withHash_rsa draws.padding.1 hroom) hencrypted
  obtain ⟨newNonce, inner, w, encryptedAnswer, hnewNonce, hinner, hw, hanswer, hparams, rfl⟩ :=
    Honest.reqDHParams_spec hdecrypt hdata hdh
  obtain rfl : draws.newNonce.val = newNonce :=
    Except.ok.inj ((new_decodeSigned draws.newNonce).symm.trans hnewNonce)
  -- the parameters arrive
  obtain ⟨nonce, serverNonce, encryptedAnswer', hparams', hserver, hnewOpened, hdecrypted, hread⟩ :=
    openAnswer_spec hopened
  obtain ⟨-, -, rfl⟩ := ServerDHParams.ok.inj (hparams'.symm.trans hparams)
  have hserverNonce : t.opened.serverNonce = honest.serverNonce.val := by
    rw [hres] at hserver
    exact Except.ok.inj (hserver.symm.trans (new_decodeSigned honest.serverNonce))
  have hfour : 4 ≤ draws.newNonce.val.length := by
    rw [draws.newNonce.property]
    decide
  rw [hnewOpened, hserverNonce] at hdecrypted
  have hwhole := Except.ok.inj
    (hdecrypted.symm.trans (decrypt_encrypt honest.padding hfour hanswer))
  rw [hwhole, drop_withHash, ServerDHInnerData.read_write hw] at hread
  obtain rfl := Option.some.inj hread
  exact ⟨hinner, hserverNonce, hnewOpened, hset⟩

/-- **Both sides come to the same key**, and the server keeps it if it says so. -/
theorem exchange_honest {honest : Honest} {draws : Draws} {authKey : List UInt8} {s : HonestState}
    (h : exchange sha1 rsa.keys (Ige256.ofCipher cipher)
      (honest.server sha1 rsa (Ige256.ofCipher cipher)) {} draws =
      .ok (authKey, s)) :
    toBytes (honest.g ^ (honest.a * fromBytes draws.b.val) % honest.dhPrime.val) 256 = .ok authKey ∧
      s.stored = if honest.kind = .ok then some authKey else none := by
  obtain ⟨t, hexchanged, -⟩ := exists_exchanged h
  obtain ⟨hinner, hserverNonce, hnewNonce, hset⟩ := opened_of_exchanged hexchanged
  obtain ⟨hg, hprime, hgA⟩ := Honest.innerData_spec hinner
  have hkey := hexchanged.authKey
  -- `g_b` arrives
  have hfour : 4 ≤ draws.newNonce.val.length := by
    rw [draws.newNonce.property]
    decide
  obtain ⟨n, dataB, hn, hgB, hdataB, hencryptedB⟩ :=
    requestSetParams_spec hexchanged.setClientDHParams
  rw [hnewNonce, hserverNonce] at hencryptedB
  obtain ⟨serverKey, hserverKey, hstored⟩ :=
    Honest.setClientDHParams_spec (decrypt_encrypt draws.padding.2 hfour hencryptedB) hdataB hset
  -- and the exponents commute
  rw [hg, hprime] at hn
  obtain rfl := pow_natCast hn
  simp only [authKeyOf, Except.bind_eq_ok, hgA, hprime] at hkey
  obtain ⟨k, hk, hkey⟩ := hkey
  obtain rfl := pow_natCast hk
  have hclient : (honest.g ^ honest.a % honest.dhPrime.val) ^
    fromBytes draws.b.val % honest.dhPrime.val =
      honest.g ^ (honest.a * fromBytes draws.b.val) % honest.dhPrime.val := by
    rw [← Nat.pow_mod, ← pow_mul]
  have hboth : fromBytes t.gB ^ honest.a % honest.dhPrime.val =
      honest.g ^ (honest.a * fromBytes draws.b.val) % honest.dhPrime.val := by
    rw [(fromBytes_of_toBytes hgB).1, ← Nat.pow_mod, ← pow_mul, Nat.mul_comm]
  rw [hclient] at hkey
  refine ⟨hkey, ?_⟩
  have hsame : serverKey = authKey := Except.ok.inj (hserverKey.symm.trans (hboth ▸ hkey))
  rw [hstored, hsame]

/-! ### Progress -/

/-- What the server begins with. -/
def Honest.resPq (honest : Honest) (draws : Draws) : ResPQ where
  nonce := decodeSigned draws.nonce.val
  serverNonce := decodeSigned honest.serverNonce.val
  pq := honest.pq.val
  serverPublicKeyFingerprints := honest.fingerprints

/-- The exchange with the answers as they are before they are encrypted. -/
def Honest.plain (honest : Honest) (sha1 : Sha1) (rsa : Rsa)
    (innerData : HonestState → Except Exc ServerDHInnerData)
    (draws : Draws) : Except Exc (List UInt8) := do
  let nonce := decodeSigned draws.nonce.val
  let serverNonce := decodeSigned honest.serverNonce.val
  let _ ← requestDHParams sha1 rsa.keys draws (honest.resPq draws)
  let inner ← innerData { nonce }
  let answer ← written inner.write
  let opened : Opened :=
    ⟨honest.serverNonce.val, draws.newNonce.val, withHash sha1 honest.padding 16 answer, inner⟩
  let gB ← toBytes (← pow inner.g (fromBytes draws.b.val) (fromBytes inner.dhPrime)) 256
  let _ ← written (ClientDHInnerData.write { nonce, serverNonce, retryId := 0, gB })
  let _ ← toBytes (fromBytes gB ^ honest.a % honest.dhPrime.val) 256
  let authKey ← authKeyOf draws opened
  securityChecks sha1 draws (honest.resPq draws) (.ok nonce serverNonce []) opened gB
    ⟨honest.kind, nonce, serverNonce⟩
  return authKey

/-- **The ciphers are not in the way**: where the answers arrive, the exchange comes to the key of
the plain one. -/
theorem exchange_of_plain {honest : Honest} {innerData : HonestState → Except Exc ServerDHInnerData}
    {draws : Draws}
    {authKey : List UInt8} (harrives : ∀ i, honest.arrives i = .ok ())
    (h : honest.plain sha1 rsa innerData draws = .ok authKey) :
    ∃ s, exchange sha1 rsa.keys (Ige256.ofCipher cipher)
      (honest.serverWith sha1 rsa (Ige256.ofCipher cipher) innerData) {}
      draws = .ok (authKey, s) := by
  simp only [Honest.plain, Except.bind_eq_ok, written_eq_ok, pure, Except.pure,
    Except.ok.injEq] at h
  obtain ⟨request, hrequest, inner, hinner, w, hw, n, hn, gB, hgB, data, hdata, serverKey,
    hserverKey, _, hkey, ⟨⟩, hchecks,
    rfl⟩ := h
  have hfour : 4 ≤ draws.newNonce.val.length := by
    rw [draws.newNonce.property]
    decide
  obtain ⟨dataP, hdataP, hencrypted, hp, hq⟩ := requestDHParams_spec hrequest
  have hroom : dataP.length + 20 ≤ 255 := length_pqInnerData hdataP honest.pq.property hp hq
  have hdecrypt := rsa.decrypt_encrypt (length_withHash_rsa draws.padding.1 hroom) hencrypted
  obtain ⟨encryptedAnswer, hanswer⟩ :=
    @exists_encrypt sha1 cipher honest.padding w _ honest.serverNonce.val hfour
  obtain ⟨encryptedData, hencryptedB⟩ :=
    @exists_encrypt sha1 cipher draws.padding.2 data _ honest.serverNonce.val hfour
  -- the answer to each request
  have hpq : honest.reqPqMulti {} (decodeSigned draws.nonce.val) =
      .ok (honest.resPq draws, { nonce := decodeSigned draws.nonce.val }) := by
    simp [Honest.reqPqMulti, Honest.resPq, harrives, pure, Except.pure]
  have hparams : honest.reqDHParams sha1 rsa (Ige256.ofCipher cipher) innerData
      { nonce := decodeSigned draws.nonce.val } request =
      .ok (.ok (decodeSigned draws.nonce.val) (decodeSigned honest.serverNonce.val) encryptedAnswer,
        { nonce := decodeSigned draws.nonce.val, newNonce := draws.newNonce.val }) := by
    simp only [Honest.resPq] at hdataP
    simp [Honest.reqDHParams, harrives, hdecrypt, drop_withHash, take_withHash,
      PQInnerData.read_write hdataP, hdataP,
      Honest.refuse, new_decodeSigned, hinner, hw, hanswer, written, pure, Except.pure]
  have hset : honest.setClientDHParams sha1 (Ige256.ofCipher cipher)
      { nonce := decodeSigned draws.nonce.val, newNonce := draws.newNonce.val }
      ⟨decodeSigned draws.nonce.val, decodeSigned honest.serverNonce.val, encryptedData⟩ =
      .ok (⟨honest.kind, decodeSigned draws.nonce.val, decodeSigned honest.serverNonce.val⟩,
        ⟨decodeSigned draws.nonce.val, draws.newNonce.val, if honest.kind = .ok then some serverKey
          else none⟩) := by
    simp [Honest.setClientDHParams, harrives, decrypt_encrypt draws.padding.2 hfour hencryptedB,
      drop_withHash, take_withHash,
      ClientDHInnerData.read_write hdata, hdata, Honest.refuse, hserverKey, written, pure,
        Except.pure]
  -- what the client makes of them
  have hopened : openAnswer sha1 (Ige256.ofCipher cipher) draws (honest.resPq draws)
      (.ok (decodeSigned draws.nonce.val) (decodeSigned honest.serverNonce.val) encryptedAnswer) =
      .ok ⟨honest.serverNonce.val, draws.newNonce.val, withHash sha1 honest.padding 16 w,
        inner⟩ := by
    simp [openAnswer, ServerDHParams.encryptedAnswer, Honest.resPq, new_decodeSigned,
      decrypt_encrypt honest.padding hfour hanswer, drop_withHash, readInner,
        ServerDHInnerData.read_write hw, pure, Except.pure]
  have hsetParams : requestSetParams sha1 (Ige256.ofCipher cipher) draws
      ⟨honest.serverNonce.val, draws.newNonce.val, withHash sha1 honest.padding 16 w, inner⟩ =
      .ok (gB, ⟨decodeSigned draws.nonce.val, decodeSigned honest.serverNonce.val, encryptedData⟩)
        := by
    simp [requestSetParams, hn, hgB, hdata, hencryptedB, written, pure, Except.pure]
  simp only [exchange, Except.bind_eq_ok, Prod.exists, pure, Except.pure, Except.ok.injEq,
    Prod.mk.injEq]
  exact ⟨_, _, _, hpq, _, hrequest, _, _, hparams, _, hopened, _, _, hsetParams, _, _, hset, _,
    hkey, (), hchecks, rfl, rfl⟩

/-! ### Every run of `create` -/

/-- **The server has stored the key that is returned exactly when it has answered
`dh_gen_ok`**, whatever was drawn, and however many attempts failed before; the key is
`g ^ (a * b)`.  Of any server a key comes only with the checks passed, and then all is
agreed exactly when the nonces of the encrypted parameters are. -/
theorem create_agrees (sha1 : Sha1) (rsa : Rsa) (cipher : Cipher) (draws : ℕ → Draws)
    (endpoints k : ℕ) (authKey : List UInt8) :
    (∀ (honest : ℕ → Honest) (s : HonestState),
      create (fun n => exchange sha1 rsa.keys (Ige256.ofCipher cipher)
        ((honest n).server sha1 rsa (Ige256.ofCipher cipher)) {} (draws n)) endpoints 0 =
          .returned k authKey s →
      toBytes ((honest k).g ^ ((honest k).a * fromBytes (draws k).b.val) % (honest k).dhPrime.val)
        256 = .ok authKey ∧
        (s.stored = some authKey ↔ (honest k).kind = .ok)) ∧
    ∀ (σ : Type) (server : ℕ → Server σ) (init : ℕ → σ) (s : σ),
      create (fun n => exchange sha1 rsa.keys (Ige256.ofCipher cipher) (server n) (init n)
        (draws n)) endpoints 0 =
        .returned k authKey s →
      ∃ t, Exchanged sha1 rsa.keys (Ige256.ofCipher cipher) (server k) (init k) (draws k) t
        authKey s ∧
        t.Checked sha1 (draws k) ∧ (t.Agreed sha1 (draws k) ↔ t.InnerNonces (draws k)) := by
  constructor
  · intro honest s h
    obtain ⟨hkey, hstored⟩ := exchange_honest (attempt_of_create h)
    refine ⟨hkey, ?_⟩
    rw [hstored]
    split
    · next hok => exact iff_of_true rfl hok
    · next hother => exact iff_of_false (fun h => nomatch h) hother
  · intro σ server init s h
    obtain ⟨t, hexchanged, hchecked⟩ := exists_exchanged (attempt_of_create h)
    exact ⟨t, hexchanged, hchecked, hchecked.agreed_iff⟩

/-! ### A run -/

def zeros (n : ℕ) : {b : List UInt8 // b.length = n} :=
  ⟨List.replicate n 0, List.length_replicate ..⟩

/-- One key, which leaves the block as it is. -/
def identity : Rsa where
  keys f := if f = 1 then some ⟨256 ^ 256, 1⟩ else none
  d _ := 1
  fits := by
    intro f key h
    split at h
    · cases h
      exact ⟨Nat.pow_le_pow_right (by decide) (by decide), le_rfl⟩
    · cases h
  inverse := by
    intro f key h x hx
    split at h
    · cases h
      rw [pow_one, pow_one, Nat.mod_mod, Nat.mod_eq_of_lt hx]
    · cases h

def smallDraws : Draws where
  nonce := zeros 16
  newNonce := zeros 32
  b := ⟨(encode 256 2000).reverse, by rw [List.length_reverse, length_encode]⟩
  decompose _ := .ok 3
  padding := (zeros, zeros)

def small (kind : DhGen) (attempt : ℕ) : Honest where
  serverNonce := zeros 16
  pq := ⟨[15], by decide⟩
  fingerprints := [1]
  dhPrime := ⟨currentDhPrime, by decide +kernel⟩
  g := 2
  a := 2000
  serverTime := 0
  padding := zeros
  arrives _ := if attempt = 0 then .error (.connectionError "") else .ok ()
  kind := kind

/-- The parameters under the nonce of another exchange. -/
def otherNonce (honest : Honest) (s : HonestState) : Except Exc ServerDHInnerData :=
  honest.innerData { s with nonce := s.nonce + 1 }

/-- A run whose first connection is lost. -/
def runWith (kind : DhGen) (innerData : Honest → HonestState → Except Exc ServerDHInnerData) :
    Created HonestState :=
  create (fun n => exchange (fun _ => zeros 20) identity.keys (Ige256.ofCipher fun _ =>
    Equiv.refl _)
    ((small kind n).serverWith (fun _ => zeros 20) identity (Ige256.ofCipher fun _ => Equiv.refl _)
      (innerData (small kind n))) {} smallDraws) 1 0

def secondRun (kind : DhGen) : Created HonestState := runWith kind Honest.innerData

theorem exists_of_isOk {ε α : Type} {x : Except ε α} (h : x.isOk = true) : ∃ a, x = .ok a := by
  cases x with
  | ok a => exact ⟨a, rfl⟩
  | error e => cases h

theorem isOk_plain_small (kind : DhGen) :
    ((small kind 1).plain (fun _ => zeros 20) identity (small kind 1).innerData smallDraws).isOk =
      true := by
  have hkind : (small kind 1).plain (fun _ => zeros 20) identity (small kind 1).innerData
    smallDraws =
      (small .ok 1).plain (fun _ => zeros 20) identity (small .ok 1).innerData smallDraws := rfl
  rw [hkind]
  decide +kernel

theorem isOk_plain_otherNonce :
    ((small .ok 1).plain (fun _ => zeros 20) identity (otherNonce (small .ok 1)) smallDraws).isOk =
      true := by
  decide +kernel

/-- Another endpoint is tried where the connection to the first is lost. -/
theorem create_of_lost {σ : Type} {attempt : ℕ → Except Exc (List UInt8 × σ)} {msg : String}
    {authKey : List UInt8} {s : σ}
    (hlost : attempt 0 = .error (.connectionError msg)) (h : attempt 1 = .ok (authKey, s)) :
    create attempt 1 0 = .returned 1 authKey s := by
  simp [create, maxRetries, attempts, hlost, h]

/-- The second attempt comes to a key. -/
theorem exists_runWith {kind : DhGen}
    {innerData : Honest → HonestState → Except Exc ServerDHInnerData}
    (h : ((small kind 1).plain (fun _ => zeros 20) identity (innerData (small kind 1))
      smallDraws).isOk = true) :
    ∃ k authKey s, runWith kind innerData = .returned k authKey s := by
  obtain ⟨authKey, hplain⟩ := exists_of_isOk h
  have harrives : ∀ i, (small kind 1).arrives i = .ok () := fun _ => rfl
  obtain ⟨s, h⟩ := exchange_of_plain harrives hplain
  have hlost : exchange (fun _ => zeros 20) identity.keys (Ige256.ofCipher fun _ => Equiv.refl _)
      ((small kind 0).serverWith (fun _ => zeros 20) identity (Ige256.ofCipher fun _ =>
        Equiv.refl _)
        (innerData (small kind 0))) {} smallDraws = .error (.connectionError "") := by
    rw [exchange]
    rfl
  exact ⟨1, authKey, s, create_of_lost hlost h⟩

theorem create_agrees_secondRun : ∃ k authKey s, secondRun .ok = .returned k authKey s ∧
    toBytes (2 ^ (2000 * fromBytes smallDraws.b.val) % currentDhPrime) 256 = .ok authKey ∧
      s.stored = some authKey := by
  obtain ⟨k, authKey, s, h⟩ := exists_runWith (isOk_plain_small .ok)
  obtain ⟨hkey, hstored⟩ := (create_agrees _ identity _ (fun _ => smallDraws) 1 k authKey).1
    (small .ok) s h
  exact ⟨k, authKey, s, h, hkey, hstored.mpr rfl⟩

/-- A key is returned that the server has not stored, and one is returned for parameters
under the nonce of another exchange. -/
theorem not_stored_of_retry :
    (∃ k authKey s, secondRun .retry = .returned k authKey s ∧ s.stored = none) ∧
    ∃ k authKey s t, runWith .ok otherNonce = .returned k authKey s ∧
      Exchanged (fun _ => zeros 20) identity.keys (Ige256.ofCipher fun _ => Equiv.refl _)
        ((small .ok k).serverWith (fun _ => zeros 20) identity (Ige256.ofCipher fun _ =>
          Equiv.refl _)
          (otherNonce (small .ok k))) {} smallDraws t authKey s ∧
      t.opened.inner.nonce = decodeSigned smallDraws.nonce.val + 1 := by
  constructor
  · obtain ⟨k, authKey, s, h⟩ := exists_runWith (isOk_plain_small .retry)
    exact ⟨k, authKey, s, h, (exchange_honest (attempt_of_create h)).2⟩
  · obtain ⟨k, authKey, s, h⟩ := exists_runWith isOk_plain_otherNonce
    obtain ⟨t, hexchanged, -⟩ := exists_exchanged (attempt_of_create h)
    obtain ⟨hinner, -⟩ := opened_of_exchanged hexchanged
    refine ⟨k, authKey, s, t, h, hexchanged, ?_⟩
    simp only [otherNonce, Honest.innerData, Except.bind_eq_ok, pure, Except.pure,
      Except.ok.injEq] at hinner
    obtain ⟨_, -, _, -, hinner⟩ := hinner
    rw [← hinner]

end Pyrogram.Auth
