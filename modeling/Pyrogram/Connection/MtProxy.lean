import Pyrogram.Connection.Handshake
import Pyrogram.Connection.Proxy
import Pyrogram.Connection.Readers
import Pyrogram.Crypto.ClientHello

/-!
# Connections through an MTProxy

A connection through an MTProxy opens with the obfuscated2 header.  Where the secret names a domain,
the proxy is greeted first, its answer has to be authentic, and the header rides in front of the
first packet, inside the first of the fake-TLS records.

The connection to the proxy itself is there already; its socket is a list of arrivals.

## Main definitions

* `serverHelloIsAuthentic`, `readGreetingResponse`, `greetFakeTlsProxy` — the greeting.
* `connectViaMtproxy` — what is written, and the connection.
* `Connected.send`, `Connected.reader` — `TCP.send` and `TCP.recv` of such a connection.
* `run` — packets that are sent and received in any order.

## Main results

* `connect_iff` — **nothing but the greeting is written** to a proxy that does not know the secret.
* `tunnel_carries` — **both sides read the packets of the other one.**
-/

namespace Pyrogram.MtProxy

open BlockModes LittleEndian FakeTls FakeTlsRecords Obfuscated2 Proxies Mtproto

/-- What connecting raises. -/
inductive Raised
  | exc (e : Exc)
  | osError (msg : Text)
  deriving DecidableEq, Repr

/-! ### The greeting -/

/-- `server_hello_is_authentic` -/
def serverHelloIsAuthentic (sha256 : Sha256) (response secret clientRandom : List UInt8) : Bool :=
  let stop := RANDOM_OFFSET + RANDOM_SIZE
  if response.length < stop then false
  else
    let serverRandom := response.extract RANDOM_OFFSET stop
    let zeroed := response.take RANDOM_OFFSET ++ List.replicate RANDOM_SIZE 0 ++ response.drop stop
    (hmac sha256 secret (clientRandom ++ zeroed)).val = serverRandom

def GREETING_RESPONSE_PREFIXES : List (List UInt8) :=
  [[0x16, 0x03, 0x03], CHANGE_CIPHER_SPEC ++ APPLICATION_DATA_PREFIX]

/-- The loop of `_read_greeting_response`. -/
def readSegments : List (List UInt8) → List UInt8 → List Arrival →
    Except Raised (List UInt8) × List Arrival
  | [], response, arrivals => (.ok response, arrivals)
  | opening :: openings, response, arrivals =>
      match recvFromSocket (opening.length + RECORD_LENGTH_SIZE) arrivals with
      | (none, arrivals) =>
          (.error (.osError (text "fake-TLS: the greeting was not answered with a ServerHello")),
          arrivals)
      | (some head, arrivals) =>
          if head.take opening.length ≠ opening then
            (.error (.osError (text "fake-TLS: the greeting was not answered with a ServerHello")),
              arrivals)
          else
            match recvFromSocket (Aes.fromBytes (head.drop (head.length - RECORD_LENGTH_SIZE)))
              arrivals with
            | (none, arrivals) =>
                (.error (.osError (text "fake-TLS: the connection closed inside the ServerHello")),
                arrivals)
            | (some body, arrivals) => readSegments openings (response ++ (head ++ body)) arrivals

/-- `_read_greeting_response` -/
def readGreetingResponse (arrivals : List Arrival) : Except Raised (List UInt8) × List Arrival :=
  readSegments GREETING_RESPONSE_PREFIXES [] arrivals

/-- What the transport reads from. -/
inductive Stream
  | bare (arrivals : List Arrival)
  | records (r : FakeTlsRecords)
  deriving DecidableEq, Repr

/-- A transport that is connected. -/
structure Connected where
  stream : Stream
  encrypt : CipherArgs
  decrypt : CipherArgs
  deriving DecidableEq, Repr

section Connect

variable (cipher : Aes.BlockFunction) (sha256 : Sha256)

/-- What `os.urandom`, `secrets` and the clock give to a connection. -/
structure Draws where
  nonce : Buffer
  hello : HelloDraws
  unixTime : ℤ

/-- `_greet_fake_tls_proxy`: what is left to be read, and what is written. -/
def greetFakeTlsProxy (d : Draws) (domain : Text) (secret : List UInt8) (arrivals : List Arrival) :
    Except Raised (List Arrival) × List UInt8 :=
  match buildClientHello sha256 d.hello domain secret d.unixTime with
  | .error e => (.error (.exc e), [])
  | .ok hello =>
      match readGreetingResponse arrivals with
      | (.error e, _) => (.error e, hello.record)
      | (.ok response, arrivals) =>
          if serverHelloIsAuthentic sha256 response secret hello.random then (.ok arrivals,
            hello.record)
          else (.error (.osError
            (text "fake-TLS: " ++ domain ++
              text " answered the greeting without knowing the proxy secret")), hello.record)

/-- `_connect_via_mtproxy`: the connection, and what is written. -/
def connectViaMtproxy (d : Draws) (proxy : MTProxy) (cls : TransportClass) (dcId : Option ℤ)
    (arrivals : List Arrival) :
    Except Raised Connected × List UInt8 :=
  match obfuscated2Secret cls (some (.mtproxy proxy)) dcId proxy.secret with
  | .error e => (.error (.exc e), [])
  | .ok bareSecret =>
      match buildObfuscated2Header cipher (fun bs => (sha256 bs).val) d.nonce bareSecret
        (dcId.getD 0)
          (cls.obfuscateTag.getD []) with
      | .error e => (.error (.exc e), [])
      | .ok built =>
          match proxy.sniHostname with
          | none => (.ok ⟨.bare arrivals, built.encrypt, built.decrypt⟩, built.header.val)
          | some domain =>
              match greetFakeTlsProxy sha256 d domain bareSecret arrivals with
              | (.error e, written) => (.error e, written)
              | (.ok arrivals, written) =>
                  (.ok ⟨.records { prologue := built.header.val, arrivals }, built.encrypt,
                    built.decrypt⟩, written)

end Connect

/-! ### Sending and receiving -/

/-- What the transport reads, before it is decrypted. -/
def Stream.reader : ByteReader Text Stream where
  read length
    | .bare arrivals =>
        (.ok (recvFromSocket length arrivals).1, .bare (recvFromSocket length arrivals).2)
    | .records r => ((FakeTlsRecords.reader.read length r).1.mapError text,
        .records (FakeTlsRecords.reader.read length r).2)
  Holds
    | .bare arrivals, stream => available arrivals = stream
    | .records r, stream => r.Carries stream
  read_append := by
    intro s want rest h
    cases s with
    | bare arrivals =>
      obtain ⟨arrivals', hread, hrest⟩ := recvFromSocket_append h
      refine ⟨.bare arrivals', ?_, hrest⟩
      dsimp only
      rw [hread]
    | records r =>
      obtain ⟨r', hread, hrest⟩ := FakeTlsRecords.reader.read_append h
      refine ⟨.records r', ?_, hrest⟩
      dsimp only
      rw [hread]
      rfl

section Transfer

variable (cipher : Aes.BlockFunction)

/-- The keystream of a cipher, whose state has the key with it. -/
def argsKeystream : Keystream CipherArgs where
  emit a := (Aes.keystreamWith (cipher a.key)).emit a.counter
  next a := { a with counter := (Aes.keystreamWith (cipher a.key)).next a.counter }

theorem apply_argsKeystream (a : CipherArgs) (bs : List UInt8) :
    (argsKeystream cipher).apply a bs = (Aes.keystreamWith (cipher a.key)).apply a.counter bs := by
  induction bs generalizing a with
  | nil => rfl
  | cons b bs ih =>
    rw [Keystream.apply, Keystream.apply, ih]
    rfl

theorem advance_argsKeystream (a : CipherArgs) (n : ℕ) : (argsKeystream cipher).advance a n =
    { a with counter := (Aes.keystreamWith (cipher a.key)).advance a.counter n } := by
  induction n generalizing a with
  | zero => rfl
  | succ n ih =>
    rw [Keystream.advance, Keystream.advance, ih]
    rfl

theorem crypt_eq_argsKeystream (a : CipherArgs) (data : List UInt8) : a.crypt cipher data =
    ((argsKeystream cipher).apply a data, (argsKeystream cipher).advance a data.length) := by
  rw [CipherArgs.crypt_eq, apply_argsKeystream, advance_argsKeystream]

/-- `TCP.recv`. -/
def Connected.reader : ByteReader Text Connected where
  read length c :=
    match Stream.reader.read length c.stream with
    | (.ok (some data), stream) =>
        let (data, decrypt) := c.decrypt.crypt cipher data
        (.ok (some data), { c with stream, decrypt })
    | (result, stream) => (result, { c with stream })
  Holds c plain := Stream.reader.Holds c.stream ((argsKeystream cipher).apply c.decrypt plain)
  read_append := by
    intro c want rest h
    rw [Keystream.apply_append] at h
    obtain ⟨stream, hread, hrest⟩ := Stream.reader.read_append h
    rw [Keystream.length_apply] at hread
    refine ⟨{ c with stream, decrypt := (argsKeystream cipher).advance c.decrypt want.length },
      ?_, hrest⟩
    rw [hread]
    dsimp only
    rw [crypt_eq_argsKeystream, Keystream.apply_apply, Keystream.length_apply]

/-- `TCP.send`: what is written. -/
def Connected.send (c : Connected) (data : List UInt8) : Except Exc (List UInt8) × Connected :=
  let (data, encrypt) := c.encrypt.crypt cipher data
  match c.stream with
  | .bare _ => (.ok data, { c with encrypt })
  | .records r => ((r.wrap data).1, { c with encrypt, stream := .records (r.wrap data).2 })

end Transfer

/-! ### The greeting is answered -/

/-- A part of an answer: what it opens with, the number of the bytes, and these. -/
def segment (opening body : List UInt8) : List UInt8 :=
  opening ++ (encode 2 body.length).reverse ++ body

/-- An answer whose random field is an authentication of the greeting and of the answer around
it. -/
def Signed (sha256 : Sha256) (secret clientRandom response : List UInt8) : Prop :=
  ∃ before digest after, before.length = RANDOM_OFFSET ∧ response = before ++ digest ++ after ∧
    digest = (hmac sha256 secret
      (clientRandom ++ (before ++ List.replicate RANDOM_SIZE 0 ++ after))).val

theorem serverHelloIsAuthentic_iff (sha256 : Sha256) (response secret clientRandom : List UInt8) :
    serverHelloIsAuthentic sha256 response secret clientRandom = true ↔
      Signed sha256 secret clientRandom response := by
  unfold serverHelloIsAuthentic
  dsimp only
  constructor
  · intro h
    split at h
    · cases h
    -- long enough: cut it at the digest's place
    · next hlong =>
      rw [not_lt] at hlong
      refine ⟨response.take RANDOM_OFFSET, _, response.drop (RANDOM_OFFSET + RANDOM_SIZE), ?_, ?_,
        (of_decide_eq_true h).symm⟩
      · exact List.length_take_of_le ((Nat.le_add_right ..).trans hlong)
      · rw [List.extract_eq_take_drop, Nat.add_sub_cancel_left, List.append_assoc, ← List.drop_drop,
          List.take_append_drop, List.take_append_drop]
  -- the digest is blanked out with zeros where it stands
  · rintro ⟨before, digest, after, hbefore, rfl, hdigest⟩
    have hsize : digest.length = RANDOM_SIZE := by
      rw [hdigest]
      exact (hmac sha256 secret _).property
    have hfront : (before ++ digest).length = RANDOM_OFFSET + RANDOM_SIZE := by
      rw [List.length_append, hbefore, hsize]
    have htake : (before ++ digest ++ after).take RANDOM_OFFSET = before := by
      rw [List.append_assoc]
      exact List.take_left' hbefore
    have hdrop : (before ++ digest ++ after).drop (RANDOM_OFFSET + RANDOM_SIZE) = after :=
      List.drop_left' hfront
    have hextract : (before ++ digest ++ after).extract RANDOM_OFFSET
        (RANDOM_OFFSET + RANDOM_SIZE) = digest := by
      rw [List.extract_eq_take_drop, Nat.add_sub_cancel_left, List.append_assoc,
        List.drop_left' hbefore, List.take_left' hsize]
    rw [if_neg (by rw [List.length_append, hfront]; omega), htake, hdrop, hextract]
    exact decide_eq_true hdigest.symm

theorem segment_append (opening body rest : List UInt8) : segment opening body ++ rest =
    (opening ++ (encode 2 body.length).reverse) ++ (body ++ rest) := by
  rw [segment, List.append_assoc]

/-- The number of the bytes of a segment, behind what it opens with. -/
theorem fromBytes_head (opening : List UInt8) {body : List UInt8} (h : body.length < 2 ^ 16) :
    Aes.fromBytes ((opening ++ (encode 2 body.length).reverse).drop
      ((opening ++ (encode 2 body.length).reverse).length - RECORD_LENGTH_SIZE)) = body.length := by
  have hsize : (opening ++ (encode 2 body.length).reverse).length - RECORD_LENGTH_SIZE =
      opening.length := by
    simp [RECORD_LENGTH_SIZE]
  rw [hsize, List.drop_left, Aes.fromBytes, List.reverse_reverse,
    decode_encode (h.trans_le (by decide))]

/-- Segments that arrive are read, and nothing of what follows them. -/
theorem readSegments_of_available {openings bodies : List (List UInt8)} {arrivals : List Arrival}
    {rest : List UInt8}
    (response : List UInt8)
    (hbodies : List.Forall₂ (fun _ body => body.length < 2 ^ 16) openings bodies)
    (h : available arrivals = (List.zipWith segment openings bodies).flatten ++ rest) :
    ∃ arrivals', readSegments openings response arrivals =
        (.ok (response ++ (List.zipWith segment openings bodies).flatten), arrivals') ∧
          available arrivals' = rest := by
  induction hbodies generalizing response arrivals with
  | nil => exact ⟨arrivals, by rw [readSegments, List.zipWith_nil_left, List.flatten_nil,
      List.append_nil], h⟩
  | @cons opening body openings bodies hbody _ ih =>
    rw [List.zipWith_cons_cons, List.flatten_cons] at h ⊢
    rw [List.append_assoc, segment_append] at h
    obtain ⟨arrivals₁, hhead, h₁⟩ := recvFromSocket_append h
    obtain ⟨arrivals₂, hread, h₂⟩ := recvFromSocket_append h₁
    obtain ⟨arrivals₃, hrest, h₃⟩ := ih (response ++ segment opening body) h₂
    have hsize : ((opening ++ (encode 2 body.length).reverse).length : ℤ) = opening.length +
        RECORD_LENGTH_SIZE := by
      simp [RECORD_LENGTH_SIZE]
    refine ⟨arrivals₃, ?_, h₃⟩
    rw [hsize] at hhead
    rw [readSegments, hhead]
    dsimp only
    rw [List.take_left, if_neg (not_not_intro rfl), fromBytes_head opening hbody, hread]
    dsimp only
    rw [← segment, hrest, List.append_assoc]

/-- **An answer that is read** is made of segments. -/
theorem available_of_readSegments {openings : List (List UInt8)} {arrivals arrivals' : List Arrival}
    {response answer : List UInt8}
    (h : readSegments openings response arrivals = (.ok answer, arrivals')) :
    ∃ bodies, List.Forall₂ (fun _ body => body.length < 2 ^ 16) openings bodies ∧
      available arrivals = (List.zipWith segment openings bodies).flatten ++ available arrivals' ∧
      answer = response ++ (List.zipWith segment openings bodies).flatten := by
  induction openings generalizing response arrivals with
  | nil =>
    obtain ⟨hanswer, rfl⟩ := Prod.mk.inj h
    exact ⟨[], .nil, rfl, by rw [← Except.ok.inj hanswer, List.zipWith_nil_left, List.flatten_nil,
      List.append_nil]⟩
  | cons opening openings ih =>
    rw [readSegments] at h
    cases hhead : recvFromSocket (opening.length + RECORD_LENGTH_SIZE) arrivals with
    | mk head arrivals₁ =>
      rw [hhead] at h
      cases head with
      | none => cases h
      | some head =>
        obtain ⟨hsize, hfirst⟩ := available_of_recvFromSocket (n := opening.length + 2) hhead
        dsimp only at h
        split at h
        · cases h
        · next hopening =>
          rw [not_not] at hopening
          cases hbody : recvFromSocket
            (Aes.fromBytes (head.drop (head.length - RECORD_LENGTH_SIZE))) arrivals₁ with
          | mk body arrivals₂ =>
            rw [hbody] at h
            cases body with
            | none => cases h
            | some body =>
              obtain ⟨hlength, hsecond⟩ := available_of_recvFromSocket hbody
              obtain ⟨bodies, hbodies, hrest, rfl⟩ := ih h
              -- the last two bytes of the head are the number of the bytes of the body
              have htail : (head.drop (head.length - RECORD_LENGTH_SIZE)).length = 2 := by
                rw [List.length_drop, hsize, RECORD_LENGTH_SIZE]
                omega
              have hlt : body.length < 2 ^ 16 := by
                have hdecode := decode_lt (head.drop (head.length - RECORD_LENGTH_SIZE)).reverse
                rw [List.length_reverse, htail] at hdecode
                rw [hlength]
                exact hdecode.trans_eq (by norm_num)
              have hencode : (encode 2 body.length).reverse =
                  head.drop (head.length - RECORD_LENGTH_SIZE) := by
                have hback := encode_decode (head.drop (head.length - RECORD_LENGTH_SIZE)).reverse
                rw [List.length_reverse, htail] at hback
                rw [hlength, Aes.fromBytes, hback, List.reverse_reverse]
              have hsegment : head ++ body = segment opening body := by
                have hcut : head.length - RECORD_LENGTH_SIZE = opening.length := by
                  rw [hsize, RECORD_LENGTH_SIZE, Nat.add_sub_cancel]
                rw [segment, hencode, hcut]
                conv_lhs => rw [← List.take_append_drop opening.length head, hopening]
              refine ⟨body :: bodies, .cons hlt hbodies, ?_, ?_⟩
              · rw [List.zipWith_cons_cons, List.flatten_cons, hfirst, hsecond, hrest, ← hsegment]
                simp only [List.append_assoc]
              · rw [List.zipWith_cons_cons, List.flatten_cons, ← hsegment]
                simp only [List.append_assoc]

/-! ### Connecting -/

/-- What a proxy is configured with, whose secret is `σ`. -/
def proxyOf (hostname : Text) (port : ℤ) (σ : Secret) : MTProxy :=
  ⟨hostname, port, σ.kept, σ.sniHostname⟩

/-- The transport that is chosen for a secret, and its framing. -/
def transportClass : Secret → TransportClass
  | .plain _ => .abridged
  | .padded _ | .fakeTls _ _ => .intermediatePadded

def framing : Secret → Framing
  | .plain _ => .abridged
  | .padded _ | .fakeTls _ _ => .intermediatePadded

/-- The tag of its header. -/
def obfuscateTag : Secret → List UInt8
  | .plain _ => [0xef, 0xef, 0xef, 0xef]
  | .padded _ | .fakeTls _ _ => intermediatePaddedObfuscateTag

section

variable (hostname : Text) (port : ℤ) (σ : Secret)

theorem transportClassFor_proxyOf :
    transportClassFor (some (.mtproxy (proxyOf hostname port σ))) .abridged = transportClass σ := by
  have h := (transports_mtproxy hostname port σ).framing
  cases σ with
  | plain k =>
    rw [transportClassFor]
    split
    · next hpadded => exact absurd (h.mp (by rw [transportClassFor]; exact if_pos hpadded)) id
    · rfl
  | padded k => exact h.mpr trivial
  | fakeTls k domain => exact h.mpr trivial

theorem obfuscateTag_transportClass : (transportClass σ).obfuscateTag = some (obfuscateTag σ) := by
  cases σ <;> rfl

theorem obfuscated2Secret_proxyOf (dcId : ℤ) :
    obfuscated2Secret (transportClass σ) (some (.mtproxy (proxyOf hostname port σ))) (some dcId)
      σ.kept = .ok σ.key := by
  rw [← transportClassFor_proxyOf hostname port]
  exact (transports_mtproxy hostname port σ).key dcId

end

section

variable (cipher : Aes.BlockFunction) (sha256 : Sha256) (hostname : Text) (port : ℤ) {dcId : ℤ}

/-- Where the greeting is answered by a proxy that knows the key; what follows the answer. -/
def Answers (key random : List UInt8) (arrivals rest : List UInt8) : Prop :=
  ∃ hello data : List UInt8, hello.length < 2 ^ 16 ∧ data.length < 2 ^ 16 ∧
    arrivals = segment [0x16, 0x03, 0x03] hello ++
      segment (CHANGE_CIPHER_SPEC ++ APPLICATION_DATA_PREFIX) data ++ rest ∧
    Signed sha256 key random
      (segment [0x16, 0x03, 0x03] hello ++ segment (CHANGE_CIPHER_SPEC ++ APPLICATION_DATA_PREFIX)
        data)

theorem readGreetingResponse_of_available {arrivals : List Arrival} {hello data rest : List UInt8}
    (hhello : hello.length < 2 ^ 16)
    (hdata : data.length < 2 ^ 16) (h : available arrivals =
      segment [0x16, 0x03, 0x03] hello ++ segment (CHANGE_CIPHER_SPEC ++ APPLICATION_DATA_PREFIX)
        data ++ rest) :
    ∃ arrivals', readGreetingResponse arrivals = (.ok (segment [0x16, 0x03, 0x03] hello ++
      segment (CHANGE_CIPHER_SPEC ++ APPLICATION_DATA_PREFIX) data), arrivals') ∧
        available arrivals' = rest := by
  have hbodies : List.Forall₂ (fun _ body => body.length < 2 ^ 16) GREETING_RESPONSE_PREFIXES
      [hello, data] :=
    .cons hhello (.cons hdata .nil)
  have hsegments : available arrivals = (List.zipWith segment GREETING_RESPONSE_PREFIXES
      [hello, data]).flatten ++ rest := by
    simpa [GREETING_RESPONSE_PREFIXES] using h
  have hread := readSegments_of_available [] hbodies hsegments
  simpa [GREETING_RESPONSE_PREFIXES, readGreetingResponse] using hread

theorem available_of_readGreetingResponse {arrivals arrivals' : List Arrival}
    {response : List UInt8}
    (h : readGreetingResponse arrivals = (.ok response, arrivals')) :
    ∃ hello data : List UInt8, hello.length < 2 ^ 16 ∧ data.length < 2 ^ 16 ∧
      response = segment [0x16, 0x03, 0x03] hello ++
        segment (CHANGE_CIPHER_SPEC ++ APPLICATION_DATA_PREFIX) data ∧
      available arrivals = response ++ available arrivals' := by
  obtain ⟨bodies, hbodies, harrivals, hresponse⟩ := available_of_readSegments h
  obtain ⟨hello, _, hhello, hmore, rfl⟩ := List.forall₂_cons_left_iff.mp hbodies
  obtain ⟨data, _, hdata, hnone, rfl⟩ := List.forall₂_cons_left_iff.mp hmore
  obtain rfl := List.forall₂_nil_left_iff.mp hnone
  have hanswer : response = segment [0x16, 0x03, 0x03] hello ++
      segment (CHANGE_CIPHER_SPEC ++ APPLICATION_DATA_PREFIX) data := by
    simpa [GREETING_RESPONSE_PREFIXES] using hresponse
  refine ⟨hello, data, hhello, hdata, hanswer, ?_⟩
  rw [harrivals, hresponse, List.nil_append]

/-- An answer that is turned down is an `OSError`. -/
theorem osError_of_readSegments {openings : List (List UInt8)} {response : List UInt8}
    {arrivals : List Arrival} {e : Raised}
    (h : (readSegments openings response arrivals).1 = .error e) : ∃ msg, e = .osError msg := by
  induction openings generalizing response arrivals with
  | nil => cases h
  | cons opening openings ih =>
    rw [readSegments] at h
    split at h
    · exact ⟨_, (Except.error.inj h).symm⟩
    · split at h
      · exact ⟨_, (Except.error.inj h).symm⟩
      · split at h
        · exact ⟨_, (Except.error.inj h).symm⟩
        · exact ih h

/-- **The greeting is answered** exactly where what arrives opens with an answer of a proxy that
knows the secret; the answer is all that is read. -/
theorem greetFakeTlsProxy_spec (d : Draws) {domain : Text} {secret : List UInt8}
    {hello : FakeTlsHello}
    (hhello : buildClientHello sha256 d.hello domain secret d.unixTime = .ok hello)
    (arrivals : List Arrival) :
    (greetFakeTlsProxy sha256 d domain secret arrivals).2 = hello.record ∧
    (∀ arrivals', (greetFakeTlsProxy sha256 d domain secret arrivals).1 = .ok arrivals' →
      Answers sha256 secret hello.random (available arrivals) (available arrivals')) ∧
    (∀ rest, Answers sha256 secret hello.random (available arrivals) rest →
      ∃ arrivals', (greetFakeTlsProxy sha256 d domain secret arrivals).1 = .ok arrivals' ∧
        available arrivals' = rest) ∧
    ∀ e, (greetFakeTlsProxy sha256 d domain secret arrivals).1 = .error e →
      ∃ msg, e = .osError msg := by
  rw [greetFakeTlsProxy, hhello]
  dsimp only
  cases hread : readGreetingResponse arrivals with
  | mk result arrivals₁ =>
    cases result with
    | error e =>
      -- no reply in time, so none that answers
      refine ⟨rfl, nofun, ?_, ?_⟩
      · rintro rest ⟨first, second, hfirst, hsecond, harrivals, -⟩
        obtain ⟨arrivals₂, hok, -⟩ := readGreetingResponse_of_available hfirst hsecond harrivals
        cases hread.symm.trans hok
      -- a reply that is cut short, late or of another shape is an `OSError`
      · rintro _ ⟨⟩
        exact osError_of_readSegments (congrArg Prod.fst hread)
    | ok response =>
      obtain ⟨first, second, hfirst, hsecond, hresponse, harrivals⟩ :=
        available_of_readGreetingResponse hread
      dsimp only
      -- a whole reply: the digest in it decides
      by_cases hauthentic : serverHelloIsAuthentic sha256 response secret hello.random = true
      · rw [if_pos hauthentic]
        refine ⟨rfl, ?_, ?_, nofun⟩
        · rintro _ ⟨⟩
          refine ⟨first, second, hfirst, hsecond, ?_, ?_⟩
          · rw [harrivals, hresponse]
          · rw [← hresponse]
            exact (serverHelloIsAuthentic_iff ..).mp hauthentic
        · rintro rest ⟨first', second', hfirst', hsecond', harrivals', -⟩
          obtain ⟨arrivals₂, hok, hrest⟩ :=
            readGreetingResponse_of_available hfirst' hsecond' harrivals'
          obtain ⟨-, rfl⟩ := Prod.mk.inj (hread.symm.trans hok)
          exact ⟨_, rfl, hrest⟩
      · rw [if_neg hauthentic]
        refine ⟨rfl, nofun, ?_, ?_⟩
        · rintro rest ⟨first', second', hfirst', hsecond', harrivals', hsigned⟩
          obtain ⟨arrivals₂, hok, -⟩ :=
            readGreetingResponse_of_available hfirst' hsecond' harrivals'
          obtain ⟨hsame, -⟩ := Prod.mk.inj (hread.symm.trans hok)
          rw [Except.ok.inj hsame] at hauthentic
          exact absurd ((serverHelloIsAuthentic_iff ..).mpr hsigned) hauthentic
        · rintro _ ⟨⟩
          exact ⟨_, rfl⟩

/-- The domain of a secret, as the greeting takes it. -/
def greetingDomain (domain : Proxies.Domain) : FakeTls.Domain where
  text := Utf8.decodeAscii domain.val
  bytes := domain.val
  encoded := Utf8.encodeAscii_decodeAscii domain.property.2
  length := domain.property.1

/-- A proxy is connected to as soon as its header is built. -/
theorem connectViaMtproxy_eq (d : Draws) (σ : Secret) {h : Header} (arrivals : List Arrival)
    (hbuilt : buildObfuscated2Header cipher (fun bs => (sha256 bs).val) d.nonce σ.key dcId
      (obfuscateTag σ) = .ok h) :
    connectViaMtproxy cipher sha256 d (proxyOf hostname port σ) (transportClass σ) (some dcId)
      arrivals =
      match σ.sniHostname with
      | none => (.ok ⟨.bare arrivals, h.encrypt, h.decrypt⟩, h.header.val)
      | some domain =>
          match greetFakeTlsProxy sha256 d domain σ.key arrivals with
          | (.error e, written) => (.error e, written)
          | (.ok arrivals, written) =>
              (.ok ⟨.records { prologue := h.header.val, arrivals }, h.encrypt, h.decrypt⟩,
                written) := by
  rw [connectViaMtproxy, show (proxyOf hostname port σ).secret = σ.kept from rfl,
    obfuscated2Secret_proxyOf]
  dsimp only
  rw [obfuscateTag_transportClass, Option.getD_some, Option.getD_some, hbuilt]
  rfl

theorem length_key (σ : Secret) : σ.key.length = Obfuscated2.secretSize := by
  cases σ with
  | plain k => exact k.property
  | padded k => exact k.property
  | fakeTls k domain => exact k.property

theorem length_obfuscateTag (σ : Secret) : (obfuscateTag σ).length = obfuscateTagSize := by
  cases σ <;> rfl

/-- **To a proxy that does not know the secret nothing but the greeting is written.**  Whatever
arrives, the greeting is written first, and the connection is made exactly where the answer is
authentic; the header that is built waits for the first packet.  Any other answer is an
`OSError`. -/
theorem connect_iff (d : Draws) (k : Key) (domain : Proxies.Domain) (arrivals : List Arrival)
    (hdc : -2 ^ 15 ≤ dcId ∧ dcId < 2 ^ 15) :
    ∃ hello h, buildClientHello sha256 d.hello (greetingDomain domain).text k.val d.unixTime =
      .ok hello ∧
      buildObfuscated2Header cipher (fun bs => (sha256 bs).val) d.nonce k.val dcId
        (obfuscateTag (.fakeTls k domain)) = .ok h ∧
      let result := connectViaMtproxy cipher sha256 d (proxyOf hostname port (.fakeTls k domain))
        .intermediatePadded
        (some dcId) arrivals
      result.2 = hello.record ∧
      ((∃ c, result.1 = .ok c) ↔
        ∃ rest, Answers sha256 k.val hello.random (available arrivals) rest) ∧
      (∀ c, result.1 = .ok c →
        ∃ left, c = ⟨.records { prologue := h.header.val, arrivals := left }, h.encrypt,
        h.decrypt⟩ ∧
        Answers sha256 k.val hello.random (available arrivals) (available left)) ∧
      ∀ e, result.1 = .error e → ∃ msg, e = .osError msg := by
  obtain ⟨hello, hhello, -⟩ := exists_isGreeting sha256 d.hello (greetingDomain domain) k.val
    d.unixTime
  obtain ⟨h, hbuilt, -⟩ :=
    exists_opens cipher (fun bs => (sha256 bs).val) d.nonce (length_key (.fakeTls k domain))
    (length_obfuscateTag (.fakeTls k domain)) hdc
  obtain ⟨hwritten, hok, hanswers, herror⟩ := greetFakeTlsProxy_spec sha256 d hhello arrivals
  refine ⟨hello, h, hhello, hbuilt, ?_⟩
  have heq := connectViaMtproxy_eq cipher sha256 hostname port d (.fakeTls k domain) arrivals hbuilt
  dsimp only [transportClass, Secret.sniHostname, Secret.key] at heq
  rw [heq]
  -- the greeting names the domain of the secret
  have htext : (greetingDomain domain).text = Utf8.decodeAscii domain.val := rfl
  rw [htext] at hwritten hok hanswers herror
  cases hgreet : greetFakeTlsProxy sha256 d (Utf8.decodeAscii domain.val) k.val arrivals with
  | mk result written =>
    rw [hgreet] at hwritten hok hanswers herror
    cases result with
    -- the greeting fails, and with it the connection
    | error e =>
      refine ⟨hwritten, ⟨nofun, ?_⟩, nofun, ?_⟩
      · rintro ⟨rest, hrest⟩
        obtain ⟨_, hnot, -⟩ := hanswers rest hrest
        cases hnot
      · rintro _ ⟨⟩
        exact herror e rfl
    -- the header is not sent yet: it stands before the first record
    | ok arrivals₁ =>
      have hanswer := hok arrivals₁ rfl
      refine ⟨hwritten, ⟨fun _ => ⟨_, hanswer⟩, fun _ => ⟨_, rfl⟩⟩, ?_, nofun⟩
      rintro _ ⟨⟩
      exact ⟨_, rfl, hanswer⟩

end

/-- Draws of zeros. -/
def zeroDraws : Draws :=
  ⟨⟨List.replicate 64 0, rfl⟩, ⟨⟨144, by decide⟩, ⟨List.replicate 7 0, rfl⟩, fun _ => zeroDraw⟩, 0⟩

/-- A domain of one letter. -/
def shortDomain : Proxies.Domain :=
  ⟨[0x61], ⟨Nat.le_refl 1, by decide⟩, List.forall_mem_singleton.mpr (by decide)⟩

/-- A hash of zeros. -/
def zeroHash : Sha256 := fun _ => ⟨List.replicate 32 0, rfl⟩

/-- A proxy that says nothing. -/
theorem connect_iff_silent : ∃ hello, buildClientHello zeroHash zeroDraws.hello
      (greetingDomain shortDomain).text zeroKey.val zeroDraws.unixTime = .ok hello ∧
    ∃ msg, connectViaMtproxy (fun _ => id) zeroHash zeroDraws
      (proxyOf (text "h") 443 (.fakeTls zeroKey shortDomain)) .intermediatePadded (some 2)
      [.timedOut] =
        (.error (.osError msg), hello.record) := by
  obtain ⟨hello, -, hhello, -, hwritten, hiff, -, herror⟩ :=
    @connect_iff (fun _ => id) zeroHash (text "h") 443 2 zeroDraws zeroKey shortDomain [.timedOut]
    (by decide)
  refine ⟨hello, hhello, ?_⟩
  cases hresult : (connectViaMtproxy (fun _ => id) zeroHash zeroDraws
      (proxyOf (text "h") 443 (.fakeTls zeroKey shortDomain)) .intermediatePadded (some 2)
      [.timedOut]).1 with
  | error e =>
    obtain ⟨msg, rfl⟩ := herror e hresult
    exact ⟨msg, Prod.ext hresult hwritten⟩
  | ok c =>
    obtain ⟨rest, first, second, -, -, harrivals, -⟩ := hiff.mp ⟨c, hresult⟩
    have hnil := congrArg List.length harrivals
    simp [available, segment] at hnil

/-! ### Both directions -/

/-- A frame that is sent, or a packet that is received. -/
inductive Op
  | send (frame : List UInt8)
  | recv
  deriving DecidableEq, Repr

/-- The frames that are sent. -/
def sent : List Op → List (List UInt8)
  | [] => []
  | .send frame :: ops => frame :: sent ops
  | .recv :: ops => sent ops

/-- How many packets are received. -/
def received : List Op → ℕ
  | [] => 0
  | .send _ :: ops => received ops
  | .recv :: ops => received ops + 1

section Run

variable (cipher : Aes.BlockFunction)

/-- What is written, and what is received; `none` where something is raised. -/
def run (framing : Framing) : List Op → Connected → Option (List UInt8 × List (Option (List UInt8)))
  | [], _ => some ([], [])
  | .send frame :: ops, c =>
      match c.send cipher frame with
      | (.ok wire, c) => (run framing ops c).map fun (wires, packets) => (wire ++ wires, packets)
      | (.error _, _) => none
  | .recv :: ops, c =>
      match framing.recvOver (Connected.reader cipher) c with
      | (.ok packet, c) =>
          (run framing ops c).map fun (wires, packets) => (wires, packet :: packets)
      | (.error _, _) => none

/-- Several calls of `send`. -/
def Connected.sendAll : Connected → List (List UInt8) → Except Exc (List UInt8)
  | _, [] => .ok []
  | c, frame :: frames => do
      let wire ← (c.send cipher frame).1
      let wires ← sendAll (c.send cipher frame).2 frames
      return wire ++ wires

/-- The frames, encrypted one after the other. -/
def encrypted : CipherArgs → List (List UInt8) → List (List UInt8)
  | _, [] => []
  | a, frame :: frames => (a.crypt cipher frame).1 :: encrypted (a.crypt cipher frame).2 frames

theorem flatten_encrypted (a : CipherArgs) (frames : List (List UInt8)) :
    (encrypted cipher a frames).flatten = (argsKeystream cipher).apply a frames.flatten := by
  induction frames generalizing a with
  | nil => rfl
  | cons frame frames ih =>
    rw [encrypted, List.flatten_cons, List.flatten_cons, ih, crypt_eq_argsKeystream,
      Keystream.apply_append]

/-- What a socket gets of the frames. -/
theorem sendAll_bare {c : Connected} {arrivals : List Arrival} (hc : c.stream = .bare arrivals)
    (frames : List (List UInt8)) :
    c.sendAll cipher frames = .ok ((argsKeystream cipher).apply c.encrypt frames.flatten) := by
  induction frames generalizing c with
  | nil => rfl
  | cons frame frames ih =>
    have hsend : c.send cipher frame = (.ok (c.encrypt.crypt cipher frame).1, { c with
          encrypt := (c.encrypt.crypt cipher frame).2 }) := by
      rw [Connected.send, hc]
    have hrest := ih (c := { c with encrypt := (c.encrypt.crypt cipher frame).2 }) hc
    rw [Connected.sendAll, hsend, Except.bind_ok]
    dsimp only
    rw [hrest, crypt_eq_argsKeystream, List.flatten_cons, Keystream.apply_append]
    rfl

/-- What records get of the frames: all of them are cut into records. -/
theorem sendAll_records {c : Connected} {r : FakeTlsRecords} (hc : c.stream = .records r)
    (frames : List (List UInt8)) :
    c.sendAll cipher frames = r.wrapAll (encrypted cipher c.encrypt frames) := by
  induction frames generalizing c r with
  | nil => rfl
  | cons frame frames ih =>
    have hsend : c.send cipher frame = ((r.wrap (c.encrypt.crypt cipher frame).1).1,
        { c with
          encrypt := (c.encrypt.crypt cipher frame).2
          stream := .records (r.wrap (c.encrypt.crypt cipher frame).1).2 }) := by
      rw [Connected.send, hc]
    rw [Connected.sendAll, hsend, encrypted, FakeTlsRecords.wrapAll]
    dsimp only
    rw [ih rfl]
    rfl

/-- The records that are written hold the prologue, and then what is sent. -/
theorem exists_written {r : FakeTlsRecords} (hfirst : r.sentChangeCipherSpec = false)
    {datas : List (List UInt8)}
    (hdatas : datas ≠ []) :
    ∃ written : List (List UInt8), r.wrapAll datas =
      .ok (CHANGE_CIPHER_SPEC ++ written.flatMap record) ∧
      (∀ payload ∈ written, payload.length ≤ MAX_RECORD_PAYLOAD) ∧
        written.flatten = r.prologue ++ datas.flatten := by
  cases datas with
  | nil => exact absurd rfl hdatas
  | cons data datas =>
    have hflatten : (datas.flatMap chunks).flatten = datas.flatten := by
      induction datas with
      | nil => rfl
      | cons data datas ih =>
          rw [List.flatMap_cons, List.flatten_append, flatten_chunks, ih (by simp),
          List.flatten_cons]
    refine ⟨chunks (r.prologue ++ data) ++ datas.flatMap chunks, ?_, ?_, ?_⟩
    · rw [wrapAll, wrap_eq, Except.bind_ok, hfirst]
      refine (congrArg (· >>= _) (wrapAll_eq (r := r) datas)).trans ?_
      rw [Except.bind_ok, List.flatMap_append, ← List.append_assoc]
      rfl
    · intro payload hpayload
      rcases List.mem_append.mp hpayload with h | h
      · exact length_le_of_mem_chunks h
      · obtain ⟨data', -, h⟩ := List.mem_flatMap.mp h
        exact length_le_of_mem_chunks h
    · rw [List.flatten_append, flatten_chunks, hflatten, List.flatten_cons, List.append_assoc]

/-- What sending depends on. -/
def Connected.sender (c : Connected) : CipherArgs × Option (List UInt8 × Bool) :=
  (c.encrypt, match c.stream with
    | .bare _ => none
    | .records r => some (r.prologue, r.sentChangeCipherSpec))

theorem wrapAll_congr {r r' : FakeTlsRecords}
    (h : (r.prologue, r.sentChangeCipherSpec) = (r'.prologue, r'.sentChangeCipherSpec))
    (datas : List (List UInt8)) :
    r.wrapAll datas = r'.wrapAll datas := by
  obtain ⟨hprologue, hsent⟩ := Prod.mk.inj h
  induction datas generalizing r r' with
  | nil => rfl
  | cons data datas ih =>
    have hrest : wrapAll (r.wrap data).2 datas = wrapAll (r'.wrap data).2 datas := ih rfl rfl rfl
    rw [wrapAll, wrapAll, hrest, wrap_eq, wrap_eq, hprologue, hsent]

theorem sendAll_congr {c c' : Connected} (h : c.sender = c'.sender) (frames : List (List UInt8)) :
    c.sendAll cipher frames = c'.sendAll cipher frames := by
  obtain ⟨hencrypt, hstream⟩ := Prod.mk.inj h
  cases hc : c.stream with
  | bare arrivals =>
    cases hc' : c'.stream with
    | bare arrivals' => rw [sendAll_bare cipher hc, sendAll_bare cipher hc', hencrypt]
    | records r' =>
      rw [hc, hc'] at hstream
      cases hstream
  | records r =>
    cases hc' : c'.stream with
    | bare arrivals' =>
      rw [hc, hc'] at hstream
      cases hstream
    | records r' =>
      rw [hc, hc'] at hstream
      rw [sendAll_records cipher hc, sendAll_records cipher hc', hencrypt]
      exact wrapAll_congr (Option.some.inj hstream) _

theorem keeps_sender (length : ℤ) :
    ByteReader.Keeps Connected.sender ((Connected.reader cipher).read length) := by
  intro c
  have hstream : ∀ s : Stream, (match (Stream.reader.read length s).2 with
        | .bare _ => none
        | .records r => some (r.prologue, r.sentChangeCipherSpec)) =
      (match s with
        | .bare _ => none
        | .records r => some (r.prologue, r.sentChangeCipherSpec)) := by
    intro s
    cases s with
    | bare arrivals => rfl
    | records r => exact congrArg some (keeps_reader length r)
  have h := hstream c.stream
  dsimp only [Connected.reader]
  cases hread : Stream.reader.read length c.stream with
  | mk result stream =>
    rw [hread] at h
    cases result with
    | error e => exact Prod.ext rfl h
    | ok data => cases data <;> exact Prod.ext rfl h

/-- Sending leaves what is received alone. -/
theorem holds_send {c : Connected} {plain : List UInt8}
    (h : (Connected.reader cipher).Holds c plain) (frame : List UInt8) :
    (Connected.reader cipher).Holds (c.send cipher frame).2 plain := by
  cases hc : c.stream with
  | bare arrivals =>
    have hsend : (c.send cipher frame).2 = { c with
          encrypt := (c.encrypt.crypt cipher frame).2 } := by
      rw [Connected.send, hc]
    rw [hsend]
    exact h
  | records r =>
    have hsend : (c.send cipher frame).2 =
        { c with
          encrypt := (c.encrypt.crypt cipher frame).2
          stream := .records (r.wrap (c.encrypt.crypt cipher frame).1).2 } := by
      rw [Connected.send, hc]
    rw [hsend]
    change Stream.reader.Holds c.stream _ at h
    rw [hc] at h
    exact h

/-- **Sending and receiving do not disturb each other**: in whatever order frames are sent and
packets received, the frames are written one after the other, and the packets are those that
arrive. -/
theorem run_eq {framing : Framing} {ops : List Op} {c : Connected} {frames : List (List UInt8)}
    {datas : List (List UInt8)}
    {later wire : List UInt8}
    (hframes : List.Forall₂ (fun frame data =>
      (Connected.reader cipher).Reads (framing.recvOver (Connected.reader cipher)) frame data)
      frames datas)
    (hops : received ops = datas.length)
    (h : (Connected.reader cipher).Holds c (frames.flatten ++ later))
    (hwire : c.sendAll cipher (sent ops) = .ok wire) :
    run cipher framing ops c = some (wire, datas.map some) := by
  -- on what is done: sending keeps what is to be read, receiving reads one frame of it
  induction ops generalizing c frames datas wire with
  | nil =>
    obtain rfl := List.length_eq_zero_iff.mp hops.symm
    obtain rfl := Except.ok.inj hwire
    rfl
  | cons op ops ih =>
    cases op with
    | send frame =>
      rw [sent, Connected.sendAll] at hwire
      obtain ⟨first, hfirst, hwire⟩ := Except.bind_eq_ok.mp hwire
      obtain ⟨wires, hrest, hwire⟩ := Except.bind_eq_ok.mp hwire
      obtain rfl := Except.ok.inj hwire
      have hrun := ih hframes hops (holds_send cipher h frame) hrest
      have hsend : c.send cipher frame = (.ok first, (c.send cipher frame).2) := Prod.ext hfirst rfl
      rw [run, hsend]
      dsimp only
      rw [hrun]
      rfl
    | recv =>
      cases hframes with
      | nil => cases hops
      | @cons frame data frames datas hframe hframes =>
        rw [List.flatten_cons, List.append_assoc] at h
        obtain ⟨c', hrecv, h'⟩ := hframe h
        -- receiving leaves the sending side alone, so the rest of the wire is still the same
        have hsender : c'.sender = c.sender := by
          have hkeeps := framing.keeps_recvOver (keeps_sender cipher) c
          rwa [hrecv] at hkeeps
        rw [sent, ← sendAll_congr cipher hsender] at hwire
        have hrun := ih hframes (Nat.succ.inj hops) h' hwire
        rw [run, hrecv]
        dsimp only
        rw [hrun]
        rfl

end Run

/-! ### The whole connection -/

section Tunnel

variable (cipher : Aes.BlockFunction) (sha256 : Sha256)

/-- The stream that a proxy sends, as it arrives: behind an authentic answer, and in records of any
sizes, where there is a greeting. -/
def Arrives (d : Draws) (σ : Secret) (arrivals : List Arrival) (stream : List UInt8) : Prop :=
  match σ with
  | .plain _ | .padded _ => available arrivals = stream
  | .fakeTls k domain =>
      ∃ (hello : FakeTlsHello) (payloads : List (List UInt8)) (rest : List UInt8),
      buildClientHello sha256 d.hello (greetingDomain domain).text k.val d.unixTime = .ok hello ∧
      Answers sha256 k.val hello.random (available arrivals) (payloads.flatMap record ++ rest) ∧
      (∀ payload ∈ payloads, payload.length < 2 ^ 16) ∧ payloads.flatten = stream

/-- The stream that a proxy finds in the bytes that are written to it. -/
def Finds (d : Draws) (σ : Secret) (wire stream : List UInt8) : Prop :=
  match σ with
  | .plain _ | .padded _ => wire = stream
  | .fakeTls k domain => ∃ (hello : FakeTlsHello) (payloads : List (List UInt8)),
      buildClientHello sha256 d.hello (greetingDomain domain).text k.val d.unixTime = .ok hello ∧
      wire = hello.record ++ (CHANGE_CIPHER_SPEC ++ payloads.flatMap record) ∧
      (∀ payload ∈ payloads, payload.length ≤ MAX_RECORD_PAYLOAD) ∧ payloads.flatten = stream

/-- A proxy that is connected to, and how far both sides are. -/
theorem connect_of_arrives (d : Draws) (hostname : Text) (port : ℤ) (dcId : ℤ) (σ : Secret)
    {h : Header}
    (hbuilt : buildObfuscated2Header cipher (fun bs => (sha256 bs).val) d.nonce σ.key dcId
      (obfuscateTag σ) = .ok h)
    {arrivals : List Arrival} {plain : List UInt8}
    (harrives : Arrives sha256 d σ arrivals ((argsKeystream cipher).apply h.decrypt plain)) :
    ∃ c written, connectViaMtproxy cipher sha256 d (proxyOf hostname port σ) (transportClass σ)
      (some dcId) arrivals =
        (.ok c, written) ∧ (Connected.reader cipher).Holds c plain ∧
      ∀ frames : List (List UInt8), frames ≠ [] → ∃ wire, c.sendAll cipher frames = .ok wire ∧
        Finds sha256 d σ (written ++ wire) (h.header.val ++ (argsKeystream cipher).apply h.encrypt
          frames.flatten) := by
  have hconnect := connectViaMtproxy_eq cipher sha256 hostname port d σ arrivals hbuilt
  have hbare : ∀ frames, (⟨.bare arrivals, h.encrypt, h.decrypt⟩ : Connected).sendAll cipher
    frames =
      .ok ((argsKeystream cipher).apply h.encrypt frames.flatten) := sendAll_bare cipher rfl
  -- a bare connection is the stream itself; only the third kind is greeted first
  cases σ with
  | plain k => exact ⟨_, _, hconnect, harrives, fun frames _ => ⟨_, hbare frames, rfl⟩⟩
  | padded k => exact ⟨_, _, hconnect, harrives, fun frames _ => ⟨_, hbare frames, rfl⟩⟩
  | fakeTls k domain =>
    obtain ⟨hello, payloads, rest, hhello, hanswers, hpayloads, hstream⟩ := harrives
    obtain ⟨hwritten, -, hgreets, -⟩ := greetFakeTlsProxy_spec sha256 d hhello arrivals
    obtain ⟨arrivals', hgreet, hrest⟩ := hgreets _ hanswers
    have hpair : greetFakeTlsProxy sha256 d (greetingDomain domain).text k.val arrivals =
        (.ok arrivals', hello.record) :=
      Prod.ext hgreet hwritten
    dsimp only [Secret.sniHostname, Secret.key] at hconnect
    rw [show Utf8.decodeAscii domain.val = (greetingDomain domain).text from rfl, hpair] at hconnect
    -- the records of the reply carry the stream of the proxy
    refine ⟨_, _, hconnect, ⟨payloads, rest, hpayloads, hrest, ?_⟩, ?_⟩
    · rw [List.nil_append, hstream]
    -- the first write is wrapped with the header before it
    · intro frames hframes
      have hne : encrypted cipher h.encrypt frames ≠ [] := by
        cases frames with
        | nil => exact absurd rfl hframes
        | cons frame frames => exact List.cons_ne_nil _ _
      obtain ⟨written, hwrap, hbound, hflatten⟩ :=
        exists_written (r := { prologue := h.header.val, arrivals := arrivals' }) rfl hne
      refine ⟨_, (sendAll_records cipher rfl frames).trans hwrap, hello, written, hhello, rfl,
        hbound, ?_⟩
      rw [hflatten, flatten_encrypted]

/-- **What is sent through an MTProxy is received**, in both directions and in any order of sending
and receiving.  The proxy reads the tag and the data center in the header, and then the packets that
were sent; what it sends arrives, in pieces of whatever size, and in records of whatever size. -/
theorem tunnel_carries (d : Draws) (hostname : Text) (port dcId : ℤ) (σ : Secret)
    (hdc : -2 ^ 15 ≤ dcId ∧ dcId < 2 ^ 15) :
    ∃ header : Buffer,
      let peer := Peer.accept cipher (fun bs => (sha256 bs).val) σ.key header
      peer.tag = obfuscateTag σ ∧ peer.dcId = dcId ∧
      ∀ (down : List Framing.Packet) (downFrames : List (List UInt8)) (later : List UInt8)
        (arrivals : List Arrival),
        (framing σ).sendAll 0 down = some downFrames →
          (∀ packet ∈ down, (framing σ).Carries packet) →
        Arrives sha256 d σ arrivals
          ((argsKeystream cipher).apply peer.send (downFrames.flatten ++ later)) →
        ∃ c written, connectViaMtproxy cipher sha256 d (proxyOf hostname port σ) (transportClass σ)
          (some dcId) arrivals =
            (.ok c, written) ∧
          ∀ (ops : List Op) (up : List Framing.Packet),
            (framing σ).sendAll 0 up = some (sent ops) →
              (∀ packet ∈ up, (framing σ).Carries packet) →
            received ops = down.length →
            ∃ wire, run cipher (framing σ) ops c =
              some (wire, down.map fun packet => some packet.data) ∧
              (up ≠ [] → ∃ stream, Finds sha256 d σ (written ++ wire) (header.val ++ stream) ∧
                (ByteReader.times
                  ((framing σ).recvOver ((ByteReader.list Text).decrypted (argsKeystream cipher)))
                  up.length
                  (stream, peer.receive)).1 =
                    .ok (some (up.map fun packet => some packet.data))) := by
  obtain ⟨h, hbuilt, hopens⟩ :=
    exists_opens cipher (fun bs => (sha256 bs).val) d.nonce (length_key σ)
    (length_obfuscateTag σ) hdc
  refine ⟨h.header, hopens.tag, hopens.dcId, ?_⟩
  intro down downFrames later arrivals hdown hcarries harrives
  rw [hopens.send] at harrives
  obtain ⟨c, written, hconnect, hholds, hsendAll⟩ :=
    connect_of_arrives cipher sha256 d hostname port dcId σ hbuilt harrives
  refine ⟨c, written, hconnect, ?_⟩
  intro ops up hup hupCarries hreceived
  -- every frame of the proxy's is read back as its packet, whatever follows it
  have hframes := Framing.forall₂_reads (R := Connected.reader cipher) hdown hcarries
  have hcount : received ops = (down.map (·.data)).length :=
    hreceived.trans (List.length_map _).symm
  have hdatas : (down.map (·.data)).map some = down.map fun packet => some packet.data :=
    List.map_map
  -- without a frame sent no record leaves, and the header waits for the first
  cases hempty : sent ops with
  | nil =>
    have hnone : c.sendAll cipher (sent ops) = .ok [] := by
      rw [hempty]
      rfl
    refine ⟨[], (run_eq cipher hframes hcount hholds hnone).trans (by rw [hdatas]), ?_⟩
    intro hne
    cases up with
    | nil => exact absurd rfl hne
    | cons packet packets =>
      rw [hempty, Framing.sendAll] at hup
      obtain ⟨frame, -, hup⟩ := Option.bind_eq_some_iff.mp hup
      obtain ⟨frames, -, hup⟩ := Option.bind_eq_some_iff.mp hup
      cases hup
  -- the first frame's record begins with the header
  | cons frame frames =>
    obtain ⟨wire, hwire, hfinds⟩ := hsendAll (sent ops) (by rw [hempty]; exact List.cons_ne_nil _ _)
    refine ⟨wire, (run_eq cipher hframes hcount hholds hwire).trans (by rw [hdatas]), ?_⟩
    intro _
    refine ⟨_, hfinds, ?_⟩
    -- the proxy reads them off what it finds, as the client reads off what arrives
    have hread := Framing.reads_sendAll
      (R := (ByteReader.list Text).decrypted (argsKeystream cipher)) hup hupCarries
    obtain ⟨_, htimes, -⟩ :=
      @hread ((argsKeystream cipher).apply h.encrypt (sent ops).flatten, h.encrypt) []
      (congrArg ((argsKeystream cipher).apply h.encrypt) (List.append_nil _).symm)
    rw [hopens.receive, htimes]

end Tunnel

/-- One packet in each direction. -/
theorem tunnel_carries_plain : ∃ (arrivals : List Arrival) (c : Connected)
    (written wire : List UInt8),
    connectViaMtproxy (fun _ => id) zeroHash zeroDraws
      (proxyOf (text "h") 443 (.plain zeroKey)) .abridged (some 2) arrivals = (.ok c, written) ∧
    run (fun _ => id) .abridged [.send [1, 1, 2, 3, 4], .recv] c =
      some (wire, [some [5, 6, 7, 8]]) := by
  obtain ⟨header, -, -, hcarries⟩ := tunnel_carries (fun _ => id) zeroHash zeroDraws
    (text "h") 443 2 (.plain zeroKey) (by decide)
  generalize Peer.accept (fun _ => id) _ (Secret.plain zeroKey).key header = peer at hcarries
  obtain ⟨c, written, hconnect, hrun⟩ := hcarries [⟨[5, 6, 7, 8], []⟩] [[1, 5, 6, 7, 8]] [] [.chunk
    ((argsKeystream fun _ => id).apply peer.send [1, 5, 6, 7, 8])] (by decide)
      (by rintro _ (_ | ⟨_, ⟨⟩⟩); exact Nat.dvd_refl 4) (List.append_nil _)
  obtain ⟨wire, hwire, -⟩ := hrun [.send [1, 1, 2, 3, 4], .recv] [⟨[1, 2, 3, 4], []⟩] (by decide)
    (by rintro _ (_ | ⟨_, ⟨⟩⟩); exact Nat.dvd_refl 4) rfl
  exact ⟨_, c, written, wire, hconnect, hwire⟩

end Pyrogram.MtProxy
