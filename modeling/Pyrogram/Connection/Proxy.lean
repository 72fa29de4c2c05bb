import Pyrogram.Base64
import Pyrogram.Errors
import Pyrogram.Hex
import Pyrogram.Utf8
import Mathlib.Data.List.DropRight

/-!
# Proxy secrets

`proxy.py` reads the secret of a proxy from its spelling and checks its shape,
`connection.py` chooses the framing for it, and `tcp.py` takes the key out of it.

## Main definitions

* `normalizeProxy` — what a client is given becomes a proxy.
* `transportClassFor`, `obfuscated2Secret` — the framing and the key.
* `Secret`, `Spelling` — the three kinds of secrets, and the ways to write them.

## Main results

* `secret_agrees` — **the key and the framing are those of the secret**, and every other
  byte string is turned down.
-/

namespace Pyrogram.Proxies

abbrev Text := List Utf8.CodePoint

def text (s : String) : Text := s.toList.map .char

/-! ### Proxies -/

inductive ProxyScheme
  | socks4
  | socks5
  | http
  | mtproxy
  | web
  deriving DecidableEq, Repr

def ProxyScheme.value : ProxyScheme → String
  | socks4 => "socks4"
  | socks5 => "socks5"
  | http => "http"
  | mtproxy => "mtproxy"
  | web => "web"

/-- A proxy that `python_socks` dials. -/
structure DialedProxy where
  hostname : Text
  port : ℤ
  username : Option Text := none
  password : Option Text := none
  deriving DecidableEq, Repr

structure MTProxy where
  hostname : Text
  port : ℤ
  /-- Decoded, with the dd marker. -/
  secret : List UInt8
  sniHostname : Option Text := none
  deriving DecidableEq, Repr

structure WebProxy where
  hostname : Text
  /-- Decoded, with the dd marker. -/
  secret : List UInt8
  deriving DecidableEq, Repr

inductive Proxy
  | socks4 (p : DialedProxy)
  | socks5 (p : DialedProxy)
  | http (p : DialedProxy)
  | mtproxy (p : MTProxy)
  | web (p : WebProxy)
  deriving DecidableEq, Repr

/-- `OBFUSCATED2_SECRET_SIZE` -/
def secretSize : ℕ := 16

/-- `MARKED_SECRET_SIZE` -/
def markedSecretSize : ℕ := secretSize + 1

def usesRandomPadding : Option Proxy → Bool
  | some (.mtproxy p) => p.sniHostname.isSome || p.secret.length = markedSecretSize
  | some (.web p) => p.secret.length = markedSecretSize
  | _ => false

/-! ### Secrets -/

/-- What `proxy.py` uses of the standard library. -/
structure Library where
  repr : Text → String
  lower : Text → Text
  strip : Text → Text
  int : Text → Except Exc ℤ
  /-- `ipaddress.ip_address` accepts it. -/
  isIpAddress : Text → Bool
  /-- `encode("idna").decode("ascii")` -/
  idna : Text → Option Text

/-- `_PADDED_MARKER` -/
def paddedMarker : UInt8 := 0xdd

/-- `_FAKE_TLS_MARKER` -/
def fakeTlsMarker : UInt8 := 0xee

/-- `_MAX_SNI_DOMAIN_SIZE` -/
def maxSniDomainSize : ℕ := 182

/-- `_WEB_FAKE_TLS_REJECTION` -/
def webFakeTlsRejection : String :=
  "proxy secret uses TLS-emulation ('ee') framing: the relay would need to add the " ++
  "inner fake-TLS record stock MTProxy expects, and it deliberately does not " ++
  "(web-proxy-plan.md §3). Use a plain 16-byte or dd-prefixed secret instead."

/-- `_DecodedSecret` -/
structure DecodedSecret where
  secret : List UInt8
  sniHostname : Option Text
  deriving DecidableEq, Repr

/-- `domain.decode("ascii")` -/
def decodeAscii (bs : List UInt8) : Except String Text :=
  match bs.findIdx? (128 ≤ ·) with
  | some i => .error s!"'ascii' codec can't decode byte 0x{Hex.lower (bs.getD i 0)} in position {i}: ordinal not in range(128)"
  | none => .ok (Utf8.decodeAscii bs)

def decodeFakeTlsSecret (fullSecret : List UInt8) : Except Exc DecodedSecret :=
  let domain := fullSecret.drop markedSecretSize
  if domain.length > maxSniDomainSize then
    .error (.valueError
      s!"ee-prefixed proxy secret carries a {domain.length}-byte SNI domain, over the {maxSniDomainSize}-byte maximum")
  else
    match decodeAscii domain with
    | .error e => .error (.valueError
        s!"ee-prefixed proxy secret carries a non-ASCII SNI domain: {e}")
    | .ok sniHostname => .ok ⟨fullSecret.extract 1 markedSecretSize, some sniHostname⟩

/-- `_base64_decoded(encoded_secret, altchars=b"-_")` -/
def base64Decoded (encodedSecret : Text) : Option (List UInt8) := do
  let padded ← Utf8.encodeAscii
    (encodedSecret ++ Utf8.decodeAscii (Base64.padding encodedSecret.length))
  Base64.a2bStrict (padded.map Base64.ofUrl)

/-- `bytes.fromhex(encoded_secret)` -/
def fromhex (encodedSecret : Text) : Option (List UInt8) := do
  Hex.decode (← Utf8.encodeAscii encodedSecret)

section

variable (lib : Library)

def decodeProxySecret (encodedSecret : Text) : Except Exc (List UInt8) :=
  match fromhex encodedSecret with
  | some bs => .ok bs
  | none =>
      match base64Decoded encodedSecret with
      | some decoded => .ok decoded
      | none => .error (.valueError ("proxy 'secret' must be hex, base64url or base64: " ++
          lib.repr encodedSecret))

/-- The length decides first. -/
def decodeMtproxySecret (encodedSecret : Text) (scheme : ProxyScheme) :
    Except Exc DecodedSecret := do
  let fullSecret ← decodeProxySecret lib encodedSecret
  if fullSecret.length = secretSize then return ⟨fullSecret, none⟩
  else if fullSecret.length = markedSecretSize ∧
    fullSecret.head? = some paddedMarker then return ⟨fullSecret, none⟩
  else if fullSecret.length > markedSecretSize ∧ fullSecret.head? = some fakeTlsMarker then
    if scheme = .web then throw (.valueError webFakeTlsRejection)
    else decodeFakeTlsSecret fullSecret
  else throw (.valueError
    s!"proxy secret must decode to 16 bytes (plain), 17 with a dd marker, or an ee marker followed by a 16-byte key and a domain, got {fullSecret.length} bytes")

/-! ### Building proxies -/

def canonicalizeWebHostname (hostname : Text) : Except Exc Text :=
  let hostname := (lib.strip hostname).rdropWhile (· = .char '.')
  if hostname = [] then .error (.valueError "WEB proxy hostname is empty")
  else if lib.isIpAddress hostname then
    .error (.valueError ("WEB proxy hostname must not be an IP literal: " ++ lib.repr hostname))
  else
    match lib.idna hostname with
    | none => .error (.valueError ("WEB proxy hostname is not a valid DNS name: " ++
        lib.repr hostname))
    | some canonical =>
        if .char '.' ∉ lib.lower canonical then
          .error (.valueError ("WEB proxy hostname must not be a single-label name: " ++
            lib.repr hostname))
        else .ok (lib.lower canonical)

/-- A port, as a number or as text. -/
abbrev Port := ℤ ⊕ Text

/-- `int(port)` -/
def intOf : Port → Except Exc ℤ
  | .inl n => .ok n
  | .inr s => lib.int s

def buildWebProxy (hostname encodedSecret : Text) : Except Exc WebProxy := do
  let decoded ← decodeMtproxySecret lib encodedSecret .web
  return ⟨← canonicalizeWebHostname lib hostname, decoded.secret⟩

def buildMtproxy (hostname : Text) (port : Port) (encodedSecret : Text) : Except Exc MTProxy := do
  let decoded ← decodeMtproxySecret lib encodedSecret .mtproxy
  return ⟨hostname, ← intOf lib port, decoded.secret, decoded.sniHostname⟩

/-- `_build_dialed_proxy`, where the scheme is in `_DIALED_PROXY_TYPES`. -/
def buildDialedProxy (hostname : Text) (port : Port) (username password : Option Text) :
    Except Exc DialedProxy := do
  return ⟨hostname, ← intOf lib port, username, password⟩

/-- `if not value` -/
def present : Option Text → Option Text
  | some [] | none => none
  | some s => some s

/-- `if not port` -/
def presentPort : Option Port → Option Port
  | some (.inl 0) | some (.inr []) | none => none
  | some port => some port

def parseScheme : Option (ProxyScheme ⊕ Text) → Except Exc ProxyScheme
  | some (.inl scheme) => .ok scheme
  | none | some (.inr []) => .error (.valueError "proxy dict must contain 'scheme'")
  | some (.inr s) =>
      match [ProxyScheme.socks4, .socks5, .http, .mtproxy, .web].find?
        (fun scheme => text scheme.value = lib.lower s) with
      | some scheme => .ok scheme
      | none => .error (.valueError ("unknown proxy scheme: " ++ lib.repr s))

/-- The dict form. -/
structure ProxyDict where
  scheme : Option (ProxyScheme ⊕ Text) := none
  hostname : Option Text := none
  port : Option Port := none
  secret : Option Text := none
  username : Option Text := none
  password : Option Text := none
  deriving DecidableEq, Repr

/-- What `parse_qs` makes of a query. -/
abbrev Query := List (Text × List Text)

/-- `_query_param(query_parameters, name=name)` -/
def Query.param (q : Query) (name : String) : Option Text := ((q.lookup (text name)).getD []).head?

/-- A link, by the pattern it matches; a plain URL, by its parts. -/
inductive ProxyLink
  | web (query : Query)
  | mtproxy (query : Query)
  | socks (query : Query)
  | url (link scheme : Text) (hostname : Option Text) (port : Option ℤ)
      (username password : Option Text)
  deriving DecidableEq, Repr

/-- The dialed proxy of a scheme. -/
def dialed (scheme : ProxyScheme) (p : DialedProxy) : Proxy :=
  match scheme with
  | .socks4 => .socks4 p
  | .http => .http p
  | _ => .socks5 p

def parseProxyLink : ProxyLink → Except Exc Proxy
  | .web query =>
      match (present (query.param "server")).or (present (query.param "host")),
        present (query.param "secret") with
      | some hostname, some encodedSecret => .web <$> buildWebProxy lib hostname encodedSecret
      | _, _ => .error (.valueError
          "WEB proxy link must contain 'server' (or 'host') and 'secret' params")
  | .mtproxy query =>
      match present (query.param "server"), present (query.param "port"),
        present (query.param "secret") with
      | some hostname, some port, some encodedSecret =>
          .mtproxy <$> buildMtproxy lib hostname (.inr port) encodedSecret
      | _, _, _ => .error (.valueError
          "MTProxy link must contain 'server', 'port' and 'secret' params")
  | .socks query =>
      match present (query.param "server"), present (query.param "port") with
      | some hostname, some port =>
          .socks5 <$> buildDialedProxy lib hostname (.inr port) (query.param "user")
            (query.param "pass")
      | _, _ => .error (.valueError "Telegram proxy link must contain 'server' and 'port' params")
  | .url link scheme hostname port username password =>
      match present (some scheme), present hostname, presentPort (port.map .inl) with
      | some scheme, some hostname, some port => do
          let scheme ← parseScheme lib (some (.inr scheme))
          if scheme = .mtproxy ∨ scheme = .web then
            throw (.valueError
              (scheme.value ++
              " proxy cannot be written as a plain URL; use the dict or tg:// form"))
          else dialed scheme <$> buildDialedProxy lib hostname port username password
      | _, _, _ => .error (.valueError ("proxy string is not a recognized proxy URL: " ++
          lib.repr link))

def parseProxyDict (proxy : ProxyDict) : Except Exc Proxy := do
  let scheme ← parseScheme lib proxy.scheme
  match scheme with
  | .web =>
      match present proxy.hostname, present proxy.secret with
      | some hostname, some encodedSecret => .web <$> buildWebProxy lib hostname encodedSecret
      | _, _ => throw (.valueError "WEB proxy config requires both 'hostname' and 'secret'")
  | .mtproxy =>
      match present proxy.hostname, presentPort proxy.port, present proxy.secret with
      | some hostname, some port, some encodedSecret =>
          .mtproxy <$> buildMtproxy lib hostname port encodedSecret
      | _, _, _ => throw (.valueError "MTProxy config requires 'hostname', 'port', and 'secret'")
  | scheme =>
      match present proxy.hostname, presentPort proxy.port with
      | some hostname, some port =>
          dialed scheme <$> buildDialedProxy lib hostname port proxy.username proxy.password
      | _, _ => throw (.valueError (scheme.value ++ " proxy config requires 'hostname' and 'port'"))

/-- What a client may be given. -/
inductive ProxyArg
  | proxy (p : Proxy)
  | link (link : ProxyLink)
  | dict (d : ProxyDict)
  deriving DecidableEq, Repr

def normalizeProxy : Option ProxyArg → Except Exc (Option Proxy)
  | none => .ok none
  | some (.proxy p) => .ok (some p)
  | some (.link link) => some <$> parseProxyLink lib link
  | some (.dict d) => some <$> parseProxyDict lib d

end

/-! ### Transports -/

inductive TransportClass
  | tcp
  | abridged
  | abridgedO
  | full
  | intermediate
  | intermediateO
  | intermediatePadded
  deriving DecidableEq, Repr

/-- `__name__` -/
def TransportClass.name : TransportClass → String
  | tcp => "TCP"
  | abridged => "TCPAbridged"
  | abridgedO => "TCPAbridgedO"
  | full => "TCPFull"
  | intermediate => "TCPIntermediate"
  | intermediateO => "TCPIntermediateO"
  | intermediatePadded => "TCPIntermediatePadded"

/-- `INTERMEDIATE_PADDED_OBFUSCATE_TAG` -/
def intermediatePaddedObfuscateTag : List UInt8 := [0xdd, 0xdd, 0xdd, 0xdd]

/-- `OBFUSCATE_TAG` -/
def TransportClass.obfuscateTag : TransportClass → Option (List UInt8)
  | abridged => some [0xef, 0xef, 0xef, 0xef]
  | intermediatePadded => some intermediatePaddedObfuscateTag
  | _ => none

def transportClassFor (proxy : Option Proxy) (default : TransportClass) : TransportClass :=
  if usesRandomPadding proxy then .intermediatePadded else default

/-- `TCP._obfuscated2_secret` of a transport of this class. -/
def obfuscated2Secret (cls : TransportClass) (proxy : Option Proxy) (dcId : Option ℤ)
    (secret : List UInt8) :
    Except Exc (List UInt8) :=
  if dcId = none then
    .error (.valueError
      "An obfuscated2 proxy scheme requires a dc_id, passed through by Connection")
  else if cls.obfuscateTag = none then
    .error (.valueError
      s!"{cls.name} has no OBFUSCATE_TAG and cannot speak obfuscated2; use e.g. TCPAbridged for a plain secret, TCPIntermediatePadded for dd")
  else if usesRandomPadding proxy ∧ cls.obfuscateTag ≠ some intermediatePaddedObfuscateTag then
    .error (.valueError
      s!"this proxy's secret asks for random padding, which {cls.name} does not send; use TCPIntermediatePadded")
  else if secret.length = markedSecretSize then .ok (secret.drop 1)
  else .ok secret

/-! ### The secrets and their spellings -/

/-- The key of the obfuscated2 stream. -/
abbrev Key := {k : List UInt8 // k.length = 16}

/-- A domain for the greeting of a fake TLS connection. -/
abbrev Domain := {d : List UInt8 // (1 ≤ d.length ∧ d.length ≤ 182) ∧ ∀ b ∈ d, b < 128}

inductive Secret
  | plain (k : Key)
  | padded (k : Key)
  | fakeTls (k : Key) (domain : Domain)

namespace Secret

def bytes : Secret → List UInt8
  | plain k => k.val
  | padded k => 0xdd :: k.val
  | fakeTls k domain => 0xee :: k.val ++ domain.val

def key : Secret → List UInt8
  | plain k | padded k | fakeTls k _ => k.val

/-- The secret asks for random padding. -/
def AsksForPadding : Secret → Prop
  | plain _ => False
  | padded _ | fakeTls _ _ => True

def sniHostname : Secret → Option Text
  | fakeTls _ domain => some (Utf8.decodeAscii domain.val)
  | _ => none

/-- The secret a proxy keeps. -/
def kept : Secret → List UInt8
  | plain k | fakeTls k _ => k.val
  | padded k => 0xdd :: k.val

end Secret

/-- A character of a base64 text in one of the two alphabets. -/
def character (url : Bool) (ch : UInt8) : UInt8 := if url then Base64.toUrl ch else ch

/-- The ways to write a byte string: hex, or base64 with either alphabet, with or without
padding. -/
inductive Spelling (bs : List UInt8) : List UInt8 → Prop
  | hex {t : List UInt8} (h : Hex.Spells bs t) : Spelling bs t
  | base64 (url padded : Bool) :
      Spelling bs ((if padded then Base64.b2a bs else Base64.b2aUnpadded bs).map (character url))

/-- The text is not hex of other bytes. -/
def Unambiguous (bs t : List UInt8) : Prop := ∀ other, Hex.Spells other t → other = bs

/-! ### Decoding -/

theorem decodeAscii_eq_ok {bs : List UInt8} {s : Text} :
    decodeAscii bs = .ok s ↔ (∀ b ∈ bs, b < 128) ∧ s = Utf8.decodeAscii bs := by
  unfold decodeAscii
  cases h : bs.findIdx? (128 ≤ ·) with
  | none =>
    have hall : ∀ b ∈ bs, b < 128 := by simpa using List.findIdx?_eq_none_iff.mp h
    exact ⟨fun h => ⟨hall, (Except.ok.inj h).symm⟩, fun h => congrArg Except.ok h.2.symm⟩
  | some i =>
    have hnot : ¬ ∀ b ∈ bs, b < 128 := by
      intro hall
      have hnone : bs.findIdx? (128 ≤ ·) = none :=
        List.findIdx?_eq_none_iff.mpr (by simpa using hall)
      cases hnone.symm.trans h
    simp [hnot]

theorem base64_character (url : Bool) {ch : UInt8}
    (h : ch = Base64.pad ∨ ∃ v < 64, ch = Base64.character v) :
    Base64.ofUrl (character url ch) = ch ∧ character url ch < 128 ∧
      Hex.isSpace (character url ch) = false := by
  have hall : ∀ url : Bool, ∀ v < 64, character url (Base64.character v) < 128 ∧
      Hex.isSpace (character url (Base64.character v)) = false := by decide
  rcases h with rfl | ⟨v, hv, rfl⟩
  · cases url <;> decide
  · refine ⟨?_, hall url v hv⟩
    cases url with
    | false => exact Base64.ofUrl_character hv
    | true => exact Base64.ofUrl_toUrl_character v

theorem mem_base64 {bs : List UInt8} (padded : Bool) {ch : UInt8}
    (h : ch ∈ if padded then Base64.b2a bs else Base64.b2aUnpadded bs) :
    ch = Base64.pad ∨ ∃ v < 64, ch = Base64.character v := by
  cases padded with
  | false => exact .inr (Base64.exists_lt_of_mem_b2aUnpadded h)
  | true => exact Base64.mem_b2a h

theorem lt_of_digit {ch : UInt8} {v : ℕ} (h : Hex.digit ch = some v) : ch < 128 := by
  by_contra hge
  have hbeyond : ∀ hi : UInt8, hi < 128 → ¬ ch ≤ hi :=
    fun hi hhi hle => hge (UInt8.lt_of_le_of_lt hle hhi)
  rw [Hex.digit, if_neg (fun h => hbeyond 57 (by decide) h.2),
    if_neg (fun h => hbeyond 102 (by decide) h.2),
    if_neg (fun h => hbeyond 70 (by decide) h.2)] at h
  cases h

/-- What is spelled is ASCII, and has no white space. -/
theorem Spelling.ascii {bs t : List UInt8} (h : Spelling bs t) :
    ∀ ch ∈ t, ch < 128 ∧ Hex.isSpace ch = false := by
  cases h with
  | hex h =>
    induction h with
    | nil => exact fun ch hch => nomatch hch
    | cons hc hd _ ih =>
      refine List.forall_mem_cons.mpr ⟨?_, List.forall_mem_cons.mpr ⟨?_, ih⟩⟩
      · exact ⟨lt_of_digit hc, Hex.isSpace_eq_false_of_digit hc⟩
      · exact ⟨lt_of_digit hd, Hex.isSpace_eq_false_of_digit hd⟩
  | base64 url padded =>
    intro ch hch
    obtain ⟨c, hc, rfl⟩ := List.mem_map.mp hch
    exact (base64_character url (mem_base64 padded hc)).2

theorem fromhex_decodeAscii {t : List UInt8} (h : ∀ ch ∈ t, ch < 128) :
    fromhex (Utf8.decodeAscii t) = Hex.decode t := by
  rw [fromhex, Utf8.encodeAscii_decodeAscii h]
  rfl

/-- The padding that `_base64_decoded` adds completes the text. -/
theorem base64Decoded_decodeAscii (bs : List UInt8) (url padded : Bool) :
    base64Decoded (Utf8.decodeAscii ((if padded then Base64.b2a bs else Base64.b2aUnpadded bs).map
      (character url))) = some bs := by
  have hascii := (@Spelling.base64 bs url padded).ascii
  generalize ht : (if padded then Base64.b2a bs else Base64.b2aUnpadded bs) = t at hascii ⊢
  have hlength : (Utf8.decodeAscii (t.map (character url))).length =
      t.length := by simp [Utf8.decodeAscii]
  have htext : Utf8.decodeAscii (t.map (character url)) ++
    Utf8.decodeAscii (Base64.padding t.length) =
      Utf8.decodeAscii (t.map (character url) ++ Base64.padding t.length) := by
        simp [Utf8.decodeAscii]
  -- the padding that is added back is ASCII too
  have hall : ∀ ch ∈ t.map (character url) ++ Base64.padding t.length, ch < 128 := by
    intro ch hch
    rcases List.mem_append.mp hch with hch | hch
    · exact (hascii ch hch).1
    · rw [List.eq_of_mem_replicate hch]
      decide
  -- the two characters of the URL alphabet are turned back
  have hofUrl : (t.map (character url) ++ Base64.padding t.length).map Base64.ofUrl = t ++
      Base64.padding t.length := by
    rw [List.map_append, List.map_map, Base64.padding, List.map_replicate]
    congr 1
    refine (List.map_congr_left ?_).trans (List.map_id _)
    intro ch hch
    exact (base64_character url (mem_base64 padded (ht ▸ hch))).1
  -- with its padding, either spelling is the whole encoding
  have hwhole : t ++ Base64.padding t.length = Base64.b2a bs := by
    rw [← ht]
    cases padded with
    | false => exact Base64.b2aUnpadded_append_padding bs
    | true =>
      have hnone : Base64.padding (Base64.b2a bs).length = [] := by
        rw [Base64.padding, Base64.length_b2a]
        have : (-(((bs.length + 2) / 3 * 4 : ℕ) : ℤ) % 4).toNat = 0 := by omega
        rw [this]
        rfl
      show Base64.b2a bs ++ Base64.padding (Base64.b2a bs).length = Base64.b2a bs
      rw [hnone, List.append_nil]
  rw [base64Decoded, hlength, htext, Utf8.encodeAscii_decodeAscii hall]
  show Base64.a2bStrict _ = some bs
  rw [hofUrl, hwhole, Base64.a2bStrict_b2a]

/-- **Every spelling is read**, unless it is hex of something else. -/
theorem decodeProxySecret_of_spelling (lib : Library) {bs t : List UInt8} (h : Spelling bs t)
    (hun : Unambiguous bs t) :
    decodeProxySecret lib (Utf8.decodeAscii t) = .ok bs := by
  have hascii := h.ascii
  rw [decodeProxySecret, fromhex_decodeAscii fun ch hch => (hascii ch hch).1]
  cases hhex : Hex.decode t with
  | some other => exact congrArg _ (hun other (Hex.spells_of_decode hhex fun ch hch =>
      (hascii ch hch).2))
  | none =>
    cases h with
    | hex h => cases hhex.symm.trans (Hex.decode_of_spells h)
    | base64 url padded => rw [base64Decoded_decodeAscii]

/-! ### Shapes -/

theorem decodeFakeTlsSecret_eq_ok {full : List UInt8} {d : DecodedSecret}
    (hlen : markedSecretSize < full.length)
    (hhead : full.head? = some fakeTlsMarker) :
    decodeFakeTlsSecret full = .ok d ↔ ∃ k domain, full = (Secret.fakeTls k domain).bytes ∧
      d = ⟨k.val, some (Utf8.decodeAscii domain.val)⟩ := by
  obtain ⟨rest, rfl⟩ : ∃ rest, full = fakeTlsMarker :: rest := by
    cases full with
    | nil => cases hhead
    | cons b rest => exact ⟨rest, by rw [Option.some.inj hhead]⟩
  have hrest : 16 < rest.length := Nat.succ_lt_succ_iff.mp hlen
  have hkey : (fakeTlsMarker :: rest).extract 1 markedSecretSize = rest.take 16 := rfl
  have hdomain : (fakeTlsMarker :: rest).drop markedSecretSize = rest.drop 16 := rfl
  rw [decodeFakeTlsSecret, hkey, hdomain]
  constructor
  -- the sixteen bytes behind the marker are the key, the rest is the domain
  · intro h
    split at h
    · cases h
    · next hshort =>
      split at h
      · cases h
      · next sni hsni =>
        obtain ⟨hascii, rfl⟩ := decodeAscii_eq_ok.mp hsni
        obtain rfl := Except.ok.inj h
        have hlong : 1 ≤ (rest.drop 16).length := by rw [List.length_drop]; omega
        refine ⟨⟨rest.take 16, by rw [List.length_take]; omega⟩,
          ⟨rest.drop 16, ⟨hlong, not_lt.mp hshort⟩, hascii⟩, ?_, rfl⟩
        show fakeTlsMarker :: rest = 0xee :: rest.take 16 ++ rest.drop 16
        rw [List.cons_append, List.take_append_drop]
        rfl
  -- the bound on the domain, and its being ASCII, are what is checked
  · rintro ⟨⟨k, hk⟩, ⟨domain, ⟨_, hshort⟩, hascii⟩, hbytes, rfl⟩
    obtain rfl : rest = k ++ domain := (List.cons.inj hbytes).2
    have hfits : ¬ domain.length > maxSniDomainSize := not_lt.mpr hshort
    rw [List.drop_left' hk, List.take_left' hk, if_neg hfits, decodeAscii_eq_ok.mpr ⟨hascii, rfl⟩]

/-- **What is accepted is a secret**, and what is kept of it; the WEB scheme has no use
for a domain. -/
theorem decodeMtproxySecret_eq_ok {lib : Library} {s : Text} {scheme : ProxyScheme}
    {d : DecodedSecret} :
    decodeMtproxySecret lib s scheme = .ok d ↔ ∃ σ : Secret, decodeProxySecret lib s = .ok σ.bytes ∧
      d = ⟨σ.kept, σ.sniHostname⟩ ∧ (scheme = .web → σ.sniHostname = none) := by
  rw [decodeMtproxySecret, Except.bind_eq_ok]
  constructor
  -- the length decides first, the marker second
  · rintro ⟨full, hfull, h⟩
    split at h
    · next hlen =>
      obtain rfl := Except.ok.inj h
      exact ⟨.plain ⟨full, hlen⟩, hfull, rfl, fun _ => rfl⟩
    · split at h
      · next hmarked =>
        obtain rfl := Except.ok.inj h
        obtain ⟨rest, rfl⟩ : ∃ rest, full = paddedMarker :: rest := by
          cases full with
          | nil => cases hmarked.2
          | cons b rest => exact ⟨rest, by rw [Option.some.inj hmarked.2]⟩
        exact ⟨.padded ⟨rest, Nat.succ.inj hmarked.1⟩, hfull, rfl, fun _ => rfl⟩
      · split at h
        · next hlong =>
          split at h
          · cases h
          · next hweb =>
            -- a web proxy takes no domain
            obtain ⟨k, domain, rfl, rfl⟩ := (decodeFakeTlsSecret_eq_ok hlong.1 hlong.2).mp h
            exact ⟨.fakeTls k domain, hfull, rfl, fun h => absurd h hweb⟩
        · cases h
  · rintro ⟨σ, hfull, rfl, hweb⟩
    -- the three kinds of secret differ in length or in their first byte
    refine ⟨σ.bytes, hfull, ?_⟩
    cases σ with
    | plain k =>
      have hlen : (Secret.plain k).bytes.length = secretSize := k.property
      rw [if_pos hlen]
      rfl
    | padded k =>
      have hlen : (Secret.padded k).bytes.length = markedSecretSize := congrArg Nat.succ k.property
      rw [if_neg (by rw [hlen]; decide), if_pos ⟨hlen, rfl⟩]
      rfl
    | fakeTls k domain =>
      have hlen : markedSecretSize < (Secret.fakeTls k domain).bytes.length := by
        have := domain.property.1.1
        simp [Secret.bytes, k.property, markedSecretSize, secretSize]
        omega
      rw [if_neg (fun h => by rw [h] at hlen; exact absurd hlen (by decide)),
        if_neg (fun h => hlen.ne' h.1), if_pos ⟨hlen, rfl⟩,
        if_neg (fun h => nomatch hweb h)]
      exact (decodeFakeTlsSecret_eq_ok hlen rfl).mpr ⟨k, domain, rfl, rfl⟩

/-- Whatever is wrong with a secret is a `ValueError`. -/
theorem decodeMtproxySecret_eq_error {lib : Library} {s : Text} {scheme : ProxyScheme} {e : Exc}
    (h : decodeMtproxySecret lib s scheme = .error e) : ∃ msg, e = .valueError msg := by
  rw [decodeMtproxySecret, Except.bind_eq_error] at h
  rcases h with h | ⟨full, -, h⟩
  · rw [decodeProxySecret] at h
    split at h
    · cases h
    · split at h <;> cases h
      exact ⟨_, rfl⟩
  · split at h
    · cases h
    · split at h
      · cases h
      · split at h
        · split at h
          · cases h
            exact ⟨_, rfl⟩
          · rw [decodeFakeTlsSecret] at h
            split at h
            · cases h
              exact ⟨_, rfl⟩
            · split at h <;> cases h
              exact ⟨_, rfl⟩
        · cases h
          exact ⟨_, rfl⟩

/-! ### Keys and framings -/

/-- The transport that is chosen for a proxy takes the key out of what the proxy keeps, and
pads where the secret asks for it. -/
structure Transports (σ : Secret) (proxy : Proxy) (secret : List UInt8) : Prop where
  key : ∀ dcId : ℤ, obfuscated2Secret (transportClassFor (some proxy) .abridged) (some proxy)
    (some dcId) secret = .ok σ.key
  framing : transportClassFor (some proxy) .abridged = .intermediatePadded ↔ σ.AsksForPadding

/-- A proxy whose padding is what its secret asks for. -/
theorem transports_of_usesRandomPadding {σ : Secret} {proxy : Proxy}
    (h : usesRandomPadding (some proxy) = true ↔ σ.AsksForPadding) : Transports σ proxy σ.kept := by
  have hkept : (if σ.kept.length = markedSecretSize then Except.ok (σ.kept.drop 1)
    else Except.ok σ.kept : Except Exc (List UInt8)) =
      .ok σ.key := by
    cases σ with
    | plain k => exact if_neg (by rw [Secret.kept, k.property]; decide)
    | padded k => exact if_pos (congrArg Nat.succ k.property)
    | fakeTls k domain => exact if_neg (by rw [Secret.kept, k.property]; decide)
  constructor
  · intro dcId
    rw [obfuscated2Secret, if_neg (Option.some_ne_none _), transportClassFor]
    cases hpad : usesRandomPadding (some proxy) with
    | false =>
      rw [if_neg Bool.false_ne_true, if_neg (by decide), if_neg (fun h => Bool.false_ne_true h.1)]
      exact hkept
    | true =>
      rw [if_pos rfl, if_neg (by decide), if_neg (fun h => h.2 rfl)]
      exact hkept
  · rw [← h, transportClassFor]
    cases usesRandomPadding (some proxy) <;> decide

/-! ### Configurations -/

section

variable (lib : Library)

/-- The forms in which an MTProxy is configured. -/
inductive MtproxyConfig (hostname : Text) (port : Port) (secret : Text) : ProxyArg → Prop
  | link {query : Query} (hhostname : present (query.param "server") = some hostname)
      (hport : (present (query.param "port")).map .inr = some port)
      (hsecret : present (query.param "secret") = some secret) :
      MtproxyConfig hostname port secret (.link (.mtproxy query))
  | dict {d : ProxyDict} (hscheme : parseScheme lib d.scheme = .ok .mtproxy)
      (hhostname : present d.hostname = some hostname)
      (hport : presentPort d.port = some port) (hsecret : present d.secret = some secret) :
      MtproxyConfig hostname port secret (.dict d)

/-- The forms in which a WEB proxy is configured. -/
inductive WebConfig (hostname secret : Text) : ProxyArg → Prop
  | link {query : Query}
      (hhostname : (present (query.param "server")).or (present (query.param "host")) =
      some hostname)
      (hsecret : present (query.param "secret") = some secret) :
      WebConfig hostname secret (.link (.web query))
  | dict {d : ProxyDict} (hscheme : parseScheme lib d.scheme = .ok .web)
      (hhostname : present d.hostname = some hostname)
      (hsecret : present d.secret = some secret) : WebConfig hostname secret (.dict d)

variable {lib}

theorem normalizeProxy_of_mtproxyConfig {hostname : Text} {port : Port} {secret : Text}
    {arg : ProxyArg}
    (h : MtproxyConfig lib hostname port secret arg) :
    normalizeProxy lib (some arg) =
      (some ∘ .mtproxy) <$> buildMtproxy lib hostname port secret := by
  cases h with
  | link hhostname hport hsecret =>
    obtain ⟨p, hp, rfl⟩ := Option.map_eq_some_iff.mp hport
    rw [normalizeProxy, parseProxyLink, hhostname, hp, hsecret]
    exact (comp_map _ _ _).symm
  | dict hscheme hhostname hport hsecret =>
    rw [normalizeProxy, parseProxyDict, hscheme, Except.bind_ok]
    simp only [hhostname, hport, hsecret]
    exact (comp_map _ _ _).symm

theorem normalizeProxy_of_webConfig {hostname secret : Text} {arg : ProxyArg}
    (h : WebConfig lib hostname secret arg) :
    normalizeProxy lib (some arg) = (some ∘ .web) <$> buildWebProxy lib hostname secret := by
  cases h with
  | link hhostname hsecret =>
    rw [normalizeProxy, parseProxyLink, hhostname, hsecret]
    exact (comp_map _ _ _).symm
  | dict hscheme hhostname hsecret =>
    rw [normalizeProxy, parseProxyDict, hscheme, Except.bind_ok]
    simp only [hhostname, hsecret]
    exact (comp_map _ _ _).symm

/-- What a proxy keeps of its secret. -/
def Proxy.secret : Proxy → Option (List UInt8)
  | .mtproxy p => some p.secret
  | .web p => some p.secret
  | _ => none

/-- A proxy that was built from a configuration. -/
inductive Built : Proxy → Prop
  | mtproxy {hostname : Text} {port : Port} {s : Text} {p : MTProxy}
      (h : buildMtproxy lib hostname port s = .ok p) :
      Built (.mtproxy p)
  | web {hostname s : Text} {p : WebProxy} (h : buildWebProxy lib hostname s = .ok p) :
      Built (.web p)
  | dialed {scheme : ProxyScheme} {p : DialedProxy} : Built (dialed scheme p)

theorem built_of_parseProxyLink {link : ProxyLink} {proxy : Proxy}
    (h : parseProxyLink lib link = .ok proxy) :
    @Built lib proxy := by
  cases link with
  | web query =>
    rw [parseProxyLink] at h
    split at h
    · obtain ⟨p, hp, rfl⟩ := Except.map_eq_ok.mp h
      exact .web hp
    · cases h
  | mtproxy query =>
    rw [parseProxyLink] at h
    split at h
    · obtain ⟨p, hp, rfl⟩ := Except.map_eq_ok.mp h
      exact .mtproxy hp
    · cases h
  | socks query =>
    rw [parseProxyLink] at h
    split at h
    · obtain ⟨p, -, rfl⟩ := Except.map_eq_ok.mp h
      exact @Built.dialed lib .socks5 p
    · cases h
  | url link scheme hostname port username password =>
    rw [parseProxyLink] at h
    split at h
    · obtain ⟨scheme, -, h⟩ := Except.bind_eq_ok.mp h
      split at h
      · cases h
      · obtain ⟨p, -, rfl⟩ := Except.map_eq_ok.mp h
        exact .dialed
    · cases h

theorem built_of_parseProxyDict {d : ProxyDict} {proxy : Proxy}
    (h : parseProxyDict lib d = .ok proxy) :
    @Built lib proxy := by
  rw [parseProxyDict] at h
  obtain ⟨scheme, -, h⟩ := Except.bind_eq_ok.mp h
  split at h
  · split at h
    · obtain ⟨p, hp, rfl⟩ := Except.map_eq_ok.mp h
      exact .web hp
    · cases h
  · split at h
    · obtain ⟨p, hp, rfl⟩ := Except.map_eq_ok.mp h
      exact .mtproxy hp
    · cases h
  · split at h
    · obtain ⟨p, -, rfl⟩ := Except.map_eq_ok.mp h
      exact .dialed
    · cases h

theorem buildMtproxy_eq_ok {hostname : Text} {port : Port} {s : Text} {p : MTProxy} :
    buildMtproxy lib hostname port s = .ok p ↔ ∃ σ :
      Secret, ∃ n, decodeProxySecret lib s = .ok σ.bytes ∧
      intOf lib port = .ok n ∧ p = ⟨hostname, n, σ.kept, σ.sniHostname⟩ := by
  rw [buildMtproxy, Except.bind_eq_ok]
  constructor
  · rintro ⟨d, hd, h⟩
    obtain ⟨σ, hσ, rfl, -⟩ := decodeMtproxySecret_eq_ok.mp hd
    obtain ⟨n, hn, h⟩ := Except.bind_eq_ok.mp h
    exact ⟨σ, n, hσ, hn, (Except.ok.inj h).symm⟩
  · rintro ⟨σ, n, hσ, hn, rfl⟩
    refine ⟨_, decodeMtproxySecret_eq_ok.mpr ⟨σ, hσ, rfl, fun h => nomatch h⟩, ?_⟩
    rw [hn]
    rfl

theorem buildWebProxy_eq_ok {hostname s : Text} {p : WebProxy} :
    buildWebProxy lib hostname s = .ok p ↔ ∃ σ : Secret, ∃ canonical, decodeProxySecret lib s =
      .ok σ.bytes ∧
      σ.sniHostname = none ∧ canonicalizeWebHostname lib hostname = .ok canonical ∧
        p = ⟨canonical, σ.kept⟩ := by
  rw [buildWebProxy, Except.bind_eq_ok]
  constructor
  · rintro ⟨d, hd, h⟩
    obtain ⟨σ, hσ, rfl, hsni⟩ := decodeMtproxySecret_eq_ok.mp hd
    obtain ⟨canonical, hcanonical, h⟩ := Except.bind_eq_ok.mp h
    exact ⟨σ, canonical, hσ, hsni rfl, hcanonical, (Except.ok.inj h).symm⟩
  · rintro ⟨σ, canonical, hσ, hsni, hcanonical, rfl⟩
    refine ⟨_, decodeMtproxySecret_eq_ok.mpr ⟨σ, hσ, rfl, fun _ => hsni⟩, ?_⟩
    rw [hcanonical]
    rfl

theorem transports_mtproxy (hostname : Text) (port : ℤ) (σ : Secret) :
    Transports σ (.mtproxy ⟨hostname, port, σ.kept, σ.sniHostname⟩) σ.kept := by
  refine transports_of_usesRandomPadding ?_
  cases σ with
  | plain k => simp [usesRandomPadding, Secret.sniHostname, Secret.kept, Secret.AsksForPadding,
      k.property, markedSecretSize, secretSize]
  | padded k => simp [usesRandomPadding, Secret.kept, Secret.AsksForPadding, k.property,
      markedSecretSize, secretSize]
  | fakeTls k domain => simp [usesRandomPadding, Secret.sniHostname, Secret.AsksForPadding]

theorem transports_web (hostname : Text) {σ : Secret} (hsni : σ.sniHostname = none) :
    Transports σ (.web ⟨hostname, σ.kept⟩) σ.kept := by
  refine transports_of_usesRandomPadding ?_
  cases σ with
  | plain k => simp [usesRandomPadding, Secret.kept, Secret.AsksForPadding, k.property,
      markedSecretSize, secretSize]
  | padded k => simp [usesRandomPadding, Secret.kept, Secret.AsksForPadding, k.property,
      markedSecretSize, secretSize]
  | fakeTls k domain => cases hsni

/-- A proxy that is built does not meet a raising branch of its transport. -/
theorem Built.transports {proxy : Proxy} (h : @Built lib proxy) {secret : List UInt8}
    (hsecret : proxy.secret = some secret) :
    ∃ σ : Secret, Transports σ proxy secret := by
  cases h with
  | mtproxy h =>
    obtain ⟨σ, n, -, -, rfl⟩ := buildMtproxy_eq_ok.mp h
    obtain rfl := Option.some.inj hsecret
    exact ⟨σ, transports_mtproxy _ _ σ⟩
  | web h =>
    obtain ⟨σ, canonical, -, hsni, -, rfl⟩ := buildWebProxy_eq_ok.mp h
    obtain rfl := Option.some.inj hsecret
    exact ⟨σ, transports_web _ hsni⟩
  | @dialed scheme p => cases scheme <;> cases hsecret

/-- Bytes of another shape are turned down before anything else is looked at. -/
theorem decodeMtproxySecret_of_shape {bs t : List UInt8} (hspelling : Spelling bs t)
    (hun : Unambiguous bs t)
    (scheme : ProxyScheme) (hshape : ∀ σ : Secret, σ.bytes = bs → scheme = .web ∧
      σ.sniHostname ≠ none) :
    ∃ msg, decodeMtproxySecret lib (Utf8.decodeAscii t) scheme = .error (.valueError msg) := by
  cases h : decodeMtproxySecret lib (Utf8.decodeAscii t) scheme with
  | error e =>
    obtain ⟨msg, rfl⟩ := decodeMtproxySecret_eq_error h
    exact ⟨msg, rfl⟩
  | ok d =>
    obtain ⟨σ, hσ, -, hsni⟩ := decodeMtproxySecret_eq_ok.mp h
    have hbytes : σ.bytes = bs :=
      Except.ok.inj (hσ.symm.trans (decodeProxySecret_of_spelling lib hspelling hun))
    exact absurd (hsni (hshape σ hbytes).1) (hshape σ hbytes).2

variable (lib) in
/-- **From the secret to the transport.**  For every secret and every spelling that is not
hex of something else, the proxy is built, the transport that is chosen for it returns the
key, pads exactly where the secret asks for it, and the domain is kept; byte strings of any
other shape are turned down, so no proxy that is built meets a raising branch. -/
theorem secret_agrees :
    (∀ (σ : Secret) (t : List UInt8), Spelling σ.bytes t → Unambiguous σ.bytes t →
      ∀ (hostname : Text) (port : Port) (n : ℤ) (arg : ProxyArg), intOf lib port = .ok n →
        MtproxyConfig lib hostname port (Utf8.decodeAscii t) arg →
          ∃ proxy : MTProxy, normalizeProxy lib (some arg) = .ok (some (.mtproxy proxy)) ∧
            proxy.sniHostname = σ.sniHostname ∧ Transports σ (.mtproxy proxy) proxy.secret) ∧
    (∀ bs t : List UInt8, Spelling bs t → Unambiguous bs t → (∀ σ : Secret, σ.bytes ≠ bs) →
      ∀ (hostname : Text) (port : Port) (arg : ProxyArg), MtproxyConfig lib hostname port
        (Utf8.decodeAscii t) arg ∨
          WebConfig lib hostname (Utf8.decodeAscii t) arg →
        ∃ msg, normalizeProxy lib (some arg) = .error (.valueError msg)) ∧
    ∀ (arg : ProxyArg) (proxy : Proxy), (∀ p, arg ≠ .proxy p) →
      normalizeProxy lib (some arg) = .ok (some proxy) →
      ∀ secret, proxy.secret = some secret → ∃ σ : Secret, Transports σ proxy secret := by
  refine ⟨?_, ?_, ?_⟩
  -- a secret that is well formed, in each of its spellings
  · intro σ t hspelling hun hostname port n arg hport hconfig
    have hbuild : buildMtproxy lib hostname port (Utf8.decodeAscii t) =
        .ok ⟨hostname, n, σ.kept, σ.sniHostname⟩ :=
      buildMtproxy_eq_ok.mpr ⟨σ, n, decodeProxySecret_of_spelling lib hspelling hun, hport, rfl⟩
    refine ⟨_, ?_, rfl, transports_mtproxy hostname n σ⟩
    rw [normalizeProxy_of_mtproxyConfig hconfig, hbuild]
    rfl
  -- bytes that are no secret, in the configuration of either scheme
  · intro bs t hspelling hun hshape hostname port arg hconfig
    have hdecode := fun scheme => @decodeMtproxySecret_of_shape lib bs t hspelling hun scheme
      fun σ h => absurd h (hshape σ)
    rcases hconfig with hconfig | hconfig
    · obtain ⟨msg, hmsg⟩ := hdecode .mtproxy
      refine ⟨msg, ?_⟩
      rw [normalizeProxy_of_mtproxyConfig hconfig, buildMtproxy, hmsg]
      rfl
    · obtain ⟨msg, hmsg⟩ := hdecode .web
      refine ⟨msg, ?_⟩
      rw [normalizeProxy_of_webConfig hconfig, buildWebProxy, hmsg]
      rfl
  -- whatever was accepted: a link or a dict is decoded by the same function
  · intro arg proxy harg h secret hsecret
    cases arg with
    | proxy p => exact absurd rfl (harg p)
    | link link =>
      obtain ⟨p, hp, h⟩ := Except.map_eq_ok.mp h
      obtain rfl := Option.some.inj h
      exact (built_of_parseProxyLink hp).transports hsecret
    | dict d =>
      obtain ⟨p, hp, h⟩ := Except.map_eq_ok.mp h
      obtain rfl := Option.some.inj h
      exact (built_of_parseProxyDict hp).transports hsecret

end

/-- A library that knows one port. -/
def oneLibrary : Library := ⟨fun _ => "", id, id, fun _ => .ok 443, fun _ => false, some⟩

/-- A key of zeros. -/
def zeroKey : Key := ⟨List.replicate 16 0, rfl⟩

/-- The dict of an MTProxy or a WEB proxy with this secret. -/
def dictOf (scheme : ProxyScheme) (secret : String) : ProxyArg :=
  .dict ⟨some (.inl scheme), some (text "h"), some (.inl 443), some (text secret), none, none⟩

/-- A secret with the dd marker, in base64 for URLs without padding; and 15 bytes. -/
theorem secret_agrees_padded :
    (∃ proxy : MTProxy, normalizeProxy oneLibrary
      (some (dictOf .mtproxy "3QAAAAAAAAAAAAAAAAAAAAA")) = .ok (some (.mtproxy proxy)) ∧
      proxy.sniHostname = none ∧ Transports (.padded zeroKey) (.mtproxy proxy) proxy.secret) ∧
    ∃ msg, normalizeProxy oneLibrary (some (dictOf .web "////////////////////")) =
      .error (.valueError msg) := by
  have hunambiguous : ∀ bs t, Hex.decode t = none → Unambiguous bs t := fun bs t h other hother =>
    nomatch h.symm.trans (Hex.decode_of_spells hother)
  have hshape : ∀ σ : Secret, σ.bytes ≠ List.replicate 15 0xff := by
    intro σ h
    have hlen := congrArg List.length h
    cases σ <;> simp [Secret.bytes] at hlen <;> omega
  exact ⟨(secret_agrees oneLibrary).1 (.padded zeroKey) _ (.base64 true false)
    (hunambiguous _ _ (by decide)) (text "h") (.inl 443)
      443 _ rfl (.dict rfl rfl rfl rfl),
    (secret_agrees oneLibrary).2.1 (List.replicate 15 0xff) _ (.base64 false true)
    (hunambiguous _ _ (by decide)) hshape (text "h")
      (.inl 443) _ (.inr (.dict rfl rfl rfl))⟩

end Pyrogram.Proxies
