import Pyrogram.Crypto.HelloScopes
import Pyrogram.Utf8

/-!
# The fake-TLS greeting

`build_client_hello`: the greeting of a browser to a domain, with an authentication in place of its
random field. The lengths that the writer leaves are those of the record, of the handshake and of
the extensions; most of the extensions are fixed bytes, with their length among them.

SHA-256 is a parameter.

## Main definitions

* `clientHelloOps` — the operations.
* `hmac` — HMAC of the hash function.
* `buildClientHello` — the greeting.
* `IsExtension` — an extension, with the number of its bytes.
* `IsGreeting` — a greeting with its lengths and its random field.

## Main results

* `isExtension_of_framed` — each part of the permutation is an extension.
* `hello_spec` — **scopes have their length in front, and greetings are well formed.**
-/

namespace Pyrogram.FakeTls

open Mtproto

/-! ### The operations -/

/-- `secrets.choice((144, 176, 208, 240))` -/
abbrev EchPayloadSize := {n : ℕ // n ∈ [144, 176, 208, 240]}

/-- The extensions that come in any order. -/
def extensionOps (ech : EchPayloadSize) : List (List Op) :=
  [[.field (.string [0x00, 0x00]), .beginScope, .beginScope, .field (.string [0x00]), .beginScope,
    .field .domain,
      .endScope, .endScope, .endScope],
    [.field (.string [0x00, 0x05, 0x00, 0x05, 0x01, 0x00, 0x00, 0x00, 0x00])],
    [.field (.string [0x00, 0x0A, 0x00, 0x0C, 0x00, 0x0A]), .field (.grease 4),
      .field (.string [0x11, 0xEC, 0x00, 0x1D, 0x00, 0x17, 0x00, 0x18])],
    [.field (.string [0x00, 0x0B, 0x00, 0x02, 0x01, 0x00])],
    [.field (.string [0x00, 0x0D, 0x00, 0x18, 0x00, 0x16, 0x09, 0x04, 0x09, 0x05, 0x09, 0x06, 0x04,
      0x03, 0x08, 0x04, 0x04,
      0x01, 0x05, 0x03, 0x08, 0x05, 0x05, 0x01, 0x08, 0x06, 0x06, 0x01])],
    [.field (.string [0x00, 0x10, 0x00, 0x0E, 0x00, 0x0C, 0x02, 0x68, 0x32, 0x08, 0x68, 0x74, 0x74,
      0x70, 0x2F, 0x31, 0x2E,
      0x31])],
    [.field (.string [0x00, 0x12, 0x00, 0x00])],
    [.field (.string [0x00, 0x17, 0x00, 0x00])],
    [.field (.string [0x00, 0x1B, 0x00, 0x03, 0x02, 0x00, 0x02])],
    [.field (.string [0x00, 0x23, 0x00, 0x00])],
    [.field (.string [0x00, 0x2B, 0x00, 0x07, 0x06]), .field (.grease 6),
      .field (.string [0x03, 0x04, 0x03, 0x03])],
    [.field (.string [0x00, 0x2D, 0x00, 0x02, 0x01, 0x01])],
    [.field (.string [0x00, 0x33, 0x04, 0xEF, 0x04, 0xED]), .field (.grease 4),
      .field (.string [0x00, 0x01, 0x00, 0x11, 0xEC, 0x04, 0xC0]), .field .mlKem768Key, .field .key,
      .field (.string [0x00, 0x1D, 0x00, 0x20]), .field .key],
    [.field (.string [0x44, 0xCD, 0x00, 0x05, 0x00, 0x03, 0x02, 0x68, 0x32])],
    [.field (.string [0xFE, 0x0D]), .beginScope, .field (.string [0x00, 0x00, 0x01, 0x00, 0x01]),
      .field (.random 1),
      .field (.string [0x00, 0x20]), .field .key, .beginScope, .field (.random ech.val), .endScope,
        .endScope],
    [.field (.string [0xFF, 0x01, 0x00, 0x01, 0x00])]]

/-- The ciphers, and that nothing is compressed. -/
def CIPHERS : List UInt8 :=
  [0x13, 0x01, 0x13, 0x02, 0x13, 0x03, 0xC0, 0x2B, 0xC0, 0x2F, 0xC0, 0x2C, 0xC0, 0x30, 0xCC, 0xA9,
    0xCC, 0xA8, 0xC0, 0x13,
    0xC0, 0x14, 0x00, 0x9C, 0x00, 0x9D, 0x00, 0x2F, 0x00, 0x35, 0x01, 0x00]

@[simp] theorem length_CIPHERS : CIPHERS.length = 32 := rfl

/-- `_client_hello_ops` -/
def clientHelloOps (ech : EchPayloadSize) : List Op :=
  [.field (.string [0x16, 0x03, 0x01]), .beginScope, .field (.string [0x01, 0x00]), .beginScope,
    .field (.string [0x03, 0x03]), .field (.zero 32), .field (.string [0x20]), .field (.random 32),
    .field (.string [0x00, 0x20]), .field (.grease 0),
    .field (.string CIPHERS),
    .beginScope, .field (.grease 2), .field (.string [0x00, 0x00]), .permutation (extensionOps ech),
      .field (.grease 3),
    .field (.string [0x00, 0x01, 0x00]), .padding, .endScope, .endScope, .endScope]

/-! ### The greeting -/

def RANDOM_OFFSET : ℕ := 11

def RANDOM_SIZE : ℕ := 32

def TIMESTAMP_SIZE : ℕ := 4

/-- `grease[index] ^= 0x10` for the second of two equal neighbours. -/
def separate : List UInt8 → List UInt8
  | a :: b :: grease => a :: (if b = a then b ^^^ 0x10 else b) :: separate grease
  | grease => grease

/-- `_generate_grease` -/
def generateGrease (draw : {b : List UInt8 // b.length = 7}) : List UInt8 :=
  separate (draw.val.map fun b => (b &&& 0xF0) + 0x0A)

/-- `hmac.new(key, msg, hashlib.sha256).digest()`; the hash function takes blocks of 64 bytes. -/
def hmac (sha256 : Sha256) (key msg : List UInt8) : {digest : List UInt8 // digest.length = 32} :=
  let key := if 64 < key.length then (sha256 key).val else key
  let key := key ++ List.replicate (64 - key.length) 0
  sha256 (key.map (· ^^^ 0x5C) ++ (sha256 (key.map (· ^^^ 0x36) ++ msg)).val)

structure FakeTlsHello where
  record : List UInt8
  random : List UInt8
  deriving DecidableEq, Repr

/-- The digest with the time in its last bytes. -/
def stamped (digest : List UInt8) (unixTime : ℤ) : List UInt8 :=
  let timestamp := LittleEndian.encode TIMESTAMP_SIZE (unixTime % 2 ^ 32).toNat
  digest.take (RANDOM_SIZE - TIMESTAMP_SIZE) ++
    List.zipWith (· ^^^ ·) (digest.drop (RANDOM_SIZE - TIMESTAMP_SIZE)) timestamp

/-- What the module and a call draw. -/
structure HelloDraws where
  ech : EchPayloadSize
  grease : {b : List UInt8 // b.length = 7}
  draws : ℕ → Draw

/-- `build_client_hello` -/
def buildClientHello (sha256 : Sha256) (d : HelloDraws) (domain : List Utf8.CodePoint)
    (secret : List UInt8)
    (unixTime : ℤ) : Except Exc FakeTlsHello :=
  match Utf8.encodeAscii domain with
  | none => .error (.valueError "ordinal not in range(128)")
  | some domain => do
      let w ← render ⟨generateGrease d.grease, domain, d.draws⟩ (clientHelloOps d.ech) ⟨[], [], 0⟩
      let random := stamped (hmac sha256 secret w.out).val unixTime
      return ⟨w.out.take RANDOM_OFFSET ++ random ++ w.out.drop (RANDOM_OFFSET + RANDOM_SIZE),
        random⟩

/-- A domain that a secret may name: ASCII, of 1 to 182 bytes. -/
structure Domain where
  text : List Utf8.CodePoint
  bytes : List UInt8
  encoded : Utf8.encodeAscii text = some bytes
  length : 1 ≤ bytes.length ∧ bytes.length ≤ 182

/-! ### What a greeting is -/

/-- An extension: its type, the number of its bytes, and these. -/
def IsExtension (extension : List UInt8) : Prop :=
  ∃ type size body, type.length = 2 ∧ IsLength size body ∧ extension = type ++ size ++ body

/-- The bytes of a greeting: of the record, of the handshake and of the extensions the length, and
between the last two the session id and the ciphers. -/
def greetingOf (recordLength handshakeLength random session extensionsLength extensions : List
    UInt8) : List UInt8 :=
  [0x16, 0x03, 0x01] ++ recordLength ++ [0x01, 0x00] ++ handshakeLength ++ [0x03, 0x03] ++ random ++
    session ++
    extensionsLength ++ extensions

/-- A greeting with its lengths, and with its random field. -/
structure IsGreeting (sha256 : Sha256) (secret : List UInt8) (unixTime : ℤ) (hello : FakeTlsHello) :
    Prop where
  layout : ∃ recordLength handshakeLength session extensionsLength, ∃ extensions :
    List (List UInt8),
    hello.record = greetingOf recordLength handshakeLength hello.random session extensionsLength
      extensions.flatten ∧
    recordLength.length = 2 ∧ Aes.fromBytes recordLength = hello.record.length - 5 ∧
    handshakeLength.length = 2 ∧ Aes.fromBytes handshakeLength = hello.record.length - 9 ∧
    session.length = 69 ∧
    extensionsLength.length = 2 ∧ Aes.fromBytes extensionsLength = hello.record.length - 114 ∧
    (∀ extension ∈ extensions, IsExtension extension) ∧
    -- the digest is that of the greeting without its random field
    hello.random = stamped
      (hmac sha256 secret (greetingOf recordLength handshakeLength (List.replicate RANDOM_SIZE 0)
      session extensionsLength extensions.flatten)).val unixTime
  random_length : hello.random.length = RANDOM_SIZE

/-! ### Its tree -/

/-- The tree of a part without scopes. -/
def fieldBlocks : List Op → List Block
  | .field f :: ops => .field f :: fieldBlocks ops
  | _ => []

/-- The trees of the parts; the server name and the encrypted greeting have scopes. -/
def extensionBlocks (ech : EchPayloadSize) : List (List Block) :=
  ((extensionOps ech).map fieldBlocks |>.set 0
      [.field (.string [0x00, 0x00]),
        .scope [.scope [.field (.string [0x00]), .scope [.field .domain]]]]) |>.set 14
    [.field (.string [0xFE, 0x0D]),
      .scope [.field (.string [0x00, 0x00, 0x01, 0x00, 0x01]), .field (.random 1),
        .field (.string [0x00, 0x20]),
        .field .key, .scope [.field (.random ech.val)]]]

/-- The trees of what stands in the scopes of the record, of the handshake and of the extensions. -/
def extensionsBlocks (ech : EchPayloadSize) : List Block :=
  [.field (.grease 2), .field (.string [0x00, 0x00]), .permutation (extensionBlocks ech),
    .field (.grease 3),
    .field (.string [0x00, 0x01, 0x00]), .padding]

def handshakeBlocks (ech : EchPayloadSize) : List Block :=
  fieldBlocks (((clientHelloOps ech).drop 4).take 7) ++ [.scope (extensionsBlocks ech)]

def recordBlocks (ech : EchPayloadSize) : List Block :=
  [.field (.string [0x01, 0x00]), .scope (handshakeBlocks ech)]

def helloBlocks (ech : EchPayloadSize) : List Block :=
  [.field (.string [0x16, 0x03, 0x01]), .scope (recordBlocks ech)]

theorem opsOf_helloBlocks (ech : EchPayloadSize) : opsOf (helloBlocks ech) = clientHelloOps ech :=
  rfl

/-! ### Reading framed bytes -/

section Framed

variable {g : Greeting} {blocks : List Block} {w : List UInt8}

theorem Framed.of_nil (h : Framed g [] w) : w = [] := by
  cases h
  rfl

/-- The bytes of an operation, and those of the operations after it. -/
theorem Framed.of_field {f : Field} (h : Framed g (.field f :: blocks) w) :
    ∃ draw b rest, f.bytes g draw = .ok b ∧ Framed g blocks rest ∧ w = b ++ rest := by
  cases h with
  | field hb hrest => exact ⟨_, _, _, hb, hrest, rfl⟩

theorem Framed.of_string {data : List UInt8} (h : Framed g (.field (.string data) :: blocks) w) :
    ∃ rest, Framed g blocks rest ∧ w = data ++ rest := by
  obtain ⟨draw, b, rest, hb, hrest, rfl⟩ := h.of_field
  cases hb
  exact ⟨rest, hrest, rfl⟩

/-- As many bytes as the operation has. -/
theorem Framed.of_size {f : Field} {n : ℕ} (h : Framed g (.field f :: blocks) w)
    (hn : f.size g = some n) :
    ∃ b rest, b.length = n ∧ Framed g blocks rest ∧ w = b ++ rest := by
  obtain ⟨draw, b, rest, hb, hrest, rfl⟩ := h.of_field
  have hmeasured := measured_bytes f (g := g) draw
  rw [hb] at hmeasured
  exact ⟨b, rest, Option.some.inj (hmeasured.symm.trans hn), hrest, rfl⟩

theorem Framed.of_scope {inner : List Block} (h : Framed g (.scope inner :: blocks) w) :
    ∃ size body rest, IsLength size body ∧ Framed g inner body ∧ Framed g blocks rest ∧
      w = size ++ body ++ rest := by
  cases h with
  | scope hsize hinner hrest => exact ⟨_, _, _, hsize, hinner, hrest, rfl⟩

/-- A scope that is the last block. -/
theorem Framed.of_last {inner : List Block} (h : Framed g [.scope inner] w) :
    ∃ size body, IsLength size body ∧ Framed g inner body ∧ w = size ++ body := by
  obtain ⟨size, body, rest, hsize, hinner, hrest, rfl⟩ := h.of_scope
  obtain rfl := hrest.of_nil
  exact ⟨size, body, hsize, hinner, List.append_nil _⟩

theorem Framed.of_permutation {parts : List (List Block)}
    (h : Framed g (.permutation parts :: blocks) w) :
    ∃ rendered : List (List UInt8), ∃ shuffled :
      List (List UInt8), ∃ rest, List.Forall₂ (Framed g) parts rendered ∧
      shuffled.Perm rendered ∧ Framed g blocks rest ∧ w = shuffled.flatten ++ rest := by
  cases h with
  | permutation hparts hperm hrest => exact ⟨_, _, _, hparts, hperm, hrest, rfl⟩

end Framed

/-! ### Extensions -/

/-- Bytes are an extension where the third and fourth of them are the number of the others. -/
theorem isExtension_of_drop {e : List UInt8} (hlength : 4 ≤ e.length)
    (hsize : Aes.fromBytes ((e.drop 2).take 2) = (e.drop 4).length) : IsExtension e := by
  refine ⟨e.take 2, (e.drop 2).take 2, e.drop 4, ?_, ⟨?_, hsize⟩, ?_⟩
  · rw [List.length_take]
    omega
  · rw [List.length_take, List.length_drop]
    exact Nat.min_eq_left (by omega)
  · rw [List.append_assoc, show e.drop 4 =
      (e.drop 2).drop 2 by rw [List.drop_drop], List.take_append_drop,
      List.take_append_drop]

theorem isExtension_of_string {g : Greeting} {data w : List UInt8}
    (h : Framed g [.field (.string data)] w)
    (hlength : 4 ≤ data.length)
    (hsize : Aes.fromBytes ((data.drop 2).take 2) = (data.drop 4).length) :
    IsExtension w := by
  obtain ⟨rest, hrest, rfl⟩ := h.of_string
  obtain rfl := hrest.of_nil
  rw [List.append_nil]
  exact isExtension_of_drop hlength hsize

/-- A type and a scope are an extension. -/
theorem isExtension_of_scope {g : Greeting} {type w : List UInt8} {inner : List Block}
    (htype : type.length = 2)
    (h : Framed g [.field (.string type), .scope inner] w) : IsExtension w := by
  obtain ⟨rest, hrest, rfl⟩ := h.of_string
  obtain ⟨size, body, hsize, -, rfl⟩ := hrest.of_last
  exact ⟨type, size, body, htype, hsize, (List.append_assoc ..).symm⟩

/-- **Each part of the permutation is an extension.** -/
theorem isExtension_of_framed {g : Greeting} (hgrease : g.grease.length = 7) {ech : EchPayloadSize}
    {part : List Block}
    (hpart : part ∈ extensionBlocks ech) {e : List UInt8} (h : Framed g part e) :
    IsExtension e := by
  -- seven grease values are drawn
  have hsize : ∀ seed < 7, (Field.grease seed).size g = some 2 := by
    intro seed hseed
    exact if_pos (hgrease ▸ hseed)
  simp only [extensionBlocks, extensionOps, fieldBlocks, List.map_cons, List.map_nil,
    List.set_cons_zero, List.set_cons_succ, List.mem_cons, List.not_mem_nil, or_false] at hpart
  -- one case for each extension; those that are fixed bytes are computed
  obtain rfl | rfl | rfl | rfl | rfl | rfl | rfl | rfl | rfl | rfl | rfl | rfl | rfl | rfl | rfl
      | rfl := hpart
  · exact isExtension_of_scope rfl h
  · exact isExtension_of_string h (by decide) (by decide)
  · -- the groups
    obtain ⟨rest, hrest, rfl⟩ := h.of_string
    obtain ⟨b, rest₁, hb, hrest₁, rfl⟩ := hrest.of_size (hsize 4 (by decide))
    obtain ⟨rest₂, hrest₂, rfl⟩ := hrest₁.of_string
    obtain rfl := hrest₂.of_nil
    refine isExtension_of_drop (by simp) ?_
    simp [hb, Aes.fromBytes]
  · exact isExtension_of_string h (by decide) (by decide)
  · exact isExtension_of_string h (by decide) (by decide)
  · exact isExtension_of_string h (by decide) (by decide)
  · exact isExtension_of_string h (by decide) (by decide)
  · exact isExtension_of_string h (by decide) (by decide)
  · exact isExtension_of_string h (by decide) (by decide)
  · exact isExtension_of_string h (by decide) (by decide)
  · -- the versions
    obtain ⟨rest, hrest, rfl⟩ := h.of_string
    obtain ⟨b, rest₁, hb, hrest₁, rfl⟩ := hrest.of_size (hsize 6 (by decide))
    obtain ⟨rest₂, hrest₂, rfl⟩ := hrest₁.of_string
    obtain rfl := hrest₂.of_nil
    refine isExtension_of_drop (by simp) ?_
    simp [hb, Aes.fromBytes]
  · exact isExtension_of_string h (by decide) (by decide)
  · -- the key shares
    obtain ⟨rest, hrest, rfl⟩ := h.of_string
    obtain ⟨b, rest₁, hb, hrest₁, rfl⟩ := hrest.of_size (hsize 4 (by decide))
    obtain ⟨rest₂, hrest₂, rfl⟩ := hrest₁.of_string
    obtain ⟨kem, rest₃, hkem, hrest₃, rfl⟩ := hrest₂.of_size rfl
    obtain ⟨key, rest₄, hkey, hrest₄, rfl⟩ := hrest₃.of_size rfl
    obtain ⟨rest₅, hrest₅, rfl⟩ := hrest₄.of_string
    obtain ⟨key', rest₆, hkey', hrest₆, rfl⟩ := hrest₅.of_size rfl
    obtain rfl := hrest₆.of_nil
    refine isExtension_of_drop (by simp) ?_
    simp [hb, hkem, hkey, hkey', ML_KEM_768_COEFFICIENT_PAIRS, Aes.fromBytes]
  · exact isExtension_of_string h (by decide) (by decide)
  · exact isExtension_of_scope rfl h
  · exact isExtension_of_string h (by decide) (by decide)

/-! ### The layout -/

/-- What was rendered was rendered from a part. -/
theorem exists_part {g : Greeting} {parts : List (List Block)} {rendered : List (List UInt8)}
    (h : List.Forall₂ (Framed g) parts rendered) {e : List UInt8} (he : e ∈ rendered) :
    ∃ part ∈ parts, Framed g part e := by
  induction h with
  | nil => cases he
  | @cons part b parts rendered hpart _ ih =>
    obtain rfl | he := List.mem_cons.mp he
    · exact ⟨part, List.mem_cons_self, hpart⟩
    · obtain ⟨part', hmem, hframed⟩ := ih he
      exact ⟨part', List.mem_cons_of_mem _ hmem, hframed⟩

/-- What the last scope holds is extensions. -/
theorem exists_extensions {g : Greeting} (hgrease : g.grease.length = 7) {ech : EchPayloadSize}
    {w : List UInt8}
    (h : Framed g (extensionsBlocks ech) w) :
    ∃ extensions : List (List UInt8), w = extensions.flatten ∧ ∀ e ∈ extensions, IsExtension e := by
  have hsize : ∀ seed < 7, (Field.grease seed).size g = some 2 := by
    intro seed hseed
    exact if_pos (hgrease ▸ hseed)
  -- a grease extension, the shuffled ones, a second grease extension
  obtain ⟨b, rest, hb, hrest, rfl⟩ := h.of_size (hsize 2 (by decide))
  obtain ⟨rest₁, hrest₁, rfl⟩ := hrest.of_string
  obtain ⟨rendered, shuffled, rest₂, hparts, hperm, hrest₂, rfl⟩ := hrest₁.of_permutation
  obtain ⟨b', rest₃, hb', hrest₃, rfl⟩ := hrest₂.of_size (hsize 3 (by decide))
  obtain ⟨rest₄, hrest₄, rfl⟩ := hrest₃.of_string
  have hfirst : IsExtension (b ++ [0x00, 0x00]) :=
    ⟨b, [0x00, 0x00], [], hb, ⟨rfl, rfl⟩, (List.append_nil _).symm⟩
  have hlast : IsExtension (b' ++ [0x00, 0x01, 0x00]) :=
    ⟨b', [0x00, 0x01], [0x00], hb', ⟨rfl, rfl⟩, by rw [List.append_assoc]; rfl⟩
  have hshuffled : ∀ e ∈ shuffled, IsExtension e := by
    intro e he
    obtain ⟨part, hpart, hframed⟩ := exists_part hparts (hperm.mem_iff.mp he)
    exact isExtension_of_framed hgrease hpart hframed
  -- the padding is left out where the greeting is long enough
  cases hrest₄ with
  | full hnil =>
    obtain rfl := hnil.of_nil
    refine ⟨(b ++ [0x00, 0x00]) :: (shuffled ++ [b' ++ [0x00, 0x01, 0x00]]), by simp, ?_⟩
    intro e he
    simp only [List.mem_cons, List.mem_append, List.not_mem_nil, or_false] at he
    obtain rfl | he | rfl := he
    · exact hfirst
    · exact hshuffled e he
    · exact hlast
  | @padding n size rest _ hsize hnil =>
    obtain rfl := hnil.of_nil
    have hpadding : IsExtension ([0x00, 0x15] ++ size ++ List.replicate n 0) :=
      ⟨_, size, _, rfl, hsize, rfl⟩
    refine ⟨(b ++ [0x00, 0x00]) ::
      (shuffled ++ [b' ++ [0x00, 0x01, 0x00], [0x00, 0x15] ++ size ++ List.replicate n 0]),
      by simp, ?_⟩
    intro e he
    rw [List.mem_cons, List.mem_append, List.mem_pair] at he
    obtain rfl | he | rfl | rfl := he
    · exact hfirst
    · exact hshuffled e he
    · exact hlast
    · exact hpadding

/-- The extensions have a size, if the domain is not too long. -/
theorem exists_partsSize {g : Greeting} (hgrease : g.grease.length = 7)
    (hdomain : g.domain.length ≤ 182)
    (ech : EchPayloadSize) : ∃ n ≤ 2000, partsSize g (extensionBlocks ech) = some n := by
  obtain ⟨ech, hech⟩ := ech
  have hle : ech ≤ 240 := by
    simp only [List.mem_cons, List.not_mem_nil, or_false] at hech
    omega
  have hvalues : 256 ^ SCOPE_LENGTH_SIZE = 65536 ∧ SCOPE_LENGTH_SIZE = 2 ∧
      3 * ML_KEM_768_COEFFICIENT_PAIRS = 1152 :=
    ⟨rfl, rfl, rfl⟩
  simp only [extensionBlocks, extensionOps, List.map_cons, fieldBlocks, List.map_nil,
    List.set_cons_zero,
    List.set_cons_succ, partsSize, size, Block.size, Field.size, List.length_cons, List.length_nil,
      zero_add,
    Nat.reduceAdd, Option.bind_eq_bind, Option.bind_some, add_zero, Option.bind_fun_some, hvalues,
      Nat.reducePow,
    hgrease, Nat.reduceLT, ↓reduceIte, Nat.lt_add_one]
  simp (disch := omega) only [if_pos, Option.bind_some]
  exact ⟨_, by omega, rfl⟩

/-- The greeting has a size, if the domain is not too long. -/
theorem exists_size {g : Greeting} (hgrease : g.grease.length = 7) (hdomain : g.domain.length ≤ 182)
    (ech : EchPayloadSize) : ∃ n, size g (helloBlocks ech) 0 = some n := by
  obtain ⟨n, hn, hparts⟩ := exists_partsSize hgrease hdomain ech
  have hvalues : 256 ^ SCOPE_LENGTH_SIZE = 65536 ∧ SCOPE_LENGTH_SIZE = 2 := ⟨rfl, rfl⟩
  have hpadding : (if PADDING_TARGET_OFFSET ≤ 118 + n + 2 + 3 then 0
      else 4 + (PADDING_TARGET_OFFSET - (118 + n + 2 + 3))) ≤ 517 := by
    unfold PADDING_TARGET_OFFSET
    split <;> omega
  simp only [helloBlocks, recordBlocks, handshakeBlocks, clientHelloOps, List.drop_succ_cons,
    List.drop_zero,
    List.take_succ_cons, List.take_zero, fieldBlocks, extensionsBlocks, List.cons_append,
      List.nil_append, size,
    Block.size, Field.size, List.length_cons, List.length_nil, zero_add, Nat.reduceAdd, hgrease,
      Nat.ofNat_pos,
    ↓reduceIte, Nat.reduceLT, hparts, hvalues, Option.bind_eq_bind, Option.bind_some, add_zero,
    Nat.reducePow, length_CIPHERS]
  -- what the padding has depends on the extensions before it
  generalize (if PADDING_TARGET_OFFSET ≤ 118 + n + 2 + 3 then 0
    else 4 + (PADDING_TARGET_OFFSET - (118 + n + 2 + 3))) = padding at hpadding ⊢
  simp (disch := omega) only [if_pos, Option.bind_some]
  exact ⟨_, rfl⟩

/-! ### The layout -/

/-- A greeting without its random field: the field is of zeros, and the lengths are those of what
follows them. -/
theorem exists_layout {g : Greeting} (hgrease : g.grease.length = 7) {ech : EchPayloadSize}
    {w : List UInt8}
    (h : Framed g (helloBlocks ech) w) :
    ∃ recordLength handshakeLength session extensionsLength, ∃ extensions : List (List UInt8),
      w = greetingOf recordLength handshakeLength (List.replicate RANDOM_SIZE 0) session
        extensionsLength
        extensions.flatten ∧
      recordLength.length = 2 ∧ Aes.fromBytes recordLength = w.length - 5 ∧
      handshakeLength.length = 2 ∧ Aes.fromBytes handshakeLength = w.length - 9 ∧
      session.length = 69 ∧
      extensionsLength.length = 2 ∧ Aes.fromBytes extensionsLength = w.length - 114 ∧
      ∀ extension ∈ extensions, IsExtension extension := by
  -- take the blocks off one by one, from the front
  obtain ⟨rest, hrest, rfl⟩ := h.of_string
  obtain ⟨recordLength, record, hrecordLength, hrecord, rfl⟩ := hrest.of_last
  obtain ⟨rest₁, hrest₁, rfl⟩ := hrecord.of_string
  obtain ⟨handshakeLength, handshake, hhandshakeLength, hhandshake, rfl⟩ := hrest₁.of_last
  obtain ⟨rest₂, hrest₂, rfl⟩ := Framed.of_string hhandshake
  obtain ⟨draw, zeros, rest₃, hzeros, hrest₃, rfl⟩ := hrest₂.of_field
  obtain ⟨rest₄, hrest₄, rfl⟩ := hrest₃.of_string
  obtain ⟨sessionId, rest₅, hsessionId, hrest₅, rfl⟩ := hrest₄.of_size rfl
  obtain ⟨rest₆, hrest₆, rfl⟩ := hrest₅.of_string
  obtain ⟨b, rest₇, hb, hrest₇, rfl⟩ := hrest₆.of_size (if_pos (hgrease ▸ by decide))
  obtain ⟨rest₈, hrest₈, rfl⟩ := hrest₇.of_string
  obtain ⟨extensionsLength, body, hextensionsLength, hbody, rfl⟩ := hrest₈.of_last
  obtain ⟨extensions, rfl, hextensions⟩ := exists_extensions hgrease hbody
  cases hzeros
  -- what stands between the random and the extensions is of fixed length
  refine ⟨recordLength, handshakeLength, [0x20] ++ sessionId ++ [0x00, 0x20] ++ b ++ CIPHERS,
    extensionsLength, extensions,
    ?_, hrecordLength.1, ?_, hhandshakeLength.1, ?_, ?_, hextensionsLength.1, ?_, hextensions⟩
  · simp only [greetingOf, CIPHERS, RANDOM_SIZE, List.append_assoc]
  -- each length counts what stands behind it
  · rw [hrecordLength.2]
    simp only [List.length_append, hrecordLength.1, SCOPE_LENGTH_SIZE, List.length_cons,
      List.length_nil]
    omega
  · rw [hhandshakeLength.2]
    simp only [List.length_append, hrecordLength.1, hhandshakeLength.1, SCOPE_LENGTH_SIZE,
      List.length_cons, List.length_nil]
    omega
  · simp only [List.length_append, hsessionId, hb, length_CIPHERS, List.length_cons,
      List.length_nil]
  · rw [hextensionsLength.2]
    simp only [List.length_append, hrecordLength.1, hhandshakeLength.1, hsessionId, hb,
      hextensionsLength.1,
      SCOPE_LENGTH_SIZE, length_CIPHERS, List.length_replicate, List.length_cons, List.length_nil]
    omega

/-! ### The greeting that is built -/

theorem length_separate (grease : List UInt8) : (separate grease).length = grease.length := by
  induction grease using separate.induct with
  | case1 a b grease ih => rw [separate, List.length_cons, List.length_cons, ih, List.length_cons,
      List.length_cons]
  | case2 grease h =>
    rw [separate]
    exact h

theorem length_generateGrease (draw : {b : List UInt8 // b.length = 7}) :
    (generateGrease draw).length = 7 := by
  rw [generateGrease, length_separate, List.length_map, draw.property]

theorem length_stamped {digest : List UInt8} (h : digest.length = RANDOM_SIZE) (unixTime : ℤ) :
    (stamped digest unixTime).length = RANDOM_SIZE := by
  simp only [stamped, List.length_append, List.length_take, List.length_zipWith, List.length_drop,
    LittleEndian.length_encode, h]
  rfl

/-- The random field is replaced, and nothing else. -/
theorem replace_random {recordLength handshakeLength random random' session extensionsLength
    extensions : List UInt8}
    (hrecord : recordLength.length = 2) (hhandshake : handshakeLength.length = 2)
    (hrandom : random.length = RANDOM_SIZE) :
    (greetingOf recordLength handshakeLength random session extensionsLength extensions).take
      RANDOM_OFFSET ++ random' ++
      (greetingOf recordLength handshakeLength random session extensionsLength extensions).drop
        (RANDOM_OFFSET + RANDOM_SIZE) =
      greetingOf recordLength handshakeLength random' session extensionsLength extensions := by
  -- what stands before the random fills exactly its offset
  have hhead : ([0x16, 0x03, 0x01] ++ recordLength ++ [0x01, 0x00] ++ handshakeLength ++
    [0x03, 0x03]).length =
      RANDOM_OFFSET := by
    simp only [List.length_append, hrecord, hhandshake]
    rfl
  have hfield : ([0x16, 0x03, 0x01] ++ recordLength ++ [0x01, 0x00] ++ handshakeLength ++
    [0x03, 0x03] ++ random).length =
      RANDOM_OFFSET + RANDOM_SIZE := by
    rw [List.length_append, hhead, hrandom]
  have htake : (greetingOf recordLength handshakeLength random session extensionsLength
    extensions).take RANDOM_OFFSET =
      [0x16, 0x03, 0x01] ++ recordLength ++ [0x01, 0x00] ++ handshakeLength ++ [0x03, 0x03] := by
    rw [greetingOf, List.append_assoc _ random, List.append_assoc _ (random ++ session),
      List.append_assoc _ (_ ++ _)]
    exact List.take_left' hhead
  have hdrop : (greetingOf recordLength handshakeLength random session extensionsLength
    extensions).drop
      (RANDOM_OFFSET + RANDOM_SIZE) = session ++ extensionsLength ++ extensions := by
    rw [greetingOf, List.append_assoc _ session, List.append_assoc _ (session ++ extensionsLength)]
    exact List.drop_left' hfield
  rw [htake, hdrop]
  simp only [greetingOf, List.append_assoc]

/-- **A greeting is built, and it is well formed**, for every domain that a secret may name. -/
theorem exists_isGreeting (sha256 : Sha256) (d : HelloDraws) (domain : Domain) (secret : List UInt8)
    (unixTime : ℤ) :
    ∃ hello, buildClientHello sha256 d domain.text secret unixTime = .ok hello ∧
      IsGreeting sha256 secret unixTime hello := by
  have hgrease := length_generateGrease d.grease
  obtain ⟨n, hn⟩ := exists_size (g := ⟨generateGrease d.grease, domain.bytes, d.draws⟩) hgrease
    domain.length.2 d.ech
  have hrendered := rendered_opsOf ⟨generateGrease d.grease, domain.bytes, d.draws⟩
    (helloBlocks d.ech) 0
  rw [Rendered, hn, opsOf_helloBlocks] at hrendered
  obtain ⟨w, hw, -, -, hframed⟩ := hrendered
  obtain ⟨recordLength, handshakeLength, session, extensionsLength, extensions, hout, hrecord,
    hrecordLength, hhandshake,
    hhandshakeLength, hsession, hextensionsLength, hextensions, hall⟩ := exists_layout
      hgrease hframed
  -- the digest, with the time xored into its end, replaces the zeros
  have hrandom := length_stamped (hmac sha256 secret w.out).property unixTime
  refine ⟨⟨w.out.take RANDOM_OFFSET ++ stamped (hmac sha256 secret w.out).val unixTime ++
    w.out.drop (RANDOM_OFFSET + RANDOM_SIZE), stamped (hmac sha256 secret w.out).val unixTime⟩, ?_,
      ?_, hrandom⟩
  · rw [buildClientHello, domain.encoded]
    simp only [hw, Except.bind_ok]
    rfl
  -- the layout of what was written, with the digest in place of the zeros
  · have hreplaced : w.out.take RANDOM_OFFSET ++ stamped (hmac sha256 secret w.out).val unixTime ++
        w.out.drop (RANDOM_OFFSET + RANDOM_SIZE) = greetingOf recordLength handshakeLength
          (stamped (hmac sha256 secret w.out).val unixTime) session extensionsLength
            extensions.flatten := by
      rw [hout]
      exact replace_random hrecord hhandshake List.length_replicate
    have hlength : (greetingOf recordLength handshakeLength
      (stamped (hmac sha256 secret w.out).val unixTime) session
        extensionsLength extensions.flatten).length = w.out.length := by
      -- the replacement is of the same length, so the lengths stay true
      conv_rhs => rw [hout]
      simp only [greetingOf, List.length_append, hrandom, List.length_replicate]
    refine ⟨recordLength, handshakeLength, session, extensionsLength, extensions, hreplaced,
      hrecord, ?_, hhandshake, ?_,
      hsession, hextensionsLength, ?_, hall, ?_⟩
    · rw [hreplaced, hlength, hrecordLength]
    · rw [hreplaced, hlength, hhandshakeLength]
    · rw [hreplaced, hlength, hextensions]
    · rw [← hout]

/-- **Scopes have their length in front, and greetings are well formed.** -/
theorem hello_spec : (∀ (g : Greeting) (ops : List Op) (drawn : ℕ), WellBracketed ops →
      ∃ blocks, opsOf blocks = ops ∧ Rendered g blocks (render g ops ⟨[], [], drawn⟩)) ∧
    ∀ (sha256 : Sha256) (d : HelloDraws) (domain : Domain) (secret : List UInt8) (unixTime : ℤ),
      ∃ hello, buildClientHello sha256 d domain.text secret unixTime = .ok hello ∧
        IsGreeting sha256 secret unixTime hello :=
  ⟨fun g _ drawn h => exists_rendered g h drawn, exists_isGreeting⟩

theorem hello_spec_scope : ∃ blocks, opsOf blocks = [.beginScope, .field (.zero 2), .endScope] ∧
    Rendered ⟨[], [], fun _ => zeroDraw⟩ blocks
      (render ⟨[], [], fun _ => zeroDraw⟩ [.beginScope, .field (.zero 2), .endScope] ⟨[], [], 0⟩) :=
  hello_spec.1 _ _ 0 (wellBracketed_scope 2)

end Pyrogram.FakeTls
