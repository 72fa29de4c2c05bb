import Pyrogram.Crypto.Modular
import Pyrogram.Crypto.Mtproto
import Pyrogram.Crypto.Proth

/-!
# The two-step password

`compute_password_check`, and the server that it proves the password to: both come to
the same secret, and prove it by a hash over the numbers they have in common.  The
server hashes every number as 256 bytes; the client hashes `srp_B` as it came.

SHA-256 and PBKDF2 are parameters.

## Main definitions

* `computePasswordHash`, `computePasswordCheck` — the two functions of `utils/crypto.py`.
* `Server` — what the server has agreed on; `Server.Accepts` — its own computation.
* `Form` — how the server spells `B`.

## Main results

* `secret_eq` — both sides come to the same secret.
* `Server.prove_eq` — what the client computes, however `B` is spelled.
* `accepted_iff` — **the proof is accepted exactly when `srp_B` has 256 bytes**, as long
  as SHA-256 tells the two texts apart.
-/

namespace Pyrogram.Password

open Aes
open Mtproto (Sha256)

/-- `PasswordKdfAlgoSHA256SHA256PBKDF2HMACSHA512iter100000SHA256ModPow` -/
structure Algo where
  salt1 : List UInt8
  salt2 : List UInt8
  g : ℕ
  p : List UInt8
  deriving DecidableEq, Repr

/-- `account.Password` -/
structure Account where
  currentAlgo : Algo
  srpB : Option (List UInt8)
  srpId : ℤ
  deriving DecidableEq, Repr

structure InputCheckPasswordSRP where
  srpId : ℤ
  a : List UInt8
  m1 : List UInt8
  deriving DecidableEq, Repr

/-- `itob` -/
def itob (i : ℕ) : Except Exc (List UInt8) := toBytes i 256

def xor (a b : List UInt8) : List UInt8 := a.zipWith (· ^^^ ·) b

variable (sha256 : Sha256) (pbkdf2 : List UInt8 → List UInt8 → List UInt8)

/-- The password is given as `password.encode()`, and `pbkdf2` is that of SHA-512 with
100000 rounds. -/
def computePasswordHash (algo : Algo) (password : List UInt8) : List UInt8 :=
  let hash1 := (sha256 (algo.salt1 ++ password ++ algo.salt1)).val
  let hash2 := (sha256 (algo.salt2 ++ hash1 ++ algo.salt2)).val
  let hash3 := pbkdf2 hash2 algo.salt1
  (sha256 (algo.salt2 ++ hash3 ++ algo.salt2)).val

/-- What `M1` is the hash of. -/
def m1Text (algo : Algo) (g a b k : List UInt8) : List UInt8 :=
  xor (sha256 algo.p).val (sha256 g).val ++ (sha256 algo.salt1).val ++ (sha256 algo.salt2).val ++
    a ++ b ++ k

/-- The loop: a secret of the client with `u > 0`, its `A`, and `u`. -/
def draw (g p : ℕ) (srpB : List UInt8) :
    List (List UInt8) → Except Exc (Option (ℕ × List UInt8 × ℕ))
  | [] => .ok none
  | aBytes :: draws => do
      let a := fromBytes aBytes
      let A ← itob (← pow g a p)
      let u := fromBytes (sha256 (A ++ srpB)).val
      if 0 < u then return some (a, A, u) else draw g p srpB draws

/-- The rest, once the secret is drawn. -/
def prove (algo : Algo) (srpB g : List UInt8) (srpId : ℤ) (x kgX a : ℕ) (A : List UInt8) (u : ℕ) :
    Except Exc InputCheckPasswordSRP := do
  let p := fromBytes algo.p
  let gB : ℤ := ((fromBytes srpB : ℤ) - kgX) % p
  let S ← itob (← pow gB (a + u * x) p)
  return { srpId, a := A, m1 := (sha256 (m1Text sha256 algo g A srpB (sha256 S).val)).val }

/-- `os.urandom` gives the draws; `none` where all of them are used up. -/
def computePasswordCheck (r : Account) (password : List UInt8) (draws : List (List UInt8)) :
    Except Exc (Option InputCheckPasswordSRP) := do
  let algo := r.currentAlgo
  let p := fromBytes algo.p
  let g ← itob algo.g
  match r.srpB with
  | none => .error (.other "RuntimeError")
  | some srpB =>
      let x := fromBytes (computePasswordHash sha256 pbkdf2 algo password)
      let gX ← pow algo.g x p
      let k := fromBytes (sha256 (algo.p ++ g)).val
      let kgX := k * gX % p
      match ← draw sha256 algo.g p srpB draws with
      | none => return none
      | some (a, A, u) => some <$> prove sha256 algo srpB g r.srpId x kgX a A u

/-! ### The server -/

/-- A number as 256 bytes. -/
def pad (n : ℕ) : List UInt8 := (LittleEndian.encode 256 n).reverse

/-- What the server has agreed on, and its secret. -/
structure Server where
  algo : Algo
  p_length : algo.p.length = 256
  /-- `p` is a number of 2048 bits. -/
  p_large : 2 ^ 2047 ≤ fromBytes algo.p
  g_lt : algo.g < 2 ^ 31
  srpId : ℤ
  password : List UInt8
  b : ℕ

namespace Server

variable (server : Server)

def p : ℕ := fromBytes server.algo.p

def x : ℕ := fromBytes (computePasswordHash sha256 pbkdf2 server.algo server.password)

def k : ℕ := fromBytes (sha256 (server.algo.p ++ pad server.algo.g)).val

/-- The verifier. -/
def v : ℕ := server.algo.g ^ server.x sha256 pbkdf2 % server.p

def B : ℕ := (server.k sha256 * server.v sha256 pbkdf2 + server.algo.g ^ server.b) % server.p

def u (A : ℕ) : ℕ := fromBytes (sha256 (pad A ++ pad (server.B sha256 pbkdf2))).val

def S (A : ℕ) : ℕ := (A * server.v sha256 pbkdf2 ^ server.u sha256 pbkdf2 A) ^ server.b % server.p

/-- The text that the server hashes for a proof. -/
def text (A : ℕ) : List UInt8 :=
  m1Text sha256 server.algo (pad server.algo.g) (pad A) (pad (server.B sha256 pbkdf2))
    (sha256 (pad (server.S sha256 pbkdf2 A))).val

/-- The server comes to the same hash. -/
def Accepts (proof : InputCheckPasswordSRP) : Prop :=
  proof.m1 = (sha256 (server.text sha256 pbkdf2 (fromBytes proof.a))).val

end Server

/-- How the server spells `B`. -/
inductive Form
  | full
  /-- The leading zero bytes are omitted. -/
  | trimmed
  deriving DecidableEq, Repr

def Form.spell : Form → ℕ → List UInt8
  | .full, n => pad n
  | .trimmed, n => (pad n).dropWhile (· = 0)

/-! ### Numbers as bytes -/

@[simp] theorem length_pad (n : ℕ) : (pad n).length = 256 := by
  rw [pad, List.length_reverse, LittleEndian.length_encode]

theorem itob_of_lt {n : ℕ} (h : n < 256 ^ 256) : itob n = .ok (pad n) := if_pos h

theorem fromBytes_pad {n : ℕ} (h : n < 256 ^ 256) : fromBytes (pad n) = n := by
  rw [pad, fromBytes, List.reverse_reverse, LittleEndian.decode_encode h]

theorem fromBytes_zero_cons (l : List UInt8) : fromBytes (0 :: l) = fromBytes l := by
  have happend : ∀ l : List UInt8, LittleEndian.decode (l ++ [0]) = LittleEndian.decode l := by
    intro l
    induction l with
    | nil => rfl
    | cons b l ih => rw [List.cons_append, LittleEndian.decode_cons, LittleEndian.decode_cons, ih]
  rw [fromBytes, List.reverse_cons, happend, fromBytes]

/-- Leading zero bytes do not count. -/
theorem fromBytes_dropWhile (l : List UInt8) : fromBytes (l.dropWhile (· = 0)) = fromBytes l := by
  induction l with
  | nil => rfl
  | cons b l ih =>
    rw [List.dropWhile_cons]
    split
    · next hb =>
      obtain rfl : b = 0 := by simpa using hb
      rw [ih, fromBytes_zero_cons]
    · rfl

theorem fromBytes_spell (form : Form) {n : ℕ} (h : n < 256 ^ 256) :
    fromBytes (form.spell n) = n := by
  cases form with
  | full => exact fromBytes_pad h
  | trimmed => exact (fromBytes_dropWhile _).trans (fromBytes_pad h)

/-- Only one spelling has 256 bytes. -/
theorem spell_eq_pad {form : Form} {n : ℕ} (h : (form.spell n).length = 256) :
    form.spell n = pad n := by
  cases form with
  | full => rfl
  | trimmed =>
    have hsuffix : (pad n).dropWhile (· = 0) <:+ pad n := List.dropWhile_suffix _
    exact hsuffix.eq_of_length (h.trans (length_pad n).symm)

variable {sha256 pbkdf2}

theorem length_m1Text {algo : Algo} {g a b k : List UInt8} :
    (m1Text sha256 algo g a b k).length = 96 + a.length + b.length + k.length := by
  simp only [m1Text, xor, List.length_append, List.length_zipWith, (sha256 _).property]
  omega

/-! ### The secret -/

/-- **Both sides come to the same secret**: `(B - k * g ^ x) ^ (a + u * x)` and
`(A * v ^ u) ^ b`, with a reduction at each step. -/
theorem secret_eq {p : ℕ} (hp : 0 < p) (g k x a b u : ℕ) :
    pow ((((k * (g ^ x % p) + g ^ b) % p : ℕ) - (k * (g ^ x % p) % p : ℕ) : ℤ) % p) (a + u * x) p =
      .ok ((g ^ a % p * (g ^ x % p) ^ u) ^ b % p) := by
  have hmod : ∀ n : ℕ, ((n % p : ℕ) : ℤ) ≡ (n : ℤ) [ZMOD p] :=
    fun n => Int.natCast_modEq_iff.mpr (Nat.mod_modEq n p)
  -- what is left of `B`
  have hB : ((((k * (g ^ x % p) + g ^ b) % p : ℕ) - (k * (g ^ x % p) % p : ℕ) : ℤ) % p) ≡ (g : ℤ) ^
      b [ZMOD p] := by
    refine (Int.mod_modEq _ _).trans (((hmod _).sub (hmod _)).trans ?_)
    rw [Nat.cast_add, add_sub_cancel_left, Nat.cast_pow]
  have hserver : (((g ^ a % p * (g ^ x % p) ^ u) ^ b : ℕ) : ℤ) ≡ ((g : ℤ) ^ b) ^
      (a + u * x) [ZMOD p] := by
    have hA : ((g ^ a % p : ℕ) : ℤ) ≡ (g : ℤ) ^ a [ZMOD p] := by simpa using hmod (g ^ a)
    have hv : ((g ^ x % p : ℕ) : ℤ) ≡ (g : ℤ) ^ x [ZMOD p] := by simpa using hmod (g ^ x)
    have hexp : ((g : ℤ) ^ a * ((g : ℤ) ^ x) ^ u) ^ b = ((g : ℤ) ^ b) ^ (a + u * x) := by
      rw [← pow_mul, ← pow_add, ← pow_mul, ← pow_mul]
      congr 1
      rw [Nat.mul_comm, Nat.mul_comm x u]
    rw [← hexp, Nat.cast_pow, Nat.cast_mul, Nat.cast_pow]
    exact (hA.mul (hv.pow u)).pow b
  rw [pow, if_neg (Nat.pos_iff_ne_zero.mp hp)]
  refine congrArg Except.ok ?_
  have heq := (hB.pow (a + u * x)).trans hserver.symm
  rw [Int.ModEq] at heq
  rw [heq, ← Int.natCast_mod, Int.toNat_natCast]

/-! ### The two texts -/

namespace Server

/-- `A`, for the secret that the client has drawn. -/
def clientA (server : Server) (aBytes : List UInt8) :
    ℕ := server.algo.g ^ fromBytes aBytes % server.p

/-- `u`, when the client is told `srpB`. -/
def clientU (sha256 : Sha256) (server : Server) (srpB aBytes : List UInt8) : ℕ :=
  fromBytes (sha256 (pad (server.clientA aBytes) ++ srpB)).val

/-- The text that the client hashes when it is told `srpB`. -/
def clientText (sha256 : Sha256) (pbkdf2 : List UInt8 → List UInt8 → List UInt8) (server : Server)
    (srpB aBytes : List UInt8) : List UInt8 :=
  let A := server.clientA aBytes
  let u := server.clientU sha256 srpB aBytes
  m1Text sha256 server.algo (pad server.algo.g) (pad A) srpB
    (sha256 (pad ((A * server.v sha256 pbkdf2 ^ u) ^ server.b % server.p))).val

/-- What `account.getPassword` answers. -/
def account (sha256 : Sha256) (pbkdf2 : List UInt8 → List UInt8 → List UInt8) (server : Server)
    (form : Form) :
    Account where
  currentAlgo := server.algo
  srpB := some (form.spell (server.B sha256 pbkdf2))
  srpId := server.srpId

variable {server : Server}

theorem p_pos : 0 < server.p := Nat.lt_of_lt_of_le (by positivity) server.p_large

theorem p_lt : server.p < 256 ^ 256 := server.p_length ▸ fromBytes_lt server.algo.p

theorem mod_lt (n : ℕ) : n % server.p < 256 ^ 256 := Nat.lt_trans (Nat.mod_lt _ p_pos) p_lt

theorem g_lt_pow : server.algo.g < 256 ^ 256 := Nat.lt_trans server.g_lt (by norm_num)

theorem draw_cons (srpB aBytes : List UInt8) (draws : List (List UInt8)) :
    draw sha256 server.algo.g server.p srpB (aBytes :: draws) =
      if 0 < server.clientU sha256 srpB aBytes then
        .ok (some (fromBytes aBytes, pad (server.clientA aBytes), server.clientU sha256 srpB
          aBytes))
      else draw sha256 server.algo.g server.p srpB draws := by
  simp only [draw, pow_of_pos p_pos, Except.bind_ok, itob_of_lt (mod_lt _)]
  rfl

/-- The loop ends with the first secret whose `u` is positive. -/
theorem draw_eq_of_find {srpB aBytes : List UInt8} {draws : List (List UInt8)}
    (hdraw : (draws.find? fun aBytes => 0 < server.clientU sha256 srpB aBytes) = some aBytes) :
    draw sha256 server.algo.g server.p srpB draws =
      .ok (some (fromBytes aBytes, pad (server.clientA aBytes), server.clientU sha256 srpB aBytes))
        := by
  induction draws with
  | nil => cases hdraw
  | cons first draws ih =>
    rw [draw_cons]
    by_cases hu : 0 < server.clientU sha256 srpB first
    · rw [List.find?_cons, decide_eq_true hu] at hdraw
      obtain rfl : first = aBytes := Option.some.inj hdraw
      rw [if_pos hu]
    · rw [List.find?_cons, decide_eq_false hu] at hdraw
      rw [if_neg hu, ih hdraw]

theorem B_lt : server.B sha256 pbkdf2 < 256 ^ 256 := mod_lt _

/-- However `B` is spelled, the client comes to its own text and hashes that. -/
theorem prove_eq (form : Form) (aBytes : List UInt8) :
    prove sha256 server.algo (form.spell (server.B sha256 pbkdf2)) (pad server.algo.g) server.srpId
        (server.x sha256 pbkdf2) (server.k sha256 * server.v sha256 pbkdf2 % server.p)
        (fromBytes aBytes)
        (pad (server.clientA aBytes))
        (server.clientU sha256 (form.spell (server.B sha256 pbkdf2)) aBytes) =
      .ok
        { srpId := server.srpId
          a := pad (server.clientA aBytes)
          m1 := (sha256 (server.clientText sha256 pbkdf2 (form.spell (server.B sha256 pbkdf2))
            aBytes)).val } := by
  have hB : fromBytes (form.spell (server.B sha256 pbkdf2)) = server.B sha256 pbkdf2 :=
    fromBytes_spell form B_lt
  have hsecret := secret_eq (@p_pos server) server.algo.g (server.k sha256) (server.x sha256 pbkdf2)
    (fromBytes aBytes)
    server.b (server.clientU sha256 (form.spell (server.B sha256 pbkdf2)) aBytes)
  have hpow : pow (((server.B sha256 pbkdf2 : ℤ) - (server.k sha256 * server.v sha256 pbkdf2 %
    server.p : ℕ)) % server.p)
      (fromBytes aBytes + server.clientU sha256 (form.spell (server.B sha256 pbkdf2)) aBytes *
        server.x sha256 pbkdf2)
      server.p = _ := hsecret
  simp only [prove, hB, show fromBytes server.algo.p = server.p from rfl, hpow, Except.bind_ok,
    itob_of_lt (mod_lt _)]
  rfl

/-- The proof, for the secret that the loop ends with. -/
theorem computePasswordCheck_eq {form : Form} {aBytes : List UInt8} {draws : List (List UInt8)}
    (hdraw : (draws.find? fun aBytes =>
      0 < server.clientU sha256 (form.spell (server.B sha256 pbkdf2)) aBytes) =
      some aBytes) :
    computePasswordCheck sha256 pbkdf2 (server.account sha256 pbkdf2 form) server.password draws =
      .ok (some
        { srpId := server.srpId
          a := pad (server.clientA aBytes)
          m1 := (sha256 (server.clientText sha256 pbkdf2 (form.spell (server.B sha256 pbkdf2))
            aBytes)).val }) := by
  have hgX : pow server.algo.g (server.x sha256 pbkdf2) server.p = .ok (server.v sha256 pbkdf2) :=
    pow_of_pos p_pos _ _
  have hdrawn := draw_eq_of_find hdraw
  have hprove := @prove_eq sha256 pbkdf2 server form aBytes
  unfold x at hgX hprove
  unfold p at hgX hdrawn hprove
  unfold k at hprove
  simp only [computePasswordCheck, account, itob_of_lt g_lt_pow, Except.bind_ok, hgX,
    hdrawn, hprove]
  rfl

/-- The two texts agree where `B` has all its bytes, and differ in length where it has not. -/
theorem clientText_eq_text_iff (form : Form) (aBytes : List UInt8) :
    server.clientText sha256 pbkdf2 (form.spell (server.B sha256 pbkdf2)) aBytes =
        server.text sha256 pbkdf2 (server.clientA aBytes) ↔
      (form.spell (server.B sha256 pbkdf2)).length = 256 := by
  constructor
  · intro htext
    have hlength := congrArg List.length htext
    simp only [clientText, text, length_m1Text, length_pad, (sha256 _).property] at hlength
    omega
  · intro hlength
    rw [spell_eq_pad hlength]
    rfl

theorem accepts_iff (form : Form) (aBytes : List UInt8) :
    server.Accepts sha256 pbkdf2
        { srpId := server.srpId
          a := pad (server.clientA aBytes)
          m1 := (sha256 (server.clientText sha256 pbkdf2 (form.spell (server.B sha256 pbkdf2))
            aBytes)).val } ↔
      sha256 (server.clientText sha256 pbkdf2 (form.spell (server.B sha256 pbkdf2)) aBytes) =
        sha256 (server.text sha256 pbkdf2 (server.clientA aBytes)) := by
  have hA : fromBytes (pad (server.clientA aBytes)) = server.clientA aBytes :=
    fromBytes_pad (mod_lt _)
  rw [Accepts, hA]
  exact Subtype.ext_iff.symm

end Server

/-! ### Acceptance -/

/-- **The proof is accepted exactly when `srp_B` has 256 bytes**, for the secret that the
loop ends with and as long as SHA-256 tells the two texts apart. -/
theorem accepted_iff {server : Server} {form : Form} {draws : List (List UInt8)}
    {aBytes : List UInt8}
    (hdraw : (draws.find? fun aBytes =>
      0 < server.clientU sha256 (form.spell (server.B sha256 pbkdf2)) aBytes) =
      some aBytes)
    (hsha : sha256 (server.clientText sha256 pbkdf2 (form.spell (server.B sha256 pbkdf2)) aBytes) =
        sha256 (server.text sha256 pbkdf2 (server.clientA aBytes)) →
      server.clientText sha256 pbkdf2 (form.spell (server.B sha256 pbkdf2)) aBytes =
        server.text sha256 pbkdf2 (server.clientA aBytes)) :
    ∃ proof, computePasswordCheck sha256 pbkdf2 (server.account sha256 pbkdf2 form)
      server.password draws =
        .ok (some proof) ∧
      (server.Accepts sha256 pbkdf2 proof ↔ (form.spell (server.B sha256 pbkdf2)).length =
        256) := by
  refine ⟨_, Server.computePasswordCheck_eq hdraw, ?_⟩
  rw [Server.accepts_iff, ← Server.clientText_eq_text_iff form aBytes]
  exact ⟨hsha, congrArg sha256⟩

/-! ### A server

Its `B` is a small number, which the client is told without the leading zero bytes.
-/

/-- A digest whose last byte is a remainder of the text. -/
def remainder : Sha256 :=
  fun data => ⟨List.replicate 31 0 ++ [UInt8.ofNat (fromBytes data % 251)], by simp⟩

/-- A derivation of keys that leaves them as they are. -/
def keep (hash _salt : List UInt8) : List UInt8 := hash

/-- The modulus is `1281 * 2 ^ 2037 + 1`. -/
def smallServer : Server where
  algo :=
    { salt1 := [1, 2]
      salt2 := [3, 4]
      g := 3
      p := [160, 32] ++ List.replicate 253 0 ++ [1] }
  p_length := by decide +kernel
  p_large := by decide +kernel
  g_lt := by decide
  srpId := 7
  password := [112, 97, 115, 115]
  b := 5

theorem prime_smallServer_p : smallServer.p.Prime := by
  have hk : 1281 < 2 ^ (2036 + 1) := by decide +kernel
  have hp : smallServer.p = 1281 * 2 ^ (2036 + 1) + 1 := by decide +kernel
  rw [hp]
  exact Proth.prime_of_squarings (a := 5) (by norm_num) hk (by decide +kernel)

theorem smallServer_draws :
    ([pad 9].find? fun aBytes =>
      0 < smallServer.clientU remainder (Form.trimmed.spell (smallServer.B remainder keep))
        aBytes) = some (pad 9) := by
  decide +kernel

/-- The digest tells the text of the client from that of the server. -/
theorem smallServer_digest_ne :
    remainder (smallServer.clientText remainder keep
      (Form.trimmed.spell (smallServer.B remainder keep)) (pad 9)) ≠
      remainder (smallServer.text remainder keep (smallServer.clientA (pad 9))) := by
  decide +kernel

theorem accepted_iff_trimmed :
    ∃ proof, computePasswordCheck remainder keep (smallServer.account remainder keep .trimmed)
      smallServer.password
        [pad 9] = .ok (some proof) ∧
      (smallServer.Accepts remainder keep proof ↔
        (Form.trimmed.spell (smallServer.B remainder keep)).length = 256) :=
  accepted_iff smallServer_draws fun h => absurd h smallServer_digest_ne

/-- The password is right, and the proof is not accepted. -/
theorem not_accepted_of_trimmed :
    smallServer.p.Prime ∧
      ∃ proof, computePasswordCheck remainder keep (smallServer.account remainder keep .trimmed)
        smallServer.password
          [pad 9] = .ok (some proof) ∧
        ¬ smallServer.Accepts remainder keep proof := by
  refine ⟨prime_smallServer_p, _, Server.computePasswordCheck_eq smallServer_draws, ?_⟩
  rw [Server.accepts_iff]
  exact smallServer_digest_ne

end Pyrogram.Password
