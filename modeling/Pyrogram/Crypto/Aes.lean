import Pyrogram.BlockModes
import Pyrogram.Errors
import Pyrogram.LittleEndian
import Mathlib.Data.Nat.Bitwise
import Mathlib.Logic.Equiv.Defs

/-!
# AES in IGE and CTR mode

`crypto/aes.py` as it is without the `tgcrypto` extension: `ige` and `ctr` over
the block cipher of `pyaes`, which is not part of the sources and is any
permutation of the 16-byte blocks for each key.

## Main definitions

* `Cipher` — `pyaes.AES`.
* `xor` — the exclusive or of byte strings, through integers.
* `ige`, `ctr` — the two modes.

## Main results

* `ige_decrypt_encrypt` — decryption undoes encryption on whole blocks.
* `ctrWith_eq` — `ctr` adds a keystream, and leaves its position in `iv` and `state`.
-/

namespace Pyrogram.Aes

/-! ### Blocks -/

/-- `int.from_bytes(b, "big")`. -/
def fromBytes (b : List UInt8) : ℕ := LittleEndian.decode b.reverse

/-- `int.to_bytes(n, length, "big")`. -/
def toBytes (n length : ℕ) : Except Exc (List UInt8) :=
  if n < 256 ^ length then .ok (LittleEndian.encode length n).reverse
  else .error (.overflowError "int too big to convert")

def xor (a b : List UInt8) : Except Exc (List UInt8) :=
  toBytes (fromBytes a ^^^ fromBytes b) a.length

abbrev Block := {b : List UInt8 // b.length = 16}

/-- `pyaes.AES`: for each key a permutation of the blocks. -/
abbrev Cipher := List UInt8 → Equiv.Perm Block

/-- `cipher.encrypt(b)`. -/
def Cipher.encrypt (cipher : Cipher) (key b : List UInt8) : Except Exc (List UInt8) :=
  if h : b.length = 16 then .ok (cipher key ⟨b, h⟩).val
    else .error (.valueError "wrong block length")

/-- `cipher.decrypt(b)`. -/
def Cipher.decrypt (cipher : Cipher) (key b : List UInt8) : Except Exc (List UInt8) :=
  if h : b.length = 16 then .ok ((cipher key).symm ⟨b, h⟩).val
  else .error (.valueError "wrong block length")

@[simp] theorem Cipher.encrypt_val (cipher : Cipher) (key : List UInt8) (b : Block) :
    cipher.encrypt key b.val = .ok (cipher key b).val := dif_pos b.property

@[simp] theorem Cipher.decrypt_val (cipher : Cipher) (key : List UInt8) (b : Block) :
    cipher.decrypt key b.val = .ok ((cipher key).symm b).val := dif_pos b.property

theorem fromBytes_lt (b : List UInt8) : fromBytes b < 256 ^ b.length := by
  simpa [fromBytes] using LittleEndian.decode_lt b.reverse

/-- A byte string is spelled by its number. -/
theorem toBytes_fromBytes (b : List UInt8) : toBytes (fromBytes b) b.length = .ok b := by
  have hb := LittleEndian.encode_decode b.reverse
  rw [List.length_reverse] at hb
  rw [toBytes, if_pos (fromBytes_lt b), fromBytes, hb, List.reverse_reverse]

theorem fromBytes_of_toBytes {n length : ℕ} {b : List UInt8} (h : toBytes n length = .ok b) :
    fromBytes b = n ∧ b.length = length := by
  unfold toBytes at h
  split at h
  case isTrue hn =>
    obtain rfl := Except.ok.inj h
    rw [fromBytes, List.reverse_reverse, LittleEndian.decode_encode hn]
    exact ⟨rfl, by simp⟩
  case isFalse => cases h

/-- Byte strings of one length have an exclusive or. -/
theorem exists_xor {a b : List UInt8} (h : b.length = a.length) :
    ∃ c, xor a b = .ok c ∧ fromBytes c = fromBytes a ^^^ fromBytes b ∧ c.length = a.length := by
  have hpow : ∀ n, 256 ^ n = 2 ^ (8 * n) := by
    intro n
    rw [pow_mul]
    rfl
  have ha : fromBytes a < 2 ^ (8 * a.length) := hpow a.length ▸ fromBytes_lt a
  have hb : fromBytes b < 2 ^ (8 * a.length) := hpow a.length ▸ h ▸ fromBytes_lt b
  have hlt : fromBytes a ^^^ fromBytes b < 256 ^ a.length :=
    (hpow a.length).symm ▸ Nat.xor_lt_two_pow ha hb
  have hok : xor a b =
      .ok (LittleEndian.encode a.length (fromBytes a ^^^ fromBytes b)).reverse := if_pos hlt
  exact ⟨_, hok, fromBytes_of_toBytes hok⟩

/-- The exclusive or of two blocks. -/
def Block.xor (a b : Block) : Block :=
  ⟨(LittleEndian.encode 16 (fromBytes a.val ^^^ fromBytes b.val)).reverse, by simp⟩

theorem xor_val (a b : Block) : Aes.xor a.val b.val = .ok (Block.xor a b).val := by
  obtain ⟨c, hc, hn, hlen⟩ := exists_xor (b.property.trans a.property.symm)
  have hc' := toBytes_fromBytes c
  rw [hc, ← hc', hn, hlen, a.property, toBytes, if_pos]
  · rfl
  · rw [← hn, ← a.property, ← hlen]
    exact fromBytes_lt c

theorem Block.xor_xor (a b : Block) : Block.xor (Block.xor a b) b = a := by
  have h1 := fromBytes_of_toBytes (xor_val a b)
  have h2 : Aes.xor (Block.xor a b).val b.val = toBytes (fromBytes a.val) a.val.length := by
    rw [Aes.xor, h1.1, h1.2, Nat.xor_assoc, Nat.xor_self, Nat.xor_zero]
  rw [xor_val, toBytes_fromBytes] at h2
  exact Subtype.ext (Except.ok.inj h2)

/-! ### IGE -/

/-- `[data[i : i + 16] for i in range(0, len(data), 16)]`. -/
def chunks (data : List UInt8) : List (List UInt8) :=
  (List.range ((data.length + 15) / 16)).map fun i => (data.drop (16 * i)).take 16

/-- The loop of `ige` with `encrypt`. -/
def igeEncrypt (cipher : Cipher) (key : List UInt8) :
    List UInt8 → List UInt8 → List (List UInt8) → Except Exc (List (List UInt8))
  | _, _, [] => .ok []
  | iv1, iv2, chunk :: data => do
      let c ← xor (← cipher.encrypt key (← xor chunk iv1)) iv2
      return c :: (← igeEncrypt cipher key c chunk data)

/-- The loop of `ige` without it. -/
def igeDecrypt (cipher : Cipher) (key : List UInt8) :
    List UInt8 → List UInt8 → List (List UInt8) → Except Exc (List (List UInt8))
  | _, _, [] => .ok []
  | iv1, iv2, chunk :: data => do
      let p ← xor (← cipher.decrypt key (← xor chunk iv2)) iv1
      return p :: (← igeDecrypt cipher key chunk p data)

def ige (cipher : Cipher) (data key iv : List UInt8) (encrypt : Bool) : Except Exc (List UInt8) :=
  let iv1 := iv.take 16
  let iv2 := iv.drop 16
  (if encrypt then igeEncrypt cipher key iv1 iv2 (chunks data)
    else igeDecrypt cipher key iv1 iv2 (chunks data)).map List.flatten

theorem length_flatten_val (bs : List Block) :
    (bs.map Subtype.val).flatten.length = 16 * bs.length := by
  induction bs with
  | nil => rfl
  | cons b bs ih =>
    rw [List.map_cons, List.flatten_cons, List.length_append, b.property, ih, List.length_cons]
    omega

/-- Blocks in a row are cut apart again. -/
theorem chunks_flatten (bs : List Block) :
    chunks (bs.map Subtype.val).flatten = bs.map Subtype.val := by
  induction bs with
  | nil => rfl
  | cons b bs ih =>
    have hlen : (((b :: bs).map Subtype.val).flatten.length + 15) / 16 =
        ((bs.map Subtype.val).flatten.length + 15) / 16 + 1 := by
      rw [length_flatten_val, length_flatten_val, List.length_cons]
      omega
    rw [chunks, hlen, List.range_succ_eq_map, List.map_cons, List.map_map]
    refine congrArg₂ List.cons ?_ ?_
    · rw [Nat.mul_zero, List.drop_zero, List.map_cons, List.flatten_cons,
        List.take_left' b.property]
    · refine Eq.trans ?_ ih
      rw [chunks]
      refine List.map_congr_left ?_
      intro i _
      show (List.drop (16 * (i + 1)) _).take 16 = _
      rw [Nat.mul_succ, Nat.add_comm, ← List.drop_drop, List.map_cons, List.flatten_cons,
        List.drop_left' b.property]

/-- A text of whole blocks is a list of blocks. -/
theorem exists_blocks {data : List UInt8} (h : 16 ∣ data.length) :
    ∃ bs : List Block, data = (bs.map Subtype.val).flatten := by
  obtain ⟨n, hn⟩ := h
  induction n generalizing data with
  | zero => exact ⟨[], List.length_eq_zero_iff.mp hn⟩
  | succ n ih =>
    obtain ⟨bs, hbs⟩ := @ih (data.drop 16) (by rw [List.length_drop]; omega)
    refine ⟨⟨data.take 16, by rw [List.length_take]; omega⟩ :: bs, ?_⟩
    rw [List.map_cons, List.flatten_cons, ← hbs, List.take_append_drop]

/-- On blocks the loop of `ige` is IGE. -/
theorem igeEncrypt_map_val (cipher : Cipher) (key : List UInt8) (a b : Block) (bs : List Block) :
    igeEncrypt cipher key a.val b.val (bs.map Subtype.val) =
      .ok ((BlockModes.igeEncrypt Block.xor (cipher key) a b bs).map Subtype.val) := by
  induction bs generalizing a b with
  | nil => rfl
  | cons x bs ih =>
    rw [List.map_cons, igeEncrypt, xor_val, Except.bind_ok, Cipher.encrypt_val, Except.bind_ok,
      xor_val, Except.bind_ok, ih]
    rfl

theorem igeDecrypt_map_val (cipher : Cipher) (key : List UInt8) (a b : Block) (bs : List Block) :
    igeDecrypt cipher key a.val b.val (bs.map Subtype.val) =
      .ok ((BlockModes.igeDecrypt Block.xor (cipher key).symm a b bs).map Subtype.val) := by
  induction bs generalizing a b with
  | nil => rfl
  | cons x bs ih =>
    rw [List.map_cons, igeDecrypt, xor_val, Except.bind_ok, Cipher.decrypt_val, Except.bind_ok,
      xor_val, Except.bind_ok, ih]
    rfl

/-- **Decryption undoes encryption** on every text of whole blocks. -/
theorem ige_decrypt_encrypt (cipher : Cipher) {data key iv : List UInt8} (hdata : 16 ∣ data.length)
    (hiv : iv.length = 32) :
    ∃ c, ige cipher data key iv true = .ok c ∧ c.length = data.length ∧
      ige cipher c key iv false = .ok data := by
  obtain ⟨bs, rfl⟩ := exists_blocks hdata
  obtain ⟨iv1, hiv1⟩ : ∃ b : Block, b.val = iv.take 16 :=
    ⟨⟨iv.take 16, by rw [List.length_take]; omega⟩, rfl⟩
  obtain ⟨iv2, hiv2⟩ : ∃ b : Block, b.val = iv.drop 16 :=
    ⟨⟨iv.drop 16, by rw [List.length_drop]; omega⟩, rfl⟩
  let cs := BlockModes.igeEncrypt Block.xor (cipher key) iv1 iv2 bs
  have hback : BlockModes.igeDecrypt Block.xor (cipher key).symm iv1 iv2 cs = bs :=
    BlockModes.igeDecrypt_igeEncrypt Block.xor_xor (cipher key).symm_apply_apply iv1 iv2 bs
  refine ⟨(cs.map Subtype.val).flatten, ?_, ?_, ?_⟩
  · rw [ige, ← hiv1, ← hiv2, chunks_flatten, if_pos rfl, igeEncrypt_map_val]
    rfl
  · rw [length_flatten_val, length_flatten_val, BlockModes.length_igeEncrypt]
  · rw [ige, ← hiv1, ← hiv2, chunks_flatten, if_neg (by decide), igeDecrypt_map_val, hback]
    rfl

/-! ### CTR -/

/-- The loop over `k`: `iv` counted up by one as a big-endian number, given from
its last byte. -/
def carry : List UInt8 → List UInt8
  | [] => []
  | b :: bs => if b = 255 then 0 :: carry bs else (b + 1) :: bs

@[simp] theorem length_carry (bs : List UInt8) : (carry bs).length = bs.length := by
  induction bs with
  | nil => rfl
  | cons b bs ih =>
    rw [carry]
    split
    · rw [List.length_cons, List.length_cons, ih]
    · rfl

def Block.increment (iv : Block) : Block := ⟨(carry iv.val.reverse).reverse, by simp [iv.property]⟩

/-- `chunk[i]`. -/
def Block.get (chunk : Block) (i : Fin 16) : UInt8 := chunk.val.get (i.cast chunk.property.symm)

/-- `iv` and `state[0]`, which `ctr` changes in place; adding one to `state[0]`
wraps at 16. -/
structure Counter where
  iv : Block
  state : Fin 16
  deriving DecidableEq, Repr

/-- `iv` and a `state` of zero. -/
def Counter.start (iv : Block) : Counter := ⟨iv, 0⟩

/-- The loop of `ctr` over the bytes, for any function of blocks; `chunk` is the
encrypted `iv`. -/
def ctrLoop (encrypt : Block → Block) : Counter → Block → List UInt8 → List UInt8 × Counter
  | counter, _, [] => ([], counter)
  | counter, chunk, b :: data =>
      let state := counter.state + 1
      let iv := if state = 0 then counter.iv.increment else counter.iv
      let chunk' := if state = 0 then encrypt iv else chunk
      (ctrLoop encrypt ⟨iv, state⟩ chunk' data).map ((b ^^^ chunk.get counter.state) :: ·) id

/-- `ctr(data, key, iv, state)` with the cipher of the key, and what it leaves in
`iv` and `state`. -/
def ctrWith (encrypt : Block → Block) (counter : Counter) (data : List UInt8) :
    List UInt8 × Counter :=
  ctrLoop encrypt counter (encrypt counter.iv) data

/-- A function of a key and a block, which for `ctr` need not have an inverse. -/
abbrev BlockFunction := List UInt8 → Block → Block

def ctr (cipher : Cipher) (key : List UInt8) (counter : Counter) (data : List UInt8) :
    List UInt8 × Counter :=
  ctrWith (cipher key) counter data

/-- The keystream of the counter. -/
def keystreamWith (encrypt : Block → Block) : BlockModes.Keystream Counter where
  emit counter := (encrypt counter.iv).get counter.state
  next counter := ⟨if counter.state + 1 = 0 then counter.iv.increment else counter.iv,
    counter.state + 1⟩

def keystream (cipher : Cipher) (key : List UInt8) : BlockModes.Keystream Counter :=
  keystreamWith (cipher key)

/-- **`ctr` adds the keystream and leaves its position behind**, so that the next
call goes on where this one ended. -/
theorem ctrWith_eq (encrypt : Block → Block) (counter : Counter) (data : List UInt8) :
    ctrWith encrypt counter data = ((keystreamWith encrypt).apply counter data,
      (keystreamWith encrypt).advance counter data.length) := by
  unfold ctrWith
  induction data generalizing counter with
  | nil => rfl
  | cons b data ih =>
    -- the chunk carried along is the encrypted `iv` of the counter carried along
    have hchunk : (if counter.state + 1 = 0
          then encrypt (if counter.state + 1 = 0 then counter.iv.increment else counter.iv)
          else encrypt counter.iv) =
        encrypt ((keystreamWith encrypt).next counter).iv := by
      show _ = encrypt (if counter.state + 1 = 0 then counter.iv.increment else counter.iv)
      split <;> rfl
    show Prod.map _ _ (ctrLoop encrypt ((keystreamWith encrypt).next counter) _ data) = _
    rw [hchunk, ih]
    rfl

theorem ctr_eq (cipher : Cipher) (key : List UInt8) (counter : Counter) (data : List UInt8) :
    ctr cipher key counter data = ((keystream cipher key).apply counter data,
      (keystream cipher key).advance counter data.length) := ctrWith_eq (cipher key) counter data

end Pyrogram.Aes
