import Pyrogram.Crypto.Aes
import Mathlib.Data.List.Basic

/-!
# CTR mode over several calls

A file is decrypted chunk by chunk and a connection packet by packet, with `iv` and `state` handed
from one call of `ctr` to the next.

## Main definitions

* `ctrAll` — the calls of `ctr` over the pieces of a text.
* `ctrReference` — counter mode as it is defined: byte `j` meets byte `j % 16` of the encrypted
  number `iv + j / 16`, of 128 bits.

## Main results

* `increment_counter` — the carry over the bytes of `iv` counts by one, and wraps.
* `ctrAll_eq_reference` — **however the text is cut, `ctr` is counter mode**, and undoes itself.
-/

namespace Pyrogram.Aes

open BlockModes

/-- The outputs of `ctr` for the pieces of a text, one call after the other. -/
def ctrAll (encrypt : Block → Block) : Counter → List (List UInt8) → List (List UInt8)
  | _, [] => []
  | counter, data :: pieces =>
      let (out, counter) := ctrWith encrypt counter data
      out :: ctrAll encrypt counter pieces

/-! ### The reference -/

def Block.toNat (b : Block) : ℕ := fromBytes b.val

/-- The block of a number of 128 bits, its first byte the highest. -/
def Block.ofNat (n : ℕ) : Block := ⟨(LittleEndian.encode 16 n).reverse, by simp⟩

/-- The `i`-th counter block. -/
def Block.counter (iv : Block) (i : ℕ) : Block := .ofNat ((iv.toNat + i) % 2 ^ 128)

local instance neZero_sixteen : NeZero 16 := ⟨by decide⟩

/-- The `j`-th byte of the keystream. -/
def keyByte (encrypt : Block → Block) (iv : Block) (j : ℕ) : UInt8 :=
  (encrypt (iv.counter (j / 16))).get (Fin.ofNat 16 j)

def ctrReference (encrypt : Block → Block) (iv : Block) (data : List UInt8) : List UInt8 :=
  data.mapIdx fun j b => b ^^^ keyByte encrypt iv j

/-! ### Counting -/

/-- The carry adds one, and wraps when all bytes are 255. -/
theorem decode_carry (bs : List UInt8) :
    LittleEndian.decode (carry bs) = (LittleEndian.decode bs + 1) % 256 ^ bs.length := by
  induction bs with
  | nil => rfl
  | cons b bs ih =>
    have hlt := LittleEndian.decode_lt bs
    rw [carry, LittleEndian.decode_cons, List.length_cons, pow_succ']
    split
    · next hb =>
      have hsum : (255 : UInt8).toNat + 256 * LittleEndian.decode bs + 1 = 256 *
          (LittleEndian.decode bs + 1) := by
        have h255 : (255 : UInt8).toNat = 255 := rfl
        omega
      rw [LittleEndian.decode_cons, ih, hb, hsum, Nat.mul_mod_mul_left]
      exact Nat.zero_add _
    · next hb =>
      have hne : b.toNat ≠ 255 := fun h => hb (UInt8.toNat_inj.mp h)
      have hb' : b.toNat < 256 := b.toNat_lt
      have hsucc : (b + 1).toNat = b.toNat + 1 := by
        have hone : (1 : UInt8).toNat = 1 := rfl
        rw [UInt8.toNat_add, hone]
        omega
      rw [LittleEndian.decode_cons, hsucc, Nat.mod_eq_of_lt (by omega)]
      omega

theorem Block.toNat_lt (b : Block) : b.toNat < 2 ^ 128 := by
  have hlt := fromBytes_lt b.val
  rw [b.property] at hlt
  exact hlt

theorem Block.toNat_ofNat {n : ℕ} (h : n < 2 ^ 128) : (Block.ofNat n).toNat = n := by
  rw [toNat, ofNat, fromBytes, List.reverse_reverse, LittleEndian.decode_encode h]

theorem Block.ofNat_toNat (b : Block) : Block.ofNat b.toNat = b := by
  have hb := LittleEndian.encode_decode b.val.reverse
  rw [List.length_reverse, b.property] at hb
  apply Subtype.ext
  show (LittleEndian.encode 16 (LittleEndian.decode b.val.reverse)).reverse = b.val
  rw [hb, List.reverse_reverse]

theorem Block.toNat_increment (b : Block) : b.increment.toNat = (b.toNat + 1) % 2 ^ 128 := by
  rw [toNat, increment, fromBytes, List.reverse_reverse, decode_carry, List.length_reverse,
    b.property]
  rfl

theorem counter_zero (iv : Block) : iv.counter 0 = iv := by
  rw [Block.counter, Nat.add_zero, Nat.mod_eq_of_lt iv.toNat_lt, Block.ofNat_toNat]

/-- **The next counter block** is the one after it. -/
theorem increment_counter (iv : Block) (i : ℕ) : (iv.counter i).increment = iv.counter (i + 1) := by
  have hlt : (iv.toNat + i) % 2 ^ 128 < 2 ^ 128 := Nat.mod_lt _ (Nat.two_pow_pos 128)
  rw [← Block.ofNat_toNat (iv.counter i).increment, Block.toNat_increment, Block.counter,
    Block.toNat_ofNat hlt, Block.counter, Nat.mod_add_mod, Nat.add_assoc]

/-! ### The keystream -/

variable {encrypt : Block → Block} {iv : Block}

/-- After `j` bytes the counter is at byte `j % 16` of block `j / 16`. -/
theorem advance_start (j : ℕ) :
    (keystreamWith encrypt).advance (.start iv) j = ⟨iv.counter (j / 16), Fin.ofNat 16 j⟩ := by
  induction j with
  | zero => exact congrArg (Counter.mk · 0) (counter_zero iv).symm
  | succ j ih =>
    rw [Keystream.advance_add, ih]
    have hstate : Fin.ofNat 16 j + 1 = Fin.ofNat 16 (j + 1) := by
      apply Fin.ext
      simp [Fin.val_add]
    show Counter.mk _ _ = _
    simp only [hstate]
    congr 1
    split
    · next h =>
      have hmod : (j + 1) % 16 = 0 := congrArg Fin.val h
      rw [increment_counter, show (j + 1) / 16 = j / 16 + 1 by omega]
    · next h =>
      have hmod : (j + 1) % 16 ≠ 0 := fun hzero => h (Fin.ext hzero)
      rw [show (j + 1) / 16 = j / 16 by omega]

theorem apply_start (data : List UInt8) :
    (keystreamWith encrypt).apply (.start iv) data = ctrReference encrypt iv data := by
  rw [Keystream.apply_eq_mapIdx]
  simp only [advance_start]
  rfl

/-- The calls add the keystream to the whole text. -/
theorem flatten_ctrAll (counter : Counter) (pieces : List (List UInt8)) :
    (ctrAll encrypt counter pieces).flatten =
      (keystreamWith encrypt).apply counter pieces.flatten := by
  induction pieces generalizing counter with
  | nil => rfl
  | cons data pieces ih =>
    rw [ctrAll, ctrWith_eq, List.flatten_cons, ih, List.flatten_cons, Keystream.apply_append]

/-- **However a text is cut, the calls of `ctr` add the keystream of the reference to it**, and the
calls over their output, from the same `iv` and cut in any other way, give the text back. -/
theorem ctrAll_eq_reference (cipher : List UInt8 → Block → Block) (key : List UInt8) (iv : Block)
    (pieces : List (List UInt8)) :
    (ctrAll (cipher key) (.start iv) pieces).flatten = ctrReference (cipher key) iv pieces.flatten ∧
      ∀ pieces', pieces'.flatten = (ctrAll (cipher key) (.start iv) pieces).flatten →
        (ctrAll (cipher key) (.start iv) pieces').flatten = pieces.flatten := by
  refine ⟨by rw [flatten_ctrAll, apply_start], ?_⟩
  intro pieces' h
  rw [flatten_ctrAll, h, flatten_ctrAll, Keystream.apply_apply]

end Pyrogram.Aes
