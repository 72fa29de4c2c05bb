import Mathlib.Algebra.Order.Ring.Int
import Mathlib.Tactic.Common

/-!
# Little-endian integers

Integers in a fixed number of bytes, least significant byte first, unsigned and
in two's complement.  Decoding takes whatever bytes there are, so it is defined
on every byte string; encoding a signed integer fails where it does not fit.

## Main definitions

* `encode`, `decode` — natural numbers.
* `encodeSigned`, `decodeSigned` — integers in two's complement.

## Main results

* `decode_encode`, `decodeSigned_encodeSigned` — decoding undoes encoding.
* `encode_decode`, `encodeSigned_decodeSigned` — encoding undoes decoding.
-/

namespace LittleEndian

/-! ### Unsigned -/

/-- The low `w` bytes of a natural number. -/
def encode : ℕ → ℕ → List UInt8
  | 0, _ => []
  | w + 1, n => UInt8.ofNat n :: encode w (n / 256)

/-- The natural number a byte string spells. -/
def decode (bs : List UInt8) : ℕ := bs.foldr (fun b n => b.toNat + 256 * n) 0

@[simp] theorem encode_zero (n : ℕ) : encode 0 n = [] := rfl

@[simp] theorem decode_nil : decode [] = 0 := rfl

@[simp] theorem decode_cons (b : UInt8) (bs : List UInt8) :
    decode (b :: bs) = b.toNat + 256 * decode bs := rfl

@[simp] theorem length_encode (w n : ℕ) : (encode w n).length = w := by
  induction w generalizing n with
  | zero => rfl
  | succ w ih => rw [encode, List.length_cons, ih]

theorem decode_encode_mod (w n : ℕ) : decode (encode w n) = n % 256 ^ w := by
  induction w generalizing n with
  | zero => rw [encode_zero, decode_nil, pow_zero, Nat.mod_one]
  | succ w ih =>
    have hb : (UInt8.ofNat n).toNat = n % 256 := UInt8.toNat_ofNat'
    rw [encode, decode_cons, ih, hb, pow_succ', Nat.mod_mul]

/-- **Decoding undoes encoding** for the numbers that fit. -/
theorem decode_encode {w n : ℕ} (h : n < 256 ^ w) : decode (encode w n) = n := by
  rw [decode_encode_mod, Nat.mod_eq_of_lt h]

theorem decode_lt (bs : List UInt8) : decode bs < 256 ^ bs.length := by
  induction bs with
  | nil => exact Nat.one_pos
  | cons b bs ih =>
    have hb := b.toNat_lt
    rw [decode_cons, List.length_cons, pow_succ']
    omega

/-- **Encoding undoes decoding**: a byte string is spelled by its number. -/
theorem encode_decode (bs : List UInt8) : encode bs.length (decode bs) = bs := by
  induction bs with
  | nil => rfl
  | cons b bs ih =>
    have hb : b.toNat < 256 := b.toNat_lt
    have hlow : UInt8.ofNat (b.toNat + 256 * decode bs) = b := by
      apply UInt8.toNat_inj.mp
      rw [UInt8.toNat_ofNat', Nat.add_mul_mod_self_left, Nat.mod_eq_of_lt hb]
    have hhigh : (b.toNat + 256 * decode bs) / 256 = decode bs := by omega
    rw [decode_cons, List.length_cons, encode, hlow, hhigh, ih]

/-! ### Two's complement -/

/-- `z` in `w` bytes; `none` where it does not fit. -/
def encodeSigned (w : ℕ) (z : ℤ) : Option (List UInt8) :=
  if -256 ^ w ≤ 2 * z ∧ 2 * z < 256 ^ w then some (encode w (z % 256 ^ w).toNat) else none

/-- The integer a byte string spells; the top bit is its sign. -/
def decodeSigned (bs : List UInt8) : ℤ :=
  if 256 ^ bs.length ≤ 2 * decode bs then (decode bs : ℤ) - 256 ^ bs.length else decode bs

theorem encodeSigned_eq_some {w : ℕ} {z : ℤ} {bs : List UInt8} :
    encodeSigned w z = some bs ↔
      (-256 ^ w ≤ 2 * z ∧ 2 * z < 256 ^ w) ∧ encode w (z % 256 ^ w).toNat = bs := by
  unfold encodeSigned
  split <;> simp_all

theorem length_encodeSigned {w : ℕ} {z : ℤ} {bs : List UInt8} (h : encodeSigned w z = some bs) :
    bs.length = w := by
  obtain ⟨-, rfl⟩ := encodeSigned_eq_some.mp h
  exact length_encode w _

/-- **Decoding undoes encoding** in two's complement. -/
theorem decodeSigned_encodeSigned {w : ℕ} {z : ℤ} {bs : List UInt8}
    (h : encodeSigned w z = some bs) : decodeSigned bs = z := by
  obtain ⟨⟨hlo, hhi⟩, rfl⟩ := encodeSigned_eq_some.mp h
  have hpos : (0 : ℤ) < 256 ^ w := pow_pos (by decide) w
  have hmod : 0 ≤ z % 256 ^ w := Int.emod_nonneg z hpos.ne'
  have hlt : (z % 256 ^ w).toNat < 256 ^ w := by
    rw [Int.toNat_lt hmod]
    exact_mod_cast Int.emod_lt_of_pos z hpos
  have hcast : ((256 ^ w : ℕ) : ℤ) = 256 ^ w := Nat.cast_pow 256 w
  unfold decodeSigned
  rw [length_encode, decode_encode hlt, Int.toNat_of_nonneg hmod]
  rcases lt_or_ge z 0 with hz | hz
  · -- a negative number is stored one modulus higher
    have hshift : z % 256 ^ w = z + 256 ^ w := by
      rw [← Int.add_emod_right, Int.emod_eq_of_lt (by omega) (by omega)]
    rw [hshift, if_pos (by omega), Int.add_sub_cancel]
  · have hsame : z % 256 ^ w = z := Int.emod_eq_of_lt hz (by omega)
    rw [hsame, if_neg (by omega)]

/-- **Encoding undoes decoding** in two's complement. -/
theorem encodeSigned_decodeSigned (bs : List UInt8) :
    encodeSigned bs.length (decodeSigned bs) = some bs := by
  have hlt := decode_lt bs
  have hcast : ((256 ^ bs.length : ℕ) : ℤ) = 256 ^ bs.length := Nat.cast_pow 256 _
  have hmod : (decodeSigned bs % 256 ^ bs.length).toNat = decode bs := by
    unfold decodeSigned
    split
    · rw [Int.sub_emod_right, Int.emod_eq_of_lt (by omega) (by omega), Int.toNat_natCast]
    · rw [Int.emod_eq_of_lt (by omega) (by omega), Int.toNat_natCast]
  refine encodeSigned_eq_some.mpr ⟨?_, ?_⟩
  · unfold decodeSigned
    split <;> omega
  · rw [hmod, encode_decode]

end LittleEndian
