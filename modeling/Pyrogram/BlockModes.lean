import Mathlib.Tactic.Common

/-!
# Modes of operation

Two ways to encrypt a text with a block cipher, over what they need of it.  The
infinite garble extension (IGE) needs blocks with an exclusive or and a
permutation of them; a stream cipher needs only a keystream, a byte at a time.

## Main definitions

* `igeEncrypt`, `igeDecrypt` — IGE over a list of blocks.
* `Keystream` — a state that emits a byte and moves on; `Keystream.apply` adds
  the keystream to a text, `Keystream.advance` is the state after a text.

## Main results

* `igeDecrypt_igeEncrypt` — decryption undoes encryption, for every permutation.
* `Keystream.apply_append` — the text may be given in pieces.
* `Keystream.apply_apply` — the same keystream twice is the identity.
-/

namespace BlockModes

/-! ### Infinite garble extension -/

section Ige

variable {B : Type*} (xor : B → B → B)

/-- IGE encryption: `c` is the ciphertext block before, `p` the plaintext block before. -/
def igeEncrypt (e : B → B) : B → B → List B → List B
  | _, _, [] => []
  | c, p, x :: xs => xor (e (xor x c)) p :: igeEncrypt e (xor (e (xor x c)) p) x xs

/-- IGE decryption. -/
def igeDecrypt (d : B → B) : B → B → List B → List B
  | _, _, [] => []
  | c, p, y :: ys => xor (d (xor y p)) c :: igeDecrypt d y (xor (d (xor y p)) c) ys

@[simp] theorem length_igeEncrypt (e : B → B) (c p : B) (xs : List B) :
    (igeEncrypt xor e c p xs).length = xs.length := by
  induction xs generalizing c p with
  | nil => rfl
  | cons x xs ih => rw [igeEncrypt, List.length_cons, List.length_cons, ih]

variable {xor}

/-- **IGE decryption undoes IGE encryption**: the two sides of the chain see the
same pair of blocks before each block. -/
theorem igeDecrypt_igeEncrypt {e d : B → B} (hxor : ∀ a b, xor (xor a b) b = a)
    (hd : ∀ b, d (e b) = b) (c p : B) (xs : List B) :
    igeDecrypt xor d c p (igeEncrypt xor e c p xs) = xs := by
  induction xs generalizing c p with
  | nil => rfl
  | cons x xs ih => rw [igeEncrypt, igeDecrypt, hxor, hd, hxor, ih]

end Ige

/-! ### Keystreams -/

/-- A generator of key bytes. -/
structure Keystream (κ : Type*) where
  emit : κ → UInt8
  next : κ → κ

namespace Keystream

variable {κ : Type*} (K : Keystream κ)

/-- The text with the keystream added to it. -/
def apply : κ → List UInt8 → List UInt8
  | _, [] => []
  | k, b :: bs => (b ^^^ K.emit k) :: apply (K.next k) bs

/-- The state after `n` bytes. -/
def advance : κ → ℕ → κ
  | k, 0 => k
  | k, n + 1 => advance (K.next k) n

@[simp] theorem length_apply (k : κ) (bs : List UInt8) : (K.apply k bs).length = bs.length := by
  induction bs generalizing k with
  | nil => rfl
  | cons b bs ih => rw [apply, List.length_cons, List.length_cons, ih]

theorem advance_add (k : κ) (m n : ℕ) : K.advance k (m + n) = K.advance (K.advance k m) n := by
  induction m generalizing k with
  | zero => rw [Nat.zero_add, advance]
  | succ m ih => rw [Nat.succ_add, advance, advance, ih]

/-- **A text given in two pieces** is encrypted piece by piece, the second from
the state the first leaves. -/
theorem apply_append (k : κ) (bs cs : List UInt8) :
    K.apply k (bs ++ cs) = K.apply k bs ++ K.apply (K.advance k bs.length) cs := by
  induction bs generalizing k with
  | nil => rfl
  | cons b bs ih => rw [List.cons_append, apply, apply, ih, List.cons_append, List.length_cons,
      advance]

/-- Each byte meets the key byte of its place. -/
theorem apply_eq_mapIdx (k : κ) (bs : List UInt8) :
    K.apply k bs = bs.mapIdx fun j b => b ^^^ K.emit (K.advance k j) := by
  induction bs generalizing k with
  | nil => rfl
  | cons b bs ih =>
    rw [apply, ih, List.mapIdx_cons]
    rfl

/-- **The same keystream twice is the identity.** -/
theorem apply_apply (k : κ) (bs : List UInt8) : K.apply k (K.apply k bs) = bs := by
  induction bs generalizing k with
  | nil => rfl
  | cons b bs ih => rw [apply, apply, ih, UInt8.xor_assoc, UInt8.xor_self, UInt8.xor_zero]

end Keystream

end BlockModes
