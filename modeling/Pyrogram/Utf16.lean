import Pyrogram.Utf8

/-!
# UTF-16 within texts

A text may hold surrogates as code points of their own, so that the UTF-16 form of a text is
again a text: a character beyond the basic plane is replaced by two surrogates.

## Main definitions

* `encode` — every character by its units.
* `decode` — pairs of surrogates put together; a surrogate without its other half is an error.

## Main results

* `decode_encode` — a text without surrogates is read back.
* `encode_encode` — the units of a text are their own units.
-/

namespace Utf16

open Utf8

/-- The first surrogate of a character beyond the basic plane. -/
def high (c : Char) : Fin 0x800 := Fin.ofNat _ ((c.toNat - 0x10000) / 0x400)

/-- The second one. -/
def low (c : Char) : Fin 0x800 := Fin.ofNat _ (0x400 + (c.toNat - 0x10000) % 0x400)

def ofPair (h l : Fin 0x800) : Char := Char.ofNat (0x10000 + h.val * 0x400 + (l.val - 0x400))

/-- The units of a code point. -/
def units : CodePoint → List CodePoint
  | .char c => if c.toNat < 0x10000 then [.char c] else [.surrogate (high c), .surrogate (low c)]
  | .surrogate n => [.surrogate n]

def encode (s : List CodePoint) : List CodePoint := s.flatMap units

def decode : List CodePoint → Option (List CodePoint)
  | [] => some []
  | .char c :: s => (decode s).map (.char c :: ·)
  | .surrogate h :: .surrogate l :: s =>
      if h.val < 0x400 ∧ 0x400 ≤ l.val then (decode s).map (.char (ofPair h l) :: ·) else none
  | .surrogate _ :: _ => none

@[simp] theorem encode_nil : encode [] = [] := rfl

@[simp] theorem encode_cons (p : CodePoint) (s : List CodePoint) :
    encode (p :: s) = units p ++ encode s := rfl

@[simp] theorem encode_append (s t : List CodePoint) : encode (s ++ t) = encode s ++ encode t :=
  List.flatMap_append

theorem val_high {c : Char} (hc : ¬ c.toNat < 0x10000) :
    (high c).val = (c.toNat - 0x10000) / 0x400 := by
  have hlt := (CodePoint.char c).toNat_lt
  simp only [CodePoint.toNat] at hlt
  simp only [high, Fin.val_ofNat]
  omega

theorem val_low (c : Char) : (low c).val = 0x400 + (c.toNat - 0x10000) % 0x400 := by
  simp only [low, Fin.val_ofNat]
  omega

theorem ofPair_high_low {c : Char} (hc : ¬ c.toNat < 0x10000) : ofPair (high c) (low c) = c := by
  rw [ofPair, val_high hc, val_low]
  have heq : 0x10000 + (c.toNat - 0x10000) / 0x400 * 0x400 +
      (0x400 + (c.toNat - 0x10000) % 0x400 - 0x400) = c.toNat := by
    omega
  rw [heq, Char.ofNat_toNat]

/-- **A text without surrogates is read back**, with whatever follows. -/
theorem decode_units_append (c : Char) (s : List CodePoint) :
    decode (units (.char c) ++ s) = (decode s).map (.char c :: ·) := by
  by_cases hc : c.toNat < 0x10000
  · rw [units, if_pos hc]
    rfl
  · rw [units, if_neg hc]
    have hhigh : (high c).val < 0x400 := by
      have hlt := (CodePoint.char c).toNat_lt
      simp only [CodePoint.toNat] at hlt
      rw [val_high hc]
      omega
    have hlow : 0x400 ≤ (low c).val := by
      rw [val_low]
      omega
    show (if (high c).val < 0x400 ∧ 0x400 ≤ (low c).val then
      (decode s).map (.char (ofPair (high c) (low c)) :: ·) else none) = _
    rw [if_pos ⟨hhigh, hlow⟩, ofPair_high_low hc]

theorem decode_encode (t : List Char) : decode (encode (t.map .char)) = some (t.map .char) := by
  induction t with
  | nil => rfl
  | cons c t ih =>
    rw [List.map_cons, encode_cons, decode_units_append, ih]
    rfl

theorem encode_units (p : CodePoint) : encode (units p) = units p := by
  cases p with
  | surrogate n => rfl
  | char c =>
    by_cases hc : c.toNat < 0x10000
    · simp [units, hc]
    · simp [units, hc]

/-- **The units of a text are their own units.** -/
@[simp] theorem encode_encode (s : List CodePoint) : encode (encode s) = encode s := by
  induction s with
  | nil => rfl
  | cons p s ih => rw [encode_cons, encode_append, encode_units, ih]

end Utf16
