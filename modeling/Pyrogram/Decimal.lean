import Mathlib.Algebra.Order.Ring.Int
import Mathlib.Tactic.Common

/-!
# Decimal numerals

An integer as it is printed, and as it is read.

## Main results

* `read_format` — what is printed is read.
-/

namespace Decimal

def format : ℤ → List Char
  | .ofNat n => Nat.toDigits 10 n
  | .negSucc n => '-' :: Nat.toDigits 10 (n + 1)

def readNat (l : List Char) : Option ℕ :=
  if l ≠ [] ∧ l.all Char.isDigit then some (Nat.ofDigitChars 10 l 0) else none

/-- Digits, after a minus or none. -/
def read : List Char → Option ℤ
  | [] => none
  | c :: l => if c = '-' then (readNat l).map fun n => -Int.ofNat n else (readNat
      (c :: l)).map Int.ofNat

theorem isDigit_toDigits {n : ℕ} {c : Char} (h : c ∈ Nat.toDigits 10 n) : c.isDigit = true :=
  Nat.isDigit_of_mem_toDigits (by decide) (by decide) h

theorem format_natCast (n : ℕ) : format n = Nat.toDigits 10 n := rfl

theorem readNat_toDigits (n : ℕ) : readNat (Nat.toDigits 10 n) = some n := by
  have hall : (Nat.toDigits 10 n).all Char.isDigit = true := List.all_eq_true.mpr fun c hc =>
    isDigit_toDigits hc
  rw [readNat, if_pos ⟨Nat.toDigits_ne_nil, hall⟩, Nat.ofDigitChars_toDigits (by decide) le_rfl]

/-- **What is printed is read.** -/
theorem read_format (n : ℤ) : read (format n) = some n := by
  cases n with
  | ofNat n =>
    have hread := readNat_toDigits n
    have hdigits : ∀ c ∈ Nat.toDigits 10 n, c.isDigit = true := fun c hc => isDigit_toDigits hc
    rw [format]
    cases hl : Nat.toDigits 10 n with
    | nil => exact absurd hl Nat.toDigits_ne_nil
    | cons c l =>
      rw [hl] at hread hdigits
      have hne : c ≠ '-' := by
        rintro rfl
        cases hdigits '-' List.mem_cons_self
      rw [read, if_neg hne, hread, Option.map_some]
  | negSucc n =>
    rw [format, read, if_pos rfl, readNat_toDigits, Option.map_some]
    rfl

end Decimal
