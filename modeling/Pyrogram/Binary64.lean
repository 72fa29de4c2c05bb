import Mathlib.Algebra.Order.Group.Nat
import Mathlib.Algebra.Order.Ring.Nat
import Mathlib.Data.Nat.Log
import Mathlib.Tactic.Common

/-!
# Whole numbers in double precision

A double has a significand of 53 bits, so a whole number of more bits is rounded to the nearest
multiple of a power of two, and to the even one of two that are equally near.

## Main definitions

* `shift` — how many bits of a number are lost.
* `nearest` — the double nearest to a number, which is whole itself.

## Main results

* `nearest_le`, `le_nearest` — rounding does not cross a multiple of what is lost.
-/

namespace Binary64

/-- How many bits of a number are below the 53 highest. -/
def shift (n : ℕ) : ℕ := Nat.log2 n - 52

/-- The double nearest to a number; of two, the one with the even significand. -/
def nearest (n : ℕ) : ℕ :=
  let quotient := n / 2 ^ shift n
  let rest := n % 2 ^ shift n
  if 2 * rest < 2 ^ shift n ∨ 2 * rest = 2 ^ shift n ∧ quotient % 2 = 0 then quotient * 2 ^ shift n
  else (quotient + 1) * 2 ^ shift n

variable {n m e : ℕ}

theorem shift_le (h : n < 2 ^ (e + 53)) : shift n ≤ e := by
  rcases eq_or_ne n 0 with rfl | hn
  · exact Nat.zero_le _
  · have := (Nat.log2_lt hn).mpr h
    rw [shift]
    omega

/-- A multiple of what is lost is one of a smaller power. -/
theorem mul_two_pow (h : shift n ≤ e) (m : ℕ) :
    m * 2 ^ e = m * 2 ^ (e - shift n) * 2 ^ shift n := by
  rw [mul_assoc, ← pow_add, Nat.sub_add_cancel h]

theorem quotient_mul_le_nearest (n : ℕ) : n / 2 ^ shift n * 2 ^ shift n ≤ nearest n := by
  rw [nearest]
  split
  · exact le_rfl
  · exact Nat.mul_le_mul_right _ (Nat.le_succ _)

/-- **Rounding does not go below a multiple** of what is lost. -/
theorem le_nearest (he : shift n ≤ e) (h : m * 2 ^ e ≤ n) : m * 2 ^ e ≤ nearest n := by
  rw [mul_two_pow he] at h ⊢
  have hquotient := (Nat.le_div_iff_mul_le (Nat.two_pow_pos (shift n))).mpr h
  exact (Nat.mul_le_mul_right _ hquotient).trans (quotient_mul_le_nearest n)

/-- **Rounding does not go above a multiple** of what is lost. -/
theorem nearest_le (he : shift n ≤ e) (h : n ≤ m * 2 ^ e) : nearest n ≤ m * 2 ^ e := by
  rw [mul_two_pow he] at h ⊢
  have hdiv := Nat.div_add_mod n (2 ^ shift n)
  have hpos := Nat.two_pow_pos (shift n)
  rw [mul_comm] at hdiv
  rw [nearest]
  split
  · omega
  · -- something is lost, so the quotient is below the multiple
    refine Nat.mul_le_mul_right _ (Nat.lt_of_mul_lt_mul_right (a := 2 ^ shift n) ?_)
    omega

end Binary64
