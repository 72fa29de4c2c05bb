import Mathlib.NumberTheory.Fermat

/-!
# Proth's test

A number `k * 2 ^ n + 1` with `k < 2 ^ n` is prime as soon as some `a` has
`a ^ (k * 2 ^ (n - 1)) = -1`, a power that takes `n - 1` squarings to find.

## Main results

* `prime_of_squarings` — the test.
-/

namespace Proth

/-- `a ^ 2 ^ n % p`, by squaring. -/
def squarings (p a : ℕ) : ℕ → ℕ
  | 0 => a % p
  | n + 1 => squarings p a n ^ 2 % p

theorem squarings_eq (p a n : ℕ) : squarings p a n = a ^ 2 ^ n % p := by
  induction n with
  | zero => rw [squarings, pow_zero, pow_one]
  | succ n ih => rw [squarings, ih, ← Nat.pow_mod, ← pow_mul, pow_succ]

/-- **Proth's test.** -/
theorem prime_of_squarings {k n a : ℕ} (hk : 0 < k) (hkn : k < 2 ^ (n + 1))
    (h : squarings (k * 2 ^ (n + 1) + 1) (a ^ k) n = k * 2 ^ (n + 1)) :
    (k * 2 ^ (n + 1) + 1).Prime := by
  set p := k * 2 ^ (n + 1) + 1 with hp
  have hp2 : 2 ≤ p := by have := Nat.mul_pos hk (Nat.two_pow_pos (n + 1)); omega
  by_contra hcomposite
  -- the least prime factor is small, and divides `(a ^ k) ^ 2 ^ n + 1`
  have hq : p.minFac.Prime := Nat.minFac_prime (by omega)
  have hsq : p.minFac ^ 2 ≤ p := Nat.minFac_sq_le_self (by omega) hcomposite
  have hdvd : p ∣ (a ^ k) ^ 2 ^ n + 1 := by
    rw [squarings_eq] at h
    rw [Nat.dvd_iff_mod_eq_zero, ← Nat.mod_add_mod, h, ← hp, Nat.mod_self]
  have hodd : p.minFac ≠ 2 := by
    intro htwo
    have hdvd2 : 2 ∣ p := htwo ▸ Nat.minFac_dvd p
    have heven : 2 ∣ k * 2 ^ (n + 1) := Dvd.dvd.mul_left (dvd_pow_self 2 n.succ_ne_zero) k
    omega
  -- so it is above `2 ^ (n + 1)`, and its square is not
  obtain ⟨j, hj⟩ := Nat.pow_pow_add_primeFactors_one_lt hq hodd ((Nat.minFac_dvd p).trans hdvd)
  have hjpos : 0 < j := by
    rcases Nat.eq_zero_or_pos j with rfl | hj'
    · rw [hj, Nat.zero_mul] at hq
      exact absurd hq Nat.not_prime_one
    · exact hj'
  have hge : 2 ^ (n + 1) + 1 ≤ p.minFac := by
    rw [hj]
    exact Nat.add_le_add_right (Nat.le_mul_of_pos_left _ hjpos) 1
  have hlt : k * 2 ^ (n + 1) < 2 ^ (n + 1) * 2 ^ (n + 1) :=
    Nat.mul_lt_mul_of_pos_right hkn (Nat.two_pow_pos _)
  nlinarith

end Proth
