import Mathlib.FieldTheory.Finite.Basic
import Mathlib.Data.Nat.Prime.Basic
import Mathlib.Tactic.Common

/-!
# Pocklington's test

A prime `f` divides `r - 1` for every prime divisor `r` of `n` as soon as some `a` has `a ^ (n - 1)
= 1` and `a ^ ((n - 1) / f) - 1` coprime to `n`.  With primes whose product is at least the square
root of `n`, the least prime divisor of `n` is `n` itself.

## Main definitions

* `power` — a power, by squaring, that the kernel can compute.
* `IsWitness` — what is computed for one prime.

## Main results

* `dvd_sub_one` — what a witness says of the prime divisors.
* `prime_of_witnesses` — **the test**, for two primes.
-/

namespace Pocklington

/-! ### Powers -/

/-- `acc * a ^ k % n`, for an exponent of at most `bits` bits. -/
def power (n : ℕ) : ℕ → ℕ → ℕ → ℕ → ℕ
  | 0, acc, _, _ => acc % n
  | bits + 1, acc, a, k => power n bits (if k % 2 = 1 then acc * a % n else acc) (a * a % n) (k / 2)

theorem power_eq (n : ℕ) {bits k : ℕ} (hk : k < 2 ^ bits) (acc a : ℕ) :
    power n bits acc a k = acc * a ^ k % n := by
  induction bits generalizing acc a k with
  | zero =>
    obtain rfl : k = 0 := Nat.lt_one_iff.mp hk
    rw [power, pow_zero, Nat.mul_one]
  | succ bits ih =>
    have hhalf : k / 2 < 2 ^ bits := by
      rw [pow_succ] at hk
      omega
    have hsquare : (a * a % n) ^ (k / 2) ≡ a ^ (2 * (k / 2)) [MOD n] := by
      rw [pow_mul, sq]
      exact (Nat.mod_modEq _ n).pow _
    rw [power, ih hhalf]
    split
    · next hodd =>
      have hk' : a ^ k = a * a ^ (2 * (k / 2)) := by
        rw [← pow_succ', show 2 * (k / 2) + 1 = k by omega]
      rw [hk', ← Nat.mul_assoc]
      exact (Nat.mod_modEq _ n).mul hsquare
    · next heven =>
      rw [show k = 2 * (k / 2) by omega, show 2 * (k / 2) / 2 = k / 2 by omega]
      exact (Nat.ModEq.refl acc).mul hsquare

/-! ### Witnesses -/

/-- `a` shows that `f` divides `r - 1` for every prime divisor `r` of `n`. -/
structure IsWitness (n a f : ℕ) : Prop where
  dvd : f ∣ n - 1
  one : a ^ (n - 1) % n = 1
  coprime : (a ^ ((n - 1) / f) % n + (n - 1)).Coprime n

theorem isWitness_of_power {n a f : ℕ} (bits : ℕ)
    (h : n < 2 ^ bits ∧ f ∣ n - 1 ∧ power n bits 1 a (n - 1) = 1 ∧
    (power n bits 1 a ((n - 1) / f) + (n - 1)).Coprime n) : IsWitness n a f := by
  obtain ⟨hbits, hdvd, hone, hcoprime⟩ := h
  have hlt : n - 1 < 2 ^ bits := Nat.lt_of_le_of_lt (Nat.sub_le n 1) hbits
  rw [power_eq n hlt, Nat.one_mul] at hone
  rw [power_eq n (Nat.lt_of_le_of_lt (Nat.div_le_self _ _) hlt), Nat.one_mul] at hcoprime
  exact ⟨hdvd, hone, hcoprime⟩

/-- The order of `a` modulo `r` is a multiple of `f`. -/
theorem dvd_sub_one {n a f r : ℕ} (h : IsWitness n a f) (hf : f.Prime) (hn : 1 < n) (hr : r.Prime)
    (hrn : r ∣ n) : f ∣ r - 1 := by
  have : Fact r.Prime := ⟨hr⟩
  have hcast : ∀ k, ((a ^ k % n : ℕ) : ZMod r) = (a : ZMod r) ^ k := by
    intro k
    rw [← Nat.cast_pow]
    exact (ZMod.natCast_eq_natCast_iff _ _ _).mpr ((Nat.mod_modEq _ n).of_dvd hrn)
  have hnzero : (n : ZMod r) = 0 := (ZMod.natCast_eq_zero_iff n r).mpr hrn
  have hone : (a : ZMod r) ^ (n - 1) = 1 := by
    rw [← hcast, h.one, Nat.cast_one]
  have hne : (a : ZMod r) ^ ((n - 1) / f) ≠ 1 := by
    intro heq
    have hzero : ((a ^ ((n - 1) / f) % n + (n - 1) : ℕ) : ZMod r) = 0 := by
      rw [Nat.cast_add, hcast, heq, Nat.cast_sub hn.le, hnzero, Nat.cast_one]
      ring
    have hdvd : r ∣ a ^ ((n - 1) / f) % n + (n - 1) := (ZMod.natCast_eq_zero_iff _ r).mp hzero
    exact hr.one_lt.ne' (Nat.eq_one_of_dvd_coprimes h.coprime hdvd hrn)
  have hunit : (a : ZMod r) ≠ 0 := by
    intro hzero
    rw [hzero, zero_pow (by omega)] at hone
    exact zero_ne_one hone
  have horder : orderOf (a : ZMod r) ∣ n - 1 := orderOf_dvd_of_pow_eq_one hone
  have hdvd : f ∣ orderOf (a : ZMod r) := by
    by_contra hnot
    have hcoprime : (orderOf (a : ZMod r)).Coprime f := ((hf.coprime_iff_not_dvd).mpr hnot).symm
    have hsmall : orderOf (a : ZMod r) ∣ (n - 1) / f := by
      refine hcoprime.dvd_of_dvd_mul_left ?_
      rwa [Nat.mul_div_cancel' h.dvd]
    exact hne (orderOf_dvd_iff_pow_eq_one.mp hsmall)
  exact hdvd.trans (orderOf_dvd_of_pow_eq_one (ZMod.pow_card_sub_one_eq_one hunit))

/-- A number is prime if a factor of at least its square root divides `r - 1` for its prime divisors
`r`. -/
theorem prime_of_dvd_sub_one {n F : ℕ} (hn : 1 < n) (hF : n ≤ F ^ 2)
    (h : ∀ r, r.Prime → r ∣ n → F ∣ r - 1) : n.Prime := by
  by_contra hcomposite
  have hr : n.minFac.Prime := Nat.minFac_prime hn.ne'
  have hle : F ≤ n.minFac - 1 := Nat.le_of_dvd (Nat.sub_pos_of_lt hr.one_lt) (h _ hr n.minFac_dvd)
  have hsquare : n.minFac ^ 2 ≤ n := Nat.minFac_sq_le_self (Nat.zero_lt_of_lt hn) hcomposite
  have hlt : F ^ 2 < n.minFac ^ 2 := Nat.pow_lt_pow_left (by have := hr.one_lt; omega) (by decide)
  omega

/-- **Pocklington's test**, with two primes. -/
theorem prime_of_witnesses {n a f g : ℕ} (hf : f.Prime) (hg : g.Prime) (hne : f ≠ g) (hn : 1 < n)
    (hlarge : n ≤ (f * g) ^ 2)
    (h : IsWitness n a f) (h' : IsWitness n a g) : n.Prime := by
  refine prime_of_dvd_sub_one hn hlarge fun r hr hrn => ?_
  have hcoprime : f.Coprime g := (Nat.coprime_primes hf hg).mpr hne
  exact hcoprime.mul_dvd_of_dvd_of_dvd (dvd_sub_one h hf hn hr hrn) (dvd_sub_one h' hg hn hr hrn)

end Pocklington
