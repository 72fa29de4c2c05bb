import Pyrogram.Crypto.Aes
import Pyrogram.Crypto.Pocklington
import Mathlib.NumberTheory.LegendreSymbol.Basic
import Mathlib.Tactic.FieldSimp
import Mathlib.Tactic.NormNum
import Mathlib.Tactic.NormNum.Prime

/-!
# Key shares

The x25519 key shares of the fake-TLS greeting: a number is drawn until the curve has a point above
it, and its point is doubled three times, with the inverse taken as a power.

## Main definitions

* `curve25519YSquared`, `curve25519DoubleX` — the two formulas.
* `keyOf` — the key of a candidate.
* `OnCurve` — the curve has a point above a number.

## Main results

* `isSquare_double` — doubling keeps to the curve, in any field.
* `prime_curve25519Prime` — the modulus is prime.
* `onCurve_keyOf` — **a key share lies on the curve.**
-/

namespace Pyrogram.FakeTls

set_option maxRecDepth 20000

def curve25519Prime : ℕ := 2 ^ 255 - 19

def curve25519A : ℕ := 486662

/-- `pow(x, n, m)`, for a positive modulus. -/
def powMod (x : ℤ) (n m : ℕ) : ℕ := (x ^ n % m).toNat

def curve25519YSquared (x : ℕ) : ℕ := ((x + curve25519A) * x + 1) * x % curve25519Prime

def curve25519DoubleX (x : ℕ) : ℕ :=
  let denominator := curve25519YSquared x * 4 % curve25519Prime
  let numerator := powMod (x * x - 1) 2 curve25519Prime
  numerator * powMod denominator (curve25519Prime - 2) curve25519Prime % curve25519Prime

/-- The number that 32 drawn bytes stand for; the last of them loses its high bit. -/
def candidate (draw : {b : List UInt8 // b.length = 32}) : ℕ :=
  Aes.fromBytes (draw.val.take 31 ++ (draw.val.drop 31).map (· &&& 0x7F))

/-- The test that a candidate has to pass. -/
def IsResidue (x : ℕ) : Prop := powMod (curve25519YSquared x)
    ((curve25519Prime - 1) / 2) curve25519Prime = 1

instance (x : ℕ) : Decidable (IsResidue x) := inferInstanceAs (Decidable (_ = _))

/-- `for _ in range(3)` -/
def keyOf (x : ℕ) : ℕ := curve25519DoubleX^[3] x

/-- A point of the curve has this u-coordinate. -/
def OnCurve (u : ℕ) : Prop := ∃ v, v ^ 2 ≡ u ^ 3 + 486662 * u ^ 2 + u [MOD 2 ^ 255 - 19]

/-! ### Doubling -/

/-- **Doubling keeps to the curve**: if the right side of `v ^ 2 = u ^ 3 + A * u ^ 2 + u` is a
square at `x`, it is one at the double, which is 0 where the denominator is. -/
theorem isSquare_double {F : Type*} [Field F] (A x : F) (h : IsSquare (x ^ 3 + A * x ^ 2 + x)) :
    IsSquare (((x ^ 2 - 1) ^ 2 / (4 * (x ^ 3 + A * x ^ 2 + x))) ^ 3 + A *
      ((x ^ 2 - 1) ^ 2 / (4 * (x ^ 3 + A * x ^ 2 + x))) ^ 2 +
      (x ^ 2 - 1) ^ 2 / (4 * (x ^ 3 + A * x ^ 2 + x))) := by
  set f := x ^ 3 + A * x ^ 2 + x with hf
  obtain ⟨v, hv⟩ := h
  by_cases hzero : 4 * f = 0
  · simp [hzero]
  · have hnumerator : (x ^ 2 - 1) ^ 4 + A * (x ^ 2 - 1) ^ 2 * (4 * f) + (4 * f) ^ 2 =
        (x ^ 4 + 2 * A * x ^ 3 + 6 * x ^ 2 + 2 * A * x + 1) ^ 2 := by
      rw [hf]
      ring
    have hroot : 4 * f = (2 * v) ^ 2 := by
      rw [hv]
      ring
    refine ⟨(x ^ 2 - 1) * (x ^ 4 + 2 * A * x ^ 3 + 6 * x ^ 2 + 2 * A * x + 1) / (2 * v) ^ 3, ?_⟩
    have hcube : ((2 * v) ^ 3) * ((2 * v) ^ 3) = (4 * f) ^ 3 := by
      rw [hroot]
      ring
    rw [div_mul_div_comm, hcube]
    field_simp
    linear_combination (x ^ 2 - 1) ^ 2 * hnumerator

/-! ### The modulus -/

theorem prime_1919519569386763 : Nat.Prime 1919519569386763 :=
  Pocklington.prime_of_witnesses (a := 2) (f := 8574133) (g := 127) (by norm_num) (by norm_num)
    (by decide) (by decide) (by decide)
    (Pocklington.isWitness_of_power 51 (by decide)) (Pocklington.isWitness_of_power 51 (by decide))

theorem prime_75445702479781427272750846543864801 : Nat.Prime 75445702479781427272750846543864801 :=
  Pocklington.prime_of_witnesses (a := 2) (f := 75707) (g := 1919519569386763) (by norm_num)
    prime_1919519569386763 (by decide)
    (by decide) (by decide)
    (Pocklington.isWitness_of_power 116 (by decide))
    (Pocklington.isWitness_of_power 116 (by decide))

theorem prime_of_sub_one :
    Nat.Prime 74058212732561358302231226437062788676166966415465897661863160754340907 :=
  Pocklington.prime_of_witnesses (a := 2) (f := 1923133) (g := 75445702479781427272750846543864801)
    (by norm_num)
    prime_75445702479781427272750846543864801 (by decide) (by decide) (by decide)
    (Pocklington.isWitness_of_power 236 (by decide))
    (Pocklington.isWitness_of_power 236 (by decide))

theorem prime_curve25519Prime : curve25519Prime.Prime := by
  have hwitness : Pocklington.IsWitness curve25519Prime 2
      74058212732561358302231226437062788676166966415465897661863160754340907 :=
    Pocklington.isWitness_of_power 256 (by decide)
  exact Pocklington.prime_of_dvd_sub_one (by decide) (by decide) fun r hr hrn =>
    Pocklington.dvd_sub_one hwitness prime_of_sub_one (by decide) hr hrn

instance : Fact curve25519Prime.Prime := ⟨prime_curve25519Prime⟩

/-! ### In the field -/

theorem cast_powMod {m : ℕ} (hm : 0 < m) (x : ℤ) (n : ℕ) :
    ((powMod x n m : ℕ) : ZMod m) = (x : ZMod m) ^ n := by
  have hcast : ((powMod x n m : ℕ) : ℤ) = x ^ n % m :=
    Int.toNat_of_nonneg (Int.emod_nonneg _ (by omega))
  rw [← Int.cast_natCast, hcast, ZMod.intCast_mod, Int.cast_pow]

theorem cast_ySquared (x : ℕ) : (curve25519YSquared x : ZMod curve25519Prime) =
    (x : ZMod curve25519Prime) ^ 3 + curve25519A * (x : ZMod curve25519Prime) ^ 2 + x := by
  rw [curve25519YSquared, ZMod.natCast_mod]
  push_cast
  ring

/-- A power for the inverse, which is 0 for 0. -/
theorem pow_sub_two (a : ZMod curve25519Prime) : a ^ (curve25519Prime - 2) = a⁻¹ := by
  have htwo : 2 < curve25519Prime := by decide
  by_cases ha : a = 0
  · rw [ha, inv_zero, zero_pow (by omega)]
  · refine eq_inv_of_mul_eq_one_left ?_
    rw [← pow_succ, show curve25519Prime - 2 + 1 = curve25519Prime - 1 by omega]
    exact ZMod.pow_card_sub_one_eq_one ha

theorem cast_doubleX (x : ℕ) : (curve25519DoubleX x : ZMod curve25519Prime) =
    ((x : ZMod curve25519Prime) ^ 2 - 1) ^ 2 /
      (4 * ((x : ZMod curve25519Prime) ^ 3 + curve25519A * (x : ZMod curve25519Prime) ^ 2 +
        x)) := by
  have hpos : 0 < curve25519Prime := prime_curve25519Prime.pos
  have hdenominator : ((curve25519YSquared x * 4 % curve25519Prime : ℕ) : ZMod curve25519Prime) =
      4 * ((x : ZMod curve25519Prime) ^ 3 + curve25519A * (x : ZMod curve25519Prime) ^ 2 + x) := by
    rw [ZMod.natCast_mod, Nat.cast_mul, cast_ySquared, mul_comm, Nat.cast_ofNat]
  rw [curve25519DoubleX, ZMod.natCast_mod, Nat.cast_mul, cast_powMod hpos, cast_powMod hpos,
    Int.cast_natCast, hdenominator,
    pow_sub_two, ← div_eq_mul_inv]
  congr 2
  push_cast
  ring

theorem onCurve_iff (u : ℕ) : OnCurve u ↔
    IsSquare ((u : ZMod curve25519Prime) ^ 3 + curve25519A * (u : ZMod curve25519Prime) ^ 2 +
      u) := by
  have hcast : ((u ^ 3 + curve25519A * u ^ 2 + u : ℕ) : ZMod curve25519Prime) =
      (u : ZMod curve25519Prime) ^ 3 + curve25519A * (u : ZMod curve25519Prime) ^ 2 + u := by
    push_cast
    ring
  rw [← hcast]
  constructor
  · rintro ⟨v, hv⟩
    refine ⟨v, ?_⟩
    rw [← sq, ← Nat.cast_pow]
    exact ((ZMod.natCast_eq_natCast_iff _ _ curve25519Prime).mpr hv).symm
  · rintro ⟨v, hv⟩
    refine ⟨v.val, (ZMod.natCast_eq_natCast_iff _ _ curve25519Prime).mp ?_⟩
    rw [Nat.cast_pow, ZMod.natCast_zmod_val, sq, ← hv]
    exact congrArg Nat.cast (rfl : u ^ 3 + 486662 * u ^ 2 + u = u ^ 3 + curve25519A * u ^ 2 + u)

/-- The test is Euler's criterion. -/
theorem onCurve_of_isResidue {x : ℕ} (h : IsResidue x) : OnCurve x := by
  have hpow : (curve25519YSquared x : ZMod curve25519Prime) ^ ((curve25519Prime - 1) / 2) = 1 := by
    rw [← Int.cast_natCast, ← cast_powMod prime_curve25519Prime.pos, h, Nat.cast_one]
  have hhalf : (curve25519Prime - 1) / 2 = curve25519Prime / 2 := by decide
  rw [hhalf] at hpow
  rw [onCurve_iff, ← cast_ySquared]
  by_cases hzero : (curve25519YSquared x : ZMod curve25519Prime) = 0
  · rw [hzero]
    exact IsSquare.zero
  · exact (ZMod.euler_criterion curve25519Prime hzero).mpr hpow

theorem onCurve_doubleX {x : ℕ} (h : OnCurve x) : OnCurve (curve25519DoubleX x) := by
  rw [onCurve_iff, cast_doubleX]
  exact isSquare_double _ _ ((onCurve_iff x).mp h)

theorem onCurve_iterate {x : ℕ} (h : OnCurve x) (n : ℕ) : OnCurve (curve25519DoubleX^[n] x) := by
  induction n with
  | zero => exact h
  | succ n ih =>
    rw [Function.iterate_succ_apply']
    exact onCurve_doubleX ih

/-- **A key share lies on the curve**, whichever candidate has passed the test. -/
theorem onCurve_keyOf (x : ℕ) (h : IsResidue x) : OnCurve (keyOf x) := by
  unfold keyOf
  exact onCurve_iterate (onCurve_of_isResidue h) 3

/-- The test, by squaring. -/
theorem isResidue_of_power {x : ℕ}
    (h : Pocklington.power curve25519Prime 255 1 (curve25519YSquared x)
      ((curve25519Prime - 1) / 2) = 1) : IsResidue x := by
  have hbits : (curve25519Prime - 1) / 2 < 2 ^ 255 := by decide
  rw [Pocklington.power_eq _ hbits, Nat.one_mul] at h
  rw [IsResidue, powMod, ← Int.natCast_pow, ← Int.natCast_mod, Int.toNat_natCast, h]

theorem isResidue_nine : IsResidue 9 := isResidue_of_power (by decide)

/-- The candidate 9. -/
theorem onCurve_keyOf_nine : IsResidue 9 ∧ OnCurve (keyOf 9) :=
  ⟨isResidue_nine, onCurve_keyOf 9 isResidue_nine⟩

end Pyrogram.FakeTls
