import Pyrogram.Errors
import Mathlib.Data.Int.ModEq
import Mathlib.Data.Nat.ModEq
import Mathlib.Algebra.Order.Ring.Int

/-!
# Powers modulo a number

`pow` with three arguments, on integers.
-/

namespace Pyrogram

/-- `pow(x, n, m)` -/
def pow (x : ℤ) (n m : ℕ) : Except Exc ℕ :=
  if m = 0 then .error (.valueError "pow() 3rd argument cannot be 0") else .ok (x ^ n % m).toNat

theorem pow_of_pos {m : ℕ} (hm : 0 < m) (x n : ℕ) : pow x n m = .ok (x ^ n % m) := by
  rw [pow, if_neg (Nat.pos_iff_ne_zero.mp hm)]
  exact_mod_cast rfl

theorem pow_natCast {x n m r : ℕ} (h : pow x n m = .ok r) : r = x ^ n % m := by
  unfold pow at h
  split at h
  · cases h
  · obtain rfl := Except.ok.inj h
    exact_mod_cast rfl

end Pyrogram
