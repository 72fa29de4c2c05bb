import Mathlib.Dynamics.PeriodicPts.Defs
import Mathlib.Data.Fintype.EquivFin
import Mathlib.Data.Fintype.Pigeonhole
import Mathlib.Data.Int.ModEq
import Mathlib.Data.Nat.GCD.Basic
import Mathlib.Data.Nat.ModEq
import Mathlib.Tactic.Common

/-!
# Factoring

`prime.decompose` looks for a divisor with Brent's method: the orbit of a quadratic map is compared
with a point of its own, which moves up whenever the window doubles, and the differences are
multiplied up before their greatest common divisor is taken.  If a batch overshoots to `pq` itself,
its differences are looked at one by one.

## Main definitions

* `Draws` — what is drawn at random.
* `window`, `search`, `backtrack`, `decompose` — the loops, with fuel.

## Main results

* `window_spec` — a window without a divisor goes through all its steps, and the other ones end with
  a batch that has one.
* `not_coprime_of_period` — a window that is as long as the period, on the periodic part, has a
  divisor.
* `decompose_spec` — **the search ends with a divisor**.
-/

namespace Pyrogram.Prime

/-- `randint(1, pq - 1)`, three times. -/
structure Draws (pq : ℕ) where
  y : ℕ
  c : ℕ
  m : ℕ
  y_mem : 1 ≤ y ∧ y ≤ pq - 1
  c_mem : 1 ≤ c ∧ c ≤ pq - 1
  m_mem : 1 ≤ m ∧ m ≤ pq - 1

section

variable (pq c : ℕ)

/-- `(pow(y, 2, pq) + c) % pq` -/
def next (y : ℕ) : ℕ := (y ^ 2 % pq + c) % pq

/-- `abs(x - y)` -/
def diff (x y : ℕ) : ℕ := ((x : ℤ) - y).natAbs

/-- The variables of the search; `x` is the point that the others are compared with. -/
structure Search where
  x : ℕ
  y : ℕ
  ys : ℕ
  q : ℕ
  g : ℕ
  deriving DecidableEq, Repr

/-- `n` steps of `y`, with the differences multiplied into `q`. -/
def batch (x : ℕ) : ℕ → ℕ → ℕ → ℕ × ℕ
  | 0, y, q => (y, q)
  | n + 1, y, q => batch x n (next pq c y) (q * diff x (next pq c y) % pq)

/-- A round of `while k < r and g == 1`. -/
def Search.round (s : Search) (n : ℕ) : Search :=
  let (y, q) := batch pq c s.x n s.y s.q
  { s with ys := s.y, y, q, g := q.gcd pq }

/-- `while k < r and g == 1` -/
def window (m r : ℕ) : ℕ → ℕ → Search → Option Search
  | 0, _, _ => none
  | fuel + 1, k, s =>
      if k < r ∧ s.g = 1 then window m r fuel (k + m) (s.round pq c (min m (r - k))) else some s

/-- `while g == 1` -/
def search (m : ℕ) : ℕ → ℕ → Search → Option Search
  | 0, _, _ => none
  | fuel + 1, r, s =>
      if s.g = 1 then (window pq c m r fuel 0 { s with x := s.y, y := (next pq c)^[r] s.y }).bind
        (search m fuel (r * 2))
      else some s

/-- The last loop: the differences of the last batch, one by one. -/
def backtrack (x : ℕ) : ℕ → ℕ → Option ℕ
  | 0, _ => none
  | fuel + 1, ys =>
      let g := (diff x (next pq c ys)).gcd pq
      if 1 < g then some g else backtrack x fuel (next pq c ys)

end

/-- `prime.decompose` -/
def decompose (fuel pq : ℕ) (draws : Draws pq) : Option ℕ :=
  if pq % 2 = 0 then some 2
  else
    (search pq draws.c draws.m fuel 1 ⟨0, draws.y, 0, 1, 1⟩).bind fun s =>
      if s.g = pq then backtrack pq draws.c s.x fuel s.ys else some s.g

/-! ### Batches -/

section

variable {pq c : ℕ}

/-- A batch takes its steps, and its product is coprime to `pq` if all its differences are. -/
theorem batch_spec (x n y q : ℕ) :
    (batch pq c x n y q).1 = (next pq c)^[n] y ∧
    ((batch pq c x n y q).2.Coprime pq ↔ q.Coprime pq ∧
      ∀ i < n, (diff x ((next pq c)^[i + 1] y)).Coprime pq) := by
  induction n generalizing y q with
  | zero => exact ⟨rfl, by simp [batch]⟩
  | succ n ih =>
    obtain ⟨hy, hq⟩ := ih (next pq c y) (q * diff x (next pq c y) % pq)
    have hproduct : (q * diff x (next pq c y) % pq).Coprime pq ↔ q.Coprime pq ∧
        (diff x (next pq c y)).Coprime pq := by
      rw [Nat.Coprime, (Nat.mod_modEq _ pq).gcd_eq]
      exact Nat.coprime_mul_iff_left
    refine ⟨hy, ?_⟩
    rw [batch, hq, hproduct, and_assoc]
    refine and_congr_right fun _ => ?_
    constructor
    · rintro ⟨hfirst, hrest⟩ i hi
      cases i with
      | zero => exact hfirst
      | succ i => exact hrest i (Nat.lt_of_succ_lt_succ hi)
    · intro hall
      exact ⟨hall 0 n.succ_pos, fun i hi => hall (i + 1) (Nat.succ_lt_succ hi)⟩

/-! ### Windows -/

/-- A search that is over: one of the steps from `ys` on has a divisor. -/
structure Found (pq c : ℕ) (s : Search) : Prop where
  g : s.g = s.q.gcd pq
  ne : s.g ≠ 1
  exists_not_coprime : ∃ i, ¬(diff s.x ((next pq c)^[i + 1] s.ys)).Coprime pq

/-- What a window comes to: all its steps without a divisor, or a batch with one. -/
inductive Windowed (pq c : ℕ) (s : Search) (n : ℕ) (s' : Search) : Prop
  | whole (x : s'.x = s.x) (y : s'.y = (next pq c)^[n] s.y) (g : s'.g = 1) (q : s'.q.Coprime pq)
      (coprime : ∀ i < n, (diff s.x ((next pq c)^[i + 1] s.y)).Coprime pq)
  | found (found : Found pq c s')

/-- **A window without a divisor goes through all its steps**, and any other one ends with a batch
that has one. -/
theorem window_spec {m : ℕ} (hm : 0 < m) (r : ℕ) {k : ℕ} {s : Search} (hg : s.g = 1)
    (hq : s.q.Coprime pq) :
    ∃ s', (∀ fuel, r - k < fuel → window pq c m r fuel k s = some s') ∧
      Windowed pq c s (r - k) s' := by
  induction hn : r - k using Nat.strong_induction_on generalizing k s with
  | _ n ih =>
    subst hn
    by_cases hk : k < r
    · -- a round, and what comes after it
      obtain ⟨hy, hproduct⟩ := @batch_spec pq c s.x (min m (r - k)) s.y s.q
      have hround : s.round pq c (min m (r - k)) =
          ⟨s.x, (batch pq c s.x (min m (r - k)) s.y s.q).1, s.y,
            (batch pq c s.x (min m (r - k)) s.y s.q).2,
            (batch pq c s.x (min m (r - k)) s.y s.q).2.gcd pq⟩ := rfl
      have hstep : ∀ fuel, window pq c m r (fuel + 1) k s = window pq c m r fuel (k + m)
          (s.round pq c (min m (r - k))) := by
        intro fuel
        rw [window, if_pos ⟨hk, hg⟩]
      by_cases hdiv : (s.round pq c (min m (r - k))).g = 1
      · have hq' : (s.round pq c (min m (r - k))).q.Coprime pq := hdiv
        obtain ⟨s', hs', hwindowed⟩ := ih (r - (k + m)) (by omega) hdiv hq' rfl
        refine ⟨s', ?_, ?_⟩
        · intro fuel hfuel
          obtain ⟨fuel, rfl⟩ := Nat.exists_eq_succ_of_ne_zero (show fuel ≠ 0 by omega)
          rw [hstep, hs' fuel (by omega)]
        · have hsum : r - (k + m) + min m (r - k) = r - k := by omega
          cases hwindowed with
          | found hfound => exact .found hfound
          | whole x y g q hcoprime =>
            rw [hround] at x y hcoprime
            have hrest : ∀ i, (next pq c)^[i] (batch pq c s.x (min m (r - k)) s.y s.q).1 =
                (next pq c)^[i + min m (r - k)] s.y := by
              intro i
              rw [hy, ← Function.iterate_add_apply]
            refine .whole x (by rw [y, hrest, hsum]) g q ?_
            intro i hi
            rcases Nat.lt_or_ge i (min m (r - k)) with hlt | hge
            · exact (hproduct.mp hq').2 i hlt
            · have hlater := hcoprime (i - min m (r - k)) (by omega)
              rw [hrest] at hlater
              rwa [show i - min m (r - k) + 1 + min m (r - k) = i + 1 by omega] at hlater
      · refine ⟨_, ?_, .found ⟨rfl, hdiv, ?_⟩⟩
        · intro fuel hfuel
          obtain ⟨fuel, rfl⟩ := Nat.exists_eq_succ_of_ne_zero (show fuel ≠ 0 by omega)
          obtain ⟨fuel, rfl⟩ := Nat.exists_eq_succ_of_ne_zero (show fuel ≠ 0 by omega)
          rw [hstep, window, if_neg fun h => hdiv h.2]
        · -- the product was coprime before
          by_contra hnone
          simp only [not_exists, not_not] at hnone
          exact hdiv (hproduct.mpr ⟨hq, fun i _ => hnone i⟩)
    · have hzero : r - k = 0 := by omega
      refine ⟨s, ?_, ?_⟩
      · intro fuel hfuel
        obtain ⟨fuel, rfl⟩ := Nat.exists_eq_succ_of_ne_zero (show fuel ≠ 0 by omega)
        rw [window, if_neg fun h => hk h.1]
      · rw [hzero]
        exact .whole rfl rfl hg hq fun i hi => absurd hi i.not_lt_zero

/-! ### The orbit -/

theorem next_lt (hpq : 0 < pq) (y : ℕ) : next pq c y < pq := Nat.mod_lt _ hpq

/-- The orbit of a number below `pq` comes back to one of its points. -/
theorem exists_period {y : ℕ} (hy : y < pq) :
    ∃ t l, 0 < l ∧ Function.IsPeriodicPt (next pq c) l ((next pq c)^[t] y) := by
  have hlt : ∀ n, (next pq c)^[n] y < pq := by
    intro n
    cases n with
    | zero => exact hy
    | succ n =>
      rw [Function.iterate_succ_apply']
      exact next_lt (Nat.zero_lt_of_lt hy) _
  obtain ⟨a, b, hne, hab⟩ := Finite.exists_ne_map_eq_of_infinite fun n =>
    (⟨(next pq c)^[n] y, hlt n⟩ : Fin pq)
  have hab : (next pq c)^[a] y = (next pq c)^[b] y := congrArg Fin.val hab
  have hperiod : ∀ {i j}, i < j → (next pq c)^[i] y = (next pq c)^[j] y →
      Function.IsPeriodicPt (next pq c) (j - i) ((next pq c)^[i] y) := by
    intro i j hij heq
    rw [Function.IsPeriodicPt, Function.IsFixedPt, ← Function.iterate_add_apply,
      Nat.sub_add_cancel hij.le, heq]
  rcases Nat.lt_or_gt_of_ne hne with hlt | hlt
  · exact ⟨a, b - a, Nat.sub_pos_of_lt hlt, hperiod hlt hab⟩
  · exact ⟨b, a - b, Nat.sub_pos_of_lt hlt, hperiod hlt hab.symm⟩

/-- **A window as long as the period has a divisor** where the point that is compared is periodic:
there the difference is 0. -/
theorem not_coprime_of_period (hpq : 1 < pq) {x l r : ℕ} (hl : 0 < l)
    (hx : Function.IsPeriodicPt (next pq c) l x) (hr : l ≤ r) :
    ∃ i < r, ¬(diff x ((next pq c)^[i + 1] ((next pq c)^[r] x))).Coprime pq := by
  have hlt : r < l * (r / l + 1) := Nat.lt_mul_div_succ r hl
  have hle : l * (r / l + 1) ≤ r + l := by
    rw [Nat.mul_succ]
    exact Nat.add_le_add_right (Nat.mul_div_le r l) l
  refine ⟨l * (r / l + 1) - r - 1, by omega, ?_⟩
  rw [← Function.iterate_add_apply, show l * (r / l + 1) - r - 1 + 1 + r = l * (r / l + 1) by omega,
    show (next pq c)^[l * (r / l + 1)] x = x from hx.mul_const _]
  simp [diff, hpq.ne']

/-! ### The search -/

/-- The search ends, at the latest with the first window that is long enough. -/
theorem search_spec {m y₀ : ℕ} (hm : 0 < m) (hy : y₀ < pq) (hpq : 1 < pq) {r : ℕ} {s : Search}
    (hg : s.g = 1)
    (hq : s.q.Coprime pq) (hr : 0 < r) (hs : ∃ N, s.y = (next pq c)^[N] y₀ ∧ r ≤ N + 1) :
    ∃ n s', (∀ fuel ≥ n, search pq c m fuel r s = some s') ∧ Found pq c s' := by
  obtain ⟨t, l, hl, hperiod⟩ := exists_period (c := c) hy
  induction hd : t + l + 1 - r using Nat.strong_induction_on generalizing r s with
  | _ d ih =>
    obtain ⟨N, hN, hrN⟩ := hs
    obtain ⟨s₁, hs₁, hwindowed⟩ :=
      window_spec (c := c) hm r (k := 0) (s := { s with x := s.y, y := (next pq c)^[r] s.y }) hg hq
    have hstep : ∀ fuel, r < fuel → search pq c m (fuel + 1) r s =
        search pq c m fuel (r * 2) s₁ := by
      intro fuel hfuel
      rw [search, if_pos hg, hs₁ fuel hfuel, Option.bind_some]
    cases hwindowed with
    | found hfound =>
      refine ⟨r + 2, s₁, ?_, hfound⟩
      intro fuel hfuel
      obtain ⟨fuel, rfl⟩ := Nat.exists_eq_succ_of_ne_zero (show fuel ≠ 0 by omega)
      rw [hstep fuel (by omega)]
      obtain ⟨fuel, rfl⟩ := Nat.exists_eq_succ_of_ne_zero (show fuel ≠ 0 by omega)
      rw [search, if_neg hfound.ne]
    | whole hx hy₁ hg₁ hq₁ hcoprime =>
      have hshort : r < t + l + 1 := by
        -- a longer window has a divisor
        by_contra hlong
        have hback : Function.IsPeriodicPt (next pq c) l s.y := by
          have hmove := hperiod.apply_iterate (N - t)
          rw [← Function.iterate_add_apply, Nat.sub_add_cancel (by omega), ← hN] at hmove
          exact hmove
        obtain ⟨i, hi, hdivisor⟩ := not_coprime_of_period hpq hl hback (by omega : l ≤ r)
        exact hdivisor (hcoprime i hi)
      have hnext : ∃ N', s₁.y = (next pq c)^[N'] y₀ ∧ r * 2 ≤ N' + 1 := by
        refine ⟨r - 0 + r + N, ?_, by omega⟩
        rw [hy₁, hN, ← Function.iterate_add_apply, ← Function.iterate_add_apply]
      obtain ⟨n, s', hs', hfound⟩ := ih (t + l + 1 - r * 2) (by omega) hg₁ hq₁ (by omega) hnext rfl
      refine ⟨n + r + 2, s', ?_, hfound⟩
      intro fuel hfuel
      obtain ⟨fuel, rfl⟩ := Nat.exists_eq_succ_of_ne_zero (show fuel ≠ 0 by omega)
      rw [hstep fuel (by omega), hs' fuel (by omega)]

/-- The last loop ends at the first difference with a divisor. -/
theorem backtrack_spec (hpq : 0 < pq) {x ys i : ℕ}
    (h : ¬(diff x ((next pq c)^[i + 1] ys)).Coprime pq) :
    ∃ g, (∀ fuel, i < fuel → backtrack pq c x fuel ys = some g) ∧ g ∣ pq ∧ 1 < g := by
  induction i generalizing ys with
  | zero =>
    have hpos : 0 < (diff x (next pq c ys)).gcd pq := Nat.gcd_pos_of_pos_right _ hpq
    have hgt : 1 < (diff x (next pq c ys)).gcd pq := lt_of_le_of_ne hpos (Ne.symm h)
    refine ⟨_, ?_, Nat.gcd_dvd_right _ _, hgt⟩
    intro fuel hfuel
    obtain ⟨fuel, rfl⟩ := Nat.exists_eq_succ_of_ne_zero hfuel.ne'
    rw [backtrack]
    exact if_pos hgt
  | succ i ih =>
    by_cases hgt : 1 < (diff x (next pq c ys)).gcd pq
    · refine ⟨_, ?_, Nat.gcd_dvd_right _ _, hgt⟩
      intro fuel hfuel
      obtain ⟨fuel, rfl⟩ := Nat.exists_eq_succ_of_ne_zero (Nat.ne_zero_of_lt hfuel)
      rw [backtrack]
      exact if_pos hgt
    · obtain ⟨g, hg, hdvd, hone⟩ := ih h
      refine ⟨g, ?_, hdvd, hone⟩
      intro fuel hfuel
      obtain ⟨fuel, rfl⟩ := Nat.exists_eq_succ_of_ne_zero (Nat.ne_zero_of_lt hfuel)
      rw [backtrack]
      exact (if_neg hgt).trans (hg fuel (Nat.lt_of_succ_lt_succ hfuel))

end

/-- **The search ends with a divisor**, whatever is drawn: from some fuel on the result is the
same. -/
theorem decompose_spec (pq : ℕ) (draws : Draws pq) :
    ∃ g n, (∀ fuel ≥ n, decompose fuel pq draws = some g) ∧ g ∣ pq ∧ 1 < g ∧ g ≤ pq := by
  have hpq : 1 < pq := by have := draws.y_mem; omega
  have hle : ∀ {g}, g ∣ pq → g ≤ pq := fun hdvd => Nat.le_of_dvd (Nat.zero_lt_of_lt hpq) hdvd
  by_cases heven : pq % 2 = 0
  · have hdvd : 2 ∣ pq := Nat.dvd_of_mod_eq_zero heven
    refine ⟨2, 0, ?_, hdvd, Nat.one_lt_two, hle hdvd⟩
    intro fuel _
    rw [decompose, if_pos heven]
  · have hy : draws.y < pq := by have := draws.y_mem; omega
    obtain ⟨n, s, hs, hfound⟩ :=
      search_spec (c := draws.c) (m := draws.m) (s := ⟨0, draws.y, 0, 1, 1⟩) draws.m_mem.1 hy hpq
      rfl pq.coprime_one_left Nat.one_pos ⟨0, rfl, le_rfl⟩
    by_cases hall : s.g = pq
    · obtain ⟨i, hi⟩ := hfound.exists_not_coprime
      obtain ⟨g, hg, hdvd, hone⟩ := backtrack_spec (Nat.zero_lt_of_lt hpq) hi
      refine ⟨g, max n (i + 1), ?_, hdvd, hone, hle hdvd⟩
      intro fuel hfuel
      rw [decompose, if_neg heven, hs fuel (by omega), Option.bind_some, if_pos hall]
      exact hg fuel (by omega)
    · have hdvd : s.g ∣ pq := by
        rw [hfound.g]
        exact Nat.gcd_dvd_right _ _
      have hone : 1 < s.g := lt_of_le_of_ne (Nat.pos_of_dvd_of_pos hdvd (Nat.zero_lt_of_lt hpq))
        hfound.ne.symm
      refine ⟨s.g, n, ?_, hdvd, hone, hle hdvd⟩
      intro fuel hfuel
      rw [decompose, if_neg heven, hs fuel hfuel, Option.bind_some, if_neg hall]

example : decompose 20 15 ⟨2, 1, 1, by decide, by decide, by decide⟩ = some 3 := by decide

end Pyrogram.Prime
