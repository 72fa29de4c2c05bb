import Mathlib.Algebra.BigOperators.Group.List.Basic
import Mathlib.Tactic.Common

/-!
# Pools of tasks

A pool is a list of tasks, of which one at a time goes on and is replaced by what it has
become.  Whatever is counted over the pool changes by what that task loses and gains.

## Main definitions

* `total` — what the tasks of a pool hold together.

## Main results

* `getElem?_concat_eq_some`, `getElem?_set_eq_some` — the tasks after one has come, or has
  gone on.
* `total_set` — one task goes on.
* `total_eq_zero` — a pool that holds nothing.
-/

namespace Pool

variable {α : Type*}

theorem getElem?_concat_eq_some {l : List α} {new a : α} {i : ℕ} :
    (l ++ [new])[i]? = some a ↔ l[i]? = some a ∨ i = l.length ∧ new = a := by
  rcases Nat.lt_trichotomy i l.length with h | rfl | h
  · rw [List.getElem?_append_left h]
    exact ⟨Or.inl, fun ha => ha.resolve_right fun heq => absurd heq.1 (Nat.ne_of_lt h)⟩
  · simp
  · rw [List.getElem?_eq_none (by rw [List.length_append]; exact h),
      List.getElem?_eq_none (Nat.le_of_lt h)]
    constructor
    · rintro ⟨⟩
    · rintro (ha | ⟨rfl, -⟩)
      · cases ha
      · exact absurd h (Nat.lt_irrefl _)

theorem getElem?_set_eq_some {l : List α} {i j : ℕ} {a : α} (h : l[i]? = some a) {b c : α} :
    (l.set i b)[j]? = some c ↔ j = i ∧ b = c ∨ j ≠ i ∧ l[j]? = some c := by
  by_cases hj : j = i
  · subst hj
    rw [List.getElem?_set_self (List.getElem?_eq_some_iff.mp h).1]
    simp
  · rw [List.getElem?_set_ne (Ne.symm hj)]
    simp [hj]

/-! ### What the tasks hold -/

variable {M : Type*} [AddCommMonoid M] (f : α → M)

/-- What the tasks of a pool hold together. -/
def total (l : List α) : M := (l.map f).sum

@[simp] theorem total_nil : total f [] = 0 := rfl

@[simp] theorem total_cons (a : α) (l : List α) : total f (a :: l) = f a + total f l :=
  List.sum_cons

/-- **One task goes on**: the pool loses what it held and gains what it holds now. -/
theorem total_set {l : List α} {i : ℕ} {a : α} (h : l[i]? = some a) (b : α) :
    total f (l.set i b) + f a = total f l + f b := by
  induction l generalizing i with
  | nil => cases h
  | cons x l ih =>
    cases i with
    | zero =>
      obtain rfl : x = a := Option.some.inj h
      rw [List.set_cons_zero, total_cons, total_cons]
      exact (add_comm (f b + total f l) (f x)).trans (by rw [add_comm (f b), ← add_assoc])
    | succ i =>
      rw [List.set_cons_succ, total_cons, total_cons, add_assoc, ih h, add_assoc]

theorem total_eq_zero {l : List α} (h : ∀ a ∈ l, f a = 0) : total f l = 0 := by
  induction l with
  | nil => rfl
  | cons a l ih =>
    rw [total_cons, h a List.mem_cons_self, zero_add]
    exact ih fun b hb => h b (List.mem_cons_of_mem a hb)

end Pool
