import Mathlib

/-!
# Filling a room greedily

Items of given sizes are looked at in order; each that still fits in the room is
taken, each that does not is passed over and the next is tried.

## Main definitions

* `taken` — the items that are taken.

## Main results

* `sum_taken_le` — together they fit.
* `room_lt_of_left` — an item that is left does not fit in what is left of the room.
* `size_lt_of_overtaken` — an item is overtaken only by a smaller one.
-/

namespace Greedy

variable {α : Type*} (size : α → ℕ)

/-- The items of a list that are taken, each if it fits in the room that is left. -/
def taken : ℕ → List α → List α
  | _, [] => []
  | room, x :: xs => if size x ≤ room then x :: taken (room - size x) xs else taken room xs

variable {size} {room : ℕ} {l : List α} {x y : α}

theorem taken_cons_of_le (h : size x ≤ room) :
    taken size room (x :: l) = x :: taken size (room - size x) l := if_pos h

theorem taken_cons_of_lt (h : room < size x) : taken size room (x :: l) = taken size room l :=
  if_neg (by omega)

theorem taken_sublist (room : ℕ) (l : List α) : (taken size room l).Sublist l := by
  induction l generalizing room with
  | nil => exact List.Sublist.refl _
  | cons x l ih =>
    by_cases h : size x ≤ room
    · rw [taken_cons_of_le h]
      exact (ih _).cons_cons x
    · rw [taken_cons_of_lt (by omega)]
      exact (ih _).cons x

variable (size) in
/-- **What is taken fits in the room.** -/
theorem sum_taken_le (room : ℕ) (l : List α) : ((taken size room l).map size).sum ≤ room := by
  induction l generalizing room with
  | nil => simp [taken]
  | cons x l ih =>
    by_cases h : size x ≤ room
    · have := ih (room - size x)
      simp only [taken_cons_of_le h, List.map_cons, List.sum_cons]
      omega
    · simpa only [taken_cons_of_lt (not_le.mp h)] using ih room

theorem size_le_of_mem_taken (h : x ∈ taken size room l) : size x ≤ room :=
  (List.single_le_sum (fun _ _ => Nat.zero_le _) _ (List.mem_map_of_mem h)).trans
    (sum_taken_le size room l)

/-- Nothing that has a size fits in no room. -/
theorem taken_zero (h : ∀ x ∈ l, 0 < size x) : taken size 0 l = [] := by
  refine List.eq_nil_iff_forall_not_mem.mpr fun x hx => ?_
  have := h x ((taken_sublist 0 l).subset hx)
  have := size_le_of_mem_taken hx
  omega

/-- **What is left does not fit in what is left of the room.** -/
theorem room_lt_of_left (hx : x ∈ l) (h : x ∉ taken size room l) :
    room < ((taken size room l).map size).sum + size x := by
  induction l generalizing room with
  | nil => simp at hx
  | cons a l ih =>
    by_cases ha : size a ≤ room
    · rw [taken_cons_of_le ha] at h ⊢
      have hne : x ≠ a := fun e => h (e ▸ List.mem_cons_self)
      have := ih (List.mem_of_ne_of_mem hne hx) fun hm => h (List.mem_cons_of_mem _ hm)
      simp only [List.map_cons, List.sum_cons]
      omega
    · rw [taken_cons_of_lt (by omega)] at h ⊢
      rcases List.mem_cons.mp hx with rfl | hx
      · omega
      · exact ih hx h

/-- **An item is overtaken only by a smaller one.**  Where `x` comes before `y`
(`y` may not stand before `x`), is left, and `y` is taken, `y` is the smaller. -/
theorem size_lt_of_overtaken {R : α → α → Prop} (hl : l.Pairwise R) (hxy : ¬ R y x) (hx : x ∈ l)
    (hleft : x ∉ taken size room l) (hy : y ∈ taken size room l) : size y < size x := by
  induction l generalizing room with
  | nil => simp at hx
  | cons a l ih =>
    obtain ⟨ha, hl⟩ := List.pairwise_cons.mp hl
    -- `y` is not the first item unless `x` is
    have hya : x ∈ l → y ≠ a := fun hx e => hxy (e ▸ ha x hx)
    by_cases hroom : size a ≤ room
    · rw [taken_cons_of_le hroom] at hleft hy
      have hne : x ≠ a := fun e => hleft (e ▸ List.mem_cons_self)
      have hx := List.mem_of_ne_of_mem hne hx
      exact ih hl hx (fun hm => hleft (List.mem_cons_of_mem _ hm))
        (List.mem_of_ne_of_mem (hya hx) hy)
    · rw [taken_cons_of_lt (by omega)] at hleft hy
      rcases List.mem_cons.mp hx with rfl | hx
      · have := size_le_of_mem_taken hy
        omega
      · exact ih hl hx hleft hy

end Greedy
