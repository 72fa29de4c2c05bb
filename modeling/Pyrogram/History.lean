import Mathlib.Data.List.Sort
import Mathlib.Tactic.Common

/-!
# Bounded histories

A bounded history is a strictly increasing list of the elements seen so far that
forgets its lower half once it grows past a bound.  It cannot answer whether an
element was seen; it can only answer that an element is *remembered*, or that it
lies *below everything remembered*.  That is enough to refuse every repetition,
as long as nothing is ever admitted below the minimum.

## Main definitions

* `insort` — sorted insertion, after any equal elements.
* `trim` — forget the lower half of a list that outgrew its bound.
* `Covers` — an element is remembered, or below everything remembered.

## Main results

* `Covers.trim`, `Covers.insort` — coverage survives forgetting and admission.
* `not_covers` — what may be admitted is not covered, so was never admitted.
-/

namespace History

variable {α : Type*}

/-! ### Forgetting -/

/-- Drop the lower half of `max` once the list is longer than `max`. -/
def trim (max : ℕ) (l : List α) : List α := if max < l.length then l.drop (max / 2) else l

theorem mem_of_mem_trim {max : ℕ} {a : α} {l : List α} (h : a ∈ trim max l) : a ∈ l := by
  unfold trim at h
  split at h
  · exact List.mem_of_mem_drop h
  · exact h

theorem pairwise_trim {r : α → α → Prop} {max : ℕ} {l : List α} (hl : l.Pairwise r) :
    (trim max l).Pairwise r := by
  unfold trim
  split
  · exact hl.drop
  · exact hl

theorem length_trim_le {max : ℕ} {l : List α} (hmax : 2 ≤ max) (hl : l.length ≤ max + 1) :
    (trim max l).length ≤ max := by
  unfold trim
  split
  · rw [List.length_drop]; omega
  · omega

theorem trim_ne_nil {max : ℕ} {l : List α} (hl : l ≠ []) : trim max l ≠ [] := by
  unfold trim
  split
  · next h =>
    apply List.ne_nil_of_length_pos
    rw [List.length_drop]
    omega
  · exact hl

@[simp] theorem trim_nil (max : ℕ) : trim max ([] : List α) = [] := rfl

variable [LinearOrder α]

/-! ### Sorted insertion -/

/-- Insert `a` into a sorted list after every element that is at most `a`. -/
def insort (a : α) (l : List α) : List α := l.orderedInsert (· < ·) a

@[simp] theorem mem_insort {a b : α} {l : List α} : b ∈ insort a l ↔ b = a ∨ b ∈ l :=
  List.mem_orderedInsert (· < ·)

@[simp] theorem length_insort (a : α) (l : List α) : (insort a l).length = l.length + 1 :=
  List.orderedInsert_length (· < ·) l a

theorem insort_ne_nil (a : α) (l : List α) : insort a l ≠ [] :=
  List.ne_nil_of_length_pos (by simp)

theorem pairwise_insort {a : α} {l : List α} (hl : l.Pairwise (· < ·)) (ha : a ∉ l) :
    (insort a l).Pairwise (· < ·) := by
  induction l with
  | nil => simp [insort]
  | cons b l ih =>
    rw [List.pairwise_cons] at hl
    rw [List.mem_cons, not_or] at ha
    by_cases hab : a < b
    · rw [insort, List.orderedInsert_cons_of_le _ _ hab]
      refine List.pairwise_cons.mpr ⟨?_, List.pairwise_cons.mpr hl⟩
      intro c hc
      rcases List.mem_cons.mp hc with rfl | hc
      · exact hab
      · exact hab.trans (hl.1 c hc)
    · have hba : b < a := lt_of_le_of_ne (not_lt.mp hab) (Ne.symm ha.1)
      rw [insort, List.orderedInsert_of_not_le _ _ hab]
      refine List.pairwise_cons.mpr ⟨?_, ih hl.2 ha.2⟩
      intro c hc
      rcases mem_insort.mp hc with rfl | hc
      · exact hba
      · exact hl.1 c hc

/-- An element above the whole list goes to its end. -/
theorem insort_of_forall_lt {a : α} {l : List α} (h : ∀ b ∈ l, b < a) : insort a l = l ++ [a] := by
  induction l with
  | nil => rfl
  | cons b l ih =>
    have hb : ¬ a < b := not_lt.mpr (h b List.mem_cons_self).le
    rw [insort, List.orderedInsert_of_not_le _ _ hb, List.cons_append]
    exact congrArg (b :: ·) (ih fun c hc => h c (List.mem_cons_of_mem _ hc))

/-! ### Coverage -/

/-- `a` is remembered by the history, or lies below everything it remembers. -/
def Covers (l : List α) (a : α) : Prop := a ∈ l ∨ (l ≠ [] ∧ ∀ b ∈ l, a < b)

/-- **Forgetting loses no coverage**: what is dropped lies below what is kept. -/
theorem Covers.trim (max : ℕ) {l : List α} {a : α} (hl : l.Pairwise (· < ·)) (h : Covers l a) :
    Covers (trim max l) a := by
  rcases h with ha | ⟨hne, hlt⟩
  · by_cases hkeep : a ∈ History.trim max l
    · exact Or.inl hkeep
    · refine Or.inr ⟨trim_ne_nil (List.ne_nil_of_mem ha), ?_⟩
      intro b hb
      unfold History.trim at hb hkeep
      split at hb
      · next hlen =>
        rw [if_pos hlen] at hkeep
        -- `a` was dropped and `b` was kept, so `a` stands before `b`
        have ha' : a ∈ l.take (max / 2) := by
          rw [← List.take_append_drop (max / 2) l, List.mem_append] at ha
          exact ha.resolve_right hkeep
        rw [← List.take_append_drop (max / 2) l, List.pairwise_append] at hl
        exact hl.2.2 a ha' b hb
      · next hlen => rw [if_neg hlen] at hkeep; exact absurd ha hkeep
  · exact Or.inr ⟨trim_ne_nil hne, fun b hb => hlt b (mem_of_mem_trim hb)⟩

/-- **Admission loses no coverage**, as long as nothing is admitted below the minimum. -/
theorem Covers.insort {l : List α} {a b : α} (hb : ∀ c ∈ l.head?, c ≤ b) (h : Covers l a) :
    Covers (insort b l) a := by
  rcases h with ha | ⟨hne, hlt⟩
  · exact Or.inl (mem_insort.mpr (Or.inr ha))
  · refine Or.inr ⟨insort_ne_nil b l, ?_⟩
    intro c hc
    rcases mem_insort.mp hc with rfl | hc
    · cases l with
      | nil => exact absurd rfl hne
      | cons d l => exact (hlt d List.mem_cons_self).trans_le (hb d rfl)
    · exact hlt c hc

theorem covers_insort_self (a : α) (l : List α) : Covers (insort a l) a :=
  Or.inl (mem_insort.mpr (Or.inl rfl))

/-- **What may be admitted is not covered**: it is not remembered, and not below
the minimum. -/
theorem not_covers {l : List α} {a : α} (ha : a ∉ l) (hmin : ∀ c ∈ l.head?, c ≤ a) :
    ¬ Covers l a := by
  rintro (h | ⟨hne, hlt⟩)
  · exact ha h
  · cases l with
    | nil => exact hne rfl
    | cons c l => exact absurd (hlt c List.mem_cons_self) (not_lt.mpr (hmin c rfl))

end History
