import Mathlib.Order.Lattice
import Mathlib.Tactic.Common

/-!
# Parts of an ordered log

A log is a list of entries in the order of their keys.  The entries whose keys have
some property are a part of it, in the order of the log, and a part splits at every
key.

## Main definitions

* `select` — the entries whose keys have a property.

## Main results

* `select_split` — what lies at or below a key comes before what lies above it.
-/

namespace OrderedLog

variable {ε κ : Type*} {key : ε → κ} {l : List ε} {P Q : κ → Prop}

open Classical in
/-- The entries of a log whose keys satisfy `P`. -/
noncomputable def select (key : ε → κ) (l : List ε) (P : κ → Prop) : List ε :=
  l.filter fun e => P (key e)

/-- Where the property can be decided, the part can be computed. -/
theorem filter_eq_select [DecidablePred P] : l.filter (fun e => P (key e)) = select key l P := by
  unfold select
  exact List.filter_congr fun e _ => by simp

theorem select_congr (h : ∀ e ∈ l, P (key e) ↔ Q (key e)) : select key l P = select key l Q :=
  List.filter_congr fun e he => by simp [h e he]

theorem select_eq_nil (h : ∀ e ∈ l, ¬ P (key e)) : select key l P = [] :=
  List.filter_eq_nil_iff.mpr fun e he => by simpa using h e he

theorem select_cons_of_pos {e : ε} (h : P (key e)) :
    select key (e :: l) P = e :: select key l P :=
  List.filter_cons_of_pos (by simpa using h)

theorem select_cons_of_neg {e : ε} (h : ¬ P (key e)) :
    select key (e :: l) P = select key l P :=
  List.filter_cons_of_neg (by simpa using h)

/-- **A part of an ordered log splits at every key.** -/
theorem select_split [LinearOrder κ] (hl : l.Pairwise fun a b => key a ≤ key b) (k : κ) :
    select key l P =
      select key l (fun x => P x ∧ x ≤ k) ++ select key l (fun x => P x ∧ k < x) := by
  induction l with
  | nil => rfl
  | cons e l ih =>
    obtain ⟨he, hl'⟩ := List.pairwise_cons.mp hl
    by_cases hk : key e ≤ k
    · have hnot : ¬ (P (key e) ∧ k < key e) := fun h => absurd h.2 (not_lt.mpr hk)
      rw [select_cons_of_neg (P := fun x => P x ∧ k < x) hnot]
      by_cases hP : P (key e)
      · rw [select_cons_of_pos hP, select_cons_of_pos (P := fun x => P x ∧ x ≤ k) ⟨hP, hk⟩,
          ih hl', List.cons_append]
      · rw [select_cons_of_neg hP, select_cons_of_neg (P := fun x => P x ∧ x ≤ k) fun h => hP h.1,
          ih hl']
    · -- every entry from here on lies above `k`
      have habove : ∀ x ∈ e :: l, k < key x := fun x hx => by
        rcases List.mem_cons.mp hx with rfl | hx
        · exact not_le.mp hk
        · exact (not_le.mp hk).trans_le (he x hx)
      rw [select_eq_nil (P := fun x => P x ∧ x ≤ k) fun x hx h => absurd h.2
        (not_le.mpr (habove x hx)), List.nil_append]
      exact select_congr fun x hx => ⟨fun h => ⟨h, habove x hx⟩, And.left⟩

end OrderedLog
