import Pyrogram.Dict
import Mathlib.Data.Finset.Card
import Mathlib.Data.List.TakeWhile

/-!
# The most recent keys

Keys are used one after the other; the list of the uses has the latest in front.  The keys that were
used most recently are the first of `Dict.fromKeys`, and whether a key is one of them depends on how
many others were used since.

## Main definitions

* `since` — the keys that were used since the last use of a key.

## Main results

* `mem_take_fromKeys` — **a key is among the most recent** iff it was used, and not too many others
  since.
* `take_touch` — the most recent keys after a use depend on the most recent keys before it.
-/

namespace Recency

open Dict

variable {κ : Type*} [DecidableEq κ] {k : κ} {l uses : List κ} {n : ℕ}

/-- The keys that were used since the last use of `k`. -/
def since (k : κ) (uses : List κ) : Finset κ := (uses.takeWhile (· ≠ k)).toFinset

theorem takeWhile_filter_ne {a : κ} (h : a ≠ k) (l : List κ) :
    (l.filter (· ≠ a)).takeWhile (· ≠ k) = (l.takeWhile (· ≠ k)).filter (· ≠ a) := by
  induction l with
  | nil => rfl
  | cons b l ih =>
    by_cases hb : b = a
    · subst hb
      simpa [h] using ih
    · by_cases hk : b = k
      · subst hk
        simp [hb]
      · simpa [hb, hk] using ih

/-- What comes before a key. -/
theorem mem_takeWhile_fromKeys {a : κ} (uses : List κ) :
    a ∈ (fromKeys uses).takeWhile (· ≠ k) ↔ a ∈ uses.takeWhile (· ≠ k) := by
  induction uses with
  | nil => rfl
  | cons b uses ih =>
    by_cases hb : b = k
    · simp [fromKeys, hb]
    · have hcons : ∀ l : List κ, (b :: l).takeWhile (· ≠ k) = b :: l.takeWhile (· ≠ k) := by
        simp [hb]
      rw [fromKeys, hcons, hcons, takeWhile_filter_ne hb, List.mem_cons, List.mem_cons,
        List.mem_filter, ih]
      by_cases ha : a = b
      · simp [ha]
      · simp [ha]

theorem length_fromKeys (uses : List κ) : (fromKeys uses).length = uses.toFinset.card := by
  rw [← List.toFinset_card_of_nodup (nodup_fromKeys uses)]
  congr 1
  ext a
  rw [List.mem_toFinset, List.mem_toFinset, mem_fromKeys]

theorem length_takeWhile_fromKeys (uses : List κ) :
    ((fromKeys uses).takeWhile (· ≠ k)).length = (since k uses).card := by
  have hnodup : ((fromKeys uses).takeWhile (· ≠ k)).Nodup :=
    (nodup_fromKeys uses).sublist (List.takeWhile_sublist _)
  rw [← List.toFinset_card_of_nodup hnodup, since]
  congr 1
  ext a
  rw [List.mem_toFinset, List.mem_toFinset, mem_takeWhile_fromKeys]

theorem mem_take_iff (l : List κ) : k ∈ l.take n ↔ k ∈ l ∧ (l.takeWhile (· ≠ k)).length < n := by
  induction l generalizing n with
  | nil => simp
  | cons a l ih =>
    cases n with
    | zero => simp
    | succ n =>
      by_cases ha : a = k
      · simp [ha]
      · have hk : ¬k = a := fun h => ha h.symm
        simp only [List.take_succ_cons, List.mem_cons, hk, false_or, ih]
        simp [ha]

/-- **A key is among the most recent** iff it was used, and fewer others since. -/
theorem mem_take_fromKeys : k ∈ (fromKeys uses).take n ↔ k ∈ uses ∧ (since k uses).card < n := by
  rw [mem_take_iff, mem_fromKeys, length_takeWhile_fromKeys]

theorem length_filter_ne (h : l.Nodup) : l.length ≤ (l.filter (· ≠ k)).length + 1 := by
  by_cases hk : k ∈ l
  · have herase : l.filter (· ≠ k) = l.erase k := by
      rw [h.erase_eq_filter]
      exact List.filter_congr fun a _ => by simp [bne, beq_eq_decide]
    rw [herase, List.length_erase_of_mem hk]
    omega
  · have hself : l.filter (· ≠ k) = l :=
      List.filter_eq_self.mpr fun a ha => by simpa using ne_of_mem_of_not_mem ha hk
    rw [hself]
    exact Nat.le_succ _

/-- **The most recent keys after a use** depend on the most recent keys before it. -/
theorem take_touch (h : l.Nodup) :
    (k :: (l.take n).filter (· ≠ k)).take n = (k :: l.filter (· ≠ k)).take n := by
  cases n with
  | zero => rfl
  | succ n =>
    rw [List.take_succ_cons, List.take_succ_cons]
    congr 1
    have hsplit : l.filter (· ≠ k) = (l.take (n + 1)).filter (· ≠ k) ++
        (l.drop (n + 1)).filter (· ≠ k) := by
      rw [← List.filter_append, List.take_append_drop]
    have hlength := length_filter_ne (k := k) (h.sublist (List.take_sublist (n + 1) l))
    rw [List.length_take] at hlength
    rcases Nat.lt_or_ge l.length (n + 1) with hlt | hge
    · rw [List.take_of_length_le hlt.le]
    · rw [hsplit, List.take_append_of_le_length (by omega)]

end Recency
