import Mathlib.Data.List.Nodup
import Mathlib.Order.Lattice
import Mathlib.Tactic.Common

/-!
# Tables with a primary key

A table is the list of its rows in the order of their keys, no two of which are
equal; the order is part of the type.  A row that is inserted under a key that
exists is merged into the row there.

## Main definitions

* `Table` — the rows, in key order.
* `Table.find` — the row of a key.
* `Table.upsert`, `Table.delete` — writing and deleting a row.

## Main results

* `Table.find_upsert`, `Table.find_delete` — what is found after a write.
* `Table.mem_rows_iff` — the rows are what `find` finds.
* `Table.perm_rows_upsert`, `Table.find?_of_perm` — a table as a list in any order.
-/

variable {ρ κ : Type*} [LinearOrder κ]

/-- The rows of a table, in the order of their keys. -/
structure Table (key : ρ → κ) where
  rows : List ρ
  sorted : rows.Pairwise (key · < key ·)

namespace Table

variable {key : ρ → κ}

/-- The table without rows. -/
def empty : Table key := ⟨[], List.Pairwise.nil⟩

/-- The row of a key. -/
def find (t : Table key) (k : κ) : Option ρ := t.rows.find? (key · = k)

theorem key_of_find {t : Table key} {k : κ} {r : ρ} (h : t.find k = some r) : key r = k := by
  simpa using List.find?_some h

theorem mem_rows_of_find {t : Table key} {k : κ} {r : ρ} (h : t.find k = some r) : r ∈ t.rows :=
  List.mem_of_find?_eq_some h

/-! ### Writing -/

/-- Insert `r` into rows in key order, merging it into the row of its key. -/
def upsertRows (key : ρ → κ) (merge : ρ → ρ → ρ) (r : ρ) : List ρ → List ρ
  | [] => [r]
  | q :: qs =>
    if key r < key q then r :: q :: qs
    else if key q < key r then q :: upsertRows key merge r qs
    else merge q r :: qs

variable {merge : ρ → ρ → ρ}

/-- The keys of the rows stay what they were, with the new one among them. -/
theorem key_of_mem_upsertRows (hmerge : ∀ q r, key (merge q r) = key q) {r x : ρ} {qs : List ρ}
    (hx : x ∈ upsertRows key merge r qs) : key x = key r ∨ ∃ q ∈ qs, key x = key q := by
  induction qs with
  | nil => exact Or.inl (congrArg key (List.mem_singleton.mp hx))
  | cons q qs ih =>
    rw [upsertRows] at hx
    split at hx
    · rcases List.mem_cons.mp hx with rfl | hx
      · exact Or.inl rfl
      · exact Or.inr ⟨x, hx, rfl⟩
    · split at hx
      · rcases List.mem_cons.mp hx with rfl | hx
        · exact Or.inr ⟨x, List.mem_cons_self, rfl⟩
        · exact (ih hx).imp_right fun ⟨q', hq', h⟩ => ⟨q', List.mem_cons_of_mem q hq', h⟩
      · rcases List.mem_cons.mp hx with rfl | hx
        · exact Or.inr ⟨q, List.mem_cons_self, hmerge q r⟩
        · exact Or.inr ⟨x, List.mem_cons_of_mem q hx, rfl⟩

theorem pairwise_upsertRows (hmerge : ∀ q r, key (merge q r) = key q) (r : ρ) {qs : List ρ}
    (hqs : qs.Pairwise (key · < key ·)) : (upsertRows key merge r qs).Pairwise (key · < key ·) := by
  induction qs with
  | nil => exact List.pairwise_singleton _ r
  | cons q qs ih =>
    obtain ⟨hq, hqs'⟩ := List.pairwise_cons.mp hqs
    rw [upsertRows]
    split
    · next hlt =>
      refine List.pairwise_cons.mpr ⟨?_, hqs⟩
      intro x hx
      rcases List.mem_cons.mp hx with rfl | hx
      · exact hlt
      · exact hlt.trans (hq x hx)
    · split
      · next hlt =>
        refine List.pairwise_cons.mpr ⟨?_, ih hqs'⟩
        intro x hx
        rcases key_of_mem_upsertRows hmerge hx with h | ⟨y, hy, h⟩
        · rw [h]; exact hlt
        · rw [h]; exact hq y hy
      · refine List.pairwise_cons.mpr ⟨?_, hqs'⟩
        intro x hx
        rw [hmerge]
        exact hq x hx

/-- Write a row: `INSERT … ON CONFLICT DO UPDATE` with the given merge of the old
row and the new one, which keeps the key. -/
def upsert (merge : ρ → ρ → ρ) (hmerge : ∀ q r, key (merge q r) = key q) (t : Table key) (r : ρ) :
    Table key :=
  ⟨upsertRows key merge r t.rows, pairwise_upsertRows hmerge r t.sorted⟩

/-- Delete the row of a key. -/
def delete (t : Table key) (k : κ) : Table key :=
  ⟨t.rows.filter (key · ≠ k), t.sorted.filter _⟩

/-! ### What is found after a write -/

/-- A key below all rows is not found. -/
theorem find?_eq_none_of_lt {k : κ} {qs : List ρ} (h : ∀ q ∈ qs, k < key q) :
    qs.find? (key · = k) = none := by
  rw [List.find?_eq_none]
  intro q hq
  simpa using (h q hq).ne'

theorem find?_upsertRows (hmerge : ∀ q r, key (merge q r) = key q) (r : ρ) (k : κ) {qs : List ρ}
    (hqs : qs.Pairwise (key · < key ·)) :
    (upsertRows key merge r qs).find? (key · = k) =
      if key r = k then some (((qs.find? (key · = k)).map (merge · r)).getD r)
      else qs.find? (key · = k) := by
  -- on the rows, which are sorted by their keys: the new one goes before, behind or onto the first
  induction qs with
  | nil => by_cases h : key r = k <;> simp [upsertRows, h]
  | cons q qs ih =>
    obtain ⟨hq, hqs'⟩ := List.pairwise_cons.mp hqs
    rw [upsertRows]
    split
    · next hlt =>
      have hnone : (q :: qs).find? (key · = key r) = none :=
        find?_eq_none_of_lt (List.forall_mem_cons.mpr ⟨hlt, fun x hx => hlt.trans (hq x hx)⟩)
      by_cases h : key r = k
      · subst h
        rw [if_pos rfl, hnone]
        simp
      · rw [List.find?_cons_of_neg (by simpa using h), if_neg h]
    · split
      · next hlt =>
        by_cases hk : key q = k
        · have h : key r ≠ k := fun h => hlt.ne (hk.trans h.symm)
          rw [List.find?_cons_of_pos (by simpa using hk), if_neg h,
            List.find?_cons_of_pos (by simpa using hk)]
        · rw [List.find?_cons_of_neg (by simpa using hk), ih hqs',
            List.find?_cons_of_neg (by simpa using hk)]
      · next hge hle =>
        have hkey : key q = key r := le_antisymm (not_lt.mp hge) (not_lt.mp hle)
        by_cases h : key r = k
        · rw [List.find?_cons_of_pos (by simp [hmerge, hkey, h]), if_pos h,
            List.find?_cons_of_pos (by simp [hkey, h])]
          rfl
        · rw [List.find?_cons_of_neg (by simp [hmerge, hkey, h]), if_neg h,
            List.find?_cons_of_neg (by simp [hkey, h])]

/-- **A write changes the row of its own key only**, to the merge with what was there. -/
theorem find_upsert (hmerge : ∀ q r, key (merge q r) = key q) (t : Table key) (r : ρ) (k : κ) :
    (t.upsert merge hmerge r).find k =
      if key r = k then some (((t.find k).map (merge · r)).getD r) else t.find k :=
  find?_upsertRows hmerge r k t.sorted

/-- **Deleting removes the row of its key only.** -/
theorem find_delete (t : Table key) (k k' : κ) :
    (t.delete k).find k' = if k' = k then none else t.find k' := by
  unfold find delete
  simp only
  rw [List.find?_filter]
  by_cases h : k' = k
  · subst h
    rw [if_pos rfl, List.find?_eq_none]
    intro q _
    simp
  · rw [if_neg h]
    congr 1
    funext q
    by_cases hq : key q = k'
    · simp [hq, h]
    · simp [hq]

/-- No key is there twice. -/
theorem nodup_keys (t : Table key) : (t.rows.map key).Nodup :=
  List.pairwise_map.mpr (t.sorted.imp fun {a b} (hlt : key a < key b) => hlt.ne)

/-- **The rows are what is found.** -/
theorem mem_rows_iff {t : Table key} {r : ρ} : r ∈ t.rows ↔ t.find (key r) = some r := by
  refine ⟨?_, mem_rows_of_find⟩
  intro hr
  have hsome : (t.find (key r)).isSome := List.find?_isSome.mpr ⟨r, hr, by simp⟩
  obtain ⟨q, hq⟩ := Option.isSome_iff_exists.mp hsome
  have hkey := key_of_find hq
  have heq : q = r := List.inj_on_of_nodup_map t.nodup_keys (mem_rows_of_find hq) hr hkey
  rw [hq, heq]

theorem find_eq_some_iff {t : Table key} {k : κ} {r : ρ} : t.find k = some r ↔ r ∈ t.rows ∧
    key r = k := by
  constructor
  · intro h
    exact ⟨mem_rows_of_find h, key_of_find h⟩
  · rintro ⟨hr, rfl⟩
    exact mem_rows_iff.mp hr

/-! ### The rows in any order -/

/-- A list of the rows in another order finds the same. -/
theorem find?_of_perm {t : Table key} {l : List ρ} (h : l.Perm t.rows) (k : κ) :
    l.find? (key · = k) = t.find k := by
  cases hfind : l.find? (key · = k) with
  | none =>
    refine (List.find?_eq_none.mpr ?_).symm
    intro r hr
    exact List.find?_eq_none.mp hfind r (h.mem_iff.mpr hr)
  | some r =>
    refine (find_eq_some_iff.mpr ⟨h.mem_iff.mp (List.mem_of_find?_eq_some hfind), ?_⟩).symm
    simpa using List.find?_some hfind

/-- **A write replaces the row of its key.** -/
theorem perm_rows_upsert (hmerge : ∀ q r, key (merge q r) = key q) (t : Table key) (r : ρ) :
    (t.upsert merge hmerge r).rows.Perm
      (((t.find (key r)).map (merge · r)).getD r :: t.rows.filter (key · ≠ key r)) := by
  have hkey : key (((t.find (key r)).map (merge · r)).getD r) = key r := by
    cases hfind : t.find (key r) with
    | none => rfl
    | some q => exact (hmerge q r).trans (key_of_find hfind)
  have hnodup : (t.upsert merge hmerge r).rows.Nodup := (nodup_keys _).of_map
  have hnotMem : ((t.find (key r)).map (merge · r)).getD r ∉ t.rows.filter (key · ≠ key r) := by
    intro h
    simpa [hkey] using List.of_mem_filter h
  have hnodup' := List.nodup_cons.mpr ⟨hnotMem, t.nodup_keys.of_map.filter (key · ≠ key r)⟩
  refine (List.perm_ext_iff_of_nodup hnodup hnodup').mpr ?_
  intro x
  rw [mem_rows_iff, find_upsert, List.mem_cons, List.mem_filter, mem_rows_iff]
  by_cases hx : key r = key x
  · have hne : (key x ≠ key r) = False := by simp [hx]
    simp [hx, eq_comm]
  · rw [if_neg hx]
    constructor
    · intro h
      exact Or.inr ⟨h, by simpa using Ne.symm hx⟩
    · rintro (rfl | h)
      · exact absurd hkey.symm hx
      · exact h.1

end Table
