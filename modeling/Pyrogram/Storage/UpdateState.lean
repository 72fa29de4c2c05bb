import Pyrogram.Table
import Mathlib.Data.Int.Order.Basic
import Mathlib.Data.List.Sort

/-!
# Update states

The table `update_state` of `SQLiteStorage`: one row per update state, with a
nullable `pts`, `qts`, `date` and `seq`.  A write merges into the row of its id,
field by field, and a `NULL` leaves the field as it was.

## Main definitions

* `UpdateState`, `UpdateTable` — a row and the table.
* `UpdateTable.setUpdateState`, `deleteUpdateState`, `getUpdateStates` — the statements.
* `UpdateTable.stored` — a field of the row of an id.

## Main results

* `UpdateTable.stored_setUpdateState` — what a write stores.
* `UpdateTable.mem_getUpdateStates`, `nodup_getUpdateStates` — the rows a query returns.
-/

namespace Pyrogram

structure UpdateState where
  id : ℤ
  pts : Option ℤ
  qts : Option ℤ
  date : Option ℤ
  seq : Option ℤ
  deriving DecidableEq, Repr

/-- The `ON CONFLICT` clause: `COALESCE(excluded.x, update_state.x)` for every field. -/
def UpdateState.coalesce (stored excluded : UpdateState) : UpdateState where
  id := stored.id
  pts := excluded.pts <|> stored.pts
  qts := excluded.qts <|> stored.qts
  date := excluded.date <|> stored.date
  seq := excluded.seq <|> stored.seq

@[simp] theorem UpdateState.id_coalesce (q r : UpdateState) : (q.coalesce r).id = q.id := rfl

@[simp] theorem UpdateState.pts_coalesce (q r : UpdateState) :
    (q.coalesce r).pts = (r.pts <|> q.pts) := rfl

@[simp] theorem UpdateState.date_coalesce (q r : UpdateState) :
    (q.coalesce r).date = (r.date <|> q.date) := rfl

/-- The table `update_state`, with `id INTEGER PRIMARY KEY`. -/
abbrev UpdateTable := Table UpdateState.id

namespace UpdateTable

/-- `set_update_state` of one state. -/
def setUpdateState (t : UpdateTable) (s : UpdateState) : UpdateTable :=
  t.upsert UpdateState.coalesce UpdateState.id_coalesce s

/-- `delete_update_state` of one id. -/
def deleteUpdateState (t : UpdateTable) (id : ℤ) : UpdateTable := t.delete id

/-- `ORDER BY date ASC`, where `NULL` comes first. -/
def dateLe (a b : UpdateState) : Bool :=
  match a.date, b.date with
  | none, _ => true
  | some _, none => false
  | some x, some y => x ≤ y

/-- `get_update_states`; `ids` is `None` for all rows. -/
def getUpdateStates (t : UpdateTable) (ids : Option (List ℤ)) : List UpdateState :=
  (t.rows.filter fun r => ids.all (r.id ∈ ·)).mergeSort dateLe

/-- A field of the row of an id, `none` where it is `NULL` or there is no row. -/
def stored (t : UpdateTable) (field : UpdateState → Option ℤ) (id : ℤ) : Option ℤ :=
  (t.find id).bind field

/-! ### Writes -/

/-- **What a write stores**: its own field where that is not `NULL`, else what was there. -/
theorem stored_setUpdateState {field : UpdateState → Option ℤ}
    (hfield : ∀ q r, field (UpdateState.coalesce q r) = (field r <|> field q)) (t : UpdateTable)
    (s : UpdateState) (id : ℤ) :
    (t.setUpdateState s).stored field id =
      if s.id = id then (field s <|> t.stored field id) else t.stored field id := by
  unfold stored setUpdateState
  rw [Table.find_upsert]
  split
  · cases t.find id with
    | none => simp
    | some q => exact hfield q s
  · rfl

theorem stored_pts_setUpdateState (t : UpdateTable) (s : UpdateState) (id : ℤ) :
    (t.setUpdateState s).stored UpdateState.pts id =
      if s.id = id then (s.pts <|> t.stored UpdateState.pts id)
      else t.stored UpdateState.pts id :=
  stored_setUpdateState UpdateState.pts_coalesce t s id

theorem stored_date_setUpdateState (t : UpdateTable) (s : UpdateState) (id : ℤ) :
    (t.setUpdateState s).stored UpdateState.date id =
      if s.id = id then (s.date <|> t.stored UpdateState.date id)
      else t.stored UpdateState.date id :=
  stored_setUpdateState UpdateState.date_coalesce t s id

/-- After several writes a field is there if it was, or one of them brought it. -/
theorem stored_foldl_ne_none {field : UpdateState → Option ℤ}
    (hfield : ∀ q r, field (UpdateState.coalesce q r) = (field r <|> field q)) {t : UpdateTable}
    {writes : List UpdateState} {id : ℤ} :
    (writes.foldl setUpdateState t).stored field id ≠ none ↔
      t.stored field id ≠ none ∨ ∃ s ∈ writes, s.id = id ∧ field s ≠ none := by
  induction writes generalizing t with
  | nil => simp
  | cons s writes ih =>
    rw [List.foldl_cons, ih, stored_setUpdateState hfield, List.exists_mem_cons_iff, ← or_assoc]
    apply or_congr_left
    by_cases hid : s.id = id
    · cases hs : field s <;> simp [hid]
    · simp [hid]

/-- What is stored after several writes was stored before, or one of them brought it. -/
theorem stored_pts_foldl_eq_some {t : UpdateTable} {writes : List UpdateState} {id p : ℤ}
    (h : (writes.foldl setUpdateState t).stored UpdateState.pts id = some p) :
    t.stored UpdateState.pts id = some p ∨ ∃ s ∈ writes, s.id = id ∧ s.pts = some p := by
  induction writes generalizing t with
  | nil => exact Or.inl h
  | cons s writes ih =>
    rw [List.exists_mem_cons_iff]
    rcases ih h with h | h
    · rw [stored_pts_setUpdateState] at h
      split at h
      · next hid =>
        cases hs : s.pts with
        | none => rw [hs] at h; exact Or.inl h
        | some q =>
          rw [hs] at h
          exact Or.inr (Or.inl ⟨hid, h⟩)
      · exact Or.inl h
    · exact Or.inr (Or.inr h)

/-- Where the writes to an id bring larger and larger `pts`, each of them is reached by
what is stored in the end. -/
theorem exists_le_stored_pts_foldl {t : UpdateTable} {writes : List UpdateState}
    (hsorted : writes.Pairwise fun s s' => s.id = s'.id → ∀ p ∈ s.pts, ∀ p' ∈ s'.pts, p < p')
    {s : UpdateState} (hs : s ∈ writes) {p : ℤ} (hp : s.pts = some p) :
    ∃ q, (writes.foldl setUpdateState t).stored UpdateState.pts s.id = some q ∧ p ≤ q := by
  induction writes generalizing t with
  | nil => cases hs
  | cons s' writes ih =>
    obtain ⟨hhead, htail⟩ := List.pairwise_cons.mp hsorted
    rcases List.mem_cons.mp hs with rfl | hs
    · have hfirst : (t.setUpdateState s).stored UpdateState.pts s.id = some p := by
        rw [stored_pts_setUpdateState, if_pos rfl, hp]
        rfl
      have hsome : (writes.foldl setUpdateState (t.setUpdateState s)).stored UpdateState.pts s.id
          ≠ none := by
        rw [stored_foldl_ne_none UpdateState.pts_coalesce]
        exact Or.inl (hfirst ▸ Option.some_ne_none p)
      obtain ⟨q, hq⟩ := Option.ne_none_iff_exists'.mp hsome
      refine ⟨q, hq, ?_⟩
      rcases stored_pts_foldl_eq_some hq with hq | ⟨s', hs', hid, hq⟩
      · rw [hfirst] at hq
        exact (Option.some.inj hq).le
      · exact (hhead s' hs' hid.symm p hp q hq).le
    · exact ih htail hs

/-- A write to one id leaves the rows of the others alone. -/
theorem find_setUpdateState_of_ne {t : UpdateTable} {s : UpdateState} {id : ℤ} (h : s.id ≠ id) :
    (t.setUpdateState s).find id = t.find id := by
  rw [setUpdateState, Table.find_upsert, if_neg h]

theorem find_deleteUpdateState_of_ne {t : UpdateTable} {id id' : ℤ} (h : id' ≠ id) :
    (t.deleteUpdateState id).find id' = t.find id' := by
  rw [deleteUpdateState, Table.find_delete, if_neg h]

/-- The ids of a table are those it had, and those of the writes. -/
theorem find_foldl_ne_none {t : UpdateTable} {writes : List UpdateState} {id : ℤ}
    (h : (writes.foldl setUpdateState t).find id ≠ none) :
    t.find id ≠ none ∨ ∃ s ∈ writes, s.id = id := by
  induction writes generalizing t with
  | nil => exact Or.inl h
  | cons s writes ih =>
    rw [List.exists_mem_cons_iff]
    rcases ih h with h | h
    · by_cases hid : s.id = id
      · exact Or.inr (Or.inl hid)
      · rw [find_setUpdateState_of_ne hid] at h
        exact Or.inl h
    · exact Or.inr (Or.inr h)

/-! ### Queries -/

theorem mem_getUpdateStates {t : UpdateTable} {ids : Option (List ℤ)} {s : UpdateState} :
    s ∈ t.getUpdateStates ids ↔ s ∈ t.rows ∧ ∀ l ∈ ids, s.id ∈ l := by
  simp [getUpdateStates, Option.all_eq_true]

/-- A query returns every row once. -/
theorem nodup_getUpdateStates (t : UpdateTable) (ids : Option (List ℤ)) :
    ((t.getUpdateStates ids).map UpdateState.id).Nodup := by
  have hrows : (t.rows.map UpdateState.id).Nodup :=
    List.pairwise_map.mpr (t.sorted.imp fun h => h.ne)
  refine (List.Perm.nodup_iff ((List.mergeSort_perm _ dateLe).map _)).mpr ?_
  exact hrows.sublist (List.filter_sublist.map _)

end UpdateTable

end Pyrogram
