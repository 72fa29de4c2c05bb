import Pyrogram.Storage.UpdateState

/-!
# The bridge over legacy storages

A storage engine that was written for the API before it was split has one method
`update_state`: it lists the rows, replaces a whole row, or deletes one.  `Storage` builds
`get_update_states`, `set_update_state` and `delete_update_state` on it, and merges a row
with the one that is there before it replaces it.

`update_state` is a parameter.  It does not call the methods that are built on it, so that
the bridge is never entered twice; the limits of SQLite are not reached.

## Main definitions

* `LegacyStorage`, `LegacyStorage.Replaces` — the method, and what it does to the rows.
* `Operation` — one call of the split API.
* `LegacyStorage.apply`, `UpdateTable.apply` — what it does to the two storages.

## Main results

* `LegacyStorage.perm_apply` — every operation keeps the rows of both the same.
* `UpdateTable.find_foldl_write_eq_none` — when a state is absent.
* `LegacyStorage.update_states_agree` — **the two storages hold the same states.**
-/

namespace Pyrogram

/-- `_LegacyUpdateState` is a tuple of the fields; `_coerce_update_state` makes it a state. -/
structure LegacyStorage (σ : Type*) where
  /-- `update_state()`. -/
  list : σ → List UpdateState
  /-- `update_state(row)`. -/
  replace : σ → UpdateState → σ
  /-- `update_state(id)`. -/
  delete : σ → ℤ → σ

/-- Rows are replaced as a whole, and no other row changes. -/
structure LegacyStorage.Replaces {σ : Type*} (l : LegacyStorage σ) : Prop where
  replace : ∀ s row, (l.list (l.replace s row)).Perm (row :: (l.list s).filter (·.id ≠ row.id))
  delete : ∀ s id, (l.list (l.delete s id)).Perm ((l.list s).filter (·.id ≠ id))

/-- A call of the split API, with the states and the ids as they are iterated over. -/
inductive Operation
  | setUpdateState (states : List UpdateState)
  | deleteUpdateState (ids : List ℤ)
  | getUpdateStates (ids : Option (List ℤ))
  deriving DecidableEq, Repr

namespace LegacyStorage

variable {σ : Type*} (l : LegacyStorage σ)

def getUpdateStates (s : σ) : Option (List ℤ) → List UpdateState
  | none => l.list s
  | some [] => []
  | some ids => (l.list s).filter (·.id ∈ ids)

def mergeUpdateState (current update : UpdateState) : UpdateState where
  id := update.id
  pts := if update.pts ≠ none then update.pts else current.pts
  qts := if update.qts ≠ none then update.qts else current.qts
  date := if update.date ≠ none then update.date else current.date
  seq := if update.seq ≠ none then update.seq else current.seq

def setUpdateState (s : σ) (states : List UpdateState) : σ :=
  states.foldl (fun s update =>
    l.replace s (match l.getUpdateStates s (some [update.id]) with
      | [] => update
      | current :: _ => mergeUpdateState current update)) s

def deleteUpdateState (s : σ) (ids : List ℤ) : σ := ids.foldl l.delete s

def apply (s : σ) : Operation → σ
  | .setUpdateState states => l.setUpdateState s states
  | .deleteUpdateState ids => l.deleteUpdateState s ids
  | .getUpdateStates _ => s

/-- The state of an id. -/
def find (s : σ) (id : ℤ) : Option UpdateState := (l.list s).find? (·.id = id)

end LegacyStorage

/-- The fields that may be `NULL`. -/
def UpdateState.fields : List (UpdateState → Option ℤ) := [pts, qts, date, seq]

theorem UpdateState.field_coalesce {field : UpdateState → Option ℤ} (hfield : field ∈ fields)
    (q r : UpdateState) :
    field (q.coalesce r) = (field r <|> field q) := by
  simp only [fields, List.mem_cons, List.not_mem_nil, or_false] at hfield
  rcases hfield with rfl | rfl | rfl | rfl <;> rfl

namespace UpdateTable

/-- `executemany`. -/
def setUpdateStates (t : UpdateTable) (states : List UpdateState) : UpdateTable :=
  states.foldl setUpdateState t

/-- `DELETE … WHERE id IN (…)`. -/
def deleteUpdateStates (t : UpdateTable) (ids : List ℤ) : UpdateTable :=
  ⟨t.rows.filter (·.id ∉ ids), t.sorted.filter _⟩

def apply (t : UpdateTable) : Operation → UpdateTable
  | .setUpdateState states => t.setUpdateStates states
  | .deleteUpdateState ids => t.deleteUpdateStates ids
  | .getUpdateStates _ => t

/-! ### What a run stores -/

/-- What an operation does, one state after the other. -/
inductive Write
  | set (state : UpdateState)
  | delete (id : ℤ)
  deriving DecidableEq, Repr

end UpdateTable

def Operation.writes : Operation → List UpdateTable.Write
  | .setUpdateState states => states.map .set
  | .deleteUpdateState ids => ids.map .delete
  | .getUpdateStates _ => []

namespace UpdateTable

def write (t : UpdateTable) : Write → UpdateTable
  | .set state => t.setUpdateState state
  | .delete id => t.deleteUpdateState id

variable {t : UpdateTable} {id : ℤ}

theorem deleteUpdateStates_cons (t : UpdateTable) (id : ℤ) (ids : List ℤ) :
    t.deleteUpdateStates (id :: ids) = (t.deleteUpdateState id).deleteUpdateStates ids := by
  simp [deleteUpdateStates, deleteUpdateState, Table.delete, List.filter_filter, Bool.and_comm]

/-- A statement for several ids is one statement after the other. -/
theorem deleteUpdateStates_eq_foldl (t : UpdateTable) (ids : List ℤ) :
    t.deleteUpdateStates ids = ids.foldl deleteUpdateState t := by
  induction ids generalizing t with
  | nil => simp [deleteUpdateStates]
  | cons id ids ih => rw [deleteUpdateStates_cons, ih, List.foldl_cons]

theorem apply_eq_foldl_write (t : UpdateTable) (op : Operation) :
    t.apply op = op.writes.foldl write t := by
  cases op with
  | setUpdateState states => simp [apply, Operation.writes, setUpdateStates, List.foldl_map, write]
  | deleteUpdateState ids =>
      simp [apply, Operation.writes, deleteUpdateStates_eq_foldl, List.foldl_map, write]
  | getUpdateStates ids => rfl

theorem foldl_apply_eq_foldl_write (t : UpdateTable) (ops : List Operation) :
    ops.foldl apply t = (ops.flatMap Operation.writes).foldl write t := by
  induction ops generalizing t with
  | nil => rfl
  | cons op ops ih =>
      rw [List.foldl_cons, ih, List.flatMap_cons, List.foldl_append, apply_eq_foldl_write]

theorem find_write_set (t : UpdateTable) (state : UpdateState) (id : ℤ) :
    (t.write (.set state)).find id =
      if state.id = id then some (((t.find id).map (·.coalesce state)).getD state) else t.find id :=
  Table.find_upsert UpdateState.id_coalesce t state id

theorem find_write_delete (t : UpdateTable) (id' id : ℤ) :
    (t.write (.delete id')).find id = if id = id' then none else t.find id :=
  Table.find_delete t id' id

/-- **When a state is absent**: it was from the start or is deleted, and every write of it
has a later deletion. -/
theorem find_foldl_write_eq_none {writes : List Write} :
    (writes.foldl write t).find id = none ↔
      (t.find id = none ∨ .delete id ∈ writes) ∧
        ∀ pre state post, writes = pre ++ .set state :: post → state.id = id →
          .delete id ∈ post := by
  -- on the writes; a row is gone when its last write deleted it
  induction writes generalizing t with
  | nil => simp
  | cons w writes ih =>
    rw [List.foldl_cons, ih]
    -- a write is the first one or a later one
    have hsplit : (∀ pre state post, w :: writes = pre ++ .set state :: post → state.id = id →
      .delete id ∈ post) ↔
        (∀ state, w = .set state → state.id = id → .delete id ∈ writes) ∧
          ∀ pre state post, writes = pre ++ .set state :: post → state.id = id →
            .delete id ∈ post := by
      constructor
      · intro h
        refine ⟨?_, ?_⟩
        · rintro state rfl
          exact h [] state writes rfl
        · rintro pre state post rfl
          exact h (w :: pre) state post rfl
      · rintro ⟨hhead, htail⟩ pre state post heq hid
        cases pre with
        | nil =>
          obtain ⟨hw, rfl⟩ := List.cons.inj heq
          exact hhead state hw hid
        | cons w' pre => exact htail pre state post (List.cons.inj heq).2 hid
    rw [hsplit, ← and_assoc]
    refine and_congr_left fun _ => ?_
    cases w with
    | set state =>
      rw [find_write_set]
      by_cases hid : state.id = id
      · simp only [hid, if_true, Write.set.injEq, List.mem_cons, reduceCtorEq, false_or,
          Option.some_ne_none]
        constructor
        · intro h
          exact ⟨Or.inr h, fun _ _ _ => h⟩
        · intro h
          exact h.2 state rfl hid
      · simp [hid]
    | delete id' =>
      rw [find_write_delete]
      by_cases hid : id = id'
      · simp [hid]
      · simp [hid]

/-- What the states that are set say of a field. -/
def given (field : UpdateState → Option ℤ) (id : ℤ) (states : List UpdateState) : Option ℤ :=
  ((states.filter (·.id = id)).filterMap field).getLast?

/-- **What is stored after several writes**: what the last of them gives, or else what was
there. -/
theorem stored_setUpdateStates {field : UpdateState → Option ℤ}
    (hfield : field ∈ UpdateState.fields)
    (t : UpdateTable) (states : List UpdateState) (id : ℤ) :
    (t.setUpdateStates states).stored field id = (given field id states <|> t.stored field id) := by
  have hcoalesce := UpdateState.field_coalesce hfield
  unfold setUpdateStates
  induction states generalizing t with
  | nil => simp [given]
  | cons state states ih =>
    rw [List.foldl_cons, ih, stored_setUpdateState hcoalesce]
    by_cases hid : state.id = id
    · cases hstate : field state <;> simp [given, hid, hstate, List.getLast?_cons]
    · simp [given, hid]

end UpdateTable

/-! ### The bridge and the table -/

namespace LegacyStorage

variable {σ : Type*} {l : LegacyStorage σ} {s : σ} {t : UpdateTable}

/-- What is merged before the row is replaced is what the `ON CONFLICT` clause merges. -/
theorem mergeUpdateState_eq_coalesce {current update : UpdateState} (h : current.id = update.id) :
    mergeUpdateState current update = current.coalesce update := by
  have hfield : ∀ x y : Option ℤ, (if x ≠ none then x else y) = (x <|> y) := by
    rintro (_ | x) y <;> rfl
  simp only [mergeUpdateState, UpdateState.coalesce, hfield, h]

theorem find_eq (h : (l.list s).Perm t.rows) (id : ℤ) : l.find s id = t.find id :=
  Table.find?_of_perm h id

/-- The state that is read back before a write. -/
theorem head?_getUpdateStates (s : σ) (id : ℤ) :
    (l.getUpdateStates s (some [id])).head? = l.find s id := by
  simp [getUpdateStates, find]

/-- **One state is set.** -/
theorem perm_set (hl : l.Replaces) (h : (l.list s).Perm t.rows) (update : UpdateState) :
    (l.list (l.replace s (match l.getUpdateStates s (some [update.id]) with
      | [] => update
      | current :: _ => mergeUpdateState current update))).Perm (t.setUpdateState update).rows := by
  have hrow : (match l.getUpdateStates s (some [update.id]) with
      | [] => update
      | current :: _ => mergeUpdateState current update) =
      ((t.find update.id).map (·.coalesce update)).getD update := by
    rw [← find_eq h, ← head?_getUpdateStates]
    split
    · next hnil => rw [hnil]; rfl
    · next current rest hcons =>
      have hfind : t.find update.id = some current := by
        rw [← find_eq h, ← head?_getUpdateStates, hcons]
        rfl
      rw [hcons, mergeUpdateState_eq_coalesce (Table.key_of_find hfind)]
      rfl
  have hid : (((t.find update.id).map (·.coalesce update)).getD update).id = update.id := by
    cases hfind : t.find update.id with
    | none => rfl
    | some current => exact (UpdateState.id_coalesce current update).trans (Table.key_of_find hfind)
  rw [hrow]
  refine (hl.replace s _).trans
    (List.Perm.trans ?_ (Table.perm_rows_upsert UpdateState.id_coalesce t update).symm)
  rw [hid]
  exact (h.filter _).cons _

/-- **Every operation keeps the rows of both the same.** -/
theorem perm_apply (hl : l.Replaces) (h : (l.list s).Perm t.rows) (op : Operation) :
    (l.list (l.apply s op)).Perm (t.apply op).rows := by
  cases op with
  | getUpdateStates ids => exact h
  | setUpdateState states =>
    show (l.list (states.foldl _ s)).Perm (states.foldl _ t).rows
    induction states generalizing s t with
    | nil => exact h
    | cons update states ih => exact ih (perm_set hl h update)
  | deleteUpdateState ids =>
    show (l.list (ids.foldl l.delete s)).Perm (t.deleteUpdateStates ids).rows
    rw [UpdateTable.deleteUpdateStates_eq_foldl]
    induction ids generalizing s t with
    | nil => exact h
    | cons id ids ih => exact ih ((hl.delete s id).trans (h.filter _))

theorem perm_foldl_apply (hl : l.Replaces) (h : (l.list s).Perm t.rows) (ops : List Operation) :
    (l.list (ops.foldl l.apply s)).Perm (ops.foldl UpdateTable.apply t).rows := by
  induction ops generalizing s t with
  | nil => exact h
  | cons op ops ih => exact ih (perm_apply hl h op)

/-- A query of the bridge returns the rows a query of the table returns. -/
theorem perm_getUpdateStates (h : (l.list s).Perm t.rows) (ids : Option (List ℤ)) :
    (l.getUpdateStates s ids).Perm (t.getUpdateStates ids) := by
  refine List.Perm.trans ?_ (List.mergeSort_perm _ _).symm
  match ids with
  | none => simpa [getUpdateStates] using h
  | some [] => simp [getUpdateStates]
  | some (id :: ids) => exact h.filter _

/-- **The two storages hold the same states.**  They start with the same rows, and see the
same operations.  Then they know every id alike, and answer every selection of ids alike; in
both, a write leaves a field alone for which it gives nothing, and a state is absent if and
only if it was at the start or is deleted, and every write of it has a later deletion. -/
theorem update_states_agree (hl : l.Replaces) (hstart : (l.list s).Perm t.rows)
    (ops : List Operation) :
    (∀ id, l.find (ops.foldl l.apply s) id = (ops.foldl UpdateTable.apply t).find id) ∧
    (∀ ids, (l.getUpdateStates (ops.foldl l.apply s) ids).Perm
      ((ops.foldl UpdateTable.apply t).getUpdateStates ids)) ∧
    (∀ states id, ∀ field ∈ UpdateState.fields,
      (l.find ((ops ++ [Operation.setUpdateState states]).foldl l.apply s) id).bind field =
          (UpdateTable.given field id states <|> (l.find (ops.foldl l.apply s) id).bind field) ∧
        (((ops ++ [Operation.setUpdateState states]).foldl UpdateTable.apply t).find id).bind
          field =
          (UpdateTable.given field id states <|> ((ops.foldl UpdateTable.apply t).find id).bind
            field)) ∧
    ∀ id,
      (l.find (ops.foldl l.apply s) id = none ↔ (ops.foldl UpdateTable.apply t).find id = none) ∧
      ((ops.foldl UpdateTable.apply t).find id = none ↔
        (t.find id = none ∨ .delete id ∈ ops.flatMap Operation.writes) ∧
          ∀ pre state post, ops.flatMap Operation.writes = pre ++ .set state :: post →
            state.id = id →
            .delete id ∈ post) := by
  -- the two stores have the same rows after any operations
  have hfind : ∀ (ops : List Operation) (id : ℤ), l.find (ops.foldl l.apply s) id =
      (ops.foldl UpdateTable.apply t).find id :=
    fun ops => find_eq (perm_foldl_apply hl hstart ops)
  have hset : ∀ states id, ∀ field ∈ UpdateState.fields,
      (((ops ++ [Operation.setUpdateState states]).foldl UpdateTable.apply t).find id).bind field =
        (UpdateTable.given field id states <|> ((ops.foldl UpdateTable.apply t).find id).bind
          field) := by
    intro states id field hfield
    rw [List.foldl_append]
    exact UpdateTable.stored_setUpdateStates hfield _ states id
  refine ⟨hfind ops, perm_getUpdateStates (perm_foldl_apply hl hstart ops), ?_, ?_⟩
  · intro states id field hfield
    rw [hfind, hfind]
    exact ⟨hset states id field hfield, hset states id field hfield⟩
  · intro id
    rw [hfind]
    refine ⟨Iff.rfl, ?_⟩
    rw [UpdateTable.foldl_apply_eq_foldl_write]
    exact UpdateTable.find_foldl_write_eq_none

/-- A storage whose rows are a list. -/
def rows : LegacyStorage (List UpdateState) where
  list := id
  replace states row := states.filter (·.id ≠ row.id) ++ [row]
  delete states id := states.filter (·.id ≠ id)

theorem replaces_rows : rows.Replaces where
  replace _ _ := List.perm_append_singleton _ _
  delete _ _ := List.Perm.refl _

theorem update_states_agree_rows :
    rows.find ([Operation.setUpdateState [⟨0, some 10, some 20, none, none⟩,
    ⟨1, none, none, none, none⟩],
      .setUpdateState [⟨0, none, some 21, some 30, none⟩], .deleteUpdateState [1]].foldl
        rows.apply []) 0 =
    some ⟨0, some 10, some 21, some 30, none⟩ :=
  ((update_states_agree (t := Table.empty) replaces_rows (List.Perm.refl []) _).1 0).trans
    (by decide)

end LegacyStorage

end Pyrogram
