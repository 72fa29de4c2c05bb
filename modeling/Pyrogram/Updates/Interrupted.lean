import Pyrogram.Updates.HandleUpdates

/-!
# Interrupted batches

Wherever a run over a batch is interrupted, what it handed to the dispatcher is a
prefix of the batch, what it stored are cursors of that prefix, and the date and
sequence number of the batch are stored last of all.

## Main results

* `Client.handleUpdates_interrupted` — the order of calls and writes.
-/

namespace Pyrogram

variable {α : Type}

namespace Awaits

variable (a : Awaits α) (isMin : Bool)

/-! ### How far the loop gets -/

theorem handed_prefix (i : ℕ) (us : List (Update α)) : a.handed isMin i us <+: us := by
  induction us generalizing i with
  | nil => exact List.nil_prefix
  | cons u us ih =>
    rw [handed]
    cases a.hydrate isMin i u with
    | error e => exact List.nil_prefix
    | ok _ =>
      refine (List.prefix_cons_inj u).mpr ?_
      split
      · exact ih (i + 1)
      · exact List.nil_prefix

/-- A cursor is stored after its update was handed over. -/
theorem stored_sublist_handed (i : ℕ) (us : List (Update α)) :
    (a.stored isMin i us).Sublist (a.handed isMin i us) := by
  induction us generalizing i with
  | nil => exact List.Sublist.refl _
  | cons u us ih =>
    rw [handed, stored]
    cases a.hydrate isMin i u with
    | error e => exact List.Sublist.refl _
    | ok _ =>
      by_cases hu : u.updateState = none
      · simpa [hu] using (ih (i + 1)).cons u
      · cases hw : a.write i with
        | done => simpa [hu] using ih (i + 1)
        | failed => simp [hu]
        | interrupted => simp [hu]

theorem handed_of_completes {i : ℕ} {us : List (Update α)} (h : a.completes isMin i us = true) :
    a.handed isMin i us = us := by
  induction us generalizing i with
  | nil => rfl
  | cons u us ih =>
    rw [completes] at h
    rw [handed]
    cases hu : a.hydrate isMin i u with
    | error e => rw [hu] at h; cases h
    | ok _ =>
      rw [hu] at h
      obtain ⟨hgo, h⟩ := Bool.and_eq_true_iff.mp h
      simp [of_decide_eq_true hgo, ih h]

theorem stored_of_completes {i : ℕ} {us : List (Update α)} (h : a.completes isMin i us = true) :
    (a.stored isMin i us).filterMap Update.updateState = us.filterMap Update.updateState := by
  induction us generalizing i with
  | nil => rfl
  | cons u us ih =>
    rw [completes] at h
    rw [stored]
    cases hu : a.hydrate isMin i u with
    | error e => rw [hu] at h; cases h
    | ok _ =>
      rw [hu] at h
      obtain ⟨hgo, h⟩ := Bool.and_eq_true_iff.mp h
      rcases of_decide_eq_true hgo with hs | hw
      · simp [hs, ih h]
      · cases hs : u.updateState with
        | none => simp [hs, ih h]
        | some s => simp [hs, hw, ih h]

variable {a}

theorem handedOf_prefix (us : List (Update α)) : a.handedOf us <+: us := by
  unfold handedOf
  cases a.isMin with
  | none => exact List.nil_prefix
  | some isMin => exact a.handed_prefix isMin 0 us

theorem storedOf_sublist_handedOf (us : List (Update α)) :
    (a.storedOf us).Sublist (a.handedOf us) := by
  unfold storedOf handedOf
  cases a.isMin with
  | none => exact List.Sublist.refl _
  | some isMin => exact a.stored_sublist_handed isMin 0 us

theorem handedOf_of_completesAll {us : List (Update α)} (h : a.completesAll us = true) :
    a.handedOf us = us := by
  unfold completesAll at h
  unfold handedOf
  cases hmin : a.isMin with
  | none => rw [hmin] at h; cases h
  | some isMin =>
    rw [hmin] at h
    exact a.handed_of_completes isMin h

theorem storedOf_of_completesAll {us : List (Update α)} (h : a.completesAll us = true) :
    (a.storedOf us).filterMap Update.updateState = us.filterMap Update.updateState := by
  unfold completesAll at h
  unfold storedOf
  cases hmin : a.isMin with
  | none => rw [hmin] at h; cases h
  | some isMin =>
    rw [hmin] at h
    exact a.stored_of_completes isMin h

/-! ### What is stored -/

/-- A stored `pts` or `qts` is that of an update that was handed over. -/
theorem exists_handedOf_of_mem_writesOf {us : List (Update α)} {date seq : ℤ} {s : UpdateState}
    (hs : s ∈ a.writesOf us date seq) (hpts : s.pts ≠ none ∨ s.qts ≠ none) :
    ∃ u ∈ a.handedOf us, u.updateState = some s := by
  rcases List.mem_append.mp hs with hs | hs
  · obtain ⟨u, hu, hus⟩ := List.mem_filterMap.mp hs
    exact ⟨u, (storedOf_sublist_handedOf us).mem hu, hus⟩
  · -- the last write has neither
    split at hs
    · obtain rfl := List.mem_singleton.mp hs
      simp at hpts
    · cases hs

/-- A `date` or `seq` is stored after the whole batch. -/
theorem writesOf_eq_of_date {us : List (Update α)} {date seq : ℤ} {s : UpdateState}
    (hs : s ∈ a.writesOf us date seq) (hdate : s.date ≠ none ∨ s.seq ≠ none) :
    a.completesAll us = true ∧
      a.writesOf us date seq = us.filterMap Update.updateState ++ [s] := by
  unfold writesOf at hs ⊢
  rcases List.mem_append.mp hs with hs | hs
  · -- a cursor has neither
    obtain ⟨u, -, hus⟩ := List.mem_filterMap.mp hs
    obtain ⟨-, rfl⟩ := Update.updateState_eq_some.mp hus
    simp at hdate
  · split at hs
    · next hlast =>
      obtain rfl := List.mem_singleton.mp hs
      have hall : a.completesAll us = true := (Bool.and_eq_true_iff.mp hlast).1
      rw [if_pos hlast, storedOf_of_completesAll hall]
      exact ⟨hall, rfl⟩
    · cases hs

/-! ### Failed hydrations -/

variable (a)

/-- The same run with every hydration answered that failed in one of the ways that
`_handle_updates` names. -/
def answered : Awaits α :=
  { a with hydration := fun i =>
      match a.hydration i with
      | .ok () => .ok ()
      | .error e => if e.isHydrationFailure then .ok () else .error e }

theorem hydrate_answered (i : ℕ) (u : Update α) :
    a.answered.hydrate isMin i u = a.hydrate isMin i u := by
  unfold hydrate answered
  split
  · cases u.channel with
    | none => rfl
    | some _ =>
      simp only
      cases a.hydration i with
      | ok _ => rfl
      | error e => cases he : e.isHydrationFailure <;> simp [he]
  · rfl

end Awaits

namespace Client

theorem handleAll_answered (a : Awaits α) (isMin : Bool) (i : ℕ) (c : Client α)
    (us : List (Update α)) :
    c.handleAll a.answered isMin i us = c.handleAll a isMin i us := by
  induction us generalizing i c with
  | nil => rfl
  | cons u us ih =>
    have hone : c.handleUpdate a.answered isMin i u = c.handleUpdate a isMin i u := by
      unfold handleUpdate
      rw [a.hydrate_answered]
      rfl
    rw [handleAll, handleAll, hone]
    congr 1
    funext c'
    exact ih (i + 1) c'

/-- **Interrupted batches.**  Whatever the awaits of a run over a batch raise, there
is a `k` such that the updates handed to the dispatcher are the first `k` of the
batch in their order; every `pts` and `qts` the run stored is of one of these; and
it stored a `date` or `seq` only after handing over the whole batch and storing all
its cursors.  A hydration that fails in one of the named ways changes nothing. -/
theorem handleUpdates_interrupted (a : Awaits α) (c : Client α) (us : List (Update α))
    (date seq : ℤ) :
    (∃ k ≤ us.length, ∃ writes : List UpdateState,
      (c.handleUpdates a (.updates us date seq)).state.enqueued =
        c.enqueued ++ (us.take k).map .update ∧
      (c.handleUpdates a (.updates us date seq)).state.writes = c.writes ++ writes ∧
      (c.handleUpdates a (.updates us date seq)).state.updateStates =
        writes.foldl UpdateTable.setUpdateState c.updateStates ∧
      (∀ s ∈ writes, s.pts ≠ none ∨ s.qts ≠ none →
        ∃ u ∈ us.take k, u.updateState = some s) ∧
      (∀ s ∈ writes, s.date ≠ none ∨ s.seq ≠ none →
        k = us.length ∧ writes = us.filterMap Update.updateState ++ [s])) ∧
    c.handleUpdates a.answered (.updates us date seq) =
      c.handleUpdates a (.updates us date seq) := by
  constructor
  -- what was handed over is an initial part of the container
  · have hinitial := Awaits.handedOf_prefix (a := a) us
    have htake : us.take (a.handedOf us).length = a.handedOf us :=
      (List.prefix_iff_eq_take.mp hinitial).symm
    refine ⟨(a.handedOf us).length, hinitial.length_le, a.writesOf us date seq, ?_⟩
    rw [handleUpdates_updates, htake]
    refine ⟨rfl, rfl, rfl, ?_, ?_⟩
    · intro s hs hpts
      exact Awaits.exists_handedOf_of_mem_writesOf hs hpts
    -- the date is written last, after every update
    · intro s hs hdate
      obtain ⟨hall, hw⟩ := Awaits.writesOf_eq_of_date hs hdate
      have hlength := congrArg List.length (Awaits.handedOf_of_completesAll hall)
      exact ⟨hlength, hw⟩
  · unfold handleUpdates
    have hmin : a.answered.isMin = a.isMin := rfl
    simp only [hmin, handleAll_answered]
    rfl

end Client

end Pyrogram
