import Pyrogram.Runs
import Pyrogram.Updates.HandleUpdates
import Pyrogram.Updates.RecoverGaps

/-!
# Resumable cursors

`recover_gaps` resumes from every stored state that has a `pts`; for the common box
its request carries the stored `date` as well.  `_handle_updates` stores the two
apart: the `pts` with the first update that has one, the `date` at the end of the
batch.

## Main definitions

* `Resumable` — every stored state that has a `pts` makes a request that can be
  serialized.
* `LosesDate` — a run is interrupted between the two writes.

## Main results

* `allSteps_resumable_iff` — the sequences of runs after each of which the stored
  states are resumable.
-/

namespace Pyrogram

open Runs

variable {α : Type}

/-! ### Resumable tables -/

/-- The states `recover_gaps` would use make requests that can be serialized. -/
def Resumable (t : UpdateTable) : Prop :=
  ∀ s ∈ t.getUpdateStates none, s.pts ≠ none →
    (Request.ofState s.id s.pts s.date).isSerializable = true

/-- Every state is the common box or a channel. -/
def KnownIds (t : UpdateTable) : Prop := ∀ id, t.find id ≠ none → id = 0 ∨ id < zeroChannelId

theorem Update.stateId_eq_zero_or_lt (u : Update α) :
    u.stateId = 0 ∨ u.stateId < zeroChannelId := by
  unfold stateId
  split
  · next h =>
    right
    unfold getChannelId
    omega
  · left; rfl

/-- Only the common box can fail to be resumable, by lacking a date. -/
theorem resumable_iff {t : UpdateTable} (hids : KnownIds t) :
    Resumable t ↔ (t.stored UpdateState.pts 0 ≠ none → t.stored UpdateState.date 0 ≠ none) := by
  have hzero : ¬ (0 : ℤ) < zeroChannelId := by decide
  constructor
  · intro h hpts
    obtain ⟨p, hp⟩ := Option.ne_none_iff_exists'.mp hpts
    obtain ⟨s, hs, hsp⟩ := Option.bind_eq_some_iff.mp hp
    have hid : s.id = 0 := Table.key_of_find hs
    have hreq := h s (UpdateTable.mem_getUpdateStates.mpr
      ⟨Table.mem_rows_of_find hs, fun _ hl => nomatch hl⟩) (hsp ▸ Option.some_ne_none p)
    rw [hid, Request.ofState, if_neg hzero] at hreq
    have hdate : s.date.isSome := (Bool.and_eq_true_iff.mp hreq).2
    rw [UpdateTable.stored, hs]
    exact Option.isSome_iff_ne_none.mp hdate
  · intro h s hs hpts
    have hrow := Table.mem_rows_iff.mp (UpdateTable.mem_getUpdateStates.mp hs).1
    have hpts' : s.pts.isSome := Option.isSome_iff_ne_none.mpr hpts
    unfold Request.ofState
    split
    · exact hpts'
    · next hge =>
      have hid : s.id = 0 := (hids s.id (hrow ▸ Option.some_ne_none s)).resolve_right hge
      rw [hid] at hrow
      have hdate := h (by rw [UpdateTable.stored, hrow]; exact hpts)
      rw [UpdateTable.stored, hrow] at hdate
      exact Bool.and_eq_true_iff.mpr ⟨hpts', Option.isSome_iff_ne_none.mpr hdate⟩

/-! ### One run -/

/-- A run of `handle_updates`, whichever way it ends. -/
def Client.step (c : Client α) (run : Updates α × Awaits α) : Option (Client α) :=
  some (c.handleUpdates run.2 run.1).state

/-- The run is interrupted after it stored a `pts` of the common box and before it
stored the date of the batch. -/
def LosesDate (run : Updates α × Awaits α) : Prop :=
  match run.1 with
  | .updates us _ _ =>
    (∃ u ∈ run.2.storedOf us, u.stateId = 0 ∧ u.pts ≠ none) ∧ run.2.storesDate us = false
  | _ => False

/-- What a short message stores, where its run gets that far. -/
theorem Client.handleUpdates_shortMessage (a : Awaits α) (c : Client α) (pts ptsCount date : ℤ) :
    (c.handleUpdates a (.shortMessage pts ptsCount date)).state.updateStates = c.updateStates ∨
      (c.handleUpdates a (.shortMessage pts ptsCount date)).state.updateStates =
        c.updateStates.setUpdateState ⟨0, some pts, none, some date, none⟩ := by
  rw [handleUpdates]
  cases a.difference with
  | error e => exact Or.inl rfl
  | ok diff =>
    cases diff with
    | empty | tooLong => exact Or.inl rfl
    | full | slice =>
      simp only [foldl_enqueue]
      cases a.lastWrite with
      | failed => exact Or.inl rfl
      | done | interrupted => exact Or.inr rfl

namespace Awaits

variable {a : Awaits α} {us : List (Update α)} {date seq : ℤ}

theorem exists_writesOf_pts {id : ℤ} :
    (∃ s ∈ a.writesOf us date seq, s.id = id ∧ s.pts ≠ none) ↔
      ∃ u ∈ a.storedOf us, u.stateId = id ∧ u.pts ≠ none := by
  constructor
  · rintro ⟨s, hs, hid, hpts⟩
    rcases List.mem_append.mp hs with hs | hs
    · obtain ⟨u, hu, hus⟩ := List.mem_filterMap.mp hs
      obtain ⟨-, rfl⟩ := Update.updateState_eq_some.mp hus
      exact ⟨u, hu, hid, hpts⟩
    · split at hs
      · obtain rfl := List.mem_singleton.mp hs
        exact absurd rfl hpts
      · cases hs
  · rintro ⟨u, hu, hid, hpts⟩
    have hus := Update.updateState_eq_some.mpr ⟨Or.inl hpts, rfl⟩
    exact ⟨_, List.mem_append_left _ (List.mem_filterMap.mpr ⟨u, hu, hus⟩), hid, hpts⟩

theorem exists_writesOf_date :
    (∃ s ∈ a.writesOf us date seq, s.id = 0 ∧ s.date ≠ none) ↔ a.storesDate us = true := by
  constructor
  · rintro ⟨s, hs, -, hdate⟩
    rcases List.mem_append.mp hs with hs | hs
    · obtain ⟨u, -, hus⟩ := List.mem_filterMap.mp hs
      obtain ⟨-, rfl⟩ := Update.updateState_eq_some.mp hus
      exact absurd rfl hdate
    · split at hs
      · assumption
      · cases hs
  · intro h
    have hs : (⟨0, none, none, some date, some seq⟩ : UpdateState) ∈ a.writesOf us date seq := by
      rw [writesOf, if_pos h]
      exact List.mem_append_right _ (List.mem_singleton_self _)
    exact ⟨_, hs, rfl, Option.some_ne_none date⟩

theorem id_of_mem_writesOf {s : UpdateState} (hs : s ∈ a.writesOf us date seq) :
    s.id = 0 ∨ s.id < zeroChannelId := by
  rcases List.mem_append.mp hs with hs | hs
  · obtain ⟨u, -, hus⟩ := List.mem_filterMap.mp hs
    obtain ⟨-, rfl⟩ := Update.updateState_eq_some.mp hus
    exact u.stateId_eq_zero_or_lt
  · split at hs
    · obtain rfl := List.mem_singleton.mp hs
      exact Or.inl rfl
    · cases hs

end Awaits

theorem KnownIds.foldl {t : UpdateTable} {writes : List UpdateState} (h : KnownIds t)
    (hw : ∀ s ∈ writes, s.id = 0 ∨ s.id < zeroChannelId) :
    KnownIds (writes.foldl UpdateTable.setUpdateState t) := by
  intro id hid
  rcases UpdateTable.find_foldl_ne_none hid with hid | ⟨s, hs, rfl⟩
  · exact h id hid
  · exact hw s hs

namespace Client

variable {c c' : Client α} {run : Updates α × Awaits α}

theorem knownIds_step (hstep : c.step run = some c') (h : KnownIds c.updateStates) :
    KnownIds c'.updateStates := by
  obtain ⟨updates, a⟩ := run
  obtain rfl := Option.some.inj hstep
  cases updates with
  | updates us date seq =>
    rw [handleUpdates_updates]
    exact h.foldl fun s hs => Awaits.id_of_mem_writesOf hs
  | shortMessage pts ptsCount date =>
    rcases handleUpdates_shortMessage a c pts ptsCount date with heq | heq
    · rw [heq]; exact h
    · rw [heq]
      exact h.foldl (List.forall_mem_singleton.mpr (Or.inl rfl))
  | short | tooLong => exact h

/-- **What one run does to a resumable table**: it stays resumable unless it had no
date for the common box and the run loses the one it brought. -/
theorem resumable_step_iff (hstep : c.step run = some c') (hids : KnownIds c.updateStates)
    (h : Resumable c.updateStates) :
    Resumable c'.updateStates ↔
      c.updateStates.stored UpdateState.date 0 ≠ none ∨ ¬ LosesDate run := by
  have hids' := knownIds_step hstep hids
  rw [resumable_iff hids] at h
  obtain ⟨updates, a⟩ := run
  obtain rfl := Option.some.inj hstep
  cases updates with
  -- what the run leaves stored: a date, if the run stores one, and the states it hands over
  | updates us date seq =>
    rw [resumable_iff hids', handleUpdates_updates, extend,
      UpdateTable.stored_foldl_ne_none UpdateState.pts_coalesce, Awaits.exists_writesOf_pts,
      UpdateTable.stored_foldl_ne_none UpdateState.date_coalesce, Awaits.exists_writesOf_date]
    simp only [LosesDate]
    cases a.storesDate us with
    | true => simp
    | false =>
      simp only [Bool.false_eq_true, or_false, and_true]
      -- without the date, a position that was handed over leaves the row without one
      constructor
      · intro hafter
        by_cases hu : ∃ u ∈ a.storedOf us, u.stateId = 0 ∧ u.pts ≠ none
        · exact Or.inl (hafter (Or.inr hu))
        · exact Or.inr hu
      · rintro hlose (hpts | hu)
        · exact h hpts
        · exact hlose.resolve_right (not_not_intro hu)
  | shortMessage pts ptsCount date =>
    refine iff_of_true ?_ (Or.inr id)
    rw [resumable_iff hids']
    rcases handleUpdates_shortMessage a c pts ptsCount date with heq | heq
    · rw [heq]; exact h
    · rw [heq, UpdateTable.stored_date_setUpdateState]
      intro _
      simp
  | short | tooLong => exact iff_of_true ((resumable_iff hids).mpr h) (Or.inr id)

end Client

/-! ### Sequences of runs -/

/-- **Persisted cursors.**  From empty storage, the stored states are resumable after
each of a sequence of runs exactly when no run loses the date of its batch while the
common box has none. -/
theorem allSteps_resumable_iff (runs : List (Updates α × Awaits α)) :
    AllSteps Client.step (fun _ _ c' => Resumable c'.updateStates) ({} : Client α) runs ↔
      AllSteps Client.step
        (fun c run _ => c.updateStates.stored UpdateState.date 0 ≠ none ∨ ¬ LosesDate run)
        ({} : Client α) runs := by
  have hempty : KnownIds ({} : Client α).updateStates := fun _ h => absurd rfl h
  have hstart : Resumable ({} : Client α).updateStates :=
    (resumable_iff hempty).mpr fun h => absurd rfl h
  have hiff : ∀ (c : Client α) run c', KnownIds c.updateStates ∧ Resumable c.updateStates →
      c.step run = some c' →
        (Resumable c'.updateStates ↔
          c.updateStates.stored UpdateState.date 0 ≠ none ∨ ¬ LosesDate run) := by
    intro c run c' hI hstep
    exact Client.resumable_step_iff hstep hI.1 hI.2
  have hkeep : ∀ (c : Client α) run c', KnownIds c.updateStates ∧ Resumable c.updateStates →
      c.step run = some c' → Resumable c'.updateStates →
        KnownIds c'.updateStates ∧ Resumable c'.updateStates := by
    intro c run c' hI hstep hP
    exact ⟨Client.knownIds_step hstep hI.1, hP⟩
  exact allSteps_iff hiff hkeep ⟨hempty, hstart⟩

/-- A first batch is interrupted after the `pts` of its first update was stored: the
common box has a `pts` and no date. -/
theorem not_resumable_after_interruption :
    ¬ AllSteps Client.step (fun _ _ c' => Resumable c'.updateStates) ({} : Client Unit)
      [(.updates [{ pts := some 10, content := () }, { pts := some 11, content := () }] 100 1,
        { write := fun i => if i = 0 then .done else .failed })] := by
  intro h
  refine absurd ((h _ rfl).1 ⟨0, some 10, none, none, none⟩ ?_ (by decide)) (by decide)
  exact UpdateTable.mem_getUpdateStates.mpr ⟨by decide, fun _ hl => nomatch hl⟩

end Pyrogram
