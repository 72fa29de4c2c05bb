import Pyrogram.Session.Accepted

/-!
# Acknowledgements under concurrency

A task that finds enough pending acks takes a snapshot of `pending_acks`, sends
it, and clears the set once `send` has returned.  Sending suspends, so other
tasks add ids meanwhile; clearing drops these as well, although no `MsgsAck` has
contained them.

## Main definitions

* `EventLoop.LosesNoAck` — every id that leaves was in the `MsgsAck` just sent.
* `EventLoop.SnapshotCovers` — nothing was added since the snapshot was taken.

## Main results

* `EventLoop.losesNoAck_iff` — **a run loses no ack exactly where no snapshot was
  overtaken.**
* `EventLoop.ack_lost_while_sending` — a run in which one was.
-/

namespace Pyrogram

open Runs

namespace EventLoop

variable {α : Type} {clock : ℕ → ℤ}

/-- Every id that leaves `pending_acks` in the step was contained in a `MsgsAck`
whose `send` has returned, and it was the one that returned in this step. -/
def LosesNoAck (l : EventLoop α) (_ : Event α) (l' : EventLoop α) : Prop :=
  ∀ msgId ∈ l.session.pendingAcks, msgId ∉ l'.session.pendingAcks →
    ∃ msgIds, l'.delivered = msgIds :: l.delivered ∧ msgId ∈ msgIds

/-- When the `send` of a `MsgsAck` returns, `pending_acks` holds nothing that is not
in its `msg_ids`. -/
def SnapshotCovers (l : EventLoop α) : Event α → EventLoop α → Prop
  | .sendReturned i, _ => ∀ msgIds, l.tasks i = .sendingAck msgIds →
      l.session.pendingAcks ⊆ msgIds
  | _, _ => True

/-- What the return of a `send` does. -/
theorem sendReturned_cases {l l' : EventLoop α} {i : ℕ}
    (h : l.step clock (.sendReturned i) = some l') :
    ∃ msgIds, l.tasks i = .sendingAck msgIds ∧ l'.delivered = msgIds :: l.delivered ∧
      l'.session.pendingAcks = ∅ := by
  simp only [step] at h
  split at h
  · next msgIds hi =>
    obtain rfl := Option.some.inj h
    exact ⟨msgIds, hi, rfl, rfl⟩
  · exact absurd h (by simp)

/-- Acks leave `pending_acks` only where a `send` returns. -/
theorem pendingAcks_subset {l l' : EventLoop α} {e : Event α} (hl : l.Invariant)
    (h : l.step clock e = some l') (he : ∀ i, e ≠ .sendReturned i) :
    l.session.pendingAcks ⊆ l'.session.pendingAcks := by
  rcases step_cases hl h with hq | ⟨m, hacc⟩ | ⟨i, -, rfl, -⟩ | ⟨-, rfl⟩ | ⟨-, rfl⟩
  · exact hq.pendingAcks
  · exact hacc.session.pendingAcks
  · exact absurd rfl (he i)
  · exact (pendingAcks_restart l.session).symm.subset
  · exact Finset.Subset.refl _

/-- **One step.**  A step loses no ack exactly where the snapshot covers. -/
theorem snapshotCovers_iff (l : EventLoop α) (e : Event α) (l' : EventLoop α) (hl : l.Invariant)
    (h : l.step clock e = some l') : l.SnapshotCovers e l' ↔ l.LosesNoAck e l' := by
  by_cases he : ∃ i, e = .sendReturned i
  · obtain ⟨i, rfl⟩ := he
    obtain ⟨sent, hi, hsent, hempty⟩ := sendReturned_cases h
    constructor
    · intro hcov msgId hin _
      exact ⟨sent, hsent, hcov sent hi hin⟩
    · intro hlose msgIds hi' msgId hin
      obtain rfl : sent = msgIds := Task.sendingAck.inj (hi.symm.trans hi')
      obtain ⟨msgIds, hmsgIds, hmem⟩ := hlose msgId hin (by simp [hempty])
      rwa [(List.cons.inj (hsent.symm.trans hmsgIds)).1]
  · push Not at he
    refine iff_of_true ?_ fun msgId hin hout => absurd (pendingAcks_subset hl h he hin) hout
    cases e with
    | sendReturned i => exact absurd rfl (he i)
    | _ => trivial

/-- **No acknowledgement is lost, exactly where no snapshot was overtaken.**  For
every run from the start of a connection, under every interleaving and every
failure of a `send`: each id that leaves `pending_acks` leaves in a step in which
a `MsgsAck` containing it has been sent, if and only if no `send` returned while
`pending_acks` held an id outside its `msg_ids`. -/
theorem losesNoAck_iff {l : EventLoop α} (hl : l.Fresh) (es : List (Event α)) :
    AllSteps (step clock) SnapshotCovers l es ↔ AllSteps (step clock) LosesNoAck l es := by
  refine allSteps_iff (I := Invariant) snapshotCovers_iff ?_ hl.invariant
  intro l e l' hinv h _
  exact invariant_step l e l' hinv h

/-- A task receives ten updates and goes on to send their acks. -/
def tenUpdates : List (Event ℕ) :=
  .received 0 (.container ((List.range 10).map posted)) :: List.replicate 12 (.resumed 0)

/-- Ten updates acknowledged by one task. -/
theorem losesNoAck_of_tenUpdates :
    AllSteps (step ticking) LosesNoAck ({} : EventLoop ℕ) (tenUpdates ++ [.sendReturned 0]) := by
  refine (losesNoAck_iff fresh_empty _).mp ?_
  iterate 13 refine .cons rfl trivial ?_
  refine .cons rfl ?_ trivial
  intro msgIds hi
  obtain rfl := Task.sendingAck.inj hi
  exact Finset.Subset.refl _

/-- While task 0 sends, task 1 receives another update; its own `MsgsAck` fails. -/
def overtaken : List (Event ℕ) :=
  tenUpdates ++ [.received 1 (.message (posted 10)), .resumed 1, .resumed 1, .resumed 1,
    .sendFailed 1]

/-- **An ack is lost.**  The id 41 is in `pending_acks` when the `send` of task 0
returns, leaves with the others, and no `MsgsAck` that was sent has contained it. -/
theorem ack_lost_while_sending :
    ¬ AllSteps (step ticking) LosesNoAck ({} : EventLoop ℕ) (overtaken ++ [.sendReturned 0]) ∧
      (run (step ticking) ({} : EventLoop ℕ) overtaken).map
        (fun l => decide (41 ∈ l.session.pendingAcks)) = some true ∧
      (run (step ticking) ({} : EventLoop ℕ) (overtaken ++ [.sendReturned 0])).map
        (fun l => (decide (41 ∈ l.session.pendingAcks), l.delivered.map fun msgIds =>
          decide (41 ∈ msgIds))) =
        some (false, [false]) := by
  refine ⟨not_allSteps_of_check (fun l l' => decide (41 ∈ l.session.pendingAcks ∧
    41 ∉ l'.session.pendingAcks ∧ ∀ msgIds ∈ l'.delivered, 41 ∉ msgIds)) ?_ (by decide +kernel),
    by decide +kernel, by decide +kernel⟩
  intro l l' hcheck hP
  obtain ⟨hin, hout, hnone⟩ := of_decide_eq_true hcheck
  obtain ⟨msgIds, hsent, hmem⟩ := hP 41 hin hout
  exact hnone msgIds (hsent ▸ List.mem_cons_self) hmem

/-! ### One handler at a time

The condition fails only through interleaving: where no step adds an id while a
`MsgsAck` is being sent, every snapshot stays complete. -/

/-- No id is added while some task is sending acks. -/
def AddsNothingWhileSending (l : EventLoop α) (_ : Event α) (l' : EventLoop α) : Prop :=
  (∃ i msgIds, l.tasks i = .sendingAck msgIds) →
    l'.session.pendingAcks ⊆ l.session.pendingAcks

/-- Every snapshot being sent is complete. -/
structure SnapshotsComplete (l : EventLoop α) : Prop where
  invariant : l.Invariant
  complete : ∀ i msgIds, l.tasks i = .sendingAck msgIds → l.session.pendingAcks ⊆ msgIds

theorem sendingAck_setTask {l : EventLoop α} {i j : ℕ} {t : Task α} {msgIds : Finset ℤ}
    (ht : ∀ msgIds, t ≠ .sendingAck msgIds)
    (h : (l.setTask j t).tasks i = .sendingAck msgIds) : l.tasks i = .sendingAck msgIds := by
  by_cases hij : i = j
  · subst hij
    exact absurd (by simpa [setTask] using h) (ht msgIds)
  · simpa [setTask, hij] using h

theorem sendingAck_startMessages {l : EventLoop α} {i j : ℕ} {packet : Packet α}
    {msgIds : Finset ℤ} (h : (l.startMessages j packet).tasks i = .sendingAck msgIds) :
    l.tasks i = .sendingAck msgIds := by
  cases packet <;> exact sendingAck_setTask (by simp) h

theorem sendingAck_settle {l : EventLoop α} {i j : ℕ} {m : Message α} {ms : List (Message α)}
    {p : Session α × Session.Verdict} {msgIds : Finset ℤ}
    (h : (l.settle j m ms p).tasks i = .sendingAck msgIds) : l.tasks i = .sendingAck msgIds := by
  obtain ⟨s, v⟩ := p
  cases v <;> exact sendingAck_setTask (by simp) h

/-- A task that is sending after the loop of task `j` was sending before, or is `j`
with a fresh snapshot. -/
theorem sendingAck_finishMessages {l : EventLoop α} (hl : l.Invariant) {i j : ℕ}
    {msgIds : Finset ℤ} (h : (l.finishMessages clock j).tasks i = .sendingAck msgIds) :
    l.tasks i = .sendingAck msgIds ∨ (msgIds = l.session.pendingAcks ∧
      (l.finishMessages clock j).session.pendingAcks = l.session.pendingAcks) := by
  unfold finishMessages at h ⊢
  split at h
  · next hmany =>
    rw [if_pos hmany]
    obtain ⟨msgId, s, halloc, -, hs⟩ :=
      Session.allocateMessageIdentity_of_unlocked clock hl.unlocked
    by_cases hij : i = j
    · subst hij
      have hsnapshot : l.session.pendingAcks = msgIds := by
        by_cases hfit : l.session.AcksFit clock
        · simpa [setTask, hfit] using h
        · simp [setTask, hfit] at h
      refine Or.inr ⟨hsnapshot.symm, ?_⟩
      rw [halloc]
      exact hs.pendingAcks
    · exact Or.inl (by simpa [setTask, hij] using h)
  · exact Or.inl (sendingAck_setTask (by simp) h)

/-- A task that is sending after a step was sending before, or has just taken its snapshot. -/
theorem sendingAck_of_step {l l' : EventLoop α} {e : Event α} (hl : l.Invariant)
    (h : l.step clock e = some l') {i : ℕ} {msgIds : Finset ℤ}
    (hi : l'.tasks i = .sendingAck msgIds) : l.tasks i = .sendingAck msgIds ∨
      (msgIds = l.session.pendingAcks ∧ l'.session.pendingAcks = l.session.pendingAcks) := by
  -- a task begins to send the acks only when its messages are handled
  cases e with
  | resumed j =>
    simp only [step, resume] at h
    split at h
    · obtain rfl := Option.some.inj h
      exact Or.inl (sendingAck_startMessages hi)
    · obtain rfl := Option.some.inj h
      exact sendingAck_finishMessages hl hi
    · obtain rfl := Option.some.inj h
      exact Or.inl (sendingAck_settle hi)
    · next m ms hj => exact absurd hj (hl.running j m ms)
    · exact absurd h (by simp)
    · exact absurd h (by simp)
    · exact absurd h (by simp)
  | received j packet =>
    simp only [step] at h
    split at h
    · obtain rfl := Option.some.inj h
      exact Or.inl (sendingAck_setTask (by simp) hi)
    · obtain rfl := Option.some.inj h
      exact Or.inl (sendingAck_setTask (by simp) hi)
    · exact absurd h (by simp)
  | sendReturned j | sendFailed j | sendRaised j =>
    simp only [step] at h
    split at h
    · obtain rfl := Option.some.inj h
      exact Or.inl (sendingAck_setTask (by simp) hi)
    · exact absurd h (by simp)
  -- the other events set a task to something else, or none at all
  | cancelled j =>
    obtain rfl := Option.some.inj h
    exact Or.inl (sendingAck_setTask (by simp) hi)
  | registered =>
    obtain ⟨s, -, rfl⟩ := Option.map_eq_some_iff.mp h
    exact Or.inl hi
  | forgotten msgId | restarted | stopped =>
    obtain rfl := Option.some.inj h
    exact Or.inl hi

/-- **Handlers that do not overlap lose no acks.**  If no id is added while a
`MsgsAck` is being sent, every snapshot covers. -/
theorem snapshotCovers_of_addsNothingWhileSending {l : EventLoop α} (hl : l.SnapshotsComplete)
    {es : List (Event α)} (h : AllSteps (step clock) AddsNothingWhileSending l es) :
    AllSteps (step clock) SnapshotCovers l es := by
  refine allSteps_of_invariant (I := SnapshotsComplete) ?_ ?_ hl h
  · intro l e l' hl _ _
    cases e with
    | sendReturned i => exact hl.complete i
    | _ => trivial
  · intro l e l' hl hstep hadds
    refine ⟨invariant_step l e l' hl.invariant hstep, ?_⟩
    intro i msgIds hi
    rcases sendingAck_of_step hl.invariant hstep hi with hi' | ⟨rfl, hsame⟩
    · exact (hadds ⟨i, msgIds, hi'⟩).trans (hl.complete i msgIds hi')
    · exact hsame.subset

end EventLoop
end Pyrogram
