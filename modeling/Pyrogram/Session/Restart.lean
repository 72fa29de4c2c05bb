import Pyrogram.Session.Accepted
import Mathlib.Data.List.Dedup

/-!
# What a restart remembers

`_stop_resources` clears `stored_msg_ids`; what the session still knows in the
next connection is what `restart` copied into `recent_msg_ids` before.  It copies
the first thirty ids of the sorted list, which are the lowest, while a server
that reconnects repeats its newest messages.

## Main definitions

* `AmongHighest` — membership among the `n` highest ids of a list.
* `EventLoop.AcceptsOnce` — a step does not accept what it must not accept again.
* `EventLoop.KeepsHighest` — a restart finds the highest ids where it copies from.

## Main results

* `EventLoop.accepted_once_across_restarts` — **where every restart keeps the
  highest ids, nothing is accepted again.**
* `EventLoop.accepted_again_after_restart` — a run in which the newest message is.
* `EventLoop.accepted_again_of_not_keepsHighest` — every restart that loses one of
  them can be continued to such a run.
-/

namespace Pyrogram

open Runs

/-- `msgId` is one of the `n` highest ids of the list, repetitions not counted. -/
def AmongHighest (n : ℕ) (ids : List ℤ) (msgId : ℤ) : Prop :=
  msgId ∈ ids ∧ (ids.dedup.filter (msgId < ·)).length < n

instance (n : ℕ) (ids : List ℤ) (msgId : ℤ) : Decidable (AmongHighest n ids msgId) :=
  inferInstanceAs (Decidable (_ ∧ _))

namespace EventLoop

variable {α : Type} {clock : ℕ → ℤ}

/-- The step accepts no message again that was accepted in the same connection, or
that was among the thirty highest accepted ids at the last restart. -/
def AcceptsOnce (l : EventLoop α) (_ : Event α) (l' : EventLoop α) : Prop :=
  ∀ msgId, l'.accepted = msgId :: l.accepted →
    msgId ∉ l.inConnection ∧ ¬ AmongHighest 30 l.atRestart msgId

/-- A restart finds each of the thirty highest accepted ids among the thirty lowest of
`stored_msg_ids`, or, if there are none, in `recent_msg_ids`. -/
def KeepsHighest (l : EventLoop α) : Event α → EventLoop α → Prop
  | .restarted, _ => ∀ msgId, AmongHighest 30 l.accepted msgId →
      if l.session.storedMsgIds = [] then msgId ∈ l.session.recentMsgIds
      else msgId ∈ l.session.storedMsgIds.take Session.recentMsgIdsSize
  | _, _ => True

/-- The invariant of a session that keeps the highest ids. -/
structure Remembers (l : EventLoop α) : Prop where
  invariant : l.Invariant
  recentMsgIds : ∀ msgId, AmongHighest 30 l.atRestart msgId → msgId ∈ l.session.recentMsgIds

theorem remembers_empty : ({} : EventLoop α).Remembers :=
  ⟨fresh_empty.invariant, fun _ h => absurd h.1 (by simp)⟩

theorem recentMsgIds_restart (s : Session α) (msgId : ℤ) :
    msgId ∈ s.restart.recentMsgIds ↔ if s.storedMsgIds = [] then msgId ∈ s.recentMsgIds
      else msgId ∈ s.storedMsgIds.take Session.recentMsgIdsSize := by
  unfold Session.restart
  by_cases h : s.storedMsgIds = [] <;> simp [h]

/-- A step that keeps the highest ids keeps the invariant. -/
theorem remembers_step (l : EventLoop α) (e : Event α) (l' : EventLoop α) (hl : l.Remembers)
    (hkeep : l.KeepsHighest e l') (h : l.step clock e = some l') : l'.Remembers := by
  refine ⟨invariant_step l e l' hl.invariant h, ?_⟩
  intro msgId hhigh
  rcases step_cases hl.invariant h with
    hq | ⟨m, hacc⟩ | ⟨i, msgIds, -, -, rfl⟩ | ⟨rfl, rfl⟩ | ⟨-, rfl⟩
  · rw [hq.recentMsgIds]
    exact hl.recentMsgIds msgId (hq.atRestart ▸ hhigh)
  · rw [hacc.session.recentMsgIds]
    exact hl.recentMsgIds msgId (hacc.atRestart ▸ hhigh)
  · exact hl.recentMsgIds msgId hhigh
  · exact (recentMsgIds_restart l.session msgId).mpr (hkeep msgId hhigh)
  · exact hl.recentMsgIds msgId hhigh

/-- A session that remembers the highest ids does not accept them again. -/
theorem acceptsOnce_of_remembers {l l' : EventLoop α} {e : Event α} (hl : l.Remembers)
    (h : l.step clock e = some l') : l.AcceptsOnce e l' := by
  intro msgId hnew
  rcases step_cases hl.invariant h with
    hq | ⟨m, hacc⟩ | ⟨i, msgIds, -, -, rfl⟩ | ⟨-, rfl⟩ | ⟨-, rfl⟩
  · rw [hq.accepted] at hnew
    exact absurd hnew.symm (List.cons_ne_self _ _)
  · rw [hacc.accepted] at hnew
    obtain ⟨rfl, -⟩ := List.cons.inj hnew
    exact ⟨hacc.not_mem hl.invariant, fun hhigh =>
      hacc.session.unknown (Or.inl (hl.recentMsgIds m.msgId hhigh))⟩
  · exact absurd hnew.symm (List.cons_ne_self _ _)
  · exact absurd hnew.symm (List.cons_ne_self _ _)
  · exact absurd hnew.symm (List.cons_ne_self _ _)

/-- **At most once over the life of a session.**  In every run of a session all of
whose restarts keep the highest ids, no step accepts a message again. -/
theorem accepted_once_across_restarts (es : List (Event α))
    (h : AllSteps (step clock) KeepsHighest ({} : EventLoop α) es) :
    AllSteps (step clock) AcceptsOnce ({} : EventLoop α) es := by
  refine allSteps_of_invariant (I := Remembers) ?_ ?_ remembers_empty h
  · intro l e l' hl hstep _
    exact acceptsOnce_of_remembers hl hstep
  · intro l e l' hl hstep hkeep
    exact remembers_step l e l' hl hkeep hstep

/-- Two updates, a restart, and the newer of them once more. -/
theorem accepted_once_of_two_updates :
    AllSteps (step ticking) AcceptsOnce ({} : EventLoop ℕ)
      [.received 0 (.container [posted 0, posted 1]), .resumed 0, .resumed 0, .resumed 0,
        .resumed 0, .restarted, .stopped, .received 0 (.message (posted 1)), .resumed 0,
        .resumed 0] := by
  apply accepted_once_across_restarts
  refine .cons rfl trivial (.cons rfl trivial (.cons rfl trivial (.cons rfl trivial
    (.cons rfl trivial (.cons rfl ?_ (.cons rfl trivial (.cons rfl trivial (.cons rfl trivial
    (.cons rfl trivial trivial)))))))))
  -- the restart: both ids are still in the history
  rintro msgId ⟨hmem, -⟩
  change msgId ∈ [5, 1] at hmem
  obtain rfl | rfl : msgId = 5 ∨ msgId = 1 := by simpa using hmem
  · decide
  · decide

/-- Thirty-one updates, a restart, and the newest of them once more, up to its body. -/
def newestRepeated : List (Event ℕ) :=
  .received 0 (.container ((List.range 31).map posted)) :: List.replicate 33 (.resumed 0) ++
    [.sendReturned 0, .restarted, .stopped, .received 1 (.message (posted 30)), .resumed 1]

/-- **The newest message is accepted again.**  The last update was the highest
accepted id at the restart, and in the next connection it is handed to
`handle_updates` a second time. -/
theorem accepted_again_after_restart :
    ¬ AllSteps (step ticking) AcceptsOnce ({} : EventLoop ℕ) (newestRepeated ++ [.resumed 1]) ∧
      (run (step ticking) ({} : EventLoop ℕ) (newestRepeated ++ [.resumed 1])).map
        (fun l => l.session.handledUpdates.count 30) = some 2 := by
  refine ⟨not_allSteps_of_check (fun l l' => decide (l'.accepted = 121 :: l.accepted ∧
    AmongHighest 30 l.atRestart 121)) ?_ (by decide +kernel), by decide +kernel⟩
  intro l l' hcheck hP
  obtain ⟨hnew, hhigh⟩ := of_decide_eq_true hcheck
  exact (hP 121 hnew).2 hhigh

/-- The first message of a connection is accepted, if it is not a recent one. -/
theorem handleMessage_of_storedMsgIds_nil {s : Session α} {m : Message α}
    (hstored : s.storedMsgIds = []) (hrecent : m.msgId ∉ s.recentMsgIds) :
    ∃ s', s.handleMessage clock m = (s', .accepted) := by
  have hknown : ¬ s.Knows m.msgId := by simp [Session.Knows, hstored, hrecent]
  have hprep := Session.storedMsgIds_prepared clock s m
  rw [hstored, History.trim_nil] at hprep
  rw [Session.handleMessage, if_neg hknown, Session.handleUnknown_eq, hprep]
  exact ⟨_, rfl⟩

/-- **The condition is exact.**  A restart that loses one of the highest ids can be
continued to a step that accepts it again. -/
theorem accepted_again_of_not_keepsHighest {l l' : EventLoop α}
    (h : ¬ l.KeepsHighest .restarted l') :
    ∃ es, ¬ AllSteps (step clock) AcceptsOnce l (.restarted :: es) := by
  simp only [KeepsHighest, ← recentMsgIds_restart] at h
  push Not at h
  obtain ⟨msgId, hhigh, hlost⟩ := h
  let m : Message α := ⟨msgId, 2, .newSessionCreated⟩
  let es : List (Event α) := [.stopped, .cancelled 0, .received 0 (.message m), .resumed 0]
  refine ⟨es ++ [.resumed 0], ?_⟩
  intro hall
  obtain ⟨t, hrun, hsession, htask, haccepted, hrestart⟩ :
      ∃ t, run (step clock) l (.restarted :: es) = some t ∧
        t.session = l.session.restart.stopResources ∧ t.tasks 0 = .iterating [m] ∧
        t.accepted = l.accepted ∧ t.atRestart = l.accepted :=
    ⟨_, rfl, rfl, rfl, rfl, rfl⟩
  obtain ⟨s, hs⟩ : ∃ s, t.session.handleMessage clock m = (s, .accepted) :=
    handleMessage_of_storedMsgIds_nil (by rw [hsession]; rfl) (by rw [hsession]; exact hlost)
  have hstep : t.step clock (.resumed 0) = some (t.settle 0 m [] (s, .accepted)) := by
    simp only [step, resume, htask, hs]
  have hall' : AllSteps (step clock) AcceptsOnce t [.resumed 0] := by
    refine AllSteps.of_append ?_ hrun
    exact hall
  exact ((hall' _ hstep).1 msgId rfl).2 (hrestart ▸ hhigh)

end EventLoop
end Pyrogram
