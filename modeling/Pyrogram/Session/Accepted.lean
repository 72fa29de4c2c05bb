import Pyrogram.Session.HandlePacket
import Mathlib.Tactic.Linarith

/-!
# Every message is accepted once

`stored_msg_ids` is a bounded history (`Pyrogram.History`): whatever was accepted
since it was last cleared is either still in it or below all of it, and nothing
is accepted below its minimum.  So an id is accepted at most once in a
connection, although the history forgets.

The argument needs one iteration of the loop to be uninterrupted, although it
awaits `allocate_message_identity`.  It is: the lock is free whenever a task runs
(`Invariant.unlocked`), so the await never suspends.

## Main definitions

* `Session.Discards`, `Session.Accepts` — what an iteration does to the session.
* `EventLoop.Invariant` — the invariant of the event loop.

## Main results

* `Session.handleMessage_cases` — the three ways an iteration ends.
* `EventLoop.invariant_step` — every step keeps the invariant.
* `EventLoop.accepted_once_in_connection` — **one connection.**
* `EventLoop.forgotten_repetition_counts` — what the history forgets is no longer
  told apart from an invalid message.
-/

namespace Pyrogram

open History Runs

namespace Session

variable {α : Type} {clock : ℕ → ℤ}

/-! ### Frame lemmas -/

section Frame

variable (s : Session α) (m : Message α)

@[simp] theorem storedMsgIds_ack : (s.ack m).storedMsgIds = s.storedMsgIds := by
  unfold ack; split <;> rfl

@[simp] theorem recentMsgIds_ack : (s.ack m).recentMsgIds = s.recentMsgIds := by
  unfold ack; split <;> rfl

@[simp] theorem msgIdLocked_ack : (s.ack m).msgIdLocked = s.msgIdLocked := by
  unfold ack; split <;> rfl

@[simp] theorem ignoreCount_ack : (s.ack m).ignoreCount = s.ignoreCount := by
  unfold ack; split <;> rfl

@[simp] theorem results_ack : (s.ack m).results = s.results := by
  unfold ack; split <;> rfl

@[simp] theorem serverTimeOffset_ack : (s.ack m).serverTimeOffset = s.serverTimeOffset := by
  unfold ack; split <;> rfl

@[simp] theorem handledUpdates_ack : (s.ack m).handledUpdates = s.handledUpdates := by
  unfold ack; split <;> rfl

theorem pendingAcks_subset_ack : s.pendingAcks ⊆ (s.ack m).pendingAcks := by
  unfold ack; split
  · exact Finset.subset_insert _ _
  · exact Finset.Subset.refl _

@[simp] theorem storedMsgIds_dispatch (b : Body α) :
    (s.dispatch b).storedMsgIds = s.storedMsgIds := by
  cases b <;> rfl

@[simp] theorem recentMsgIds_dispatch (b : Body α) :
    (s.dispatch b).recentMsgIds = s.recentMsgIds := by
  cases b <;> rfl

@[simp] theorem msgIdLocked_dispatch (b : Body α) :
    (s.dispatch b).msgIdLocked = s.msgIdLocked := by
  cases b <;> rfl

theorem pendingAcks_subset_dispatch (b : Body α) :
    s.pendingAcks ⊆ (s.dispatch b).pendingAcks := by
  cases b
  case msgDetailedInfo => exact Finset.subset_insert _ _
  case msgNewDetailedInfo => exact Finset.subset_insert _ _
  all_goals exact Finset.Subset.refl _

end Frame

/-! ### One iteration -/

/-- The iteration may have moved the history, the clock and the count of
mismatches, but nothing else. -/
structure Untouched (s s' : Session α) : Prop where
  recentMsgIds : s'.recentMsgIds = s.recentMsgIds
  msgIdLocked : s'.msgIdLocked = s.msgIdLocked
  pendingAcks : s'.pendingAcks = s.pendingAcks
  results : s'.results = s.results
  handledUpdates : s'.handledUpdates = s.handledUpdates

theorem Untouched.trans {s t u : Session α} (h : s.Untouched t) (h' : t.Untouched u) :
    s.Untouched u :=
  ⟨h'.1.trans h.1, h'.2.trans h.2, h'.3.trans h.3, h'.4.trans h.4, h'.5.trans h.5⟩

/-- What an iteration that ends in a `SecurityCheckMismatch` does: the history is
trimmed, and nothing is done with the body. -/
structure Discards (s : Session α) (m : Message α) (s' : Session α) : Prop where
  unknown : ¬ s.Knows m.msgId
  storedMsgIds : s'.storedMsgIds = trim storedMsgIdsMaxSize s.storedMsgIds
  untouched : s.Untouched s'

/-- What an iteration that accepts a message does to the history; acks are only added. -/
structure Accepts (s : Session α) (m : Message α) (s' : Session α) : Prop where
  unknown : ¬ s.Knows m.msgId
  lowest : ∀ c ∈ (trim storedMsgIdsMaxSize s.storedMsgIds).head?, c ≤ m.msgId
  storedMsgIds : s'.storedMsgIds = insort m.msgId (trim storedMsgIdsMaxSize s.storedMsgIds)
  recentMsgIds : s'.recentMsgIds = s.recentMsgIds
  msgIdLocked : s'.msgIdLocked = s.msgIdLocked
  pendingAcks : s.pendingAcks ⊆ s'.pendingAcks

/-- The session once an unknown message has passed the clock and the trimming. -/
def prepared (clock : ℕ → ℤ) (s : Session α) (m : Message α) : Session α :=
  let s := if m.seqNo = 0 then s.setServerTime clock m.msgId else s
  { s with storedMsgIds := trim storedMsgIdsMaxSize s.storedMsgIds }

theorem handleUnknown_eq (s : Session α) (m : Message α) :
    s.handleUnknown clock m =
      match (prepared clock s m).storedMsgIds.head? with
      | none => ((prepared clock s m).accept m, .accepted)
      | some lowest =>
          if m.msgId < lowest then (prepared clock s m).discard
          else (prepared clock s m).checkTime clock m := rfl

@[simp] theorem storedMsgIds_prepared (clock : ℕ → ℤ) (s : Session α) (m : Message α) :
    (prepared clock s m).storedMsgIds = trim storedMsgIdsMaxSize s.storedMsgIds := by
  unfold prepared; split <;> rfl

theorem untouched_prepared (clock : ℕ → ℤ) (s : Session α) (m : Message α) :
    s.Untouched (prepared clock s m) := by
  unfold prepared; split <;> exact ⟨rfl, rfl, rfl, rfl, rfl⟩

/-- A free lock is free again after the allocation, and only the factory and the
clock have moved. -/
theorem allocateMessageIdentity_of_unlocked (clock : ℕ → ℤ) {s : Session α}
    (hs : s.msgIdLocked = false) :
    ∃ msgId s', s.allocateMessageIdentity clock = some (msgId, s') ∧
      s'.storedMsgIds = s.storedMsgIds ∧ s.Untouched s' := by
  unfold allocateMessageIdentity
  rw [hs]
  exact ⟨_, _, rfl, rfl, rfl, hs.symm, rfl, rfl, rfl⟩

/-- Discarding does nothing but count. -/
theorem discard_cases (s : Session α) :
    ∃ s', (s.discard = (s', .discarded) ∨ s.discard = (s', .restarting)) ∧
      s'.storedMsgIds = s.storedMsgIds ∧ s.Untouched s' := by
  dsimp only [discard]
  split
  · exact ⟨_, Or.inr rfl, rfl, rfl, rfl, rfl, rfl, rfl⟩
  · exact ⟨_, Or.inl rfl, rfl, rfl, rfl, rfl, rfl, rfl⟩

/-- Discarding from a prepared session `t` is a discarding iteration. -/
theorem discards_of_discard {s t : Session α} {m : Message α} (hm : ¬ s.Knows m.msgId)
    (hstored : t.storedMsgIds = trim storedMsgIdsMaxSize s.storedMsgIds) (ht : s.Untouched t) :
    ∃ s', Discards s m s' ∧ (t.discard = (s', .discarded) ∨ t.discard = (s', .restarting)) := by
  obtain ⟨s', hv, hstored', hs'⟩ := discard_cases t
  exact ⟨s', ⟨hm, hstored'.trans hstored, ht.trans hs'⟩, hv⟩

@[simp] theorem ignoreCount_discard (s : Session α) :
    s.discard.1.ignoreCount = s.ignoreCount + 1 := by
  dsimp only [discard]; split <;> rfl

@[simp] theorem ignoreCount_prepared (clock : ℕ → ℤ) (s : Session α) (m : Message α) :
    (prepared clock s m).ignoreCount = s.ignoreCount := by
  unfold prepared; split <;> rfl

/-- **A forgotten id**, that is below all that is remembered, is discarded after the clock. -/
theorem handleMessage_of_covers (clock : ℕ → ℤ) {s : Session α} {m : Message α}
    (hm : ¬ s.Knows m.msgId)
    (hcov : Covers (trim storedMsgIdsMaxSize s.storedMsgIds) m.msgId) :
    s.handleMessage clock m = (prepared clock s m).discard := by
  obtain ⟨hne, hbelow⟩ := hcov.resolve_left fun hin => hm (Or.inr (mem_of_mem_trim hin))
  obtain ⟨lowest, hlow⟩ := Option.ne_none_iff_exists'.mp (mt List.head?_eq_none_iff.mp hne)
  have hlt : m.msgId < lowest := hbelow lowest (List.mem_of_mem_head? hlow)
  rw [handleMessage, if_neg hm, handleUnknown_eq, storedMsgIds_prepared, hlow]
  exact if_pos hlt

/-- Accepting in a prepared session `t` is an accepting iteration. -/
theorem accepts_of_accept {s t : Session α} {m : Message α} (hm : ¬ s.Knows m.msgId)
    (hlow : ∀ c ∈ (trim storedMsgIdsMaxSize s.storedMsgIds).head?, c ≤ m.msgId)
    (hstored : t.storedMsgIds = trim storedMsgIdsMaxSize s.storedMsgIds) (ht : s.Untouched t) :
    Accepts s m (t.accept m) where
  unknown := hm
  lowest := hlow
  storedMsgIds := by simp [accept, hstored]
  recentMsgIds := by simp [accept, ht.recentMsgIds]
  msgIdLocked := by simp [accept, ht.msgIdLocked]
  pendingAcks := by
    rw [← ht.pendingAcks]
    exact (pendingAcks_subset_ack { t with
      storedMsgIds := insort m.msgId t.storedMsgIds, ignoreCount := 0 } m).trans
      (pendingAcks_subset_dispatch _ m.body)

/-- **The three ways an iteration ends.**  With the lock free it never suspends. -/
theorem handleMessage_cases (clock : ℕ → ℤ) {s : Session α} (hs : s.msgIdLocked = false)
    (m : Message α) :
    (s.Knows m.msgId ∧ s.handleMessage clock m = (s.ack m, .duplicate)) ∨
      (∃ s', Discards s m s' ∧ (s.handleMessage clock m = (s', .discarded) ∨
        s.handleMessage clock m = (s', .restarting))) ∨
      ∃ s', Accepts s m s' ∧ s.handleMessage clock m = (s', .accepted) := by
  unfold handleMessage
  by_cases hm : s.Knows m.msgId
  · exact Or.inl ⟨hm, if_pos hm⟩
  right
  rw [if_neg hm, handleUnknown_eq]
  have hstored := storedMsgIds_prepared clock s m
  have hprep := untouched_prepared clock s m
  cases hlow : (prepared clock s m).storedMsgIds.head? with
  | none =>
    -- the first message of a connection: nothing to compare it with
    rw [hstored] at hlow
    exact Or.inr ⟨_, accepts_of_accept hm (by simp [hlow]) hstored hprep, rfl⟩
  | some lowest =>
    by_cases hlt : m.msgId < lowest
    · simp only [hlt, if_true]
      exact Or.inl (discards_of_discard hm hstored hprep)
    · simp only [hlt, if_false]
      obtain ⟨msgId, t, halloc, ht, htouch⟩ :=
        allocateMessageIdentity_of_unlocked clock (hprep.msgIdLocked.trans hs)
      simp only [checkTime, halloc]
      rw [hstored] at hlow ht
      split
      · exact Or.inl (discards_of_discard hm ht (hprep.trans htouch))
      · split
        · exact Or.inl (discards_of_discard hm ht (hprep.trans htouch))
        · refine Or.inr ⟨_, accepts_of_accept hm ?_ ht (hprep.trans htouch), rfl⟩
          simpa [hlow] using not_lt.mp hlt

end Session

namespace EventLoop

variable {α : Type} {clock : ℕ → ℤ}

/-- **The invariant of the event loop.**  The lock is free between the steps and no
task waits for it; the history is sorted and bounded; and it covers everything
accepted since it was last cleared, so nothing was accepted twice. -/
structure Invariant (l : EventLoop α) : Prop where
  unlocked : l.session.msgIdLocked = false
  running : ∀ i m ms, l.tasks i ≠ .acquiring m ms
  sorted : l.session.storedMsgIds.Pairwise (· < ·)
  bounded : l.session.storedMsgIds.length ≤ Session.storedMsgIdsMaxSize + 1
  covered : ∀ msgId ∈ l.inConnection, Covers l.session.storedMsgIds msgId
  nodup : l.inConnection.Nodup

/-- The start of a connection satisfies the invariant. -/
theorem Fresh.invariant {l : EventLoop α} (h : l.Fresh) : l.Invariant where
  unlocked := h.unlocked
  running := h.tasks
  sorted := by rw [h.storedMsgIds]; exact List.Pairwise.nil
  bounded := by rw [h.storedMsgIds]; exact Nat.zero_le _
  covered := by rw [h.inConnection]; simp
  nodup := by rw [h.inConnection]; exact List.nodup_nil

/-- A session that was just created. -/
theorem fresh_empty : ({} : EventLoop α).Fresh := ⟨rfl, rfl, rfl, by simp⟩

/-! ### What a step does -/

/-- A step that accepts nothing and clears nothing. -/
structure Quiet (l l' : EventLoop α) : Prop where
  storedMsgIds : l'.session.storedMsgIds = l.session.storedMsgIds ∨
    l'.session.storedMsgIds = trim Session.storedMsgIdsMaxSize l.session.storedMsgIds
  recentMsgIds : l'.session.recentMsgIds = l.session.recentMsgIds
  unlocked : l'.session.msgIdLocked = false
  running : ∀ i m ms, l'.tasks i ≠ .acquiring m ms
  pendingAcks : l.session.pendingAcks ⊆ l'.session.pendingAcks
  accepted : l'.accepted = l.accepted
  inConnection : l'.inConnection = l.inConnection
  atRestart : l'.atRestart = l.atRestart
  delivered : l'.delivered = l.delivered

/-- A step that accepts message `m`. -/
structure Accepting (l : EventLoop α) (m : Message α) (l' : EventLoop α) : Prop where
  session : l.session.Accepts m l'.session
  running : ∀ i m ms, l'.tasks i ≠ .acquiring m ms
  accepted : l'.accepted = m.msgId :: l.accepted
  inConnection : l'.inConnection = m.msgId :: l.inConnection
  atRestart : l'.atRestart = l.atRestart
  delivered : l'.delivered = l.delivered

theorem running_setTask {l : EventLoop α} (h : ∀ i m ms, l.tasks i ≠ .acquiring m ms) (i : ℕ)
    {t : Task α} (ht : ∀ m ms, t ≠ .acquiring m ms) :
    ∀ j m ms, (l.setTask i t).tasks j ≠ .acquiring m ms := by
  intro j m ms
  by_cases hj : j = i
  · subst hj
    simpa [setTask] using ht m ms
  · simpa [setTask, hj] using h j m ms

/-- Moving a task changes nothing else. -/
theorem Invariant.quiet_setTask {l : EventLoop α} (hl : l.Invariant) (i : ℕ) {t : Task α}
    (ht : ∀ m ms, t ≠ .acquiring m ms) : l.Quiet (l.setTask i t) where
  storedMsgIds := Or.inl rfl
  recentMsgIds := rfl
  unlocked := hl.unlocked
  running := running_setTask hl.running i ht
  pendingAcks := Finset.Subset.refl _
  accepted := rfl
  inConnection := rfl
  atRestart := rfl
  delivered := rfl

/-- A quiet step may replace the session by one with the same history. -/
theorem Quiet.with_session {l l' : EventLoop α} (h : l.Quiet l') {s : Session α}
    (hstored : s.storedMsgIds = l'.session.storedMsgIds ∨
      s.storedMsgIds = trim Session.storedMsgIdsMaxSize l.session.storedMsgIds)
    (hrecent : s.recentMsgIds = l'.session.recentMsgIds) (hlock : s.msgIdLocked = false)
    (hacks : l'.session.pendingAcks ⊆ s.pendingAcks) : l.Quiet { l' with session := s } :=
  { h with
    storedMsgIds := hstored.elim (fun e => h.storedMsgIds.imp e.trans e.trans) Or.inr
    recentMsgIds := hrecent.trans h.recentMsgIds
    unlocked := hlock
    pendingAcks := h.pendingAcks.trans hacks }

/-- **What a resumed task does**: it accepts a message, or nothing of note. -/
theorem resume_cases {l l' : EventLoop α} (hl : l.Invariant) {i : ℕ}
    (h : l.resume clock i = some l') : l.Quiet l' ∨ ∃ m, l.Accepting m l' := by
  unfold resume at h
  split at h
  · next packet hi =>
    -- unpacked: the task goes to its messages, or ends
    obtain rfl := Option.some.inj h
    left
    cases packet with
    | message data => exact hl.quiet_setTask i (by simp)
    | container messages => exact hl.quiet_setTask i (by simp)
    | raised => exact hl.quiet_setTask i (by simp)
    | valueError =>
      exact (hl.quiet_setTask i (by simp)).with_session (Or.inl rfl) rfl hl.unlocked
        (Finset.Subset.refl _)
  · next hi =>
    -- the loop is over: the task sends the acks, or ends
    obtain rfl := Option.some.inj h
    left
    unfold finishMessages
    split
    · obtain ⟨msgId, s, halloc, hstored, hs⟩ :=
        Session.allocateMessageIdentity_of_unlocked clock hl.unlocked
      rw [halloc]
      refine (hl.quiet_setTask i ?_).with_session (Or.inl hstored) hs.recentMsgIds
        (hs.msgIdLocked.trans hl.unlocked) hs.pendingAcks.symm.subset
      split <;> simp
    · exact hl.quiet_setTask i (by simp)
  · next m ms hi =>
    obtain rfl := Option.some.inj h
    rcases Session.handleMessage_cases clock hl.unlocked m with
      ⟨-, hv⟩ | ⟨s, hs, hv⟩ | ⟨s, hs, hv⟩
    · rw [hv]
      exact Or.inl ((hl.quiet_setTask i (by simp)).with_session (Or.inl (by simp)) (by simp)
        ((Session.msgIdLocked_ack _ _).trans hl.unlocked) (Session.pendingAcks_subset_ack _ _))
    · -- the loop goes on or the task returns, with the same session either way
      have hquiet : ∀ t : Task α, (∀ m ms, t ≠ .acquiring m ms) →
          l.Quiet { l.setTask i t with session := s } := fun t ht =>
        (hl.quiet_setTask i ht).with_session (Or.inr hs.storedMsgIds) hs.untouched.recentMsgIds
          (hs.untouched.msgIdLocked.trans hl.unlocked) hs.untouched.pendingAcks.symm.subset
      rcases hv with hv | hv
      · rw [hv]; exact Or.inl (hquiet _ (by simp))
      · rw [hv]; exact Or.inl (hquiet _ (by simp))
    · rw [hv]
      exact Or.inr ⟨m, hs, running_setTask hl.running i (by simp), rfl, rfl, rfl, rfl⟩
  · next m ms hi => exact absurd hi (hl.running i m ms)
  · exact absurd h (by simp)
  · exact absurd h (by simp)
  · exact absurd h (by simp)

/-- **What a step does**: it accepts a message, delivers acks, takes the snapshot of
a restart, clears the connection, or none of these. -/
theorem step_cases {l l' : EventLoop α} (hl : l.Invariant) {e : Event α}
    (h : l.step clock e = some l') :
    l.Quiet l' ∨ (∃ m, l.Accepting m l') ∨
      (∃ i msgIds, e = .sendReturned i ∧ l.tasks i = .sendingAck msgIds ∧
        l' = { l.setTask i .idle with
          session := { l.session with pendingAcks := ∅ }
          delivered := msgIds :: l.delivered }) ∨
      (e = .restarted ∧ l' = { l with session := l.session.restart, atRestart := l.accepted }) ∨
      (e = .stopped ∧ l' = { l with session := l.session.stopResources, inConnection := [] }) := by
  -- most events neither accept a message nor touch what was accepted
  have hstay : l.Quiet l :=
    ⟨Or.inl rfl, rfl, hl.unlocked, hl.running, Finset.Subset.refl _, rfl, rfl, rfl, rfl⟩
  cases e with
  | received i packet =>
    simp only [step] at h
    split at h
    · obtain rfl := Option.some.inj h
      exact Or.inl (hl.quiet_setTask i (by simp))
    · obtain rfl := Option.some.inj h
      exact Or.inl (hl.quiet_setTask i (by simp))
    · exact absurd h (by simp)
  | resumed i => exact (resume_cases hl h).imp_right Or.inl
  | sendReturned i =>
    simp only [step] at h
    split at h
    · next msgIds hi =>
        exact Or.inr (Or.inr (Or.inl ⟨i, msgIds, rfl, hi, (Option.some.inj h).symm⟩))
    · exact absurd h (by simp)
  | sendFailed i | sendRaised i =>
    simp only [step] at h
    split at h
    · obtain rfl := Option.some.inj h
      exact Or.inl (hl.quiet_setTask i (by simp))
    · exact absurd h (by simp)
  | cancelled i =>
    obtain rfl := Option.some.inj h
    exact Or.inl (hl.quiet_setTask i (by simp))
  | registered =>
    obtain ⟨msgId, s, halloc, hstored, hs⟩ :=
      Session.allocateMessageIdentity_of_unlocked clock hl.unlocked
    simp only [step, Session.register, halloc, Option.map_some] at h
    obtain rfl := Option.some.inj h
    exact Or.inl (hstay.with_session (Or.inl hstored) hs.recentMsgIds
      (hs.msgIdLocked.trans hl.unlocked) hs.pendingAcks.symm.subset)
  | forgotten msgId =>
    obtain rfl := Option.some.inj h
    exact Or.inl (hstay.with_session (Or.inl rfl) rfl hl.unlocked (Finset.Subset.refl _))
  | restarted => exact Or.inr (Or.inr (Or.inr (Or.inl ⟨rfl, (Option.some.inj h).symm⟩)))
  | stopped => exact Or.inr (Or.inr (Or.inr (Or.inr ⟨rfl, (Option.some.inj h).symm⟩)))

/-! ### The invariant is kept -/

theorem Invariant.of_quiet {l l' : EventLoop α} (hl : l.Invariant) (h : l.Quiet l') :
    l'.Invariant := by
  refine ⟨h.unlocked, h.running, ?_, ?_, ?_, h.inConnection ▸ hl.nodup⟩
  · rcases h.storedMsgIds with e | e <;> rw [e]
    · exact hl.sorted
    · exact pairwise_trim hl.sorted
  · rcases h.storedMsgIds with e | e <;> rw [e]
    · exact hl.bounded
    · exact (length_trim_le (by decide) hl.bounded).trans (Nat.le_succ _)
  · rw [h.inConnection]
    rcases h.storedMsgIds with e | e <;> rw [e]
    · exact hl.covered
    · exact fun msgId hid => (hl.covered msgId hid).trim _ hl.sorted

/-- **What is accepted was not accepted before on this connection**, whether it is
still in the history or was forgotten. -/
theorem Accepting.not_mem {l l' : EventLoop α} {m : Message α} (hl : l.Invariant)
    (h : l.Accepting m l') : m.msgId ∉ l.inConnection := by
  intro hmem
  have hcov := (hl.covered m.msgId hmem).trim Session.storedMsgIdsMaxSize hl.sorted
  refine not_covers ?_ h.session.lowest hcov
  exact fun hin => h.session.unknown (Or.inr (mem_of_mem_trim hin))

theorem Invariant.of_accepting {l l' : EventLoop α} {m : Message α} (hl : l.Invariant)
    (h : l.Accepting m l') : l'.Invariant := by
  refine ⟨h.session.msgIdLocked.trans hl.unlocked, h.running, ?_, ?_, ?_, ?_⟩
  · rw [h.session.storedMsgIds]
    exact pairwise_insort (pairwise_trim hl.sorted) fun hin =>
      h.session.unknown (Or.inr (mem_of_mem_trim hin))
  · rw [h.session.storedMsgIds, length_insort]
    exact Nat.succ_le_succ (length_trim_le (by decide) hl.bounded)
  · rw [h.session.storedMsgIds, h.inConnection]
    intro msgId hid
    rcases List.mem_cons.mp hid with rfl | hid
    · exact covers_insort_self _ _
    · exact ((hl.covered msgId hid).trim _ hl.sorted).insort h.session.lowest
  · rw [h.inConnection]
    exact List.nodup_cons.mpr ⟨h.not_mem hl, hl.nodup⟩

/-- A restart copies ids, it does not touch the history. -/
@[simp] theorem storedMsgIds_restart (s : Session α) :
    s.restart.storedMsgIds = s.storedMsgIds := by
  unfold Session.restart; split <;> rfl

@[simp] theorem msgIdLocked_restart (s : Session α) : s.restart.msgIdLocked = s.msgIdLocked := by
  unfold Session.restart; split <;> rfl

@[simp] theorem pendingAcks_restart (s : Session α) : s.restart.pendingAcks = s.pendingAcks := by
  unfold Session.restart; split <;> rfl

/-- **Every step keeps the invariant.** -/
theorem invariant_step (l : EventLoop α) (e : Event α) (l' : EventLoop α) (hl : l.Invariant)
    (h : l.step clock e = some l') : l'.Invariant := by
  rcases step_cases hl h with hq | ⟨m, hacc⟩ | ⟨i, msgIds, -, -, rfl⟩ | ⟨-, rfl⟩ | ⟨-, rfl⟩
  · exact hl.of_quiet hq
  · exact hl.of_accepting hacc
  · exact ⟨hl.unlocked, running_setTask hl.running i (by simp), hl.sorted, hl.bounded, hl.covered,
      hl.nodup⟩
  · exact ⟨by simpa using hl.unlocked, hl.running, by simpa using hl.sorted,
      by simpa using hl.bounded, by simpa using hl.covered, hl.nodup⟩
  · exact ⟨hl.unlocked, hl.running, List.Pairwise.nil, Nat.zero_le _, by simp, List.nodup_nil⟩

/-- The invariant holds after every run from the start of a connection. -/
theorem invariant_run {l l' : EventLoop α} (hl : l.Fresh) {es : List (Event α)}
    (h : run (step clock) l es = some l') : l'.Invariant :=
  run_of_invariant invariant_step hl.invariant h

/-! ### One connection -/

/-- **Accepted at most once in a connection.**  After every run from the start of a
connection, whatever the tasks do in between: no id was accepted twice, the
history is strictly increasing and bounded, and handling a message whose id was
accepted neither acts on its body nor resolves a request.  As long as the id is
known it also leaves the clock and the count of mismatches alone; once it is
forgotten, it sets the clock where its `seq_no` is zero and counts as a mismatch. -/
theorem accepted_once_in_connection {l l' : EventLoop α} (hl : l.Fresh) {es : List (Event α)}
    (h : run (step clock) l es = some l') :
    l'.inConnection.Nodup ∧ l'.session.storedMsgIds.Pairwise (· < ·) ∧
      l'.session.storedMsgIds.length ≤ Session.storedMsgIdsMaxSize + 1 ∧
      ∀ (m : Message α) (s : Session α) (v : Session.Verdict), m.msgId ∈ l'.inConnection →
        l'.session.handleMessage clock m = (s, v) →
          v ≠ .accepted ∧ s.results = l'.session.results ∧
            s.handledUpdates = l'.session.handledUpdates ∧
            (l'.session.Knows m.msgId → s.serverTimeOffset = l'.session.serverTimeOffset ∧
              s.ignoreCount = l'.session.ignoreCount) ∧
            (¬ l'.session.Knows m.msgId → (s, v) = (l'.session.prepared clock m).discard ∧
              s.ignoreCount = l'.session.ignoreCount + 1) := by
  have hinv := invariant_run hl h
  refine ⟨hinv.nodup, hinv.sorted, hinv.bounded, ?_⟩
  intro m s v hm hv
  -- an id that was accepted is stored, or below the lowest one stored
  have hcov := (hinv.covered m.msgId hm).trim Session.storedMsgIdsMaxSize hinv.sorted
  rcases Session.handleMessage_cases clock hinv.unlocked m with
    ⟨hknown, hv'⟩ | ⟨s', hs', hv'⟩ | ⟨s', hs', hv'⟩
  -- it is known still
  · obtain ⟨rfl, rfl⟩ := Prod.mk.inj (hv.symm.trans hv')
    exact ⟨by simp, by simp, by simp, fun _ => ⟨by
      simp, by simp⟩, fun hunknown => absurd hknown hunknown⟩
  · -- forgotten, and below the minimum
    obtain ⟨rfl, hverdict⟩ : s = s' ∧ v ≠ .accepted := by
      rcases hv' with hv' | hv' <;> obtain ⟨rfl, rfl⟩ := Prod.mk.inj (hv.symm.trans hv') <;>
        exact ⟨rfl, by simp⟩
    refine ⟨hverdict, hs'.untouched.results, hs'.untouched.handledUpdates,
      fun hknown => absurd hknown hs'.unknown, fun hunknown => ?_⟩
    have hdiscard := hv.symm.trans (Session.handleMessage_of_covers clock hunknown hcov)
    refine ⟨hdiscard, ?_⟩
    rw [show s = (l'.session.prepared clock m).discard.1 from congrArg Prod.fst hdiscard]
    simp
  · -- accepted: impossible, the id is covered
    refine absurd hcov (not_covers ?_ hs'.lowest)
    exact fun hin => hs'.unknown (Or.inr (mem_of_mem_trim hin))

/-- A clock that advances with every reading. -/
def ticking (n : ℕ) : ℤ := n

/-- The `n`-th message of a connection: a pong that answers no request. -/
def numbered (n : ℕ) : Message ℕ := ⟨4 * n + 1, 2 * n, .pong 0 0⟩

/-- The same with an update that has to be acknowledged. -/
def posted (n : ℕ) : Message ℕ := ⟨4 * n + 1, 2 * n + 1, .updates n⟩

/-- Two tasks handle the same message, the later one first. -/
def sameMessageTwice : List (Event ℕ) :=
  [.received 0 (.message (numbered 0)), .received 1 (.message (numbered 0)), .resumed 1,
    .resumed 0, .resumed 1, .resumed 0]

/-- The second task finds the message known. -/
theorem accepted_once_of_two_tasks : ∃ l', run (step ticking) ({} : EventLoop ℕ)
      sameMessageTwice = some l' ∧ l'.inConnection = [1] ∧ l'.inConnection.Nodup ∧
    (l'.session.handleMessage ticking (numbered 0)).2 ≠ .accepted := by
  obtain ⟨l', hrun⟩ : ∃ l', run (step ticking) ({} : EventLoop ℕ) sameMessageTwice = some l' :=
    ⟨_, rfl⟩
  have hin : l'.inConnection = [1] := by
    have h : (run (step ticking) ({} : EventLoop ℕ) sameMessageTwice).map (·.inConnection) =
      some [1] := by decide
    rw [hrun] at h
    exact Option.some.inj h
  obtain ⟨hnodup, -, -, hrepeat⟩ := accepted_once_in_connection fresh_empty hrun
  exact ⟨l', hrun, hin, hnodup, (hrepeat (numbered 0) _ _ (by rw [hin]; decide) rfl).1⟩

/-! ### A connection that outgrows its history

`overflowing` fills the history with the ids 1, 5, 9, …: the 2002nd message makes
it forget the lower half.  A repetition of the first message is then refused by
the other comparison, so it moves the clock and counts as a mismatch. -/

/-- One packet with 2002 messages, and its task up to the end of the loop. -/
def overflowing : List (Event ℕ) :=
  .received 0 (.container ((List.range 2002).map numbered)) :: List.replicate 2003 (.resumed 0)

/-- The session after `n` messages, with the history `ids`. -/
structure Filled (ids : List ℤ) (n : ℕ) (s : Session ℕ) : Prop where
  storedMsgIds : s.storedMsgIds = ids
  recentMsgIds : s.recentMsgIds = []
  pendingAcks : s.pendingAcks = ∅
  ignoreCount : s.ignoreCount = 0
  serverTimeOffset : s.serverTimeOffset = 1
  clockReads : s.clockReads = n
  lastMsgId : s.lastMsgId = 4 * n - 4
  msgIdLocked : s.msgIdLocked = false

/-- The next message is above the history, inside the time window, and accepted. -/
theorem Filled.accept_next {ids : List ℤ} {n : ℕ} {s : Session ℕ} (h : Filled ids n s)
    (hn : 1 ≤ n) (hne : ids ≠ []) (hids : ∀ b ∈ ids, b < (numbered n).msgId) :
    ∃ s', s.handleMessage ticking (numbered n) = (s', .accepted) ∧
      Filled (trim Session.storedMsgIdsMaxSize ids ++ [(numbered n).msgId]) (n + 1) s' := by
  have hknown : ¬ s.Knows (numbered n).msgId := by
    rw [Session.Knows, h.recentMsgIds, h.storedMsgIds]
    rintro (hin | hin)
    · exact absurd hin (by simp)
    · exact (hids _ hin).false
  have hseq : (numbered n).seqNo ≠ 0 := by simp only [numbered]; omega
  have htrim : ∀ b ∈ trim Session.storedMsgIdsMaxSize ids, b < (numbered n).msgId :=
    fun b hb => hids b (mem_of_mem_trim hb)
  have hodd : ¬ (numbered n).isContentRelated := by
    simp only [Message.isContentRelated, numbered]; omega
  rw [Session.handleMessage, if_neg hknown, Session.handleUnknown]
  simp only [if_neg hseq, h.storedMsgIds]
  cases hlow : (trim Session.storedMsgIdsMaxSize ids).head? with
  | none => exact absurd (List.head?_eq_none_iff.mp hlow) (trim_ne_nil hne)
  | some lowest =>
    have hle : ¬ (numbered n).msgId < lowest :=
      not_lt.mpr (htrim lowest (List.mem_of_mem_head? hlow)).le
    -- the id allocated for the comparison is `4 * n`, one below the message
    have hbase : ((n : ℤ) + 1) - ((n : ℤ) + 1) % 4 ≤ 4 * n - 4 := by omega
    simp only [if_neg hle, Session.checkTime, Session.allocateMessageIdentity, h.msgIdLocked,
      Session.serverTime, h.clockReads, h.serverTimeOffset, h.lastMsgId, ticking, if_pos hbase,
      Bool.false_eq_true, if_false]
    rw [if_neg (by simp only [numbered]; omega), if_neg (by simp only [numbered]; omega)]
    refine ⟨_, rfl, ?_⟩
    simp only [Session.accept, Session.ack, if_neg hodd, insort_of_forall_lt htrim]
    refine ⟨rfl, h.recentMsgIds, h.pendingAcks, rfl, rfl, rfl, ?_, rfl⟩
    show (4 * n - 4 + 4 : ℤ) = 4 * ((n + 1 : ℕ) : ℤ) - 4
    push_cast
    omega

/-- The ids of the first `n` messages. -/
def firstIds (n : ℕ) : List ℤ := (List.range n).map fun k => (numbered k).msgId

@[simp] theorem length_firstIds (n : ℕ) : (firstIds n).length = n := by simp [firstIds]

theorem lt_of_mem_firstIds {n : ℕ} {b : ℤ} (hb : b ∈ firstIds n) : b < (numbered n).msgId := by
  obtain ⟨k, hk, rfl⟩ := List.mem_map.mp hb
  simpa only [numbered] using by have := List.mem_range.mp hk; omega

theorem firstIds_succ (n : ℕ) : firstIds (n + 1) = firstIds n ++ [(numbered n).msgId] := by
  simp [firstIds, List.range_succ]

/-- One resumption of a task whose next message is accepted. -/
theorem step_of_accepted {l : EventLoop ℕ} {m : Message ℕ} {ms : List (Message ℕ)} {s : Session ℕ}
    (hi : l.tasks 0 = .iterating (m :: ms))
    (hs : l.session.handleMessage ticking m = (s, .accepted)) :
    ∃ l', l.step ticking (.resumed 0) = some l' ∧ l'.session = s ∧
      l'.tasks 0 = .iterating ms ∧ l'.inConnection = m.msgId :: l.inConnection := by
  refine ⟨l.settle 0 m ms (s, .accepted), ?_, rfl, by simp [settle, setTask], rfl⟩
  simp only [step, resume, hi, hs]

/-- **Filling the history**: up to 2001 messages are accepted and all remembered. -/
theorem run_firstIds : ∀ (k n : ℕ) (rest : List (Message ℕ)) (l : EventLoop ℕ), 1 ≤ n →
    n + k ≤ 2001 → Filled (firstIds n) n l.session →
    l.tasks 0 = .iterating ((List.range' n k).map numbered ++ rest) →
    (numbered 0).msgId ∈ l.inConnection →
    ∃ l', run (step ticking) l (List.replicate k (.resumed 0)) = some l' ∧
      Filled (firstIds (n + k)) (n + k) l'.session ∧ l'.tasks 0 = .iterating rest ∧
      (numbered 0).msgId ∈ l'.inConnection := by
  intro k
  induction k with
  | zero => intro n rest l _ _ hl hi hin; exact ⟨l, rfl, hl, hi, hin⟩
  | succ k ih =>
    intro n rest l hn hk hl hi hin
    rw [List.range'_succ, List.map_cons, List.cons_append] at hi
    have hne : firstIds n ≠ [] := List.ne_nil_of_length_pos (by rw [length_firstIds]; omega)
    obtain ⟨s, hs, hfill⟩ := hl.accept_next hn hne fun b => lt_of_mem_firstIds
    obtain ⟨l₁, hstep, rfl, hi₁, hin₁⟩ := step_of_accepted hi hs
    -- the history has not outgrown its bound yet
    have htrim : trim Session.storedMsgIdsMaxSize (firstIds n) = firstIds n := by
      rw [trim, if_neg]
      rw [length_firstIds, Session.storedMsgIdsMaxSize]
      omega
    rw [htrim, ← firstIds_succ] at hfill
    obtain ⟨l', hrun, hfill', hi', hin'⟩ := ih (n + 1) rest l₁ (by omega) (by omega) hfill hi₁
      (by rw [hin₁]; exact List.mem_cons_of_mem _ hin)
    rw [show n + (k + 1) = n + 1 + k by omega]
    exact ⟨l', by rw [List.replicate_succ, run_cons, hstep]; exact hrun, hfill', hi', hin'⟩

/-- The first message starts the connection. -/
theorem run_first : ∃ l, run (step ticking) ({} : EventLoop ℕ)
      [.received 0 (.container ((List.range 2002).map numbered)), .resumed 0, .resumed 0] = some l ∧
    Filled (firstIds 1) 1 l.session ∧
    l.tasks 0 = .iterating ((List.range' 1 2000).map numbered ++ [numbered 2001]) ∧
    (numbered 0).msgId ∈ l.inConnection := by
  have hlist : (List.range 2002).map numbered =
      numbered 0 :: ((List.range' 1 2000).map numbered ++ [numbered 2001]) := by
    rw [List.range_eq_range', List.range'_succ, List.range'_concat]
    simp
  rw [hlist]
  exact ⟨_, rfl, ⟨rfl, rfl, rfl, rfl, rfl, rfl, rfl, rfl⟩, rfl, List.mem_cons_self⟩

/-- What is left of the first 2001 ids lies above the first. -/
theorem lt_of_mem_trim_firstIds {b : ℤ}
    (hb : b ∈ trim Session.storedMsgIdsMaxSize (firstIds 2001)) : (numbered 0).msgId < b := by
  rw [trim, if_pos (by rw [length_firstIds]; decide)] at hb
  obtain ⟨k, hk, rfl⟩ := List.mem_iff_getElem.mp hb
  simp only [firstIds, List.getElem_drop, List.getElem_map, List.getElem_range, numbered,
    Session.storedMsgIdsMaxSize]
  omega

/-- **A forgotten message is not a known one.**  On this connection the repetition
of an accepted message moves the clock and counts as a mismatch. -/
theorem forgotten_repetition_counts : ∃ l', run (step ticking) ({} : EventLoop ℕ) overflowing =
      some l' ∧ (numbered 0).msgId ∈ l'.inConnection ∧
    (l'.session.handleMessage ticking (numbered 0)).1.ignoreCount ≠ l'.session.ignoreCount ∧
    (l'.session.handleMessage ticking (numbered 0)).1.serverTimeOffset ≠
      l'.session.serverTimeOffset := by
  obtain ⟨l₁, hrun₁, hfill₁, hi₁, hin₁⟩ := run_first
  obtain ⟨l₂, hrun₂, hfill₂, hi₂, hin₂⟩ :=
    run_firstIds 2000 1 [numbered 2001] l₁ le_rfl le_rfl hfill₁ hi₁ hin₁
  -- the last message makes the history forget its lower half
  obtain ⟨s, hs, hfill⟩ := hfill₂.accept_next (by decide)
    (List.ne_nil_of_length_pos (by rw [length_firstIds]; decide)) fun b => lt_of_mem_firstIds
  obtain ⟨l', hstep, rfl, -, hin⟩ := step_of_accepted hi₂ hs
  refine ⟨l', ?_, by rw [hin]; exact List.mem_cons_of_mem _ hin₂, ?_⟩
  · have hsplit : overflowing =
        [.received 0 (.container ((List.range 2002).map numbered)), .resumed 0, .resumed 0] ++
          (List.replicate 2000 (.resumed 0) ++ [.resumed 0]) := by
      rw [overflowing, ← List.replicate_succ']
      rfl
    rw [hsplit, run_append, hrun₁, Option.bind_some, run_append, hrun₂, Option.bind_some,
      run_cons, hstep]
    rfl
  · have hlt : ∀ b ∈ l'.session.storedMsgIds, (numbered 0).msgId < b := by
      rw [hfill.storedMsgIds]
      intro b hb
      rcases List.mem_append.mp hb with hb | hb
      · exact lt_of_mem_trim_firstIds hb
      · rw [List.mem_singleton.mp hb]; decide
    have hknown : ¬ l'.session.Knows (numbered 0).msgId := by
      rintro (hin | hin)
      · rw [hfill.recentMsgIds] at hin; exact absurd hin (by simp)
      · exact (hlt _ hin).false
    cases hlow : (trim Session.storedMsgIdsMaxSize l'.session.storedMsgIds).head? with
    | none =>
      rw [hfill.storedMsgIds] at hlow
      exact absurd (List.head?_eq_none_iff.mp hlow) (trim_ne_nil (by simp))
    | some lowest =>
      have hbelow : 1 < lowest := hlt lowest (mem_of_mem_trim (List.mem_of_mem_head? hlow))
      rw [Session.handleMessage, if_neg hknown]
      simp [Session.handleUnknown, numbered, Session.setServerTime, hlow, hbelow, Session.discard,
        hfill.ignoreCount, hfill.serverTimeOffset, hfill.clockReads, ticking,
        Session.maxConsecutiveIgnored]

end EventLoop
end Pyrogram
