import Pyrogram.Connection.Carrier

/-!
# Pending grants of the WEB carrier

`_grant_credit` leaves a small amount pending and starts a delayed flush, unless
`_grant_flush_task` is set.  The task is set until its WINDOW frame is posted, and it
takes the pending amount before that; what comes to be pending meanwhile is left to
the next `recv`.

## Main definitions

* `WebProxyCarrier.FlushWaits` — no credit is left pending while the flush posts its
  frame.

## Main results

* `WebProxyCarrier.sleeping_of_flushWaits` — **pending credit has a flush that will
  take it**, in every run in which the flush waits.
* `WebProxyCarrier.grant_stranded` — credit that no flush will take.
-/

namespace Pyrogram.WebProxyCarrier

open Runs

/-- What a `recv` is going to take in this step. -/
def takes (c : WebProxyCarrier) : Event → Option ℤ
  | .recvCalled length =>
      if (fill length c.recvBuffer c.recvQueue).2.2 = .enough then some length else none
  | .got i =>
      match c.tasks[i]? with
      | some (.getting length) =>
          if (fill length c.recvBuffer c.recvQueue).2.2 = .enough then some length else none
      | _ => none
  | _ => none

/-- A `recv` leaves credit pending only where the delayed flush, if there is one, has
not taken its amount. -/
def FlushWaits (c : WebProxyCarrier) (e : Event) (_ : WebProxyCarrier) : Prop :=
  ∀ amount, c.takes e = some amount → 0 < amount →
    c.pendingGrant + amount < downlinkGrantThreshold →
    c.grantFlushTask = none ∨ ∃ i, c.grantFlushTask = some i ∧ c.tasks[i]? = some .sleeping

/-- The stages of `_delayed_grant_flush`. -/
def Task.IsFlush : Task → Prop
  | .sleeping | .posting _ .flushed | .requesting .flushed => True
  | _ => False

/-- `_grant_flush_task` is the one delayed flush there is, and while credit is pending
it has not taken it. -/
structure Offered (c : WebProxyCarrier) : Prop where
  owner : ∀ i task, c.tasks[i]? = some task → task.IsFlush → c.grantFlushTask = some i
  pending : c.failed = false → 0 < c.pendingGrant →
    ∃ i, c.grantFlushTask = some i ∧ c.tasks[i]? = some .sleeping

variable {c c' : WebProxyCarrier}

theorem Offered.of_eq (h : Offered c) (htasks : c'.tasks = c.tasks)
    (htask : c'.grantFlushTask = c.grantFlushTask) (hpending : c'.pendingGrant ≤ c.pendingGrant)
    (hfailed : c'.failed = false → c.failed = false) : Offered c' := by
  refine ⟨?_, fun hfalse hpos => ?_⟩
  · rw [htasks, htask]
    exact h.owner
  · rw [htasks, htask]
    exact h.pending (hfailed hfalse) (hpos.trans_le hpending)

theorem Offered.fail (h : Offered c) : Offered c.fail := by
  refine ⟨?_, fun hfalse => absurd (failing_fail c) (by simp [hfalse])⟩
  rw [tasks_fail]
  unfold WebProxyCarrier.fail
  split <;> exact h.owner

theorem getElem?_track_of_eq_some {i : ℕ} {task task' : Task}
    (h : (c.track task').tasks[i]? = some task) :
    c.tasks[i]? = some task ∨ i = c.tasks.length ∧ task = task' := by
  have hmem : (c.tasks ++ [task'])[i]? = some task := h
  rcases Nat.lt_trichotomy i c.tasks.length with hlt | rfl | hgt
  · exact Or.inl ((List.getElem?_append_left hlt).symm.trans hmem)
  · rw [List.getElem?_concat_length] at hmem
    exact Or.inr ⟨rfl, (Option.some.inj hmem).symm⟩
  · rw [List.getElem?_eq_none (by rw [List.length_append]; exact hgt)] at hmem
    cases hmem

theorem getElem?_track_of_getElem? {i : ℕ} {task : Task} (h : c.tasks[i]? = some task)
    (task' : Task) :
    (c.track task').tasks[i]? = some task :=
  (List.getElem?_append_left (List.getElem?_eq_some_iff.mp h).1).trans h

theorem Offered.track (h : Offered c) {task' : Task} (htask' : ¬ task'.IsFlush) :
    Offered (c.track task') := by
  refine ⟨?_, fun hfalse hpos => ?_⟩
  · intro i task hi hflush
    rcases getElem?_track_of_eq_some hi with hi | ⟨-, rfl⟩
    · exact h.owner i task hi hflush
    · exact absurd hflush htask'
  · obtain ⟨i, htask, hi⟩ := h.pending hfalse hpos
    exact ⟨i, htask, getElem?_track_of_getElem? hi task'⟩

/-- A task goes on, but neither starts nor ends a delayed flush. -/
theorem Offered.settle (h : Offered c) {i : ℕ} {task task' : Task} (hi : c.tasks[i]? = some task)
    (hsleeping : task = .sleeping → c.pendingGrant ≤ 0) (hflush : task'.IsFlush → task.IsFlush) :
    Offered (c.settle i task') := by
  refine ⟨?_, fun hfalse hpos => ?_⟩
  · intro j other hj hother
    rcases eq_or_ne i j with rfl | hne
    · have hlt : i < c.tasks.length := (List.getElem?_eq_some_iff.mp hi).1
      rw [WebProxyCarrier.settle, List.getElem?_set_self hlt] at hj
      obtain rfl := Option.some.inj hj
      exact h.owner i task hi (hflush hother)
    · rw [WebProxyCarrier.settle, List.getElem?_set_ne hne] at hj
      exact h.owner j other hj hother
  · obtain ⟨j, htask, hj⟩ := h.pending hfalse hpos
    have hne : i ≠ j := by
      rintro rfl
      exact absurd (hsleeping (Option.some.inj (hi.symm.trans hj))) (not_le.mpr hpos)
    exact ⟨j, htask, (List.getElem?_set_ne hne).trans hj⟩

/-- The delayed flush ends when nothing is pending, or when the carrier has failed. -/
theorem Offered.ended (h : Offered c) {i : ℕ} {task : Task} (hi : c.tasks[i]? = some task)
    (hflush : task.IsFlush) (hnone : c.failed = false → c.pendingGrant ≤ 0) :
    Offered { c.settle i .done with grantFlushTask := none } := by
  refine ⟨?_, fun hfalse hpos => absurd (hnone hfalse) (not_le.mpr hpos)⟩
  intro j other hj hother
  have hlt : i < c.tasks.length := (List.getElem?_eq_some_iff.mp hi).1
  rcases eq_or_ne i j with rfl | hne
  · have hdone : (c.tasks.set i .done)[i]? = some other := hj
    rw [List.getElem?_set_self hlt] at hdone
    obtain rfl := Option.some.inj hdone
    exact hother.elim
  · have hother' := h.owner j other ((List.getElem?_set_ne hne).symm.trans hj) hother
    -- there is only one
    exact absurd (Option.some.inj ((h.owner i task hi hflush).symm.trans hother')) hne

theorem not_isFlush_sendLoop (window : ℤ) (pending : List Frame) (data : List UInt8) :
    ¬ (sendLoop window pending data).2.IsFlush := by
  induction window, pending, data using sendLoop.induct with
  | case1 window pending =>
    rw [sendLoop, dif_pos rfl]
    dsimp only
    split <;> exact fun h => h
  | case2 window pending data hdata chunk hwindow =>
    rw [sendLoop, dif_neg hdata]
    dsimp only
    rw [if_pos hwindow]
    split <;> exact fun h => h
  | case3 window pending data hdata chunk rest hwindow ih =>
    rw [sendLoop, dif_neg hdata]
    dsimp only
    rw [if_neg hwindow]
    exact ih

theorem not_isFlush_spend (c : WebProxyCarrier) (chunk rest : List UInt8) :
    ¬ (c.spend chunk rest).2.IsFlush := by
  unfold spend
  split
  · dsimp only
    split <;> exact fun h => h
  · exact not_isFlush_sendLoop _ _ _

theorem not_isFlush_send (c : WebProxyCarrier) (data : List UInt8) : ¬ (c.send data).2.IsFlush := by
  unfold send
  split
  · exact fun h => h
  · exact not_isFlush_sendLoop _ _ _

theorem not_isFlush_recv (c : WebProxyCarrier) (length : ℤ) : ¬ (c.recv length).2.IsFlush := by
  unfold recv grantCredit flushGrant
  split
  · exact fun h => h
  · exact fun h => h
  · dsimp only
    split_ifs <;> exact fun h => h

/-- A flush takes all that is pending. -/
theorem pendingGrant_flushGrant (c : WebProxyCarrier) (next : Resume) :
    (c.flushGrant next).1.pendingGrant = 0 := by
  unfold flushGrant
  dsimp only
  split_ifs <;> rfl

@[simp] theorem grantFlushTask_flushGrant (c : WebProxyCarrier) (next : Resume) :
    (c.flushGrant next).1.grantFlushTask = c.grantFlushTask := by
  unfold flushGrant
  dsimp only
  split_ifs <;> rfl

theorem Offered.flushGrant (h : Offered c) (next : Resume) : Offered (c.flushGrant next).1 := by
  refine ⟨?_, fun _ hpos => absurd (pendingGrant_flushGrant c next) hpos.ne'⟩
  rw [tasks_flushGrant, grantFlushTask_flushGrant]
  exact h.owner

/-- **What `recv` leaves pending has a flush**, where the flush waits. -/
theorem Offered.grantCredit (h : Offered c) {amount : ℤ}
    (hwaits : 0 < amount → c.pendingGrant + amount < downlinkGrantThreshold →
      c.grantFlushTask = none ∨ ∃ i, c.grantFlushTask = some i ∧ c.tasks[i]? = some .sleeping) :
    Offered (c.grantCredit amount).1 := by
  unfold WebProxyCarrier.grantCredit
  split
  · exact h
  next hamount =>
  have hpos : 0 < amount := not_le.mp fun hle => hamount (Or.inl hle)
  dsimp only
  split
  · refine ⟨?_, fun _ hpending => absurd (pendingGrant_flushGrant ..) hpending.ne'⟩
    rw [tasks_flushGrant, grantFlushTask_flushGrant]
    exact h.owner
  next hthreshold =>
  split
  · next hnone =>
    refine ⟨?_, fun _ _ => ⟨_, rfl, List.getElem?_concat_length⟩⟩
    intro i task hi hflush
    rcases getElem?_track_of_eq_some hi with hi | ⟨rfl, -⟩
    · exact absurd (h.owner i task hi hflush)
        (by rw [show c.grantFlushTask = none from hnone]; simp)
    · rfl
  · next hsome =>
    exact ⟨h.owner, fun _ _ => (hwaits hpos (not_le.mp hthreshold)).resolve_left hsome⟩

theorem Offered.recv (h : Offered c) {length : ℤ}
    (hwaits : (fill length c.recvBuffer c.recvQueue).2.2 = .enough → 0 < length →
      c.pendingGrant + length < downlinkGrantThreshold →
        c.grantFlushTask = none ∨ ∃ i, c.grantFlushTask = some i ∧ c.tasks[i]? = some .sleeping) :
    Offered (c.recv length).1 := by
  unfold WebProxyCarrier.recv
  split
  · exact h.of_eq rfl rfl le_rfl id
  · exact h.of_eq rfl rfl le_rfl id
  · next buffer queue hfill =>
    have hbefore : Offered { c with
        recvBuffer := buffer.drop (sliceEnd length buffer), recvQueue := queue
        results := c.results ++ [buffer.take (sliceEnd length buffer)] } := h.of_eq rfl rfl
          le_rfl id
    exact hbefore.grantCredit (hwaits (by rw [hfill]))

theorem Offered.handleFrame (h : Offered c) (frame : Frame) : Offered (c.handleFrame frame) := by
  have hhandled : Offered { c with frames := c.frames ++ [frame] } := h.of_eq rfl rfl le_rfl id
  unfold WebProxyCarrier.handleFrame handleControlFrame handleStreamFrame
  dsimp only
  split
  · split
    · exact hhandled.track fun h => h
    · exact hhandled.track fun h => h
    · exact hhandled
  split
  · exact hhandled
  split
  · split
    · exact (hhandled.track fun h : Task.failing.IsFlush => h).of_eq rfl rfl le_rfl id
    · exact hhandled.of_eq rfl rfl le_rfl id
  · exact hhandled.track fun h => h
  · split
    · exact hhandled.track fun h => h
    · exact hhandled.of_eq rfl rfl le_rfl id
  · exact hhandled

/-- Nothing is pending while a delayed flush waits for its response. -/
theorem Offered.pendingGrant_nonpos (h : Offered c) {i : ℕ} {next : Resume}
    (hi : c.tasks[i]? = some (.requesting next)) (hflush : (Task.requesting next).IsFlush)
    (hfailed : c.failed = false) : c.pendingGrant ≤ 0 := by
  by_contra hpos
  obtain ⟨j, htask, hj⟩ := h.pending hfailed (not_le.mp hpos)
  obtain rfl : i = j := Option.some.inj ((h.owner i _ hi hflush).symm.trans htask)
  cases hi.symm.trans hj

theorem Offered.resume (h : Offered c) {i : ℕ} {next : Resume}
    (hi : c.tasks[i]? = some (.requesting next)) :
    Offered (c.resume i next) := by
  cases next with
  | spend chunk rest =>
    have hsettled := h.settle hi (fun heq => nomatch heq)
      (fun hflush => absurd hflush (not_isFlush_spend c chunk rest))
    exact hsettled.of_eq rfl rfl le_rfl id
  | sent | received | control =>
      exact h.settle hi (fun heq => nomatch heq) fun hflush => hflush.elim
  | flushed => exact h.ended hi trivial (h.pendingGrant_nonpos hi trivial)

theorem Offered.abort (h : Offered c) {i : ℕ} {next : Resume}
    (hi : c.tasks[i]? = some (.requesting next)) :
    Offered (c.abort i next) := by
  cases next with
  | spend chunk rest => exact h.settle hi (fun heq => nomatch heq) fun hflush => hflush.elim
  | sent | received | control =>
      exact h.settle hi (fun heq => nomatch heq) fun hflush => hflush.elim
  | flushed => exact h.ended hi trivial (h.pendingGrant_nonpos hi trivial)

/-- **Every step keeps pending credit offered**, where the flush waits. -/
theorem offered_step {e : Event} (h : Offered c) (hwaits : FlushWaits c e c')
    (hstep : c.step e = some c') :
    Offered c' := by
  have hunlocked : Offered { c with upSendLocked := false } := h.of_eq rfl rfl le_rfl id
  cases steps_of_step hstep with
  | received frame => exact h.handleFrame frame
  | pollFailed => exact h.fail
  | sendCalled data => exact (h.track (not_isFlush_send c data)).of_eq rfl rfl le_rfl id
  | recvCalled length =>
    refine (h.recv ?_).track (not_isFlush_recv c length)
    intro henough
    exact hwaits length (if_pos henough)
  | controlSent frame => exact h.track fun h => h
  | @woken i chunk rest hi =>
    exact (h.settle hi (by simp) fun hflush => absurd hflush (not_isFlush_spend _ _ _)).of_eq rfl
      rfl le_rfl id
  | creditTimedOut hi | failRan hi =>
    exact h.fail.settle ((tasks_fail c).symm ▸ hi) (by simp) fun hflush => hflush.elim
  | @got i length hi =>
    have hrecv : Offered (c.recv length).1 := by
      refine h.recv fun henough => hwaits length ?_
      simp only [takes, hi]
      exact if_pos henough
    exact hrecv.settle (getElem?_tasks_recv hi length) (by simp)
      fun hflush => absurd hflush (not_isFlush_recv _ _)
  | @slept i hi =>
    have hflushed := h.flushGrant .flushed
    have hi' : (c.flushGrant .flushed).1.tasks[i]? = some .sleeping :=
      (tasks_flushGrant ..).symm ▸ hi
    have hzero : (c.flushGrant .flushed).1.pendingGrant ≤ 0 := (pendingGrant_flushGrant ..).le
    -- the flush is over, or it posts its frame
    split
    · next hdone =>
      rw [hdone]
      exact hflushed.ended hi' trivial fun _ => hzero
    · exact hflushed.settle hi' (fun _ => hzero) fun _ => trivial
  | @posted i frames next hi =>
    have hflush : (Task.requesting next).IsFlush → (Task.posting frames next).IsFlush := by
      cases next <;> exact fun hflush => hflush
    exact (h.settle hi (by simp) hflush).of_eq rfl rfl le_rfl id
  | answered hi => exact hunlocked.resume hi
  | refused hi => exact hunlocked.fail.abort ((tasks_fail _).symm ▸ hi)
  | erred hi => exact (hunlocked.abort hi).of_eq rfl rfl le_rfl id

theorem offered_start : Offered {} :=
  ⟨fun _ _ h => (nomatch h), fun _ hpos => absurd hpos (by decide)⟩

/-- **Pending credit has a flush that will take it**, in every run in which the flush
waits and for as long as the carrier has not failed. -/
theorem sleeping_of_flushWaits {es : List Event} {c : WebProxyCarrier}
    (hwaits : AllSteps step FlushWaits {} es) (hrun : run step {} es = some c)
    (hfailed : c.failed = false)
    (hpending : 0 < c.pendingGrant) : .sleeping ∈ c.tasks := by
  have hoffered : Offered c := by
    refine run_of_invariant_of_allSteps ?_ offered_start hwaits hrun
    intro s e s' hoffered hflush hstep
    exact offered_step hoffered hflush hstep
  obtain ⟨i, -, hi⟩ := hoffered.pending hfailed hpending
  exact List.mem_of_getElem? hi

/-- Two reads before the flush has slept. -/
theorem sleeping_twoReads :
    ∃ c, run step {} [.received (dataFrame [1, 2, 3, 4, 5, 6, 7, 8, 9, 10]), .recvCalled 4,
      .recvCalled 2] = some c ∧ c.pendingGrant = 6 ∧ .sleeping ∈ c.tasks := by
  have hwaits : AllSteps step FlushWaits {} [.received (dataFrame [1, 2, 3, 4, 5, 6, 7, 8, 9, 10]),
      .recvCalled 4, .recvCalled 2] := by
    refine .cons rfl (fun _ h => nomatch h) (.cons rfl (fun _ _ _ _ => Or.inl rfl)
      (.cons rfl (fun _ _ _ _ => Or.inr ⟨0, rfl, rfl⟩) trivial))
  exact ⟨_, rfl, rfl, sleeping_of_flushWaits hwaits rfl rfl (by decide)⟩

/-- The flush has taken the first four bytes and waits for its response when two more
are taken; then it ends, and the two bytes are left pending. -/
theorem grant_stranded :
    ∃ c, run step {} [.received (dataFrame [1, 2, 3, 4, 5, 6, 7, 8, 9, 10]), .recvCalled 4,
      .slept 0,
      .posted 0, .recvCalled 2, .answered 0 true] = some c ∧ c.failed = false ∧ c.pendingGrant = 2 ∧
        ∀ task ∈ c.tasks, task = .done := by
  exact ⟨_, rfl, rfl, rfl, by decide⟩

end Pyrogram.WebProxyCarrier
