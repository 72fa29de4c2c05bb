import Pyrogram.Pool
import Pyrogram.Runs
import Mathlib.Algebra.Order.Group.Multiset
import Mathlib.Data.Multiset.Range
import Mathlib.Tactic.Abel

/-!
# Stopping the workers

`enqueue` puts updates into a queue, from which the workers take them.  `stop` closes the
queue, puts a `None` for each worker behind the updates, and waits for the workers one
after the other; a worker that gets a `None` ends.

The workers are those `start` has created, and their callbacks raise nothing but
exceptions, which `handler_worker` catches.

## Main definitions

* `UpdatesQueue`, `step` — the queue, the workers, and the call of `stop`.
* `Accounted` — every update that was accepted is at one place.

## Main results

* `accounted_step` — what every event keeps.
* `drained` — **what was accepted is processed once, before `stop` returns.**
-/

namespace Pyrogram

open Runs

namespace UpdatesQueue

/-- Where a worker is. -/
inductive Worker
  /-- It waits for the queue. -/
  | getting
  /-- It is at the update of a number. -/
  | processing (update : ℕ)
  | ended
  deriving DecidableEq, Repr

/-- Where the call of `stop` is. -/
inductive Stop
  | notCalled
  /-- It waits for `stop_handler`. -/
  | stopHandler
  /-- It waits for the worker of an index; `failures` are recorded. -/
  | joining (index : ℕ) (failures : Bool)
  | returned
  /-- It raises a `SessionCleanupError`. -/
  | raised
  deriving DecidableEq, Repr

end UpdatesQueue

structure UpdatesQueue where
  acceptingUpdates : Bool := true
  /-- The updates that were accepted are numbered. -/
  accepted : ℕ
  queue : List (Option ℕ)
  handlerWorkerTasks : List UpdatesQueue.Worker
  /-- What was processed, each update with its worker. -/
  processed : List (ℕ × ℕ) := []
  stop : UpdatesQueue.Stop := .notCalled
  deriving DecidableEq, Repr

namespace UpdatesQueue

inductive Event
  /-- `enqueue` is called. -/
  | enqueue
  /-- A worker gets an item. -/
  | get (worker : ℕ)
  /-- A worker is done with its update. -/
  | process (worker : ℕ)
  | stop
  /-- `stop_handler` has returned, or was cancelled. -/
  | stopHandler (cancelled : Bool)
  /-- The worker that is waited for has ended. -/
  | join
  deriving DecidableEq, Repr

/-- `start` has created its workers; updates may have come before. -/
def start (updates workers : ℕ) : UpdatesQueue where
  accepted := updates
  queue := (List.range updates).map some
  handlerWorkerTasks := List.replicate workers .getting

/-- A worker goes on. -/
def settle (s : UpdatesQueue) (w : ℕ) (worker : Worker) : UpdatesQueue :=
  { s with handlerWorkerTasks := s.handlerWorkerTasks.set w worker }

/-- One event; `none` where it is not enabled. -/
def step (s : UpdatesQueue) : Event → Option UpdatesQueue
  | .enqueue =>
      if s.acceptingUpdates then some { s with
        queue := s.queue ++ [some s.accepted]
        accepted := s.accepted + 1 }
      else some s
  | .get w =>
      match s.handlerWorkerTasks[w]?, s.queue with
      | some .getting, some update :: queue => some { s.settle w (.processing update) with queue }
      | some .getting, none :: queue => some { s.settle w .ended with queue }
      | _, _ => none
  | .process w =>
      match s.handlerWorkerTasks[w]? with
      | some (.processing update) =>
          some { s.settle w .getting with processed := s.processed ++ [(w, update)] }
      | _ => none
  | .stop =>
      match s.stop with
      | .notCalled => some { s with acceptingUpdates := false, stop := .stopHandler }
      | _ => none
  | .stopHandler cancelled =>
      match s.stop with
      | .stopHandler => some { s with
          queue := s.queue ++ List.replicate s.handlerWorkerTasks.length none
          stop := .joining 0 cancelled }
      | _ => none
  | .join =>
      match s.stop with
      | .joining index failures =>
          match s.handlerWorkerTasks[index]? with
          | some .ended => some { s with stop := .joining (index + 1) failures }
          | some _ => none
          | none => some { s with stop := if failures then .raised else .returned }
      | _ => none

/-! ### Where the updates are -/

/-- The update a worker is at. -/
def Worker.update : Worker → Multiset ℕ
  | .processing update => {update}
  | .getting | .ended => 0

def Worker.endings : Worker → ℕ
  | .ended => 1
  | .getting | .processing _ => 0

/-- The markers that `stop` has put into the queue. -/
def Stop.markers (workers : ℕ) : Stop → ℕ
  | .notCalled | .stopHandler => 0
  | .joining .. | .returned | .raised => workers

/-- The workers that `stop` has waited for. -/
def Stop.joined (workers : ℕ) : Stop → ℕ
  | .notCalled | .stopHandler => 0
  | .joining index _ => index
  | .returned | .raised => workers

/-- **Every update that was accepted is at one place**: in the queue, with a worker, or
processed.  The markers are behind the updates, one for each worker that has not ended. -/
structure Accounted (s : UpdatesQueue) (updates : List ℕ) (markers : ℕ) : Prop where
  queue : s.queue = updates.map some ++ List.replicate markers none
  account : ((s.processed.map Prod.snd : List ℕ) + Pool.total Worker.update s.handlerWorkerTasks +
    updates : Multiset ℕ) =
    Multiset.range s.accepted
  markers : markers + Pool.total Worker.endings s.handlerWorkerTasks =
    s.stop.markers s.handlerWorkerTasks.length
  closed : s.stop ≠ .notCalled → s.acceptingUpdates = false
  empty : Pool.total Worker.endings s.handlerWorkerTasks ≠ 0 → updates = []
  joined : ∀ i < s.stop.joined s.handlerWorkerTasks.length, s.handlerWorkerTasks[i]? = some .ended

variable {s s' t : UpdatesQueue} {e : Event} {updates : List ℕ} {markers w : ℕ}
    {queue : List (Option ℕ)}

theorem accounted_start (updates workers : ℕ) : Accounted (start updates workers)
    (List.range updates) 0 := by
  have hupdate : Pool.total Worker.update (List.replicate workers .getting) = 0 :=
    Pool.total_eq_zero _ fun worker h => List.eq_of_mem_replicate h ▸ rfl
  have hendings : Pool.total Worker.endings (List.replicate workers .getting) = 0 :=
    Pool.total_eq_zero _ fun worker h => List.eq_of_mem_replicate h ▸ rfl
  refine ⟨(List.append_nil _).symm, ?_, ?_, fun h => absurd rfl h, fun h =>
    absurd hendings h, nofun⟩
  · show (0 : Multiset ℕ) + Pool.total Worker.update (List.replicate workers .getting) + _ = _
    rw [hupdate, zero_add, zero_add]
    rfl
  · show 0 + Pool.total Worker.endings (List.replicate workers .getting) = 0
    rw [hendings]

/-- **An update is accepted.** -/
theorem Accounted.enqueue (h : Accounted s updates markers)
    (haccepting : s.acceptingUpdates = true) :
    Accounted { s with queue := s.queue ++ [some s.accepted], accepted := s.accepted + 1 }
      (updates ++ [s.accepted]) markers := by
  have hstop : s.stop = .notCalled := by
    by_contra hne
    cases haccepting.symm.trans (h.closed hne)
  have hmarkers := h.markers
  rw [hstop, Stop.markers] at hmarkers
  obtain ⟨rfl, hendings⟩ := Nat.add_eq_zero_iff.mp hmarkers
  refine ⟨?_, ?_, h.markers, h.closed, fun hne => absurd hendings hne, h.joined⟩
  · simp [h.queue]
  · dsimp only
    rw [Multiset.range_succ, ← h.account, ← Multiset.coe_add, ← add_assoc, ← Multiset.singleton_add,
      add_comm]
    rfl

/-- A worker that has not ended goes on, and those that were waited for stay ended. -/
theorem Accounted.joined_settle (h : Accounted s updates markers) {worker : Worker}
    (hw : s.handlerWorkerTasks[w]? = some worker) (hne : worker ≠ .ended) (worker' : Worker) :
    ∀ i < s.stop.joined s.handlerWorkerTasks.length, (s.handlerWorkerTasks.set w worker')[i]? =
      some .ended := by
  intro i hi
  have hended := h.joined i hi
  refine (Pool.getElem?_set_eq_some hw).mpr (Or.inr ⟨?_, hended⟩)
  rintro rfl
  exact hne (Option.some.inj (hw.symm.trans hended))

/-- **A worker takes an update.** -/
theorem Accounted.get_update (h : Accounted s updates markers) {update : ℕ}
    (hw : s.handlerWorkerTasks[w]? = some .getting) (hqueue : s.queue = some update :: queue) :
    ∃ updates', Accounted { s.settle w (.processing update) with queue } updates' markers := by
  have hjoined := h.joined_settle hw nofun (.processing update)
  have htotal := Pool.total_set Worker.update hw (.processing update)
  have hendings := Pool.total_set Worker.endings hw (.processing update)
  -- the update leaves the queue and is with the worker
  cases updates with
  | nil =>
    have hnone := h.queue
    rw [hqueue, List.map_nil, List.nil_append] at hnone
    cases markers <;> cases hnone
  | cons u updates =>
    have hcons := h.queue
    rw [hqueue, List.map_cons, List.cons_append] at hcons
    obtain ⟨hu, rfl⟩ := List.cons.inj hcons
    obtain rfl : update = u := Option.some.inj hu
    refine ⟨updates, rfl, ?_, ?_, h.closed, fun hne => ?_, ?_⟩
    · show _ + Pool.total Worker.update (s.handlerWorkerTasks.set w (.processing update)) + _ = _
      have htotal' : Pool.total Worker.update (s.handlerWorkerTasks.set w (.processing update)) =
          Pool.total Worker.update s.handlerWorkerTasks + {update} := (add_zero _).symm.trans htotal
      rw [htotal', ← add_assoc, add_assoc, Multiset.singleton_add]
      exact h.account
    · show markers + Pool.total Worker.endings (s.handlerWorkerTasks.set w (.processing update)) =
        s.stop.markers (s.handlerWorkerTasks.set w (.processing update)).length
      rw [List.length_set, ← h.markers]
      exact congrArg (markers + ·) hendings
    -- no worker has ended yet, for the markers stand behind
    · have hnil := h.empty fun hzero => hne (hendings.trans (congrArg (· + 0) hzero))
      cases hnil
    · show ∀ i < s.stop.joined (s.handlerWorkerTasks.set w (.processing update)).length, _
      rw [List.length_set]
      exact hjoined

/-- **A worker takes a marker**, which is behind all updates. -/
theorem Accounted.get_marker (h : Accounted s updates markers)
    (hw : s.handlerWorkerTasks[w]? = some .getting)
    (hqueue : s.queue = none :: queue) : ∃ markers', Accounted { s.settle w .ended with queue }
    [] markers' := by
  have hjoined := h.joined_settle hw nofun .ended
  -- a marker stands behind the updates, so there is none left
  have htotal := Pool.total_set Worker.update hw .ended
  have hendings := Pool.total_set Worker.endings hw .ended
  have hsplit := h.queue
  rw [hqueue] at hsplit
  cases updates with
  | cons u updates => cases hsplit
  | nil =>
    rw [List.map_nil, List.nil_append] at hsplit
    cases markers with
    | zero => cases hsplit
    | succ markers =>
      obtain rfl : queue = List.replicate markers none := (List.cons.inj hsplit).2
      refine ⟨markers, rfl, ?_, ?_, h.closed, fun _ => rfl, ?_⟩
      · have hsame : Pool.total Worker.update (s.handlerWorkerTasks.set w .ended) =
            Pool.total Worker.update s.handlerWorkerTasks :=
              (add_zero _).symm.trans (htotal.trans (add_zero _))
        show _ + Pool.total Worker.update (s.handlerWorkerTasks.set w .ended) + _ = _
        rw [hsame]
        exact h.account
      · show markers + Pool.total Worker.endings (s.handlerWorkerTasks.set w .ended) =
          s.stop.markers (s.handlerWorkerTasks.set w .ended).length
        have hcount : Pool.total Worker.endings (s.handlerWorkerTasks.set w .ended) =
            Pool.total Worker.endings s.handlerWorkerTasks + 1 := hendings
        rw [List.length_set, ← h.markers, hcount]
        omega
      · show ∀ i < s.stop.joined (s.handlerWorkerTasks.set w .ended).length, _
        rw [List.length_set]
        exact hjoined

/-- **A worker is done with its update.** -/
theorem Accounted.process (h : Accounted s updates markers) {update : ℕ}
    (hw : s.handlerWorkerTasks[w]? = some (.processing update)) :
    Accounted { s.settle w .getting with processed := s.processed ++ [(w, update)] } updates
      markers := by
  have hjoined := h.joined_settle hw nofun .getting
  have htotal := Pool.total_set Worker.update hw .getting
  have hendings : Pool.total Worker.endings (s.handlerWorkerTasks.set w .getting) =
      Pool.total Worker.endings s.handlerWorkerTasks := Pool.total_set Worker.endings hw .getting
  refine ⟨h.queue, ?_, ?_, h.closed, fun hne => h.empty (hendings ▸ hne), ?_⟩
  · show ((s.processed ++ [(w, update)]).map Prod.snd : List ℕ) +
      Pool.total Worker.update (s.handlerWorkerTasks.set w .getting) + _ = Multiset.range s.accepted
    have hsplit : Pool.total Worker.update (s.handlerWorkerTasks.set w .getting) + {update} =
        Pool.total Worker.update s.handlerWorkerTasks := htotal.trans (add_zero _)
    rw [← h.account, ← hsplit, List.map_append, ← Multiset.coe_add, ← add_assoc,
      add_right_comm _ (Pool.total Worker.update (s.handlerWorkerTasks.set w .getting))
        ({update} : Multiset ℕ)]
    rfl
  · show markers + Pool.total Worker.endings (s.handlerWorkerTasks.set w .getting) =
      s.stop.markers (s.handlerWorkerTasks.set w .getting).length
    rw [List.length_set, hendings]
    exact h.markers
  · show ∀ i < s.stop.joined (s.handlerWorkerTasks.set w .getting).length, _
    rw [List.length_set]
    exact hjoined

/-- **Every event keeps the account.** -/
theorem accounted_step (h : Accounted s updates markers) (hstep : step s e = some s') :
    ∃ updates' markers', Accounted s' updates' markers' := by
  cases e with
  | enqueue =>
    simp only [step] at hstep
    split at hstep
    · next haccepting =>
      cases hstep
      exact ⟨_, _, h.enqueue haccepting⟩
    · cases hstep
      exact ⟨_, _, h⟩
  -- a worker takes an update, or the marker that ends it
  | get w =>
    simp only [step] at hstep
    split at hstep
    · next update queue hw hqueue =>
      cases hstep
      obtain ⟨updates', h'⟩ := h.get_update hw hqueue
      exact ⟨updates', markers, h'⟩
    · next queue hw hqueue =>
      cases hstep
      obtain ⟨markers', h'⟩ := h.get_marker hw hqueue
      exact ⟨[], markers', h'⟩
    · cases hstep
  | process w =>
    simp only [step] at hstep
    split at hstep
    · next update hw =>
      cases hstep
      exact ⟨_, _, h.process hw⟩
    · cases hstep
  | stop =>
    simp only [step] at hstep
    split at hstep
    · next hstop =>
      cases hstep
      have hmarkers := h.markers
      rw [hstop] at hmarkers
      exact ⟨_, _, h.queue, h.account, hmarkers, fun _ => rfl, h.empty, nofun⟩
    · cases hstep
  -- one marker is put for each worker, and no update comes after them
  | stopHandler cancelled =>
    simp only [step] at hstep
    split at hstep
    · next hstop =>
      cases hstep
      have hmarkers := h.markers
      rw [hstop, Stop.markers] at hmarkers
      obtain ⟨rfl, hendings⟩ := Nat.add_eq_zero_iff.mp hmarkers
      have hclosed := h.closed (by rw [hstop]; nofun)
      refine ⟨updates, s.handlerWorkerTasks.length, ?_, h.account, ?_, fun _ =>
        hclosed, h.empty, nofun⟩
      · simp [h.queue]
      · dsimp only
        rw [hendings]
        rfl
    · cases hstep
  -- the workers are joined one after the other, each after it has ended
  | join =>
    simp only [step] at hstep
    split at hstep
    · next index failures hstop =>
      have hmarkers := h.markers
      have hjoined := h.joined
      have hclosed := h.closed (by rw [hstop]; nofun)
      rw [hstop] at hmarkers hjoined
      split at hstep
      · next hended =>
        cases hstep
        refine ⟨updates, markers, h.queue, h.account, hmarkers, fun _ => hclosed, h.empty,
          fun i hi => ?_⟩
        rcases Nat.lt_succ_iff_lt_or_eq.mp hi with hi | rfl
        · exact hjoined i hi
        · exact hended
      · cases hstep
      · next hnone =>
        cases hstep
        have hlength : s.handlerWorkerTasks.length ≤ index := List.getElem?_eq_none_iff.mp hnone
        refine ⟨updates, markers, h.queue, h.account, ?_, fun _ => hclosed, h.empty, fun i hi => ?_⟩
        · cases failures <;> exact hmarkers
        · refine hjoined i (lt_of_lt_of_le ?_ hlength)
          cases failures <;> exact hi
    · cases hstep

/-- No event makes a worker, or forgets one. -/
theorem length_step (hstep : step s e = some s') :
    s'.handlerWorkerTasks.length = s.handlerWorkerTasks.length := by
  cases e <;> simp only [step] at hstep
  case get w => split at hstep <;> cases hstep <;> exact List.length_set
  case process w =>
    split at hstep <;> cases hstep
    exact List.length_set
  case join =>
    split at hstep
    · split at hstep <;> cases hstep <;> rfl
    · cases hstep
  all_goals split at hstep <;> cases hstep <;> rfl

/-- **The account holds after every run.** -/
theorem accounted_run {updates workers : ℕ} {events : List Event}
    (hrun : run step (start updates workers) events = some t) :
    t.handlerWorkerTasks.length = workers ∧ ∃ updates' markers', Accounted t updates' markers' := by
  refine run_of_invariant
    (I := fun t => t.handlerWorkerTasks.length = workers ∧ ∃ updates' markers',
      Accounted t updates' markers') ?_
    ⟨List.length_replicate, _, _, accounted_start updates workers⟩ hrun
  intro s e s' h hstep
  obtain ⟨hlength, updates', markers', h⟩ := h
  exact ⟨(length_step hstep).trans hlength, accounted_step h hstep⟩

/-! ### What `stop` leaves -/

/-- The call of `stop` is over. -/
def Stop.finished : Stop → Bool
  | .returned | .raised => true
  | .notCalled | .stopHandler | .joining .. => false

/-- Every update that was accepted is processed once, and the workers have ended. -/
structure Drained (t : UpdatesQueue) : Prop where
  processed : (t.processed.map Prod.snd).Perm (List.range t.accepted)
  queue : t.queue = []
  ended : ∀ worker ∈ t.handlerWorkerTasks, worker = .ended

theorem total_update_eq_zero {workers : List Worker} (h : ∀ worker ∈ workers, worker = .ended) :
    Pool.total Worker.update workers = 0 :=
  Pool.total_eq_zero _ fun worker hworker => h worker hworker ▸ rfl

theorem total_endings_eq_length {workers : List Worker} (h : ∀ worker ∈ workers, worker = .ended) :
    Pool.total Worker.endings workers = workers.length := by
  rw [List.eq_replicate_length.mpr h]
  simp [Pool.total, Worker.endings]

theorem total_endings_le (workers : List Worker) :
    Pool.total Worker.endings workers ≤ workers.length := by
  induction workers with
  | nil => exact le_rfl
  | cons worker workers ih =>
    rw [Pool.total_cons, List.length_cons, add_comm]
    refine Nat.add_le_add ih ?_
    cases worker <;> simp [Worker.endings]

/-- **When `stop` is over**, all workers have ended, so that no marker and no update is
left. -/
theorem Accounted.drained_of_finished (h : Accounted t updates markers)
    (hworkers : 0 < t.handlerWorkerTasks.length)
    (hfinished : t.stop.finished = true) : Drained t := by
  have hall : t.stop.joined t.handlerWorkerTasks.length = t.handlerWorkerTasks.length ∧
      t.stop.markers t.handlerWorkerTasks.length = t.handlerWorkerTasks.length := by
    cases hstop : t.stop <;> rw [hstop] at hfinished <;> first | exact ⟨rfl, rfl⟩ | cases hfinished
  have hended : ∀ worker ∈ t.handlerWorkerTasks, worker = .ended := by
    intro worker hworker
    obtain ⟨i, hi⟩ := List.getElem?_of_mem hworker
    have hlt : i < t.handlerWorkerTasks.length := (List.getElem?_eq_some_iff.mp hi).1
    exact Option.some.inj (hi.symm.trans (h.joined i (hall.1.symm ▸ hlt)))
  have hendings := total_endings_eq_length hended
  have hmarkers := h.markers
  rw [hendings, hall.2] at hmarkers
  obtain rfl : markers = 0 := by omega
  obtain rfl : updates = [] := h.empty (by rw [hendings]; exact hworkers.ne')
  refine ⟨Multiset.coe_eq_coe.mp ?_, h.queue, hended⟩
  have haccount := h.account
  rw [total_update_eq_zero hended] at haccount
  simpa [Multiset.range] using haccount

theorem Accounted.nodup (h : Accounted t updates markers) : (t.processed.map Prod.snd).Nodup := by
  have hle : ((t.processed.map Prod.snd : List ℕ) : Multiset ℕ) ≤ Multiset.range t.accepted := by
    rw [← h.account, add_assoc]
    exact Multiset.le_add_right _ _
  exact Multiset.coe_nodup.mp (Multiset.nodup_of_le hle (Multiset.nodup_range _))

/-- **`stop` is not stuck**: until it is over, an event is enabled that is no new update. -/
theorem Accounted.progress (h : Accounted t updates markers) (hfinished : t.stop.finished = false) :
    ∃ e, e ≠ .enqueue ∧ (step t e).isSome := by
  cases hstop : t.stop with
  | notCalled => exact ⟨.stop, nofun, by simp [step, hstop]⟩
  | stopHandler => exact ⟨.stopHandler false, nofun, by simp [step, hstop]⟩
  | returned => rw [hstop] at hfinished; cases hfinished
  | raised => rw [hstop] at hfinished; cases hfinished
  | joining index failures =>
    cases hw : t.handlerWorkerTasks[index]? with
    | none => exact ⟨.join, nofun, by simp [step, hstop, hw]⟩
    | some worker =>
      cases worker with
      | ended => exact ⟨.join, nofun, by simp [step, hstop, hw]⟩
      | processing update => exact ⟨.process index, nofun, by simp [step, hw]⟩
      | getting =>
        -- The worker has not ended, so that there is still a marker for it.
        refine ⟨.get index, nofun, ?_⟩
        have hset : Pool.total Worker.endings (t.handlerWorkerTasks.set index .ended) =
            Pool.total Worker.endings t.handlerWorkerTasks + 1 :=
              Pool.total_set Worker.endings hw .ended
        have hle := total_endings_le (t.handlerWorkerTasks.set index .ended)
        have hmarkers : markers + Pool.total Worker.endings t.handlerWorkerTasks =
            t.handlerWorkerTasks.length := by
          rw [h.markers, hstop]
          rfl
        rw [List.length_set] at hle
        obtain ⟨n, rfl⟩ : ∃ n, markers = n + 1 := Nat.exists_eq_add_one.mpr (by omega)
        cases updates <;> simp [step, hw, h.queue, List.replicate_succ]

/-- **Stopping drains the queue.**  After `start` has created its workers, along every run:
no update is processed twice; until `stop` is over something can go on; once it is over,
every update that was accepted has been processed by one worker, and all workers have
ended; and no update is accepted after `stop` was called. -/
theorem drained {updates workers : ℕ} {events : List Event} (hworkers : 0 < workers)
    (hrun : run step (start updates workers) events = some t) :
    (t.processed.map Prod.snd).Nodup ∧
    (if t.stop.finished then Drained t else ∃ e, e ≠ .enqueue ∧ (step t e).isSome) ∧
    AllSteps step (fun s e s' => e = .enqueue → s.stop ≠ .notCalled → s' = s)
      (start updates workers) events := by
  obtain ⟨hlength, updates', markers', h⟩ := accounted_run hrun
  refine ⟨h.nodup, ?_, ?_⟩
  · by_cases hfinished : t.stop.finished = true
    · rw [if_pos hfinished]
      exact h.drained_of_finished (hlength ▸ hworkers) hfinished
    · rw [if_neg hfinished]
      exact h.progress (Bool.eq_false_iff.mpr hfinished)
  · refine allSteps_of_invariant (I := fun s => ∃ updates' markers', Accounted s updates' markers')
      (P := fun _ _ _ => True) ?_ ?_ ⟨_, _, accounted_start updates workers⟩ (allSteps_true _ _)
    · rintro s e s' ⟨updates', markers', h⟩ hstep - rfl hcalled
      simp only [step, h.closed hcalled] at hstep
      exact (Option.some.inj hstep).symm
    · rintro s e s' ⟨updates', markers', h⟩ hstep -
      exact accounted_step h hstep

/-- Two workers share the updates, and a third update comes too late. -/
theorem drained_twoWorkers :
    ∃ t, run step (start 1 2) [.enqueue, .get 1, .get 0, .stop, .process 0, .enqueue,
      .stopHandler false, .process 1,
      .get 1, .get 0, .join, .join, .join] = some t ∧ Drained t ∧ t.accepted = 2 :=
  have hrun : run step (start 1 2) [.enqueue, .get 1, .get 0, .stop, .process 0, .enqueue,
    .stopHandler false,
      .process 1, .get 1, .get 0, .join, .join, .join] =
      some ⟨false, 2, [], [.ended, .ended], [(0, 1), (1, 0)], .returned⟩ := by decide
  ⟨_, hrun, (drained (by decide) hrun).2.1, rfl⟩

end UpdatesQueue

end Pyrogram
