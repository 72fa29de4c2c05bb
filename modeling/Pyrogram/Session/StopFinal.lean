import Pyrogram.Runs
import Pyrogram.Session.Lifecycle

/-!
# A stop is final

Once `stop` returned, the session should be stopped for good and none of its workers
should run.  That is so as long as no `start` goes on past a stop: `_start` looks at
`_must_stay_stopped` and not at what became of the session while it waited, so it may
create a worker that no stop will ever drain.

The proof finds what the fields say about the workers (`Core`), what every call that
waits may rely on (`CallKept`), and shows that a call only does to the session what
leaves both alone (`Keeps`).

## Main definitions

* `StopIsFinal` — what the stops that returned guarantee.
* `Undisturbed` — no start goes on past a stop, or past another start.

## Main results

* `keepsStart_resumeStart`, `keepsRestart_resumeRestart` — what the calls do to the session.
* `drains_resumeStopTask` — what `_stop_resources` does to it.
* `stopIsFinal_of_undisturbed` — **a stop is final in every run in which no start goes
  on past it**.
* `ping_worker_left_behind` — a run in which one does.
-/

namespace Pyrogram.Lifecycle

open Runs

/-! ### What a stop guarantees -/

/-- The session is down. -/
def Down (s : Session) : Prop := s.state = .stopped ∨ s.state = .stopFailed

instance (s : Session) : Decidable (Down s) := inferInstanceAs (Decidable (_ ∨ _))

/-- The session is down, is not taken for started, and no worker it ever created runs. -/
structure Stopped (s : Session) : Prop where
  down : Down s
  notStarted : s.isStarted = false
  pings : ∀ worker : ℕ, s.pings[worker]? ≠ some Worker.running
  recvs : ∀ worker : ℕ, s.recvs[worker]? ≠ some Worker.running

/-- Once a `stop` returned, and every `start` and `restart` that was called before it
did, the session is stopped, and stays so. -/
def StopIsFinal (s : Session) : Prop :=
  ∀ (i before : ℕ), s.calls[i]? = some (.stopReturned before) →
    (∀ j < before, ∀ call, s.calls[j]? = some call → call = .returned ∨
      (∃ wait, call = .stop wait) ∨ ∃ n, call = .stopReturned n) → Stopped s

/-- `_stop_resources` has begun. -/
def StopBegun (s : Session) : Prop := ∃ task, s.stopTask = some task ∧ task.point ≠ .created

/-- The session is still in the `STARTING` that the call set, and no stop has begun. -/
structure Owns (s : Session) (call : ℕ) : Prop where
  starting : s.state = .starting
  owner : s.owner = some call
  unstopped : ¬ StopBegun s

/-- A stop is under way that has not come to the receiver, and there is none. -/
def AwaitsRecv (s : Session) : Prop :=
  s.recvTask = none ∧ ∃ task, s.stopTask = some task ∧
    (task.point = .close ∨ ∃ worker, task.point = .ping worker)

/-- Where the `start` of a call waits. -/
def Call.startPoint : Call → Option StartPoint
  | .start _ point | .restart _ (.start point) => some point
  | _ => none

/-- A `start` that goes on from here creates a worker only while the session is its own,
or a receiver that a stop under way will drain, and goes on to its next endpoint only if
no other start took the session over. -/
def StartPoint.Undisturbed (endpoints : ℕ) (s : Session) (call : ℕ) : StartPoint → Prop
  | .connect _ => s.mustStayStopped = true ∨ Owns s call ∨ AwaitsRecv s
  | .handshake _ => checkReceiver s ≠ none ∨ Owns s call
  | .stop wait (.retry endpoint) => resumeStop s false wait = some .returns →
      endpoint + 1 < endpoints →
      s.mustStayStopped = true ∨ (s.state ≠ .starting ∧ s.state ≠ .started)
  | .stop _ .return | .stop _ .reraise | .close _ | .callback => True

/-- No start goes on past a stop, or past another start. -/
def Undisturbed (endpoints : ℕ) (s : Session) : Event → Prop
  | .resumed i none => ∀ call point, s.calls[i]? = some call → call.startPoint = some point →
      point.Undisturbed endpoints s i
  | _ => True

/-! ### What the fields say -/

/-- What the stop task knows of the workers where it waits. -/
def StopTask.Knows (task : StopTask) (s : Session) : Prop :=
  match task.point with
  | .created => True
  | .ping worker => s.pingTask = some worker
  | .close => s.pingTask = none
  | .recv worker closed => s.pingTask = none ∧ s.recvTask = some worker ∧
      (closed = false → task.failed = true)
  | .pending closed => s.pingTask = none ∧ s.recvTask = none ∧ (closed = false → task.failed = true)

/-- What the fields of the session say about each other and about the workers. -/
structure Core (s : Session) : Prop where
  started : s.isStarted = true → s.state = .started
  begun : StopBegun s → s.state = .stopping ∨ s.state = .starting
  stopping : s.state = .stopping → StopBegun s
  down : Down s → s.stopTask = none ∧ s.pingTask = none ∧ s.recvTask = none
  failed : s.state = .stopFailed → s.stopResults.getLast? = some true
  knows : ∀ task, s.stopTask = some task → task.Knows s
  pings : ∀ worker : ℕ, s.pings[worker]? = some Worker.running → s.pingTask = some worker
  recvs : ∀ worker : ℕ, s.recvs[worker]? = some Worker.running → s.recvTask = some worker

/-- What a `start` may rely on where it waits. -/
def StartPoint.Kept (s : Session) (call : ℕ) : StartPoint → Prop
  | .connect _ => Owns s call → s.pingTask = none ∧ s.recvTask = none
  | .handshake _ => Owns s call → s.pingTask = none
  | .close _ | .callback | .stop _ _ => True

/-- What a `stop` may rely on where it waits: the session is down once its task is
done. -/
def StopWait.Kept (s : Session) : StopWait → Prop
  | .join task | .own task => task < s.stopResults.length → Down s
  | .callback _ => Down s

/-- What a call may rely on where it waits. -/
def CallKept (s : Session) (i : ℕ) : Call → Prop
  | .start _ point | .restart _ (.start point) => point.Kept s i
  | .stop wait => s.mustStayStopped = true ∧ wait.Kept s
  | .stopReturned _ => s.mustStayStopped = true ∧ Down s
  | .restart _ .lock | .restart _ (.stop _) | .restart _ (.stopAgain _) | .returned => True

structure Invariant (s : Session) : Prop where
  core : Core s
  calls : ∀ i call, s.calls[i]? = some call → CallKept s i call

/-- What the steps of a call leave alone. -/
structure Keeps (call : ℕ) (s s' : Session) : Prop where
  core : Core s'
  must : s.mustStayStopped = true → s'.mustStayStopped = true
  results : s'.stopResults = s.stopResults
  down : s.mustStayStopped = true → Down s → Down s'
  others : ∀ other ≠ call, Owns s' other →
    Owns s other ∧ s'.pingTask = s.pingTask ∧ s'.recvTask = s.recvTask
  calls : s'.calls = s.calls

variable {s s' t : Session} {call i : ℕ} {initialOwner : Bool} {endpoints endpoint : ℕ}
  {outcome : Option Fault} {point : StartPoint}

theorem Keeps.refl (hcore : Core s) : Keeps call s s := by
  exact ⟨hcore, id, rfl, fun _ => id, fun _ _ h => ⟨h, rfl, rfl⟩, rfl⟩

theorem Keeps.trans (h : Keeps call s s') (h' : Keeps call s' t) : Keeps call s t := by
  refine ⟨h'.core, fun hmust => h'.must (h.must hmust), h'.results.trans h.results, ?_, ?_,
    h'.calls.trans h.calls⟩
  · intro hmust hdown
    exact h'.down (h.must hmust) (h.down hmust hdown)
  · intro other hne howns
    obtain ⟨howns', hping', hrecv'⟩ := h'.others other hne howns
    obtain ⟨howns'', hping, hrecv⟩ := h.others other hne howns'
    exact ⟨howns'', hping'.trans hping, hrecv'.trans hrecv⟩

/-! ### What a call does to the session -/

/-- A change that the fields of interest do not see. -/
theorem Keeps.of_eq (hcore : Core s) (hstate : s'.state = s.state)
    (hmust : s.mustStayStopped = true → s'.mustStayStopped = true)
    (hstarted : s'.isStarted = true → s.isStarted = true) (htask : s'.stopTask = s.stopTask)
    (hresults : s'.stopResults = s.stopResults) (hping : s'.pingTask = s.pingTask)
    (hrecv : s'.recvTask = s.recvTask)
    (hpings : ∀ worker : ℕ, s'.pings[worker]? = some .running → s.pings[worker]? = some .running)
    (hrecvs : ∀ worker : ℕ, s'.recvs[worker]? = some .running → s.recvs[worker]? = some .running)
    (howner : s'.owner = s.owner) (hcalls : s'.calls = s.calls) : Keeps call s s' := by
  -- what the invariant says is about fields that have not changed
  have hbegun : StopBegun s' ↔ StopBegun s := by
    unfold StopBegun
    rw [htask]
  have hdown : Down s' ↔ Down s := by
    unfold Down
    rw [hstate]
  refine ⟨⟨?_, ?_, ?_, ?_, ?_, ?_, ?_, ?_⟩, hmust, hresults, fun _ => hdown.mpr, ?_, hcalls⟩
  · intro h
    exact hstate.trans (hcore.started (hstarted h))
  · intro h
    rw [hstate]
    exact hcore.begun (hbegun.mp h)
  · intro h
    exact hbegun.mpr (hcore.stopping (hstate.symm.trans h))
  · intro h
    rw [htask, hping, hrecv]
    exact hcore.down (hdown.mp h)
  · intro h
    rw [hresults]
    exact hcore.failed (hstate.symm.trans h)
  · intro task h
    have hknows := hcore.knows task (htask.symm.trans h)
    unfold StopTask.Knows at hknows ⊢
    rw [hping, hrecv]
    exact hknows
  · intro worker h
    exact hping.trans (hcore.pings worker (hpings worker h))
  · intro worker h
    exact hrecv.trans (hcore.recvs worker (hrecvs worker h))
  -- a start that owns the session has its workers as before
  · rintro other - ⟨hstarting, hother, hunstopped⟩
    exact ⟨⟨hstate.symm.trans hstarting, howner.symm.trans hother, fun h =>
      hunstopped (hbegun.mpr h)⟩,
      hping, hrecv⟩

theorem keeps_scheduleRestart (hcore : Core s) : Keeps call s (scheduleRestart s) := by
  unfold scheduleRestart
  split
  · exact .refl hcore
  · exact .of_eq hcore rfl id (by simp) rfl rfl rfl rfl (fun _ => id) (fun _ => id) rfl rfl

theorem keeps_mustStayStopped (hcore : Core s) (must : Bool) :
    Keeps call s { s with mustStayStopped := s.mustStayStopped || must } := by
  exact .of_eq hcore rfl (fun h => by simp [h]) id rfl rfl rfl rfl (fun _ => id)
    (fun _ => id) rfl rfl

theorem keeps_lock (hcore : Core s) (restartLocked : Bool) :
    Keeps call s { s with restartLocked } := by
  exact .of_eq hcore rfl id id rfl rfl rfl rfl (fun _ => id) (fun _ => id) rfl rfl

/-- `_stop` only creates its task, and not for a session that is down. -/
theorem keeps_callStop (hcore : Core s) : Keeps call s (callStop s).1 := by
  unfold callStop
  cases htask : s.stopTask with
  | some task => exact .refl hcore
  | none =>
    dsimp only
    split
    · exact .refl hcore
    · rename_i hfailed
      split
      · exact .refl hcore
      · rename_i hstopped
        -- the task is created in a session that is up
        have hup : ¬ Down s := by
          rintro (h | h)
          · exact hstopped h
          · exact hfailed ⟨h, hcore.failed h⟩
        have hunstopped : ¬ StopBegun s := by
          rintro ⟨task, h, -⟩
          rw [htask] at h
          cases h
        have hunstopped' : ¬ StopBegun { s with stopTask := some { point := .created } } := by
          rintro ⟨task, h, hpoint⟩
          cases h
          exact hpoint rfl
        refine ⟨⟨hcore.started, fun h => absurd h hunstopped', ?_, fun h => absurd h hup,
          hcore.failed, ?_,
          hcore.pings, hcore.recvs⟩, id, rfl, fun _ h => absurd h hup, ?_, rfl⟩
        · intro h
          exact absurd (hcore.stopping h) hunstopped
        · intro task h
          cases h
          trivial
        · rintro other - ⟨hstarting, howner, -⟩
          exact ⟨⟨hstarting, howner, hunstopped⟩, rfl, rfl⟩

/-- `_stop` returns at once only from a session that is down. -/
theorem callStop_of_done (h : ∀ wait, (callStop s).2 ≠ .waits wait) :
    (callStop s).1 = s ∧ Down s ∧ ((callStop s).2 = .returns → s.state = .stopped) := by
  unfold callStop at h ⊢
  cases htask : s.stopTask with
  | some task =>
    rw [htask] at h
    exact absurd rfl (h _)
  | none =>
    rw [htask] at h
    dsimp only at h ⊢
    split
    · rename_i hfailed
      exact ⟨rfl, Or.inr hfailed.1, fun h => by cases h⟩
    · rename_i hfailed
      rw [if_neg hfailed] at h
      split
      · rename_i hstopped
        exact ⟨rfl, Or.inl hstopped, fun _ => hstopped⟩
      · rename_i hstopped
        rw [if_neg hstopped] at h
        exact absurd rfl (h _)

/-- What a `start` does to the session, and what it may rely on where it waits next. -/
structure KeepsStart (call : ℕ) (s : Session) (next : Session × Progress StartPoint) : Prop where
  keeps : Keeps call s next.1
  kept : ∀ point, next.2 = .waits point → point.Kept next.1 call

theorem KeepsStart.trans {next : Session × Progress StartPoint} (h : Keeps call s s')
    (h' : KeepsStart call s' next) : KeepsStart call s next :=
  ⟨h.trans h'.keeps, h'.kept⟩

theorem keepsStart_fail (hcore : Core s) : KeepsStart call s (fail initialOwner s) := by
  have hmust : Keeps call s { s with mustStayStopped := s.mustStayStopped || initialOwner } :=
    keeps_mustStayStopped hcore initialOwner
  have hstop : Keeps call s
      (callStop { s with mustStayStopped := s.mustStayStopped || initialOwner }).1 :=
    hmust.trans (keeps_callStop hmust.core)
  refine ⟨hstop, ?_⟩
  intro point hpoint
  unfold fail reraise at hpoint
  dsimp only at hpoint
  split at hpoint
  · cases hpoint
    trivial
  all_goals cases hpoint

/-- A start enters an endpoint while no other start has the session. -/
theorem keepsStart_enter (hcore : Core s)
    (hfree : s.mustStayStopped = true ∨ (s.state ≠ .starting ∧ s.state ≠ .started)) :
    KeepsStart call s (enter call s endpoint) := by
  unfold enter
  split
  · exact ⟨.refl hcore, fun point hpoint => by cases hpoint⟩
  rename_i hmust
  obtain ⟨hstarting, hstarted⟩ := hfree.resolve_left hmust
  refine ⟨⟨⟨?_, fun _ => Or.inr rfl, ?_, ?_, ?_, hcore.knows, hcore.pings, hcore.recvs⟩, id, rfl,
    ?_, ?_, rfl⟩, ?_⟩
  · intro h
    exact absurd (hcore.started h) hstarted
  · intro h
    cases h
  · rintro (h | h) <;> cases h
  · intro h
    cases h
  · intro h
    exact absurd h hmust
  · rintro other hne ⟨-, howner, -⟩
    exact absurd (Option.some.inj howner).symm hne
  · intro point hpoint
    cases hpoint
    intro howns
    -- a session that is neither up nor being stopped is down
    have hunstopped : ¬ StopBegun s := howns.unstopped
    have hdown : Down s := by
      cases hstate : s.state with
      | starting => exact absurd hstate hstarting
      | started => exact absurd hstate hstarted
      | stopping => exact absurd (hcore.stopping hstate) hunstopped
      | stopped => exact Or.inl hstate
      | stopFailed => exact Or.inr hstate
    exact (hcore.down hdown).2

theorem keepsStart_beginStart (hcore : Core s) : KeepsStart call s (beginStart call s) := by
  unfold beginStart
  split
  · exact ⟨.refl hcore, fun point hpoint => by cases hpoint⟩
  rename_i hup
  split
  · exact ⟨.refl hcore, fun point hpoint => by cases hpoint⟩
  · exact keepsStart_enter hcore (Or.inr ⟨fun h => hup (Or.inr h), fun h => hup (Or.inl h)⟩)

theorem keepsStart_afterStop {after : After} {progress : Progress StopWait} (hcore : Core s)
    (hfree : ∀ endpoint, after = .retry endpoint → progress = .returns → endpoint + 1 < endpoints →
      s.mustStayStopped = true ∨ (s.state ≠ .starting ∧ s.state ≠ .started)) :
    KeepsStart call s (afterStop endpoints call initialOwner after s progress) := by
  have hnothing : ∀ progress' : Progress StartPoint, (∀ point, progress' ≠ .waits point) →
      KeepsStart call s (s, progress') := by
    intro progress' h
    exact ⟨.refl hcore, fun point hpoint => absurd hpoint (h point)⟩
  cases progress with
  | waits wait => exact ⟨.refl hcore, fun point hpoint => by cases hpoint; trivial⟩
  | raises =>
    cases after with
    | reraise => exact hnothing _ (by simp)
    | retry endpoint => exact keepsStart_fail hcore
    | «return» => exact keepsStart_fail hcore
  | returns =>
    cases after with
    | reraise => exact hnothing _ (by simp)
    | «return» => exact hnothing _ (by simp)
    | retry endpoint =>
      rw [afterStop]
      split
      · exact hnothing _ (by simp)
      split
      · rename_i hnext
        exact keepsStart_enter hcore (hfree endpoint rfl rfl hnext)
      · exact keepsStart_fail hcore

theorem keepsStart_stopThen (after : After) (hcore : Core s) :
    KeepsStart call s (stopThen endpoints call initialOwner after s) := by
  have hstop : Keeps call s (callStop s).1 := keeps_callStop hcore
  refine .trans hstop (keepsStart_afterStop hstop.core ?_)
  -- if it stops at once, the session is down
  intro endpoint _ hreturns _
  have hdone : ∀ wait, (callStop s).2 ≠ .waits wait := by
    intro wait h
    rw [hreturns] at h
    cases h
  obtain ⟨hsame, -, hstopped⟩ := callStop_of_done hdone
  rw [hsame, hstopped hreturns]
  exact Or.inr ⟨by simp, by simp⟩

theorem keepsStart_handle (fault : Fault) (hcore : Core s) :
    KeepsStart call s (handle endpoints call initialOwner endpoint s fault) := by
  cases fault with
  | retried => exact keepsStart_stopThen _ hcore
  | raised => exact keepsStart_fail hcore

/-- A list with a new worker at its end. -/
theorem running_append {workers : List Worker} {worker : ℕ}
    (h : (workers ++ [.running])[worker]? = some Worker.running) :
    workers[worker]? = some .running ∨ worker = workers.length := by
  rcases Nat.lt_trichotomy worker workers.length with hlt | heq | hgt
  · rw [List.getElem?_append_left hlt] at h
    exact Or.inl h
  · exact Or.inr heq
  · have hlength : (workers ++ [Worker.running]).length ≤ worker := by
      rw [List.length_append, List.length_singleton]
      exact hgt
    rw [List.getElem?_eq_none hlength] at h
    cases h

/-- A worker is created where none runs, and is known from then on. -/
theorem knows_created {workers : List Worker} {known : Option ℕ} (hnone : known = none)
    (hknown : ∀ worker : ℕ, workers[worker]? = some Worker.running → known = some worker)
    {worker : ℕ}
    (h : (workers ++ [.running])[worker]? = some Worker.running) :
    some workers.length = some worker := by
  rcases running_append h with h | rfl
  · have hrunning := hknown worker h
    rw [hnone] at hrunning
    cases hrunning
  · rfl

/-- A worker that still runs when another ended. -/
theorem running_of_set {workers : List Worker} {worker ended : ℕ} {fault : Option Fault}
    (h : (workers.set ended (.ended fault))[worker]? = some Worker.running) :
    workers[worker]? = some .running := by
  rw [List.getElem?_set] at h
  split at h
  · split at h <;> cases h
  · exact h

theorem not_running_of_set {workers : List Worker} {ended : ℕ} {fault : Option Fault} :
    (workers.set ended (.ended fault))[ended]? ≠ some Worker.running := by
  intro h
  rw [List.getElem?_set_self'] at h
  cases hworker : workers[ended]? <;> rw [hworker] at h <;> cases h

/-- While a start has the session to itself, the stop task knows nothing of workers. -/
theorem Owns.knows (howns : Owns s call) {task : StopTask} (htask : s.stopTask = some task)
    (s' : Session) :
    task.Knows s' := by
  have hpoint : task.point = .created := by
    by_contra hpoint
    exact howns.unstopped ⟨task, htask, hpoint⟩
  unfold StopTask.Knows
  rw [hpoint]
  trivial

theorem Owns.not_down (howns : Owns s call) : ¬ Down s := by
  rintro (h | h) <;> rw [howns.starting] at h <;> cases h

theorem keeps_createRecv (hcore : Core s) (howns : Owns s call) (hrecv : s.recvTask = none) :
    Keeps call s (createRecv s) := by
  refine ⟨⟨hcore.started, hcore.begun, hcore.stopping, fun h => absurd h howns.not_down,
    hcore.failed, fun task htask => howns.knows htask _, hcore.pings, ?_⟩, id, rfl,
    fun _ h => absurd h howns.not_down, ?_, rfl⟩
  · exact fun worker => knows_created hrecv hcore.recvs
  · rintro other hne ⟨-, howner, -⟩
    exact absurd (Option.some.inj (howner.symm.trans howns.owner)) hne

/-- A receiver that is created while a stop is under way. -/
theorem keeps_createRecv_of_awaitsRecv (hcore : Core s) (hawaits : AwaitsRecv s) :
    Keeps call s (createRecv s) ∧ ∀ other, ¬ Owns (createRecv s) other := by
  obtain ⟨hrecv, task, htask, hpoint⟩ := hawaits
  have hbegun : StopBegun s := by
    refine ⟨task, htask, ?_⟩
    rcases hpoint with h | ⟨worker, h⟩ <;> rw [h] <;> simp
  have hup : ¬ Down s := by
    intro hdown
    rw [(hcore.down hdown).1] at htask
    cases htask
  refine ⟨⟨⟨hcore.started, hcore.begun, hcore.stopping, fun h => absurd h hup, hcore.failed, ?_,
    hcore.pings, ?_⟩, id, rfl, fun _ h => absurd h hup, ?_, rfl⟩, fun other howns =>
      howns.unstopped hbegun⟩
  · intro task' htask'
    -- where the stop waits it knows nothing of the receiver yet
    obtain rfl : task = task' := Option.some.inj (htask.symm.trans htask')
    have hknows := hcore.knows task htask
    unfold StopTask.Knows at hknows ⊢
    rcases hpoint with h | ⟨worker, h⟩ <;> rw [h] at hknows ⊢ <;> exact hknows
  · exact fun worker => knows_created hrecv hcore.recvs
  · intro other _ howns
    exact absurd hbegun howns.unstopped

theorem keeps_createPing (hcore : Core s) (howns : Owns s call) (hping : s.pingTask = none) :
    Keeps call s (createPing s) := by
  refine ⟨⟨hcore.started, hcore.begun, hcore.stopping, fun h => absurd h howns.not_down,
    hcore.failed, fun task htask => howns.knows htask _, ?_, hcore.recvs⟩, id, rfl,
    fun _ h => absurd h howns.not_down, ?_, rfl⟩
  · exact fun worker => knows_created hping hcore.pings
  · rintro other hne ⟨-, howner, -⟩
    exact absurd (Option.some.inj (howner.symm.trans howns.owner)) hne

theorem keeps_started (hcore : Core s) (howns : Owns s call) (isStarted : Bool) :
    Keeps call s { s with state := .started, isStarted } := by
  refine ⟨⟨fun _ => rfl, fun h => absurd h howns.unstopped, ?_, ?_, ?_, hcore.knows, hcore.pings,
    hcore.recvs⟩, id, rfl, fun _ h => absurd h howns.not_down, ?_, rfl⟩
  · intro h
    cases h
  · rintro (h | h) <;> cases h
  · intro h
    cases h
  · rintro other - ⟨hstarting, -, -⟩
    cases hstarting

theorem keepsStart_publish (hcore : Core s) (howns : Owns s call) :
    KeepsStart call s (publish endpoints call initialOwner s) := by
  unfold publish
  split
  · exact keepsStart_stopThen _ hcore
  have hstarted : Keeps call s { s with state := .started } := keeps_started hcore howns s.isStarted
  dsimp only
  split
  · exact .trans hstarted (keepsStart_fail hstarted.core)
  · refine ⟨keeps_started hcore howns true, ?_⟩
    intro point hpoint
    cases hpoint
    trivial

/-- A `start` that has connected creates its receiver. -/
theorem keepsStart_connected {endpoint : ℕ} (hcore : Core s)
    (hkept : (StartPoint.connect endpoint).Kept s call)
    (hundisturbed : Owns s call ∨ AwaitsRecv s) :
    KeepsStart call s (createRecv s, .waits (.handshake endpoint)) := by
  rcases hundisturbed with howns | hawaits
  · obtain ⟨hping, hrecv⟩ := hkept howns
    refine ⟨keeps_createRecv hcore howns hrecv, ?_⟩
    intro point hpoint
    cases hpoint
    exact fun _ => hping
  · obtain ⟨hkeeps, hunowned⟩ := keeps_createRecv_of_awaitsRecv hcore hawaits
    refine ⟨hkeeps, ?_⟩
    intro point hpoint
    cases hpoint
    exact fun howns => absurd howns (hunowned call)

/-- A `start` that is through with the first requests creates its ping and publishes
the session. -/
theorem keepsStart_handshaken (hcore : Core s) (howns : Owns s call) (hping : s.pingTask = none) :
    KeepsStart call s (publish endpoints call initialOwner (createPing s)) := by
  have hkeeps : Keeps call s (createPing s) := keeps_createPing hcore howns hping
  have howns' : Owns (createPing s) call := ⟨howns.starting, howns.owner, howns.unstopped⟩
  exact .trans hkeeps (keepsStart_publish hkeeps.core howns')

/-- **What `start` does to the session** between two of its `await`s, if it goes on
only with a session that is its own. -/
theorem keepsStart_resumeStart (hcore : Core s) (hkept : point.Kept s call)
    (hundisturbed : outcome = none → point.Undisturbed endpoints s call)
    {next : Session × Progress StartPoint}
    (h : resumeStart endpoints call initialOwner s outcome point = some next) :
    KeepsStart call s next := by
  cases point with
  | connect endpoint =>
    cases outcome with
    | some fault =>
      cases h
      exact keepsStart_handle fault hcore
    | none =>
      simp only [resumeStart] at h
      split at h
      · cases h
        exact ⟨.refl hcore, fun point hpoint => by cases hpoint; trivial⟩
      · rename_i hmust
        cases h
        exact keepsStart_connected hcore hkept ((hundisturbed rfl).resolve_left hmust)
  | close endpoint =>
    cases outcome with
    | some fault =>
      cases h
      exact keepsStart_handle fault hcore
    | none =>
      cases h
      exact ⟨.refl hcore, fun point hpoint => by cases hpoint⟩
  | handshake endpoint =>
    cases outcome with
    | some fault =>
      cases h
      exact keepsStart_handle fault hcore
    | none =>
      simp only [resumeStart] at h
      cases hcheck : checkReceiver s with
      | some fault =>
        rw [hcheck] at h
        cases h
        exact keepsStart_handle fault hcore
      | none =>
        rw [hcheck] at h
        cases h
        have howns : Owns s call := (hundisturbed rfl).resolve_left (not_not_intro hcheck)
        exact keepsStart_handshaken hcore howns (hkept howns)
  | callback =>
    cases outcome with
    | some fault =>
      cases h
      exact keepsStart_fail hcore
    | none =>
      simp only [resumeStart] at h
      split at h
      · cases h
        exact keepsStart_stopThen _ hcore
      · cases hcheck : checkReceiver s with
        | some fault =>
          rw [hcheck] at h
          cases h
          exact keepsStart_fail hcore
        | none =>
          rw [hcheck] at h
          cases h
          exact ⟨.refl hcore, fun point hpoint => by cases hpoint⟩
  | stop wait after =>
    obtain ⟨progress, hstop, rfl⟩ := Option.map_eq_some_iff.mp h
    refine keepsStart_afterStop hcore ?_
    rintro endpoint rfl rfl hnext
    cases outcome with
    | none => exact hundisturbed rfl hstop hnext
    | some fault =>
      -- a cancelled stop does not return
      cases wait <;> simp [resumeStop] at hstop

/-- What a `restart` does to the session, and what it may rely on where it waits
next. -/
structure KeepsRestart (call : ℕ) (s : Session) (next : Session × Progress RestartPoint) :
    Prop where
  keeps : Keeps call s next.1
  kept : ∀ point, next.2 = .waits (.start point) → point.Kept next.1 call

theorem KeepsRestart.trans {next : Session × Progress RestartPoint} (h : Keeps call s s')
    (h' : KeepsRestart call s' next) : KeepsRestart call s next :=
  ⟨h.trans h'.keeps, h'.kept⟩

theorem keepsRestart_afterSecondStop (hcore : Core s) (progress : Progress StopWait) :
    KeepsRestart call s (afterSecondStop s progress) := by
  cases progress with
  | waits wait => exact ⟨.refl hcore, fun point hpoint => by cases hpoint⟩
  | returns => exact ⟨keeps_lock hcore false, fun point hpoint => by cases hpoint⟩
  | raises => exact ⟨keeps_lock hcore false, fun point hpoint => by cases hpoint⟩

theorem keepsRestart_afterStart {next : Session × Progress StartPoint}
    (h : KeepsStart call s next) :
    KeepsRestart call s (afterStart next.1 next.2) := by
  obtain ⟨s', progress⟩ := next
  have hcore : Core s' := h.keeps.core
  cases progress with
  | waits point =>
    refine ⟨h.keeps, ?_⟩
    intro point' hpoint
    cases hpoint
    exact h.kept point rfl
  | raises => exact .trans h.keeps ⟨keeps_lock hcore false, fun point hpoint => by cases hpoint⟩
  | returns =>
    refine .trans h.keeps ?_
    rw [afterStart]
    split
    · have hstop : Keeps call s' (callStop s').1 := keeps_callStop hcore
      exact .trans hstop (keepsRestart_afterSecondStop hstop.core _)
    · exact ⟨keeps_lock hcore false, fun point hpoint => by cases hpoint⟩

theorem keepsRestart_afterFirstStop (hcore : Core s) (progress : Progress StopWait) :
    KeepsRestart call s (afterFirstStop call s progress) := by
  cases progress with
  | waits wait => exact ⟨.refl hcore, fun point hpoint => by cases hpoint⟩
  | raises => exact ⟨keeps_lock hcore false, fun point hpoint => by cases hpoint⟩
  | returns =>
    rw [afterFirstStop]
    split
    · exact ⟨keeps_lock hcore false, fun point hpoint => by cases hpoint⟩
    · exact keepsRestart_afterStart (keepsStart_beginStart hcore)

theorem keepsRestart_callRestart (hcore : Core s) : KeepsRestart call s (callRestart call s) := by
  unfold callRestart
  split
  · exact ⟨.refl hcore, fun point hpoint => by cases hpoint⟩
  · have hlock : Keeps call s { s with restartLocked := true } := keeps_lock hcore true
    have hstop : Keeps call s (callStop { s with restartLocked := true }).1 :=
      hlock.trans (keeps_callStop hlock.core)
    exact .trans hstop (keepsRestart_afterFirstStop hstop.core _)

/-- **What `restart` does to the session** between two of its `await`s. -/
theorem keepsRestart_resumeRestart (hcore : Core s) {point : RestartPoint}
    (hkept : ∀ inner, point = .start inner → inner.Kept s call)
    (hundisturbed : outcome = none → ∀ inner, point = .start inner →
      inner.Undisturbed endpoints s call)
    {next : Session × Progress RestartPoint}
    (h : resumeRestart endpoints call s outcome point = some next) : KeepsRestart call s next := by
  cases point with
  | lock =>
    cases outcome with
    | some fault =>
      cases h
      exact ⟨.refl hcore, fun point hpoint => by cases hpoint⟩
    | none =>
      simp only [resumeRestart] at h
      split at h
      · cases h
      · cases h
        exact keepsRestart_callRestart hcore
  | stop wait =>
    obtain ⟨progress, -, rfl⟩ := Option.map_eq_some_iff.mp h
    exact keepsRestart_afterFirstStop hcore progress
  | stopAgain wait =>
    obtain ⟨progress, -, rfl⟩ := Option.map_eq_some_iff.mp h
    exact keepsRestart_afterSecondStop hcore progress
  | start inner =>
    obtain ⟨next', hstart, rfl⟩ := Option.map_eq_some_iff.mp h
    exact keepsRestart_afterStart (keepsStart_resumeStart hcore (hkept inner rfl)
      (fun hnone => hundisturbed hnone inner rfl) hstart)

/-! ### What the tasks do to the session -/

/-- The ends of the workers change nothing but what a restart asks for. -/
theorem keeps_endPing (hcore : Core s) (worker : ℕ) (restart : Bool) :
    Keeps call s (endPing s worker restart) := by
  have hended : Keeps call s { s with pings := s.pings.set worker (.ended none) } := by
    refine .of_eq hcore rfl id id rfl rfl rfl rfl (fun w h => ?_) (fun _ => id) rfl rfl
    exact running_of_set h
  unfold endPing
  dsimp only
  split
  · exact hended.trans (keeps_scheduleRestart hended.core)
  · exact hended

theorem keeps_endRecv (hcore : Core s) (worker : ℕ) (fault : Option Fault) :
    Keeps call s (endRecv s worker fault) := by
  have hended : Keeps call s { s with recvs := s.recvs.set worker (.ended fault) } := by
    refine .of_eq hcore rfl id id rfl rfl rfl rfl (fun _ => id) (fun w h => ?_) rfl rfl
    exact running_of_set h
  unfold endRecv
  dsimp only
  split
  · have hcleared : Keeps call s
        { s with recvs := s.recvs.set worker (.ended fault), isStarted := false } := by
      refine hended.trans (.of_eq hended.core rfl id (by simp) rfl rfl rfl rfl (fun _ => id)
        (fun _ => id) rfl rfl)
    split
    · exact hcleared.trans (keeps_scheduleRestart hcleared.core)
    · exact hcleared
  · exact hended

/-- The end of a receiver leaves the tasks to who waits for them. -/
theorem endRecv_same (s : Session) (worker : ℕ) (fault : Option Fault) :
    (endRecv s worker fault).stopTask = s.stopTask ∧
      (endRecv s worker fault).pingTask = s.pingTask ∧
      (endRecv s worker fault).recvTask = s.recvTask ∧
      (endRecv s worker fault).recvs = s.recvs.set worker (.ended fault) := by
  unfold endRecv scheduleRestart
  dsimp only
  split
  · split
    · split <;> exact ⟨rfl, rfl, rfl, rfl⟩
    · exact ⟨rfl, rfl, rfl, rfl⟩
  · exact ⟨rfl, rfl, rfl, rfl⟩

/-- What one step of `_stop_resources` does to the session. -/
structure Drains (s s' : Session) : Prop where
  core : Core s'
  unowned : ∀ call, ¬ Owns s' call
  must : s.mustStayStopped = true → s'.mustStayStopped = true
  results : s'.stopResults = s.stopResults ∨ Down s'
  calls : s'.calls = s.calls

/-- The session while a stop drains it. -/
structure Draining (s : Session) : Prop where
  state : s.state = .stopping ∨ s.state = .starting
  notStarted : s.isStarted = false
  pings : ∀ worker : ℕ, s.pings[worker]? = some .running → s.pingTask = some worker
  recvs : ∀ worker : ℕ, s.recvs[worker]? = some .running → s.recvTask = some worker

theorem Core.draining (hcore : Core s) (hbegun : StopBegun s) : Draining s := by
  have hstate := hcore.begun hbegun
  refine ⟨hstate, ?_, hcore.pings, hcore.recvs⟩
  cases hstarted : s.isStarted with
  | false => rfl
  | true =>
    rcases hstate with h | h <;> rw [hcore.started hstarted] at h <;> cases h

/-- The stop task goes on to a point where it knows what it must. -/
theorem Draining.waits (h : Draining s) (task : StopTask) (hpoint : task.point ≠ .created)
    (hknows : task.Knows s) : Drains s { s with stopTask := some task } := by
  have hbegun : StopBegun { s with stopTask := some task } := ⟨task, rfl, hpoint⟩
  have hup : ¬ Down s := by
    rintro (hdown | hdown) <;> rcases h.state with h | h <;> rw [hdown] at h <;> cases h
  refine ⟨⟨?_, fun _ => h.state, fun _ => hbegun, fun hdown => absurd hdown hup, ?_, ?_, h.pings,
    h.recvs⟩,
    fun call howns => howns.unstopped hbegun, id, Or.inl rfl, rfl⟩
  · intro hstarted
    have hstarted : s.isStarted = true := hstarted
    rw [h.notStarted] at hstarted
    cases hstarted
  · intro hfailed
    exact absurd (Or.inr hfailed) hup
  · intro task' htask
    cases htask
    exact hknows

/-- What else a step does before it comes to a point where it waits. -/
theorem Drains.of_prepared (h : Drains s' t) (hresults : s'.stopResults = s.stopResults)
    (hcalls : s'.calls = s.calls) (hmust : s.mustStayStopped = true → s'.mustStayStopped = true) :
    Drains s t :=
  ⟨h.core, h.unowned, fun hstays => h.must (hmust hstays), h.results.imp_left (·.trans hresults),
    h.calls.trans hcalls⟩

theorem drains_drainRecv (h : Draining s) (hping : s.pingTask = none) (failed closed : Bool) :
    Drains s (drainRecv s failed closed) := by
  have hmust : Draining { s with mustStayStopped := s.mustStayStopped || !closed } :=
    ⟨h.state, h.notStarted, h.pings, h.recvs⟩
  have hstays : s.mustStayStopped = true → (s.mustStayStopped || !closed) = true := by
    intro h
    rw [h, Bool.true_or]
  have hfailed : closed = false → (failed || !closed) = true := by
    intro h
    rw [h, Bool.not_false, Bool.or_true]
  unfold drainRecv
  dsimp only
  split
  · rename_i worker hrecv
    exact (hmust.waits ⟨.recv worker closed, failed || !closed⟩ (by simp)
      ⟨hping, hrecv, hfailed⟩).of_prepared rfl rfl hstays
  · rename_i hrecv
    exact (hmust.waits ⟨.pending closed, failed || !closed⟩ (by simp)
      ⟨hping, hrecv, hfailed⟩).of_prepared rfl rfl hstays

theorem drains_closeConnection (h : Draining s) (hping : s.pingTask = none) (failed : Bool) :
    Drains s (closeConnection s failed) := by
  unfold closeConnection
  split
  · exact h.waits ⟨.close, failed⟩ (by simp) hping
  · exact drains_drainRecv h hping failed true

/-- The end of the stop task: the session is down. -/
theorem drains_pending (hcore : Core s) {closed failed faulty : Bool}
    (htask : s.stopTask = some ⟨.pending closed, failed⟩) :
    Drains s { s with
      state := if closed then .stopped else .stopFailed
      stopTask := none
      stopResults := s.stopResults ++ [failed || faulty] } := by
  -- a task that has come this far has waited for both workers
  obtain ⟨hping, hrecv, hfailed⟩ := hcore.knows _ htask
  have hdraining : Draining s := hcore.draining ⟨_, htask, by simp⟩
  -- no stop has begun where there is no task
  have hunstopped : ∀ s : Session, s.stopTask = none → ¬ StopBegun s := by
    rintro s hnone ⟨task, htask, -⟩
    rw [hnone] at htask
    cases htask
  have hstate : (if closed then SessionState.stopped else .stopFailed) = .stopped ∨
      (if closed then SessionState.stopped else .stopFailed) = .stopFailed := by
    cases closed
    · exact Or.inr rfl
    · exact Or.inl rfl
  refine ⟨⟨?_, ?_, ?_, fun _ => ⟨rfl, hping, hrecv⟩, ?_, ?_, hcore.pings, hcore.recvs⟩, ?_, id,
    Or.inr hstate, rfl⟩
  · intro hstarted
    have hstarted : s.isStarted = true := hstarted
    rw [hdraining.notStarted] at hstarted
    cases hstarted
  · intro h
    exact absurd h (hunstopped _ rfl)
  · intro h
    cases closed <;> cases h
  · intro h
    cases closed with
    | true => cases h
    | false =>
      have hfailed : failed = true := hfailed rfl
      rw [hfailed]
      exact List.getLast?_concat
  · intro task h
    cases h
  -- nobody is starting any more
  · intro call howns
    rcases hstate with h | h
    · exact absurd (howns.starting.symm.trans h) (by simp)
    · exact absurd (howns.starting.symm.trans h) (by simp)

/-- **What `_stop_resources` does to the session** between two of its `await`s. -/
theorem drains_resumeStopTask (hcore : Core s) {faulty : Bool}
    (h : resumeStopTask s faulty = some s') :
    Drains s s' := by
  unfold resumeStopTask at h
  split at h
  · cases h
  · rename_i failed htask
    -- the task begins
    have hdraining : Draining { s with state := .stopping, isStarted := false } :=
      ⟨Or.inl rfl, rfl, hcore.pings, hcore.recvs⟩
    dsimp only at h
    split at h
    · rename_i worker hping
      cases h
      exact (hdraining.waits ⟨.ping worker, failed⟩ (by simp) hping).of_prepared rfl rfl id
    · rename_i hping
      cases h
      exact (drains_closeConnection hdraining hping failed).of_prepared rfl rfl id
  · rename_i worker failed htask
    split at h
    · cases h
    · rename_i hended
      cases h
      have hping : s.pingTask = some worker := hcore.knows _ htask
      obtain ⟨hstate, hstarted, hpings, hrecvs⟩ := hcore.draining ⟨_, htask, by simp⟩
      have hdraining : Draining { s with pingTask := none } := by
        refine ⟨hstate, hstarted, ?_, hrecvs⟩
        intro w hw
        -- the only one that might run is the worker that ended
        have heq : some worker = some w := hping.symm.trans (hpings w hw)
        cases heq
        exact absurd hw hended
      exact (drains_closeConnection hdraining rfl _).of_prepared rfl rfl id
  · rename_i failed htask
    cases h
    exact drains_drainRecv (hcore.draining ⟨_, htask, by simp⟩) (hcore.knows _ htask) _ _
  · rename_i worker closed failed htask
    obtain ⟨hping, hrecv, hfailed⟩ := hcore.knows _ htask
    split at h
    · split at h
      swap
      · cases h
      cases h
      -- the wait timed out, and cancelled the receiver
      have hended : Keeps 0 s (endRecv s worker none) := keeps_endRecv hcore worker none
      obtain ⟨htask', hping', hrecv', hrecvs'⟩ := endRecv_same s worker none
      obtain ⟨hstate, hstarted, hpings, hrecvs⟩ :=
        hended.core.draining ⟨_, htask'.trans htask, by simp⟩
      have hdraining : Draining { endRecv s worker none with recvTask := none } := by
        refine ⟨hstate, hstarted, hpings, ?_⟩
        intro w hw
        have hw : (endRecv s worker none).recvs[w]? = some .running := hw
        have heq : some worker = some w := (hrecv.symm.trans hrecv'.symm).trans (hrecvs w hw)
        cases heq
        rw [hrecvs'] at hw
        exact absurd hw not_running_of_set
      exact (hdraining.waits ⟨.pending closed, true⟩ (by simp)
        ⟨hping'.trans hping, rfl, fun _ => rfl⟩).of_prepared hended.results hended.calls hended.must
    · rename_i hended
      cases h
      obtain ⟨hstate, hstarted, hpings, hrecvs⟩ := hcore.draining ⟨_, htask, by simp⟩
      have hdraining : Draining { s with recvTask := none } := by
        refine ⟨hstate, hstarted, hpings, ?_⟩
        intro w hw
        have heq : some worker = some w := hrecv.symm.trans (hrecvs w hw)
        cases heq
        exact absurd hw hended
      refine (hdraining.waits ⟨.pending closed, failed || faulty⟩ (by simp)
        ⟨hping, rfl, ?_⟩).of_prepared
        rfl rfl id
      intro hclosed
      exact Bool.or_eq_true_iff.mpr (Or.inl (hfailed hclosed))
  · rename_i closed failed htask
    cases h
    exact drains_pending hcore htask

/-! ### The invariant -/

theorem owns_calls (calls : List Call) : Owns { s with calls } i ↔ Owns s i := by
  constructor
  · rintro ⟨hstarting, howner, hunstopped⟩
    exact ⟨hstarting, howner, hunstopped⟩
  · rintro ⟨hstarting, howner, hunstopped⟩
    exact ⟨hstarting, howner, hunstopped⟩

theorem StartPoint.kept_calls (calls : List Call) : point.Kept { s with calls } i ↔
    point.Kept s i := by
  cases point <;> simp only [StartPoint.Kept, owns_calls]

/-- The calls are not what a call relies on. -/
theorem callKept_calls (calls : List Call) (c : Call) :
    CallKept { s with calls } i c ↔ CallKept s i c := by
  cases c with
  | start initialOwner point => exact StartPoint.kept_calls calls
  | restart byTask point =>
    cases point with
    | start point => exact StartPoint.kept_calls calls
    | lock => exact Iff.rfl
    | stop wait => exact Iff.rfl
    | stopAgain wait => exact Iff.rfl
  | stop wait => cases wait <;> exact Iff.rfl
  | returned => exact Iff.rfl
  | stopReturned n => exact Iff.rfl

theorem Core.of_calls (hcore : Core s) (calls : List Call) : Core { s with calls } := by
  obtain ⟨hstarted, hbegun, hstopping, hdown, hfailed, hknows, hpings, hrecvs⟩ := hcore
  exact ⟨hstarted, hbegun, hstopping, hdown, hfailed, hknows, hpings, hrecvs⟩

theorem StartPoint.Kept.of_keeps (h : Keeps call s s') (hne : i ≠ call) (hkept : point.Kept s i) :
    point.Kept s' i := by
  cases point with
  | connect endpoint =>
    intro howns
    obtain ⟨howns', hping, hrecv⟩ := h.others i hne howns
    obtain ⟨hping', hrecv'⟩ := hkept howns'
    exact ⟨hping.trans hping', hrecv.trans hrecv'⟩
  | handshake endpoint =>
    intro howns
    obtain ⟨howns', hping, -⟩ := h.others i hne howns
    exact hping.trans (hkept howns')
  | close endpoint => trivial
  | callback => trivial
  | stop wait after => trivial

/-- What a call relies on outlasts the steps of the others. -/
theorem CallKept.of_keeps {c : Call} (h : Keeps call s s') (hne : i ≠ call)
    (hkept : CallKept s i c) :
    CallKept s' i c := by
  cases c with
  | start initialOwner point => exact StartPoint.Kept.of_keeps h hne hkept
  | restart byTask point =>
    cases point with
    | start point => exact StartPoint.Kept.of_keeps h hne hkept
    | lock => trivial
    | stop wait => trivial
    | stopAgain wait => trivial
  | stop wait =>
    obtain ⟨hmust, hwait⟩ := hkept
    refine ⟨h.must hmust, ?_⟩
    cases wait with
    | join task =>
      intro hlt
      exact h.down hmust (hwait (h.results ▸ hlt))
    | own task =>
      intro hlt
      exact h.down hmust (hwait (h.results ▸ hlt))
    | callback failed => exact h.down hmust hwait
  | returned => trivial
  | stopReturned n => exact ⟨h.must hkept.1, h.down hkept.1 hkept.2⟩

/-- What a call relies on outlasts the steps of the stop task: a stop waits for it,
and a start has lost the session to it. -/
theorem CallKept.of_drains {c : Call} (h : Drains s s') (hup : ¬ Down s) (hkept : CallKept s i c) :
    CallKept s' i c := by
  -- a start that is under way no longer owns the session
  have hpoint : ∀ point : StartPoint, point.Kept s' i := by
    intro point
    cases point with
    | connect endpoint => exact fun howns => absurd howns (h.unowned i)
    | handshake endpoint => exact fun howns => absurd howns (h.unowned i)
    | close endpoint => trivial
    | callback => trivial
    | stop wait after => trivial
  -- a result that has just come in is that of a session that is down
  have hdone : ∀ task, (task < s.stopResults.length → Down s) → task < s'.stopResults.length →
      Down s' := by
    intro task hdown hlt
    rcases h.results with hresults | hdown'
    · rw [hresults] at hlt
      exact absurd (hdown hlt) hup
    · exact hdown'
  cases c with
  | start initialOwner point => exact hpoint point
  | restart byTask point =>
    cases point with
    | start point => exact hpoint point
    | lock => trivial
    | stop wait => trivial
    | stopAgain wait => trivial
  | stop wait =>
    refine ⟨h.must hkept.1, ?_⟩
    cases wait with
    | join task => exact hdone task hkept.2
    | own task => exact hdone task hkept.2
    | callback failed => exact absurd hkept.2 hup
  | returned => trivial
  | stopReturned n => exact absurd hkept.2 hup

/-- A call that was made takes a step. -/
theorem Invariant.setCall {c : Call} (hinv : Invariant s) (h : Keeps i s s')
    (hkept : CallKept s' i c) :
    Invariant (setCall s' i c) := by
  refine ⟨h.core.of_calls _, ?_⟩
  intro j c' hc'
  refine (callKept_calls _ c').mpr ?_
  rw [Lifecycle.setCall, h.calls, List.getElem?_set] at hc'
  split at hc'
  · rename_i heq
    subst heq
    split at hc'
    · cases hc'
      exact hkept
    · cases hc'
  · rename_i hne
    exact (hinv.calls j c' hc').of_keeps h fun heq => hne heq.symm

/-- A new call takes its first step. -/
theorem Invariant.addCall {c : Call} (hinv : Invariant s) (h : Keeps s.calls.length s s')
    (hkept : CallKept s' s.calls.length c) : Invariant (addCall s' c) := by
  refine ⟨h.core.of_calls _, ?_⟩
  intro j c' hc'
  refine (callKept_calls _ c').mpr ?_
  rw [Lifecycle.addCall, h.calls] at hc'
  rcases Nat.lt_trichotomy j s.calls.length with hlt | rfl | hgt
  · rw [List.getElem?_append_left hlt] at hc'
    exact (hinv.calls j c' hc').of_keeps h (Nat.ne_of_lt hlt)
  · rw [List.getElem?_concat_length] at hc'
    cases hc'
    exact hkept
  · have hlength : (s.calls ++ [c]).length ≤ j := by
      rw [List.length_append, List.length_singleton]
      exact hgt
    rw [List.getElem?_eq_none hlength] at hc'
    cases hc'

/-- A step that is no call's. -/
theorem Invariant.of_keeps (hinv : Invariant s) (h : ∀ call, Keeps call s s') : Invariant s' := by
  refine ⟨(h 0).core, ?_⟩
  intro j c hc
  rw [(h 0).calls] at hc
  exact (hinv.calls j c hc).of_keeps (h (j + 1)) (Nat.ne_of_lt (Nat.lt_succ_self j))

theorem Invariant.of_drains (hinv : Invariant s) (h : Drains s s') (hup : ¬ Down s) :
    Invariant s' := by
  refine ⟨h.core, ?_⟩
  intro j c hc
  rw [h.calls] at hc
  exact (hinv.calls j c hc).of_drains h hup

/-! ### The calls of `stop` -/

/-- What a `stop` may rely on once its `_stop` came so far. -/
theorem callKept_resumeStop {cancelled : Bool} {wait : StopWait} {progress : Progress StopWait}
    (hmust : s.mustStayStopped = true) (hkept : wait.Kept s)
    (h : resumeStop s cancelled wait = some progress) (n : ℕ) : CallKept s i (progress.stop n) := by
  have hdown : Down s := by
    cases wait with
    | join task =>
      obtain ⟨failed, hfailed, -⟩ := Option.map_eq_some_iff.mp h
      exact hkept (List.getElem?_eq_some_iff.mp hfailed).1
    | own task =>
      obtain ⟨failed, hfailed, -⟩ := Option.map_eq_some_iff.mp h
      exact hkept (List.getElem?_eq_some_iff.mp hfailed).1
    | callback failed => exact hkept
  cases progress with
  | returns => exact ⟨hmust, hdown⟩
  | raises => exact ⟨hmust, hdown⟩
  | waits wait' =>
    refine ⟨hmust, ?_⟩
    cases wait' with
    | join task => exact fun _ => hdown
    | own task => exact fun _ => hdown
    | callback failed => exact hdown

/-- A new `stop` waits for a task that is not done, or finds the session down. -/
theorem callKept_callStop (hmust : s.mustStayStopped = true) (n : ℕ) :
    CallKept (callStop s).1 i ((callStop s).2.stop n) := by
  -- the session is down already, or it is waited for
  by_cases hdone : ∀ wait, (callStop s).2 ≠ .waits wait
  · obtain ⟨hsame, hdown, -⟩ := callStop_of_done hdone
    rw [hsame]
    cases hprogress : (callStop s).2 with
    | returns => exact ⟨hmust, hdown⟩
    | raises => exact ⟨hmust, hdown⟩
    | waits wait => exact absurd hprogress (hdone wait)
  · rw [not_forall_not] at hdone
    obtain ⟨wait, hwait⟩ := hdone
    rw [hwait]
    unfold callStop at hwait ⊢
    -- the task that is joined is the one of the stop before
    cases htask : s.stopTask with
    | some task =>
      rw [htask] at hwait
      cases hwait
      exact ⟨hmust, fun hlt => absurd hlt (Nat.lt_irrefl _)⟩
    | none =>
      rw [htask] at hwait
      -- a new task is started, whose result is still to come
      dsimp only at hwait ⊢
      split at hwait
      · cases hwait
      rename_i hfailed
      split at hwait
      · cases hwait
      rename_i hstopped
      cases hwait
      rw [if_neg hfailed, if_neg hstopped]
      exact ⟨hmust, fun hlt => absurd hlt (Nat.lt_irrefl _)⟩

/-! ### Every step -/

theorem KeepsStart.callKept {next : Session × Progress StartPoint} (h : KeepsStart call s next)
    (initialOwner : Bool) : CallKept next.1 call (next.2.start initialOwner) := by
  obtain ⟨s', progress⟩ := next
  cases progress with
  | waits point => exact h.kept point rfl
  | returns => trivial
  | raises => trivial

theorem KeepsRestart.callKept {next : Session × Progress RestartPoint}
    (h : KeepsRestart call s next)
    (byTask : Bool) : CallKept next.1 call (next.2.restart byTask) := by
  obtain ⟨s', progress⟩ := next
  cases progress with
  | returns => trivial
  | raises => trivial
  | waits point =>
    cases point with
    | start inner => exact h.kept inner rfl
    | lock => trivial
    | stop wait => trivial
    | stopAgain wait => trivial

/-- The restart task notes how far its `restart` came. -/
theorem keeps_restartTask (call : ℕ) (hcore : Core s) (restartTask : RestartTask) :
    Keeps call s { s with restartTask } :=
  .of_eq hcore rfl id id rfl rfl rfl rfl (fun _ => id) (fun _ => id) rfl rfl

theorem CallKept.restartTask {c : Call} (hcore : Core s) (hkept : CallKept s i c)
    (restartTask : RestartTask) : CallKept { s with restartTask } i c :=
  hkept.of_keeps (keeps_restartTask (i + 1) hcore restartTask)
    (Nat.ne_of_lt (Nat.lt_succ_self i))

/-- A resumed call keeps the invariant. -/
theorem invariant_resume (hinv : Invariant s)
    (hundisturbed : outcome = none → ∀ c point, s.calls[i]? = some c → c.startPoint = some point →
      point.Undisturbed endpoints s i)
    (h : resume endpoints s i outcome = some s') : Invariant s' := by
  unfold resume at h
  split at h
  · rename_i initialOwner point hcall
    obtain ⟨next, hstart, rfl⟩ := Option.map_eq_some_iff.mp h
    -- an undisturbed start goes on with what it owns
    have hkeeps : KeepsStart i s next := keepsStart_resumeStart hinv.core (hinv.calls i _ hcall)
      (fun hnone => hundisturbed hnone _ point hcall rfl) hstart
    exact hinv.setCall hkeeps.keeps (hkeeps.callKept initialOwner)
  · rename_i byTask point hcall
    obtain ⟨next, hrestart, rfl⟩ := Option.map_eq_some_iff.mp h
    have hkept' : ∀ inner, point = .start inner → inner.Kept s i := by
      rintro inner rfl
      exact hinv.calls i _ hcall
    have hkeeps : KeepsRestart i s next := keepsRestart_resumeRestart hinv.core hkept'
      (fun hnone inner hinner => hundisturbed hnone _ inner hcall (hinner ▸ rfl)) hrestart
    dsimp only
    -- a restart that the task has asked for sets it free
    split
    · exact hinv.setCall (hkeeps.keeps.trans (keeps_restartTask i hkeeps.keeps.core _))
        ((hkeeps.callKept byTask).restartTask hkeeps.keeps.core _)
    · exact hinv.setCall hkeeps.keeps (hkeeps.callKept byTask)
  · rename_i wait hcall
    obtain ⟨progress, hstop, rfl⟩ := Option.map_eq_some_iff.mp h
    obtain ⟨hmust, hkept⟩ := hinv.calls i _ hcall
    exact hinv.setCall (.refl hinv.core) (callKept_resumeStop hmust hkept hstop _)
  · cases h
  · cases h
  · cases h

/-- **Every step keeps the invariant**, if no start goes on past a stop. -/
theorem invariant_step {e : Event} (hinv : Invariant s) (hundisturbed : Undisturbed endpoints s e)
    (h : step endpoints s e = some s') : Invariant s' := by
  cases e with
  | startCalled initialOwner =>
    obtain rfl := Option.some.inj h
    have hkeeps : KeepsStart s.calls.length s (beginStart s.calls.length s) :=
      keepsStart_beginStart hinv.core
    exact hinv.addCall hkeeps.keeps (hkeeps.callKept initialOwner)
  | restartCalled =>
    obtain rfl := Option.some.inj h
    have hkeeps : KeepsRestart s.calls.length s (callRestart s.calls.length s) :=
      keepsRestart_callRestart hinv.core
    exact hinv.addCall hkeeps.keeps (hkeeps.callKept false)
  | stopCalled =>
    obtain rfl := Option.some.inj h
    -- `stop` sets its flag before it does anything else
    have hmust : Keeps s.calls.length s { s with mustStayStopped := true } :=
      .of_eq hinv.core rfl (fun _ => rfl) id rfl rfl rfl rfl (fun _ => id) (fun _ => id) rfl rfl
    exact hinv.addCall (hmust.trans (keeps_callStop hmust.core)) (callKept_callStop rfl _)
  | resumed i outcome =>
    refine invariant_resume hinv ?_ h
    rintro rfl
    exact hundisturbed
  | stopTaskResumed faulty =>
    -- the task of a stop is gone once the session is down
    have hup : ¬ Down s := by
      intro hdown
      have h : resumeStopTask s faulty = some s' := h
      unfold resumeStopTask at h
      rw [(hinv.core.down hdown).1] at h
      cases h
    exact hinv.of_drains (drains_resumeStopTask hinv.core h) hup
  | pingEnded worker restart =>
    simp only [step] at h
    split at h
    · cases h
      exact hinv.of_keeps fun call => keeps_endPing hinv.core worker restart
    · cases h
  | recvEnded worker fault =>
    simp only [step] at h
    split at h
    · cases h
      exact hinv.of_keeps fun call => keeps_endRecv hinv.core worker fault
    · cases h
  | restartScheduled =>
    cases h
    exact hinv.of_keeps fun call => keeps_scheduleRestart hinv.core
  | restartTaskResumed goesOn =>
    simp only [step] at h
    split at h
    · cases h
    split at h
    -- the request is taken back before the restart begins
    · obtain rfl := Option.some.inj h
      have hrequest : Keeps s.calls.length s { s with restartRequested := false } :=
        .of_eq hinv.core rfl id id rfl rfl rfl rfl (fun _ => id) (fun _ => id) rfl rfl
      have hkeeps : KeepsRestart s.calls.length s
          (callRestart s.calls.length { s with restartRequested := false }) :=
        .trans hrequest (keepsRestart_callRestart hrequest.core)
      exact hinv.addCall (hkeeps.keeps.trans (keeps_restartTask _ hkeeps.keeps.core _))
        ((hkeeps.callKept true).restartTask hkeeps.keeps.core _)
    · cases h
      exact hinv.of_keeps fun call => keeps_restartTask call hinv.core .idle

theorem invariant_empty : Invariant {} := by
  refine ⟨⟨?_, ?_, ?_, fun _ => ⟨rfl, rfl, rfl⟩, ?_, ?_, ?_, ?_⟩, ?_⟩
  · intro h
    cases h
  · rintro ⟨task, htask, -⟩
    cases htask
  · intro h
    cases h
  · intro h
    cases h
  · intro task htask
    cases htask
  · intro worker h
    cases h
  · intro worker h
    cases h
  · intro i c h
    cases h

/-- A session that is down has no worker left. -/
theorem Core.stopped (hcore : Core s) (hdown : Down s) : Stopped s := by
  obtain ⟨-, hping, hrecv⟩ := hcore.down hdown
  refine ⟨hdown, ?_, ?_, ?_⟩
  · cases hstarted : s.isStarted with
    | false => rfl
    | true =>
      rcases hdown with h | h <;> rw [hcore.started hstarted] at h <;> cases h
  · intro worker h
    have hrunning := hcore.pings worker h
    rw [hping] at hrunning
    cases hrunning
  · intro worker h
    have hrunning := hcore.recvs worker h
    rw [hrecv] at hrunning
    cases hrunning

/-- **A stop is final in every run in which no start goes on past a stop, or past another
start**: in every state after it returned the session is down, is not taken for
started, and no worker runs. -/
theorem stopIsFinal_of_undisturbed {endpoints : ℕ} {es : List Event} {t : Session}
    (hundisturbed : AllSteps (step endpoints) (fun s e _ => Undisturbed endpoints s e) {} es)
    (hrun : run (step endpoints) {} es = some t) : StopIsFinal t := by
  have hinv : Invariant t := by
    refine run_of_invariant_of_allSteps (P := fun s e _ => Undisturbed endpoints s e) ?_
      invariant_empty
      hundisturbed hrun
    intro s e s' hinv hundisturbed h
    exact invariant_step hinv hundisturbed h
  intro i before hcall _
  obtain ⟨-, hdown⟩ := hinv.calls i _ hcall
  exact hinv.core.stopped hdown

/-- The session is stopped while it waits for the answer to its first `Ping`. -/
def stoppedInHandshake : List Event :=
  [.startCalled false, .resumed 0 none, .stopCalled, .stopTaskResumed false,
    .stopTaskResumed false, .recvEnded 0 none, .stopTaskResumed false, .stopTaskResumed false,
    .resumed 0 (some .retried), .resumed 1 none, .resumed 1 none]

theorem stopped_in_handshake : ∃ t, run (step 1) {} stoppedInHandshake = some t ∧
    t.calls = [.returned, .stopReturned 2] ∧ StopIsFinal t := by
  have hundisturbed : AllSteps (step 1) (fun s e _ => Undisturbed 1 s e) {} stoppedInHandshake := by
    -- only the first resumption has something to be undisturbed in
    refine .cons rfl trivial (.cons rfl ?_ (.cons rfl trivial (.cons rfl trivial (.cons rfl trivial
      (.cons rfl trivial (.cons rfl trivial (.cons rfl trivial (.cons rfl trivial (.cons rfl ?_
        (.cons rfl ?_ trivial))))))))))
    · intro c point hcall hpoint
      cases hcall
      cases hpoint
      refine Or.inr (Or.inl ⟨rfl, rfl, ?_⟩)
      rintro ⟨task, htask, -⟩
      cases htask
    · intro c point hcall hpoint
      cases hcall
      cases hpoint
    · intro c point hcall hpoint
      cases hcall
      cases hpoint
  exact ⟨_, rfl, rfl, stopIsFinal_of_undisturbed hundisturbed rfl⟩

/-- The session after a start that took the answer to its handshake too late. -/
def leftBehind : Session where
  mustStayStopped := true
  hasConnection := true
  stopResults := [false]
  pingTask := some 0
  pings := [.running]
  recvs := [.ended none]
  owner := some 0
  calls := [.returned, .stopReturned 2]

/-- The answer of the handshake is there when `stop` comes, and the start takes it once
`_stop_resources` is past the ping worker: the new one is nobody's. -/
theorem ping_worker_left_behind :
    run (step 1) {} [.startCalled false, .resumed 0 none, .stopCalled, .stopTaskResumed false,
      .resumed 0 none, .stopTaskResumed false, .recvEnded 0 none, .stopTaskResumed false,
      .stopTaskResumed false, .resumed 0 none, .resumed 1 none, .resumed 1 none] =
        some leftBehind ∧ ¬ StopIsFinal leftBehind := by
  refine ⟨by decide, ?_⟩
  intro hfinal
  have hreturned : ∀ j < 2, ∀ c, leftBehind.calls[j]? = some c → c = .returned ∨
      (∃ wait, c = .stop wait) ∨ ∃ n, c = .stopReturned n := by
    intro j hj c hc
    obtain ⟨hlt, rfl⟩ := List.getElem?_eq_some_iff.mp hc
    match j with
    | 0 => exact Or.inl rfl
    | 1 => exact Or.inr (Or.inr ⟨2, rfl⟩)
  have hstopped : Stopped leftBehind := hfinal 1 2 rfl hreturned
  exact hstopped.pings 0 rfl

end Pyrogram.Lifecycle
