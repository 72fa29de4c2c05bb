import Mathlib.Tactic.Common

/-!
# Starting, restarting and stopping a session

`Session.start`, `Session.restart` and `Session.stop` are coroutines that several
tasks may be running at once; `_stop_resources` and the workers are tasks of their
own.  A state holds where each of them waits, and an event resumes one of them up to
its next `await`.  Whatever the network, the server and the handlers do (an answer
arrives, a connection ends, an exception or a cancellation surfaces) is part of the
event.

A lock that is free is taken without waiting, so `_set_state` is no `await`.  A handler
that is not set is one that returns at once.  `stop` is never called by the workers.

## Main definitions

* `Session` — the fields of the session, the workers it created, and the calls.
* `callStop`, `resumeStop` — `_stop`.
* `resumeStopTask` — `_stop_resources`.
* `beginStart`, `resumeStart` — `start`.
* `callRestart`, `resumeRestart` — `restart`.
* `step` — one event.
-/

namespace Pyrogram.Lifecycle

inductive SessionState
  | starting
  | started
  | stopping
  | stopped
  | stopFailed
  deriving DecidableEq, Repr

/-- An exception at an `await` of `_start`. -/
inductive Fault
  /-- An `OSError` or an `RPCError`: the next endpoint is tried. -/
  | retried
  /-- Any other exception, or a cancellation. -/
  | raised
  deriving DecidableEq, Repr

/-- A task that runs `ping_worker` or `recv_worker`. -/
inductive Worker
  | running
  | ended (fault : Option Fault)
  deriving DecidableEq, Repr

/-- Where `_stop_resources` waits. -/
inductive StopPoint
  /-- The task has not begun. -/
  | created
  | ping (worker : ℕ)
  | close
  | recv (worker : ℕ) (closed : Bool)
  | pending (closed : Bool)
  deriving DecidableEq, Repr

/-- A task that runs `_stop_resources`. -/
structure StopTask where
  point : StopPoint
  /-- `failures` is not empty. -/
  failed : Bool := false
  deriving DecidableEq, Repr

/-- Where `_stop` waits; the tasks are numbered in their order. -/
inductive StopWait
  /-- For the task of another caller. -/
  | join (task : ℕ)
  /-- For the task it created. -/
  | own (task : ℕ)
  /-- For `disconnect_handler`. -/
  | callback (failed : Bool)
  deriving DecidableEq, Repr

/-- What `start` does after a `_stop`. -/
inductive After
  /-- It goes on to the endpoint after this one. -/
  | retry (endpoint : ℕ)
  | return
  | reraise
  deriving DecidableEq, Repr

/-- Where `start` waits. -/
inductive StartPoint
  | connect (endpoint : ℕ)
  /-- For `connection.close()`, once the session must stay stopped. -/
  | close (endpoint : ℕ)
  /-- For the answers to `Ping` and `InitConnection`. -/
  | handshake (endpoint : ℕ)
  /-- For `connect_handler`. -/
  | callback
  | stop (wait : StopWait) (after : After)
  deriving DecidableEq, Repr

/-- Where `restart` waits. -/
inductive RestartPoint
  | lock
  | stop (wait : StopWait)
  | start (point : StartPoint)
  | stopAgain (wait : StopWait)
  deriving DecidableEq, Repr

/-- How far a coroutine came. -/
inductive Progress (π : Type)
  | waits (point : π)
  | returns
  | raises
  deriving DecidableEq, Repr

/-- A call of `start`, `restart` or `stop`. -/
inductive Call
  /-- The first may be the initial start of the client. -/
  | start (initialOwner : Bool) (point : StartPoint)
  /-- The restart task calls `restart` too. -/
  | restart (byTask : Bool) (point : RestartPoint)
  | stop (wait : StopWait)
  /-- A `start` or `restart` that returned or raised. -/
  | returned
  /-- A `stop` that returned or raised when so many calls had been made. -/
  | stopReturned (calls : ℕ)
  deriving DecidableEq, Repr

/-- The task that runs `_restart_until_started`. -/
inductive RestartTask
  | idle
  /-- Between two calls of `restart`. -/
  | waiting
  | restarting
  deriving DecidableEq, Repr

structure Session where
  state : SessionState := .stopped
  mustStayStopped : Bool := false
  isStarted : Bool := false
  restartRequested : Bool := false
  restartLocked : Bool := false
  /-- `connection` is not `None`. -/
  hasConnection : Bool := false
  /-- `_stop_task`, while it is not done. -/
  stopTask : Option StopTask := none
  /-- Whether the tasks before failed. -/
  stopResults : List Bool := []
  pingTask : Option ℕ := none
  recvTask : Option ℕ := none
  /-- The workers created so far. -/
  pings : List Worker := []
  recvs : List Worker := []
  restartTask : RestartTask := .idle
  /-- The call that set `STARTING` last. -/
  owner : Option ℕ := none
  calls : List Call := []
  deriving DecidableEq, Repr

/-! ### Restarts and workers -/

def scheduleRestart (s : Session) : Session :=
  if s.mustStayStopped then s
  else
    { s with
      restartRequested := true
      isStarted := false
      restartTask := if s.restartTask = .idle then .waiting else s.restartTask }

/-- The end of a `ping_worker`, after an `OSError` or not. -/
def endPing (s : Session) (worker : ℕ) (restart : Bool) : Session :=
  let s := { s with pings := s.pings.set worker (.ended none) }
  if restart then scheduleRestart s else s

/-- The end of a `recv_worker`, with its `finally`. -/
def endRecv (s : Session) (worker : ℕ) (fault : Option Fault) : Session :=
  let s := { s with recvs := s.recvs.set worker (.ended fault) }
  if s.recvTask = some worker ∧ s.mustStayStopped = false ∧
      (s.state = .starting ∨ s.state = .started) then
    let s := { s with isStarted := false }
    if s.state = .started then scheduleRestart s else s
  else s

/-! ### Stopping -/

/-- `_stop`, up to its first `await`. -/
def callStop (s : Session) : Session × Progress StopWait :=
  match s.stopTask with
  | some _ => (s, .waits (.join s.stopResults.length))
  | none =>
      if s.state = .stopFailed ∧ s.stopResults.getLast? = some true then (s, .raises)
      else if s.state = .stopped then (s, .returns)
      else ({ s with stopTask := some { point := .created } }, .waits (.own s.stopResults.length))

/-- `_stop`, from one `await` to the next.  A cancelled `_finish_cleanup` still waits
for the task. -/
def resumeStop (s : Session) (cancelled : Bool) : StopWait → Option (Progress StopWait)
  | .join task => s.stopResults[task]?.map fun failed =>
      if failed || cancelled then .raises else .returns
  | .own task => s.stopResults[task]?.map fun failed =>
      if cancelled then .raises else .waits (.callback failed)
  | .callback failed => some (if failed || cancelled then .raises else .returns)

/-- `_stop_resources` after it closed the connection, or could not. -/
def drainRecv (s : Session) (failed closed : Bool) : Session :=
  let s := { s with mustStayStopped := s.mustStayStopped || !closed }
  match s.recvTask with
  | some worker => { s with stopTask := some ⟨.recv worker closed, failed || !closed⟩ }
  | none => { s with stopTask := some ⟨.pending closed, failed || !closed⟩ }

/-- `_stop_resources` after it drained the ping worker. -/
def closeConnection (s : Session) (failed : Bool) : Session :=
  if s.hasConnection then { s with stopTask := some ⟨.close, failed⟩ } else drainRecv s failed true

/-- `_stop_resources`, from one `await` to the next; `faulty` says that what it waited
for failed.  The waits for a worker end with the worker, the one for the receiver at
the latest when it times out and cancels it. -/
def resumeStopTask (s : Session) (faulty : Bool) : Option Session :=
  match s.stopTask with
  | none => none
  | some ⟨.created, failed⟩ =>
      let s := { s with state := .stopping, isStarted := false }
      match s.pingTask with
      | some worker => some { s with stopTask := some ⟨.ping worker, failed⟩ }
      | none => some (closeConnection s failed)
  | some ⟨.ping worker, failed⟩ =>
      if s.pings[worker]? = some .running then none
      else some (closeConnection { s with pingTask := none } (failed || faulty))
  | some ⟨.close, failed⟩ => some (drainRecv s failed (!faulty))
  | some ⟨.recv worker closed, failed⟩ =>
      if s.recvs[worker]? = some .running then
        if faulty then
          let s := endRecv s worker none
          some { s with recvTask := none, stopTask := some ⟨.pending closed, true⟩ }
        else none
      else some { s with recvTask := none, stopTask := some ⟨.pending closed, failed || faulty⟩ }
  | some ⟨.pending closed, failed⟩ =>
      some { s with
        state := if closed then .stopped else .stopFailed
        stopTask := none
        stopResults := s.stopResults ++ [failed || faulty] }

/-! ### Starting -/

section Start

variable (endpoints : ℕ) (call : ℕ) (initialOwner : Bool)

/-- The handler of `start`, once its `_stop` came so far. -/
def reraise : Progress StopWait → Progress StartPoint
  | .waits wait => .waits (.stop wait .reraise)
  | .returns | .raises => .raises

/-- `start` after an exception of `_start`. -/
def fail (s : Session) : Session × Progress StartPoint :=
  let s := { s with mustStayStopped := s.mustStayStopped || initialOwner }
  ((callStop s).1, reraise (callStop s).2)

/-- The beginning of the loop of `_start`. -/
def enter (s : Session) (endpoint : ℕ) : Session × Progress StartPoint :=
  if s.mustStayStopped then (s, .returns)
  else
    ({ s with state := .starting, hasConnection := true, owner := some call },
      .waits (.connect endpoint))

/-- `start`, up to its first `await`. -/
def beginStart (s : Session) : Session × Progress StartPoint :=
  if s.state = .started ∨ s.state = .starting then (s, .returns)
  else if s.mustStayStopped then (s, .returns)
  else enter call s 0

/-- `start` after an `await` of `_stop`. -/
def afterStop (after : After) (s : Session) : Progress StopWait → Session × Progress StartPoint
  | .waits wait => (s, .waits (.stop wait after))
  | .raises =>
      match after with
      | .reraise => (s, .raises)
      | .retry _ | .return => fail initialOwner s
  | .returns =>
      match after with
      | .reraise => (s, .raises)
      | .return => (s, .returns)
      | .retry endpoint =>
          if s.mustStayStopped then (s, .returns)
          else if endpoint + 1 < endpoints then enter call s (endpoint + 1)
          else fail initialOwner s

/-- `start` calls `_stop`. -/
def stopThen (after : After) (s : Session) : Session × Progress StartPoint :=
  afterStop endpoints call initialOwner after (callStop s).1 (callStop s).2

/-- An exception in the `try` of `_start`. -/
def handle (endpoint : ℕ) (s : Session) : Fault → Session × Progress StartPoint
  | .retried => stopThen endpoints call initialOwner (.retry endpoint) s
  | .raised => fail initialOwner s

/-- `_check_receiver`: the exception it raises. -/
def checkReceiver (s : Session) : Option Fault :=
  match s.recvTask with
  | none => some .retried
  | some worker =>
      match s.recvs[worker]? with
      | some .running => if s.restartRequested then some .retried else none
      | some (.ended (some fault)) => some fault
      | some (.ended none) | none => some .retried

def createRecv (s : Session) : Session :=
  { s with recvs := s.recvs ++ [.running], recvTask := some s.recvs.length }

def createPing (s : Session) : Session :=
  { s with pings := s.pings ++ [.running], pingTask := some s.pings.length }

/-- `_start` after its loop. -/
def publish (s : Session) : Session × Progress StartPoint :=
  if s.mustStayStopped then stopThen endpoints call initialOwner .return s
  else
    let s := { s with state := .started }
    match checkReceiver s with
    | some _ => fail initialOwner s
    | none => ({ s with isStarted := true }, .waits .callback)

/-- `start`, from one `await` to the next; the outcome is the exception that surfaces
at the `await`. -/
def resumeStart (s : Session) (outcome : Option Fault) :
    StartPoint → Option (Session × Progress StartPoint)
  | .connect endpoint =>
      match outcome with
      | some fault => some (handle endpoints call initialOwner endpoint s fault)
      | none =>
          if s.mustStayStopped then some (s, .waits (.close endpoint))
          -- there is no `await` before the flag is looked at once more
          else some (createRecv s, .waits (.handshake endpoint))
  | .close endpoint =>
      match outcome with
      | some fault => some (handle endpoints call initialOwner endpoint s fault)
      | none => some (s, .returns)
  | .handshake endpoint =>
      match outcome with
      | some fault => some (handle endpoints call initialOwner endpoint s fault)
      | none =>
          match checkReceiver s with
          | some fault => some (handle endpoints call initialOwner endpoint s fault)
          | none => some (publish endpoints call initialOwner (createPing s))
  | .callback =>
      match outcome with
      | some _ => some (fail initialOwner s)
      | none =>
          if s.mustStayStopped then some (stopThen endpoints call initialOwner .return s)
          else
            match checkReceiver s with
            | some _ => some (fail initialOwner s)
            | none => some (s, .returns)
  | .stop wait after =>
      (resumeStop s outcome.isSome wait).map (afterStop endpoints call initialOwner after s)

end Start

/-! ### Restarting -/

section Restart

variable (endpoints : ℕ) (call : ℕ)

def unlock (s : Session) : Session := { s with restartLocked := false }

/-- `restart` after its second `_stop`. -/
def afterSecondStop (s : Session) : Progress StopWait → Session × Progress RestartPoint
  | .waits wait => (s, .waits (.stopAgain wait))
  | .raises => (unlock s, .raises)
  | .returns => (unlock s, .returns)

/-- `restart` after its `start`. -/
def afterStart (s : Session) : Progress StartPoint → Session × Progress RestartPoint
  | .waits point => (s, .waits (.start point))
  | .raises => (unlock s, .raises)
  | .returns =>
      if s.mustStayStopped then afterSecondStop (callStop s).1 (callStop s).2
      else (unlock s, .returns)

/-- `restart` after its first `_stop`. -/
def afterFirstStop (s : Session) : Progress StopWait → Session × Progress RestartPoint
  | .waits wait => (s, .waits (.stop wait))
  | .raises => (unlock s, .raises)
  | .returns =>
      if s.mustStayStopped then (unlock s, .returns)
      else afterStart (beginStart call s).1 (beginStart call s).2

/-- `restart`, up to its first `await`. -/
def callRestart (s : Session) : Session × Progress RestartPoint :=
  if s.restartLocked then (s, .waits .lock)
  else
    let s := { s with restartLocked := true }
    afterFirstStop call (callStop s).1 (callStop s).2

/-- `restart`, from one `await` to the next. -/
def resumeRestart (s : Session) (outcome : Option Fault) :
    RestartPoint → Option (Session × Progress RestartPoint)
  | .lock =>
      match outcome with
      | some _ => some (s, .raises)
      | none => if s.restartLocked then none else some (callRestart call s)
  | .stop wait => (resumeStop s outcome.isSome wait).map (afterFirstStop call s)
  | .start point => (resumeStart endpoints call false s outcome point).map fun (s, progress) =>
      afterStart s progress
  | .stopAgain wait => (resumeStop s outcome.isSome wait).map (afterSecondStop s)

end Restart

/-! ### Events -/

inductive Event
  | startCalled (initialOwner : Bool)
  | restartCalled
  | stopCalled
  /-- A call resumes; the outcome is the exception that surfaces. -/
  | resumed (call : ℕ) (outcome : Option Fault)
  | stopTaskResumed (faulty : Bool)
  | pingEnded (worker : ℕ) (restart : Bool)
  | recvEnded (worker : ℕ) (fault : Option Fault)
  | restartScheduled
  /-- The restart task resumes; it ends once the client is disconnected, or `restart`
  did what it was to do. -/
  | restartTaskResumed (goesOn : Bool)
  deriving DecidableEq, Repr

/-- The call, as far as it came. -/
def Progress.start (initialOwner : Bool) : Progress StartPoint → Call
  | .waits point => .start initialOwner point
  | .returns | .raises => .returned

def Progress.restart (byTask : Bool) : Progress RestartPoint → Call
  | .waits point => .restart byTask point
  | .returns | .raises => .returned

def Progress.stop (calls : ℕ) : Progress StopWait → Call
  | .waits wait => .stop wait
  | .returns | .raises => .stopReturned calls

/-- The restart task, once its `restart` came so far. -/
def Progress.restartTask : Progress RestartPoint → RestartTask
  | .waits _ => .restarting
  | .returns | .raises => .waiting

def addCall (s : Session) (call : Call) : Session := { s with calls := s.calls ++ [call] }

def setCall (s : Session) (i : ℕ) (call : Call) : Session := { s with calls := s.calls.set i call }

/-- A call resumes. -/
def resume (endpoints : ℕ) (s : Session) (i : ℕ) (outcome : Option Fault) : Option Session :=
  match s.calls[i]? with
  | some (.start initialOwner point) =>
      (resumeStart endpoints i initialOwner s outcome point).map fun (s, progress) =>
        setCall s i (progress.start initialOwner)
  | some (.restart byTask point) =>
      (resumeRestart endpoints i s outcome point).map fun (s, progress) =>
        let s := if byTask then { s with restartTask := progress.restartTask } else s
        setCall s i (progress.restart byTask)
  | some (.stop wait) =>
      (resumeStop s outcome.isSome wait).map fun progress =>
        setCall s i (progress.stop s.calls.length)
  | some .returned | some (.stopReturned _) | none => none

/-- One event. -/
def step (endpoints : ℕ) (s : Session) : Event → Option Session
  | .startCalled initialOwner =>
      let (s', progress) := beginStart s.calls.length s
      some (addCall s' (progress.start initialOwner))
  | .restartCalled =>
      let (s', progress) := callRestart s.calls.length s
      some (addCall s' (progress.restart false))
  | .stopCalled =>
      let (s', progress) := callStop { s with mustStayStopped := true }
      some (addCall s' (progress.stop (s.calls.length + 1)))
  | .resumed i outcome => resume endpoints s i outcome
  | .stopTaskResumed faulty => resumeStopTask s faulty
  | .pingEnded worker restart =>
      if s.pings[worker]? = some .running then some (endPing s worker restart) else none
  | .recvEnded worker fault =>
      if s.recvs[worker]? = some .running then some (endRecv s worker fault) else none
  | .restartScheduled => some (scheduleRestart s)
  | .restartTaskResumed goesOn =>
      if s.restartTask ≠ .waiting then none
      else if goesOn = true ∧ s.mustStayStopped = false then
        let (s', progress) := callRestart s.calls.length { s with restartRequested := false }
        some (addCall { s' with restartTask := progress.restartTask } (progress.restart true))
      else some { s with restartTask := .idle }

end Pyrogram.Lifecycle
