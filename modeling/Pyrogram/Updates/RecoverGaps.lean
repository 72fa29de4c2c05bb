import Pyrogram.Updates.Client

/-!
# Recovering gaps

`RecoverGaps._recover_gaps`: for every stored update state, a loop of requests
from the stored `pts` on.  The server is a function from the requests of a loop to
answers.  The loop need not end, so a run is given the number of requests it may
make for one state; `none` says that they did not suffice.

Storage writes succeed here; where one raises, the call does not return.

## Main definitions

* `Request` — the two requests, and whether they can be serialized.
* `Loop.step` — what an answer does.
* `Loop.run` — the loop for one state.
* `recoverGaps` — a call of `recover_gaps`.
-/

namespace Pyrogram

variable {α : Type}

/-! ### Requests and answers -/

/-- The requests `recover_gaps` makes. -/
inductive Request
  | getChannelDifference (channel : ℤ) (pts : Option ℤ) (limit : ℤ)
  | getDifference (pts date : Option ℤ) (qts : ℤ)
  deriving DecidableEq, Repr

/-- The request for the update state of an id. -/
def Request.ofState (id : ℤ) (pts date : Option ℤ) : Request :=
  if id < zeroChannelId then .getChannelDifference id pts 10000 else .getDifference pts date 0

/-- No integer of the request is `None`, which `Int` cannot write. -/
def Request.isSerializable : Request → Bool
  | getChannelDifference _ pts _ => pts.isSome
  | getDifference pts date _ => pts.isSome && date.isSome

/-- What the two requests are answered with. -/
inductive Answer (α : Type)
  | difference (diff : Difference α)
  | channelDifference (diff : ChannelDifference α)
  deriving DecidableEq, Repr

/-- For the update state of an id, the answer to the `n`-th request of its loop, which
carries the given `pts`. -/
abbrev Server (α : Type) := ℤ → ℕ → ℤ → Except InvokeError (Answer α)

/-! ### The loop for one state -/

/-- What a call changes. -/
structure Recovery (α : Type) where
  /-- The table behind `storage`. -/
  updateStates : UpdateTable
  /-- The calls of `dispatcher.enqueue` and the states they were made for, oldest first. -/
  enqueued : List (ℤ × Enqueued α) := []
  messageUpdatesCounter : ℕ := 0
  otherUpdatesCounter : ℕ := 0

/-- The local variables of the loop for one state. -/
structure Loop (α : Type) where
  recovery : Recovery α
  localPts : Option ℤ
  localDate : Option ℤ
  localSeq : Option ℤ
  stateUpdate : Option UpdateState := none
  stateDeleted : Bool := false
  /-- How many requests the loop has made. -/
  requests : ℕ := 0

/-- How an iteration ends. -/
inductive Control
  | again
  | leave
  | raised
  deriving DecidableEq, Repr

namespace Recovery

/-- `storage.set_update_state`. -/
def setUpdateState (r : Recovery α) (s : UpdateState) : Recovery α :=
  { r with updateStates := r.updateStates.setUpdateState s }

def deleteUpdateState (r : Recovery α) (id : ℤ) : Recovery α :=
  { r with updateStates := r.updateStates.deleteUpdateState id }

/-- The two loops over the messages and updates of an answer. -/
def deliver (id pts : ℤ) (newMessages : List α) (otherUpdates : List (Update α))
    (r : Recovery α) : Recovery α :=
  { r with
    enqueued := r.enqueued ++ newMessages.map (fun m => (id, .newMessage m pts (-1))) ++
      otherUpdates.map fun u => (id, .update u)
    messageUpdatesCounter := r.messageUpdatesCounter + newMessages.length
    otherUpdatesCounter := r.otherUpdatesCounter + otherUpdates.length }

end Recovery

namespace Loop

def start (r : Recovery α) (s : UpdateState) : Loop α where
  recovery := r
  localPts := s.pts
  localDate := s.date
  localSeq := s.seq

/-- Take over a state: the local variables, and `state_update`. -/
def reach (id : ℤ) (state : State) (l : Loop α) : Loop α :=
  { l with
    localPts := some state.pts
    localDate := some state.date
    localSeq := some state.seq
    stateUpdate := some ⟨id, some state.pts, none, some state.date, some state.seq⟩ }

/-- Take over a `pts` alone. -/
def reachPts (id : ℤ) (pts : Option ℤ) (l : Loop α) : Loop α :=
  { l with
    localPts := pts
    stateUpdate := some ⟨id, pts, none, none, none⟩ }

/-- Store `state_update`, where there is one. -/
def storeStateUpdate (l : Loop α) : Loop α :=
  match l.stateUpdate with
  | none => l
  | some s => { l with recovery := l.recovery.setUpdateState s }

def deliver (id pts : ℤ) (newMessages : List α) (otherUpdates : List (Update α)) (l : Loop α) :
    Loop α :=
  { l with recovery := l.recovery.deliver id pts newMessages otherUpdates }

/-- What an answer to a request with `requestPts` does. -/
def step (id requestPts : ℤ) (l : Loop α) : Except InvokeError (Answer α) → Control × Loop α
  | .error .channelPrivate | .error .channelInvalid =>
    (.leave, { l with recovery := l.recovery.deleteUpdateState id, stateDeleted := true })
  | .error .persistentTimestampOutdated | .error .persistentTimestampInvalid => (.again, l)
  | .error .timeout | .error .other => (.raised, l)
  | .ok (.difference (.empty date seq)) =>
    (.leave, { l with
      localDate := some date
      localSeq := some seq
      stateUpdate := some ⟨id, none, none, some date, some seq⟩ })
  | .ok (.difference (.tooLong pts)) => (.again, (l.reachPts id (some pts)).storeStateUpdate)
  | .ok (.difference (.full newMessages otherUpdates state)) =>
    (.leave, (l.reach id state).deliver id state.pts newMessages otherUpdates)
  | .ok (.difference (.slice newMessages otherUpdates state)) =>
    -- `no_progress`
    (if state.pts = requestPts then .leave else .again,
      (l.reach id state).deliver id state.pts newMessages otherUpdates)
  | .ok (.channelDifference (.empty pts)) => (.leave, l.reachPts id (some pts))
  | .ok (.channelDifference (.tooLong dialogPts)) =>
    (.again, (l.reachPts id dialogPts).storeStateUpdate)
  | .ok (.channelDifference (.difference final pts newMessages otherUpdates)) =>
    (if final then .leave else .again,
      (l.reachPts id (some pts)).deliver id pts newMessages otherUpdates)

/-- The loop once its request is made. -/
def ask (l : Loop α) : Loop α := { l with requests := l.requests + 1 }

/-- One iteration: a request, unless it cannot be serialized, and its answer. -/
def iterate (server : Server α) (id : ℤ) (l : Loop α) : Control × Loop α :=
  if (Request.ofState id l.localPts l.localDate).isSerializable then
    let requestPts := l.localPts.getD 0
    step id requestPts l.ask (server id l.requests requestPts)
  else (.raised, l)

/-- The loop, for at most `fuel` requests. -/
def run (server : Server α) (id : ℤ) : ℕ → Loop α → Option (Outcome (Loop α))
  | 0, _ => none
  | fuel + 1, l =>
    match l.iterate server id with
    | (.again, l) => run server id fuel l
    | (.leave, l) => some (.returned l)
    | (.raised, l) => some (.raised l)

/-- What is left to do after the loop. -/
def finish (l : Loop α) : Recovery α :=
  if l.stateDeleted then l.recovery else l.storeStateUpdate.recovery

end Loop

/-! ### A call -/

/-- The body of the loop over the stored states. -/
def recoverState (server : Server α) (fuel : ℕ) (r : Recovery α) (s : UpdateState) :
    Option (Outcome (Recovery α)) :=
  if s.pts = none then some (.returned r)
  else
    ((Loop.start r s).run server s.id fuel).map fun
      | .returned l => .returned l.finish
      | .raised l => .raised l.recovery

def recoverStates (server : Server α) (fuel : ℕ) :
    Recovery α → List UpdateState → Option (Outcome (Recovery α))
  | r, [] => some (.returned r)
  | r, s :: states =>
    match recoverState server fuel r s with
    | some (.returned r) => recoverStates server fuel r states
    | o => o

/-- `recover_gaps(ids)`, for at most `fuel` requests for one state.  It returns the two
counters. -/
def recoverGaps (server : Server α) (fuel : ℕ) (t : UpdateTable) (ids : Option (List ℤ)) :
    Option (Outcome (Recovery α)) :=
  recoverStates server fuel { updateStates := t } (t.getUpdateStates ids)

end Pyrogram
