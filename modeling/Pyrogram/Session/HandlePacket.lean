import Pyrogram.History
import Pyrogram.Runs
import Mathlib.Data.Finset.Card
import Mathlib.Algebra.Order.Ring.Int

/-!
# Receiving packets

`Session.handle_packet` and what runs beside it.  `recv_worker` starts one task
per packet, so any number of them interleave on one `Session`; the event loop
switches tasks only where one of them suspends.  The model is one step function
over the session and its tasks.  Its steps are at most as long as the stretches
between two suspension points (each message of a container is a step of its
own), so every schedule of the event loop is a schedule of the model.

`MsgFactory.allocate_message_identity` is awaited in the middle of a message.
Its lock is modelled as it is: a task that finds it held suspends, a task that
finds it free goes on without suspending.

Times are integers in units of 2⁻³² s, the unit message ids are written in, so
`server_time * 2**32` is the server time itself; the readings of `time.time()`
are an arbitrary sequence `clock`, one entry per call.

## Main definitions

* `Session` — the fields of `Session`, `MsgFactory` and `Client` that receiving uses.
* `Session.handleMessage` — one iteration of the loop over the messages of a packet.
* `EventLoop.step` — one step of a `handle_packet` task, or of `send`, `restart`
  or `_stop_resources` beside it.
* `EventLoop.Fresh` — the start of a connection.
-/

namespace Pyrogram

open History

/-! ### Messages -/

/-- The bodies `handle_packet` tells apart; it does not look into the objects of `α`. -/
inductive Body (α : Type)
  | msgDetailedInfo (answerMsgId : ℤ)
  | msgNewDetailedInfo (answerMsgId : ℤ)
  | newSessionCreated
  | badServerSalt (badMsgId newServerSalt : ℤ)
  | badMsgNotification (badMsgId errorCode : ℤ)
  | futureSalts (reqMsgId : ℤ) (salts : α)
  | rpcResult (reqMsgId : ℤ) (result : α)
  | pong (msgId pingId : ℤ)
  /-- Anything else goes to `Client.handle_updates`. -/
  | updates (body : α)
  deriving DecidableEq, Repr

structure Message (α : Type) where
  msgId : ℤ
  seqNo : ℤ
  body : Body α
  deriving DecidableEq, Repr

/-- `seq_no % 2 != 0`: the message has to be acknowledged. -/
abbrev Message.isContentRelated {α : Type} (m : Message α) : Prop := m.seqNo % 2 ≠ 0

/-- What `mtproto.unpack` makes of a packet. -/
inductive Packet (α : Type)
  | message (data : Message α)
  | container (messages : List (Message α))
  /-- A `ValueError`, which `handle_packet` turns into a restart. -/
  | valueError
  /-- Any other exception, which ends the task. -/
  | raised

/-- `data.body.messages if isinstance(data.body, MsgContainer) else [data]`. -/
def Packet.messages {α : Type} : Packet α → List (Message α)
  | .message data => [data]
  | .container messages => messages
  | .valueError | .raised => []

/-! ### The session -/

/-- The value handed to a waiting request: the `result` of an `RpcResult`, else the body. -/
inductive Value (α : Type)
  | result (object : α)
  | body (body : Body α)
  deriving DecidableEq, Repr

/-- A `Result`: the slot a request waits on. -/
structure Result (α : Type) where
  value : Option (Value α) := none
  event : Bool := false
  deriving DecidableEq, Repr

structure Session (α : Type) where
  storedMsgIds : List ℤ := []
  recentMsgIds : List ℤ := []
  pendingAcks : Finset ℤ := ∅
  ignoreCount : ℕ := 0
  /-- The dict `results`. -/
  results : List (ℤ × Result α) := []
  salt : ℤ := 0
  /-- The reasons `schedule_restart` was called with, oldest first. -/
  restartReasons : List String := []
  /-- The bodies `handle_updates` tasks were created for, oldest first. -/
  handledUpdates : List α := []
  /-- `client._server_time_offset`. -/
  serverTimeOffset : ℤ := 0
  /-- How often `time.time()` was called. -/
  clockReads : ℕ := 0
  /-- `msg_factory._last_msg_id`. -/
  lastMsgId : ℤ := 0
  /-- `msg_factory._msg_id_lock`. -/
  msgIdLocked : Bool := false

namespace Session

variable {α : Type} (clock : ℕ → ℤ)

def storedMsgIdsMaxSize : ℕ := 1000 * 2

def acksThreshold : ℕ := 10

def maxConsecutiveIgnored : ℕ := 30

/-- `recent_msg_ids = stored_msg_ids[:30]`. -/
def recentMsgIdsSize : ℕ := 30

/-- `Client.server_time`, at the next clock reading. -/
def serverTime (s : Session α) : ℤ := clock s.clockReads + s.serverTimeOffset

/-- `Client._set_server_time`. -/
def setServerTime (s : Session α) (msgId : ℤ) : Session α :=
  { s with serverTimeOffset := msgId - clock s.clockReads, clockReads := s.clockReads + 1 }

/-- `MsgFactory.allocate_message_identity`; `none` when the caller suspends on the
lock.  There is no await under the lock, so it is released before anyone else runs. -/
def allocateMessageIdentity (s : Session α) : Option (ℤ × Session α) :=
  if s.msgIdLocked then none
  else
    let locked := { s with msgIdLocked := true }
    let baseMsgId := locked.serverTime clock - locked.serverTime clock % 4
    let msgId := if baseMsgId ≤ locked.lastMsgId then locked.lastMsgId + 4 else baseMsgId
    some (msgId, { locked with
      lastMsgId := msgId, clockReads := locked.clockReads + 1, msgIdLocked := false })

/-- What `Long` can write. -/
abbrev FitsLong (n : ℤ) : Prop := -2 ^ 63 ≤ n ∧ n < 2 ^ 63

/-- A `MsgsAck` can be written: the ids it lists, and the id that is allocated for it. -/
def AcksFit (s : Session α) : Prop :=
  (∀ msgId ∈ s.pendingAcks, FitsLong msgId) ∧ ∀ p ∈ (s.allocateMessageIdentity clock).toList,
    FitsLong p.1

instance (s : Session α) : Decidable (s.AcksFit clock) := inferInstanceAs (Decidable (_ ∧ _))

def scheduleRestart (s : Session α) (reason : String) : Session α :=
  { s with restartReasons := s.restartReasons ++ [reason] }

def addAck (s : Session α) (msgId : ℤ) : Session α :=
  { s with pendingAcks := insert msgId s.pendingAcks }

/-- Acknowledge a message that asks for it. -/
def ack (s : Session α) (m : Message α) : Session α :=
  if m.isContentRelated then s.addAck m.msgId else s

/-- `results[msg_id].value = ...; results[msg_id].event.set()`, if `msg_id in results`. -/
def resolve (s : Session α) (msgId : ℤ) (value : Value α) : Session α :=
  { s with results := s.results.map fun r =>
      if r.1 = msgId then (r.1, ⟨some value, true⟩) else r }

/-- What is done with the body of an accepted message. -/
def dispatch (s : Session α) : Body α → Session α
  | .msgDetailedInfo answerMsgId => s.addAck answerMsgId
  | .msgNewDetailedInfo answerMsgId => s.addAck answerMsgId
  | .newSessionCreated => s
  | .badServerSalt badMsgId newServerSalt =>
      resolve { s with salt := newServerSalt } badMsgId
        (.body (.badServerSalt badMsgId newServerSalt))
  | .badMsgNotification badMsgId errorCode =>
      s.resolve badMsgId (.body (.badMsgNotification badMsgId errorCode))
  | .futureSalts reqMsgId salts => s.resolve reqMsgId (.body (.futureSalts reqMsgId salts))
  | .rpcResult reqMsgId result => s.resolve reqMsgId (.result result)
  | .pong msgId pingId => s.resolve msgId (.body (.pong msgId pingId))
  | .updates body => { s with handledUpdates := s.handledUpdates ++ [body] }

/-! ### One message -/

/-- How an iteration of the loop over the messages ends. -/
inductive Verdict
  /-- Already known: acknowledged again, nothing else. -/
  | duplicate
  /-- A `SecurityCheckMismatch`: the loop goes on with the next message. -/
  | discarded
  /-- One mismatch too many: the handler returns. -/
  | restarting
  /-- Inserted into `stored_msg_ids` and acted on. -/
  | accepted
  /-- Waiting for the lock of the message factory. -/
  | suspended
  deriving DecidableEq, Repr

/-- The `except SecurityCheckMismatch` branch. -/
def discard (s : Session α) : Session α × Verdict :=
  let s := { s with ignoreCount := s.ignoreCount + 1 }
  if maxConsecutiveIgnored ≤ s.ignoreCount then (s.scheduleRestart "validation", .restarting)
  else (s, .discarded)

/-- The `else` branch and the rest of the iteration. -/
def accept (s : Session α) (m : Message α) : Session α :=
  let s := { s with storedMsgIds := insort m.msgId s.storedMsgIds, ignoreCount := 0 }
  (s.ack m).dispatch m.body

/-- The time window, and the iteration from there on.  Dividing by `2**32` and
comparing with 30 and -300 is exact, so the comparison is one of integers. -/
def checkTime (s : Session α) (m : Message α) : Session α × Verdict :=
  match s.allocateMessageIdentity clock with
  | none => (s, .suspended)
  | some (msgId, s) =>
      if 30 * 2 ^ 32 < m.msgId - msgId then s.discard
      else if m.msgId - msgId < -300 * 2 ^ 32 then s.discard
      else (s.accept m, .accepted)

/-- A message that is neither in `recent_msg_ids` nor in `stored_msg_ids`. -/
def handleUnknown (s : Session α) (m : Message α) : Session α × Verdict :=
  let s := if m.seqNo = 0 then s.setServerTime clock m.msgId else s
  let s := { s with storedMsgIds := trim storedMsgIdsMaxSize s.storedMsgIds }
  match s.storedMsgIds.head? with
  | none => (s.accept m, .accepted)
  | some lowest => if m.msgId < lowest then s.discard else s.checkTime clock m

/-- The msg_id is in `recent_msg_ids` or in `stored_msg_ids`. -/
abbrev Knows (s : Session α) (msgId : ℤ) : Prop :=
  msgId ∈ s.recentMsgIds ∨ msgId ∈ s.storedMsgIds

/-- One iteration of `for msg in messages`. -/
def handleMessage (s : Session α) (m : Message α) : Session α × Verdict :=
  if s.Knows m.msgId then (s.ack m, .duplicate) else s.handleUnknown clock m

/-! ### What runs beside the handlers -/

/-- The first half of `send`: an id is allocated and a `Result` registered for it. -/
def register (s : Session α) : Option (Session α) :=
  (s.allocateMessageIdentity clock).map fun (msgId, s) =>
    { s with results := (msgId, {}) :: s.results }

/-- The `finally` of `send`. -/
def forget (s : Session α) (msgId : ℤ) : Session α :=
  { s with results := s.results.filter fun r => r.1 ≠ msgId }

/-- The snapshot at the head of `restart`. -/
def restart (s : Session α) : Session α :=
  if s.storedMsgIds ≠ [] then { s with recentMsgIds := s.storedMsgIds.take recentMsgIdsSize } else s

/-- The fields `_stop_resources` resets; `pending_acks` survives. -/
def stopResources (s : Session α) : Session α :=
  { s with ignoreCount := 0, storedMsgIds := [], results := [] }

end Session

/-! ### The event loop -/

/-- Where a `handle_packet` task is suspended. -/
inductive Task (α : Type)
  /-- Not created yet, returned, or cancelled. -/
  | idle
  /-- Ended by an exception that nothing catches. -/
  | raised
  /-- In the executor, unpacking. -/
  | unpacking (packet : Packet α)
  /-- Before the first of these messages. -/
  | iterating (messages : List (Message α))
  /-- Waiting for the lock of the message factory, in the middle of `message`. -/
  | acquiring (message : Message α) (rest : List (Message α))
  /-- Sending a `MsgsAck` with these `msg_ids`. -/
  | sendingAck (msgIds : Finset ℤ)

/-- The session, its tasks, and what has happened so far. -/
structure EventLoop (α : Type) where
  session : Session α := {}
  tasks : ℕ → Task α := fun _ => .idle
  /-- Every id accepted in the life of the session, newest first. -/
  accepted : List ℤ := []
  /-- The ids accepted since `stored_msg_ids` was last cleared, newest first. -/
  inConnection : List ℤ := []
  /-- `accepted` as it was at the last restart. -/
  atRestart : List ℤ := []
  /-- The `msg_ids` of every `MsgsAck` whose `send` returned, newest first. -/
  delivered : List (Finset ℤ) := []

inductive Event (α : Type)
  /-- `recv_worker` creates task `i` for a packet. -/
  | received (i : ℕ) (packet : Packet α)
  /-- Task `i` runs on, up to the next message or suspension. -/
  | resumed (i : ℕ)
  /-- The `send` task `i` waits for returns. -/
  | sendReturned (i : ℕ)
  /-- The `send` task `i` waits for raises `OSError`. -/
  | sendFailed (i : ℕ)
  /-- The `send` task `i` waits for raises anything else. -/
  | sendRaised (i : ℕ)
  | cancelled (i : ℕ)
  /-- A request is registered by `send`. -/
  | registered
  /-- A request is given up by `send`. -/
  | forgotten (msgId : ℤ)
  /-- `restart` takes its snapshot. -/
  | restarted
  /-- `_stop_resources` clears the connection. -/
  | stopped

namespace EventLoop

variable {α : Type} (clock : ℕ → ℤ)

def setTask (l : EventLoop α) (i : ℕ) (t : Task α) : EventLoop α :=
  { l with tasks := Function.update l.tasks i t }

@[simp] theorem session_setTask (l : EventLoop α) (i : ℕ) (t : Task α) :
    (l.setTask i t).session = l.session := rfl

/-- Task `i` has unpacked its packet. -/
def startMessages (l : EventLoop α) (i : ℕ) : Packet α → EventLoop α
  | .valueError => { l.setTask i .idle with session := l.session.scheduleRestart "unpack" }
  | .raised => l.setTask i .raised
  | packet => l.setTask i (.iterating packet.messages)

/-- Task `i` has handled message `m`, with messages `ms` to go. -/
def settle (l : EventLoop α) (i : ℕ) (m : Message α) (ms : List (Message α)) :
    Session α × Session.Verdict → EventLoop α
  | (s, .duplicate) | (s, .discarded) => { l.setTask i (.iterating ms) with session := s }
  | (s, .restarting) => { l.setTask i .idle with session := s }
  | (s, .suspended) => { l.setTask i (.acquiring m ms) with session := s }
  | (s, .accepted) =>
      { l.setTask i (.iterating ms) with
        session := s
        accepted := m.msgId :: l.accepted
        inConnection := m.msgId :: l.inConnection }

/-- Task `i` has handled its last message: it sends the acks, if there are enough.
`MsgFactory.create` allocates an id for the `MsgsAck` first.  Where an id does not fit, writing
the message raises `OverflowError`; the task does nothing else before that. -/
def finishMessages (l : EventLoop α) (i : ℕ) : EventLoop α :=
  if Session.acksThreshold ≤ l.session.pendingAcks.card then
    { l.setTask i (if l.session.AcksFit clock then .sendingAck l.session.pendingAcks
        else .raised) with
      session := match l.session.allocateMessageIdentity clock with
        | some (_, s) => s
        | none => l.session }
  else l.setTask i .idle

/-- Task `i` runs on. -/
def resume (l : EventLoop α) (i : ℕ) : Option (EventLoop α) :=
  match l.tasks i with
  | .unpacking packet => some (l.startMessages i packet)
  | .iterating [] => some (l.finishMessages clock i)
  | .iterating (m :: ms) => some (l.settle i m ms (l.session.handleMessage clock m))
  | .acquiring m ms =>
      if l.session.msgIdLocked then none
      else some (l.settle i m ms (l.session.checkTime clock m))
  | .idle | .raised | .sendingAck _ => none

/-- One step of the event loop. -/
def step (l : EventLoop α) : Event α → Option (EventLoop α)
  | .received i packet =>
      match l.tasks i with
      | .idle | .raised => some (l.setTask i (.unpacking packet))
      | _ => none
  | .resumed i => l.resume clock i
  | .sendReturned i =>
      match l.tasks i with
      | .sendingAck msgIds =>
          some { l.setTask i .idle with
            session := { l.session with pendingAcks := ∅ }
            delivered := msgIds :: l.delivered }
      | _ => none
  | .sendFailed i =>
      match l.tasks i with
      | .sendingAck _ => some (l.setTask i .idle)
      | _ => none
  | .sendRaised i =>
      match l.tasks i with
      | .sendingAck _ => some (l.setTask i .raised)
      | _ => none
  | .cancelled i => some (l.setTask i .idle)
  | .registered => (l.session.register clock).map fun s => { l with session := s }
  | .forgotten msgId => some { l with session := l.session.forget msgId }
  | .restarted => some { l with session := l.session.restart, atRestart := l.accepted }
  | .stopped => some { l with session := l.session.stopResources, inConnection := [] }

/-- A connection starts: nothing has been received on it, and the lock is free. -/
structure Fresh (l : EventLoop α) : Prop where
  storedMsgIds : l.session.storedMsgIds = []
  inConnection : l.inConnection = []
  unlocked : l.session.msgIdLocked = false
  tasks : ∀ i m ms, l.tasks i ≠ .acquiring m ms

end EventLoop

end Pyrogram
