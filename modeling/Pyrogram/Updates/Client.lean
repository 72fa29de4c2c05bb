import Pyrogram.Storage.UpdateState

/-!
# Updates and what a client keeps of them

The updates a server sends, the answers to `GetDifference` and
`GetChannelDifference`, and the parts of `Client` that handling them changes: the
stored update states and what was handed to the dispatcher.  An update is kept to
the attributes the client looks at; the rest of it is an object of `α`, as is a
message.  The dictionaries of users and chats that travel with every update are
left out.

## Main definitions

* `Update`, `Difference`, `ChannelDifference` — what a server sends.
* `Outcome` — how a coroutine ends.
* `Client` — stored update states and the calls of `dispatcher.enqueue`.
-/

namespace Pyrogram

/-! ### What a server sends -/

def zeroChannelId : ℤ := -1000000000000

/-- `utils.get_channel_id`. -/
def getChannelId (channelId : ℕ) : ℤ := zeroChannelId - channelId

/-- The constructors of an update that the client tells apart. -/
inductive UpdateKind
  | newChannelMessage
  | channelTooLong
  | other
  deriving DecidableEq, Repr

/-- An update; an attribute that it lacks, or that is `None`, is `none`. -/
structure Update (α : Type) where
  kind : UpdateKind := .other
  /-- `update.message.peer_id.channel_id`. -/
  messageChannelId : Option ℕ := none
  /-- `update.channel_id`. -/
  channelId : Option ℕ := none
  pts : Option ℤ := none
  qts : Option ℤ := none
  /-- `isinstance(update.message, MessageEmpty)`. -/
  messageEmpty : Bool := false
  content : α
  deriving DecidableEq, Repr

namespace Update

variable {α : Type} (u : Update α)

/-- The channel of an update: that of its message or else its own; `or` passes over 0. -/
def channel : Option ℕ :=
  if u.messageChannelId.getD 0 ≠ 0 then u.messageChannelId else u.channelId

/-- The id of the update state an update counts in. -/
def stateId : ℤ := if u.channel.getD 0 ≠ 0 then getChannelId (u.channel.getD 0) else 0

/-- The cursor an update carries. -/
def updateState : Option UpdateState :=
  if u.pts ≠ none ∨ u.qts ≠ none then some ⟨u.stateId, u.pts, u.qts, none, none⟩ else none

theorem updateState_eq_some {u : Update α} {s : UpdateState} :
    u.updateState = some s ↔
      (u.pts ≠ none ∨ u.qts ≠ none) ∧ s = ⟨u.stateId, u.pts, u.qts, none, none⟩ := by
  unfold updateState
  split <;> simp_all [eq_comm]

end Update

/-- `updates.State`. -/
structure State where
  pts : ℤ
  qts : ℤ
  date : ℤ
  seq : ℤ
  deriving DecidableEq, Repr

/-- An answer to `GetDifference`. -/
inductive Difference (α : Type)
  | empty (date seq : ℤ)
  | full (newMessages : List α) (otherUpdates : List (Update α)) (state : State)
  | slice (newMessages : List α) (otherUpdates : List (Update α)) (intermediateState : State)
  | tooLong (pts : ℤ)
  deriving DecidableEq, Repr

/-- An answer to `GetChannelDifference`. -/
inductive ChannelDifference (α : Type)
  | empty (pts : ℤ)
  /-- The `pts` of a dialog is optional. -/
  | tooLong (dialogPts : Option ℤ)
  | difference (final : Bool) (pts : ℤ) (newMessages : List α) (otherUpdates : List (Update α))
  deriving DecidableEq, Repr

/-- The exceptions of `invoke` that are told apart; a cancellation is an `other`. -/
inductive InvokeError
  | channelPrivate
  | channelInvalid
  | persistentTimestampOutdated
  | persistentTimestampInvalid
  | timeout
  | other
  deriving DecidableEq, Repr

/-! ### Coroutines -/

/-- How a coroutine ends, and the state it leaves. -/
inductive Outcome (σ : Type)
  | returned (s : σ)
  | raised (s : σ)
  deriving DecidableEq, Repr

namespace Outcome

variable {σ τ : Type}

/-- The state left behind either way. -/
def state : Outcome σ → σ
  | returned s => s
  | raised s => s

/-- Go on where the coroutine returned. -/
def bind (o : Outcome σ) (f : σ → Outcome σ) : Outcome σ :=
  match o with
  | returned s => f s
  | raised s => raised s

@[simp] theorem state_returned (s : σ) : (returned s).state = s := rfl

@[simp] theorem state_raised (s : σ) : (raised s).state = s := rfl

@[simp] theorem bind_returned (s : σ) (f : σ → Outcome σ) : (returned s).bind f = f s := rfl

@[simp] theorem bind_raised (s : σ) (f : σ → Outcome σ) : (raised s).bind f = raised s := rfl

end Outcome

/-- How an awaited storage write ends: it is done, it fails without effect, or an
exception is raised after it took effect. -/
inductive Write
  | done
  | failed
  | interrupted
  deriving DecidableEq, Repr

/-! ### The client -/

/-- What is handed to `dispatcher.enqueue`. -/
inductive Enqueued (α : Type)
  /-- An `UpdateNewMessage` made for a message of a difference. -/
  | newMessage (message : α) (pts ptsCount : ℤ)
  | update (u : Update α)
  deriving DecidableEq, Repr

structure Client (α : Type) where
  /-- The table behind `storage`. -/
  updateStates : UpdateTable := Table.empty
  /-- The calls of `dispatcher.enqueue`, oldest first. -/
  enqueued : List (Enqueued α) := []
  /-- The states `storage.set_update_state` has stored, oldest first. -/
  writes : List UpdateState := []

namespace Client

variable {α : Type}

/-- The call of `dispatcher.enqueue`, that drops what it is called with while `_accepting_updates`
is `False`: before the dispatcher has started, once it stops, and for a client with `no_updates`. -/
def enqueue (c : Client α) (e : Enqueued α) : Client α := { c with enqueued := c.enqueued ++ [e] }

/-- A write that takes effect. -/
def store (c : Client α) (s : UpdateState) : Client α :=
  { c with updateStates := c.updateStates.setUpdateState s, writes := c.writes ++ [s] }

/-- `await storage.set_update_state(s)`. -/
def setUpdateState (c : Client α) (s : UpdateState) : Write → Outcome (Client α)
  | .done => .returned (c.store s)
  | .failed => .raised c
  | .interrupted => .raised (c.store s)

@[simp] theorem updateStates_enqueue (c : Client α) (e : Enqueued α) :
    (c.enqueue e).updateStates = c.updateStates := rfl

@[simp] theorem enqueued_enqueue (c : Client α) (e : Enqueued α) :
    (c.enqueue e).enqueued = c.enqueued ++ [e] := rfl

@[simp] theorem writes_enqueue (c : Client α) (e : Enqueued α) :
    (c.enqueue e).writes = c.writes := rfl

@[simp] theorem updateStates_store (c : Client α) (s : UpdateState) :
    (c.store s).updateStates = c.updateStates.setUpdateState s := rfl

@[simp] theorem enqueued_store (c : Client α) (s : UpdateState) :
    (c.store s).enqueued = c.enqueued := rfl

@[simp] theorem writes_store (c : Client α) (s : UpdateState) :
    (c.store s).writes = c.writes ++ [s] := rfl

theorem foldl_enqueue {β : Type} (f : β → Enqueued α) (l : List β) (c : Client α) :
    l.foldl (fun c x => c.enqueue (f x)) c = { c with enqueued := c.enqueued ++ l.map f } := by
  induction l generalizing c with
  | nil => simp
  | cons x l ih => rw [List.foldl_cons, ih]; simp [enqueue]

end Client

end Pyrogram
