import Pyrogram.Updates.Client

/-!
# Handling updates

`Client._handle_updates`.  Every await may raise, a storage write also after it
took effect; how the awaits of one run end is an argument of it, `Awaits`.  The
lock around a run keeps runs apart, so a client handles updates one run after the
other.

## Main definitions

* `Updates` — what the client is given.
* `Client.handleUpdates` — one run.
* `Awaits.handed`, `Awaits.stored`, `Awaits.completes` — how far a run gets.

## Main results

* `Client.handleUpdates_updates` — what a run over a batch leaves behind.
-/

namespace Pyrogram

variable {α : Type}

/-! ### A run -/

/-- What `handle_updates` is given. -/
inductive Updates (α : Type)
  /-- `Updates` or `UpdatesCombined`. -/
  | updates (updates : List (Update α)) (date seq : ℤ)
  /-- `UpdateShortMessage` or `UpdateShortChatMessage`. -/
  | shortMessage (pts ptsCount date : ℤ)
  | short (update : Update α)
  | tooLong
  deriving DecidableEq, Repr

/-- How the awaits of a run end. -/
structure Awaits (α : Type) where
  /-- `fetch_peers(updates.users)`: whether one of them is min, or an exception. -/
  fetchUsers : Option Bool := some false
  fetchChats : Option Bool := some false
  /-- `resolve_peer` and `GetChannelDifference` for an update of the batch. -/
  hydration : ℕ → Except InvokeError Unit := fun _ => .ok ()
  /-- `set_update_state` for an update of the batch. -/
  write : ℕ → Write := fun _ => .done
  /-- `GetDifference`, for a short message. -/
  difference : Except InvokeError (Difference α) := .error .other
  /-- The last `set_update_state`. -/
  lastWrite : Write := .done

/-- The exceptions that a failed hydration may end with without ending the run. -/
def InvokeError.isHydrationFailure : InvokeError → Bool
  | channelPrivate | persistentTimestampOutdated | persistentTimestampInvalid | timeout => true
  | channelInvalid | other => false

namespace Awaits

variable (a : Awaits α)

/-- `is_min`, or an exception. -/
def isMin : Option Bool := a.fetchUsers.bind fun users => a.fetchChats.map fun chats =>
    users || chats

/-- What the hydration of an update lets through. -/
def hydrate (isMin : Bool) (i : ℕ) (u : Update α) : Except InvokeError Unit :=
  if u.kind = .newChannelMessage ∧ isMin ∧ ¬ u.messageEmpty then
    match u.channel with
    -- `get_channel_id(None)` is a `TypeError`
    | none => .error .other
    | some _ =>
      match a.hydration i with
      | .ok () => .ok ()
      | .error e => if e.isHydrationFailure then .ok () else .error e
  else .ok ()

end Awaits

namespace Client

/-- One iteration over the updates of a batch. -/
def handleUpdate (a : Awaits α) (isMin : Bool) (i : ℕ) (c : Client α) (u : Update α) :
    Outcome (Client α) :=
  match a.hydrate isMin i u with
  | .error _ => .raised c
  | .ok () =>
    let c := c.enqueue (.update u)
    match u.updateState with
    | none => .returned c
    | some s => c.setUpdateState s (a.write i)

/-- The loop over the updates of a batch, from the `i`-th on. -/
def handleAll (a : Awaits α) (isMin : Bool) : ℕ → Client α → List (Update α) → Outcome (Client α)
  | _, c, [] => .returned c
  | i, c, u :: us => (c.handleUpdate a isMin i u).bind fun c => handleAll a isMin (i + 1) c us

/-- `_handle_updates`. -/
def handleUpdates (a : Awaits α) (c : Client α) : Updates α → Outcome (Client α)
  | .updates us date seq =>
    match a.isMin with
    | none => .raised c
    | some isMin =>
      (c.handleAll a isMin 0 us).bind fun c =>
        c.setUpdateState ⟨0, none, none, some date, some seq⟩ a.lastWrite
  | .shortMessage pts ptsCount date =>
    match a.difference with
    | .error _ => .raised c
    -- these two have no `users`: an `AttributeError`
    | .ok (.empty _ _) | .ok (.tooLong _) => .raised c
    | .ok (.full newMessages otherUpdates _) | .ok (.slice newMessages otherUpdates _) =>
      let c := newMessages.foldl (fun c m => c.enqueue (.newMessage m pts ptsCount)) c
      let c := otherUpdates.foldl (fun c u => c.enqueue (.update u)) c
      c.setUpdateState ⟨0, some pts, none, some date, none⟩ a.lastWrite
  | .short u => .returned (c.enqueue (.update u))
  | .tooLong => .returned c

end Client

/-! ### How far a run gets -/

namespace Awaits

variable (a : Awaits α) (isMin : Bool)

/-- The updates that are handed to the dispatcher. -/
def handed : ℕ → List (Update α) → List (Update α)
  | _, [] => []
  | i, u :: us =>
    match a.hydrate isMin i u with
    | .error _ => []
    | .ok () => u :: if u.updateState = none ∨ a.write i = .done then handed (i + 1) us else []

/-- The updates whose cursor is stored. -/
def stored : ℕ → List (Update α) → List (Update α)
  | _, [] => []
  | i, u :: us =>
    match a.hydrate isMin i u with
    | .error _ => []
    | .ok () =>
      if u.updateState = none then stored (i + 1) us
      else
        match a.write i with
        | .done => u :: stored (i + 1) us
        | .failed => []
        | .interrupted => [u]

/-- The loop gets through all updates. -/
def completes : ℕ → List (Update α) → Bool
  | _, [] => true
  | i, u :: us =>
    match a.hydrate isMin i u with
    | .error _ => false
    | .ok () => (u.updateState = none ∨ a.write i = .done) && completes (i + 1) us

end Awaits

/-- What a list of calls and a list of writes make of a client. -/
def Client.extend (c : Client α) (us : List (Update α)) (writes : List UpdateState) : Client α where
  updateStates := writes.foldl UpdateTable.setUpdateState c.updateStates
  enqueued := c.enqueued ++ us.map .update
  writes := c.writes ++ writes

namespace Client

variable {a : Awaits α} {isMin : Bool}

@[simp] theorem extend_nil (c : Client α) : c.extend [] [] = c := by
  simp [extend]

theorem extend_cons (c : Client α) (u : Update α) (us : List (Update α))
    (writes : List UpdateState) :
    c.extend (u :: us) writes = (c.enqueue (.update u)).extend us writes := by
  simp [extend]

theorem extend_cons_cons (c : Client α) (u : Update α) (s : UpdateState) (us : List (Update α))
    (writes : List UpdateState) :
    c.extend (u :: us) (s :: writes) = ((c.enqueue (.update u)).store s).extend us writes := by
  simp [extend]

theorem store_extend (c : Client α) (us : List (Update α)) (writes : List UpdateState)
    (s : UpdateState) : (c.extend us writes).store s = c.extend us (writes ++ [s]) := by
  simp [extend, store]

/-- **What the loop over a batch leaves behind**, and whether it raised. -/
theorem handleAll_eq (i : ℕ) (c : Client α) (us : List (Update α)) :
    c.handleAll a isMin i us =
      if a.completes isMin i us then
        .returned (c.extend (a.handed isMin i us)
          ((a.stored isMin i us).filterMap Update.updateState))
      else
        .raised (c.extend (a.handed isMin i us)
          ((a.stored isMin i us).filterMap Update.updateState)) := by
  induction us generalizing i c with
  | nil => simp [handleAll, Awaits.completes, Awaits.handed, Awaits.stored]
  | cons u us ih =>
    rw [handleAll, handleUpdate, Awaits.completes, Awaits.handed, Awaits.stored]
    cases a.hydrate isMin i u with
    | error e => simp
    | ok _ =>
      cases hs : u.updateState with
      | none => simp [ih, extend_cons]
      | some s =>
        cases hw : a.write i with
        | done => simp [setUpdateState, ih, hs, extend_cons_cons]
        | failed => simp [setUpdateState, extend_cons]
        | interrupted => simp [setUpdateState, hs, extend_cons_cons]

end Client

namespace Awaits

variable (a : Awaits α)

/-- The updates of a batch that a run hands to the dispatcher. -/
def handedOf (us : List (Update α)) : List (Update α) :=
  a.isMin.elim [] fun isMin => a.handed isMin 0 us

/-- The updates of a batch whose cursor a run stores. -/
def storedOf (us : List (Update α)) : List (Update α) :=
  a.isMin.elim [] fun isMin => a.stored isMin 0 us

/-- A run gets through all updates of a batch. -/
def completesAll (us : List (Update α)) : Bool :=
  a.isMin.elim false fun isMin => a.completes isMin 0 us

/-- A run gets through a batch and stores its `date` and `seq`. -/
def storesDate (us : List (Update α)) : Bool := a.completesAll us && a.lastWrite ≠ .failed

/-- What a run over a batch stores. -/
def writesOf (us : List (Update α)) (date seq : ℤ) : List UpdateState :=
  (a.storedOf us).filterMap Update.updateState ++
    if a.storesDate us then [⟨0, none, none, some date, some seq⟩] else []

end Awaits

/-- **What a run over a batch leaves behind.** -/
theorem Client.handleUpdates_updates (a : Awaits α) (c : Client α) (us : List (Update α))
    (date seq : ℤ) :
    (c.handleUpdates a (.updates us date seq)).state =
      c.extend (a.handedOf us) (a.writesOf us date seq) := by
  rw [handleUpdates]
  unfold Awaits.writesOf Awaits.handedOf Awaits.storedOf Awaits.storesDate Awaits.completesAll
  cases a.isMin with
  | none => simp
  | some isMin =>
    simp only [Option.elim_some, handleAll_eq]
    by_cases h : a.completes isMin 0 us = true
    · rcases a.lastWrite with _ | _ | _ <;> simp [h, setUpdateState, store_extend]
    · simp [h]

end Pyrogram
