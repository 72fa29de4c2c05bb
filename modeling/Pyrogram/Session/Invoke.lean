import Pyrogram.Session.Requests

/-!
# Calls of `Session.invoke`

A call sends its query until a send returns: `send` itself sends again after a
`BadServerSalt`, and `invoke` after an error that may pass.  Each send has an id of its
own, and what is returned is what `handle_packet` put under that id.

## Main definitions

* `Call.except` — the `except` clauses of `invoke`.
* `step` — one step of a call, of a send or of the session.
* `SentUnder` — a call has sent its query under an id.
* `Brought` — the value a message brings for the id it names.

## Main results

* `returned_brought` — **what a call returns was brought by a message that names an id
  under which this call has sent this query.**
-/

namespace Pyrogram.Invoke

open Runs Requests

/-- What `invoke` tells apart of the query inside the envelopes. -/
inductive Inner
  /-- `SaveFilePart` or `SaveBigFilePart` -/
  | saveFilePart
  | getConfig
  | other
  deriving DecidableEq, Repr

structure Query where
  id : ℕ
  kind : MsgFactory.Kind := .other
  inner : Inner := .other
  deriving DecidableEq, Repr

/-- The exceptions that `invoke` tells apart. -/
inductive Exc
  /-- `FloodWait` or `FloodPremiumWait` -/
  | floodWait (seconds : Option ℕ)
  /-- `InternalServerError` or `ServiceUnavailable` -/
  | unavailable
  | osError (permission : Bool)
  | other (randomIdDuplicate : Bool)
  deriving DecidableEq, Repr

/-- The publication policy in force. -/
inductive Policy
  | none
  /-- `scoped_publication` -/
  | album
  /-- `_invoke_ordinary_publication` -/
  | ordinary (maxRetries : ℕ)
  deriving DecidableEq, Repr

def Policy.isOrdinary : Policy → Bool
  | .ordinary _ => true
  | .none | .album => false

/-- Where a call is. -/
inductive Point
  /-- It waits for `is_started`. -/
  | starting (attempt : ℕ)
  | sending (attempt send : ℕ)
  /-- It waits before it tries again. -/
  | sleeping (attempt : ℕ)
  | returned (value : Option Requests.Value)
  | raised
  deriving DecidableEq, Repr

structure Call where
  query : Query
  policy : Policy
  retries : ℕ
  sleepThreshold : ℤ
  point : Point
  deriving DecidableEq, Repr

/-- The call and the query that a send is for. -/
structure Sender where
  call : ℕ
  query : Query
  deriving DecidableEq, Repr

structure State where
  session : Requests.Session := {}
  /-- Of each send, unless something else has called it. -/
  senders : List (Option Sender) := []
  calls : List Call := []
  /-- What `handle_packet` got. -/
  bodies : List Requests.Body := []

/-! ### The calls -/

/-- `PermissionError` ends the call. -/
def Call.endsOnPermission (call : Call) : Bool :=
  call.query.inner = .saveFilePart || call.query.inner = .getConfig && call.retries = 1 &&
    call.sleepThreshold = 0

/-- The `except` clauses, after an attempt; the hooks of a policy may end the call. -/
def Call.except (call : Call) (attempt : ℕ) (exc : Exc) (hooks : Bool) : Point :=
  match call.policy with
  | .none =>
      match exc with
      | .floodWait none => .raised
      | .floodWait (some amount) =>
          if call.sleepThreshold < amount ∧ 0 ≤ call.sleepThreshold then .raised
            else .sleeping attempt
      | .unavailable => .sleeping attempt
      | .osError permission =>
          if permission && call.endsOnPermission then .raised else .sleeping attempt
      | .other _ => .raised
  | .album => .raised
  | .ordinary maxRetries =>
      match exc with
      | .osError _ | .unavailable | .other true =>
          if attempt < maxRetries ∧ hooks then .sleeping attempt else .raised
      | .floodWait _ | .other false => .raised

section Step

variable (clock : ℕ → ℤ) (raiseIt : Requests.Answer → Exc) (receiverExc : ℕ → Exc)

def excOf : Failure → Exc
  | .sessionStopped => .osError false
  | .receiver exc => receiverExc exc

/-- Where a call is when its send has ended; `exc` is what the send has raised, and not
received. -/
def Call.ended (call : Call) (attempt : ℕ) (exc : Exc) (hooks : Bool) : Requests.Outcome → Point
  | .returned answer =>
      if call.policy.isOrdinary && !hooks then .raised else .returned (some answer.value)
  | .nothing => .returned none
  | .resent _ next => .sending attempt next
  | .rpcError answer => call.except attempt (raiseIt answer) hooks
  | .failed failure => call.except attempt (excOf receiverExc failure) hooks
  | .timedOut => call.except attempt (.osError false) hooks
  | .raised => call.except attempt exc hooks

/-- A call takes up what has become of its send. -/
def Call.settle (call : Call) (send : ℕ) (outcome : Requests.Outcome) (exc : Exc) (hooks : Bool) :
    Call :=
  match call.point with
  | .sending attempt k =>
      if k = send then { call with point := call.ended raiseIt receiverExc attempt exc hooks outcome
        } else call
  | .starting _ | .sleeping _ | .returned _ | .raised => call

inductive Event
  | invoked (query : Query) (policy : Policy) (retries : ℕ) (sleepThreshold : ℤ)
  /-- `is_started` is set. -/
  | ready (call : ℕ)
  /-- The time for that is over. -/
  | notReady (call : ℕ) (hooks : Bool)
  | slept (call : ℕ)
  /-- A call is cancelled, or a hook raises, outside its sends. -/
  | raised (call : ℕ)
  /-- A step of the sends and the session; `exc` is what a send raises. -/
  | session (e : Requests.Event) (exc : Exc) (hooks : Bool)
  deriving DecidableEq, Repr

def State.set (s : State) (i : ℕ) (call : Call) (point : Point) : State :=
  { s with calls := s.calls.set i { call with point } }

/-- An attempt: `send` is called. -/
def State.send (s : State) (i : ℕ) (call : Call) (attempt : ℕ) : Option State :=
  (begin clock s.session call.query.kind true).map fun session =>
    { s.set i call (.sending attempt s.session.sends.length) with
      session := session
      senders := s.senders ++ [some ⟨i, call.query⟩] }

/-- The sends have made a step. -/
def State.advance (s : State) (e : Requests.Event) (session : Requests.Session) : State :=
  { s with
    session := session
    -- what a send sends again is for the same call
    senders := s.senders ++ List.replicate (session.sends.length - s.session.sends.length)
      (e.send.bind fun j => s.senders[j]?.join)
    bodies := match e with
      | .answered body => body :: s.bodies
      | _ => s.bodies }

/-- The call of a send that has ended goes on. -/
def State.settle (s : State) (j : ℕ) (exc : Exc) (hooks : Bool) : State :=
  match s.senders[j]?.join, s.session.sends[j]?.map Send.point with
  | some sender, some (.left outcome) =>
      { s with calls := s.calls.modify sender.call fun call =>
        call.settle raiseIt receiverExc j outcome exc hooks }
  | _, _ => s

def step (s : State) : Event → Option State
  | .invoked query policy retries sleepThreshold =>
      some { s with calls := s.calls ++ [{
        query, policy, sleepThreshold
        retries := if policy = .album then 1 else retries
        point := .starting (if policy.isOrdinary then 0 else 1) }] }
  | .ready i =>
      match s.calls[i]? with
      | some call =>
          match call.point with
          | .starting attempt =>
              if call.policy.isOrdinary || attempt ≤ call.retries then s.send clock i call attempt
              else some (s.set i call .raised)
          | _ => none
      | none => none
  | .notReady i hooks =>
      match s.calls[i]? with
      | some call =>
          match call.point, call.policy with
          | .starting attempt, .ordinary maxRetries =>
              some (s.set i call (if attempt = maxRetries ∨ hooks = false then .raised
                else .sleeping attempt))
          | .starting _, _ => some (s.set i call .raised)
          | _, _ => none
      | none => none
  | .slept i =>
      match s.calls[i]? with
      | some call =>
          match call.point, call.policy with
          | .sleeping attempt, .ordinary _ => some (s.set i call (.starting (attempt + 1)))
          | .sleeping attempt, _ =>
              if attempt < call.retries then s.send clock i call (attempt + 1)
                else some (s.set i call .raised)
          | _, _ => none
      | none => none
  | .raised i =>
      match s.calls[i]? with
      | some call =>
          match call.point with
          | .starting _ | .sleeping _ => some (s.set i call .raised)
          | _ => none
      | none => none
  | .session e exc hooks =>
      (Requests.step clock s.session e).map fun session =>
        let s := s.advance e session
        match e.send with
        | some j => s.settle raiseIt receiverExc j exc hooks
        | none => s

end Step

/-! ### Where a value comes from -/

/-- The call has sent the query under the id. -/
def State.SentUnder (s : State) (i : ℕ) (query : Query) (msgId : ℤ) : Prop :=
  ∃ (j : ℕ) (send : Send), s.senders[j]? = some (some ⟨i, query⟩) ∧
    s.session.sends[j]? = some send ∧ send.msgId = msgId

/-- One of the messages brings the value for the id: the result of an `RpcResult`, or a
message that is its own value.  A value is never an error, nor the notice that the salt
was bad. -/
inductive Brought (bodies : List Requests.Body) (msgId : ℤ) : Requests.Value → Prop
  | result {value : Requests.Value} (h : .rpcResult msgId value ∈ bodies)
      (herror : ∀ error, value ≠ .rpcError error)
      (hsalt : value ≠ .badServerSalt) : Brought bodies msgId value
  | pong (h : .pong msgId ∈ bodies) : Brought bodies msgId .pong
  | futureSalts (h : .futureSalts msgId ∈ bodies) : Brought bodies msgId .futureSalts
  | badMsgNotification {errorCode : ℕ} (h : .badMsgNotification msgId errorCode ∈ bodies) :
      Brought bodies msgId (.badMsgNotification errorCode)

theorem Brought.mono {bodies bodies' : List Requests.Body} {msgId : ℤ} {value : Requests.Value}
    (h : Brought bodies msgId value)
    (hbodies : ∀ body ∈ bodies, body ∈ bodies') : Brought bodies' msgId value := by
  cases h with
  | result h herror hsalt => exact .result (hbodies _ h) herror hsalt
  | pong h => exact .pong (hbodies _ h)
  | futureSalts h => exact .futureSalts (hbodies _ h)
  | badMsgNotification h => exact .badMsgNotification (hbodies _ h)

/-- What `send` returns was brought by the message that it got. -/
theorem brought_of_answer {bodies : List Requests.Body} {body : Requests.Body}
    {answer : Requests.Answer} (hbody : body ∈ bodies)
    (hanswer : body.answer = some answer) (herror : ∀ error, answer.value ≠ .rpcError error)
    (hsalt : answer.value ≠ .badServerSalt) : Brought bodies answer.msgId answer.value := by
  cases body <;> cases hanswer
  · exact .result hbody herror hsalt
  · exact .pong hbody
  · exact absurd rfl hsalt
  · exact .badMsgNotification hbody
  · exact .futureSalts hbody

/-- The value is one that came for the query of the call. -/
def State.Accounts (s : State) (i : ℕ) (query : Query) (value : Option Requests.Value) : Prop :=
  ∃ v msgId, value = some v ∧ s.SentUnder i query msgId ∧ Brought s.bodies msgId v

structure Invariant (s : State) : Prop where
  session : Requests.Invariant s.session
  received : ∀ answer ∈ s.session.received, ∃ body ∈ s.bodies, body.answer = some answer
  senders : s.senders.length = s.session.sends.length
  /-- A send that a call has made is for the query of the call, and waits. -/
  owned : ∀ (j : ℕ) sender, s.senders[j]? = some (some sender) →
    (∃ call, s.calls[sender.call]? = some call ∧ call.query = sender.query) ∧
      ∃ send, s.session.sends[j]? = some send ∧ send.waitResponse = true
  returned : ∀ (i : ℕ) call value, s.calls[i]? = some call → call.point = .returned value →
    s.Accounts i call.query value

theorem invariant_empty : Invariant {} := by
  refine ⟨Requests.invariant_empty, ?_, rfl, ?_, ?_⟩
  · exact fun _ h => absurd h List.not_mem_nil
  · exact fun _ _ h => nomatch h
  · exact fun _ _ _ h => nomatch h

/-- The calls go on. -/
theorem Invariant.of_calls {s : State} (h : Invariant s) {calls : List Call}
    (hkept : ∀ (i : ℕ) call, s.calls[i]? = some call → ∃ call', calls[i]? = some call' ∧
      call'.query = call.query)
    (hreturned : ∀ (i : ℕ) call value, calls[i]? = some call → call.point = .returned value →
      s.Accounts i call.query value) :
    Invariant { s with calls := calls } := by
  refine ⟨h.session, h.received, h.senders, ?_, hreturned⟩
  intro j sender hj
  obtain ⟨⟨call, hcall, hquery⟩, hsend⟩ := h.owned j sender hj
  obtain ⟨call', hcall', hquery'⟩ := hkept sender.call call hcall
  exact ⟨⟨call', hcall', hquery'.trans hquery⟩, hsend⟩

variable {clock : ℕ → ℤ} {raiseIt : Requests.Answer → Exc} {receiverExc : ℕ → Exc} {s s' : State}
    {i : ℕ} {call : Call}

theorem State.Accounts.mono {query : Query} {value : Option Requests.Value}
    (h : s.Accounts i query value)
    (hsenders : ∀ (j : ℕ) sender, s.senders[j]? = some sender → s'.senders[j]? = some sender)
    (hsends : ∀ (j : ℕ) send, s.session.sends[j]? = some send →
      ∃ send', s'.session.sends[j]? = some send' ∧ send'.msgId = send.msgId)
    (hbodies : ∀ body ∈ s.bodies, body ∈ s'.bodies) : s'.Accounts i query value := by
  obtain ⟨v, msgId, hvalue, ⟨j, send, hsender, hsend, hmsgId⟩, hbrought⟩ := h
  obtain ⟨send', hsend', hmsgId'⟩ := hsends j send hsend
  exact ⟨v, msgId, hvalue, ⟨j, send', hsenders j _ hsender, hsend', hmsgId'.trans hmsgId⟩,
    hbrought.mono hbodies⟩

/-! ### The steps of a call -/

theorem Invariant.set (h : Invariant s) (hcall : s.calls[i]? = some call) {point : Point}
    (hpoint : ∀ value, point ≠ .returned value) :
    Invariant (s.set i call point) := by
  have hlt : i < s.calls.length := (List.getElem?_eq_some_iff.mp hcall).1
  refine h.of_calls ?_ ?_
  · intro k call' hcall'
    rcases eq_or_ne i k with rfl | hne
    · obtain rfl : call = call' := Option.some.inj (hcall.symm.trans hcall')
      exact ⟨_, List.getElem?_set_self hlt, rfl⟩
    · exact ⟨call', (List.getElem?_set_ne hne).trans hcall', rfl⟩
  · intro k call' value hcall' hreturned
    rcases eq_or_ne i k with rfl | hne
    · rw [List.getElem?_set_self hlt] at hcall'
      obtain rfl := Option.some.inj hcall'
      exact absurd hreturned (hpoint value)
    · exact h.returned k call' value ((List.getElem?_set_ne hne).symm.trans hcall') hreturned

/-- A call is made. -/
theorem Invariant.invoked (h : Invariant s) {new : Call}
    (hnew : ∀ value, new.point ≠ .returned value) :
    Invariant { s with calls := s.calls ++ [new] } := by
  refine h.of_calls ?_ ?_
  · intro k call' hcall'
    exact ⟨call', (List.getElem?_append_left (List.getElem?_eq_some_iff.mp hcall').1).trans hcall',
      rfl⟩
  · intro k call' value hcall' hreturned
    rcases getElem?_concat_eq_some hcall' with hcall' | ⟨-, rfl⟩
    · exact h.returned k call' value hcall' hreturned
    · exact absurd hreturned (hnew value)

/-- An attempt: the new send is for the query of the call. -/
theorem Invariant.send (h : Invariant s) (hcall : s.calls[i]? = some call) {attempt : ℕ}
    (hsend : s.send clock i call attempt = some s') : Invariant s' := by
  obtain ⟨session, hbegin, rfl⟩ := Option.map_eq_some_iff.mp hsend
  have hset : Invariant (s.set i call (.sending attempt s.session.sends.length)) :=
    h.set hcall fun _ h => nomatch h
  have hinv : Requests.Invariant session :=
    (Requests.invariant_step (.called call.query.kind true) h.session hbegin).1
  obtain ⟨msgId, factory, results, rfl⟩ := begin_eq_some hbegin
  have hold : ∀ {j : ℕ} {send : Send}, s.session.sends[j]? = some send →
      (s.session.sends ++
        [({ msgId := msgId, kind := call.query.kind, waitResponse := true } : Send)])[j]? =
        some send := fun hj =>
    (List.getElem?_append_left (List.getElem?_eq_some_iff.mp hj).1).trans hj
  -- the send that is begun belongs to the call; the others are those of before
  refine ⟨hinv, h.received, ?_, ?_, ?_⟩
  · simp [h.senders]
  · intro j sender hj
    rcases getElem?_concat_eq_some hj with hj | ⟨rfl, hsender⟩
    · obtain ⟨hquery, send, hsend, hwaits⟩ := hset.owned j sender hj
      exact ⟨hquery, send, hold hsend, hwaits⟩
    · obtain rfl := Option.some.inj hsender
      have hlt : i < s.calls.length := (List.getElem?_eq_some_iff.mp hcall).1
      refine ⟨⟨_, List.getElem?_set_self hlt, rfl⟩,
        { msgId := msgId, kind := call.query.kind, waitResponse := true }, ?_, rfl⟩
      show (s.session.sends ++ [_])[s.senders.length]? = _
      rw [h.senders]
      exact List.getElem?_concat_length
  · intro k call' value hcall' hreturned
    refine (hset.returned k call' value hcall' hreturned).mono ?_ ?_ fun _ => id
    · intro j sender hj
      exact (List.getElem?_append_left (List.getElem?_eq_some_iff.mp hj).1).trans hj
    · intro j send hj
      exact ⟨send, hold hj, rfl⟩

/-! ### The steps of the session -/

/-- The sends make a step, and the calls wait. -/
theorem Invariant.advance (h : Invariant s) {e : Requests.Event} {session : Requests.Session}
    (hstep : Requests.step clock s.session e = some session) : Invariant (s.advance e session) := by
  have hfollows := follows_step e hstep
  -- sends are added, and none is taken away
  have hlength : s.session.sends.length ≤ session.sends.length := by
    by_contra hlt
    have hlast := List.getElem?_eq_getElem (Nat.lt_of_not_le hlt)
    obtain ⟨send', hsend', -⟩ := hfollows.kept _ _ hlast
    exact absurd (List.getElem?_eq_some_iff.mp hsend').1 (lt_irrefl _)
  have hold : ∀ (j : ℕ) sender, s.senders[j]? = some sender →
      (s.advance e session).senders[j]? = some sender := by
    intro j sender hj
    exact (List.getElem?_append_left (List.getElem?_eq_some_iff.mp hj).1).trans hj
  have hbodies : ∀ body ∈ s.bodies, body ∈ (s.advance e session).bodies := by
    intro body hbody
    cases e <;> first | exact hbody | exact List.mem_cons_of_mem _ hbody
  refine ⟨(Requests.invariant_step e h.session hstep).1, ?_, ?_, ?_, ?_⟩
  -- what was received, and by which body
  · intro answer hanswer
    rcases hfollows.received answer hanswer with hanswer | ⟨body, rfl, hbody⟩
    · obtain ⟨body, hmem, hbody⟩ := h.received answer hanswer
      exact ⟨body, hbodies body hmem, hbody⟩
    · exact ⟨body, List.mem_cons_self, hbody⟩
  · simp only [State.advance, List.length_append, List.length_replicate, h.senders]
    omega
  -- each send belongs to the call that began it
  · intro j sender hj
    rcases Nat.lt_or_ge j s.senders.length with hlt | hle
    · obtain ⟨hquery, send, hsend, hwaits⟩ :=
        h.owned j sender ((List.getElem?_append_left hlt).symm.trans hj)
      obtain ⟨send', hsend', -, hsame⟩ := hfollows.kept j send hsend
      exact ⟨hquery, send', hsend', hsame.trans hwaits⟩
    · -- a send that another sends again
      have hnew := (List.getElem?_append_right hle).symm.trans hj
      obtain ⟨hin, hrepeated⟩ := List.getElem?_eq_some_iff.mp hnew
      rw [List.length_replicate] at hin
      rw [List.getElem_replicate] at hrepeated
      obtain ⟨k, hk, hsender⟩ := Option.bind_eq_some_iff.mp hrepeated
      obtain ⟨hquery, send, hsend, hwaits⟩ := h.owned k sender (Option.join_eq_some_iff.mp hsender)
      refine ⟨hquery, ?_⟩
      have hj' : j < session.sends.length := by
        have := h.senders
        omega
      have hsend' := List.getElem?_eq_getElem hj'
      obtain ⟨send'', hsend'', hsame⟩ := hfollows.added j k _ (h.senders ▸ hle) hsend' hk
      obtain rfl : send = send'' := Option.some.inj (hsend.symm.trans hsend'')
      exact ⟨_, hsend', hsame.trans hwaits⟩
  -- what was returned stays true: sends and bodies are only added
  · intro k call' value hcall' hreturned
    refine (h.returned k call' value hcall' hreturned).mono hold ?_ hbodies
    intro j send hj
    obtain ⟨send', hsend', hmsgId, -⟩ := hfollows.kept j send hj
    exact ⟨send', hsend', hmsgId⟩

/-- A call is told something by `except`, but no value. -/
theorem except_ne_returned (call : Call) (attempt : ℕ) (exc : Exc) (hooks : Bool)
    (value : Option Requests.Value) :
    call.except attempt exc hooks ≠ .returned value := by
  unfold Call.except
  repeat' split
  all_goals exact fun h => nomatch h

/-- A call returns what its send returns. -/
theorem point_settle {j : ℕ} {outcome : Requests.Outcome} {exc : Exc} {hooks : Bool}
    {value : Option Requests.Value}
    (h : (call.settle raiseIt receiverExc j outcome exc hooks).point = .returned value) :
    call.point = .returned value ∨
      (∃ answer, outcome = .returned answer ∧ value = some answer.value) ∨
      outcome = .nothing := by
  unfold Call.settle at h
  split at h
  · split at h
    · cases outcome with
      | returned answer =>
        change (if _ then Point.raised else .returned (some answer.value)) = .returned value at h
        split at h
        · cases h
        · cases h
          exact .inr (.inl ⟨answer, rfl, rfl⟩)
      | nothing => exact .inr (.inr rfl)
      | resent answer next => cases h
      | rpcError answer => exact absurd h (except_ne_returned _ _ _ _ _)
      | failed failure => exact absurd h (except_ne_returned _ _ _ _ _)
      | timedOut => exact absurd h (except_ne_returned call _ (.osError false) hooks value)
      | raised => exact absurd h (except_ne_returned _ _ _ _ _)
    · exact .inl h
  all_goals exact .inl h

theorem query_settle (call : Call) (j : ℕ) (outcome : Requests.Outcome) (exc : Exc) (hooks : Bool) :
    (call.settle raiseIt receiverExc j outcome exc hooks).query = call.query := by
  unfold Call.settle
  split
  · split <;> rfl
  all_goals rfl

/-- The call of a send that has ended gets what came under the id of that send. -/
theorem Invariant.settle (h : Invariant s) {j : ℕ} {exc : Exc} {hooks : Bool}
    (hended : ∀ send outcome, s.session.sends[j]? = some send → send.point = .left outcome →
      outcome.Final ∨ ∃ answer next, outcome = .resent answer next) :
    Invariant (s.settle raiseIt receiverExc j exc hooks) := by
  unfold State.settle
  split
  · rename_i sender outcome hsender hpoint
    have hsender : s.senders[j]? = some (some sender) := Option.join_eq_some_iff.mp hsender
    obtain ⟨send, hsend, hleft⟩ := Option.map_eq_some_iff.mp hpoint
    -- the send belongs to a call, and that call waits for an answer
    obtain ⟨⟨call, hcall, hquery⟩, send', hsend', hwaits⟩ := h.owned j sender hsender
    obtain rfl : send = send' := Option.some.inj (hsend.symm.trans hsend')
    refine h.of_calls ?_ ?_
    -- the queries are those of before
    · intro k call' hcall'
      rcases eq_or_ne sender.call k with rfl | hne
      · exact ⟨_, (List.getElem?_modify_eq ..).trans (congrArg (Option.map _) hcall'),
          query_settle ..⟩
      · exact ⟨call', (List.getElem?_modify_ne _ _ hne).trans hcall', rfl⟩
    · intro k call' value hcall' hreturned
      rcases eq_or_ne sender.call k with rfl | hne
      · rw [List.getElem?_modify_eq, hcall] at hcall'
        obtain rfl := Option.some.inj hcall'
        rw [query_settle]
        have haccords := (h.session.sends j send hsend).outcome outcome hleft
        -- the call has returned before, returns this answer, or returns without one
        rcases point_settle hreturned with hreturned | ⟨answer, rfl, rfl⟩ | rfl
        · exact h.returned _ call value hcall hreturned
        · rcases hended send _ hsend hleft with hfinal | ⟨_, _, hresent⟩
          · obtain ⟨hreceived, hmsgId⟩ := haccords
            obtain ⟨body, hbody, hanswer⟩ := h.received answer hreceived
            refine ⟨answer.value, answer.msgId, rfl, ⟨j, send, ?_, hsend, hmsgId.symm⟩, ?_⟩
            · rw [hsender, hquery]
            · exact brought_of_answer hbody hanswer hfinal.1 hfinal.2
          · cases hresent
        · -- the call waits for its answer
          have hnothing : send.waitResponse = false := haccords
          rw [hwaits] at hnothing
          cases hnothing
      · exact h.returned k call' value ((List.getElem?_modify_ne _ _ hne).symm.trans hcall')
          hreturned
  · exact h

/-- **What every step keeps.** -/
theorem invariant_step (e : Event) (h : Invariant s)
    (hstep : step clock raiseIt receiverExc s e = some s') : Invariant s' := by
  -- all events but those of the session change one call only
  cases e with
  | invoked query policy retries sleepThreshold =>
    obtain rfl := Option.some.inj hstep
    exact h.invoked fun _ h => nomatch h
  | ready i =>
    simp only [step] at hstep
    split at hstep
    · rename_i call hcall
      split at hstep
      · split at hstep
        · exact h.send hcall hstep
        · exact Option.some.inj hstep ▸ h.set hcall fun _ h => nomatch h
      · cases hstep
    · cases hstep
  | notReady i hooks =>
    simp only [step] at hstep
    split at hstep
    · rename_i call hcall
      split at hstep
      · refine Option.some.inj hstep ▸ h.set hcall ?_
        split <;> exact fun _ h => nomatch h
      · exact Option.some.inj hstep ▸ h.set hcall fun _ h => nomatch h
      · cases hstep
    · cases hstep
  | slept i =>
    simp only [step] at hstep
    split at hstep
    · rename_i call hcall
      split at hstep
      · exact Option.some.inj hstep ▸ h.set hcall fun _ h => nomatch h
      · split at hstep
        · exact h.send hcall hstep
        · exact Option.some.inj hstep ▸ h.set hcall fun _ h => nomatch h
      · cases hstep
    · cases hstep
  | raised i =>
    simp only [step] at hstep
    split at hstep
    · rename_i call hcall
      split at hstep
      · exact Option.some.inj hstep ▸ h.set hcall fun _ h => nomatch h
      · exact Option.some.inj hstep ▸ h.set hcall fun _ h => nomatch h
      · cases hstep
    · cases hstep
  -- the event may end a send that a call waits for
  | session e exc hooks =>
    obtain ⟨session, hsession, rfl⟩ := Option.map_eq_some_iff.mp hstep
    have hadvance := h.advance hsession
    dsimp only
    split
    · rename_i j he
      refine hadvance.settle ?_
      intro send outcome hsend hleft
      exact (follows_step e hsession).ended j send outcome he hsend hleft
    · exact hadvance

/-- **What a call returns was brought by a message that names an id under which this call
has sent this query**, whatever the order of the messages, stops, time-outs and retries. -/
theorem returned_brought (clock : ℕ → ℤ) (raiseIt : Requests.Answer → Exc) (receiverExc : ℕ → Exc)
    (es : List Event) (t : State)
    (hrun : run (step clock raiseIt receiverExc) {} es = some t) (i : ℕ) (call : Call)
    (value : Option Requests.Value)
    (hcall : t.calls[i]? = some call) (hreturned : call.point = .returned value) :
    ∃ v msgId, value = some v ∧ t.SentUnder i call.query msgId ∧ Brought t.bodies msgId v := by
  have hinv : Invariant t := by
    refine run_of_invariant ?_ invariant_empty hrun
    intro s e s' h hstep
    exact invariant_step e h hstep
  exact hinv.returned i call value hcall hreturned

/-- A step of the sends in which nothing raises. -/
def session (e : Requests.Event) : Event := .session e (.other false) true

/-- A call whose first send meets a bad salt, whose second is never answered, and whose
third is. -/
def retriedRun : List Event :=
  [.invoked ⟨0, .other, .other⟩ .none 3 10, .ready 0, session (.packed 0), session (.sent 0),
    session (.answered (.badServerSalt 4)), session (.woken 0 false), session (.packed 1),
      session (.sent 1),
    session (.woken 1 true), .slept 0, session (.packed 2), session (.sent 2),
    session (.answered (.rpcResult 12 (.object 7))), session (.woken 2 false)]

theorem returned_brought_retried :
    ∃ t, run (step (fun _ => 0) (fun _ => .other false) fun _ => .other false) {} retriedRun =
    some t ∧
    ∃ v msgId, some (Value.object 7) = some v ∧ t.SentUnder 0 ⟨0, .other, .other⟩ msgId ∧
      Brought t.bodies msgId v := by
  have hcalls : (run (step (fun _ => 0) (fun _ => .other false) fun _ => .other false) {}
    retriedRun).map State.calls =
      some [⟨⟨0, .other, .other⟩, .none, 3, 10, .returned (some (.object 7))⟩] := by decide
  obtain ⟨t, hrun, hcalls⟩ := Option.map_eq_some_iff.mp hcalls
  have hcall : t.calls[0]? =
      some ⟨⟨0, .other, .other⟩, .none, 3, 10, .returned (some (.object 7))⟩ := by
    rw [hcalls]
    rfl
  exact ⟨t, hrun, returned_brought _ _ _ retriedRun t hrun 0 _ _ hcall rfl⟩

/-- A call that gets one message under the id of its send. -/
def answeredRun (kind : MsgFactory.Kind) (body : Requests.Body) : List Event :=
  [.invoked ⟨0, kind, .other⟩ .none 3 10, .ready 0, session (.packed 0), session (.sent 0),
    session (.answered body),
    session (.woken 0 false)]

/-- The call has returned the value, and no `RpcResult` has come. -/
def ReturnedWithoutResult (t : State) (value : Requests.Value) : Prop :=
  (∃ call, t.calls[0]? = some call ∧ call.point = .returned (some value)) ∧
    ∀ msgId result, Requests.Body.rpcResult msgId result ∉ t.bodies

/-- A ping is answered with a `Pong`; and a notice that a query was not accepted is
returned in the place of its result. -/
theorem returned_without_result :
    (∃ t, run (step (fun _ => 0) (fun _ => .other false) fun _ => .other false) {}
      (answeredRun .ping (.pong 4)) = some t ∧
      ReturnedWithoutResult t .pong) ∧
    ∃ t, run (step (fun _ => 0) (fun _ => .other false) fun _ => .other false) {}
        (answeredRun .other (.badMsgNotification 4 16)) = some t ∧
      ReturnedWithoutResult t (.badMsgNotification 16) := by
  constructor
  · refine ⟨_, rfl, ⟨_, rfl, rfl⟩, ?_⟩
    intro msgId result h
    cases List.mem_singleton.mp h
  · refine ⟨_, rfl, ⟨_, rfl, rfl⟩, ?_⟩
    intro msgId result h
    cases List.mem_singleton.mp h

end Pyrogram.Invoke
