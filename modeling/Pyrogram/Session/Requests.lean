import Pyrogram.Session.MsgFactory
import Mathlib.Data.List.AList

/-!
# Requests that wait for an answer

`Session.send` registers a `Result` under the id of its message, hands the message
over, waits, and takes the `Result` out again.  Meanwhile `handle_packet` fills it with
the answer, `_stop_resources` and `recv_worker` fail it, and the first of these two
clears the whole dictionary.  Each of them runs between two `await`s of the senders.

A `Result` belongs to one send, so the dictionary holds the number of the send.  The
ids come from the `MsgFactory`, which never suspends its callers.

## Main definitions

* `dispatch` — the end of the loop body of `handle_packet`.
* `failAll` — how the waiters are failed.
* `begin`, `leave`, `conclude` — the parts of `Session.send`.
* `Bookkeeping` — what holds of the dictionary and of the sends that left.

## Main results

* `invariant_step` — what every step keeps.
* `request_bookkeeping` — **every entry belongs to a send that still waits for it, a
  send leaves with what came for itself, and takes out its own entry only.**
-/

namespace Pyrogram.Requests

open Runs

/-! ### The session -/

/-- What `handle_packet` puts into a `Result`. -/
inductive Value
  /-- The result of an `RpcResult`, but for an `RpcError`; objects are told apart by a
  number. -/
  | object (result : ℕ)
  | rpcError (error : ℕ)
  | pong
  | badServerSalt
  | badMsgNotification (errorCode : ℕ)
  | futureSalts
  deriving DecidableEq, Repr

/-- The body of a message that `handle_packet` accepted. -/
inductive Body
  | rpcResult (reqMsgId : ℤ) (result : Value)
  | pong (msgId : ℤ)
  | badServerSalt (badMsgId : ℤ)
  | badMsgNotification (badMsgId : ℤ) (errorCode : ℕ)
  | futureSalts (reqMsgId : ℤ)
  /-- Anything else, which is no answer. -/
  | other
  deriving DecidableEq, Repr

/-- An answer: the id it names and the value it brings. -/
structure Answer where
  msgId : ℤ
  value : Value
  deriving DecidableEq, Repr

def Body.answer : Body → Option Answer
  | .rpcResult reqMsgId result => some ⟨reqMsgId, result⟩
  | .pong msgId => some ⟨msgId, .pong⟩
  | .badServerSalt badMsgId => some ⟨badMsgId, .badServerSalt⟩
  | .badMsgNotification badMsgId errorCode => some ⟨badMsgId, .badMsgNotification errorCode⟩
  | .futureSalts reqMsgId => some ⟨reqMsgId, .futureSalts⟩
  | .other => none

/-- Why no answer can arrive. -/
inductive Failure
  | sessionStopped
  /-- The exception the receiver ended with, or its `ConnectionError`. -/
  | receiver (exc : ℕ)
  deriving DecidableEq, Repr

/-- A `Result`, with the answer the value is from. -/
structure Result where
  value : Option Answer := none
  event : Bool := false
  exception : Option Failure := none
  deriving DecidableEq, Repr

/-- How a send ends. -/
inductive Outcome
  | returned (answer : Answer)
  /-- It raises the `RPCError` of the answer. -/
  | rpcError (answer : Answer)
  /-- It returns what this send of the same query returns. -/
  | resent (answer : Answer) (send : ℕ)
  | failed (failure : Failure)
  | timedOut
  /-- It did not wait for an answer. -/
  | nothing
  /-- An exception of its own, or a cancellation. -/
  | raised
  deriving DecidableEq, Repr

/-- Where a send is. -/
inductive Point
  /-- Its message is packed by the executor. -/
  | packing
  /-- It waits for a hook or for the transport. -/
  | sending
  | waiting
  | left (outcome : Outcome)
  deriving DecidableEq, Repr

/-- A call of `Session.send`. -/
structure Send where
  msgId : ℤ
  kind : MsgFactory.Kind
  waitResponse : Bool
  result : Result := {}
  point : Point := .packing
  deriving DecidableEq, Repr

def Point.isLeft : Point → Bool
  | .left _ => true
  | .packing | .sending | .waiting => false

/-- The send is in its `try` block. -/
abbrev Send.InTry (send : Send) : Prop := send.point.isLeft = false

/-- The send has registered a result, and is in its `try` block. -/
def Send.Waits (send : Send) : Prop := send.waitResponse = true ∧ send.InTry

structure Session where
  factory : MsgFactory := {}
  results : AList fun _ : ℤ => ℕ := ∅
  /-- The sends, in their order. -/
  sends : List Send := []
  /-- The answers `handle_packet` got. -/
  received : List Answer := []
  /-- The failures that were recorded, each with its send. -/
  recorded : List (ℕ × Failure) := []

/-! ### Answers and failures -/

/-- The end of the loop body of `handle_packet`. -/
def dispatch (s : Session) (body : Body) : Session :=
  match body.answer with
  | none => s
  | some answer =>
      let s := { s with received := answer :: s.received }
      match s.results.lookup answer.msgId with
      | none => s
      | some i =>
          { s with sends := s.sends.modify i fun send =>
            { send with result := { send.result with value := some answer, event := true } } }

/-- The sends in the dictionary whose event is not set. -/
def unanswered (s : Session) : List ℕ :=
  (s.results.entries.map Sigma.snd).filter fun i =>
    s.sends[i]?.all fun send => !send.result.event

/-- The loop over `results.values()` that fails the waiters. -/
def failAll (s : Session) (failure : Failure) : Session :=
  { s with
    sends := s.sends.mapIdx fun i send =>
      if i ∈ unanswered s then
        { send with result := { send.result with exception := some failure, event := true } }
      else send
    recorded := (unanswered s).map (fun i => (i, failure)) ++ s.recorded }

/-! ### Sending -/

section Send

variable (clock : ℕ → ℤ)

/-- `MsgFactory.create`; `none` when the caller suspends on a lock. -/
def create (factory : MsgFactory) (kind : MsgFactory.Kind) : Option (ℤ × MsgFactory) := do
  let (msgId, factory) ← factory.allocateMessageIdentity clock
  let (_, factory) ← factory.allocateMessageSequence kind.isContentRelated
  return (msgId, factory)

/-- `Session.send`, up to the executor. -/
def begin (s : Session) (kind : MsgFactory.Kind) (waitResponse : Bool) : Option Session :=
  (create clock s.factory kind).map fun (msgId, factory) =>
    { s with
      factory
      results := if waitResponse then s.results.insert msgId s.sends.length else s.results
      sends := s.sends ++ [{ msgId := msgId, kind := kind, waitResponse := waitResponse }] }

/-- The `finally` of `Session.send`, and then its outcome. -/
def leave (s : Session) (i : ℕ) (send : Send) (outcome : Outcome) : Session :=
  { s with
    results := if s.results.lookup send.msgId = some i then s.results.erase send.msgId
      else s.results
    sends := s.sends.set i { send with point := .left outcome } }

/-- `Session.send` after its `try` block. -/
def conclude (s : Session) (i : ℕ) (send : Send) : Option Session :=
  if send.waitResponse = false then some (leave s i send .nothing)
  else
    match send.result.exception with
    | some failure => some (leave s i send (.failed failure))
    | none =>
        match send.result.value with
        | none => some (leave s i send .timedOut)
        | some answer =>
            match answer.value with
            | .rpcError _ => some (leave s i send (.rpcError answer))
            | .badServerSalt =>
                begin clock (leave s i send (.resent answer s.sends.length)) send.kind
                  send.waitResponse
            | .object _ | .pong | .badMsgNotification _ | .futureSalts =>
                some (leave s i send (.returned answer))

end Send

/-! ### Events -/

inductive Event
  | called (kind : MsgFactory.Kind) (waitResponse : Bool)
  /-- A send is called with a body that has no length. -/
  | rejected (kind : MsgFactory.Kind)
  /-- Another task allocates an id. -/
  | allocated
  /-- The executor is done with the message of a send. -/
  | packed (send : ℕ)
  /-- The payload of a send is handed over. -/
  | sent (send : ℕ)
  /-- The event of a send is set, or its time is over. -/
  | woken (send : ℕ) (timeout : Bool)
  /-- A send is cancelled, or something it calls raises. -/
  | raised (send : ℕ)
  | answered (body : Body)
  | stopped
  | receiverEnded (exc : ℕ)
  deriving DecidableEq, Repr

/-- The send that takes the step. -/
def Event.send : Event → Option ℕ
  | .packed i | .sent i | .woken i _ | .raised i => some i
  | .called _ _ | .rejected _ | .allocated | .answered _ | .stopped | .receiverEnded _ => none

/-- One event. -/
def step (clock : ℕ → ℤ) (s : Session) : Event → Option Session
  | .called kind waitResponse => begin clock s kind waitResponse
  | .rejected kind => (create clock s.factory kind).map fun (_, factory) => { s with factory }
  | .allocated =>
      (s.factory.allocateMessageIdentity clock).map fun (_, factory) => { s with factory }
  | .packed i =>
      match s.sends[i]? with
      | some send =>
          if send.point = .packing then
            some { s with sends := s.sends.set i { send with point := .sending } }
          else none
      | none => none
  | .sent i =>
      match s.sends[i]? with
      | some send =>
          if send.point = .sending then
            if send.waitResponse then
              some { s with sends := s.sends.set i { send with point := .waiting } }
            else conclude clock s i send
          else none
      | none => none
  | .woken i timeout =>
      match s.sends[i]? with
      | some send =>
          if send.point = .waiting ∧ (send.result.event = true ∨ timeout = true) then
            conclude clock s i send
          else none
      | none => none
  | .raised i =>
      match s.sends[i]? with
      | some send => if send.InTry then some (leave s i send .raised) else none
      | none => none
  | .answered body => some (dispatch s body)
  | .stopped =>
      let s := failAll s .sessionStopped
      some { s with results := ∅ }
  | .receiverEnded exc => some (failAll s (.receiver exc))

/-! ### What holds of the sends -/

/-- The outcome is what came for the send. -/
def Outcome.Accords (s : Session) (i : ℕ) (send : Send) : Outcome → Prop
  | .returned answer | .rpcError answer => answer ∈ s.received ∧ answer.msgId = send.msgId
  | .resent answer next =>
      answer ∈ s.received ∧ answer.msgId = send.msgId ∧ i < next ∧ next < s.sends.length
  | .failed failure => (i, failure) ∈ s.recorded
  | .timedOut => send.result.value = none ∧ send.result.exception = none
  | .nothing => send.waitResponse = false
  | .raised => True

/-- What holds of the dictionary and of the sends that left. -/
structure Bookkeeping (s : Session) : Prop where
  /-- An id names one send. -/
  ids : ∀ (i j : ℕ) a b, s.sends[i]? = some a → s.sends[j]? = some b → a.msgId = b.msgId → i = j
  keys : ∀ msgId i, s.results.lookup msgId = some i →
    ∃ send, s.sends[i]? = some send ∧ send.msgId = msgId ∧ send.Waits
  gone : ∀ (i : ℕ) send, s.sends[i]? = some send → ¬ send.InTry → s.results.lookup send.msgId = none
  outcomes : ∀ (i : ℕ) send outcome, s.sends[i]? = some send → send.point = .left outcome →
    outcome.Accords s i send

/-- Only the send itself, or a stop, takes an entry out of the dictionary. -/
def KeepsOthers (s : Session) (e : Event) (s' : Session) : Prop :=
  e = .stopped ∨ ∀ msgId i, s.results.lookup msgId = some i → e.send ≠ some i →
    s'.results.lookup msgId = some i

/-- What is known of a send. -/
structure SendKept (s : Session) (i : ℕ) (send : Send) : Prop where
  value : ∀ answer, send.result.value = some answer → answer ∈ s.received ∧
    answer.msgId = send.msgId
  exception : ∀ failure, send.result.exception = some failure → (i, failure) ∈ s.recorded
  outcome : ∀ outcome, send.point = .left outcome → outcome.Accords s i send

/-- What is known of the ids and the entries. -/
structure Registered (s : Session) : Prop where
  msgIdUnlocked : s.factory.msgIdLocked = false
  seqNoUnlocked : s.factory.seqNoLocked = false
  lastMsgId : s.factory.lastMsgId % 4 = 0
  ids : ∀ (i : ℕ) send, s.sends[i]? = some send → send.msgId ≤ s.factory.lastMsgId
  increasing : ∀ (i j : ℕ) a b, i < j → s.sends[i]? = some a → s.sends[j]? = some b →
    a.msgId < b.msgId
  entries : ∀ msgId i, s.results.lookup msgId = some i →
    ∃ send, s.sends[i]? = some send ∧ send.msgId = msgId ∧ send.Waits

structure Invariant (s : Session) : Prop extends Registered s where
  sends : ∀ (i : ℕ) send, s.sends[i]? = some send → SendKept s i send

variable {clock : ℕ → ℤ} {s s' : Session} {i : ℕ} {send : Send}

theorem invariant_empty : Invariant {} := by
  refine ⟨⟨rfl, rfl, rfl, ?_, ?_, ?_⟩, ?_⟩
  · intro i send h
    cases h
  · intro i j a b _ h
    cases h
  · intro msgId i h
    rw [AList.lookup_empty] at h
    cases h
  · intro i send h
    cases h

/-- An answer names the send that waits for it. -/
theorem Registered.eq_of_msgId_eq (hreg : Registered s) {j : ℕ} {other : Send}
    (h : s.sends[i]? = some send) (h' : s.sends[j]? = some other) (heq : send.msgId = other.msgId) :
    i = j := by
  rcases Nat.lt_trichotomy i j with hlt | rfl | hgt
  · have hless := hreg.increasing i j send other hlt h h'
    omega
  · rfl
  · have hless := hreg.increasing j i other send hgt h' h
    omega

/-- The entry under the id of a send is its own. -/
theorem Registered.lookup_msgId (hreg : Registered s) (hsend : s.sends[i]? = some send) {j : ℕ}
    (h : s.results.lookup send.msgId = some j) : j = i ∧ send.Waits := by
  obtain ⟨other, hother, hmsgId, hwaits⟩ := hreg.entries _ _ h
  obtain rfl := hreg.eq_of_msgId_eq hsend hother hmsgId.symm
  obtain rfl : send = other := Option.some.inj (hsend.symm.trans hother)
  exact ⟨rfl, hwaits⟩

/-- The entry of a send is the one under its id. -/
theorem Registered.msgId_of_lookup (hreg : Registered s) (hsend : s.sends[i]? = some send)
    {msgId : ℤ}
    (h : s.results.lookup msgId = some i) : send.msgId = msgId := by
  obtain ⟨other, hother, hmsgId, -⟩ := hreg.entries _ _ h
  obtain rfl : send = other := Option.some.inj (hsend.symm.trans hother)
  exact hmsgId

/-- What the invariant says of the dictionary and the sends. -/
theorem Invariant.bookkeeping (hinv : Invariant s) : Bookkeeping s := by
  refine ⟨?_, hinv.entries, ?_, ?_⟩
  · intro i j a b ha hb
    exact hinv.eq_of_msgId_eq ha hb
  · intro i send h hleft
    cases hlookup : s.results.lookup send.msgId with
    | none => rfl
    | some j => exact absurd (hinv.lookup_msgId h hlookup).2.2 hleft
  · intro i send outcome h
    exact (hinv.sends i send h).outcome outcome

/-- What the steps of other tasks leave of what is known of a send. -/
theorem SendKept.mono (h : SendKept s i send)
    (hreceived : ∀ answer ∈ s.received, answer ∈ s'.received)
    (hrecorded : ∀ p ∈ s.recorded, p ∈ s'.recorded) (hlength : s.sends.length ≤ s'.sends.length) :
    SendKept s' i send := by
  refine ⟨?_, ?_, ?_⟩
  · intro answer hvalue
    exact (h.value answer hvalue).imp_left (hreceived answer)
  · intro failure hexception
    exact hrecorded _ (h.exception failure hexception)
  · intro outcome houtcome
    have haccords := h.outcome outcome houtcome
    cases outcome with
    | returned answer => exact haccords.imp_left (hreceived answer)
    | rpcError answer => exact haccords.imp_left (hreceived answer)
    | resent answer next =>
      obtain ⟨hmem, hmsgId, hlater, hlt⟩ := haccords
      exact ⟨hreceived answer hmem, hmsgId, hlater, hlt.trans_le hlength⟩
    | failed failure => exact hrecorded _ haccords
    | timedOut => exact haccords
    | nothing => exact haccords
    | raised => trivial

/-- A step that changes the sends where they are, and at most takes entries out. -/
theorem Registered.of_update (hreg : Registered s) (hfactory : s'.factory = s.factory)
    (hresults : ∀ msgId i, s'.results.lookup msgId = some i → s.results.lookup msgId = some i)
    (hsends : ∀ (i : ℕ) send', s'.sends[i]? = some send' → ∃ send, s.sends[i]? = some send ∧
      send'.msgId = send.msgId)
    (hwaits : ∀ msgId i send, s'.results.lookup msgId = some i → s.sends[i]? = some send →
      send.Waits → ∃ send', s'.sends[i]? = some send' ∧ send'.msgId = send.msgId ∧ send'.Waits) :
    Registered s' := by
  refine ⟨hfactory ▸ hreg.msgIdUnlocked, hfactory ▸ hreg.seqNoUnlocked, hfactory ▸
    hreg.lastMsgId, ?_,
    ?_, ?_⟩
  · intro i send' h
    obtain ⟨send, hsend, hmsgId⟩ := hsends i send' h
    rw [hmsgId, hfactory]
    exact hreg.ids i send hsend
  · intro i j a b hlt ha hb
    obtain ⟨a', ha', hmsgIdA⟩ := hsends i a ha
    obtain ⟨b', hb', hmsgIdB⟩ := hsends j b hb
    rw [hmsgIdA, hmsgIdB]
    exact hreg.increasing i j a' b' hlt ha' hb'
  · intro msgId i h
    obtain ⟨send, hsend, hmsgId, hwait⟩ := hreg.entries msgId i (hresults msgId i h)
    obtain ⟨send', hsend', hmsgId', hwait'⟩ := hwaits msgId i send h hsend hwait
    exact ⟨send', hsend', hmsgId'.trans hmsgId, hwait'⟩

/-! ### The steps of a send -/

/-- A send goes on to another point, or leaves. -/
theorem Registered.set (hreg : Registered s) (hsend : s.sends[i]? = some send) (point : Point)
    {results : AList fun _ : ℤ => ℕ}
    (hresults : ∀ msgId j, results.lookup msgId = some j → s.results.lookup msgId = some j)
    (hpoint : point.isLeft = true → ∀ msgId, results.lookup msgId ≠ some i) :
    Registered { s with results, sends := s.sends.set i { send with point } } := by
  have hlt : i < s.sends.length := (List.getElem?_eq_some_iff.mp hsend).1
  refine hreg.of_update rfl hresults ?_ ?_
  · intro j send' h
    rcases eq_or_ne i j with rfl | hne
    · have hself : some { send with point } = some send' :=
        (List.getElem?_set_self hlt).symm.trans h
      cases hself
      exact ⟨send, hsend, rfl⟩
    · exact ⟨send', (List.getElem?_set_ne hne).symm.trans h, rfl⟩
  · intro msgId j send' h hsend' hwaits
    rcases eq_or_ne i j with rfl | hne
    · obtain rfl : send = send' := Option.some.inj (hsend.symm.trans hsend')
      refine ⟨{ send with point }, List.getElem?_set_self hlt, rfl, hwaits.1, ?_⟩
      cases hleft : point.isLeft with
      | false => exact hleft
      | true => exact absurd h (hpoint hleft msgId)
    · exact ⟨send', (List.getElem?_set_ne hne).trans hsend', rfl, hwaits⟩

/-- What is known of the sends when one of them goes on. -/
theorem Invariant.sendKept_set (hinv : Invariant s) (hsend : s.sends[i]? = some send)
    {point : Point}
    (hreceived : s'.received = s.received) (hrecorded : s'.recorded = s.recorded)
    (hlength : s.sends.length ≤ s'.sends.length)
    (houtcome : ∀ outcome, point = .left outcome → outcome.Accords s' i { send with point })
    {j : ℕ} {send' : Send} (h : (s.sends.set i { send with point })[j]? = some send') :
    SendKept s' j send' := by
  have hmono : ∀ {j : ℕ} {other : Send}, SendKept s j other → SendKept s' j other := fun hkept =>
    hkept.mono (fun _ => hreceived ▸ id) (fun _ => hrecorded ▸ id) hlength
  rcases eq_or_ne i j with rfl | hne
  · rw [List.getElem?_set_self (List.getElem?_eq_some_iff.mp hsend).1] at h
    cases h
    have hkept := hmono (hinv.sends i send hsend)
    exact ⟨hkept.value, hkept.exception, houtcome⟩
  · rw [List.getElem?_set_ne hne] at h
    exact hmono (hinv.sends j send' h)

/-- A send goes on to a point of its `try` block. -/
theorem Invariant.set (hinv : Invariant s) (hsend : s.sends[i]? = some send) {point : Point}
    (hpoint : point.isLeft = false) :
    Invariant { s with sends := s.sends.set i { send with point } } := by
  refine ⟨hinv.toRegistered.set hsend point (fun _ _ => id) ?_, ?_⟩
  · intro hleft
    rw [hpoint] at hleft
    cases hleft
  · intro j send' h
    have hlength : s.sends.length ≤ (s.sends.set i { send with point }).length :=
      (List.length_set ..).ge
    refine hinv.sendKept_set hsend ?_ ?_ hlength ?_ h
    · rfl
    · rfl
    · rintro outcome rfl
      cases hpoint

/-- What is in the dictionary when a send leaves: everything but its own entry. -/
theorem lookup_leave_eq_some (outcome : Outcome) {msgId : ℤ} {j : ℕ} :
    (leave s i send outcome).results.lookup msgId = some j ↔
      s.results.lookup msgId = some j ∧ ¬ (msgId = send.msgId ∧ j = i) := by
  unfold leave
  dsimp only
  split
  · rename_i hown
    rcases eq_or_ne msgId send.msgId with rfl | hne
    · rw [AList.lookup_erase]
      refine iff_of_false (fun h => by cases h) ?_
      rintro ⟨h, hother⟩
      exact hother ⟨rfl, Option.some.inj (h.symm.trans hown)⟩
    · rw [AList.lookup_erase_ne hne]
      exact (and_iff_left fun h => hne h.1).symm
  · rename_i hother
    refine (and_iff_left_of_imp ?_).symm
    rintro h ⟨rfl, rfl⟩
    exact hother h

/-- A send that leaves takes out no entry of another. -/
theorem lookup_leave_of_ne {msgId : ℤ} {j : ℕ} (outcome : Outcome) (hne : j ≠ i)
    (h : s.results.lookup msgId = some j) :
    (leave s i send outcome).results.lookup msgId = some j :=
  (lookup_leave_eq_some outcome).mpr ⟨h, fun hown => hne hown.2⟩

theorem registered_leave (hreg : Registered s) (hsend : s.sends[i]? = some send)
    (outcome : Outcome) :
    Registered (leave s i send outcome) := by
  refine hreg.set hsend (.left outcome) ?_ ?_
  · intro msgId j h
    exact ((lookup_leave_eq_some outcome).mp h).1
  · intro _ msgId h
    obtain ⟨hlookup, hother⟩ := (lookup_leave_eq_some outcome).mp h
    exact hother ⟨(hreg.msgId_of_lookup hsend hlookup).symm, rfl⟩

theorem invariant_leave (hinv : Invariant s) (hsend : s.sends[i]? = some send) {outcome : Outcome}
    (houtcome : outcome.Accords (leave s i send outcome) i { send with point := .left outcome }) :
    Invariant (leave s i send outcome) := by
  refine ⟨registered_leave hinv.toRegistered hsend outcome, ?_⟩
  intro j send' h
  have hlength : s.sends.length ≤ (leave s i send outcome).sends.length := (List.length_set ..).ge
  refine hinv.sendKept_set hsend ?_ ?_ hlength ?_ h
  · rfl
  · rfl
  · intro outcome' houtcome'
    cases houtcome'
    exact houtcome

/-- What creating a message does: it is never interrupted, and the id is new. -/
theorem create_of_unlocked (clock : ℕ → ℤ) {factory : MsgFactory} (kind : MsgFactory.Kind)
    (hmsgId : factory.msgIdLocked = false) (hseqNo : factory.seqNoLocked = false)
    (hlast : factory.lastMsgId % 4 = 0) :
    ∃ msgId factory', create clock factory kind = some (msgId, factory') ∧
      factory.lastMsgId < msgId ∧ factory'.lastMsgId = msgId ∧ msgId % 4 = 0 ∧
      factory'.msgIdLocked = false ∧ factory'.seqNoLocked = false := by
  obtain ⟨msgId, reads, hallocate, hlt, hmod⟩ :=
    MsgFactory.allocateMessageIdentity_of_unlocked clock hmsgId hlast
  have hsequence := MsgFactory.allocateMessageSequence_of_unlocked
    (f := { factory with lastMsgId := msgId, clockReads := reads }) hseqNo kind.isContentRelated
  have hcreate : create clock factory kind = some (msgId, { factory with
      lastMsgId := msgId
      clockReads := reads
      contentRelatedMessagesSent :=
        if kind.isContentRelated then factory.contentRelatedMessagesSent + 1
        else factory.contentRelatedMessagesSent }) := by
    rw [create, hallocate]
    dsimp only [Option.bind_eq_bind, Option.bind_some]
    rw [hsequence]
    rfl
  exact ⟨msgId, _, hcreate, hlt, rfl, hmod, hmsgId, hseqNo⟩

theorem getElem?_concat_eq_some {α : Type} {l : List α} {a b : α} {i : ℕ}
    (h : (l ++ [a])[i]? = some b) : l[i]? = some b ∨ i = l.length ∧ b = a := by
  rcases Nat.lt_trichotomy i l.length with hlt | rfl | hgt
  · exact .inl ((List.getElem?_append_left hlt).symm.trans h)
  · rw [List.getElem?_concat_length] at h
    exact .inr ⟨rfl, (Option.some.inj h).symm⟩
  · rw [List.getElem?_eq_none (by rw [List.length_append]; exact hgt)] at h
    cases h

/-- What is in the dictionary when a send has registered, or has not. -/
theorem lookup_register {results : AList fun _ : ℤ => ℕ} {new msgId : ℤ} {n j : ℕ}
    {waitResponse : Bool}
    (h : (if waitResponse then results.insert new n else results).lookup msgId = some j) :
    results.lookup msgId = some j ∨ j = n ∧ msgId = new ∧ waitResponse = true := by
  cases waitResponse with
  | false => exact .inl h
  | true =>
    rcases eq_or_ne msgId new with rfl | hne
    · have hself : some n = some j := (AList.lookup_insert results).symm.trans h
      exact .inr ⟨(Option.some.inj hself).symm, rfl, rfl⟩
    · exact .inl ((AList.lookup_insert_ne hne).symm.trans h)

/-- What a new send does: its entry is a new one.  What the other sends know stays as
it is, also where one of them names the new one. -/
theorem begin_spec (clock : ℕ → ℤ) (hreg : Registered s)
    (hkept : ∀ (t : Session), t.received = s.received → t.recorded = s.recorded →
      t.sends.length = s.sends.length + 1 → ∀ (i : ℕ) send, s.sends[i]? = some send →
        SendKept t i send)
    (kind : MsgFactory.Kind) (waitResponse : Bool) :
    ∃ s', begin clock s kind waitResponse = some s' ∧ Invariant s' ∧
      ∀ msgId j, s.results.lookup msgId = some j → s'.results.lookup msgId = some j := by
  obtain ⟨new, factory, hcreate, hlt, hlast, hmod, hmsgId, hseqNo⟩ := create_of_unlocked clock kind
    hreg.msgIdUnlocked hreg.seqNoUnlocked hreg.lastMsgId
  -- the new id is above every id handed out before it
  have hbelow : ∀ (i : ℕ) send, s.sends[i]? = some send → send.msgId < new := by
    intro i send h
    exact lt_of_le_of_lt (hreg.ids i send h) hlt
  have hold : ∀ msgId j, s.results.lookup msgId = some j →
      (if waitResponse then s.results.insert new s.sends.length else s.results).lookup msgId =
        some j := by
    intro msgId j h
    have hne : msgId ≠ new := by
      rintro rfl
      obtain ⟨send, hsend, rfl, -⟩ := hreg.entries msgId j h
      exact absurd (hbelow j send hsend) (lt_irrefl _)
    split
    · rw [AList.lookup_insert_ne hne]
      exact h
    · exact h
  -- the entries of before keep their places; the new one comes last
  refine ⟨_, by rw [begin, hcreate]; rfl, ⟨⟨hmsgId, hseqNo, hlast ▸ hmod, ?_, ?_, ?_⟩, ?_⟩, hold⟩
  · intro i send h
    rcases getElem?_concat_eq_some h with h | ⟨rfl, rfl⟩
    · exact (hbelow i send h).le.trans hlast.ge
    · exact hlast.ge
  -- an entry of before and the new one, or two of before
  · intro i j a b hlt ha hb
    rcases getElem?_concat_eq_some ha with ha | ⟨rfl, rfl⟩
    · rcases getElem?_concat_eq_some hb with hb | ⟨rfl, rfl⟩
      · exact hreg.increasing i j a b hlt ha hb
      · exact hbelow i a ha
    · rcases getElem?_concat_eq_some hb with hb | ⟨rfl, rfl⟩
      · exact absurd (List.getElem?_eq_some_iff.mp hb).1 hlt.not_gt
      · exact absurd hlt (lt_irrefl _)
  · intro msgId j h
    -- the identifier is looked up under the new id, or under an old one
    rcases lookup_register h with h | ⟨rfl, rfl, hwait⟩
    · obtain ⟨send, hsend, hmsgId, hwaits⟩ := hreg.entries msgId j h
      have hlt := (List.getElem?_eq_some_iff.mp hsend).1
      exact ⟨send, (List.getElem?_append_left hlt).trans hsend, hmsgId, hwaits⟩
    · exact ⟨_, List.getElem?_concat_length, rfl, hwait, rfl⟩
  · intro i send h
    rcases getElem?_concat_eq_some h with h | ⟨rfl, rfl⟩
    -- a request of before is told what it was told
    · refine hkept _ ?_ ?_ ?_ i send h
      · rfl
      · rfl
      · exact List.length_append
    · refine ⟨?_, ?_, ?_⟩
      · intro answer h
        cases h
      · intro failure h
        cases h
      · intro outcome h
        cases h

/-- A send that is over leaves with what came for it. -/
theorem conclude_spec (clock : ℕ → ℤ) (hinv : Invariant s) (hsend : s.sends[i]? = some send) :
    ∃ s', conclude clock s i send = some s' ∧ Invariant s' ∧
      ∀ msgId j, s.results.lookup msgId = some j → j ≠ i → s'.results.lookup msgId = some j := by
  have hkept := hinv.sends i send hsend
  -- all outcomes but one leave the send as it is
  have hleave : ∀ outcome : Outcome,
      outcome.Accords (leave s i send outcome) i { send with point := .left outcome } →
      ∃ s', some (leave s i send outcome) = some s' ∧ Invariant s' ∧
        ∀ msgId j, s.results.lookup msgId = some j → j ≠ i → s'.results.lookup msgId = some j := by
    intro outcome houtcome
    exact ⟨_, rfl, invariant_leave hinv hsend houtcome,
      fun msgId j h hne => lookup_leave_of_ne outcome hne h⟩
  unfold conclude
  split
  · rename_i hwait
    exact hleave .nothing hwait
  · cases hexception : send.result.exception with
    | some failure => exact hleave (.failed failure) (hkept.exception failure hexception)
    | none =>
      cases hvalue : send.result.value with
      | none => exact hleave .timedOut ⟨hvalue, hexception⟩
      | some answer =>
        have hown := hkept.value answer hvalue
        dsimp only
        cases answer.value with
        | rpcError error => exact hleave (.rpcError answer) hown
        | badServerSalt =>
          have hlt := (List.getElem?_eq_some_iff.mp hsend).1
          obtain ⟨s', hbegin, hinv', hresults⟩ := begin_spec clock
            (registered_leave hinv.toRegistered hsend (.resent answer s.sends.length))
            (by
              intro t hreceived hrecorded hlength j send' h
              have hlength : t.sends.length = s.sends.length + 1 :=
                hlength.trans (congrArg (· + 1) (List.length_set ..))
              refine hinv.sendKept_set hsend hreceived hrecorded ?_ ?_ h
              · omega
              · intro outcome' houtcome'
                cases houtcome'
                refine ⟨hreceived ▸ hown.1, hown.2, hlt, ?_⟩
                omega)
            send.kind send.waitResponse
          refine ⟨s', hbegin, hinv', ?_⟩
          intro msgId j h hne
          exact hresults msgId j (lookup_leave_of_ne _ hne h)
        | object result => exact hleave (.returned answer) hown
        | pong => exact hleave (.returned answer) hown
        | badMsgNotification errorCode => exact hleave (.returned answer) hown
        | futureSalts => exact hleave (.returned answer) hown

/-! ### The steps of the other tasks -/

/-- A step that only fills results, and those in the dictionary. -/
theorem Invariant.of_results (hinv : Invariant s) (hfactory : s'.factory = s.factory)
    (hresults : s'.results = s.results) (hreceived : ∀ answer ∈ s.received, answer ∈ s'.received)
    (hrecorded : ∀ p ∈ s.recorded, p ∈ s'.recorded) (hlength : s'.sends.length = s.sends.length)
    (hsends : ∀ (i : ℕ) send, s.sends[i]? = some send → s'.sends[i]? = some send ∨
      s.results.lookup send.msgId = some i ∧ ∃ result, s'.sends[i]? = some { send with result } ∧
        (∀ answer, result.value = some answer → answer ∈ s'.received ∧ answer.msgId = send.msgId) ∧
        ∀ failure, result.exception = some failure → (i, failure) ∈ s'.recorded) :
    Invariant s' := by
  have hback : ∀ (i : ℕ) send', s'.sends[i]? = some send' →
      ∃ send, s.sends[i]? = some send ∧ send'.msgId = send.msgId ∧ SendKept s' i send' := by
    intro i send' h
    have hlt : i < s.sends.length := hlength ▸ (List.getElem?_eq_some_iff.mp h).1
    have hsend : s.sends[i]? = some s.sends[i] := List.getElem?_eq_getElem hlt
    have hkept := (hinv.sends i _ hsend).mono hreceived hrecorded hlength.ge
    rcases hsends i _ hsend with hsame | ⟨hlookup, result, hfilled, hvalue, hexception⟩
    · obtain rfl := Option.some.inj (hsame.symm.trans h)
      exact ⟨_, hsend, rfl, hkept⟩
    · obtain rfl := Option.some.inj (hfilled.symm.trans h)
      refine ⟨_, hsend, rfl, hvalue, hexception, ?_⟩
      intro outcome hleft
      -- a send in the dictionary has not left
      have htry : s.sends[i].point.isLeft = false := (hinv.lookup_msgId hsend hlookup).2.2
      have hleft : s.sends[i].point = .left outcome := hleft
      rw [hleft] at htry
      cases htry
  refine ⟨hinv.toRegistered.of_update hfactory (fun _ _ => hresults ▸ id) ?_ ?_, ?_⟩
  · intro i send' h
    obtain ⟨send, hsend, hmsgId, -⟩ := hback i send' h
    exact ⟨send, hsend, hmsgId⟩
  · intro msgId i send _ hsend hwaits
    rcases hsends i send hsend with hsame | ⟨-, result, hfilled, -⟩
    · exact ⟨send, hsame, rfl, hwaits⟩
    · exact ⟨_, hfilled, rfl, hwaits⟩
  · intro i send' h
    obtain ⟨send, -, -, hkept⟩ := hback i send' h
    exact hkept

theorem results_dispatch (s : Session) (body : Body) : (dispatch s body).results = s.results := by
  unfold dispatch
  split
  · rfl
  · dsimp only
    split <;> rfl

/-- An answer fills the result of the send that it names. -/
theorem invariant_dispatch (hinv : Invariant s) (body : Body) : Invariant (dispatch s body) := by
  unfold dispatch
  cases body.answer with
  | none => exact hinv
  | some answer =>
    dsimp only
    cases hlookup : s.results.lookup answer.msgId with
    | none =>
      exact hinv.of_results rfl rfl (fun _ => List.mem_cons_of_mem answer) (fun _ => id) rfl
        fun i send h => .inl h
    | some k =>
      refine hinv.of_results rfl rfl (fun _ => List.mem_cons_of_mem answer) (fun _ => id)
        (List.length_modify ..) ?_
      intro i send hsend
      rcases eq_or_ne k i with rfl | hne
      · have hmsgId := hinv.msgId_of_lookup hsend hlookup
        have hkept := hinv.sends k send hsend
        refine .inr ⟨hmsgId ▸ hlookup, { send.result with value := some answer, event := true }, ?_,
          ?_, hkept.exception⟩
        · exact (List.getElem?_modify_eq ..).trans (congrArg (Option.map _) hsend)
        · intro answer' hvalue
          cases hvalue
          exact ⟨List.mem_cons_self, hmsgId.symm⟩
      · exact .inl ((List.getElem?_modify_ne _ _ hne).trans hsend)

/-- The sends that are failed are in the dictionary. -/
theorem exists_lookup_of_mem_unanswered (h : i ∈ unanswered s) :
    ∃ msgId, s.results.lookup msgId = some i := by
  obtain ⟨⟨msgId, j⟩, hmem, rfl⟩ := List.mem_map.mp (List.mem_filter.mp h).1
  exact ⟨msgId, AList.mem_lookup_iff.mpr hmem⟩

/-- A failure is recorded for every send that it fails. -/
theorem invariant_failAll (hinv : Invariant s) (failure : Failure) :
    Invariant (failAll s failure) := by
  refine hinv.of_results rfl rfl (fun _ => id) (fun _ => List.mem_append_right _)
    List.length_mapIdx ?_
  intro i send hsend
  have hget : (failAll s failure).sends[i]? = some (if i ∈ unanswered s then
      { send with result := { send.result with exception := some failure, event := true } }
      else send) := by
    rw [failAll, List.getElem?_mapIdx, hsend]
    rfl
  by_cases hmem : i ∈ unanswered s
  · rw [if_pos hmem] at hget
    obtain ⟨msgId, hlookup⟩ := exists_lookup_of_mem_unanswered hmem
    refine .inr ⟨hinv.msgId_of_lookup hsend hlookup ▸ hlookup, _, hget,
      (hinv.sends i send hsend).value, ?_⟩
    rintro failure' hfailure
    cases hfailure
    exact List.mem_append_left _ (List.mem_map_of_mem hmem)
  · rw [if_neg hmem] at hget
    exact .inl hget

/-- An id that is not used here. -/
theorem Invariant.of_factory (hinv : Invariant s) {factory : MsgFactory}
    (hmsgId : factory.msgIdLocked = false) (hseqNo : factory.seqNoLocked = false)
    (hmod : factory.lastMsgId % 4 = 0) (hle : s.factory.lastMsgId ≤ factory.lastMsgId) :
    Invariant { s with factory } := by
  refine ⟨⟨hmsgId, hseqNo, hmod, ?_, hinv.increasing, hinv.entries⟩, ?_⟩
  · intro i send h
    exact (hinv.ids i send h).trans hle
  · intro i send h
    exact (hinv.sends i send h).mono (fun _ => id) (fun _ => id) le_rfl

/-- Clearing the dictionary. -/
theorem Invariant.clear (hinv : Invariant s) : Invariant { s with results := ∅ } := by
  refine ⟨hinv.toRegistered.of_update rfl ?_ (fun _ send h => ⟨send, h, rfl⟩) ?_, ?_⟩
  · intro msgId i h
    rw [AList.lookup_empty] at h
    cases h
  · intro msgId i send h
    rw [AList.lookup_empty] at h
    cases h
  · intro i send h
    exact (hinv.sends i send h).mono (fun _ => id) (fun _ => id) le_rfl

/-! ### Runs -/

/-- A send that goes on leaves the dictionary as it is. -/
theorem keepsOthers_of_results_eq {e : Event} (h : s'.results = s.results) :
    KeepsOthers s e s' := by
  refine .inr ?_
  intro msgId j hlookup _
  rw [h]
  exact hlookup

/-- What a send may do: go on in its `try` block, come to its end, or be ended. -/
theorem step_of_send {e : Event} (he : e.send = some i) (hstep : step clock s e = some s') :
    ∃ send, s.sends[i]? = some send ∧
      ((∃ point, point.isLeft = false ∧
        s' = { s with sends := s.sends.set i { send with point } }) ∨
        conclude clock s i send = some s' ∨ s' = leave s i send .raised) := by
  unfold step at hstep
  -- only the events of one send remain: it goes on, ends, or raises
  cases e with
  | called kind waitResponse => cases he
  | rejected kind => cases he
  | allocated => cases he
  | packed j =>
    cases he
    dsimp only at hstep
    split at hstep
    · rename_i send hsend
      split at hstep
      · exact ⟨send, hsend, .inl ⟨.sending, rfl, (Option.some.inj hstep).symm⟩⟩
      · cases hstep
    · cases hstep
  | sent j =>
    cases he
    dsimp only at hstep
    split at hstep
    · rename_i send hsend
      split at hstep
      -- without a response to wait for, the send ends here
      · split at hstep
        · exact ⟨send, hsend, .inl ⟨.waiting, rfl, (Option.some.inj hstep).symm⟩⟩
        · exact ⟨send, hsend, .inr (.inl hstep)⟩
      · cases hstep
    · cases hstep
  | woken j timeout =>
    cases he
    dsimp only at hstep
    split at hstep
    · rename_i send hsend
      split at hstep
      · exact ⟨send, hsend, .inr (.inl hstep)⟩
      · cases hstep
    · cases hstep
  | raised j =>
    cases he
    dsimp only at hstep
    split at hstep
    · rename_i send hsend
      split at hstep
      · exact ⟨send, hsend, .inr (.inr (Option.some.inj hstep).symm)⟩
      · cases hstep
    · cases hstep
  | answered body => cases he
  | stopped => cases he
  | receiverEnded exc => cases he

theorem begin_eq_some {kind : MsgFactory.Kind} {waitResponse : Bool}
    (h : begin clock s kind waitResponse = some s') :
    ∃ msgId factory results, s' = { s with
      factory := factory
      results := results
      sends := s.sends ++ [{ msgId := msgId, kind := kind, waitResponse := waitResponse }] } := by
  obtain ⟨⟨msgId, factory⟩, -, rfl⟩ := Option.map_eq_some_iff.mp h
  exact ⟨msgId, factory, _, rfl⟩

/-- The send is over, and no other takes its place. -/
def Outcome.Final : Outcome → Prop
  | .returned answer => (∀ error, answer.value ≠ .rpcError error) ∧ answer.value ≠ .badServerSalt
  | .resent _ _ => False
  | .rpcError _ | .failed _ | .timedOut | .nothing | .raised => True

/-- How a send comes to its end. -/
theorem conclude_cases (h : conclude clock s i send = some s') :
    (∃ outcome, outcome.Final ∧ s' = leave s i send outcome) ∨
      ∃ answer, begin clock (leave s i send (.resent answer s.sends.length)) send.kind
        send.waitResponse = some s' := by
  unfold conclude at h
  split at h
  · exact .inl ⟨.nothing, trivial, (Option.some.inj h).symm⟩
  · cases hexception : send.result.exception with
    | some failure =>
      rw [hexception] at h
      exact .inl ⟨.failed failure, trivial, (Option.some.inj h).symm⟩
    | none =>
      rw [hexception] at h
      cases hvalue : send.result.value with
      | none =>
        rw [hvalue] at h
        exact .inl ⟨.timedOut, trivial, (Option.some.inj h).symm⟩
      | some answer =>
        rw [hvalue] at h
        dsimp only at h
        split at h
        · exact .inl ⟨.rpcError answer, trivial, (Option.some.inj h).symm⟩
        · exact .inr ⟨answer, h⟩
        all_goals
          rename_i hanswer
          refine .inl ⟨.returned answer, ?_, (Option.some.inj h).symm⟩
          rw [Outcome.Final, hanswer]
          exact ⟨fun _ h => (nomatch h), fun h => nomatch h⟩

/-- A step of a send. -/
theorem invariant_step_of_send (hinv : Invariant s) {e : Event} (he : e.send = some i)
    (hstep : step clock s e = some s') : Invariant s' ∧ KeepsOthers s e s' := by
  have hkeeps : (∀ msgId j, s.results.lookup msgId = some j → j ≠ i →
      s'.results.lookup msgId = some j) → KeepsOthers s e s' := by
    intro hresults
    refine .inr ?_
    intro msgId j h hne
    refine hresults msgId j h ?_
    rintro rfl
    exact hne he
  obtain ⟨send, hsend, ⟨point, hpoint, rfl⟩ | hconclude | rfl⟩ := step_of_send he hstep
  · exact ⟨hinv.set hsend hpoint, keepsOthers_of_results_eq rfl⟩
  · obtain ⟨t, hspec, hinv', hresults⟩ := conclude_spec clock hinv hsend
    obtain rfl : t = s' := Option.some.inj (hspec.symm.trans hconclude)
    exact ⟨hinv', hkeeps hresults⟩
  · refine ⟨invariant_leave hinv hsend trivial, hkeeps ?_⟩
    intro msgId j h hne
    exact lookup_leave_of_ne .raised hne h

theorem invariant_step (e : Event) (hinv : Invariant s) (hstep : step clock s e = some s') :
    Invariant s' ∧ KeepsOthers s e s' := by
  cases e with
  | called kind waitResponse =>
    obtain ⟨t, hbegin, hinv', hresults⟩ := begin_spec clock hinv.toRegistered
      (fun t hreceived hrecorded hlength i send h => (hinv.sends i send h).mono
        -- the call only adds: what was received and recorded stays
        (fun _ => hreceived ▸ id) (fun _ => hrecorded ▸ id) (hlength ▸ Nat.le_succ _))
      kind waitResponse
    obtain rfl : t = s' := Option.some.inj (hbegin.symm.trans hstep)
    exact ⟨hinv', .inr fun msgId j h _ => hresults msgId j h⟩
  | rejected kind =>
    obtain ⟨⟨msgId, factory⟩, hcreate, rfl⟩ := Option.map_eq_some_iff.mp hstep
    -- the identifiers go on, and nothing else has changed
    obtain ⟨new, factory', hspec, hlt, hlast, hmod, hmsgId, hseqNo⟩ := create_of_unlocked clock kind
      hinv.msgIdUnlocked hinv.seqNoUnlocked hinv.lastMsgId
    obtain ⟨rfl, rfl⟩ := Prod.mk.inj (Option.some.inj (hspec.symm.trans hcreate))
    exact ⟨hinv.of_factory hmsgId hseqNo (hlast ▸ hmod) (hlast ▸ hlt.le),
      keepsOthers_of_results_eq rfl⟩
  | allocated =>
    obtain ⟨⟨msgId, factory⟩, hallocate, rfl⟩ := Option.map_eq_some_iff.mp hstep
    obtain ⟨new, reads, hspec, hlt, hmod⟩ :=
      MsgFactory.allocateMessageIdentity_of_unlocked clock hinv.msgIdUnlocked hinv.lastMsgId
    obtain ⟨rfl, rfl⟩ := Prod.mk.inj (Option.some.inj (hspec.symm.trans hallocate))
    exact ⟨hinv.of_factory hinv.msgIdUnlocked hinv.seqNoUnlocked hmod hlt.le,
      keepsOthers_of_results_eq rfl⟩
  | packed i => exact invariant_step_of_send hinv rfl hstep
  | sent i => exact invariant_step_of_send hinv rfl hstep
  | woken i timeout => exact invariant_step_of_send hinv rfl hstep
  | raised i => exact invariant_step_of_send hinv rfl hstep
  | answered body =>
    obtain rfl := Option.some.inj hstep
    exact ⟨invariant_dispatch hinv body, keepsOthers_of_results_eq (results_dispatch s body)⟩
  | stopped =>
    obtain rfl := Option.some.inj hstep
    -- `stop` clears the results as well
    exact ⟨(invariant_failAll hinv .sessionStopped).clear, .inl rfl⟩
  | receiverEnded exc =>
    obtain rfl := Option.some.inj hstep
    exact ⟨invariant_failAll hinv (.receiver exc), keepsOthers_of_results_eq rfl⟩

/-! ### What a step leaves -/

/-- What a step leaves of the sends and the answers. -/
structure Follows (s : Session) (e : Event) (s' : Session) : Prop where
  kept : ∀ (i : ℕ) send, s.sends[i]? = some send →
    ∃ send', s'.sends[i]? = some send' ∧ send'.msgId = send.msgId ∧
      send'.waitResponse = send.waitResponse
  received : ∀ answer ∈ s'.received, answer ∈ s.received ∨ ∃ body, e = .answered body ∧
    body.answer = some answer
  /-- What a send sends again waits as it did. -/
  added : ∀ (i j : ℕ) send', s.sends.length ≤ i → s'.sends[i]? = some send' → e.send = some j →
    ∃ send, s.sends[j]? = some send ∧ send'.waitResponse = send.waitResponse
  /-- A send that has ended is over, or sent again. -/
  ended : ∀ (i : ℕ) send' outcome, e.send = some i → s'.sends[i]? = some send' →
    send'.point = .left outcome →
    outcome.Final ∨ ∃ answer next, outcome = .resent answer next

theorem kept_set (hsend : s.sends[i]? = some send) (point : Point) {j : ℕ} {other : Send}
    (hother : s.sends[j]? = some other) :
    ∃ other', (s.sends.set i { send with point })[j]? = some other' ∧ other'.msgId = other.msgId ∧
      other'.waitResponse = other.waitResponse := by
  rcases eq_or_ne i j with rfl | hne
  · obtain rfl : send = other := Option.some.inj (hsend.symm.trans hother)
    exact ⟨_, List.getElem?_set_self (List.getElem?_eq_some_iff.mp hsend).1, rfl, rfl⟩
  · exact ⟨other, (List.getElem?_set_ne hne).trans hother, rfl, rfl⟩

/-- Where a send is after its own step. -/
theorem point_set (hsend : s.sends[i]? = some send) {point : Point} {send' : Send}
    (h : (s.sends.set i { send with point })[i]? = some send') : send'.point = point := by
  rw [List.getElem?_set_self (List.getElem?_eq_some_iff.mp hsend).1] at h
  exact (Option.some.inj h) ▸ rfl

theorem not_length_le {l : List Send} {send' : Send} (h : l[i]? = some send')
    (hlength : l.length = s.sends.length) :
    ¬ s.sends.length ≤ i := by
  have hlt := (List.getElem?_eq_some_iff.mp h).1
  omega

theorem kept_failAll (failure : Failure) (hsend : s.sends[i]? = some send) :
    ∃ send', (failAll s failure).sends[i]? = some send' ∧ send'.msgId = send.msgId ∧
      send'.waitResponse = send.waitResponse := by
  refine ⟨_, by rw [failAll, List.getElem?_mapIdx, hsend]; rfl, ?_⟩
  split <;> exact ⟨rfl, rfl⟩

/-- A step of a send. -/
theorem follows_of_send {e : Event} (he : e.send = some i) (hstep : step clock s e = some s') :
    Follows s e s' := by
  obtain ⟨send, hsend, ⟨point, hpoint, rfl⟩ | hconclude | rfl⟩ := step_of_send he hstep
  -- the send goes on
  · refine ⟨fun _ _ => kept_set hsend point, fun _ => .inl, ?_, ?_⟩
    · intro k j send' hle h _
      exact absurd hle (not_length_le h (List.length_set ..))
    · intro k send' outcome hk h hleft
      obtain rfl := Option.some.inj (he.symm.trans hk)
      rw [point_set hsend h] at hleft
      rw [hleft] at hpoint
      cases hpoint
  -- it ends, with an answer of its own or by a second send in its place
  · rcases conclude_cases hconclude with ⟨outcome, hfinal, rfl⟩ | ⟨answer, hbegin⟩
    · refine ⟨fun _ _ => kept_set hsend _, fun _ => .inl, ?_, ?_⟩
      · intro k j send' hle h _
        exact absurd hle (not_length_le h (List.length_set ..))
      · intro k send' outcome' hk h hleft
        obtain rfl := Option.some.inj (he.symm.trans hk)
        rw [point_set hsend h] at hleft
        cases hleft
        exact .inl hfinal
    · obtain ⟨msgId, factory, results, rfl⟩ := begin_eq_some hbegin
      have hlength : (leave s i send (.resent answer s.sends.length)).sends.length =
          s.sends.length := List.length_set ..
      refine ⟨?_, fun _ => .inl, ?_, ?_⟩
      · intro k other hother
        obtain ⟨other', hother', hsame⟩ :=
          kept_set hsend (.left (.resent answer s.sends.length)) hother
        exact ⟨other', (List.getElem?_append_left (List.getElem?_eq_some_iff.mp hother').1).trans
          hother', hsame⟩
      · intro k j send' hle h hj
        -- the new send is the one that takes the place of the old
        obtain rfl := Option.some.inj (he.symm.trans hj)
        refine ⟨send, hsend, ?_⟩
        rcases getElem?_concat_eq_some h with h | ⟨-, rfl⟩
        · exact absurd hle (not_length_le h hlength)
        · rfl
      · intro k send' outcome hk h hleft
        obtain rfl := Option.some.inj (he.symm.trans hk)
        rcases getElem?_concat_eq_some h with h | ⟨-, rfl⟩
        · rw [point_set hsend h] at hleft
          cases hleft
          exact .inr ⟨answer, _, rfl⟩
        · cases hleft
  -- it raises
  · refine ⟨fun _ _ => kept_set hsend _, fun _ => .inl, ?_, ?_⟩
    · intro k j send' hle h _
      exact absurd hle (not_length_le h (List.length_set ..))
    · intro k send' outcome hk h hleft
      obtain rfl := Option.some.inj (he.symm.trans hk)
      rw [point_set hsend h] at hleft
      cases hleft
      exact .inl trivial

/-- A step of no send. -/
theorem follows_of_no_send {e : Event} (he : e.send = none)
    (hkept : ∀ (i : ℕ) send, s.sends[i]? = some send →
      ∃ send', s'.sends[i]? = some send' ∧ send'.msgId = send.msgId ∧
        send'.waitResponse = send.waitResponse)
    (hreceived : ∀ answer ∈ s'.received, answer ∈ s.received ∨ ∃ body, e = .answered body ∧
      body.answer = some answer) :
    Follows s e s' := by
  refine ⟨hkept, hreceived, ?_, ?_⟩
  · intro i j send' _ _ hj
    rw [he] at hj
    cases hj
  · intro i send' outcome hi _ _
    rw [he] at hi
    cases hi

/-- **What every step leaves of the sends and the answers.** -/
theorem follows_step (e : Event) (hstep : step clock s e = some s') : Follows s e s' := by
  cases e with
  | called kind waitResponse =>
    obtain ⟨msgId, factory, results, rfl⟩ := begin_eq_some hstep
    refine follows_of_no_send rfl ?_ fun _ => .inl
    -- a call adds a send behind the others
    intro i send hsend
    exact ⟨send, (List.getElem?_append_left (List.getElem?_eq_some_iff.mp hsend).1).trans hsend,
      rfl, rfl⟩
  | rejected kind =>
    obtain ⟨⟨msgId, factory⟩, -, rfl⟩ := Option.map_eq_some_iff.mp hstep
    exact follows_of_no_send rfl (fun _ send h => ⟨send, h, rfl, rfl⟩) fun _ => .inl
  | allocated =>
    obtain ⟨⟨msgId, factory⟩, -, rfl⟩ := Option.map_eq_some_iff.mp hstep
    exact follows_of_no_send rfl (fun _ send h => ⟨send, h, rfl, rfl⟩) fun _ => .inl
  | packed i => exact follows_of_send rfl hstep
  | sent i => exact follows_of_send rfl hstep
  | woken i timeout => exact follows_of_send rfl hstep
  | raised i => exact follows_of_send rfl hstep
  | answered body =>
    obtain rfl := Option.some.inj hstep
    refine follows_of_no_send rfl ?_ ?_
    · intro i send hsend
      -- no msg id in the answer, an id nobody waits for, or one whose send is told
      unfold dispatch
      split
      · exact ⟨send, hsend, rfl, rfl⟩
      · dsimp only
        split
        · exact ⟨send, hsend, rfl, rfl⟩
        · rename_i k _
          rcases eq_or_ne k i with rfl | hne
          · exact ⟨_, (List.getElem?_modify_eq ..).trans (congrArg (Option.map _) hsend), rfl, rfl⟩
          · exact ⟨send, (List.getElem?_modify_ne _ _ hne).trans hsend, rfl, rfl⟩
    · intro answer h
      unfold dispatch at h
      split at h
      · exact .inl h
      · rename_i answer' hanswer
        have hmem : answer ∈ answer' :: s.received := by
          dsimp only at h
          split at h <;> exact h
        rcases List.mem_cons.mp hmem with rfl | hmem
        · exact .inr ⟨body, rfl, hanswer⟩
        · exact .inl hmem
  | stopped =>
    -- the failure is told to every send that still waits
    obtain rfl := Option.some.inj hstep
    exact follows_of_no_send rfl (fun _ _ => kept_failAll .sessionStopped) fun _ => .inl
  | receiverEnded exc =>
    obtain rfl := Option.some.inj hstep
    exact follows_of_no_send rfl (fun _ _ => kept_failAll (.receiver exc)) fun _ => .inl

/-- **The bookkeeping of requests**: whatever the order of the events, every entry
belongs to a send that still waits for it, a send leaves with what came for itself, and
its entry is gone then and taken out by nobody else but a stop. -/
theorem request_bookkeeping (clock : ℕ → ℤ) (es : List Event) :
    (∀ t, run (step clock) {} es = some t → Bookkeeping t) ∧
      AllSteps (step clock) KeepsOthers {} es := by
  constructor
  · intro t hrun
    have hinv : Invariant t := by
      refine run_of_invariant ?_ invariant_empty hrun
      intro s e s' hinv hstep
      exact (invariant_step e hinv hstep).1
    exact hinv.bookkeeping
  · refine allSteps_of_invariant (I := Invariant) ?_ ?_ invariant_empty (allSteps_true es _)
    · intro s e s' hinv hstep _
      exact (invariant_step e hinv hstep).2
    · intro s e s' hinv hstep _
      exact (invariant_step e hinv hstep).1

/-- A run of three calls: the answer to the second comes first, the first is sent again
and failed by a stop, and the third does not wait. -/
def stoppedRun : List Event :=
  [.called .other true, .called .other true, .called .ping false, .packed 0, .packed 1, .sent 0,
    .sent 1, .answered (.rpcResult 8 (.object 7)), .answered (.badServerSalt 4), .woken 0 false,
    .packed 2, .sent 2, .woken 1 false, .packed 3, .stopped, .sent 3, .woken 3 false]

theorem request_bookkeeping_stopped :
    ∃ t, run (step fun _ => 0) {} stoppedRun = some t ∧
      t.sends.map Send.point = [.left (.resent ⟨4, .badServerSalt⟩ 3),
        .left (.returned ⟨8, .object 7⟩), .left .nothing, .left (.failed .sessionStopped)] ∧
      Bookkeeping t := by
  have hpoints : (run (step fun _ => 0) {} stoppedRun).map (fun t => t.sends.map Send.point) =
      some [.left (.resent ⟨4, .badServerSalt⟩ 3), .left (.returned ⟨8, .object 7⟩), .left .nothing,
        .left (.failed .sessionStopped)] := by decide
  obtain ⟨t, hrun, hpoints⟩ := Option.map_eq_some_iff.mp hpoints
  exact ⟨t, hrun, hpoints, (request_bookkeeping (fun _ => 0) stoppedRun).1 t hrun⟩

end Pyrogram.Requests
