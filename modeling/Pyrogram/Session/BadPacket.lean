import Pyrogram.Crypto.Envelope
import Pyrogram.Session.HandlePacket

/-!
# Packets that cannot be opened

`handle_packet` opens its packet with `mtproto.unpack` and catches `ValueError`,
for which it restarts the session.  `unpack` raises a `SecurityCheckMismatch` for
a failed check, a `ConnectionError` for empty data, and whatever decrypting or
reading the body raises; none of these need be a `ValueError`.  Behind the messages it
may send a `MsgsAck`, and catches `OSError`; an id that does not fit a `Long` raises
an `OverflowError` there.

## Main definitions

* `Packet.ofUnpack` — a packet of bytes as `handle_packet` sees it.
* `EventLoop.HandlesPacket` — a step ends a task neither in the middle of its packet nor
  by an exception, and skips no message, unless it schedules a restart.
* `Mtproto.Tolerated` — the checks a packet must pass.
* `EventLoop.Permits` — what a step must meet: a tolerated packet, acks that can be
  written and sent.

## Main results

* `Mtproto.tolerated_iff` — the packets that are opened or raise `ValueError`.
* `EventLoop.handlesPacket_iff` — **a handler handles its packet exactly in the runs whose
  steps meet this.**
-/

namespace Pyrogram

open Runs

/-- What the body of a message from the server is: a service message or an answer,
or the messages of a container. -/
inductive Contents (α : Type)
  | body (body : Body α)
  | container (messages : List (Message α))

/-- What `handle_packet` makes of the result of `unpack`. -/
def Packet.ofUnpack {α : Type} : Except Exc (Raw.Message (Contents α)) → Packet α
  | .ok ⟨msgId, seqNo, _, .body body⟩ => .message ⟨msgId, seqNo, body⟩
  | .ok ⟨_, _, _, .container messages⟩ => .container messages
  | .error e => if e.IsValueError then .valueError else .raised

theorem Packet.ofUnpack_eq_raised {α : Type} {r : Except Exc (Raw.Message (Contents α))} :
    Packet.ofUnpack r = .raised ↔ ∃ e, r = .error e ∧ ¬ e.IsValueError := by
  cases r with
  | ok m =>
    obtain ⟨msgId, seqNo, length, body | messages⟩ := m <;> simp [ofUnpack]
  | error e =>
    by_cases he : e.IsValueError <;> simp [ofUnpack, he]

/-! ### The packets that are tolerated -/

namespace Mtproto

open Raw

variable {β : Type} {sha256 : Sha256} {aes : Ige256} {objects : ℕ → Option (Parser β)}
  {b sessionId authKey authKeyId data : List UInt8}

/-- Reading the body raised something `handle_packet` catches in the end: a
`ValueError`, or the `KeyError` of a constructor id other than zero. -/
def Exc.BodyTolerated : Exc → Prop
  | .keyError id => id ≠ 0
  | e => e.IsValueError

/-- The packet carries the id of the auth key; decrypting it raises nothing but a
`ValueError`; its session id is the session's; reading its body raises nothing but
what becomes a `ValueError`; and msg_key, padding, size and msg_id are right. -/
def Tolerated (sha256 : Sha256) (aes : Ige256) (objects : ℕ → Option (Parser β))
    (b sessionId authKey authKeyId : List UInt8) : Prop :=
  b.take 8 = authKeyId ∧
    (∀ e, plaintext sha256 aes b authKey = .error e → e.IsValueError) ∧
    ∀ data, plaintext sha256 aes b authKey = .ok data →
      (data.drop 8).take 8 = sessionId ∧
        (∀ e, (Raw.Message.read objects (data.drop 16)).1 = .error e → Exc.BodyTolerated e) ∧
        ∀ m, (Raw.Message.read objects (data.drop 16)).1 = .ok m → Sealed sha256 b authKey data m

theorem onUnreadable_isValueError {left : List UInt8} {e : Exc} :
    (onUnreadable left e).IsValueError ↔ Exc.BodyTolerated e := by
  cases e with
  | keyError id =>
    rw [onUnreadable]
    split
    case isTrue h => simp [Exc.IsValueError, Exc.BodyTolerated, h]
    case isFalse h => simp [Exc.IsValueError, Exc.BodyTolerated, h]
  | valueError => rfl
  | overflowError => rfl
  | connectionError => rfl
  | securityCheckMismatch => rfl
  | other => rfl

/-- **Where an exception of `unpack` comes from**: decrypting, reading the body, or
a check that fails. -/
theorem unpack_eq_error {e : Exc}
    (h : unpack sha256 aes objects b sessionId authKey authKeyId = .error e) :
    ¬ e.IsValueError ∧ (b.take 8 ≠ authKeyId ∨ ∃ data, plaintext sha256 aes b authKey = .ok data ∧
        ((data.drop 8).take 8 ≠ sessionId ∨ ∃ m, (Raw.Message.read objects (data.drop 16)).1 =
          .ok m ∧
          ¬ Sealed sha256 b authKey data m)) ∨
      b.take 8 = authKeyId ∧ (plaintext sha256 aes b authKey = .error e ∨
        ∃ data, plaintext sha256 aes b authKey = .ok data ∧ (data.drop 8).take 8 = sessionId ∧
          ∃ e', (Raw.Message.read objects (data.drop 16)).1 = .error e' ∧
            onUnreadable (Raw.Message.read objects (data.drop 16)).2 e' = e) := by
  simp only [unpack, Except.bind_eq_error, SecurityCheckMismatch.check_eq_error,
    SecurityCheckMismatch.check_eq_ok, decide_eq_true_eq, decide_eq_false_iff_not,
    Except.mapError_eq_error, Except.mapError_eq_ok, pure, Except.pure] at h
  rcases h with ⟨hid, rfl⟩ | ⟨-, hid, hplain | ⟨data, hdata, h⟩⟩
  · exact Or.inl ⟨by simp [Exc.IsValueError], Or.inl hid⟩
  · exact Or.inr ⟨hid, Or.inl hplain⟩
  rcases h with ⟨hsession, rfl⟩ | ⟨-, hsession, hread | ⟨m, hm, h⟩⟩
  · exact Or.inl ⟨by simp [Exc.IsValueError], Or.inr ⟨data, hdata, Or.inl hsession⟩⟩
  · exact Or.inr ⟨hid, Or.inr ⟨data, hdata, hsession, hread⟩⟩
  -- the message has been read, and one of the four checks on it fails
  have hunsealed : ¬ e.IsValueError ∧ ¬ Sealed sha256 b authKey data m := by
    rcases h with ⟨hkey, rfl⟩ | ⟨-, -,
      ⟨hpad, rfl⟩ | ⟨-, -, ⟨hpay, rfl⟩ | ⟨-, -, ⟨hodd, rfl⟩ | ⟨-, -, h⟩⟩⟩⟩
    · exact ⟨by simp [Exc.IsValueError], fun hs => hkey hs.msgKey⟩
    · exact ⟨by simp [Exc.IsValueError], fun hs => hpad hs.padding⟩
    · exact ⟨by simp [Exc.IsValueError], fun hs => hpay hs.payload⟩
    · exact ⟨by simp [Exc.IsValueError], fun hs => hodd hs.msgId⟩
    · cases h
  exact Or.inl ⟨hunsealed.1, Or.inr ⟨data, hdata, Or.inr ⟨m, hm, hunsealed.2⟩⟩⟩

theorem Tolerated.of_error {e : Exc} (hid : b.take 8 = authKeyId)
    (h : plaintext sha256 aes b authKey = .error e) (he : e.IsValueError) :
    Tolerated sha256 aes objects b sessionId authKey authKeyId := by
  refine ⟨hid, ?_, ?_⟩
  · intro e' h'
    exact Except.error.inj (h.symm.trans h') ▸ he
  · intro data hdata
    cases h.symm.trans hdata

theorem Tolerated.of_read {e : Exc} (hid : b.take 8 = authKeyId)
    (h : plaintext sha256 aes b authKey = .ok data) (hsession : (data.drop 8).take 8 = sessionId)
    (hread : (Raw.Message.read objects (data.drop 16)).1 = .error e) (he : Exc.BodyTolerated e) :
    Tolerated sha256 aes objects b sessionId authKey authKeyId := by
  refine ⟨hid, ?_, ?_⟩
  · intro e' h'
    cases h.symm.trans h'
  · intro data' hdata
    obtain rfl : data = data' := Except.ok.inj (h.symm.trans hdata)
    refine ⟨hsession, ?_, ?_⟩
    · intro e' hread'
      exact Except.error.inj (hread.symm.trans hread') ▸ he
    · intro m hm
      cases hread.symm.trans hm

theorem Tolerated.of_ok {m : Raw.Message β}
    (h : unpack sha256 aes objects b sessionId authKey authKeyId = .ok m) :
    Tolerated sha256 aes objects b sessionId authKey authKeyId := by
  obtain ⟨hid, data, hdata, hsession, hm, hsealed⟩ := unpack_eq_ok.mp h
  refine ⟨hid, ?_, ?_⟩
  · intro e h'
    cases hdata.symm.trans h'
  · intro data' hdata'
    obtain rfl : data = data' := Except.ok.inj (hdata.symm.trans hdata')
    refine ⟨hsession, ?_, ?_⟩
    · intro e hread
      cases hm.symm.trans hread
    · intro m' hm'
      obtain rfl : m = m' := Except.ok.inj (hm.symm.trans hm')
      exact hsealed

/-- **The tolerated packets are those for which `unpack` raises nothing but a
`ValueError`.** -/
theorem tolerated_iff : Tolerated sha256 aes objects b sessionId authKey authKeyId ↔
    ∀ e, unpack sha256 aes objects b sessionId authKey authKeyId = .error e → e.IsValueError := by
  constructor
  · rintro ⟨hid, hplain, hread⟩ e he
    rcases unpack_eq_error he with ⟨-, hne | ⟨data, hdata, h⟩⟩ | ⟨-,
      herr | ⟨data, hdata, -, e', he', rfl⟩⟩
    · exact absurd hid hne
    · obtain ⟨hsession, -, hsealed⟩ := hread data hdata
      rcases h with hne | ⟨m, hm, hns⟩
      · exact absurd hsession hne
      · exact absurd (hsealed m hm) hns
    · exact hplain e herr
    · exact onUnreadable_isValueError.mpr ((hread data hdata).2.1 e' he')
  · intro hall
    cases hun : unpack sha256 aes objects b sessionId authKey authKeyId with
    | ok m => exact Tolerated.of_ok hun
    | error e =>
      have he := hall e hun
      rcases unpack_eq_error hun with ⟨hne, -⟩ | ⟨hid, herr | ⟨data, hdata, hsession, e', he', rfl⟩⟩
      · exact absurd he hne
      · exact Tolerated.of_error hid herr he
      · exact Tolerated.of_read hid hdata hsession he' (onUnreadable_isValueError.mp he)

end Mtproto

/-! ### The handler -/

namespace Session

variable {α : Type} {clock : ℕ → ℤ}

/-- A verdict that ends the handler comes with a restart, and one that suspends it
with a lock that is held. -/
def GoesOn (s : Session α) (r : Session α × Verdict) : Prop :=
  match r.2 with
  | .restarting => r.1.restartReasons = s.restartReasons ++ ["validation"]
  | .suspended => s.msgIdLocked = true
  | .duplicate | .discarded | .accepted => True

theorem goesOn_discard {s s' : Session α} (h : s'.restartReasons = s.restartReasons) :
    s.GoesOn s'.discard := by
  simp only [discard]
  split
  · show s'.restartReasons ++ ["validation"] = _
    rw [h]
  · trivial

theorem allocateMessageIdentity_eq_none {s : Session α}
    (h : s.allocateMessageIdentity clock = none) : s.msgIdLocked = true := by
  unfold allocateMessageIdentity at h
  split at h
  case isTrue hlocked => exact hlocked
  case isFalse => cases h

theorem restartReasons_allocateMessageIdentity {s s' : Session α} {msgId : ℤ}
    (h : s.allocateMessageIdentity clock = some (msgId, s')) :
    s'.restartReasons = s.restartReasons := by
  unfold allocateMessageIdentity at h
  split at h
  case isTrue => cases h
  case isFalse =>
    obtain rfl := (Prod.mk.inj (Option.some.inj h)).2
    rfl

theorem goesOn_checkTime (s : Session α) (m : Message α) : s.GoesOn (s.checkTime clock m) := by
  unfold checkTime
  cases halloc : s.allocateMessageIdentity clock with
  | none => exact allocateMessageIdentity_eq_none halloc
  | some p =>
    have hreasons := restartReasons_allocateMessageIdentity halloc
    simp only
    split
    · exact goesOn_discard hreasons
    · split
      · exact goesOn_discard hreasons
      · trivial

theorem goesOn_handleMessage (s : Session α) (m : Message α) :
    s.GoesOn (s.handleMessage clock m) := by
  have htime : ∀ s' : Session α, s'.restartReasons = s.restartReasons →
      s'.msgIdLocked = s.msgIdLocked → s.GoesOn (s'.checkTime clock m) := by
    intro s' hreasons hlocked
    have h : s'.GoesOn (s'.checkTime clock m) := goesOn_checkTime s' m
    unfold GoesOn at h ⊢
    rwa [hreasons, hlocked] at h
  unfold handleMessage
  split
  · trivial
  simp only [handleUnknown]
  split
  · trivial
  · split
    · apply goesOn_discard
      split <;> rfl
    · apply htime
      · split <;> rfl
      · split <;> rfl

end Session

namespace EventLoop

variable {α : Type} {clock : ℕ → ℤ}

/-- Where a handler of `p` goes next: through all its messages, one after the
other, before it may return. -/
inductive GoesOn (p : Packet α) : Task α → Task α → Prop
  | stays (t : Task α) : GoesOn p t t
  | unpacked : GoesOn p (.unpacking p) (.iterating p.messages)
  | handled (m : Message α) (ms : List (Message α)) :
      GoesOn p (.iterating (m :: ms)) (.iterating ms)
  | suspended (m : Message α) (ms : List (Message α)) :
      GoesOn p (.iterating (m :: ms)) (.acquiring m ms)
  | acquired (m : Message α) (ms : List (Message α)) :
      GoesOn p (.acquiring m ms) (.iterating ms)
  | sending (msgIds : Finset ℤ) : GoesOn p (.iterating []) (.sendingAck msgIds)
  | returned : GoesOn p (.iterating []) .idle
  | sent (msgIds : Finset ℤ) : GoesOn p (.sendingAck msgIds) .idle

/-- The step ends task `i` neither in the middle of its packet nor by an exception, and skips no
message, unless it schedules a restart or cancels the task. -/
def HandlesPacket (i : ℕ) (packet : Packet α) (l : EventLoop α) (e : Event α) (l' : EventLoop α) :
    Prop :=
  GoesOn packet (l.tasks i) (l'.tasks i) ∨ e = .cancelled i ∨
    (l'.tasks i = .idle ∧ ∃ reason,
      l'.session.restartReasons = l.session.restartReasons ++ [reason])

/-- What a step of task `i` meets: a packet that is tolerated, acks that can be written, and a
connection that raises nothing but `OSError`. -/
structure Permits (clock : ℕ → ℤ) (tolerated : Prop) (i : ℕ) (l : EventLoop α) (e : Event α)
    (_ : EventLoop α) :
    Prop where
  opened : e = .resumed i → ∀ packet, l.tasks i = .unpacking packet → tolerated
  written : e = .resumed i → l.tasks i = .iterating [] →
    Session.acksThreshold ≤ l.session.pendingAcks.card →
    l.session.AcksFit clock
  sent : e ≠ .sendRaised i

@[simp] theorem tasks_setTask_self (l : EventLoop α) (i : ℕ) (t : Task α) :
    (l.setTask i t).tasks i = t := by
  show Function.update l.tasks i t i = t
  rw [Function.update_self]

theorem tasks_setTask_of_ne (l : EventLoop α) {i j : ℕ} (h : i ≠ j) (t : Task α) :
    (l.setTask j t).tasks i = l.tasks i := by
  show Function.update l.tasks j t i = l.tasks i
  rw [Function.update_of_ne h]

/-- A step of another task leaves task `i` where it is. -/
theorem HandlesPacket.of_tasks_eq {i : ℕ} {packet : Packet α} {l l' : EventLoop α} {e : Event α}
    (h : l'.tasks i = l.tasks i) : HandlesPacket i packet l e l' := by
  left
  rw [h]
  exact GoesOn.stays _

/-- After a message the handler goes on. -/
theorem handlesPacket_settle {l : EventLoop α} {i : ℕ} {packet : Packet α} {m : Message α}
    {ms : List (Message α)} {r : Session α × Session.Verdict} {e : Event α}
    (hr : l.session.GoesOn r)
    (hi : l.tasks i = .iterating (m :: ms) ∨
      (l.tasks i = .acquiring m ms ∧ l.session.msgIdLocked = false)) :
    HandlesPacket i packet l e (l.settle i m ms r) := by
  obtain ⟨s, v⟩ := r
  have hnext : GoesOn packet (l.tasks i) (.iterating ms) := by
    rcases hi with hi | ⟨hi, -⟩ <;> rw [hi]
    · exact GoesOn.handled m ms
    · exact GoesOn.acquired m ms
  cases v with
  | duplicate => exact Or.inl (by simpa [settle] using hnext)
  | discarded => exact Or.inl (by simpa [settle] using hnext)
  | accepted => exact Or.inl (by simpa [settle] using hnext)
  | restarting => exact Or.inr (Or.inr ⟨by simp [settle], "validation", hr⟩)
  | suspended =>
    rcases hi with hi | ⟨-, hlocked⟩
    · left
      rw [hi]
      simpa [settle] using GoesOn.suspended (p := packet) m ms
    · exact absurd (hr.symm.trans hlocked) (by decide)

/-- The task that runs on is the only one that changes. -/
theorem tasks_resume_of_ne {l l' : EventLoop α} {i j : ℕ} (hij : i ≠ j)
    (h : l.resume clock j = some l') : l'.tasks i = l.tasks i := by
  have hset : ∀ t, (l.setTask j t).tasks i = l.tasks i := tasks_setTask_of_ne l hij
  have hsettle : ∀ m ms r, (l.settle j m ms r).tasks i = l.tasks i := by
    rintro m ms ⟨s, v⟩
    cases v <;> exact hset _
  unfold resume at h
  split at h
  · obtain rfl := Option.some.inj h
    unfold startMessages
    split <;> exact hset _
  · obtain rfl := Option.some.inj h
    unfold finishMessages
    split <;> exact hset _
  · obtain rfl := Option.some.inj h
    exact hsettle _ _ _
  · split at h
    · cases h
    · obtain rfl := Option.some.inj h
      exact hsettle _ _ _
  · cases h
  · cases h
  · cases h

/-- A task that ends by an exception does not handle its packet. -/
theorem not_handlesPacket_of_raised {l l' : EventLoop α} {e : Event α} {i : ℕ} {packet : Packet α}
    (hl : l.tasks i ≠ .raised) (he : e ≠ .cancelled i) (hl' : l'.tasks i = .raised) :
    ¬ HandlesPacket i packet l e l' := by
  rintro (hgoes | hcancel | ⟨hidle, -⟩)
  · rw [hl'] at hgoes
    generalize ht : l.tasks i = t at hgoes
    cases hgoes
    exact hl ht
  · exact he hcancel
  · cases hidle.symm.trans hl'

/-- Where the handler is resumed and nothing is wrong, it goes on. -/
theorem handlesPacket_resume {l l' : EventLoop α} {i : ℕ} {packet : Packet α}
    (hpermits : Permits clock (packet ≠ .raised) i l (.resumed i) l')
    (hunpack : ∀ q, l.tasks i = .unpacking q → q = packet) (h : l.resume clock i = some l') :
    HandlesPacket i packet l (.resumed i) l' := by
  unfold resume at h
  split at h
  · next q hi =>
    obtain rfl := hunpack q hi
    obtain rfl := Option.some.inj h
    -- the packet is opened: its messages follow, or the connection is given up
    cases q with
    | message data =>
      left
      simpa [startMessages, hi] using GoesOn.unpacked (p := .message data)
    | container messages =>
      left
      simpa [startMessages, hi] using GoesOn.unpacked (p := .container messages)
    | valueError => exact Or.inr (Or.inr ⟨by simp [startMessages], "unpack", rfl⟩)
    | raised => exact absurd rfl (hpermits.opened rfl _ hi)
  -- the messages are handled; the acks are sent when there are enough
  · next hi =>
    obtain rfl := Option.some.inj h
    left
    unfold finishMessages
    split
    · next hmany =>
      have hfit := hpermits.written rfl hi hmany
      simpa [hi, hfit] using GoesOn.sending (p := packet) l.session.pendingAcks
    · simpa [hi] using GoesOn.returned (p := packet)
  · next m ms hi =>
    obtain rfl := Option.some.inj h
    exact handlesPacket_settle (Session.goesOn_handleMessage l.session m) (Or.inl hi)
  · next m ms hi =>
    split at h
    · cases h
    · next hlocked =>
      obtain rfl := Option.some.inj h
      exact handlesPacket_settle (Session.goesOn_checkTime l.session m)
        (Or.inr ⟨hi, by simpa using hlocked⟩)
  · cases h
  · cases h
  · cases h

/-- The handler whose `send` of the acknowledgments has ended is done with its packet. -/
theorem handlesPacket_sent {l l' : EventLoop α} {e : Event α} {i j : ℕ} {packet : Packet α}
    {msgIds : Finset ℤ} (hj : l.tasks j = .sendingAck msgIds)
    (htasks : l'.tasks = (l.setTask j .idle).tasks) : HandlesPacket i packet l e l' := by
  rcases eq_or_ne i j with rfl | hij
  · left
    rw [htasks, tasks_setTask_self, hj]
    exact GoesOn.sent msgIds
  · refine HandlesPacket.of_tasks_eq ?_
    rw [htasks, tasks_setTask_of_ne l hij]

/-- **The handler goes on in every step in which nothing is wrong**: it opens the packet, handles
one message after the other and returns after the last one; it ends earlier only with a restart. -/
theorem handlesPacket_step {l l' : EventLoop α} {e : Event α} {i : ℕ} {packet : Packet α}
    (hunpack : ∀ q, l.tasks i = .unpacking q → q = packet) (hne : ∀ q, e ≠ .received i q)
    (hpermits : Permits clock (packet ≠ .raised) i l e l') (h : l.step clock e = some l') :
    HandlesPacket i packet l e l' := by
  -- an event of another task leaves this one where it is
  cases e with
  | received j q =>
    have hij : i ≠ j := by
      rintro rfl
      exact hne q rfl
    simp only [step] at h
    split at h
    · obtain rfl := Option.some.inj h
      exact HandlesPacket.of_tasks_eq (tasks_setTask_of_ne l hij _)
    · obtain rfl := Option.some.inj h
      exact HandlesPacket.of_tasks_eq (tasks_setTask_of_ne l hij _)
    · cases h
  | resumed j =>
    rcases eq_or_ne i j with rfl | hij
    · exact handlesPacket_resume hpermits hunpack h
    · exact HandlesPacket.of_tasks_eq (tasks_resume_of_ne hij h)
  -- the ack was sent, or failed in a way that is caught
  | sendReturned j | sendFailed j =>
    simp only [step] at h
    split at h
    · next msgIds hj =>
      obtain rfl := Option.some.inj h
      exact handlesPacket_sent hj rfl
    · cases h
  -- an exception of the send that is not caught is what the condition leaves out
  | sendRaised j =>
    have hij : i ≠ j := by
      rintro rfl
      exact hpermits.sent rfl
    simp only [step] at h
    split at h
    · obtain rfl := Option.some.inj h
      exact HandlesPacket.of_tasks_eq (tasks_setTask_of_ne l hij _)
    · cases h
  | cancelled j =>
    obtain rfl := Option.some.inj h
    rcases eq_or_ne i j with rfl | hij
    · exact Or.inr (Or.inl rfl)
    · exact HandlesPacket.of_tasks_eq (tasks_setTask_of_ne l hij _)
  | registered =>
    obtain ⟨s, -, rfl⟩ := Option.map_eq_some_iff.mp h
    exact HandlesPacket.of_tasks_eq rfl
  | forgotten msgId =>
    obtain rfl := Option.some.inj h
    exact HandlesPacket.of_tasks_eq rfl
  | restarted =>
    obtain rfl := Option.some.inj h
    exact HandlesPacket.of_tasks_eq rfl
  | stopped =>
    obtain rfl := Option.some.inj h
    exact HandlesPacket.of_tasks_eq rfl

/-- **One step.**  Where something is wrong the handler ends by an exception. -/
theorem handlesPacket_iff_permits {l l' : EventLoop α} {e : Event α} {i : ℕ} {packet : Packet α}
    (hunpack : ∀ q, l.tasks i = .unpacking q → q = packet) (hne : ∀ q, e ≠ .received i q)
    (h : l.step clock e = some l') :
    HandlesPacket i packet l e l' ↔ Permits clock (packet ≠ .raised) i l e l' := by
  refine ⟨fun hhandles => ⟨?_, ?_, ?_⟩, fun hpermits => handlesPacket_step hunpack hne hpermits h⟩
  · rintro rfl q hi rfl
    obtain rfl := hunpack q hi
    have hl' : l.startMessages i .raised = l' := by
      simpa [step, resume, hi] using h
    refine not_handlesPacket_of_raised (by simp [hi]) (by simp) ?_ hhandles
    rw [← hl']
    exact tasks_setTask_self l i .raised
  · rintro rfl hi hmany
    by_contra hfit
    have hl' : l.finishMessages clock i = l' := by
      simpa [step, resume, hi] using h
    refine not_handlesPacket_of_raised (by simp [hi]) (by simp) ?_ hhandles
    rw [← hl', finishMessages, if_pos hmany, if_neg hfit]
    exact tasks_setTask_self l i .raised
  · rintro rfl
    simp only [step] at h
    split at h
    · next msgIds hi =>
      obtain rfl := Option.some.inj h
      exact not_handlesPacket_of_raised (by simp [hi]) (by simp) (tasks_setTask_self l i .raised)
        hhandles
    · cases h

/-- A handler that goes on unpacks nothing else. -/
theorem HandlesPacket.unpacking {i : ℕ} {packet : Packet α} {l l' : EventLoop α} {e : Event α}
    (hunpack : ∀ q, l.tasks i = .unpacking q → q = packet)
    (hcancel : e = .cancelled i → l'.tasks i = .idle) (h : HandlesPacket i packet l e l') :
    ∀ q, l'.tasks i = .unpacking q → q = packet := by
  intro q hq
  rcases h with hgoes | hcan | ⟨hidle, -⟩
  · rw [hq] at hgoes
    generalize ht : l.tasks i = t at hgoes
    cases hgoes
    exact hunpack q ht
  · cases (hcancel hcan).symm.trans hq
  · cases hidle.symm.trans hq

/-- A cancelled task is idle. -/
theorem tasks_of_cancelled {l l' : EventLoop α} {e : Event α} {i : ℕ} (h : l.step clock e = some l')
    (he : e = .cancelled i) : l'.tasks i = .idle := by
  subst he
  obtain rfl := Option.some.inj h
  exact tasks_setTask_self l i .idle

/-- **A handler handles its packet or schedules a restart exactly where the packet is tolerated, the
acks it goes on to send can be written, and sending them raises nothing but `OSError`**, whatever
else the event loop does in the meantime. -/
theorem handlesPacket_iff (clock : ℕ → ℤ) (sha256 : Mtproto.Sha256) (aes : Mtproto.Ige256)
    (objects : ℕ → Option (Raw.Parser (Contents α))) (b sessionId authKey authKeyId : List UInt8)
    {l : EventLoop α} {i : ℕ} {es : List (Event α)}
    (hi : l.tasks i =
      .unpacking (.ofUnpack (Mtproto.unpack sha256 aes objects b sessionId authKey authKeyId)))
    (hes : ∀ q, .received i q ∉ es) :
    AllSteps (step clock) (HandlesPacket i (.ofUnpack
        (Mtproto.unpack sha256 aes objects b sessionId authKey authKeyId))) l es ↔
      AllSteps (step clock) (Permits clock
        (Mtproto.Tolerated sha256 aes objects b sessionId authKey authKeyId) i) l es := by
  generalize hp : Packet.ofUnpack (Mtproto.unpack sha256 aes objects b sessionId authKey
    authKeyId) = packet at *
  have htolerated : Mtproto.Tolerated sha256 aes objects b sessionId authKey authKeyId ↔
      packet ≠ .raised := by
    rw [Mtproto.tolerated_iff, ← hp, Ne, Packet.ofUnpack_eq_raised]
    push Not
    rfl
  rw [propext htolerated]
  -- no second packet is received under the number of this one
  have hother : AllSteps (step clock) (fun _ (e : Event α) _ => ∀ q, e ≠ .received i q) l es := by
    refine allSteps_of_forall_mem (C := fun e : Event α => ∀ q, e ≠ .received i q) ?_
    rintro e he q rfl
    exact hes q he
  rw [← allSteps_and_iff hother, ← allSteps_and_iff (P := Permits clock (packet ≠ .raised) i)
    hother]
  -- by the step lemma: while the task unpacks, it is this packet that it unpacks
  refine allSteps_iff (I := fun l => ∀ q, l.tasks i = .unpacking q → q = packet) ?_ ?_ ?_
  · intro l e l' hunpack h
    exact and_congr_left fun hne => handlesPacket_iff_permits hunpack hne h
  · rintro l e l' hunpack h ⟨hhandles, -⟩
    exact hhandles.unpacking hunpack (tasks_of_cancelled h)
  · intro q hq
    exact (Task.unpacking.inj (hi.symm.trans hq)).symm

/-- `boolTrue` as an update. -/
def updateObjects (id : ℕ) : Option (Raw.Parser (Contents ℕ)) :=
  if id = Raw.BoolTrue.id then some fun b => .ok (.body (.updates 0), b) else none

/-- A packet that can be opened, with one update in it. -/
theorem handlesPacket_iff_update :
    AllSteps (step fun _ => 0)
      (HandlesPacket 0 (.ofUnpack (Mtproto.unpack Mtproto.zeroSha256 Mtproto.plainAes
        updateObjects (Mtproto.packetOf 4) (List.replicate 8 0) [] (List.replicate 8 0))))
      { tasks := fun _ => .unpacking (.ofUnpack (Mtproto.unpack Mtproto.zeroSha256 Mtproto.plainAes
        updateObjects (Mtproto.packetOf 4) (List.replicate 8 0) [] (List.replicate 8 0))) }
      [.resumed 0, .resumed 0, .resumed 0] := by
  have hun : Mtproto.unpack Mtproto.zeroSha256 Mtproto.plainAes updateObjects (Mtproto.packetOf 4)
    (List.replicate 8 0) []
      (List.replicate 8 0) = .ok ⟨1, 0, 4, .body (.updates 0)⟩ := rfl
  refine (handlesPacket_iff (fun _ => 0) _ _ _ _ _ _ _ rfl (by simp)).mpr ?_
  have ht := Mtproto.Tolerated.of_ok hun
  rw [hun]
  refine .cons rfl ⟨fun _ _ _ => ht, ?_, by simp⟩ (.cons rfl ⟨fun _ _ _ => ht, ?_, by simp⟩
    (.cons rfl ⟨fun _ _ _ => ht, ?_, by simp⟩ trivial))
  · rintro - ⟨⟩
  · rintro - ⟨⟩
  · rintro - - hmany
    exact absurd hmany (by decide)

/-- A packet that begins with another id than the session's auth key id ends its
handler with a `SecurityCheckMismatch`, and no restart is scheduled. -/
theorem handler_ends_uncaught :
    Mtproto.unpack (β := Contents ℕ) Mtproto.zeroSha256 Mtproto.plainAes (fun _ => none)
        (List.replicate 56 0) (List.replicate 8 0) [] (List.replicate 8 1) =
          .error (.securityCheckMismatch "Check failed: b.read(8) == auth_key_id") ∧
      ∃ l, run (step fun _ => 0) ({} : EventLoop ℕ)
          [.received 0 (.ofUnpack
            (Mtproto.unpack Mtproto.zeroSha256 Mtproto.plainAes (fun _ => none)
            (List.replicate 56 0) (List.replicate 8 0) [] (List.replicate 8 1))), .resumed 0] =
              some l ∧
        l.tasks 0 = .raised ∧ l.session.restartReasons = [] := by
  have hun : Mtproto.unpack (β := Contents ℕ) Mtproto.zeroSha256 Mtproto.plainAes (fun _ => none)
      (List.replicate 56 0) (List.replicate 8 0) [] (List.replicate 8 1) =
        .error (.securityCheckMismatch "Check failed: b.read(8) == auth_key_id") := rfl
  refine ⟨hun, ?_⟩
  rw [hun]
  exact ⟨_, rfl, rfl, rfl⟩

end EventLoop

end Pyrogram
