import Mathlib.Tactic.Common

/-!
# A keep-alive HTTP connection

`_HttpConnection` sends one request after the other over a connection it keeps, and
takes the next response on it for the answer.  A request that fails or times out drops
the connection and is sent once more over a fresh one; a request that is cancelled, or
whose response makes a reader raise a `ValueError`, leaves the connection as it is.

The relay answers each request it receives on a connection with one response, in
order.  What was written to a connection that is gone may still reach it.

## Main definitions

* `HttpConnection` — the connection, its lock, and what is under way on both sides.
* `HttpConnection.step` — one call of `request` runs to its next await, or the relay acts.
* `HttpConnection.InStep` — the only response to come is that of the call that waits for one.

## Main results

* `inStep_step` — each response is that of the request, as long as no call ends between its
  write and the end of its response on a connection that stays open.
-/

namespace Pyrogram

/-- What one call of `request` sends; `seq` is the number of an uplink post. -/
structure HttpRequest where
  id : ℕ
  seq : Option ℕ := none
  deriving DecidableEq, Repr

namespace HttpConnection

/-- `_REQUEST_ATTEMPTS` -/
def requestAttempts : ℕ := 2

/-- A connection that has been opened. -/
structure Socket where
  /-- `not self._writer.is_closing()` -/
  usable : Bool := true
  /-- The requests written that the relay has not received. -/
  written : List HttpRequest := []
  /-- The requests whose responses have not been read. -/
  unread : List HttpRequest := []
  deriving DecidableEq, Repr

/-- Where the call that holds the lock is. -/
inductive Stage
  /-- In `open_connection`. -/
  | connecting
  /-- In `_send_and_read`, with the request written. -/
  | exchanging
  deriving DecidableEq, Repr

structure Call where
  request : HttpRequest
  attempt : ℕ
  stage : Stage
  deriving DecidableEq, Repr

end HttpConnection

structure HttpConnection where
  /-- `_reader` and `_writer`. -/
  socket : Option HttpConnection.Socket := none
  /-- The call that holds `_lock`. -/
  holder : Option HttpConnection.Call := none
  waiters : List HttpRequest := []
  /-- What was written to connections that are gone, and may still arrive. -/
  strays : List HttpRequest := []
  /-- What the relay has received. -/
  received : List HttpRequest := []
  deriving DecidableEq, Repr

namespace HttpConnection

inductive Event
  /-- The lock is given to the call that has waited longest. -/
  | locked
  | connected
  /-- The attempt ends with a connection error, the end of the stream or a time-out. -/
  | failed
  /-- The next response has been read; it may ask to close the connection. -/
  | answered (closes : Bool)
  /-- Reading the next response raises what `request` lets pass (a line over the limit, a
  negative length), behind its end or before. -/
  | erred (whole : Bool)
  /-- The relay receives the next request, and answers it. -/
  | received
  | strayReceived (k : ℕ)
  /-- The connection is lost. -/
  | lost
  /-- The call that holds the lock is cancelled. -/
  | cancelled
  | cancelledWaiting (k : ℕ)
  deriving DecidableEq, Repr

/-- What becomes of a call. -/
inductive Outcome
  | pending
  /-- `request` returns the response to `answer`. -/
  | returned (request answer : HttpRequest)
  /-- `request` raises `WebCarrierError`. -/
  | raised
  /-- `request` raises anything else. -/
  | erred
  | cancelled
  deriving DecidableEq, Repr

/-- The requests that are on their way to the relay. -/
def inFlight (h : HttpConnection) : List HttpRequest :=
  (h.socket.map Socket.written).getD [] ++ h.strays

/-- `_drop_connection` -/
def drop (h : HttpConnection) : HttpConnection := { h with socket := none, strays := h.inFlight }

/-- An attempt with the lock at hand: where the connection is usable the request is
written to it at once. -/
def attempt (h : HttpConnection) (r : HttpRequest) (n : ℕ) : HttpConnection :=
  match h.socket with
  | some s =>
      if s.usable then
        { h with
          socket := some { s with written := s.written ++ [r] }
          holder := some ⟨r, n, .exchanging⟩ }
      else { h with holder := some ⟨r, n, .connecting⟩ }
  | none => { h with holder := some ⟨r, n, .connecting⟩ }

/-- `request` is called. -/
def call (h : HttpConnection) (r : HttpRequest) : HttpConnection :=
  if h.holder = none ∧ h.waiters = [] then h.attempt r 0 else { h with waiters := h.waiters ++ [r] }

def release (h : HttpConnection) : HttpConnection := { h with holder := none }

def step (h : HttpConnection) : Event → Option (HttpConnection × Outcome)
  | .locked =>
      match h.holder, h.waiters with
      | none, r :: waiters => some (attempt { h with waiters := waiters } r 0, .pending)
      | _, _ => none
  | .connected =>
      match h.holder with
      | some ⟨r, n, .connecting⟩ =>
          some ({ h with
            socket := some { written := [r] }
            strays := h.inFlight
            holder := some ⟨r, n, .exchanging⟩ }, .pending)
      | _ => none
  | .failed =>
      match h.holder with
      | some c =>
          if c.attempt + 1 < requestAttempts then some (h.drop.attempt c.request (c.attempt + 1),
            .pending)
          else some (h.drop.release, .raised)
      | none => none
  | .answered closes =>
      match h.holder, h.socket with
      | some ⟨r, _, .exchanging⟩, some s =>
          match s.unread with
          | answer :: unread =>
              let h := { h with socket := some { s with unread := unread } }
              some ((if closes then h.drop else h).release, .returned r answer)
          | [] => none
      | _, _ => none
  | .erred whole =>
      match h.holder, h.socket with
      | some ⟨_, _, .exchanging⟩, some s =>
          match s.unread with
          | _ :: unread =>
              -- what is left of the response stays on the connection
              let s := if whole then { s with unread := unread } else s
              some (release { h with socket := some s }, .erred)
          | [] => none
      | _, _ => none
  | .received =>
      match h.socket with
      | some s =>
          match s.written with
          | r :: written =>
              let s := { s with written := written, unread := s.unread ++ [r] }
              some ({ h with socket := some s, received := h.received ++ [r] }, .pending)
          | [] => none
      | none => none
  | .strayReceived k =>
      match h.strays[k]? with
      | some r => some ({ h with strays := h.strays.eraseIdx k, received := h.received ++ [r] },
          .pending)
      | none => none
  | .lost =>
      match h.socket with
      | some s => some ({ h with socket := some { s with usable := false } }, .pending)
      | none => none
  | .cancelled =>
      match h.holder with
      | some _ => some (h.release, .cancelled)
      | none => none
  | .cancelledWaiting k =>
      if k < h.waiters.length then some ({ h with waiters := h.waiters.eraseIdx k }, .cancelled)
        else none

/-! ### What a step does -/

/-- Where an attempt begins. -/
theorem attempt_cases (h : HttpConnection) (r : HttpRequest) (n : ℕ) :
    (∃ s, h.socket = some s ∧ s.usable = true ∧ h.attempt r n =
      { h with
        socket := some { s with written := s.written ++ [r] }
        holder := some ⟨r, n, .exchanging⟩ }) ∨
    (∀ s, h.socket = some s → s.usable = false) ∧
      h.attempt r n = { h with holder := some ⟨r, n, .connecting⟩ } := by
  unfold attempt
  cases hs : h.socket with
  | none => exact .inr ⟨fun s h => (nomatch h), rfl⟩
  | some s =>
    cases hu : s.usable with
    | false =>
      refine .inr ⟨?_, by simp [hu]⟩
      rintro _ ⟨⟩
      exact hu
    | true => exact .inl ⟨s, rfl, hu, by simp [hu]⟩

section Inversion

variable {h h' : HttpConnection} {o : Outcome}

theorem step_locked (hstep : h.step .locked = some (h', o)) : o = .pending ∧ h.holder = none ∧
    ∃ r waiters, h.waiters = r :: waiters ∧ h' = attempt { h with waiters := waiters } r 0 := by
  simp only [step] at hstep
  split at hstep
  · next r waiters hholder hwaiters =>
    obtain ⟨rfl, rfl⟩ := Prod.mk.inj (Option.some.inj hstep)
    exact ⟨rfl, hholder, r, waiters, hwaiters, rfl⟩
  · cases hstep

theorem step_connected (hstep : h.step .connected = some (h', o)) :
    o = .pending ∧ ∃ r n, h.holder = some ⟨r, n, .connecting⟩ ∧
    h' = { h with
      socket := some { written := [r] }
      strays := h.inFlight
      holder := some ⟨r, n, .exchanging⟩ } := by
  simp only [step] at hstep
  split at hstep
  · next r n hholder =>
    obtain ⟨rfl, rfl⟩ := Prod.mk.inj (Option.some.inj hstep)
    exact ⟨rfl, r, n, hholder, rfl⟩
  · cases hstep

theorem step_failed (hstep : h.step .failed = some (h', o)) : ∃ c, h.holder = some c ∧
    (o = .pending ∧ h' = { h.drop with holder := some ⟨c.request, c.attempt + 1, .connecting⟩ } ∨
      o = .raised ∧ h' = h.drop.release) := by
  simp only [step] at hstep
  split at hstep
  · next c hholder =>
    refine ⟨c, hholder, ?_⟩
    split at hstep <;> obtain ⟨rfl, rfl⟩ := Prod.mk.inj (Option.some.inj hstep)
    · exact .inl ⟨rfl, rfl⟩
    · exact .inr ⟨rfl, rfl⟩
  · cases hstep

theorem step_answered {closes : Bool} (hstep : h.step (.answered closes) = some (h', o)) :
    ∃ r n s answer unread, h.holder = some ⟨r, n, .exchanging⟩ ∧ h.socket = some s ∧
      s.unread = answer :: unread ∧
      o = .returned r answer ∧
      h' = (if closes then ({ h with socket := some { s with unread := unread } } :
        HttpConnection).drop
        else { h with socket := some { s with unread := unread } }).release := by
  simp only [step] at hstep
  split at hstep
  · next r n s hholder hsocket =>
    split at hstep
    · next answer unread hunread =>
      obtain ⟨rfl, rfl⟩ := Prod.mk.inj (Option.some.inj hstep)
      exact ⟨r, n, s, answer, unread, hholder, hsocket, hunread, rfl, rfl⟩
    · cases hstep
  · cases hstep

theorem step_erred {whole : Bool} (hstep : h.step (.erred whole) = some (h', o)) :
    ∃ r n s answer unread, h.holder = some ⟨r, n, .exchanging⟩ ∧ h.socket = some s ∧
      s.unread = answer :: unread ∧
      o = .erred ∧ h' =
        release { h with socket := some (if whole then { s with unread := unread } else s) } := by
  simp only [step] at hstep
  split at hstep
  · next r n s hholder hsocket =>
    split at hstep
    · next answer unread hunread =>
      obtain ⟨rfl, rfl⟩ := Prod.mk.inj (Option.some.inj hstep)
      exact ⟨r, n, s, answer, unread, hholder, hsocket, hunread, rfl, rfl⟩
    · cases hstep
  · cases hstep

theorem step_received (hstep : h.step .received = some (h', o)) :
    o = .pending ∧ ∃ s r written, h.socket = some s ∧
    s.written = r :: written ∧ h' = { h with
      socket := some { s with written := written, unread := s.unread ++ [r] }, received :=
        h.received ++ [r] } := by
  simp only [step] at hstep
  split at hstep
  · next s hsocket =>
    split at hstep
    · next r written hwritten =>
      obtain ⟨rfl, rfl⟩ := Prod.mk.inj (Option.some.inj hstep)
      exact ⟨rfl, s, r, written, hsocket, hwritten, rfl⟩
    · cases hstep
  · cases hstep

theorem step_strayReceived {k : ℕ} (hstep : h.step (.strayReceived k) = some (h', o)) :
    o = .pending ∧
    ∃ r, h.strays[k]? = some r ∧
      h' = { h with strays := h.strays.eraseIdx k, received := h.received ++ [r] } := by
  simp only [step] at hstep
  split at hstep
  · next r hr =>
    obtain ⟨rfl, rfl⟩ := Prod.mk.inj (Option.some.inj hstep)
    exact ⟨rfl, r, hr, rfl⟩
  · cases hstep

theorem step_lost (hstep : h.step .lost = some (h', o)) : o = .pending ∧
    ∃ s, h.socket = some s ∧ h' = { h with socket := some { s with usable := false } } := by
  simp only [step] at hstep
  split at hstep
  · next s hsocket =>
    obtain ⟨rfl, rfl⟩ := Prod.mk.inj (Option.some.inj hstep)
    exact ⟨rfl, s, hsocket, rfl⟩
  · cases hstep

theorem step_cancelled (hstep : h.step .cancelled = some (h', o)) :
    o = .cancelled ∧ ∃ c, h.holder = some c ∧ h' = h.release := by
  simp only [step] at hstep
  split at hstep
  · next c hholder =>
    obtain ⟨rfl, rfl⟩ := Prod.mk.inj (Option.some.inj hstep)
    exact ⟨rfl, c, hholder, rfl⟩
  · cases hstep

theorem step_cancelledWaiting {k : ℕ} (hstep : h.step (.cancelledWaiting k) = some (h', o)) :
    o = .cancelled ∧
    k < h.waiters.length ∧ h' = { h with waiters := h.waiters.eraseIdx k } := by
  simp only [step] at hstep
  split at hstep
  · next hk =>
    obtain ⟨rfl, rfl⟩ := Prod.mk.inj (Option.some.inj hstep)
    exact ⟨rfl, hk, rfl⟩
  · cases hstep

end Inversion

/-! ### Responses -/

/-- The responses to come, and those of the requests that are still to arrive. -/
def Socket.outstanding (s : Socket) : List HttpRequest := s.unread ++ s.written

/-- **In step**: a call that waits for its response has the only one to come; before a call
writes there is none to come on a connection that it would use. -/
def InStep (h : HttpConnection) : Prop :=
  (∀ r n, h.holder = some ⟨r, n, .exchanging⟩ → ∃ s, h.socket = some s ∧ s.outstanding = [r]) ∧
    ((∀ r n, h.holder ≠ some ⟨r, n, .exchanging⟩) →
      ∀ s, h.socket = some s → s.usable = true → s.outstanding = [])

/-- The connection is not left with a response to come. -/
def LeavesNoResponse (h : HttpConnection) : Event → Prop
  | .cancelled => ∀ r n, h.holder = some ⟨r, n,
      .exchanging⟩ → ∀ s, h.socket = some s → s.usable = false
  | .erred whole => whole = false → ∀ s, h.socket = some s → s.usable = false
  | _ => True

theorem inStep_attempt {h : HttpConnection} (hidle : ∀ s, h.socket = some s → s.usable = true →
    s.outstanding = [])
    (r : HttpRequest) (n : ℕ) : (h.attempt r n).InStep := by
  rcases h.attempt_cases r n with ⟨s, hs, hu, he⟩ | ⟨hnone, he⟩
  · -- the request is written behind nothing
    obtain ⟨hunread, hwritten⟩ := List.append_eq_nil_iff.mp (hidle s hs hu)
    rw [he]
    refine ⟨?_, fun h => absurd rfl (h r n)⟩
    rintro r n ⟨⟩
    exact ⟨_, rfl, by simp [Socket.outstanding, hunread, hwritten]⟩
  · rw [he]
    refine ⟨?_, ?_⟩
    · rintro r n ⟨⟩
    · intro _ s hs hu
      cases (hnone s hs).symm.trans hu

theorem InStep.idle {h : HttpConnection} (hin : h.InStep)
    (hholder : ∀ r n, h.holder ≠ some ⟨r, n, .exchanging⟩) :
    ∀ s, h.socket = some s → s.usable = true → s.outstanding = [] := hin.2 hholder

/-- Without a usable connection there is nothing to be out of step with. -/
theorem inStep_of_unusable {h : HttpConnection}
    (hholder : ∀ r n, h.holder ≠ some ⟨r, n, .exchanging⟩)
    (hs : ∀ s, h.socket = some s → s.usable = false) : h.InStep :=
  ⟨fun r n h => absurd h (hholder r n), fun _ s h hu => nomatch (hs s h).symm.trans hu⟩

/-- **A step keeps step**, and what is returned is the response to the request. -/
theorem inStep_step {h h' : HttpConnection} {e : Event} {o : Outcome} (hin : h.InStep)
    (hclean : h.LeavesNoResponse e)
    (hstep : h.step e = some (h', o)) : h'.InStep ∧ ∀ r a, o = .returned r a → a = r := by
  cases e with
  | locked =>
    obtain ⟨rfl, hnone, r, waiters, -, rfl⟩ := step_locked hstep
    have hidle := hin.idle (by simp [hnone])
    exact ⟨@inStep_attempt { h with waiters := waiters } hidle r 0, fun _ _ h => nomatch h⟩
  | connected =>
    obtain ⟨rfl, r, n, -, rfl⟩ := step_connected hstep
    refine ⟨⟨?_, fun h => absurd rfl (h r n)⟩, fun _ _ h => nomatch h⟩
    rintro r n ⟨⟩
    exact ⟨_, rfl, rfl⟩
  | failed =>
    obtain ⟨c, -, ⟨rfl, rfl⟩ | ⟨rfl, rfl⟩⟩ := step_failed hstep
    · exact ⟨inStep_of_unusable (fun _ _ h => nomatch h) (fun _ h => nomatch h), fun _ _ h =>
        nomatch h⟩
    · exact ⟨inStep_of_unusable (fun _ _ h => nomatch h) (fun _ h => nomatch h), fun _ _ h =>
        nomatch h⟩
  | answered closes =>
    obtain ⟨r, n, s, answer, unread, hholder, hsocket, hunread, rfl, rfl⟩ := step_answered hstep
    -- the response that was read is the only one, so nothing is left behind it
    obtain ⟨s', hs', hone⟩ := hin.1 r n hholder
    obtain rfl : s = s' := Option.some.inj (hsocket.symm.trans hs')
    rw [Socket.outstanding, hunread, List.cons_append] at hone
    obtain ⟨rfl, hrest⟩ := List.cons.inj hone
    refine ⟨?_, ?_⟩
    · cases closes with
      | true => exact inStep_of_unusable (fun _ _ h => nomatch h) (fun _ h => nomatch h)
      | false =>
        refine ⟨fun _ _ h => (nomatch h), ?_⟩
        rintro - _ ⟨⟩ -
        exact hrest
    · rintro _ _ ⟨⟩
      rfl
  | erred whole =>
    obtain ⟨r, n, s, answer, unread, hholder, hsocket, hunread, rfl, rfl⟩ := step_erred hstep
    obtain ⟨s', hs', hone⟩ := hin.1 r n hholder
    obtain rfl : s = s' := Option.some.inj (hsocket.symm.trans hs')
    rw [Socket.outstanding, hunread, List.cons_append] at hone
    refine ⟨?_, fun _ _ h => nomatch h⟩
    cases whole with
    | true =>
      refine ⟨fun _ _ h => (nomatch h), ?_⟩
      rintro - _ ⟨⟩ -
      exact (List.cons.inj hone).2
    | false =>
      refine inStep_of_unusable (fun _ _ h => nomatch h) ?_
      rintro _ ⟨⟩
      exact hclean rfl s hsocket
  | received =>
    obtain ⟨rfl, s, r, written, hsocket, hwritten, rfl⟩ := step_received hstep
    have hsame : Socket.outstanding { s with written := written, unread := s.unread ++ [r] } =
        s.outstanding := by
      simp [Socket.outstanding, hwritten]
    refine ⟨⟨?_, ?_⟩, fun _ _ h => nomatch h⟩
    · intro r n hholder
      obtain ⟨s', hs', hone⟩ := hin.1 r n hholder
      obtain rfl : s = s' := Option.some.inj (hsocket.symm.trans hs')
      exact ⟨_, rfl, hsame.trans hone⟩
    · rintro hholder _ ⟨⟩ hu
      exact hsame.trans (hin.idle hholder s hsocket hu)
  | strayReceived k =>
    obtain ⟨rfl, r, -, rfl⟩ := step_strayReceived hstep
    exact ⟨hin, fun _ _ h => nomatch h⟩
  | lost =>
    obtain ⟨rfl, s, hsocket, rfl⟩ := step_lost hstep
    refine ⟨⟨?_, ?_⟩, fun _ _ h => nomatch h⟩
    · intro r n hholder
      obtain ⟨s', hs', hone⟩ := hin.1 r n hholder
      obtain rfl : s = s' := Option.some.inj (hsocket.symm.trans hs')
      exact ⟨_, rfl, hone⟩
    · rintro - _ ⟨⟩ ⟨⟩
  | cancelled =>
    obtain ⟨rfl, ⟨r, n, stage⟩, hholder, rfl⟩ := step_cancelled hstep
    refine ⟨⟨fun _ _ h => (nomatch h), ?_⟩, fun _ _ h => nomatch h⟩
    intro _ s hsocket hu
    cases stage with
    | connecting => exact hin.idle (by simp [hholder]) s hsocket hu
    | exchanging => cases (hclean r n hholder s hsocket).symm.trans hu
  | cancelledWaiting k =>
    obtain ⟨rfl, -, rfl⟩ := step_cancelledWaiting hstep
    exact ⟨hin, fun _ _ h => nomatch h⟩

/-! ### Requests -/

/-- What the connection knows of. -/
def requests (h : HttpConnection) : List HttpRequest :=
  (h.holder.map Call.request).toList ++ h.waiters ++ h.inFlight ++ h.received

/-- The responses that wait to be read answer requests that were received. -/
def Answers (h : HttpConnection) : Prop := ∀ s, h.socket = some s → ∀ r ∈ s.unread, r ∈ h.received

theorem mem_requests {h : HttpConnection} {r : HttpRequest} : r ∈ h.requests ↔
    (∃ c, h.holder = some c ∧ c.request = r) ∨ r ∈ h.waiters ∨
      (∃ s, h.socket = some s ∧ r ∈ s.written) ∨ r ∈ h.strays ∨ r ∈ h.received := by
  simp only [requests, inFlight, List.mem_append, Option.mem_toList, Option.map_eq_some_iff,
    or_assoc]
  cases h.socket <;> simp

theorem requests_attempt {h : HttpConnection} {r q : HttpRequest} {n : ℕ}
    (hq : q ∈ (h.attempt r n).requests) :
    q = r ∨ q ∈ h.requests := by
  rw [mem_requests] at hq ⊢
  rcases h.attempt_cases r n with ⟨s, hs, -, he⟩ | ⟨-, he⟩ <;> rw [he] at hq
  · rcases hq with ⟨c, ⟨⟩, rfl⟩ | hq | ⟨_, ⟨⟩, hq⟩ | hq
    · exact .inl rfl
    · exact .inr (.inr (.inl hq))
    · rcases List.mem_append.mp hq with hq | hq
      · exact .inr (.inr (.inr (.inl ⟨s, hs, hq⟩)))
      · exact .inl (List.mem_singleton.mp hq)
    · exact .inr (.inr (.inr (.inr hq)))
  · rcases hq with ⟨c, ⟨⟩, rfl⟩ | hq
    · exact .inl rfl
    · exact .inr (.inr hq)

theorem mem_inFlight {h : HttpConnection} {r : HttpRequest} :
    r ∈ h.inFlight ↔ (∃ s, h.socket = some s ∧ r ∈ s.written) ∨ r ∈ h.strays := by
  rw [inFlight, List.mem_append]
  cases h.socket <;> simp

/-- What is on its way after a step was on its way, or was read off the holder or the waiters. -/
theorem requests_of {h h' : HttpConnection} {q : HttpRequest} (hq : q ∈ h'.requests)
    (hholder : ∀ c, h'.holder = some c → c.request ∈ h.requests)
    (hwaiters : ∀ r ∈ h'.waiters, r ∈ h.requests)
    (hflight : ∀ r ∈ h'.inFlight, r ∈ h.requests) (hreceived : ∀ r ∈ h'.received, r ∈ h.requests) :
    q ∈ h.requests := by
  simp only [requests, List.mem_append] at hq
  rcases hq with ((hq | hq) | hq) | hq
  · obtain ⟨c, hc, rfl⟩ := Option.map_eq_some_iff.mp (Option.mem_toList.mp hq)
    exact hholder c hc
  · exact hwaiters q hq
  · exact hflight q hq
  · exact hreceived q hq

section Known

variable (h : HttpConnection) {r : HttpRequest}

theorem holder_mem {c : Call} (hc : h.holder = some c) : c.request ∈ h.requests := by
  rw [mem_requests]
  exact .inl ⟨c, hc, rfl⟩

theorem waiter_mem (hr : r ∈ h.waiters) : r ∈ h.requests := by
  rw [mem_requests]
  exact .inr (.inl hr)

theorem flight_mem (hr : r ∈ h.inFlight) : r ∈ h.requests := by
  rw [mem_inFlight] at hr
  rw [mem_requests]
  exact .inr (.inr (hr.imp_right Or.inl))

theorem received_mem (hr : r ∈ h.received) : r ∈ h.requests := by
  rw [mem_requests]
  exact .inr (.inr (.inr (.inr hr)))

end Known

/-- **No step makes up a request.** -/
theorem requests_step {h h' : HttpConnection} {e : Event} {o : Outcome}
    (hstep : h.step e = some (h', o)) {q : HttpRequest}
    (hq : q ∈ h'.requests) : q ∈ h.requests := by
  cases e with
  | locked =>
    obtain ⟨-, -, r, waiters, hwaiters, rfl⟩ := step_locked hstep
    have hwaiting : ∀ q, q = r ∨ q ∈ waiters → q ∈ h.requests :=
      fun q hq => h.waiter_mem (hwaiters ▸ List.mem_cons.mpr hq)
    rcases requests_attempt hq with rfl | hq
    · exact hwaiting _ (.inl rfl)
    · exact requests_of hq (fun _ => h.holder_mem) (fun q hq => hwaiting q (.inr hq))
        (fun _ => h.flight_mem) (fun _ => h.received_mem)
  | connected =>
    obtain ⟨-, r, n, hholder, rfl⟩ := step_connected hstep
    refine requests_of hq ?_ (fun _ => h.waiter_mem) ?_ (fun _ => h.received_mem)
    · rintro c ⟨⟩
      exact mem_requests.mpr (.inl ⟨_, hholder, rfl⟩)
    · intro q hq
      rcases List.mem_cons.mp hq with rfl | hq
      · exact h.holder_mem hholder
      · exact h.flight_mem hq
  | failed =>
    obtain ⟨c, hholder, ⟨-, rfl⟩ | ⟨-, rfl⟩⟩ := step_failed hstep
    · refine requests_of hq ?_ (fun _ => h.waiter_mem) (fun _ => h.flight_mem)
        (fun _ => h.received_mem)
      rintro _ ⟨⟩
      exact mem_requests.mpr (.inl ⟨_, hholder, rfl⟩)
    · exact requests_of hq (fun _ h => nomatch h) (fun _ => h.waiter_mem) (fun _ => h.flight_mem)
        (fun _ => h.received_mem)
  | answered closes =>
    obtain ⟨r, n, s, answer, unread, -, hsocket, -, -, rfl⟩ := step_answered hstep
    have hflight : ∀ q, q ∈ s.written ++ h.strays → q ∈ h.requests := by
      intro q hq
      refine h.flight_mem ?_
      rwa [inFlight, hsocket]
    cases closes with
    | true => exact requests_of hq (fun _ h => nomatch h) (fun _ => h.waiter_mem) hflight (fun _ =>
        h.received_mem)
    | false => exact requests_of hq (fun _ h => nomatch h) (fun _ => h.waiter_mem) hflight (fun _ =>
        h.received_mem)
  | erred whole =>
    obtain ⟨r, n, s, answer, unread, -, hsocket, -, -, rfl⟩ := step_erred hstep
    have hflight : ∀ q, q ∈ s.written ++ h.strays → q ∈ h.requests := by
      intro q hq
      refine h.flight_mem ?_
      rwa [inFlight, hsocket]
    cases whole with
    | true => exact requests_of hq (fun _ h => nomatch h) (fun _ => h.waiter_mem) hflight (fun _ =>
        h.received_mem)
    | false => exact requests_of hq (fun _ h => nomatch h) (fun _ => h.waiter_mem) hflight (fun _ =>
        h.received_mem)
  | received =>
    obtain ⟨-, s, r, written, hsocket, hwritten, rfl⟩ := step_received hstep
    have hflight : ∀ q, q = r ∨ q ∈ written ++ h.strays → q ∈ h.requests := by
      intro q hq
      refine h.flight_mem ?_
      rw [inFlight, hsocket, Option.map_some, Option.getD_some, hwritten]
      exact List.mem_cons.mpr hq
    refine requests_of hq (fun _ => h.holder_mem) (fun _ => h.waiter_mem)
      (fun q hq => hflight q (.inr hq)) ?_
    intro q hq
    rcases List.mem_append.mp hq with hq | hq
    · exact h.received_mem hq
    · exact hflight q (.inl (List.mem_singleton.mp hq))
  | strayReceived k =>
    obtain ⟨-, r, hr, rfl⟩ := step_strayReceived hstep
    have hstray : ∀ q ∈ h.strays, q ∈ h.requests :=
      fun q hq => h.flight_mem (mem_inFlight.mpr (.inr hq))
    refine requests_of hq (fun _ => h.holder_mem) (fun _ => h.waiter_mem) ?_ ?_
    · intro q hq
      rcases mem_inFlight.mp hq with hq | hq
      · exact h.flight_mem (mem_inFlight.mpr (.inl hq))
      · exact hstray q (List.mem_of_mem_eraseIdx hq)
    · intro q hq
      rcases List.mem_append.mp hq with hq | hq
      · exact h.received_mem hq
      · obtain rfl := List.mem_singleton.mp hq
        exact hstray _ (List.mem_of_getElem? hr)
  | lost =>
    obtain ⟨-, s, hsocket, rfl⟩ := step_lost hstep
    refine requests_of hq (fun _ => h.holder_mem) (fun _ => h.waiter_mem) ?_
      (fun _ => h.received_mem)
    intro q hq
    refine h.flight_mem ?_
    rwa [inFlight, hsocket]
  | cancelled =>
    obtain ⟨-, c, -, rfl⟩ := step_cancelled hstep
    exact requests_of hq (fun _ h => nomatch h) (fun _ => h.waiter_mem) (fun _ => h.flight_mem)
      (fun _ => h.received_mem)
  | cancelledWaiting k =>
    obtain ⟨-, -, rfl⟩ := step_cancelledWaiting hstep
    exact requests_of hq (fun _ => h.holder_mem)
      (fun q hq => h.waiter_mem (List.mem_of_mem_eraseIdx hq)) (fun _ => h.flight_mem)
      (fun _ => h.received_mem)

@[simp] theorem received_attempt (h : HttpConnection) (r : HttpRequest) (n : ℕ) :
    (h.attempt r n).received = h.received := by
  rcases h.attempt_cases r n with ⟨s, -, -, he⟩ | ⟨-, he⟩ <;> rw [he]

@[simp] theorem waiters_attempt (h : HttpConnection) (r : HttpRequest) (n : ℕ) :
    (h.attempt r n).waiters = h.waiters := by
  rcases h.attempt_cases r n with ⟨s, -, -, he⟩ | ⟨-, he⟩ <;> rw [he]

@[simp] theorem received_call (h : HttpConnection) (r : HttpRequest) :
    (h.call r).received = h.received := by
  unfold call
  split
  · exact received_attempt h r 0
  · rfl

/-- What the relay has received stays received. -/
theorem received_step {h h' : HttpConnection} {e : Event} {o : Outcome}
    (hstep : h.step e = some (h', o)) {q : HttpRequest}
    (hq : q ∈ h.received) : q ∈ h'.received := by
  -- requests are only added to what was received
  cases e with
  | locked =>
    obtain ⟨-, -, r, waiters, -, rfl⟩ := step_locked hstep
    rwa [received_attempt]
  | connected =>
    obtain ⟨-, r, n, -, rfl⟩ := step_connected hstep
    exact hq
  | failed => obtain ⟨c, -, ⟨-, rfl⟩ | ⟨-, rfl⟩⟩ := step_failed hstep <;> exact hq
  | answered closes =>
    obtain ⟨r, n, s, answer, unread, -, -, -, -, rfl⟩ := step_answered hstep
    cases closes <;> exact hq
  | erred whole =>
    obtain ⟨r, n, s, answer, unread, -, -, -, -, rfl⟩ := step_erred hstep
    exact hq
  | received =>
    obtain ⟨-, s, r, written, -, -, rfl⟩ := step_received hstep
    exact List.mem_append_left _ hq
  | strayReceived k =>
    obtain ⟨-, r, -, rfl⟩ := step_strayReceived hstep
    exact List.mem_append_left _ hq
  | lost =>
    obtain ⟨-, s, -, rfl⟩ := step_lost hstep
    exact hq
  | cancelled =>
    obtain ⟨-, c, -, rfl⟩ := step_cancelled hstep
    exact hq
  | cancelledWaiting k =>
    obtain ⟨-, -, rfl⟩ := step_cancelledWaiting hstep
    exact hq

theorem answers_attempt {h : HttpConnection} (ha : h.Answers) (r : HttpRequest) (n : ℕ) :
    (h.attempt r n).Answers := by
  rcases h.attempt_cases r n with ⟨s, hs, -, he⟩ | ⟨-, he⟩ <;> rw [he]
  · rintro _ ⟨⟩
    exact ha s hs
  · exact ha

theorem answers_call {h : HttpConnection} (ha : h.Answers) (r : HttpRequest) :
    (h.call r).Answers := by
  unfold call
  split
  · exact answers_attempt ha r 0
  · exact ha

/-- Only what was received is answered. -/
theorem answers_step {h h' : HttpConnection} {e : Event} {o : Outcome} (ha : h.Answers)
    (hstep : h.step e = some (h', o)) :
    h'.Answers := by
  -- an answer is read of a request that was received on the same connection
  cases e with
  | locked =>
    obtain ⟨-, -, r, waiters, -, rfl⟩ := step_locked hstep
    exact @answers_attempt { h with waiters := waiters } ha r 0
  | connected =>
    obtain ⟨-, r, n, -, rfl⟩ := step_connected hstep
    rintro _ ⟨⟩ q hq
    cases hq
  | failed => obtain ⟨c, -, ⟨-, rfl⟩ | ⟨-, rfl⟩⟩ := step_failed hstep <;> exact fun _ h => nomatch h
  | answered closes =>
    obtain ⟨r, n, s, answer, unread, -, hsocket, hunread, -, rfl⟩ := step_answered hstep
    cases closes with
    | true => exact fun _ h => nomatch h
    | false =>
      rintro _ ⟨⟩ q hq
      exact ha s hsocket q (hunread ▸ List.mem_cons_of_mem _ hq)
  | erred whole =>
    obtain ⟨r, n, s, answer, unread, -, hsocket, hunread, -, rfl⟩ := step_erred hstep
    rintro _ ⟨⟩ q hq
    refine ha s hsocket q ?_
    cases whole with
    | true => exact hunread ▸ List.mem_cons_of_mem _ hq
    | false => exact hq
  | received =>
    obtain ⟨-, s, r, written, hsocket, -, rfl⟩ := step_received hstep
    rintro _ ⟨⟩ q hq
    rcases List.mem_append.mp hq with hq | hq
    · exact List.mem_append_left _ (ha s hsocket q hq)
    · exact List.mem_append_right _ hq
  | strayReceived k =>
    obtain ⟨-, r, -, rfl⟩ := step_strayReceived hstep
    exact fun s hs q hq => List.mem_append_left _ (ha s hs q hq)
  | lost =>
    obtain ⟨-, s, hsocket, rfl⟩ := step_lost hstep
    rintro _ ⟨⟩
    exact ha s hsocket
  | cancelled =>
    obtain ⟨-, c, -, rfl⟩ := step_cancelled hstep
    exact ha
  | cancelledWaiting k =>
    obtain ⟨-, -, rfl⟩ := step_cancelledWaiting hstep
    exact ha

theorem eq_of_returned {h h' : HttpConnection} {e : Event} {r a : HttpRequest}
    (hstep : h.step e = some (h', .returned r a)) : ∃ closes, e = .answered closes := by
  cases e with
  | answered closes => exact ⟨closes, rfl⟩
  | locked => cases (step_locked hstep).1
  | connected => cases (step_connected hstep).1
  | failed => obtain ⟨-, -, ⟨h, -⟩ | ⟨h, -⟩⟩ := step_failed hstep <;> cases h
  | erred whole =>
    obtain ⟨r, n, s, answer, unread, -, -, -, ho, -⟩ := step_erred hstep
    cases ho
  | received => cases (step_received hstep).1
  | strayReceived k => cases (step_strayReceived hstep).1
  | lost => cases (step_lost hstep).1
  | cancelled => cases (step_cancelled hstep).1
  | cancelledWaiting k => cases (step_cancelledWaiting hstep).1

theorem eq_of_cancelled {h h' : HttpConnection} {e : Event}
    (hstep : h.step e = some (h', .cancelled)) :
    e = .cancelled ∨ ∃ k, e = .cancelledWaiting k := by
  cases e with
  | cancelled => exact .inl rfl
  | cancelledWaiting k => exact .inr ⟨k, rfl⟩
  | locked => cases (step_locked hstep).1
  | connected => cases (step_connected hstep).1
  | failed => obtain ⟨-, -, ⟨h, -⟩ | ⟨h, -⟩⟩ := step_failed hstep <;> cases h
  | answered closes =>
    obtain ⟨r, n, s, answer, unread, -, -, -, ho, -⟩ := step_answered hstep
    cases ho
  | erred whole =>
    obtain ⟨r, n, s, answer, unread, -, -, -, ho, -⟩ := step_erred hstep
    cases ho
  | received => cases (step_received hstep).1
  | strayReceived k => cases (step_strayReceived hstep).1
  | lost => cases (step_lost hstep).1

/-- A response that is returned is one of the relay. -/
theorem received_of_returned {h h' : HttpConnection} {e : Event} {r a : HttpRequest}
    (ha : h.Answers)
    (hstep : h.step e = some (h', .returned r a)) : a ∈ h'.received := by
  obtain ⟨closes, rfl⟩ := eq_of_returned hstep
  refine received_step hstep ?_
  obtain ⟨r, n, s, answer, unread, -, hsocket, hunread, ⟨⟩, -⟩ := step_answered hstep
  exact ha s hsocket a (hunread ▸ List.mem_cons_self)

/-- A call whose response has come has reached the relay. -/
theorem received_of_erred {h h' : HttpConnection} {e : Event} (hin : h.InStep) (ha : h.Answers)
    (hstep : h.step e = some (h', .erred)) {c : Call} (hc : h.holder = some c) :
    c.request ∈ h'.received := by
  refine received_step hstep ?_
  obtain ⟨whole, rfl⟩ : ∃ whole, e = .erred whole := by
    cases e with
    | erred whole => exact ⟨whole, rfl⟩
    | locked => cases (step_locked hstep).1
    | connected => cases (step_connected hstep).1
    | failed => obtain ⟨-, -, ⟨h, -⟩ | ⟨h, -⟩⟩ := step_failed hstep <;> cases h
    | answered closes =>
      obtain ⟨r, n, s, answer, unread, -, -, -, ho, -⟩ := step_answered hstep
      cases ho
    | received => cases (step_received hstep).1
    | strayReceived k => cases (step_strayReceived hstep).1
    | lost => cases (step_lost hstep).1
    | cancelled => cases (step_cancelled hstep).1
    | cancelledWaiting k => cases (step_cancelledWaiting hstep).1
  obtain ⟨r, n, s, answer, unread, hholder, hsocket, hunread, -, -⟩ := step_erred hstep
  obtain ⟨s', hs', hone⟩ := hin.1 r n hholder
  obtain rfl : s = s' := Option.some.inj (hsocket.symm.trans hs')
  rw [Socket.outstanding, hunread, List.cons_append] at hone
  obtain rfl := Option.some.inj (hholder.symm.trans hc)
  exact (List.cons.inj hone).1 ▸ ha s hsocket answer (hunread ▸ List.mem_cons_self)

theorem holder_of_returned {h h' : HttpConnection} {e : Event} {r a : HttpRequest} {c : Call}
    (hstep : h.step e = some (h', .returned r a)) (hc : h.holder = some c) : c.request = r := by
  obtain ⟨closes, rfl⟩ := eq_of_returned hstep
  obtain ⟨r, n, s, answer, unread, hholder, -, -, ho, -⟩ := step_answered hstep
  cases ho
  obtain rfl := Option.some.inj (hholder.symm.trans hc)
  rfl

/-! ### The holder of the lock -/

/-- While nothing waits, a call that goes on keeps the lock. -/
theorem holder_step_pending {h h' : HttpConnection} {e : Event} (hwaiters : h.waiters = [])
    (hstep : h.step e = some (h', .pending)) :
    h'.waiters = [] ∧ (∀ c', h'.holder = some c' → ∃ c, h.holder = some c ∧
      c'.request = c.request) ∧
      ∀ c, h.holder = some c → ∃ c', h'.holder = some c' ∧ c'.request = c.request := by
  have hsame : h'.waiters = [] → h'.holder = h.holder → h'.waiters = [] ∧
      (∀ c', h'.holder = some c' → ∃ c, h.holder = some c ∧ c'.request = c.request) ∧
      ∀ c, h.holder = some c → ∃ c', h'.holder = some c' ∧ c'.request = c.request := fun hw hh =>
    ⟨hw, fun c' hc' => ⟨c', hh ▸ hc', rfl⟩, fun c hc => ⟨c, hh.trans hc, rfl⟩⟩
  -- a request that is answered or ends otherwise is not pending, so the holder is the same one
  cases e with
  | locked =>
    obtain ⟨-, -, r, waiters, hw, -⟩ := step_locked hstep
    cases hwaiters.symm.trans hw
  | connected =>
    obtain ⟨-, r, n, hholder, rfl⟩ := step_connected hstep
    refine ⟨hwaiters, ?_, ?_⟩
    · rintro _ ⟨⟩
      exact ⟨_, hholder, rfl⟩
    · intro c hc
      obtain rfl := Option.some.inj (hholder.symm.trans hc)
      exact ⟨_, rfl, rfl⟩
  | failed =>
    obtain ⟨c, hholder, ⟨-, rfl⟩ | ⟨ho, -⟩⟩ := step_failed hstep
    · refine ⟨hwaiters, ?_, ?_⟩
      · rintro _ ⟨⟩
        exact ⟨_, hholder, rfl⟩
      · intro c' hc'
        obtain rfl := Option.some.inj (hholder.symm.trans hc')
        exact ⟨_, rfl, rfl⟩
    · cases ho
  | answered closes =>
    obtain ⟨r, n, s, answer, unread, -, -, -, ho, -⟩ := step_answered hstep
    cases ho
  | erred whole =>
    obtain ⟨r, n, s, answer, unread, -, -, -, ho, -⟩ := step_erred hstep
    cases ho
  | received =>
    obtain ⟨-, s, r, written, -, -, rfl⟩ := step_received hstep
    exact hsame hwaiters rfl
  | strayReceived k =>
    obtain ⟨-, r, -, rfl⟩ := step_strayReceived hstep
    exact hsame hwaiters rfl
  | lost =>
    obtain ⟨-, s, -, rfl⟩ := step_lost hstep
    exact hsame hwaiters rfl
  | cancelled => cases (step_cancelled hstep).1
  | cancelledWaiting k => cases (step_cancelledWaiting hstep).1

/-- A call that ends gives the lock back. -/
theorem holder_step_ended {h h' : HttpConnection} {e : Event} {o : Outcome}
    (hwaiters : h.waiters = [])
    (hstep : h.step e = some (h', o)) (ho : o ≠ .pending) : h'.holder = none ∧ h'.waiters = [] ∧
      ∃ c, h.holder = some c := by
  cases e with
  | locked => exact absurd (step_locked hstep).1 ho
  | connected => exact absurd (step_connected hstep).1 ho
  | failed =>
    obtain ⟨c, hholder, ⟨rfl, -⟩ | ⟨-, rfl⟩⟩ := step_failed hstep
    · exact absurd rfl ho
    · exact ⟨rfl, hwaiters, c, hholder⟩
  | answered closes =>
    obtain ⟨r, n, s, answer, unread, hholder, -, -, -, rfl⟩ := step_answered hstep
    cases closes <;> exact ⟨rfl, hwaiters, _, hholder⟩
  | erred whole =>
    obtain ⟨r, n, s, answer, unread, hholder, -, -, -, rfl⟩ := step_erred hstep
    exact ⟨rfl, hwaiters, _, hholder⟩
  | received => exact absurd (step_received hstep).1 ho
  | strayReceived k => exact absurd (step_strayReceived hstep).1 ho
  | lost => exact absurd (step_lost hstep).1 ho
  | cancelled =>
    obtain ⟨-, c, hholder, rfl⟩ := step_cancelled hstep
    exact ⟨rfl, hwaiters, c, hholder⟩
  | cancelledWaiting k =>
    obtain ⟨-, hk, -⟩ := step_cancelledWaiting hstep
    rw [hwaiters] at hk
    exact absurd hk (Nat.not_lt_zero k)

end HttpConnection

end Pyrogram
