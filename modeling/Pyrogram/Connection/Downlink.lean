import Pyrogram.Connection.Frames
import Pyrogram.Connection.Http
import Pyrogram.Connection.Response

/-!
# The downlink of the WEB carrier

The relay keeps the frames it has for a session in a log, and a poll asks for those from a cursor
on.  The response carries frames and the cursor of the next poll; an expired wait carries nothing
and leaves the cursor where it is.  A poll that goes wrong, for one because its response is cut
short, is made once more over a fresh connection, and the first one may still reach the relay,
before or after the second.

## Main definitions

* `Downlink` — the carrier, the connection of its poll loop, the cursor, and the relay's log.
* `Downlink.pollOnce` — `_poll_once`, after the response.
* `Downlink.Answers` — what arrives is a response, or a part of it; one that carries frames carries
  those of its request, and their end.

## Main results

* `Downlink.frames_eq_log` — **every frame of the log is handled once and in order.**
* `Downlink.results_begin_log` — **what `recv` returns is what the relay put down for the stream**,
  from its beginning and without a gap.
-/

namespace Pyrogram

open Http (HttpResponse latin1)

structure Downlink where
  carrier : WebProxyCarrier := {}
  /-- `_down`; a request of the poll loop has for its id how many polls were before it. -/
  down : HttpConnection := {}
  /-- `_down_cursor` -/
  downCursor : ℤ
  /-- The cursors that the polls ask from. -/
  polls : List ℤ := []
  /-- What the relay has for the session. -/
  log : List Frame := []
  deriving DecidableEq, Repr

namespace Downlink

open Runs

inductive Event
  /-- The relay puts frames down. -/
  | logged (frames : List Frame)
  /-- The poll loop goes round. -/
  | poll
  /-- On `_down`, up to the response. -/
  | down (e : HttpConnection.Event)
  /-- What comes for the response, and perhaps behind it, before the stream ends. -/
  | arrived (wire : List UInt8)
  /-- A task other than the poll loop runs to its next await. -/
  | carrier (e : WebProxyCarrier.Event)

/-- `_poll_loop` ends with an error. -/
def fail (d : Downlink) : Downlink := { d with carrier := d.carrier.fail }

/-- The end of `_poll_once`: no await is between the frames. -/
def handle (d : Downlink) (body : List UInt8) : Downlink :=
  match parseFrameMessage body with
  | .error _ => d.fail
  | .ok frames => { d with carrier := frames.foldl WebProxyCarrier.handleFrame d.carrier }

/-- `_poll_once`, after the response. -/
def pollOnce (d : Downlink) (response : HttpResponse) : Downlink :=
  if response.status = 204 then d
  else if response.status ≠ 200 then d.fail
  else
    match response.headers (latin1 "x-cursor") with
    | none => d.handle response.body
    | some cursorHeader =>
        match Http.int cursorHeader with
        | none => d.fail
        | some cursor => { d with downCursor := cursor }.handle response.body

/-- The attempt goes on after `_down` has, unless `request` raises. -/
def proceed (d : Downlink) : HttpConnection × HttpConnection.Outcome → Option Downlink
  | (down, .pending) => some { d with down := down }
  | (down, .raised) => some { d with down := down }.fail
  | _ => none

/-- The exceptions after which `request` tries again. -/
def retried : Exc → Bool
  | .connectionError _ => true
  | .other cls => cls = "IncompleteReadError"
  | _ => false

/-- The request whose response is the next on the connection. -/
def answering (d : Downlink) : Option HttpRequest := d.down.socket.bind fun s => s.unread.head?

/-- One task runs to its next await, or the relay acts; `_fail` cancels the poll loop. -/
def step (d : Downlink) : Event → Option Downlink
  | .logged frames => some { d with log := d.log ++ frames }
  | .poll =>
      if d.carrier.failed = false ∧ d.down.holder = none then
        some { d with
          down := d.down.call ⟨d.polls.length, none⟩
          polls := d.polls ++ [d.downCursor] }
      else none
  | .down e => if d.carrier.failed then none else (d.down.step e).bind d.proceed
  | .arrived wire =>
      if d.carrier.failed then none
      else
        match Http.readResponse wire with
        | .ok (response, _) =>
            match d.down.step (.answered response.closes) with
            | some (down, .returned _ _) => some ({ d with down := down }.pollOnce response)
            | _ => none
        | .error e => if retried e then (d.down.step .failed).bind d.proceed else some d.fail
  | .carrier (.received _) | .carrier .pollFailed => none
  | .carrier e => (d.carrier.step e).map fun carrier => { d with carrier := carrier }

/-! ### The relay -/

variable (place : ℤ → ℕ)

/-- The frames between two cursors; `place` is where in the log a cursor stands. -/
def between (d : Downlink) (cursor next : ℤ) : List Frame :=
  (d.log.take (place next)).drop (place cursor)

/-- **Frames are those from the cursor of the request on**, and the header has the cursor behind
them. -/
structure Serves (d : Downlink) (request : HttpRequest) (r : Http.Sent) : Prop where
  substantial : r.body.Substantial
  frames : ∃ cursor next header wires, d.polls[request.id]? = some cursor ∧
    place cursor ≤ place next ∧
    place next ≤ d.log.length ∧ Http.Sent.headersFrom (fun _ => none) r.fields (latin1 "x-cursor") =
      some header ∧
    Http.int header = some next ∧ (d.between place cursor next).mapM Frame.serialize = .ok wires ∧
      r.body.data = wires.flatten

/-- What arrives is a response, or a part of it that does not end late. -/
def Answers (d : Downlink) (e : Event) (_ : Downlink) : Prop :=
  ∀ wire, e = .arrived wire → ∃ (request : HttpRequest) (r : Http.Sent), d.answering =
    some request ∧
    ((∃ rest, wire = r.encode ++ rest ∧ r.Fits) ∨ wire <+: r.encode ∧ wire ≠ r.encode ∧
      ¬ r.EndsLate wire) ∧
      (r.statusLine.status = 200 → d.Serves place request r)

/-- A session whose downlink starts at a cursor. -/
def start (cursor : ℤ) (log : List Frame) : Downlink := { downCursor := cursor, log := log }

end Downlink

/-! ### What the tasks of the carrier do -/

namespace WebProxyCarrier

variable {c c' : WebProxyCarrier}

/-- No frame is handled, and a failure stays. -/
structure Kept (c c' : WebProxyCarrier) : Prop where
  frames : c'.frames = c.frames
  failed : c'.failed = false → c.failed = false

theorem kept_fail (c : WebProxyCarrier) : Kept c c.fail := by
  unfold fail
  split
  · exact ⟨rfl, id⟩
  · exact ⟨rfl, fun h => nomatch h⟩

theorem kept_flushGrant (c : WebProxyCarrier) (next : Resume) : Kept c (c.flushGrant next).1 := by
  unfold flushGrant
  dsimp only
  split_ifs <;> exact ⟨rfl, id⟩

theorem kept_grantCredit (c : WebProxyCarrier) (amount : ℤ) : Kept c (c.grantCredit amount).1 := by
  unfold grantCredit
  dsimp only
  split_ifs
  · exact ⟨rfl, id⟩
  · obtain ⟨hframes, hfailed⟩ := kept_flushGrant { c with pendingGrant := c.pendingGrant + amount }
      (.received (c.results.length - 1))
    exact ⟨hframes, hfailed⟩
  · exact ⟨rfl, id⟩
  · exact ⟨rfl, id⟩

theorem kept_recv (c : WebProxyCarrier) (length : ℤ) : Kept c (c.recv length).1 := by
  unfold recv
  split
  · exact ⟨rfl, id⟩
  · exact ⟨rfl, id⟩
  · obtain ⟨hframes, hfailed⟩ := kept_grantCredit _ length
    exact ⟨hframes, hfailed⟩

/-- **Only the poll loop handles frames.** -/
theorem kept_step {e : Event} (hne : ∀ frame, e ≠ .received frame) (hstep : c.step e = some c') :
    Kept c c' := by
  have hfail := kept_fail c
  cases steps_of_step hstep with
  -- only a frame that is received adds to the frames
  | received frame => exact absurd rfl (hne frame)
  | pollFailed => exact hfail
  | creditTimedOut | failRan => exact ⟨hfail.frames, hfail.failed⟩
  | sendCalled | controlSent | woken | posted => exact ⟨rfl, id⟩
  | recvCalled length => exact ⟨(kept_recv c length).frames, (kept_recv c length).failed⟩
  | @got i length => exact ⟨(kept_recv c length).frames, (kept_recv c length).failed⟩
  | slept =>
    have hflush := kept_flushGrant c .flushed
    split <;> exact ⟨hflush.frames, hflush.failed⟩
  | @answered i next => cases next <;> exact ⟨rfl, id⟩
  | @refused i next =>
    have hfail := kept_fail { c with upSendLocked := false }
    cases next <;> exact ⟨hfail.frames, hfail.failed⟩
  | @erred i next => cases next <;> exact ⟨rfl, id⟩

theorem handled_handleControlFrame (c : WebProxyCarrier) (frame : Frame) :
    (c.handleControlFrame frame).frames = c.frames ∧
      (c.handleControlFrame frame).failed = c.failed := by
  unfold handleControlFrame
  split <;> exact ⟨rfl, rfl⟩

theorem handled_handleStreamFrame (c : WebProxyCarrier) (frame : Frame) :
    (c.handleStreamFrame frame).frames = c.frames ∧
      (c.handleStreamFrame frame).failed = c.failed := by
  unfold handleStreamFrame
  dsimp only
  split
  · split <;> exact ⟨rfl, rfl⟩
  · exact ⟨rfl, rfl⟩
  · split <;> exact ⟨rfl, rfl⟩
  · exact ⟨rfl, rfl⟩

/-- A failure that a frame brings about is only scheduled. -/
theorem handled_handleFrame (c : WebProxyCarrier) (frame : Frame) :
    (c.handleFrame frame).frames = c.frames ++ [frame] ∧
      (c.handleFrame frame).failed = c.failed := by
  unfold handleFrame
  dsimp only
  split_ifs
  · exact handled_handleControlFrame _ frame
  · exact ⟨rfl, rfl⟩
  · exact handled_handleStreamFrame _ frame

theorem frames_foldl_handleFrame (c : WebProxyCarrier) (frames : List Frame) :
    (frames.foldl handleFrame c).frames = c.frames ++ frames := by
  induction frames generalizing c with
  | nil => exact (List.append_nil _).symm
  | cons frame frames ih =>
    have hframes := ih (c.handleFrame frame)
    rw [(handled_handleFrame c frame).1, List.append_assoc] at hframes
    exact hframes

/-- The frames of a response keep the downlink sound. -/
theorem sound_foldl_handleFrame (hsound : Sound c) (hfailed : c.failed = false)
    (frames : List Frame) :
    Sound (frames.foldl handleFrame c) := by
  induction frames generalizing c with
  | nil => exact hsound
  | cons frame frames ih =>
    have hstep : c.step (.received frame) = some (c.handleFrame frame) := by
      rw [step, hfailed]
      rfl
    have hdebt : TakesNoDebt c (.received frame) (c.handleFrame frame) := ⟨by simp, by simp⟩
    apply ih
    · exact sound_step hsound hdebt hstep
    · exact (handled_handleFrame c frame).2.trans hfailed

end WebProxyCarrier

namespace Downlink

open Runs

/-! ### The frames that are handled -/

variable {place : ℤ → ℕ} {d d' : Downlink}

/-- The poll under way asks from the cursor, and what is handled is the log up to it. -/
structure Invariant (place : ℤ → ℕ) (cursor : ℤ) (d : Downlink) : Prop where
  noWaiters : d.down.waiters = []
  inStep : d.carrier.failed = false → d.down.InStep
  asked : d.carrier.failed = false → ∀ call, d.down.holder = some call →
    d.polls[call.request.id]? = some d.downCursor
  begun : place cursor ≤ place d.downCursor
  within : place d.downCursor ≤ d.log.length
  frames : d.carrier.frames = d.between place cursor d.downCursor

theorem between_append {a b c : ℤ} (hbegun : place a ≤ place b) (hnext : place b ≤ place c)
    (hwithin : place c ≤ d.log.length) :
    d.between place a b ++ d.between place b c = d.between place a c := by
  have hb : (d.log.take (place c)).take (place b) = d.log.take (place b) := by
    rw [List.take_take, min_eq_left hnext]
  have hlength : place a ≤ ((d.log.take (place c)).take (place b)).length := by
    rw [List.length_take, List.length_take]
    omega
  unfold between
  calc (d.log.take (place b)).drop (place a) ++ (d.log.take (place c)).drop (place b)
      = ((d.log.take (place c)).take (place b) ++ (d.log.take (place c)).drop (place b)).drop
          (place a) := by
        rw [List.drop_append_of_le_length hlength, hb]
    _ = (d.log.take (place c)).drop (place a) := by rw [List.take_append_drop]

/-- What the relay puts down comes behind. -/
theorem between_logged {a b : ℤ} (hwithin : place b ≤ d.log.length) (frames : List Frame) :
    ({ d with log := d.log ++ frames } : Downlink).between place a b = d.between place a b := by
  unfold between
  rw [List.take_append_of_le_length hwithin]

/-- A poll begins with nothing before it. -/
theorem Invariant.poll {cursor : ℤ} (h : Invariant place cursor d)
    (hfailed : d.carrier.failed = false)
    (hfree : d.down.holder = none) : Invariant place cursor
      { d with
        down := d.down.call ⟨d.polls.length, none⟩
        polls := d.polls ++ [d.downCursor] } := by
  have hcall : d.down.call ⟨d.polls.length, none⟩ = d.down.attempt ⟨d.polls.length, none⟩ 0 :=
    if_pos ⟨hfree, h.noWaiters⟩
  have hidle := (h.inStep hfailed).idle (by simp [hfree])
  refine ⟨?_, ?_, ?_, h.begun, h.within, h.frames⟩
  · rw [hcall, HttpConnection.waiters_attempt]
    exact h.noWaiters
  · intro _
    rw [hcall]
    exact HttpConnection.inStep_attempt hidle _ _
  · intro _ call hholder
    have hrequest : call.request = ⟨d.polls.length, none⟩ := by
      rw [hcall] at hholder
      rcases HttpConnection.attempt_cases d.down ⟨d.polls.length, none⟩
        0 with ⟨s, -, -, he⟩ | ⟨-, he⟩
      · rw [he] at hholder
        exact (Option.some.inj hholder) ▸ rfl
      · rw [he] at hholder
        exact (Option.some.inj hholder) ▸ rfl
    rw [hrequest]
    exact List.getElem?_concat_length

/-- A poll goes on, over the same connection or another one. -/
theorem Invariant.pending {cursor : ℤ} (h : Invariant place cursor d)
    (hfailed : d.carrier.failed = false)
    {e : HttpConnection.Event} {down : HttpConnection}
    (hstep : d.down.step e = some (down, .pending)) :
    Invariant place cursor { d with down := down } := by
  have hclean : d.down.LeavesNoResponse e := by
    cases e with
    | cancelled => cases (HttpConnection.step_cancelled hstep).1
    | erred whole =>
      obtain ⟨_, _, _, _, _, -, -, -, ho, -⟩ := HttpConnection.step_erred hstep
      cases ho
    | _ => trivial
  obtain ⟨hwaiters, hsame, -⟩ := HttpConnection.holder_step_pending h.noWaiters hstep
  refine ⟨hwaiters, fun _ => (HttpConnection.inStep_step (h.inStep hfailed) hclean hstep).1, ?_,
    h.begun, h.within, h.frames⟩
  intro _ call hholder
  obtain ⟨call', hholder', hrequest⟩ := hsame call hholder
  rw [hrequest]
  exact h.asked hfailed call' hholder'

theorem Invariant.failed {cursor : ℤ} (h : Invariant place cursor d) {down : HttpConnection}
    (hwaiters : down.waiters = []) :
    Invariant place cursor (fail { d with down := down }) := by
  have hfailed := WebProxyCarrier.failing_fail d.carrier
  refine ⟨hwaiters, fun hfalse => ?_, fun hfalse => ?_, h.begun, h.within, ?_⟩
  · cases hfailed.symm.trans hfalse
  · cases hfailed.symm.trans hfalse
  · exact (WebProxyCarrier.kept_fail d.carrier).frames.trans h.frames

/-- **The body of a response is handled as the frames it was written from**; there is no body
without a frame. -/
theorem exists_handle {frames : List Frame} {wires : List (List UInt8)}
    (hwires : frames.mapM Frame.serialize = .ok wires) :
    ∃ carrier : WebProxyCarrier, d.handle wires.flatten = { d with carrier := carrier } ∧
      carrier.frames = d.carrier.frames ++ frames := by
  obtain ⟨hvalid, rfl⟩ := mapM_serialize_eq_ok.mp hwires
  cases frames with
  | nil => exact ⟨d.carrier.fail, rfl, (WebProxyCarrier.kept_fail d.carrier).frames.trans
      (List.append_nil _).symm⟩
  | cons frame frames =>
    have hparse : parseFrameMessage ((frame :: frames).map Frame.bytes).flatten =
        .ok (frame :: frames) :=
      parseFrameMessage_eq_ok.mpr ⟨List.cons_ne_nil _ _, hvalid, rfl⟩
    refine ⟨_, ?_, WebProxyCarrier.frames_foldl_handleFrame d.carrier (frame :: frames)⟩
    rw [handle, hparse]

theorem Invariant.proceed {cursor : ℤ} (h : Invariant place cursor d)
    (hfailed : d.carrier.failed = false)
    {e : HttpConnection.Event} (hstep : (d.down.step e).bind d.proceed = some d') :
    Invariant place cursor d' := by
  obtain ⟨⟨down, outcome⟩, hdown, hproceed⟩ := Option.bind_eq_some_iff.mp hstep
  cases outcome with
  | pending =>
    cases hproceed
    exact h.pending hfailed hdown
  | raised =>
    cases hproceed
    obtain ⟨-, hwaiters, -⟩ := HttpConnection.holder_step_ended h.noWaiters hdown (by simp)
    exact h.failed hwaiters
  | returned request answer => cases hproceed
  | erred => cases hproceed
  | cancelled => cases hproceed

/-- What is read is what the relay sent, where it carries frames. -/
theorem eq_of_arrived {d : Downlink} {request : HttpRequest} {r : Http.Sent}
    {wire rest : List UInt8} {response : HttpResponse}
    (harrived : (∃ rest, wire = r.encode ++ rest ∧ r.Fits) ∨ wire <+: r.encode ∧ wire ≠ r.encode ∧
      ¬ r.EndsLate wire)
    (hserves : r.statusLine.status = 200 → d.Serves place request r)
    (hread : Http.readResponse wire = .ok (response, rest))
    (hok : response.status = 200) : d.Serves place request r ∧
      response = ⟨r.statusLine.status, Http.Sent.headersFrom (fun _ => none) r.fields,
        r.body.data⟩ := by
  rcases harrived with ⟨rest', rfl, hfits⟩ | ⟨hpart, hproper, hlate⟩
  · have hwhole := (Http.readResponse_encode r rest').mpr hfits
    obtain rfl : response = _ := congrArg Prod.fst (Except.ok.inj (hread.symm.trans hwhole))
    exact ⟨hserves (Int.ofNat_inj.mp hok), rfl⟩
  · rcases Http.status_of_part hpart hread with hstatus | hlt
    · -- what carries frames is not read in part
      have hstatus' : r.statusLine.status = 200 := Int.ofNat_inj.mp (hstatus.symm.trans hok)
      have hne : (r.statusLine.status : ℤ) ≠ Http.noContent := by
        rw [hstatus']
        decide
      obtain ⟨e, he⟩ :=
        (Http.readResponse_part (hserves hstatus').substantial hne hpart hproper).mpr hlate
      cases hread.symm.trans he
    · omega

/-- **A response is that of the poll, so its frames are the next ones of the log.** -/
theorem Invariant.answered {cursor : ℤ} (h : Invariant place cursor d)
    (hfailed : d.carrier.failed = false)
    {wire rest : List UInt8} {response : HttpResponse} {down : HttpConnection}
    {request answer : HttpRequest}
    (hanswers : Answers place d (.arrived wire) d')
    (hread : Http.readResponse wire = .ok (response, rest))
    (hstep : d.down.step (.answered response.closes) = some (down, .returned request answer)) :
    Invariant place cursor ({ d with down := down }.pollOnce response) := by
  have hclean : d.down.LeavesNoResponse (.answered response.closes) := trivial
  obtain ⟨hin, heq⟩ := HttpConnection.inStep_step (h.inStep hfailed) hclean hstep
  obtain ⟨hfree, hwaiters, call, hholder⟩ :=
    HttpConnection.holder_step_ended h.noWaiters hstep (by simp)
  have hreturned : Invariant place cursor { d with down := down } := by
    refine ⟨hwaiters, fun _ => hin, ?_, h.begun, h.within, h.frames⟩
    intro _ call' hholder'
    cases hfree.symm.trans hholder'
  unfold pollOnce
  split
  · exact hreturned
  next hempty =>
  split
  · exact h.failed hwaiters
  next hok =>
  obtain ⟨answering, r, hanswering, harrived, hserves⟩ := hanswers wire rfl
  obtain ⟨⟨-, asked, next, header, wires, hasked, hle, hwithin, hheader, hint, hwires, hbody⟩,
      rfl⟩ :=
    eq_of_arrived harrived hserves hread (not_not.mp hok)
  -- the request that is answered is the poll's own, and it asked from the cursor
  obtain rfl : answering = call.request := by
    obtain ⟨_, _, s, _, unread, -, hsocket, hunread, hreturn, -⟩ :=
      HttpConnection.step_answered hstep
    obtain ⟨rfl, rfl⟩ := HttpConnection.Outcome.returned.inj hreturn
    have hfirst : d.answering = some answer := by
      rw [Downlink.answering, hsocket, Option.bind_some, hunread]
      rfl
    rw [HttpConnection.holder_of_returned hstep hholder, ← heq _ _ rfl]
    exact Option.some.inj (hanswering.symm.trans hfirst)
  obtain rfl : asked = d.downCursor :=
    Option.some.inj (hasked.symm.trans (h.asked hfailed call hholder))
  dsimp only
  rw [hheader]
  dsimp only
  rw [hint, hbody]
  obtain ⟨carrier, hhandle, hframes⟩ :=
    exists_handle (d := { d with down := down, downCursor := next }) hwires
  dsimp only
  rw [hhandle]
  refine ⟨hwaiters, fun _ => hin, ?_, h.begun.trans hle, hwithin, ?_⟩
  · intro _ call' hholder'
    cases hfree.symm.trans hholder'
  · calc carrier.frames = d.carrier.frames ++ d.between place d.downCursor next := hframes
      _ = d.between place cursor d.downCursor ++ d.between place d.downCursor next := by
        rw [h.frames]
      _ = d.between place cursor next := between_append h.begun hle hwithin

theorem step_carrier {e : WebProxyCarrier.Event} (hstep : d.step (.carrier e) = some d') :
    (∀ frame, e ≠ .received frame) ∧ ∃ carrier, d.carrier.step e = some carrier ∧ { d with
      carrier := carrier } = d' := by
  cases e with
  | received frame => cases hstep
  | pollFailed => cases hstep
  | _ =>
    simp only [Downlink.step] at hstep
    exact ⟨by simp, Option.map_eq_some_iff.mp hstep⟩

/-- **Every step keeps the invariant**, where the relay answers the requests. -/
theorem Invariant.step {cursor : ℤ} (h : Invariant place cursor d) {e : Event}
    (hanswers : Answers place d e d')
    (hstep : d.step e = some d') : Invariant place cursor d' := by
  cases e with
  -- the log grows at its end, so what was asked for stays where it is
  | logged frames =>
    cases hstep
    refine ⟨h.noWaiters, h.inStep, h.asked, h.begun, ?_, ?_⟩
    · show place d.downCursor ≤ (d.log ++ frames).length
      rw [List.length_append]
      exact h.within.trans (Nat.le_add_right _ _)
    · exact h.frames.trans (between_logged h.within frames).symm
  | poll =>
    simp only [Downlink.step] at hstep
    split at hstep
    · next hfree =>
      cases hstep
      exact h.poll hfree.1 hfree.2
    · cases hstep
  | down e =>
    simp only [Downlink.step] at hstep
    split at hstep
    · cases hstep
    · next hfailed => exact h.proceed (Bool.eq_false_of_not_eq_true hfailed) hstep
  -- a poll is answered, fails, or its connection does
  | arrived wire =>
    simp only [Downlink.step] at hstep
    split at hstep
    · cases hstep
    next hfailed =>
    have hfailed := Bool.eq_false_of_not_eq_true hfailed
    split at hstep
    · next response rest hread =>
      split at hstep
      · next down request answer hdown =>
        cases hstep
        exact h.answered hfailed hanswers hread hdown
      · cases hstep
    · next e he =>
      split at hstep
      · exact h.proceed hfailed hstep
      · cases hstep
        exact h.failed h.noWaiters
  -- the other tasks leave the frames alone
  | carrier e =>
    obtain ⟨hne, carrier, hcarrier, rfl⟩ := step_carrier hstep
    obtain ⟨hframes, hfailed⟩ := WebProxyCarrier.kept_step hne hcarrier
    exact ⟨h.noWaiters, fun hfalse => h.inStep (hfailed hfalse), fun hfalse =>
      h.asked (hfailed hfalse), h.begun, h.within,
      hframes.trans h.frames⟩

theorem invariant_start {cursor : ℤ} {log : List Frame} (hplace : place cursor ≤ log.length) :
    Invariant place cursor (start cursor log) := by
  refine ⟨rfl, ?_, ?_, le_rfl, hplace, ?_⟩
  · intro _
    exact HttpConnection.inStep_of_unusable (fun _ _ h => nomatch h) (fun _ h => nomatch h)
  · intro _ _ h
    cases h
  · have hlength := List.length_take_le (place cursor) log
    exact (List.drop_eq_nil_of_le hlength).symm

/-- A `recv` of a negative length finds nothing to take, and none raises that has taken bytes. -/
def TakesNoDebt (d : Downlink) (e : Event) (d' : Downlink) : Prop :=
  ∀ e', e = .carrier e' → d.carrier.TakesNoDebt e' d'.carrier

theorem sound_fail (c : WebProxyCarrier) : c.fail.Sound :=
  fun hquiet => absurd (.inl (WebProxyCarrier.failing_fail c)) hquiet

theorem sound_pollOnce (hsound : d.carrier.Sound) (hfailed : d.carrier.failed = false)
    (response : HttpResponse) :
    (d.pollOnce response).carrier.Sound := by
  have hhandle : ∀ cursor,
      (({ d with downCursor := cursor } : Downlink).handle response.body).carrier.Sound := by
    intro cursor
    unfold handle
    split
    · exact sound_fail d.carrier
    · exact WebProxyCarrier.sound_foldl_handleFrame hsound hfailed _
  unfold pollOnce
  split
  · exact hsound
  split
  · exact sound_fail d.carrier
  split
  · exact hhandle d.downCursor
  · split
    · exact sound_fail d.carrier
    · exact hhandle _

theorem sound_proceed (hsound : d.carrier.Sound) {e : HttpConnection.Event}
    (hstep : (d.down.step e).bind d.proceed = some d') : d'.carrier.Sound := by
  obtain ⟨⟨down, outcome⟩, -, hproceed⟩ := Option.bind_eq_some_iff.mp hstep
  cases outcome with
  | pending =>
    cases hproceed
    exact hsound
  | raised =>
    cases hproceed
    exact sound_fail d.carrier
  | returned request answer => cases hproceed
  | erred => cases hproceed
  | cancelled => cases hproceed

theorem sound_step {e : Event} (hsound : d.carrier.Sound) (hdebt : TakesNoDebt d e d')
    (hstep : d.step e = some d') :
    d'.carrier.Sound := by
  cases e with
  | logged frames =>
    cases hstep
    exact hsound
  | poll =>
    simp only [Downlink.step] at hstep
    split at hstep
    · cases hstep
      exact hsound
    · cases hstep
  -- a request that fails or ends otherwise takes nothing from the queue
  | down e =>
    simp only [Downlink.step] at hstep
    split at hstep
    · cases hstep
    · exact sound_proceed hsound hstep
  | arrived wire =>
    simp only [Downlink.step] at hstep
    split at hstep
    · cases hstep
    next hfailed =>
    split at hstep
    -- the frames of the response are handled one after the other
    · next response rest hread =>
      split at hstep
      · next down request answer hdown =>
        cases hstep
        exact @sound_pollOnce { d with down := down } hsound (Bool.eq_false_of_not_eq_true hfailed)
          response
      · cases hstep
    · split at hstep
      · exact sound_proceed hsound hstep
      · cases hstep
        exact sound_fail d.carrier
  | carrier e =>
    obtain ⟨-, carrier, hcarrier, rfl⟩ := step_carrier hstep
    exact WebProxyCarrier.sound_step hsound (hdebt e rfl) hcarrier

/-- **What `recv` returns is what the relay put down for the stream**: with what is held for the
next calls it is the payloads of the log's DATA frames up to the cursor, in every run in which the
relay answers the requests and as long as nothing has failed. -/
theorem results_begin_log {cursor : ℤ} {log : List Frame} (hplace : place cursor ≤ log.length)
    {es : List Event}
    (hanswers : AllSteps Downlink.step (Answers place) (start cursor log) es)
    (hdebt : AllSteps Downlink.step TakesNoDebt (start cursor log) es)
    (hrun : run Downlink.step (start cursor log) es = some d) (hquiet : ¬ d.carrier.Failing) :
    d.carrier.results.flatten ++ d.carrier.recvBuffer ++ d.carrier.queued =
        (d.between place cursor d.downCursor).flatMap WebProxyCarrier.carried ∧
      d.carrier.results.flatten <+: (d.log.drop (place cursor)).flatMap
        WebProxyCarrier.carried := by
  have hinvariant : Invariant place cursor d := by
    refine run_of_invariant_of_allSteps ?_ (invariant_start hplace) hanswers hrun
    intro s e s' h hanswers hstep
    exact h.step hanswers hstep
  have hsound : d.carrier.Sound := by
    refine run_of_invariant_of_allSteps (I := fun d => d.carrier.Sound) ?_
      (fun _ => WebProxyCarrier.held_start) hdebt hrun
    intro s e s' hsound hdebt hstep
    exact sound_step hsound hdebt hstep
  have hresults := (hsound hquiet).results
  rw [WebProxyCarrier.payloads, hinvariant.frames] at hresults
  refine ⟨hresults, ?_⟩
  have hbefore : d.between place cursor d.downCursor <+: d.log.drop (place cursor) :=
    (List.take_prefix _ d.log).drop _
  have hpart : d.carrier.results.flatten <+:
      (d.between place cursor d.downCursor).flatMap WebProxyCarrier.carried := by
    rw [← hresults, List.append_assoc]
    exact List.prefix_append _ _
  exact hpart.trans (hbefore.flatMap _)

theorem contentLength_line : 10 ∉ latin1 "Content-Length" := by decide

theorem contentLength_colon : 58 ∉ latin1 "Content-Length" := by decide

/-- `Content-Length: 11` and `X-Cursor: 1`, with one frame. -/
def oneFrame : Http.Sent where
  statusLine := Http.oneByte.statusLine
  fields :=
    [{ name := latin1 "Content-Length"
       value := 32 :: latin1 "11"
       name_line := contentLength_line
       name_colon := contentLength_colon
       value_line := by decide },
     { name := latin1 "X-Cursor"
       value := 32 :: latin1 "1"
       name_line := by decide
       name_colon := by decide
       value_line := by decide }]
  body := .sized (WebProxyCarrier.dataFrame [1, 2, 3]).bytes
  framed := by
    refine ⟨⟨_, List.mem_cons_self, by decide⟩, by decide,
      List.forall_mem_cons.mpr ⟨fun _ => ?_, ?_⟩⟩
    · exact
        ⟨{ digits := latin1 "11"
           ne_nil := by decide
           isDec := by simp [latin1, Http.decDigit]
           value := rfl
           lead := by simp [latin1] }, rfl⟩
    · exact List.forall_mem_singleton.mpr fun hkey => absurd hkey (by decide)

/-- The first response breaks off behind its head. -/
def repeated : List Event :=
  [.poll, .down .connected, .logged [WebProxyCarrier.dataFrame [1, 2, 3]], .down .received,
    .arrived oneFrame.head,
    .down .connected, .down .received, .arrived oneFrame.encode, .carrier (.recvCalled 2)]

theorem serves_oneFrame {d : Downlink} (hpolls : d.polls = [0])
    (hlog : d.log = [WebProxyCarrier.dataFrame [1, 2, 3]]) :
    d.Serves Int.toNat ⟨0, none⟩ oneFrame := by
  refine ⟨List.cons_ne_nil _ _, 0, 1, latin1 "1",
    [(WebProxyCarrier.dataFrame [1, 2, 3]).bytes], ?_, by decide, ?_, rfl, rfl, ?_, rfl⟩
  · rw [hpolls]
    rfl
  · rw [hlog]
    decide
  · rw [between, hlog]
    rfl

theorem allSteps_repeated : AllSteps Downlink.step (Answers Int.toNat) (start 0 []) repeated := by
  have hother : ∀ {d e d'}, (∀ wire, e ≠ .arrived wire) → Answers Int.toNat d e d' := by
    intro d e d' hne wire he
    exact absurd he (hne wire)
  refine .cons rfl (hother (by simp))
    (.cons rfl (hother (by simp)) (.cons rfl (hother (by simp)) (.cons rfl (hother (by simp))
    (.cons rfl ?_ (.cons rfl (hother (by simp))
      (.cons rfl (hother (by simp)) (.cons rfl ?_ (.cons rfl (hother (by simp))
      trivial))))))))
  · rintro _ ⟨⟩
    refine ⟨⟨0, none⟩, oneFrame, rfl, .inr ⟨List.prefix_append _ _, ?_, ?_⟩, fun _ =>
      serves_oneFrame rfl rfl⟩
    · exact fun h => nomatch List.append_right_eq_self.mp h.symm
    · rintro ⟨-, -, -, b, hb, -⟩
      cases hb
  · rintro _ ⟨⟩
    exact ⟨⟨0, none⟩, oneFrame, rfl, .inl ⟨[], (List.append_nil _).symm, by decide, trivial⟩,
      fun _ => serves_oneFrame rfl rfl⟩

theorem results_begin_log_repeated : ∃ d, run Downlink.step (start 0 []) repeated = some d ∧
    d.carrier.results = [[1, 2]] ∧
    d.carrier.results.flatten <+: (d.log.drop 0).flatMap WebProxyCarrier.carried := by
  have hdebt : AllSteps Downlink.step TakesNoDebt (start 0 []) repeated := by
    refine allSteps_of_invariant (I := fun _ => True) (P := fun _ e _ => e ∈ repeated) ?_
      (fun _ _ _ _ _ _ => trivial) trivial
      (allSteps_of_forall_mem fun e he => he)
    rintro s e s' - - hmem e' rfl
    simp only [repeated, List.mem_cons, Event.carrier.injEq, reduceCtorEq, false_or,
      List.not_mem_nil, or_false] at hmem
    subst hmem
    refine ⟨?_, by simp⟩
    rintro length ⟨⟩
    exact .inl (by decide)
  exact ⟨_, rfl, rfl, (results_begin_log (Nat.le_refl 0) allSteps_repeated hdebt rfl (by decide)).2⟩

end Downlink

end Pyrogram
