import Pyrogram.LittleEndian
import Pyrogram.Pool
import Pyrogram.Runs

/-!
# Flow control of the WEB carrier

`WebProxyCarrier` is a byte pipe over HTTP requests.  Bytes go up in DATA frames
that are paid for with credit from WINDOW frames; bytes come down in DATA frames
that `recv` cuts to the length its caller asks for, and what `recv` has taken is
granted back to the peer, at once where much of it has come together and after a
delay otherwise.

Everything runs on one event loop, so the carrier changes only between two awaits
of one task.  The runs here end where `close` begins, and no task is cancelled.

## Main definitions

* `WebProxyCarrier` — the counters, the queue, the buffer and the tasks.
* `WebProxyCarrier.step` — one task runs to its next await.
* `WebProxyCarrier.Flow` — the conservation laws.
* `WebProxyCarrier.TakesNoDebt` — no `recv` takes bytes without granting and returning them.

## Main results

* `WebProxyCarrier.flow_of_takesNoDebt` — **credit and bytes are conserved** in every
  run in which no `recv` of a negative length finds bytes to take, and none raises once it
  has taken some.
* `WebProxyCarrier.credit_lost`, `WebProxyCarrier.bytes_lost` — one such `recv` loses credit, or
  bytes, for good.
-/

namespace Pyrogram

open LittleEndian Runs

/-! ### Frames -/

inductive FrameType
  | open
  | data
  | close
  | window
  | ping
  | pong
  | hello
  | welcome
  | authChallenge
  | authResponse
  | bye
  deriving DecidableEq, Repr

structure Frame where
  type : FrameType
  streamId : ℕ
  payload : List UInt8
  deriving DecidableEq, Repr

namespace WebProxyCarrier

def controlStreamId : ℕ := 0

def streamId : ℕ := 1

def initialStreamWindow : ℕ := 4 * 1024 * 1024

def uplinkFrameMax : ℕ := 64 * 1024

def downlinkGrantThreshold : ℤ := 256 * 1024

def windowPayloadSize : ℕ := 4

/-- The DATA frame of a piece of the uplink. -/
def dataFrame (payload : List UInt8) : Frame := ⟨.data, streamId, payload⟩

/-- The WINDOW frame that grants `amount` bytes, big-endian. -/
def windowFrame (amount : ℕ) : Frame :=
  ⟨.window, streamId, (encode windowPayloadSize amount).reverse⟩

/-- `int.from_bytes(payload, "big")`. -/
def credit (payload : List UInt8) : ℕ := decode payload.reverse

/-! ### The carrier and its tasks -/

/-- Where a task goes on once its frames are posted. -/
inductive Resume
  /-- `send`, before `_spend_send_window` for `chunk`, with `rest` after it. -/
  | spend (chunk rest : List UInt8)
  /-- The end of `send`. -/
  | sent
  /-- The `recv` of this number, after `_flush_grant`. -/
  | received (call : ℕ)
  /-- The end of `_delayed_grant_flush`. -/
  | flushed
  /-- The end of a task that sends a control frame. -/
  | control
  deriving DecidableEq, Repr

inductive Task
  /-- In `_spend_send_window`, waiting for credit for `chunk`. -/
  | spending (chunk rest : List UInt8)
  /-- In `recv`, waiting for the queue; the length is more than the buffer has. -/
  | getting (length : ℕ)
  /-- In `_delayed_grant_flush`, before `_flush_grant`. -/
  | sleeping
  /-- In `_send_frames`, waiting for `_up_send_lock`. -/
  | posting (frames : List Frame) (next : Resume)
  /-- In `_send_frames`, waiting for the response. -/
  | requesting (next : Resume)
  /-- A `_fail` that has been scheduled. -/
  | failing
  | done
  deriving DecidableEq, Repr

end WebProxyCarrier

structure WebProxyCarrier where
  upSeq : ℕ := 0
  /-- `_up_send_lock` is held. -/
  upSendLocked : Bool := false
  sendWindow : ℤ := WebProxyCarrier.initialStreamWindow
  recvWindowRemaining : ℤ := WebProxyCarrier.initialStreamWindow
  recvBuffer : List UInt8 := []
  pendingGrant : ℤ := 0
  /-- The index of the task in `_grant_flush_task`. -/
  grantFlushTask : Option ℕ := none
  recvQueue : List (Option (List UInt8)) := []
  /-- `_fail_exc` is set. -/
  failed : Bool := false
  tasks : List WebProxyCarrier.Task := []
  /-- The posts made: their numbers and their frames. -/
  posts : List (ℕ × List Frame) := []
  /-- The frames handled. -/
  frames : List Frame := []
  /-- What the calls of `recv` return, in the order they take it off the buffer; a call
  may then still wait for its grant to be posted, and returns nothing where that raises. -/
  results : List (List UInt8) := []
  deriving DecidableEq, Repr

namespace WebProxyCarrier

/-- `_fail`; the poll task is cancelled. -/
def fail (c : WebProxyCarrier) : WebProxyCarrier :=
  if c.failed then c else { c with failed := true, recvQueue := c.recvQueue ++ [none] }

/-- `_track_task`. -/
def track (c : WebProxyCarrier) (task : Task) : WebProxyCarrier :=
  { c with tasks := c.tasks ++ [task] }

/-- Task `i` has come to `task`. -/
def settle (c : WebProxyCarrier) (i : ℕ) (task : Task) : WebProxyCarrier :=
  { c with tasks := c.tasks.set i task }

/-! ### Sending -/

/-- The loop of `send`, with `data` still to be cut into frames: what it leaves of the
window, and where it waits. -/
def sendLoop (window : ℤ) (pending : List Frame) (data : List UInt8) : ℤ × Task :=
  if _hdata : data = [] then (window, if pending = [] then .done else .posting pending .sent)
  else
    let chunk := data.take uplinkFrameMax
    let rest := data.drop uplinkFrameMax
    if window < chunk.length then
      -- what is pending is posted before the wait for credit
      (window, if pending = [] then .spending chunk rest else .posting pending (.spend chunk rest))
    else sendLoop (window - chunk.length) (pending ++ [dataFrame chunk]) rest
termination_by data.length
decreasing_by
  have := List.length_pos_iff.mpr _hdata
  simp only [List.length_drop, uplinkFrameMax]
  omega

/-- `_spend_send_window` for `chunk`, and `send` after it. -/
def spend (c : WebProxyCarrier) (chunk rest : List UInt8) : ℤ × Task :=
  if c.sendWindow < chunk.length then
    (c.sendWindow, if c.failed then .done else .spending chunk rest)
  else sendLoop (c.sendWindow - chunk.length) [dataFrame chunk] rest

def send (c : WebProxyCarrier) (data : List UInt8) : ℤ × Task :=
  if c.failed then (c.sendWindow, .done) else sendLoop c.sendWindow [] data

/-! ### Receiving -/

/-- What the task has taken is not returned where it raises. -/
def Resume.losing (results : List (List UInt8)) : Resume → List (List UInt8)
  | .received call => results.set call []
  | .spend _ _ | .sent | .flushed | .control => results

/-- The task raises. -/
def lose (c : WebProxyCarrier) (next : Resume) : WebProxyCarrier :=
  { c with results := next.losing c.results }

/-- `_flush_grant`. -/
def flushGrant (c : WebProxyCarrier) (next : Resume) : WebProxyCarrier × Task :=
  let amount := c.pendingGrant
  let c := { c with pendingGrant := 0 }
  if amount ≤ 0 ∨ c.failed then (c, .done)
  else
    let c := { c with recvWindowRemaining := c.recvWindowRemaining + amount }
    -- `amount.to_bytes(4, "big")` raises where the amount does not fit
    if amount < 2 ^ 32 then (c, .posting [windowFrame amount.toNat] next) else (c.lose next, .done)

/-- `_grant_credit`, at the end of `recv`. -/
def grantCredit (c : WebProxyCarrier) (amount : ℤ) : WebProxyCarrier × Task :=
  if amount ≤ 0 ∨ c.failed then (c, .done)
  else
    let c := { c with pendingGrant := c.pendingGrant + amount }
    if downlinkGrantThreshold ≤ c.pendingGrant then c.flushGrant (.received (c.results.length - 1))
    else if c.grantFlushTask = none then
      ({ c.track .sleeping with grantFlushTask := some c.tasks.length }, .done)
    else (c, .done)

inductive Fill
  /-- The buffer has what was asked for. -/
  | enough
  /-- The queue is empty. -/
  | waits
  /-- The end of the stream came out of the queue. -/
  | ended
  deriving DecidableEq, Repr

/-- The loop of `recv`: the buffer and the queue that it leaves. -/
def fill (length : ℤ) :
    List UInt8 → List (Option (List UInt8)) → List UInt8 × List (Option (List UInt8)) × Fill
  | buffer, [] => (buffer, [], if length ≤ buffer.length then .enough else .waits)
  | buffer, chunk :: queue =>
      if length ≤ buffer.length then (buffer, chunk :: queue, .enough)
      else
        match chunk with
        | none => (buffer, queue, .ended)
        | some chunk => fill length (buffer ++ chunk) queue

/-- The end of the slice `[:length]` of a buffer. -/
def sliceEnd (length : ℤ) (buffer : List UInt8) : ℕ :=
  if 0 ≤ length then length.toNat else buffer.length - (-length).toNat

/-- `recv`, from its call or from the end of a wait. -/
def recv (c : WebProxyCarrier) (length : ℤ) : WebProxyCarrier × Task :=
  match fill length c.recvBuffer c.recvQueue with
  | (buffer, queue, .waits) =>
      ({ c with recvBuffer := buffer, recvQueue := queue }, .getting length.toNat)
  | (buffer, queue, .ended) => ({ c with recvBuffer := buffer, recvQueue := queue }, .done)
  | (buffer, queue, .enough) =>
      let stop := sliceEnd length buffer
      grantCredit { c with
        recvBuffer := buffer.drop stop, recvQueue := queue
        results := c.results ++ [buffer.take stop] } length

/-! ### Frames from the relay -/

/-- `_handle_control_frame`; WELCOME matters to `start` alone. -/
def handleControlFrame (c : WebProxyCarrier) (frame : Frame) : WebProxyCarrier :=
  match frame.type with
  | .ping => c.track (.posting [⟨.pong, controlStreamId, frame.payload⟩] .control)
  | .bye => c.track .failing
  | _ => c

/-- `_handle_stream_frame`. -/
def handleStreamFrame (c : WebProxyCarrier) (frame : Frame) : WebProxyCarrier :=
  match frame.type with
  | .data =>
      let remaining := c.recvWindowRemaining - frame.payload.length
      let c := { c with recvWindowRemaining := remaining }
      if remaining < 0 then c.track .failing
      else { c with recvQueue := c.recvQueue ++ [some frame.payload] }
  | .close => c.track .failing
  | .window =>
      if frame.payload.length ≠ windowPayloadSize then c.track .failing
      else { c with sendWindow := c.sendWindow + credit frame.payload }
  | _ => c

/-- `_handle_frame`. -/
def handleFrame (c : WebProxyCarrier) (frame : Frame) : WebProxyCarrier :=
  let c := { c with frames := c.frames ++ [frame] }
  if frame.streamId = controlStreamId then c.handleControlFrame frame
  else if frame.streamId ≠ streamId then c
  else c.handleStreamFrame frame

/-! ### Steps -/

inductive Event
  /-- The poll loop handles a frame. -/
  | received (frame : Frame)
  /-- The poll loop ends with an error. -/
  | pollFailed
  | sendCalled (data : List UInt8)
  | recvCalled (length : ℤ)
  /-- `start` sends HELLO or OPEN. -/
  | controlSent (frame : Frame)
  /-- Task `i` looks at the send window again. -/
  | woken (i : ℕ)
  /-- It has waited too long. -/
  | creditTimedOut (i : ℕ)
  /-- Task `i` looks at the queue again. -/
  | got (i : ℕ)
  /-- The delayed flush `i` has slept. -/
  | slept (i : ℕ)
  /-- Task `i` gets the lock and makes its request. -/
  | posted (i : ℕ)
  /-- The request of task `i` is answered, or fails. -/
  | answered (i : ℕ) (ok : Bool)
  /-- The request of task `i` raises what is no `WebCarrierError`: a `ValueError` of a reader. -/
  | erred (i : ℕ)
  /-- The scheduled `_fail` runs. -/
  | failRan (i : ℕ)
  deriving DecidableEq, Repr

/-- Task `i` goes on after `_send_frames`. -/
def resume (c : WebProxyCarrier) (i : ℕ) : Resume → WebProxyCarrier
  | .spend chunk rest =>
      let (window, task) := c.spend chunk rest
      { c.settle i task with sendWindow := window }
  | .sent | .received _ | .control => c.settle i .done
  | .flushed => { c.settle i .done with grantFlushTask := none }

/-- `_send_frames` of task `i` raises: `_flush_grant` returns then, `send` raises too. -/
def abort (c : WebProxyCarrier) (i : ℕ) : Resume → WebProxyCarrier
  | .flushed => { c.settle i .done with grantFlushTask := none }
  | .spend _ _ | .sent | .received _ | .control => c.settle i .done

/-- One task runs to its next await; `none` where it cannot run. -/
def step (c : WebProxyCarrier) : Event → Option WebProxyCarrier
  | .received frame => if c.failed then none else some (c.handleFrame frame)
  | .pollFailed => if c.failed then none else some c.fail
  | .sendCalled data =>
      let (window, task) := c.send data
      some { c.track task with sendWindow := window }
  | .recvCalled length =>
      let (c, task) := c.recv length
      some (c.track task)
  | .controlSent frame =>
      if frame.type = .hello ∨ frame.type = .open then some (c.track (.posting [frame] .control))
      else none
  | .woken i =>
      match c.tasks[i]? with
      | some (.spending chunk rest) =>
          let (window, task) := c.spend chunk rest
          some { c.settle i task with sendWindow := window }
      | _ => none
  | .creditTimedOut i =>
      match c.tasks[i]? with
      | some (.spending _ _) => some (c.fail.settle i .done)
      | _ => none
  | .got i =>
      match c.tasks[i]? with
      | some (.getting length) =>
          let (c, task) := c.recv length
          some (c.settle i task)
      | _ => none
  | .slept i =>
      match c.tasks[i]? with
      | some .sleeping =>
          let (c, task) := c.flushGrant .flushed
          let c := c.settle i task
          some (if task = .done then { c with grantFlushTask := none } else c)
      | _ => none
  | .posted i =>
      match c.tasks[i]? with
      | some (.posting frames next) =>
          if c.upSendLocked then none
          else some { c.settle i (.requesting next) with
            upSendLocked := true, upSeq := c.upSeq + 1, posts := c.posts ++ [(c.upSeq, frames)] }
      | _ => none
  | .answered i ok =>
      match c.tasks[i]? with
      | some (.requesting next) =>
          let c := { c with upSendLocked := false }
          some (if ok then c.resume i next else c.fail.abort i next)
      | _ => none
  | .erred i =>
      match c.tasks[i]? with
      | some (.requesting next) =>
          -- nothing catches it: `_flush_grant` and `recv` raise too
          let c := { c with upSendLocked := false }
          some ((c.abort i next).lose next)
      | _ => none
  | .failRan i =>
      match c.tasks[i]? with
      | some .failing => some (c.fail.settle i .done)
      | _ => none

/-! ### What an event can do -/

/-- What an event can do, and where it can. -/
inductive Steps (c : WebProxyCarrier) : Event → WebProxyCarrier → Prop
  | received (frame : Frame) (hfailed : c.failed = false) :
      Steps c (.received frame) (c.handleFrame frame)
  | pollFailed : Steps c .pollFailed c.fail
  | sendCalled (data : List UInt8) :
      Steps c (.sendCalled data) { c.track (c.send data).2 with sendWindow := (c.send data).1 }
  | recvCalled (length : ℤ) :
      Steps c (.recvCalled length) ((c.recv length).1.track (c.recv length).2)
  | controlSent (frame : Frame) (htype : frame.type = .hello ∨ frame.type = .open) :
      Steps c (.controlSent frame) (c.track (.posting [frame] .control))
  | woken {i : ℕ} {chunk rest : List UInt8} (hi : c.tasks[i]? = some (.spending chunk rest)) :
      Steps c (.woken i)
        { c.settle i (c.spend chunk rest).2 with sendWindow := (c.spend chunk rest).1 }
  | creditTimedOut {i : ℕ} {chunk rest : List UInt8}
      (hi : c.tasks[i]? = some (.spending chunk rest)) :
      Steps c (.creditTimedOut i) (c.fail.settle i .done)
  | got {i length : ℕ} (hi : c.tasks[i]? = some (.getting length)) :
      Steps c (.got i) ((c.recv length).1.settle i (c.recv length).2)
  | slept {i : ℕ} (hi : c.tasks[i]? = some .sleeping) :
      Steps c (.slept i)
        (if (c.flushGrant .flushed).2 = .done then
          { (c.flushGrant .flushed).1.settle i (c.flushGrant .flushed).2 with
            grantFlushTask := none }
        else (c.flushGrant .flushed).1.settle i (c.flushGrant .flushed).2)
  | posted {i : ℕ} {frames : List Frame} {next : Resume}
      (hi : c.tasks[i]? = some (.posting frames next)) :
      Steps c (.posted i) { c.settle i (.requesting next) with
        upSendLocked := true, upSeq := c.upSeq + 1, posts := c.posts ++ [(c.upSeq, frames)] }
  | answered {i : ℕ} {next : Resume} (hi : c.tasks[i]? = some (.requesting next)) :
      Steps c (.answered i true) (resume { c with upSendLocked := false } i next)
  | refused {i : ℕ} {next : Resume} (hi : c.tasks[i]? = some (.requesting next)) :
      Steps c (.answered i false) (abort (fail { c with upSendLocked := false }) i next)
  | erred {i : ℕ} {next : Resume} (hi : c.tasks[i]? = some (.requesting next)) :
      Steps c (.erred i) (lose (abort { c with upSendLocked := false } i next) next)
  | failRan {i : ℕ} (hi : c.tasks[i]? = some .failing) :
      Steps c (.failRan i) (c.fail.settle i .done)

theorem steps_of_step {c c' : WebProxyCarrier} {e : Event} (hstep : c.step e = some c') :
    Steps c e c' := by
  cases e with
  | sendCalled data =>
    cases hstep
    exact .sendCalled data
  | recvCalled length =>
    cases hstep
    exact .recvCalled length
  | received frame =>
    simp only [step] at hstep
    split at hstep
    · cases hstep
    · next hfailed =>
      cases hstep
      exact .received frame (Bool.eq_false_of_not_eq_true hfailed)
  | pollFailed =>
    simp only [step] at hstep
    split at hstep
    · cases hstep
    · cases hstep
      exact .pollFailed
  | controlSent frame =>
    simp only [step] at hstep
    split at hstep
    · next htype =>
      cases hstep
      exact .controlSent frame htype
    · cases hstep
  -- the others go on with a task that waits for them
  | woken i | creditTimedOut i | got i | slept i | erred i | failRan i =>
    simp only [step] at hstep
    split at hstep
    · next hi =>
      cases hstep
      constructor
      exact hi
    · cases hstep
  | posted i =>
    simp only [step] at hstep
    split at hstep
    · next hi =>
      split at hstep
      · cases hstep
      · cases hstep
        exact .posted hi
    · cases hstep
  | answered i ok =>
    simp only [step] at hstep
    split at hstep
    · next hi =>
      cases hstep
      cases ok with
      | true => exact .answered hi
      | false => exact .refused hi
    · cases hstep

/-! ### The conservation laws -/

/-- The bytes in the DATA frames among these. -/
def dataBytes (frames : List Frame) : ℕ :=
  (frames.map fun frame => if frame.type = .data then frame.payload.length else 0).sum

/-- The DATA bytes posted. -/
def dataPosted (c : WebProxyCarrier) : ℕ := (c.posts.map fun post => dataBytes post.2).sum

/-- The credit that the frame grants to `send`. -/
def granted (frame : Frame) : ℕ :=
  if frame.streamId = streamId ∧ frame.type = .window ∧
      frame.payload.length = windowPayloadSize then
    credit frame.payload
  else 0

/-- The credit granted by WINDOW frames. -/
def credits (c : WebProxyCarrier) : ℕ := (c.frames.map granted).sum

/-- The bytes that the frame carries for `recv`. -/
def carried (frame : Frame) : List UInt8 :=
  if frame.streamId = streamId ∧ frame.type = .data then frame.payload else []

/-- The payloads of the DATA frames of the stream, one after the other. -/
def payloads (c : WebProxyCarrier) : List UInt8 := c.frames.flatMap carried

/-- The bytes in a queue. -/
def bytes (queue : List (Option (List UInt8))) : List UInt8 := queue.flatMap fun chunk =>
    chunk.getD []

def queued (c : WebProxyCarrier) : List UInt8 := bytes c.recvQueue

/-- A failure is recorded or scheduled. -/
def Failing (c : WebProxyCarrier) : Prop := c.failed = true ∨ .failing ∈ c.tasks

instance (c : WebProxyCarrier) : Decidable c.Failing := inferInstanceAs (Decidable (_ ∨ _))

/-- The conservation laws of the two directions. -/
structure Flow (c : WebProxyCarrier) : Prop where
  window : 0 ≤ c.sendWindow
  posted : c.dataPosted ≤ initialStreamWindow + c.credits
  remaining : c.recvWindowRemaining + (c.queued.length + c.recvBuffer.length) + c.pendingGrant =
    initialStreamWindow
  results : c.results.flatten ++ c.recvBuffer ++ c.queued = c.payloads
  seqs : c.posts.map Prod.fst = List.range c.posts.length

/-- A `recv` of a negative length finds nothing to take, and none raises that has taken bytes and
grants them at once. -/
structure TakesNoDebt (c : WebProxyCarrier) (e : Event) (_ : WebProxyCarrier) : Prop where
  called : ∀ length, e = .recvCalled length → 0 ≤ length ∨ (c.recvBuffer.length : ℤ) ≤ -length
  granted : ∀ i, e = .erred i → ∀ call, c.tasks[i]? ≠ some (.requesting (.received call))

/-! ### The uplink -/

/-- The DATA bytes that the task has paid for and not posted. -/
def Task.unposted : Task → ℕ
  | .posting frames _ => dataBytes frames
  | .spending _ _ | .getting _ | .sleeping | .requesting _ | .failing | .done => 0

def unposted (c : WebProxyCarrier) : ℕ := (c.tasks.map Task.unposted).sum

/-- What is paid for is posted or about to be. -/
structure Paid (c : WebProxyCarrier) : Prop where
  window : 0 ≤ c.sendWindow
  spent : c.sendWindow + c.dataPosted + c.unposted = initialStreamWindow + c.credits
  seqs : c.posts.map Prod.fst = List.range c.upSeq

theorem unposted_track (c : WebProxyCarrier) (task : Task) :
    (c.track task).unposted = c.unposted + task.unposted := by
  simp [unposted, track]

theorem unposted_settle {c : WebProxyCarrier} {i : ℕ} {task : Task} (h : c.tasks[i]? = some task)
    (task' : Task) : (c.settle i task').unposted + task.unposted = c.unposted + task'.unposted :=
  Pool.total_set Task.unposted h task'

@[simp] theorem dataBytes_nil : dataBytes [] = 0 := rfl

theorem dataBytes_append_dataFrame (frames : List Frame) (chunk : List UInt8) :
    dataBytes (frames ++ [dataFrame chunk]) = dataBytes frames + chunk.length := by
  simp [dataBytes, dataFrame]

/-- The loop of `send` pays for each frame before it takes it up. -/
theorem sendLoop_spec {window : ℤ} (pending : List Frame) (data : List UInt8) (h : 0 ≤ window) :
    0 ≤ (sendLoop window pending data).1 ∧
      (sendLoop window pending data).1 + (sendLoop window pending data).2.unposted =
        window + dataBytes pending := by
  induction window, pending, data using sendLoop.induct with
  | case1 window pending =>
    rw [sendLoop, dif_pos rfl]
    refine ⟨h, ?_⟩
    dsimp only
    split
    · next hpending => rw [hpending, dataBytes_nil]; rfl
    · rfl
  | case2 window pending data hdata chunk hwindow =>
    rw [sendLoop, dif_neg hdata]
    dsimp only
    rw [if_pos hwindow]
    refine ⟨h, ?_⟩
    dsimp only
    split
    · next hpending => rw [hpending, dataBytes_nil]; rfl
    · rfl
  | case3 window pending data hdata chunk rest hwindow ih =>
    rw [sendLoop, dif_neg hdata]
    dsimp only
    rw [if_neg hwindow]
    obtain ⟨hle, hsum⟩ := ih (by omega)
    refine ⟨hle, hsum.trans ?_⟩
    rw [dataBytes_append_dataFrame, Nat.cast_add]
    omega

theorem spend_spec {c : WebProxyCarrier} (chunk rest : List UInt8) (h : 0 ≤ c.sendWindow) :
    0 ≤ (c.spend chunk rest).1 ∧
      (c.spend chunk rest).1 + (c.spend chunk rest).2.unposted = c.sendWindow := by
  unfold spend
  split
  · refine ⟨h, ?_⟩
    dsimp only
    split <;> simp [Task.unposted]
  · next hwindow =>
    obtain ⟨hle, hsum⟩ := sendLoop_spec [dataFrame chunk] rest (sub_nonneg.mpr (not_lt.mp hwindow))
    refine ⟨hle, hsum.trans ?_⟩
    have := dataBytes_append_dataFrame [] chunk
    rw [List.nil_append, dataBytes_nil, zero_add] at this
    rw [this, sub_add_cancel]

theorem send_spec {c : WebProxyCarrier} (data : List UInt8) (h : 0 ≤ c.sendWindow) :
    0 ≤ (c.send data).1 ∧ (c.send data).1 + (c.send data).2.unposted = c.sendWindow := by
  unfold send
  split
  · exact ⟨h, by simp [Task.unposted]⟩
  · simpa using sendLoop_spec [] data h

/-- Nothing happens on the uplink. -/
structure SameUplink (c c' : WebProxyCarrier) : Prop where
  window : c'.sendWindow = c.sendWindow
  posts : c'.posts = c.posts
  upSeq : c'.upSeq = c.upSeq
  credits : c'.credits = c.credits
  unposted : c'.unposted = c.unposted

variable {c c' c'' : WebProxyCarrier}

theorem SameUplink.refl (c : WebProxyCarrier) : SameUplink c c := ⟨rfl, rfl, rfl, rfl, rfl⟩

theorem SameUplink.trans (h : SameUplink c c') (h' : SameUplink c' c'') : SameUplink c c'' :=
  ⟨h'.window.trans h.window, h'.posts.trans h.posts, h'.upSeq.trans h.upSeq,
    h'.credits.trans h.credits, h'.unposted.trans h.unposted⟩

theorem Paid.of_same (h : Paid c) (hsame : SameUplink c c') : Paid c' := by
  refine ⟨hsame.window ▸ h.window, ?_, ?_⟩
  · rw [hsame.window, hsame.unposted, hsame.credits, dataPosted, hsame.posts]
    exact h.spent
  · rw [hsame.posts, hsame.upSeq]
    exact h.seqs

theorem sameUplink_fail (c : WebProxyCarrier) : SameUplink c c.fail := by
  unfold fail
  split
  · exact .refl c
  · exact ⟨rfl, rfl, rfl, rfl, rfl⟩

theorem sameUplink_track (c : WebProxyCarrier) (task : Task) (htask : task.unposted = 0) :
    SameUplink c (c.track task) :=
  ⟨rfl, rfl, rfl, rfl, by rw [unposted_track, htask, add_zero]⟩

theorem sameUplink_settle {i : ℕ} {task task' : Task} (h : c.tasks[i]? = some task)
    (htask : task.unposted = 0) (htask' : task'.unposted = 0) :
    SameUplink c (c.settle i task') := by
  refine ⟨rfl, rfl, rfl, rfl, ?_⟩
  have := unposted_settle h task'
  omega

theorem sameUplink_flushGrant (c : WebProxyCarrier) (next : Resume) :
    SameUplink c (c.flushGrant next).1 ∧ (c.flushGrant next).2.unposted = 0 := by
  unfold flushGrant
  dsimp only
  split
  · exact ⟨⟨rfl, rfl, rfl, rfl, rfl⟩, rfl⟩
  · split <;> exact ⟨⟨rfl, rfl, rfl, rfl, rfl⟩, rfl⟩

theorem sameUplink_grantCredit (c : WebProxyCarrier) (amount : ℤ) :
    SameUplink c (c.grantCredit amount).1 ∧ (c.grantCredit amount).2.unposted = 0 := by
  unfold grantCredit
  split
  · exact ⟨.refl c, rfl⟩
  dsimp only
  split
  · obtain ⟨hsame, htask⟩ :=
      sameUplink_flushGrant { c with pendingGrant := c.pendingGrant + amount }
        (.received (c.results.length - 1))
    exact ⟨⟨hsame.window, hsame.posts, hsame.upSeq, hsame.credits, hsame.unposted⟩, htask⟩
  · split
    · have hsame := sameUplink_track { c with pendingGrant := c.pendingGrant + amount }
        .sleeping rfl
      exact ⟨⟨rfl, rfl, rfl, rfl, hsame.unposted⟩, rfl⟩
    · exact ⟨⟨rfl, rfl, rfl, rfl, rfl⟩, rfl⟩

theorem sameUplink_recv (c : WebProxyCarrier) (length : ℤ) :
    SameUplink c (c.recv length).1 ∧ (c.recv length).2.unposted = 0 := by
  unfold recv
  split
  · exact ⟨⟨rfl, rfl, rfl, rfl, rfl⟩, rfl⟩
  · exact ⟨⟨rfl, rfl, rfl, rfl, rfl⟩, rfl⟩
  · next buffer queue hfill =>
    obtain ⟨hsame, htask⟩ := sameUplink_grantCredit { c with
      recvBuffer := buffer.drop (sliceEnd length buffer), recvQueue := queue
      results := c.results ++ [buffer.take (sliceEnd length buffer)] } length
    exact ⟨⟨hsame.window, hsame.posts, hsame.upSeq, hsame.credits, hsame.unposted⟩, htask⟩

/-- Receiving only adds tasks. -/
theorem prefix_tasks_grantCredit (c : WebProxyCarrier) (amount : ℤ) :
    c.tasks <+: (c.grantCredit amount).1.tasks := by
  unfold grantCredit flushGrant
  dsimp only
  split_ifs <;> first | exact List.prefix_rfl | exact List.prefix_append ..

theorem prefix_tasks_recv (c : WebProxyCarrier) (length : ℤ) :
    c.tasks <+: (c.recv length).1.tasks := by
  unfold recv
  split
  · exact List.prefix_rfl
  · exact List.prefix_rfl
  · next buffer queue hfill =>
    exact prefix_tasks_grantCredit { c with
      recvBuffer := buffer.drop (sliceEnd length buffer), recvQueue := queue
      results := c.results ++ [buffer.take (sliceEnd length buffer)] } length

theorem getElem?_tasks_recv {i : ℕ} {task : Task} (h : c.tasks[i]? = some task) (length : ℤ) :
    (c.recv length).1.tasks[i]? = some task := by
  obtain ⟨more, hmore⟩ := prefix_tasks_recv c length
  have hlt : i < c.tasks.length := (List.getElem?_eq_some_iff.mp h).1
  rw [← hmore, List.getElem?_append_left hlt]
  exact h

@[simp] theorem tasks_fail (c : WebProxyCarrier) : c.fail.tasks = c.tasks := by
  unfold fail
  split <;> rfl

@[simp] theorem tasks_flushGrant (c : WebProxyCarrier) (next : Resume) :
    (c.flushGrant next).1.tasks = c.tasks := by
  unfold flushGrant
  dsimp only
  split_ifs <;> rfl

/-- A frame that is not a WINDOW frame for the stream grants nothing. -/
theorem credits_handled (c : WebProxyCarrier) (frame : Frame) :
    credits { c with frames := c.frames ++ [frame] } = c.credits + granted frame := by
  simp [credits]

theorem paid_handleControlFrame (h : Paid c) (frame : Frame) :
    Paid (c.handleControlFrame frame) := by
  unfold handleControlFrame
  split
  · exact h.of_same (sameUplink_track c _ rfl)
  · exact h.of_same (sameUplink_track c _ rfl)
  · exact h

theorem paid_handleFrame (h : Paid c) (frame : Frame) : Paid (c.handleFrame frame) := by
  have hhandled : granted frame = 0 → Paid { c with frames := c.frames ++ [frame] } := by
    intro hgrant
    refine h.of_same ⟨rfl, rfl, rfl, ?_, rfl⟩
    rw [credits_handled, hgrant, add_zero]
  unfold handleFrame
  dsimp only
  split
  · next hcontrol =>
    exact paid_handleControlFrame
      (hhandled (by simp [granted, hcontrol, controlStreamId, streamId])) frame
  split
  · next hother => exact hhandled (by simp [granted, hother])
  · next hstream =>
    unfold handleStreamFrame
    split
    · next htype =>
      have hpaid := hhandled (by simp [granted, htype])
      dsimp only
      split
      · have hsame := sameUplink_track { c with frames := c.frames ++ [frame] } .failing rfl
        exact hpaid.of_same ⟨rfl, rfl, rfl, rfl, hsame.unposted⟩
      · exact hpaid.of_same ⟨rfl, rfl, rfl, rfl, rfl⟩
    · next htype =>
      exact (hhandled (by simp [granted, htype])).of_same (sameUplink_track _ _ rfl)
    · next htype =>
      split
      · next hsize =>
        exact (hhandled (by simp [granted, hsize])).of_same (sameUplink_track _ _ rfl)
      · next hsize =>
        -- the window grows by what is granted
        have hgrant : granted frame = credit frame.payload :=
          if_pos ⟨not_not.mp hstream, htype, not_not.mp hsize⟩
        have hcredits := (credits_handled c frame).trans (congrArg _ hgrant)
        have hwindow := h.window
        have hspent := h.spent
        refine ⟨?_, ?_, h.seqs⟩
        · show 0 ≤ c.sendWindow + credit frame.payload
          omega
        · show c.sendWindow + credit frame.payload + c.dataPosted + c.unposted =
            initialStreamWindow + (credits { c with frames := c.frames ++ [frame] } : ℕ)
          rw [hcredits, Nat.cast_add]
          omega
    · next hdata hclose hwindow =>
      exact hhandled (by
        unfold granted
        exact if_neg fun hframe => hwindow hframe.2.1)

theorem paid_spend (h : Paid c) {i : ℕ} {task : Task} (hi : c.tasks[i]? = some task)
    (htask : task.unposted = 0) (chunk rest : List UInt8) :
    Paid { c.settle i (c.spend chunk rest).2 with sendWindow := (c.spend chunk rest).1 } := by
  obtain ⟨hle, hsum⟩ := spend_spec chunk rest h.window
  have hsettle := unposted_settle hi (c.spend chunk rest).2
  have hspent := h.spent
  refine ⟨hle, ?_, h.seqs⟩
  show (c.spend chunk rest).1 + c.dataPosted + (c.settle i (c.spend chunk rest).2).unposted =
    initialStreamWindow + c.credits
  omega

theorem paid_resume (h : Paid c) {i : ℕ} {next : Resume}
    (hi : c.tasks[i]? = some (.requesting next)) :
    Paid (c.resume i next) := by
  have hdone : SameUplink c (c.settle i .done) := sameUplink_settle hi rfl rfl
  cases next with
  | spend chunk rest => exact paid_spend h hi rfl chunk rest
  | sent | received | control => exact h.of_same hdone
  | flushed => exact h.of_same ⟨rfl, rfl, rfl, rfl, hdone.unposted⟩

theorem paid_abort (h : Paid c) {i : ℕ} {next : Resume}
    (hi : c.tasks[i]? = some (.requesting next)) :
    Paid (c.abort i next) := by
  have hdone : SameUplink c (c.settle i .done) := sameUplink_settle hi rfl rfl
  cases next with
  | spend chunk rest => exact h.of_same hdone
  | sent | received | control => exact h.of_same hdone
  | flushed => exact h.of_same ⟨hdone.window, hdone.posts, hdone.upSeq, hdone.credits,
      hdone.unposted⟩

/-- **Every step keeps what is paid for.** -/
theorem paid_step {e : Event} (h : Paid c) (hstep : c.step e = some c') : Paid c' := by
  have hunlocked : Paid { c with upSendLocked := false } := h.of_same ⟨rfl, rfl, rfl, rfl, rfl⟩
  -- only sending, spending and posting move bytes; the rest leaves the account as it is
  cases steps_of_step hstep with
  | received frame => exact paid_handleFrame h frame
  | pollFailed => exact h.of_same (sameUplink_fail c)
  | sendCalled data =>
    obtain ⟨hle, hsum⟩ := send_spec data h.window
    -- what leaves the window waits to be posted
    have hspent := h.spent
    refine ⟨hle, ?_, h.seqs⟩
    have htrack := unposted_track c (c.send data).2
    show (c.send data).1 + c.dataPosted + (c.track (c.send data).2).unposted =
      initialStreamWindow + c.credits
    omega
  | recvCalled length =>
    obtain ⟨hsame, htask⟩ := sameUplink_recv c length
    exact h.of_same (hsame.trans (sameUplink_track _ _ htask))
  | controlSent frame htype =>
    refine h.of_same (sameUplink_track c _ ?_)
    rcases htype with htype | htype <;> simp [Task.unposted, dataBytes, htype]
  | @woken i chunk rest hi => exact paid_spend h hi rfl chunk rest
  | creditTimedOut hi | failRan hi =>
    exact h.of_same ((sameUplink_fail c).trans
      (sameUplink_settle ((tasks_fail c).symm ▸ hi) rfl rfl))
  | @got i length hi =>
    obtain ⟨hsame, htask⟩ := sameUplink_recv c length
    exact h.of_same (hsame.trans (sameUplink_settle (getElem?_tasks_recv hi length) rfl htask))
  | @slept i hi =>
    obtain ⟨hsame, htask⟩ := sameUplink_flushGrant c .flushed
    have hsettled : SameUplink c ((c.flushGrant .flushed).1.settle i (c.flushGrant .flushed).2) :=
      hsame.trans (sameUplink_settle ((tasks_flushGrant ..).symm ▸ hi) rfl htask)
    split
    · exact h.of_same (hsettled.trans ⟨rfl, rfl, rfl, rfl, rfl⟩)
    · exact h.of_same hsettled
  | @posted i frames next hi =>
    -- what waited is posted, under the next number
    have hsettle := unposted_settle hi (.requesting next)
    have hspent := h.spent
    refine ⟨h.window, ?_, ?_⟩
    · have hposted : dataPosted { c with posts := c.posts ++ [(c.upSeq, frames)] } =
          c.dataPosted + dataBytes frames := by simp [dataPosted]
      simp only [Task.unposted] at hsettle
      show c.sendWindow + dataPosted { c with posts := c.posts ++ [(c.upSeq, frames)] } +
        (c.settle i (.requesting next)).unposted = initialStreamWindow + c.credits
      omega
    · show (c.posts ++ [(c.upSeq, frames)]).map Prod.fst = List.range (c.upSeq + 1)
      rw [List.map_append, h.seqs, List.range_succ]
      rfl
  | answered hi => exact paid_resume hunlocked hi
  | refused hi =>
    exact paid_abort (hunlocked.of_same (sameUplink_fail _)) ((tasks_fail _).symm ▸ hi)
  | erred hi => exact (paid_abort hunlocked hi).of_same ⟨rfl, rfl, rfl, rfl, rfl⟩

/-! ### The downlink -/

/-- Nothing happens on the downlink. -/
structure SameDownlink (c c' : WebProxyCarrier) : Prop where
  remaining : c'.recvWindowRemaining = c.recvWindowRemaining
  buffer : c'.recvBuffer = c.recvBuffer
  queued : c'.queued = c.queued
  pending : c'.pendingGrant = c.pendingGrant
  results : c'.results = c.results
  payloads : c'.payloads = c.payloads

/-- The bytes and the credit of the downlink. -/
structure Held (c : WebProxyCarrier) : Prop where
  window : 0 ≤ c.recvWindowRemaining
  pending : 0 ≤ c.pendingGrant
  remaining : c.recvWindowRemaining + (c.queued.length + c.recvBuffer.length) + c.pendingGrant =
    initialStreamWindow
  results : c.results.flatten ++ c.recvBuffer ++ c.queued = c.payloads

theorem Held.of_same (h : Held c) (hsame : SameDownlink c c') : Held c' := by
  refine ⟨hsame.remaining ▸ h.window, hsame.pending ▸ h.pending, ?_, ?_⟩
  · rw [hsame.remaining, hsame.queued, hsame.buffer, hsame.pending]
    exact h.remaining
  · rw [hsame.results, hsame.buffer, hsame.queued, hsame.payloads]
    exact h.results

theorem held_flushGrant (h : Held c) (hfailed : c.failed = false) (next : Resume) :
    Held (c.flushGrant next).1 := by
  have hpending := h.pending
  have hremaining := h.remaining
  unfold flushGrant
  dsimp only
  split
  · next hnone =>
    have hzero : c.pendingGrant = 0 := by
      rcases hnone with hle | htrue
      · omega
      · rw [hfailed] at htrue
        cases htrue
    refine ⟨h.window, le_rfl, ?_, h.results⟩
    rw [hzero] at hremaining
    exact hremaining
  · -- no more than the window is ever pending, so it fits
    have hwindow := h.window
    have hfits : c.pendingGrant < 2 ^ 32 := by
      rw [initialStreamWindow] at hremaining
      omega
    rw [if_pos hfits]
    refine ⟨add_nonneg hwindow hpending, le_rfl, ?_, h.results⟩
    show c.recvWindowRemaining + c.pendingGrant + (c.queued.length + c.recvBuffer.length) + 0 = _
    omega

/-- What has been taken is granted, now or later. -/
theorem held_grantCredit {amount : ℤ} (hamount : 0 ≤ amount) (hfailed : c.failed = false)
    (h : Held { c with pendingGrant := c.pendingGrant + amount }) :
    Held (c.grantCredit amount).1 := by
  unfold grantCredit
  split
  · next hnone =>
    have hzero : amount = 0 := by
      rcases hnone with hle | htrue
      · omega
      · rw [hfailed] at htrue
        cases htrue
    rw [hzero, add_zero] at h
    exact h
  · dsimp only
    split
    · exact held_flushGrant h hfailed _
    · split <;> exact h.of_same ⟨rfl, rfl, rfl, rfl, rfl, rfl⟩

/-- The loop of `recv` moves bytes from the queue to the buffer. -/
theorem fill_spec {length : ℤ} {buffer buffer' : List UInt8}
    {queue queue' : List (Option (List UInt8))}
    {r : Fill} (h : fill length buffer queue = (buffer', queue', r)) :
    buffer' ++ bytes queue' = buffer ++ bytes queue ∧ (r = .enough → length ≤ buffer'.length) := by
  induction queue generalizing buffer with
  | nil =>
    rw [fill] at h
    cases h
    refine ⟨rfl, ?_⟩
    split
    · exact fun _ => ‹_›
    · exact fun hr => nomatch hr
  | cons chunk queue ih =>
    unfold fill at h
    split at h
    · next hle =>
      cases h
      exact ⟨rfl, fun _ => hle⟩
    · cases chunk with
      | none =>
        cases h
        exact ⟨by simp [bytes], fun hr => nomatch hr⟩
      | some chunk =>
        obtain ⟨hbytes, hle⟩ := ih h
        refine ⟨hbytes.trans ?_, hle⟩
        simp [bytes]

theorem fill_of_le {length : ℤ} {buffer : List UInt8} (h : length ≤ buffer.length)
    (queue : List (Option (List UInt8))) : fill length buffer queue = (buffer, queue, .enough) := by
  cases queue with
  | nil => rw [fill, if_pos h]
  | cons chunk queue =>
    unfold fill
    rw [if_pos h]

theorem held_fill (h : Held c) {length : ℤ} {buffer : List UInt8}
    {queue : List (Option (List UInt8))}
    {r : Fill} (hfill : fill length c.recvBuffer c.recvQueue = (buffer, queue, r)) :
    Held { c with recvBuffer := buffer, recvQueue := queue } := by
  have hbytes := (fill_spec hfill).1
  have hcount := congrArg List.length hbytes
  rw [List.length_append, List.length_append] at hcount
  refine ⟨h.window, h.pending, ?_, ?_⟩
  · have hremaining : c.recvWindowRemaining + ((bytes c.recvQueue).length + c.recvBuffer.length) +
        c.pendingGrant = initialStreamWindow := h.remaining
    show c.recvWindowRemaining + ((bytes queue).length + buffer.length) + c.pendingGrant =
      initialStreamWindow
    omega
  · show c.results.flatten ++ buffer ++ bytes queue = c.payloads
    rw [← h.results, List.append_assoc, hbytes, ← List.append_assoc]
    rfl

/-- The slice that `recv` takes is as long as its caller asked for, or empty. -/
theorem sliceEnd_spec {length : ℤ} {buffer : List UInt8} (hle : length ≤ buffer.length)
    (hlength : 0 ≤ length ∨ (buffer.length : ℤ) ≤ -length) :
    (sliceEnd length buffer : ℤ) = max length 0 ∧ sliceEnd length buffer ≤ buffer.length := by
  unfold sliceEnd
  split <;> omega

/-- **`recv` keeps the bytes in order and grants what it takes**, if it takes nothing
for a negative length. -/
theorem held_recv (h : Held c) (hfailed : c.failed = false) {length : ℤ}
    (hlength : 0 ≤ length ∨ (c.recvBuffer.length : ℤ) ≤ -length) : Held (c.recv length).1 := by
  unfold recv
  split
  · next buffer queue hfill => exact held_fill h hfill
  · next buffer queue hfill => exact held_fill h hfill
  · next buffer queue hfill =>
    have hfilled := held_fill h hfill
    have hle := (fill_spec hfill).2 rfl
    have hbuffer : 0 ≤ length ∨ (buffer.length : ℤ) ≤ -length := by
      refine hlength.imp_right fun hneg => ?_
      -- there is nothing to wait for
      rw [fill_of_le (by omega)] at hfill
      cases hfill
      exact hneg
    obtain ⟨hstop, hstop'⟩ := sliceEnd_spec hle hbuffer
    have hpending := h.pending
    have hremaining : c.recvWindowRemaining + ((bytes queue).length + buffer.length) +
      c.pendingGrant =
      initialStreamWindow := hfilled.remaining
    rcases le_or_gt 0 length with hpos | hneg
    · refine held_grantCredit hpos hfailed ⟨h.window, ?_, ?_, ?_⟩
      · exact add_nonneg hpending hpos
      · show c.recvWindowRemaining +
          ((bytes queue).length + (buffer.drop (sliceEnd length buffer)).length) +
          (c.pendingGrant + length) = initialStreamWindow
        rw [List.length_drop]
        omega
      · show (c.results ++ [buffer.take (sliceEnd length buffer)]).flatten ++
          buffer.drop (sliceEnd length buffer) ++ bytes queue = c.payloads
        rw [List.flatten_append, List.flatten_singleton, List.append_assoc c.results.flatten,
          List.take_append_drop]
        exact hfilled.results
    · have hzero : sliceEnd length buffer = 0 := by omega
      rw [hzero, grantCredit, if_pos (Or.inl hneg.le), List.drop_zero, List.take_zero]
      refine ⟨h.window, hpending, hremaining, ?_⟩
      show (c.results ++ [[]]).flatten ++ buffer ++ bytes queue = c.payloads
      rw [List.flatten_append, List.flatten_singleton, List.append_nil]
      exact hfilled.results

/-! ### Failures -/

theorem failing_fail (c : WebProxyCarrier) : c.fail.failed = true := by
  unfold fail
  split
  · assumption
  · rfl

theorem failing_track (c : WebProxyCarrier) : Failing (c.track .failing) :=
  Or.inr (List.mem_append_right _ (List.mem_singleton.mpr rfl))

theorem Failing.track (h : Failing c) (task : Task) : Failing (c.track task) :=
  h.imp_right fun hmem => List.mem_append_left _ hmem

theorem Failing.settle (h : Failing c) {i : ℕ} {task : Task} (hi : c.tasks[i]? = some task)
    (htask : task ≠ .failing) (task' : Task) : Failing (c.settle i task') := by
  refine h.imp_right fun hmem => ?_
  obtain ⟨j, hj⟩ := List.mem_iff_getElem?.mp hmem
  have hne : i ≠ j := by
    rintro rfl
    exact htask (Option.some.inj (hi.symm.trans hj))
  exact List.mem_iff_getElem?.mpr ⟨j, (List.getElem?_set_ne hne).trans hj⟩

@[simp] theorem failed_flushGrant (c : WebProxyCarrier) (next : Resume) :
    (c.flushGrant next).1.failed = c.failed := by
  unfold flushGrant
  dsimp only
  split_ifs <;> rfl

theorem failed_grantCredit (c : WebProxyCarrier) (amount : ℤ) :
    (c.grantCredit amount).1.failed = c.failed := by
  unfold grantCredit flushGrant
  dsimp only
  split_ifs <;> rfl

@[simp] theorem failed_recv (c : WebProxyCarrier) (length : ℤ) :
    (c.recv length).1.failed = c.failed := by
  unfold recv
  split
  · rfl
  · rfl
  · exact failed_grantCredit _ length

theorem Failing.recv (h : Failing c) (length : ℤ) : Failing (c.recv length).1 := by
  refine h.imp (fun hfailed => (failed_recv c length).trans hfailed) fun hmem => ?_
  exact (prefix_tasks_recv c length).subset hmem

theorem Failing.handleFrame (h : Failing c) (frame : Frame) : Failing (c.handleFrame frame) := by
  unfold WebProxyCarrier.handleFrame handleControlFrame handleStreamFrame
  dsimp only
  split_ifs <;> repeat' split
  all_goals first | exact h | exact h.imp_right (List.mem_append_left _)

/-- A failure is never taken back. -/
theorem failing_step {e : Event} (h : Failing c) (hstep : c.step e = some c') : Failing c' := by
  have hunlocked : Failing { c with upSendLocked := false } := h
  -- a failure that is recorded, or whose recording is under way, stays
  cases steps_of_step hstep with
  | received frame => exact h.handleFrame frame
  | pollFailed | creditTimedOut | failRan => exact Or.inl (failing_fail c)
  | sendCalled data => exact h.track _
  | recvCalled length => exact (h.recv length).track _
  | controlSent frame => exact h.track _
  | woken hi => exact h.settle hi (by simp) _
  | @got i length hi =>
    exact (h.recv length).settle (getElem?_tasks_recv hi length) (by simp) _
  | slept hi =>
    have hflushed : Failing (c.flushGrant .flushed).1 :=
      h.imp (failed_flushGrant c .flushed).trans fun hmem =>
        (tasks_flushGrant c .flushed).symm ▸ hmem
    have hsettled := hflushed.settle ((tasks_flushGrant c .flushed).symm ▸ hi) (by simp)
      (c.flushGrant .flushed).2
    split <;> exact hsettled
  | @posted i frames next hi => exact h.settle hi (by simp) (.requesting next)
  | @answered i next hi => cases next <;> exact hunlocked.settle hi (by simp) _
  | @refused i next =>
    cases next <;> exact Or.inl (failing_fail { c with upSendLocked := false })
  | @erred i next hi => cases next <;> exact hunlocked.settle hi (by simp) _

/-! ### Runs -/

theorem payloads_handled (c : WebProxyCarrier) (frame : Frame) :
    payloads { c with frames := c.frames ++ [frame] } = c.payloads ++ carried frame := by
  simp [payloads]

theorem held_handleFrame (h : Held c) (frame : Frame) (hquiet : ¬ Failing (c.handleFrame frame)) :
    Held (c.handleFrame frame) := by
  have hhandled : carried frame = [] → SameDownlink c { c with frames := c.frames ++ [frame] } := by
    intro hcarried
    refine ⟨rfl, rfl, rfl, rfl, rfl, ?_⟩
    rw [payloads_handled, hcarried, List.append_nil]
  -- a control frame, or one for another stream, brings no bytes
  unfold handleFrame at hquiet ⊢
  dsimp only at hquiet ⊢
  split at hquiet
  · next hcontrol =>
    rw [if_pos hcontrol]
    have hsame := hhandled (by simp [carried, hcontrol, controlStreamId, streamId])
    unfold handleControlFrame
    split <;> exact h.of_same ⟨rfl, rfl, rfl, rfl, rfl, hsame.payloads⟩
  next hcontrol =>
  rw [if_neg hcontrol]
  split at hquiet
  · next hother =>
    rw [if_pos hother]
    exact h.of_same (hhandled (by simp [carried, hother]))
  next hstream =>
  rw [if_neg hstream]
  unfold handleStreamFrame at hquiet ⊢
  dsimp only at hquiet ⊢
  split at hquiet
  -- the bytes fit the window, or the stream fails
  · next htype =>
    split at hquiet
    · exact absurd (failing_track _) hquiet
    · next hfits =>
      rw [if_neg hfits]
      have hcarried : carried frame = frame.payload := if_pos ⟨not_not.mp hstream, htype⟩
      have hbytes : bytes (c.recvQueue ++ [some frame.payload]) = c.queued ++ frame.payload := by
        simp [bytes, queued]
      have hremaining := h.remaining
      -- what the window loses, the queue gains
      refine ⟨not_lt.mp hfits, h.pending, ?_, ?_⟩
      · show c.recvWindowRemaining - frame.payload.length +
          ((bytes (c.recvQueue ++ [some frame.payload])).length + c.recvBuffer.length) +
            c.pendingGrant =
            initialStreamWindow
        rw [hbytes, List.length_append]
        omega
      · show c.results.flatten ++ c.recvBuffer ++ bytes (c.recvQueue ++ [some frame.payload]) =
          payloads { c with frames := c.frames ++ [frame] }
        rw [payloads_handled, hcarried, hbytes, ← h.results, List.append_assoc, List.append_assoc,
          List.append_assoc]
  · exact absurd (failing_track _) hquiet
  · next htype =>
    have hsame := hhandled (by simp [carried, htype])
    split at hquiet
    · exact absurd (failing_track _) hquiet
    · next hsize =>
      rw [if_neg hsize]
      exact h.of_same ⟨rfl, rfl, rfl, rfl, rfl, hsame.payloads⟩
  · next hdata hclose hwindow =>
    refine h.of_same (hhandled ?_)
    unfold carried
    exact if_neg fun hframe => hdata hframe.2

/-- What holds of the downlink as long as nothing fails. -/
def Sound (c : WebProxyCarrier) : Prop := ¬ Failing c → Held c

/-- **Every step keeps the downlink sound**, where `recv` takes no debt. -/
theorem sound_step {e : Event} (h : Sound c) (hdebt : TakesNoDebt c e c')
    (hstep : c.step e = some c') :
    Sound c' := by
  intro hquiet
  -- before the step nothing was failing either, so what is held was held
  have hbefore : ¬ Failing c := fun hfailing => hquiet (failing_step hfailing hstep)
  have hfailed : c.failed = false := by
    by_contra hfailed
    exact hbefore (Or.inl (Bool.eq_true_of_not_eq_false hfailed))
  have hheld := h hbefore
  cases steps_of_step hstep with
  | received frame => exact held_handleFrame hheld frame hquiet
  | pollFailed | creditTimedOut | failRan => exact absurd (Or.inl (failing_fail c)) hquiet
  | sendCalled | controlSent | woken | posted =>
    exact hheld.of_same ⟨rfl, rfl, rfl, rfl, rfl, rfl⟩
  -- a `recv` that would owe bytes is left out by the condition
  | recvCalled length =>
    exact (held_recv hheld hfailed (hdebt.called length rfl)).of_same ⟨rfl, rfl, rfl, rfl, rfl, rfl⟩
  | @got i length =>
    exact (held_recv hheld hfailed (Or.inl (Int.natCast_nonneg length))).of_same
      ⟨rfl, rfl, rfl, rfl, rfl, rfl⟩
  | slept =>
    have hflushed := held_flushGrant hheld hfailed .flushed
    split <;> exact hflushed.of_same ⟨rfl, rfl, rfl, rfl, rfl, rfl⟩
  | @answered i next => cases next <;> exact hheld.of_same ⟨rfl, rfl, rfl, rfl, rfl, rfl⟩
  | @refused i next =>
    cases next <;> exact absurd (Or.inl (failing_fail { c with upSendLocked := false })) hquiet
  | @erred i next hi =>
    -- a grant whose request raised would not be sent
    cases next with
    | received call => exact absurd hi (hdebt.granted i rfl call)
    | _ => exact hheld.of_same ⟨rfl, rfl, rfl, rfl, rfl, rfl⟩

/-- A DATA frame beyond the window is not handed over. -/
theorem recvQueue_of_beyond {frame : Frame} (htype : frame.type = .data)
    (hstream : frame.streamId = streamId)
    (hbeyond : c.recvWindowRemaining < frame.payload.length)
    (h : c.step (.received frame) = some c') :
    c'.recvQueue = c.recvQueue ∧ Failing c' := by
  cases steps_of_step h
  unfold handleFrame
  dsimp only
  rw [if_neg (by rw [hstream]; decide), if_neg (not_not_intro hstream)]
  unfold handleStreamFrame
  rw [htype]
  dsimp only
  rw [if_pos (sub_neg.mpr hbeyond)]
  exact ⟨rfl, failing_track _⟩

theorem paid_start : Paid {} := ⟨by decide, rfl, rfl⟩

theorem held_start : Held {} := ⟨by decide, le_rfl, rfl, rfl⟩

/-- **Credit and bytes are conserved in every run** in which `recv` takes no debt and returns what
it takes, as long as nothing has failed; and a DATA frame beyond the window is never handed to
`recv`. -/
theorem flow_of_takesNoDebt {es : List Event} {c : WebProxyCarrier}
    (hdebt : AllSteps step TakesNoDebt {} es) (hrun : run step {} es = some c)
    (hquiet : ¬ Failing c) :
    Flow c ∧ ∀ frame c', frame.type = .data → frame.streamId = streamId →
      c.recvWindowRemaining < frame.payload.length → c.step (.received frame) = some c' →
        c'.recvQueue = c.recvQueue := by
  have hpaid : Paid c := run_of_invariant (fun _ _ _ => paid_step) paid_start hrun
  have hsound : Sound c := by
    refine run_of_invariant_of_allSteps ?_ (fun _ => held_start) hdebt hrun
    intro s e s' hsound htakes hstep
    exact sound_step hsound htakes hstep
  obtain ⟨-, -, hremaining, hresults⟩ := hsound hquiet
  obtain ⟨hwindow, hspent, hseqs⟩ := hpaid
  refine ⟨⟨hwindow, ?_, hremaining, hresults, ?_⟩, ?_⟩
  · omega
  · have hcount := congrArg List.length hseqs
    rw [List.length_map, List.length_range] at hcount
    rw [hseqs, hcount]
  · intro frame c' htype hstream hbeyond hstep
    exact (recvQueue_of_beyond htype hstream hbeyond hstep).1

/-- Ten bytes come, four are taken and granted after a delay. -/
theorem flow_delayedGrant :
    ∃ c, run step {} [.received (dataFrame [1, 2, 3, 4, 5, 6, 7, 8, 9, 10]), .recvCalled 4,
      .slept 0, .posted 0, .answered 0 true] = some c ∧ c.results = [[1, 2, 3, 4]] ∧ c.Flow := by
  have hdebt : AllSteps step TakesNoDebt {} [.received (dataFrame [1, 2, 3, 4, 5, 6, 7, 8, 9, 10]),
      .recvCalled 4, .slept 0, .posted 0, .answered 0 true] := by
    refine .cons rfl ⟨by simp, by simp⟩ (.cons rfl ⟨?_, by simp⟩ (.cons rfl ⟨by simp, by simp⟩
      (.cons rfl ⟨by simp, by simp⟩ (.cons rfl ⟨by simp, by simp⟩ trivial))))
    rintro length h
    cases h
    exact Or.inl (by decide)
  exact ⟨_, rfl, rfl, (flow_of_takesNoDebt hdebt rfl (by decide)).1⟩

/-- Of ten bytes four are taken, and then a caller asks for `-5`: the slice has one more
byte, which nobody grants back. -/
theorem credit_lost :
    ∃ c, run step {} [.received (dataFrame [1, 2, 3, 4, 5, 6, 7, 8, 9, 10]), .recvCalled 4,
      .recvCalled (-5)] = some c ∧ c.results = [[1, 2, 3, 4], [5]] ∧ ¬ c.Failing ∧ ¬ c.Flow := by
  refine ⟨_, rfl, rfl, by decide, ?_⟩
  intro hflow
  exact absurd hflow.remaining (by decide)

theorem length_flatten_set {results : List (List UInt8)} {call : ℕ} {data : List UInt8}
    (h : results[call]? = some data) :
    (results.set call []).flatten.length + data.length = results.flatten.length := by
  induction results generalizing call with
  | nil => cases h
  | cons first results ih =>
    cases call with
    | zero =>
      obtain rfl := Option.some.inj h
      simp [Nat.add_comm]
    | succ call =>
      have hrest := ih (show results[call]? = some data from h)
      rw [List.set_cons_succ, List.flatten_cons, List.flatten_cons, List.length_append,
        List.length_append]
      omega

/-- **What a `recv` has taken is lost where its grant raises.** -/
theorem bytes_lost {i call : ℕ} {data : List UInt8} (h : Held c)
    (hi : c.tasks[i]? = some (.requesting (.received call)))
    (hcall : c.results[call]? = some data) (hne : data ≠ []) (hstep : c.step (.erred i) = some c') :
    ¬ Held c' := by
  intro hheld
  simp only [step, hi] at hstep
  cases hstep
  have hlost : (c.results.set call []).flatten ++ c.recvBuffer ++ c.queued = c.payloads :=
    hheld.results
  have hlength := congrArg List.length (hlost.trans h.results.symm)
  have hset := length_flatten_set hcall
  have hpos := List.length_pos_iff.mpr hne
  simp only [List.length_append] at hlength
  omega

end WebProxyCarrier

end Pyrogram
