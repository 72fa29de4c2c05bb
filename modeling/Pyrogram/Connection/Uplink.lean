import Pyrogram.Connection.Http
import Pyrogram.Runs

/-!
# The requests of the WEB carrier

The tasks of `WebProxyCarrier` that send frames (`send`, the WINDOW grants, the PONGs)
post them one after the other, each under the next number, over one connection; the
poll loop has a connection of its own.  Any task may be cancelled at any await, and reading
a response may raise what only the poll loop catches.

The runs here end where the carrier has recorded a failure, or `close` begins.

## Main definitions

* `Carrier` — the two connections, the lock of the posts and their numbers.
* `Carrier.step` — one task runs to its next await.
* `Carrier.KeepsResponses` — each response is that of the request it is returned for, and
  the numbers that reach the relay have no gap.
* `Carrier.LosesNoPost` — no post is cancelled on its way, nor is its response left unread.

## Main results

* `Carrier.keepsResponses_of_losesNoPost` — **responses and numbers are kept** in every
  run in which no post is lost so.
* `Carrier.exists_run_of_losesPost` — any post that is lost so may be the end of that.
-/

namespace Pyrogram

structure Carrier where
  /-- `_up` -/
  up : HttpConnection := {}
  /-- `_down` -/
  down : HttpConnection := {}
  upSeq : ℕ := 0
  /-- `_up_send_lock` is held. -/
  upSendLocked : Bool := false
  /-- How many tasks wait for it. -/
  waiting : ℕ := 0
  /-- The poll loop has not been cancelled, and no request of it has raised. -/
  polling : Bool := true
  /-- `_fail_exc` is set. -/
  failed : Bool := false
  /-- How many calls of `request` there were. -/
  calls : ℕ := 0
  /-- The calls that returned: what was requested, and what the response answers. -/
  returned : List (HttpRequest × HttpRequest) := []
  deriving DecidableEq, Repr

namespace Carrier

open Runs

inductive Event
  /-- A task calls `_send_frames`. -/
  | sendFrames
  /-- `_up_send_lock` is given to the task that has waited longest. -/
  | granted
  /-- A task is cancelled that waits for it. -/
  | cancelledWaiting
  /-- On `_up`; a response that is read may not be `ok`. -/
  | up (e : HttpConnection.Event) (ok : Bool)
  /-- The poll loop goes round. -/
  | poll
  /-- On `_down`; a response that is read may not be `ok`. -/
  | down (e : HttpConnection.Event) (ok : Bool)
  /-- `_fail` is called for any other reason. -/
  | fail
  deriving DecidableEq, Repr

/-- `_send_frames` with `_up_send_lock` at hand. -/
def post (c : Carrier) : Carrier :=
  { c with
    upSendLocked := true
    upSeq := c.upSeq + 1
    calls := c.calls + 1
    up := c.up.call ⟨c.calls, some c.upSeq⟩ }

/-- What becomes of the post whose request has run on. -/
def posted (c : Carrier) (ok : Bool) : HttpConnection.Outcome → Carrier
  | .pending => c
  | .returned request answer =>
      { c with returned := c.returned ++ [(request, answer)], upSendLocked := false, failed := !ok }
  | .raised => { c with upSendLocked := false, failed := true }
  -- `_send_frames` calls `_fail` for a `WebCarrierError` only
  | .erred => { c with upSendLocked := false }
  | .cancelled => { c with upSendLocked := false }

/-- What becomes of the poll whose request has run on. -/
def polled (c : Carrier) (ok : Bool) : HttpConnection.Outcome → Carrier
  | .pending => c
  | .returned request answer =>
      { c with returned := c.returned ++ [(request, answer)], failed := !ok }
  | .raised | .erred => { c with failed := true, polling := false }
  | .cancelled => { c with polling := false }

def step (c : Carrier) (e : Event) : Option Carrier :=
  if c.failed then none
  else
    match e with
    | .sendFrames =>
        some (if c.upSendLocked = false ∧ c.waiting = 0 then c.post
          else { c with waiting := c.waiting + 1 })
    | .granted =>
        if c.upSendLocked = false ∧ 0 < c.waiting then
          some (post { c with waiting := c.waiting - 1 })
        else none
    | .cancelledWaiting => if 0 < c.waiting then some { c with waiting := c.waiting - 1 } else none
    | .up e ok => (c.up.step e).map fun (up, outcome) => posted { c with up := up } ok outcome
    | .poll =>
        if c.polling ∧ c.down.holder = none ∧ c.down.waiters = [] then
          some { c with calls := c.calls + 1, down := c.down.call ⟨c.calls, none⟩ }
        else none
    | .down e ok =>
        (c.down.step e).map fun (down, outcome) => polled { c with down := down } ok outcome
    | .fail => some { c with failed := true }

/-! ### What is claimed of a run -/

/-- The number reached the relay. -/
def Reached (c : Carrier) (n : ℕ) : Prop := ∃ r ∈ c.up.received, r.seq = some n

/-- Each response is that of its request, and the numbers that reached the relay have no gap. -/
structure KeepsResponses (c : Carrier) : Prop where
  paired : ∀ p ∈ c.returned, p.2 = p.1
  noGap : ∀ m n, m < n → c.Reached n → c.Reached m

/-- No post is cancelled on its way: with the number taken, unless the request has reached
the relay and its connection is gone.  Nor does it end within its response, on a connection that is
kept. -/
def LosesNoPost (c : Carrier) (e : Event) (_ : Carrier) : Prop :=
  match e with
  | .up .cancelled _ =>
      ∀ call, c.up.holder = some call → call.request ∈ c.up.received ∧
      c.up.LeavesNoResponse .cancelled
  | .up (.cancelledWaiting k) _ => ∀ r, c.up.waiters[k]? = some r → r ∈ c.up.received
  | .up (.erred whole) _ => c.up.LeavesNoResponse (.erred whole)
  | _ => True

/-! ### The invariant -/

/-- The posts: one at a time is under way, and the numbers below its own have reached the
relay. -/
structure Posting (c : Carrier) : Prop where
  /-- Nothing waits for the connection of the posts. -/
  noWaiters : c.up.waiters = []
  locked : c.upSendLocked = true ↔ ∃ call, c.up.holder = some call
  last : ∀ call, c.up.holder = some call → ∃ n, call.request.seq = some n ∧ n + 1 = c.upSeq
  reached : ∀ n < c.upSeq, c.Reached n ∨ ∃ call, c.up.holder = some call ∧ call.request.seq = some n
  taken : ∀ r ∈ c.up.requests, ∀ n, r.seq = some n → n < c.upSeq
  /-- The number under way is that of no other request. -/
  unique : ∀ call, c.up.holder = some call → ∀ r ∈ c.up.requests, r.seq = call.request.seq →
    r = call.request

structure Invariant (c : Carrier) : Prop where
  upInStep : c.up.InStep
  answers : c.up.Answers
  downWaiters : c.down.waiters = []
  /-- Once the poll loop is cancelled its connection is not used any more. -/
  downInStep : c.polling = true → c.down.InStep
  downIdle : c.polling = false → c.down.holder = none
  paired : ∀ p ∈ c.returned, p.2 = p.1
  posting : c.failed = false → c.Posting

/-- Only the connection of the posts, its lock and the numbers matter. -/
theorem Posting.of_eq {c c' : Carrier} (h : c.Posting) (hup : c'.up = c.up)
    (hlocked : c'.upSendLocked = c.upSendLocked)
    (hseq : c'.upSeq = c.upSeq) : c'.Posting := by
  refine ⟨?_, ?_, ?_, ?_, ?_, ?_⟩ <;> simp only [Reached, hup, hlocked, hseq]
  · exact h.noWaiters
  · exact h.locked
  · exact h.last
  · exact h.reached
  · exact h.taken
  · exact h.unique

theorem Posting.noGap {c : Carrier} (h : c.Posting) (m n : ℕ) (hmn : m < n) (hn : c.Reached n) :
    c.Reached m := by
  obtain ⟨r, hr, hseq⟩ := hn
  have hlt := h.taken r (c.up.received_mem hr) n hseq
  rcases h.reached m (Nat.lt_trans hmn hlt) with hm | ⟨call, hcall, hm⟩
  · exact hm
  · -- the number under way is the last
    obtain ⟨k, hk, hlast⟩ := h.last call hcall
    obtain rfl : m = k := Option.some.inj (hm.symm.trans hk)
    omega

theorem Invariant.keepsResponses {c : Carrier} (h : c.Invariant) (hf : c.failed = false) :
    c.KeepsResponses :=
  ⟨h.paired, (h.posting hf).noGap⟩

/-! ### Steps -/

/-- A post is called: nothing is under way, and the number is new. -/
theorem posting_post {c : Carrier} (h : c.Posting) (hfree : c.upSendLocked = false) :
    c.post.Posting := by
  have hholder : c.up.holder = none := by
    cases hc : c.up.holder with
    | none => rfl
    | some call => cases hfree.symm.trans (h.locked.mpr ⟨call, hc⟩)
  have hcall : c.up.call ⟨c.calls, some c.upSeq⟩ = c.up.attempt ⟨c.calls, some c.upSeq⟩ 0 :=
    if_pos ⟨hholder, h.noWaiters⟩
  have hunder : ∃ stage, (c.up.attempt ⟨c.calls, some c.upSeq⟩ 0).holder =
      some ⟨⟨c.calls, some c.upSeq⟩, 0, stage⟩ := by
    rcases c.up.attempt_cases ⟨c.calls, some c.upSeq⟩ 0 with ⟨s, -, -, he⟩ | ⟨-, he⟩ <;> rw [he] <;>
      exact ⟨_, rfl⟩
  -- the connection takes the request up at once, on its old socket or a new one
  obtain ⟨stage, hstage⟩ := hunder
  have hup : c.post.up = c.up.attempt ⟨c.calls, some c.upSeq⟩ 0 := hcall
  refine ⟨?_, ?_, ?_, ?_, ?_, ?_⟩
  · rw [hup, HttpConnection.waiters_attempt, h.noWaiters]
  · exact ⟨fun _ => ⟨_, hup ▸ hstage⟩, fun _ => rfl⟩
  · intro call hc
    rw [hup, hstage] at hc
    obtain rfl := Option.some.inj hc
    exact ⟨c.upSeq, rfl, rfl⟩
  · intro n hn
    -- the numbers below are those of before, and the new one is the request's own
    rcases Nat.lt_succ_iff_lt_or_eq.mp hn with hlt | rfl
    · refine .inl ?_
      rcases h.reached n hlt with ⟨r, hr, hseq⟩ | ⟨call, hc, -⟩
      · exact ⟨r, by rwa [hup, HttpConnection.received_attempt], hseq⟩
      · cases hholder.symm.trans hc
    · exact .inr ⟨_, hup ▸ hstage, rfl⟩
  · intro r hr n hseq
    rw [hup] at hr
    rcases HttpConnection.requests_attempt hr with rfl | hr
    · exact Option.some.inj hseq ▸ Nat.lt_succ_self _
    · exact Nat.lt_succ_of_lt (h.taken r hr n hseq)
  · intro call hc r hr hseq
    rw [hup, hstage] at hc
    obtain rfl := Option.some.inj hc
    rw [hup] at hr
    -- one request carries the new number: the others are below it
    rcases HttpConnection.requests_attempt hr with rfl | hr
    · rfl
    · exact absurd (h.taken r hr _ hseq) (Nat.lt_irrefl _)

/-- While the call under way goes on, the holder of the lock is the same call. -/
theorem posting_pending {c : Carrier} (h : c.Posting) {e : HttpConnection.Event}
    {up : HttpConnection}
    (hstep : c.up.step e = some (up, .pending)) : Posting { c with up := up } := by
  have hsame := HttpConnection.holder_step_pending h.noWaiters hstep
  refine ⟨hsame.1, ?_, ?_, ?_, ?_, ?_⟩
  · refine h.locked.trans ⟨?_, ?_⟩
    · rintro ⟨call, hc⟩
      obtain ⟨call', hc', -⟩ := hsame.2.2 call hc
      exact ⟨call', hc'⟩
    · rintro ⟨call', hc'⟩
      obtain ⟨call, hc, -⟩ := hsame.2.1 call' hc'
      exact ⟨call, hc⟩
  · intro call' hc'
    obtain ⟨call, hc, hreq⟩ := hsame.2.1 call' hc'
    rw [hreq]
    exact h.last call hc
  · intro n hn
    rcases h.reached n hn with ⟨r, hr, hseq⟩ | ⟨call, hc, hseq⟩
    · exact .inl ⟨r, HttpConnection.received_step hstep hr, hseq⟩
    · obtain ⟨call', hc', hreq⟩ := hsame.2.2 call hc
      exact .inr ⟨call', hc', hreq ▸ hseq⟩
  · intro r hr n hseq
    exact h.taken r (HttpConnection.requests_step hstep hr) n hseq
  · intro call' hc' r hr hseq
    obtain ⟨call, hc, hreq⟩ := hsame.2.1 call' hc'
    rw [hreq] at hseq ⊢
    exact h.unique call hc r (HttpConnection.requests_step hstep hr) hseq

/-- When the call under way ends, and its number has reached the relay. -/
theorem posting_ended {c : Carrier} (h : c.Posting) {e : HttpConnection.Event} {up : HttpConnection}
    {o : HttpConnection.Outcome}
    (hstep : c.up.step e = some (up, o)) (hnone : up.holder = none) (hwaiters : up.waiters = [])
    (hreached : ∀ call, c.up.holder = some call → call.request ∈ up.received)
    {returned : List (HttpRequest × HttpRequest)} {failed : Bool} :
    Posting { c with up := up, upSendLocked := false, returned := returned, failed := failed } := by
  refine ⟨hwaiters, ?_, ?_, ?_, ?_, fun call hc => nomatch hnone.symm.trans hc⟩
  · simp [hnone]
  · intro call hc
    cases hnone.symm.trans hc
  · intro n hn
    refine .inl ?_
    rcases h.reached n hn with ⟨r, hr, hseq⟩ | ⟨call, hc, hseq⟩
    · exact ⟨r, HttpConnection.received_step hstep hr, hseq⟩
    · exact ⟨call.request, hreached call hc, hseq⟩
  · intro r hr n hseq
    exact h.taken r (HttpConnection.requests_step hstep hr) n hseq

theorem invariant_post {c : Carrier} (h : c.Invariant) (hf : c.failed = false)
    (hfree : c.upSendLocked = false) (w : ℕ) :
    (post { c with waiting := w }).Invariant := by
  have hposting := h.posting hf
  have hholder : c.up.holder = none := by
    cases hc : c.up.holder with
    | none => rfl
    | some call => cases hfree.symm.trans (hposting.locked.mpr ⟨call, hc⟩)
  have hcall : c.up.call ⟨c.calls, some c.upSeq⟩ = c.up.attempt ⟨c.calls, some c.upSeq⟩ 0 :=
    if_pos ⟨hholder, hposting.noWaiters⟩
  refine ⟨?_, HttpConnection.answers_call h.answers _, h.downWaiters, h.downInStep, h.downIdle,
    h.paired, fun _ => ?_⟩
  · show (c.up.call ⟨c.calls, some c.upSeq⟩).InStep
    rw [hcall]
    exact HttpConnection.inStep_attempt (h.upInStep.idle (by simp [hholder])) _ _
  · have hwaiting : Posting { c with waiting := w } := hposting.of_eq rfl rfl rfl
    exact posting_post hwaiting hfree

/-- The number of tasks that wait for `_up_send_lock` does not matter. -/
theorem invariant_waiting {c : Carrier} (h : c.Invariant) (w : ℕ) :
    Invariant { c with waiting := w } :=
  ⟨h.upInStep, h.answers, h.downWaiters, h.downInStep, h.downIdle, h.paired, fun hf =>
    (h.posting hf).of_eq rfl rfl rfl⟩

/-- One step of the connection of the posts. -/
theorem invariant_up {c : Carrier} (h : c.Invariant) (hf : c.failed = false)
    {e : HttpConnection.Event} {ok : Bool} {up : HttpConnection}
    {o : HttpConnection.Outcome} (hclean : ∀ c', c.LosesNoPost (.up e ok) c')
    (hstep : c.up.step e = some (up, o)) :
    (posted { c with up := up } ok o).Invariant := by
  have hposting := h.posting hf
  -- a post that ends otherwise than by an answer leaves no response behind it
  have hleaves : c.up.LeavesNoResponse e := by
    cases e with
    | cancelled =>
      obtain ⟨-, call, hholder, -⟩ := HttpConnection.step_cancelled hstep
      exact (hclean c call hholder).2
    | erred whole => exact hclean c
    | _ => trivial
  obtain ⟨hin, hpair⟩ := HttpConnection.inStep_step h.upInStep hleaves hstep
  have hanswers := HttpConnection.answers_step h.answers hstep
  cases o with
  | pending =>
    exact ⟨hin, hanswers, h.downWaiters, h.downInStep, h.downIdle, h.paired, fun _ =>
      posting_pending hposting hstep⟩
  | returned r a =>
    obtain ⟨hnone, hwaiters, -⟩ :=
      HttpConnection.holder_step_ended hposting.noWaiters hstep (fun h => nomatch h)
    obtain rfl := hpair r a rfl
    refine ⟨hin, hanswers, h.downWaiters, h.downInStep, h.downIdle, ?_, fun _ => ?_⟩
    · intro p hp
      rcases List.mem_append.mp hp with hp | hp
      · exact h.paired p hp
      · obtain rfl := List.mem_singleton.mp hp
        rfl
    -- the next number may be used: what was posted has reached the other end
    · refine posting_ended hposting hstep hnone hwaiters ?_
      intro call hc
      rw [HttpConnection.holder_of_returned hstep hc]
      exact HttpConnection.received_of_returned h.answers hstep
  | raised => exact ⟨hin, hanswers, h.downWaiters, h.downInStep, h.downIdle, h.paired, fun hf =>
      nomatch hf⟩
  | erred =>
    obtain ⟨hnone, hwaiters, -⟩ :=
      HttpConnection.holder_step_ended hposting.noWaiters hstep (fun h => nomatch h)
    refine ⟨hin, hanswers, h.downWaiters, h.downInStep, h.downIdle, h.paired, fun _ => ?_⟩
    refine posting_ended hposting hstep hnone hwaiters ?_
    intro call hc
    exact HttpConnection.received_of_erred h.upInStep h.answers hstep hc
  | cancelled =>
    obtain ⟨hnone, hwaiters, -⟩ :=
      HttpConnection.holder_step_ended hposting.noWaiters hstep (fun h => nomatch h)
    refine ⟨hin, hanswers, h.downWaiters, h.downInStep, h.downIdle, h.paired, fun _ => ?_⟩
    refine posting_ended hposting hstep hnone hwaiters ?_
    intro call hc
    refine HttpConnection.received_step hstep ?_
    rcases HttpConnection.eq_of_cancelled hstep with rfl | ⟨k, rfl⟩
    · exact (hclean c call hc).1
    · -- nothing waits for the connection
      have hk := (HttpConnection.step_cancelledWaiting hstep).2.1
      rw [hposting.noWaiters] at hk
      exact absurd hk (Nat.not_lt_zero k)

/-- One step of the connection of the poll loop, which is the only one to call it. -/
theorem invariant_down {c : Carrier} (h : c.Invariant) (hf : c.failed = false)
    {e : HttpConnection.Event} {ok : Bool}
    {down : HttpConnection} {o : HttpConnection.Outcome} (hstep : c.down.step e = some (down, o)) :
    (polled { c with down := down } ok o).Invariant := by
  have hposting := h.posting hf
  by_cases ho : o = .cancelled
  · -- the poll loop is over, and its connection idle
    subst ho
    obtain ⟨hnone, hwaiters, -⟩ :=
      HttpConnection.holder_step_ended h.downWaiters hstep (fun h => nomatch h)
    exact ⟨h.upInStep, h.answers, hwaiters, fun hp => (nomatch hp), fun _ => hnone, h.paired,
      fun _ => hposting.of_eq rfl rfl rfl⟩
  by_cases herred : o = .erred
  · -- the poll loop records a failure
    subst herred
    obtain ⟨hnone, hwaiters, -⟩ :=
      HttpConnection.holder_step_ended h.downWaiters hstep (fun h => nomatch h)
    exact ⟨h.upInStep, h.answers, hwaiters, fun hp => (nomatch hp), fun _ => hnone, h.paired,
      fun hf => nomatch hf⟩
  · have hleaves : c.down.LeavesNoResponse e := by
      cases e with
      | cancelled => exact absurd (HttpConnection.step_cancelled hstep).1 ho
      | erred whole =>
        obtain ⟨r, n, s, answer, unread, -, -, -, ho', -⟩ := HttpConnection.step_erred hstep
        exact absurd ho' herred
      | _ => trivial
    have hin := fun hp => HttpConnection.inStep_step (h.downInStep hp) hleaves hstep
    cases o with
    | pending =>
      have hsame := HttpConnection.holder_step_pending h.downWaiters hstep
      refine ⟨h.upInStep, h.answers, hsame.1, fun hp => (hin hp).1, fun hp => ?_, h.paired,
        fun _ => hposting.of_eq rfl rfl rfl⟩
      cases hd : down.holder with
      | none => exact hd
      | some call =>
        obtain ⟨call', hcall', -⟩ := hsame.2.1 call hd
        cases (h.downIdle hp).symm.trans hcall'
    | returned r a =>
      obtain ⟨hnone, hwaiters, call, hcall⟩ :=
        HttpConnection.holder_step_ended h.downWaiters hstep (fun h => nomatch h)
      have hp : c.polling = true := by
        cases hp : c.polling with
        | true => rfl
        | false => cases (h.downIdle hp).symm.trans hcall
      obtain rfl := (hin hp).2 r a rfl
      refine ⟨h.upInStep, h.answers, hwaiters, fun _ => (hin hp).1, fun _ => hnone, ?_, fun _ =>
        hposting.of_eq rfl rfl rfl⟩
      intro p hp
      rcases List.mem_append.mp hp with hp | hp
      · exact h.paired p hp
      · obtain rfl := List.mem_singleton.mp hp
        rfl
    | raised =>
      obtain ⟨hnone, hwaiters, -⟩ :=
        HttpConnection.holder_step_ended h.downWaiters hstep (fun h => nomatch h)
      exact ⟨h.upInStep, h.answers, hwaiters, fun hp => (nomatch hp), fun _ => hnone, h.paired,
        fun hf => nomatch hf⟩
    | erred => exact absurd rfl herred
    | cancelled => exact absurd rfl ho

/-- **A step keeps the invariant** where no post is lost on its way. -/
theorem invariant_step (c : Carrier) (e : Event) (c' : Carrier) (h : c.Invariant)
    (hclean : c.LosesNoPost e c')
    (hstep : c.step e = some c') : c'.Invariant := by
  unfold step at hstep
  split at hstep
  · cases hstep
  · next hf =>
    have hf : c.failed = false := by simpa using hf
    cases e with
    | sendFrames =>
      obtain rfl := Option.some.inj hstep
      split
      -- the lock is free: the frames are posted at once
      · next hfree => exact invariant_post h hf hfree.1 c.waiting
      · exact invariant_waiting h _
    | granted =>
      simp only at hstep
      split at hstep
      -- the lock passes to the first that waits for it
      · next hfree =>
        obtain rfl := Option.some.inj hstep
        exact invariant_post h hf hfree.1 _
      · cases hstep
    | cancelledWaiting =>
      simp only at hstep
      split at hstep
      · obtain rfl := Option.some.inj hstep
        exact invariant_waiting h _
      · cases hstep
    | up e ok =>
      obtain ⟨⟨up, o⟩, hup, rfl⟩ := Option.map_eq_some_iff.mp hstep
      exact invariant_up h hf (fun _ => hclean) hup
    | poll =>
      simp only at hstep
      split at hstep
      -- a poll begins on an idle connection
      · next hpoll =>
        obtain rfl := Option.some.inj hstep
        obtain ⟨hpolling, hholder, hwaiters⟩ := hpoll
        have hcall : c.down.call ⟨c.calls, none⟩ = c.down.attempt ⟨c.calls, none⟩ 0 :=
          if_pos ⟨hholder, hwaiters⟩
        refine ⟨h.upInStep, h.answers, ?_, fun _ => ?_, fun hp => ?_, h.paired, fun hf =>
          (h.posting hf).of_eq rfl rfl rfl⟩
        · show (c.down.call ⟨c.calls, none⟩).waiters = []
          rw [hcall, HttpConnection.waiters_attempt, hwaiters]
        · show (c.down.call ⟨c.calls, none⟩).InStep
          rw [hcall]
          exact HttpConnection.inStep_attempt ((h.downInStep hpolling).idle (by simp [hholder])) _ _
        · cases hpolling.symm.trans hp
      · cases hstep
    | down e ok =>
      obtain ⟨⟨down, o⟩, hdown, rfl⟩ := Option.map_eq_some_iff.mp hstep
      exact invariant_down h hf hdown
    | fail =>
      obtain rfl := Option.some.inj hstep
      exact ⟨h.upInStep, h.answers, h.downWaiters, h.downInStep, h.downIdle, h.paired, fun hf =>
        nomatch hf⟩

/-- Before anything is sent. -/
theorem invariant_init : Invariant {} := by
  have hin : HttpConnection.InStep {} := ⟨fun _ _ h => (nomatch h), fun _ _ h => (nomatch h)⟩
  refine ⟨hin, fun _ h => (nomatch h), rfl, fun _ => hin, fun _ => rfl, fun _ h => (nomatch h),
    fun _ => ⟨rfl, ?_, ?_, ?_, ?_, ?_⟩⟩
  · constructor
    · exact fun h => nomatch h
    · rintro ⟨_, h⟩
      cases h
  · exact fun _ h => nomatch h
  · exact fun n h => absurd h (Nat.not_lt_zero n)
  · exact fun r h => nomatch h
  · exact fun _ h => nomatch h

theorem invariant_run {es : List Event} {c : Carrier} (hclean : AllSteps step LosesNoPost {} es)
    (hrun : run step {} es = some c) :
    c.Invariant := by
  refine run_of_invariant_of_allSteps ?_ invariant_init hclean hrun
  intro c e c' h hP hstep
  exact invariant_step c e c' h hP hstep

/-- **Responses and numbers are kept** in every run in which no post is cancelled on its
way or leaves its response unread. -/
theorem keepsResponses_of_losesNoPost (es : List Event) (c : Carrier)
    (hclean : AllSteps step LosesNoPost {} es)
    (hrun : run step {} es = some c) (hf : c.failed = false) : c.KeepsResponses :=
  (invariant_run hclean hrun).keepsResponses hf

/-- A post is cancelled whose request has arrived over a connection that is gone; then another
is made. -/
def postedAgain : List Event :=
  [.sendFrames, .up .connected true, .up .received true, .up .lost true, .up .cancelled true,
    .sendFrames, .up .connected true, .up .received true, .up (.answered false) true]

theorem keepsResponses_of_losesNoPost_postedAgain : ∃ c, run step {} postedAgain = some c ∧
    c.KeepsResponses := by
  refine ⟨_, rfl, keepsResponses_of_losesNoPost postedAgain _ ?_ rfl rfl⟩
  refine .cons rfl trivial
    (.cons rfl trivial (.cons rfl trivial (.cons rfl trivial (.cons rfl ?_ ?_))))
  · rintro _ ⟨⟩
    refine ⟨List.mem_cons_self, ?_⟩
    rintro r n ⟨⟩ s ⟨⟩
    rfl
  · exact .cons rfl trivial (.cons rfl trivial (.cons rfl trivial (.cons rfl trivial trivial)))

/-- A post that is cancelled leaves its response to the next one, or its number is passed over; one
whose response cannot be read leaves the rest of it. -/
theorem not_keepsResponses_of_cancelled :
    (∃ c, run step {} [.sendFrames, .up .connected true, .up .cancelled true,
        .sendFrames, .up .received true, .up (.answered false) true] = some c ∧
      c.failed = false ∧ c.returned = [(⟨1, some 1⟩, ⟨0, some 0⟩)] ∧ ¬ c.KeepsResponses) ∧
    (∃ c, run step {} [.sendFrames, .up .connected true, .up .received true,
      .up (.erred false) true,
        .sendFrames, .up (.answered false) true] = some c ∧
      c.failed = false ∧ c.returned = [(⟨1, some 1⟩, ⟨0, some 0⟩)] ∧ ¬ c.KeepsResponses) ∧
    ∃ c, run step {} [.sendFrames, .up .cancelled true,
        .sendFrames, .up .connected true, .up .received true] = some c ∧
      c.failed = false ∧ c.Reached 1 ∧ ¬ c.Reached 0 ∧ ¬ c.KeepsResponses := by
  refine ⟨⟨_, rfl, rfl, rfl, ?_⟩, ⟨_, rfl, rfl, rfl, ?_⟩, ⟨_, rfl, rfl, ?_, ?_, ?_⟩⟩
  · intro h
    cases h.paired _ List.mem_cons_self
  · intro h
    cases h.paired _ List.mem_cons_self
  · exact ⟨_, List.mem_cons_self, rfl⟩
  · rintro ⟨r, hr, hseq⟩
    obtain rfl := List.mem_singleton.mp hr
    cases hseq
  · intro h
    obtain ⟨r, hr, hseq⟩ := h.noGap 0 1 Nat.zero_lt_one ⟨_, List.mem_cons_self, rfl⟩
    obtain rfl := List.mem_singleton.mp hr
    cases hseq

/-! ### A post that is cancelled on its way -/

/-- No post is under way. -/
structure Idle (c : Carrier) : Prop where
  failed : c.failed = false
  free : c.upSendLocked = false
  holder : c.up.holder = none
  waiters : c.up.waiters = []

/-- A task posts as soon as the lock is free. -/
theorem Idle.exists_step {c : Carrier} (h : c.Idle) : ∃ e w, c.step e =
    some { c with
      waiting := w, upSendLocked := true, upSeq := c.upSeq + 1, calls := c.calls + 1,
      up := c.up.attempt ⟨c.calls, some c.upSeq⟩ 0 } := by
  have hcall : c.up.call ⟨c.calls, some c.upSeq⟩ = c.up.attempt ⟨c.calls, some c.upSeq⟩ 0 :=
    if_pos ⟨h.holder, h.waiters⟩
  by_cases hw : c.waiting = 0
  · exact ⟨.sendFrames, c.waiting, by simp [step, post, h.failed, h.free, hw, hcall]⟩
  · exact ⟨.granted, c.waiting - 1, by simp [step, post, h.failed, h.free, Nat.pos_of_ne_zero hw,
      hcall]⟩

theorem step_up {c : Carrier} {e : HttpConnection.Event} {up : HttpConnection}
    {o : HttpConnection.Outcome} (ok : Bool)
    (hf : c.failed = false) (hup : c.up.step e = some (up, o)) :
    c.step (.up e ok) = some (posted { c with up := up } ok o) := by
  simp [step, hf, hup]

/-- The connection of the posts may be lost at any time. -/
theorem exists_run_lost {c : Carrier} (hf : c.failed = false) : ∃ es socket,
    run step c es = some { c with up := { c.up with socket := socket } } ∧ ∀ s, socket = some s →
      s.usable = false := by
  cases hs : c.up.socket with
  | none => exact ⟨[], none, by rw [← hs]; rfl, fun s h => nomatch h⟩
  | some s =>
    refine ⟨[.up .lost true], some { s with usable := false }, ?_, ?_⟩
    · have hlost : c.up.step .lost = some ({ c.up with socket := some { s with usable := false } },
          .pending) := by
        simp [HttpConnection.step, hs]
      rw [run_cons, step_up true hf hlost]
      rfl
    · rintro _ ⟨⟩
      rfl

/-- The next post may be the next that the relay receives. -/
theorem Idle.exists_run_received {c : Carrier} (h : c.Idle) : ∃ es c', run step c es = some c' ∧
    c'.failed = false ∧
    ∃ id, c'.up.received = c.up.received ++ [⟨id, some c.upSeq⟩] := by
  obtain ⟨es, socket, hlost, hgone⟩ := exists_run_lost h.failed
  have hidle : Idle { c with up := { c.up with socket := socket } } :=
    ⟨h.failed, h.free, h.holder, h.waiters⟩
  obtain ⟨e, w, hpost⟩ := hidle.exists_step
  -- the connection is gone, and the post opens another
  rcases HttpConnection.attempt_cases { c.up with socket := socket } ⟨c.calls, some c.upSeq⟩
    0 with ⟨s, hs, hu, -⟩ | ⟨-, he⟩
  · cases (hgone s hs).symm.trans hu
  · refine ⟨es ++ [e, .up .connected true, .up .received true], ?_⟩
    rw [run_append, hlost, Option.bind_some, run_cons, hpost, Option.bind_some, he]
    simp [run, step, HttpConnection.step, posted, h.failed]

/-- The next post may be answered with a response that is still to come. -/
theorem Idle.exists_run_answered {c : Carrier} (h : c.Idle) {s : HttpConnection.Socket}
    {r : HttpRequest}
    (hs : c.up.socket = some s) (hu : s.usable = true) (ho : s.outstanding = [r]) :
    ∃ es c', run step c es = some c' ∧ c'.failed = false ∧
      ∃ id, (⟨id, some c.upSeq⟩, r) ∈ c'.returned := by
  obtain ⟨e, w, hpost⟩ := h.exists_step
  rcases c.up.attempt_cases ⟨c.calls, some c.upSeq⟩ 0 with ⟨s', hs', -, he⟩ | ⟨hgone, -⟩
  · obtain rfl := Option.some.inj (hs.symm.trans hs')
    rw [he] at hpost
    -- the response has been sent, or the relay sends it now
    rcases List.append_eq_singleton_iff.mp ho with ⟨hunread, hwritten⟩ | ⟨hunread, hwritten⟩
    · refine ⟨[e, .up .received true, .up (.answered false) true], ?_⟩
      rw [run_cons, hpost, Option.bind_some]
      simp [run, step, HttpConnection.step, HttpConnection.release, posted, h.failed, hunread,
        hwritten]
    · refine ⟨[e, .up (.answered false) true], ?_⟩
      rw [run_cons, hpost, Option.bind_some]
      simp [run, step, HttpConnection.step, HttpConnection.release, posted, h.failed, hunread]
  · cases (hgone s hs).symm.trans hu

/-- What a post that is cancelled on its way may lead to. -/
theorem Invariant.exists_run_of_cancelled {c c' : Carrier} {ok : Bool} (h : c.Invariant)
    (hf : c.failed = false)
    (hstep : c.step (.up .cancelled ok) = some c')
    (hloses : ¬ c.LosesNoPost (.up .cancelled ok) c') :
    ∃ es t, run step c' es = some t ∧ t.failed = false ∧ ¬ t.KeepsResponses := by
  have hposting := h.posting hf
  obtain ⟨call, hcall⟩ : ∃ call, c.up.holder = some call := by
    by_contra hnone
    exact hloses fun call hcall => absurd ⟨call, hcall⟩ hnone
  obtain ⟨n, hseq, hlast⟩ := hposting.last call hcall
  have hcancelled : c.up.step .cancelled = some (c.up.release, .cancelled) := by
    simp [HttpConnection.step, hcall]
  obtain rfl : _ = c' := Option.some.inj ((step_up ok hf hcancelled).symm.trans hstep)
  have hidle : (posted { c with up := c.up.release } ok .cancelled).Idle :=
    ⟨hf, rfl, rfl, hposting.noWaiters⟩
  by_cases hmem : call.request ∈ c.up.received
  · -- its response is left for the next post
    obtain ⟨r, k, s, hholder, hs, hu⟩ : ∃ r k s, c.up.holder = some ⟨r, k, .exchanging⟩ ∧
        c.up.socket = some s ∧ s.usable = true := by
      by_contra hnone
      refine hloses ?_
      intro call' hcall'
      obtain rfl := Option.some.inj (hcall.symm.trans hcall')
      refine ⟨hmem, fun r k hholder s hs => ?_⟩
      by_contra hu
      exact hnone ⟨r, k, s, hholder, hs, by simpa using hu⟩
    obtain rfl := Option.some.inj (hcall.symm.trans hholder)
    obtain ⟨s', hs', hout⟩ := h.upInStep.1 r k hholder
    obtain rfl := Option.some.inj (hs.symm.trans hs')
    obtain ⟨es, t, hrun, hft, id, hreturned⟩ := hidle.exists_run_answered hs hu hout
    refine ⟨es, t, hrun, hft, fun hkeeps => ?_⟩
    obtain rfl : r = ⟨id, some c.upSeq⟩ := hkeeps.paired _ hreturned
    obtain rfl := Option.some.inj hseq
    omega
  · -- its number is passed over
    obtain ⟨es, t, hrun, hft, id, hreceived⟩ := hidle.exists_run_received
    refine ⟨es, t, hrun, hft, fun hkeeps => ?_⟩
    have hnext : t.Reached c.upSeq :=
      ⟨_, hreceived ▸ List.mem_append_right _ List.mem_cons_self, rfl⟩
    obtain ⟨r, hr, hrseq⟩ := hkeeps.noGap n c.upSeq (by omega) hnext
    rw [hreceived] at hr
    rcases List.mem_append.mp hr with hr | hr
    · obtain rfl := hposting.unique call hcall r (c.up.received_mem hr) (hrseq.trans hseq.symm)
      exact hmem hr
    · obtain rfl := List.mem_singleton.mp hr
      have hn : c.upSeq = n := Option.some.inj hrseq
      omega

/-- What a post may lead to that leaves its response unread. -/
theorem Invariant.exists_run_of_erred {c c' : Carrier} {whole ok : Bool} (h : c.Invariant)
    (hf : c.failed = false)
    (hstep : c.step (.up (.erred whole) ok) = some c')
    (hloses : ¬ c.LosesNoPost (.up (.erred whole) ok) c') :
    ∃ es t, run step c' es = some t ∧ t.failed = false ∧ ¬ t.KeepsResponses := by
  have hposting := h.posting hf
  -- the response is cut short on a connection that can still be read
  obtain ⟨rfl, s, hs, hu⟩ : whole = false ∧ ∃ s, c.up.socket = some s ∧ s.usable = true := by
    cases whole with
    | true => exact absurd (fun hw => nomatch hw) hloses
    | false =>
      refine ⟨rfl, ?_⟩
      by_contra hnone
      refine hloses fun _ s hs => ?_
      by_contra hu
      exact hnone ⟨s, hs, by simpa using hu⟩
  obtain ⟨⟨up, o⟩, hup⟩ : ∃ p, c.up.step (.erred false) = some p := by
    unfold step at hstep
    split at hstep
    · cases hstep
    · obtain ⟨p, hup, -⟩ := Option.map_eq_some_iff.mp hstep
      exact ⟨p, hup⟩
  obtain ⟨r, n, s', answer, unread, hholder, hsocket, -, rfl, rfl⟩ := HttpConnection.step_erred hup
  obtain rfl := Option.some.inj (hs.symm.trans hsocket)
  obtain ⟨s', hs', hout⟩ := h.upInStep.1 r n hholder
  obtain rfl := Option.some.inj (hs.symm.trans hs')
  obtain rfl : _ = c' := Option.some.inj ((step_up ok hf hup).symm.trans hstep)
  have hidle : (posted { c with up := ({ c.up with socket := some s } : HttpConnection).release } ok
      .erred).Idle :=
    ⟨hf, rfl, rfl, hposting.noWaiters⟩
  -- the next post reads what was left of it, under another number
  obtain ⟨k, hseq, hlast⟩ := hposting.last _ hholder
  obtain ⟨es, t, hrun, hft, id, hreturned⟩ := hidle.exists_run_answered rfl hu hout
  refine ⟨es, t, hrun, hft, fun hkeeps => ?_⟩
  obtain rfl : r = ⟨id, some c.upSeq⟩ := hkeeps.paired _ hreturned
  obtain rfl := Option.some.inj hseq
  omega

/-- **Any post that is lost on its way may be the end of that.** -/
theorem exists_run_of_losesPost {es : List Event} {c c' : Carrier} {e : Event}
    (hclean : AllSteps step LosesNoPost {} es)
    (hrun : run step {} es = some c) (hstep : c.step e = some c') (hloses : ¬ c.LosesNoPost e c') :
    ∃ rest t, run step {} (es ++ e :: rest) = some t ∧ t.failed = false ∧ ¬ t.KeepsResponses := by
  have h := invariant_run hclean hrun
  have hf : c.failed = false := by
    by_contra hf
    simp [step, hf] at hstep
  have hrest : ∃ rest t, run step c' rest = some t ∧ t.failed = false ∧ ¬ t.KeepsResponses := by
    cases e with
    | up e ok =>
      cases e with
      | cancelled => exact h.exists_run_of_cancelled hf hstep hloses
      | cancelledWaiting k =>
        -- nothing waits for the connection of the posts
        refine absurd ?_ hloses
        intro r hr
        rw [(h.posting hf).noWaiters] at hr
        cases hr
      | erred whole => exact h.exists_run_of_erred hf hstep hloses
      | _ => exact absurd trivial hloses
    | _ => exact absurd trivial hloses
  obtain ⟨rest, t, hrest, hft, hkeeps⟩ := hrest
  refine ⟨rest, t, ?_, hft, hkeeps⟩
  rw [run_append, hrun, Option.bind_some, run_cons, hstep]
  exact hrest

end Carrier

end Pyrogram
