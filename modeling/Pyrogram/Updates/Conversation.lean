import Pyrogram.Updates.RecoverGaps

/-!
# Conversations

What the server says in the loop for one state, told from the answers alone: which
`pts` each announces, which of them end the loop, and which `pts` has been reached
before each request.  The loop follows this conversation.

## Main definitions

* `announced`, `ends` — what an answer means for the loop.
* `reached` — the `pts` the `n`-th request carries, if the loop gets there.
* `EndsAt` — the answer with which the loop ends.
* `Loop.after` — the loop before its `n`-th request.

## Main results

* `Loop.isSome_run_iff` — the loop ends once it has no next request.
* `Loop.after_of_invariant` — what holds before every request.
* `Loop.Follows.after` — the loop follows the conversation.
* `Loop.exists_after_of_goesOn` — as long as the conversation goes on.
-/

namespace Pyrogram

variable {α : Type}

/-! ### Answers -/

/-- The `pts` an answer announces, if it has one. -/
def announced : Except InvokeError (Answer α) → Option (Option ℤ)
  | .error _ | .ok (.difference (.empty _ _)) => none
  | .ok (.difference (.full _ _ state)) | .ok (.difference (.slice _ _ state)) =>
    some (some state.pts)
  | .ok (.difference (.tooLong pts)) => some (some pts)
  | .ok (.channelDifference (.empty pts)) => some (some pts)
  | .ok (.channelDifference (.tooLong dialogPts)) => some dialogPts
  | .ok (.channelDifference (.difference _ pts _ _)) => some (some pts)

/-- The answer to a request with `pts` is the last one. -/
def ends (pts : ℤ) : Except InvokeError (Answer α) → Bool
  | .error .persistentTimestampOutdated | .error .persistentTimestampInvalid => false
  | .error _ => true
  | .ok (.difference (.empty _ _)) | .ok (.difference (.full _ _ _)) => true
  | .ok (.difference (.slice _ _ state)) => state.pts = pts
  | .ok (.difference (.tooLong _)) => false
  | .ok (.channelDifference (.empty _)) => true
  | .ok (.channelDifference (.tooLong _)) => false
  | .ok (.channelDifference (.difference final _ _ _)) => final

/-! ### Conversations -/

section Conversation

variable (answer : ℕ → ℤ → Except InvokeError (Answer α)) (pts : Option ℤ)

/-- The `pts` reached after `n` answers. -/
def reached : ℕ → Option ℤ
  | 0 => pts
  | n + 1 => (reached n).bind fun p => (announced (answer n p)).getD (some p)

/-- The `n`-th request is made with a `pts`, and its answer is not the last one. -/
def GoesOn (n : ℕ) : Prop := ∃ p, reached answer pts n = some p ∧ ends p (answer n p) = false

/-- The answer to the `n`-th request ends the conversation. -/
def EndsAt (n : ℕ) : Prop :=
  (∀ k < n, GoesOn answer pts k) ∧ ∃ p, reached answer pts n = some p ∧ ends p (answer n p) = true

variable {answer pts}

theorem reached_succ {n : ℕ} {p : ℤ} (h : reached answer pts n = some p) :
    reached answer pts (n + 1) = (announced (answer n p)).getD (some p) := by
  rw [reached, h, Option.bind_some]

/-- A conversation ends once. -/
theorem EndsAt.unique {m n : ℕ} (hm : EndsAt answer pts m) (hn : EndsAt answer pts n) : m = n := by
  have hlt : ∀ {m n : ℕ}, EndsAt answer pts m → EndsAt answer pts n → ¬ m < n := by
    rintro m n ⟨-, p, hp, hends⟩ ⟨hbefore, -⟩ hmn
    obtain ⟨q, hq, hgoes⟩ := hbefore m hmn
    obtain rfl : p = q := Option.some.inj (hp.symm.trans hq)
    rw [hends] at hgoes
    cases hgoes
  exact le_antisymm (not_lt.mp (hlt hn hm)) (not_lt.mp (hlt hm hn))

end Conversation

/-! ### One iteration -/

namespace Loop

/-- The request the loop makes next can be serialized but for a missing `pts`. -/
def HasDate (id : ℤ) (l : Loop α) : Prop := id < zeroChannelId ∨ l.localDate ≠ none

variable {id p : ℤ} {l : Loop α}

@[simp] theorem requests_ask (l : Loop α) : l.ask.requests = l.requests + 1 := rfl

@[simp] theorem localPts_ask (l : Loop α) : l.ask.localPts = l.localPts := rfl

@[simp] theorem localPts_storeStateUpdate : l.storeStateUpdate.localPts = l.localPts := by
  unfold storeStateUpdate
  split <;> rfl

@[simp] theorem localDate_storeStateUpdate : l.storeStateUpdate.localDate = l.localDate := by
  unfold storeStateUpdate
  split <;> rfl

@[simp] theorem requests_storeStateUpdate : l.storeStateUpdate.requests = l.requests := by
  unfold storeStateUpdate
  split <;> rfl

theorem step_again_iff (a : Except InvokeError (Answer α)) :
    (l.step id p a).1 = .again ↔ ends p a = false := by
  rcases a with e | ⟨d⟩ | ⟨d⟩
  · cases e <;> simp [step, ends]
  · cases d with
    | slice newMessages otherUpdates state =>
      by_cases h : state.pts = p <;> simp [step, ends, h]
    | empty | full | tooLong => simp [step, ends]
  · cases d with
    | difference final pts newMessages otherUpdates => cases final <;> simp [step, ends]
    | empty | tooLong => simp [step, ends]

/-- An answer makes the loop reach what it announces. -/
theorem localPts_step (a : Except InvokeError (Answer α)) (hl : l.localPts = some p) :
    (l.step id p a).2.localPts = (announced a).getD (some p) := by
  rcases a with e | ⟨d⟩ | ⟨d⟩
  · cases e <;> simp [step, announced, hl]
  · cases d <;> simp [step, announced, hl, reach, reachPts, deliver]
  · cases d <;> simp [step, announced, reachPts, deliver]

theorem requests_step (a : Except InvokeError (Answer α)) :
    (l.step id p a).2.requests = l.requests := by
  rcases a with e | ⟨d⟩ | ⟨d⟩
  · cases e <;> simp [step]
  · cases d <;> simp [step, reach, reachPts, deliver]
  · cases d <;> simp [step, reachPts, deliver]

theorem HasDate.step (h : l.HasDate id) (a : Except InvokeError (Answer α)) :
    (l.step id p a).2.HasDate id := by
  apply h.imp_right
  intro hdate
  rcases a with e | ⟨d⟩ | ⟨d⟩
  · cases e <;> simpa [Loop.step] using hdate
  · cases d <;> simp [Loop.step, reach, reachPts, deliver, hdate]
  · cases d <;> simp [Loop.step, reachPts, deliver, hdate]

/-- A request that can be serialized is answered. -/
theorem iterate_eq {server : Server α} (hl : l.localPts = some p) (h : l.HasDate id) :
    l.iterate server id =
      l.ask.step id p (server id l.requests p) := by
  have hreq : (Request.ofState id l.localPts l.localDate).isSerializable = true := by
    unfold Request.ofState
    rw [hl]
    split
    · rfl
    · next hid => exact Option.isSome_iff_ne_none.mpr (h.resolve_left hid)
  rw [iterate, if_pos hreq]
  simp [hl]

/-- What the loop goes on after, or ends with, was an answered request. -/
theorem iterate_ne_raised {server : Server α}
    (h : (l.iterate server id).1 = .again ∨ (l.iterate server id).1 = .leave) :
    ∃ p, l.localPts = some p ∧ l.HasDate id := by
  unfold iterate at h
  split at h
  · next hreq =>
    unfold Request.ofState at hreq
    split at hreq
    · next hid =>
      obtain ⟨p, hp⟩ := Option.isSome_iff_exists.mp hreq
      exact ⟨p, hp, Or.inl hid⟩
    · obtain ⟨hpts, hdate⟩ := Bool.and_eq_true_iff.mp hreq
      obtain ⟨p, hp⟩ := Option.isSome_iff_exists.mp hpts
      exact ⟨p, hp, Or.inr (Option.isSome_iff_ne_none.mp hdate)⟩
  · rcases h with h | h <;> cases h

/-! ### The loop -/

/-- The loop before its `n`-th request, if it gets there. -/
def after (server : Server α) (id : ℤ) : ℕ → Loop α → Option (Loop α)
  | 0, l => some l
  | n + 1, l =>
    match l.iterate server id with
    | (.again, l) => after server id n l
    | _ => none

variable {server : Server α}

/-- **The loop ends once it has no next request.** -/
theorem isSome_run_iff (n : ℕ) (l : Loop α) :
    (l.run server id n).isSome ↔ l.after server id n = none := by
  induction n generalizing l with
  | zero => simp [run, after]
  | succ n ih =>
    rw [run, after]
    rcases l.iterate server id with ⟨_ | _ | _, l'⟩
    · exact ih l'
    · simp
    · simp

theorem after_succ (n : ℕ) (l : Loop α) :
    l.after server id (n + 1) = (l.after server id n).bind fun l =>
      if (l.iterate server id).1 = .again then some (l.iterate server id).2 else none := by
  induction n generalizing l with
  | zero =>
    simp only [after, Option.bind_some]
    rcases l.iterate server id with ⟨_ | _ | _, l'⟩ <;> rfl
  | succ n ih =>
    rw [after]
    conv_rhs => rw [after]
    rcases l.iterate server id with ⟨_ | _ | _, l'⟩
    · exact ih l'
    · rfl
    · rfl

/-- An answer that the loop goes on after was not the last one. -/
theorem iterate_again (h : (l.iterate server id).1 = .again) :
    ∃ p, l.localPts = some p ∧ ends p (server id l.requests p) = false ∧
      (l.iterate server id).2 = (l.ask.step id p (server id l.requests p)).2 := by
  obtain ⟨p, hp, hdate⟩ := iterate_ne_raised (Or.inl h)
  have hiter : l.iterate server id = _ := iterate_eq hp hdate
  rw [hiter] at h
  exact ⟨p, hp, (step_again_iff _).mp h, congrArg Prod.snd hiter⟩

/-- **The invariant rule of the loop.**  What every answer preserves that is not the last
one holds before every request. -/
theorem after_of_invariant {I : ℕ → Loop α → Prop} (h : I 0 l)
    (hstep : ∀ n l p, I n l → l.localPts = some p → ends p (server id l.requests p) = false →
      I (n + 1) (l.ask.step id p (server id l.requests p)).2) :
    ∀ {n : ℕ} {l' : Loop α}, l.after server id n = some l' → I n l' := by
  intro n
  induction n with
  | zero =>
    intro l' hl'
    obtain rfl : l = l' := Option.some.inj hl'
    exact h
  | succ n ih =>
    intro l' hl'
    rw [after_succ] at hl'
    obtain ⟨l₁, hl₁, hl'⟩ := Option.bind_eq_some_iff.mp hl'
    split at hl'
    · next hagain =>
      obtain ⟨p, hp, hgoes, hiter⟩ := iterate_again hagain
      obtain rfl := Option.some.inj hl'
      rw [hiter]
      exact hstep n l₁ p (ih hl₁) hp hgoes
    · cases hl'

/-- A loop that returns was left after the answer to one of its requests. -/
theorem exists_after_of_run {fuel : ℕ} {l' : Loop α}
    (h : l.run server id fuel = some (.returned l')) :
    ∃ n l'', l.after server id n = some l'' ∧ l''.iterate server id = (.leave, l') := by
  induction fuel generalizing l with
  | zero => cases h
  | succ fuel ih =>
    rw [run] at h
    split at h
    · next l₁ hl₁ =>
      obtain ⟨n, l'', hn, hleave⟩ := ih h
      refine ⟨n + 1, l'', ?_, hleave⟩
      rw [after, hl₁]
      exact hn
    · next l₁ hl₁ =>
      obtain rfl : l₁ = l' := Outcome.returned.inj (Option.some.inj h)
      exact ⟨0, l, rfl, hl₁⟩
    · cases h

/-! ### The loop follows the conversation -/

/-- The loop is about to make the `n`-th request of a conversation from `pts` on. -/
structure Follows (server : Server α) (id : ℤ) (pts : Option ℤ) (n : ℕ) (l : Loop α) : Prop where
  requests : l.requests = n
  localPts : l.localPts = reached (server id) pts n
  goesOn : ∀ k < n, GoesOn (server id) pts k

/-- An answered request continues the conversation. -/
theorem Follows.step {pts : Option ℤ} {n : ℕ} (h : l.Follows server id pts n)
    (hl : l.localPts = some p) (hgoes : ends p (server id n p) = false) :
    (l.ask.step id p (server id n p)).2.Follows server id pts (n + 1) := by
  have hreached : reached (server id) pts n = some p := h.localPts.symm.trans hl
  refine ⟨?_, ?_, ?_⟩
  · rw [requests_step, requests_ask, h.requests]
  · rw [localPts_step _ (l.localPts_ask.trans hl), reached_succ hreached]
  · intro k hk
    rcases Nat.lt_succ_iff_lt_or_eq.mp hk with hk | rfl
    · exact h.goesOn k hk
    · exact ⟨p, hreached, hgoes⟩

/-- **The loop follows the conversation.** -/
theorem Follows.after {pts : Option ℤ} (h : l.Follows server id pts 0) :
    ∀ {n : ℕ} {l' : Loop α}, l.after server id n = some l' → l'.Follows server id pts n := by
  apply after_of_invariant h
  intro n l₁ q h₁ hq hgoes
  rw [h₁.requests] at hgoes ⊢
  exact h₁.step hq hgoes

/-- **The loop makes its next request as long as the conversation goes on.** -/
theorem exists_after_of_goesOn {pts : Option ℤ} (h : l.Follows server id pts 0)
    (hdate : l.HasDate id) :
    ∀ {n : ℕ}, (∀ k < n, GoesOn (server id) pts k) →
      ∃ l', l.after server id n = some l' ∧ l'.HasDate id := by
  intro n
  induction n with
  | zero => exact fun _ => ⟨l, rfl, hdate⟩
  | succ n ih =>
    intro hgoes
    obtain ⟨l', hl', hdate'⟩ := ih fun k hk => hgoes k (Nat.lt_succ_of_lt hk)
    have h' := h.after hl'
    obtain ⟨p, hp, hends⟩ := hgoes n (Nat.lt_succ_self n)
    have hl'p : l'.localPts = some p := h'.localPts.trans hp
    have hask : l'.ask.HasDate id := hdate'
    have hiter : l'.iterate server id = _ := iterate_eq hl'p hdate'
    rw [h'.requests] at hiter
    rw [after_succ, hl', Option.bind_some, hiter, if_pos ((step_again_iff _).mpr hends)]
    exact ⟨_, rfl, hask.step _⟩

theorem follows_start (r : Recovery α) (s : UpdateState) :
    (start r s).Follows server s.id s.pts 0 := ⟨rfl, rfl, fun _ hk => absurd hk (Nat.not_lt_zero _)⟩

end Loop

end Pyrogram
