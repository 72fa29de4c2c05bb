import Pyrogram.Updates.MissedLog

/-!
# The recovery of one state

The loop of `recover_gaps` for one state, answered from a log, hands over the entries
after the stored `pts` but for those an answer jumped.  The `pts` it stores is the last
one announced, except where a `DifferenceEmpty` follows a `DifferenceSlice`: the state
of the slice, which is stored only after the loop, is then forgotten.

## Main definitions

* `Jumped`, `due` — what the answers of a conversation skipped, and what is left.
* `EmptyAfterSlice` — a conversation that ends in the way described.
* `Recovering` — the invariant of the loop.
* `Recovered` — what the loop has done when it is left.

## Main results

* `Recovering.step`, `Recovering.leave` — one answer, and the last one.
* `recoverState_spec` — the loop for one state.
-/

namespace Pyrogram

open OrderedLog

variable {α : Type}

/-! ### Conversations -/

/-- The last `pts` announced is that of a `DifferenceSlice`, if it was before the answer. -/
def slicePendingAfter (pending : Bool) : Except InvokeError (Answer α) → Bool
  | .ok (.difference (.slice _ _ _)) => true
  | a => (announced a).isNone && pending

section Conversation

variable (answer : ℕ → ℤ → Except InvokeError (Answer α)) (pts : Option ℤ)

/-- One of the first `n` answers jumped over `x`. -/
def Jumped (n : ℕ) (x : ℤ) : Prop :=
  ∃ k < n, ∃ p q, reached answer pts k = some p ∧ jump (answer k p) = some q ∧ p < x ∧ x ≤ q

/-- The `n`-th answer is that the channel is private or invalid. -/
def ClosedAt (n : ℕ) : Prop :=
  ∃ p, reached answer pts n = some p ∧
    (answer n p = .error .channelPrivate ∨ answer n p = .error .channelInvalid)

/-- The last `pts` that the first `n` answers announced is that of a `DifferenceSlice`. -/
def slicePending : ℕ → Bool
  | 0 => false
  | n + 1 => (reached answer pts n).elim false fun p =>
      slicePendingAfter (slicePending n) (answer n p)

/-- The `n`-th answer is a `DifferenceEmpty`, and the last `pts` announced before it is
that of a `DifferenceSlice`. -/
def EmptyAfterSliceAt (n : ℕ) : Prop :=
  (∃ p date seq, reached answer pts n = some p ∧
    answer n p = .ok (.difference (.empty date seq))) ∧ slicePending answer pts n = true

/-- The conversation ends with such an answer. -/
def EmptyAfterSlice : Prop := ∃ n, EndsAt answer pts n ∧ EmptyAfterSliceAt answer pts n

variable {answer pts}

/-- Without a `pts` no request is made. -/
theorem reached_none (n : ℕ) : reached answer none n = none := by
  induction n with
  | zero => rfl
  | succ n ih => rw [reached, ih]; rfl

theorem EmptyAfterSliceAt.not_closedAt {n : ℕ} (h : EmptyAfterSliceAt answer pts n) :
    ¬ ClosedAt answer pts n := by
  rintro ⟨p, hp, hclosed⟩
  obtain ⟨⟨p', date, seq, hp', hempty⟩, -⟩ := h
  obtain rfl : p = p' := Option.some.inj (hp.symm.trans hp')
  rw [hempty] at hclosed
  rcases hclosed with hclosed | hclosed <;> cases hclosed

theorem jumped_succ {n : ℕ} {p : ℤ} (hp : reached answer pts n = some p) {x : ℤ} :
    Jumped answer pts (n + 1) x ↔
      Jumped answer pts n x ∨ ∃ q, jump (answer n p) = some q ∧ p < x ∧ x ≤ q := by
  constructor
  · rintro ⟨k, hk, p', q, hp', hq, hx⟩
    rcases Nat.lt_succ_iff_lt_or_eq.mp hk with hk | rfl
    · exact Or.inl ⟨k, hk, p', q, hp', hq, hx⟩
    · obtain rfl : p' = p := Option.some.inj (hp'.symm.trans hp)
      exact Or.inr ⟨q, hq, hx⟩
  · rintro (⟨k, hk, h⟩ | ⟨q, hq, hx⟩)
    · exact ⟨k, Nat.lt_succ_of_lt hk, h⟩
    · exact ⟨n, Nat.lt_succ_self n, p, q, hp, hq, hx⟩

theorem jumped_succ_of_jump_eq_none {n : ℕ} {p : ℤ} (hp : reached answer pts n = some p)
    (hjump : jump (answer n p) = none) {x : ℤ} :
    Jumped answer pts (n + 1) x ↔ Jumped answer pts n x := by
  simp [jumped_succ hp, hjump]

end Conversation

/-! ### What a loop leaves alone -/

/-- From `r` to `r'`, the calls `es` were made for the state `id` and counted, and no
other state was touched. -/
structure Extends (id : ℤ) (es : List (Enqueued α)) (r r' : Recovery α) : Prop where
  enqueued : r'.enqueued = r.enqueued ++ es.map (id, ·)
  messages : r'.messageUpdatesCounter = r.messageUpdatesCounter + (messagesIn es).length
  others : r'.otherUpdatesCounter = r.otherUpdatesCounter + (updatesIn es).length
  find : ∀ id' ≠ id, r'.updateStates.find id' = r.updateStates.find id'

namespace Extends

variable {id : ℤ} {es fs : List (Enqueued α)} {r r' r'' : Recovery α}

theorem refl (id : ℤ) (r : Recovery α) : Extends id [] r r :=
  ⟨(List.append_nil _).symm, rfl, rfl, fun _ _ => rfl⟩

theorem trans (h : Extends id es r r') (h' : Extends id fs r' r'') :
    Extends id (es ++ fs) r r'' := by
  refine ⟨?_, ?_, ?_, ?_⟩
  · rw [h'.enqueued, h.enqueued, List.append_assoc, ← List.map_append]
  · rw [h'.messages, h.messages, messagesIn_append, List.length_append, Nat.add_assoc]
  · rw [h'.others, h.others, updatesIn_append, List.length_append, Nat.add_assoc]
  · intro id' hid
    rw [h'.find id' hid, h.find id' hid]

theorem store (h : Extends id es r r') {s : UpdateState} (hs : s.id = id) :
    Extends id es r (r'.setUpdateState s) :=
  ⟨h.enqueued, h.messages, h.others, fun id' hid =>
    (UpdateTable.find_setUpdateState_of_ne (hs.trans_ne hid.symm)).trans (h.find id' hid)⟩

theorem delete (h : Extends id es r r') : Extends id es r (r'.deleteUpdateState id) :=
  ⟨h.enqueued, h.messages, h.others, fun id' hid =>
    (UpdateTable.find_deleteUpdateState_of_ne hid).trans (h.find id' hid)⟩

theorem deliver (r : Recovery α) (pts : ℤ) (newMessages : List α)
    (otherUpdates : List (Update α)) :
    Extends id (newMessages.map (.newMessage · pts (-1)) ++ otherUpdates.map .update) r
      (r.deliver id pts newMessages otherUpdates) := by
  refine ⟨?_, ?_, ?_, fun _ _ => rfl⟩
  · simp [Recovery.deliver, List.map_map, Function.comp_def]
  · rw [messagesIn_lists]; rfl
  · rw [updatesIn_lists]; rfl

end Extends

namespace Loop

variable {id p : ℤ} {l : Loop α}

/-- An answer makes the calls it brings, and no more. -/
theorem extends_step (id p : ℤ) (l : Loop α) (a : Except InvokeError (Answer α)) :
    Extends id (delivered a) l.recovery (l.step id p a).2.recovery := by
  have hrefl := Extends.refl id l.recovery
  rcases a with e | ⟨d⟩ | ⟨d⟩
  · cases e with
    | channelPrivate | channelInvalid => exact hrefl.delete
    | persistentTimestampOutdated | persistentTimestampInvalid | timeout | other => exact hrefl
  · cases d with
    | empty => exact hrefl
    | tooLong pts => exact hrefl.store rfl
    | full | slice => exact Extends.deliver _ _ _ _
  · cases d with
    | empty => exact hrefl
    | tooLong dialogPts => exact hrefl.store rfl
    | difference => exact Extends.deliver _ _ _ _

/-- The answers that end the loop without raising. -/
theorem step_leave {a : Except InvokeError (Answer α)} (h : (l.step id p a).1 = .leave) :
    ends p a = true ∧
      ((a = .error .channelPrivate ∨ a = .error .channelInvalid) ∨ ∃ b, a = .ok b) := by
  refine ⟨?_, ?_⟩
  · rw [← Bool.not_eq_false]
    intro hgoes
    rw [(step_again_iff a).mpr hgoes] at h
    cases h
  · cases a with
    | error e => cases e <;> simp_all [step]
    | ok b => exact Or.inr ⟨b, rfl⟩

/-- The last answer leaves its `pts` in `state_update`, to be stored after the loop. -/
theorem stateUpdate_step_of_ends (id : ℤ) (l : Loop α) {b : Answer α}
    (h : ends p (.ok b) = true) :
    ∃ u, (l.step id p (.ok b)).2.stateUpdate = some u ∧ u.id = id ∧
      u.pts = (announced (.ok b)).getD none ∧
      (l.step id p (.ok b)).2.recovery.updateStates = l.recovery.updateStates ∧
      (l.step id p (.ok b)).2.stateDeleted = l.stateDeleted := by
  rcases b with ⟨d⟩ | ⟨d⟩
  · cases d with
    | tooLong => cases h
    | empty | full | slice => exact ⟨_, rfl, rfl, rfl, rfl, rfl⟩
  · cases d with
    | tooLong => cases h
    | empty | difference => exact ⟨_, rfl, rfl, rfl, rfl, rfl⟩

theorem stateDeleted_step_of_goesOn {a : Except InvokeError (Answer α)}
    (h : ends p a = false) : (l.step id p a).2.stateDeleted = l.stateDeleted := by
  rcases a with e | ⟨d⟩ | ⟨d⟩
  · cases e <;> first | rfl | cases h
  · cases d <;> rfl
  · cases d <;> rfl

/-- What is stored for the common box after an answer that asks for another request. -/
theorem stored_step_of_goesOn {log : MissedLog α} {a : Except InvokeError (Answer α)}
    (ha : FromLog log id p a) (hid : ¬ id < zeroChannelId) (h : ends p a = false) :
    (l.step id p a).2.recovery.updateStates.stored UpdateState.pts id =
      (jump a <|> l.recovery.updateStates.stored UpdateState.pts id) := by
  cases ha with
  | error e => cases e <;> first | rfl | cases h
  | tooLong q =>
    refine (UpdateTable.stored_pts_setUpdateState _ _ id).trans ?_
    rw [if_pos rfl]
    rfl
  | slice => rfl
  | channelSlice | channelTooLong => contradiction
  | empty | full | channelEmpty | channelFinal => cases h

/-- A `DifferenceSlice` leaves the stored `pts` behind the one that is reached; any other
answer that announces one has it stored. -/
theorem stored_of_slicePendingAfter {log : MissedLog α} {a : Except InvokeError (Answer α)}
    (ha : FromLog log id p a) (hid : ¬ id < zeroChannelId) (h : ends p a = false) {q : ℤ}
    (hq : (announced a).getD (some p) = some q) {t : Option ℤ} {pending : Bool}
    (ht : if pending = true then ∃ x < p, t = some x else t = some p) :
    if slicePendingAfter pending a = true then ∃ x < q, (jump a <|> t) = some x
    else (jump a <|> t) = some q := by
  cases ha with
  | error e =>
    obtain rfl : p = q := Option.some.inj (by cases e <;> exact hq)
    simpa [slicePendingAfter, announced, jump] using ht
  | slice state _ hlt =>
    obtain rfl : state.pts = q := Option.some.inj hq
    rw [slicePendingAfter, if_pos rfl]
    cases pending with
    | true =>
      obtain ⟨x, hx, rfl⟩ := ht
      exact ⟨x, hx.trans hlt, rfl⟩
    | false => exact ⟨p, hlt, ht⟩
  | tooLong => simpa [slicePendingAfter, announced, jump] using hq
  | channelSlice | channelTooLong => contradiction
  | empty | full | channelEmpty | channelFinal => cases h

end Loop

/-! ### The loop for one state -/

section State

variable (log : MissedLog α) (server : Server α) (r : Recovery α) (s : UpdateState) (p₀ : ℤ)

/-- The entries after the stored `pts` that none of the first `n` answers jumped. -/
noncomputable def due (n : ℕ) : List (Entry α) :=
  log.part s.id fun x => p₀ < x ∧ ¬ Jumped (server s.id) (some p₀) n x

/-- The loop before its `n`-th request has reached `p`: what was due up to there was
handed over, and for the common box `p` is stored, unless a slice brought it. -/
structure Recovering (n : ℕ) (p : ℤ) (l : Loop α) : Prop where
  follows : l.Follows server s.id (some p₀) n
  localPts : l.localPts = some p
  jumped_le : ∀ x, Jumped (server s.id) (some p₀) n x → x ≤ p
  le : p₀ ≤ p
  extends_ : ∃ es, Extends s.id es r l.recovery ∧
    Brings es (log.part s.id fun x =>
      (p₀ < x ∧ ¬ Jumped (server s.id) (some p₀) n x) ∧ x ≤ p)
  stateDeleted : l.stateDeleted = false
  stored : ¬ s.id < zeroChannelId →
    if slicePending (server s.id) (some p₀) n = true then
      ∃ q < p, l.recovery.updateStates.stored UpdateState.pts s.id = some q
    else l.recovery.updateStates.stored UpdateState.pts s.id = some p

variable {log server r s p₀}

theorem Recovering.reached {n : ℕ} {p : ℤ} {l : Loop α} (h : Recovering log server r s p₀ n p l) :
    reached (server s.id) (some p₀) n = some p := h.follows.localPts.symm.trans h.localPts

theorem recovering_start (hs : r.updateStates.find s.id = some s) (hpts : s.pts = some p₀) :
    Recovering log server r s p₀ 0 p₀ (Loop.start r s) where
  follows := ⟨rfl, hpts, fun _ hk => absurd hk (Nat.not_lt_zero _)⟩
  localPts := hpts
  jumped_le := fun _ ⟨_, hk, _⟩ => absurd hk (Nat.not_lt_zero _)
  le := le_rfl
  extends_ := by
    refine ⟨[], Extends.refl s.id r, ?_⟩
    rw [MissedLog.part_eq_nil fun _ h => absurd h.1.1 (not_lt.mpr h.2)]
    exact brings_nil
  stateDeleted := rfl
  stored := fun _ => by
    rw [slicePending, if_neg Bool.false_ne_true]
    show r.updateStates.stored UpdateState.pts s.id = some p₀
    rw [UpdateTable.stored, hs, Option.bind_some, hpts]

/-- No answer has jumped beyond what is reached. -/
theorem Recovering.not_jumped {n : ℕ} {p : ℤ} {l : Loop α} (h : Recovering log server r s p₀ n p l)
    {x : ℤ} (hx : p < x) : ¬ Jumped (server s.id) (some p₀) n x := by
  intro hjumped
  exact absurd (h.jumped_le x hjumped) (not_le.mpr hx)

/-- What an answer brings, or jumps, completes what is due up to the `pts` that is reached
with it. -/
theorem Recovering.brings_upTo {n : ℕ} {p q : ℤ} {l : Loop α}
    (h : Recovering log server r s p₀ n p l) (hle : p ≤ q)
    (hbrings : jump (server s.id n p) = none ∧
        Brings (delivered (server s.id n p)) (log.part s.id fun x => p < x ∧ x ≤ q) ∨
      jump (server s.id n p) = some q ∧ delivered (server s.id n p) = [])
    {es : List (Enqueued α)}
    (hdue : Brings es (log.part s.id fun x =>
      (p₀ < x ∧ ¬ Jumped (server s.id) (some p₀) n x) ∧ x ≤ p)) :
    Brings (es ++ delivered (server s.id n p)) (log.part s.id fun x =>
      (p₀ < x ∧ ¬ Jumped (server s.id) (some p₀) (n + 1) x) ∧ x ≤ q) := by
  -- below `p` nothing has changed
  have hlow : ∀ x, (p₀ < x ∧ ¬ Jumped (server s.id) (some p₀) n x) ∧ x ≤ p ↔
      ((p₀ < x ∧ ¬ Jumped (server s.id) (some p₀) (n + 1) x) ∧ x ≤ q) ∧ x ≤ p := by
    intro x
    rw [jumped_succ h.reached]
    constructor
    · rintro ⟨⟨hlt, hnot⟩, hxp⟩
      refine ⟨⟨⟨hlt, ?_⟩, hxp.trans hle⟩, hxp⟩
      rintro (hx | ⟨_, -, hpx, -⟩)
      · exact hnot hx
      · exact absurd hpx (not_lt.mpr hxp)
    · rintro ⟨⟨⟨hlt, hnot⟩, -⟩, hxp⟩
      exact ⟨⟨hlt, fun hx => hnot (Or.inl hx)⟩, hxp⟩
  rcases hbrings with ⟨hnone, hbrings⟩ | ⟨hjump, hnothing⟩
  · -- what lies above `p` is brought
    have hhigh : ∀ x, p < x ∧ x ≤ q ↔
        ((p₀ < x ∧ ¬ Jumped (server s.id) (some p₀) (n + 1) x) ∧ x ≤ q) ∧ p < x := by
      intro x
      rw [jumped_succ_of_jump_eq_none h.reached hnone]
      constructor
      · rintro ⟨hpx, hxq⟩
        exact ⟨⟨⟨h.le.trans_lt hpx, h.not_jumped hpx⟩, hxq⟩, hpx⟩
      · rintro ⟨⟨-, hxq⟩, hpx⟩
        exact ⟨hpx, hxq⟩
    rw [MissedLog.part_split hlow hhigh]
    exact hdue.append hbrings
  · -- what lies above `p` is jumped
    have hhigh : ∀ x, False ↔
        ((p₀ < x ∧ ¬ Jumped (server s.id) (some p₀) (n + 1) x) ∧ x ≤ q) ∧ p < x := by
      intro x
      rw [false_iff]
      rintro ⟨⟨⟨-, hnot⟩, hxq⟩, hpx⟩
      exact hnot ((jumped_succ h.reached).mpr (Or.inr ⟨q, hjump, hpx, hxq⟩))
    rw [MissedLog.part_split hlow hhigh, MissedLog.part_eq_nil fun _ => id, hnothing]
    exact hdue.append brings_nil

/-- **One more answer.** -/
theorem Recovering.step {n : ℕ} {p : ℤ} {l : Loop α} (h : Recovering log server r s p₀ n p l)
    (hlog : FromLog log s.id p (server s.id n p)) (hgoes : ends p (server s.id n p) = false) :
    ∃ q, Recovering log server r s p₀ (n + 1) q
      (l.ask.step s.id p (server s.id n p)).2 := by
  obtain ⟨q, hq, hle, hbrings⟩ := hlog.goesOn hgoes
  have hp := h.reached
  obtain ⟨es, hes, hdue⟩ := h.extends_
  have hstep := Loop.extends_step s.id p l.ask (server s.id n p)
  refine ⟨q, h.follows.step h.localPts hgoes, ?_, ?_, h.le.trans hle, ?_, ?_, ?_⟩
  · rw [Loop.localPts_step _ (l.localPts_ask.trans h.localPts), hq]
  · intro x hx
    rcases (jumped_succ hp).mp hx with hx | ⟨q', hq', -, hxq⟩
    · exact (h.jumped_le x hx).trans hle
    · rcases hbrings with ⟨hnone, -⟩ | ⟨hjump, -⟩
      · rw [hnone] at hq'; cases hq'
      · rw [hjump] at hq'
        exact hxq.trans_eq (Option.some.inj hq').symm
  · exact ⟨es ++ delivered (server s.id n p), hes.trans hstep, h.brings_upTo hle hbrings hdue⟩
  · rw [Loop.stateDeleted_step_of_goesOn hgoes]
    exact h.stateDeleted
  · intro hid
    have hstored := h.stored hid
    rw [Loop.stored_step_of_goesOn hlog hid hgoes, slicePending, hp, Option.elim_some]
    exact Loop.stored_of_slicePendingAfter hlog hid hgoes hq hstored

variable (log server s p₀)

/-- What the loop for a state has done once the `n`-th answer ended it: the calls `es` and
the row it leaves. -/
structure Recovered (n : ℕ) (es : List (Enqueued α)) (row : Option UpdateState) : Prop where
  endsAt : EndsAt (server s.id) (some p₀) n
  closed : row = none → ClosedAt (server s.id) (some p₀) n
  brings : ¬ ClosedAt (server s.id) (some p₀) n → Brings es (due log server s p₀ (n + 1))
  stored : ¬ ClosedAt (server s.id) (some p₀) n →
    (row.bind UpdateState.pts = Pyrogram.reached (server s.id) (some p₀) (n + 1) ↔
      ¬ EmptyAfterSliceAt (server s.id) (some p₀) n)

variable {log server s p₀}

/-- What the last answer brings completes what is due. -/
theorem Recovering.brings_due {n : ℕ} {p : ℤ} {l : Loop α} {b : Answer α}
    (h : Recovering log server r s p₀ n p l) (hb : server s.id n p = .ok b)
    (hlog : FromLog log s.id p (.ok b)) (hends : ends p (.ok b) = true)
    {es : List (Enqueued α)}
    (hdue : Brings es (log.part s.id fun x =>
      (p₀ < x ∧ ¬ Jumped (server s.id) (some p₀) n x) ∧ x ≤ p)) :
    Brings (es ++ delivered (.ok b)) (due log server s p₀ (n + 1)) := by
  obtain ⟨hnone, hbrings⟩ := hlog.last hends
  have hjumped : ∀ x, Jumped (server s.id) (some p₀) (n + 1) x ↔
      Jumped (server s.id) (some p₀) n x := by
    intro x
    exact jumped_succ_of_jump_eq_none h.reached (by rw [hb, hnone])
  have hlow : ∀ x, (p₀ < x ∧ ¬ Jumped (server s.id) (some p₀) n x) ∧ x ≤ p ↔
      (p₀ < x ∧ ¬ Jumped (server s.id) (some p₀) (n + 1) x) ∧ x ≤ p := by
    intro x
    rw [hjumped]
  have hhigh : ∀ x, p < x ↔ (p₀ < x ∧ ¬ Jumped (server s.id) (some p₀) (n + 1) x) ∧ p < x := by
    intro x
    rw [hjumped]
    constructor
    · intro hpx
      exact ⟨⟨h.le.trans_lt hpx, h.not_jumped hpx⟩, hpx⟩
    · exact And.right
  rw [due, MissedLog.part_split hlow hhigh]
  exact hdue.append hbrings

/-- The `pts` that is stored after the last answer. -/
theorem Recovering.stored_iff {n : ℕ} {p : ℤ} {l : Loop α} {b : Answer α}
    (h : Recovering log server r s p₀ n p l) (hb : server s.id n p = .ok b)
    (hlog : FromLog log s.id p (.ok b)) (hends : ends p (.ok b) = true) :
    ((announced (.ok b)).getD none <|>
        l.recovery.updateStates.stored UpdateState.pts s.id) =
      Pyrogram.reached (server s.id) (some p₀) (n + 1) ↔
        ¬ EmptyAfterSliceAt (server s.id) (some p₀) n := by
  have hempty : EmptyAfterSliceAt (server s.id) (some p₀) n ↔
      (∃ date seq, b = .difference (.empty date seq)) ∧
        slicePending (server s.id) (some p₀) n = true := by
    apply and_congr_left
    intro _
    constructor
    · rintro ⟨p', date, seq, hp', hans⟩
      obtain rfl : p = p' := Option.some.inj (h.reached.symm.trans hp')
      exact ⟨date, seq, Except.ok.inj (hb.symm.trans hans)⟩
    · rintro ⟨date, seq, rfl⟩
      exact ⟨p, date, seq, h.reached, hb⟩
  rw [reached_succ h.reached, hb, hempty]
  cases hlog with
  | empty date seq hid hnone =>
    have hstored := h.stored hid
    show l.recovery.updateStates.stored UpdateState.pts s.id = some p ↔ _
    cases hpending : slicePending (server s.id) (some p₀) n with
    | true =>
      -- the stored `pts` is behind that of the slice
      rw [hpending, if_pos rfl] at hstored
      obtain ⟨q, hq, hstored⟩ := hstored
      refine iff_of_false ?_ (not_not_intro ⟨⟨date, seq, rfl⟩, rfl⟩)
      rw [hstored]
      exact fun heq => hq.ne (Option.some.inj heq)
    | false =>
      rw [hpending, if_neg Bool.false_ne_true] at hstored
      exact iff_of_true hstored fun hlost => Bool.false_ne_true hlost.2
  | full | channelEmpty | channelFinal =>
    exact iff_of_true rfl fun ⟨⟨_, _, heq⟩, _⟩ => nomatch heq
  | slice state hid hlt => exact absurd (of_decide_eq_true hends) hlt.ne'
  | tooLong | channelSlice | channelTooLong => cases hends

/-- **The last answer.** -/
theorem Recovering.leave {n : ℕ} {p : ℤ} {l l' : Loop α}
    (h : Recovering log server r s p₀ n p l) (hlog : FromLog log s.id p (server s.id n p))
    (hleave : l.iterate server s.id = (.leave, l')) :
    ∃ es, Extends s.id es r l'.finish ∧
      Recovered log server s p₀ n es (l'.finish.updateStates.find s.id) := by
  obtain ⟨p', hp', hdate⟩ := Loop.iterate_ne_raised (Or.inr (congrArg Prod.fst hleave))
  rw [Loop.iterate_eq h.localPts hdate, h.follows.requests] at hleave
  obtain ⟨hends, hanswer⟩ := Loop.step_leave (congrArg Prod.fst hleave)
  obtain rfl : _ = l' := congrArg Prod.snd hleave
  have hendsAt : EndsAt (server s.id) (some p₀) n := ⟨h.follows.goesOn, p, h.reached, hends⟩
  obtain ⟨es, hes, hdue⟩ := h.extends_
  have hext := hes.trans (Loop.extends_step s.id p l.ask (server s.id n p))
  -- the loop is left at a closed answer, or at the end of the missed part
  rcases hanswer with hclosed | ⟨b, hb⟩
  · have hclosedAt : ClosedAt (server s.id) (some p₀) n := ⟨p, h.reached, hclosed⟩
    have hfinish : (l.ask.step s.id p (server s.id n p)).2.finish =
        (l.ask.step s.id p (server s.id n p)).2.recovery := by
      rcases hclosed with hclosed | hclosed <;> rw [hclosed] <;> rfl
    rw [hfinish]
    exact ⟨_, hext, hendsAt, fun _ => hclosedAt, absurd hclosedAt, absurd hclosedAt⟩
  · rw [hb] at hends hlog hext ⊢
    -- what is stored is the position announced, or the one stored before
    obtain ⟨u, hu, huid, hupts, htable, hdel⟩ :=
      Loop.stateUpdate_step_of_ends s.id l.ask hends
    have hfinish : (l.ask.step s.id p (.ok b)).2.finish =
        (l.ask.step s.id p (.ok b)).2.recovery.setUpdateState u := by
      have hkept : (l.ask.step s.id p (.ok b)).2.stateDeleted = false :=
        hdel.trans h.stateDeleted
      rw [Loop.finish, if_neg (by rw [hkept]; exact Bool.false_ne_true), Loop.storeStateUpdate, hu]
    rw [hfinish]
    have hstored : (((l.ask.step s.id p (.ok b)).2.recovery.setUpdateState u).updateStates.find
        s.id).bind UpdateState.pts = ((announced (.ok b)).getD none <|>
          l.recovery.updateStates.stored UpdateState.pts s.id) := by
      refine (UpdateTable.stored_pts_setUpdateState _ u s.id).trans ?_
      rw [if_pos huid, hupts, htable]
      rfl
    refine ⟨_, hext.store huid, hendsAt, ?_, ?_, ?_⟩
    · -- a row was just written
      intro hrow
      rw [Recovery.setUpdateState, UpdateTable.setUpdateState, Table.find_upsert,
        if_pos huid] at hrow
      cases hrow
    · intro _
      exact h.brings_due hb hlog hends hdue
    · intro _
      rw [hstored]
      exact h.stored_iff hb hlog hends

/-- **The loop for one state**, answered from a log. -/
theorem recoverState_spec {fuel : ℕ} {r' : Recovery α} (hs : r.updateStates.find s.id = some s)
    (hpts : s.pts = some p₀) (hlog : ∀ n p, FromLog log s.id p (server s.id n p))
    (h : recoverState server fuel r s = some (.returned r')) :
    ∃ n es, Extends s.id es r r' ∧
      Recovered log server s p₀ n es (r'.updateStates.find s.id) := by
  have hstart : Recovering log server r s p₀ 0 p₀ (Loop.start r s) := recovering_start hs hpts
  have hafter : ∀ {n : ℕ} {l : Loop α}, (Loop.start r s).after server s.id n = some l →
      ∃ p, Recovering log server r s p₀ n p l := by
    refine Loop.after_of_invariant (I := fun n l => ∃ p, Recovering log server r s p₀ n p l)
      ⟨p₀, hstart⟩ ?_
    rintro n l q ⟨p, h₁⟩ hq hgoes
    obtain rfl : p = q := Option.some.inj (h₁.localPts.symm.trans hq)
    rw [h₁.follows.requests] at hgoes ⊢
    exact h₁.step (hlog n p) hgoes
  rw [recoverState, if_neg (by rw [hpts]; exact Option.some_ne_none p₀)] at h
  obtain ⟨o, ho, hr'⟩ := Option.map_eq_some_iff.mp h
  cases o with
  | raised l => cases hr'
  | returned l =>
    obtain rfl : l.finish = r' := Outcome.returned.inj hr'
    obtain ⟨n, l₁, hl₁, hleave⟩ := Loop.exists_after_of_run ho
    obtain ⟨p, h₁⟩ := hafter hl₁
    exact ⟨n, h₁.leave (hlog n p) hleave⟩

end State

end Pyrogram
