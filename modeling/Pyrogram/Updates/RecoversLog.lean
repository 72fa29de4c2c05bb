import Pyrogram.Updates.Recovered

/-!
# The recovery of the log

A call of `recover_gaps` that is answered from a log runs the loop for one stored state
after the other.  The loops touch neither the calls nor the rows of each other, so what
each of them recovers is recovered by the call.

## Main definitions

* `RecoversLog` — what a call owes.

## Main results

* `recoverStates_spec` — the loops for all states.
* `recoversLog_iff` — the servers whose log is recovered.
-/

namespace Pyrogram

variable {α : Type}

/-! ### A call -/

/-- The calls that were made for a state. -/
def callsFor (id : ℤ) (calls : List (ℤ × Enqueued α)) : List (Enqueued α) :=
  (calls.filter (·.1 = id)).map Prod.snd

@[simp] theorem callsFor_append (id : ℤ) (k l : List (ℤ × Enqueued α)) :
    callsFor id (k ++ l) = callsFor id k ++ callsFor id l := by
  simp [callsFor]

@[simp] theorem callsFor_map_self (id : ℤ) (es : List (Enqueued α)) :
    callsFor id (es.map (id, ·)) = es := by
  induction es with
  | nil => rfl
  | cons e es ih => simpa [callsFor] using ih

theorem callsFor_eq_nil {id : ℤ} {calls : List (ℤ × Enqueued α)} (h : ∀ x ∈ calls, x.1 ≠ id) :
    callsFor id calls = [] := by
  rw [callsFor, List.filter_eq_nil_iff.mpr fun x hx => by simpa using h x hx, List.map_nil]

section Call

variable {log : MissedLog α} {server : Server α} {fuel : ℕ}

/-- The loops for some states, one after the other: the calls they made and the rows they
left. -/
structure RecoveredAll (log : MissedLog α) (server : Server α) (states : List UpdateState)
    (calls : List (ℤ × Enqueued α)) (r r' : Recovery α) : Prop where
  enqueued : r'.enqueued = r.enqueued ++ calls
  messages : r'.messageUpdatesCounter =
    r.messageUpdatesCounter + (messagesIn (calls.map Prod.snd)).length
  others : r'.otherUpdatesCounter =
    r.otherUpdatesCounter + (updatesIn (calls.map Prod.snd)).length
  only : ∀ x ∈ calls, ∃ s ∈ states, s.pts ≠ none ∧ s.id = x.1
  find : ∀ id, (∀ s ∈ states, s.pts ≠ none → s.id ≠ id) →
    r'.updateStates.find id = r.updateStates.find id
  recovered : ∀ s ∈ states, ∀ p, s.pts = some p →
    ∃ n, Recovered log server s p n (callsFor s.id calls) (r'.updateStates.find s.id)

namespace RecoveredAll

variable {states : List UpdateState} {calls : List (ℤ × Enqueued α)} {s : UpdateState}
  {r r₁ r' : Recovery α}

theorem nil (r : Recovery α) : RecoveredAll log server [] [] r r where
  enqueued := (List.append_nil _).symm
  messages := rfl
  others := rfl
  only := fun _ hx => absurd hx List.not_mem_nil
  find := fun _ _ => rfl
  recovered := fun _ hs => absurd hs List.not_mem_nil

/-- A state without a `pts` is skipped. -/
theorem skip (h : RecoveredAll log server states calls r r') (hpts : s.pts = none) :
    RecoveredAll log server (s :: states) calls r r' := by
  refine ⟨h.enqueued, h.messages, h.others, ?_, ?_, ?_⟩
  · intro x hx
    obtain ⟨s', hs', hx⟩ := h.only x hx
    exact ⟨s', List.mem_cons_of_mem s hs', hx⟩
  · intro id hid
    exact h.find id fun s' hs' => hid s' (List.mem_cons_of_mem s hs')
  · intro s' hs' p hp
    rcases List.mem_cons.mp hs' with rfl | hs'
    · rw [hpts] at hp
      cases hp
    · exact h.recovered s' hs' p hp

/-- The loop for one more state, before the others. -/
theorem cons (h : RecoveredAll log server states calls r₁ r') {es : List (Enqueued α)} {n : ℕ}
    {p : ℤ} (hpts : s.pts = some p) (hne : ∀ s' ∈ states, s'.id ≠ s.id)
    (hext : Extends s.id es r r₁)
    (hrec : Recovered log server s p n es (r₁.updateStates.find s.id)) :
    RecoveredAll log server (s :: states) (es.map (s.id, ·) ++ calls) r r' := by
  refine ⟨?_, ?_, ?_, ?_, ?_, ?_⟩
  · rw [h.enqueued, hext.enqueued, List.append_assoc]
  · rw [h.messages, hext.messages]
    simp [Nat.add_assoc, Function.comp_def]
  · rw [h.others, hext.others]
    simp [Nat.add_assoc, Function.comp_def]
  -- every call is for a state with a position, of this loop or of the later ones
  · intro x hx
    rcases List.mem_append.mp hx with hx | hx
    · obtain ⟨e, -, rfl⟩ := List.mem_map.mp hx
      exact ⟨s, List.mem_cons_self, hpts ▸ Option.some_ne_none p, rfl⟩
    · obtain ⟨s', hs', hx⟩ := h.only x hx
      exact ⟨s', List.mem_cons_of_mem s hs', hx⟩
  · intro id hid
    have hself : s.id ≠ id := hid s List.mem_cons_self (hpts ▸ Option.some_ne_none p)
    rw [h.find id fun s' hs' => hid s' (List.mem_cons_of_mem s hs'), hext.find id hself.symm]
  · intro s' hs' q hq
    rw [callsFor_append]
    rcases List.mem_cons.mp hs' with rfl | hs'
    · -- the other loops made no calls for this state and left its row alone
      have hothers : callsFor s'.id calls = [] := by
        apply callsFor_eq_nil
        intro x hx heq
        obtain ⟨s, hs, -, hid⟩ := h.only x hx
        exact hne s hs (hid.trans heq)
      obtain rfl : p = q := Option.some.inj (hpts.symm.trans hq)
      refine ⟨n, ?_⟩
      rw [callsFor_map_self, hothers, List.append_nil, h.find s'.id fun s hs _ => hne s hs]
      exact hrec
    · have hmine : callsFor s'.id (es.map (s.id, ·)) = [] := by
        apply callsFor_eq_nil
        intro x hx
        obtain ⟨e, -, rfl⟩ := List.mem_map.mp hx
        exact (hne s' hs').symm
      rw [hmine, List.nil_append]
      exact h.recovered s' hs' q hq

end RecoveredAll

/-- **The loops for all states.** -/
theorem recoverStates_spec (hlog : ∀ id n p, FromLog log id p (server id n p))
    {states : List UpdateState} :
    ∀ {r r' : Recovery α}, (states.map UpdateState.id).Nodup →
      (∀ s ∈ states, r.updateStates.find s.id = some s) →
      recoverStates server fuel r states = some (.returned r') →
      ∃ calls, RecoveredAll log server states calls r r' := by
  induction states with
  | nil =>
    intro r r' _ _ h
    obtain rfl : r = r' := Outcome.returned.inj (Option.some.inj h)
    exact ⟨[], .nil r⟩
  | cons s states ih =>
    intro r r' hnodup hrows h
    obtain ⟨hnew, hnodup'⟩ := List.nodup_cons.mp hnodup
    have hne : ∀ s' ∈ states, s'.id ≠ s.id := by
      intro s' hs' heq
      exact hnew (List.mem_map.mpr ⟨s', hs', heq⟩)
    have hrows' : ∀ s' ∈ states, r.updateStates.find s'.id = some s' := by
      intro s' hs'
      exact hrows s' (List.mem_cons_of_mem s hs')
    rw [recoverStates] at h
    cases hpts : s.pts with
    | none =>
      rw [recoverState, if_pos hpts] at h
      obtain ⟨calls, hall⟩ := ih hnodup' hrows' h
      exact ⟨calls, hall.skip hpts⟩
    | some p =>
      cases ho : recoverState server fuel r s with
      | none => rw [ho] at h; cases h
      | some o =>
        rw [ho] at h
        cases o with
        | raised r₁ => cases h
        | returned r₁ =>
          obtain ⟨n, es, hext, hrec⟩ :=
            recoverState_spec (hrows s List.mem_cons_self) hpts (hlog s.id) ho
          -- the loop left the rows of the other states alone
          have hrows₁ : ∀ s' ∈ states, r₁.updateStates.find s'.id = some s' := by
            intro s' hs'
            rw [hext.find s'.id (hne s' hs')]
            exact hrows' s' hs'
          obtain ⟨calls, hall⟩ := ih hnodup' hrows₁ h
          exact ⟨_, hall.cons hpts hne hext hrec⟩

/-- What a call owes for the states it was asked for: for each of them that has a `pts`
and is not closed by the server, the entries that are due, in their order, and the `pts`
that was announced last; the number of calls of either kind; and no state is deleted but
those that the server closed. -/
structure RecoversLog (log : MissedLog α) (server : Server α) (t : UpdateTable)
    (ids : Option (List ℤ)) (r : Recovery α) : Prop where
  recovered : ∀ s ∈ t.getUpdateStates ids, ∀ p, s.pts = some p →
    ∃ n, EndsAt (server s.id) (some p) n ∧
      (¬ ClosedAt (server s.id) (some p) n →
        Brings (callsFor s.id r.enqueued) (due log server s p (n + 1)) ∧
        r.updateStates.stored UpdateState.pts s.id = reached (server s.id) (some p) (n + 1))
  only : ∀ x ∈ r.enqueued, ∃ s ∈ t.getUpdateStates ids, s.pts ≠ none ∧ s.id = x.1
  messages : r.messageUpdatesCounter = (messagesIn (r.enqueued.map Prod.snd)).length
  others : r.otherUpdatesCounter = (updatesIn (r.enqueued.map Prod.snd)).length
  deleted : ∀ s ∈ t.rows, r.updateStates.find s.id = none →
    s ∈ t.getUpdateStates ids ∧ ∃ n, EndsAt (server s.id) s.pts n ∧ ClosedAt (server s.id) s.pts n

/-- **What a call recovers.**  Answered from a log, a call that returns owes nothing,
exactly when no conversation ends with a `DifferenceEmpty` after a `DifferenceSlice`. -/
theorem recoversLog_iff (log : MissedLog α) (server : Server α)
    (hlog : ∀ id n p, FromLog log id p (server id n p)) {t : UpdateTable}
    {ids : Option (List ℤ)} {r : Recovery α}
    (h : recoverGaps server fuel t ids = some (.returned r)) :
    RecoversLog log server t ids r ↔
      ∀ s ∈ t.getUpdateStates ids, ¬ EmptyAfterSlice (server s.id) s.pts := by
  have hrows : ∀ s ∈ t.getUpdateStates ids, t.find s.id = some s := by
    intro s hs
    exact Table.mem_rows_iff.mp (UpdateTable.mem_getUpdateStates.mp hs).1
  obtain ⟨calls, hall⟩ := recoverStates_spec hlog (t.nodup_getUpdateStates ids) hrows h
  have hcalls : r.enqueued = calls := hall.enqueued
  constructor
  -- a state that is empty after a slice is stored at the old position
  · rintro hrecovers s hs ⟨n, hends, hempty⟩
    cases hpts : s.pts with
    | none =>
      obtain ⟨-, p, hp, -⟩ := hends
      rw [hpts, reached_none] at hp
      cases hp
    | some p =>
      rw [hpts] at hends hempty
      obtain ⟨n₁, hends₁, hstored⟩ := hrecovers.recovered s hs p hpts
      obtain ⟨n₂, hrec⟩ := hall.recovered s hs p hpts
      obtain rfl := hends.unique hends₁
      obtain rfl := hends.unique hrec.endsAt
      exact (hrec.stored hempty.not_closedAt).mp (hstored hempty.not_closedAt).2 hempty
  -- each state by its own loop, and the calls of all of them together
  · intro hnever
    refine ⟨?_, ?_, ?_, ?_, ?_⟩
    · intro s hs p hpts
      obtain ⟨n, hrec⟩ := hall.recovered s hs p hpts
      refine ⟨n, hrec.endsAt, ?_⟩
      intro hopen
      constructor
      · rw [hcalls]
        exact hrec.brings hopen
      · refine (hrec.stored hopen).mpr fun hempty => hnever s hs ⟨n, ?_, ?_⟩
        · rw [hpts]; exact hrec.endsAt
        · rw [hpts]; exact hempty
    · intro x hx
      rw [hcalls] at hx
      exact hall.only x hx
    · rw [hall.messages, hcalls]
      exact Nat.zero_add _
    · rw [hall.others, hcalls]
      exact Nat.zero_add _
    · intro s hs hnone
      have hrow := Table.mem_rows_iff.mp hs
      by_cases hmine : ∀ s' ∈ t.getUpdateStates ids, s'.pts ≠ none → s'.id ≠ s.id
      · -- no loop was run for the state, so its row is still there
        rw [hall.find s.id hmine] at hnone
        exact absurd (hnone.symm.trans hrow) (Option.some_ne_none s).symm
      · push Not at hmine
        obtain ⟨s', hs', hpts, hid⟩ := hmine
        obtain rfl : s' = s := by
          have hrow' := hrows s' hs'
          rw [hid] at hrow'
          exact Option.some.inj (hrow'.symm.trans hrow)
        obtain ⟨p, hp⟩ := Option.ne_none_iff_exists'.mp hpts
        obtain ⟨n, hrec⟩ := hall.recovered s' hs' p hp
        exact ⟨hs', n, hp ▸ hrec.endsAt, hp ▸ hrec.closed hnone⟩

end Call

/-! ### A slice and what follows it -/

/-- Two entries of the common box. -/
def twoEntries : MissedLog Unit where
  entries id := if id = 0 then [.message 11 (), .update 12 { pts := some 12, content := () }]
    else []
  sorted id := by
    split
    · decide
    · exact List.Pairwise.nil

/-- The common box is stored at 10. -/
def commonState : UpdateState := ⟨0, some 10, none, some 100, some 1⟩

def commonTable : UpdateTable := UpdateTable.setUpdateState Table.empty commonState

theorem getUpdateStates_commonTable : commonTable.getUpdateStates none = [commonState] :=
  List.mergeSort_singleton commonState

/-- The rest of the log. -/
def finalAnswer (id p : ℤ) : Except InvokeError (Answer Unit) :=
  .ok (.difference (.full (messagesOf (twoEntries.since id p)) (updatesOf (twoEntries.since id p))
    ⟨p, 0, 102, 2⟩))

/-- The rest of the log, or that there is none. -/
def emptyAnswer (id p : ℤ) : Except InvokeError (Answer Unit) :=
  if (twoEntries.since id p).isEmpty then .ok (.difference (.empty 102 2)) else finalAnswer id p

/-- A slice of two first, and then as given. -/
def sliceFirst (next : ℤ → ℤ → Except InvokeError (Answer Unit)) : Server Unit := fun id n p =>
  if id < zeroChannelId then
    .ok (.channelDifference (.difference true p (messagesOf (twoEntries.since id p))
      (updatesOf (twoEntries.since id p))))
  else if n = 0 then
    .ok (.difference (.slice (messagesOf (twoEntries.between id p (p + 2)))
      (updatesOf (twoEntries.between id p (p + 2))) ⟨p + 2, 0, 101, 1⟩))
  else next id p

theorem fromLog_finalAnswer {id p : ℤ} (hid : ¬ id < zeroChannelId) :
    FromLog twoEntries id p (finalAnswer id p) := FromLog.full _ hid

theorem fromLog_emptyAnswer {id p : ℤ} (hid : ¬ id < zeroChannelId) :
    FromLog twoEntries id p (emptyAnswer id p) := by
  unfold emptyAnswer
  split
  · next h => exact FromLog.empty 102 2 hid (List.isEmpty_iff.mp h)
  · exact fromLog_finalAnswer hid

theorem fromLog_sliceFirst {next : ℤ → ℤ → Except InvokeError (Answer Unit)}
    (h : ∀ id p, ¬ id < zeroChannelId → FromLog twoEntries id p (next id p)) (id : ℤ) (n : ℕ)
    (p : ℤ) : FromLog twoEntries id p (sliceFirst next id n p) := by
  unfold sliceFirst
  split
  · next hid => exact FromLog.channelFinal p hid
  · next hid =>
    split
    · have hlt : p < p + 2 := by omega
      exact FromLog.slice ⟨p + 2, 0, 101, 1⟩ hid hlt
    · exact h id p hid

theorem recoversLog_of_finalAnswer : ∃ r,
    recoverGaps (sliceFirst finalAnswer) 2 commonTable none = some (.returned r) ∧
      RecoversLog twoEntries (sliceFirst finalAnswer) commonTable none r := by
  have hrun : recoverGaps (sliceFirst finalAnswer) 2 commonTable none = some (.returned
      { updateStates := commonTable.setUpdateState ⟨0, some 12, none, some 102, some 2⟩
        enqueued := [(0, .newMessage () 12 (-1)),
          (0, .update { pts := some 12, content := () })]
        messageUpdatesCounter := 1
        otherUpdatesCounter := 1 }) := by
    rw [recoverGaps, getUpdateStates_commonTable]
    rfl
  refine ⟨_, hrun, (recoversLog_iff twoEntries (sliceFirst finalAnswer)
    (fromLog_sliceFirst fun _ _ => fromLog_finalAnswer) hrun).mpr ?_⟩
  rintro s - ⟨n, -, ⟨p, date, seq, -, hempty⟩, -⟩
  -- this server never answers that there is nothing new
  unfold sliceFirst finalAnswer at hempty
  split at hempty
  · cases hempty
  · split at hempty <;> cases hempty

/-- The slice brings both entries and is followed by a `DifferenceEmpty`: 12 is announced
and 10 stays stored. -/
theorem slice_forgotten : ∃ r,
    (∀ id n p, FromLog twoEntries id p (sliceFirst emptyAnswer id n p)) ∧
    recoverGaps (sliceFirst emptyAnswer) 2 commonTable none = some (.returned r) ∧
      ¬ RecoversLog twoEntries (sliceFirst emptyAnswer) commonTable none r := by
  have hrun : recoverGaps (sliceFirst emptyAnswer) 2 commonTable none = some (.returned
      { updateStates := commonTable.setUpdateState ⟨0, none, none, some 102, some 2⟩
        enqueued := [(0, .newMessage () 12 (-1)),
          (0, .update { pts := some 12, content := () })]
        messageUpdatesCounter := 1
        otherUpdatesCounter := 1 }) := by
    rw [recoverGaps, getUpdateStates_commonTable]
    rfl
  refine ⟨_, fromLog_sliceFirst fun _ _ => fromLog_emptyAnswer, hrun, ?_⟩
  intro hrecovers
  have hmem : commonState ∈ commonTable.getUpdateStates none := by
    rw [getUpdateStates_commonTable]
    exact List.mem_singleton_self _
  have hends : EndsAt (sliceFirst emptyAnswer 0) (some 10) 1 := by
    refine ⟨?_, 12, rfl, rfl⟩
    intro k hk
    obtain rfl : k = 0 := by omega
    exact ⟨10, rfl, rfl⟩
  obtain ⟨n, hn, hstored⟩ := hrecovers.recovered commonState hmem 10 rfl
  obtain rfl := hends.unique hn
  have hopen : ¬ ClosedAt (sliceFirst emptyAnswer 0) (some 10) 1 := by
    rintro ⟨p, hp, hclosed⟩
    obtain rfl : 12 = p := Option.some.inj hp
    exact hclosed.elim (fun h => nomatch h) fun h => nomatch h
  exact absurd (hstored hopen).2 (by decide)

end Pyrogram
