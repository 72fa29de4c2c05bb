import Pyrogram.Updates.HandleUpdates

/-!
# Short messages

An `UpdateShortMessage` announces a message without its text; the client asks for
the difference up to it and stores the `pts` of the announcement, whatever the
answer was.

## Main definitions

* `Client.RecoversShortMessage` — what handling a short message owes the cursor.

## Main results

* `Client.recoversShortMessage_iff` — the answers for which it is paid.
-/

namespace Pyrogram

variable {α : Type}

namespace Difference

/-- The state up to which an answer brings its messages and updates. -/
def state : Difference α → Option State
  | full _ _ state => some state
  | slice _ _ intermediateState => some intermediateState
  | empty _ _ | tooLong _ => none

def newMessages : Difference α → List α
  | full newMessages _ _ | slice newMessages _ _ => newMessages
  | empty _ _ | tooLong _ => []

def otherUpdates : Difference α → List (Update α)
  | full _ otherUpdates _ | slice _ otherUpdates _ => otherUpdates
  | empty _ _ | tooLong _ => []

end Difference

namespace Client

/-- Handling a short message returns, the messages and updates of the answer are
handed to the dispatcher, and the `pts` that is stored is not beyond theirs. -/
def RecoversShortMessage (a : Awaits α) (c : Client α) (pts ptsCount date : ℤ)
    (diff : Difference α) : Prop :=
  ∃ c', c.handleUpdates { a with difference := .ok diff, lastWrite := .done }
      (.shortMessage pts ptsCount date) = .returned c' ∧
    c'.enqueued = c.enqueued ++ diff.newMessages.map (.newMessage · pts ptsCount) ++
      diff.otherUpdates.map .update ∧
    ∀ p, c'.updateStates.stored UpdateState.pts 0 = some p →
      ∃ state, diff.state = some state ∧ p ≤ state.pts

variable (a : Awaits α) (c : Client α) (pts ptsCount date : ℤ) {diff : Difference α}

/-- Without a state there are no `users` either, and the run raises. -/
theorem handleShortMessage_of_state_eq_none (h : diff.state = none) :
    c.handleUpdates { a with difference := .ok diff, lastWrite := .done }
      (.shortMessage pts ptsCount date) = .raised c := by
  cases diff with
  | empty | tooLong => rfl
  | full | slice => cases h

/-- Otherwise the `pts` of the announcement is stored. -/
theorem handleShortMessage_of_state_eq_some {state : State} (h : diff.state = some state) :
    ∃ c', c.handleUpdates { a with difference := .ok diff, lastWrite := .done }
        (.shortMessage pts ptsCount date) = .returned c' ∧
      c'.enqueued = c.enqueued ++ diff.newMessages.map (.newMessage · pts ptsCount) ++
        diff.otherUpdates.map .update ∧
      c'.updateStates.stored UpdateState.pts 0 = some pts := by
  cases diff with
  | empty | tooLong => cases h
  | full newMessages otherUpdates state | slice newMessages otherUpdates state =>
    refine ⟨_, rfl, ?_, ?_⟩
    · rw [foldl_enqueue, foldl_enqueue]
      rfl
    · rw [updateStates_store, UpdateTable.stored_pts_setUpdateState]
      rfl

/-- **The answers a short message is recovered with**: a difference or a slice
whose state has reached the `pts` of the announcement. -/
theorem recoversShortMessage_iff (diff : Difference α) :
    RecoversShortMessage a c pts ptsCount date diff ↔
      ∃ state, diff.state = some state ∧ pts ≤ state.pts := by
  cases hstate : diff.state with
  | none =>
    constructor
    · rintro ⟨c', hret, -⟩
      rw [handleShortMessage_of_state_eq_none a c pts ptsCount date hstate] at hret
      cases hret
    · rintro ⟨_, h, -⟩
      cases h
  | some state =>
    obtain ⟨c', hret, henq, hpts⟩ :=
      handleShortMessage_of_state_eq_some a c pts ptsCount date hstate
    constructor
    · rintro ⟨c'', hret', -, hle⟩
      obtain rfl : c' = c'' := Outcome.returned.inj (hret.symm.trans hret')
      obtain ⟨state', hstate', hp⟩ := hle pts hpts
      exact ⟨state', hstate ▸ hstate', hp⟩
    · rintro ⟨state', hstate', hp⟩
      refine ⟨c', hret, henq, fun p hp' => ⟨state', hstate.trans hstate', ?_⟩⟩
      obtain rfl : pts = p := Option.some.inj (hpts.symm.trans hp')
      exact hp

/-- A message announced at 20 after 15 is answered by a slice that ends at 17, and 20
is stored; an answer that there is nothing new raises. -/
theorem shortMessage_beyond_slice :
    ¬ RecoversShortMessage (α := Unit) {} {} 20 5 100 (.slice [()] [] ⟨17, 0, 100, 1⟩) ∧
      ({} : Client Unit).handleUpdates { difference := .ok (.empty 100 1) }
        (.shortMessage 20 5 100) = .raised {} := by
  have hslice : (Difference.slice [()] [] ⟨17, 0, 100, 1⟩).state = some ⟨17, 0, 100, 1⟩ := rfl
  refine ⟨?_, rfl⟩
  rintro ⟨c', hret, -, hle⟩
  obtain ⟨c'', hret', -, hpts⟩ := handleShortMessage_of_state_eq_some {} {} 20 5 100 hslice
  obtain rfl : c'' = c' := Outcome.returned.inj (hret'.symm.trans hret)
  obtain ⟨state, hstate, hp⟩ := hle 20 hpts
  obtain rfl := Option.some.inj hstate
  exact absurd hp (by decide)

end Client

end Pyrogram
