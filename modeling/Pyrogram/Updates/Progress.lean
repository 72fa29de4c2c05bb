import Pyrogram.Updates.Conversation

/-!
# Progress of the recovery loop

A slice that brings no new `pts` ends the loop for a state.  No other answer that
asks for another request is held to that: a server that keeps repeating one keeps
the loop, and the lock it runs under, for ever.

## Main definitions

* `Loop.MakesProgress` — a loop whose `pts` stops changing ends.
* `Stalls` — a conversation that goes on and announces nothing new.

## Main results

* `Loop.makesProgress_iff` — the conversations in which the loop makes progress.
-/

namespace Pyrogram

variable {α : Type}

/-- If the `pts` of the requests is the same from some request on, the loop ends. -/
def Loop.MakesProgress (server : Server α) (id : ℤ) (l : Loop α) : Prop :=
  (∃ N p, ∀ n ≥ N, ∀ l', l.after server id n = some l' → l'.localPts = p) →
    ∃ fuel, (l.run server id fuel).isSome

/-- No answer ends the conversation, and from some answer on each is a timestamp error
or announces the `pts` that was reached before: a `DifferenceTooLong`, a
`ChannelDifferenceTooLong` or a `ChannelDifference` that is not final. -/
structure Stalls (server : Server α) (s : UpdateState) : Prop where
  hasDate : s.id < zeroChannelId ∨ s.date ≠ none
  goesOn : ∀ n, GoesOn (server s.id) s.pts n
  repeats : ∃ N, ∀ n ≥ N, ∀ p, reached (server s.id) s.pts n = some p →
    announced (server s.id n p) = none ∨ announced (server s.id n p) = some (some p)

namespace Stalls

variable {server : Server α} {s : UpdateState}

/-- A conversation that announces nothing new stays where it is. -/
theorem reached_eq {N : ℕ}
    (h : ∀ n ≥ N, ∀ p, reached (server s.id) s.pts n = some p →
      announced (server s.id n p) = none ∨ announced (server s.id n p) = some (some p))
    {n : ℕ} (hn : N ≤ n) : reached (server s.id) s.pts n = reached (server s.id) s.pts N := by
  induction n, hn using Nat.le_induction with
  | base => rfl
  | succ n hn ih =>
    rw [← ih]
    cases hp : reached (server s.id) s.pts n with
    | none => rw [reached, hp]; rfl
    | some p =>
      rw [reached_succ hp]
      rcases h n hn p hp with ha | ha <;> rw [ha] <;> rfl

/-- One answer over and over stalls a loop, if it asks for another request and announces
nothing beyond the stored `pts`. -/
theorem of_const {a : Except InvokeError (Answer α)} {p : ℤ}
    (hdate : s.id < zeroChannelId ∨ s.date ≠ none) (hpts : s.pts = some p)
    (hends : ends p a = false) (ha : announced a = none ∨ announced a = some (some p)) :
    Stalls (fun _ _ _ => a) s := by
  have hreached : ∀ n, reached (fun _ _ => a) s.pts n = some p := by
    intro n
    induction n with
    | zero => exact hpts
    | succ n ih =>
      rw [reached_succ ih]
      rcases ha with ha | ha <;> rw [ha] <;> rfl
  refine ⟨hdate, fun n => ⟨p, hreached n, hends⟩, 0, ?_⟩
  intro n _ q hq
  obtain rfl : p = q := Option.some.inj ((hreached n).symm.trans hq)
  exact ha

end Stalls

namespace Loop

variable {server : Server α} {s : UpdateState} (r : Recovery α)

theorem not_makesProgress_of_stalls (h : Stalls server s) :
    ¬ MakesProgress server s.id (start r s) := by
  intro hprogress
  obtain ⟨N, hN⟩ := h.repeats
  have hafter : ∀ n, ∃ l', (start r s).after server s.id n = some l' := by
    intro n
    obtain ⟨l', hl', -⟩ := exists_after_of_goesOn (follows_start r s) h.hasDate
      (n := n) fun k _ => h.goesOn k
    exact ⟨l', hl'⟩
  have hstays : ∀ n ≥ N, ∀ l', (start r s).after server s.id n = some l' →
      l'.localPts = reached (server s.id) s.pts N := by
    intro n hn l' hl'
    rw [((follows_start r s).after hl').localPts, Stalls.reached_eq hN hn]
  obtain ⟨fuel, hfuel⟩ := hprogress ⟨N, _, hstays⟩
  obtain ⟨l', hl'⟩ := hafter fuel
  rw [isSome_run_iff, hl'] at hfuel
  cases hfuel

/-- **The recovery loop makes progress or stops, unless its conversation stalls.** -/
theorem makesProgress_iff :
    MakesProgress server s.id (start r s) ↔ ¬ Stalls server s := by
  constructor
  · exact fun h hstalls => not_makesProgress_of_stalls r hstalls h
  · rintro hstalls ⟨N, p, hN⟩
    by_contra hrun
    have hafter : ∀ n, ∃ l', (start r s).after server s.id n = some l' := by
      intro n
      rw [← Option.ne_none_iff_exists']
      intro hnone
      exact hrun ⟨n, (isSome_run_iff n _).mpr hnone⟩
    have hfollows : ∀ n l', (start r s).after server s.id n = some l' →
        l'.Follows server s.id s.pts n := by
      intro n l' hl'
      exact (follows_start r s).after hl'
    -- the first request was made, so it could be serialized
    have hfirst : ∃ q, (start r s).localPts = some q ∧ (start r s).HasDate s.id := by
      obtain ⟨l', hl'⟩ := hafter 1
      rw [after_succ, after, Option.bind_some] at hl'
      have hagain : ((start r s).iterate server s.id).1 = .again := by
        by_contra hne
        rw [if_neg hne] at hl'
        cases hl'
      exact iterate_ne_raised (Or.inl hagain)
    obtain ⟨-, -, hdate⟩ := hfirst
    refine hstalls ⟨hdate, ?_, N, ?_⟩
    · intro n
      obtain ⟨l', hl'⟩ := hafter (n + 1)
      exact (hfollows _ l' hl').goesOn n (Nat.lt_succ_self n)
    · -- the requests before and after the answer carry the same `pts`
      intro n hn q hq
      obtain ⟨l₁, hl₁⟩ := hafter n
      obtain ⟨l₂, hl₂⟩ := hafter (n + 1)
      have hp : p = some q := by
        rw [← hN n hn l₁ hl₁, (hfollows _ l₁ hl₁).localPts, hq]
      have hnext : reached (server s.id) s.pts (n + 1) = some q := by
        rw [← (hfollows _ l₂ hl₂).localPts, hN (n + 1) (by omega) l₂ hl₂, hp]
      rw [reached_succ hq] at hnext
      cases ha : announced (server s.id n q) with
      | none => exact Or.inl rfl
      | some q' =>
        rw [ha, Option.getD_some] at hnext
        exact Or.inr (congrArg some hnext)

/-- The answers that stall the loop of a state at 10 when they are repeated. -/
theorem not_makesProgress_of_repetition :
    (∀ a ∈ [.error .persistentTimestampOutdated, .error .persistentTimestampInvalid,
        .ok (.difference (.tooLong 10))],
      ¬ MakesProgress (α := Unit) (fun _ _ _ => a) 0
        (start { updateStates := Table.empty } ⟨0, some 10, none, some 100, none⟩)) ∧
    ∀ a ∈ [.ok (.channelDifference (.tooLong (some 10))),
        .ok (.channelDifference (.difference false 10 [()] []))],
      ¬ MakesProgress (α := Unit) (fun _ _ _ => a) (getChannelId 5)
        (start { updateStates := Table.empty } ⟨getChannelId 5, some 10, none, none, none⟩) := by
  constructor
  · intro a ha
    have hstall : ends 10 a = false ∧ (announced a = none ∨ announced a = some (some 10)) := by
      revert a
      decide
    exact not_makesProgress_of_stalls (s := ⟨0, some 10, none, some 100, none⟩) _
      (Stalls.of_const (Or.inr (by decide)) rfl hstall.1 hstall.2)
  · intro a ha
    have hstall : ends 10 a = false ∧ (announced a = none ∨ announced a = some (some 10)) := by
      revert a
      decide
    exact not_makesProgress_of_stalls (s := ⟨getChannelId 5, some 10, none, none, none⟩) _
      (Stalls.of_const (Or.inl (by decide)) rfl hstall.1 hstall.2)

end Loop

end Pyrogram
