import Pyrogram.Pool
import Pyrogram.Runs

/-!
# The session cache

`get_session` looks for a session of a data centre in `sessions`, or in `media_sessions`,
and makes one where there is none.  It looks again after what it has to await meanwhile,
publishes the session before it starts it, and takes it back where that fails.

All calls here are for the same data centre and kind, and none is `temporary`.  What a call
does between two awaits is one event.

## Main definitions

* `SessionCache`, `step` — the slot, the sessions that were made, and the calls.
* `SlotRule` — what one event may do to the slot, and what is returned from it.
* `Owned` — who answers for a session.

## Main results

* `owned_step` — what every event keeps.
* `publication` — **the rule holds of every event, and every session has its owner.**
-/

namespace Pyrogram

open Runs

namespace SessionCache

/-- A session that was made, and published. -/
structure Session where
  /-- The call that made it. -/
  creator : ℕ
  /-- Its creator has stopped it: `stop` has returned, or has raised. -/
  stop : Option Bool := none
  deriving DecidableEq, Repr

/-- What a call returns. -/
inductive Value
  /-- `self.session`. -/
  | main
  | cached (session : ℕ)
  | created (session : ℕ)
  deriving DecidableEq, Repr

/-- What a call awaits. -/
inductive Phase
  /-- What comes before the first look at the cache. -/
  | opening
  | endpoint
  | authKey
  /-- `test_mode`, before the second look. -/
  | testMode
  | initialStart (session : ℕ)
  | exportAuthorization (session attempt : ℕ)
  | importAuthorization (session attempt : ℕ)
  /-- `_finish_cleanup`, after an exception. -/
  | cleanup (session : Option ℕ)
  | returned (value : Value)
  | raised
  deriving DecidableEq, Repr

structure Call where
  exportAuthorization : Bool
  isCurrentDc : Bool := false
  phase : Phase := .opening
  deriving DecidableEq, Repr

end SessionCache

structure SessionCache where
  /-- `sessions.get(dc_id)`. -/
  slot : Option ℕ := none
  /-- The sessions that were made, by their numbers. -/
  sessions : List SessionCache.Session := []
  calls : List SessionCache.Call := []
  deriving DecidableEq, Repr

namespace SessionCache

inductive Event
  | call (exportAuthorization : Bool)
  /-- The first look at the cache; `connected` where `self.session` is set. -/
  | look (i : ℕ) (isCurrentDc connected : Bool)
  /-- What the call awaits has returned. -/
  | goOn (i : ℕ)
  /-- `ImportAuthorization` raises `AuthBytesInvalid`. -/
  | authBytesInvalid (i : ℕ)
  /-- What the call awaits raises, or the call is cancelled. -/
  | fail (i : ℕ)
  /-- The clean-up has ended; `ok` where it has not raised. -/
  | cleaned (i : ℕ) (ok : Bool)
  deriving DecidableEq, Repr

/-- A call goes on to await something else, or ends. -/
def settle (s : SessionCache) (i : ℕ) (call : Call) (phase : Phase) : SessionCache :=
  { s with calls := s.calls.set i { call with phase } }

/-- The session of the slot is returned, if there is one. -/
def lookup (s : SessionCache) (i : ℕ) (call : Call) (otherwise : SessionCache) : SessionCache :=
  match s.slot with
  | some session => s.settle i call (.returned (.cached session))
  | none => otherwise

/-- A session is made and published. -/
def publish (s : SessionCache) (i : ℕ) (call : Call) : SessionCache :=
  { s.settle i call (.initialStart s.sessions.length) with
    slot := some s.sessions.length
    sessions := s.sessions ++ [⟨i, none⟩] }

/-- The handler of a call that has made a session. -/
def abort (s : SessionCache) (i : ℕ) (call : Call) (session : ℕ) : SessionCache :=
  { s.settle i call (.cleanup (some session)) with
    slot := if s.slot = some session then none else s.slot }

/-- One event, for `media_sessions` or `sessions`; `none` where it is not enabled. -/
def step (isMedia : Bool) (s : SessionCache) : Event → Option SessionCache
  | .call exportAuthorization => some { s with calls := s.calls ++ [{ exportAuthorization }] }
  | .look i isCurrentDc connected =>
      match s.calls[i]? with
      | some call =>
          match call.phase with
          | .opening =>
              if isCurrentDc && !isMedia then
                some (s.settle i call (if connected then .returned .main else .raised))
              else some (s.lookup i call (s.settle i { call with isCurrentDc } .endpoint))
          | _ => none
      | none => none
  | .goOn i =>
      match s.calls[i]? with
      | some call =>
          match call.phase with
          | .endpoint => some (s.settle i call .authKey)
          | .authKey => some (s.settle i call .testMode)
          | .testMode => some (s.lookup i call (s.publish i call))
          | .initialStart session =>
              if !call.isCurrentDc && call.exportAuthorization then
                some (s.settle i call (.exportAuthorization session 1))
              else some (s.settle i call (.returned (.created session)))
          | .exportAuthorization session attempt =>
              some (s.settle i call (.importAuthorization session attempt))
          | .importAuthorization session _ => some (s.settle i call (.returned (.created session)))
          | .opening | .cleanup _ | .returned _ | .raised => none
      | none => none
  | .authBytesInvalid i =>
      match s.calls[i]? with
      | some call =>
          match call.phase with
          | .importAuthorization session attempt =>
              if attempt < 3 then some (s.settle i call
                (.exportAuthorization session (attempt + 1)))
              else some (s.abort i call session)
          | _ => none
      | none => none
  | .fail i =>
      match s.calls[i]? with
      | some call =>
          match call.phase with
          | .opening => some (s.settle i call .raised)
          | .endpoint | .authKey | .testMode => some (s.settle i call (.cleanup none))
          | .initialStart session | .exportAuthorization session _ | .importAuthorization
              session _ =>
              some (s.abort i call session)
          -- the clean-up goes on
          | .cleanup _ => some s
          | .returned _ | .raised => none
      | none => none
  | .cleaned i ok =>
      match s.calls[i]? with
      | some call =>
          match call.phase with
          | .cleanup none => some (s.settle i call .raised)
          | .cleanup (some session) => some { s.settle i call .raised with
              sessions := s.sessions.set session ⟨i, some ok⟩ }
          | _ => none
      | none => none

/-! ### The contract -/

/-- The session a call has made, and has not stopped. -/
def Phase.own : Phase → Option ℕ
  | .initialStart session | .exportAuthorization session _ | .importAuthorization session _
  | .returned (.created session) => some session
  | .cleanup session => session
  | .opening | .endpoint | .authKey | .testMode | .returned .main | .returned
      (.cached _) | .raised => none

/-- The call is over. -/
def Phase.Ended : Phase → Prop
  | .returned _ | .raised => True
  | _ => False

/-- The call has begun to clean up. -/
def Phase.Failed : Phase → Prop
  | .cleanup _ | .raised => True
  | _ => False

/-- **What one event may do to the slot**, and what is returned from it. -/
structure SlotRule (s : SessionCache) (e : Event) (s' : SessionCache) : Prop where
  /-- A session is published into an empty slot. -/
  published : ∀ session, s'.slot = some session → s.slot ≠ some session → s.slot = none
  /-- It is removed by the call that made it, when that fails. -/
  removed : ∀ session, s.slot = some session → s'.slot ≠ some session → s'.slot = none ∧
    ∃ (i : ℕ) (call : Call), s.calls[i]? = some call ∧ call.phase.own = some session ∧
      (e = .fail i ∨ e = .authBytesInvalid i)
  /-- What is returned from the cache is in the slot. -/
  cached : ∀ (i session : ℕ) (call' : Call), s'.calls[i]? = some call' →
    call'.phase = .returned (.cached session) → s.calls[i]? ≠ some call' → s.slot = some session

/-- The session can be returned from the cache by the next event. -/
def Reachable (isMedia : Bool) (s : SessionCache) (session : ℕ) : Prop :=
  ∃ (e : Event) (s' : SessionCache) (i : ℕ) (call' : Call), step isMedia s e = some s' ∧
    s'.calls[i]? = some call' ∧
    call'.phase = .returned (.cached session) ∧ s.calls[i]? ≠ some call'

/-- **Who answers for a session**: the call that made it is still at it, has returned it, or
has stopped it; what is in the slot is being started, or was returned. -/
structure Owned (s : SessionCache) : Prop where
  creator : ∀ (n : ℕ) (session : Session), s.sessions[n]? = some session →
    ∃ call : Call, s.calls[session.creator]? = some call ∧
      (call.phase.own = some n ∨ call.phase = .raised ∧ session.stop.isSome)
  own : ∀ (i n : ℕ) (call : Call), s.calls[i]? = some call → call.phase.own = some n →
    s.sessions[n]? = some ⟨i, none⟩
  slot : ∀ n, s.slot = some n → ∃ (i : ℕ) (call : Call), s.calls[i]? = some call ∧
    call.phase.own = some n ∧
    ¬ call.phase.Failed

variable {isMedia : Bool} {s s' t : SessionCache} {e : Event} {i : ℕ} {call call' : Call}

/-! ### What an event can do -/

/-- What an event can do. -/
inductive Steps (s : SessionCache) : Event → SessionCache → Prop
  | call (exportAuthorization : Bool) :
      Steps s (.call exportAuthorization) { s with calls := s.calls ++ [{ exportAuthorization }] }
  /-- Neither the slot nor what the call owns changes. -/
  | settle {e : Event} {i : ℕ} {call call' : Call} (hi : s.calls[i]? = some call)
      (hcall : call.phase ≠ .raised)
      (hown : call'.phase.own = call.phase.own)
      (hfailed : call'.phase.Failed → call.phase.own = none)
      (hcached : ∀ n, call'.phase = .returned (.cached n) → s.slot = some n) :
      Steps s e { s with calls := s.calls.set i call' }
  | publish {i : ℕ} {call : Call} (hi : s.calls[i]? = some call) (hcall : call.phase = .testMode)
      (hslot : s.slot = none) : Steps s (.goOn i) (s.publish i call)
  | abort {e : Event} {i n : ℕ} {call : Call} (hi : s.calls[i]? = some call)
      (hown : call.phase.own = some n)
      (hcall : ¬ call.phase.Failed) (he : e = .fail i ∨ e = .authBytesInvalid i) :
      Steps s e (s.abort i call n)
  | idle {i : ℕ} : Steps s (.fail i) s
  | cleaned {i n : ℕ} {call : Call} (ok : Bool) (hi : s.calls[i]? = some call)
      (hcall : call.phase = .cleanup (some n)) : Steps s (.cleaned i ok)
        { s.settle i call .raised with sessions := s.sessions.set n ⟨i, some ok⟩ }

/-- Looking at the cache, for a call that owns nothing. -/
theorem steps_lookup {otherwise : SessionCache} (hi : s.calls[i]? = some call)
    (hcall : call.phase ≠ .raised)
    (hown : call.phase.own = none) (hotherwise : s.slot = none → Steps s e otherwise) :
    Steps s e (s.lookup i call otherwise) := by
  unfold lookup
  split
  · next n hslot =>
    refine .settle hi hcall hown.symm (fun hfailed => hown) fun m hm => ?_
    cases hm
    exact hslot
  · next hslot => exact hotherwise hslot

theorem steps_of_step (h : step isMedia s e = some s') : Steps s e s' := by
  -- most events only move the call that they are about
  have hgo : ∀ {e : Event} {i : ℕ} {call call' : Call}, s.calls[i]? = some call →
    call.phase ≠ .raised →
      call'.phase.own = call.phase.own → ¬ call'.phase.Failed →
        (∀ n, call'.phase ≠ .returned (.cached n)) →
      Steps s e { s with calls := s.calls.set i call' } := fun hi hcall hown hfailed hcached =>
    .settle hi hcall hown (fun h => absurd h hfailed) fun n hn => absurd hn (hcached n)
  have hnot : ∀ {call : Call} {phase : Phase}, call.phase = phase → phase ≠ .raised →
      call.phase ≠ .raised :=
    fun h hne => h ▸ hne
  cases e with
  | call exportAuthorization =>
    cases h
    exact .call exportAuthorization
  | look i isCurrentDc connected =>
    simp only [step] at h
    split at h
    · next call hi =>
      split at h
      · next hphase =>
        split at h
        · cases h
          refine .settle hi (hnot hphase (by simp)) ?_ (fun _ => by rw [hphase]; rfl) fun n hn => ?_
          · rw [hphase]
            cases connected <;> rfl
          · cases connected <;> cases hn
        · cases h
          -- the slot is looked at; a session in it is returned
          exact steps_lookup hi (hnot hphase (by simp)) (by rw [hphase]; rfl) fun _ =>
            hgo hi (hnot hphase (by simp)) (by rw [hphase]; rfl) id nofun
      · cases h
    · cases h
  | goOn i =>
    simp only [step] at h
    split at h
    · next call hi =>
      split at h
      case h_1 hphase | h_2 hphase =>
        cases h
        exact hgo hi (hnot hphase (by simp)) (by rw [hphase]; rfl) id nofun
      case h_3 hphase =>
        cases h
        exact steps_lookup hi (hnot hphase (by simp)) (by rw [hphase]; rfl) fun hslot =>
          .publish hi hphase hslot
      case h_4 hphase =>
        split at h
        · cases h
          exact hgo hi (hnot hphase (by simp)) (by rw [hphase]; rfl) id nofun
        · cases h
          exact hgo hi (hnot hphase (by simp)) (by rw [hphase]; rfl) id nofun
      case h_5 hphase | h_6 hphase =>
        cases h
        exact hgo hi (hnot hphase (by simp)) (by rw [hphase]; rfl) id nofun
      all_goals cases h
    · cases h
  | authBytesInvalid i =>
    simp only [step] at h
    split at h
    · next call hi =>
      split at h
      · next hphase =>
        split at h
        · cases h
          exact hgo hi (hnot hphase (by simp)) (by rw [hphase]; rfl) id nofun
        · cases h
          exact .abort hi (by rw [hphase]; rfl) (by rw [hphase]; exact id) (Or.inr rfl)
      · cases h
    · cases h
  | fail i =>
    simp only [step] at h
    split at h
    · next call hi =>
      split at h
      -- a call that fails before it has a session ends; with one, the session is stopped first
      case h_1 hphase | h_2 hphase | h_3 hphase | h_4 hphase =>
        cases h
        have hown : call.phase.own = none := by rw [hphase]; rfl
        exact .settle hi (hnot hphase (by simp)) hown.symm (fun _ => hown) nofun
      case h_5 hphase | h_6 hphase | h_7 hphase =>
        cases h
        exact .abort hi (by rw [hphase]; rfl) (by rw [hphase]; exact id) (Or.inl rfl)
      case h_8 =>
        cases h
        exact .idle
      all_goals cases h
    · cases h
  | cleaned i ok =>
    simp only [step] at h
    split at h
    · next call hi =>
      split at h
      · next hphase =>
        cases h
        have hown : call.phase.own = none := by rw [hphase]; rfl
        exact .settle hi (hnot hphase (by simp)) hown.symm (fun _ => hown) nofun
      · next n hphase =>
        cases h
        exact .cleaned ok hi hphase
      · cases h
    · cases h

/-! ### One event -/

/-- A call goes on. -/
theorem Owned.settle (h : Owned s) (hi : s.calls[i]? = some call) (hcall : call.phase ≠ .raised)
    (hown : call'.phase.own = call.phase.own)
    (hfailed : call'.phase.Failed → call.phase.own = none) :
    Owned { s with calls := s.calls.set i call' } := by
  have hcalls : ∀ {j other}, (s.calls.set i call')[j]? = some other ↔
      j = i ∧ call' = other ∨ j ≠ i ∧ s.calls[j]? = some other := Pool.getElem?_set_eq_some hi
  refine ⟨fun n session hn => ?_, fun j n other hj howner => ?_, fun n hn => ?_⟩
  · obtain ⟨other, hc, howner⟩ := h.creator n session hn
    by_cases heq : session.creator = i
    · rw [heq] at hc
      obtain rfl : call = other := Option.some.inj (hi.symm.trans hc)
      have hworks := howner.resolve_right fun hraised => hcall hraised.1
      exact ⟨call', hcalls.mpr (Or.inl ⟨heq, rfl⟩), Or.inl (hown.trans hworks)⟩
    · exact ⟨other, hcalls.mpr (Or.inr ⟨heq, hc⟩), howner⟩
  · rcases hcalls.mp hj with ⟨rfl, rfl⟩ | ⟨-, hj⟩
    · exact h.own j n call hi (hown.symm.trans howner)
    · exact h.own j n other hj howner
  · obtain ⟨j, other, hj, howner, hgoes⟩ := h.slot n hn
    by_cases heq : j = i
    · subst heq
      obtain rfl : call = other := Option.some.inj (hi.symm.trans hj)
      refine ⟨j, call', hcalls.mpr (Or.inl ⟨rfl, rfl⟩), hown.trans howner, fun hf => ?_⟩
      cases (hfailed hf).symm.trans howner
    · exact ⟨j, other, hcalls.mpr (Or.inr ⟨heq, hj⟩), howner, hgoes⟩

/-- The creator of a session owns it, or has raised. -/
theorem Owned.creator_ne (h : Owned s) (hi : s.calls[i]? = some call) (hcall : call.phase ≠ .raised)
    {n : ℕ}
    (hown : call.phase.own ≠ some n) {session : Session} (hn : s.sessions[n]? = some session) :
    session.creator ≠ i := by
  rintro rfl
  obtain ⟨other, hc, howner⟩ := h.creator n session hn
  obtain rfl : call = other := Option.some.inj (hi.symm.trans hc)
  exact howner.elim hown fun hraised => hcall hraised.1

/-- **A session is published** into the empty slot. -/
theorem Owned.publish (h : Owned s) (hi : s.calls[i]? = some call)
    (hcall : call.phase = .testMode) :
    Owned (s.publish i call) := by
  have hcalls : ∀ {j other}, (s.publish i call).calls[j]? = some other ↔
      j = i ∧ { call with phase := .initialStart s.sessions.length } = other ∨ j ≠ i ∧
        s.calls[j]? = some other :=
    Pool.getElem?_set_eq_some hi
  have hsessions : ∀ {n session}, (s.publish i call).sessions[n]? = some session ↔
      s.sessions[n]? = some session ∨ n = s.sessions.length ∧ ⟨i, none⟩ = session :=
        Pool.getElem?_concat_eq_some
  refine ⟨fun n session hn => ?_, fun j n other hj howner => ?_, fun n hn => ?_⟩
  · rcases hsessions.mp hn with hn | ⟨rfl, rfl⟩
    · obtain ⟨other, hc, howner⟩ := h.creator n session hn
      have hne : session.creator ≠ i :=
        h.creator_ne hi (by simp [hcall]) (by simp [hcall, Phase.own]) hn
      exact ⟨other, hcalls.mpr (Or.inr ⟨hne, hc⟩), howner⟩
    · exact ⟨_, hcalls.mpr (Or.inl ⟨rfl, rfl⟩), Or.inl rfl⟩
  · rcases hcalls.mp hj with ⟨rfl, rfl⟩ | ⟨-, hj⟩
    · exact hsessions.mpr (Or.inr ⟨(Option.some.inj howner).symm, rfl⟩)
    · exact hsessions.mpr (Or.inl (h.own j n other hj howner))
  · obtain rfl : s.sessions.length = n := Option.some.inj hn
    exact ⟨i, _, hcalls.mpr (Or.inl ⟨rfl, rfl⟩), rfl, id⟩

/-- **A creator fails**, and its session is no longer in the slot. -/
theorem Owned.abort (h : Owned s) (hi : s.calls[i]? = some call) {n : ℕ}
    (hown : call.phase.own = some n)
    (hcall : ¬ call.phase.Failed) : Owned (s.abort i call n) := by
  have hcalls : ∀ {j other}, (s.abort i call n).calls[j]? = some other ↔
      j = i ∧ { call with phase := .cleanup (some n) } = other ∨ j ≠ i ∧ s.calls[j]? = some other :=
    Pool.getElem?_set_eq_some hi
  refine ⟨fun m session hm => ?_, fun j m other hj howner => ?_, fun m hm => ?_⟩
  · obtain ⟨other, hc, howner⟩ := h.creator m session hm
    by_cases heq : session.creator = i
    · rw [heq] at hc
      obtain rfl : call = other := Option.some.inj (hi.symm.trans hc)
      have hworks := howner.resolve_right fun hraised => hcall (hraised.1 ▸ trivial)
      exact ⟨_, hcalls.mpr (Or.inl ⟨heq, rfl⟩), Or.inl (hown.symm.trans hworks)⟩
    · exact ⟨other, hcalls.mpr (Or.inr ⟨heq, hc⟩), howner⟩
  · rcases hcalls.mp hj with ⟨rfl, rfl⟩ | ⟨-, hj⟩
    · exact h.own j m call hi (hown.trans howner)
    · exact h.own j m other hj howner
  · have hne : s.slot ≠ some n ∧ s.slot = some m := by
      change (if s.slot = some n then none else s.slot) = some m at hm
      split at hm
      · cases hm
      · next hne => exact ⟨hne, hm⟩
    obtain ⟨j, other, hj, howner, hgoes⟩ := h.slot m hne.2
    refine ⟨j, other, hcalls.mpr (Or.inr ⟨?_, hj⟩), howner, hgoes⟩
    rintro rfl
    obtain rfl : call = other := Option.some.inj (hi.symm.trans hj)
    exact hne.1 (hne.2.trans (howner.symm.trans hown))

/-- **A creator has stopped its session.** -/
theorem Owned.cleaned (h : Owned s) (hi : s.calls[i]? = some call) {n : ℕ}
    (hcall : call.phase = .cleanup (some n))
    (ok : Bool) : Owned { s.settle i call .raised with
      sessions := s.sessions.set n ⟨i, some ok⟩ } := by
  have hcalls : ∀ {j other}, (s.settle i call .raised).calls[j]? = some other ↔
      j = i ∧ { call with phase := .raised } = other ∨ j ≠ i ∧ s.calls[j]? = some other :=
    Pool.getElem?_set_eq_some hi
  have hown : call.phase.own = some n := by rw [hcall]; rfl
  have hn := h.own i n call hi hown
  have hsessions : ∀ {m session}, (s.sessions.set n ⟨i, some ok⟩)[m]? = some session ↔
      m = n ∧ ⟨i, some ok⟩ = session ∨ m ≠ n ∧ s.sessions[m]? = some session :=
        Pool.getElem?_set_eq_some hn
  -- the session stays with the call that made it, though it is stopped
  refine ⟨fun m session hm => ?_, fun j m other hj howner => ?_, fun m hm => ?_⟩
  · rcases hsessions.mp hm with ⟨rfl, rfl⟩ | ⟨hne, hm⟩
    · exact ⟨_, hcalls.mpr (Or.inl ⟨rfl, rfl⟩), Or.inr ⟨rfl, rfl⟩⟩
    · obtain ⟨other, hc, howner⟩ := h.creator m session hm
      have hcreator : session.creator ≠ i := by
        refine h.creator_ne hi (by simp [hcall]) (fun heq => hne ?_) hm
        exact Option.some.inj (heq.symm.trans hown)
      exact ⟨other, hcalls.mpr (Or.inr ⟨hcreator, hc⟩), howner⟩
  · rcases hcalls.mp hj with ⟨rfl, rfl⟩ | ⟨hne, hj⟩
    · cases howner
    · have hm := h.own j m other hj howner
      refine hsessions.mpr (Or.inr ⟨?_, hm⟩)
      rintro rfl
      exact hne (congrArg Session.creator (Option.some.inj (hm.symm.trans hn)))
  -- the slot holds the session of another call
  · obtain ⟨j, other, hj, howner, hgoes⟩ := h.slot m hm
    refine ⟨j, other, hcalls.mpr (Or.inr ⟨?_, hj⟩), howner, hgoes⟩
    rintro rfl
    obtain rfl : call = other := Option.some.inj (hi.symm.trans hj)
    exact hgoes (hcall ▸ trivial)

/-- **Every session keeps its owner.** -/
theorem owned_step (h : Owned s) (hstep : step isMedia s e = some s') : Owned s' := by
  cases steps_of_step hstep with
  | call exportAuthorization =>
    refine ⟨fun n session hn => ?_, fun j n other hj howner => ?_, fun n hn => ?_⟩
    · obtain ⟨other, hc, howner⟩ := h.creator n session hn
      exact ⟨other, Pool.getElem?_concat_eq_some.mpr (Or.inl hc), howner⟩
    · rcases Pool.getElem?_concat_eq_some.mp hj with hj | ⟨-, rfl⟩
      · exact h.own j n other hj howner
      · cases howner
    · obtain ⟨j, other, hj, howner⟩ := h.slot n hn
      exact ⟨j, other, Pool.getElem?_concat_eq_some.mpr (Or.inl hj), howner⟩
  | settle hi hcall hown hfailed hcached => exact h.settle hi hcall hown hfailed
  | publish hi hcall hslot => exact h.publish hi hcall
  | abort hi hown hcall he => exact h.abort hi hown hcall
  | idle => exact h
  | cleaned ok hi hcall => exact h.cleaned hi hcall ok

/-- What is returned from the cache by a call that was changed. -/
theorem cached_of_set (hi : s.calls[i]? = some call)
    (hcached : ∀ n, call'.phase = .returned (.cached n) → s.slot = some n) (j n : ℕ) (other : Call)
    (hj : (s.calls.set i call')[j]? = some other) (hother : other.phase = .returned (.cached n))
    (hne : s.calls[j]? ≠ some other) : s.slot = some n := by
  rcases (Pool.getElem?_set_eq_some hi).mp hj with ⟨rfl, rfl⟩ | ⟨-, hj⟩
  · exact hcached n hother
  · exact absurd hj hne

/-- **Every event keeps to the rule of the slot.** -/
theorem slotRule_step (hstep : step isMedia s e = some s') : SlotRule s e s' := by
  -- the slot is filled where it was empty, and emptied by the call whose session it holds
  cases steps_of_step hstep with
  | call exportAuthorization =>
    refine ⟨fun n hn hne => absurd hn hne, fun n hn hne => absurd hn hne,
      fun j n other hj hother hne => ?_⟩
    rcases Pool.getElem?_concat_eq_some.mp hj with hj | ⟨-, rfl⟩
    · exact absurd hj hne
    · cases hother
  | settle hi hcall hown hfailed hcached =>
    exact ⟨fun n hn hne => absurd hn hne, fun n hn hne => absurd hn hne, cached_of_set hi hcached⟩
  | publish hi hcall hslot =>
    refine ⟨fun _ _ _ => hslot, fun n hn _ => ?_, cached_of_set hi nofun⟩
    cases hslot.symm.trans hn
  | @abort _ i n call hi hown hcall he =>
    refine ⟨fun m hm hne => ?_, fun m hm hne => ?_, cached_of_set hi nofun⟩
    · change (if s.slot = some n then none else s.slot) = some m at hm
      split at hm
      · cases hm
      · exact absurd hm hne
    · change (if s.slot = some n then none else s.slot) ≠ some m at hne
      split at hne
      · next hslot =>
        obtain rfl : n = m := Option.some.inj (hslot.symm.trans hm)
        exact ⟨if_pos hslot, i, call, hi, hown, he⟩
      · exact absurd hm hne
  | idle =>
    exact ⟨fun n hn hne => absurd hn hne, fun n hn hne => absurd hn hne, fun j n other hj _ hne =>
      absurd hj hne⟩
  | cleaned ok hi hcall =>
    exact ⟨fun n hn hne => absurd hn hne, fun n hn hne => absurd hn hne, cached_of_set hi nofun⟩

theorem Reachable.slot {n : ℕ} (h : Reachable isMedia s n) : s.slot = some n := by
  obtain ⟨e, s', i, call', hstep, hcall', hphase, hne⟩ := h
  exact (slotRule_step hstep).cached i n call' hcall' hphase hne

theorem owned_run {events : List Event} (hrun : run (step isMedia) {} events = some t) :
    Owned t := by
  refine run_of_invariant (fun _ _ _ h hstep => owned_step h hstep) ?_ hrun
  exact ⟨fun n session hn => (nomatch hn), fun i n call hi => (nomatch hi), fun n hn =>
    (nomatch hn)⟩

/-- A call that is over and owns a session has returned it. -/
theorem eq_created_of_ended {phase : Phase} {n : ℕ} (hended : phase.Ended)
    (hown : phase.own = some n) :
    phase = .returned (.created n) := by
  unfold Phase.Ended at hended
  split at hended
  · next value =>
    cases value with
    | main | cached m => cases hown
    | created m => rw [Option.some.inj hown]
  · cases hown
  · exact hended.elim

/-- **The cache**: in every run each event keeps to the rule of the slot and each session has
its owner; one session at most can be got from the cache, which is not stopped; and once
every call is over, each session was returned to the call that made it, or was stopped
by it. -/
theorem publication {events : List Event} (hrun : run (step isMedia) {} events = some t) :
    AllSteps (step isMedia) SlotRule {} events ∧ Owned t ∧
    (∀ n, Reachable isMedia t n → (∃ session, t.sessions[n]? = some session ∧ session.stop = none) ∧
      ∀ m, Reachable isMedia t m → m = n) ∧
    ((∀ call ∈ t.calls, call.phase.Ended) → ∀ (n : ℕ) (session : Session), t.sessions[n]? =
      some session →
      ∃ call : Call, t.calls[session.creator]? = some call ∧
        (call.phase = .returned (.created n) ∨ call.phase = .raised ∧ session.stop.isSome)) := by
  have howned := owned_run hrun
  have hrule : AllSteps (step isMedia) SlotRule {} events := by
    refine allSteps_of_step ?_ events _
    exact fun s e s' hstep => slotRule_step hstep
  refine ⟨hrule, howned, fun n hn => ⟨?_, fun m hm => ?_⟩, fun hended n session hn => ?_⟩
  · obtain ⟨i, call, hi, hown, -⟩ := howned.slot n hn.slot
    exact ⟨_, howned.own i n call hi hown, rfl⟩
  · exact Option.some.inj (hm.slot.symm.trans hn.slot)
  · obtain ⟨call, hcall, howner⟩ := howned.creator n session hn
    have hover := hended call (List.mem_of_getElem? hcall)
    exact ⟨call, hcall, howner.imp_left (eq_created_of_ended hover)⟩

/-- Two calls, of which the second gets the session of the first, which then fails. -/
theorem publication_twoCalls : ∃ t,
    run (step false) {} [.call false, .call false, .look 0 false true, .look 1 false true, .goOn 0,
      .goOn 0, .goOn 0,
      .goOn 1, .goOn 1, .goOn 1, .fail 0, .cleaned 0 true] = some t ∧
    AllSteps (step false) SlotRule {} [.call false, .call false, .look 0 false true,
      .look 1 false true, .goOn 0, .goOn 0,
      .goOn 0, .goOn 1, .goOn 1, .goOn 1, .fail 0, .cleaned 0 true] ∧ Owned t ∧
    (∀ n, Reachable false t n → (∃ session, t.sessions[n]? = some session ∧ session.stop = none) ∧
      ∀ m, Reachable false t m → m = n) ∧
    ((∀ call ∈ t.calls, call.phase.Ended) → ∀ (n : ℕ) (session : Session), t.sessions[n]? =
      some session →
      ∃ call : Call, t.calls[session.creator]? = some call ∧
        (call.phase = .returned (.created n) ∨ call.phase = .raised ∧ session.stop.isSome)) :=
  ⟨_, rfl, publication rfl⟩

end SessionCache

end Pyrogram
