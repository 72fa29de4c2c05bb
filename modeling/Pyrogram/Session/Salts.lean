import Pyrogram.ByKey
import Mathlib.Data.Rat.Defs
import Mathlib.Algebra.Order.Ring.Rat
import Mathlib.Tactic.Linarith
import Mathlib.Tactic.NormNum

/-!
# Server salts

A session packs every message with a salt.  It asks the server for the salts of the coming hours,
keeps them in a pool, and takes the next one into use when its time comes; a salt that the server
names in a notice is taken at once.

## Main definitions

* `Pool.currentSalt` — the salt of a time, and the pool without the salts that it has passed.
* `Salts.updateFutureSalts` — asks for salts, where the last time was a minute ago.
* `Event`, `Salts.run` — answers, notices and calls in any order.
* `InUse` — the salt that ought to be used at a time.

## Main results

* `currentSalt_currentSalt` — salts that have been taken into use before make no difference.
* `salts_of_run` — **the salt in use is that of the latest entry reached**, and salts are asked for
  once a minute.
-/

namespace Pyrogram.Salts

open ByKey

structure FutureSalt where
  validSince : ℤ
  validUntil : ℤ
  salt : ℤ
  deriving DecidableEq, Repr

/-- The salt in use and those that wait for their time. -/
structure Pool where
  salt : ℤ
  saltValidUntil : ℚ := 0
  futureSalts : List FutureSalt := []
  deriving DecidableEq, Repr

def futureSaltsCount : ℕ := 64
def futureSaltsThreshold : ℚ := 60
def futureSaltsInterval : ℚ := 60

/-- A `GetFutureSalts` that was sent; `again` where `send` repeats one that the server refused. -/
structure Request where
  time : ℚ
  num : ℕ := futureSaltsCount
  again : Bool := false
  deriving DecidableEq, Repr

structure Session extends Pool where
  futureSaltsRequestedAt : ℚ := 0
  /-- What was sent, the latest last. -/
  requests : List Request := []
  deriving DecidableEq, Repr

/-! ### The code -/

/-- The loop of `_current_salt`, with the entries that are left. -/
def Pool.promote (serverTime : ℚ) : Pool → List FutureSalt → Pool
  | p, [] => { p with futureSalts := [] }
  | p, salt :: futureSalts =>
      if salt.validSince ≤ serverTime then
        promote serverTime { p with salt := salt.salt, saltValidUntil := salt.validUntil }
          futureSalts
      else { p with futureSalts := salt :: futureSalts }

/-- `_current_salt`: the salt it returns, and the pool it leaves. -/
def Pool.currentSalt (p : Pool) (serverTime : ℚ) : ℤ × Pool :=
  let p := p.promote serverTime p.futureSalts
  (p.salt, p)

/-- `_update_future_salts` up to its request. -/
def Session.updateFutureSalts (s : Session) (serverTime : ℚ) : Session :=
  if serverTime - s.futureSaltsRequestedAt < futureSaltsInterval then s
  else
    -- promoted first, so that `saltValidUntil` is of the salt in use
    let s := { s with toPool := (s.currentSalt serverTime).2 }
    if s.futureSalts ≠ [] ∧ s.saltValidUntil - serverTime > futureSaltsThreshold then s
    else { s with
      futureSaltsRequestedAt := serverTime
      requests := s.requests ++ [⟨serverTime, futureSaltsCount, false⟩] }

inductive Event
  /-- `_current_salt`, for a message that is packed. -/
  | ask (serverTime : ℚ)
  /-- The ping task calls `_update_future_salts`. -/
  | update (serverTime : ℚ)
  /-- A `FutureSalts` comes back to it. -/
  | answer (salts : List FutureSalt)
  /-- A `BadServerSalt` about some other message. -/
  | badServerSalt (newServerSalt : ℤ)
  /-- A `BadServerSalt` about a `GetFutureSalts`, which `send` sends again. -/
  | refused (newServerSalt : ℤ) (serverTime : ℚ)
  deriving DecidableEq, Repr

def Session.step (s : Session) : Event → Session
  | .ask serverTime => { s with toPool := (s.currentSalt serverTime).2 }
  | .update serverTime => s.updateFutureSalts serverTime
  | .answer salts => { s with futureSalts := byKey FutureSalt.validSince salts }
  | .badServerSalt newServerSalt => { s with salt := newServerSalt }
  | .refused newServerSalt serverTime =>
      { s with
        salt := newServerSalt
        requests := s.requests ++ [⟨serverTime, futureSaltsCount, true⟩] }

def Session.run (s : Session) (events : List Event) : Session := events.foldl Session.step s

/-! ### What is asked for -/

/-- The server time of a call. -/
def Event.time : Event → Option ℚ
  | ask serverTime | update serverTime | refused _ serverTime => some serverTime
  | answer _ | badServerSalt _ => none

/-- The event replaces neither the pool nor the salt. -/
def Event.IsQuiet : Event → Prop
  | ask _ | update _ => True
  | answer _ | badServerSalt _ | refused _ _ => False

/-- **The salt to use at a time**: that of the entry with the greatest `validSince` reached, or the
one in use. -/
def Pool.InUse (p : Pool) (t : ℚ) (salt : ℤ) : Prop :=
  (∃ e ∈ p.futureSalts, e.validSince ≤ t ∧
      (∀ e' ∈ p.futureSalts, e'.validSince ≤ t → e'.validSince ≤ e.validSince) ∧ salt = e.salt) ∨
    (∀ e ∈ p.futureSalts, t < e.validSince) ∧ salt = p.salt

def Pool.Sorted (p : Pool) : Prop := p.futureSalts.Pairwise fun e e' => e.validSince ≤ e'.validSince

/-- Requests of its own the session makes a minute apart. -/
def Spaced (requests : List Request) : Prop :=
  (requests.filter fun r => !r.again).Pairwise fun r r' => futureSaltsInterval ≤ r'.time - r.time

/-! ### Promotion -/

variable {p : Pool} {t t' : ℚ}

/-- What is left waits for a later time. -/
theorem promote_futureSalts (entries : List FutureSalt) :
    (p.promote t entries).futureSalts = entries.dropWhile fun e => e.validSince ≤ t := by
  induction entries generalizing p with
  | nil => rfl
  | cons e entries ih =>
    rw [Pool.promote]
    split
    · next h => rw [ih, List.dropWhile_cons_of_pos (by simpa using h)]
    · next h => rw [List.dropWhile_cons_of_neg (by simpa using h)]

theorem promote_with (futureSalts entries : List FutureSalt) :
    Pool.promote t { p with futureSalts } entries = p.promote t entries := by
  induction entries generalizing p with
  | nil => rfl
  | cons e entries ih =>
    rw [Pool.promote, Pool.promote]
    split
    · rw [← @ih { p with salt := e.salt, saltValidUntil := e.validUntil }]
    · rfl

/-- **Salts that have been taken into use before make no difference.** -/
theorem currentSalt_currentSalt (h : t ≤ t') :
    (p.currentSalt t).2.currentSalt t' = p.currentSalt t' := by
  have hpromote : ∀ (entries : List FutureSalt) (p : Pool),
      (p.promote t entries).promote t' (p.promote t entries).futureSalts =
        p.promote t' entries := by
    intro entries
    induction entries with
    | nil =>
      intro p
      rfl
    | cons e entries ih =>
      intro p
      rw [Pool.promote]
      split
      · next he => rw [ih, Pool.promote, if_pos (he.trans h)]
      · exact promote_with _ _
  simp only [Pool.currentSalt, hpromote]

/-- The salt of entries in order is that of the latest reached. -/
theorem inUse_promote {entries : List FutureSalt}
    (h : entries.Pairwise fun e e' => e.validSince ≤ e'.validSince) :
    Pool.InUse { p with futureSalts := entries } t (p.promote t entries).salt := by
  induction entries generalizing p with
  | nil => exact .inr ⟨by simp, rfl⟩
  | cons e entries ih =>
    obtain ⟨hle, hentries⟩ := List.pairwise_cons.mp h
    rw [Pool.promote]
    split
    · next he =>
      rcases ih hentries with ⟨e', he', ht, hmax, hsalt⟩ | ⟨hnone, hsalt⟩
      · refine .inl ⟨e', List.mem_cons_of_mem e he', ht, ?_, hsalt⟩
        rintro e'' (_ | ⟨_, he''⟩) ht''
        · exact hle e' he'
        · exact hmax e'' he'' ht''
      · -- none but the first is reached
        refine .inl ⟨e, List.mem_cons_self, he, ?_, hsalt⟩
        rintro e' (_ | ⟨_, he'⟩) ht'
        · exact le_rfl
        · exact absurd (hnone e' he') (not_lt.mpr ht')
    · next he =>
      refine .inr ⟨?_, rfl⟩
      rintro e' (_ | ⟨_, he'⟩)
      · exact not_le.mp he
      · exact (not_le.mp he).trans_le (by exact_mod_cast hle e' he')

theorem inUse_currentSalt (h : p.Sorted) : p.InUse t (p.currentSalt t).1 := inUse_promote h

theorem sorted_currentSalt (h : p.Sorted) : (p.currentSalt t).2.Sorted := by
  have hsuffix : (p.currentSalt t).2.futureSalts <:+ p.futureSalts := by
    simp only [Pool.currentSalt, promote_futureSalts]
    exact List.dropWhile_suffix _
  exact List.Pairwise.sublist hsuffix.sublist h

theorem lt_of_currentSalt (h : p.Sorted) :
    ∀ e ∈ (p.currentSalt t).2.futureSalts, t < e.validSince := by
  simp only [Pool.currentSalt, promote_futureSalts]
  have hentries : p.futureSalts.Pairwise fun e e' => e.validSince ≤ e'.validSince := h
  clear h
  revert hentries
  generalize p.futureSalts = entries
  intro h e he
  induction entries with
  | nil => cases he
  | cons first entries ih =>
    obtain ⟨hle, hentries⟩ := List.pairwise_cons.mp h
    by_cases hfirst : (first.validSince : ℚ) ≤ t
    · rw [List.dropWhile_cons_of_pos (by simpa using hfirst)] at he
      exact ih hentries he
    · rw [List.dropWhile_cons_of_neg (by simpa using hfirst)] at he
      have hlt := not_le.mp hfirst
      rcases List.mem_cons.mp he with rfl | he
      · exact hlt
      · exact hlt.trans_le (by exact_mod_cast hle e he)

/-! ### Runs -/

variable {s : Session}

theorem sorted_step (e : Event) (h : s.Sorted) : (s.step e).Sorted := by
  cases e with
  | ask t => exact sorted_currentSalt h
  | update t =>
    rw [Session.step, Session.updateFutureSalts]
    split
    · exact h
    · dsimp only
      split
      · exact sorted_currentSalt h
      · exact sorted_currentSalt h
  | answer salts => exact pairwise_byKey _ salts
  | badServerSalt newServerSalt => exact h
  | refused newServerSalt t => exact h

theorem sorted_run (events : List Event) (h : s.Sorted) : (s.run events).Sorted := by
  induction events generalizing s with
  | nil => exact h
  | cons e events ih => exact ih (sorted_step e h)

/-- **A call in between makes no difference** to the salt that is used later. -/
theorem currentSalt_step {e : Event} (hquiet : e.IsQuiet) (htime : ∀ t' ∈ e.time, t' ≤ t) :
    (s.step e).currentSalt t = s.currentSalt t := by
  cases e with
  | ask t' => exact currentSalt_currentSalt (htime t' rfl)
  | update t' =>
    rw [Session.step, Session.updateFutureSalts]
    split
    · rfl
    · dsimp only
      split
      · exact currentSalt_currentSalt (htime t' rfl)
      · exact currentSalt_currentSalt (htime t' rfl)
  | answer salts => exact hquiet.elim
  | badServerSalt newServerSalt => exact hquiet.elim
  | refused newServerSalt t' => exact hquiet.elim

theorem currentSalt_run {events : List Event} (hquiet : ∀ e ∈ events, e.IsQuiet)
    (htime : ∀ e ∈ events, ∀ t' ∈ e.time, t' ≤ t) :
    (s.run events).currentSalt t = s.currentSalt t := by
  induction events generalizing s with
  | nil => rfl
  | cons e events ih =>
    have hstep : (s.step e).currentSalt t = s.currentSalt t :=
      currentSalt_step (hquiet e List.mem_cons_self) (htime e List.mem_cons_self)
    rw [← hstep]
    exact ih (fun e' he' => hquiet e' (List.mem_cons_of_mem e he')) fun e' he' =>
      htime e' (List.mem_cons_of_mem e he')

/-- The requests of a session are a minute apart, and the last of them is known. -/
def Known (s : Session) : Prop :=
  Spaced s.requests ∧ ∀ r ∈ s.requests, r.again = false → r.time ≤ s.futureSaltsRequestedAt

theorem known_step (e : Event) (h : Known s) : Known (s.step e) := by
  obtain ⟨hspaced, hknown⟩ := h
  -- only a request that goes out after the interval is added to the requests
  cases e with
  | ask t => exact ⟨hspaced, hknown⟩
  | update t =>
    rw [Session.step, Session.updateFutureSalts]
    split
    · exact ⟨hspaced, hknown⟩
    · next hinterval =>
      dsimp only
      split
      · exact ⟨hspaced, hknown⟩
      · have hlate : futureSaltsInterval ≤ t - s.futureSaltsRequestedAt := not_lt.mp hinterval
        have hpos : 0 < futureSaltsInterval := by decide
        constructor
        · rw [Spaced, List.filter_append, List.pairwise_append]
          refine ⟨hspaced, List.pairwise_singleton _ _, ?_⟩
          intro r hr r' hr'
          obtain ⟨hr, hagain⟩ := List.mem_filter.mp hr
          obtain rfl := List.mem_singleton.mp hr'
          have hle := hknown r hr (by simpa using hagain)
          dsimp only
          linarith
        · intro r hr hagain
          rcases List.mem_append.mp hr with hr | hr
          · have hle := hknown r hr hagain
            dsimp only
            linarith
          · obtain rfl := List.mem_singleton.mp hr
            exact le_rfl
  | answer salts => exact ⟨hspaced, hknown⟩
  | badServerSalt newServerSalt => exact ⟨hspaced, hknown⟩
  -- a request that is sent again is not counted
  | refused newServerSalt t =>
    constructor
    · rw [Session.step, Spaced, List.filter_append]
      exact (List.append_nil _).symm ▸ hspaced
    · intro r hr hagain
      rcases List.mem_append.mp hr with hr | hr
      · exact hknown r hr hagain
      · obtain rfl := List.mem_singleton.mp hr
        cases hagain

theorem known_run (events : List Event) (h : Known s) : Known (s.run events) := by
  induction events generalizing s with
  | nil => exact h
  | cons e events ih => exact ih (known_step e h)

/-- **The salt in use is that of the latest entry reached** since the last answer or notice, or else
the one before; the pool it leaves is in order and lies ahead; and requests that do not repeat a
refused one are a minute apart. -/
theorem salts_of_run (salt : ℤ) (before quiet : List Event) (t : ℚ)
    (hquiet : ∀ e ∈ quiet, e.IsQuiet)
    (htimes : ((before ++ quiet).filterMap Event.time ++ [t]).Pairwise (· ≤ ·)) :
    let start : Session := { salt }
    let asked := (start.run (before ++ quiet)).currentSalt t
    (start.run before).InUse t asked.1 ∧ asked.2.Sorted ∧
      (∀ e ∈ asked.2.futureSalts, t < e.validSince) ∧
      Spaced (start.run (before ++ quiet)).requests := by
  intro start asked
  have hsorted : start.Sorted := List.Pairwise.nil
  have hknown : Known start := ⟨List.Pairwise.nil, by simp [start]⟩
  have htime : ∀ e ∈ quiet, ∀ t' ∈ e.time, t' ≤ t := by
    intro e he t' ht'
    have hmem : t' ∈ (before ++ quiet).filterMap Event.time :=
      List.mem_filterMap.mpr ⟨e, List.mem_append_right before he, ht'⟩
    exact (List.pairwise_append.mp htimes).2.2 t' hmem t List.mem_cons_self
  have hrun : (start.run (before ++ quiet)).currentSalt t = (start.run before).currentSalt t := by
    rw [Session.run, List.foldl_append]
    exact currentSalt_run hquiet htime
  refine ⟨?_, sorted_currentSalt (sorted_run _ hsorted), lt_of_currentSalt (sorted_run _ hsorted),
    (known_run _ hknown).1⟩
  have hasked : asked = (start.run before).currentSalt t := hrun
  rw [hasked]
  exact inUse_currentSalt (sorted_run before hsorted)

/-- The second of three salts is in use at 250, in whatever order they came. -/
theorem salts_of_run_second :
    let start : Session := { salt := 1 }
    let before : List Event :=
      [.ask 90, .update 100, .answer [⟨300, 400, 4⟩, ⟨100, 200, 2⟩, ⟨200, 300, 3⟩]]
    let asked := (start.run (before ++ [.ask 150])).currentSalt 250
    asked.1 = 3 ∧ asked.2.futureSalts = [⟨300, 400, 4⟩] ∧ (start.run before).InUse 250 asked.1 := by
  refine ⟨by decide, by decide, ?_⟩
  exact (salts_of_run 1
    [.ask 90, .update 100, .answer [⟨300, 400, 4⟩, ⟨100, 200, 2⟩, ⟨200, 300, 3⟩]] [.ask 150] 250
    (by simp [Event.IsQuiet]) (by decide)).1

/-- A request that is refused is sent again at once. -/
theorem not_spaced_of_refused :
    let start : Session := { salt := 1 }
    let events : List Event := [.update 100, .refused 2 100]
    (events.filterMap Event.time).Pairwise (· ≤ ·) ∧
      ¬ (start.run events).requests.Pairwise fun r r' => futureSaltsInterval ≤
        r'.time - r.time := by
  intro start events
  refine ⟨by decide, ?_⟩
  have hrequests : (start.run events).requests = [⟨100, futureSaltsCount, false⟩,
      ⟨100, futureSaltsCount, true⟩] := by
    have hlate : ¬ (100 : ℚ) - 0 < futureSaltsInterval := by norm_num [futureSaltsInterval]
    simp only [events, start, Session.run, List.foldl_cons, List.foldl_nil, Session.step,
      Session.updateFutureSalts, if_neg hlate]
    rfl
  rw [hrequests, List.pairwise_pair]
  norm_num [futureSaltsInterval]

end Pyrogram.Salts
