import Pyrogram.OrderedLog
import Pyrogram.Updates.Conversation

/-!
# The log behind a recovery

A server that answers `recover_gaps` from a fixed log for every update state: an
answer lists the messages of a part of the log, and apart from them the other updates
of that part.  A part begins after the `pts` of the request; a slice and a channel
difference that is not final end at the `pts` they announce, the others at the end of
the log.

## Main definitions

* `Entry`, `MissedLog` — the log.
* `FromLog` — the answers a server may give from it.
* `delivered`, `jump` — what an answer brings, and what it skips.
* `Brings` — the calls that bring some entries.

## Main results

* `Brings.inOrder` — what is brought is brought once and in order.
* `FromLog.goesOn`, `FromLog.last` — what an answer brings, as a part of the log.
-/

namespace Pyrogram

open OrderedLog

variable {α : Type}

/-! ### Logs -/

/-- An entry of a log, with its `pts`. -/
inductive Entry (α : Type)
  | message (pts : ℤ) (message : α)
  | update (pts : ℤ) (update : Update α)

def Entry.pts : Entry α → ℤ
  | message pts _ | update pts _ => pts

/-- The messages among some entries. -/
def messagesOf (l : List (Entry α)) : List α :=
  l.filterMap fun
    | .message _ m => some m
    | .update _ _ => none

/-- The other updates among some entries. -/
def updatesOf (l : List (Entry α)) : List (Update α) :=
  l.filterMap fun
    | .message _ _ => none
    | .update _ u => some u

@[simp] theorem messagesOf_append (k l : List (Entry α)) :
    messagesOf (k ++ l) = messagesOf k ++ messagesOf l := List.filterMap_append

@[simp] theorem updatesOf_append (k l : List (Entry α)) :
    updatesOf (k ++ l) = updatesOf k ++ updatesOf l := List.filterMap_append

/-- The log of every update state, in the order of its `pts`. -/
structure MissedLog (α : Type) where
  entries : ℤ → List (Entry α)
  sorted : ∀ id, (entries id).Pairwise fun a b => a.pts ≤ b.pts

namespace MissedLog

variable (log : MissedLog α) (id : ℤ)

/-- The entries after `p`. -/
def since (p : ℤ) : List (Entry α) := (log.entries id).filter fun e => p < e.pts

/-- The entries after `p` up to `q`. -/
def between (p q : ℤ) : List (Entry α) := (log.entries id).filter fun e => p < e.pts ∧ e.pts ≤ q

/-- The entries whose `pts` have a property. -/
noncomputable def part (P : ℤ → Prop) : List (Entry α) := select Entry.pts (log.entries id) P

theorem since_eq_part (p : ℤ) : log.since id p = log.part id (p < ·) :=
  filter_eq_select (P := (p < ·))

theorem between_eq_part (p q : ℤ) : log.between id p q = log.part id fun x => p < x ∧ x ≤ q :=
  filter_eq_select (P := fun x => p < x ∧ x ≤ q)

variable {log id}

theorem part_eq_nil {P : ℤ → Prop} (h : ∀ x, ¬ P x) : log.part id P = [] :=
  select_eq_nil fun e _ => h e.pts

/-- A part splits at `p`. -/
theorem part_split {p : ℤ} {P A B : ℤ → Prop} (hA : ∀ x, A x ↔ P x ∧ x ≤ p)
    (hB : ∀ x, B x ↔ P x ∧ p < x) : log.part id P = log.part id A ++ log.part id B := by
  have hlow : log.part id A = log.part id fun x => P x ∧ x ≤ p :=
    select_congr fun e _ => hA e.pts
  have hhigh : log.part id B = log.part id fun x => P x ∧ p < x :=
    select_congr fun e _ => hB e.pts
  rw [hlow, hhigh]
  exact select_split (log.sorted id) p

end MissedLog

/-! ### Answers from a log -/

/-- What may be answered from a log to a request with `p` for the state `id`. -/
inductive FromLog (log : MissedLog α) (id p : ℤ) : Except InvokeError (Answer α) → Prop
  | error (e : InvokeError) : FromLog log id p (.error e)
  | empty (date seq : ℤ) (hid : ¬ id < zeroChannelId) (hnone : log.since id p = []) :
    FromLog log id p (.ok (.difference (.empty date seq)))
  | full (state : State) (hid : ¬ id < zeroChannelId) :
    FromLog log id p (.ok (.difference
      (.full (messagesOf (log.since id p)) (updatesOf (log.since id p)) state)))
  | slice (state : State) (hid : ¬ id < zeroChannelId) (hlt : p < state.pts) :
    FromLog log id p (.ok (.difference (.slice (messagesOf (log.between id p state.pts))
      (updatesOf (log.between id p state.pts)) state)))
  | tooLong (q : ℤ) (hid : ¬ id < zeroChannelId) (hle : p ≤ q) :
    FromLog log id p (.ok (.difference (.tooLong q)))
  | channelEmpty (q : ℤ) (hid : id < zeroChannelId) (hnone : log.since id p = []) :
    FromLog log id p (.ok (.channelDifference (.empty q)))
  | channelFinal (q : ℤ) (hid : id < zeroChannelId) :
    FromLog log id p (.ok (.channelDifference
      (.difference true q (messagesOf (log.since id p)) (updatesOf (log.since id p)))))
  | channelSlice (q : ℤ) (hid : id < zeroChannelId) (hlt : p < q) :
    FromLog log id p (.ok (.channelDifference (.difference false q
      (messagesOf (log.between id p q)) (updatesOf (log.between id p q)))))
  | channelTooLong (q : ℤ) (hid : id < zeroChannelId) (hle : p ≤ q) :
    FromLog log id p (.ok (.channelDifference (.tooLong (some q))))

/-- What an answer has enqueued, in this order. -/
def delivered : Except InvokeError (Answer α) → List (Enqueued α)
  | .ok (.difference (.full newMessages otherUpdates state))
  | .ok (.difference (.slice newMessages otherUpdates state)) =>
    newMessages.map (.newMessage · state.pts (-1)) ++ otherUpdates.map .update
  | .ok (.channelDifference (.difference _ pts newMessages otherUpdates)) =>
    newMessages.map (.newMessage · pts (-1)) ++ otherUpdates.map .update
  | _ => []

/-- The `pts` an answer jumps to. -/
def jump : Except InvokeError (Answer α) → Option ℤ
  | .ok (.difference (.tooLong pts)) => some pts
  | .ok (.channelDifference (.tooLong dialogPts)) => dialogPts
  | _ => none

/-- The messages among what was enqueued. -/
def messagesIn (es : List (Enqueued α)) : List α :=
  es.filterMap fun
    | .newMessage m _ _ => some m
    | .update _ => none

/-- The other updates among what was enqueued. -/
def updatesIn (es : List (Enqueued α)) : List (Update α) :=
  es.filterMap fun
    | .newMessage _ _ _ => none
    | .update u => some u

@[simp] theorem messagesIn_append (k l : List (Enqueued α)) :
    messagesIn (k ++ l) = messagesIn k ++ messagesIn l := List.filterMap_append

@[simp] theorem updatesIn_append (k l : List (Enqueued α)) :
    updatesIn (k ++ l) = updatesIn k ++ updatesIn l := List.filterMap_append

@[simp] theorem messagesIn_lists (ms : List α) (us : List (Update α)) (pts ptsCount : ℤ) :
    messagesIn (ms.map (.newMessage · pts ptsCount) ++ us.map .update) = ms := by
  simp [messagesIn, List.filterMap_map]

@[simp] theorem updatesIn_lists (ms : List α) (us : List (Update α)) (pts ptsCount : ℤ) :
    updatesIn (ms.map (.newMessage · pts ptsCount) ++ us.map .update) = us := by
  simp [updatesIn, List.filterMap_map]

/-- The calls that one answer makes for some entries: their messages, with the `pts` it
carries, and then their other updates. -/
def callsOf (pts : ℤ) (l : List (Entry α)) : List (Enqueued α) :=
  (messagesOf l).map (.newMessage · pts (-1)) ++ (updatesOf l).map .update

@[simp] theorem messagesIn_callsOf (pts : ℤ) (l : List (Entry α)) :
    messagesIn (callsOf pts l) = messagesOf l := messagesIn_lists _ _ _ _

@[simp] theorem updatesIn_callsOf (pts : ℤ) (l : List (Entry α)) :
    updatesIn (callsOf pts l) = updatesOf l := updatesIn_lists _ _ _ _

/-- Some calls brought some entries: the calls are those of one answer after the other,
and the parts of these answers, one after the other, are the entries. -/
def Brings (es : List (Enqueued α)) (l : List (Entry α)) : Prop :=
  ∃ parts : List (ℤ × List (Entry α)), parts.flatMap Prod.snd = l ∧
    parts.flatMap (fun part => callsOf part.1 part.2) = es

theorem brings_nil : Brings ([] : List (Enqueued α)) [] := ⟨[], rfl, rfl⟩

theorem brings_callsOf (pts : ℤ) (l : List (Entry α)) : Brings (callsOf pts l) l :=
  ⟨[(pts, l)], by simp, by simp⟩

theorem Brings.append {es fs : List (Enqueued α)} {k l : List (Entry α)} (h : Brings es k)
    (h' : Brings fs l) : Brings (es ++ fs) (k ++ l) := by
  obtain ⟨parts, rfl, rfl⟩ := h
  obtain ⟨parts', rfl, rfl⟩ := h'
  exact ⟨parts ++ parts', List.flatMap_append, List.flatMap_append⟩

/-- **What is brought is brought once and in order**: the messages among the calls are
the messages among the entries, and so for the other updates. -/
theorem Brings.inOrder {es : List (Enqueued α)} {l : List (Entry α)} (h : Brings es l) :
    messagesIn es = messagesOf l ∧ updatesIn es = updatesOf l := by
  obtain ⟨parts, rfl, rfl⟩ := h
  induction parts with
  | nil => exact ⟨rfl, rfl⟩
  | cons part parts ih => simp [ih]

namespace FromLog

variable {log : MissedLog α} {id p : ℤ} {a : Except InvokeError (Answer α)}

theorem part_between_self : log.part id (fun x => p < x ∧ x ≤ p) = [] :=
  MissedLog.part_eq_nil fun _ h => absurd h.1 (not_lt.mpr h.2)

/-- **An answer that asks for another request** brings the log up to the `pts` that is
reached with it, or jumps there. -/
theorem goesOn (h : FromLog log id p a) (hends : ends p a = false) :
    ∃ q, (announced a).getD (some p) = some q ∧ p ≤ q ∧
      (jump a = none ∧ Brings (delivered a) (log.part id fun x => p < x ∧ x ≤ q) ∨
        jump a = some q ∧ delivered a = []) := by
  cases h with
  | error e =>
    refine ⟨p, ?_, le_rfl, Or.inl ⟨rfl, ?_⟩⟩
    · cases e <;> rfl
    · rw [part_between_self]
      exact brings_nil
  | slice state hid hlt =>
    refine ⟨state.pts, rfl, hlt.le, Or.inl ⟨rfl, ?_⟩⟩
    rw [← log.between_eq_part]
    exact brings_callsOf _ _
  | tooLong q hid hle => exact ⟨q, rfl, hle, Or.inr ⟨rfl, rfl⟩⟩
  | channelSlice q hid hlt =>
    refine ⟨q, rfl, hlt.le, Or.inl ⟨rfl, ?_⟩⟩
    rw [← log.between_eq_part]
    exact brings_callsOf _ _
  | channelTooLong q hid hle => exact ⟨q, rfl, hle, Or.inr ⟨rfl, rfl⟩⟩
  | empty | full | channelEmpty | channelFinal => cases hends

/-- **The last answer**, unless it is an error, brings the rest of the log. -/
theorem last {b : Answer α} (h : FromLog log id p (.ok b)) (hends : ends p (.ok b) = true) :
    jump (.ok b) = none ∧ Brings (delivered (.ok b)) (log.part id (p < ·)) := by
  cases h with
  | empty date seq hid hnone | channelEmpty q hid hnone =>
    rw [← log.since_eq_part, hnone]
    exact ⟨rfl, brings_nil⟩
  | full state hid | channelFinal q hid =>
    rw [← log.since_eq_part]
    exact ⟨rfl, brings_callsOf _ _⟩
  | slice state hid hlt =>
    -- a slice that brings a new `pts` is not the last answer
    exact absurd (of_decide_eq_true hends) hlt.ne'
  | tooLong | channelSlice | channelTooLong => cases hends

end FromLog

end Pyrogram
