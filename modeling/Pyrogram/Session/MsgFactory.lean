import Pyrogram.Runs
import Mathlib.Algebra.Order.Ring.Int
import Mathlib.Tactic.Common

/-!
# Message identities and sequence numbers

`MsgFactory` gives out message ids from the server time and sequence numbers from
a count of the content-related messages, each under a lock of its own.  A task
that finds a lock held suspends; nothing is awaited under a lock, so no task ever
finds one held, and `create` allocates both numbers without interruption.

The readings of the server time, in units of 2⁻³² s and without their fraction,
are an arbitrary sequence `clock`: setting the server time only moves them.

## Main definitions

* `MsgFactory.allocateMessageIdentity`, `MsgFactory.allocateMessageSequence`.
* `MsgFactory.Loop` — the factory and the tasks that call it.
* `MsgFactory.Follows` — the order of two messages, in both numbers.

## Main results

* `MsgFactory.invariant_step` — no task ever waits for a lock, and every new message
  follows all earlier ones.
* `MsgFactory.message_identities` — **the ids increase, the sequence numbers agree
  with them, and the odd ones are those of the content-related messages.**
-/

namespace Pyrogram

/-- The classes of bodies that `create` tells apart. -/
inductive MsgFactory.Kind
  | ping
  | httpWait
  | msgsAck
  | msgContainer
  /-- Any other object, which is content-related. -/
  | other
  deriving DecidableEq, Repr

/-- A body: its class and `len(body)`, which is `none` where writing it raises. -/
structure MsgFactory.Body where
  kind : MsgFactory.Kind
  length : Option ℕ
  deriving DecidableEq, Repr

/-- A `Message` that was created, without the body itself. -/
structure MsgFactory.Created where
  kind : MsgFactory.Kind
  msgId : ℤ
  seqNo : ℕ
  length : ℕ
  deriving DecidableEq, Repr

structure MsgFactory where
  lastMsgId : ℤ := 0
  msgIdLocked : Bool := false
  seqNoLocked : Bool := false
  contentRelatedMessagesSent : ℕ := 0
  /-- How often the server time was read. -/
  clockReads : ℕ := 0

namespace MsgFactory

variable (clock : ℕ → ℤ)

def Kind.isContentRelated : Kind → Bool
  | .ping | .httpWait | .msgsAck | .msgContainer => false
  | .other => true

/-- `allocate_message_identity`; `none` when the caller suspends on the lock. -/
def allocateMessageIdentity (f : MsgFactory) : Option (ℤ × MsgFactory) :=
  if f.msgIdLocked then none
  else
    let f := { f with msgIdLocked := true }
    let baseMsgId := clock f.clockReads - clock f.clockReads % 4
    let baseMsgId := if baseMsgId ≤ f.lastMsgId then f.lastMsgId + 4 else baseMsgId
    some (baseMsgId, { f with
      lastMsgId := baseMsgId, clockReads := f.clockReads + 1, msgIdLocked := false })

/-- `allocate_message_sequence`; `none` when the caller suspends on the lock. -/
def allocateMessageSequence (f : MsgFactory) (isContentRelated : Bool) :
    Option (ℕ × MsgFactory) :=
  if f.seqNoLocked then none
  else
    let f := { f with seqNoLocked := true }
    let seqNo := f.contentRelatedMessagesSent * 2 + if isContentRelated then 1 else 0
    let sent := if isContentRelated then f.contentRelatedMessagesSent + 1
      else f.contentRelatedMessagesSent
    some (seqNo, { f with contentRelatedMessagesSent := sent, seqNoLocked := false })

/-! ### The tasks -/

/-- Where a task that calls the factory is suspended. -/
inductive Task
  | idle
  /-- On the lock of the ids, in `create` with a body or on its own. -/
  | acquiringMsgId (body : Option Body)
  /-- On the lock of the sequence numbers, in `create`. -/
  | acquiringSeqNo (body : Body) (msgId : ℤ)

/-- The factory, the tasks, and what was given out, newest first. -/
structure Loop where
  factory : MsgFactory := {}
  tasks : ℕ → Task := fun _ => .idle
  handedOut : List ℤ := []
  created : List Created := []

inductive Event
  /-- Task `i` calls `allocate_message_identity`. -/
  | allocate (i : ℕ)
  /-- Task `i` calls `create`. -/
  | create (i : ℕ) (body : Body)
  /-- Task `i` is woken up. -/
  | resumed (i : ℕ)
  | cancelled (i : ℕ)

namespace Loop

def setTask (l : Loop) (i : ℕ) (t : Task) : Loop :=
  { l with tasks := Function.update l.tasks i t }

/-- `create` from `allocate_message_sequence` on. -/
def runSequence (l : Loop) (i : ℕ) (body : Body) (msgId : ℤ) : Loop :=
  match l.factory.allocateMessageSequence body.kind.isContentRelated with
  | none => l.setTask i (.acquiringSeqNo body msgId)
  | some (seqNo, f) =>
      { l.setTask i .idle with
        factory := f
        created := match body.length with
          | none => l.created
          | some length => ⟨body.kind, msgId, seqNo, length⟩ :: l.created }

/-- `allocate_message_identity`, and `create` where there is a body. -/
def runIdentity (l : Loop) (i : ℕ) (body : Option Body) : Loop :=
  match l.factory.allocateMessageIdentity clock with
  | none => l.setTask i (.acquiringMsgId body)
  | some (msgId, f) =>
      let l := { l with factory := f, handedOut := msgId :: l.handedOut }
      match body with
      | none => l.setTask i .idle
      | some body => l.runSequence i body msgId

def step (l : Loop) : Event → Option Loop
  | .allocate i =>
      match l.tasks i with
      | .idle => some (l.runIdentity clock i none)
      | _ => none
  | .create i body =>
      match l.tasks i with
      | .idle => some (l.runIdentity clock i (some body))
      | _ => none
  | .resumed i =>
      match l.tasks i with
      | .idle => none
      | .acquiringMsgId body =>
          if l.factory.msgIdLocked then none else some (l.runIdentity clock i body)
      | .acquiringSeqNo body msgId =>
          if l.factory.seqNoLocked then none else some (l.runSequence i body msgId)
  | .cancelled i => some (l.setTask i .idle)

end Loop

/-! ### The order of messages -/

/-- What the sequence numbers of later messages are at least. -/
def Created.next (m : Created) : ℕ := m.seqNo + if m.kind.isContentRelated then 1 else 0

/-- `m` was created after `m'`. -/
def Follows (m m' : Created) : Prop := m'.msgId < m.msgId ∧ m'.next ≤ m.seqNo

structure Invariant (l : Loop) : Prop where
  msgIdUnlocked : l.factory.msgIdLocked = false
  seqNoUnlocked : l.factory.seqNoLocked = false
  idle : ∀ i, l.tasks i = .idle
  lastMsgId : l.factory.lastMsgId % 4 = 0
  handedOut_le : ∀ msgId ∈ l.handedOut, msgId ≤ l.factory.lastMsgId ∧ msgId % 4 = 0
  increasing : l.handedOut.Pairwise (· > ·)
  created_mem : ∀ m ∈ l.created, m.msgId ∈ l.handedOut
  next_le : ∀ m ∈ l.created, m.next ≤ l.factory.contentRelatedMessagesSent * 2
  odd : ∀ m ∈ l.created, m.seqNo % 2 = 1 ↔ m.kind.isContentRelated = true
  follows : l.created.Pairwise Follows

variable {clock}

theorem invariant_empty : Invariant {} := by
  constructor <;> simp

/-- What allocating an id does: it is higher than all before, and the lock is free again. -/
theorem allocateMessageIdentity_of_unlocked (clock : ℕ → ℤ) {f : MsgFactory}
    (h : f.msgIdLocked = false)
    (hlast : f.lastMsgId % 4 = 0) :
    ∃ msgId reads, f.allocateMessageIdentity clock =
        some (msgId, { f with lastMsgId := msgId, clockReads := reads }) ∧
      f.lastMsgId < msgId ∧ msgId % 4 = 0 := by
  refine ⟨if clock f.clockReads - clock f.clockReads % 4 ≤ f.lastMsgId then f.lastMsgId + 4
    else clock f.clockReads - clock f.clockReads % 4, f.clockReads + 1, ?_, ?_, ?_⟩
  · rw [allocateMessageIdentity, h]
    simp
  · split <;> omega
  · split <;> omega

/-- What allocating a sequence number does. -/
theorem allocateMessageSequence_of_unlocked {f : MsgFactory} (h : f.seqNoLocked = false)
    (content : Bool) :
    f.allocateMessageSequence content =
      some (f.contentRelatedMessagesSent * 2 + (if content then 1 else 0),
        { f with contentRelatedMessagesSent := if content then f.contentRelatedMessagesSent + 1
          else f.contentRelatedMessagesSent }) := by
  rw [allocateMessageSequence, h]
  simp

/-- A task that stays idle changes nothing. -/
theorem Invariant.setTask {l : Loop} (hl : Invariant l) (i : ℕ) :
    Invariant (l.setTask i .idle) := by
  refine ⟨hl.msgIdUnlocked, hl.seqNoUnlocked, ?_, hl.lastMsgId, hl.handedOut_le, hl.increasing,
    hl.created_mem, hl.next_le, hl.odd, hl.follows⟩
  intro j
  show Function.update l.tasks i .idle j = .idle
  rw [Function.update_apply]
  split
  · rfl
  · exact hl.idle j

/-- An id that is handed out is higher than those of all messages. -/
theorem Invariant.handOut {l : Loop} (hl : Invariant l) {msgId : ℤ} (reads : ℕ)
    (hlt : l.factory.lastMsgId < msgId) (hmod : msgId % 4 = 0) :
    Invariant { l with
      factory := { l.factory with lastMsgId := msgId, clockReads := reads }
      handedOut := msgId :: l.handedOut } ∧ ∀ m ∈ l.created, m.msgId < msgId := by
  have hbelow : ∀ id ∈ l.handedOut, id < msgId := by
    intro id hid
    have hle := (hl.handedOut_le id hid).1
    omega
  refine ⟨⟨hl.msgIdUnlocked, hl.seqNoUnlocked, hl.idle, hmod, ?_, ?_, ?_, hl.next_le, hl.odd,
    hl.follows⟩, ?_⟩
  · intro id hid
    rcases List.mem_cons.mp hid with rfl | hid
    · exact ⟨le_refl _, hmod⟩
    · exact ⟨(hbelow id hid).le, (hl.handedOut_le id hid).2⟩
  · exact List.pairwise_cons.mpr ⟨hbelow, hl.increasing⟩
  · intro m hm
    exact List.mem_cons_of_mem msgId (hl.created_mem m hm)
  · intro m hm
    exact hbelow m.msgId (hl.created_mem m hm)

/-- **A message that is created follows all earlier ones.** -/
theorem Invariant.runSequence {l : Loop} (hl : Invariant l) (i : ℕ) (body : Body) {msgId : ℤ}
    (hmem : msgId ∈ l.handedOut) (hlast : ∀ m ∈ l.created, m.msgId < msgId) :
    Invariant (l.runSequence i body msgId) := by
  have hidle := hl.setTask i
  rw [Loop.runSequence, allocateMessageSequence_of_unlocked hl.seqNoUnlocked]
  -- the count goes up by one exactly for a content-related message
  have hsent : ∀ m ∈ l.created, m.next ≤ (if body.kind.isContentRelated = true
      then l.factory.contentRelatedMessagesSent + 1
      else l.factory.contentRelatedMessagesSent) * 2 := by
    intro m hm
    have hle := hl.next_le m hm
    split <;> omega
  cases hlength : body.length with
  | none =>
    exact ⟨hl.msgIdUnlocked, hl.seqNoUnlocked, hidle.idle, hl.lastMsgId, hl.handedOut_le,
      hl.increasing, hl.created_mem, hsent, hl.odd, hl.follows⟩
  | some length =>
    refine ⟨hl.msgIdUnlocked, hl.seqNoUnlocked, hidle.idle, hl.lastMsgId, hl.handedOut_le,
      hl.increasing, ?_, ?_, ?_, ?_⟩
    · intro m hm
      rcases List.mem_cons.mp hm with rfl | hm
      · exact hmem
      · exact hl.created_mem m hm
    · intro m hm
      rcases List.mem_cons.mp hm with rfl | hm
      · show _ + _ ≤ _
        simp only
        split <;> omega
      · exact hsent m hm
    · intro m hm
      rcases List.mem_cons.mp hm with rfl | hm
      · simp only
        split
        case isTrue h => exact ⟨fun _ => h, fun _ => by omega⟩
        case isFalse h => exact ⟨fun hodd => by omega, fun h' => absurd h' h⟩
      · exact hl.odd m hm
    · refine List.pairwise_cons.mpr ⟨?_, hl.follows⟩
      intro m hm
      refine ⟨hlast m hm, ?_⟩
      exact (hl.next_le m hm).trans (Nat.le_add_right _ _)

theorem Invariant.runIdentity {l : Loop} (hl : Invariant l) (i : ℕ) (body : Option Body) :
    Invariant (l.runIdentity clock i body) := by
  obtain ⟨msgId, reads, halloc, hlt, hmod⟩ :=
    allocateMessageIdentity_of_unlocked clock hl.msgIdUnlocked hl.lastMsgId
  obtain ⟨hl', hlast⟩ := hl.handOut reads hlt hmod
  rw [Loop.runIdentity, halloc]
  cases body with
  | none => exact hl'.setTask i
  | some body => exact hl'.runSequence i body List.mem_cons_self hlast

/-- **Every step keeps the invariant**: it hands out a higher id, and a message it
creates follows all earlier ones; no task is ever left waiting. -/
theorem invariant_step (l : Loop) (e : Event) (l' : Loop) (hl : Invariant l)
    (h : l.step clock e = some l') : Invariant l' := by
  cases e with
  | allocate i =>
    simp only [Loop.step, hl.idle i] at h
    obtain rfl := Option.some.inj h
    exact hl.runIdentity i none
  | create i body =>
    simp only [Loop.step, hl.idle i] at h
    obtain rfl := Option.some.inj h
    exact hl.runIdentity i (some body)
  | resumed i =>
    simp only [Loop.step, hl.idle i] at h
    cases h
  | cancelled i =>
    obtain rfl := Option.some.inj h
    exact hl.setTask i

/-- Of two messages the one with the higher id follows the other. -/
theorem Invariant.follows_of_lt {l : Loop} (hl : Invariant l) {a b : Created} (ha : a ∈ l.created)
    (hb : b ∈ l.created) (hab : a.msgId < b.msgId) : Follows b a := by
  have hall : ∀ ms : List Created, ms.Pairwise Follows → a ∈ ms → b ∈ ms → Follows b a := by
    intro ms
    induction ms with
    | nil => intro _ ha; cases ha
    | cons m ms ih =>
      intro hms ha hb
      obtain ⟨hm, hms⟩ := List.pairwise_cons.mp hms
      rcases List.mem_cons.mp ha with rfl | ha'
      · -- `a` is the newest, so nothing has a higher id
        rcases List.mem_cons.mp hb with rfl | hb'
        · exact absurd hab (lt_irrefl _)
        · exact absurd (hm b hb').1 (by omega)
      · rcases List.mem_cons.mp hb with rfl | hb'
        · exact hm a ha'
        · exact ih hms ha' hb'
  exact hall l.created hl.follows ha hb

/-- The sequence numbers of the content-related messages are all distinct. -/
theorem Invariant.nodup_seqNo {l : Loop} (hl : Invariant l) :
    ((l.created.filter fun m => m.seqNo % 2 = 1).map Created.seqNo).Nodup := by
  rw [List.Nodup, List.pairwise_map, List.pairwise_filter]
  refine hl.follows.imp_of_mem ?_
  intro m m' _ hm' hfollows _ hodd heq
  have hcontent := (hl.odd m' hm').mp (of_decide_eq_true hodd)
  have hnext : m'.next = m'.seqNo + 1 := by rw [Created.next, if_pos hcontent]
  have hle := hfollows.2
  omega

/-- **Message identities**, after every run of any number of tasks over any clock:
the ids handed out increase and are divisible by four; the sequence numbers follow
the ids, and two of them are equal only if they are even and no content-related
message lies between; the odd ones are those of the content-related messages, and
they are all distinct. -/
theorem message_identities {l : Loop} {es : List Event}
    (h : Runs.run (Loop.step clock) {} es = some l) :
    l.handedOut.Pairwise (· > ·) ∧ (∀ msgId ∈ l.handedOut, msgId % 4 = 0) ∧
      (∀ m ∈ l.created, m.msgId ∈ l.handedOut) ∧
      (∀ a ∈ l.created, ∀ b ∈ l.created, a.msgId < b.msgId → a.seqNo ≤ b.seqNo ∧
        (a.seqNo = b.seqNo → a.seqNo % 2 = 0 ∧ b.seqNo % 2 = 0 ∧
          ∀ c ∈ l.created, a.msgId < c.msgId → c.msgId < b.msgId →
            c.kind.isContentRelated = false)) ∧
      (∀ m ∈ l.created, m.seqNo % 2 = 1 ↔ m.kind.isContentRelated = true) ∧
      ((l.created.filter fun m => m.seqNo % 2 = 1).map Created.seqNo).Nodup := by
  have hl : Invariant l := Runs.run_of_invariant invariant_step invariant_empty h
  refine ⟨hl.increasing, fun msgId hid => (hl.handedOut_le msgId hid).2, hl.created_mem, ?_, hl.odd,
    hl.nodup_seqNo⟩
  intro a ha b hb hab
  have hfollows := (hl.follows_of_lt ha hb hab).2
  rw [Created.next] at hfollows
  refine ⟨by omega, ?_⟩
  intro heq
  have heven : ¬ a.kind.isContentRelated = true := by
    intro hcontent
    rw [if_pos hcontent] at hfollows
    omega
  have hodd : ¬ a.seqNo % 2 = 1 := by
    intro h
    exact heven ((hl.odd a ha).mp h)
  refine ⟨by omega, by omega, ?_⟩
  intro c hc hac hcb
  have h1 := (hl.follows_of_lt ha hc hac).2
  have h2 := (hl.follows_of_lt hc hb hcb).2
  rw [Created.next] at h1 h2
  by_contra hcontent
  rw [if_pos (by simpa using hcontent)] at h2
  omega

/-- Two tasks create messages while a third allocates an id, and the clock is set
back in between. -/
theorem message_identities_clockSetBack :
    ∃ l, Runs.run (Loop.step fun n => if n = 0 then 1000 else 7) {}
        [.create 0 ⟨.other, some 4⟩, .allocate 1, .create 2 ⟨.ping, some 12⟩] = some l ∧
      l.handedOut.Pairwise (· > ·) ∧ l.created.map Created.msgId = [1008, 1000] ∧
      ((l.created.filter fun m => m.seqNo % 2 = 1).map Created.seqNo).Nodup := by
  have hrun : Runs.run (Loop.step fun n => if n = 0 then 1000 else 7) {}
      [.create 0 ⟨.other, some 4⟩, .allocate 1, .create 2 ⟨.ping, some 12⟩] = some _ := rfl
  obtain ⟨hincreasing, -, -, -, -, hodd⟩ := message_identities hrun
  exact ⟨_, hrun, hincreasing, rfl, hodd⟩

end MsgFactory

end Pyrogram
