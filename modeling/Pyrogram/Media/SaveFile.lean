import Pyrogram.Pool
import Pyrogram.Runs
import Mathlib.Algebra.Order.Group.Multiset
import Mathlib.Data.List.TakeDrop
import Mathlib.Order.Bounds.Basic
import Mathlib.Tactic.Abel

/-!
# Uploads

`save_file` cuts a file into parts.  A producer puts them into a queue with one place, and
one worker, or four, take them out and send them, each until the call returns.  A worker
that loses its connection goes on with the fallback session, which is made once.

`asyncio` runs a task until it awaits, so an event of a run is what happens between two
awaits of one task, and it brings what the await ends with.

## Main definitions

* `Call`, `Part` — what is asked for, and what is sent.
* `Upload`, `step` — the producer, the queue, the workers and their owner.
* `Complete` — an upload that is acknowledged.
* `Sound` — **every part made is at one place**.

## Main results

* `sound_run` — what every run keeps.
* `uploaded_iff` — **when an upload that returns a file is complete**.
* `refused_returned` — an upload of which a part was refused.
-/

namespace Pyrogram

open Runs

namespace SaveFile

/-- `part_size`. -/
def partSize : ℕ := 512 * 1024

/-- What `save_file` is called with, for a path or an `io.IOBase`; `content` is what the
file holds. -/
structure Call where
  content : List UInt8
  /-- `getattr(fp, "name", ..)`. -/
  name : Option String := none
  fileId : Option ℤ := none
  filePart : ℤ := 0
  /-- A `progress` callback is given. -/
  progress : Bool := false
  isPremium : Bool := false
  /-- What `rnd_id` returns. -/
  rndId : ℤ
  deriving DecidableEq, Repr

namespace Call

def fileSize (c : Call) : ℕ := c.content.length

/-- `int(math.ceil(file_size / part_size))`; the quotient of floats is exact. -/
def fileTotalParts (c : Call) : ℕ := (c.fileSize + (partSize - 1)) / partSize

def isBig (c : Call) : Bool := 10 * 1024 * 1024 < c.fileSize

def workersCount (c : Call) : ℕ := if c.isBig then 4 else 1

def isMissingPart (c : Call) : Bool := c.fileId.isSome

/-- `file_id or self.rnd_id()`. -/
def id (c : Call) : ℤ :=
  match c.fileId with
  | some fileId => if fileId = 0 then c.rndId else fileId
  | none => c.rndId

def fileSizeLimitMib (c : Call) : ℕ := if c.isPremium then 4000 else 2000

end Call

/-- A `SaveBigFilePart`, or a `SaveFilePart`, which has no total. -/
structure Part where
  fileId : ℤ
  filePart : ℕ
  fileTotalParts : Option ℕ
  bytes : List UInt8
  deriving DecidableEq, Repr

/-- The session a part is sent over. -/
inductive Session
  | media
  | fallback
  deriving DecidableEq, Repr

/-- Where `produce` is. -/
inductive Producer
  /-- It has not started. -/
  | seeking
  | reading
  /-- It waits for room in the queue. -/
  | putting (part : Part)
  /-- It waits for the callback. -/
  | progress
  /-- It puts a `None` for each worker; `left` of them are missing. -/
  | stopping (left : ℕ)
  | done
  | failed
  deriving DecidableEq, Repr

/-- Where a worker is. -/
inductive Worker
  | getting
  /-- It waits for `fallback_lock` to choose a session. -/
  | choosing (part : Part)
  | invoking (part : Part) (session : Session)
  | sleeping (part : Part) (session : Session)
  /-- It has lost its connection, and waits for `fallback_lock`. -/
  | switching (part : Part)
  /-- It holds `fallback_lock` and waits for `_get_upload_fallback_session`. -/
  | connecting (part : Part)
  | done
  | failed (part : Part)
  deriving DecidableEq, Repr

/-- An `InputFile`, or an `InputFileBig`, which has no checksum. -/
structure InputFile where
  id : ℤ
  parts : ℕ
  name : String
  md5Checksum : Option String
  deriving DecidableEq, Repr

/-- What `save_file` ends with. -/
inductive Outcome
  | returned (file : Option InputFile)
  | raised
  deriving DecidableEq, Repr

end SaveFile

structure Upload where
  producer : SaveFile.Producer := .seeking
  /-- The position of `fp`. -/
  position : ℕ := 0
  filePart : ℕ := 0
  /-- What `md5_sum` has been updated with. -/
  md5Sum : List UInt8 := []
  md5Checksum : String := ""
  /-- The item of the queue. -/
  queue : Option (Option SaveFile.Part) := none
  workers : List SaveFile.Worker
  fallbackAttempted : Bool := false
  /-- There is a `fallback_session`. -/
  fallbackSession : Bool := false
  /-- The parts whose calls have returned, each with what was returned. -/
  answered : List (SaveFile.Part × Bool) := []
  outcome : Option SaveFile.Outcome := none
  deriving DecidableEq, Repr

namespace SaveFile

/-- What `part_session.invoke` ends with. -/
inductive Answer
  | returns (result : Bool)
  /-- `FloodWait` or `FloodPremiumWait`. -/
  | floodWait (seconds : Option ℕ)
  /-- `ConnectionError` or `TimeoutError`. -/
  | connectionError
  | raises
  deriving DecidableEq, Repr

/-- What `_get_upload_fallback_session` ends with. -/
inductive Fallback
  | session
  | none
  | raises
  deriving DecidableEq, Repr

inductive Event
  /-- The producer starts, goes on, or has waited for room. -/
  | produce
  /-- The callback has returned, or has raised. -/
  | progress (ok : Bool)
  | get (worker : ℕ)
  /-- A worker gets `fallback_lock`. -/
  | lock (worker : ℕ)
  | invoke (worker : ℕ) (answer : Answer)
  /-- A worker has slept. -/
  | wake (worker : ℕ)
  | fallback (worker : ℕ) (answer : Fallback)
  /-- The owner goes on after all the tasks. -/
  | finish
  /-- The owner fails: a task has, the watchdog has raised, or it has been cancelled. It sets
  `finished` and cancels the tasks. -/
  | fail
  deriving DecidableEq, Repr

/-- `"".join([hex(i)[2:].zfill(2) for i in digest])`. -/
def hexdigest (digest : List UInt8) : String :=
  String.join (digest.map fun b =>
    let digits := String.ofList (Nat.toDigits 16 b.toNat)
    if digits.length < 2 then "0" ++ digits else digits)

/-- The start of `save_file`; `none` where it raises. -/
def start (c : Call) : Option Upload :=
  if c.fileSize = 0 ∨ c.fileSizeLimitMib * 1024 * 1024 < c.fileSize then none
  else some { workers := List.replicate c.workersCount .getting }

/-- The part that is made of a chunk. -/
def Call.part (c : Call) (filePart : ℕ) (chunk : List UInt8) : Part where
  fileId := c.id
  filePart := filePart
  fileTotalParts := if c.isBig then some c.fileTotalParts else none
  bytes := chunk

end SaveFile

namespace Upload

open SaveFile

/-- `fp.read(part_size)` and what follows. -/
def read (c : Call) (md5 : List UInt8 → List UInt8) (s : Upload) : Upload :=
  let chunk := (c.content.drop s.position).take partSize
  if chunk = [] then
    { s with
      producer := .stopping s.workers.length
      md5Checksum := if !c.isBig && !c.isMissingPart then hexdigest (md5 s.md5Sum)
        else s.md5Checksum }
  else { s with
    producer := .putting (c.part s.filePart chunk)
    position := s.position + chunk.length }

/-- A part is in the queue. -/
def put (c : Call) (s : Upload) (part : Part) : Upload :=
  if c.isMissingPart then { s with
    producer := .stopping s.workers.length
    queue := some (some part) }
  else
    { s with
      producer := if c.progress then .progress else .reading
      md5Sum := if !c.isBig then s.md5Sum ++ part.bytes else s.md5Sum
      filePart := s.filePart + 1
      queue := some (some part) }

def produce (c : Call) (md5 : List UInt8 → List UInt8) (s : Upload) : Option Upload :=
  match s.producer with
  -- a negative position raises
  | .seeking =>
      if c.filePart < 0 then some { s with producer := .failed }
      else some { s with
        producer := .reading, position := partSize * c.filePart.toNat, filePart :=
          c.filePart.toNat }
  | .reading => some (s.read c md5)
  | .putting part => if s.queue = none then some (s.put c part) else none
  | .stopping 0 => some { s with producer := .done }
  | .stopping (left + 1) =>
      if s.queue = none then some { s with producer := .stopping left, queue := some none }
        else none
  | .progress | .done | .failed => none

/-- Nobody holds `fallback_lock`. -/
def lockFree (s : Upload) : Bool :=
  s.workers.all fun worker => match worker with
    | .connecting _ => false
    | _ => true

/-- A worker goes on. -/
def settle (s : Upload) (w : ℕ) (worker : Worker) : Upload :=
  { s with workers := s.workers.set w worker }

/-- The call of a worker has ended. -/
def invoke (s : Upload) (w : ℕ) (part : Part) (session : Session) : Answer → Upload
  -- what was returned is not looked at
  | .returns result => { s.settle w .getting with answered := s.answered ++ [(part, result)] }
  | .floodWait (some _) => s.settle w (.sleeping part session)
  | .floodWait none => s.settle w (.failed part)
  | .connectionError =>
      match session with
      | .fallback => s.settle w (.failed part)
      | .media => s.settle w (.switching part)
  | .raises => s.settle w (.failed part)

/-- A worker that lost its connection has the lock. -/
def switch (s : Upload) (w : ℕ) (part : Part) : Upload :=
  if !s.fallbackAttempted then { s.settle w (.connecting part) with fallbackAttempted := true }
  else if s.fallbackSession then s.settle w (.invoking part .fallback)
  else s.settle w (.failed part)

def result (c : Call) (s : Upload) : Option InputFile :=
  if c.isMissingPart then none
  else some {
    id := c.id
    parts := c.fileTotalParts
    name := c.name.getD "file.jpg"
    md5Checksum := if c.isBig then none else some s.md5Checksum }

end Upload

namespace SaveFile

/-- One event; `none` where it is not enabled. -/
def step (c : Call) (md5 : List UInt8 → List UInt8) (s : Upload) (e : Event) : Option Upload :=
  match s.outcome, e with
  | some _, _ => none
  | none, .produce => s.produce c md5
  | none, .progress ok =>
      match s.producer with
      | .progress => some { s with producer := if ok then .reading else .failed }
      | _ => none
  | none, .get w =>
      match s.workers[w]?, s.queue with
      | some .getting, some (some part) => some { s.settle w (.choosing part) with queue := none }
      | some .getting, some none => some { s.settle w .done with queue := none }
      | _, _ => none
  | none, .lock w =>
      match s.lockFree, s.workers[w]? with
      | true, some (.choosing part) =>
          some (s.settle w (.invoking part (if s.fallbackSession then .fallback else .media)))
      | true, some (.switching part) => some (s.switch w part)
      | _, _ => none
  | none, .invoke w answer =>
      match s.workers[w]? with
      | some (.invoking part session) => some (s.invoke w part session answer)
      | _ => none
  | none, .wake w =>
      match s.workers[w]? with
      | some (.sleeping part session) => some (s.settle w (.invoking part session))
      | _ => none
  | none, .fallback w answer =>
      match s.workers[w]?, answer with
      | some (.connecting part), .session =>
          some { s.settle w (.invoking part .fallback) with fallbackSession := true }
      | some (.connecting part), .none | some (.connecting part), .raises =>
          some (s.settle w (.failed part))
      | _, _ => none
  | none, .finish =>
      if s.producer = .done ∧ ∀ worker ∈ s.workers, worker = .done then
        some { s with outcome := some (.returned (s.result c)) }
      else none
  | none, .fail => some { s with outcome := some .raised }

/-! ### What is acknowledged -/

/-- The `i`-th part of the file. -/
def Call.partAt (c : Call) (i : ℕ) : Part :=
  c.part i ((c.content.drop (i * partSize)).take partSize)

/-- **An upload that is acknowledged**: the parts are as few as can hold the file, each was
answered with `True`, and the checksum is that of the file. -/
structure Complete (c : Call) (md5 : List UInt8 → List UInt8) (answered : List (Part × Bool))
    (file : InputFile) :
    Prop where
  parts : IsLeast {n | c.fileSize ≤ n * partSize} file.parts
  acknowledged : ∀ i < file.parts, ∃ part, (part, true) ∈ answered ∧
    part.fileId = file.id ∧ part.filePart = i ∧
    part.bytes = (c.content.take (min ((i + 1) * partSize) c.fileSize)).drop (i * partSize) ∧
    (c.isBig → part.fileTotalParts = some file.parts)
  md5Checksum : c.isBig = false → file.md5Checksum = some (hexdigest (md5 c.content))

/-- The parts a worker has. -/
def Worker.parts : Worker → Multiset Part
  | .choosing part | .invoking part _ | .sleeping part _ | .switching part | .connecting
      part | .failed part => {part}
  | .getting | .done => 0

def Producer.parts : Producer → Multiset Part
  | .putting part => {part}
  | .seeking | .reading | .progress | .stopping _ | .done | .failed => 0

end SaveFile

namespace Upload

open SaveFile

/-- The part in the queue. -/
def queued (s : Upload) : Multiset Part :=
  match s.queue with
  | some (some part) => {part}
  | _ => 0

/-- The parts whose calls have returned. -/
def sent (s : Upload) : Multiset Part := (s.answered.map Prod.fst : List Part)

/-- All parts there are. -/
def parts (s : Upload) : Multiset Part :=
  s.sent + Pool.total Worker.parts s.workers + s.queued + s.producer.parts

end Upload

namespace SaveFile

/-- The parts that have been made, by their numbers. -/
def made (c : Call) (s : Upload) : List ℕ :=
  List.range' c.filePart.toNat (s.filePart - c.filePart.toNat + s.producer.parts.card)

/-- The checksum is updated with the parts that were put into the queue. -/
def Hashed (c : Call) (s : Upload) : Prop :=
  c.isBig = false → c.filePart = 0 → s.md5Sum = c.content.take (s.filePart * partSize)

/-- The file has been read to its end. -/
structure Ended (c : Call) (md5 : List UInt8 → List UInt8) (s : Upload) : Prop where
  le : c.filePart.toNat ≤ s.filePart
  size : c.fileSize ≤ s.filePart * partSize
  md5Checksum : c.isBig = false → c.filePart = 0 → s.md5Checksum = hexdigest (md5 c.content)

/-- What is known while the producer is somewhere. -/
def AtProducer (c : Call) (md5 : List UInt8 → List UInt8) (s : Upload) : Producer → Prop
  | .seeking => s.filePart = 0 ∧ s.md5Sum = []
  | .reading | .progress => 0 ≤ c.filePart ∧ c.filePart.toNat ≤ s.filePart ∧
      c.content.drop s.position = c.content.drop (s.filePart * partSize) ∧ Hashed c s
  | .putting part => 0 ≤ c.filePart ∧ c.filePart.toNat ≤ s.filePart ∧ part = c.partAt s.filePart ∧
      c.content.drop s.position = c.content.drop ((s.filePart + 1) * partSize) ∧ Hashed c s
  | .stopping left => 0 ≤ c.filePart ∧ Ended c md5 s ∧ (left < s.workers.length → s.queued = 0)
  | .done => 0 ≤ c.filePart ∧ Ended c md5 s ∧ s.queued = 0
  | .failed => True

/-- **Every part made is at one place**: with the producer, in the queue, with a worker, or
sent. -/
structure Sound (c : Call) (md5 : List UInt8 → List UInt8) (s : Upload) : Prop where
  parts : s.parts = ((made c s).map c.partAt : List Part)
  bound : ∀ i ∈ made c s, i < c.fileTotalParts
  producer : AtProducer c md5 s s.producer
  workers : 0 < s.workers.length
  returned : ∀ file, s.outcome = some (.returned file) →
    s.producer = .done ∧ (∀ worker ∈ s.workers, worker = .done) ∧ file = s.result c

variable {c : Call} {md5 : List UInt8 → List UInt8} {s s' t : Upload} {events : List Event}
    {e : Event}

/-! ### Parts of a file -/

theorem fileTotalParts_le_iff (n : ℕ) : c.fileTotalParts ≤ n ↔ c.fileSize ≤ n * partSize := by
  rw [Call.fileTotalParts, Nat.div_le_iff_le_mul_add_pred (by decide), Nat.mul_comm,
    Nat.add_le_add_iff_right]

theorem isLeast_fileTotalParts (c : Call) :
    IsLeast {n | c.fileSize ≤ n * partSize} c.fileTotalParts :=
  ⟨(fileTotalParts_le_iff _).mp le_rfl, fun n hn => (fileTotalParts_le_iff n).mpr hn⟩

theorem bytes_partAt (c : Call) (i : ℕ) : (c.partAt i).bytes =
    (c.content.take (min ((i + 1) * partSize) c.fileSize)).drop (i * partSize) := by
  rw [List.drop_take]
  refine List.take_eq_take_iff.mpr ?_
  rw [List.length_drop, Nat.succ_mul, Call.fileSize]
  generalize i * partSize = k
  omega

theorem partAt_injective (c : Call) : Function.Injective c.partAt :=
  fun _ _ h => congrArg Part.filePart h

theorem drop_length_take {α : Type} (n : ℕ) (l : List α) : l.drop (l.take n).length = l.drop n := by
  rw [List.length_take]
  rcases le_total n l.length with h | h
  · rw [Nat.min_eq_left h]
  · rw [Nat.min_eq_right h, List.drop_length, List.drop_eq_nil_of_le h]

/-! ### The producer -/

/-- What is out, but for the producer. -/
def abroad (s : Upload) : Multiset Part := s.sent + Pool.total Worker.parts s.workers + s.queued

theorem parts_eq (s : Upload) : s.parts = abroad s + s.producer.parts := rfl

theorem made_of_parts_eq_zero (hs : s.producer.parts = 0) :
    made c s = List.range' c.filePart.toNat (s.filePart - c.filePart.toNat) := by
  rw [made, hs, Multiset.card_zero, add_zero]

/-- A producer that has no part in hand. -/
theorem Sound.of_abroad (h : Sound c md5 s) (hs : s.producer.parts = 0)
    (houtcome : s'.outcome = none)
    (hs' : s'.producer.parts = 0) (habroad : abroad s' = abroad s)
    (hfilePart : s'.filePart - c.filePart.toNat = s.filePart - c.filePart.toNat)
    (hworkers : s'.workers.length = s.workers.length)
    (hproducer : AtProducer c md5 s' s'.producer) :
    Sound c md5 s' := by
  have hmade : made c s' = made c s := by
    rw [made_of_parts_eq_zero hs, made_of_parts_eq_zero hs', hfilePart]
  refine ⟨?_, hmade ▸ h.bound, hproducer, hworkers ▸ h.workers, fun file hfile =>
    nomatch houtcome.symm.trans hfile⟩
  rw [parts_eq, habroad, hs', ← hs, ← parts_eq, hmade]
  exact h.parts

/-- A part is made. -/
theorem Sound.of_putting (h : Sound c md5 s) (hs : s.producer.parts = 0)
    (houtcome : s'.outcome = none)
    (hs' : s'.producer = .putting (c.partAt s.filePart)) (habroad : abroad s' = abroad s)
    (hfilePart : s'.filePart = s.filePart) (hle : c.filePart.toNat ≤ s.filePart)
    (hlt : s.filePart < c.fileTotalParts)
    (hworkers : s'.workers.length = s.workers.length)
    (hproducer : AtProducer c md5 s' s'.producer) :
    Sound c md5 s' := by
  have hmade : made c s' = made c s ++ [s.filePart] := by
    rw [made_of_parts_eq_zero hs, made, hs', hfilePart, Producer.parts, Multiset.card_singleton,
      List.range'_concat, one_mul, Nat.add_sub_cancel' hle]
  refine ⟨?_, ?_, hproducer, hworkers ▸ h.workers, fun file hfile =>
    nomatch houtcome.symm.trans hfile⟩
  · have hparts : abroad s + 0 = ((made c s).map c.partAt : List Part) := hs ▸ h.parts
    rw [hmade, List.map_append, ← Multiset.coe_add, ← hparts, add_zero, parts_eq, habroad, hs']
    rfl
  · rw [hmade]
    intro i hi
    rcases List.mem_append.mp hi with hi | hi
    · exact h.bound i hi
    · rwa [List.mem_singleton.mp hi]

/-- **A part is made** of what is read, or the file has ended. -/
theorem Sound.read (h : Sound c md5 s) (hmissing : c.isMissingPart = false)
    (houtcome : s.outcome = none)
    (hs : s.producer = .reading) : Sound c md5 (s.read c md5) := by
  obtain ⟨hpos, hle, hposition, hhashed⟩ : AtProducer c md5 s .reading := hs ▸ h.producer
  have hnone : s.producer.parts = 0 := by rw [hs]; rfl
  unfold Upload.read
  dsimp only
  by_cases hend : (c.content.drop s.position).take partSize = []
  · have hsize : c.fileSize ≤ s.filePart * partSize := by
      rw [hposition, List.take_eq_nil_iff, List.drop_eq_nil_iff] at hend
      exact hend.resolve_left (by decide)
    rw [if_pos hend]
    refine h.of_abroad hnone houtcome rfl rfl rfl rfl
      ⟨hpos, ⟨hle, hsize, fun hsmall hzero => ?_⟩, ?_⟩
    · simp [hsmall, hmissing, hhashed hsmall hzero, List.take_of_length_le hsize]
    · exact fun hlt => absurd hlt (lt_irrefl _)
  · have hlt : s.filePart < c.fileTotalParts := by
      refine not_le.mp fun hle => hend ?_
      rw [fileTotalParts_le_iff] at hle
      rw [hposition, List.drop_eq_nil_of_le hle, List.take_nil]
    have hpart : c.part s.filePart ((c.content.drop s.position).take partSize) =
        c.partAt s.filePart := by
      rw [hposition, Call.partAt]
    rw [if_neg hend, hpart]
    refine h.of_putting hnone houtcome rfl rfl rfl hle hlt rfl ⟨hpos, hle, rfl, ?_, hhashed⟩
    rw [← List.drop_drop, drop_length_take, hposition, List.drop_drop, Nat.succ_mul]

/-- **A part is put** into the queue. -/
theorem Sound.put (h : Sound c md5 s) (hmissing : c.isMissingPart = false)
    (houtcome : s.outcome = none)
    {part : Part} (hs : s.producer = .putting part) (hqueue : s.queue = none) :
    Sound c md5 (s.put c part) := by
  obtain ⟨hpos, hle, rfl, hposition, hhashed⟩ : AtProducer c md5 s (.putting part) :=
    hs ▸ h.producer
  -- the part goes into the queue, and the checksum takes its bytes in
  have hput : s.put c (c.partAt s.filePart) = { s with
      producer := if c.progress then .progress else .reading
      md5Sum := if !c.isBig then s.md5Sum ++ (c.partAt s.filePart).bytes else s.md5Sum
      filePart := s.filePart + 1
      queue := some (some (c.partAt s.filePart)) } := by
    rw [Upload.put, hmissing]
    rfl
  have hnone : ∀ b : Bool, (if b then Producer.progress else .reading).parts = 0 := by decide
  have hmade : made c (s.put c (c.partAt s.filePart)) = made c s := by
    rw [made_of_parts_eq_zero (by rw [hput, hnone]), made, hs, Producer.parts,
      Multiset.card_singleton, hput,
      Nat.sub_add_comm hle]
  refine ⟨?_, hmade ▸ h.bound, ?_, by rw [hput]; exact h.workers, fun file hfile => ?_⟩
  -- what is with the producer moves to the queue, so nothing is lost between them
  · have hqueued : s.queued = 0 := by rw [Upload.queued, hqueue]
    rw [hmade, ← h.parts, parts_eq, parts_eq, hs, hput, hnone, add_zero, abroad, abroad, hqueued,
      add_zero]
    rfl
  · have hreading : AtProducer c md5 (s.put c (c.partAt s.filePart)) .reading := by
      rw [hput]
      refine ⟨hpos, hle.trans (Nat.le_succ _), hposition, fun hsmall hzero => ?_⟩
      simp only [hsmall, hhashed hsmall hzero, Bool.not_false, if_true, Call.partAt, Call.part,
        Nat.succ_mul, List.take_add]
    rw [hput] at hreading ⊢
    cases c.progress <;> exact hreading
  · rw [hput] at hfile
    cases houtcome.symm.trans hfile

theorem Sound.produce (h : Sound c md5 s) (hmissing : c.isMissingPart = false)
    (houtcome : s.outcome = none)
    (hproduce : s.produce c md5 = some s') : Sound c md5 s' := by
  unfold Upload.produce at hproduce
  -- the producer goes on from where it stands: seeking, reading, putting, stopping
  split at hproduce
  · next hs =>
    obtain ⟨hfilePart, hmd5⟩ : AtProducer c md5 s .seeking := hs ▸ h.producer
    have hnone : s.producer.parts = 0 := by rw [hs]; rfl
    split at hproduce
    · cases hproduce
      exact h.of_abroad hnone houtcome rfl rfl rfl rfl trivial
    · next hpos =>
      cases hproduce
      refine h.of_abroad hnone houtcome rfl rfl ?_ rfl ⟨not_lt.mp hpos, le_rfl, ?_, fun _ hzero =>
        ?_⟩
      · dsimp only
        rw [hfilePart, Nat.sub_self, Nat.zero_sub]
      · dsimp only
        rw [Nat.mul_comm]
      · dsimp only
        rw [hzero, hmd5]
        rfl
  · next hs =>
    cases hproduce
    exact h.read hmissing houtcome hs
  · next part hs =>
    split at hproduce
    · next hqueue =>
      cases hproduce
      exact h.put hmissing houtcome hs hqueue
    · cases hproduce
  -- every end mark is put, or one more is when the queue is empty
  · next hs =>
    cases hproduce
    obtain ⟨hpos, hended, hqueued⟩ : AtProducer c md5 s (.stopping 0) := hs ▸ h.producer
    exact h.of_abroad (by rw [hs]; rfl) houtcome rfl rfl rfl rfl
      ⟨hpos, ⟨hended.le, hended.size, hended.md5Checksum⟩, hqueued h.workers⟩
  · next left hs =>
    obtain ⟨hpos, hended, hqueued⟩ : AtProducer c md5 s (.stopping (left + 1)) := hs ▸ h.producer
    split at hproduce
    · next hqueue =>
      cases hproduce
      have habroad : abroad { s with producer := .stopping left, queue := some none } =
          abroad s := by
        have hnone : s.queued = 0 := by rw [Upload.queued, hqueue]
        rw [abroad, abroad, hnone]
        rfl
      exact h.of_abroad (by rw [hs]; rfl) houtcome rfl habroad rfl rfl
        ⟨hpos, ⟨hended.le, hended.size, hended.md5Checksum⟩, fun _ => rfl⟩
    · cases hproduce
  · cases hproduce
  · cases hproduce
  · cases hproduce

/-! ### The workers -/

/-- The producer and the file are as they were. -/
structure SameFile (s s' : Upload) : Prop where
  producer : s'.producer = s.producer
  position : s'.position = s.position
  filePart : s'.filePart = s.filePart
  md5Sum : s'.md5Sum = s.md5Sum
  md5Checksum : s'.md5Checksum = s.md5Checksum

theorem AtProducer.of_same (hsame : SameFile s s') (hlength : s'.workers.length = s.workers.length)
    (hqueued : s.queued = 0 → s'.queued = 0) :
    ∀ {producer : Producer}, AtProducer c md5 s producer → AtProducer c md5 s' producer := by
  intro producer h
  have hhashed : Hashed c s → Hashed c s' := by
    intro h
    rwa [Hashed, hsame.md5Sum, hsame.filePart]
  have hended : Ended c md5 s → Ended c md5 s' := by
    rintro ⟨hle, hsize, hmd5⟩
    exact ⟨hsame.filePart ▸ hle, hsame.filePart ▸ hsize, hsame.md5Checksum ▸ hmd5⟩
  cases producer with
  | seeking => rwa [AtProducer, hsame.filePart, hsame.md5Sum]
  | reading | progress =>
    obtain ⟨hpos, hle, hposition, h⟩ := h
    exact ⟨hpos, hsame.filePart ▸ hle, by rw [hsame.position, hsame.filePart, hposition], hhashed h⟩
  | putting part =>
    obtain ⟨hpos, hle, hpart, hposition, h⟩ := h
    exact ⟨hpos, hsame.filePart ▸ hle, hsame.filePart ▸
      hpart, by rw [hsame.position, hsame.filePart, hposition],
      hhashed h⟩
  | stopping left =>
    obtain ⟨hpos, h, hstop⟩ := h
    exact ⟨hpos, hended h, fun hlt => hqueued (hstop (hlength ▸ hlt))⟩
  | done =>
    obtain ⟨hpos, h, hstop⟩ := h
    exact ⟨hpos, hended h, hqueued hstop⟩
  | failed => trivial

/-- **A worker goes on** with the part it has, or gives it away. -/
theorem Sound.of_settle (h : Sound c md5 s) {w : ℕ} {worker worker' : Worker}
    (hw : s.workers[w]? = some worker)
    (hworkers : s'.workers = s.workers.set w worker') (houtcome : s'.outcome = none)
    (hsame : SameFile s s')
    (hqueued : s.queued = 0 → s'.queued = 0)
    (hparts : s'.sent + worker'.parts + s'.queued = s.sent + worker.parts + s.queued) :
    Sound c md5 s' := by
  have hlength : s'.workers.length = s.workers.length := by rw [hworkers, List.length_set]
  have hmade : made c s' = made c s := by rw [made, made, hsame.producer, hsame.filePart]
  have htotal := Pool.total_set Worker.parts hw worker'
  have habroad : abroad s' = abroad s := by
    refine add_right_cancel (b := worker.parts) ?_
    calc abroad s' + worker.parts
        = (s'.sent + s'.queued) + (Pool.total Worker.parts (s.workers.set w worker') +
            worker.parts) := by
          rw [abroad, hworkers]
          abel
      _ = (s'.sent + worker'.parts + s'.queued) + Pool.total Worker.parts s.workers := by
          rw [htotal]
          abel
      _ = abroad s + worker.parts := by
          rw [hparts, abroad]
          abel
  refine ⟨?_, hmade ▸ h.bound, ?_, hlength ▸ h.workers, fun file hfile => ?_⟩
  · rw [parts_eq, habroad, hsame.producer, ← parts_eq, hmade]
    exact h.parts
  · rw [hsame.producer]
    exact h.producer.of_same hsame hlength hqueued
  · cases houtcome.symm.trans hfile

theorem Sound.switch (h : Sound c md5 s) {w : ℕ} {part : Part}
    (hw : s.workers[w]? = some (.switching part))
    (houtcome : s.outcome = none) : Sound c md5 (s.switch w part) := by
  unfold Upload.switch
  split
  · exact h.of_settle hw rfl houtcome ⟨rfl, rfl, rfl, rfl, rfl⟩ id rfl
  · split <;> exact h.of_settle hw rfl houtcome ⟨rfl, rfl, rfl, rfl, rfl⟩ id rfl

theorem Sound.invoke (h : Sound c md5 s) {w : ℕ} {part : Part} {session : Session}
    (hw : s.workers[w]? = some (.invoking part session)) (houtcome : s.outcome = none)
    (answer : Answer) :
    Sound c md5 (s.invoke w part session answer) := by
  cases answer with
  | returns result =>
    refine h.of_settle hw rfl houtcome ⟨rfl, rfl, rfl, rfl, rfl⟩ id ?_
    have hsent : (s.invoke w part session (.returns result)).sent = s.sent + {part} := by
      rw [Upload.sent, Upload.invoke, List.map_append, ← Multiset.coe_add]
      rfl
    rw [hsent]
    exact congrArg (· + s.queued) (add_zero (s.sent + {part}))
  | floodWait seconds =>
    cases seconds <;> exact h.of_settle hw rfl houtcome ⟨rfl, rfl, rfl, rfl, rfl⟩ id rfl
  | connectionError =>
    cases session <;> exact h.of_settle hw rfl houtcome ⟨rfl, rfl, rfl, rfl, rfl⟩ id rfl
  | raises => exact h.of_settle hw rfl houtcome ⟨rfl, rfl, rfl, rfl, rfl⟩ id rfl

theorem Sound.of_outcome (h : Sound c md5 s) {outcome : Outcome} (hreturned : ∀ file,
    some outcome = some (.returned file) →
      s.producer = .done ∧ (∀ worker ∈ s.workers, worker = .done) ∧ file = s.result c) :
    Sound c md5 { s with outcome := some outcome } := by
  have hsame : SameFile s { s with outcome := some outcome } := ⟨rfl, rfl, rfl, rfl, rfl⟩
  exact ⟨h.parts, h.bound, h.producer.of_same hsame rfl id, h.workers, hreturned⟩

/-- **Every event keeps each part at one place.** -/
theorem Sound.step (h : Sound c md5 s) (hmissing : c.isMissingPart = false)
    (hstep : step c md5 s e = some s') :
    Sound c md5 s' := by
  unfold SaveFile.step at hstep
  split at hstep
  -- one case for each event and, within it, for each place the producer or a worker may be at
  · cases hstep
  · next houtcome => exact h.produce hmissing houtcome hstep
  · next ok houtcome =>
    split at hstep
    · next hs =>
      cases hstep
      have hat : AtProducer c md5 s .progress := hs ▸ h.producer
      cases ok
      · exact h.of_abroad (by rw [hs]; rfl) houtcome rfl rfl rfl rfl trivial
      · exact h.of_abroad (by rw [hs]; rfl) houtcome rfl rfl rfl rfl hat
    · cases hstep
  -- a worker takes a part off the queue, or the end mark
  · next w houtcome =>
    split at hstep
    · next part hw hqueue =>
      cases hstep
      refine h.of_settle hw rfl houtcome ⟨rfl, rfl, rfl, rfl, rfl⟩ (fun _ => rfl) ?_
      have hqueued : s.queued = {part} := by rw [Upload.queued, hqueue]
      rw [hqueued]
      exact add_right_comm _ _ _
    · next hw hqueue =>
      cases hstep
      refine h.of_settle hw rfl houtcome ⟨rfl, rfl, rfl, rfl, rfl⟩ (fun _ => rfl) ?_
      have hqueued : s.queued = 0 := by rw [Upload.queued, hqueue]
      rw [hqueued]
      rfl
    · cases hstep
  -- the lock is free: a session is chosen for the part, or changed after a lost connection
  · next w houtcome =>
    split at hstep
    · next part _ hw =>
      cases hstep
      exact h.of_settle hw rfl houtcome ⟨rfl, rfl, rfl, rfl, rfl⟩ id rfl
    · next part _ hw =>
      cases hstep
      exact h.switch hw houtcome
    · cases hstep
  · next w answer houtcome =>
    split at hstep
    · next part session hw =>
      cases hstep
      exact h.invoke hw houtcome answer
    · cases hstep
  · next w houtcome =>
    split at hstep
    · next part session hw =>
      cases hstep
      exact h.of_settle hw rfl houtcome ⟨rfl, rfl, rfl, rfl, rfl⟩ id rfl
    · cases hstep
  · next w answer houtcome =>
    split at hstep
    · next part hw =>
      cases hstep
      exact h.of_settle hw rfl houtcome ⟨rfl, rfl, rfl, rfl, rfl⟩ id rfl
    · next part hw =>
      cases hstep
      exact h.of_settle hw rfl houtcome ⟨rfl, rfl, rfl, rfl, rfl⟩ id rfl
    · next part hw =>
      cases hstep
      exact h.of_settle hw rfl houtcome ⟨rfl, rfl, rfl, rfl, rfl⟩ id rfl
    · cases hstep
  -- the file is returned when every worker is done
  · next houtcome =>
    split at hstep
    · next hdone =>
      cases hstep
      exact h.of_outcome fun file hfile =>
        ⟨hdone.1, hdone.2, (Outcome.returned.inj (Option.some.inj hfile)).symm⟩
    · cases hstep
  · next houtcome =>
    cases hstep
    exact h.of_outcome fun file hfile => nomatch hfile

theorem sound_start (hstart : start c = some s) : Sound c md5 s := by
  unfold start at hstart
  split at hstart
  · cases hstart
  · cases hstart
    have hworkers : Pool.total Worker.parts (List.replicate c.workersCount .getting) = 0 :=
      Pool.total_eq_zero _ fun worker h => List.eq_of_mem_replicate h ▸ rfl
    have hmade : made c { workers := List.replicate c.workersCount .getting } = [] := by
      rw [made_of_parts_eq_zero rfl, Nat.zero_sub, List.range'_zero]
    refine ⟨?_, ?_, ⟨rfl, rfl⟩, ?_, fun file hfile => nomatch hfile⟩
    · rw [parts_eq, abroad, hworkers, hmade]
      rfl
    · rw [hmade]
      exact fun i hi => absurd hi List.not_mem_nil
    · rw [List.length_replicate, Call.workersCount]
      split <;> decide

theorem sound_run (hmissing : c.isMissingPart = false) (hstart : start c = some s)
    (hrun : run (step c md5) s events = some t) : Sound c md5 t :=
  run_of_invariant (fun _ _ _ h hstep => h.step hmissing hstep) (sound_start hstart) hrun

/-! ### Answers -/

/-- What the call of a worker has returned. -/
def Event.result : Event → Option Bool
  | .invoke _ (.returns result) => some result
  | _ => none

theorem answered_produce (h : s.produce c md5 = some s') :
    s'.answered = s.answered ∧ s'.outcome = s.outcome := by
  unfold Upload.produce at h
  split at h
  · split at h <;> cases h <;> exact ⟨rfl, rfl⟩
  · cases h
    unfold Upload.read
    dsimp only
    split <;> exact ⟨rfl, rfl⟩
  · split at h
    · cases h
      unfold Upload.put
      split <;> exact ⟨rfl, rfl⟩
    · cases h
  · cases h
    exact ⟨rfl, rfl⟩
  · split at h <;> cases h
    exact ⟨rfl, rfl⟩
  · cases h
  · cases h
  · cases h

theorem answered_switch (s : Upload) (w : ℕ) (part : Part) :
    (s.switch w part).answered = s.answered ∧ (s.switch w part).outcome = s.outcome := by
  unfold Upload.switch
  split
  · exact ⟨rfl, rfl⟩
  · split <;> exact ⟨rfl, rfl⟩

theorem answered_invoke (s : Upload) (w : ℕ) (part : Part) (session : Session) (answer : Answer) :
    (s.invoke w part session answer).answered.map Prod.snd =
        s.answered.map Prod.snd ++ (Event.invoke w answer).result.toList ∧
      (s.invoke w part session answer).outcome = s.outcome := by
  cases answer with
  | returns result => exact ⟨List.map_append, rfl⟩
  | floodWait seconds => cases seconds <;> exact ⟨(List.append_nil _).symm, rfl⟩
  | connectionError => cases session <;> exact ⟨(List.append_nil _).symm, rfl⟩
  | raises => exact ⟨(List.append_nil _).symm, rfl⟩

/-- An event adds its result, and only the last one ends the upload. -/
theorem answered_step (hstep : step c md5 s e = some s') :
    s'.answered.map Prod.snd = s.answered.map Prod.snd ++ e.result.toList ∧
      ∀ file, s'.outcome = some (.returned file) → file = s.result c := by
  have hsame : ∀ s' : Upload, s.outcome = none → e.result = none → s'.answered = s.answered ∧
    s'.outcome = s.outcome →
      s'.answered.map Prod.snd = s.answered.map Prod.snd ++ e.result.toList ∧
        ∀ file, s'.outcome = some (.returned file) → file = s.result c := by
    rintro s' houtcome hresult ⟨hanswered, hsame⟩
    rw [hanswered, hresult, Option.toList_none, List.append_nil]
    exact ⟨rfl, fun file hfile => nomatch (hsame.trans houtcome).symm.trans hfile⟩
  -- only the answer to a part adds to what was answered
  unfold SaveFile.step at hstep
  split at hstep
  · cases hstep
  · next houtcome => exact hsame s' houtcome rfl (answered_produce hstep)
  · next houtcome =>
    split at hstep <;> cases hstep
    exact hsame _ houtcome rfl ⟨rfl, rfl⟩
  · next houtcome =>
    split at hstep <;> cases hstep <;> exact hsame _ houtcome rfl ⟨rfl, rfl⟩
  · next houtcome =>
    split at hstep <;> cases hstep
    · exact hsame _ houtcome rfl ⟨rfl, rfl⟩
    · exact hsame _ houtcome rfl (answered_switch _ _ _)
  · next w answer houtcome =>
    split at hstep <;> cases hstep
    obtain ⟨hanswered, hsame⟩ := answered_invoke s w _ _ answer
    exact ⟨hanswered, fun file hfile => nomatch (hsame.trans houtcome).symm.trans hfile⟩
  · next houtcome =>
    split at hstep <;> cases hstep
    exact hsame _ houtcome rfl ⟨rfl, rfl⟩
  · next houtcome =>
    split at hstep <;> cases hstep <;> exact hsame _ houtcome rfl ⟨rfl, rfl⟩
  · split at hstep <;> cases hstep
    exact ⟨(List.append_nil _).symm, fun file hfile =>
      (Outcome.returned.inj (Option.some.inj hfile)).symm⟩
  · cases hstep
    exact ⟨(List.append_nil _).symm, fun file hfile => nomatch hfile⟩

theorem answered_run (hrun : run (step c md5) s events = some t) :
    t.answered.map Prod.snd = s.answered.map Prod.snd ++ events.filterMap Event.result := by
  induction events generalizing s with
  | nil =>
    cases hrun
    rw [List.filterMap_nil, List.append_nil]
  | cons e events ih =>
    obtain ⟨s', hstep, hrun⟩ := run_cons_eq_some hrun
    rw [ih hrun, (answered_step hstep).1, List.append_assoc]
    congr 1
    rw [List.filterMap_cons]
    cases e.result <;> rfl

theorem fileSize_ne_zero (hstart : start c = some s) : c.fileSize ≠ 0 := by
  unfold start at hstart
  split at hstart
  · cases hstart
  · next h => exact fun hzero => h (Or.inl hzero)

/-- The results of a run are those of its events. -/
theorem exists_answered_iff (hstart : start c = some s) (hrun : run (step c md5) s events = some t)
    (result : Bool) :
    (∃ part, (part, result) ∈ t.answered) ↔ ∃ w, Event.invoke w (.returns result) ∈ events := by
  have hnone : s.answered = [] := by
    unfold start at hstart
    split at hstart <;> cases hstart
    rfl
  have hanswered := answered_run hrun
  rw [hnone, List.map_nil, List.nil_append] at hanswered
  calc (∃ part, (part, result) ∈ t.answered)
      ↔ result ∈ t.answered.map Prod.snd := by simp
    _ ↔ result ∈ events.filterMap Event.result := by rw [hanswered]
    _ ↔ ∃ w, Event.invoke w (.returns result) ∈ events := by
        rw [List.mem_filterMap]
        constructor
        · rintro ⟨e, he, hresult⟩
          unfold Event.result at hresult
          split at hresult <;> cases hresult
          exact ⟨_, he⟩
        · rintro ⟨w, he⟩
          exact ⟨_, he, rfl⟩

/-- A missing part is uploaded without a file to return. -/
theorem not_isMissingPart (hstart : start c = some s) (hrun : run (step c md5) s events = some t)
    {file : InputFile}
    (hreturned : t.outcome = some (.returned (some file))) : c.isMissingPart = false := by
  by_contra hmissing
  have hnone : ∀ s : Upload, s.result c = none := fun s => if_pos (by simpa using hmissing)
  have hnot : ∀ file, t.outcome = some (.returned file) → file = none := by
    refine run_of_invariant (I := fun t : Upload => ∀ file, t.outcome = some (.returned file) →
      file = none) ?_ ?_ hrun
    · intro s e s' _ hstep file hfile
      exact ((answered_step hstep).2 file hfile).trans (hnone s)
    · unfold start at hstart
      split at hstart <;> cases hstart
      exact fun file hfile => nomatch hfile
  cases hnot _ hreturned

/-! ### Completeness -/

/-- **At the end every part has been sent**, once. -/
theorem Sound.sent_eq (h : Sound c md5 t) {file : Option InputFile}
    (hreturned : t.outcome = some (.returned file)) :
    t.sent = ((made c t).map c.partAt : List Part) := by
  obtain ⟨hdone, hworkers, -⟩ := h.returned file hreturned
  obtain ⟨-, -, hqueued⟩ : AtProducer c md5 t .done := hdone ▸ h.producer
  have hnone : t.producer.parts = 0 := by rw [hdone]; rfl
  have htotal : Pool.total Worker.parts t.workers = 0 :=
    Pool.total_eq_zero _ fun worker hworker => hworkers worker hworker ▸ rfl
  have hparts := h.parts
  rwa [parts_eq, hnone, add_zero, abroad, htotal, hqueued, add_zero, add_zero] at hparts

/-- **When an upload that returns a file is complete**: it started with the first part, and
no part was answered with `False`. -/
theorem uploaded_iff {file : InputFile} (hstart : start c = some s)
    (hrun : run (step c md5) s events = some t)
    (hreturned : t.outcome = some (.returned (some file))) :
    Complete c md5 t.answered file ↔ c.filePart = 0 ∧
      ∀ w, Event.invoke w (.returns false) ∉ events := by
  have hmissing := not_isMissingPart hstart hrun hreturned
  have hsound := sound_run hmissing hstart hrun
  have hsent := hsound.sent_eq hreturned
  obtain ⟨hdone, -, hfile⟩ := hsound.returned _ hreturned
  obtain ⟨hpos, hended, -⟩ : AtProducer c md5 t .done := hdone ▸ hsound.producer
  have hmade : made c t = List.range' c.filePart.toNat (t.filePart - c.filePart.toNat) :=
    made_of_parts_eq_zero (by rw [hdone]; rfl)
  have hmem : ∀ part, (∃ result, (part, result) ∈ t.answered) ↔
      ∃ i ∈ made c t, c.partAt i = part := by
    intro part
    have : part ∈ t.sent ↔ part ∈ (((made c t).map c.partAt : List Part) : Multiset Part) := by
      rw [hsent]
    simpa [Upload.sent] using this
  obtain rfl : file = ⟨c.id, c.fileTotalParts, c.name.getD "file.jpg", if c.isBig then none
      else some t.md5Checksum⟩ := by
    rw [Upload.result, hmissing] at hfile
    exact Option.some.inj hfile
  constructor
  · intro hcomplete
    have hpositive : ∀ i < c.fileTotalParts, (c.partAt i, true) ∈ t.answered := by
      intro i hi
      obtain ⟨part, hpart, -, hindex, -⟩ := hcomplete.acknowledged i hi
      obtain ⟨j, -, rfl⟩ := (hmem part).mp ⟨true, hpart⟩
      obtain rfl : j = i := hindex
      exact hpart
    constructor
    · have hfirst : 0 < c.fileTotalParts := by
        rw [← not_le, fileTotalParts_le_iff, Nat.zero_mul]
        exact fun hle => fileSize_ne_zero hstart (Nat.le_zero.mp hle)
      obtain ⟨i, hi, heq⟩ := (hmem _).mp ⟨true, hpositive 0 hfirst⟩
      obtain rfl : i = 0 := partAt_injective c heq
      rw [hmade, List.mem_range'_1] at hi
      omega
    · intro w hw
      obtain ⟨part, hpart⟩ := (exists_answered_iff hstart hrun false).mpr ⟨w, hw⟩
      obtain ⟨i, hi, rfl⟩ := (hmem part).mp ⟨false, hpart⟩
      -- each part is sent once
      have hnodup : (t.answered.map Prod.fst).Nodup := by
        rw [← Multiset.coe_nodup, ← Upload.sent, hsent, Multiset.coe_nodup, hmade]
        exact (List.nodup_range' ..).map (partAt_injective c)
      have htwice := List.inj_on_of_nodup_map hnodup (hpositive i (hsound.bound i hi)) hpart rfl
      cases congrArg Prod.snd htwice
  · rintro ⟨hzero, hrefused⟩
    refine ⟨isLeast_fileTotalParts c, fun i hi => ?_, fun hsmall => ?_⟩
    · have hmade' : i ∈ made c t := by
        have hle := (fileTotalParts_le_iff t.filePart).mpr hended.size
        rw [hmade, List.mem_range'_1, hzero]
        change i < c.fileTotalParts at hi
        exact ⟨Nat.zero_le i, by omega⟩
      obtain ⟨result, hresult⟩ := (hmem _).mpr ⟨i, hmade', rfl⟩
      cases result with
      | false =>
        obtain ⟨w, hw⟩ := (exists_answered_iff hstart hrun false).mp ⟨_, hresult⟩
        exact absurd hw (hrefused w)
      | true => exact ⟨_, hresult, rfl, rfl, bytes_partAt c i, fun hbig => if_pos hbig⟩
    · dsimp only
      rw [hsmall, hended.md5Checksum hsmall hzero]
      rfl

/-- A file of three bytes, of which the only part is waited for. -/
theorem uploaded_threeBytes : ∃ s t file,
    start { content := [1, 2, 3], rndId := 7 } = some s ∧
    run (step { content := [1, 2, 3], rndId := 7 } id) s
      [.produce, .produce, .produce, .get 0, .lock 0, .invoke 0 (.floodWait (some 3)), .wake 0,
        .invoke 0 (.returns true),
        .produce, .produce, .get 0, .produce, .finish] = some t ∧
    t.outcome = some (.returned (some file)) ∧
    (Complete { content := [1, 2, 3], rndId := 7 } id t.answered file ↔ (0 : ℤ) = 0 ∧
      ∀ w, Event.invoke w (.returns false) ∉
        [.produce, .produce, .produce, .get 0, .lock 0, .invoke 0 (.floodWait (some 3)), .wake 0,
          .invoke 0 (.returns true),
          .produce, .produce, .get 0, .produce, .finish]) :=
  ⟨_, _, _, rfl, rfl, rfl, uploaded_iff (s := { workers := [.getting] }) rfl rfl rfl⟩

/-- **A part that was refused**: its call has returned `False`, and the file is returned. -/
theorem refused_returned : ∃ s t file,
    start { content := [1, 2, 3], rndId := 7 } = some s ∧
    run (step { content := [1, 2, 3], rndId := 7 } id) s
      [.produce, .produce, .produce, .get 0, .lock 0, .invoke 0 (.returns false), .produce,
        .produce, .get 0, .produce,
        .finish] = some t ∧
    t.outcome = some (.returned (some file)) ∧
    ¬ Complete { content := [1, 2, 3], rndId := 7 } id t.answered file := by
  refine ⟨_, _, _, rfl, rfl, rfl, fun hcomplete => ?_⟩
  obtain ⟨part, hpart, -⟩ := hcomplete.acknowledged 0 (by decide)
  cases List.mem_singleton.mp hpart

end SaveFile

end Pyrogram
