import Pyrogram.Crypto.Aes
import Pyrogram.Runs

/-!
# The obfuscated stream

`TCP.send` with `_encrypt` set encrypts under its lock; `TCPAbridgedO.send` encrypts
first and then calls `TCP.send` without `_encrypt`.  Either way an executor with one
worker runs `ctr256_encrypt`, which moves the counter in place, and the send waits
for it.  Nothing moves the counter back when the send is cancelled meanwhile.

The 64 bytes of the header are sent by `connect`, which leaves the counter where
the first frame finds it; the stream modelled here begins after them.

## Main definitions

* `Transport` — the counter, the executor, the lock, the sends on their way, and the
  bytes on the wire.
* `Transport.step` — one send runs to its next await, or is cancelled there.
* `Transport.InSync` — the peer decrypts the wire to the frames of the sends that
  wrote, and all the keystream used is on the wire or on its way there.
* `Transport.LosesNothing` — no send ends between its encryption and its write.

## Main results

* `Transport.inSync_of_losesNothing` — **where no step loses an encrypted frame,
  the stream stays in sync.**
* `Transport.cancelled_while_encrypting` — one lost frame garbles all that follow.
-/

namespace Pyrogram

open BlockModes Runs

/-- The transports with a continuous keystream: `TCP` with `_encrypt` set, over a
socket or a WEB carrier, and `TCPAbridgedO`. -/
inductive Transport.Kind
  | tcp
  | webProxy
  | abridgedO
  deriving DecidableEq, Repr

/-- A send on its way: its frame, and the bytes it is going to write. -/
structure Transport.Sending where
  frame : List UInt8
  data : List UInt8
  deriving DecidableEq, Repr

/-- Where the send that holds the lock is. -/
inductive Transport.Stage
  /-- Waiting for `marker_event`. -/
  | marking (s : Transport.Sending)
  /-- Waiting for the executor. -/
  | encrypting
  /-- In the carrier, with `rest` still to be handed over. -/
  | carrying (rest : List UInt8)
  /-- Waiting for `writer.drain()`. -/
  | draining
  deriving DecidableEq, Repr

structure Transport where
  /-- The `iv` and `state` of the cipher. -/
  counter : Aes.Counter
  /-- The connection is usable: the writer is open, the carrier has not failed. -/
  connected : Bool := true
  marker : Bool := false
  /-- The frames handed to the executor and not yet encrypted. -/
  jobs : List (List UInt8) := []
  /-- The sends whose frame is encrypted and that have not run since. -/
  encrypted : List Transport.Sending := []
  /-- The sends that wait for the lock. -/
  waiters : List Transport.Sending := []
  /-- The send that holds the lock. -/
  holder : Option Transport.Stage := none
  /-- The bytes written. -/
  wire : List UInt8 := []
  /-- The frames of the sends that wrote, in the order they wrote. -/
  frames : List (List UInt8) := []
  deriving DecidableEq, Repr

namespace Transport

/-- Where a send is cancelled, or fails: the `k`-th of those that wait for the same. -/
inductive Place
  | job (k : ℕ)
  | encrypted (k : ℕ)
  | waiting (k : ℕ)
  /-- The send that holds the lock, outside the executor. -/
  | holder
  deriving DecidableEq, Repr

inductive Event
  /-- `send` is called with this frame. -/
  | called (frame : List UInt8)
  /-- The executor encrypts the first frame handed to it. -/
  | executed
  /-- The send whose frame was encrypted first runs on. -/
  | resumed
  /-- The lock is given to the send that has waited longest. -/
  | granted
  | markerSet
  /-- The send that holds the lock has seen the marker. -/
  | marked
  /-- It has not, in time. -/
  | markerTimedOut
  /-- The carrier hands over `n` more bytes. -/
  | carried (n : ℕ)
  /-- `drain` returns, raises or times out. -/
  | drained
  | cancelled (place : Place)
  /-- The connection is closed or lost. -/
  | closed
  deriving DecidableEq, Repr

variable (cipher : Aes.Cipher) (key : List UInt8) (kind : Kind)

/-- `super().send` or `TCP.send` with the lock at hand: without a connection it
returns at once. -/
def enter (t : Transport) (s : Sending) : Transport :=
  if t.connected then { t with holder := some (.marking s) } else t

/-- `async with self.lock`. -/
def acquire (t : Transport) (s : Sending) : Transport :=
  if t.holder = none ∧ t.waiters = [] then t.enter s else { t with waiters := t.waiters ++ [s] }

/-- The lock is released. -/
def release (t : Transport) : Transport := { t with holder := none }

/-- `writer.write` or `_web_carrier.send`; a writer that is closing drops the data. -/
def write (t : Transport) (s : Sending) : Transport :=
  if ¬ t.connected then t.release
  else if kind = .webProxy then
    { t with holder := some (.carrying s.data), frames := t.frames ++ [s.frame] }
  else { t with
    holder := some .draining, wire := t.wire ++ s.data, frames := t.frames ++ [s.frame] }

/-- A send is cancelled or fails where it waits. -/
def cancel (t : Transport) : Place → Option Transport
  | .job k =>
      if k < t.jobs.length then
        let t := { t with jobs := t.jobs.eraseIdx k }
        some (if kind = .abridgedO then t else t.release)
      else none
  | .encrypted k =>
      if k < t.encrypted.length then
        let t := { t with encrypted := t.encrypted.eraseIdx k }
        some (if kind = .abridgedO then t else t.release)
      else none
  | .waiting k =>
      if k < t.waiters.length then some { t with waiters := t.waiters.eraseIdx k } else none
  | .holder =>
      match t.holder with
      | some (.marking _) | some (.carrying _) | some .draining => some t.release
      | some .encrypting | none => none

def step (t : Transport) : Event → Option Transport
  | .called frame =>
      if kind = .abridgedO then some { t with jobs := t.jobs ++ [frame] }
      else some (t.acquire ⟨frame, frame⟩)
  | .executed =>
      match t.jobs with
      | [] => none
      | frame :: jobs =>
          let (data, counter) := Aes.ctr cipher key t.counter frame
          some { t with
            jobs := jobs, counter := counter, encrypted := t.encrypted ++ [⟨frame, data⟩] }
  | .resumed =>
      match t.encrypted with
      | [] => none
      | s :: encrypted =>
          let t := { t with encrypted := encrypted }
          some (if kind = .abridgedO then t.acquire s else t.write kind s)
  | .granted =>
      match t.holder, t.waiters with
      | none, s :: waiters => some (enter { t with waiters := waiters } s)
      | _, _ => none
  | .markerSet => some { t with marker := true }
  | .marked =>
      match t.holder with
      | some (.marking s) =>
          if t.marker then
            some (if kind = .abridgedO then t.write kind s
              else { t with holder := some .encrypting, jobs := t.jobs ++ [s.frame] })
          else none
      | _ => none
  | .markerTimedOut =>
      match t.holder with
      | some (.marking _) => some t.release
      | _ => none
  | .carried n =>
      match t.holder with
      | some (.carrying rest) =>
          if t.connected then
            let t := { t with wire := t.wire ++ rest.take n }
            some (if rest.drop n = [] then t.release
              else { t with holder := some (.carrying (rest.drop n)) })
          else none
      | _ => none
  | .drained =>
      match t.holder with
      | some .draining => some t.release
      | _ => none
  | .cancelled place => t.cancel kind place
  | .closed => some { t with connected := false }

/-! ### Being in sync -/

/-- What the carrier has still to hand over. -/
def carriedRest (t : Transport) : List UInt8 :=
  match t.holder with
  | some (.carrying rest) => rest
  | _ => []

/-- The send that has the lock and waits for the marker. -/
def marking (t : Transport) : List Sending :=
  match t.holder with
  | some (.marking s) => [s]
  | _ => []

/-- The sends between encryption and write, in the order they will write. -/
def pending (t : Transport) : List Sending :=
  if kind = .abridgedO then t.marking ++ t.waiters ++ t.encrypted else t.encrypted

/-- The peer, whose keystream begins at `start`, decrypts the wire to the frames of
the sends that wrote, in that order; the last of them may still be on its way
through the carrier.  While the connection is usable all the keystream used is on
the wire, or belongs to a send that is about to write. -/
structure InSync (start : Aes.Counter) (t : Transport) : Prop where
  frames : ∃ rest, (Aes.keystream cipher key).apply start (t.wire ++ rest) = t.frames.flatten ∧
    (t.connected = true → rest = t.carriedRest)
  counter : t.connected = true → t.counter = (Aes.keystream cipher key).advance start
    (t.wire ++ t.carriedRest ++ ((t.pending kind).map Sending.data).flatten).length

/-- No send ends between the encryption of its frame and the write of its last byte,
while the connection is usable. -/
def LosesNothing (t : Transport) (e : Event) (_ : Transport) : Prop :=
  t.connected = true →
    match e with
    | .cancelled (.encrypted _) => False
    | .cancelled (.waiting _) => kind ≠ .abridgedO
    | .cancelled .holder =>
        (∀ s, t.holder = some (.marking s) → kind ≠ .abridgedO) ∧ t.carriedRest = []
    | .markerTimedOut => kind ≠ .abridgedO
    | _ => True

variable {cipher key kind} {start : Aes.Counter} {t t' : Transport} {s : Sending} {e : Event}

/-! ### Chains of encrypted frames -/

/-- Frames encrypted one after the other, with the keystream from `k` up to `k'`. -/
def Chain (K : Keystream Aes.Counter) : Aes.Counter → List Sending → Aes.Counter → Prop
  | k, [], k' => k = k'
  | k, s :: ss, k' => s.data = K.apply k s.frame ∧ Chain K (K.advance k s.frame.length) ss k'

theorem Chain.append {K : Keystream Aes.Counter} {k k' : Aes.Counter} {ss : List Sending}
    (h : Chain K k ss k') (frame : List UInt8) :
    Chain K k (ss ++ [⟨frame, K.apply k' frame⟩]) (K.advance k' frame.length) := by
  induction ss generalizing k with
  | nil =>
    obtain rfl : k = k' := h
    exact ⟨rfl, rfl⟩
  | cons s ss ih => exact ⟨h.1, ih h.2⟩

/-- The keystream of a chain is as long as its data. -/
theorem Chain.eq_advance {K : Keystream Aes.Counter} {k k' : Aes.Counter} {ss : List Sending}
    (h : Chain K k ss k') : k' = K.advance k ((ss.map Sending.data).flatten).length := by
  induction ss generalizing k with
  | nil => exact Eq.symm h
  | cons s ss ih =>
    rw [List.map_cons, List.flatten_cons, List.length_append, K.advance_add, h.1, K.length_apply]
    exact ih h.2

/-! ### The invariant -/

/-- The executor works for the send that holds the lock, or ahead of the lock. -/
def Shape (kind : Kind) (t : Transport) : Prop :=
  if kind = .abridgedO then t.holder ≠ some .encrypting ∧ t.carriedRest = []
  else if t.holder = some .encrypting then t.jobs.length + t.encrypted.length = 1
  else t.jobs = [] ∧ t.encrypted = []

structure Synced (cipher : Aes.Cipher) (key : List UInt8) (kind : Kind) (start : Aes.Counter)
    (t : Transport) : Prop where
  shape : t.Shape kind
  written : (Aes.keystream cipher key).apply start t.frames.flatten = t.wire ++ t.carriedRest
  chain : Chain (Aes.keystream cipher key)
    ((Aes.keystream cipher key).advance start t.frames.flatten.length) (t.pending kind) t.counter

structure Invariant (cipher : Aes.Cipher) (key : List UInt8) (kind : Kind) (start : Aes.Counter)
    (t : Transport) : Prop where
  frames : ∃ rest, (Aes.keystream cipher key).apply start t.frames.flatten = t.wire ++ rest
  synced : t.connected = true → t.Synced cipher key kind start

theorem Invariant.inSync (h : t.Invariant cipher key kind start) :
    t.InSync cipher key kind start := by
  have happly : ∀ rest, (Aes.keystream cipher key).apply start t.frames.flatten = t.wire ++ rest →
      (Aes.keystream cipher key).apply start (t.wire ++ rest) = t.frames.flatten := by
    intro rest hrest
    rw [← hrest, Keystream.apply_apply]
  constructor
  · by_cases hc : t.connected = true
    · exact ⟨t.carriedRest, happly _ (h.synced hc).written, fun _ => rfl⟩
    · obtain ⟨rest, hrest⟩ := h.frames
      exact ⟨rest, happly rest hrest, fun hc' => absurd hc' hc⟩
  · intro hc
    have hs := h.synced hc
    have hlen := congrArg List.length hs.written
    rw [Keystream.length_apply] at hlen
    rw [List.length_append, ← hlen, Keystream.advance_add]
    exact hs.chain.eq_advance

theorem pending_of_ne (h : kind ≠ .abridgedO) : t.pending kind = t.encrypted := if_neg h

/-! ### One step -/

/-- A step that writes nothing and leaves the chain alone. -/
theorem Synced.of_eq (h : t.Synced cipher key kind start) (hshape : t'.Shape kind)
    (hframes : t'.frames = t.frames) (hwire : t'.wire ++ t'.carriedRest = t.wire ++ t.carriedRest)
    (hpending : t'.pending kind = t.pending kind) (hcounter : t'.counter = t.counter) :
    t'.Synced cipher key kind start := by
  refine ⟨hshape, ?_, ?_⟩
  · rw [hframes, hwire]
    exact h.written
  · rw [hframes, hpending, hcounter]
    exact h.chain

/-- The executor encrypts a frame at the end of the chain. -/
theorem Synced.of_executed (h : t.Synced cipher key kind start) {frame : List UInt8}
    (hshape : t'.Shape kind) (hframes : t'.frames = t.frames)
    (hwire : t'.wire ++ t'.carriedRest = t.wire ++ t.carriedRest)
    (hpending : t'.pending kind = t.pending kind ++
      [⟨frame, (Aes.keystream cipher key).apply t.counter frame⟩])
    (hcounter : t'.counter = (Aes.keystream cipher key).advance t.counter frame.length) :
    t'.Synced cipher key kind start := by
  refine ⟨hshape, ?_, ?_⟩
  · rw [hframes, hwire]
    exact h.written
  · rw [hframes, hpending, hcounter]
    exact h.chain.append frame

/-- The send at the head of the chain writes. -/
theorem Synced.of_write (h : t.Synced cipher key kind start) {ss : List Sending}
    (hshape : t'.Shape kind) (hpending : t.pending kind = s :: ss)
    (hframes : t'.frames = t.frames ++ [s.frame])
    (hwire : t'.wire ++ t'.carriedRest = t.wire ++ t.carriedRest ++ s.data)
    (hpending' : t'.pending kind = ss) (hcounter : t'.counter = t.counter) :
    t'.Synced cipher key kind start := by
  have hchain := h.chain
  rw [hpending] at hchain
  obtain ⟨hdata, hchain⟩ := hchain
  have hflatten : t'.frames.flatten = t.frames.flatten ++ s.frame := by
    rw [hframes, List.flatten_append, List.flatten_singleton]
  refine ⟨hshape, ?_, ?_⟩
  · rw [hflatten, Keystream.apply_append, h.written, hwire, hdata]
  · rw [hflatten, List.length_append, Keystream.advance_add, hpending', hcounter]
    exact hchain

/-- A send that acquires the lock, or waits for it, writes nothing. -/
theorem acquire_eq (hc : t.connected = true) (s : Sending) :
    t.acquire s = { t with holder := some (.marking s) } ∧ t.holder = none ∧ t.waiters = [] ∨
      t.acquire s = { t with waiters := t.waiters ++ [s] } ∧
        ¬ (t.holder = none ∧ t.waiters = []) := by
  unfold acquire enter
  by_cases h : t.holder = none ∧ t.waiters = []
  · rw [if_pos h, if_pos hc]
    exact Or.inl ⟨rfl, h⟩
  · rw [if_neg h]
    exact Or.inr ⟨rfl, h⟩

/-- Outside the executor nothing is encrypted or about to be. -/
theorem shape_of_idle (hk : kind ≠ .abridgedO) (h : t.jobs = [] ∧ t.encrypted = [])
    (hholder : t.holder ≠ some .encrypting) : t.Shape kind := by
  rw [Shape, if_neg hk, if_neg hholder]
  exact h

theorem idle_of_shape (hk : kind ≠ .abridgedO) (h : t.Shape kind)
    (hholder : t.holder ≠ some .encrypting) : t.jobs = [] ∧ t.encrypted = [] := by
  rwa [Shape, if_neg hk, if_neg hholder] at h

/-- In the executor there is one frame, encrypted or about to be. -/
theorem length_of_shape (hk : kind ≠ .abridgedO) (h : t.Shape kind)
    (hbusy : t.jobs ≠ [] ∨ t.encrypted ≠ []) :
    t.holder = some .encrypting ∧ t.jobs.length + t.encrypted.length = 1 := by
  by_cases hholder : t.holder = some .encrypting
  · rw [Shape, if_neg hk, if_pos hholder] at h
    exact ⟨hholder, h⟩
  · have hidle := idle_of_shape hk h hholder
    rcases hbusy with hbusy | hbusy
    · exact absurd hidle.1 hbusy
    · exact absurd hidle.2 hbusy

/-- The send at the head of the chain writes, or gives its frame to the carrier. -/
theorem Synced.write (h : t.Synced cipher key kind start) (hc : t.connected = true)
    (hrest : t.carriedRest = []) {ss : List Sending} (hpending : t.pending kind = s :: ss)
    (hjobs : t'.counter = t.counter ∧ t'.connected = t.connected ∧ t'.wire = t.wire ∧
      t'.frames = t.frames)
    (hshape : (t'.write kind s).Shape kind) (hpending' : (t'.write kind s).pending kind = ss) :
    (t'.write kind s).Synced cipher key kind start := by
  obtain ⟨hcounter, hconnected, hwire, hframes⟩ := hjobs
  have hw : (t'.write kind s).frames = t.frames ++ [s.frame] ∧
      (t'.write kind s).counter = t.counter ∧
      (t'.write kind s).wire ++ (t'.write kind s).carriedRest = t.wire ++ s.data := by
    unfold Transport.write
    rw [if_neg (by simp [hconnected, hc]), ← hframes, ← hcounter, ← hwire]
    split
    · exact ⟨rfl, rfl, rfl⟩
    · exact ⟨rfl, rfl, List.append_nil _⟩
  refine h.of_write hshape hpending hw.1 ?_ hpending' hw.2.1
  rw [hrest, List.append_nil]
  exact hw.2.2

/-- After a write the send no longer waits for the executor. -/
theorem holder_write (hc : t.connected = true) (s : Sending) :
    (t.write kind s).holder ≠ some .encrypting ∧
      (kind = .abridgedO → (t.write kind s).holder = some .draining) := by
  unfold Transport.write
  rw [if_neg (by simp [hc])]
  split
  · next hk =>
    subst hk
    exact ⟨by simp, by simp⟩
  · exact ⟨by simp, by simp⟩

@[simp] theorem write_jobs (s : Sending) : (t.write kind s).jobs = t.jobs := by
  unfold Transport.write release
  split
  · rfl
  · split <;> rfl

@[simp] theorem write_encrypted (s : Sending) : (t.write kind s).encrypted = t.encrypted := by
  unfold Transport.write release
  split
  · rfl
  · split <;> rfl

@[simp] theorem write_waiters (s : Sending) : (t.write kind s).waiters = t.waiters := by
  unfold Transport.write release
  split
  · rfl
  · split <;> rfl

/-! ### What a step does -/

theorem step_executed (h : t.step cipher key kind .executed = some t') :
    ∃ frame jobs, t.jobs = frame :: jobs ∧ t' = { t with
      jobs := jobs, counter := (Aes.keystream cipher key).advance t.counter frame.length
      encrypted := t.encrypted ++ [⟨frame, (Aes.keystream cipher key).apply t.counter frame⟩]
        } := by
  simp only [step] at h
  split at h
  · cases h
  · next frame jobs hjobs =>
    rw [Aes.ctr_eq] at h
    exact ⟨frame, jobs, hjobs, (Option.some.inj h).symm⟩

theorem step_resumed (h : t.step cipher key kind .resumed = some t') :
    ∃ s encrypted, t.encrypted = s :: encrypted ∧ t' =
      if kind = .abridgedO then acquire { t with encrypted := encrypted } s
      else Transport.write kind { t with encrypted := encrypted } s := by
  simp only [step] at h
  split at h
  · cases h
  · next s encrypted hencrypted => exact ⟨s, encrypted, hencrypted, (Option.some.inj h).symm⟩

theorem step_granted (h : t.step cipher key kind .granted = some t') :
    ∃ s waiters, t.holder = none ∧ t.waiters = s :: waiters ∧
      t' = enter { t with waiters := waiters } s := by
  simp only [step] at h
  split at h
  · next s waiters hnone hwaiters => exact ⟨s, waiters, hnone, hwaiters, (Option.some.inj h).symm⟩
  · cases h

theorem step_marked (h : t.step cipher key kind .marked = some t') :
    ∃ s, t.holder = some (.marking s) ∧ t.marker = true ∧ t' =
      if kind = .abridgedO then t.write kind s
      else { t with holder := some .encrypting, jobs := t.jobs ++ [s.frame] } := by
  simp only [step] at h
  split at h
  · next s hmarking =>
    split at h
    · next hmarker => exact ⟨s, hmarking, hmarker, (Option.some.inj h).symm⟩
    · cases h
  · cases h

theorem step_markerTimedOut (h : t.step cipher key kind .markerTimedOut = some t') :
    ∃ s, t.holder = some (.marking s) ∧ t' = t.release := by
  simp only [step] at h
  split at h
  · next s hmarking => exact ⟨s, hmarking, (Option.some.inj h).symm⟩
  · cases h

theorem step_carried {n : ℕ} (h : t.step cipher key kind (.carried n) = some t') :
    ∃ rest, t.holder = some (.carrying rest) ∧ t.connected = true ∧ t' =
      if rest.drop n = [] then release { t with wire := t.wire ++ rest.take n }
      else { t with wire := t.wire ++ rest.take n, holder := some (.carrying (rest.drop n)) } := by
  simp only [step] at h
  split at h
  · next rest hcarrying =>
    split at h
    · next hc => exact ⟨rest, hcarrying, hc, (Option.some.inj h).symm⟩
    · cases h
  · cases h

theorem step_drained (h : t.step cipher key kind .drained = some t') :
    t.holder = some .draining ∧ t' = t.release := by
  simp only [step] at h
  split at h
  · next hdraining => exact ⟨hdraining, (Option.some.inj h).symm⟩
  · cases h

/-- A send that holds the lock lets go of it where it is cancelled. -/
theorem cancel_holder (h : t.cancel kind .holder = some t') :
    t.holder ≠ some .encrypting ∧ t' = t.release := by
  simp only [cancel] at h
  split at h
  · next hholder => exact ⟨by simp [hholder], (Option.some.inj h).symm⟩
  · next hholder => exact ⟨by simp [hholder], (Option.some.inj h).symm⟩
  · next hholder => exact ⟨by simp [hholder], (Option.some.inj h).symm⟩
  · cases h
  · cases h

/-! ### A transport that encrypts under its lock -/

/-- A step outside the executor that neither encrypts nor writes. -/
theorem Synced.of_idle (h : t.Synced cipher key kind start) (hk : kind ≠ .abridgedO)
    (hholder : t.holder ≠ some .encrypting) (hjobs : t'.jobs = t.jobs)
    (hencrypted : t'.encrypted = t.encrypted) (hholder' : t'.holder ≠ some .encrypting)
    (hframes : t'.frames = t.frames)
    (hwire : t'.wire ++ t'.carriedRest = t.wire ++ t.carriedRest)
    (hcounter : t'.counter = t.counter) : t'.Synced cipher key kind start := by
  have hidle := idle_of_shape hk h.shape hholder
  refine h.of_eq (shape_of_idle hk ?_ hholder') hframes hwire ?_ hcounter
  · rw [hjobs, hencrypted]
    exact hidle
  · rw [pending_of_ne hk, pending_of_ne hk, hencrypted]

/-- A send lets go of the lock. -/
theorem Synced.release_of_ne (h : t.Synced cipher key kind start) (hk : kind ≠ .abridgedO)
    (hholder : t.holder ≠ some .encrypting) (hrest : t.carriedRest = []) :
    t.release.Synced cipher key kind start := by
  refine h.of_idle hk hholder rfl rfl (by simp [release]) rfl ?_ rfl
  rw [hrest]
  rfl

theorem Synced.called_of_ne (h : t.Synced cipher key kind start) (hk : kind ≠ .abridgedO)
    (hc : t.connected = true) (s : Sending) : (t.acquire s).Synced cipher key kind start := by
  rcases acquire_eq hc s with ⟨he, hnone, -⟩ | ⟨he, -⟩
  · rw [he]
    refine h.of_idle hk (by simp [hnone]) rfl rfl (by simp) rfl ?_ rfl
    simp [carriedRest, hnone]
  · rw [he]
    refine h.of_eq h.shape rfl rfl ?_ rfl
    rw [pending_of_ne hk, pending_of_ne hk]

theorem Synced.executed_of_ne (h : t.Synced cipher key kind start) (hk : kind ≠ .abridgedO)
    {frame : List UInt8} {jobs : List (List UInt8)} (hjobs : t.jobs = frame :: jobs) :
    Synced cipher key kind start { t with
      jobs := jobs, counter := (Aes.keystream cipher key).advance t.counter frame.length
      encrypted := t.encrypted ++ [⟨frame, (Aes.keystream cipher key).apply t.counter frame⟩]
        } := by
  obtain ⟨hholder, hlen⟩ := length_of_shape hk h.shape (Or.inl (by simp [hjobs]))
  rw [hjobs, List.length_cons] at hlen
  refine h.of_executed ?_ rfl rfl ?_ rfl
  · rw [Shape, if_neg hk, if_pos hholder, List.length_append, List.length_singleton]
    show jobs.length + _ = 1
    omega
  · rw [pending_of_ne hk, pending_of_ne hk]

theorem Synced.resumed_of_ne (h : t.Synced cipher key kind start) (hk : kind ≠ .abridgedO)
    (hc : t.connected = true) {encrypted : List Sending} (henc : t.encrypted = s :: encrypted) :
    (Transport.write kind { t with encrypted := encrypted } s).Synced cipher key kind start := by
  obtain ⟨hholder, hlen⟩ := length_of_shape hk h.shape (Or.inr (by simp [henc]))
  rw [henc, List.length_cons] at hlen
  have hjobs : t.jobs = [] := List.length_eq_zero_iff.mp (by omega)
  have hnil : encrypted = [] := List.length_eq_zero_iff.mp (by omega)
  have hpending : t.pending kind = s :: encrypted := by rw [pending_of_ne hk, henc]
  refine h.write hc (by simp [carriedRest, hholder]) hpending ⟨rfl, rfl, rfl, rfl⟩ ?_ ?_
  · refine shape_of_idle hk ⟨by simpa using hjobs, by simpa using hnil⟩ ?_
    exact (holder_write (t := { t with encrypted := encrypted }) hc s).1
  · rw [pending_of_ne hk, write_encrypted]

/-- The carrier hands over more of a frame. -/
theorem Synced.carried_of_ne (h : t.Synced cipher key kind start) (hk : kind ≠ .abridgedO)
    {rest : List UInt8} (hholder : t.holder = some (.carrying rest)) (n : ℕ) :
    (if rest.drop n = [] then release { t with wire := t.wire ++ rest.take n }
      else { t with wire := t.wire ++ rest.take n, holder := some (.carrying (rest.drop n))
        }).Synced
        cipher key kind start := by
  have hrest : t.carriedRest = rest := by simp [carriedRest, hholder]
  have htake : t.wire ++ rest.take n ++ rest.drop n = t.wire ++ t.carriedRest := by
    rw [hrest, List.append_assoc, List.take_append_drop]
  split
  · next hnil =>
    refine h.of_idle hk (by simp [hholder]) rfl rfl (by simp [release]) rfl ?_ rfl
    rw [← htake, hnil]
    rfl
  · exact h.of_idle hk (by simp [hholder]) rfl rfl (by simp) rfl htake rfl

theorem Synced.cancel_of_ne (h : t.Synced cipher key kind start) (hk : kind ≠ .abridgedO)
    {place : Place} (hplace : ∀ k, place ≠ .encrypted k)
    (hrest : place = .holder → t.carriedRest = []) (hcancel : t.cancel kind place = some t') :
    t'.Synced cipher key kind start := by
  cases place with
  -- the send waited for the executor, and its frame was not encrypted yet
  | job k =>
    simp only [cancel, if_neg hk] at hcancel
    split at hcancel
    · next hlt =>
      obtain rfl := Option.some.inj hcancel
      obtain ⟨hholder, hlen⟩ := length_of_shape hk h.shape
        (Or.inl (List.ne_nil_of_length_pos (by omega)))
      have hjobs : t.jobs.eraseIdx k = [] := by
        refine List.length_eq_zero_iff.mp ?_
        rw [List.length_eraseIdx_of_lt hlt]
        omega
      have henc : t.encrypted = [] := List.length_eq_zero_iff.mp (by omega)
      refine h.of_eq (shape_of_idle hk ⟨hjobs, henc⟩ (by simp [release])) rfl ?_ ?_ rfl
      · simp [carriedRest, hholder, release]
      · rw [pending_of_ne hk, pending_of_ne hk]
        rfl
    · cases hcancel
  | encrypted k => exact absurd rfl (hplace k)
  | waiting k =>
    simp only [cancel] at hcancel
    split at hcancel
    · obtain rfl := Option.some.inj hcancel
      refine h.of_eq h.shape rfl rfl ?_ rfl
      rw [pending_of_ne hk, pending_of_ne hk]
    · cases hcancel
  -- the lock is given back, with nothing left to be written
  | holder =>
    obtain ⟨hholder, rfl⟩ := cancel_holder hcancel
    exact h.release_of_ne hk hholder (hrest rfl)

/-- **One step of a transport that encrypts under its lock.** -/
theorem synced_step_of_ne (hk : kind ≠ .abridgedO) (hc : t.connected = true)
    (h : t.Synced cipher key kind start) (hloss : t.LosesNothing kind e t')
    (hstep : t.step cipher key kind e = some t') (he : e ≠ .closed) :
    t'.Synced cipher key kind start := by
  -- this sender holds its lock over the executor and the writer, so nothing waits encrypted
  cases e with
  | called frame =>
    rw [step, if_neg hk] at hstep
    obtain rfl := Option.some.inj hstep
    exact h.called_of_ne hk hc _
  | executed =>
    obtain ⟨frame, jobs, hjobs, rfl⟩ := step_executed hstep
    exact h.executed_of_ne hk hjobs
  | resumed =>
    obtain ⟨s, encrypted, hencrypted, rfl⟩ := step_resumed hstep
    rw [if_neg hk]
    exact h.resumed_of_ne hk hc hencrypted
  | granted =>
    obtain ⟨s, waiters, hnone, hwaiters, rfl⟩ := step_granted hstep
    unfold enter
    rw [if_pos hc]
    refine h.of_idle hk (by simp [hnone]) rfl rfl (by simp) rfl ?_ rfl
    simp [carriedRest, hnone]
  | markerSet =>
    obtain rfl := Option.some.inj hstep
    refine h.of_eq h.shape rfl rfl ?_ rfl
    rw [pending_of_ne hk, pending_of_ne hk]
  | marked =>
    obtain ⟨s, hholder, -, rfl⟩ := step_marked hstep
    obtain ⟨hjobs, henc⟩ := idle_of_shape hk h.shape (by simp [hholder])
    rw [if_neg hk]
    refine h.of_eq ?_ rfl ?_ ?_ rfl
    · rw [Shape, if_neg hk, if_pos rfl, hjobs, henc]
      rfl
    · simp [carriedRest, hholder]
    · rw [pending_of_ne hk, pending_of_ne hk]
  | markerTimedOut =>
    obtain ⟨s, hholder, rfl⟩ := step_markerTimedOut hstep
    exact h.release_of_ne hk (by simp [hholder]) (by simp [carriedRest, hholder])
  | carried n =>
    obtain ⟨rest, hholder, -, rfl⟩ := step_carried hstep
    exact h.carried_of_ne hk hholder n
  | drained =>
    obtain ⟨hholder, rfl⟩ := step_drained hstep
    exact h.release_of_ne hk (by simp [hholder]) (by simp [carriedRest, hholder])
  | cancelled place =>
    -- a cancelled send loses what was encrypted but not written; the condition leaves that out
    refine h.cancel_of_ne hk ?_ ?_ hstep
    · rintro k rfl
      exact hloss hc
    · rintro rfl
      exact (hloss hc).2
  | closed => exact absurd rfl he

/-! ### A transport that encrypts before it asks for the lock -/

theorem pending_abridgedO : t.pending .abridgedO = t.marking ++ t.waiters ++ t.encrypted :=
  if_pos rfl

theorem shape_abridgedO :
    t.Shape .abridgedO ↔ t.holder ≠ some .encrypting ∧ t.carriedRest = [] := by
  rw [Shape, if_pos rfl]

/-- A step that writes nothing and does not change the order of the sends. -/
theorem Synced.of_pending (h : t.Synced cipher key .abridgedO start)
    (hholder : t'.holder ≠ some .encrypting) (hrest : t'.carriedRest = [])
    (hframes : t'.frames = t.frames) (hwire : t'.wire = t.wire)
    (hpending : t'.marking ++ t'.waiters ++ t'.encrypted = t.marking ++ t.waiters ++ t.encrypted)
    (hcounter : t'.counter = t.counter) : t'.Synced cipher key .abridgedO start := by
  refine h.of_eq (shape_abridgedO.mpr ⟨hholder, hrest⟩) hframes ?_ ?_ hcounter
  · rw [hwire, hrest, (shape_abridgedO.mp h.shape).2]
  · rw [pending_abridgedO, pending_abridgedO, hpending]

/-- A send lets go of the lock with nothing left to hand over. -/
theorem Synced.release (h : t.Synced cipher key .abridgedO start)
    (hmarking : ∀ s, t.holder ≠ some (.marking s)) :
    t.release.Synced cipher key .abridgedO start := by
  refine h.of_pending (by simp [Transport.release]) rfl rfl rfl ?_ rfl
  have hnil : t.marking = [] := by
    unfold marking
    split
    · next s hs => exact absurd hs (hmarking s)
    · rfl
  rw [hnil]
  rfl

theorem Synced.cancel (h : t.Synced cipher key .abridgedO start) {place : Place}
    (hplace : (∀ k, place ≠ .encrypted k) ∧ ∀ k, place ≠ .waiting k)
    (hmarking : place = .holder → ∀ s, t.holder ≠ some (.marking s))
    (hcancel : t.cancel .abridgedO place = some t') : t'.Synced cipher key .abridgedO start := by
  obtain ⟨hholder, hrest⟩ := shape_abridgedO.mp h.shape
  cases place with
  | job k =>
    simp only [Transport.cancel, if_pos] at hcancel
    split at hcancel
    · obtain rfl := Option.some.inj hcancel
      exact h.of_pending hholder hrest rfl rfl rfl rfl
    · cases hcancel
  | encrypted k => exact absurd rfl (hplace.1 k)
  | waiting k => exact absurd rfl (hplace.2 k)
  | holder =>
    obtain ⟨-, rfl⟩ := cancel_holder hcancel
    exact h.release (hmarking rfl)

/-- **One step of a transport that encrypts first.**  Everything on the way to the
wire is first in, first out: the executor, the wake-ups and the lock. -/
theorem synced_step_abridgedO (hc : t.connected = true)
    (h : t.Synced cipher key .abridgedO start) (hloss : t.LosesNothing .abridgedO e t')
    (hstep : t.step cipher key .abridgedO e = some t') (he : e ≠ .closed) :
    t'.Synced cipher key .abridgedO start := by
  obtain ⟨hholder, hrest⟩ := shape_abridgedO.mp h.shape
  cases e with
  | called frame =>
    obtain rfl := Option.some.inj hstep
    exact h.of_pending hholder hrest rfl rfl rfl rfl
  | executed =>
    obtain ⟨frame, jobs, hjobs, rfl⟩ := step_executed hstep
    refine h.of_executed (shape_abridgedO.mpr ⟨hholder, hrest⟩) rfl rfl ?_ rfl
    rw [pending_abridgedO, pending_abridgedO]
    exact (List.append_assoc _ _ _).symm
  | resumed =>
    obtain ⟨s, encrypted, henc, rfl⟩ := step_resumed hstep
    rw [if_pos rfl]
    rcases acquire_eq (t := { t with encrypted := encrypted }) hc
      s with ⟨he, hnone, hwaiters⟩ | ⟨he, -⟩
    · rw [he]
      refine h.of_pending (by simp) rfl rfl rfl ?_ rfl
      simp_all [marking]
    · rw [he]
      refine h.of_pending hholder hrest rfl rfl ?_ rfl
      simp [marking, henc]
  | granted =>
    obtain ⟨s, waiters, hnone, hwaiters, rfl⟩ := step_granted hstep
    unfold enter
    rw [if_pos hc]
    refine h.of_pending (by simp) rfl rfl rfl ?_ rfl
    simp [marking, hnone, hwaiters]
  | markerSet =>
    obtain rfl := Option.some.inj hstep
    exact h.of_pending hholder hrest rfl rfl rfl rfl
  | marked =>
    obtain ⟨s, hmarking, -, rfl⟩ := step_marked hstep
    have hpending : t.pending .abridgedO = s :: (t.waiters ++ t.encrypted) := by
      simp [pending, marking, hmarking]
    have hdraining : (t.write .abridgedO s).holder = some .draining := (holder_write hc s).2 rfl
    rw [if_pos rfl]
    refine h.write hc hrest hpending ⟨rfl, rfl, rfl, rfl⟩ ?_ ?_
    · exact shape_abridgedO.mpr ⟨by simp [hdraining], by simp [carriedRest, hdraining]⟩
    · simp [pending, marking, hdraining]
  | markerTimedOut => exact absurd rfl (hloss hc)
  | carried n =>
    obtain ⟨rest, hcarrying, -, rfl⟩ := step_carried hstep
    -- only the carrier of a WEB proxy is left with anything to hand over
    obtain rfl : rest = [] := by simpa [carriedRest, hcarrying] using hrest
    rw [List.take_nil, List.drop_nil, if_pos rfl, List.append_nil]
    exact h.release (by simp [hcarrying])
  | drained =>
    obtain ⟨hdraining, rfl⟩ := step_drained hstep
    refine h.of_pending (by simp [release]) rfl rfl rfl ?_ rfl
    simp [marking, hdraining, release]
  | cancelled place =>
    refine h.cancel ⟨?_, ?_⟩ ?_ hstep
    · rintro k rfl
      exact hloss hc
    · rintro k rfl
      exact hloss hc rfl
    · rintro rfl s hs
      exact (hloss hc).1 s hs rfl
  | closed => exact absurd rfl he

/-! ### Runs -/

/-- The step leaves the connection and what was written as they are. -/
def Silent (t t' : Transport) : Prop :=
  t'.connected = t.connected ∧ t'.wire = t.wire ∧ t'.frames = t.frames

theorem silent_enter (t : Transport) (s : Sending) : t.Silent (t.enter s) := by
  unfold enter
  split <;> exact ⟨rfl, rfl, rfl⟩

theorem silent_acquire (t : Transport) (s : Sending) : t.Silent (t.acquire s) := by
  unfold acquire
  split
  · exact silent_enter t s
  · exact ⟨rfl, rfl, rfl⟩

theorem silent_write (hc : t.connected = false) (s : Sending) : t.Silent (t.write kind s) := by
  unfold Transport.write
  rw [if_pos (by simp [hc])]
  exact ⟨rfl, rfl, rfl⟩

theorem silent_cancel {place : Place} (h : t.cancel kind place = some t') : t.Silent t' := by
  have hif : ∀ u : Transport, t.Silent u →
      t.Silent (if kind = .abridgedO then u else u.release) := by
    intro u hu
    split <;> exact hu
  cases place with
  | job k =>
    simp only [cancel] at h
    split at h
    · obtain rfl := Option.some.inj h
      exact hif _ ⟨rfl, rfl, rfl⟩
    · cases h
  | encrypted k =>
    simp only [cancel] at h
    split at h
    · obtain rfl := Option.some.inj h
      exact hif _ ⟨rfl, rfl, rfl⟩
    · cases h
  | waiting k =>
    simp only [cancel] at h
    split at h
    · obtain rfl := Option.some.inj h
      exact ⟨rfl, rfl, rfl⟩
    · cases h
  | holder =>
    obtain ⟨-, rfl⟩ := cancel_holder h
    exact ⟨rfl, rfl, rfl⟩

/-- Without a connection nothing is written, and it does not come back. -/
theorem step_of_not_connected (hc : t.connected = false)
    (hstep : t.step cipher key kind e = some t') :
    t'.connected = false ∧ t'.wire = t.wire ∧ t'.frames = t.frames := by
  -- without a connection nothing is written
  have hsilent : t.Silent t' → t'.connected = false ∧ t'.wire = t.wire ∧ t'.frames = t.frames := by
    rintro ⟨h1, h2, h3⟩
    exact ⟨h1.trans hc, h2, h3⟩
  cases e with
  | called frame =>
    simp only [step] at hstep
    split at hstep <;> obtain rfl := Option.some.inj hstep
    · exact ⟨hc, rfl, rfl⟩
    · exact hsilent (silent_acquire t _)
  | executed =>
    obtain ⟨frame, jobs, -, rfl⟩ := step_executed hstep
    exact ⟨hc, rfl, rfl⟩
  | resumed =>
    obtain ⟨s, encrypted, -, rfl⟩ := step_resumed hstep
    refine hsilent ?_
    split
    · exact silent_acquire { t with encrypted := encrypted } s
    · exact silent_write (t := { t with encrypted := encrypted }) hc s
  | granted =>
    obtain ⟨s, waiters, -, -, rfl⟩ := step_granted hstep
    exact hsilent (silent_enter { t with waiters := waiters } s)
  | markerSet =>
    obtain rfl := Option.some.inj hstep
    exact ⟨hc, rfl, rfl⟩
  | marked =>
    obtain ⟨s, -, -, rfl⟩ := step_marked hstep
    refine hsilent ?_
    split
    · exact silent_write hc s
    · exact ⟨rfl, rfl, rfl⟩
  | markerTimedOut =>
    obtain ⟨s, -, rfl⟩ := step_markerTimedOut hstep
    exact ⟨hc, rfl, rfl⟩
  | carried n =>
    obtain ⟨rest, -, hc', -⟩ := step_carried hstep
    exact absurd (hc.symm.trans hc') Bool.false_ne_true
  | drained =>
    obtain ⟨-, rfl⟩ := step_drained hstep
    exact ⟨hc, rfl, rfl⟩
  | cancelled place => exact hsilent (silent_cancel hstep)
  | closed =>
    obtain rfl := Option.some.inj hstep
    exact ⟨rfl, rfl, rfl⟩

/-- **A step that loses nothing keeps the invariant.** -/
theorem invariant_step (t : Transport) (e : Event) (t' : Transport)
    (h : t.Invariant cipher key kind start) (hloss : t.LosesNothing kind e t')
    (hstep : t.step cipher key kind e = some t') : t'.Invariant cipher key kind start := by
  rcases Bool.eq_false_or_eq_true t.connected with hc | hc
  · by_cases he : e = .closed
    · subst he
      obtain rfl := Option.some.inj hstep
      refine ⟨h.frames, ?_⟩
      intro hc'
      cases hc'
    · have hsynced : t'.Synced cipher key kind start := by
        by_cases hk : kind = .abridgedO
        · subst hk
          exact synced_step_abridgedO hc (h.synced hc) hloss hstep he
        · exact synced_step_of_ne hk hc (h.synced hc) hloss hstep he
      exact ⟨⟨t'.carriedRest, hsynced.written⟩, fun _ => hsynced⟩
  · obtain ⟨hc', hwire, hframes⟩ := step_of_not_connected hc hstep
    refine ⟨?_, ?_⟩
    · rw [hwire, hframes]
      exact h.frames
    · intro hc''
      cases hc'.symm.trans hc''

theorem invariant_start (start : Aes.Counter) :
    Invariant cipher key kind start { counter := start } := by
  have hsynced : Synced cipher key kind start { counter := start } := by
    refine ⟨?_, rfl, ?_⟩
    · rw [Shape]
      split
      · exact ⟨by simp, rfl⟩
      · exact ⟨rfl, rfl⟩
    · rw [pending]
      split <;> rfl
  exact ⟨⟨[], rfl⟩, fun _ => hsynced⟩

/-- **Where no step loses an encrypted frame the stream stays in sync**: after every
run, in which any number of sends interleave, are cancelled or fail, and the
connection is lost at any time. -/
theorem inSync_of_losesNothing {es : List Event}
    (hloss : AllSteps (step cipher key kind) (LosesNothing kind) { counter := start } es)
    (hrun : run (step cipher key kind) { counter := start } es = some t) :
    t.InSync cipher key kind start :=
  (run_of_invariant_of_allSteps invariant_step (invariant_start start) hloss hrun).inSync

/-- The event takes no send away from its frame once that is encrypted. -/
def Event.Harmless : Event → Prop
  | .cancelled (.job _) => True
  | .cancelled _ | .markerTimedOut => False
  | _ => True

instance : DecidablePred Event.Harmless := fun e => by
  unfold Event.Harmless
  split <;> infer_instance

theorem losesNothing_of_harmless {es : List Event} (h : ∀ e ∈ es, e.Harmless) :
    AllSteps (step cipher key kind) (LosesNothing kind) t es := by
  refine allSteps_of_invariant (I := fun _ => True) ?_ ?_ trivial (allSteps_of_forall_mem h)
  · intro t e t' _ _ he _
    cases e with
    | cancelled place =>
      cases place with
      | job k => trivial
      | encrypted k => exact he
      | waiting k => exact he.elim
      | holder => exact he.elim
    | markerTimedOut => exact he.elim
    | _ => trivial
  · intro _ _ _ _ _ _
    trivial

/-- The counter that counts from 0 to 15; with the identity for a cipher it is its
own keystream. -/
def countingStart : Aes.Counter := ⟨⟨(List.range 16).map UInt8.ofNat, rfl⟩, ⟨0, by decide⟩⟩

/-- A send is cancelled before the executor has begun with its frame. -/
theorem inSync_of_cancelled_in_time : ∃ t, run (step (fun _ => Equiv.refl _) [] .tcp)
      { counter := countingStart } [.markerSet, .called [1], .marked, .cancelled (.job 0),
        .called [2], .marked, .executed, .resumed, .drained] = some t ∧
    t.wire = [2] ∧ t.InSync (fun _ => Equiv.refl _) [] .tcp countingStart := by
  have hrun : run (step (fun _ => Equiv.refl _) [] .tcp) { counter := countingStart }
      [.markerSet, .called [1], .marked, .cancelled (.job 0),
        .called [2], .marked, .executed, .resumed, .drained] = some _ := rfl
  exact ⟨_, hrun, rfl, inSync_of_losesNothing (losesNothing_of_harmless (by decide)) hrun⟩

/-- A send is cancelled after the executor has encrypted its frame `[1]`, and the
next one writes the frame `[2]`: the peer decrypts it to `[3]`. -/
theorem cancelled_while_encrypting : ∃ t, run (step (fun _ => Equiv.refl _) [] .tcp)
      { counter := countingStart } [.markerSet, .called [1], .marked, .executed,
        .cancelled (.encrypted 0), .called [2], .marked, .executed, .resumed, .drained] = some t ∧
    t.connected = true ∧ t.frames = [[2]] ∧
    (Aes.keystream (fun _ => Equiv.refl _) []).apply countingStart t.wire = [3] ∧
    ¬ t.InSync (fun _ => Equiv.refl _) [] .tcp countingStart := by
  refine ⟨_, rfl, rfl, rfl, rfl, ?_⟩
  intro h
  obtain ⟨rest, hframes, hrest⟩ := h.frames
  obtain rfl := hrest rfl
  exact absurd hframes (by decide)

end Transport

end Pyrogram
