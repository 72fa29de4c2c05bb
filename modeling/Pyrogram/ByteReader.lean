import Pyrogram.BlockModes
import Mathlib.Data.Int.Order.Basic

/-!
# Readers of bytes

Something that bytes are read out of, an exact number of them at a time, in whatever pieces it gets
them itself. A format is read by computations that are put together out of such reads; what one of
them makes of the bytes in front of a reader does not depend on the reader.

## Main definitions

* `ByteReader` — a reader, and the bytes that it holds.
* `ByteReader.list`, `ByteReader.decrypted` — the reader of a list, and a reader of encrypted bytes.
* `ByteReader.andThen` — a computation that goes on with what another one returns.
* `ByteReader.Reads` — what a computation makes of some bytes.
* `ByteReader.Keeps` — what a computation leaves alone.

## Main results

* `ByteReader.Reads.andThen` — one computation after the other.
* `ByteReader.Reads.times` — the same computation again and again.
-/

open BlockModes

/-- Reading may raise an `ε`, and returns `none` where there are too few bytes. -/
structure ByteReader (ε σ : Type*) where
  read : ℤ → σ → Except ε (Option (List UInt8)) × σ
  /-- The bytes that are still to be read. -/
  Holds : σ → List UInt8 → Prop
  read_append : ∀ {s : σ} {want rest : List UInt8}, Holds s (want ++ rest) →
    ∃ s', read want.length s = (.ok (some want), s') ∧ Holds s' rest

namespace ByteReader

variable {ε σ κ α β : Type*}

/-- The bytes of a list. -/
def list (ε : Type*) : ByteReader ε (List UInt8) where
  read length bytes :=
    if length ≤ bytes.length then (.ok (some (bytes.take length.toNat)), bytes.drop length.toNat)
      else (.ok none, bytes)
  Holds bytes stream := bytes = stream
  read_append := by
    rintro _ want rest rfl
    refine ⟨rest, ?_, rfl⟩
    rw [if_pos (by rw [List.length_append]; omega), Int.toNat_natCast, List.take_left,
      List.drop_left]

/-- A reader of encrypted bytes. -/
def decrypted (K : Keystream κ) (R : ByteReader ε σ) : ByteReader ε (σ × κ) where
  read length s :=
    match R.read length s.1 with
    | (.ok (some data), s') => (.ok (some (K.apply s.2 data)), s', K.advance s.2 data.length)
    | (result, s') => (result, s', s.2)
  Holds s plain := R.Holds s.1 (K.apply s.2 plain)
  read_append := by
    rintro ⟨s, k⟩ want rest h
    rw [K.apply_append] at h
    obtain ⟨s', hread, hholds⟩ := R.read_append h
    rw [K.length_apply] at hread
    refine ⟨(s', K.advance k want.length), ?_, hholds⟩
    dsimp only
    rw [hread]
    dsimp only
    rw [K.apply_apply, K.length_apply]

/-! ### Computations -/

/-- A computation that reads. -/
abbrev Computation (ε σ α : Type*) := σ → Except ε (Option α) × σ

/-- `f` goes on with what `m` returns, unless it raises or finds too few bytes. -/
def andThen (m : Computation ε σ α) (f : α → Computation ε σ β) : Computation ε σ β := fun s =>
  match m s with
  | (.ok (some a), s) => f a s
  | (.ok none, s) => (.ok none, s)
  | (.error e, s) => (.error e, s)

def done (a : Option α) : Computation ε σ α := fun s => (.ok a, s)

/-- `m` again and again; what comes of it, up to the first that raises. -/
def times (m : Computation ε σ α) : ℕ → Computation ε σ (List (Option α))
  | 0, s => (.ok (some []), s)
  | n + 1, s =>
      match m s with
      | (.error e, s) => (.error e, s)
      | (.ok a, s) => andThen (times m n) (fun rest => done (some (a :: rest))) s

variable (R : ByteReader ε σ)

/-- `m` takes these bytes and returns `a`, whatever follows them. -/
def Reads (m : Computation ε σ α) (bytes : List UInt8) (a : α) : Prop :=
  ∀ ⦃s : σ⦄ ⦃rest : List UInt8⦄, R.Holds s (bytes ++ rest) → ∃ s', m s = (.ok (some a), s') ∧
    R.Holds s' rest

variable {R} {m : Computation ε σ α} {f : α → Computation ε σ β} {bytes more : List UInt8}
    {a : α} {b : β}

theorem reads_read {length : ℤ} (h : length = bytes.length) :
    R.Reads (R.read length) bytes bytes := by
  subst h
  intro s rest hholds
  exact R.read_append hholds

theorem reads_done : R.Reads (done (some a)) [] a := fun s _ h => ⟨s, rfl, h⟩

/-- **One computation after the other** takes the bytes of both. -/
theorem Reads.andThen (hm : R.Reads m bytes a) (hf : R.Reads (f a) more b) :
    R.Reads (ByteReader.andThen m f) (bytes ++ more) b := by
  intro s rest h
  rw [List.append_assoc] at h
  obtain ⟨s₁, hfirst, h₁⟩ := hm h
  obtain ⟨s₂, hsecond, h₂⟩ := hf h₁
  refine ⟨s₂, ?_, h₂⟩
  rw [ByteReader.andThen, hfirst]
  exact hsecond

/-- `m` leaves alone what `view` sees of the reader. -/
def Keeps {τ : Type*} (view : σ → τ) (m : Computation ε σ α) : Prop := ∀ s, view (m s).2 = view s

theorem Keeps.andThen {τ : Type*} {view : σ → τ} (hm : Keeps view m) (hf : ∀ a, Keeps view (f a)) :
    Keeps view (ByteReader.andThen m f) := by
  intro s
  have hfirst := hm s
  rw [ByteReader.andThen]
  cases h : m s with
  | mk result s' =>
    rw [h] at hfirst
    cases result with
    | error e => exact hfirst
    | ok a =>
      cases a with
      | none => exact hfirst
      | some a => exact (hf a s').trans hfirst

theorem keeps_done {τ : Type*} {view : σ → τ} (a : Option α) :
    Keeps view (done a : Computation ε σ α) := fun _ => rfl

/-- A last step that reads nothing. -/
theorem Reads.andThen_done (hm : R.Reads m bytes a) (hf : f a = done (some b)) :
    R.Reads (ByteReader.andThen m f) bytes b := by
  have hdone : R.Reads (f a) [] b := by
    rw [hf]
    exact reads_done
  have h := hm.andThen hdone
  rwa [List.append_nil] at h

/-- **The same computation again and again** takes one piece after the other. -/
theorem Reads.times {pieces : List (List UInt8)} {values : List α}
    (h : List.Forall₂ (fun piece value => R.Reads m piece value) pieces values) :
    R.Reads (ByteReader.times m values.length) pieces.flatten (values.map some) := by
  induction h with
  | nil => exact reads_done
  | @cons piece value pieces values hpiece _ ih =>
    intro s rest hholds
    rw [List.flatten_cons, List.append_assoc] at hholds
    obtain ⟨s₁, hfirst, h₁⟩ := hpiece hholds
    obtain ⟨s₂, hrest, h₂⟩ := ih h₁
    refine ⟨s₂, ?_, h₂⟩
    rw [List.length_cons, ByteReader.times, hfirst]
    dsimp only
    rw [ByteReader.andThen, hrest]
    rfl

end ByteReader
