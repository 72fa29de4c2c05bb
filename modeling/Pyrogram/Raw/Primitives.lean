import Pyrogram.Raw.Vector
import Pyrogram.Utf8
import Mathlib.Data.List.TakeDrop

/-!
# Core types

The primitives the generated code is made of.  A value of a core type is written by the
class and read back by it; a `float` is the eight bytes `struct` gives it.

## Main definitions

* `Bytes.new`, `Bytes.read` — byte strings, with the padding to a multiple of four.
* `Core`, `Core.new`, `Core.read` — the core types, as one family.

## Main results

* `Core.read_new` — a value is read back, whatever follows it.
* `Core.length_new_le` — only a text may be read from fewer bytes than it is written in.
-/

namespace Pyrogram.Raw

open LittleEndian

/-! ### Integers -/

/-- The integers of a size in bytes. -/
def Int.Fits (size : ℕ) (value : ℤ) : Prop := -256 ^ size ≤ 2 * value ∧ 2 * value < 256 ^ size

theorem Int.isSome_encodeSigned {size : ℕ} {value : ℤ} :
    (encodeSigned size value).isSome ↔ Int.Fits size value := by
  unfold encodeSigned
  split
  · rename_i h
    exact iff_of_true rfl h
  · rename_i h
    exact iff_of_false Bool.false_ne_true h

/-! ### Byte strings -/

namespace Bytes

/-- `-length % 4`. -/
def pad (length : ℕ) : ℕ := (-(length : ℤ) % 4).toNat

/-- `Bytes(value)`; `none` is the `OverflowError` of a length that three bytes cannot
hold. -/
def new (value : List UInt8) : Option (List UInt8) :=
  if value.length ≤ 253 then
    some (UInt8.ofNat value.length :: value ++ List.replicate (pad (value.length + 1)) 0)
  else if value.length < 256 ^ 3 then
    some (254 :: encode 3 value.length ++ value ++ List.replicate (pad value.length) 0)
  else none

/-- `Bytes.read`. -/
def read : Reader (List UInt8) := fun data =>
  let length := decode (data.take 1)
  let data := data.drop 1
  if length ≤ 253 then some (data.take length, (data.drop length).drop (pad (length + 1)))
  else
    let length := decode (data.take 3)
    let data := data.drop 3
    some (data.take length, (data.drop length).drop (pad length))

theorem isSome_new {value : List UInt8} : (new value).isSome ↔ value.length < 2 ^ 24 := by
  unfold new
  split
  · have hlt : value.length < 2 ^ 24 := by omega
    exact iff_of_true rfl hlt
  · split
    · rename_i hlt
      exact iff_of_true rfl hlt
    · rename_i hge
      exact iff_of_false Bool.false_ne_true hge

theorem new_ne_nil {value w : List UInt8} (h : new value = some w) : w ≠ [] := by
  rintro rfl
  unfold new at h
  split at h
  · cases h
  · split at h
    · cases h
    · cases h

/-- A byte string is read back, whatever follows it. -/
theorem read_new {value w : List UInt8} (h : new value = some w) (rest : List UInt8) :
    read (w ++ rest) = some (value, rest) := by
  unfold new at h
  split at h
  -- one byte holds the length
  · rename_i hshort
    cases h
    have hlength : decode [UInt8.ofNat value.length] = value.length := by
      rw [decode_cons, decode_nil, UInt8.toNat_ofNat']
      omega
    have htake : (UInt8.ofNat value.length :: value ++ List.replicate (pad (value.length + 1)) 0 ++
        rest).take 1 = [UInt8.ofNat value.length] := rfl
    have hdrop : (UInt8.ofNat value.length :: value ++ List.replicate (pad (value.length + 1)) 0 ++
        rest).drop 1 = value ++ (List.replicate (pad (value.length + 1)) 0 ++ rest) :=
      List.append_assoc ..
    rw [read]
    dsimp only
    rw [htake, hdrop, hlength, if_pos hshort, List.take_left, List.drop_left,
      List.drop_left' List.length_replicate]
  -- the length follows the mark 254, in three bytes
  · rename_i hlong
    split at h
    · rename_i hlt
      cases h
      have hlong : ¬ decode ((254 :: encode 3 value.length ++ value ++
          List.replicate (pad value.length) 0 ++ rest).take 1) ≤ 253 := by
        have htake : (254 :: encode 3 value.length ++ value ++
            List.replicate (pad value.length) 0 ++ rest).take 1 = [254] := rfl
        rw [htake]
        decide
      have hdrop : (254 :: encode 3 value.length ++ value ++ List.replicate (pad value.length) 0 ++
          rest).drop 1 = encode 3 value.length ++
            (value ++ (List.replicate (pad value.length) 0 ++ rest)) := by
        simp only [List.cons_append, List.append_assoc, List.drop_one, List.tail_cons]
      rw [read]
      dsimp only
      rw [if_neg hlong, hdrop, List.take_left' (length_encode ..),
        List.drop_left' (length_encode ..),
        decode_encode hlt, List.take_left, List.drop_left, List.drop_left' List.length_replicate]
    · cases h

/-- A byte string is not read from fewer bytes, where the stream goes on. -/
theorem length_new_le {value w b b' : List UInt8} (hread : read b = some (value, b'))
    (hb' : b' ≠ [])
    (hnew : new value = some w) : w.length + b'.length ≤ b.length := by
  have hpos := List.length_pos_iff.mpr hb'
  have hpad : ∀ n, pad n < 4 := by
    intro n
    unfold pad
    omega
  have hpad' := hpad (value.length + 1)
  unfold read at hread
  dsimp only at hread
  split at hread
  · rename_i hshort
    obtain ⟨rfl, rfl⟩ := Prod.mk.inj (Option.some.inj hread)
    -- the stream goes on, so the whole value was there
    have hvalue : ((b.drop 1).take (decode (b.take 1))).length = decode (b.take 1) := by
      simp only [List.length_drop, List.length_take] at hpos ⊢
      omega
    rw [new, hvalue, if_pos hshort] at hnew
    cases hnew
    simp only [List.length_append, List.length_cons, List.length_replicate,
      List.length_drop, hvalue]
      at hpos ⊢
    omega
  · obtain ⟨rfl, rfl⟩ := Prod.mk.inj (Option.some.inj hread)
    have hvalue : (((b.drop 1).drop 3).take (decode ((b.drop 1).take 3))).length =
        decode ((b.drop 1).take 3) := by
      simp only [List.length_drop, List.length_take] at hpos ⊢
      omega
    rw [hvalue] at hpad'
    unfold new at hnew
    rw [hvalue] at hnew
    split at hnew
    · cases hnew
      simp only [List.length_append, List.length_cons, List.length_replicate,
        List.length_drop, hvalue]
        at hpos ⊢
      omega
    · split at hnew
      · cases hnew
        simp only [List.length_append, List.length_cons, List.length_replicate, List.length_drop,
          length_encode, hvalue] at hpos ⊢
        omega
      · cases hnew

end Bytes

/-! ### Truth values and floats -/

/-- `Bool(value)`. -/
def Bool.new (value : Bool) : List UInt8 := encode 4 (if value then BoolTrue.id else BoolFalse.id)

theorem Bool.read_new (value : Bool) (rest : List UInt8) :
    Bool.read (Bool.new value ++ rest) = some (value, rest) := by
  have hlt : (if value then BoolTrue.id else BoolFalse.id) < 256 ^ 4 := by
    cases value <;> decide
  rw [Bool.read, Bool.new, readId_append hlt]
  cases value <;> rfl

/-- `Double(value)`, of the bits of the float. -/
def Double.new (value : UInt64) : List UInt8 := encode 8 value.toNat

/-- `Double.read`; `unpack` needs all eight bytes. -/
def Double.read : Reader UInt64 := fun data =>
  if 8 ≤ data.length then some (UInt64.ofNat (decode (data.take 8)), data.drop 8) else none

theorem Double.read_new (value : UInt64) (rest : List UInt8) :
    Double.read (Double.new value ++ rest) = some (value, rest) := by
  have hlength : (Double.new value).length = 8 := length_encode ..
  have hle : 8 ≤ (Double.new value ++ rest).length := by
    rw [List.length_append, hlength]
    exact Nat.le_add_right ..
  have hlt : value.toNat < 256 ^ 8 := value.toNat_lt
  rw [Double.read, if_pos hle, List.take_left' hlength, List.drop_left' hlength, Double.new,
    decode_encode hlt, UInt64.ofNat_toNat]

/-! ### The core types -/

/-- The core types, `true` apart, which is not written. -/
inductive Core
  | int
  | long
  | int128
  | int256
  | double
  | bytes
  | string
  | bool
  deriving DecidableEq, Repr

namespace Core

/-- The values of a core type. -/
def Value : Core → Type
  | int | long | int128 | int256 => ℤ
  | double => UInt64
  | bytes => List UInt8
  | string => List Utf8.CodePoint
  | bool => Bool

def new : (t : Core) → t.Value → Option (List UInt8)
  | int, value => encodeSigned Int.size value
  | long, value => encodeSigned Long.size value
  | int128, value => encodeSigned 16 value
  | int256, value => encodeSigned 32 value
  | double, value => some (Double.new value)
  | bytes, value => Bytes.new value
  | string, value => Bytes.new (Utf8.encode value)
  | bool, value => some (Bool.new value)

def read : (t : Core) → Reader t.Value
  | int => Int.read Int.size
  | long => Int.read Long.size
  | int128 => Int.read 16
  | int256 => Int.read 32
  | double => Double.read
  | bytes => Bytes.read
  | string => Bytes.read.map Utf8.decode
  | bool => Bool.read

/-! ### What is written and read -/

/-- The integers that fit their signed field. -/
def Fits : (t : Core) → t.Value → Prop
  | int, value => Int.Fits Int.size value
  | long, value => Int.Fits Long.size value
  | int128, value => Int.Fits 16 value
  | int256, value => Int.Fits 32 value
  | double, _ | bytes, _ | string, _ | bool, _ => True

/-- The byte strings and texts whose length three bytes can hold. -/
def Short : (t : Core) → t.Value → Prop
  | bytes, value => value.length < 2 ^ 24
  | string, value => (Utf8.encode value).length < 2 ^ 24
  | int, _ | long, _ | int128, _ | int256, _ | double, _ | bool, _ => True

/-- A text has no surrogates. -/
def Text : (t : Core) → t.Value → Prop
  | string, value => Utf8.NoSurrogates value
  | int, _ | long, _ | int128, _ | int256, _ | double, _ | bytes, _ | bool, _ => True

variable {t : Core} {x : t.Value} {w b b' : List UInt8}

/-- A value is written unless it does not fit, or is too long. -/
theorem isSome_new : (new t x).isSome ↔ t.Fits x ∧ t.Short x := by
  cases t with
  | int => exact Int.isSome_encodeSigned.trans (and_iff_left trivial).symm
  | long => exact Int.isSome_encodeSigned.trans (and_iff_left trivial).symm
  | int128 => exact Int.isSome_encodeSigned.trans (and_iff_left trivial).symm
  | int256 => exact Int.isSome_encodeSigned.trans (and_iff_left trivial).symm
  | double => exact iff_of_true rfl ⟨trivial, trivial⟩
  | bytes => exact Bytes.isSome_new.trans (and_iff_right trivial).symm
  | string => exact Bytes.isSome_new.trans (and_iff_right trivial).symm
  | bool => exact iff_of_true rfl ⟨trivial, trivial⟩

/-- **A value is read back**, whatever follows it. -/
theorem read_new (h : new t x = some w) (htext : t.Text x) (rest : List UInt8) :
    read t (w ++ rest) = some (x, rest) := by
  cases t with
  | int => exact Int.read_append h rest
  | long => exact Int.read_append h rest
  | int128 => exact Int.read_append h rest
  | int256 => exact Int.read_append h rest
  | double =>
    cases h
    exact Double.read_new x rest
  | bytes => exact Bytes.read_new h rest
  | string =>
    have hbytes := Bytes.read_new h rest
    exact Reader.map_eq_some.mpr ⟨_, hbytes, Utf8.decode_encode htext⟩
  | bool =>
    cases h
    exact Bool.read_new x rest

/-- Only texts without surrogates are read. -/
theorem text_of_read (h : read t b = some (x, b')) : t.Text x := by
  cases t with
  | string =>
    obtain ⟨bs, -, rfl⟩ := Reader.map_eq_some.mp h
    exact Utf8.noSurrogates_decode bs
  | int => trivial
  | long => trivial
  | int128 => trivial
  | int256 => trivial
  | double => trivial
  | bytes => trivial
  | bool => trivial

theorem new_ne_nil (h : new t x = some w) : w ≠ [] := by
  have hsigned : ∀ {size : ℕ} {z : ℤ}, size ≠ 0 → encodeSigned size z = some w → w ≠ [] := by
    rintro size z hsize h rfl
    exact hsize (length_encodeSigned h).symm
  cases t with
  | int => exact hsigned (by decide) h
  | long => exact hsigned (by decide) h
  | int128 => exact hsigned (by decide) h
  | int256 => exact hsigned (by decide) h
  | double =>
    cases h
    exact List.ne_nil_of_length_eq_add_one (length_encode ..)
  | bytes => exact Bytes.new_ne_nil h
  | string => exact Bytes.new_ne_nil h
  | bool =>
    cases h
    exact List.ne_nil_of_length_eq_add_one (length_encode ..)

/-! ### What is read from how many bytes -/

/-- Nothing is put back into the stream. -/
theorem length_read_le (h : read t b = some (x, b')) : b'.length ≤ b.length := by
  have hint : ∀ {size : ℕ} {z : ℤ}, Int.read size b = some (z, b') → b'.length ≤ b.length := by
    -- a read of an integer takes its bytes off, and one of bytes takes the padding off too
    intro size z h
    obtain ⟨-, rfl⟩ := Prod.mk.inj (Option.some.inj h)
    rw [List.length_drop]
    omega
  have hbytes : ∀ {value : List UInt8}, Bytes.read b = some (value, b') → b'.length ≤ b.length := by
    intro value h
    unfold Bytes.read at h
    dsimp only at h
    split at h
    · obtain ⟨-, rfl⟩ := Prod.mk.inj (Option.some.inj h)
      simp only [List.length_drop]
      omega
    · obtain ⟨-, rfl⟩ := Prod.mk.inj (Option.some.inj h)
      simp only [List.length_drop]
      omega
  cases t with
  | int => exact hint h
  | long => exact hint h
  | int128 => exact hint h
  | int256 => exact hint h
  | double =>
    have h : Double.read b = some (x, b') := h
    unfold Double.read at h
    split at h
    · obtain ⟨-, rfl⟩ := Prod.mk.inj (Option.some.inj h)
      rw [List.length_drop]
      omega
    · cases h
  | bytes => exact hbytes h
  | string =>
    obtain ⟨bs, h, -⟩ := Reader.map_eq_some.mp h
    exact hbytes h
  | bool =>
    obtain ⟨-, rfl⟩ := Prod.mk.inj (Option.some.inj h)
    have hdrop : (b.drop 4).length = b.length - 4 := List.length_drop
    omega

/-- A text without replaced parts. -/
def Unreplaced : (t : Core) → t.Value → Prop
  | string, value => Utf8.Unreplaced value
  | int, _ | long, _ | int128, _ | int256, _ | double, _ | bytes, _ | bool, _ => True

/-- **A value is not read from fewer bytes than it is written in**, unless the stream
ends, or the value is a text with replaced parts. -/
theorem length_new_le (hread : read t b = some (x, b')) (hb' : b' ≠ []) (hx : t.Unreplaced x)
    (hnew : new t x = some w) : w.length + b'.length ≤ b.length := by
  have hpos := List.length_pos_iff.mpr hb'
  have hsigned : ∀ {size : ℕ} {z : ℤ}, Int.read size b = some (z, b') →
      encodeSigned size z = some w → w.length + b'.length ≤ b.length := by
    intro size z hread hnew
    have hdrop := congrArg List.length (Prod.mk.inj (Option.some.inj hread)).2
    rw [List.length_drop] at hdrop
    rw [length_encodeSigned hnew]
    omega
  cases t with
  | int => exact hsigned hread hnew
  | long => exact hsigned hread hnew
  | int128 => exact hsigned hread hnew
  | int256 => exact hsigned hread hnew
  | double =>
    cases hnew
    have hread : Double.read b = some (x, b') := hread
    unfold Double.read at hread
    split at hread
    · obtain ⟨-, rfl⟩ := Prod.mk.inj (Option.some.inj hread)
      have hlength : (Double.new x).length = 8 := length_encode ..
      rw [List.length_drop] at hpos ⊢
      omega
    · cases hread
  | bytes => exact Bytes.length_new_le hread hb' hnew
  | string =>
    obtain ⟨bs, hbytes, rfl⟩ := Reader.map_eq_some.mp hread
    have hbs : Utf8.encode (Utf8.decode bs) = bs := Utf8.encode_decode hx
    have hnew : Bytes.new (Utf8.encode (Utf8.decode bs)) = some w := hnew
    rw [hbs] at hnew
    exact Bytes.length_new_le hbytes hb' hnew
  | bool =>
    cases hnew
    obtain ⟨-, rfl⟩ := Prod.mk.inj (Option.some.inj hread)
    have hlength : (Bool.new x).length = 4 := length_encode ..
    have hdrop : (b.drop 4).length = b.length - 4 := List.length_drop
    omega

end Core

end Pyrogram.Raw
