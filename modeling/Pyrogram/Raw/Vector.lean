import Pyrogram.LittleEndian
import Mathlib.Data.Rat.Cast.Order
import Mathlib.Tactic.Common
import Mathlib.Tactic.NormNum

/-!
# TL vectors

Reading and writing of `Vector`, and `TLObject.read`, which dispatches on the
constructor id.  The classes generated from the schema are not part of the
sources: `objects` gives for a constructor id the `read` of its class, over a
type `ω` of objects.

`Vector.read` is not told the type of its elements when they are boxed.  It
divides the number of bytes *left in the stream* by the number of elements and
takes elements of width 4 or 8 for bare integers, which is meant for the one bare
vector a query may return, but is asked of every vector.

## Main definitions

* `Reader` — a `read` on a stream of bytes.
* `Vector.new`, `Vector.read`, `Vector.readBare` — the primitives.
* `TLObject.read` — dispatch on the constructor id.

## Main results

* `Vector.read_new_of_type` — a vector whose element type is passed is read back.
* `Vector.read_new_iff` — without it, exactly when no width is guessed.
-/

namespace Pyrogram.Raw

open LittleEndian

/-! ### Streams -/

/-- A `read` on a `BytesIO`: from the unread bytes, what is read and the bytes
still unread; `none` for an exception. -/
abbrev Reader (β : Type) := List UInt8 → Option (β × List UInt8)

namespace Reader

variable {β γ : Type}

def map (f : β → γ) (read : Reader β) : Reader γ := fun b => (read b).map (Prod.map f id)

/-- `[read(b) for _ in range(n)]`. -/
def times (read : Reader β) : ℕ → Reader (List β)
  | 0, b => some ([], b)
  | n + 1, b => (read b).bind fun (v, b) => (times read n b).map (Prod.map (v :: ·) id)

theorem map_eq_some {f : β → γ} {read : Reader β} {b r : List UInt8} {v : γ} :
    map f read b = some (v, r) ↔ ∃ u, read b = some (u, r) ∧ f u = v := by
  simp [map]

/-- Elements that are each read back are read back in a row. -/
theorem times_flatMap {read : Reader β} {write : γ → List UInt8} {f : γ → β} {xs : List γ}
    (h : ∀ x ∈ xs, ∀ s, read (write x ++ s) = some (f x, s)) (rest : List UInt8) :
    times read xs.length (xs.flatMap write ++ rest) = some (xs.map f, rest) := by
  induction xs with
  | nil => rfl
  | cons x xs ih =>
    have hx := h x List.mem_cons_self (xs.flatMap write ++ rest)
    have hxs := ih fun y hy => h y (List.mem_cons_of_mem x hy)
    rw [List.flatMap_cons, List.append_assoc, List.length_cons, times, hx, Option.bind_some]
    simp only
    rw [hxs]
    rfl

/-- The first of several elements comes from the reader. -/
theorem exists_of_times_succ {read : Reader β} {n : ℕ} {b r : List UInt8} {v : β} {vs : List β}
    (h : times read (n + 1) b = some (v :: vs, r)) : ∃ r', read b = some (v, r') := by
  obtain ⟨⟨u, r'⟩, hu, h⟩ := Option.bind_eq_some_iff.mp h
  obtain ⟨⟨us, r''⟩, -, h⟩ := Option.map_eq_some_iff.mp h
  obtain rfl : u = v := (List.cons.inj (Prod.mk.inj h).1).1
  exact ⟨r', hu⟩

end Reader

/-! ### Primitives -/

/-- What reading a stream may give; `ω` are the objects of the generated classes. -/
inductive Value (ω : Type)
  | int (n : ℤ)
  | bool (value : Bool)
  | object (o : ω)
  | list (elements : List (Value ω))

/-- `int.from_bytes(b.read(4), "little")`. -/
def readId (b : List UInt8) : ℕ × List UInt8 := (decode (b.take 4), b.drop 4)

def Int.size : ℕ := 4

def Long.size : ℕ := 8

/-- `Int.read`: at the end of the stream the bytes there are make the number. -/
def Int.read (size : ℕ) : Reader ℤ := fun b => some (decodeSigned (b.take size), b.drop size)

def Long.read : Reader ℤ := Int.read Long.size

def BoolFalse.id : ℕ := 0xBC799737

def BoolTrue.id : ℕ := 0x997275B5

def Bool.read : Reader Bool := fun b =>
  let (e, b) := readId b
  some (e == BoolTrue.id, b)

theorem Int.read_append {size : ℕ} {z : ℤ} {w : List UInt8} (h : encodeSigned size z = some w)
    (rest : List UInt8) : Int.read size (w ++ rest) = some (z, rest) := by
  have hw := length_encodeSigned h
  rw [Int.read, List.take_left' hw, List.drop_left' hw, decodeSigned_encodeSigned h]

theorem readId_append {n : ℕ} (h : n < 256 ^ 4) (rest : List UInt8) :
    readId (encode 4 n ++ rest) = (n, rest) := by
  have hw := length_encode 4 n
  rw [readId, List.take_left' hw, List.drop_left' hw, decode_encode h]

/-! ### Vectors -/

namespace Vector

variable {ω : Type}

def id : ℕ := 0x1CB5C415

/-- `Vector(value, t)`; `write` is `t` where it is passed and `i.write` otherwise.
`none` is the `OverflowError` of a length that is no `Int`. -/
def new (write : ω → List UInt8) (value : List ω) : Option (List UInt8) :=
  (encodeSigned Int.size value.length).map fun count =>
    encode 4 Vector.id ++ count ++ value.flatMap write

/-- `Vector.read_bare`; `read` is `TLObject.read`. -/
def readBare (read : Reader (Value ω)) (size : ℚ) : Reader (Value ω) := fun b =>
  if size = 4 then
    -- `b.seek(-4, 1)` puts the four bytes back
    let (e, _) := readId b
    if e = BoolFalse.id ∨ e = BoolTrue.id then Bool.read.map .bool b
    else (Int.read Int.size).map .int b
  else if size = 8 then Long.read.map .int b
  else read b

/-- The element width guessed for `count` elements in `left` bytes.  The quotient
of the source is a float; it is 4 or 8 exactly when the exact quotient is, as
`count` has at most 31 bits. -/
def guess (left : ℕ) (count : ℤ) : ℚ := if count ≠ 0 then left / count else 0

/-- `Vector.read`; `t` is the `read` of the element type, where one is passed. -/
def read (read : Reader (Value ω)) (t : Option (Reader (Value ω))) : Reader (Value ω) := fun data =>
  (Int.read Int.size data).bind fun (count, data) =>
    let left := data.length
    let size := guess left count
    (Reader.times (t.getD (readBare read size)) count.toNat).map .list data

end Vector

/-! ### Objects -/

/-- `TLObject.read(b, *args)`; `t` is the element type where one is passed.  An
unknown constructor id is a `KeyError`.  `depth` bounds how deep the calls nest;
the stack of the interpreter does. -/
def TLObject.read {ω : Type} (objects : ℕ → Option (Reader ω)) :
    ℕ → Option (Reader (Value ω)) → Reader (Value ω)
  | 0, _, _ => none
  | depth + 1, t, b =>
    let (id, b) := readId b
    if id = BoolFalse.id then some (.bool false, b)
    else if id = BoolTrue.id then some (.bool true, b)
    else if id = Vector.id then Vector.read (TLObject.read objects depth none) t b
    else (objects id).bind fun read => read.map .object b

namespace Vector

variable {ω : Type} {objects : ℕ → Option (Reader ω)} {depth : ℕ} {write : ω → List UInt8}
  {xs : List ω} {w : List UInt8} {t : Option (Reader (Value ω))}

/-- What is written is dispatched to `Vector.read`, which finds the count and the
elements. -/
theorem read_new (hnew : new write xs = some w) (rest : List UInt8) :
    TLObject.read objects (depth + 1) t (w ++ rest) =
      (Reader.times (t.getD (readBare (TLObject.read objects depth none)
        (guess (xs.flatMap write ++ rest).length xs.length))) xs.length).map .list
        (xs.flatMap write ++ rest) := by
  obtain ⟨count, hcount, rfl⟩ := Option.map_eq_some_iff.mp hnew
  rw [TLObject.read, List.append_assoc, List.append_assoc, readId_append (by decide)]
  show (if Vector.id = BoolFalse.id then _ else _) = _
  rw [if_neg (by decide), if_neg (by decide), if_pos rfl, read, Int.read_append hcount,
    Option.bind_some]
  rfl

/-- **A vector whose element type is passed is read back**, whatever follows it. -/
theorem read_new_of_type {read : Reader (Value ω)} {f : ω → Value ω} (hnew : new write xs = some w)
    (hread : ∀ x ∈ xs, ∀ s, read (write x ++ s) = some (f x, s)) (rest : List UInt8) :
    TLObject.read objects (depth + 1) (some read) (w ++ rest) = some (.list (xs.map f), rest) := by
  rw [read_new hnew, Reader.map_eq_some]
  exact ⟨xs.map f, Reader.times_flatMap hread rest, rfl⟩

/-! ### The guess -/

/-- A width of 4 or 8 is guessed when the bytes left are that multiple of the count. -/
theorem guess_eq_iff {left count k : ℕ} (hk : k ≠ 0) :
    guess left count = k ↔ count ≠ 0 ∧ left = k * count := by
  unfold guess
  rcases eq_or_ne count 0 with rfl | hcount
  · have hk' : (0 : ℚ) ≠ k := (Nat.cast_ne_zero.mpr hk).symm
    simpa using hk'
  · have hq : (count : ℚ) ≠ 0 := Nat.cast_ne_zero.mpr hcount
    rw [if_pos (by exact_mod_cast hcount), Int.cast_natCast, div_eq_iff hq]
    constructor
    · intro h
      exact ⟨hcount, by exact_mod_cast h⟩
    · rintro ⟨-, rfl⟩
      push_cast
      rfl

/-- Where a width is guessed, no object is read. -/
theorem readBare_ne_object {read : Reader (Value ω)} {size : ℚ} (h : size = 4 ∨ size = 8)
    {b r : List UInt8} {v : Value ω} (hv : readBare read size b = some (v, r)) (o : ω) :
    v ≠ .object o := by
  rintro rfl
  unfold readBare at hv
  rcases h with rfl | rfl
  · rw [if_pos rfl] at hv
    simp only at hv
    split at hv
    · obtain ⟨_, -, h⟩ := Reader.map_eq_some.mp hv
      cases h
    · obtain ⟨_, -, h⟩ := Reader.map_eq_some.mp hv
      cases h
  · rw [if_neg (by norm_num), if_pos rfl] at hv
    obtain ⟨_, -, h⟩ := Reader.map_eq_some.mp hv
    cases h

/-- Where no width is guessed, the elements are read as objects. -/
theorem readBare_of_ne {read : Reader (Value ω)} {size : ℚ} (h4 : size ≠ 4) (h8 : size ≠ 8) :
    readBare read size = read := by
  funext b
  rw [readBare, if_neg h4, if_neg h8]

/-- Where a width is guessed, the objects of a vector are not read back. -/
theorem read_new_ne (hnew : new write xs = some w) {rest : List UInt8} (hxs : xs ≠ [])
    (hleft : (xs.flatMap write ++ rest).length = 4 * xs.length ∨
      (xs.flatMap write ++ rest).length = 8 * xs.length) :
    TLObject.read objects (depth + 1) none (w ++ rest) ≠ some (.list (xs.map .object), rest) := by
  intro h
  rw [read_new hnew, Reader.map_eq_some] at h
  obtain ⟨vs, hvs, hlist⟩ := h
  obtain rfl : vs = xs.map .object := Value.list.inj hlist
  obtain ⟨x, xs, rfl⟩ := List.exists_cons_of_ne_nil hxs
  obtain ⟨_, hx⟩ := Reader.exists_of_times_succ hvs
  have hlen : (x :: xs).length ≠ 0 := Nat.succ_ne_zero _
  refine readBare_ne_object ?_ hx x rfl
  rcases hleft with hleft | hleft
  · exact Or.inl ((guess_eq_iff (by decide)).mpr ⟨hlen, hleft⟩)
  · exact Or.inr ((guess_eq_iff (by decide)).mpr ⟨hlen, hleft⟩)

/-- **A vector of objects that are each read back is read back exactly when no
width is guessed**: it is empty, or the bytes from its first element to the end
of the stream are neither four nor eight for each element. -/
theorem read_new_iff (hnew : new write xs = some w)
    (hread : ∀ x ∈ xs, ∀ s, TLObject.read objects depth none (write x ++ s) = some (.object x, s))
    (rest : List UInt8) :
    TLObject.read objects (depth + 1) none (w ++ rest) = some (.list (xs.map .object), rest) ↔
      xs = [] ∨ ((xs.flatMap write ++ rest).length ≠ 4 * xs.length ∧
        (xs.flatMap write ++ rest).length ≠ 8 * xs.length) := by
  constructor
  · intro h
    rcases eq_or_ne xs [] with hxs | hxs
    · exact Or.inl hxs
    · refine Or.inr ⟨?_, ?_⟩
      · intro h4
        exact read_new_ne hnew hxs (Or.inl h4) h
      · intro h8
        exact read_new_ne hnew hxs (Or.inr h8) h
  · intro h
    rw [read_new hnew, Reader.map_eq_some]
    refine ⟨xs.map .object, ?_, rfl⟩
    rcases h with rfl | ⟨h4, h8⟩
    · rfl
    · have h4' : guess (xs.flatMap write ++ rest).length xs.length ≠ 4 := by
        intro h
        exact h4 ((guess_eq_iff (k := 4) (by decide)).mp h).2
      have h8' : guess (xs.flatMap write ++ rest).length xs.length ≠ 8 := by
        intro h
        exact h8 ((guess_eq_iff (k := 8) (by decide)).mp h).2
      rw [Option.getD_none, readBare_of_ne h4' h8']
      exact Reader.times_flatMap hread rest

/-! ### A vector that is misread

The answer `account.privacyRules` is a vector of rules followed by the vectors of
chats and users. -/

/-- The constructors of `PrivacyRule` that have no fields. -/
def privacyRuleIds : List ℕ :=
  [0xFFFE1BAC, 0x65427B82, 0xF888FA1A, 0x8B73E763, 0xF7E8D89B, 0xECE9814B, 0x21461B5D, 0xF6A5F82F]

/-- Their classes: an object is its constructor id, and nothing follows it. -/
def privacyRules (id : ℕ) : Option (Reader ℕ) :=
  if id ∈ privacyRuleIds then some fun b => some (id, b) else none

/-- The vectors of no chats and no users. -/
def noChatsNoUsers : List UInt8 := encode 4 Vector.id ++ encode 4 0 ++ encode 4 Vector.id ++
    encode 4 0

theorem read_privacyRule {x : ℕ} (hx : x ∈ privacyRuleIds) (s : List UInt8) :
    TLObject.read privacyRules (depth + 1) none (encode 4 x ++ s) = some (.object x, s) := by
  have hids : ∀ x ∈ privacyRuleIds,
      x < 256 ^ 4 ∧ x ≠ BoolFalse.id ∧ x ≠ BoolTrue.id ∧ x ≠ Vector.id := by decide
  obtain ⟨hlt, hfalse, htrue, hvector⟩ := hids x hx
  rw [TLObject.read, readId_append hlt]
  simp only
  rw [if_neg hfalse, if_neg htrue, if_neg hvector, privacyRules, if_pos hx]
  rfl

theorem read_new_of_oneRule :
    TLObject.read privacyRules 2 none (encode 4 Vector.id ++ encode 4 1 ++
      encode 4 0xFFFE1BAC ++ noChatsNoUsers) =
        some (.list [.object 0xFFFE1BAC], noChatsNoUsers) := by
  have hnew : new (encode 4) [0xFFFE1BAC] =
    some (encode 4 Vector.id ++ encode 4 1 ++ encode 4 0xFFFE1BAC) := rfl
  have hread : ∀ x ∈ [0xFFFE1BAC], ∀ s,
      TLObject.read privacyRules 1 none (encode 4 x ++ s) = some (.object x, s) := fun x hx =>
    read_privacyRule ((show ∀ x ∈ [0xFFFE1BAC], x ∈ privacyRuleIds by decide) x hx)
  exact (read_new_iff hnew hread noChatsNoUsers).mpr (Or.inr ⟨by decide, by decide⟩)

/-- Contacts, close friends and premium users are allowed, everybody else is not. -/
def fourRules : List ℕ := [0xFFFE1BAC, 0xF7E8D89B, 0xECE9814B, 0x8B73E763]

/-- Four rules and the two vectors after them are eight bytes for each rule, and
are read as four longs. -/
theorem fourRules_misread :
    (∀ x ∈ fourRules, ∀ s,
      TLObject.read privacyRules 1 none (encode 4 x ++ s) = some (.object x, s)) ∧
    ∃ w, new (encode 4) fourRules = some w ∧
      TLObject.read privacyRules 2 none (w ++ noChatsNoUsers) =
        some (.list [.int (-582977987218105428), .int (-8398114463753338549), .int 481674261,
          .int 481674261], []) ∧
      TLObject.read privacyRules 2 none (w ++ noChatsNoUsers) ≠
        some (.list (fourRules.map .object), noChatsNoUsers) := by
  have hread : ∀ x ∈ fourRules, ∀ s,
      TLObject.read privacyRules 1 none (encode 4 x ++ s) = some (.object x, s) := fun x hx =>
    read_privacyRule ((show ∀ x ∈ fourRules, x ∈ privacyRuleIds by decide) x hx)
  have hnew : new (encode 4) fourRules =
    some (encode 4 Vector.id ++ encode 4 4 ++ fourRules.flatMap (encode 4)) := rfl
  have hguess : guess (fourRules.flatMap (encode 4) ++ noChatsNoUsers).length
    fourRules.length = 8 := by decide +kernel
  refine ⟨hread, _, hnew, ?_, read_new_ne hnew (by decide) (Or.inr rfl)⟩
  rw [read_new hnew, hguess]
  rfl

end Vector

end Pyrogram.Raw
