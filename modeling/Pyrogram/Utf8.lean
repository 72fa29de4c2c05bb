import Mathlib.Data.List.Basic
import Mathlib.Tactic.Common

/-!
# UTF-8 with replacement

Texts are sequences of code points, among them surrogates, which have no UTF-8 form.
Encoding replaces these by question marks; decoding replaces what is not well formed by
U+FFFD, one for each longest part that a well-formed sequence begins with.

## Main definitions

* `encode`, `decode` — between texts and bytes; both are total.
* `CodePoint.ofNat`, `CodePoint.toNat` — the numbers of the code points.
* `encodeAscii`, `decodeAscii` — ASCII, strictly.

## Main results

* `decode_encode` — a text without surrogates is read back.
* `encode_decode` — bytes are written back where nothing was replaced.
-/

namespace Utf8

/-- A code point: a character, or the `n`-th surrogate. -/
inductive CodePoint
  | char (c : Char)
  | surrogate (n : Fin 0x800)
  deriving DecidableEq, Repr

/-- U+FFFD. -/
def CodePoint.replacement : CodePoint := .char '\uFFFD'

def CodePoint.encode : CodePoint → List UInt8
  | .char c => String.utf8EncodeChar c
  | .surrogate _ => [0x3F]

def encode (s : List CodePoint) : List UInt8 := s.flatMap CodePoint.encode

/-- A text that has a UTF-8 form. -/
def NoSurrogates (s : List CodePoint) : Prop := ∀ n, .surrogate n ∉ s

/-- A text in which nothing was replaced when it was decoded. -/
def Unreplaced (s : List CodePoint) : Prop := .replacement ∉ s

/-! ### Decoding -/

/-- The second bytes that may follow a first byte. -/
def isSecond (first second : UInt8) : Bool :=
  if first = 0xE0 then 0xA0 ≤ second && second ≤ 0xBF
  else if first = 0xED then 0x80 ≤ second && second ≤ 0x9F
  else if first = 0xF0 then 0x90 ≤ second && second ≤ 0xBF
  else if first = 0xF4 then 0x80 ≤ second && second ≤ 0x8F
  else 0x80 ≤ second && second ≤ 0xBF

/-- How many bytes of no well-formed sequence are replaced together. -/
def illFormed : List UInt8 → ℕ
  | first :: second :: third :: _ =>
      if 0xF0 ≤ first ∧ first ≤ 0xF4 ∧ isSecond first second then
        if 0x80 ≤ third ∧ third ≤ 0xBF then 3 else 2
      else if 0xE0 ≤ first ∧ first ≤ 0xEF ∧ isSecond first second then 2
      else 1
  | [first, second] => if 0xE0 ≤ first ∧ first ≤ 0xF4 ∧ isSecond first second then 2 else 1
  | [_] | [] => 1

theorem illFormed_pos (bs : List UInt8) : 0 < illFormed bs := by
  unfold illFormed
  repeat' split
  all_goals decide

/-- The text that bytes spell. -/
def decode : List UInt8 → List CodePoint
  | [] => []
  | b :: bs =>
      match (b :: bs).toByteArray.utf8DecodeChar? 0 with
      | some c => .char c :: decode ((b :: bs).drop c.utf8Size)
      | none => .replacement :: decode ((b :: bs).drop (illFormed (b :: bs)))
termination_by bs => bs.length
decreasing_by
  all_goals rw [List.length_drop, List.length_cons]
  · have hpos := c.utf8Size_pos
    omega
  · have hpos := illFormed_pos (b :: bs)
    omega

theorem decode_nil : decode [] = [] := by
  rw [decode]

theorem decode_of_eq_some {bs : List UInt8} {c : Char}
    (h : bs.toByteArray.utf8DecodeChar? 0 = some c) :
    decode bs = .char c :: decode (bs.drop c.utf8Size) := by
  cases bs with
  | nil => cases h
  | cons b bs => rw [decode, h]

/-- A character is read off the front. -/
theorem decode_utf8EncodeChar_append (c : Char) (bs : List UInt8) :
    decode (String.utf8EncodeChar c ++ bs) = .char c :: decode bs := by
  have hchar : (String.utf8EncodeChar c ++ bs).toByteArray.utf8DecodeChar? 0 = some c := by
    rw [List.toByteArray_append]
    exact ByteArray.utf8DecodeChar?_utf8EncodeChar_append
  rw [decode_of_eq_some hchar, List.drop_left' (String.length_utf8EncodeChar c)]

/-- **A text without surrogates is read back.** -/
theorem decode_encode {s : List CodePoint} (h : NoSurrogates s) : decode (encode s) = s := by
  induction s with
  | nil => exact decode_nil
  | cons p s ih =>
    have hs : NoSurrogates s := fun n hn => h n (List.mem_cons_of_mem p hn)
    cases p with
    | char c =>
      have hcons : encode (.char c :: s) = String.utf8EncodeChar c ++ encode s := rfl
      rw [hcons, decode_utf8EncodeChar_append, ih hs]
    | surrogate n => exact absurd List.mem_cons_self (h n)

/-- The bytes that a character was read from. -/
theorem eq_of_utf8DecodeChar? {bs : List UInt8} {c : Char}
    (h : bs.toByteArray.utf8DecodeChar? 0 = some c) :
    bs = String.utf8EncodeChar c ++ bs.drop c.utf8Size := by
  obtain ⟨l, hl⟩ := ByteArray.exists_of_utf8DecodeChar?_eq_some h
  have hbs : bs = String.utf8EncodeChar c ++ l.data.toList := by
    have hdata := congrArg (fun b => b.data.toList) hl
    simpa using hdata
  rw [hbs, List.drop_left' (String.length_utf8EncodeChar c)]

/-- No surrogate is ever read. -/
theorem noSurrogates_decode (bs : List UInt8) : NoSurrogates (decode bs) := by
  intro n
  induction bs using decode.induct with
  | case1 =>
    rw [decode_nil]
    exact List.not_mem_nil
  | case2 b bs c hchar ih =>
    rw [decode, hchar]
    exact List.not_mem_cons_of_ne_of_not_mem (by rintro ⟨⟩) ih
  | case3 b bs hchar ih =>
    rw [decode, hchar]
    exact List.not_mem_cons_of_ne_of_not_mem (by rintro ⟨⟩) ih

/-- **Bytes are written back** where nothing was replaced. -/
theorem encode_decode {bs : List UInt8} (h : Unreplaced (decode bs)) : encode (decode bs) = bs := by
  induction bs using decode.induct with
  | case1 =>
    rw [decode_nil]
    rfl
  | case2 b bs c hchar ih =>
    rw [decode_of_eq_some hchar] at h ⊢
    have htail := ih fun hmem => h (List.mem_cons_of_mem _ hmem)
    have hcons : encode (.char c :: decode ((b :: bs).drop c.utf8Size)) =
      String.utf8EncodeChar c ++ encode (decode ((b :: bs).drop c.utf8Size)) := rfl
    rw [hcons, htail]
    exact (eq_of_utf8DecodeChar? hchar).symm
  | case3 b bs hchar ih =>
    rw [decode, hchar] at h
    exact absurd List.mem_cons_self h

/-! ### Numbers -/

namespace CodePoint

/-- `ord`. -/
def toNat : CodePoint → ℕ
  | char c => c.toNat
  | surrogate n => 0xD800 + n

/-- `chr`; `none` where there is no such code point. -/
def ofNat (n : ℕ) : Option CodePoint :=
  if h : n.isValidChar then some (char (Char.ofNatAux n h))
  else if h : n - 0xD800 < 0x800 then some (surrogate ⟨n - 0xD800, h⟩)
  else none

theorem toNat_ofNat {n : ℕ} {p : CodePoint} (h : ofNat n = some p) : p.toNat = n := by
  by_cases hchar : n.isValidChar
  · rw [ofNat, dif_pos hchar] at h
    cases h
    rfl
  · rw [ofNat, dif_neg hchar] at h
    split at h
    · cases h
      unfold Nat.isValidChar at hchar
      exact Nat.add_sub_cancel' (by omega)
    · cases h

theorem toNat_lt (p : CodePoint) : p.toNat < 0x110000 := by
  cases p with
  | char c =>
    have hc : c.toNat.isValidChar := c.valid
    unfold Nat.isValidChar at hc
    rw [toNat]
    omega
  | surrogate n =>
    have hn := n.isLt
    rw [toNat]
    omega

theorem toNat_inj {p q : CodePoint} (h : p.toNat = q.toNat) : p = q := by
  cases p with
  | char c =>
    cases q with
    | char d => exact congrArg char (Char.toNat_inj.mp h)
    | surrogate n =>
      have hc : c.toNat.isValidChar := c.valid
      have hn := n.isLt
      unfold Nat.isValidChar at hc
      simp only [toNat] at h
      omega
  | surrogate n =>
    cases q with
    | char c =>
      have hc : c.toNat.isValidChar := c.valid
      have hn := n.isLt
      unfold Nat.isValidChar at hc
      simp only [toNat] at h
      omega
    | surrogate m => exact congrArg surrogate (Fin.ext (Nat.add_left_cancel h))

theorem ofNat_toNat (p : CodePoint) : ofNat p.toNat = some p := by
  have hsome : (ofNat p.toNat).isSome := by
    have hlt := p.toNat_lt
    by_cases hchar : p.toNat.isValidChar
    · rw [ofNat, dif_pos hchar]
      rfl
    · rw [ofNat, dif_neg hchar]
      unfold Nat.isValidChar at hchar
      rw [dif_pos (by omega)]
      rfl
  obtain ⟨q, hq⟩ := Option.isSome_iff_exists.mp hsome
  rw [hq, toNat_inj (toNat_ofNat hq)]

end CodePoint

/-! ### ASCII -/

/-- `encode("ascii")` of a code point. -/
def CodePoint.encodeAscii : CodePoint → Option UInt8
  | char c => if c.toNat < 128 then some (UInt8.ofNat c.toNat) else none
  | surrogate _ => none

/-- `encode("ascii")`. -/
def encodeAscii (s : List CodePoint) : Option (List UInt8) := s.mapM CodePoint.encodeAscii

/-- `decode("ascii")`, of bytes that are ASCII. -/
def decodeAscii (bs : List UInt8) : List CodePoint := bs.map fun b => .char (Char.ofNat b.toNat)

theorem encodeAscii_decodeAscii {bs : List UInt8} (h : ∀ b ∈ bs, b < 128) :
    encodeAscii (decodeAscii bs) = some bs := by
  induction bs with
  | nil => rfl
  | cons b bs ih =>
    have hb : b.toNat < 128 := UInt8.lt_iff_toNat_lt.mp (h b List.mem_cons_self)
    have hchar : (Char.ofNat b.toNat).toNat = b.toNat := by
      rw [Char.ofNat, dif_pos (Or.inl (by omega))]
      rfl
    have hencode : (CodePoint.char (Char.ofNat b.toNat)).encodeAscii = some b := by
      rw [CodePoint.encodeAscii, hchar, if_pos hb, UInt8.ofNat_toNat]
    have htail := ih fun c hc => h c (List.mem_cons_of_mem b hc)
    unfold encodeAscii decodeAscii at htail ⊢
    rw [List.map_cons, List.mapM_cons, hencode, htail]
    rfl

end Utf8
