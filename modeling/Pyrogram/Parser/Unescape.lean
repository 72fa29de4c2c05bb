import Pyrogram.Parser.Utils
import Mathlib.Data.List.TakeDrop
import Mathlib.Data.List.TakeWhile

/-!
# Character references

`html.unescape` replaces every reference by what it stands for: a number by the character
that has it, a name by what the table of HTML 5 has for it, or for its longest part that the
table has.

The table is a parameter.  It is a list of names, most of which end in a semicolon.

## Main definitions

* `charref` — what follows an ampersand.
* `unescape` — `html.unescape`.
* `Paired` — a text in which the surrogates stand in pairs.

## Main results

* `Paired.unescape` — no pair of surrogates is torn apart.
-/

namespace Pyrogram.Parser

open Utf8 (CodePoint)
open Utf16

/-! ### Numbers -/

/-- `_invalid_charrefs`. -/
def invalidCharrefs : List (ℕ × ℕ) :=
  [(0x00, 0xfffd), (0x0d, 0x0d), (0x80, 0x20ac), (0x81, 0x81), (0x82, 0x201a), (0x83, 0x0192),
    (0x84, 0x201e),
    (0x85, 0x2026), (0x86, 0x2020), (0x87, 0x2021), (0x88, 0x02c6), (0x89, 0x2030), (0x8a, 0x0160),
      (0x8b, 0x2039),
    (0x8c, 0x0152), (0x8d, 0x8d), (0x8e, 0x017d), (0x8f, 0x8f), (0x90, 0x90), (0x91, 0x2018),
      (0x92, 0x2019),
    (0x93, 0x201c), (0x94, 0x201d), (0x95, 0x2022), (0x96, 0x2013), (0x97, 0x2014), (0x98, 0x02dc),
      (0x99, 0x2122),
    (0x9a, 0x0161), (0x9b, 0x203a), (0x9c, 0x0153), (0x9d, 0x9d), (0x9e, 0x017e), (0x9f, 0x0178)]

/-- `_invalid_codepoints`. -/
def isInvalidCodepoint (num : ℕ) : Bool :=
  0x1 ≤ num && num ≤ 0x8 || 0xe ≤ num && num ≤ 0x1f || 0x7f ≤ num && num ≤ 0x9f || 0xfdd0 ≤ num &&
    num ≤ 0xfdef ||
    num = 0xb || num ≤ 0x10ffff && 0xfffe ≤ num % 0x10000

def numericValue (num : ℕ) : List Char :=
  match invalidCharrefs.lookup num with
  | some n => [Char.ofNat n]
  | none =>
      if 0xd800 ≤ num ∧ num ≤ 0xdfff ∨ 0x10ffff < num then ['\uFFFD']
      else if isInvalidCodepoint num then []
      else [Char.ofNat num]

def digitValue : CodePoint → Option ℕ
  | .char c =>
      if '0' ≤ c ∧ c ≤ '9' then some (c.toNat - '0'.toNat)
      else if 'a' ≤ c ∧ c ≤ 'f' then some (c.toNat - 'a'.toNat + 10)
      else if 'A' ≤ c ∧ c ≤ 'F' then some (c.toNat - 'A'.toNat + 10)
      else none
  | .surrogate _ => none

def isDigit (base : ℕ) (p : CodePoint) : Bool := (digitValue p).any (· < base)

def readNumber (base : ℕ) (digits : Str) : ℕ :=
  digits.foldl (fun num p => num * base + (digitValue p).getD 0) 0

/-- With the semicolon behind it, if there is one. -/
def withSemicolon (s : Str) (n : ℕ) : ℕ := if s[n]? = some (.char ';') then n + 1 else n

/-! ### Names -/

/-- The characters that a name may have. -/
def isNameChar (p : CodePoint) : Bool :=
  p ∉ [.char '\t', .char '\n', .char '\x0c', .char ' ', .char '<', .char '&', .char '#', .char ';']

/-- The characters of a text that has no surrogates. -/
def asChars : Str → Option (List Char)
  | [] => some []
  | .char c :: s => (asChars s).map (c :: ·)
  | .surrogate _ :: _ => none

section

variable (html5 : List Char → Option (List Char))

def entry (name : Str) : Option (List Char) := (asChars name).bind html5

/-- The loop for the longest part of the name, not shorter than two characters. -/
def longestPart (name : Str) : ℕ → Option (List Char × ℕ)
  | 0 | 1 => none
  | x + 2 =>
      match entry html5 (name.take (x + 2)) with
      | some value => some (value, x + 2)
      | none => longestPart name (x + 1)

/-- A number, behind `&#`. -/
def numericRef (s : Str) : Option (List Char × ℕ) :=
  let (base, skip) := if s[1]? = some (.char 'x') ∨ s[1]? = some (.char 'X') then (16, 2)
    else (10, 1)
  let digits := (s.drop skip).takeWhile (isDigit base)
  if digits = [] then none
  else some (numericValue (readNumber base digits), withSemicolon s (skip + digits.length))

def namedRef (s : Str) : Option (List Char × ℕ) :=
  let length := ((s.takeWhile isNameChar).take 32).length
  if length = 0 then none
  else
    let name := s.take (withSemicolon s length)
    match entry html5 name with
    | some value => some (value, name.length)
    | none => longestPart html5 name (name.length - 1)

/-- `_replace_charref`, for what stands behind an ampersand: the value, and how many code
points it stands for. -/
def charref (s : Str) : Option (List Char × ℕ) :=
  if s.head? = some (.char '#') then numericRef s else namedRef html5 s

/-- The substitution, with the number of code points that the last reference still covers.
What is left of a name behind its longest part has no ampersand. -/
def unescapeFrom : ℕ → Str → Str
  | _, [] => []
  | n + 1, _ :: s => unescapeFrom n s
  | 0, p :: s =>
      if p = .char '&' then
        match charref html5 s with
        | some (value, n) => chars value ++ unescapeFrom n s
        | none => p :: unescapeFrom 0 s
      else p :: unescapeFrom 0 s

def unescape (s : Str) : Str := unescapeFrom html5 0 s

/-! ### What is replaced -/

variable {html5}

theorem eq_chars_of_asChars : ∀ {s : Str} {t : List Char}, asChars s = some t → s = chars t
  | [], t, h => by
    cases h
    rfl
  | .char c :: s, t, h => by
    obtain ⟨t', ht', rfl⟩ := Option.map_eq_some_iff.mp h
    rw [eq_chars_of_asChars ht', chars_cons]

theorem eq_chars_of_entry {name : Str} {value : List Char} (h : entry html5 name = some value) :
    ∃ key, name = chars key := by
  obtain ⟨key, hkey, -⟩ := Option.bind_eq_some_iff.mp h
  exact ⟨key, eq_chars_of_asChars hkey⟩

theorem exists_chars_of_longestPart {name : Str} {k n : ℕ} {value : List Char}
    (h : longestPart html5 name k = some (value, n)) : n ≤ k ∧ ∃ key, name.take n = chars key := by
  fun_induction longestPart html5 name k with
  | case1 => cases h
  | case2 => cases h
  | case3 x value' hentry =>
    obtain ⟨rfl, rfl⟩ := Prod.mk.inj (Option.some.inj h)
    exact ⟨Nat.le_refl _, eq_chars_of_entry hentry⟩
  | case4 x hentry ih =>
    obtain ⟨hle, hkey⟩ := ih h
    exact ⟨Nat.le_succ_of_le hle, hkey⟩

theorem exists_chars_of_digits {base : ℕ} {digits : Str} (h : ∀ p ∈ digits, isDigit base p = true) :
    ∃ key, digits = chars key := by
  induction digits with
  | nil => exact ⟨[], rfl⟩
  | cons p digits ih =>
    obtain ⟨hp, hdigits⟩ := List.forall_mem_cons.mp h
    obtain ⟨key, rfl⟩ := ih hdigits
    cases p with
    | char c => exact ⟨c :: key, rfl⟩
    | surrogate n => cases hp

theorem exists_chars_withSemicolon {s : Str} {n : ℕ} (h : ∃ key, s.take n = chars key) :
    ∃ key, s.take (withSemicolon s n) = chars key := by
  obtain ⟨key, hkey⟩ := h
  by_cases hn : s[n]? = some (.char ';')
  · refine ⟨key ++ [';'], ?_⟩
    rw [withSemicolon, if_pos hn, List.take_add_one, hn, hkey, chars_append]
    rfl
  · exact ⟨key, by rw [withSemicolon, if_neg hn, hkey]⟩

theorem exists_chars_of_numericRef {s : Str} {value : List Char} {n : ℕ}
    (hs : s.head? = some (.char '#'))
    (h : numericRef s = some (value, n)) : ∃ key, s.take n = chars key := by
  -- the `#`, perhaps an `x`, and the digits
  have hskip : ∀ base skip, (∃ key, s.take skip = chars key) →
      ∃ key, s.take (skip + ((s.drop skip).takeWhile (isDigit base)).length) = chars key := by
    rintro base skip ⟨key, hkey⟩
    have hclass : ∀ p ∈ (s.drop skip).takeWhile (isDigit base), isDigit base p = true :=
      fun p hp => List.mem_takeWhile_imp hp
    obtain ⟨digits, hdigits⟩ := exists_chars_of_digits hclass
    refine ⟨key ++ digits, ?_⟩
    rw [List.take_add, hkey, chars_append, ← hdigits]
    congr 1
    exact (List.prefix_iff_eq_take.mp (List.takeWhile_prefix _)).symm
  obtain ⟨t, rfl⟩ : ∃ t, s = .char '#' :: t := by
    cases s with
    | nil => cases hs
    | cons p t => exact ⟨t, by rw [Option.some.inj hs]⟩
  unfold numericRef at h
  by_cases hx : (Utf8.CodePoint.char '#' :: t)[1]? = some (.char 'x') ∨
    (Utf8.CodePoint.char '#' :: t)[1]? = some (.char 'X')
  · rw [if_pos hx] at h
    have htwo : ∃ key, (Utf8.CodePoint.char '#' :: t).take 2 = chars key := by
      cases t with
      | nil => exact ⟨['#'], rfl⟩
      | cons p t =>
        rcases hx with hx | hx
        · exact ⟨['#', 'x'], by rw [show p = .char 'x' from Option.some.inj hx]; rfl⟩
        · exact ⟨['#', 'X'], by rw [show p = .char 'X' from Option.some.inj hx]; rfl⟩
    simp only at h
    split at h
    · cases h
    · obtain ⟨-, rfl⟩ := Prod.mk.inj (Option.some.inj h)
      exact exists_chars_withSemicolon (hskip 16 2 htwo)
  · rw [if_neg hx] at h
    simp only at h
    split at h
    · cases h
    · obtain ⟨-, rfl⟩ := Prod.mk.inj (Option.some.inj h)
      exact exists_chars_withSemicolon (hskip 10 1 ⟨['#'], rfl⟩)

theorem exists_chars_of_namedRef {s : Str} {value : List Char} {n : ℕ}
    (h : namedRef html5 s = some (value, n)) :
    ∃ key, s.take n = chars key := by
  unfold namedRef at h
  simp only at h
  split at h
  · cases h
  · split at h
    · rename_i hentry
      obtain ⟨-, rfl⟩ := Prod.mk.inj (Option.some.inj h)
      obtain ⟨key, hkey⟩ := eq_chars_of_entry hentry
      exact ⟨key, by rw [← hkey, List.length_take, List.take_eq_take_iff]; omega⟩
    · obtain ⟨hle, key, hkey⟩ := exists_chars_of_longestPart h
      refine ⟨key, ?_⟩
      rw [← hkey, List.take_take]
      congr 1
      rw [List.length_take] at hle
      omega

/-- What a reference consists of has no surrogates. -/
theorem exists_chars_of_charref {s : Str} {value : List Char} {n : ℕ}
    (h : charref html5 s = some (value, n)) :
    ∃ key, s.take n = chars key := by
  unfold charref at h
  split at h
  · rename_i hs
    exact exists_chars_of_numericRef hs h
  · exact exists_chars_of_namedRef h

theorem unescapeFrom_eq_drop (n : ℕ) (s : Str) :
    unescapeFrom html5 n s = unescape html5 (s.drop n) := by
  induction n generalizing s with
  | zero => rfl
  | succ n ih =>
    cases s with
    | nil => rfl
    | cons p s => exact ih s

/-! ### Pairs of surrogates -/

/-- Every surrogate stands in a pair. -/
inductive Paired : Str → Prop
  | nil : Paired []
  | char (c : Char) {s : Str} (hs : Paired s) : Paired (.char c :: s)
  | pair {h l : Fin 0x800} {s : Str} (hh : h.val < 0x400) (hl : 0x400 ≤ l.val) (hs : Paired s) :
      Paired (.surrogate h :: .surrogate l :: s)

theorem Paired.append {s s' : Str} (h : Paired s) (h' : Paired s') : Paired (s ++ s') := by
  induction h with
  | nil => exact h'
  | char c _ ih => exact .char c ih
  | pair hh hl _ ih => exact .pair hh hl ih

theorem paired_chars (t : List Char) : Paired (chars t) := by
  induction t with
  | nil => exact .nil
  | cons c t ih => exact .char c ih

theorem paired_units (c : Char) : Paired (units (.char c)) := by
  by_cases hc : c.toNat < 0x10000
  · rw [units, if_pos hc]
    exact .char c .nil
  · rw [units, if_neg hc]
    have hlt := (CodePoint.char c).toNat_lt
    simp only [CodePoint.toNat] at hlt
    exact .pair (by rw [val_high hc]; omega) (by rw [val_low]; omega) .nil

theorem paired_addSurrogates (t : List Char) : Paired (addSurrogates (chars t)) := by
  induction t with
  | nil => exact .nil
  | cons c t ih => exact (paired_units c).append ih

/-- Without a few characters in front, the pairs are the same. -/
theorem Paired.drop {s : Str} (hs : Paired s) : ∀ {n : ℕ} {key : List Char}, s.take n = chars key →
    Paired (s.drop n)
  | 0, _, _ => hs
  | n + 1, key, h => by
    cases hs with
    | nil => exact .nil
    | char c hs =>
      cases key with
      | nil => cases h
      | cons c' key => exact hs.drop (List.cons.inj h).2
    | pair hh hl hs =>
      cases key with
      | nil => cases h
      | cons c' key => cases (List.cons.inj h).1

/-- **No pair of surrogates is torn apart.** -/
theorem Paired.unescape {s : Str} (hs : Paired s) : Paired (unescape html5 s) := by
  match hs with
  | .nil => exact .nil
  | .char c hs =>
    rename_i s
    rw [Parser.unescape, unescapeFrom]
    split
    · split
      · rename_i value n href
        obtain ⟨key, hkey⟩ := exists_chars_of_charref href
        rw [unescapeFrom_eq_drop]
        exact (paired_chars value).append (hs.drop hkey).unescape
      · exact .char c hs.unescape
    · exact .char c hs.unescape
  | .pair hh hl hs => exact .pair hh hl hs.unescape
termination_by s.length
decreasing_by all_goals simp; try omega

theorem units_ofPair {h l : Fin 0x800} (hh : h.val < 0x400) (hl : 0x400 ≤ l.val) :
    units (.char (ofPair h l)) = [.surrogate h, .surrogate l] := by
  have hvalid : (0x10000 + h.val * 0x400 + (l.val - 0x400)).isValidChar := .inr ⟨by omega, by omega⟩
  have htoNat : (ofPair h l).toNat = 0x10000 + h.val * 0x400 + (l.val - 0x400) := by
    rw [ofPair, Char.ofNat, dif_pos hvalid]
    rfl
  have hc : ¬ (ofPair h l).toNat < 0x10000 := by omega
  have hhigh : high (ofPair h l) = h := Fin.ext (by rw [val_high hc, htoNat]; omega)
  have hlow : low (ofPair h l) = l := Fin.ext (by rw [val_low, htoNat]; omega)
  rw [units, if_neg hc, hhigh, hlow]

/-- A text in pairs is what some characters become. -/
theorem Paired.exists_chars {s : Str} (hs : Paired s) :
    ∃ t, addSurrogates s = addSurrogates (chars t) := by
  induction hs with
  | nil => exact ⟨[], rfl⟩
  | @char c s _ ih =>
    obtain ⟨t, ht⟩ := ih
    refine ⟨c :: t, ?_⟩
    show units (.char c) ++ addSurrogates s = units (.char c) ++ addSurrogates (chars t)
    rw [ht]
  | @pair h l s hh hl _ ih =>
    obtain ⟨t, ht⟩ := ih
    refine ⟨ofPair h l :: t, ?_⟩
    calc addSurrogates (.surrogate h :: .surrogate l :: s) = [.surrogate h, .surrogate l] ++
      addSurrogates s := rfl
      _ = units (.char (ofPair h l)) ++ addSurrogates (chars t) := by rw [units_ofPair hh hl, ht]
      _ = addSurrogates (chars (ofPair h l :: t)) := (encode_cons _ _).symm

/-- **Putting the surrogates together keeps the units.** -/
theorem Paired.addSurrogates_removeSurrogates {s : Str} (hs : Paired s) :
    addSurrogates (removeSurrogates s) = addSurrogates s := by
  obtain ⟨t, ht⟩ := hs.exists_chars
  rw [removeSurrogates_eq ht, ht]

end

end Pyrogram.Parser
