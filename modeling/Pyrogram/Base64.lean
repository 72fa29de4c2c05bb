import Mathlib.Algebra.Order.Ring.Int
import Mathlib.Tactic.Common

/-!
# Base64

Three bytes in four characters of six bits, and the decoder that skips what is not in the
alphabet and stops where the padding completes a group.

## Main definitions

* `character`, `value` — the alphabet.
* `b2a`, `a2b`, `a2bStrict` — the encoder with padding, the lenient and the strict decoder.
* `toUrl`, `ofUrl` — the alphabet for URLs.

## Main results

* `a2b_b2a`, `a2bStrict_b2a` — decoding undoes encoding.
* `b2aUnpadded_append_padding` — the padding can be found again from the length.
-/

namespace Base64

/-- The padding character, `=`. -/
def pad : UInt8 := 61

/-- The character of six bits. -/
def character (v : ℕ) : UInt8 :=
  if v < 26 then UInt8.ofNat (v + 65)
  else if v < 52 then UInt8.ofNat (v + 71)
  else if v < 62 then UInt8.ofNat (v - 4)
  else if v = 62 then 43
  else 47

/-- The six bits of a character of the alphabet. -/
def value (ch : UInt8) : Option ℕ :=
  if 65 ≤ ch ∧ ch ≤ 90 then some (ch.toNat - 65)
  else if 97 ≤ ch ∧ ch ≤ 122 then some (ch.toNat - 71)
  else if 48 ≤ ch ∧ ch ≤ 57 then some (ch.toNat + 4)
  else if ch = 43 then some 62
  else if ch = 47 then some 63
  else none

/-- The characters of a text without its padding. -/
def b2aUnpadded : List UInt8 → List UInt8
  | a :: b :: c :: rest =>
      character (a.toNat / 4) :: character (a.toNat % 4 * 16 + b.toNat / 16) ::
        character (b.toNat % 16 * 4 + c.toNat / 64) :: character (c.toNat % 64) :: b2aUnpadded rest
  | [a, b] => [character (a.toNat / 4), character (a.toNat % 4 * 16 + b.toNat / 16),
      character (b.toNat % 16 * 4)]
  | [a] => [character (a.toNat / 4), character (a.toNat % 4 * 16)]
  | [] => []

/-- `b2a_base64`, without the newline. -/
def b2a (bs : List UInt8) : List UInt8 :=
  b2aUnpadded bs ++ List.replicate ((3 - bs.length % 3) % 3) pad

/-- `a2b_base64`, at a position in a group of four, with the bits left over from the last
character and the padding seen since. -/
def a2bFrom (quadPos leftchar pads : ℕ) : List UInt8 → Option (List UInt8)
  | [] => if quadPos = 0 then some [] else none
  | ch :: rest =>
      if ch = pad then
        if 2 ≤ quadPos then
          if 4 ≤ quadPos + (pads + 1) then some [] else a2bFrom quadPos leftchar (pads + 1) rest
        else a2bFrom quadPos leftchar pads rest
      else
        match value ch with
        | none => a2bFrom quadPos leftchar pads rest
        | some v =>
            match quadPos with
            | 0 => a2bFrom 1 v 0 rest
            | 1 => (a2bFrom 2 (v % 16) 0 rest).map (UInt8.ofNat (leftchar * 4 + v / 16) :: ·)
            | 2 => (a2bFrom 3 (v % 4) 0 rest).map (UInt8.ofNat (leftchar * 16 + v / 4) :: ·)
            | _ => (a2bFrom 0 0 0 rest).map (UInt8.ofNat (leftchar * 64 + v) :: ·)

/-- `a2b_base64`. -/
def a2b (s : List UInt8) : Option (List UInt8) := a2bFrom 0 0 0 s

/-! ### The alphabet -/

theorem value_character {v : ℕ} (h : v < 64) : value (character v) = some v := by
  have hall : ∀ v < 64, value (character v) = some v := by decide
  exact hall v h

theorem character_of_le {v : ℕ} (h : 64 ≤ v) : character v = 47 := by
  unfold character
  repeat rw [if_neg (by omega)]

theorem character_ne_pad (v : ℕ) : character v ≠ pad := by
  intro h
  have hvalue : value (character v) = none := by
    rw [h]
    rfl
  by_cases hlt : v < 64
  · rw [value_character hlt] at hvalue
    cases hvalue
  · rw [character_of_le (not_lt.mp hlt)] at hvalue
    cases hvalue

/-! ### Decoding undoes encoding -/

section Character

variable {leftchar pads v : ℕ} (hv : v < 64) (rest : List UInt8)

include hv

attribute [local simp] a2bFrom

theorem a2bFrom_first : a2bFrom 0 leftchar pads (character v :: rest) = a2bFrom 1 v 0 rest := by
  simp [character_ne_pad v, value_character hv]

theorem a2bFrom_second : a2bFrom 1 leftchar pads (character v :: rest) =
    (a2bFrom 2 (v % 16) 0 rest).map (UInt8.ofNat (leftchar * 4 + v / 16) :: ·) := by
  simp [character_ne_pad v, value_character hv]

theorem a2bFrom_third : a2bFrom 2 leftchar pads (character v :: rest) =
    (a2bFrom 3 (v % 4) 0 rest).map (UInt8.ofNat (leftchar * 16 + v / 4) :: ·) := by
  simp [character_ne_pad v, value_character hv]

theorem a2bFrom_fourth : a2bFrom 3 leftchar pads (character v :: rest) =
    (a2bFrom 0 0 0 rest).map (UInt8.ofNat (leftchar * 64 + v) :: ·) := by
  simp [character_ne_pad v, value_character hv]

end Character

/-- The bits of a byte, put together again. -/
theorem ofNat_eq {a : UInt8} {n : ℕ} (h : n = a.toNat) : UInt8.ofNat n = a := by
  rw [h, UInt8.ofNat_toNat]

theorem a2bFrom_b2a (bs : List UInt8) (pads : ℕ) : a2bFrom 0 0 pads (b2a bs) = some bs := by
  unfold b2a
  induction bs using b2aUnpadded.induct generalizing pads with
  | case1 a b c rest ih =>
    have ha := a.toNat_lt
    have hb := b.toNat_lt
    have hc := c.toNat_lt
    have hpad : (3 - (a :: b :: c :: rest).length % 3) % 3 = (3 - rest.length % 3) % 3 := by
      simp only [List.length_cons]
      omega
    rw [hpad, b2aUnpadded]
    simp only [List.cons_append]
    rw [a2bFrom_first (by omega), a2bFrom_second (by omega), a2bFrom_third (by omega),
      a2bFrom_fourth (by omega), ih]
    simp only [Option.map_some]
    rw [ofNat_eq (a := a) (by omega), ofNat_eq (a := b) (by omega), ofNat_eq (a := c) (by omega)]
  | case2 a b =>
    have ha := a.toNat_lt
    have hb := b.toNat_lt
    have hpadded : b2aUnpadded [a, b] ++ List.replicate ((3 - [a, b].length % 3) % 3) pad =
        [character (a.toNat / 4), character (a.toNat % 4 * 16 + b.toNat / 16),
          character (b.toNat % 16 * 4), pad] := rfl
    have hend : ∀ leftchar, a2bFrom 3 leftchar 0 [pad] = some [] := fun _ => rfl
    rw [hpadded, a2bFrom_first (by omega), a2bFrom_second (by omega), a2bFrom_third (by omega),
      hend]
    simp only [Option.map_some]
    rw [ofNat_eq (a := a) (by omega), ofNat_eq (a := b) (by omega)]
  | case3 a =>
    have ha := a.toNat_lt
    have hpadded : b2aUnpadded [a] ++ List.replicate ((3 - [a].length % 3) % 3) pad =
        [character (a.toNat / 4), character (a.toNat % 4 * 16), pad, pad] := rfl
    have hend : ∀ leftchar, a2bFrom 2 leftchar 0 [pad, pad] = some [] := fun _ => rfl
    rw [hpadded, a2bFrom_first (by omega), a2bFrom_second (by omega), hend]
    simp only [Option.map_some]
    rw [ofNat_eq (a := a) (by omega)]
  | case4 => rfl

/-- **Decoding undoes encoding.** -/
theorem a2b_b2a (bs : List UInt8) : a2b (b2a bs) = some bs := a2bFrom_b2a bs 0

/-! ### Strict decoding -/

/-- `a2b_base64` with `strict_mode`: nothing outside the alphabet, nothing of it behind
padding, and nothing behind the padding that completes a group. -/
def a2bStrictFrom (quadPos leftchar pads : ℕ) (padded : Bool) : List UInt8 → Option (List UInt8)
  | [] => if quadPos = 0 then some [] else none
  | ch :: rest =>
      if ch = pad then
        if 2 ≤ quadPos then
          if 4 ≤ quadPos + (pads + 1) then if rest = [] then some [] else none
          else a2bStrictFrom quadPos leftchar (pads + 1) true rest
        else a2bStrictFrom quadPos leftchar pads true rest
      else
        match value ch with
        | none => none
        | some v =>
            if padded then none
            else
              match quadPos with
              | 0 => a2bStrictFrom 1 v 0 false rest
              | 1 => (a2bStrictFrom 2 (v % 16) 0 false rest).map (UInt8.ofNat
                  (leftchar * 4 + v / 16) :: ·)
              | 2 => (a2bStrictFrom 3 (v % 4) 0 false rest).map (UInt8.ofNat (leftchar * 16 + v / 4)
                  :: ·)
              | _ => (a2bStrictFrom 0 0 0 false rest).map (UInt8.ofNat (leftchar * 64 + v) :: ·)

/-- `a2b_base64` with `strict_mode`; no padding may stand first. -/
def a2bStrict (s : List UInt8) : Option (List UInt8) :=
  if s.head? = some pad then none else a2bStrictFrom 0 0 0 false s

/-- **The strict decoder reads what the lenient one reads**, where only characters of the
alphabet and the padding that completes their groups follow. -/
theorem a2bStrictFrom_eq {quadPos : ℕ} (hquad : quadPos < 4) (leftchar : ℕ) {s : List UInt8}
    (hs : ∀ ch ∈ s, ∃ v < 64, ch = character v) {k : ℕ} (hk : (quadPos + s.length + k) % 4 = 0)
    (hk3 : k < 3) :
    a2bStrictFrom quadPos leftchar 0 false (s ++ List.replicate k pad) =
      a2bFrom quadPos leftchar 0 (s ++ List.replicate k pad) := by
  induction s generalizing quadPos leftchar with
  | nil =>
    have hcases : quadPos = 0 ∧ k = 0 ∨ quadPos = 2 ∧ k = 2 ∨ quadPos = 3 ∧ k = 1 := by
      simp only [List.length_nil] at hk
      omega
    rcases hcases with ⟨rfl, rfl⟩ | ⟨rfl, rfl⟩ | ⟨rfl, rfl⟩ <;> rfl
  | cons ch s ih =>
    obtain ⟨⟨v, hv, rfl⟩, hrest⟩ := List.forall_mem_cons.mp hs
    rw [List.length_cons] at hk
    rw [List.cons_append, a2bStrictFrom, a2bFrom, if_neg (character_ne_pad v),
      if_neg (character_ne_pad v), value_character hv]
    rcases (by omega : quadPos = 0 ∨ quadPos = 1 ∨ quadPos = 2 ∨ quadPos = 3) with rfl | rfl
      | rfl | rfl
    · exact @ih 1 (by decide) v hrest (by omega)
    · exact congrArg (Option.map _) (@ih 2 (by decide) (v % 16) hrest (by omega))
    · exact congrArg (Option.map _) (@ih 3 (by decide) (v % 4) hrest (by omega))
    · exact congrArg (Option.map _) (@ih 0 (by decide) 0 hrest (by omega))

/-! ### Without padding -/

theorem mem_b2aUnpadded {bs : List UInt8} {ch : UInt8} (h : ch ∈ b2aUnpadded bs) :
    ∃ v, ch = character v := by
  induction bs using b2aUnpadded.induct with
  | case1 a b c rest ih =>
    simp only [b2aUnpadded, List.mem_cons] at h
    rcases h with rfl | rfl | rfl | rfl | h
    · exact ⟨_, rfl⟩
    · exact ⟨_, rfl⟩
    · exact ⟨_, rfl⟩
    · exact ⟨_, rfl⟩
    · exact ih h
  | case2 a b =>
    simp only [b2aUnpadded, List.mem_cons, List.not_mem_nil, or_false] at h
    rcases h with rfl | rfl | rfl <;> exact ⟨_, rfl⟩
  | case3 a =>
    simp only [b2aUnpadded, List.mem_cons, List.not_mem_nil, or_false] at h
    rcases h with rfl | rfl <;> exact ⟨_, rfl⟩
  | case4 => cases h

theorem exists_lt_of_mem_b2aUnpadded {bs : List UInt8} {ch : UInt8} (h : ch ∈ b2aUnpadded bs) :
    ∃ v < 64, ch = character v := by
  obtain ⟨v, rfl⟩ := mem_b2aUnpadded h
  by_cases hv : v < 64
  · exact ⟨v, hv, rfl⟩
  · exact ⟨63, by decide, character_of_le (not_lt.mp hv)⟩

theorem mem_b2a {bs : List UInt8} {ch : UInt8} (h : ch ∈ b2a bs) :
    ch = pad ∨ ∃ v < 64, ch = character v := by
  rcases List.mem_append.mp h with h | h
  · exact .inr (exists_lt_of_mem_b2aUnpadded h)
  · exact .inl (List.eq_of_mem_replicate h)

/-- The length that the padding completes. -/
theorem length_b2aUnpadded (bs : List UInt8) :
    (b2aUnpadded bs).length + (3 - bs.length % 3) % 3 = (bs.length + 2) / 3 * 4 := by
  induction bs using b2aUnpadded.induct with
  | case1 a b c rest ih =>
    simp only [b2aUnpadded, List.length_cons]
    omega
  | case2 a b => simp [b2aUnpadded]
  | case3 a => simp [b2aUnpadded]
  | case4 => rfl

theorem length_b2a (bs : List UInt8) : (b2a bs).length = (bs.length + 2) / 3 * 4 := by
  rw [b2a, List.length_append, List.length_replicate, length_b2aUnpadded]

/-- The padding of a text that has lost it. -/
def padding (length : ℕ) : List UInt8 := List.replicate (-(length : ℤ) % 4).toNat pad

theorem b2aUnpadded_append_padding (bs : List UInt8) :
    b2aUnpadded bs ++ padding (b2aUnpadded bs).length = b2a bs := by
  have hlength := length_b2aUnpadded bs
  have hpad : (-((b2aUnpadded bs).length : ℤ) % 4).toNat = (3 - bs.length % 3) % 3 := by omega
  rw [padding, hpad, b2a]

/-- `strip("=")`. -/
def strip (s : List UInt8) : List UInt8 :=
  ((s.dropWhile (· = pad)).reverse.dropWhile (· = pad)).reverse

theorem dropWhile_pads (k : ℕ) (s : List UInt8) :
    (List.replicate k pad ++ s).dropWhile (· = pad) = s.dropWhile (· = pad) := by
  induction k with
  | zero => rfl
  | succ k ih => rw [List.replicate_succ, List.cons_append, List.dropWhile_cons_of_pos (by simp),
      ih]

theorem dropWhile_of_forall_ne {s : List UInt8} (h : ∀ ch ∈ s, ch ≠ pad) :
    s.dropWhile (· = pad) = s := by
  cases s with
  | nil => rfl
  | cons ch s => exact List.dropWhile_cons_of_neg (by simpa using h ch List.mem_cons_self)

/-- The padding is stripped. -/
theorem strip_append_pads {s : List UInt8} (h : ∀ ch ∈ s, ch ≠ pad) (k : ℕ) :
    strip (s ++ List.replicate k pad) = s := by
  unfold strip
  cases s with
  | nil =>
    have hall := dropWhile_pads k []
    rw [List.append_nil] at hall
    rw [List.nil_append, hall]
    rfl
  | cons ch s =>
    have hch : ch ≠ pad := h ch List.mem_cons_self
    rw [List.cons_append, List.dropWhile_cons_of_neg (by simpa using hch), ← List.cons_append,
      List.reverse_append, List.reverse_replicate, dropWhile_pads,
      dropWhile_of_forall_ne (fun c hc => h c (List.mem_reverse.mp hc)), List.reverse_reverse]

/-- **Strict decoding undoes encoding.** -/
theorem a2bStrict_b2a (bs : List UInt8) : a2bStrict (b2a bs) = some bs := by
  have hlength := length_b2aUnpadded bs
  have hhead : (b2a bs).head? ≠ some pad := by
    intro h
    cases hbs : b2aUnpadded bs with
    | nil =>
      rw [hbs] at hlength
      have hzero : (3 - bs.length % 3) % 3 = 0 := by
        simp only [List.length_nil] at hlength
        omega
      rw [b2a, hbs, hzero] at h
      cases h
    | cons ch s =>
      obtain ⟨v, rfl⟩ : ∃ v, ch = character v := mem_b2aUnpadded (hbs ▸ List.mem_cons_self)
      rw [b2a, hbs] at h
      exact character_ne_pad v (Option.some.inj h)
  rw [a2bStrict, if_neg hhead, b2a, a2bStrictFrom_eq (by decide) 0
    (fun _ => exists_lt_of_mem_b2aUnpadded) (by omega) (by omega)]
  exact a2b_b2a bs

/-! ### The alphabet for URLs -/

/-- From the standard alphabet. -/
def toUrl (ch : UInt8) : UInt8 := if ch = 43 then 45 else if ch = 47 then 95 else ch

/-- To the standard alphabet. -/
def ofUrl (ch : UInt8) : UInt8 := if ch = 45 then 43 else if ch = 95 then 47 else ch

theorem ofUrl_toUrl_character (v : ℕ) : ofUrl (toUrl (character v)) = character v := by
  have hall : ∀ v < 64, ofUrl (toUrl (character v)) = character v := by decide
  by_cases hlt : v < 64
  · exact hall v hlt
  · rw [character_of_le (not_lt.mp hlt)]
    rfl

theorem ofUrl_character {v : ℕ} (h : v < 64) : ofUrl (character v) = character v := by
  have hall : ∀ v < 64, ofUrl (character v) = character v := by decide
  exact hall v h

/-- The alphabet for URLs is ASCII. -/
theorem toUrl_character_lt (v : ℕ) : toUrl (character v) < 128 ∧ toUrl (character v) ≠ pad := by
  have hall : ∀ v < 64, toUrl (character v) < 128 ∧ toUrl (character v) ≠ pad := by decide
  by_cases hlt : v < 64
  · exact hall v hlt
  · rw [character_of_le (not_lt.mp hlt)]
    decide

end Base64
