import Mathlib.Tactic.Common

/-!
# Hexadecimal text

Two digits a byte, in either case, and a decoder that skips white space before a byte.
Text is given by its ASCII bytes.

## Main definitions

* `digit` — the value of a digit.
* `decode` — the decoder.
* `lower` — how a byte is written.
* `Spells` — the spellings without white space.

## Main results

* `decode_of_spells`, `spells_of_decode` — the decoder reads the spellings, and of the
  texts without white space no others.
-/

namespace Hex

/-- The value of a digit, in either case. -/
def digit (ch : UInt8) : Option ℕ :=
  if 48 ≤ ch ∧ ch ≤ 57 then some (ch.toNat - 48)
  else if 97 ≤ ch ∧ ch ≤ 102 then some (ch.toNat - 87)
  else if 65 ≤ ch ∧ ch ≤ 70 then some (ch.toNat - 55)
  else none

def isSpace (ch : UInt8) : Bool := ch = 32 || 9 ≤ ch && ch ≤ 13

/-- Two digits a byte; white space may stand before a byte and at the end. -/
def decode : List UInt8 → Option (List UInt8)
  | [] => some []
  | [c] => if isSpace c then some [] else none
  | c :: d :: rest =>
      if isSpace c then decode (d :: rest)
      else
        match digit c, digit d with
        | some high, some low => (decode rest).map (UInt8.ofNat (16 * high + low) :: ·)
        | _, _ => none

/-- The two digits of a byte, in lower case. -/
def lower (b : UInt8) : String :=
  String.ofList [Nat.digitChar (b.toNat / 16), Nat.digitChar (b.toNat % 16)]

/-- The spellings of a byte string without white space. -/
inductive Spells : List UInt8 → List UInt8 → Prop
  | nil : Spells [] []
  | cons {c d : UInt8} {high low : ℕ} {bs cs : List UInt8} (hc : digit c = some high)
      (hd : digit d = some low) (h : Spells bs cs) : Spells (UInt8.ofNat (16 * high + low) :: bs)
      (c :: d :: cs)

theorem digit_of_isSpace {c : UInt8} (h : isSpace c = true) : digit c = none := by
  have hc : c.toNat = 32 ∨ 9 ≤ c.toNat ∧ c.toNat ≤ 13 := by
    simpa [isSpace, UInt8.le_iff_toNat_le, ← UInt8.toNat_inj] using h
  have hrange : ∀ lo hi : UInt8, 48 ≤ lo.toNat → ¬ (lo ≤ c ∧ c ≤ hi) ∨ 32 < c.toNat := by
    intro lo hi hlo
    by_cases h : lo ≤ c
    · exact .inr (Nat.lt_of_lt_of_le (by omega) (UInt8.le_iff_toNat_le.mp h))
    · exact .inl fun h' => h h'.1
  have hle : ¬ 32 < c.toNat := by omega
  rw [digit, if_neg ((hrange 48 57 (by decide)).resolve_right hle),
    if_neg ((hrange 97 102 (by decide)).resolve_right hle),
    if_neg ((hrange 65 70 (by decide)).resolve_right hle)]

theorem isSpace_eq_false_of_digit {c : UInt8} {v : ℕ} (h : digit c = some v) :
    isSpace c = false := by
  cases hspace : isSpace c with
  | false => rfl
  | true => cases (digit_of_isSpace hspace).symm.trans h

theorem decode_of_spells {bs cs : List UInt8} (h : Spells bs cs) : decode cs = some bs := by
  induction h with
  | nil => rfl
  | cons hc hd _ ih =>
    rw [decode, isSpace_eq_false_of_digit hc, if_neg Bool.false_ne_true]
    simp only [hc, hd, ih, Option.map_some]

/-- **The decoder reads nothing else**, as long as there is no white space. -/
theorem spells_of_decode {cs bs : List UInt8} (h : decode cs = some bs)
    (hspace : ∀ c ∈ cs, isSpace c = false) : Spells bs cs := by
  induction cs using decode.induct generalizing bs with
  | case1 =>
    obtain rfl := Option.some.inj h
    exact .nil
  | case2 c hc => cases hc.symm.trans (hspace c List.mem_cons_self)
  | case3 c hc =>
    rw [decode, if_neg hc] at h
    cases h
  | case4 c d rest hc => cases hc.symm.trans (hspace c List.mem_cons_self)
  | case5 c d rest hc high low hlow hhigh ih =>
    rw [decode, if_neg hc] at h
    simp only [hhigh, hlow] at h
    obtain ⟨tail, htail, rfl⟩ := Option.map_eq_some_iff.mp h
    have hrest : ∀ c ∈ rest, isSpace c = false :=
      fun e he => hspace e (List.mem_cons_of_mem _ (List.mem_cons_of_mem _ he))
    exact .cons hhigh hlow (ih htail hrest)
  | case6 c d rest hc hnone =>
    rw [decode, if_neg hc] at h
    split at h
    · next high low hhigh hlow => exact absurd hlow (hnone high low hhigh)
    · cases h

end Hex
