import Mathlib.Tactic.Common

/-!
# Self-delimiting codes

A stream of code words in a row, none of which has to be marked: the reader sees from
a word's own beginning where it ends.  A text may be cut off within a word, which is
no error, and may go on with what no word begins with, which is one.

## Main definitions

* `Code` — the words, and how the first word of a text is read.
* `Code.Lawful` — the reader finds the words, and only them.
* `Code.scan` — reads words until the text ends, or ends within one.

## Main results

* `Code.Lawful.scan_flatMap` — words in a row are read one by one.
* `Code.Lawful.eq_of_scan` — what was read is what the text begins with.
-/

namespace Delimited

/-- The words for the values, and how the first word of a text is read: its value and
its length, or `none` where the text ends before the word does. -/
structure Code (α F ε : Type*) where
  encode : F → List α
  head : List α → Except ε (Option (F × ℕ))

namespace Code

variable {α F ε : Type*}

structure Lawful (c : Code α F ε) (Valid : F → Prop) : Prop where
  encode_ne_nil : ∀ f, Valid f → c.encode f ≠ []
  head_encode : ∀ f, Valid f →
    ∀ rest, c.head (c.encode f ++ rest) = .ok (some (f, (c.encode f).length))
  head_of_prefix : ∀ f, Valid f → ∀ p, p <+: c.encode f → p ≠ c.encode f → c.head p = .ok none
  valid_of_head : ∀ w f n, c.head w = .ok (some (f, n)) → Valid f ∧ n = (c.encode f).length ∧
    c.encode f <+: w

/-- The words at the beginning of a text, and their length. -/
def scan (c : Code α F ε) : ℕ → List α → Except ε (List F × ℕ)
  | 0, _ => .ok ([], 0)
  | fuel + 1, w =>
      match c.head w with
      | .error e => .error e
      | .ok none => .ok ([], 0)
      | .ok (some (f, n)) => (c.scan fuel (w.drop n)).map (Prod.map (f :: ·) (n + ·))

variable {c : Code α F ε} {Valid : F → Prop}

/-- **Words in a row are read one by one**, up to where the text is cut off. -/
theorem Lawful.scan_flatMap (hc : c.Lawful Valid) {fs : List F} (hfs : ∀ f ∈ fs, Valid f)
    {rest : List α}
    (hrest : c.head rest = .ok none) {fuel : ℕ} (hfuel : fs.length < fuel) :
    c.scan fuel (fs.flatMap c.encode ++ rest) = .ok (fs, (fs.flatMap c.encode).length) := by
  induction fs generalizing fuel with
  | nil =>
    obtain ⟨fuel, rfl⟩ := Nat.exists_eq_add_of_lt hfuel
    rw [List.flatMap_nil, List.nil_append, scan, hrest]
    rfl
  | cons f fs ih =>
    obtain ⟨hf, hfs⟩ := List.forall_mem_cons.mp hfs
    obtain ⟨fuel, rfl⟩ : ∃ n, fuel = n + 1 := ⟨fuel - 1, by omega⟩
    have hlen : fs.length < fuel := Nat.succ_lt_succ_iff.mp hfuel
    rw [List.flatMap_cons, List.append_assoc, scan, hc.head_encode f hf]
    simp only [List.drop_left, ih hfs hlen, List.length_append]
    rfl

/-- **What was read is what the text begins with.** -/
theorem Lawful.eq_of_scan (hc : c.Lawful Valid) {fuel : ℕ} {w : List α} {fs : List F} {n : ℕ}
    (h : c.scan fuel w = .ok (fs, n)) :
    (∀ f ∈ fs, Valid f) ∧ n = (fs.flatMap c.encode).length ∧ fs.flatMap c.encode <+: w := by
  induction fuel generalizing w fs n with
  | zero =>
    obtain ⟨rfl, rfl⟩ := Prod.mk.inj (Except.ok.inj h)
    exact ⟨by simp, rfl, List.nil_prefix⟩
  | succ fuel ih =>
    rw [scan] at h
    split at h
    · cases h
    · obtain ⟨rfl, rfl⟩ := Prod.mk.inj (Except.ok.inj h)
      exact ⟨by simp, rfl, List.nil_prefix⟩
    · next f k hhead =>
      obtain ⟨hvalid, rfl, rest, rfl⟩ := hc.valid_of_head w f k hhead
      rw [List.drop_left] at h
      cases hrest : c.scan fuel rest with
      | error e =>
        rw [hrest] at h
        cases h
      | ok read =>
        rw [hrest] at h
        obtain ⟨rfl, rfl⟩ := Prod.mk.inj (Except.ok.inj h)
        obtain ⟨hfs, hn, hbegin⟩ := @ih rest read.1 read.2 hrest
        refine ⟨List.forall_mem_cons.mpr ⟨hvalid, hfs⟩, ?_, ?_⟩
        · rw [List.flatMap_cons, List.length_append, hn]
        · rw [List.flatMap_cons]
          exact (List.prefix_append_right_inj _).mpr hbegin

end Code

end Delimited
