import Pyrogram.Utf8
import Mathlib.Data.PNat.Basic

/-!
# Splitting a text

`split_text` cuts a long text into chunks: at the last newline of the window, or else at a space in
its second half, or else at the end of the window.  The separator at a cut is dropped.

## Main definitions

* `cutWindow` — a round of the loop.
* `splitText` — the function.
* `Joined` — a text is its chunks, with at most one separator dropped at each cut.

## Main results

* `cutWindow_spec` — what a round takes from the text.
* `splitText_spec` — **the chunks of a text.**
-/

namespace Pyrogram.SplitText

open Utf8 (CodePoint)

def newline : CodePoint := .char '\n'

def space : CodePoint := .char ' '

/-- `text.rfind(c)` -/
def rfind (c : CodePoint) : List CodePoint → Option ℕ
  | [] => none
  | d :: text =>
      match rfind c text with
      | some i => some (i + 1)
      | none => if d = c then some 0 else none

/-- The chunk that is cut off, and what remains. -/
def cutWindow (maxLength : ℕ) (remaining : List CodePoint) : List CodePoint × List CodePoint :=
  let cut := remaining.take maxLength
  match (rfind newline cut).filter (0 < ·) with
  | some lastNewline => (cut.take lastNewline, remaining.drop (lastNewline + 1))
  | none =>
      match (rfind space cut).filter fun i => 0 < i ∧ cut.length / 2 < i with
      | some lastSpace => (cut.take lastSpace, remaining.drop (lastSpace + 1))
      | none => (cut, remaining.drop maxLength)

/-- `while remaining` -/
def splitFrom (maxLength : ℕ) : ℕ → List CodePoint → Option (List (List CodePoint))
  | 0, _ => none
  | fuel + 1, remaining =>
      if remaining = [] then some []
      else if remaining.length ≤ maxLength then some [remaining]
      else
        let (chunk, rest) := cutWindow maxLength remaining
        (splitFrom maxLength fuel rest).map fun chunks => if chunk = [] then chunks
          else chunk :: chunks

/-- `split_text`, for a number of rounds at most. -/
def splitText (text : List CodePoint) (maxLength fuel : ℕ) : Option (List (List CodePoint)) :=
  if text.length ≤ maxLength then some [text] else splitFrom maxLength fuel text

/-- The text is the chunks in their order, with a newline or a space, or nothing, between two of
them. -/
inductive Joined : List CodePoint → List (List CodePoint) → Prop
  | last (chunk : List CodePoint) : Joined chunk [chunk]
  | next (chunk : List CodePoint) {rest : List CodePoint} {chunks : List (List CodePoint)}
      (h : Joined rest chunks) :
      Joined (chunk ++ rest) (chunk :: chunks)
  | dropped (chunk : List CodePoint) {c : CodePoint} (hc : c = newline ∨ c = space)
      {rest : List CodePoint}
      {chunks : List (List CodePoint)} (h : Joined rest chunks) : Joined (chunk ++ c :: rest)
      (chunk :: chunks)

/-! ### A round -/

theorem getElem?_of_rfind {c : CodePoint} {text : List CodePoint} {i : ℕ}
    (h : rfind c text = some i) : text[i]? = some c := by
  induction text generalizing i with
  | nil => cases h
  | cons d text ih =>
    rw [rfind] at h
    split at h
    · next j hj =>
      obtain rfl := Option.some.inj h
      exact ih hj
    · split at h
      · next hd =>
        obtain rfl := Option.some.inj h
        rw [hd]
        rfl
      · cases h

/-- The text up to a separator that the window has, the separator, and what remains. -/
theorem eq_append_of_rfind {c : CodePoint} {remaining : List CodePoint} {maxLength i : ℕ}
    (h : rfind c (remaining.take maxLength) = some i) :
    i < maxLength ∧ remaining = (remaining.take maxLength).take i ++
      c :: remaining.drop (i + 1) := by
  have hget := getElem?_of_rfind h
  obtain ⟨hi, -⟩ := List.getElem?_eq_some_iff.mp hget
  rw [List.length_take] at hi
  have hlt : i < maxLength := by omega
  have hdrop : remaining.drop i = c :: remaining.drop (i + 1) := by
    rw [List.getElem?_take_of_lt hlt] at hget
    obtain ⟨hi', hc⟩ := List.getElem?_eq_some_iff.mp hget
    rw [List.drop_eq_getElem_cons hi', hc]
  refine ⟨hlt, ?_⟩
  rw [List.take_take, Nat.min_eq_left hlt.le, ← hdrop, List.take_append_drop]

/-- What a round takes from a text that is too long. -/
structure Cut (maxLength : ℕ) (remaining chunk rest : List CodePoint) : Prop where
  chunk_ne_nil : chunk ≠ []
  length_le : chunk.length ≤ maxLength
  rest_ne_nil : rest ≠ []
  eq_append : remaining = chunk ++ rest ∨ ∃ c, (c = newline ∨ c = space) ∧
    remaining = chunk ++ c :: rest

/-- A cut at a separator that is not the first of the window. -/
theorem cut_of_rfind {c : CodePoint} (hc : c = newline ∨ c = space) {remaining : List CodePoint}
    {maxLength i : ℕ}
    (hlong : maxLength < remaining.length) (h : rfind c (remaining.take maxLength) = some i)
    (hi : 0 < i) :
    Cut maxLength remaining ((remaining.take maxLength).take i) (remaining.drop (i + 1)) := by
  obtain ⟨hlt, heq⟩ := eq_append_of_rfind h
  refine ⟨?_, ?_, ?_, .inr ⟨c, hc, heq⟩⟩
  · rw [List.take_take]
    intro hnil
    have hlength := congrArg List.length hnil
    rw [List.length_take, List.length_nil] at hlength
    omega
  · rw [List.length_take, List.length_take]
    omega
  · intro hnil
    have hlength := List.drop_eq_nil_iff.mp hnil
    omega

/-- **What a round takes from the text**: some of it, at most the window, and not all. -/
theorem cutWindow_spec {maxLength : ℕ} (hmax : 0 < maxLength) {remaining : List CodePoint}
    (hlong : maxLength < remaining.length) :
    Cut maxLength remaining (cutWindow maxLength remaining).1
      (cutWindow maxLength remaining).2 := by
  unfold cutWindow
  cases hnewline : (rfind newline (remaining.take maxLength)).filter (0 < ·) with
  | some i =>
    obtain ⟨hfind, hi⟩ := Option.filter_eq_some_iff.mp hnewline
    simp only [hnewline]
    exact cut_of_rfind (.inl rfl) hlong hfind (of_decide_eq_true hi)
  | none =>
    cases hspace : (rfind space (remaining.take maxLength)).filter fun i => 0 < i ∧
      (remaining.take maxLength).length / 2 < i with
    | some i =>
      obtain ⟨hfind, hi⟩ := Option.filter_eq_some_iff.mp hspace
      simp only [hnewline, hspace]
      exact cut_of_rfind (.inr rfl) hlong hfind (of_decide_eq_true hi).1
    | none =>
      simp only [hnewline, hspace]
      refine ⟨?_, List.length_take_le _ _, ?_, .inl (List.take_append_drop _ _).symm⟩
      · intro hnil
        have hlength := congrArg List.length hnil
        rw [List.length_take, List.length_nil] at hlength
        omega
      · intro hnil
        have hlength := List.drop_eq_nil_iff.mp hnil
        omega

theorem Cut.length_rest_lt {maxLength : ℕ} {remaining chunk rest : List CodePoint}
    (h : Cut maxLength remaining chunk rest) :
    rest.length < remaining.length := by
  have hpos := List.length_pos_of_ne_nil h.chunk_ne_nil
  obtain heq | ⟨c, -, heq⟩ := h.eq_append
  · rw [heq, List.length_append]
    omega
  · rw [heq, List.length_append, List.length_cons]
    omega

/-! ### The whole text -/

/-- The loop ends, with chunks of at most `maxLength` that join to the text. -/
theorem splitFrom_spec {maxLength : ℕ} (hmax : 0 < maxLength) {remaining : List CodePoint}
    (hne : remaining ≠ []) :
    ∃ chunks, (∀ fuel, remaining.length ≤ fuel → splitFrom maxLength fuel remaining = some chunks) ∧
      (∀ chunk ∈ chunks, chunk ≠ [] ∧ chunk.length ≤ maxLength) ∧ Joined remaining chunks := by
  -- on the length of what remains: a window is cut off, and something is left behind it
  induction hn : remaining.length using Nat.strong_induction_on generalizing remaining with
  | _ n ih =>
    subst hn
    have hsucc : ∀ fuel, remaining.length ≤ fuel → ∃ fuel', fuel = fuel' + 1 := fun fuel hfuel =>
      Nat.exists_eq_succ_of_ne_zero (by have := List.length_pos_of_ne_nil hne; omega)
    rcases Nat.lt_or_ge maxLength remaining.length with hlong | hshort
    · have hcut := cutWindow_spec hmax hlong
      generalize hwindow : cutWindow maxLength remaining = window at hcut
      obtain ⟨chunk, rest⟩ := window
      obtain ⟨chunks, hchunks, hall, hjoined⟩ := ih _ hcut.length_rest_lt hcut.rest_ne_nil rfl
      refine ⟨chunk :: chunks, ?_, ?_, ?_⟩
      · intro fuel hfuel
        obtain ⟨fuel, rfl⟩ := hsucc fuel hfuel
        have hrest := hchunks fuel (by have := hcut.length_rest_lt; omega)
        rw [splitFrom, if_neg hne, if_neg (Nat.not_le.mpr hlong), hwindow]
        simp only [hrest, Option.map_some, if_neg hcut.chunk_ne_nil]
      · intro c hc
        rcases List.mem_cons.mp hc with rfl | hc
        · exact ⟨hcut.chunk_ne_nil, hcut.length_le⟩
        · exact hall c hc
      · obtain heq | ⟨c, hc, heq⟩ := hcut.eq_append
        · rw [heq]
          exact .next chunk hjoined
        · rw [heq]
          exact .dropped chunk hc hjoined
    -- what remains fits as a whole
    · refine ⟨[remaining], ?_, ?_, .last remaining⟩
      · intro fuel hfuel
        obtain ⟨fuel, rfl⟩ := hsucc fuel hfuel
        rw [splitFrom, if_neg hne, if_pos hshort]
      · intro c hc
        rw [List.mem_singleton.mp hc]
        exact ⟨hne, hshort⟩

/-- **The chunks of a text**: the call ends, no chunk is longer than `max_length`, the text is its
chunks with at most one newline or space dropped at each cut, and a chunk is empty only where the
text is. -/
theorem splitText_spec (text : List CodePoint) (maxLength : ℕ+) :
    ∃ n chunks, (∀ fuel ≥ n, splitText text maxLength fuel = some chunks) ∧
      (∀ chunk ∈ chunks, chunk.length ≤ maxLength) ∧
      Joined text chunks ∧ if text = [] then chunks = [[]] else ∀ chunk ∈ chunks, chunk ≠ [] := by
  by_cases hshort : text.length ≤ maxLength
  · refine ⟨0, [text], fun fuel _ => if_pos hshort, ?_, .last text, ?_⟩
    · intro chunk hchunk
      rwa [List.mem_singleton.mp hchunk]
    · split
      · next hnil => rw [hnil]
      · next hne =>
        intro chunk hchunk
        rwa [List.mem_singleton.mp hchunk]
  · have hne : text ≠ [] := by
      rintro rfl
      exact hshort (Nat.zero_le _)
    obtain ⟨chunks, hchunks, hall, hjoined⟩ := splitFrom_spec maxLength.pos hne
    refine ⟨text.length, chunks, ?_, fun chunk hchunk => (hall chunk hchunk).2, hjoined, ?_⟩
    · intro fuel hfuel
      rw [splitText, if_neg hshort, hchunks fuel hfuel]
    · rw [if_neg hne]
      exact fun chunk hchunk => (hall chunk hchunk).1

/-- The empty text has a chunk, which is empty. -/
theorem not_nonempty_nil : ¬ ∃ n chunks, (∀ fuel ≥ n, splitText [] 1 fuel = some chunks) ∧
    ∀ chunk ∈ chunks, chunk ≠ [] := by
  rintro ⟨n, chunks, hchunks, hall⟩
  have hnil : some [[]] = some chunks := hchunks n le_rfl
  rw [← Option.some.inj hnil] at hall
  exact hall [] List.mem_cons_self rfl

end Pyrogram.SplitText
