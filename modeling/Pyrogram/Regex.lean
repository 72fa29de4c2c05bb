import Mathlib.Data.List.Infix
import Mathlib.Tactic.Common

/-!
# Regular expressions

A pattern is tried by backtracking: it leads to a list of ways to match, the one that is tried
first in front, and each says what is left of the input and what the groups have captured.  Some
of them is the match that is found, so that a capture on which all ways agree is the one captured.

## Main definitions

* `Regex`, `Regex.run` — patterns, and the ways they match.
* `Regex.first` — the groups of the match that is found.
* `Regex.findall` — the groups of all matches.

## Main results

* `mem_run_star` — a loop ends, or goes around once more.
* `suffix_of_mem_run` — what is left is a part of the input.
* `first_eq_some` — **what all ways agree on is captured.**
* `head?_run_star_one` — a loop takes all it can.
* `findall_cons_of_run`, `findall_append` — how the search goes on.
-/

/-- The loop is greedy; `look` looks at what is left without taking anything. -/
inductive Regex (α : Type)
  | empty
  | one (p : α → Bool)
  | seq (r q : Regex α)
  | alt (r q : Regex α)
  | star (r : Regex α)
  | group (n : ℕ) (r : Regex α)
  | look (p : List α → Bool)

namespace Regex

variable {α : Type}

/-- What is left, and what the groups have captured, the last of them in front. -/
abbrev State (α : Type) := List α × List (ℕ × List α)

/-- Around the loop as often as something is taken. -/
def loop (f : State α → List (State α)) : ℕ → State α → List (State α)
  | 0, s => [s]
  | fuel + 1, s => ((f s).filter fun t => t.1.length < s.1.length).flatMap (loop f fuel) ++ [s]

/-- The ways to match, in the order in which they are tried. -/
def run : Regex α → State α → List (State α)
  | empty, s => [s]
  | one p, s =>
      match s.1 with
      | [] => []
      | a :: l => if p a then [(l, s.2)] else []
  | seq r q, s => (r.run s).flatMap q.run
  | alt r q, s => r.run s ++ q.run s
  | star r, s => loop r.run s.1.length s
  | group n r, s => (r.run s).map fun t => (t.1, (n, s.1.take (s.1.length - t.1.length)) :: t.2)
  | look p, s => if p s.1 then [s] else []

/-- The groups of the match at the start of the input that is found. -/
def first (r : Regex α) (l : List α) : Option (List (ℕ × List α)) :=
  (r.run (l, [])).head?.map Prod.snd

def opt (r : Regex α) : Regex α := alt r empty

def plus (r : Regex α) : Regex α := seq r (star r)

def lit [DecidableEq α] : List α → Regex α
  | [] => empty
  | a :: l => seq (one fun b => decide (b = a)) (lit l)

/-! ### The ways to match -/

variable {r q : Regex α} {s t : State α} {p : α → Bool}

section Run

attribute [local simp] run

@[simp] theorem mem_run_empty : t ∈ (empty : Regex α).run s ↔ t = s := List.mem_singleton

theorem mem_run_one : t ∈ (one p).run s ↔ ∃ a, s.1 = a :: t.1 ∧ p a = true ∧ t.2 = s.2 := by
  obtain ⟨l, g⟩ := s
  cases l with
  | nil => simp
  | cons a l =>
    by_cases h : p a = true
    · simp only [run, h, if_true, List.mem_singleton, Prod.ext_iff, List.cons.injEq]
      constructor
      · rintro ⟨hl, hgroups⟩
        exact ⟨a, ⟨rfl, hl.symm⟩, h, hgroups⟩
      · rintro ⟨_, ⟨-, hl⟩, -, hgroups⟩
        exact ⟨hl.symm, hgroups⟩
    · simp only [run, h]
      refine ⟨nofun, ?_⟩
      rintro ⟨b, hb, hp, -⟩
      exact absurd ((List.cons.inj hb).1 ▸ hp) h

@[simp] theorem mem_run_seq : t ∈ (seq r q).run s ↔ ∃ u ∈ r.run s, t ∈ q.run u := List.mem_flatMap

@[simp] theorem mem_run_alt : t ∈ (alt r q).run s ↔ t ∈ r.run s ∨ t ∈ q.run s := List.mem_append

theorem mem_run_group {n : ℕ} : t ∈ (group n r).run s ↔
    ∃ u ∈ r.run s, t = (u.1, (n, s.1.take (s.1.length - u.1.length)) :: u.2) := by
  simp only [run, List.mem_map, eq_comm]

theorem mem_run_look {p : List α → Bool} : t ∈ (look p).run s ↔ p s.1 = true ∧ t = s := by
  rw [run]
  split
  · next h => simp [h]
  · next h => simp [h]

end Run

@[simp] theorem mem_run_opt : t ∈ (opt r).run s ↔ t ∈ r.run s ∨ t = s := by simp [opt]

@[simp] theorem mem_run_plus : t ∈ (plus r).run s ↔ ∃ u ∈ r.run s, t ∈ (star r).run u := mem_run_seq

/-! ### Loops -/

section Loop

attribute [local simp] loop

/-- Enough fuel is as good as more. -/
theorem loop_eq_loop {f : State α → List (State α)} {n m : ℕ} {s : State α} (hn : s.1.length ≤ n)
    (hm : s.1.length ≤ m) : loop f n s = loop f m s := by
  have hnil : ∀ {s : State α}, s.1.length = 0 → ∀ k, loop f k s = [s] := by
    intro s hs k
    cases k with
    | zero => rfl
    | succ k => simp [hs]
  induction n generalizing m s with
  | zero => rw [loop, hnil (by omega)]
  | succ n ih =>
    cases m with
    | zero => rw [loop, hnil (by omega)]
    | succ m =>
      rw [loop, loop]
      refine congrArg (· ++ [s]) (List.flatMap_congr fun t ht => ?_)
      have hlt : t.1.length < s.1.length := of_decide_eq_true (List.mem_filter.mp ht).2
      exact ih (by omega) (by omega)

end Loop

/-- The ways around a loop: once more, whichever way, and then not at all. -/
theorem run_star : (star r).run s =
    ((r.run s).filter fun u => u.1.length < s.1.length).flatMap (star r).run ++ [s] := by
  rw [run, loop_eq_loop le_rfl (Nat.le_succ s.1.length), loop]
  refine congrArg (· ++ [s]) (List.flatMap_congr fun u hu => ?_)
  have hlt : u.1.length < s.1.length := of_decide_eq_true (List.mem_filter.mp hu).2
  exact loop_eq_loop hlt.le le_rfl

/-- **A loop goes around once more, or ends.** -/
theorem mem_run_star : t ∈ (star r).run s ↔
    (∃ u ∈ r.run s, u.1.length < s.1.length ∧ t ∈ (star r).run u) ∨ t = s := by
  rw [run_star, List.mem_append, List.mem_singleton, List.mem_flatMap]
  simp only [List.mem_filter, decide_eq_true_eq, and_assoc]

/-- The induction rule of loops. -/
theorem star_induction {P : State α → State α → Prop} (hrefl : ∀ s, P s s)
    (hstep : ∀ s u t, u ∈ r.run s → u.1.length < s.1.length → P u t → P s t)
    (h : t ∈ (star r).run s) : P s t := by
  induction hlength : s.1.length using Nat.strongRecOn generalizing s with
  | ind length ih =>
    rcases mem_run_star.mp h with ⟨u, hu, hlt, hrest⟩ | rfl
    · exact hstep s u t hu hlt (ih u.1.length (hlength ▸ hlt) hrest rfl)
    · exact hrefl t

theorem mem_run_star_self : s ∈ (star r).run s := mem_run_star.mpr (.inr rfl)

theorem mem_run_star_one : t ∈ (star (one p)).run s ↔
    ∃ w, s.1 = w ++ t.1 ∧ (∀ a ∈ w, p a = true) ∧ t.2 = s.2 := by
  constructor
  · refine fun h => star_induction (P := fun s t => ∃ w, s.1 = w ++ t.1 ∧ (∀ a ∈ w, p a = true) ∧
      t.2 = s.2)
      (fun s => ⟨[], rfl, nofun, rfl⟩) ?_ h
    rintro s u t hu - ⟨w, hw, hall, hgroups⟩
    obtain ⟨a, ha, hp, hu⟩ := mem_run_one.mp hu
    exact ⟨a :: w, by rw [ha, hw, List.cons_append], List.forall_mem_cons.mpr ⟨hp,
      hall⟩, hgroups.trans hu⟩
  · rintro ⟨w, hw, hall, hgroups⟩
    induction w generalizing s with
    | nil => exact mem_run_star.mpr (.inr (Prod.ext hw.symm hgroups))
    | cons a w ih =>
      rw [List.forall_mem_cons] at hall
      refine mem_run_star.mpr (.inl ⟨(w ++ t.1, s.2), ?_, ?_, ih rfl hall.2 hgroups⟩)
      · exact mem_run_one.mpr ⟨a, hw, hall.1, rfl⟩
      · simp [hw]

/-- A word ends where the first other character is. -/
theorem eq_of_append_eq {w w' l l' : List α} (h : w ++ l = w' ++ l') (hw : ∀ a ∈ w, p a = true)
    (hw' : ∀ a ∈ w', p a = true) (hl : ∀ a ∈ l.head?, p a = false)
    (hl' : ∀ a ∈ l'.head?, p a = false) :
    w = w' ∧ l = l' := by
  have htake : ∀ {w l : List α}, (∀ a ∈ w, p a = true) → (∀ a ∈ l.head?, p a = false) →
      (w ++ l).takeWhile p = w := by
    intro w l hw hl
    rw [List.takeWhile_append_of_pos hw]
    cases l with
    | nil => rw [List.takeWhile_nil, List.append_nil]
    | cons a l => rw [List.takeWhile_cons_of_neg (by simp [hl a rfl]), List.append_nil]
  have heq : w = w' := by rw [← htake hw hl, h, htake hw' hl']
  subst heq
  exact ⟨rfl, List.append_cancel_left h⟩

theorem mem_run_plus_one : t ∈ (plus (one p)).run s ↔
    ∃ w, w ≠ [] ∧ s.1 = w ++ t.1 ∧ (∀ a ∈ w, p a = true) ∧ t.2 = s.2 := by
  simp only [mem_run_plus, mem_run_one, mem_run_star_one]
  constructor
  · rintro ⟨u, ⟨a, ha, hp, hu⟩, w, hw, hall, hgroups⟩
    exact ⟨a :: w, List.cons_ne_nil a w, by
      rw [ha, hw, List.cons_append], List.forall_mem_cons.mpr ⟨hp, hall⟩,
      hgroups.trans hu⟩
  · rintro ⟨w, hne, hw, hall, hgroups⟩
    cases w with
    | nil => exact absurd rfl hne
    | cons a w =>
      rw [List.forall_mem_cons] at hall
      exact ⟨(w ++ t.1, s.2), ⟨a, hw, hall.1, rfl⟩, w, rfl, hall.2, hgroups⟩

theorem mem_run_lit [DecidableEq α] {l : List α} : t ∈ (lit l).run s ↔ s.1 = l ++ t.1 ∧
    t.2 = s.2 := by
  induction l generalizing s with
  | nil =>
    rw [lit, mem_run_empty, Prod.ext_iff, List.nil_append, eq_comm (a := s.1)]
  | cons a l ih =>
    simp only [lit, mem_run_seq, mem_run_one, decide_eq_true_eq, ih]
    constructor
    · rintro ⟨u, ⟨b, hb, rfl, hu⟩, hl, hgroups⟩
      exact ⟨by rw [hb, hl, List.cons_append], hgroups.trans hu⟩
    · rintro ⟨hl, hgroups⟩
      exact ⟨(l ++ t.1, s.2), ⟨a, hl, rfl, rfl⟩, rfl, hgroups⟩

/-! ### What is found -/

/-- **What is left is a part of the input.** -/
theorem suffix_of_mem_run (h : t ∈ r.run s) : t.1 <:+ s.1 := by
  induction r generalizing s t with
  | empty => rw [mem_run_empty.mp h]
  | one p =>
    obtain ⟨a, ha, -⟩ := mem_run_one.mp h
    exact ha ▸ List.suffix_cons a t.1
  | seq r q ihr ihq =>
    obtain ⟨u, hu, ht⟩ := mem_run_seq.mp h
    exact (ihq ht).trans (ihr hu)
  | alt r q ihr ihq =>
    rcases mem_run_alt.mp h with h | h
    · exact ihr h
    · exact ihq h
  | star r ih =>
    refine star_induction (P := fun s t => t.1 <:+ s.1) (fun s => List.suffix_refl s.1) ?_ h
    intro s u t hu _ ht
    exact ht.trans (ih hu)
  | group n r ih =>
    obtain ⟨u, hu, rfl⟩ := mem_run_group.mp h
    exact ih (t := u) hu
  | look p =>
    rw [(mem_run_look.mp h).2]

/-- There is no group in it. -/
def plain : Regex α → Bool
  | empty | one _ | look _ => true
  | seq r q | alt r q => r.plain && q.plain
  | star r => r.plain
  | group _ _ => false

/-- What has no group captures nothing. -/
theorem groups_of_plain (hplain : r.plain = true) (h : t ∈ r.run s) : t.2 = s.2 := by
  induction r generalizing s t with
  | empty => rw [mem_run_empty.mp h]
  | one p =>
    obtain ⟨a, -, -, hgroups⟩ := mem_run_one.mp h
    exact hgroups
  | seq r q ihr ihq =>
    rw [plain, Bool.and_eq_true] at hplain
    obtain ⟨u, hu, ht⟩ := mem_run_seq.mp h
    exact (ihq hplain.2 ht).trans (ihr hplain.1 hu)
  | alt r q ihr ihq =>
    rw [plain, Bool.and_eq_true] at hplain
    rcases mem_run_alt.mp h with h | h
    · exact ihr hplain.1 h
    · exact ihq hplain.2 h
  | star r ih =>
    refine star_induction (P := fun s t => t.2 = s.2) (fun s => rfl) ?_ h
    intro s u t hu _ ht
    exact ht.trans (ih hplain hu)
  | group n r ih => cases hplain
  | look p => rw [(mem_run_look.mp h).2]

/-- A group captures what its pattern takes. -/
theorem mem_run_group_iff {n : ℕ} : t ∈ (group n r).run s ↔
    ∃ w g, s.1 = w ++ t.1 ∧ (t.1, g) ∈ r.run s ∧ t.2 = (n, w) :: g := by
  have htake : ∀ {w l : List α}, s.1 = w ++ l → s.1.take (s.1.length - l.length) = w := by
    intro w l hw
    rw [hw, List.length_append, Nat.add_sub_cancel, List.take_left]
  rw [mem_run_group]
  constructor
  · rintro ⟨u, hu, rfl⟩
    obtain ⟨w, hw⟩ := suffix_of_mem_run hu
    exact ⟨w, u.2, hw.symm, hu, by rw [htake hw.symm]⟩
  · rintro ⟨w, g, hw, hu, hgroups⟩
    exact ⟨(t.1, g), hu, Prod.ext rfl (by rw [hgroups, htake hw])⟩

/-- **What all ways agree on is captured.** -/
theorem first_eq_some {l : List α} {g : List (ℕ × List α)} (hsome : ∃ t, t ∈ r.run (l, []))
    (hall : ∀ t ∈ r.run (l, []), t.2 = g) : r.first l = some g := by
  obtain ⟨t, ht⟩ := hsome
  rw [first]
  cases hrun : r.run (l, []) with
  | nil => rw [hrun] at ht; cases ht
  | cons u rest =>
    rw [List.head?_cons, Option.map_some, hall u (hrun ▸ List.mem_cons_self)]

theorem first_eq_none {l : List α} (hall : ∀ t, t ∉ r.run (l, [])) : r.first l = none := by
  rw [first, List.eq_nil_iff_forall_not_mem.mpr hall]
  rfl

/-! ### The way that is tried first -/

theorem run_one_cons {a : α} {l : List α} {g : List (ℕ × List α)} (ha : p a = true) :
    (one p).run (a :: l, g) = [(l, g)] := if_pos ha

/-- The second pattern goes on from the first way of the first one, if it can. -/
theorem head?_run_seq (hr : (r.run s).head? = some t) (hq : q.run t ≠ []) :
    ((seq r q).run s).head? = (q.run t).head? := by
  rw [run]
  cases hrun : r.run s with
  | nil => rw [hrun] at hr; cases hr
  | cons u rest =>
    rw [hrun, List.head?_cons, Option.some_inj] at hr
    rw [List.flatMap_cons, hr, List.head?_append_of_ne_nil _ hq]

theorem head?_run_seq_of_some {u : State α} (hr : (r.run s).head? = some t)
    (hq : (q.run t).head? = some u) :
    ((seq r q).run s).head? = some u := by
  rw [head?_run_seq hr, hq]
  rintro hnil
  rw [hnil] at hq
  cases hq

theorem head?_run_group {n : ℕ} (hr : (r.run s).head? = some t) :
    ((group n r).run s).head? = some (t.1, (n, s.1.take (s.1.length - t.1.length)) :: t.2) := by
  rw [run, List.head?_map, hr, Option.map_some]

/-- **A loop takes all it can.** -/
theorem head?_run_star_one {w l : List α} {g : List (ℕ × List α)} (hw : ∀ a ∈ w, p a = true)
    (hl : ∀ a ∈ l.head?, p a = false) : ((star (one p)).run (w ++ l, g)).head? = some (l, g) := by
  induction w with
  | nil =>
    rw [run_star, List.nil_append]
    cases l with
    | nil => rfl
    | cons a l => simp [run, hl a rfl]
  | cons a w ih =>
    obtain ⟨ha, hw⟩ := List.forall_mem_cons.mp hw
    rw [run_star, List.cons_append, run_one_cons ha, List.filter_cons_of_pos (by simp),
      List.filter_nil, List.flatMap_singleton, List.head?_append, ih hw, Option.some_or]

theorem head?_run_plus_one {w l : List α} {g : List (ℕ × List α)} (hne : w ≠ [])
    (hw : ∀ a ∈ w, p a = true)
    (hl : ∀ a ∈ l.head?, p a = false) : ((plus (one p)).run (w ++ l, g)).head? = some (l, g) := by
  cases w with
  | nil => exact absurd rfl hne
  | cons a w =>
    obtain ⟨ha, hw⟩ := List.forall_mem_cons.mp hw
    exact head?_run_seq_of_some (congrArg List.head? (run_one_cons ha)) (head?_run_star_one hw hl)

theorem head?_run_lit [DecidableEq α] {w l : List α} {g : List (ℕ × List α)} :
    ((lit w).run (w ++ l, g)).head? = some (l, g) := by
  induction w with
  | nil => rfl
  | cons a w ih =>
    have hone : ((one fun b => decide (b = a)).run (a :: (w ++ l), g)).head? = some (w ++ l, g) :=
      congrArg List.head? (run_one_cons (p := fun b => decide (b = a)) (decide_eq_true rfl))
    exact head?_run_seq_of_some hone ih

/-- A group around a pattern captures what it takes. -/
theorem head?_run_group_append {n : ℕ} {w l : List α} {g g' : List (ℕ × List α)}
    (hr : (r.run (w ++ l, g)).head? = some (l, g')) :
    ((group n r).run (w ++ l, g)).head? = some (l, (n, w) :: g') := by
  rw [head?_run_group hr, List.length_append, Nat.add_sub_cancel, List.take_left]

theorem head?_run_alt_left (hr : (r.run s).head? = some t) : ((alt r q).run s).head? = some t := by
  rw [run, List.head?_append, hr, Option.some_or]

theorem head?_run_alt_right (hr : r.run s = []) : ((alt r q).run s).head? = (q.run s).head? := by
  rw [run, hr, List.nil_append]

theorem run_lit_cons_of_ne [DecidableEq α] {a b : α} {w l : List α} {g : List (ℕ × List α)}
    (h : a ≠ b) :
    (lit (b :: w)).run (a :: l, g) = [] := by
  refine List.eq_nil_iff_forall_not_mem.mpr fun t ht => ?_
  exact h (List.cons.inj (mem_run_lit.mp ht).1).1

theorem run_seq_of_left (hr : r.run s = []) : (seq r q).run s = [] := by
  rw [run, hr, List.flatMap_nil]

/-- Where all ways are one, it is the first. -/
theorem head?_run_of_forall (hsome : ∃ u, u ∈ r.run s) (hall : ∀ u ∈ r.run s, u = t) :
    (r.run s).head? = some t := by
  obtain ⟨u, hu⟩ := hsome
  cases hrun : r.run s with
  | nil => rw [hrun] at hu; cases hu
  | cons u rest => rw [List.head?_cons, hall u (hrun ▸ List.mem_cons_self)]

theorem first_of_head? {l : List α} (h : (r.run (l, [])).head? = some t) :
    r.first l = some t.2 := by
  rw [first, h, Option.map_some]

theorem first_of_run {l : List α} (h : r.run (l, []) = []) : r.first l = none := by
  rw [first, h]
  rfl

/-! ### One match after the other -/

/-- The groups of the matches from here on, `skip` elements of the input being taken already. -/
def findallFrom (r : Regex α) : ℕ → List α → List (List (ℕ × List α))
  | _, [] => []
  | skip + 1, _ :: l => findallFrom r skip l
  | 0, a :: l =>
      match (r.run (a :: l, [])).head? with
      | some t => t.2 :: findallFrom r (l.length - t.1.length) l
      | none => findallFrom r 0 l

/-- The groups of all matches, each searched for from the end of the one before; a pattern that
matches takes something. -/
def findall (r : Regex α) (l : List α) : List (List (ℕ × List α)) := findallFrom r 0 l

theorem findallFrom_append (w l : List α) : r.findallFrom w.length (w ++ l) = r.findall l := by
  induction w with
  | nil => rfl
  | cons a w ih => exact ih

/-- Where nothing matches, the search goes on one further. -/
theorem findall_cons_of_run {a : α} {l : List α} (h : r.run (a :: l, []) = []) :
    r.findall (a :: l) = r.findall l := by
  rw [findall, findallFrom, h]
  rfl

/-- Where something matches, the search goes on after it. -/
theorem findall_append {a : α} {w l : List α} {g : List (ℕ × List α)}
    (h : (r.run (a :: w ++ l, [])).head? = some (l, g)) :
    r.findall (a :: w ++ l) = g :: r.findall l := by
  rw [List.cons_append] at h ⊢
  rw [findall, findallFrom, h]
  dsimp only
  rw [List.length_append, Nat.add_sub_cancel, findallFrom_append]

end Regex
