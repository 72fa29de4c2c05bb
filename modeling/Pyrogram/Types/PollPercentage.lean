import Pyrogram.ByKey
import Pyrogram.Greedy
import Mathlib.Data.List.Induction
import Mathlib.Data.Prod.Lex
import Mathlib.Tactic.Linarith
import Mathlib.Tactic.Ring

/-!
# The percentages of a poll

`Poll.get_vote_percentage` rounds down first.  The percentages that are then missing go to the
options by the size of their remainders; options with equal votes are rounded up together or not
at all, so a group that is too large for what is missing is passed over.

## Main definitions

* `getVotePercentage` — a percentage for each option.
* `Eligible` — a remainder that may be rounded up.

## Main results

* `getVotePercentage_eq` — for one answer a voter, the percentages as a function of the votes.
* `percentages_add_up` — **they are rounded properly, and add up to 100 at most.**
* `percentage_ordered` — **which options can be overtaken by one with fewer votes.**
-/

namespace Pyrogram.Types.Poll

open ByKey

/-! ### The function -/

/-- A value of the dictionary `options`: where a number of votes stands first, and how often it
occurs. -/
structure OptionGroup where
  pos : ℕ
  count : ℕ
  deriving DecidableEq, Repr

/-- `options[key]["count"] += 1`, as far as it is about one entry -/
def countOption (key : ℕ) (e : ℕ × OptionGroup) : ℕ × OptionGroup :=
  if e.1 = key then (e.1, ⟨e.2.pos, e.2.count + 1⟩) else e

@[simp] theorem countOption_fst (key : ℕ) (e : ℕ × OptionGroup) : (countOption key e).1 = e.1 := by
  by_cases h : e.1 = key <;> simp [countOption, h]

@[simp] theorem countOption_pos (key : ℕ) (e : ℕ × OptionGroup) :
    (countOption key e).2.pos = e.2.pos := by
  by_cases h : e.1 = key <;> simp [countOption, h]

theorem countOption_count (key : ℕ) (e : ℕ × OptionGroup) :
    (countOption key e).2.count = e.2.count + if e.1 = key then 1 else 0 := by
  by_cases h : e.1 = key <;> simp [countOption, h]

/-- One turn of the loop that fills `options`; the keys are `vc + 1`. -/
def addOption (options : List (ℕ × OptionGroup)) (o : ℕ × ℕ) : List (ℕ × OptionGroup) :=
  let key := o.1 + 1
  let options := if options.any (·.1 = key) then options else options ++ [(key, ⟨o.2, 0⟩)]
  options.map (countOption key)

/-- The dictionary `options`, in the order of its keys' insertion -/
def optionGroups (voterCounts : List ℕ) : List (ℕ × OptionGroup) :=
  voterCounts.zipIdx.foldl addOption []

/-- `sorted_options` -/
def sortedOptions (voterCounts gap result : List ℕ) (totalVoterCount : ℕ) : List OptionGroup :=
  let options := ((optionGroups voterCounts).map Prod.snd).filter fun opt =>
    let g := gap.getD opt.pos 0
    ¬ totalVoterCount < 2 * g ∧
      ¬ (totalVoterCount % 2 = 0 ∧ g = totalVoterCount / 2 ∧ 50 ≤ result.getD opt.pos 0)
  byKey (fun opt => toLex (gap.getD opt.pos 0, toLex (-(opt.count : ℤ), opt.pos))) options

/-- `voter_counts[pos]`: the votes of each option of a group -/
def targetVc (voterCounts : List ℕ) (opt : OptionGroup) : ℕ := voterCounts.getD opt.pos 0

/-- The last loop: the groups that fit are rounded up. -/
def distribute (voterCounts : List ℕ) : List OptionGroup → ℕ → List ℕ → List ℕ
  | [], _, result => result
  | opt :: opts, leftPercent, result =>
    if opt.count ≤ leftPercent then
      let leftPercent := leftPercent - opt.count
      let result := List.zipWith (fun vc r => if vc = targetVc voterCounts opt then r + 1 else r)
        voterCounts result
      if leftPercent = 0 then result else distribute voterCounts opts leftPercent result
    else distribute voterCounts opts leftPercent result

/-- `get_vote_percentage` from `percent_sum = 0` on, where `total_voter_count` is the number of
the votes; no subtraction there goes below zero (`gap_eq`, `sum_floor_le`). -/
def exactPercentage (voterCounts : List ℕ) : List ℕ :=
  let totalVoterCount := voterCounts.sum
  let result := voterCounts.map fun vc => vc * 100 / totalVoterCount
  let gap := voterCounts.map fun vc => (vc * 100 / totalVoterCount + 1) * totalVoterCount - vc * 100
  let percentSum := result.sum
  if percentSum = 100 then result
  else distribute voterCounts (sortedOptions voterCounts gap result totalVoterCount)
    (100 - percentSum) result

/-- `Poll.get_vote_percentage` -/
def getVotePercentage (voterCounts : List ℕ) (totalVoterCount : ℤ) : List ℤ :=
  let total : ℤ := voterCounts.sum
  let totalVoterCount := min totalVoterCount total
  if totalVoterCount = 0 then voterCounts.map fun _ => 0
  else if totalVoterCount ≠ total then
    voterCounts.map fun vc : ℕ => (((vc : ℤ) * 200 + totalVoterCount).fdiv totalVoterCount).fdiv 2
  else (exactPercentage voterCounts).map Int.ofNat

theorem length_distribute {voterCounts : List ℕ} {opts : List OptionGroup} {left : ℕ}
    {result : List ℕ}
    (h : result.length = voterCounts.length) : (distribute voterCounts opts left result).length =
      voterCounts.length := by
  induction opts generalizing left result with
  | nil => exact h
  | cons opt opts ih =>
    have hzip : (List.zipWith (fun vc r => if vc = targetVc voterCounts opt then r + 1 else r)
      voterCounts result).length =
        voterCounts.length := by simp [h]
    rw [distribute]
    split
    · dsimp only
      split
      · exact hzip
      · exact ih hzip
    · exact ih h

/-- There is a percentage for each option. -/
@[simp] theorem length_getVotePercentage (voterCounts : List ℕ) (totalVoterCount : ℤ) :
    (getVotePercentage voterCounts totalVoterCount).length = voterCounts.length := by
  rw [getVotePercentage]
  split
  · simp
  · split
    · simp
    · rw [List.length_map, exactPercentage]
      split
      · simp
      · exact length_distribute (by simp)

/-! ### The groups -/

/-- What `options` says of the votes that were looked at. -/
structure Groups (voterCounts : List ℕ) (options : List (ℕ × OptionGroup)) : Prop where
  nodup : (options.map Prod.fst).Nodup
  entry : ∀ e ∈ options, ∃ vc, e.1 = vc + 1 ∧ voterCounts[e.2.pos]? = some vc ∧
    e.2.count = voterCounts.count vc
  covers : ∀ vc ∈ voterCounts, ∃ e ∈ options, e.1 = vc + 1

theorem groups_nil : Groups [] [] := ⟨List.nodup_nil, by simp, by simp⟩

variable {voterCounts : List ℕ} {options : List (ℕ × OptionGroup)}

/-- What is in `options` stays so when one more option is looked at. -/
theorem Groups.entry_append (h : Groups voterCounts options) (vc : ℕ) {e : ℕ × OptionGroup}
    (he : e ∈ options) :
    ∃ v, e.1 = v + 1 ∧ (voterCounts ++ [vc])[e.2.pos]? = some v ∧
      e.2.count + (if e.1 = vc + 1 then 1 else 0) = (voterCounts ++ [vc]).count v := by
  obtain ⟨v, hv, hpos, hcount⟩ := h.entry e he
  refine ⟨v, hv, ?_, ?_⟩
  · rwa [List.getElem?_append_left (List.getElem?_eq_some_iff.mp hpos).1]
  · rw [List.count_append, List.count_singleton, hcount, hv]
    by_cases hvc : v = vc
    · simp [hvc]
    · simp [hvc, Ne.symm hvc]

/-- An option of votes that were met before joins their group. -/
theorem Groups.join (h : Groups voterCounts options) {vc : ℕ} (hin : ∃ e ∈ options, e.1 = vc + 1) :
    Groups (voterCounts ++ [vc]) (options.map (countOption (vc + 1))) := by
  refine ⟨?_, fun e' he' => ?_, fun v hv => ?_⟩
  · simpa [Function.comp_def] using h.nodup
  · obtain ⟨e, he, rfl⟩ := List.mem_map.mp he'
    obtain ⟨v, hv, hpos, hcount⟩ := h.entry_append vc he
    exact ⟨v, by simp [hv], by simpa using hpos, by rw [countOption_count, hcount]⟩
  · have hmem : ∃ e ∈ options, e.1 = v + 1 := by
      rcases List.mem_append.mp hv with hv | hv
      · exact h.covers v hv
      · exact List.mem_singleton.mp hv ▸ hin
    obtain ⟨e, he, hev⟩ := hmem
    exact ⟨_, List.mem_map_of_mem he, by simp [hev]⟩

/-- An option of votes that were not met before is a group of its own. -/
theorem Groups.concat (h : Groups voterCounts options) {vc : ℕ}
    (hnew : ∀ e ∈ options, e.1 ≠ vc + 1) :
    Groups (voterCounts ++ [vc]) (options ++ [(vc + 1, ⟨voterCounts.length, 1⟩)]) := by
  have hnone : vc ∉ voterCounts := fun hvc => by
    obtain ⟨e, he, hev⟩ := h.covers vc hvc
    exact hnew e he hev
  refine ⟨?_, fun e he => ?_, fun v hv => ?_⟩
  · rw [List.map_append, List.nodup_append]
    refine ⟨h.nodup, List.nodup_singleton _, fun k hk k' hk' => ?_⟩
    obtain ⟨e, he, rfl⟩ := List.mem_map.mp hk
    obtain rfl : k' = vc + 1 := by simpa using hk'
    exact hnew e he
  · rcases List.mem_append.mp he with he | he
    · obtain ⟨v, hv, hpos, hcount⟩ := h.entry_append vc he
      exact ⟨v, hv, hpos, by simpa [hnew e he] using hcount⟩
    · obtain rfl := List.mem_singleton.mp he
      exact ⟨vc, rfl, by simp, by simp [List.count_eq_zero_of_not_mem hnone]⟩
  · rcases List.mem_append.mp hv with hv | hv
    · obtain ⟨e, he, hev⟩ := h.covers v hv
      exact ⟨e, List.mem_append_left _ he, hev⟩
    · obtain rfl := List.mem_singleton.mp hv
      exact ⟨_, List.mem_append_right _ (List.mem_singleton.mpr rfl), rfl⟩

/-- **One more option leads to one group more, or to one option more in its group.** -/
theorem Groups.add (h : Groups voterCounts options) (vc : ℕ) :
    Groups (voterCounts ++ [vc]) (addOption options (vc, voterCounts.length)) := by
  by_cases hin : options.any (·.1 = vc + 1) = true
  · have hadd : addOption options (vc, voterCounts.length) =
        options.map (countOption (vc + 1)) := by
      simp only [addOption, hin, if_true]
    exact hadd ▸ h.join (by simpa using hin)
  · have hnew : ∀ e ∈ options, e.1 ≠ vc + 1 :=
      fun e he hkey => hin (List.any_eq_true.mpr ⟨e, he, by simpa using hkey⟩)
    have hadd : addOption options (vc, voterCounts.length) = options ++
        [(vc + 1, ⟨voterCounts.length, 1⟩)] := by
      have hkeep : options.map (countOption (vc + 1)) = options :=
        (List.map_congr_left fun e he => if_neg (hnew e he)).trans options.map_id
      simp [addOption, hin, hkeep, countOption]
    exact hadd ▸ h.concat hnew

/-- **There is one group for each number of votes.** -/
theorem groups_optionGroups (voterCounts : List ℕ) :
    Groups voterCounts (optionGroups voterCounts) := by
  induction voterCounts using List.reverseRecOn with
  | nil => exact groups_nil
  | append_singleton l vc ih =>
    have : optionGroups (l ++ [vc]) = addOption (optionGroups l) (vc, l.length) := by
      simp [optionGroups, List.zipIdx_append]
    exact this ▸ ih.add vc

/-! ### Rounding down -/

/-- `result[i]` before anything is rounded up -/
def floorPercent (total vc : ℕ) : ℕ := vc * 100 / total

/-- `gap[i]`: what is missing to the next percent, in hundredths of a vote -/
def gapOf (total vc : ℕ) : ℕ := (vc * 100 / total + 1) * total - vc * 100

/-- **A remainder that may be rounded up.**  It is one half at least, and more than one half from
50 percent on. -/
def Eligible (total vc : ℕ) : Prop :=
  total ≤ 2 * (100 * vc % total) ∧ ¬ (2 * (100 * vc % total) = total ∧ 50 ≤ 100 * vc / total)

variable {total vc : ℕ}

/-- The gap is what the remainder leaves of a whole percent. -/
theorem gap_eq (total vc : ℕ) : gapOf total vc = total - vc * 100 % total := by
  have := Nat.div_add_mod (vc * 100) total
  rw [gapOf, add_mul, one_mul, mul_comm]
  omega

theorem gap_add_mod (h : 0 < total) (vc : ℕ) : gapOf total vc + vc * 100 % total = total := by
  have := Nat.mod_lt (vc * 100) h
  rw [gap_eq]
  omega

theorem eligible_iff (h : 0 < total) : Eligible total vc ↔
    ¬ total < 2 * gapOf total vc ∧
      ¬ (total % 2 = 0 ∧ gapOf total vc = total / 2 ∧ 50 ≤ floorPercent total vc) := by
  have := gap_add_mod h vc
  rw [Eligible, floorPercent, mul_comm 100]
  generalize vc * 100 % total = r at *
  generalize vc * 100 / total = q
  omega

/-- Of two votes with the same percentage, the more votes are nearer to the next percent. -/
theorem gap_lt_gap (htotal : 0 < total) {vi vj : ℕ} (h : vj < vi)
    (hfloor : floorPercent total vi = floorPercent total vj) :
    gapOf total vi < gapOf total vj := by
  have hi := Nat.mod_lt (vi * 100) htotal
  have hdi := Nat.div_add_mod (vi * 100) total
  have hdj := Nat.div_add_mod (vj * 100) total
  rw [floorPercent, floorPercent] at hfloor
  rw [hfloor] at hdi
  rw [gap_eq, gap_eq]
  omega

/-- The votes that are divided without their remainders. -/
theorem mul_sum_floor_add (total : ℕ) (l : List ℕ) :
    total * (l.map (floorPercent total)).sum + (l.map fun vc => vc * 100 % total).sum = l.sum *
      100 := by
  induction l with
  | nil => simp
  | cons vc l ih =>
    have := Nat.div_add_mod (vc * 100) total
    simp only [List.map_cons, List.sum_cons, mul_add, add_mul, floorPercent] at *
    omega

/-- **Rounded down, the percentages add up to 100 at most.** -/
theorem sum_floor_le {l : List ℕ} (h : 0 < l.sum) : (l.map (floorPercent l.sum)).sum ≤ 100 := by
  have := mul_sum_floor_add l.sum l
  refine Nat.le_of_mul_le_mul_left (c := l.sum) ?_ h
  omega

/-! ### Rounding up -/

/-- The groups that are tried, for votes of one answer a voter -/
def tried (voterCounts : List ℕ) : List OptionGroup :=
  sortedOptions voterCounts (voterCounts.map (gapOf voterCounts.sum))
    (voterCounts.map (floorPercent voterCounts.sum)) voterCounts.sum

/-- What is missing to 100 -/
def missing (voterCounts : List ℕ) : ℕ := 100 - (voterCounts.map (floorPercent voterCounts.sum)).sum

/-- The votes that are rounded up -/
def roundedUp (voterCounts : List ℕ) : List ℕ :=
  (Greedy.taken OptionGroup.count (missing voterCounts) (tried voterCounts)).map
    (targetVc voterCounts)

/-- The percentage of a number of votes -/
def percentage (voterCounts : List ℕ) (vc : ℕ) :
    ℕ := floorPercent voterCounts.sum vc + (roundedUp voterCounts).count vc

/-- One turn of the loop for a group that fits -/
theorem zipWith_target (voterCounts : List ℕ) (opt : OptionGroup) (p : ℕ → ℕ) :
    List.zipWith (fun vc r => if vc = targetVc voterCounts opt then r + 1 else r) voterCounts
      (voterCounts.map p) =
      voterCounts.map fun vc => p vc + if targetVc voterCounts opt == vc then 1 else 0 := by
  rw [List.zipWith_map_right, List.zipWith_self]
  refine List.map_congr_left fun vc _ => ?_
  by_cases h : vc = targetVc voterCounts opt
  · simp [h]
  · simp [h, Ne.symm h]

/-- **The loop rounds the groups up that the greedy choice takes.** -/
theorem distribute_eq (voterCounts : List ℕ) {opts : List OptionGroup}
    (hopts : ∀ opt ∈ opts, 0 < opt.count)
    (left : ℕ) (p : ℕ → ℕ) :
    distribute voterCounts opts left (voterCounts.map p) = voterCounts.map fun vc =>
      p vc + ((Greedy.taken OptionGroup.count left opts).map (targetVc voterCounts)).count vc := by
  induction opts generalizing left p with
  | nil => simp [distribute, Greedy.taken]
  | cons opt opts ih =>
    have hopts' : ∀ o ∈ opts, 0 < o.count := fun o ho => hopts o (List.mem_cons_of_mem _ ho)
    by_cases hfits : opt.count ≤ left
    · simp only [distribute, if_pos hfits, Greedy.taken_cons_of_le hfits, List.map_cons,
        List.count_cons, zipWith_target]
      by_cases hleft : left - opt.count = 0
      · -- the loop breaks, and nothing more would fit
        simp [hleft, Greedy.taken_zero hopts']
      · rw [if_neg hleft, ih hopts']
        refine List.map_congr_left fun vc _ => ?_
        omega
    · simp only [distribute, if_neg hfits, Greedy.taken_cons_of_lt (not_le.mp hfits), ih hopts']

/-! ### The groups that are tried -/

/-- What is read at the place of a group is about its votes. -/
theorem Groups.read (h : Groups voterCounts options) {e : ℕ × OptionGroup} (he : e ∈ options) :
    targetVc voterCounts e.2 ∈ voterCounts ∧ e.1 = targetVc voterCounts e.2 + 1 ∧
      e.2.count = voterCounts.count (targetVc voterCounts e.2) ∧
      ∀ f : ℕ → ℕ, (voterCounts.map f).getD e.2.pos 0 = f (targetVc voterCounts e.2) := by
  obtain ⟨vc, hkey, hpos, hcount⟩ := h.entry e he
  have htarget : targetVc voterCounts e.2 = vc := by simp [targetVc, List.getD, hpos]
  exact ⟨htarget ▸ List.mem_of_getElem? hpos, htarget ▸ hkey, htarget ▸ hcount,
    fun f => by simp [List.getD, hpos, htarget]⟩

theorem mem_tried_iff (h : 0 < voterCounts.sum) {opt : OptionGroup} : opt ∈ tried voterCounts ↔
    opt ∈ (optionGroups voterCounts).map Prod.snd ∧
      Eligible voterCounts.sum (targetVc voterCounts opt) := by
  rw [tried, sortedOptions, (perm_byKey _ _).mem_iff, List.mem_filter]
  refine and_congr_right fun hopt => ?_
  obtain ⟨e, he, rfl⟩ := List.mem_map.mp hopt
  have hread := ((groups_optionGroups voterCounts).read he).2.2.2
  rw [eligible_iff h, hread, hread]
  exact decide_eq_true_iff

theorem count_of_mem_tried (h : 0 < voterCounts.sum) {opt : OptionGroup}
    (hopt : opt ∈ tried voterCounts) :
    opt.count = voterCounts.count (targetVc voterCounts opt) ∧ 0 < opt.count := by
  obtain ⟨e, he, rfl⟩ := List.mem_map.mp ((mem_tried_iff h).mp hopt).1
  obtain ⟨hmem, -, hcount, -⟩ := (groups_optionGroups voterCounts).read he
  exact ⟨hcount, hcount ▸ List.count_pos_iff.mpr hmem⟩

/-- Votes whose remainder may be rounded up are tried. -/
theorem exists_tried (h : 0 < voterCounts.sum) {vc : ℕ} (hvc : vc ∈ voterCounts)
    (helig : Eligible voterCounts.sum vc) :
    ∃ opt ∈ tried voterCounts, targetVc voterCounts opt = vc := by
  obtain ⟨e, he, hkey⟩ := (groups_optionGroups voterCounts).covers vc hvc
  have htarget : targetVc voterCounts e.2 = vc := by
    have := ((groups_optionGroups voterCounts).read he).2.1
    omega
  exact ⟨e.2, (mem_tried_iff h).mpr ⟨List.mem_map_of_mem he, htarget.symm ▸ helig⟩, htarget⟩

/-- No votes are tried twice. -/
theorem nodup_tried (voterCounts : List ℕ) :
    ((tried voterCounts).map (targetVc voterCounts)).Nodup := by
  have hgroups := groups_optionGroups voterCounts
  have hkeys : (((optionGroups voterCounts).map Prod.snd).map (targetVc voterCounts)).map (· + 1) =
      (optionGroups voterCounts).map Prod.fst := by
    rw [List.map_map, List.map_map]
    exact List.map_congr_left fun e he => ((hgroups.read he).2.1).symm
  have hall : (((optionGroups voterCounts).map Prod.snd).map (targetVc voterCounts)).Nodup :=
    List.Nodup.of_map (· + 1) (hkeys ▸ hgroups.nodup)
  rw [tried, sortedOptions, ((perm_byKey _ _).map _).nodup_iff]
  exact hall.sublist (List.filter_sublist.map _)

/-- The groups are tried in the order of their gaps. -/
theorem pairwise_tried (h : 0 < voterCounts.sum) : (tried voterCounts).Pairwise fun a b =>
    gapOf voterCounts.sum (targetVc voterCounts a) ≤
      gapOf voterCounts.sum (targetVc voterCounts b) := by
  refine List.Pairwise.imp_of_mem ?_ (pairwise_byKey _ _)
  intro a b ha hb hab
  obtain ⟨e, he, rfl⟩ := List.mem_map.mp ((mem_tried_iff h).mp ha).1
  obtain ⟨e', he', rfl⟩ := List.mem_map.mp ((mem_tried_iff h).mp hb).1
  have hread := ((groups_optionGroups voterCounts).read he).2.2.2 (gapOf voterCounts.sum)
  have hread' := ((groups_optionGroups voterCounts).read he').2.2.2 (gapOf voterCounts.sum)
  rw [← hread, ← hread']
  exact Prod.Lex.monotone_fst _ _ hab

/-! ### What is rounded up -/

theorem nodup_roundedUp (voterCounts : List ℕ) : (roundedUp voterCounts).Nodup :=
  (nodup_tried voterCounts).sublist ((Greedy.taken_sublist _ _).map _)

theorem mem_roundedUp {vc : ℕ} : vc ∈ roundedUp voterCounts ↔
    ∃ opt ∈ Greedy.taken OptionGroup.count (missing voterCounts) (tried voterCounts),
      targetVc voterCounts opt = vc :=
  List.mem_map

theorem eligible_of_mem_roundedUp (h : 0 < voterCounts.sum) {vc : ℕ}
    (hvc : vc ∈ roundedUp voterCounts) :
    Eligible voterCounts.sum vc := by
  obtain ⟨opt, hopt, rfl⟩ := mem_roundedUp.mp hvc
  exact ((mem_tried_iff h).mp ((Greedy.taken_sublist _ _).subset hopt)).2

/-- How many options are rounded up -/
theorem sum_count_roundedUp (h : 0 < voterCounts.sum) :
    ((roundedUp voterCounts).map fun vc => voterCounts.count vc).sum =
    ((Greedy.taken OptionGroup.count (missing voterCounts) (tried voterCounts)).map
      OptionGroup.count).sum := by
  rw [roundedUp, List.map_map]
  refine congrArg List.sum (List.map_congr_left fun opt hopt => ?_)
  exact ((count_of_mem_tried h ((Greedy.taken_sublist _ _).subset hopt)).1).symm

theorem sum_map_ite_eq (l : List ℕ) (t : ℕ) : (l.map fun vc => if t = vc then 1 else 0).sum =
    l.count t := by
  induction l with
  | nil => rfl
  | cons vc l ih =>
    rw [List.map_cons, List.sum_cons, ih, List.count_cons, add_comm]
    by_cases h : t = vc
    · simp [h]
    · simp [h, Ne.symm h]

/-- The options may be counted by their votes. -/
theorem sum_map_count (l ts : List ℕ) :
    (l.map fun vc => ts.count vc).sum = (ts.map fun t => l.count t).sum := by
  induction ts with
  | nil => simp
  | cons t ts ih => simp [List.count_cons, List.sum_map_add, ih, sum_map_ite_eq, add_comm]

/-- The sum of the percentages -/
theorem sum_percentage (h : 0 < voterCounts.sum) : (voterCounts.map (percentage voterCounts)).sum =
    (voterCounts.map (floorPercent voterCounts.sum)).sum +
      ((Greedy.taken OptionGroup.count (missing voterCounts) (tried voterCounts)).map
        OptionGroup.count).sum := by
  rw [← sum_count_roundedUp h, ← sum_map_count, ← List.sum_map_add]
  rfl

theorem sum_percentage_le (h : 0 < voterCounts.sum) :
    (voterCounts.map (percentage voterCounts)).sum ≤ 100 := by
  have := Greedy.sum_taken_le OptionGroup.count (missing voterCounts) (tried voterCounts)
  have := sum_floor_le h
  rw [sum_percentage h]
  rw [missing] at *
  omega

/-- **For one answer a voter, a percentage depends on the votes alone.** -/
theorem exactPercentage_eq (h : 0 < voterCounts.sum) :
    exactPercentage voterCounts = voterCounts.map (percentage voterCounts) := by
  have hpositive : ∀ opt ∈ tried voterCounts, 0 < opt.count :=
    fun opt hopt => (count_of_mem_tried h hopt).2
  by_cases hsum : (voterCounts.map (floorPercent voterCounts.sum)).sum = 100
  · -- nothing is missing, so no group would have been taken
    have hround : roundedUp voterCounts = [] := by
      simp [roundedUp, missing, hsum, Greedy.taken_zero hpositive]
    have hresult : exactPercentage voterCounts = voterCounts.map (floorPercent voterCounts.sum) :=
      if_pos hsum
    rw [hresult]
    exact List.map_congr_left fun vc _ => by simp [percentage, hround]
  · have hresult : exactPercentage voterCounts = distribute voterCounts (tried voterCounts)
      (missing voterCounts)
        (voterCounts.map (floorPercent voterCounts.sum)) := if_neg hsum
    rw [hresult, distribute_eq voterCounts hpositive]
    rfl

theorem getVotePercentage_eq (h : 0 < voterCounts.sum) {totalVoterCount : ℤ}
    (htotal : (voterCounts.sum : ℤ) ≤ totalVoterCount) :
    getVotePercentage voterCounts totalVoterCount = voterCounts.map fun vc =>
      (percentage voterCounts vc : ℤ) := by
  have hmin : min totalVoterCount voterCounts.sum = voterCounts.sum := min_eq_right htotal
  have hne : (voterCounts.sum : ℤ) ≠ 0 := by omega
  simp only [getVotePercentage, hmin, hne, if_false, ne_eq, not_true_eq_false, exactPercentage_eq h,
    List.map_map]
  rfl

/-- A percentage is rounded down, or up where its remainder allows it. -/
theorem percentage_cases (voterCounts : List ℕ) (vc : ℕ) :
    percentage voterCounts vc = floorPercent voterCounts.sum vc ∧ vc ∉ roundedUp voterCounts ∨
      percentage voterCounts vc = floorPercent voterCounts.sum vc + 1 ∧
        vc ∈ roundedUp voterCounts := by
  by_cases hvc : vc ∈ roundedUp voterCounts
  · exact .inr ⟨by rw [percentage, List.count_eq_one_of_mem (nodup_roundedUp _) hvc], hvc⟩
  · exact .inl ⟨by rw [percentage, List.count_eq_zero_of_not_mem hvc, add_zero], hvc⟩

/-- What could be rounded up and is not does not fit in what is missing. -/
theorem sum_percentage_add_count (h : 0 < voterCounts.sum) {vc : ℕ} (hvc : vc ∈ voterCounts)
    (helig : Eligible voterCounts.sum vc) (hround : vc ∉ roundedUp voterCounts) :
    100 < (voterCounts.map (percentage voterCounts)).sum + voterCounts.count vc := by
  obtain ⟨opt, hopt, rfl⟩ := exists_tried h hvc helig
  have hleft : opt ∉ Greedy.taken OptionGroup.count (missing voterCounts) (tried voterCounts) :=
      fun ht =>
    hround (mem_roundedUp.mpr ⟨opt, ht, rfl⟩)
  have hroom := Greedy.room_lt_of_left hopt hleft
  have hcount := (count_of_mem_tried h hopt).1
  have hfloor := sum_floor_le h
  rw [sum_percentage h]
  simp only [missing] at hroom ⊢
  omega

/-- **The percentages of a poll add up.**  Of a poll with one answer a voter, each number of votes
has one percentage, its share rounded down, or up if the remainder is a half at least; they add up
to 100 at most, and no options of equal votes that could have been rounded up still fit. -/
theorem percentages_add_up (voterCounts : List ℕ) (totalVoterCount : ℤ) (hpos : 0 < voterCounts.sum)
    (htotal : (voterCounts.sum : ℤ) ≤ totalVoterCount) :
    ∃ p : ℕ → ℕ, getVotePercentage voterCounts totalVoterCount =
      voterCounts.map (fun vc => (p vc : ℤ)) ∧
      (∀ vc ∈ voterCounts, p vc = 100 * vc / voterCounts.sum ∨
        p vc = 100 * vc / voterCounts.sum + 1 ∧
          voterCounts.sum ≤ 2 * (100 * vc % voterCounts.sum)) ∧
      (voterCounts.map p).sum ≤ 100 ∧
      ∀ vc ∈ voterCounts, Eligible voterCounts.sum vc → p vc = 100 * vc / voterCounts.sum →
        100 < (voterCounts.map p).sum + voterCounts.count vc := by
  refine ⟨percentage voterCounts, getVotePercentage_eq hpos htotal, fun vc _ =>
    ?_, sum_percentage_le hpos,
    fun vc hvc helig hfloor => ?_⟩
  · rw [mul_comm 100]
    rcases percentage_cases voterCounts vc with ⟨h, -⟩ | ⟨h, hround⟩
    · exact .inl h
    · exact .inr ⟨h, mul_comm 100 vc ▸ (eligible_of_mem_roundedUp hpos hround).1⟩
  · rcases percentage_cases voterCounts vc with ⟨-, hround⟩ | ⟨h, -⟩
    · exact sum_percentage_add_count hpos hvc helig hround
    · rw [h, floorPercent, mul_comm 100] at hfloor
      omega

/-- Three votes of eight are rounded up, five are not. -/
theorem percentages_add_up_halves : 0 < [3, 5].sum ∧ (([3, 5].sum : ℕ) : ℤ) ≤ 8 ∧
    ∃ p : ℕ → ℕ, getVotePercentage [3, 5] 8 = [3, 5].map (fun vc => (p vc : ℤ)) ∧
      (∀ vc ∈ [3, 5], p vc = 100 * vc / [3, 5].sum ∨
        p vc = 100 * vc / [3, 5].sum + 1 ∧ [3, 5].sum ≤ 2 * (100 * vc % [3, 5].sum)) ∧
      ([3, 5].map p).sum ≤ 100 ∧
      ∀ vc ∈ [3, 5], Eligible [3, 5].sum vc → p vc = 100 * vc / [3, 5].sum →
        100 < ([3, 5].map p).sum + [3, 5].count vc :=
  ⟨by decide, by decide, percentages_add_up [3, 5] 8 (by decide) (by decide)⟩

example : getVotePercentage [3, 5] 8 = [38, 62] := by decide

/-! ### The order of the percentages -/

/-- More votes are overtaken only where they are shared by more options. -/
theorem percentage_le_or (h : 0 < voterCounts.sum) {vi vj : ℕ} (hvi : vi ∈ voterCounts)
    (hlt : vj < vi) :
    percentage voterCounts vj ≤ percentage voterCounts vi ∨
      percentage voterCounts vj = percentage voterCounts vi + 1 ∧
        100 * vi / voterCounts.sum = 100 * vj / voterCounts.sum ∧
          voterCounts.count vj < voterCounts.count vi := by
  have hfloor : floorPercent voterCounts.sum vj ≤ floorPercent voterCounts.sum vi :=
    Nat.div_le_div_right (by omega)
  -- only a smaller share that is rounded up can overtake the larger one
  rcases percentage_cases voterCounts vi with ⟨hi, hri⟩ | ⟨hi, -⟩
  · rcases percentage_cases voterCounts vj with ⟨hj, -⟩ | ⟨hj, hrj⟩
    · exact .inl (by omega)
    · rcases Nat.lt_or_eq_of_le hfloor with hne | heq
      · exact .inl (by omega)
      · -- `vi` is nearer to the next percent, so it was tried before and did not fit
        have hgap := gap_lt_gap h hlt heq.symm
        obtain ⟨oj, hoj, rfl⟩ := mem_roundedUp.mp hrj
        have hj' := (Greedy.taken_sublist _ _).subset hoj
        have helig : Eligible voterCounts.sum vi := by
          have := (eligible_iff h).mp ((mem_tried_iff h).mp hj').2
          exact (eligible_iff h).mpr (by omega)
        obtain ⟨oi, hoi, rfl⟩ := exists_tried h hvi helig
        have hleft : oi ∉ Greedy.taken OptionGroup.count (missing voterCounts)
            (tried voterCounts) := fun ht =>
          hri (mem_roundedUp.mpr ⟨oi, ht, rfl⟩)
        have hsmaller := Greedy.size_lt_of_overtaken (pairwise_tried h) (not_le.mpr hgap) hoi
          hleft hoj
        rw [(count_of_mem_tried h hoi).1, (count_of_mem_tried h hj').1] at hsmaller
        refine .inr ⟨by omega, ?_, hsmaller⟩
        rw [mul_comm 100, mul_comm 100]
        exact heq.symm
  · rcases percentage_cases voterCounts vj with ⟨hj, -⟩ | ⟨hj, -⟩ <;> exact .inl (by omega)

theorem fdiv_le_fdiv {a b c : ℤ} (hc : 0 < c) (h : a ≤ b) : a.fdiv c ≤ b.fdiv c := by
  rw [Int.fdiv_eq_ediv_of_nonneg _ hc.le, Int.fdiv_eq_ediv_of_nonneg _ hc.le]
  exact Int.ediv_le_ediv hc h

/-- A share that is rounded by half grows with the votes. -/
theorem share_le_share {t : ℤ} (ht : 0 < t) {a b : ℤ} (h : a ≤ b) :
    ((a * 200 + t).fdiv t).fdiv 2 ≤ ((b * 200 + t).fdiv t).fdiv 2 :=
  fdiv_le_fdiv (by omega) (fdiv_le_fdiv ht (by omega))

/-- The order for every number of voters: a number below zero turns it round. -/
theorem share_le_share_of_neg {t : ℤ} (ht : t < 0) {a b : ℤ} (h : a ≤ b) :
    ((b * 200 + t).fdiv t).fdiv 2 ≤ ((a * 200 + t).fdiv t).fdiv 2 := by
  refine fdiv_le_fdiv (by omega) ?_
  rw [← Int.neg_fdiv_neg (b * 200 + t), ← Int.neg_fdiv_neg (a * 200 + t)]
  exact fdiv_le_fdiv (by omega) (by omega)

/-- **More votes have no smaller percentage, unless more options share them.**  They are overtaken
by one percent at most, where each voter has one answer, the shares agree when rounded down, and
more options have these votes than have the fewer ones; a negative number of voters turns the
order round. -/
theorem percentage_ordered (voterCounts : List ℕ) (totalVoterCount : ℤ) (i j vi vj : ℕ) (pi pj : ℤ)
    (hvi : voterCounts[i]? = some vi) (hvj : voterCounts[j]? = some vj) (hlt : vj < vi)
    (hpi : (getVotePercentage voterCounts totalVoterCount)[i]? = some pi)
    (hpj : (getVotePercentage voterCounts totalVoterCount)[j]? = some pj) :
    (totalVoterCount < 0 → pi ≤ pj) ∧
      (0 ≤ totalVoterCount → pj ≤ pi ∨ pj = pi + 1 ∧ voterCounts.sum ≤ totalVoterCount ∧
        100 * vi / voterCounts.sum = 100 * vj / voterCounts.sum ∧
          voterCounts.count vj < voterCounts.count vi) := by
  have hmem := List.mem_of_getElem? hvi
  have hpos : 0 < voterCounts.sum := by
    have := List.single_le_sum (fun _ _ => Nat.zero_le _) _ hmem
    omega
  -- one answer a voter: the shares are rounded down, and the missing percents are given out
  by_cases htotal : (voterCounts.sum : ℤ) ≤ totalVoterCount
  · have hresult := getVotePercentage_eq hpos htotal
    rw [hresult, List.getElem?_map, hvi, Option.map_some, Option.some.injEq] at hpi
    rw [hresult, List.getElem?_map, hvj, Option.map_some, Option.some.injEq] at hpj
    subst hpi hpj
    refine ⟨fun hneg => by omega, fun _ => ?_⟩
    rcases percentage_le_or hpos hmem hlt with hle | ⟨heq, hfloor, hcount⟩
    · exact .inl (by exact_mod_cast hle)
    · exact .inr ⟨by exact_mod_cast heq, htotal, hfloor, hcount⟩
  · -- several answers a voter: each percentage is the share, rounded by half
    have hmin : min totalVoterCount voterCounts.sum = totalVoterCount := min_eq_left (by omega)
    have hne : totalVoterCount ≠ voterCounts.sum := by omega
    by_cases hzero : totalVoterCount = 0
    · subst hzero
      simp only [getVotePercentage, hmin, if_true, List.getElem?_map, hvi, hvj, Option.map_some,
        Option.some.injEq] at hpi hpj
      exact ⟨fun _ => by omega, fun _ => .inl (by omega)⟩
    · simp only [getVotePercentage, hmin, hzero, hne, if_false, ne_eq, not_false_eq_true, if_true,
        List.getElem?_map, hvi, hvj, Option.map_some, Option.some.injEq] at hpi hpj
      subst hpi hpj
      have hle : (vj : ℤ) ≤ vi := by omega
      exact ⟨fun hneg => share_le_share_of_neg hneg hle, fun h =>
        .inl (share_le_share (by omega) hle)⟩

/-- 58 votes of two options each are overtaken by 57 votes of one. -/
theorem percentage_ordered_pair : ([16, 16, 58, 58, 57, 395] : List ℕ)[3]? = some 58 ∧
    ([16, 16, 58, 58, 57, 395] : List ℕ)[4]? = some 57 ∧
    (getVotePercentage [16, 16, 58, 58, 57, 395] 600)[3]? = some 9 ∧
    (getVotePercentage [16, 16, 58, 58, 57, 395] 600)[4]? = some 10 ∧
    (((600 : ℤ) < 0 → (9 : ℤ) ≤ 10) ∧
      ((0 : ℤ) ≤ 600 → (10 : ℤ) ≤ 9 ∨ (10 : ℤ) = 9 + 1 ∧ (([16, 16, 58, 58, 57, 395].sum : ℕ) : ℤ) ≤
        600 ∧
        100 * 58 / [16, 16, 58, 58, 57, 395].sum = 100 * 57 / [16, 16, 58, 58, 57, 395].sum ∧
        [16, 16, 58, 58, 57, 395].count 57 < [16, 16, 58, 58, 57, 395].count 58)) := by
  have hi : (getVotePercentage [16, 16, 58, 58, 57, 395] 600)[3]? = some 9 := by decide
  have hj : (getVotePercentage [16, 16, 58, 58, 57, 395] 600)[4]? = some 10 := by decide
  exact ⟨rfl, rfl, hi, hj, percentage_ordered [16, 16, 58, 58, 57, 395] 600 3 4 58 57 9 10 rfl rfl
    (by decide) hi hj⟩

/-- **More votes may have the smaller percentage**: 58 votes beside 57, and one vote beside none
for a negative number of voters. -/
theorem not_percentage_ordered :
    getVotePercentage [16, 16, 58, 58, 57, 395] 600 = [3, 3, 9, 9, 10, 66] ∧
    getVotePercentage [0, 1] (-1) = [0, -100] ∧
    ¬ ∀ (voterCounts : List ℕ) (totalVoterCount : ℤ) (i j vi vj : ℕ) (pi pj : ℤ),
      voterCounts[i]? = some vi → voterCounts[j]? = some vj → vj < vi →
      (getVotePercentage voterCounts totalVoterCount)[i]? = some pi →
      (getVotePercentage voterCounts totalVoterCount)[j]? = some pj → pj ≤ pi := by
  have hresult : getVotePercentage [16, 16, 58, 58, 57, 395] 600 = [3, 3, 9, 9, 10, 66] := by decide
  refine ⟨hresult, by decide, fun h => ?_⟩
  have := h [16, 16, 58, 58, 57, 395] 600 3 4 58 57 9 10 rfl rfl (by decide) (by rw [hresult]; rfl)
    (by rw [hresult]; rfl)
  omega

end Pyrogram.Types.Poll
