import Pyrogram.ByKey
import Mathlib.Data.List.Perm.Basic
import Mathlib.Data.List.Nodup

/-!
# The handlers of a dispatcher

`add_handler` and `remove_handler` edit a copy of `groups`, a dictionary from group numbers
to lists of handlers, and put it in place of the old one.

## Main definitions

* `Handler` — handlers of updates, of raw updates and of errors.
* `Groups`, `addHandler`, `removeHandler` — the dictionary, and what edits it.
* `Lists` — the groups list the registrations.

## Main results

* `lists_addHandler`, `lists_removeHandler` — **the groups list the registrations in the
  order of their groups, and in the order of registration in each.**
-/

namespace Pyrogram.Dispatcher

open ByKey

/-- The class of a handler: one for the updates of a kind, `RawUpdateHandler`, or
`ErrorHandler` with its `exceptions`. -/
inductive Kind (κ ε : Type)
  | update (type : κ)
  | rawUpdate
  | error (exceptions : List ε)
  deriving DecidableEq, Repr

/-- A handler; no two of them are equal objects. -/
structure Handler (κ ε : Type) where
  id : ℕ
  kind : Kind κ ε
  deriving DecidableEq, Repr

/-- The dictionary, in the order of its items. -/
abbrev Groups (κ ε : Type) := List (ℤ × List (Handler κ ε))

variable {κ ε : Type}

/-- `groups.setdefault(group, []).append(handler)`. -/
def append (handler : Handler κ ε) (group : ℤ) : Groups κ ε → Groups κ ε
  | [] => [(group, [handler])]
  | (key, handlers) :: groups =>
      if key = group then (key, handlers ++ [handler]) :: groups
      else (key, handlers) :: append handler group groups

def addHandler (groups : Groups κ ε) (handler : Handler κ ε) (group : ℤ) : Groups κ ε :=
  byKey Prod.fst (append handler group groups)

/-- `groups[group].remove(handler)`, and the group goes with its last handler. -/
def remove [DecidableEq κ] [DecidableEq ε] (handler : Handler κ ε) (group : ℤ) :
    Groups κ ε → Groups κ ε
  | [] => []
  | (key, handlers) :: groups =>
      if key = group then
        if handlers.erase handler = [] then groups else (key, handlers.erase handler) :: groups
      else (key, handlers) :: remove handler group groups

/-- `none` where it raises a `ValueError`. -/
def removeHandler [DecidableEq κ] [DecidableEq ε] (groups : Groups κ ε) (handler : Handler κ ε)
    (group : ℤ) :
    Option (Groups κ ε) :=
  match groups.lookup group with
  | none => none
  | some handlers => if handler ∈ handlers then some (remove handler group groups) else none

/-- The handlers of the groups, each with its group. -/
def flat (groups : Groups κ ε) : List (ℤ × Handler κ ε) := groups.flatMap fun g => g.2.map (g.1, ·)

/-- **The groups list the registrations**: the groups in ascending order, and in each what was
registered for it, in that order. -/
structure Lists (groups : Groups κ ε) (registered : List (ℤ × Handler κ ε)) : Prop where
  sorted : (groups.map Prod.fst).Pairwise (· < ·)
  flat : flat groups = byKey Prod.fst registered

/-! ### What is in a group -/

variable {groups groups' : Groups κ ε} {registered : List (ℤ × Handler κ ε)} {handler : Handler κ ε}
    {group k : ℤ}
  {handlers : List (Handler κ ε)}

theorem under_map_self (k : ℤ) (handlers : List (Handler κ ε)) :
    under Prod.fst k (handlers.map (k, ·)) = handlers.map (k, ·) := by
  refine List.filter_eq_self.mpr fun a ha => ?_
  obtain ⟨h, -, rfl⟩ := List.mem_map.mp ha
  simp

theorem under_map_of_ne (h : group ≠ k) (handlers : List (Handler κ ε)) :
    under Prod.fst k (handlers.map (group, ·)) = [] := by
  refine List.filter_eq_nil_iff.mpr fun a ha => ?_
  obtain ⟨h', -, rfl⟩ := List.mem_map.mp ha
  simpa using h

theorem flat_cons (group : ℤ) (handlers : List (Handler κ ε)) (groups : Groups κ ε) :
    flat ((group, handlers) :: groups) = handlers.map (group, ·) ++ flat groups := List.flatMap_cons

theorem under_flat_of_notMem (h : k ∉ groups.map Prod.fst) :
    under Prod.fst k (flat groups) = [] := by
  induction groups with
  | nil => rfl
  | cons g groups ih =>
    obtain ⟨group, handlers⟩ := g
    rw [List.map_cons, List.mem_cons, not_or] at h
    rw [flat_cons, under_append, under_map_of_ne (Ne.symm h.1), ih h.2, List.append_nil]

theorem under_flat_of_mem (hnodup : (groups.map Prod.fst).Nodup) (h : (k, handlers) ∈ groups) :
    under Prod.fst k (flat groups) = handlers.map (k, ·) := by
  induction groups with
  | nil => cases h
  | cons g groups ih =>
    rw [List.map_cons, List.nodup_cons] at hnodup
    obtain ⟨group, handlers'⟩ := g
    rw [flat_cons, under_append]
    rcases List.mem_cons.mp h with heq | h
    · cases heq
      rw [under_map_self, under_flat_of_notMem hnodup.1, List.append_nil]
    · have hne : group ≠ k := by
        rintro rfl
        exact hnodup.1 (List.mem_map.mpr ⟨_, h, rfl⟩)
      rw [under_map_of_ne hne, ih hnodup.2 h, List.nil_append]

/-- Two dictionaries with the same items have the same handlers under each group. -/
theorem under_flat_perm (hnodup : (groups.map Prod.fst).Nodup) (hperm : groups.Perm groups')
    (k : ℤ) :
    under Prod.fst k (flat groups) = under Prod.fst k (flat groups') := by
  have hnodup' : (groups'.map Prod.fst).Nodup := (hperm.map Prod.fst).nodup_iff.mp hnodup
  by_cases hk : k ∈ groups.map Prod.fst
  · obtain ⟨⟨k, handlers⟩, hmem, rfl⟩ := List.mem_map.mp hk
    rw [under_flat_of_mem hnodup hmem, under_flat_of_mem hnodup' (hperm.mem_iff.mp hmem)]
  · rw [under_flat_of_notMem hk, under_flat_of_notMem fun h =>
      hk ((hperm.map Prod.fst).mem_iff.mpr h)]

theorem pairwise_flat (h : (groups.map Prod.fst).Pairwise (· < ·)) :
    (flat groups).Pairwise fun a b => a.1 ≤ b.1 := by
  induction groups with
  | nil => exact List.Pairwise.nil
  | cons g groups ih =>
    obtain ⟨group, handlers⟩ := g
    rw [List.map_cons, List.pairwise_cons] at h
    rw [flat_cons, List.pairwise_append]
    refine ⟨?_, ih h.2, fun a ha b hb => ?_⟩
    · refine List.pairwise_of_forall_mem_list fun a ha b hb => ?_
      obtain ⟨-, -, rfl⟩ := List.mem_map.mp ha
      obtain ⟨-, -, rfl⟩ := List.mem_map.mp hb
      exact le_rfl
    · obtain ⟨-, -, rfl⟩ := List.mem_map.mp ha
      obtain ⟨g', hg', hb⟩ := List.mem_flatMap.mp hb
      obtain ⟨-, -, rfl⟩ := List.mem_map.mp hb
      exact (h.1 g'.1 (List.mem_map_of_mem hg')).le

theorem Lists.nodup (h : Lists groups registered) : (groups.map Prod.fst).Nodup :=
  h.sorted.imp fun hlt => ne_of_lt hlt

theorem Lists.under (h : Lists groups registered) (k : ℤ) :
    under Prod.fst k (Dispatcher.flat groups) = under Prod.fst k registered := by
  rw [h.flat, under_byKey]

/-- Groups in ascending order list what they hold. -/
theorem lists_of_under (hsorted : (groups.map Prod.fst).Pairwise (· < ·))
    (h : ∀ k, under Prod.fst k (flat groups) = under Prod.fst k registered) :
    Lists groups registered :=
  ⟨hsorted, eq_byKey (pairwise_flat hsorted) h⟩

/-! ### Adding a handler -/

theorem keys_append (handler : Handler κ ε) (group : ℤ) (groups : Groups κ ε) :
    (append handler group groups).map Prod.fst =
      if group ∈ groups.map Prod.fst then groups.map Prod.fst else groups.map Prod.fst ++
        [group] := by
  induction groups with
  | nil => rfl
  | cons g groups ih =>
    obtain ⟨key, handlers⟩ := g
    rw [append]
    split
    · next h => simp [h]
    · next h =>
      rw [List.map_cons, ih]
      by_cases hmem : group ∈ groups.map Prod.fst
      · simp only [hmem, if_true, List.map_cons, List.mem_cons, or_true]
      · simp only [hmem, if_false, List.map_cons, List.mem_cons, or_false, Ne.symm h,
          List.cons_append]

theorem under_flat_append (hnodup : (groups.map Prod.fst).Nodup) (k : ℤ) :
    under Prod.fst k (flat (append handler group groups)) =
      under Prod.fst k (flat groups ++ [(group, handler)]) := by
  induction groups with
  | nil => rfl
  | cons g groups ih =>
    obtain ⟨key, handlers⟩ := g
    rw [List.map_cons, List.nodup_cons] at hnodup
    rw [append]
    split
    · next h =>
      subst h
      rw [flat_cons, flat_cons, List.map_append, under_append, under_append, under_append,
        under_append]
      by_cases hk : key = k
      · subst hk
        rw [under_flat_of_notMem hnodup.1, List.append_nil, List.append_nil]
        rfl
      · have hnone : under Prod.fst k [(key, handler)] = [] := under_map_of_ne hk [handler]
        rw [List.map_singleton, hnone, List.append_nil, List.append_nil]
    · rw [flat_cons, flat_cons, under_append, ih hnodup.2, List.append_assoc,
        under_append k (handlers.map _)]

/-- **A handler is added** at the end of its group. -/
theorem lists_addHandler (h : Lists groups registered) (handler : Handler κ ε) (group : ℤ) :
    Lists (addHandler groups handler group) (registered ++ [(group, handler)]) := by
  have hnodup : ((append handler group groups).map Prod.fst).Nodup := by
    rw [keys_append]
    split
    · exact h.nodup
    · next hmem =>
      rw [List.nodup_append]
      refine ⟨h.nodup, List.nodup_singleton _, fun a ha b hb => ?_⟩
      rintro rfl
      exact hmem (List.mem_singleton.mp hb ▸ ha)
  have hperm := perm_byKey Prod.fst (append handler group groups)
  refine lists_of_under ?_ fun k => ?_
  · have hle : ((addHandler groups handler group).map Prod.fst).Pairwise (· ≤ ·) :=
      List.pairwise_map.mpr (pairwise_byKey Prod.fst _)
    have hne : ((addHandler groups handler group).map Prod.fst).Nodup :=
      (hperm.map Prod.fst).nodup_iff.mpr hnodup
    exact (hle.and hne).imp fun hlt => lt_of_le_of_ne hlt.1 hlt.2
  · rw [addHandler, ← under_flat_perm hnodup hperm.symm, under_flat_append h.nodup, under_append,
      under_append, h.under]

theorem mem_flat_iff (hnodup : (groups.map Prod.fst).Nodup) :
    (group, handler) ∈ flat groups ↔ ∃ handlers, groups.lookup group = some handlers ∧
      handler ∈ handlers := by
  induction groups with
  | nil => simp [flat]
  | cons g groups ih =>
    obtain ⟨key, handlers⟩ := g
    rw [List.map_cons, List.nodup_cons] at hnodup
    rw [flat_cons, List.mem_append, List.lookup_cons]
    by_cases hkey : group = key
    · subst hkey
      have hrest : (group, handler) ∉ flat groups := by
        intro hmem
        have hunder : (group, handler) ∈ under Prod.fst group (flat groups) :=
          mem_under.mpr ⟨hmem, rfl⟩
        rw [under_flat_of_notMem hnodup.1] at hunder
        cases hunder
      simp [hrest]
    · have hhead : (group, handler) ∉ handlers.map (key, ·) := by
        intro hmem
        obtain ⟨_, _, heq⟩ := List.mem_map.mp hmem
        exact hkey (Prod.mk.inj heq).1.symm
      rw [beq_false_of_ne hkey, ih hnodup.2]
      simp [hhead]

/-! ### Removing a handler -/

section Remove

variable [DecidableEq κ] [DecidableEq ε]

theorem keys_remove_sublist (handler : Handler κ ε) (group : ℤ) (groups : Groups κ ε) :
    ((remove handler group groups).map Prod.fst).Sublist (groups.map Prod.fst) := by
  induction groups with
  | nil => exact List.Sublist.refl _
  | cons g groups ih =>
    obtain ⟨key, handlers⟩ := g
    rw [remove]
    split
    · split
      · exact List.sublist_cons_self _ _
      · exact List.Sublist.refl _
    · exact ih.cons_cons key

theorem erase_under_self (registered : List (ℤ × Handler κ ε)) :
    under Prod.fst group (registered.erase (group, handler)) =
      (under Prod.fst group registered).erase (group, handler) := by
  induction registered with
  | nil => rfl
  | cons r registered ih =>
    by_cases heq : r = (group, handler)
    · subst heq
      have hcons : under Prod.fst group ((group, handler) :: registered) =
          (group, handler) :: under Prod.fst group registered := under_cons_of_eq rfl registered
      rw [hcons, List.erase_cons_head, List.erase_cons_head]
    · rw [List.erase_cons_tail (by simpa using heq)]
      by_cases hr : r.1 = group
      · subst hr
        rw [under_cons_self, under_cons_self, List.erase_cons_tail (by simpa using heq), ih]
      · rw [under_cons_of_ne hr, under_cons_of_ne hr, ih]

theorem erase_under_of_ne (h : group ≠ k) (registered : List (ℤ × Handler κ ε)) :
    under Prod.fst k (registered.erase (group, handler)) = under Prod.fst k registered := by
  induction registered with
  | nil => rfl
  | cons r registered ih =>
    by_cases heq : r = (group, handler)
    · subst heq
      rw [List.erase_cons_head, under_cons_of_ne h]
    · rw [List.erase_cons_tail (by simpa using heq)]
      by_cases hr : r.1 = k
      · subst hr
        rw [under_cons_self, under_cons_self, ih]
      · rw [under_cons_of_ne hr, under_cons_of_ne hr, ih]

theorem under_flat_remove (hnodup : (groups.map Prod.fst).Nodup) (k : ℤ) :
    under Prod.fst k (flat (remove handler group groups)) =
      under Prod.fst k ((flat groups).erase (group, handler)) := by
  have hinj : Function.Injective fun h : Handler κ ε => (group, h) := fun _ _ h => (Prod.mk.inj h).2
  -- on the groups: the handler is taken out of its own, which goes when it is empty
  induction groups with
  | nil => rfl
  | cons g groups ih =>
    obtain ⟨key, handlers⟩ := g
    rw [List.map_cons, List.nodup_cons] at hnodup
    by_cases hkey : key = group
    · subst hkey
      have hflat : flat (remove handler key ((key, handlers) :: groups)) =
          (handlers.erase handler).map (key, ·) ++ flat groups := by
        rw [remove, if_pos rfl]
        split
        · next hnil => rw [hnil, List.map_nil, List.nil_append]
        · rw [flat_cons]
      by_cases hk : key = k
      · subst hk
        rw [hflat, erase_under_self, flat_cons, under_append, under_append, under_map_self,
          under_map_self,
          under_flat_of_notMem hnodup.1, List.append_nil, List.append_nil, List.map_erase hinj]
      · rw [hflat, erase_under_of_ne hk, flat_cons, under_append, under_append, under_map_of_ne hk,
          under_map_of_ne hk]
    · have hnotMem : (group, handler) ∉ handlers.map (key, ·) := by
        intro hmem
        obtain ⟨_, _, heq⟩ := List.mem_map.mp hmem
        exact hkey (Prod.mk.inj heq).1
      rw [remove, if_neg hkey, flat_cons, flat_cons, List.erase_append_right _ hnotMem,
        under_append, under_append,
        ih hnodup.2]

/-- **A handler is removed** where it was registered first; there is a `ValueError` where it
was not. -/
theorem lists_removeHandler (h : Lists groups registered) (handler : Handler κ ε) (group : ℤ) :
    (removeHandler groups handler group = none ↔ (group, handler) ∉ registered) ∧
    ∀ groups', removeHandler groups handler group = some groups' →
      Lists groups' (registered.erase (group, handler)) := by
  have hmem : (group, handler) ∈ registered ↔
      ∃ handlers, groups.lookup group = some handlers ∧ handler ∈ handlers := by
    rw [← mem_flat_iff h.nodup, h.flat, (perm_byKey Prod.fst registered).mem_iff]
  unfold removeHandler
  -- there is no such group, no such handler in it, or the handler is removed
  split
  · next hnone =>
    refine ⟨⟨fun _ hreg => ?_, fun _ => rfl⟩, nofun⟩
    obtain ⟨handlers, hsome, -⟩ := hmem.mp hreg
    cases hnone.symm.trans hsome
  · next handlers hsome =>
    split
    · next hin =>
      refine ⟨⟨nofun, fun hnot => absurd (hmem.mpr ⟨handlers, hsome, hin⟩) hnot⟩,
        fun groups' hgroups => ?_⟩
      cases hgroups
      refine lists_of_under (h.sorted.sublist (keys_remove_sublist handler group groups)) fun k =>
        ?_
      rw [under_flat_remove h.nodup]
      by_cases hk : group = k
      · subst hk
        rw [erase_under_self, erase_under_self, h.under]
      · rw [erase_under_of_ne hk, erase_under_of_ne hk, h.under]
    · next hin =>
      refine ⟨⟨fun _ hreg => ?_, fun _ => rfl⟩, nofun⟩
      obtain ⟨handlers', hsome', hin'⟩ := hmem.mp hreg
      cases hsome.symm.trans hsome'
      exact hin hin'

end Remove

end Pyrogram.Dispatcher
