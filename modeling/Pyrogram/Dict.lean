import Pyrogram.ByKey
import Mathlib.Data.List.Induction
import Mathlib.Data.List.Nodup

/-!
# Dictionaries in insertion order

A dictionary is the list of its items in the order in which the keys came in; to set a key again
changes the value in its place.

## Main definitions

* `set`, `get` — writing and reading a key.
* `ofList` — the items of a list, one after the other.
* `fromKeys` — the keys of a list, each where it is first.

## Main results

* `get_set` — what is read after a write.
* `get_ofList` — a list's last item of a key is the one that is read.
* `mem_ofList_iff` — the items are what `get` finds.
* `perm_fromKeys_cons` — a key set before the others comes first, and none is lost.
-/

namespace Dict

open ByKey

variable {κ ν : Type*} [LinearOrder κ]

/-- `d[k] = v` -/
def set (k : κ) (v : ν) : List (κ × ν) → List (κ × ν)
  | [] => [(k, v)]
  | e :: d => if e.1 = k then (k, v) :: d else e :: set k v d

/-- `d.get(k)` -/
def get (k : κ) : List (κ × ν) → Option ν
  | [] => none
  | e :: d => if e.1 = k then some e.2 else get k d

/-- The items of a list set one after the other. -/
def ofList (l : List (κ × ν)) : List (κ × ν) := l.foldl (fun d e => set e.1 e.2 d) []

variable {k k' : κ} {v : ν} {d l : List (κ × ν)}

/-- **What is read after a write.** -/
theorem get_set (k k' : κ) (v : ν) (d : List (κ × ν)) : get k' (set k v d) = if k' = k then some v
    else get k' d := by
  induction d with
  | nil => simp [set, get, eq_comm]
  | cons e d ih =>
    by_cases he : e.1 = k
    · by_cases hk : k' = k
      · simp [set, get, he, hk]
      · have : ¬ k = k' := fun h => hk h.symm
        simp [set, get, he, hk, this]
    · by_cases hk : e.1 = k'
      · have : ¬ k' = k := fun h => he (hk.trans h)
        simp [set, get, hk, this]
      · simp [set, get, he, hk, ih]

theorem mem_keys_set : k' ∈ (set k v d).map Prod.fst ↔ k' = k ∨ k' ∈ d.map Prod.fst := by
  induction d with
  | nil => simp [set]
  | cons e d ih =>
    by_cases he : e.1 = k
    · simp [set, he]
    · simp only [set, he, if_false, List.map_cons, List.mem_cons, ih]
      exact or_left_comm

/-- No key is there twice. -/
theorem nodup_set (h : (d.map Prod.fst).Nodup) : ((set k v d).map Prod.fst).Nodup := by
  induction d with
  | nil => simp [set]
  | cons e d ih =>
    rw [List.map_cons, List.nodup_cons] at h
    by_cases he : e.1 = k
    · simpa [set, he] using ⟨by simpa [he] using h.1, h.2⟩
    · simp only [set, he, if_false, List.map_cons, List.nodup_cons]
      exact ⟨fun hmem => (mem_keys_set.mp hmem).elim he h.1, ih h.2⟩

/-- An item is one that is read. -/
theorem mem_iff_get (h : (d.map Prod.fst).Nodup) : (k, v) ∈ d ↔ get k d = some v := by
  induction d with
  | nil => simp [get]
  | cons e d ih =>
    obtain ⟨hnot, hd⟩ := List.nodup_cons.mp h
    by_cases he : e.1 = k
    · have hmem : (k, v) ∉ d := fun hm => hnot (he ▸ List.mem_map_of_mem hm)
      simp only [List.mem_cons, hmem, or_false, get, if_pos he, Option.some.injEq]
      exact ⟨fun h => h ▸ rfl, fun h => Prod.ext he.symm h.symm⟩
    · have hne : (k, v) ≠ e := fun h => he (h ▸ rfl)
      simp [get, he, hne, ih hd]

theorem ofList_concat (l : List (κ × ν)) (e : κ × ν) :
    ofList (l ++ [e]) = set e.1 e.2 (ofList l) := by
  simp [ofList]

theorem nodup_ofList (l : List (κ × ν)) : ((ofList l).map Prod.fst).Nodup := by
  induction l using List.reverseRecOn with
  | nil => exact List.nodup_nil
  | append_singleton l e ih => exact ofList_concat l e ▸ nodup_set ih

/-- **The last item of a key is the one that is read.** -/
theorem get_ofList (k : κ) (l : List (κ × ν)) :
    get k (ofList l) = (latest Prod.fst k l).map Prod.snd := by
  induction l using List.reverseRecOn with
  | nil => rfl
  | append_singleton l e ih =>
    rw [ofList_concat, get_set, latest_append, ih]
    by_cases he : k = e.1
    · subst he
      simp [latest, under]
    · have : ¬ e.1 = k := fun h => he h.symm
      simp [latest, under, he, this]

theorem mem_ofList_iff : (k, v) ∈ ofList l ↔ (latest Prod.fst k l).map Prod.snd = some v := by
  rw [mem_iff_get (nodup_ofList l), get_ofList]

theorem mem_of_mem_ofList (h : (k, v) ∈ ofList l) : (k, v) ∈ l := by
  obtain ⟨e, he, rfl⟩ := Option.map_eq_some_iff.mp (mem_ofList_iff.mp h)
  obtain rfl := key_of_latest he
  exact mem_of_latest he

/-! ### Keys -/

section Keys

variable {κ : Type*} [DecidableEq κ] {k : κ} {l : List κ}

/-- `dict.fromkeys(l)` -/
def fromKeys : List κ → List κ
  | [] => []
  | k :: l => k :: (fromKeys l).filter (· ≠ k)

theorem mem_fromKeys {a : κ} : a ∈ fromKeys l ↔ a ∈ l := by
  induction l with
  | nil => rfl
  | cons k l ih =>
    by_cases ha : a = k
    · simp [fromKeys, ha]
    · simp [fromKeys, ha, ih]

theorem nodup_fromKeys (l : List κ) : (fromKeys l).Nodup := by
  induction l with
  | nil => exact List.nodup_nil
  | cons k l ih =>
    have hnot : k ∉ (fromKeys l).filter (· ≠ k) := by simp
    exact List.nodup_cons.mpr ⟨hnot, ih.filter _⟩

theorem fromKeys_of_nodup (h : l.Nodup) : fromKeys l = l := by
  induction l with
  | nil => rfl
  | cons k l ih =>
    obtain ⟨hnot, hl⟩ := List.nodup_cons.mp h
    have hne : ∀ a ∈ l, decide (a ≠ k) = true := by
      intro a ha
      exact decide_eq_true (ne_of_mem_of_not_mem ha hnot)
    rw [fromKeys, ih hl, List.filter_eq_self.mpr hne]

/-- **A key set before the others comes first**, and none is lost. -/
theorem perm_fromKeys_cons (h : k ∈ l) : (fromKeys (k :: l)).Perm (fromKeys l) := by
  refine (List.perm_ext_iff_of_nodup (nodup_fromKeys _) (nodup_fromKeys _)).mpr ?_
  intro a
  rw [mem_fromKeys, mem_fromKeys, List.mem_cons]
  exact or_iff_right_of_imp fun ha => ha ▸ h

/-- The others keep their order. -/
theorem fromKeys_cons_of_nodup (h : l.Nodup) : fromKeys (k :: l) = k :: l.filter (· ≠ k) := by
  rw [fromKeys, fromKeys_of_nodup h]

end Keys

end Dict
