import Mathlib.Data.List.Sort
import Mathlib.Order.Lattice

/-!
# Lists in the order of a key

A list may be put into the order of a key without changing the order of entries that share
one.  Such a list is known by its keys: what it holds under each of them says which list it is.

## Main definitions

* `byKey` — a list in the order of a key.
* `under` — what a list holds under a key.
* `latest` — the last entry under a key.
* `IsLastMax` — the last of the entries with the largest key.

## Main results

* `under_byKey` — the entries of a key keep their order.
* `eq_of_under` — **a list in key order is known by what it holds under each key.**
* `getLast?_byKey` — the last entry in the order of a key is the last of the largest.
-/

namespace ByKey

variable {α κ : Type*} [LinearOrder κ] (key : α → κ)

/-- The list in the order of the key, stably. -/
def byKey (l : List α) : List α := l.insertionSort fun a b => key a ≤ key b

/-- What the list holds under a key. -/
def under (k : κ) (l : List α) : List α := l.filter fun a => key a = k

theorem pairwise_byKey (l : List α) : (byKey key l).Pairwise fun a b => key a ≤ key b := by
  have : IsTrans α fun a b => key a ≤ key b := ⟨fun _ _ _ => le_trans⟩
  have : Std.Total fun a b : α => key a ≤ key b := ⟨fun a b => le_total (key a) (key b)⟩
  exact List.pairwise_insertionSort _ l

theorem perm_byKey (l : List α) : (byKey key l).Perm l := List.perm_insertionSort _ l

variable {key}

theorem under_append (k : κ) (l l' : List α) :
    under key k (l ++ l') = under key k l ++ under key k l' :=
  List.filter_append _ _

theorem under_cons_of_eq {k : κ} {a : α} (h : key a = k) (l : List α) :
    under key k (a :: l) = a :: under key k l :=
  List.filter_cons_of_pos (by simpa using h)

theorem under_cons_self (a : α) (l : List α) :
    under key (key a) (a :: l) = a :: under key (key a) l :=
  under_cons_of_eq rfl l

theorem under_cons_of_ne {k : κ} {a : α} (h : key a ≠ k) (l : List α) :
    under key k (a :: l) = under key k l :=
  List.filter_cons_of_neg (by simpa using h)

theorem mem_under {k : κ} {a : α} {l : List α} : a ∈ under key k l ↔ a ∈ l ∧ key a = k := by
  simp [under]

/-- **The entries of a key keep their order.** -/
theorem under_byKey (k : κ) (l : List α) : under key k (byKey key l) = under key k l := by
  have : IsTrans α fun a b => key a ≤ key b := ⟨fun _ _ _ => le_trans⟩
  have : Std.Total fun a b : α => key a ≤ key b := ⟨fun a b => le_total (key a) (key b)⟩
  have hpairwise : (under key k l).Pairwise fun a b => key a ≤ key b := by
    refine List.pairwise_of_forall_mem_list fun a ha b hb => ?_
    exact ((mem_under.mp ha).2.trans (mem_under.mp hb).2.symm).le
  have hsublist : (under key k l).Sublist (byKey key l) :=
    List.sublist_insertionSort hpairwise List.filter_sublist
  have hfilter : (under key k l).Sublist (under key k (byKey key l)) := by
    have hself : under key k (under key k l) = under key k l := by
      simp [under]
    exact hself ▸ hsublist.filter _
  exact (hfilter.eq_of_length ((perm_byKey key l).symm.filter _).length_eq).symm

/-- **A list in key order is known by what it holds under each key.** -/
theorem eq_of_under : ∀ {l l' : List α}, l.Pairwise (fun a b => key a ≤ key b) →
    l'.Pairwise (fun a b => key a ≤ key b) → (∀ k, under key k l = under key k l') → l = l' := by
  intro l
  induction l with
  | nil =>
    intro l' _ _ h
    cases l' with
    | nil => rfl
    | cons b l' =>
      have hb := h (key b)
      rw [under_cons_self] at hb
      cases hb
  | cons a l ih =>
    intro l' hl hl' h
    cases l' with
    | nil =>
      have ha := h (key a)
      rw [under_cons_self] at ha
      cases ha
    | cons b l' =>
      have hle : ∀ {a b : α} {l l' : List α}, (a :: l).Pairwise (fun a b => key a ≤ key b) →
          (∀ k, under key k (a :: l) = under key k (b :: l')) → key a ≤ key b := by
        intro a b l l' hl h
        have hb : b ∈ under key (key b) (a :: l) := by
          rw [h, under_cons_self]
          exact List.mem_cons_self
        rcases List.mem_cons.mp (mem_under.mp hb).1 with rfl | hmem
        · exact le_rfl
        · exact List.rel_of_pairwise_cons hl hmem
      have hkey : key a = key b := le_antisymm (hle hl h) (hle hl' fun k => (h k).symm)
      have hhead := h (key a)
      rw [under_cons_self, hkey, under_cons_self] at hhead
      obtain ⟨rfl, htail⟩ := List.cons.inj hhead
      refine congrArg (a :: ·) (ih hl.of_cons hl'.of_cons fun k => ?_)
      by_cases hk : key a = k
      · exact hk ▸ htail
      · have hrest := h k
        rwa [under_cons_of_ne hk, under_cons_of_ne hk] at hrest

/-- A list in key order is another one put into that order. -/
theorem eq_byKey {l l' : List α} (hl : l.Pairwise fun a b => key a ≤ key b)
    (h : ∀ k, under key k l = under key k l') : l = byKey key l' :=
  eq_of_under hl (pairwise_byKey key l') fun k => (h k).trans (under_byKey k l').symm

/-! ### The last entry under a key -/

/-- What a table that is filled in the order of the list keeps under a key. -/
def latest (key : α → κ) (k : κ) (l : List α) : Option α := (under key k l).getLast?

@[simp] theorem latest_nil (k : κ) : latest key k [] = none := rfl

theorem mem_under_of_latest {k : κ} {a : α} {l : List α} (h : latest key k l = some a) :
    a ∈ under key k l :=
  List.mem_of_getLast? h

theorem mem_of_latest {k : κ} {a : α} {l : List α} (h : latest key k l = some a) : a ∈ l :=
  (mem_under.mp (mem_under_of_latest h)).1

theorem key_of_latest {k : κ} {a : α} {l : List α} (h : latest key k l = some a) : key a = k :=
  (mem_under.mp (mem_under_of_latest h)).2

theorem latest_eq_none_iff {k : κ} {l : List α} : latest key k l = none ↔ ∀ a ∈ l, key a ≠ k := by
  simp [latest, under]

theorem latest_append (k : κ) (l l' : List α) :
    latest key k (l ++ l') = (latest key k l').or (latest key k l) := by
  rw [latest, under_append, List.getLast?_append]
  rfl

/-- The last entry of all is the last of those that are left, if it is one of them. -/
theorem latest_filter {P : α → Bool} {k : κ} {a : α} {l : List α} (h : latest key k l = some a)
    (hP : P a = true) :
    latest key k (l.filter P) = some a := by
  obtain ⟨before, hl⟩ := List.getLast?_eq_some_iff.mp h
  have hunder : under key k (l.filter P) = (under key k l).filter P := by
    simp only [under, List.filter_filter, Bool.and_comm]
  rw [latest, hunder, hl, List.filter_append, List.filter_cons_of_pos hP, List.filter_nil]
  exact List.getLast?_concat

/-! ### The last of the largest -/

/-- The entry with the largest key, and the last of those. -/
def IsLastMax (key : α → κ) (l : List α) (a : α) : Prop :=
  ∃ pre post, l = pre ++ a :: post ∧ (∀ b ∈ pre, key b ≤ key a) ∧ ∀ b ∈ post, key b < key a

theorem IsLastMax.mem {l : List α} {a : α} (h : IsLastMax key l a) : a ∈ l := by
  obtain ⟨pre, post, rfl, -⟩ := h
  exact List.mem_append_right pre List.mem_cons_self

theorem IsLastMax.le {l : List α} {a b : α} (h : IsLastMax key l a) (hb : b ∈ l) :
    key b ≤ key a := by
  obtain ⟨pre, post, rfl, hpre, hpost⟩ := h
  rcases List.mem_append.mp hb with hb | hb
  · exact hpre b hb
  · rcases List.mem_cons.mp hb with rfl | hb
    · exact le_rfl
    · exact (hpost b hb).le

theorem exists_isLastMax : ∀ {l : List α}, l ≠ [] → ∃ a, IsLastMax key l a
  | [], h => absurd rfl h
  | [a], _ => ⟨a, [], [], rfl, by simp, by simp⟩
  | a :: b :: l, _ => by
    obtain ⟨c, hc⟩ := exists_isLastMax (List.cons_ne_nil b l)
    by_cases hle : key a ≤ key c
    · obtain ⟨pre, post, hsplit, hpre, hpost⟩ := hc
      refine ⟨c, a :: pre, post, by rw [hsplit]; rfl, ?_, hpost⟩
      rintro a' (_ | ⟨_, ha'⟩)
      · exact hle
      · exact hpre a' ha'
    · refine ⟨a, [], b :: l, rfl, by simp, ?_⟩
      intro b' hb'
      exact (hc.le hb').trans_lt (not_le.mp hle)

/-- **The last entry in the order of a key is the last of the largest.** -/
theorem getLast?_byKey {l : List α} {a : α} : (byKey key l).getLast? = some a ↔
    IsLastMax key l a := by
  have hlast : ∀ {a : α}, IsLastMax key l a → (byKey key l).getLast? = some a := by
    intro a h
    have hmem := (perm_byKey key l).mem_iff.mpr h.mem
    obtain ⟨init, last, hsplit⟩ :=
      List.eq_nil_or_concat' _ |>.resolve_left (List.ne_nil_of_mem hmem)
    have hle : key a ≤ key last := by
      rw [hsplit] at hmem
      have hpairwise := pairwise_byKey key l
      rw [hsplit] at hpairwise
      rcases List.mem_append.mp hmem with hinit | hinit
      · exact (List.pairwise_append.mp hpairwise).2.2 a hinit last List.mem_cons_self
      · rw [List.mem_singleton.mp hinit]
    have hge : key last ≤ key a :=
      h.le ((perm_byKey key l).mem_iff.mp (hsplit ▸ List.mem_append_right init List.mem_cons_self))
    -- both are the last under the largest key
    have hunder : (under key (key a) (byKey key l)).getLast? = (under key (key a) l).getLast? :=
      congrArg List.getLast? (under_byKey (key a) l)
    obtain ⟨pre, post, rfl, -, hpost⟩ := h
    have hnone : under key (key a) post = [] :=
      List.filter_eq_nil_iff.mpr fun b hb => by simpa using (hpost b hb).ne
    rw [hsplit, under_append, under_append, under_cons_of_eq (le_antisymm hge hle),
      under_cons_self, hnone,
      List.getLast?_append, List.getLast?_append] at hunder
    rw [hsplit, List.getLast?_concat]
    exact hunder
  refine ⟨?_, hlast⟩
  intro h
  have hne : l ≠ [] := by
    rintro rfl
    cases h
  obtain ⟨b, hb⟩ : ∃ b, IsLastMax key l b := exists_isLastMax hne
  cases (hlast hb).symm.trans h
  exact hb

end ByKey
