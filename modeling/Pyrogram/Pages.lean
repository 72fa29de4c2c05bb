import Mathlib.Data.List.Nodup
import Mathlib.Data.Int.Order.Basic
import Mathlib.Tactic.Common

/-!
# Reading a list in pages

A page is a slice of a list, given by the position it starts at and its length; what lies
before the list or behind it is not returned.  A reader asks for one page after the other,
each at a fixed distance from the end of the last, until a page is empty or enough was
read.

## Main definitions

* `page` — a slice of a list.
* `Reads` — what a reader has read in the end.

## Main results

* `reverse_page`, `filter_page_append` — pages of a reversed list, and of a part of a list.
* `Reads.unique` — what is read is determined.
* `reads_iff` — **when a reader reads everything from a position on.**
-/

namespace Pages

variable {α : Type*} {l : List α} {start skip p : ℤ} {limit r : ℕ} {out : List α}

/-- The elements from `start` to `start + limit`. -/
def page (l : List α) (start : ℤ) (limit : ℕ) : List α :=
  (l.take (start + limit).toNat).drop start.toNat

theorem getElem?_page (i : ℕ) :
    (page l start limit)[i]? = if start.toNat + i < (start + limit).toNat then l[start.toNat + i]?
      else none := by
  rw [page, List.getElem?_drop, List.getElem?_take]

theorem length_page :
    (page l start limit).length = min (start + limit).toNat l.length - start.toNat := by
  rw [page, List.length_drop, List.length_take]

theorem page_eq_nil_iff : page l start limit = [] ↔
    min (start + limit).toNat l.length ≤ start.toNat := by
  rw [← List.length_eq_zero_iff, length_page, Nat.sub_eq_zero_iff_le]

theorem sublist_page : (page l start limit).Sublist l :=
  (List.drop_sublist _ _).trans (List.take_sublist _ _)

theorem getLast?_page (hpage : page l start limit ≠ []) :
    (page l start limit).getLast? = l[min (start + limit).toNat l.length - 1]? := by
  have hlt := mt page_eq_nil_iff.mpr hpage
  rw [List.getLast?_eq_getElem?, length_page, getElem?_page, if_pos (by omega)]
  congr 1
  omega

/-- The pages of a reversed list. -/
theorem reverse_page : (page l start limit).reverse =
    page l.reverse (l.length - start - limit) limit := by
  refine List.ext_getElem? fun i => ?_
  by_cases hi : i < (page l start limit).length
  · rw [List.getElem?_reverse hi, getElem?_page, getElem?_page, length_page]
    rw [length_page] at hi
    rw [if_pos (by omega), if_pos (by omega), List.getElem?_reverse (by omega)]
    congr 1
    omega
  · rw [List.getElem?_eq_none (by simpa using hi), getElem?_page]
    rw [length_page] at hi
    split
    · exact (List.getElem?_eq_none (by rw [List.length_reverse]; omega)).symm
    · rfl

theorem page_append (x y : List α) :
    page (x ++ y) start limit = page x start limit ++ page y (start - x.length) limit := by
  have hlimit : (start + limit).toNat - x.length = (start - x.length + limit).toNat := by omega
  rw [page, page, page, List.take_append, List.drop_append, List.length_take, hlimit]
  congr 1
  by_cases h : (start - x.length + limit).toNat = 0
  · rw [h, List.take_zero, List.drop_nil, List.drop_nil]
  · congr 1
    omega

/-- **The pages of a part of a list**: those of the whole list, without what lies before the
part or behind it. -/
theorem filter_page_append {P : α → Bool} {x y : List α} (hx : ∀ a ∈ x, P a = false)
    (hl : ∀ a ∈ l, P a = true)
    (hy : ∀ a ∈ y, P a = false) : (page (x ++ l ++ y) start limit).filter P =
      page l (start - x.length) limit := by
  have hnone : ∀ {z : List α} {start : ℤ}, (∀ a ∈ z, P a = false) →
      (page z start limit).filter P = [] := by
    intro z start hz
    refine List.filter_eq_nil_iff.mpr fun a ha => ?_
    rw [hz a (sublist_page.mem ha)]
    exact Bool.false_ne_true
  have hall : (page l (start - x.length) limit).filter P = page l (start - x.length) limit :=
    List.filter_eq_self.mpr fun a ha => hl a (sublist_page.mem ha)
  rw [page_append, page_append, List.filter_append, List.filter_append, hnone hx, hnone hy, hall,
    List.nil_append, List.append_nil]

/-! ### Reading -/

/-- What is read from a cursor on, with `r` elements still wanted.  A page starts at the
distance `skip` of the cursor, which moves to the end of the page. -/
inductive Reads (l : List α) (skip : ℤ) (limit : ℕ) : ℤ → ℕ → List α → Prop
  | empty {p : ℤ} {r : ℕ} (hpage : page l (p + skip) limit = []) : Reads l skip limit p r []
  | enough {p : ℤ} {r : ℕ} (hpage : page l (p + skip) limit ≠ [])
      (hr : r ≤ (page l (p + skip) limit).length) :
      Reads l skip limit p r ((page l (p + skip) limit).take r)
  | next {p : ℤ} {r : ℕ} {out : List α} (hpage : page l (p + skip) limit ≠ [])
      (hr : (page l (p + skip) limit).length < r)
      (hnext : Reads l skip limit (min (p + skip + limit) l.length)
        (r - (page l (p + skip) limit).length) out) :
      Reads l skip limit p r (page l (p + skip) limit ++ out)

theorem Reads.unique {out' : List α} (h : Reads l skip limit p r out)
    (h' : Reads l skip limit p r out') : out = out' := by
  induction h generalizing out' with
  | empty hpage =>
    cases h' with
    | empty => rfl
    | enough hne => exact absurd hpage hne
    | next hne => exact absurd hpage hne
  | enough hpage hr =>
    cases h' with
    | empty hnil => exact absurd hnil hpage
    | enough => rfl
    | next _ hlt => exact absurd hr (Nat.not_le_of_lt hlt)
  | next hpage hr _ ih =>
    cases h' with
    | empty hnil => exact absurd hnil hpage
    | enough _ hle => exact absurd hr (Nat.not_lt_of_le hle)
    | next _ _ hnext => rw [ih hnext]

theorem page_eq (l : List α) (start : ℤ) (limit : ℕ) :
    page l start limit = (l.drop start.toNat).take
      (min (start + limit).toNat l.length - start.toNat) := by
  rw [page, ← List.drop_take, ← List.take_take, List.take_length]

/-- What is read starts with the first page. -/
theorem Reads.head (h : Reads l skip limit p r out) (hpage : page l (p + skip) limit ≠ [])
    (hr : 0 < r) :
    out[0]? = l[(p + skip).toNat]? := by
  have hlt : (p + skip).toNat < min (p + skip + limit).toNat l.length := by
    by_contra hge
    exact hpage (page_eq_nil_iff.mpr (Nat.le_of_not_lt hge))
  have hfirst : (page l (p + skip) limit)[0]? = l[(p + skip).toNat]? := by
    rw [getElem?_page, if_pos (by omega), Nat.add_zero]
  cases h with
  | empty hnil => exact absurd hnil hpage
  | enough _ hle => rw [List.getElem?_take, if_pos hr, hfirst]
  | next _ hlt hnext => rw [List.getElem?_append_left (List.length_pos_iff.mpr hpage), hfirst]

theorem Reads.eq_nil (h : Reads l skip limit p r out) (hr : 0 < r) :
    out = [] ↔ page l (p + skip) limit = [] := by
  constructor
  · rintro rfl
    by_contra hpage
    have hhead := h.head hpage hr
    rw [page_eq_nil_iff] at hpage
    rw [List.getElem?_nil, eq_comm, List.getElem?_eq_none_iff] at hhead
    omega
  · intro hpage
    exact h.unique (.empty hpage)

/-- **Pages that follow one another** read everything. -/
theorem reads_take_drop (hlimit : 0 < limit) (q r : ℕ) :
    Reads l 0 limit q r ((l.drop q).take r) := by
  induction hn : l.length - q using Nat.strongRecOn generalizing q r with
  | ind n ih =>
    obtain ⟨m, hm⟩ : ∃ m, m = min ((q : ℤ) + 0 + limit).toNat l.length - q := ⟨_, rfl⟩
    have hpage : page l ((q : ℤ) + 0) limit = (l.drop q).take m := by
      rw [page_eq, hm]
      rfl
    have hlength : (page l ((q : ℤ) + 0) limit).length = m := length_page.trans hm.symm
    by_cases hq : l.length ≤ q
    · rw [List.drop_eq_nil_of_le hq, List.take_nil]
      exact .empty (List.length_eq_zero_iff.mp (by omega))
    · have hne : page l ((q : ℤ) + 0) limit ≠ [] := List.length_pos_iff.mp (by omega)
      by_cases hr : r ≤ m
      · have henough : Reads l 0 limit q r _ := .enough hne (hlength.symm ▸ hr)
        rwa [hpage, List.take_take, Nat.min_eq_left hr] at henough
      · have hcursor : min ((q : ℤ) + 0 + limit) l.length = ((q + m : ℕ) : ℤ) := by omega
        have hnext := ih (l.length - (q + m)) (by omega) (q + m) (r - m) rfl
        rw [← hcursor, ← hlength] at hnext
        have hread := Reads.next hne (by omega) hnext
        rwa [hlength, hpage, ← List.drop_drop, ← List.take_add,
          Nat.add_sub_cancel' (Nat.le_of_not_le hr)] at hread

/-- What is left after a page is read as it should be, if and only if no element is left
out, or nothing is left and the next page is empty. -/
theorem reads_rest_iff (hl : l.Nodup) (hlimit : 0 < limit) (hr : 0 < r) {q : ℕ} (hq : 0 < q)
    (hqn : q ≤ l.length) :
    Reads l skip limit q r ((l.drop q).take r) ↔
      skip = 0 ∨ q = l.length ∧ (0 ≤ skip ∨ l.length + skip + limit ≤ 0) := by
  constructor
  · intro h
    have hnil := h.eq_nil hr
    rw [List.take_eq_nil_iff, List.drop_eq_nil_iff, page_eq_nil_iff] at hnil
    by_cases hpage : page l (q + skip) limit = []
    · rw [page_eq_nil_iff] at hpage
      omega
    · have hhead := h.head hpage hr
      rw [page_eq_nil_iff] at hpage
      rw [List.getElem?_take, if_pos hr, List.getElem?_drop, Nat.add_zero] at hhead
      have hlt : q < l.length := by omega
      have heq := (List.getElem?_inj hlt hl).mp hhead
      omega
  · rintro (rfl | ⟨rfl, hskip⟩)
    · exact reads_take_drop hlimit q r
    · rw [List.drop_length, List.take_nil]
      refine .empty (page_eq_nil_iff.mpr ?_)
      omega

/-- **When a reader reads everything from a position on**: the first page starts there, and
what is left after it is read, or not wanted. -/
theorem reads_iff (hl : l.Nodup) (hlimit : 0 < limit) (hr : 0 < r) (p : ℤ) (d : ℕ) :
    Reads l skip limit p r ((l.drop d).take r) ↔
      if min (p + skip + limit).toNat l.length ≤ (p + skip).toNat then l.length ≤ d
      else (p + skip).toNat = d ∧ (r ≤ min (p + skip + limit).toNat l.length - d ∨ skip = 0 ∨
        l.length ≤ (p + skip + limit).toNat ∧ (0 ≤ skip ∨ l.length + skip + limit ≤ 0)) := by
  have hlength : (page l (p + skip) limit).length = min (p + skip + limit).toNat
      l.length - (p + skip).toNat := length_page
  -- the page is empty: nothing more is read
  split
  · next hnil =>
    have hpage : page l (p + skip) limit = [] := page_eq_nil_iff.mpr hnil
    constructor
    · intro h
      simpa [Nat.ne_of_gt hr] using (h.eq_nil hr).mpr hpage
    · intro hd
      rw [List.drop_eq_nil_of_le hd, List.take_nil]
      exact .empty hpage
  · next hlt =>
    have hpage : page l (p + skip) limit ≠ [] := fun h => hlt (page_eq_nil_iff.mp h)
    -- the page begins where the window does, or the first item differs
    by_cases hd : (p + skip).toNat = d
    · subst hd
      obtain ⟨q, hq⟩ : ∃ q, q = min (p + skip + limit).toNat l.length := ⟨_, rfl⟩
      rw [← hq] at hlength hlt ⊢
      have heq : page l (p + skip) limit = (l.drop (p + skip).toNat).take
          (q - (p + skip).toNat) := by
        rw [page_eq, hq]
      by_cases hle : r ≤ q - (p + skip).toNat
      · refine iff_of_true ?_ ⟨rfl, Or.inl hle⟩
        -- the page is too short, so the rest is read behind it
        have henough : Reads l skip limit p r _ := .enough hpage (hlength.symm ▸ hle)
        rwa [heq, List.take_take, Nat.min_eq_left hle] at henough
      · have hcursor : min (p + skip + limit) l.length = (q : ℤ) := by omega
        have hsplit : (l.drop (p + skip).toNat).take r =
            page l (p + skip) limit ++ (l.drop q).take (r - (q - (p + skip).toNat)) := by
          rw [heq, show q = (p + skip).toNat + (q - (p + skip).toNat) by
            omega, ← List.drop_drop, Nat.add_sub_cancel_left,
            ← List.take_add, Nat.add_sub_cancel' (Nat.le_of_not_le hle)]
        have hrest : Reads l skip limit q (r - (q - (p + skip).toNat)) _ ↔ _ :=
          reads_rest_iff hl hlimit (by omega) (show 0 < q by omega) (by omega)
        have hfull : l.length ≤ (p + skip + limit).toNat ↔ q = l.length := by omega
        simp only [hle, false_or, true_and, hfull]
        rw [← hrest, hsplit]
        constructor
        · intro h
          generalize hout : page l (p + skip) limit ++ _ = out at h
          cases h with
          | empty hnil => exact absurd hnil hpage
          | enough _ henough => exact absurd (hlength ▸ henough) hle
          | next _ _ hnext =>
            rw [hcursor, hlength] at hnext
            rwa [List.append_cancel_left hout]
        · intro h
          rw [← hcursor, ← hlength] at h
          exact .next hpage (by omega) (hlength ▸ h)
    · refine iff_of_false ?_ fun h => hd h.1
      intro h
      have hhead := h.head hpage hr
      rw [List.getElem?_take, if_pos hr, List.getElem?_drop, Nat.add_zero] at hhead
      exact hd ((List.getElem?_inj (by omega) hl).mp hhead.symm)

end Pages
