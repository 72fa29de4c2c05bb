import Pyrogram.Pages
import Mathlib.Algebra.Order.Group.Nat
import Mathlib.Data.Int.Order.Basic
import Mathlib.Data.List.Perm.Subperm

/-!
# Chat histories

`get_chat_history` asks for pages of a hundred messages at most.  It makes the bounds
exclusive, starts at one of them, and goes on from the last message of a page; `offset`, in
reverse less the length of a page, is part of every request.

A message is its id.  The server returns a slice of the history, newest first: it counts the
messages whose id is `offset_id` or larger, skips as many and `add_offset` more, and takes
`limit`.  Whether `min_id` and `max_id` bound the messages that are counted, or those that
were taken, is left open.  There is no `offset_date`; `offset_id` is overwritten.

## Main definitions

* `GetHistory.answer` — what the server returns.
* `getChunk`, `getChatHistory` — what is yielded.
* `Query.requested` — the messages that are asked for.

## Main results

* `yields_iff_reads` — the pages of the history are pages of the window.
* `yields_requested_iff` — **when the messages that are asked for are yielded.**
* `offset_repeated` — the second page skips a message again.
-/

namespace Pyrogram

open Pages

namespace ChatHistory

/-! ### The server -/

/-- The ids of the messages of a chat, newest first. -/
structure History where
  ids : List ℕ
  sorted : ids.Pairwise (· > ·)
  int : ∀ id ∈ ids, 0 < id ∧ id < 2 ^ 31

/-- `messages.GetHistory`. -/
structure GetHistory where
  offsetId : ℕ
  addOffset : ℤ
  limit : ℕ
  maxId : ℕ
  minId : ℕ
  deriving DecidableEq, Repr

/-- What `min_id` and `max_id` bound. -/
inductive Bounded
  /-- The list that the slice is taken out of. -/
  | list
  /-- The slice. -/
  | slice
  deriving DecidableEq, Repr

namespace GetHistory

def admits (r : GetHistory) (id : ℕ) : Bool :=
  (r.minId = 0 || r.minId < id) && (r.maxId = 0 || id < r.maxId)

def position (r : GetHistory) (ids : List ℕ) : ℕ := if r.offsetId = 0 then 0
    else ids.countP (r.offsetId ≤ ·)

def slice (r : GetHistory) (ids : List ℕ) : List ℕ :=
  page ids (r.position ids + r.addOffset) r.limit

def answer (bounded : Bounded) (ids : List ℕ) (r : GetHistory) : List ℕ :=
  match bounded with
  | .list => r.slice (ids.filter r.admits)
  | .slice => (r.slice ids).filter r.admits

end GetHistory

/-! ### The client -/

/-- The arguments. -/
structure Query where
  limit : ℕ := 0
  offset : ℤ := 0
  minId : ℕ := 0
  maxId : ℕ := 0
  reverse : Bool := false
  deriving DecidableEq, Repr

def getChunk (server : GetHistory → List ℕ) (limit : ℕ) (offset : ℤ) (offsetId minId maxId : ℕ)
    (reverse : Bool) :
    List ℕ :=
  let offsetId :=
    if (minId ≠ 0 ∨ maxId ≠ 0) ∧ offsetId = 0 then if maxId ≠ 0 then maxId + 1 else 0 else offsetId
  let offsetId := if minId ≠ 0 ∧ maxId ≠ 0 ∧ offsetId = 0 then maxId + 1 else offsetId
  let messages := server { offsetId, addOffset := offset, limit, maxId, minId }
  if reverse then messages.reverse else messages

/-- The `for` loop: what it yields, `current` after it, and whether it has returned. -/
def yieldMessages (total : ℕ) : ℕ → List ℕ → List ℕ × ℕ × Bool
  | current, [] => ([], current, false)
  | current, message :: messages =>
      if total ≤ current + 1 then ([message], current + 1, true)
      else
        let (yielded, current', returned) := yieldMessages total (current + 1) messages
        (message :: yielded, current', returned)

/-- The `while` loop, for a number of turns at most. -/
def yieldChunks (chunk : ℕ → List ℕ) (total : ℕ) (reverse : Bool) : ℕ → ℕ → ℕ → Option (List ℕ)
  | 0, _, _ => none
  | fuel + 1, offsetId, current =>
      match (chunk offsetId).getLast? with
      | none => some []
      | some last =>
          match yieldMessages total current (chunk offsetId) with
          | (yielded, _, true) => some yielded
          | (yielded, current', false) =>
              (yieldChunks chunk total reverse fuel (last + if reverse then 1 else 0) current').map
                (yielded ++ ·)

def Query.total (q : Query) : ℕ := if q.limit = 0 then 2 ^ 31 - 1 else q.limit

/-- `get_chat_history`; `none` where it goes on after a number of requests. -/
def getChatHistory (server : GetHistory → List ℕ) (q : Query) (fuel : ℕ) : Option (List ℕ) :=
  let limit := min 100 q.total
  let minId := if q.minId ≠ 0 then q.minId - 1 else 0
  let maxId := if q.maxId ≠ 0 then q.maxId + 1 else 0
  let offset := if q.reverse then q.offset - limit else q.offset
  let offsetId := if q.reverse then if minId ≠ 0 then minId else 1 else if maxId ≠ 0 then maxId
    else 0
  yieldChunks (fun offsetId => getChunk server limit offset offsetId minId maxId q.reverse) q.total
    q.reverse fuel
    offsetId 0

/-! ### What is asked for -/

def Query.within (q : Query) (id : ℕ) : Bool := q.minId ≤ id && (q.maxId = 0 || id ≤ q.maxId)

/-- The messages between the bounds, in the direction that is asked for. -/
def Query.window (q : Query) (h : History) : List ℕ :=
  if q.reverse then (h.ids.filter q.within).reverse else h.ids.filter q.within

def Query.requested (q : Query) (h : History) : List ℕ :=
  let messages := (q.window h).drop q.offset.toNat
  if q.limit = 0 then messages else messages.take q.limit

/-! ### The loop -/

theorem yieldMessages_eq {total current : ℕ} (h : current < total) (messages : List ℕ) :
    yieldMessages total current messages =
      (messages.take (total - current), min total (current + messages.length),
        decide (total ≤ current + messages.length)) := by
  induction messages generalizing current with
  | nil => simp [yieldMessages]; omega
  | cons message messages ih =>
    rw [yieldMessages]
    split
    · next hle =>
      obtain rfl : total = current + 1 := by omega
      simp
    · next hlt =>
      rw [ih (by omega), show total - current = (total - (current + 1)) + 1 by omega]
      simp [List.take_succ_cons, Nat.add_assoc, Nat.add_comm 1]

/-- **The loop reads a list in pages**, where its chunks are the pages. -/
theorem yields_iff_reads {chunk : ℕ → List ℕ} {reverse : Bool} {l : List ℕ} {skip p : ℤ}
    {limit total current offsetId : ℕ}
    (hchunk : ∀ i a, l[i]? = some a → chunk (a + if reverse then 1 else 0) = page l
      ((i + 1 : ℕ) + skip) limit)
    (hfirst : chunk offsetId = page l (p + skip) limit) (hcurrent : current < total)
    {out : List ℕ} :
    (∃ fuel, yieldChunks chunk total reverse fuel offsetId current = some out) ↔
      Reads l skip limit p (total - current) out := by
  -- The chunk that follows a page is the one at its end.
  have hnext : ∀ {p : ℤ} {a : ℕ}, (page l (p + skip) limit).getLast? = some a →
      chunk (a + if reverse then 1 else 0) =
        page l (min (p + skip + limit) l.length + skip) limit := by
    intro p a ha
    have hne : page l (p + skip) limit ≠ [] := by
      rintro hnil
      rw [hnil] at ha
      cases ha
    have hlt := mt page_eq_nil_iff.mpr hne
    rw [getLast?_page hne] at ha
    rw [hchunk _ a ha]
    congr 2
    omega
  constructor
  · rintro ⟨fuel, h⟩
    induction fuel generalizing offsetId p current out with
    | zero => cases h
    | succ fuel ih =>
      rw [yieldChunks, hfirst] at h
      cases hlast : (page l (p + skip) limit).getLast? with
      | none =>
        rw [hlast] at h
        cases h
        exact .empty (List.getLast?_eq_none_iff.mp hlast)
      | some last =>
        have hne : page l (p + skip) limit ≠ [] := fun hnil => by rw [hnil] at hlast; cases hlast
        rw [hlast, yieldMessages_eq hcurrent] at h
        by_cases hle : total ≤ current + (page l (p + skip) limit).length
        · simp only [hle, decide_true, Option.some.injEq] at h
          subst h
          exact .enough hne (by omega)
        · simp only [hle, decide_false] at h
          obtain ⟨rest, hrest, rfl⟩ := Option.map_eq_some_iff.mp h
          have hcount : min total (current + (page l (p + skip) limit).length) =
              current + (page l (p + skip) limit).length := by omega
          rw [hcount] at hrest
          have hread := ih (hnext hlast) (by omega) hrest
          rw [← Nat.sub_sub] at hread
          rw [List.take_of_length_le (by omega)]
          exact .next hne (by omega) hread
  · intro h
    generalize hr : total - current = r at h
    induction h generalizing offsetId current with
    | empty hpage => exact ⟨1, by rw [yieldChunks, hfirst, hpage]; rfl⟩
    | @enough p r hne hle =>
      obtain ⟨last, hlast⟩ := Option.ne_none_iff_exists'.mp (mt List.getLast?_eq_none_iff.mp hne)
      refine ⟨1, ?_⟩
      have henough : total ≤ current + (page l (p + skip) limit).length := by omega
      rw [yieldChunks, hfirst, hlast, yieldMessages_eq hcurrent, hr]
      simp only [henough, decide_true]
    | @next p r out hne hlt _ ih =>
      obtain ⟨last, hlast⟩ := Option.ne_none_iff_exists'.mp (mt List.getLast?_eq_none_iff.mp hne)
      have hmore : ¬ total ≤ current + (page l (p + skip) limit).length := by omega
      have hcount : min total (current + (page l (p + skip) limit).length) =
          current + (page l (p + skip) limit).length := by omega
      have hless : total - (current + (page l (p + skip) limit).length) =
          r - (page l (p + skip) limit).length := by omega
      obtain ⟨fuel, hfuel⟩ := ih (hnext hlast) (by omega) hless
      refine ⟨fuel + 1, ?_⟩
      rw [yieldChunks, hfirst, hlast, yieldMessages_eq hcurrent, hcount]
      simp only [hmore, decide_false]
      rw [hfuel, List.take_of_length_le (by omega)]
      rfl

/-! ### Positions in the history -/

theorem countP_of_getElem? {l : List ℕ} (hl : l.Pairwise (· > ·)) {i a : ℕ} (h : l[i]? = some a) :
    l.countP (a ≤ ·) = i + 1 ∧ l.countP (a + 1 ≤ ·) = i := by
  induction l generalizing i with
  | nil => cases h
  | cons b l ih =>
    obtain ⟨hb, hl⟩ := List.pairwise_cons.mp hl
    cases i with
    | zero =>
      obtain rfl : b = a := Option.some.inj h
      have hle : l.countP (b ≤ ·) = 0 := List.countP_eq_zero.mpr fun c hc => by simpa using hb c hc
      have hlt : l.countP (b + 1 ≤ ·) = 0 :=
        List.countP_eq_zero.mpr fun c hc => by simpa using Nat.lt_succ_of_lt (hb c hc)
      rw [List.countP_cons_of_pos (by simp), List.countP_cons_of_neg (by simp), hle, hlt]
      exact ⟨rfl, rfl⟩
    | succ i =>
      have hab : a < b := hb a (List.mem_of_getElem? h)
      obtain ⟨hle, hlt⟩ := ih hl h
      rw [List.countP_cons_of_pos (by simpa using hab.le),
        List.countP_cons_of_pos (by simpa using Nat.succ_le_of_lt hab), hle, hlt]
      exact ⟨rfl, rfl⟩

/-- A list in falling order starts with what is above a bound. -/
theorem eq_filter_append_filter {l : List ℕ} (hl : l.Pairwise (· > ·)) {P : ℕ → Bool}
    (hP : ∀ {a b : ℕ}, b < a → P b = true → P a = true) : l = l.filter P ++ l.filter (!P ·) := by
  induction l with
  | nil => rfl
  | cons a l ih =>
    obtain ⟨ha, hl⟩ := List.pairwise_cons.mp hl
    cases hPa : P a with
    | true => simpa [hPa] using ih hl
    | false =>
      have hnone : l.filter P = [] := List.filter_eq_nil_iff.mpr fun b hb hPb => by
        rw [hP (ha b hb) hPb] at hPa
        cases hPa
      have hall : l.filter (!P ·) = l := List.filter_eq_self.mpr fun b hb => by
        have := List.filter_eq_nil_iff.mp hnone b hb
        simpa using this
      simp [hPa, hnone, hall]

variable {bounded : Bounded} {h : History} {q : Query} {newer older : List ℕ}

/-- The window lies between newer and older messages. -/
structure Split (h : History) (q : Query) (newer older : List ℕ) : Prop where
  ids : h.ids = newer ++ h.ids.filter q.within ++ older
  newer : ∀ id ∈ newer, q.maxId ≠ 0 ∧ q.maxId < id
  older : ∀ id ∈ older, id < q.minId ∧ (q.maxId = 0 ∨ id ≤ q.maxId)

theorem exists_split (h : History) (q : Query) : ∃ newer older, Split h q newer older := by
  have hsplit := eq_filter_append_filter (P := fun id => decide (q.maxId ≠ 0 ∧ q.maxId < id))
    h.sorted
    (by simp only [decide_eq_true_eq]; omega)
  have hrest := eq_filter_append_filter (P := fun id => decide (q.minId ≤ id))
    (h.sorted.filter fun id => !decide (q.maxId ≠ 0 ∧ q.maxId < id))
    (by simp only [decide_eq_true_eq]; omega)
  have hwithin : (h.ids.filter fun id => !decide (q.maxId ≠ 0 ∧ q.maxId < id)).filter
    (fun id => decide (q.minId ≤ id)) =
      h.ids.filter q.within := by
    rw [List.filter_filter]
    refine List.filter_congr fun id _ => ?_
    rw [Bool.eq_iff_iff]
    simp [Query.within]
  rw [hwithin] at hrest
  rw [hrest, ← List.append_assoc] at hsplit
  refine ⟨_, _, hsplit, ?_, ?_⟩
  · intro a ha
    simpa using (List.mem_filter.mp ha).2
  · intro a ha
    obtain ⟨ha, hmin⟩ := List.mem_filter.mp ha
    have hmax := (List.mem_filter.mp ha).2
    simp at hmin hmax
    omega

/-! ### The requests of a query -/

/-- The request for a page, with the bounds made exclusive. -/
def Query.request (q : Query) (offset : ℤ) (offsetId : ℕ) : GetHistory where
  offsetId
  addOffset := offset
  limit := min 100 q.total
  maxId := if q.maxId ≠ 0 then q.maxId + 1 else 0
  minId := if q.minId ≠ 0 then q.minId - 1 else 0

/-- What `getChunk` makes of the offset does not matter for a query. -/
theorem getChunk_eq (server : GetHistory → List ℕ) (q : Query) (offset : ℤ) {offsetId : ℕ}
    (h : offsetId = 0 → q.maxId = 0) (reverse : Bool) :
    getChunk server (min 100 q.total) offset offsetId (if q.minId ≠ 0 then q.minId - 1 else 0)
        (if q.maxId ≠ 0 then q.maxId + 1 else 0) reverse =
      if reverse then (server (q.request offset offsetId)).reverse
        else server (q.request offset offsetId) := by
  by_cases h0 : offsetId = 0
  · simp [getChunk, Query.request, h0, h h0]
  · simp [getChunk, Query.request, h0]

theorem admits_request (h : History) (q : Query) (offset : ℤ) (offsetId : ℕ) :
    ∀ id ∈ h.ids, (q.request offset offsetId).admits id = q.within id := by
  intro id hid
  have hpos := (h.int id hid).1
  rw [Bool.eq_iff_iff]
  by_cases hmin : q.minId = 0 <;> by_cases hmax : q.maxId = 0 <;>
    simp [GetHistory.admits, Query.within, Query.request, hmin, hmax] <;> omega

theorem mem_window {a : ℕ} (ha : a ∈ h.ids.filter q.within) :
    0 < a ∧ q.minId ≤ a ∧ (q.maxId = 0 ∨ a ≤ q.maxId) := by
  obtain ⟨ha, hwithin⟩ := List.mem_filter.mp ha
  simp only [Query.within, Bool.and_eq_true, Bool.or_eq_true, decide_eq_true_eq] at hwithin
  exact ⟨(h.int a ha).1, hwithin⟩

theorem Split.within_newer (hsplit : Split h q newer older) :
    ∀ id ∈ newer, q.within id = false := by
  intro id hid
  have := hsplit.newer id hid
  simp [Query.within]
  omega

theorem Split.within_older (hsplit : Split h q newer older) :
    ∀ id ∈ older, q.within id = false := by
  intro id hid
  have := hsplit.older id hid
  simp [Query.within]
  omega

/-- **What the server returns is a page of the window**, counted from the messages above the
offset; where the slice is bounded only afterwards, those below the window count too. -/
theorem Split.answer_eq_page (hsplit : Split h q newer older) {offsetId : ℕ}
    (hnewer : ∀ id ∈ newer, offsetId ≤ id)
    (hoffset : offsetId = 0 → newer = []) (offset : ℤ) :
    (q.request offset offsetId).answer bounded h.ids =
      page (h.ids.filter q.within) (((q.request offset offsetId).position (h.ids.filter q.within) +
        if bounded = .slice ∧ offsetId ≠ 0 then older.countP (offsetId ≤ ·) else 0 : ℕ) + offset)
          (min 100 q.total) := by
  have hadmits := admits_request h q offset offsetId
  -- a list has only what is admitted, and is cut by the position in it
  cases bounded with
  | list =>
    show GetHistory.slice _ (h.ids.filter _) = _
    rw [List.filter_congr hadmits]
    simp only [reduceCtorEq, false_and, if_false, Nat.add_zero]
    rfl
  -- a slice is cut out of all ids, and filtered afterwards
  | slice =>
    have hposition : ((q.request offset offsetId).position h.ids : ℤ) - newer.length =
        ((q.request offset offsetId).position (h.ids.filter q.within) +
          if offsetId ≠ 0 then older.countP (offsetId ≤ ·) else 0 : ℕ) := by
      unfold GetHistory.position
      show ((if offsetId = 0 then 0 else h.ids.countP (offsetId ≤ ·) : ℕ) : ℤ) - newer.length =
        ((if offsetId = 0 then 0 else (h.ids.filter q.within).countP (offsetId ≤ ·)) +
          if offsetId ≠ 0 then older.countP (offsetId ≤ ·) else 0 : ℕ)
      by_cases h0 : offsetId = 0
      · simp [h0, hoffset h0]
      · have hcount : newer.countP (offsetId ≤ ·) = newer.length :=
          List.countP_eq_length.mpr fun id hid => by simpa using hnewer id hid
        rw [if_neg h0, if_neg h0, if_pos h0]
        conv_lhs => rw [hsplit.ids]
        rw [List.countP_append, List.countP_append, hcount]
        omega
    -- the ids that are filtered out stand before and behind the window
    have hfilter : ((q.request offset offsetId).slice h.ids).filter
      (q.request offset offsetId).admits =
        ((q.request offset offsetId).slice h.ids).filter q.within :=
      List.filter_congr fun id hid => hadmits id (sublist_page.mem hid)
    have hslice : (q.request offset offsetId).slice h.ids =
      page (newer ++ h.ids.filter q.within ++ older)
        ((q.request offset offsetId).position h.ids + offset) (min 100 q.total) := by
      rw [← hsplit.ids]
      rfl
    show ((q.request offset offsetId).slice h.ids).filter _ = _
    rw [hfilter, hslice,
      filter_page_append hsplit.within_newer (fun id hid => (List.mem_filter.mp hid).2)
        hsplit.within_older]
    congr 1
    simp only [true_and]
    omega

/-- An offset that is not 0, above all older messages. -/
theorem Split.answer_eq_page_of_older (hsplit : Split h q newer older) {offsetId : ℕ}
    (hoffset : 0 < offsetId)
    (hnewer : ∀ id ∈ newer, offsetId ≤ id) (holder : ∀ id ∈ older, id < offsetId) (offset : ℤ) :
    (q.request offset offsetId).answer bounded h.ids =
      page (h.ids.filter q.within) ((h.ids.filter q.within).countP (offsetId ≤ ·) + offset)
        (min 100 q.total) := by
  have hcount : older.countP (offsetId ≤ ·) = 0 :=
    List.countP_eq_zero.mpr fun id hid => by simpa using holder id hid
  rw [hsplit.answer_eq_page hnewer (fun h0 => absurd h0 hoffset.ne') offset, hcount, ite_self,
    Nat.add_zero]
  congr 2
  exact congrArg Nat.cast (if_neg hoffset.ne')

theorem answer_eq_nil (hwindow : h.ids.filter q.within = []) (offset : ℤ) (offsetId : ℕ) :
    (q.request offset offsetId).answer bounded h.ids = [] := by
  have hadmits := admits_request h q offset offsetId
  cases bounded with
  | list =>
    show GetHistory.slice _ (h.ids.filter _) = []
    rw [List.filter_congr hadmits, hwindow]
    exact page_eq_nil_iff.mpr (by simp)
  | slice =>
    refine List.filter_eq_nil_iff.mpr fun id hid hid' => ?_
    have hmem := sublist_page.mem hid
    rw [hadmits id hmem] at hid'
    exact List.filter_eq_nil_iff.mp hwindow id hmem hid'

/-- **The page after a message**, without it or with it. -/
theorem answer_after {i id : ℕ} (hid : (h.ids.filter q.within)[i]? = some id) (offset : ℤ) :
    (q.request offset id).answer bounded h.ids = page (h.ids.filter q.within) ((i + 1 : ℕ) + offset)
    (min 100 q.total) ∧
    (q.request offset (id + 1)).answer bounded h.ids = page (h.ids.filter q.within) (i + offset)
    (min 100 q.total) := by
  obtain ⟨newer, older, hsplit⟩ := exists_split h q
  obtain ⟨hpos, hmin, hmax⟩ := mem_window (List.mem_of_getElem? hid)
  obtain ⟨hle, hlt⟩ := countP_of_getElem? (h.sorted.filter _) hid
  have hnewer : ∀ id' ∈ newer, id + 1 ≤ id' := fun id' h' => by have := hsplit.newer id' h'; omega
  have holder : ∀ id' ∈ older, id' < id := fun id' h' => by have := hsplit.older id' h'; omega
  constructor
  · rw [hsplit.answer_eq_page_of_older hpos (fun id' h' => (hnewer id' h').trans' id.le_succ)
      holder, hle]
  · rw [hsplit.answer_eq_page_of_older id.succ_pos hnewer
      (fun id' h' => (holder id' h').trans id.lt_succ_self), hlt]

/-- **The first page**, newest first. -/
theorem answer_first (h : History) (q : Query) (offset : ℤ) :
    (q.request offset (if q.maxId ≠ 0 then q.maxId + 1 else 0)).answer bounded h.ids =
      page (h.ids.filter q.within) (0 + offset) (min 100 q.total) := by
  obtain ⟨newer, older, hsplit⟩ := exists_split h q
  by_cases hmax : q.maxId = 0
  · have hnil : newer = [] := List.eq_nil_iff_forall_not_mem.mpr fun id hid =>
      (hsplit.newer id hid).1 hmax
    rw [if_neg (not_not.mpr hmax), hsplit.answer_eq_page (fun id _ => id.zero_le) (fun _ => hnil)]
    simp [GetHistory.position, Query.request]
  · have hcount : (h.ids.filter q.within).countP (q.maxId + 1 ≤ ·) = 0 := by
      refine List.countP_eq_zero.mpr fun id hid => ?_
      have := mem_window hid
      simp
      omega
    rw [if_pos hmax, hsplit.answer_eq_page_of_older q.maxId.succ_pos
      (fun id hid => (hsplit.newer id hid).2)
      (fun id hid => by have := hsplit.older id hid; omega), hcount]
    rfl

/-- A message right below the window is the only one that the first page in reverse may have
besides the window. -/
theorem Split.countP_older (hsplit : Split h q newer older) (hne : h.ids.filter q.within ≠ []) :
    older.countP ((if q.minId - 1 ≠ 0 then q.minId - 1 else 1) ≤ ·) = if q.minId - 1 ∈ h.ids then 1
      else 0 := by
  obtain ⟨a, ha⟩ := List.exists_mem_of_ne_nil _ hne
  have hwithin := mem_window ha
  have holder : ∀ id ∈ older, id ∈ h.ids := fun id hid => by rw [hsplit.ids]; simp [hid]
  have hmem : q.minId - 1 ∈ h.ids ↔ q.minId - 1 ∈ older := by
    refine ⟨fun hid => ?_, holder _⟩
    have hpos := (h.int _ hid).1
    rw [hsplit.ids, List.mem_append, List.mem_append] at hid
    rcases hid with (hid | hid) | hid
    · have := hsplit.newer _ hid
      omega
    · have := mem_window hid
      omega
    · exact hid
  have hnodup : older.Nodup := by
    have hids : h.ids.Nodup := h.sorted.imp fun hlt => hlt.ne'
    rw [hsplit.ids] at hids
    exact hids.of_append_right
  simp only [hmem]
  rw [← hnodup.count, List.count]
  refine List.countP_congr fun id hid => ?_
  have hlt := (hsplit.older id hid).1
  have hpos := (h.int id (holder id hid)).1
  simp only [decide_eq_true_eq, beq_iff_eq]
  split <;> omega

/-- **The first page in reverse**, newest first: its end is the end of the window, or the
message below it. -/
theorem answer_first_reverse (h : History) (q : Query) (offset : ℤ) :
    ((q.request offset (if q.minId - 1 ≠ 0 then q.minId - 1 else 1)).answer bounded h.ids) =
      page (h.ids.filter q.within) (((h.ids.filter q.within).length +
        if bounded = .slice ∧ q.minId - 1 ∈ h.ids then 1 else 0 : ℕ) + offset)
          (min 100 q.total) := by
  by_cases hne : h.ids.filter q.within = []
  · rw [answer_eq_nil hne, hne, eq_comm, page_eq_nil_iff]
    simp
  · obtain ⟨newer, older, hsplit⟩ := exists_split h q
    obtain ⟨a, ha⟩ := List.exists_mem_of_ne_nil _ hne
    have hwithin := mem_window ha
    have hpos : (if q.minId - 1 ≠ 0 then q.minId - 1 else 1) ≠ 0 := by split <;> omega
    have hcount : (h.ids.filter q.within).countP
      ((if q.minId - 1 ≠ 0 then q.minId - 1 else 1) ≤ ·) =
        (h.ids.filter q.within).length := by
      refine List.countP_eq_length.mpr fun id hid => ?_
      have := mem_window hid
      simp only [decide_eq_true_eq]
      split <;> omega
    have hnewer : ∀ id ∈ newer, (if q.minId - 1 ≠ 0 then q.minId - 1 else 1) ≤ id := by
      intro id hid
      have := hsplit.newer id hid
      split <;> omega
    have hposition : (q.request offset (if q.minId - 1 ≠ 0 then q.minId - 1 else 1)).position
      (h.ids.filter q.within) =
        (h.ids.filter q.within).length := (if_neg hpos).trans hcount
    rw [hsplit.answer_eq_page hnewer (fun h0 => absurd h0 hpos), hposition, hsplit.countP_older hne]
    simp only [and_iff_left hpos]
    by_cases hbounded : bounded = .slice <;> simp [hbounded]

/-! ### What is yielded -/

theorem length_ids_le (h : History) : h.ids.length ≤ 2 ^ 31 - 1 := by
  have hnodup : h.ids.Nodup := h.sorted.imp fun hlt => hlt.ne'
  have hsubset : h.ids ⊆ List.range' 1 (2 ^ 31 - 1) := by
    intro id hid
    have := h.int id hid
    rw [List.mem_range'_1]
    omega
  simpa using (hnodup.subperm hsubset).length_le

theorem length_window_le (q : Query) (h : History) : (q.window h).length ≤ h.ids.length := by
  unfold Query.window
  split
  · rw [List.length_reverse]
    exact List.length_filter_le _ _
  · exact List.length_filter_le _ _

theorem total_pos (q : Query) : 0 < q.total := by
  unfold Query.total
  split <;> omega

/-- No chat has more messages than `total`. -/
theorem requested_eq (q : Query) (h : History) :
    q.requested h = ((q.window h).drop q.offset.toNat).take q.total := by
  have hle := (length_window_le q h).trans (length_ids_le h)
  unfold Query.requested Query.total
  split
  · rw [List.take_of_length_le (by rw [List.length_drop]; omega)]
  · rfl

theorem nodup_window (q : Query) (h : History) : (q.window h).Nodup := by
  have hnodup : (h.ids.filter q.within).Nodup := (h.sorted.imp fun hlt => hlt.ne').filter _
  unfold Query.window
  split
  · exact List.nodup_reverse.mpr hnodup
  · exact hnodup

/-- The message right below the window is part of the first page in reverse. -/
def below (bounded : Bounded) (h : History) (q : Query) : Bool :=
  q.reverse && bounded = .slice && q.minId - 1 ∈ h.ids

/-- **The pages of a query are pages of its window**; in reverse, the offset points the other
way. -/
theorem getChatHistory_iff_reads {out : List ℕ} :
    (∃ fuel, getChatHistory (GetHistory.answer bounded h.ids) q fuel = some out) ↔
      Reads (q.window h) (if q.reverse then -q.offset else q.offset) (min 100 q.total)
        (if below bounded h q then -1 else 0) q.total out := by
  -- the bounds are moved by one, as they are exclusive for the server
  have hmin : (if q.minId ≠ 0 then q.minId - 1 else 0) = q.minId - 1 := by split <;> omega
  have hmax : (if (if q.maxId ≠ 0 then q.maxId + 1 else 0) ≠ 0 then if q.maxId ≠ 0 then q.maxId + 1
    else 0 else 0) =
      if q.maxId ≠ 0 then q.maxId + 1 else 0 := by split <;> simp_all
  unfold getChatHistory Query.window below
  -- from the newest on, each chunk begins after the last id that was read
  cases hreverse : q.reverse with
  | false =>
    simp only [Bool.false_eq_true, if_false, Bool.false_and, hmax]
    refine yields_iff_reads ?_ ?_ (total_pos q)
    · intro i id hid
      have hpos := (mem_window (List.mem_of_getElem? hid)).1
      exact (getChunk_eq _ q q.offset (fun h0 => absurd h0 hpos.ne') false).trans
        (answer_after hid q.offset).1
    · refine (getChunk_eq _ q q.offset ?_ false).trans (answer_first h q q.offset)
      split <;> simp_all
  -- in reverse order it begins above it, and the chunk is turned round
  | true =>
    simp only [if_true, Bool.true_and]
    refine yields_iff_reads ?_ ?_ (total_pos q)
    · intro i id hid
      have hi : i < (h.ids.filter q.within).length := by
        have := (List.getElem?_eq_some_iff.mp hid).1
        rwa [List.length_reverse] at this
      rw [List.getElem?_reverse hi] at hid
      refine (getChunk_eq _ q _ (show id + 1 = 0 → q.maxId = 0 from nofun) true).trans ?_
      rw [if_pos rfl, (answer_after hid _).2, reverse_page]
      congr 1
      omega
    · have hpos : (if q.minId - 1 ≠ 0 then q.minId - 1 else 1) ≠ 0 := by split <;> omega
      rw [hmin]
      have hchunk := getChunk_eq (GetHistory.answer bounded h.ids) q
        (q.offset - (min 100 q.total : ℕ))
        (fun h0 => absurd h0 hpos) true
      rw [hmin] at hchunk
      rw [hchunk, if_pos rfl, answer_first_reverse, reverse_page]
      congr 1
      -- where the id below the bound exists, the first chunk has one more in front
      by_cases hbelow : bounded = .slice ∧ q.minId - 1 ∈ h.ids
      · simp [hbelow]
        omega
      · have hnot : (decide (bounded = .slice) && decide (q.minId - 1 ∈ h.ids)) =
            false := by simpa using hbelow
        rw [if_neg hbelow, hnot, if_neg Bool.false_ne_true, Nat.add_zero]
        omega

/-- **When the messages that are asked for are yielded**: the window is empty; there is no
offset, and the first page is not the single message below the window; or there is an offset
that points away from the first message, and no second page, or (in reverse) no more messages
than the offset skips. -/
theorem yields_requested_iff (bounded : Bounded) (h : History) (q : Query) :
    (∃ fuel, getChatHistory (GetHistory.answer bounded h.ids) q fuel = some (q.requested h)) ↔
      (q.window h).length = 0 ∨
      q.offset = 0 ∧ ¬(below bounded h q = true ∧ q.limit = 1) ∨
      q.reverse = false ∧ 0 < q.offset ∧
        (0 < q.limit ∧ q.limit ≤ 100 ∨ (q.window h).length ≤ q.offset + 100) ∨
      q.reverse = true ∧ 0 < q.offset ∧ (q.window h).length ≤ q.offset ∧
        min 100 q.total ≤ q.offset + (if below bounded h q then 1 else 0) ∨
      below bounded h q = true ∧ q.offset = -1 ∧
        (0 < q.limit ∧ q.limit ≤ 100 ∨ (q.window h).length ≤ 100) := by
  have htotal := total_pos q
  have hcases : q.total = if q.limit = 0 then 2 ^ 31 - 1 else q.limit := rfl
  have hbelow : below bounded h q = true → q.reverse = true := by
    simp only [below, Bool.and_eq_true]
    exact fun hb => hb.1.1
  rw [getChatHistory_iff_reads, requested_eq, reads_iff (nodup_window q h) (by omega) htotal]
  -- the three cases of the two flags; what is left is arithmetic
  cases hreverse : q.reverse with
  | false =>
    have hnot : below bounded h q = false := by
      cases hb : below bounded h q with
      | false => rfl
      | true => cases hreverse.symm.trans (hbelow hb)
    simp only [hnot, Bool.false_eq_true, if_false, false_and, not_false_eq_true, and_true, true_and,
      or_false]
    split_ifs at hcases <;> split <;> omega
  | true =>
    simp only [if_true, false_and, true_and, false_or, reduceCtorEq]
    cases hb : below bounded h q with
    | false =>
      simp only [Bool.false_eq_true, if_false, false_and, not_false_eq_true, and_true, or_false]
      split_ifs at hcases <;> split <;> omega
    | true =>
      simp only [if_true, true_and]
      split_ifs at hcases <;> split <;> omega

/-- A chat of a hundred and two messages. -/
def twoPages : History where
  ids := (List.range' 1 102).reverse
  sorted := List.pairwise_reverse.mpr List.pairwise_lt_range'
  int := by
    intro id hid
    rw [List.mem_reverse, List.mem_range'_1] at hid
    omega

/-- The first page ends before message 1, and the second page skips it. -/
theorem offset_repeated : ¬∃ fuel, getChatHistory (GetHistory.answer .list twoPages.ids)
    { offset := 1 } fuel =
    some (Query.requested { offset := 1 } twoPages) := by
  have hlength : (Query.window { offset := 1 } twoPages).length = 102 := by decide
  rw [getChatHistory_iff_reads, requested_eq, reads_iff (nodup_window _ _) (by decide) (by decide),
    hlength]
  decide

end ChatHistory

end Pyrogram
