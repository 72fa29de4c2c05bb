import Pyrogram.Errors
import Pyrogram.Recency
import Mathlib.Data.List.Basic

/-!
# The cache

`Cache` keeps the entries that were used last.  Its operations hold a lock from their first line to
their last one, so the calls of several tasks are a list of operations.

## Main definitions

* `Cache`, `Cache.get`, `Cache.set` — the cache and its operations.
* `Memory` — a memory that forgets nothing, and knows which keys were used.

## Main results

* `Cache.calls_eq_memory` — **every answer of the cache** is the value that was set last, unless too
  many other keys were used since the key was.
-/

namespace Pyrogram

open Dict Recency

variable {κ α : Type}

/-! ### Ordered dictionaries -/

namespace OrderedDict

/-- `popitem(last=False)` -/
def popFirst (d : List (κ × α)) : List (κ × α) := d.tail

/-- The keys, the last one in front. -/
def keys (d : List (κ × α)) : List κ := (d.map Prod.fst).reverse

variable {key k : κ} {value : α} {d : List (κ × α)}

theorem keys_append (d e : List (κ × α)) : keys (d ++ e) = keys e ++ keys d := by
  simp [keys]

theorem keys_filter (p : κ → Bool) (d : List (κ × α)) :
    keys (d.filter fun e => p e.1) = (keys d).filter p := by
  rw [keys, keys, List.filter_reverse, List.filter_map]
  rfl

theorem mem_keys : k ∈ keys d ↔ k ∈ d.map Prod.fst := List.mem_reverse

theorem length_keys (d : List (κ × α)) : (keys d).length = d.length := by
  simp [keys]

theorem keys_popFirst (d : List (κ × α)) : keys (popFirst d) = (keys d).dropLast := by
  cases d <;> simp [popFirst, keys]

theorem nodup_popFirst (h : (keys d).Nodup) : (keys (popFirst d)).Nodup := by
  rw [keys_popFirst]
  exact h.sublist (List.dropLast_sublist _)

variable [DecidableEq κ]

/-- `self[key] = value` -/
def setItem (key : κ) (value : α) : List (κ × α) → List (κ × α)
  | [] => [(key, value)]
  | e :: d => if e.1 = key then (key, value) :: d else e :: setItem key value d

/-- `key in self`, and `self[key]` where it is. -/
def getItem (key : κ) : List (κ × α) → Option α
  | [] => none
  | e :: d => if e.1 = key then some e.2 else getItem key d

def moveToEnd (key : κ) (d : List (κ × α)) : List (κ × α) :=
  d.filter (·.1 ≠ key) ++ d.filter (·.1 = key)

theorem getItem_eq_none_iff : getItem k d = none ↔ k ∉ keys d := by
  induction d with
  | nil => simp [getItem, keys]
  | cons e d ih =>
    rw [mem_keys] at ih ⊢
    by_cases he : e.1 = k
    · simp [getItem, he]
    · have hk : ¬k = e.1 := fun h => he h.symm
      simp [getItem, he, hk, ih]

theorem getItem_append (d e : List (κ × α)) :
    getItem k (d ++ e) = (getItem k d).or (getItem k e) := by
  induction d with
  | nil => rfl
  | cons a d ih =>
    by_cases ha : a.1 = k
    · simp [getItem, ha]
    · simp [getItem, ha, ih]

theorem getItem_filter_ne (h : k ≠ key) (d : List (κ × α)) :
    getItem k (d.filter (·.1 ≠ key)) = getItem k d := by
  induction d with
  | nil => rfl
  | cons e d ih =>
    by_cases he : e.1 = key
    · have hk : ¬e.1 = k := fun hek => h (hek.symm.trans he)
      simpa [he, getItem, h.symm] using ih
    · simpa [he, getItem] using congrArg (fun x => if e.1 = k then some e.2 else x) ih

theorem getItem_filter_eq (d : List (κ × α)) :
    getItem k (d.filter (·.1 = key)) = if k = key then getItem k d else none := by
  induction d with
  | nil => simp [getItem]
  | cons e d ih =>
    by_cases he : e.1 = key
    · by_cases hk : k = key
      · simp [getItem, he, hk]
      · have hne : ¬key = k := fun h => hk h.symm
        simpa [getItem, he, hk, hne] using ih
    · by_cases hk : k = key
      · have hne : ¬e.1 = k := fun h => he (h.trans hk)
        subst hk
        simpa [getItem, he] using ih
      · simpa [getItem, he, hk] using ih

/-- An entry that is moved stays what it is. -/
theorem getItem_moveToEnd (key k : κ) (d : List (κ × α)) :
    getItem k (moveToEnd key d) = getItem k d := by
  rw [moveToEnd, getItem_append, getItem_filter_eq]
  by_cases hk : k = key
  · have hnot : getItem k (d.filter (·.1 ≠ key)) = none := by
      rw [getItem_eq_none_iff, mem_keys, hk]
      simp
    rw [hnot, if_pos hk, Option.none_or]
  · rw [getItem_filter_ne hk, if_neg hk, Option.or_none]

theorem getItem_setItem (key k : κ) (value : α) (d : List (κ × α)) :
    getItem k (setItem key value d) = if k = key then some value else getItem k d := by
  induction d with
  | nil => simp [setItem, getItem, eq_comm]
  | cons e d ih =>
    by_cases he : e.1 = key
    · by_cases hk : k = key
      · simp [setItem, getItem, he, hk]
      · have hne : ¬key = k := fun h => hk h.symm
        simp [setItem, getItem, he, hk, hne]
    · by_cases hek : e.1 = k
      · have hne : ¬k = key := fun h => he (hek.trans h)
        simp [setItem, getItem, hek, hne]
      · simp [setItem, getItem, he, hek, ih]

theorem map_fst_setItem (key : κ) (value : α) (d : List (κ × α)) :
    (setItem key value d).map Prod.fst = if key ∈ d.map Prod.fst then d.map Prod.fst
      else d.map Prod.fst ++ [key] := by
  induction d with
  | nil => simp [setItem]
  | cons e d ih =>
    by_cases he : e.1 = key
    · simp [setItem, he]
    · have hne : ¬key = e.1 := fun h => he h.symm
      simp only [setItem, he, if_false, List.map_cons, ih, List.mem_cons, hne, false_or]
      split <;> rfl

/-- The keys after a key was used that is there. -/
theorem keys_moveToEnd (h : (keys d).Nodup) (hkey : key ∈ keys d) :
    keys (moveToEnd key d) = key :: (keys d).filter (· ≠ key) := by
  have hself : (keys d).filter (· = key) = [key] := by
    have hcount := List.count_eq_one_of_mem h hkey
    rw [List.count_eq_length_filter] at hcount
    obtain ⟨a, ha⟩ := List.length_eq_one_iff.mp hcount
    have hmem : a ∈ (keys d).filter (· == key) := ha ▸ List.mem_singleton_self a
    rw [List.mem_filter, beq_iff_eq] at hmem
    rw [hmem.2] at ha
    simpa [beq_eq_decide] using ha
  rw [moveToEnd, keys_append, keys_filter (fun k => decide (k = key)),
    keys_filter (fun k => decide (k ≠ key)), hself]
  rfl

/-- The keys after a key was set, and is the last one. -/
theorem keys_moveToEnd_setItem (h : (keys d).Nodup) :
    keys (moveToEnd key (setItem key value d)) = key :: (keys d).filter (· ≠ key) := by
  have hkeys : keys (setItem key value d) = if key ∈ keys d then keys d else key :: keys d := by
    rw [keys, map_fst_setItem, keys]
    simp only [List.mem_reverse]
    split <;> simp
  split at hkeys
  · next hmem => rw [keys_moveToEnd (hkeys ▸ h) (hkeys ▸ hmem), hkeys]
  · next hmem =>
    have hnodup : (key :: keys d).Nodup := List.nodup_cons.mpr ⟨hmem, h⟩
    rw [keys_moveToEnd (hkeys ▸ hnodup) (hkeys ▸ List.mem_cons_self), hkeys,
      List.filter_cons_of_neg (by simp)]

theorem getItem_popFirst (h : (keys d).Nodup) (hk : k ∈ keys (popFirst d)) :
    getItem k (popFirst d) = getItem k d := by
  cases d with
  | nil => rfl
  | cons e d =>
    have hne : ¬e.1 = k := by
      rintro rfl
      rw [keys, List.nodup_reverse, List.map_cons, List.nodup_cons] at h
      exact h.1 (mem_keys.mp hk)
    rw [popFirst, List.tail_cons, getItem, if_neg hne]

theorem perm_moveToEnd (key : κ) (d : List (κ × α)) : (moveToEnd key d).Perm d := by
  have hnot : (d.filter fun e => decide (e.1 = key)) = d.filter fun e =>
      !decide (e.1 ≠ key) := by simp
  rw [moveToEnd, hnot]
  exact List.filter_append_perm _ d

theorem nodup_moveToEnd (h : (keys d).Nodup) : (keys (moveToEnd key d)).Nodup := by
  rw [keys, List.nodup_reverse] at h ⊢
  exact ((perm_moveToEnd key d).map Prod.fst).nodup_iff.mpr h

end OrderedDict

open OrderedDict

variable [DecidableEq κ]

/-! ### The cache -/

/-- The entries, the one that was used last at the end. -/
structure Cache (κ α : Type) [DecidableEq κ] where
  capacity : ℕ
  entries : List (κ × α)
  nodup : (keys entries).Nodup
  bounded : entries.length ≤ capacity

namespace Cache

/-- What a task calls. -/
inductive Operation (κ α : Type)
  | get (key : κ) (default : α)
  | set (key : κ) (value : α)

/-- `Cache(capacity)` -/
def init (capacity : ℤ) : Except Exc (Cache κ α) :=
  if capacity < 0 then .error (.valueError "capacity must be non-negative")
  else .ok ⟨capacity.toNat, [], List.nodup_nil, Nat.zero_le _⟩

/-- `self._cache.move_to_end(key)` -/
def moveToEnd (c : Cache κ α) (key : κ) : Cache κ α :=
  { c with
    entries := OrderedDict.moveToEnd key c.entries
    nodup := nodup_moveToEnd c.nodup
    bounded := (perm_moveToEnd key c.entries).length_eq.trans_le c.bounded }

def get (c : Cache κ α) (key : κ) (default : α) : α × Cache κ α :=
  match getItem key c.entries with
  | none => (default, c)
  | some value => (value, c.moveToEnd key)

/-- The entries after `self._cache[key] = value` and `self._cache.move_to_end(key)`. -/
def stored (c : Cache κ α) (key : κ) (value : α) : List (κ × α) :=
  OrderedDict.moveToEnd key (setItem key value c.entries)

theorem keys_stored (c : Cache κ α) (key : κ) (value : α) :
    keys (c.stored key value) = key :: (keys c.entries).filter (· ≠ key) :=
      keys_moveToEnd_setItem c.nodup

theorem nodup_stored (c : Cache κ α) (key : κ) (value : α) : (keys (c.stored key value)).Nodup := by
  rw [keys_stored]
  exact List.nodup_cons.mpr ⟨by simp, c.nodup.filter _⟩

theorem length_stored_le (c : Cache κ α) (key : κ) (value : α) :
    (c.stored key value).length ≤ c.capacity + 1 := by
  have hlength : (c.stored key value).length = ((keys c.entries).filter (· ≠ key)).length + 1 := by
    rw [← length_keys, keys_stored, List.length_cons]
  have hle := List.length_filter_le (· ≠ key) (keys c.entries)
  have hbounded := c.bounded
  rw [← length_keys] at hbounded
  omega

def set (c : Cache κ α) (key : κ) (value : α) : Cache κ α where
  capacity := c.capacity
  entries := if c.capacity < (c.stored key value).length then popFirst (c.stored key value)
    else c.stored key value
  nodup := by
    split
    · exact nodup_popFirst (c.nodup_stored key value)
    · exact c.nodup_stored key value
  bounded := by
    have hle := c.length_stored_le key value
    split
    · rw [popFirst, List.length_tail]
      omega
    · omega

/-- What a call answers; `set` answers nothing. -/
def call (c : Cache κ α) : Operation κ α → Option α × Cache κ α
  | .get key default => ((c.get key default).1, (c.get key default).2)
  | .set key value => (none, c.set key value)

/-- The answers to calls, one after the other, and what is left. -/
def calls (c : Cache κ α) : List (Operation κ α) → List (Option α) × Cache κ α
  | [] => ([], c)
  | op :: ops => ((c.call op).1 :: ((c.call op).2.calls ops).1, ((c.call op).2.calls ops).2)

end Cache

/-! ### What a cache remembers -/

/-- What was set, and the keys that were used, the latest in front. -/
structure Memory (κ α : Type) where
  uses : List κ := []
  value : κ → Option α := fun _ => none

namespace Memory

/-- A memory of a number of keys has not forgotten a key. -/
def Knows (m : Memory κ α) (capacity : ℕ) (key : κ) : Prop :=
  key ∈ m.uses ∧ (since key m.uses).card < capacity

instance (m : Memory κ α) (capacity : ℕ) (key : κ) : Decidable (m.Knows capacity key) :=
  inferInstanceAs (Decidable (_ ∧ _))

def use (m : Memory κ α) (key : κ) : Memory κ α := { m with uses := key :: m.uses }

def put (m : Memory κ α) (key : κ) (value : α) : Memory κ α where
  uses := key :: m.uses
  value := Function.update m.value key (some value)

/-- A key that is known is used by reading it. -/
def call (capacity : ℕ) (m : Memory κ α) : Cache.Operation κ α → Option α × Memory κ α
  | .get key default => if m.Knows capacity key then (m.value key, m.use key) else (some default, m)
  | .set key value => (none, m.put key value)

def calls (capacity : ℕ) (m : Memory κ α) : List (Cache.Operation κ α) →
    List (Option α) × Memory κ α
  | [] => ([], m)
  | op :: ops => ((m.call capacity op).1 :: ((m.call capacity op).2.calls capacity ops).1,
      ((m.call capacity op).2.calls capacity ops).2)

end Memory

namespace Cache

/-- The cache holds the keys that were used last, and what was set for them. -/
structure Reflects (c : Cache κ α) (m : Memory κ α) : Prop where
  keys : keys c.entries = (fromKeys m.uses).take c.capacity
  value : ∀ key ∈ OrderedDict.keys c.entries, getItem key c.entries = m.value key

variable {c : Cache κ α} {m : Memory κ α} {key : κ} {value : α}

theorem Reflects.mem_keys_iff (h : c.Reflects m) : key ∈ OrderedDict.keys c.entries ↔
    m.Knows c.capacity key := by
  rw [h.keys, mem_take_fromKeys]
  rfl

/-- The keys that were used last, after one more use. -/
theorem Reflects.keys_use (h : c.Reflects m) :
    (key :: (OrderedDict.keys c.entries).filter (· ≠ key)).take c.capacity =
      (fromKeys (key :: m.uses)).take c.capacity := by
  rw [h.keys, take_touch (nodup_fromKeys m.uses)]
  rfl

theorem Reflects.moveToEnd (h : c.Reflects m) (hkey : key ∈ OrderedDict.keys c.entries) :
    (c.moveToEnd key).Reflects (m.use key) := by
  have hkeys : OrderedDict.keys (c.moveToEnd key).entries =
      key :: (OrderedDict.keys c.entries).filter (· ≠ key) :=
    keys_moveToEnd c.nodup hkey
  constructor
  · have hlength : (OrderedDict.keys (c.moveToEnd key).entries).length ≤ c.capacity := by
      rw [length_keys]
      exact (c.moveToEnd key).bounded
    rw [← List.take_of_length_le hlength, hkeys]
    exact h.keys_use
  · intro k hk
    have hmem : k ∈ OrderedDict.keys c.entries := by
      rw [hkeys, List.mem_cons, List.mem_filter] at hk
      rcases hk with rfl | ⟨hk, -⟩
      · exact hkey
      · exact hk
    exact (getItem_moveToEnd key k c.entries).trans (h.value k hmem)

theorem getItem_stored (c : Cache κ α) (key k : κ) (value : α) :
    getItem k (c.stored key value) = if k = key then some value else getItem k c.entries := by
  rw [stored, getItem_moveToEnd, getItem_setItem]

theorem keys_set (c : Cache κ α) (key : κ) (value : α) :
    OrderedDict.keys (c.set key value).entries =
      (key :: (OrderedDict.keys c.entries).filter (· ≠ key)).take c.capacity := by
  have hle := c.length_stored_le key value
  rw [← keys_stored c key value]
  unfold set
  dsimp only
  split
  · next hlt =>
    have hlength : (c.stored key value).length - 1 = c.capacity := by omega
    rw [keys_popFirst, List.dropLast_eq_take, length_keys, hlength]
  · next hnot => rw [List.take_of_length_le (by rw [length_keys]; omega)]

/-- An entry that is left is what it was. -/
theorem getItem_set (h : key ∈ OrderedDict.keys (c.set k value).entries) :
    getItem key (c.set k value).entries = getItem key (c.stored k value) := by
  have hnodup := c.nodup_stored k value
  unfold set at h ⊢
  dsimp only at h ⊢
  split at h
  · next hlt =>
    rw [if_pos hlt]
    exact getItem_popFirst hnodup h
  · next hnot => rw [if_neg hnot]

theorem Reflects.set (h : c.Reflects m) (key : κ) (value : α) :
    (c.set key value).Reflects (m.put key value) := by
  constructor
  · rw [keys_set]
    exact h.keys_use
  · intro k hk
    rw [getItem_set hk, getItem_stored]
    by_cases hkey : k = key
    · rw [if_pos hkey, hkey]
      exact (Function.update_self key (some value) m.value).symm
    · have hmem : k ∈ OrderedDict.keys c.entries := by
        rw [keys_set] at hk
        have hcons := List.mem_of_mem_take hk
        rw [List.mem_cons, List.mem_filter] at hcons
        exact (hcons.resolve_left hkey).1
      rw [if_neg hkey, h.value k hmem]
      exact (Function.update_of_ne hkey (some value) m.value).symm

/-- A call is answered from the memory. -/
theorem Reflects.call (h : c.Reflects m) (op : Operation κ α) :
    (c.call op).1 = (m.call c.capacity op).1 ∧ (c.call op).2.capacity = c.capacity ∧
      (c.call op).2.Reflects (m.call c.capacity op).2 := by
  cases op with
  | set key value => exact ⟨rfl, rfl, h.set key value⟩
  | get key default =>
    unfold Cache.call Memory.call get
    dsimp only
    cases hitem : getItem key c.entries with
    | none =>
      have hnot : ¬m.Knows c.capacity key := by
        rw [← h.mem_keys_iff]
        exact getItem_eq_none_iff.mp hitem
      rw [if_neg hnot]
      exact ⟨rfl, rfl, h⟩
    | some value =>
      have hmem : key ∈ OrderedDict.keys c.entries := by
        by_contra hnot
        rw [getItem_eq_none_iff.mpr hnot] at hitem
        cases hitem
      rw [if_pos (h.mem_keys_iff.mp hmem)]
      exact ⟨hitem.symm.trans (h.value key hmem), rfl, h.moveToEnd hmem⟩

theorem Reflects.calls {c : Cache κ α} {m : Memory κ α} (h : c.Reflects m)
    (ops : List (Operation κ α)) :
    (c.calls ops).1 = (m.calls c.capacity ops).1 ∧ (c.calls ops).2.capacity = c.capacity ∧
      (c.calls ops).2.Reflects (m.calls c.capacity ops).2 := by
  induction ops generalizing c m with
  | nil => exact ⟨rfl, rfl, h⟩
  | cons op ops ih =>
    obtain ⟨hanswer, hcapacity, hnext⟩ := h.call op
    obtain ⟨hanswers, hkept, hleft⟩ := ih hnext
    rw [hcapacity] at hanswers hkept hleft
    exact ⟨congrArg₂ List.cons hanswer hanswers, hkept, hleft⟩

/-- **Every answer of a cache is that of a memory that forgets a key once as many others were used
as the cache holds**, and a cache is as full as its capacity and the keys allow. -/
theorem calls_eq_memory (capacity : ℤ) {c : Cache κ α} (hinit : init capacity = .ok c)
    (ops : List (Operation κ α)) :
    (c.calls ops).1 = (Memory.calls capacity.toNat {} ops).1 ∧
      (c.calls ops).2.entries.length =
        min capacity.toNat
          (Memory.calls capacity.toNat ({} : Memory κ α) ops).2.uses.toFinset.card := by
  unfold init at hinit
  split at hinit
  · cases hinit
  · obtain rfl := Except.ok.inj hinit
    have hempty : Reflects (⟨capacity.toNat, [], List.nodup_nil, Nat.zero_le _⟩ : Cache κ α)
        {} := by
      exact ⟨List.take_nil.symm, nofun⟩
    obtain ⟨hanswers, hcapacity, hleft⟩ := hempty.calls ops
    have hlength := congrArg List.length hleft.keys
    rw [length_keys, List.length_take, length_fromKeys, hcapacity] at hlength
    exact ⟨hanswers, hlength⟩

/-- A hit keeps a key, and the other one goes. -/
theorem calls_eq_memory_two : ∃ c : Cache ℕ ℕ, init 2 = .ok c ∧
    (c.calls [.set 0 1, .set 1 2, .get 0 9, .set 2 3, .get 1 9]).1 =
      [none, none, some 1, none, some 9] := by
  refine ⟨_, rfl, ?_⟩
  rw [(calls_eq_memory 2 rfl _).1]
  decide

end Cache

end Pyrogram
