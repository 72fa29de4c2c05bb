import Pyrogram.Runs
import Pyrogram.Updates.HandleUpdates
import Mathlib.Logic.Function.Basic

/-!
# The update cursor

A server numbers the updates of every update state and sends each log in order,
batch after batch; instead of any run of a channel's updates it may send one
`UpdateChannelTooLong` with the newest `pts` of the run.  The client stores the
`pts` of whatever update it handles, and a later `recover_gaps` asks for what comes
after it.  So whatever a stored `pts` covers had better been handed over.

## Main definitions

* `ServerLog`, `Delivery.step` — a server that sends its logs to a client.
* `HandedOver` — every update that a stored `pts` covers was handed over.
* `KeepsUp` — what a batch may store.

## Main results

* `handedOver_of_keepsUp` — nothing is lost behind the cursor in runs of batches that
  keep up.
-/

namespace Pyrogram

open Runs

variable {α : Type}

/-! ### The server -/

/-- The numbered updates of every update state, in the order of their `pts`. -/
structure ServerLog (α : Type) where
  entries : ℤ → List (Update α)
  stateId_of_mem : ∀ id, ∀ u ∈ entries id, u.stateId = id
  pts_of_mem : ∀ id, ∀ u ∈ entries id, u.pts ≠ none
  kind_of_mem : ∀ id, ∀ u ∈ entries id, u.kind ≠ .channelTooLong
  sorted : ∀ id, (entries id).Pairwise fun u v => u.pts.getD 0 < v.pts.getD 0

/-- What a server may put into a batch. -/
inductive Item (α : Type)
  /-- The next update of the log of a state. -/
  | entry (id : ℤ)
  /-- An `UpdateChannelTooLong` for the next `run + 1` updates of a channel. -/
  | tooLong (channel run : ℕ) (content : α)
  /-- An update that carries no `pts`. -/
  | unnumbered (update : Update α)

namespace Item

variable (log : ServerLog α) (sent : ℤ → ℕ)

/-- The update an item is sent as, and how much of every log has been sent then. -/
def send : Item α → Option (Update α × (ℤ → ℕ))
  | entry id => (log.entries id)[sent id]?.map fun u =>
      (u, Function.update sent id (sent id + 1))
  | tooLong channel run content =>
    if channel = 0 then none
    else
      (log.entries (getChannelId channel))[sent (getChannelId channel) + run]?.map fun u =>
        ({ kind := .channelTooLong, channelId := some channel, pts := u.pts, content },
          Function.update sent (getChannelId channel) (sent (getChannelId channel) + run + 1))
  | unnumbered u => if u.pts = none then some (u, sent) else none

/-- The updates of a batch. -/
def sendAll : (ℤ → ℕ) → List (Item α) → Option (List (Update α) × (ℤ → ℕ))
  | sent, [] => some ([], sent)
  | sent, item :: items => (item.send log sent).bind fun (u, sent) =>
      (sendAll sent items).map fun (us, sent) => (u :: us, sent)

end Item

/-- A client, and how much of every log has been sent to it. -/
structure Delivery (α : Type) where
  client : Client α := {}
  sent : ℤ → ℕ := fun _ => 0

/-- A batch, and how the awaits of its run end. -/
structure Batch (α : Type) where
  items : List (Item α)
  date : ℤ
  seq : ℤ
  awaits : Awaits α := {}

/-- The server sends a batch and the client handles it. -/
def Delivery.step (log : ServerLog α) (d : Delivery α) (b : Batch α) : Option (Delivery α) :=
  (Item.sendAll log d.sent b.items).map fun (us, sent) =>
    ⟨(d.client.handleUpdates b.awaits (.updates us b.date b.seq)).state, sent⟩

/-! ### What is owed -/

/-- Every update that a stored `pts` covers was handed to the dispatcher. -/
def HandedOver (log : ServerLog α) (c : Client α) : Prop :=
  ∀ id p, c.updateStates.stored UpdateState.pts id = some p →
    ∀ u ∈ log.entries id, u.pts.getD 0 ≤ p → .update u ∈ c.enqueued

/-- A batch stores no `pts` of an `UpdateChannelTooLong`, and the `pts` of an update
only where every update of its state that earlier batches sent was handed over. -/
def KeepsUp (log : ServerLog α) (d : Delivery α) (b : Batch α) : Prop :=
  ∀ us sent, Item.sendAll log d.sent b.items = some (us, sent) →
    ∀ u ∈ b.awaits.storedOf us, u.pts ≠ none → u.kind ≠ .channelTooLong ∧
      ∀ v ∈ (log.entries u.stateId).take (d.sent u.stateId), .update v ∈ d.client.enqueued

/-! ### Handing over and storing -/

namespace ServerLog

/-- What a `pts` of the log covers was sent no later. -/
theorem mem_take_of_pts_le (log : ServerLog α) {id : ℤ} {k : ℕ} {u v : Update α}
    (hu : (log.entries id)[k]? = some u) (hv : v ∈ log.entries id)
    (hle : v.pts.getD 0 ≤ u.pts.getD 0) : v ∈ (log.entries id).take k ∨ v = u := by
  obtain ⟨hk, rfl⟩ := List.getElem?_eq_some_iff.mp hu
  obtain ⟨j, hj, rfl⟩ := List.getElem_of_mem hv
  rcases lt_trichotomy j k with hlt | rfl | hgt
  · left
    rw [List.mem_take_iff_getElem]
    exact ⟨j, by omega, rfl⟩
  · exact Or.inr rfl
  · -- a later update has a larger `pts`
    have := List.pairwise_iff_getElem.mp (log.sorted id) k j hk hj hgt
    omega

end ServerLog

variable {log : ServerLog α}

theorem HandedOver.enqueue {c : Client α} (h : HandedOver log c) (e : Enqueued α) :
    HandedOver log (c.enqueue e) := fun id p hp u hu hle =>
  List.mem_append_left _ (h id p hp u hu hle)

/-- Storing a state without a `pts` covers nothing new. -/
theorem HandedOver.store_of_pts_eq_none {c : Client α} (h : HandedOver log c) {s : UpdateState}
    (hs : s.pts = none) : HandedOver log (c.store s) := by
  intro id p hp u hu hle
  rw [Client.updateStates_store, UpdateTable.stored_pts_setUpdateState, hs] at hp
  refine h id p ?_ u hu hle
  split at hp
  · simpa using hp
  · exact hp

/-- Storing the `pts` of the next update of a log covers that update and those sent
before it. -/
theorem HandedOver.store_entry {c : Client α} (h : HandedOver log c) {k : ℕ} {u : Update α}
    {s : UpdateState} (hs : u.updateState = some s)
    (hu : (log.entries u.stateId)[k]? = some u) (hue : .update u ∈ c.enqueued)
    (hsent : ∀ v ∈ (log.entries u.stateId).take k, .update v ∈ c.enqueued) :
    HandedOver log (c.store s) := by
  obtain ⟨-, rfl⟩ := Update.updateState_eq_some.mp hs
  intro id p hp v hv hle
  rw [Client.updateStates_store, UpdateTable.stored_pts_setUpdateState] at hp
  split at hp
  · next hid =>
    simp only at hid hp
    subst hid
    have hpts := log.pts_of_mem _ u (List.mem_of_getElem? hu)
    obtain ⟨q, hq⟩ := Option.ne_none_iff_exists'.mp hpts
    have hpq : q = p := by simpa [hq] using hp
    rcases log.mem_take_of_pts_le hu hv (by rw [hq]; simpa [hpq] using hle) with hv | rfl
    · exact hsent v hv
    · exact hue
  · exact h id p hp v hv hle

/-! ### One batch -/

/-- A batch sends its first item and then the others. -/
theorem Item.sendAll_cons_eq_some {sent sent' : ℤ → ℕ} {item : Item α} {items : List (Item α)}
    {us : List (Update α)} (h : sendAll log sent (item :: items) = some (us, sent')) :
    ∃ u sent₁ us₁, item.send log sent = some (u, sent₁) ∧
      sendAll log sent₁ items = some (us₁, sent') ∧ us = u :: us₁ := by
  obtain ⟨⟨u, sent₁⟩, hitem, h⟩ := Option.bind_eq_some_iff.mp h
  obtain ⟨⟨us₁, sent₂⟩, hitems, heq⟩ := Option.map_eq_some_iff.mp h
  obtain ⟨rfl, rfl⟩ := Prod.mk.inj heq
  exact ⟨u, sent₁, us₁, hitem, hitems, rfl⟩

/-- **What an item sends**: nothing of any log, the next update of a log, or the `pts` of
a later one in an `UpdateChannelTooLong`. -/
theorem Item.send_cases {sent sent' : ℤ → ℕ} {item : Item α} {u : Update α}
    (h : item.send log sent = some (u, sent')) :
    (u.pts = none ∧ sent' = sent) ∨
      ∃ k w, (log.entries u.stateId)[k]? = some w ∧ w.pts = u.pts ∧ sent u.stateId ≤ k ∧
        sent' = Function.update sent u.stateId (k + 1) ∧
        ((u.kind = .channelTooLong ∧ ∃ channel run content, item = .tooLong channel run content) ∨
          u = w ∧ k = sent u.stateId) := by
  -- an entry of the log, a long gap of a channel, or an update without a position
  cases item with
  | entry id =>
    obtain ⟨v, hv, hvu⟩ := Option.map_eq_some_iff.mp h
    obtain ⟨rfl, rfl⟩ := Prod.mk.inj hvu
    rw [log.stateId_of_mem id v (List.mem_of_getElem? hv)]
    exact Or.inr ⟨sent id, v, hv, rfl, le_rfl, rfl, Or.inr ⟨rfl, rfl⟩⟩
  | tooLong channel run content =>
    rw [send] at h
    split at h
    · cases h
    · next hchannel =>
      obtain ⟨v, hv, hvu⟩ := Option.map_eq_some_iff.mp h
      obtain ⟨rfl, rfl⟩ := Prod.mk.inj hvu
      have hid : Update.stateId
          { kind := .channelTooLong, channelId := some channel, pts := v.pts, content } =
            getChannelId channel := by
        simp [Update.stateId, Update.channel, hchannel]
      rw [hid]
      exact Or.inr ⟨_, v, hv, rfl, Nat.le_add_right _ _, rfl, Or.inl ⟨rfl, _, _, _, rfl⟩⟩
  | unnumbered v =>
    rw [send] at h
    split at h
    · next hv =>
      obtain ⟨rfl, rfl⟩ := Prod.mk.inj (Option.some.inj h)
      exact Or.inl ⟨hv, rfl⟩
    · cases h

/-- An item with a `pts` that is no `UpdateChannelTooLong` is the next entry of its log. -/
theorem Item.send_entry {sent sent' : ℤ → ℕ} {item : Item α} {u : Update α}
    (h : item.send log sent = some (u, sent')) (hpts : u.pts ≠ none)
    (hkind : u.kind ≠ .channelTooLong) :
    (log.entries u.stateId)[sent u.stateId]? = some u ∧
      sent' = Function.update sent u.stateId (sent u.stateId + 1) := by
  rcases send_cases h with ⟨hnone, -⟩ | ⟨k, w, hw, -, -, hsent, ⟨hkind', -⟩ | ⟨rfl, rfl⟩⟩
  · exact absurd hnone hpts
  · exact absurd hkind' hkind
  · exact ⟨hw, hsent⟩

/-- An item without a `pts` sends nothing of any log. -/
theorem Item.send_of_pts_eq_none {sent sent' : ℤ → ℕ} {item : Item α} {u : Update α}
    (h : item.send log sent = some (u, sent')) (hpts : u.pts = none) : sent' = sent := by
  rcases send_cases h with ⟨-, hsent⟩ | ⟨k, w, hw, hwu, -⟩
  · exact hsent
  · exact absurd (hwu.trans hpts) (log.pts_of_mem _ w (List.mem_of_getElem? hw))

/-- Storing the cursor of an update that was just sent, where it keeps up. -/
theorem HandedOver.store_sent {c : Client α} (h : HandedOver log c) {sent sent' : ℤ → ℕ}
    {item : Item α} {u : Update α} {s : UpdateState} (hsend : item.send log sent = some (u, sent'))
    (hs : u.updateState = some s) (hue : .update u ∈ c.enqueued)
    (hkeeps : u.pts ≠ none → u.kind ≠ .channelTooLong ∧
      ∀ v ∈ (log.entries u.stateId).take (sent u.stateId), .update v ∈ c.enqueued) :
    HandedOver log (c.store s) := by
  by_cases hpts : u.pts = none
  · obtain ⟨-, rfl⟩ := Update.updateState_eq_some.mp hs
    exact h.store_of_pts_eq_none hpts
  · obtain ⟨hkind, hsent⟩ := hkeeps hpts
    obtain ⟨hu, -⟩ := Item.send_entry hsend hpts hkind
    exact h.store_entry hs hu hue hsent

/-- What was sent before the next batch, once an update was handed over. -/
theorem enqueued_of_mem_take_send {c : Client α} {sent sent' : ℤ → ℕ} {item : Item α}
    {u : Update α} {id : ℤ} (hsend : item.send log sent = some (u, sent'))
    (hkind : u.pts ≠ none → u.kind ≠ .channelTooLong) (hue : .update u ∈ c.enqueued)
    (hsent : ∀ v ∈ (log.entries id).take (sent id), .update v ∈ c.enqueued) :
    ∀ v ∈ (log.entries id).take (sent' id), .update v ∈ c.enqueued := by
  by_cases hpts : u.pts = none
  · rwa [Item.send_of_pts_eq_none hsend hpts]
  · obtain ⟨hu, rfl⟩ := Item.send_entry hsend hpts (hkind hpts)
    by_cases hid : id = u.stateId
    · subst hid
      intro v hv
      rw [Function.update_self, List.take_add_one, hu] at hv
      rcases List.mem_append.mp hv with hv | hv
      · exact hsent v hv
      · obtain rfl : v = u := by simpa using hv
        exact hue
    · rwa [Function.update_of_ne hid]

/-- **The loop over a batch** keeps what is owed, where what it stores keeps up. -/
theorem HandedOver.extend {a : Awaits α} {isMin : Bool} {items : List (Item α)} :
    ∀ {i : ℕ} {c : Client α} {sent sent' : ℤ → ℕ} {us : List (Update α)},
      Item.sendAll log sent items = some (us, sent') →
      (∀ u ∈ a.stored isMin i us, u.pts ≠ none → u.kind ≠ .channelTooLong ∧
        ∀ v ∈ (log.entries u.stateId).take (sent u.stateId), .update v ∈ c.enqueued) →
      HandedOver log c →
      HandedOver log (c.extend (a.handed isMin i us)
        ((a.stored isMin i us).filterMap Update.updateState)) := by
  induction items with
  | nil =>
    intro i c sent sent' us hsend _ h
    obtain ⟨rfl, -⟩ := Prod.mk.inj (Option.some.inj hsend)
    simpa [Awaits.handed, Awaits.stored] using h
  | cons item items ih =>
    intro i c sent sent' us hsend hkeeps h
    obtain ⟨u, sent₁, us, hitem, hitems, rfl⟩ := Item.sendAll_cons_eq_some hsend
    rw [Awaits.stored] at hkeeps ⊢
    rw [Awaits.handed]
    cases hhyd : a.hydrate isMin i u with
    | error e => simpa using h
    | ok _ =>
      rw [hhyd] at hkeeps
      have hue : .update u ∈ (c.enqueue (.update u)).enqueued := by simp
      have h₁ := h.enqueue (.update u)
      cases hs : u.updateState with
      | none =>
        -- no `pts`, so nothing of a log was sent
        have hpts : u.pts = none := by
          by_contra hne
          simp [Update.updateState, hne] at hs
        simp only [hs, if_true, true_or] at hkeeps ⊢
        rw [Client.extend_cons]
        refine ih hitems ?_ h₁
        intro w hw hwpts
        obtain ⟨hkind, hsent⟩ := hkeeps w hw hwpts
        rw [Item.send_of_pts_eq_none hitem hpts]
        exact ⟨hkind, fun v hv => List.mem_append_left _ (hsent v hv)⟩
      | some s =>
        simp only [hs, reduceCtorEq, if_false, false_or] at hkeeps ⊢
        have hstore (hu : u.pts ≠ none → u.kind ≠ .channelTooLong ∧
            ∀ v ∈ (log.entries u.stateId).take (sent u.stateId), .update v ∈ c.enqueued) :
            HandedOver log ((c.enqueue (.update u)).store s) := by
          refine h₁.store_sent hitem hs hue ?_
          intro hpts
          obtain ⟨hkind, hsent⟩ := hu hpts
          exact ⟨hkind, fun v hv => List.mem_append_left _ (hsent v hv)⟩
        cases hw : a.write i with
        | failed =>
          simp only [reduceCtorEq, if_false, List.filterMap_nil]
          rw [Client.extend_cons, Client.extend_nil]
          exact h₁
        | interrupted =>
          rw [hw] at hkeeps
          simp only [reduceCtorEq, if_false]
          rw [List.filterMap_cons_some hs, List.filterMap_nil, Client.extend_cons_cons,
            Client.extend_nil]
          exact hstore (hkeeps u (List.mem_singleton_self u))
        | done =>
          simp only [hw, if_true] at hkeeps ⊢
          have hu := hkeeps u List.mem_cons_self
          rw [List.filterMap_cons_some hs, Client.extend_cons_cons]
          refine ih hitems ?_ (hstore hu)
          intro w hw hwpts
          obtain ⟨hkind, hsent⟩ := hkeeps w (List.mem_cons_of_mem u hw) hwpts
          refine ⟨hkind, enqueued_of_mem_take_send hitem (fun hpts => (hu hpts).1) hue ?_⟩
          exact fun v hv => List.mem_append_left _ (hsent v hv)

/-- A batch that keeps up loses nothing. -/
theorem handedOver_step {d d' : Delivery α} {b : Batch α} (h : HandedOver log d.client)
    (hstep : d.step log b = some d') (hkeeps : KeepsUp log d b) : HandedOver log d'.client := by
  obtain ⟨⟨us, sent⟩, hsend, rfl⟩ := Option.map_eq_some_iff.mp hstep
  have hkeeps := hkeeps us sent hsend
  simp only
  rw [Client.handleUpdates_updates]
  unfold Awaits.handedOf Awaits.writesOf Awaits.storedOf at *
  cases hmin : b.awaits.isMin with
  | none =>
    have hlast : b.awaits.storesDate us = false := by
      simp [Awaits.storesDate, Awaits.completesAll, hmin]
    simpa [hlast] using h
  | some isMin =>
    rw [hmin] at hkeeps
    have hloop := HandedOver.extend hsend hkeeps h
    simp only [Option.elim_some]
    split
    · -- the date and sequence number carry no `pts`
      rw [← Client.store_extend]
      exact hloop.store_of_pts_eq_none rfl
    · rwa [List.append_nil]

/-! ### Runs -/

/-- **Nothing is lost behind the cursor** of a client that starts with nothing lost, as
long as every batch keeps up. -/
theorem handedOver_of_keepsUp (log : ServerLog α) {d : Delivery α} (hd : HandedOver log d.client)
    {batches : List (Batch α)}
    (hkeeps : AllSteps (Delivery.step log) (fun d b _ => KeepsUp log d b) d batches) :
    AllSteps (Delivery.step log) (fun _ _ d' => HandedOver log d'.client) d batches := by
  have hone : ∀ (d : Delivery α) b d', HandedOver log d.client → d.step log b = some d' →
      KeepsUp log d b → HandedOver log d'.client := by
    intro d b d' h hstep hk
    exact handedOver_step h hstep hk
  exact allSteps_of_invariant hone hone hd hkeeps

theorem handedOver_of_empty (log : ServerLog α) : HandedOver log ({} : Client α) :=
  fun _ _ hp => nomatch hp

theorem keepsUp_of_sendAll {d : Delivery α} {b : Batch α} {us : List (Update α)} {sent : ℤ → ℕ}
    (hsend : Item.sendAll log d.sent b.items = some (us, sent))
    (h : ∀ u ∈ b.awaits.storedOf us, u.pts ≠ none → u.kind ≠ .channelTooLong ∧
      ∀ v ∈ (log.entries u.stateId).take (d.sent u.stateId), .update v ∈ d.client.enqueued) :
    KeepsUp log d b := by
  intro us' sent' hsend'
  obtain ⟨rfl, -⟩ := Prod.mk.inj (Option.some.inj (hsend.symm.trans hsend'))
  exact h

/-! ### A channel with three updates -/

def channelUpdate (pts : ℤ) : Update Unit := { channelId := some 5, pts := some pts, content := () }

def threeUpdates : ServerLog Unit where
  entries id := if id = getChannelId 5 then [10, 11, 12].map channelUpdate else []
  stateId_of_mem id u hu := by
    split at hu
    · subst_vars
      revert u
      decide
    · cases hu
  pts_of_mem id u hu := by
    split at hu
    · revert u
      decide
    · cases hu
  kind_of_mem id u hu := by
    split at hu
    · revert u
      decide
    · cases hu
  sorted id := by
    split
    · decide
    · exact List.Pairwise.nil

theorem handedOver_of_threeUpdates :
    AllSteps (Delivery.step threeUpdates) (fun _ _ d' => HandedOver threeUpdates d'.client) {}
      [⟨[.entry (getChannelId 5)], 100, 1, {}⟩,
        ⟨[.entry (getChannelId 5), .unnumbered { content := () }], 101, 2, {}⟩] :=
  handedOver_of_keepsUp threeUpdates (handedOver_of_empty threeUpdates)
    (AllSteps.cons rfl (keepsUp_of_sendAll rfl (by decide))
      (AllSteps.cons rfl (keepsUp_of_sendAll rfl (by decide)) trivial))

/-- The first two updates are replaced by an `UpdateChannelTooLong` with the `pts` of
the second, which is stored; neither was handed over. -/
theorem lost_behind_channelTooLong :
    ¬ AllSteps (Delivery.step threeUpdates) (fun _ _ d' => HandedOver threeUpdates d'.client) {}
      [⟨[.tooLong 5 1 ()], 100, 1, {}⟩] := by
  intro h
  have hlost := (h _ rfl).1 (getChannelId 5) 11 (by decide) (channelUpdate 10) (by decide)
    (by decide)
  exact absurd hlost (by decide)

end Pyrogram
