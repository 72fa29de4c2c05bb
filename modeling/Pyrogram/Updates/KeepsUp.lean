import Pyrogram.Updates.Cursor
import Pyrogram.Updates.Interrupted

/-!
# Deliveries that keep up

`KeepsUp` is what a batch owes the cursor.  A server that sends no
`UpdateChannelTooLong` with a `pts`, and whose batches are all handled to their end,
keeps up; and a client that is in step with what was sent loses an update wherever a
batch does not keep up.

## Main definitions

* `Undisturbed` — a batch without either disturbance.
* `InStep` — a client that knows no more of the logs than was sent.

## Main results

* `keepsUp_of_undisturbed` — undisturbed deliveries keep up.
* `keepsUp_of_handedOver` — deliveries that lose nothing keep up.
-/

namespace Pyrogram

open Runs

variable {α : Type} {log : ServerLog α}

/-! ### Undisturbed deliveries -/

/-- The batch replaces no updates by an `UpdateChannelTooLong`, and its run gets through
all of its updates. -/
def Undisturbed (log : ServerLog α) (d : Delivery α) (b : Batch α) : Prop :=
  (∀ channel run content, .tooLong channel run content ∉ b.items) ∧
    ∀ us sent, Item.sendAll log d.sent b.items = some (us, sent) →
      b.awaits.completesAll us = true

/-- Everything that was sent was handed to the dispatcher. -/
def AllHanded (log : ServerLog α) (d : Delivery α) : Prop :=
  ∀ id, ∀ u ∈ (log.entries id).take (d.sent id), .update u ∈ d.client.enqueued

/-- Only an `UpdateChannelTooLong` is sent as one with a `pts`. -/
theorem Item.kind_of_send {sent sent' : ℤ → ℕ} {item : Item α} {u : Update α}
    (h : item.send log sent = some (u, sent'))
    (hitem : ∀ channel run content, .tooLong channel run content ≠ item) (hpts : u.pts ≠ none) :
    u.kind ≠ .channelTooLong := by
  rcases send_cases h with ⟨hnone, -⟩ | ⟨k, w, hw, -, -, -,
    ⟨-, channel, run, content, heq⟩ | ⟨rfl, -⟩⟩
  · exact absurd hnone hpts
  · exact absurd heq.symm (hitem channel run content)
  · exact log.kind_of_mem _ u (List.mem_of_getElem? hw)

theorem Item.kind_of_mem_sendAll {items : List (Item α)} :
    ∀ {sent sent' : ℤ → ℕ} {us : List (Update α)},
      sendAll log sent items = some (us, sent') →
      (∀ channel run content, .tooLong channel run content ∉ items) →
      ∀ u ∈ us, u.pts ≠ none → u.kind ≠ .channelTooLong := by
  induction items with
  | nil =>
    intro sent sent' us h _ u hu
    obtain ⟨rfl, -⟩ := Prod.mk.inj (Option.some.inj h)
    cases hu
  | cons item items ih =>
    intro sent sent' us h hitems u hu
    obtain ⟨u₁, sent₁, us₁, hitem, hrest, rfl⟩ := sendAll_cons_eq_some h
    rcases List.mem_cons.mp hu with rfl | hu
    · apply kind_of_send hitem
      intro channel run content heq
      exact hitems channel run content (heq ▸ List.mem_cons_self)
    · refine ih hrest ?_ u hu
      intro channel run content hmem
      exact hitems channel run content (List.mem_cons_of_mem item hmem)

/-- Where all updates of a batch were handed over, so was all that was sent with it. -/
theorem enqueued_of_mem_take_sendAll {c : Client α} {id : ℤ} {items : List (Item α)} :
    ∀ {sent sent' : ℤ → ℕ} {us : List (Update α)},
      Item.sendAll log sent items = some (us, sent') →
      (∀ u ∈ us, u.pts ≠ none → u.kind ≠ .channelTooLong) →
      (∀ u ∈ us, .update u ∈ c.enqueued) →
      (∀ v ∈ (log.entries id).take (sent id), .update v ∈ c.enqueued) →
      ∀ v ∈ (log.entries id).take (sent' id), .update v ∈ c.enqueued := by
  induction items with
  | nil =>
    intro sent sent' us h _ _ hsent
    obtain ⟨-, rfl⟩ := Prod.mk.inj (Option.some.inj h)
    exact hsent
  | cons item items ih =>
    intro sent sent' us h hkind hus hsent
    obtain ⟨u, sent₁, us₁, hitem, hrest, rfl⟩ := Item.sendAll_cons_eq_some h
    have hsent₁ := enqueued_of_mem_take_send hitem (hkind u List.mem_cons_self)
      (hus u List.mem_cons_self) hsent
    exact ih hrest (fun v hv => hkind v (List.mem_cons_of_mem u hv))
      (fun v hv => hus v (List.mem_cons_of_mem u hv)) hsent₁

/-- An undisturbed batch keeps up with a client that was handed everything, and leaves it
so. -/
theorem AllHanded.step {d d' : Delivery α} {b : Batch α} (h : AllHanded log d)
    (hstep : d.step log b = some d') (hb : Undisturbed log d b) :
    KeepsUp log d b ∧ AllHanded log d' := by
  obtain ⟨⟨us, sent⟩, hsend, rfl⟩ := Option.map_eq_some_iff.mp hstep
  have hkind := Item.kind_of_mem_sendAll hsend hb.1
  have hall : b.awaits.handedOf us = us := Awaits.handedOf_of_completesAll (hb.2 us sent hsend)
  constructor
  · apply keepsUp_of_sendAll hsend
    intro u hu hpts
    have hmem : u ∈ us := hall ▸ (Awaits.storedOf_sublist_handedOf us).mem hu
    exact ⟨hkind u hmem hpts, h u.stateId⟩
  · intro id
    have hclient : (d.client.handleUpdates b.awaits (.updates us b.date b.seq)).state.enqueued =
        d.client.enqueued ++ us.map .update := by
      rw [Client.handleUpdates_updates, hall]
      rfl
    refine enqueued_of_mem_take_sendAll hsend hkind ?_ ?_
    · intro u hu
      rw [hclient]
      exact List.mem_append_right _ (List.mem_map_of_mem hu)
    · intro v hv
      rw [hclient]
      exact List.mem_append_left _ (h id v hv)

/-- **Undisturbed deliveries keep up.** -/
theorem keepsUp_of_undisturbed {d : Delivery α} (hd : AllHanded log d) {batches : List (Batch α)}
    (h : AllSteps (Delivery.step log) (fun d b _ => Undisturbed log d b) d batches) :
    AllSteps (Delivery.step log) (fun d b _ => KeepsUp log d b) d batches := by
  refine allSteps_of_invariant (I := AllHanded log) ?_ ?_ hd h
  · intro d b d' hd hstep hb
    exact (hd.step hstep hb).1
  · intro d b d' hd hstep hb
    exact (hd.step hstep hb).2

/-! ### What a batch sends -/

namespace ServerLog

/-- The `pts` of a log increase. -/
theorem pts_lt_of_lt (log : ServerLog α) {id : ℤ} {j k : ℕ} {u v : Update α}
    (hu : (log.entries id)[j]? = some u) (hv : (log.entries id)[k]? = some v) (hjk : j < k) :
    u.pts.getD 0 < v.pts.getD 0 := by
  obtain ⟨hj, rfl⟩ := List.getElem?_eq_some_iff.mp hu
  obtain ⟨hk, rfl⟩ := List.getElem?_eq_some_iff.mp hv
  exact List.pairwise_iff_getElem.mp (log.sorted id) j k hj hk hjk

theorem eq_of_pts_eq (log : ServerLog α) {id : ℤ} {j k : ℕ} {u v : Update α}
    (hu : (log.entries id)[j]? = some u) (hv : (log.entries id)[k]? = some v)
    (h : u.pts = v.pts) : j = k := by
  rcases lt_trichotomy j k with hlt | heq | hgt
  · have hpts := log.pts_lt_of_lt hu hv hlt
    rw [h] at hpts
    exact absurd hpts (lt_irrefl _)
  · exact heq
  · have hpts := log.pts_lt_of_lt hv hu hgt
    rw [h] at hpts
    exact absurd hpts (lt_irrefl _)

/-- What comes later in a log is not among its first `n` updates. -/
theorem pts_lt_of_mem_take (log : ServerLog α) {id : ℤ} {k n : ℕ} {u v : Update α}
    (hu : u ∈ (log.entries id).take n) (hv : (log.entries id)[k]? = some v) (hn : n ≤ k) :
    u.pts.getD 0 < v.pts.getD 0 := by
  obtain ⟨j, hj, rfl⟩ := List.mem_take_iff_getElem.mp hu
  have hjn : j < n := lt_of_lt_of_le hj (min_le_left _ _)
  exact log.pts_lt_of_lt (List.getElem?_eq_getElem (by omega)) hv (by omega)

end ServerLog

/-- The updates `us` take a server from `sent` to `sent'`: their `pts` are those of
updates not sent before, in their order. -/
structure Sends (log : ServerLog α) (sent sent' : ℤ → ℕ) (us : List (Update α)) : Prop where
  le : ∀ id, sent id ≤ sent' id
  entry : ∀ u ∈ us, u.pts ≠ none → ∃ k w, (log.entries u.stateId)[k]? = some w ∧
    w.pts = u.pts ∧ sent u.stateId ≤ k ∧ k < sent' u.stateId
  sorted : us.Pairwise fun u v => u.stateId = v.stateId → ∀ p ∈ u.pts, ∀ q ∈ v.pts, p < q

namespace Sends

variable {sent sent' : ℤ → ℕ} {us : List (Update α)} {u : Update α}

/-- An update without a `pts` in front. -/
theorem cons_of_pts_eq_none (h : Sends log sent sent' us) (hpts : u.pts = none) :
    Sends log sent sent' (u :: us) := by
  refine ⟨h.le, ?_, List.pairwise_cons.mpr ⟨?_, h.sorted⟩⟩
  · intro v hv hvpts
    rcases List.mem_cons.mp hv with rfl | hv
    · exact absurd hpts hvpts
    · exact h.entry v hv hvpts
  · intro v _ _ p hp
    rw [hpts] at hp
    cases hp

/-- An update in front with the `pts` of one that was not sent before. -/
theorem cons_entry {k : ℕ} {w : Update α}
    (h : Sends log (Function.update sent u.stateId (k + 1)) sent' us)
    (hw : (log.entries u.stateId)[k]? = some w) (hwu : w.pts = u.pts)
    (hk : sent u.stateId ≤ k) : Sends log sent sent' (u :: us) := by
  have hle : ∀ id, sent id ≤ Function.update sent u.stateId (k + 1) id := by
    intro id
    by_cases hid : id = u.stateId
    · subst hid
      rw [Function.update_self]
      omega
    · rw [Function.update_of_ne hid]
  have hlast : k < sent' u.stateId := by
    have hlast := h.le u.stateId
    rw [Function.update_self] at hlast
    omega
  refine ⟨fun id => (hle id).trans (h.le id), ?_, List.pairwise_cons.mpr ⟨?_, h.sorted⟩⟩
  · intro v hv hvpts
    rcases List.mem_cons.mp hv with rfl | hv
    · exact ⟨k, w, hw, hwu, hk, hlast⟩
    · obtain ⟨k', w', hw', hwv, hk', hlast'⟩ := h.entry v hv hvpts
      exact ⟨k', w', hw', hwv, (hle v.stateId).trans hk', hlast'⟩
  · intro v hv hid p hp q hq
    obtain ⟨k', w', hw', hwv, hk', -⟩ := h.entry v hv (Option.ne_none_iff_exists'.mpr ⟨q, hq⟩)
    rw [← hid] at hw' hk'
    rw [Function.update_self] at hk'
    -- the later update stands behind the earlier one in the log
    have hlt := log.pts_lt_of_lt hw hw' (by omega)
    rwa [hwu, hwv, hp, hq] at hlt

end Sends

theorem sends_of_sendAll {items : List (Item α)} :
    ∀ {sent sent' : ℤ → ℕ} {us : List (Update α)},
      Item.sendAll log sent items = some (us, sent') → Sends log sent sent' us := by
  induction items with
  | nil =>
    intro sent sent' us h
    obtain ⟨rfl, rfl⟩ := Prod.mk.inj (Option.some.inj h)
    exact ⟨fun _ => le_rfl, fun _ hu => absurd hu List.not_mem_nil, List.Pairwise.nil⟩
  | cons item items ih =>
    intro sent sent' us h
    obtain ⟨u, sent₁, us₁, hitem, hrest, rfl⟩ := Item.sendAll_cons_eq_some h
    rcases Item.send_cases hitem with ⟨hpts, rfl⟩ | ⟨k, w, hw, hwu, hk, rfl, -⟩
    · exact (ih hrest).cons_of_pts_eq_none hpts
    · exact (ih hrest).cons_entry hw hwu hk

/-- Nothing is sent twice. -/
theorem Sends.not_mem {sent sent' : ℤ → ℕ} {us : List (Update α)} (h : Sends log sent sent' us)
    {id : ℤ} {v : Update α} (hv : v ∈ (log.entries id).take (sent id)) : v ∉ us := by
  intro hvus
  have hmem := List.mem_of_mem_take hv
  obtain ⟨k, w, hw, hwv, hk, -⟩ := h.entry v hvus (log.pts_of_mem id v hmem)
  rw [log.stateId_of_mem id v hmem] at hw hk
  have hlt := log.pts_lt_of_mem_take hv hw hk
  rw [hwv] at hlt
  exact hlt.false

/-- No two updates of a batch count as the same update of a log. -/
theorem Sends.eq_of_pts_eq {sent sent' : ℤ → ℕ} {us : List (Update α)}
    (h : Sends log sent sent' us) {u v : Update α} (hu : u ∈ us) (hv : v ∈ us)
    (hid : u.stateId = v.stateId) {p : ℤ} (hup : u.pts = some p) (hvp : v.pts = some p) :
    u = v := by
  have hsorted := List.pairwise_iff_getElem.mp h.sorted
  obtain ⟨j, hj, rfl⟩ := List.getElem_of_mem hu
  obtain ⟨k, hk, rfl⟩ := List.getElem_of_mem hv
  rcases lt_trichotomy j k with hlt | rfl | hgt
  · exact absurd (hsorted j k hj hk hlt hid p hup p hvp) (lt_irrefl p)
  · rfl
  · exact absurd (hsorted k j hk hj hgt hid.symm p hvp p hup) (lt_irrefl p)

/-- The cursors of a batch increase as well. -/
theorem Sends.pairwise_writesOf {sent sent' : ℤ → ℕ} {us : List (Update α)}
    (h : Sends log sent sent' us) (a : Awaits α) (date seq : ℤ) :
    (a.writesOf us date seq).Pairwise fun s s' =>
      s.id = s'.id → ∀ p ∈ s.pts, ∀ p' ∈ s'.pts, p < p' := by
  have hstored : (a.storedOf us).Sublist us :=
    (Awaits.storedOf_sublist_handedOf us).trans (Awaits.handedOf_prefix us).sublist
  refine List.pairwise_append.mpr ⟨?_, ?_, ?_⟩
  · refine List.pairwise_filterMap.mpr ((h.sorted.sublist hstored).imp ?_)
    intro u v huv s hs s' hs'
    obtain ⟨-, rfl⟩ := Update.updateState_eq_some.mp hs
    obtain ⟨-, rfl⟩ := Update.updateState_eq_some.mp hs'
    exact huv
  · split
    · exact List.pairwise_singleton _ _
    · exact List.Pairwise.nil
  · intro s _ s' hs' _ p _ p' hp'
    split at hs'
    · obtain rfl := List.mem_singleton.mp hs'
      cases hp'
    · cases hs'

/-! ### Deliveries that lose nothing -/

/-- The client was handed only what was sent of a log, and stores no `pts` that was not
sent. -/
structure InStep (log : ServerLog α) (d : Delivery α) : Prop where
  enqueued : ∀ id, ∀ u ∈ log.entries id, .update u ∈ d.client.enqueued →
    u ∈ (log.entries id).take (d.sent id)
  stored : ∀ id p, d.client.updateStates.stored UpdateState.pts id = some p →
    ∀ k u, (log.entries id)[k]? = some u → d.sent id ≤ k → p < u.pts.getD 0

/-- What a batch makes of the client. -/
theorem Delivery.step_eq {d d' : Delivery α} {b : Batch α} (h : d.step log b = some d') :
    ∃ us, Item.sendAll log d.sent b.items = some (us, d'.sent) ∧
      d'.client = d.client.extend (b.awaits.handedOf us) (b.awaits.writesOf us b.date b.seq) := by
  obtain ⟨⟨us, sent⟩, hsend, rfl⟩ := Option.map_eq_some_iff.mp h
  exact ⟨us, hsend, Client.handleUpdates_updates _ _ _ _ _⟩

theorem mem_enqueued_extend {c : Client α} {us : List (Update α)} {writes : List UpdateState}
    {u : Update α} :
    .update u ∈ (c.extend us writes).enqueued ↔ .update u ∈ c.enqueued ∨ u ∈ us := by
  simp [Client.extend]

namespace InStep

variable {d d' : Delivery α} {b : Batch α}

/-- A client stays in step. -/
theorem step (h : InStep log d) (hstep : d.step log b = some d') : InStep log d' := by
  obtain ⟨us, hsend, hclient⟩ := Delivery.step_eq hstep
  have hs := sends_of_sendAll hsend
  constructor
  · intro id u hu hmem
    rw [hclient, mem_enqueued_extend] at hmem
    rcases hmem with hmem | hmem
    · exact (List.take_sublist_take_left (hs.le id)).mem (h.enqueued id u hu hmem)
    · have hid := log.stateId_of_mem id u hu
      obtain ⟨k, w, hw, hwu, -, hk⟩ :=
        hs.entry u ((Awaits.handedOf_prefix us).mem hmem) (log.pts_of_mem id u hu)
      rw [hid] at hw hk
      obtain ⟨j, hj⟩ := List.mem_iff_getElem?.mp hu
      obtain rfl : j = k := log.eq_of_pts_eq hj hw hwu.symm
      obtain ⟨hlen, rfl⟩ := List.getElem?_eq_some_iff.mp hj
      exact List.mem_take_iff_getElem.mpr ⟨j, by omega, rfl⟩
  · intro id p hp k u hu hk
    rw [hclient] at hp
    rcases UpdateTable.stored_pts_foldl_eq_some hp with hp | ⟨s, hsw, rfl, hsp⟩
    · exact h.stored id p hp k u hu ((hs.le id).trans hk)
    · obtain ⟨v, hv, hvs⟩ := Awaits.exists_handedOf_of_mem_writesOf hsw
        (Or.inl (hsp ▸ Option.some_ne_none p))
      obtain ⟨-, rfl⟩ := Update.updateState_eq_some.mp hvs
      change v.pts = some p at hsp
      obtain ⟨j, w, hw, hwv, -, hj⟩ := hs.entry v ((Awaits.handedOf_prefix us).mem hv)
        (hsp ▸ Option.some_ne_none p)
      have hlt := log.pts_lt_of_lt hw hu (lt_of_lt_of_le hj hk)
      rwa [hwv, hsp] at hlt

/-- **A batch that loses nothing keeps up.** -/
theorem keepsUp (h : InStep log d) (hstep : d.step log b = some d')
    (hall : HandedOver log d'.client) : KeepsUp log d b := by
  obtain ⟨us, hsend, hclient⟩ := Delivery.step_eq hstep
  have hs := sends_of_sendAll hsend
  apply keepsUp_of_sendAll hsend
  intro u hu hpts
  have huhanded := (Awaits.storedOf_sublist_handedOf us).mem hu
  have huus := (Awaits.handedOf_prefix us).mem huhanded
  obtain ⟨p, hp⟩ := Option.ne_none_iff_exists'.mp hpts
  obtain ⟨k, w, hw, hwu, hk, -⟩ := hs.entry u huus hpts
  -- what is stored in the end has reached the `pts` of `u`
  obtain ⟨q, hq, hpq⟩ : ∃ q, d'.client.updateStates.stored UpdateState.pts u.stateId = some q ∧
      p ≤ q := by
    have hwrite : (⟨u.stateId, u.pts, u.qts, none, none⟩ : UpdateState) ∈
        b.awaits.writesOf us b.date b.seq :=
      List.mem_append_left _ (List.mem_filterMap.mpr
        ⟨u, hu, Update.updateState_eq_some.mpr ⟨Or.inl hpts, rfl⟩⟩)
    rw [hclient]
    exact UpdateTable.exists_le_stored_pts_foldl (hs.pairwise_writesOf _ _ _) hwrite hp
  have hcovered : ∀ v ∈ log.entries u.stateId, v.pts.getD 0 ≤ p → v ∉ us →
      .update v ∈ d.client.enqueued := by
    intro v hv hvp hvus
    have hmem := hall u.stateId q hq v hv (hvp.trans hpq)
    rw [hclient, mem_enqueued_extend] at hmem
    exact hmem.resolve_right fun hmem => hvus ((Awaits.handedOf_prefix us).mem hmem)
  constructor
  · -- an `UpdateChannelTooLong` stands for an update that was not sent
    intro hkind
    have hwlog := List.mem_of_getElem? hw
    have hwus : w ∉ us := by
      intro hmem
      have hwid := log.stateId_of_mem u.stateId w hwlog
      obtain rfl : u = w := hs.eq_of_pts_eq huus hmem hwid.symm hp (hwu.trans hp)
      exact log.kind_of_mem _ u hwlog hkind
    have hwp : w.pts.getD 0 ≤ p := by rw [hwu, hp]; rfl
    have hsent := h.enqueued u.stateId w hwlog (hcovered w hwlog hwp hwus)
    exact (log.pts_lt_of_mem_take hsent hw hk).false
  · intro v hv
    have hlt := log.pts_lt_of_mem_take hv hw hk
    rw [hwu, hp] at hlt
    exact hcovered v (List.mem_of_mem_take hv) hlt.le (hs.not_mem hv)

end InStep

/-- **Deliveries that lose nothing keep up.** -/
theorem keepsUp_of_handedOver {d : Delivery α} (hd : InStep log d) {batches : List (Batch α)}
    (h : AllSteps (Delivery.step log) (fun _ _ d' => HandedOver log d'.client) d batches) :
    AllSteps (Delivery.step log) (fun d b _ => KeepsUp log d b) d batches := by
  refine allSteps_of_invariant (I := InStep log) ?_ ?_ hd h
  · intro d b d' hd hstep hall
    exact hd.keepsUp hstep hall
  · intro d b d' hd hstep _
    exact hd.step hstep

end Pyrogram
