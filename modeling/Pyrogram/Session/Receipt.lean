import Pyrogram.Errors
import Mathlib.Data.Finset.Card
import Mathlib.Data.List.AList

/-!
# Publication receipts

`_publication_receipt` reads from the result of a publication which message every
random id became.  It goes through the updates once, rejecting what does not belong
to the query, and compares the ids at the end.

## Main definitions

* `publicationReceipt` — the receipt, or the reason it is refused.
* `Accounts` — what an update list must be like to be accepted, without its order.

## Main results

* `scan_spec` — the pass over the updates accepts exactly the lists that account for
  every update.
* `publicationReceipt_spec` — **a receipt is a bijection** from the random ids to the
  new messages, and the order of the updates does not matter.
-/

namespace Pyrogram.Publication

/-- The destination of a query. -/
inductive InputPeer
  | self
  | user (userId : ℤ)
  | chat (chatId : ℤ)
  | channel (channelId : ℤ)
  /-- A peer taken from a message, or none. -/
  | other
  deriving DecidableEq, Repr

inductive Peer
  | user (userId : ℤ)
  | chat (chatId : ℤ)
  | channel (channelId : ℤ)
  deriving DecidableEq, Repr

/-- A message, a service message or an empty message; the last has no `out`, and may
have no `peer_id`. -/
structure NewMessage where
  id : ℤ
  peerId : Option Peer
  out : Bool
  deriving DecidableEq, Repr

inductive Update
  | messageId (randomId id : ℤ)
  /-- `UpdateNewMessage`, `UpdateNewChannelMessage` or `UpdateNewScheduledMessage`. -/
  | newMessage (message : NewMessage)
  | other
  deriving DecidableEq, Repr

/-- The result of a request. -/
inductive Result
  | shortSentMessage (id : ℤ) (out : Bool)
  /-- A result with a list `updates`. -/
  | updates (updates : List Update)
  /-- Any other object. -/
  | other
  deriving DecidableEq, Repr

/-- `getattr(result, "updates", [])`. -/
def Result.updateList : Result → List Update
  | .updates us => us
  | .shortSentMessage _ _ | .other => []

/-- A dict. -/
abbrev Dict (κ ν : Type) := AList fun _ : κ => ν

section Receipt

variable (destination : InputPeer) (accountId : ℤ) (randomIds : List ℤ)

/-- The destination is the account itself. -/
def SelfPeer : Prop := destination = .self ∨ destination = .user accountId

instance : Decidable (SelfPeer destination accountId) := inferInstanceAs (Decidable (_ ∨ _))

def SamePeer : Option Peer → Prop
  | some (.channel channelId) => destination = .channel channelId
  | some (.chat chatId) => destination = .chat chatId
  | some (.user userId) => destination = .user userId ∨ (destination = .self ∧ userId = accountId)
  | none => False

instance : DecidablePred (SamePeer destination accountId) := fun peer => by
  unfold SamePeer
  split <;> infer_instance

/-- The message belongs to the destination, and is outgoing or the account's own. -/
def Owned (message : NewMessage) : Prop :=
  SamePeer destination accountId message.peerId ∧
    (message.out = true ∨ SelfPeer destination accountId)

instance : DecidablePred (Owned destination accountId) :=
  fun _ => inferInstanceAs (Decidable (_ ∧ _))

/-- The loop over the updates. -/
def scan : Dict ℤ ℤ → Dict ℤ NewMessage → List Update →
    Except String (Dict ℤ ℤ × Dict ℤ NewMessage)
  | mapping, messages, [] => .ok (mapping, messages)
  | mapping, messages, .messageId randomId id :: updates =>
      if randomId ∉ randomIds ∨ randomId ∈ mapping then
        .error "ordinary_publication_foreign_or_duplicate_mapping"
      else scan (mapping.insert randomId id) messages updates
  | mapping, messages, .newMessage message :: updates =>
      if message.id ∈ messages ∨ ¬ Owned destination accountId message then
        .error "ordinary_publication_foreign_or_conflicting_message"
      else scan mapping (messages.insert message.id message) updates
  | mapping, messages, .other :: updates => scan mapping messages updates

/-- The comparison after the loop. -/
def compare (mapping : Dict ℤ ℤ) (messages : Dict ℤ NewMessage) : Except String (List ℤ) :=
  let targetIds := randomIds.map fun randomId => (mapping.lookup randomId).getD 0
  if (∃ target ∈ targetIds, target ≤ 0) ∨ targetIds.toFinset.card ≠ randomIds.length ∨
      messages.keys.toFinset ≠ targetIds.toFinset then
    .error "ordinary_publication_receipt_incomplete"
  else .ok targetIds

/-- `_publication_receipt`; an error is the text of a `PublicationUnconfirmed`. -/
def publicationReceipt (result : Result) : Except String (List ℤ) :=
  let scanned := do
    let (mapping, messages) ← scan destination accountId randomIds ∅ ∅ result.updateList
    compare randomIds mapping messages
  match result with
  | .shortSentMessage id out =>
      if randomIds.length = 1 ∧ 0 < id ∧ (out = true ∨ SelfPeer destination accountId) then .ok [id]
      else scanned
  | .updates _ | .other => scanned

end Receipt

/-! ### What the updates say -/

/-- The ids the updates map random ids to. -/
def mappings (updates : List Update) : List (ℤ × ℤ) :=
  updates.filterMap fun
    | .messageId randomId id => some (randomId, id)
    | _ => none

/-- The messages the updates bring. -/
def newMessages (updates : List Update) : List NewMessage :=
  updates.filterMap fun
    | .newMessage message => some message
    | _ => none

/-- Every update is accounted for: a random id of the query is mapped at most once
and no other is, and no message comes twice or belongs to somebody else. -/
structure Accounts (destination : InputPeer) (accountId : ℤ) (randomIds : List ℤ)
    (updates : List Update) : Prop where
  known : ∀ p ∈ mappings updates, p.1 ∈ randomIds
  once : ((mappings updates).map Prod.fst).Nodup
  owned : ∀ m ∈ newMessages updates, Owned destination accountId m
  distinct : ((newMessages updates).map NewMessage.id).Nodup

/-- The dicts hold what the updates say. -/
structure Holds (updates : List Update) (mapping : Dict ℤ ℤ) (messages : Dict ℤ NewMessage) :
    Prop where
  mapping : ∀ randomId id, mapping.lookup randomId = some id ↔ (randomId, id) ∈ mappings updates
  messages : ∀ id, id ∈ messages ↔ id ∈ (newMessages updates).map NewMessage.id

variable {destination : InputPeer} {accountId : ℤ} {randomIds : List ℤ} {updates done : List Update}
  {mapping mapping' : Dict ℤ ℤ} {messages messages' : Dict ℤ NewMessage} {message : NewMessage}
  {randomId id : ℤ}

theorem mappings_append (us us' : List Update) :
    mappings (us ++ us') = mappings us ++ mappings us' :=
  List.filterMap_append

theorem newMessages_append (us us' : List Update) :
    newMessages (us ++ us') = newMessages us ++ newMessages us' :=
  List.filterMap_append

@[simp] theorem mappings_messageId :
    mappings (done ++ [.messageId randomId id]) = mappings done ++ [(randomId, id)] :=
  mappings_append _ _

@[simp] theorem mappings_newMessage :
    mappings (done ++ [.newMessage message]) = mappings done := by
  rw [mappings_append]
  exact List.append_nil _

@[simp] theorem mappings_other : mappings (done ++ [.other]) = mappings done := by
  rw [mappings_append]
  exact List.append_nil _

@[simp] theorem newMessages_messageId :
    newMessages (done ++ [.messageId randomId id]) = newMessages done := by
  rw [newMessages_append]
  exact List.append_nil _

@[simp] theorem newMessages_newMessage :
    newMessages (done ++ [.newMessage message]) = newMessages done ++ [message] :=
  newMessages_append _ _

@[simp] theorem newMessages_other : newMessages (done ++ [.other]) = newMessages done := by
  rw [newMessages_append]
  exact List.append_nil _

theorem accounts_nil (destination : InputPeer) (accountId : ℤ) (randomIds : List ℤ) :
    Accounts destination accountId randomIds [] := by
  constructor <;> simp [mappings, newMessages]

theorem holds_nil : Holds [] ∅ ∅ := by
  constructor <;> simp [mappings, newMessages]

theorem Holds.mem_mapping (h : Holds done mapping messages) :
    randomId ∈ mapping ↔ randomId ∈ (mappings done).map Prod.fst := by
  rw [← AList.lookup_isSome, Option.isSome_iff_exists]
  simp only [h.mapping, List.mem_map, Prod.exists, exists_and_right, exists_eq_right]

/-- What was accounted for before the last updates. -/
theorem Accounts.of_append {us : List Update}
    (h : Accounts destination accountId randomIds (done ++ us)) :
    Accounts destination accountId randomIds done := by
  obtain ⟨hknown, honce, howned, hdistinct⟩ := h
  rw [mappings_append] at hknown honce
  rw [newMessages_append] at howned hdistinct
  rw [List.map_append] at honce hdistinct
  refine ⟨?_, honce.of_append_left, ?_, hdistinct.of_append_left⟩
  · intro p hp
    exact hknown p (List.mem_append_left _ hp)
  · intro m hm
    exact howned m (List.mem_append_left _ hm)

/-- One more update is accounted for if it is fit for what came before. -/
theorem accounts_messageId : Accounts destination accountId randomIds
      (done ++ [.messageId randomId id]) ↔
    Accounts destination accountId randomIds done ∧
      ¬ (randomId ∉ randomIds ∨ randomId ∈ (mappings done).map Prod.fst) := by
  constructor
  · intro h
    refine ⟨h.of_append, ?_⟩
    rintro (hforeign | htwice)
    · refine hforeign (h.known (randomId, id) ?_)
      rw [mappings_messageId]
      exact List.mem_append_right _ List.mem_cons_self
    · have honce := h.once
      rw [mappings_messageId, List.map_append, List.nodup_append] at honce
      exact honce.2.2 randomId htwice randomId List.mem_cons_self rfl
  · rintro ⟨⟨hknown, honce, howned, hdistinct⟩, hfit⟩
    rw [not_or, not_not] at hfit
    refine ⟨?_, ?_, newMessages_messageId.symm ▸ howned, newMessages_messageId.symm ▸ hdistinct⟩
    · intro p hp
      rw [mappings_messageId] at hp
      rcases List.mem_append.mp hp with hp | hp
      · exact hknown p hp
      · obtain rfl := List.mem_singleton.mp hp
        exact hfit.1
    · rw [mappings_messageId, List.map_append, List.nodup_append]
      refine ⟨honce, List.nodup_singleton _, ?_⟩
      rintro r hr r' hr' rfl
      obtain rfl := List.mem_singleton.mp hr'
      exact hfit.2 hr

theorem accounts_newMessage : Accounts destination accountId randomIds
      (done ++ [.newMessage message]) ↔
    Accounts destination accountId randomIds done ∧
      ¬ (message.id ∈ (newMessages done).map NewMessage.id ∨
        ¬ Owned destination accountId message) := by
  constructor
  · intro h
    refine ⟨h.of_append, ?_⟩
    rintro (htwice | hforeign)
    · have hdistinct := h.distinct
      rw [newMessages_newMessage, List.map_append, List.nodup_append] at hdistinct
      exact hdistinct.2.2 message.id htwice message.id List.mem_cons_self rfl
    · refine hforeign (h.owned message ?_)
      rw [newMessages_newMessage]
      exact List.mem_append_right _ List.mem_cons_self
  · rintro ⟨⟨hknown, honce, howned, hdistinct⟩, hfit⟩
    rw [not_or, not_not] at hfit
    refine ⟨mappings_newMessage.symm ▸ hknown, mappings_newMessage.symm ▸ honce, ?_, ?_⟩
    · intro m hm
      rw [newMessages_newMessage] at hm
      rcases List.mem_append.mp hm with hm | hm
      · exact howned m hm
      · obtain rfl := List.mem_singleton.mp hm
        exact hfit.2
    · rw [newMessages_newMessage, List.map_append, List.nodup_append]
      refine ⟨hdistinct, List.nodup_singleton _, ?_⟩
      rintro r hr r' hr' rfl
      obtain rfl := List.mem_singleton.mp hr'
      exact hfit.1 hr

/-- An update of no interest changes nothing. -/
theorem accounts_other : Accounts destination accountId randomIds (done ++ [.other]) ↔
    Accounts destination accountId randomIds done := by
  constructor
  · exact Accounts.of_append
  · rintro ⟨hknown, honce, howned, hdistinct⟩
    exact ⟨mappings_other.symm ▸ hknown, mappings_other.symm ▸ honce, newMessages_other.symm ▸
      howned, newMessages_other.symm ▸ hdistinct⟩

theorem Holds.messageId (h : Holds done mapping messages) (hnew : randomId ∉ mapping) :
    Holds (done ++ [.messageId randomId id]) (mapping.insert randomId id) messages := by
  refine ⟨?_, ?_⟩
  · intro r i
    rw [mappings_messageId, List.mem_append, List.mem_singleton, Prod.mk.injEq, ← h.mapping]
    rcases eq_or_ne r randomId with rfl | hne
    · rw [AList.lookup_insert, AList.lookup_eq_none.mpr hnew]
      simp [eq_comm]
    · rw [AList.lookup_insert_ne hne]
      simp [hne]
  · rw [newMessages_messageId]
    exact h.messages

theorem Holds.newMessage (h : Holds done mapping messages) :
    Holds (done ++ [.newMessage message]) mapping (messages.insert message.id message) := by
  refine ⟨mappings_newMessage.symm ▸ h.mapping, ?_⟩
  intro i
  rw [newMessages_newMessage, AList.mem_insert, h.messages, List.map_append, List.mem_append,
    List.map_singleton, List.mem_singleton, or_comm]

theorem Holds.other (h : Holds done mapping messages) :
    Holds (done ++ [.other]) mapping messages := by
  exact ⟨mappings_other.symm ▸ h.mapping, newMessages_other.symm ▸ h.messages⟩

/-- **The pass over the updates accepts exactly the lists that account for every
update**, and its dicts hold what they say. -/
theorem scan_spec (us : List Update) (haccounts : Accounts destination accountId randomIds done)
    (hholds : Holds done mapping messages) :
    (∃ mapping' messages', scan destination accountId randomIds mapping messages us =
        .ok (mapping', messages') ∧
      Accounts destination accountId randomIds (done ++ us) ∧
        Holds (done ++ us) mapping' messages') ∨
    (∃ msg, scan destination accountId randomIds mapping messages us = .error msg ∧
      ¬ Accounts destination accountId randomIds (done ++ us)) := by
  induction us generalizing done mapping messages with
  | nil =>
    rw [List.append_nil]
    exact Or.inl ⟨mapping, messages, rfl, haccounts, hholds⟩
  | cons u us ih =>
    -- a rejected update spoils every list it is part of
    have hreject : ¬ Accounts destination accountId randomIds (done ++ [u]) →
        ¬ Accounts destination accountId randomIds (done ++ u :: us) := by
      intro hnot h
      rw [List.append_cons] at h
      exact hnot h.of_append
    cases u with
    | messageId randomId id =>
      rw [scan]
      by_cases hfit : randomId ∉ randomIds ∨ randomId ∈ mapping
      · rw [if_pos hfit]
        refine Or.inr ⟨_, rfl, hreject ?_⟩
        rw [accounts_messageId, ← hholds.mem_mapping]
        exact fun h => h.2 hfit
      · rw [if_neg hfit, List.append_cons]
        refine ih ?_ (hholds.messageId (not_or.mp hfit).2)
        rw [accounts_messageId, ← hholds.mem_mapping]
        exact ⟨haccounts, hfit⟩
    | newMessage message =>
      rw [scan]
      by_cases hfit : message.id ∈ messages ∨ ¬ Owned destination accountId message
      · rw [if_pos hfit]
        refine Or.inr ⟨_, rfl, hreject ?_⟩
        rw [accounts_newMessage, ← hholds.messages]
        exact fun h => h.2 hfit
      · rw [if_neg hfit, List.append_cons]
        refine ih ?_ hholds.newMessage
        rw [accounts_newMessage, ← hholds.messages]
        exact ⟨haccounts, hfit⟩
    | other =>
      rw [scan, List.append_cons]
      exact ih (accounts_other.mpr haccounts) hholds.other

/-- The whole pass, from the empty dicts. -/
theorem scan_empty (destination : InputPeer) (accountId : ℤ) (randomIds : List ℤ)
    (us : List Update) :
    (∃ mapping messages, scan destination accountId randomIds ∅ ∅ us = .ok (mapping, messages) ∧
      Accounts destination accountId randomIds us ∧ Holds us mapping messages) ∨
    (∃ msg, scan destination accountId randomIds ∅ ∅ us = .error msg ∧
      ¬ Accounts destination accountId randomIds us) := by
  exact scan_spec us (accounts_nil destination accountId randomIds) holds_nil

/-! ### The receipt -/

theorem Accounts.perm {us us' : List Update} (hp : us.Perm us')
    (h : Accounts destination accountId randomIds us) :
    Accounts destination accountId randomIds us' := by
  have hm : (mappings us).Perm (mappings us') := hp.filterMap _
  have hn : (newMessages us).Perm (newMessages us') := hp.filterMap _
  refine ⟨?_, (hm.map Prod.fst).nodup_iff.mp h.once, ?_, (hn.map NewMessage.id).nodup_iff.mp
    h.distinct⟩
  · intro p hp'
    exact h.known p (hm.mem_iff.mpr hp')
  · intro m hm'
    exact h.owned m (hn.mem_iff.mpr hm')

/-- The comparison only sees what the updates say. -/
theorem compare_perm {us us' : List Update} (hp : us.Perm us') (h : Holds us mapping messages)
    (h' : Holds us' mapping' messages') :
    compare randomIds mapping messages = compare randomIds mapping' messages' := by
  have hlookup : ∀ r, mapping.lookup r = mapping'.lookup r := by
    intro r
    refine Option.ext ?_
    intro i
    rw [h.mapping, h'.mapping]
    exact (hp.filterMap _).mem_iff
  have hkeys : messages.keys.toFinset = messages'.keys.toFinset := by
    ext i
    rw [List.mem_toFinset, List.mem_toFinset, ← AList.mem_keys, ← AList.mem_keys, h.messages,
      h'.messages]
    exact ((hp.filterMap _).map NewMessage.id).mem_iff
  simp only [compare, hlookup, hkeys]

/-- **The order of the updates does not matter**, neither for the acceptance of a
receipt nor for its ids. -/
theorem publicationReceipt_perm {us us' : List Update} (hp : us.Perm us') :
    (publicationReceipt destination accountId randomIds (.updates us)).toOption =
      (publicationReceipt destination accountId randomIds (.updates us')).toOption := by
  show (scan destination accountId randomIds ∅ ∅ us >>= _).toOption =
    (scan destination accountId randomIds ∅ ∅ us' >>= _).toOption
  rcases scan_empty destination accountId randomIds us with
    ⟨mapping, messages, hscan, haccounts, hholds⟩ | ⟨msg, hscan, hnot⟩
  · rcases scan_empty destination accountId randomIds us' with
      ⟨mapping', messages', hscan', -, hholds'⟩ | ⟨msg', hscan', hnot'⟩
    · rw [hscan, hscan']
      exact congrArg Except.toOption (compare_perm hp hholds hholds')
    · exact absurd (haccounts.perm hp) hnot'
  · rcases scan_empty destination accountId randomIds us' with
      ⟨mapping', messages', hscan', haccounts', -⟩ | ⟨msg', hscan', hnot'⟩
    · exact absurd (haccounts'.perm hp.symm) hnot
    · rw [hscan, hscan']
      rfl

/-- The result is a short sent message, and accepted at once. -/
def ShortAccepted (destination : InputPeer) (accountId : ℤ) (randomIds : List ℤ)
    (result : Result) : Prop :=
  ∃ id out, result = .shortSentMessage id out ∧ randomIds.length = 1 ∧ 0 < id ∧
    (out = true ∨ SelfPeer destination accountId)

/-- The updates are the receipt of the ids `targetIds`: each is what the only mapping
of its random id says, the new messages carry these ids once each, and they belong to
the destination. -/
structure Receipt (destination : InputPeer) (accountId : ℤ) (randomIds : List ℤ)
    (updates : List Update) (targetIds : List ℤ) : Prop where
  mapped : List.Forall₂ (fun randomId target =>
    (mappings updates).filter (fun p => p.1 = randomId) = [(randomId, target)]) randomIds targetIds
  carried : ((newMessages updates).map NewMessage.id).Perm targetIds
  owned : ∀ m ∈ newMessages updates, Owned destination accountId m

/-- A list with distinct keys has one pair for the key of each. -/
theorem filter_fst_eq_singleton {l : List (ℤ × ℤ)} (hl : (l.map Prod.fst).Nodup) {p : ℤ × ℤ}
    (hp : p ∈ l) : l.filter (fun q => q.1 = p.1) = [p] := by
  induction l with
  | nil => cases hp
  | cons q l ih =>
    rw [List.map_cons, List.nodup_cons] at hl
    rcases List.mem_cons.mp hp with rfl | hp
    · rw [List.filter_cons_of_pos (by simp), List.filter_eq_nil_iff.mpr]
      intro q hq heq
      exact hl.1 (List.mem_map.mpr ⟨q, hq, of_decide_eq_true heq⟩)
    · have hne : q.1 ≠ p.1 := by
        intro heq
        exact hl.1 (heq ▸ List.mem_map_of_mem hp)
      rw [List.filter_cons_of_neg (by simpa using hne)]
      exact ih hl.2 hp

/-- What passes the comparison. -/
theorem compare_eq_ok {t : List ℤ} (h : compare randomIds mapping messages = .ok t) :
    t = randomIds.map (fun randomId => (mapping.lookup randomId).getD 0) ∧ (∀ x ∈ t, 0 < x) ∧
      t.Nodup ∧ ∀ x, x ∈ messages ↔ x ∈ t := by
  simp only [compare] at h
  split at h
  · cases h
  · rename_i hfit
    cases h
    simp only [not_or, not_exists, not_and, not_le, ne_eq, not_not] at hfit
    obtain ⟨hpos, hcard, hkeys⟩ := hfit
    refine ⟨rfl, hpos, ?_, ?_⟩
    · rw [← Multiset.coe_nodup, ← Multiset.toFinset_card_eq_card_iff_nodup, Multiset.coe_card,
        List.length_map]
      exact hcard
    · intro x
      rw [← List.mem_toFinset, ← hkeys, List.mem_toFinset, AList.mem_keys]

/-- A receipt is a short sent message accepted at once, or what the updates say. -/
theorem publicationReceipt_eq_ok {result : Result} {t : List ℤ}
    (h : publicationReceipt destination accountId randomIds result = .ok t) :
    (∃ id out, result = .shortSentMessage id out ∧ randomIds.length = 1 ∧ 0 < id ∧
      (out = true ∨ SelfPeer destination accountId) ∧ t = [id]) ∨
    (do
      let (mapping, messages) ← scan destination accountId randomIds ∅ ∅ result.updateList
      compare randomIds mapping messages) = .ok t := by
  cases result with
  | updates us => exact Or.inr h
  | other => exact Or.inr h
  | shortSentMessage id out =>
    simp only [publicationReceipt] at h
    split at h
    · rename_i hshort
      cases h
      exact Or.inl ⟨id, out, rfl, hshort.1, hshort.2.1, hshort.2.2, rfl⟩
    · exact Or.inr h

/-- What the updates say of the ids that pass the comparison. -/
theorem Holds.receipt {t : List ℤ} (h : Holds updates mapping messages)
    (haccounts : Accounts destination accountId randomIds updates)
    (hok : compare randomIds mapping messages = .ok t) :
    Receipt destination accountId randomIds updates t := by
  obtain ⟨rfl, hpos, hnodup, hkeys⟩ := compare_eq_ok hok
  refine ⟨?_, ?_, haccounts.owned⟩
  · rw [List.forall₂_map_right_iff, List.forall₂_same]
    intro r hr
    -- a random id without a mapping would have the id 0
    have hpos := hpos _ (List.mem_map_of_mem hr)
    obtain ⟨i, hi⟩ : ∃ i, mapping.lookup r = some i := by
      rw [← Option.isSome_iff_exists, Option.isSome_iff_ne_none]
      intro hnone
      rw [hnone] at hpos
      exact absurd hpos (lt_irrefl 0)
    rw [hi, Option.getD_some]
    exact filter_fst_eq_singleton haccounts.once ((h.mapping r i).mp hi)
  · rw [List.perm_ext_iff_of_nodup haccounts.distinct hnodup]
    intro x
    rw [← h.messages, hkeys]

/-- **A receipt is a bijection**: the ids it returns are positive, distinct, and one
for every random id, and but for an accepted short sent message they are the ids the
only mappings of the random ids say and the ids of the new messages, which belong to
the destination.  Permuting the updates changes neither the acceptance nor the ids. -/
theorem publicationReceipt_spec (destination : InputPeer) (accountId : ℤ) (randomIds : List ℤ) :
    (∀ result t, publicationReceipt destination accountId randomIds result = .ok t →
      t.length = randomIds.length ∧ (∀ x ∈ t, 0 < x) ∧ t.Nodup ∧
      (ShortAccepted destination accountId randomIds result ∨
        Receipt destination accountId randomIds result.updateList t)) ∧
    ∀ us us' : List Update, us.Perm us' →
      (publicationReceipt destination accountId randomIds (.updates us)).toOption =
        (publicationReceipt destination accountId randomIds (.updates us')).toOption := by
  refine ⟨?_, fun us us' hp => publicationReceipt_perm hp⟩
  intro result t hok
  rcases publicationReceipt_eq_ok hok with ⟨id, out, rfl, hlength, hpos, hout, rfl⟩ | hscan
  · refine ⟨hlength.symm, ?_, List.nodup_singleton id, Or.inl ⟨id, out, rfl, hlength, hpos, hout⟩⟩
    intro x hx
    exact List.mem_singleton.mp hx ▸ hpos
  · rcases scan_empty destination accountId randomIds result.updateList with
      ⟨mapping, messages, hscan', haccounts, hholds⟩ | ⟨msg, hscan', -⟩
    · rw [hscan'] at hscan
      have hcompare : compare randomIds mapping messages = .ok t := hscan
      obtain ⟨rfl, hpos, hnodup, -⟩ := compare_eq_ok hcompare
      exact ⟨List.length_map _, hpos, hnodup, Or.inr (hholds.receipt haccounts hcompare)⟩
    · rw [hscan'] at hscan
      cases hscan

/-- An album of two, whose mappings and messages come in another order. -/
def albumUpdates : List Update :=
  [.messageId 12 101, .newMessage ⟨102, some (.channel 7), true⟩, .other, .messageId 11 102,
    .newMessage ⟨101, some (.channel 7), true⟩]

theorem publicationReceipt_album :
    publicationReceipt (.channel 7) 5 [11, 12] (.updates albumUpdates) = .ok [102, 101] ∧
      ([102, 101] : List ℤ).Nodup ∧ Receipt (.channel 7) 5 [11, 12] albumUpdates [102, 101] := by
  have hok : publicationReceipt (.channel 7) 5 [11, 12] (.updates albumUpdates) =
      .ok [102, 101] := by
    decide +kernel
  obtain ⟨-, -, hnodup, hshort | hreceipt⟩ :=
    (publicationReceipt_spec (.channel 7) 5 [11, 12]).1 _ _ hok
  · obtain ⟨id, out, hresult, -⟩ := hshort
    cases hresult
  · exact ⟨hok, hnodup, hreceipt⟩

end Pyrogram.Publication
