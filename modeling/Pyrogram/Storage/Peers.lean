import Pyrogram.Runs
import Pyrogram.Table
import Pyrogram.Updates.Client
import Mathlib.Algebra.Order.Ring.Int
import Mathlib.Algebra.Order.Ring.Rat
import Mathlib.Data.List.Induction
import Mathlib.Tactic.NormNum

/-!
# Peers and usernames

`fetch_peers` writes the peers of a batch to the table `peers`, and the usernames of
those that present any to the table `usernames`.  A lookup joins the two and takes
the row with the latest `last_update_on`, which every write of a peer sets to the
clock.

## Main definitions

* `RawPeer`, `Record` — a peer from the server, and what `fetch_peers` takes of it.
* `PeerStorage` — the two tables; `updatePeers`, `updateUsernames`, `GetPeerByUsername`.
* `FetchPeers.fetchPeers` — one batch.
* `Newest` — the newest record that lists a username is the last one of its peer.
* `PeerStorage.Tidy` — the batches that leave no username to be found under a peer that
  has lost it.

## Main results

* `FetchPeers.newest_of_tidy` — **a lookup follows the newest record** after every history
  of tidy batches.
* `FetchPeers.dropped_username_found` — a peer without usernames keeps its old one.
-/

namespace Pyrogram

open Runs

/-! ### Records -/

inductive PeerType
  | user
  | bot
  | group
  | direct
  | channel
  | forum
  | supergroup
  | community
  deriving DecidableEq, Repr

/-- A `raw.types.User`; no `usernames` is the empty list. -/
structure RawUser where
  min : Bool := false
  id : ℤ
  accessHash : Option ℤ := none
  phone : Option String := none
  bot : Bool := false
  username : Option String := none
  usernames : List String := []
  deriving DecidableEq, Repr

/-- A `raw.types.Channel`. -/
structure RawChannel where
  min : Bool := false
  id : ℤ
  accessHash : Option ℤ := none
  monoforum : Bool := false
  broadcast : Bool := false
  forum : Bool := false
  username : Option String := none
  usernames : List String := []
  deriving DecidableEq, Repr

/-- A `raw.base.User` or `raw.base.Chat`. -/
inductive RawPeer
  | user (peer : RawUser)
  | chat (id : ℤ)
  | chatForbidden (id : ℤ)
  | channel (peer : RawChannel)
  | channelForbidden (id accessHash : ℤ) (broadcast : Bool)
  | community (min : Bool) (id : ℤ) (accessHash : Option ℤ)
  | communityForbidden (id : ℤ) (accessHash : Option ℤ)
  /-- `UserEmpty`, `ChatEmpty`. -/
  | other (id : ℤ)
  deriving DecidableEq, Repr

/-- What `fetch_peers` takes of a record that is not min. -/
structure Record where
  id : ℤ
  accessHash : Option ℤ
  type : PeerType
  phoneNumber : Option String := none
  /-- The usernames that are stored. -/
  usernames : List String := []
  /-- All that the record lists. -/
  listed : List String := usernames
  deriving DecidableEq, Repr

/-- `get_channel_id`, of an id of either sign. -/
def Peer.getChannelId (peerId : ℤ) : ℤ := zeroChannelId - peerId

section Usernames

variable (lower : String → String)

/-- The usernames that are taken: `username` where it is not empty, else `usernames`. -/
def takenUsernames (username : Option String) (usernames : List String) : List String :=
  match username with
  | some name => if name ≠ "" then [lower name] else usernames.map lower
  | none => usernames.map lower

def listedUsernames (username : Option String) (usernames : List String) : List String :=
  (username.toList ++ usernames).map lower

namespace RawPeer

/-- `getattr(peer, "min", False)`. -/
def isMin : RawPeer → Bool
  | user peer => peer.min
  | channel peer => peer.min
  | community min _ _ => min
  | chat _ | chatForbidden _ | channelForbidden _ _ _ | communityForbidden _ _ | other _ => false

/-- The body of the loop of `fetch_peers`; `none` where it continues. -/
def parse (peer : RawPeer) : Option Record :=
  if peer.isMin then none
  else
    match peer with
    | user peer => some {
        id := peer.id, accessHash := peer.accessHash, type := if peer.bot then .bot else .user
        phoneNumber := peer.phone
        usernames := takenUsernames lower peer.username peer.usernames
        listed := listedUsernames lower peer.username peer.usernames }
    | chat id | chatForbidden id => some { id := -id, accessHash := some 0, type := .group }
    | channel peer => some {
        id := Peer.getChannelId peer.id, accessHash := peer.accessHash
        type := if peer.monoforum then .direct else if peer.broadcast then .channel
          else if peer.forum then .forum else .supergroup
        usernames := takenUsernames lower peer.username peer.usernames
        listed := listedUsernames lower peer.username peer.usernames }
    | channelForbidden id accessHash broadcast => some {
        id := Peer.getChannelId id, accessHash := some accessHash
        type := if broadcast then .channel else .supergroup }
    | community _ id accessHash | communityForbidden id accessHash =>
        some { id := Peer.getChannelId id, accessHash, type := .community }
    | other _ => none

end RawPeer

end Usernames

/-! ### The tables -/

/-- A row of the table `peers`. -/
structure Peer where
  id : ℤ
  accessHash : Option ℤ
  type : PeerType
  phoneNumber : Option String
  lastUpdateOn : ℤ
  deriving DecidableEq, Repr

/-- `REPLACE INTO peers`: the new row takes the place of the old one. -/
def Peer.replace (old new : Peer) : Peer := { new with id := old.id }

@[simp] theorem Peer.id_replace (old new : Peer) : (old.replace new).id = old.id := rfl

inductive InputPeer
  | user (userId : ℤ) (accessHash : Option ℤ)
  | chat (chatId : ℤ)
  | channel (channelId : ℤ) (accessHash : Option ℤ)
  deriving DecidableEq, Repr

/-- `get_input_peer` of a row. -/
def getInputPeer (peer : Peer) : InputPeer :=
  match peer.type with
  | .user | .bot => .user peer.id peer.accessHash
  | .group => .chat (-peer.id)
  | .direct | .channel | .forum | .supergroup | .community =>
      .channel (Peer.getChannelId peer.id) peer.accessHash

/-- The id of the peer that an input peer stands for. -/
def InputPeer.peerId : InputPeer → ℤ
  | user userId _ => userId
  | chat chatId => -chatId
  | channel channelId _ => Peer.getChannelId channelId

theorem peerId_getInputPeer (peer : Peer) : (getInputPeer peer).peerId = peer.id := by
  unfold getInputPeer
  split <;> simp [InputPeer.peerId, Peer.getChannelId]

structure PeerStorage where
  peers : Table Peer.id := Table.empty
  /-- The rows of the table `usernames`. -/
  usernames : List (ℤ × String) := []

namespace PeerStorage

/-- `USERNAME_TTL`, in seconds. -/
def usernameTtl : ℚ := 8 * 60 * 60

/-- The row that `update_peers` writes for a record at a time. -/
def row (record : Record) (time : ℤ) : Peer :=
  ⟨record.id, record.accessHash, record.type, record.phoneNumber, time⟩

/-- `update_peers`; each row is written with the time of its statement. -/
def updatePeers (s : PeerStorage) (peers : List (Record × ℤ)) : PeerStorage :=
  let replace (t : Table Peer.id) (p : Record × ℤ) :=
    t.upsert Peer.replace Peer.id_replace (row p.1 p.2)
  { s with peers := peers.foldl replace s.peers }

/-- `update_usernames`. -/
def updateUsernames (s : PeerStorage) (usernames : List (ℤ × List String)) : PeerStorage :=
  if usernames = [] then s
  else
    let ids := usernames.map Prod.fst
    let kept := s.usernames.filter fun row => row.1 ∉ ids
    { s with usernames := kept ++ usernames.flatMap fun entry => entry.2.map (Prod.mk entry.1) }

/-- The peers that the lookup of a username joins. -/
def joined (s : PeerStorage) (username : String) : List Peer :=
  s.peers.rows.filter fun peer => (peer.id, username) ∈ s.usernames

/-- What `get_peer_by_username` may return at a time: of the rows with the latest
`last_update_on` any may come first. -/
def GetPeerByUsername (s : PeerStorage) (now : ℚ) (username : String) (peer : InputPeer) : Prop :=
  ∃ r ∈ s.joined username, (∀ q ∈ s.joined username, q.lastUpdateOn ≤ r.lastUpdateOn) ∧
    |now - r.lastUpdateOn| ≤ usernameTtl ∧ getInputPeer r = peer

end PeerStorage

/-! ### Batches -/

/-- The storage, and the records fetched so far. -/
structure FetchPeers.Fetched where
  storage : PeerStorage := {}
  history : List Record := []

namespace FetchPeers

/-- A batch of peers, each with the time at which its row would be written. -/
abbrev Batch := List (RawPeer × ℤ)

variable (lower : String → String)

/-- The records of a batch. -/
def records (batch : Batch) : List (Record × ℤ) :=
  batch.filterMap fun (peer, time) => (peer.parse lower).map (·, time)

/-- `fetch_peers`: the storage, and whether there was a min record. -/
def fetchPeers (s : PeerStorage) (batch : Batch) : PeerStorage × Bool :=
  let parsedPeers := records lower batch
  let parsedUsernames := parsedPeers.filterMap fun (record, _) =>
    if record.usernames ≠ [] then some (record.id, record.usernames) else none
  let s := s.updatePeers parsedPeers
  (if parsedUsernames ≠ [] then s.updateUsernames parsedUsernames else s,
    batch.any fun (peer, _) => peer.isMin)

/-- One more batch is fetched. -/
def step (s : Fetched) (batch : Batch) : Option Fetched :=
  some ⟨(fetchPeers lower s.storage batch).1, s.history ++ (records lower batch).map Prod.fst⟩

end FetchPeers

/-! ### Following the newest record -/

/-- The last record with a property. -/
def lastWith (p : Record → Bool) (history : List Record) : Option Record := history.reverse.find? p

theorem lastWith_append (p : Record → Bool) (history more : List Record) :
    lastWith p (history ++ more) = (lastWith p more).or (lastWith p history) := by
  rw [lastWith, List.reverse_append, List.find?_append]
  rfl

theorem lastWith_eq_none {p : Record → Bool} {history : List Record} :
    lastWith p history = none ↔ ∀ r ∈ history, ¬ p r := by
  simp [lastWith]

/-- The last record of the peer lists the username, and it is the last record that lists
the username for any peer. -/
structure Newest (history : List Record) (username : String) (id : ℤ) : Prop where
  lists : ∃ r, lastWith (·.id = id) history = some r ∧ username ∈ r.listed
  latest : ∃ r, lastWith (username ∈ ·.listed) history = some r ∧ r.id = id

theorem Newest.unique {history : List Record} {username : String} {id id' : ℤ}
    (h : Newest history username id) (h' : Newest history username id') : id = id' := by
  obtain ⟨r, hr, rfl⟩ := h.latest
  obtain ⟨r', hr', rfl⟩ := h'.latest
  rw [Option.some.inj (hr.symm.trans hr')]

/-- Records of other peers that do not list the username change nothing. -/
theorem Newest.append {history more : List Record} {username : String} {id : ℤ}
    (h : Newest history username id) (hid : ∀ r ∈ more, r.id ≠ id)
    (husername : ∀ r ∈ more, username ∉ r.listed) : Newest (history ++ more) username id := by
  have hnone : lastWith (·.id = id) more = none := lastWith_eq_none.mpr (by simpa using hid)
  have hnone' : lastWith (username ∈ ·.listed) more = none :=
    lastWith_eq_none.mpr (by simpa using husername)
  constructor
  · rw [lastWith_append, hnone]
    exact h.lists
  · rw [lastWith_append, hnone']
    exact h.latest

/-- Both times are known, and the first is earlier. -/
def Earlier (a b : Option ℤ) : Prop := ∃ t t', a = some t ∧ b = some t' ∧ t < t'

theorem Earlier.asymm {a b : Option ℤ} (h : Earlier a b) : ¬ Earlier b a := by
  obtain ⟨t, t', rfl, rfl, hlt⟩ := h
  rintro ⟨u, u', hu, hu', hlt'⟩
  cases hu
  cases hu'
  exact lt_asymm hlt hlt'

namespace PeerStorage

variable (s : PeerStorage) (records : List (Record × ℤ))

/-- The `last_update_on` of a peer. -/
def lastUpdateOn (id : ℤ) : Option ℤ := (s.peers.find id).map Peer.lastUpdateOn

/-- The peer has a record among these. -/
def Touched (id : ℤ) : Prop := ∃ r ∈ records, r.1.id = id

/-- A record of the peer presents the username. -/
def Presented (id : ℤ) (username : String) : Prop :=
  ∃ r ∈ records, r.1.id = id ∧ username ∈ r.1.usernames

/-- The peer has the username stored after the records: it had it and none of them is its
own, or one of them presents it. -/
def HasAfter (id : ℤ) (username : String) : Prop :=
  ¬ Touched records id ∧ (id, username) ∈ s.usernames ∨ Presented records id username

/-- The `last_update_on` of a peer after the records. -/
def timeAfter (id : ℤ) : Option ℤ :=
  ((records.reverse.find? (·.1.id = id)).map Prod.snd).or (s.lastUpdateOn id)

/-- The records leave no username to be found under a peer that has lost it. -/
structure Tidy : Prop where
  /-- A peer that has usernames presents some. -/
  presents : ∀ id username, Touched records id → (id, username) ∈ s.usernames →
    ∃ r ∈ records, r.1.id = id ∧ r.1.usernames ≠ []
  /-- What any record of a peer presents its last record lists. -/
  repeated : ∀ id username, Presented records id username →
    ∃ r, lastWith (·.id = id) (records.map Prod.fst) = some r ∧ username ∈ r.listed
  /-- The peer whose record lists a username last presents it, and its row is later than
  those of the other peers that have the username. -/
  taken : ∀ username r id, lastWith (username ∈ ·.listed) (records.map Prod.fst) = some r →
    id ≠ r.id →
    HasAfter s records id username →
      Presented records r.id username ∧ Earlier (timeAfter s records id) (timeAfter s records r.id)
  /-- Where a peer gives a username up, no earlier peer has it, unless a later one does. -/
  given : ∀ username id id', (∀ r ∈ records, username ∉ r.1.listed) →
    ¬ Touched records id → (id, username) ∈ s.usernames → Touched records id' →
      (id', username) ∈ s.usernames →
      Earlier (s.lastUpdateOn id) (s.lastUpdateOn id') →
        ∃ later, ¬ Touched records later ∧ (later, username) ∈ s.usernames ∧
          Earlier (s.lastUpdateOn id') (s.lastUpdateOn later)

/-- Each username is stored for the peer of the newest record that lists it, or is
stored for that peer with a later time. -/
def Followed (history : List Record) : Prop :=
  ∀ id username, (id, username) ∈ s.usernames → Newest history username id ∨
    ∃ id', (id', username) ∈ s.usernames ∧ Newest history username id' ∧
      Earlier (s.lastUpdateOn id) (s.lastUpdateOn id')

variable {s records}

/-- One record is tidy where it presents all that it lists and no other peer has a
username. -/
theorem tidy_singleton {r : Record} {time : ℤ} (hne : r.usernames ≠ [])
    (hlisted : r.listed = r.usernames)
    (hother : ∀ id username, (id, username) ∈ s.usernames → id = r.id) : Tidy s [(r, time)] := by
  have htouched : ∀ {id}, Touched [(r, time)] id ↔ r.id = id := by simp [Touched]
  have hpresented : ∀ {id username}, Presented [(r, time)] id username ↔ r.id = id ∧
      username ∈ r.usernames := by
    simp [Presented]
  constructor
  case presents =>
    intro id username hid _
    exact ⟨_, List.mem_singleton_self _, htouched.mp hid, hne⟩
  case repeated =>
    intro id username h
    obtain ⟨rfl, hmem⟩ := hpresented.mp h
    exact ⟨r, by simp [lastWith], hlisted ▸ hmem⟩
  case taken =>
    intro username r' id hlast hid hafter
    obtain rfl : r' = r := by
      simpa using List.mem_reverse.mp (List.mem_of_find?_eq_some hlast)
    rcases hafter with ⟨-, hmem⟩ | h
    · exact absurd (hother id username hmem) hid
    · exact absurd (hpresented.mp h).1.symm hid
  case given =>
    intro username id id' _ huntouched hmem _ _ _
    exact absurd (htouched.mpr (hother id username hmem).symm) huntouched

/-! ### What a batch writes -/

@[simp] theorem usernames_updatePeers : (s.updatePeers records).usernames = s.usernames := rfl

theorem find_updatePeers (id : ℤ) :
    (s.updatePeers records).lastUpdateOn id = timeAfter s records id := by
  unfold lastUpdateOn timeAfter updatePeers
  dsimp only
  induction records using List.reverseRecOn with
  | nil => rfl
  | append_singleton records r ih =>
    rw [List.foldl_append, List.foldl_cons, List.foldl_nil, Table.find_upsert, List.reverse_append,
      List.reverse_singleton, List.singleton_append]
    by_cases hid : r.1.id = id
    · have hrow : (row r.1 r.2).id = id := hid
      rw [if_pos hrow, List.find?_cons_of_pos (by simpa using hid)]
      cases Table.find _ id <;> rfl
    · have hrow : (row r.1 r.2).id ≠ id := hid
      rw [if_neg hrow, List.find?_cons_of_neg (by simpa using hid)]
      exact ih

theorem mem_usernames_updateUsernames {usernames : List (ℤ × List String)} {id : ℤ}
    {username : String} :
    (id, username) ∈ (s.updateUsernames usernames).usernames ↔
      ((id, username) ∈ s.usernames ∧ ∀ entry ∈ usernames, entry.1 ≠ id) ∨
        ∃ entry ∈ usernames, entry.1 = id ∧ username ∈ entry.2 := by
  unfold updateUsernames
  split
  · next hnil => simp [hnil]
  · simp only [List.mem_append, List.mem_filter, List.mem_flatMap, List.mem_map, decide_eq_true_eq,
      not_exists, not_and, Prod.mk.injEq]
    aesop

end PeerStorage

namespace FetchPeers

open PeerStorage

variable {lower : String → String} {s : PeerStorage} {batch : Batch}

theorem lastUpdateOn_fetchPeers (id : ℤ) :
    (fetchPeers lower s batch).1.lastUpdateOn id = timeAfter s (records lower batch) id := by
  rw [← find_updatePeers]
  unfold fetchPeers
  dsimp only
  split
  · unfold updateUsernames
    split <;> rfl
  · rfl

/-- **What a batch leaves of the usernames**: those of the peers that present none are
what they were. -/
theorem mem_usernames_fetchPeers {id : ℤ} {username : String} :
    (id, username) ∈ (fetchPeers lower s batch).1.usernames ↔
      ((id, username) ∈ s.usernames ∧ ∀ r ∈ records lower batch, r.1.id = id → r.1.usernames = []) ∨
        Presented (records lower batch) id username := by
  unfold fetchPeers
  dsimp only
  generalize records lower batch = parsed
  -- the records without usernames are left out of the second table
  have hpresented : Presented parsed id username ↔ ∃ entry ∈ parsed.filterMap fun r =>
      if r.1.usernames ≠ [] then some (r.1.id, r.1.usernames) else none,
        entry.1 = id ∧ username ∈ entry.2 := by
    constructor
    · rintro ⟨r, hr, hid, hmem⟩
      have hne : r.1.usernames ≠ [] := List.ne_nil_of_mem hmem
      exact ⟨_, List.mem_filterMap.mpr ⟨r, hr, if_pos hne⟩, hid, hmem⟩
    · rintro ⟨entry, hentry, hid, hmem⟩
      obtain ⟨r, hr, hsome⟩ := List.mem_filterMap.mp hentry
      split at hsome
      · cases hsome
        exact ⟨r, hr, hid, hmem⟩
      · cases hsome
  -- so the names of such an id are not deleted
  have hkept : (∀ r ∈ parsed, r.1.id = id → r.1.usernames = []) ↔
      ∀ entry ∈ parsed.filterMap fun r =>
        if r.1.usernames ≠ [] then some (r.1.id, r.1.usernames) else none, entry.1 ≠ id := by
    constructor
    · intro h entry hentry hid
      obtain ⟨r, hr, hsome⟩ := List.mem_filterMap.mp hentry
      split at hsome
      · next hne =>
        cases hsome
        exact hne (h r hr hid)
      · cases hsome
    · intro h r hr hid
      by_contra hne
      exact h _ (List.mem_filterMap.mpr ⟨r, hr, if_pos hne⟩) hid
  rw [hpresented, hkept]
  split
  · exact mem_usernames_updateUsernames
  · next hnil =>
    rw [not_not.mp hnil]
    simp

/-- After a tidy batch a peer has the usernames that it presents, or its old ones where
it has no record in the batch. -/
theorem mem_usernames_of_tidy (htidy : Tidy s (records lower batch)) {id : ℤ} {username : String} :
    (id, username) ∈ (fetchPeers lower s batch).1.usernames ↔
      HasAfter s (records lower batch) id username := by
  rw [mem_usernames_fetchPeers]
  refine or_congr_left ⟨fun ⟨hmem, hempty⟩ => ⟨?_, hmem⟩, fun ⟨htouched, hmem⟩ => ⟨hmem, ?_⟩⟩
  · intro htouched
    obtain ⟨r, hr, hid, hne⟩ := htidy.presents id username htouched hmem
    exact hne (hempty r hr hid)
  · intro r hr hid
    exact absurd ⟨r, hr, hid⟩ htouched

theorem timeAfter_of_not_touched {parsed : List (Record × ℤ)} {id : ℤ} (h : ¬ Touched parsed id) :
    timeAfter s parsed id = s.lastUpdateOn id := by
  have hnone : parsed.reverse.find? (·.1.id = id) = none := by
    rw [List.find?_eq_none]
    intro r hr hid
    exact h ⟨r, List.mem_reverse.mp hr, by simpa using hid⟩
  rw [timeAfter, hnone]
  rfl

/-- **A tidy batch keeps the usernames followed.** -/
theorem followed_fetchPeers {history : List Record} (h : Followed s history)
    (htidy : Tidy s (records lower batch)) :
    Followed (fetchPeers lower s batch).1 (history ++ (records lower batch).map Prod.fst) := by
  intro id username hmem
  simp only [lastUpdateOn_fetchPeers, mem_usernames_of_tidy htidy] at hmem ⊢
  generalize records lower batch = parsed at htidy hmem ⊢
  cases hlast : lastWith (username ∈ ·.listed) (parsed.map Prod.fst) with
  | some r =>
    have hnewest : Presented parsed r.id username →
        Newest (history ++ parsed.map Prod.fst) username r.id := by
      intro hpresented
      obtain ⟨r', hr', hlists⟩ := htidy.repeated r.id username hpresented
      constructor
      · exact ⟨r', by rw [lastWith_append, hr']; rfl, hlists⟩
      · exact ⟨r, by rw [lastWith_append, hlast]; rfl, rfl⟩
    by_cases hid : id = r.id
    · left
      subst hid
      rcases hmem with ⟨htouched, -⟩ | hpresented
      · -- the record that lists the username is one of its own
        obtain ⟨p, hp, hpr⟩ :=
          List.mem_map.mp (List.mem_reverse.mp (List.mem_of_find?_eq_some hlast))
        exact absurd ⟨p, hp, congrArg Record.id hpr⟩ htouched
      · exact hnewest hpresented
    · right
      obtain ⟨hpresented, hearlier⟩ := htidy.taken username r id hlast hid hmem
      exact ⟨r.id, Or.inr hpresented, hnewest hpresented, hearlier⟩
  | none =>
    have hunlisted : ∀ r ∈ parsed.map Prod.fst, username ∉ r.listed := by
      simpa using lastWith_eq_none.mp hlast
    have huntouched : ¬ Touched parsed id ∧ (id, username) ∈ s.usernames := by
      refine hmem.resolve_right fun hpresented => ?_
      obtain ⟨r, hr, hlists⟩ := htidy.repeated id username hpresented
      exact hunlisted r (List.mem_reverse.mp (List.mem_of_find?_eq_some hr)) hlists
    have hkeeps : ∀ {id'}, ¬ Touched parsed id' → Newest history username id' →
        Newest (history ++ parsed.map Prod.fst) username id' := by
      intro id' htouched hnewest
      refine hnewest.append ?_ hunlisted
      rintro r hr rfl
      obtain ⟨p, hp, rfl⟩ := List.mem_map.mp hr
      exact htouched ⟨p, hp, rfl⟩
    obtain ⟨htouched, hmem⟩ := huntouched
    rcases h id username hmem with hnewest | ⟨id', hmem', hnewest, hearlier⟩
    · exact Or.inl (hkeeps htouched hnewest)
    · have htouched' : ¬ Touched parsed id' := by
        intro htouched'
        obtain ⟨later, -, hlater, hearlier'⟩ := htidy.given username id id'
          (fun r hr => hunlisted r.1 (List.mem_map_of_mem hr)) htouched hmem htouched' hmem'
            hearlier
        -- the peer of the newest record has the latest time
        rcases h later username hlater with hnewest' | ⟨id'', -, hnewest'', hearlier''⟩
        · obtain rfl := hnewest.unique hnewest'
          exact hearlier'.asymm hearlier'
        · obtain rfl := hnewest.unique hnewest''
          exact hearlier'.asymm hearlier''
      refine Or.inr ⟨id', Or.inl ⟨htouched', hmem'⟩, hkeeps htouched' hnewest, ?_⟩
      rw [timeAfter_of_not_touched htouched, timeAfter_of_not_touched htouched']
      exact hearlier

/-- What a lookup returns is the peer of the newest record. -/
theorem newest_of_followed {history : List Record} (h : Followed s history) {now : ℚ}
    {username : String}
    {peer : InputPeer} (hget : s.GetPeerByUsername now username peer) :
    Newest history username peer.peerId := by
  obtain ⟨r, hr, hlatest, -, rfl⟩ := hget
  obtain ⟨hrow, hmem⟩ := List.mem_filter.mp hr
  rw [decide_eq_true_eq] at hmem
  rw [peerId_getInputPeer]
  refine (h r.id username hmem).resolve_right ?_
  rintro ⟨id', hmem', -, t, t', ht, ht', hlt⟩
  -- the later row would have come first
  obtain ⟨q, hq, rfl⟩ := Option.map_eq_some_iff.mp ht'
  have hkey : q.id = id' := Table.key_of_find hq
  have hq' : q ∈ s.joined username :=
    List.mem_filter.mpr ⟨Table.mem_rows_of_find hq, by rw [hkey]; exact decide_eq_true hmem'⟩
  have hr' : s.lastUpdateOn r.id = some r.lastUpdateOn := by
    rw [lastUpdateOn, Table.mem_rows_iff.mp hrow]
    rfl
  obtain rfl := Option.some.inj (ht.symm.trans hr')
  exact absurd (hlatest q hq') (not_le.mpr hlt)

/-- **A lookup follows the newest record**: after every history of tidy batches, at any
time, the peer it returns is the one whose last record lists the username, and no
record since lists it for another peer. -/
theorem newest_of_tidy {batches : List Batch} {f : Fetched}
    (htidy : AllSteps (step lower) (fun f batch _ => Tidy f.storage (records lower batch)) {}
      batches)
    (hrun : run (step lower) {} batches = some f) {now : ℚ} {username : String} {peer : InputPeer}
    (hget : f.storage.GetPeerByUsername now username peer) :
    Newest f.history username peer.peerId := by
  have hfollowed : Followed f.storage f.history := by
    refine run_of_invariant_of_allSteps (I := fun f => Followed f.storage f.history) ?_ ?_
      htidy hrun
    · intro f batch f' hfollowed htidy hstep
      cases hstep
      exact followed_fetchPeers hfollowed htidy
    · intro id username hmem
      cases hmem
  exact newest_of_followed hfollowed hget

/-- A user is renamed from `"a"` to `"b"`; the lookup of `"b"` returns the user. -/
theorem newest_renamed : ∃ f,
    run (step String.toLower) {}
      [[(.user { id := 1, username := some "a" }, 0)],
        [(.user { id := 1, username := some "b" }, 1)]] = some f ∧
    f.storage.GetPeerByUsername 1 "b" (.user 1 none) ∧
    Newest f.history "b" (InputPeer.user 1 none).peerId := by
  have htidy : AllSteps (step String.toLower) (fun f batch _ =>
    Tidy f.storage (records String.toLower batch)) {}
      [[(.user { id := 1, username := some "a" }, 0)],
        [(.user { id := 1, username := some "b" }, 1)]] := by
    refine AllSteps.cons rfl ?first (AllSteps.cons rfl ?second trivial)
    case first => exact tidy_singleton (List.cons_ne_nil _ _) rfl (fun _ _ h => nomatch h)
    case second =>
      refine tidy_singleton (List.cons_ne_nil _ _) rfl fun id username h => ?_
      obtain ⟨hid, -⟩ := Prod.mk.inj (List.mem_singleton.mp h)
      exact hid
  have hget : ((fetchPeers String.toLower (fetchPeers String.toLower {}
      [(.user { id := 1, username := some "a" }, 0)]).1
        [(.user { id := 1, username := some "b" }, 1)]).1
        ).GetPeerByUsername 1 "b" (.user 1 none) :=
    ⟨⟨1, none, .user, none, 1⟩, by
      decide +kernel, by decide +kernel, by norm_num [usernameTtl], rfl⟩
  exact ⟨_, rfl, hget, newest_of_tidy htidy rfl hget⟩

/-- **A peer that presents no username keeps its old one**: its record refreshes the row
that the username is found by. -/
theorem dropped_username_found : ∃ f,
    run (step String.toLower) {} [[(.user { id := 1, username := some "a" }, 0)],
      [(.user { id := 1 }, 1)]] = some f ∧
    f.storage.GetPeerByUsername 1 "a" (.user 1 none) ∧ ¬ Newest f.history "a" 1 := by
  refine ⟨_, rfl, ?_, ?_⟩
  · exact ⟨⟨1, none, .user, none, 1⟩, by
      decide +kernel, by decide +kernel, by norm_num [usernameTtl], rfl⟩
  · intro h
    obtain ⟨r, hr, hmem⟩ := h.lists
    obtain rfl : (⟨1, none, .user, none, [], []⟩ : Record) = r := Option.some.inj hr
    cases hmem

end FetchPeers

end Pyrogram
