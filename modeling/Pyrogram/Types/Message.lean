import Pyrogram.Types.Chat

/-!
# Who sent a message

`Message._parse` looks the sender and the chat of a message up by their bare numbers: the
sender among the users first, then among the chats as if it were of the kind of the chat.
Of a message there are the ids, the date and the peers.

## Main definitions

* `Message.parse` — a message, with what the private branch asks for in addition.
* `Message.Attributed` — its sender and its chat are the ones that the server named.
* `Unambiguous` — the bare numbers lead to them.

## Main results

* `parsePeers_iff` — the lookups that the three parsers share.
* `attributed_iff` — **a message is attributed to the peers that were named exactly when
  the bare numbers lead to them.**
-/

namespace Pyrogram.Types

open ByKey

/-- `raw.base.Message` or `raw.base.EphemeralMessage` -/
inductive RawMessage
  | empty (id : ℤ) (peerId : Option Peer)
  | message (id date : ℤ) (fromId : Option Peer) (peerId : Peer)
  | service (id date : ℤ) (fromId : Option Peer) (peerId : Peer)
  | ephemeral (id date : ℤ) (fromId : Peer) (peerId : Option Peer)
  deriving DecidableEq, Repr

namespace RawMessage

def isEmpty : RawMessage → Bool
  | empty .. => true
  | message .. | service .. | ephemeral .. => false

def fromId : RawMessage → Option Peer
  | empty .. => none
  | message _ _ fromId _ | service _ _ fromId _ => fromId
  | ephemeral _ _ fromId _ => some fromId

def peerId : RawMessage → Option Peer
  | empty _ peerId | ephemeral _ _ _ peerId => peerId
  | message _ _ _ peerId | service _ _ _ peerId => some peerId

end RawMessage

/-- `types.Message` -/
structure Message where
  id : ℤ
  ephemeralMessageId : Option ℤ := none
  date : Option ℤ := none
  empty : Bool := false
  chat : Option Chat := none
  fromUser : Option User := none
  senderChat : Option Chat := none
  raw : RawMessage
  deriving DecidableEq, Repr

/-- The answer to `users.GetUsers` for two users; `none` for `PeerIdInvalid`. -/
abbrev GetUsers := ℕ+ → ℕ+ → Option (List RawUser)

namespace Message

variable (getUsers : GetUsers)

/-- The users after the request that a private message may make. -/
def knownUsers (message : RawMessage) (users : List RawUser) : List RawUser :=
  match message.fromId, message.peerId with
  | some (.user fromId), some (.user peerId) =>
      if latest RawUser.id fromId users = none ∨ latest RawUser.id peerId users = none then
        users ++ (getUsers fromId peerId).getD []
      else users
  | _, _ => users

/-- `from_user`, `sender_chat` and `chat`, as the three parsers find them. -/
def parsePeers (message : RawMessage) (users : List RawUser) (chats : List RawChat) :
    Except Exc (Option User × Option Chat × Option Chat) := do
  let fromUser := User.parse
    ((getRawPeerId message.fromId <|> getRawPeerId message.peerId).bind (latest RawUser.id · users))
  let senderChat ←
    if fromUser = none then Chat.parse message.fromId message.peerId users chats false else .ok none
  let chat ← Chat.parse message.fromId message.peerId users chats true
  return (fromUser, senderChat, chat)

/-- `timestamp_to_datetime`; a date is its time stamp. -/
def timestampToDatetime (ts : ℤ) : Option ℤ := if ts = 0 then none else some ts

/-- The ids and the date that a message is made with. -/
def stub (message : RawMessage) : Message :=
  match message with
  | .empty id _ => { id, empty := true, raw := message }
  | .message id date .. | .service id date .. =>
      { id, date := timestampToDatetime date, raw := message }
  | .ephemeral id date .. => 
      { id := 0, ephemeralMessageId := some id, date := timestampToDatetime date, raw := message }

/-- `Message._parse`, and the users after it. -/
def parse (message : RawMessage) (users : List RawUser) (chats : List RawChat) :
    Except Exc (Message × List RawUser) :=
  if message.isEmpty then .ok (stub message, users)
  else do
    let known := knownUsers getUsers message users
    let peers ← parsePeers message known chats
    return ({ stub message with fromUser := peers.1, senderChat := peers.2.1, chat := peers.2.2 },
      known)

end Message

/-! ### What the server named -/

namespace Peer

/-- The kind of the chats among which a peer is listed. -/
def kind : Peer → Option ChatKind
  | user _ => none
  | chat _ => some .group
  | channel _ => some .channel

/-- The user that a peer names. -/
def listedUser (users : List RawUser) : Peer → Option RawUser
  | user userId => (latest RawUser.id userId users).filter fun user => !user.isEmpty
  | chat _ | channel _ => none

/-- The group or the channel that a peer names. -/
def listedChat (chats : List RawChat) (peer : Peer) : Option RawChat :=
  match peer.kind with
  | none => none
  | some kind => (latest RawChat.id peer.rawId (chats.filter fun chat => chat.kind =
      kind)).filter fun chat => !chat.isEmpty

def listed (users : List RawUser) (chats : List RawChat) (peer : Peer) :
    Option (RawUser ⊕ RawChat) :=
  ((peer.listedUser users).map .inl).or ((peer.listedChat chats).map .inr)

end Peer

/-- The sender of a message: its chat, where no other is named. -/
def RawMessage.sender (message : RawMessage) (peerId : Peer) : Peer := message.fromId.getD peerId

/-- The sender and the chat are the ones that the server named. -/
structure Message.Attributed (users : List RawUser) (chats : List RawChat) (sender peerId : Peer)
    (m : Message) : Prop where
  fromUser : m.fromUser.map User.raw = sender.listedUser users
  senderChat : m.senderChat.map Chat.raw = (sender.listedChat chats).map .inr
  chat : ∃ chat, m.chat = some chat ∧ peerId.listed users chats = some chat.raw

/-- Nothing is read under a number as a chat of the kind of the peer. -/
def Silent (chats : List RawChat) (peerId : Peer) (id : ℕ+) : Prop :=
  peerId.kind = none ∨ latest RawChat.id id chats = none ∨
    peerId.kind = some .group ∧ latest RawChat.id id chats = some (.empty id)

/-- **The bare numbers lead to the sender and to the chat.** -/
structure Unambiguous (users : List RawUser) (chats : List RawChat) (sender peerId : Peer) :
    Prop where
  /-- The last chat under the number of the chat is of its kind. -/
  chat : ∀ kind, peerId.kind = some kind → ∃ chat, latest RawChat.id peerId.rawId chats =
    some chat ∧ chat.kind = kind
  /-- A user is listed, or there is no chat under its number. -/
  user : sender.kind = none → sender.listedUser users ≠ none ∨ Silent chats peerId sender.rawId
  /-- There is no user under the number of a group or a channel; it is of the kind of the
  chat and the last under its number, or neither listed nor replaced. -/
  notUser : sender.kind ≠ none → (Peer.user sender.rawId).listedUser users = none ∧
    (Silent chats peerId sender.rawId ∧ sender.listedChat chats = none ∨
      peerId.kind = sender.kind ∧ ∃ chat, latest RawChat.id sender.rawId chats = some chat ∧
        some chat.kind = sender.kind)

/-! ### Reading under a number -/

/-- What is found under a number, read as a chat of the kind of the peer. -/
def readAs (users : List RawUser) (chats : List RawChat) (peerId : Peer) (id : ℕ+) :
    Except Exc (Option Chat) :=
  match peerId with
  | .user _ => .ok (Chat.parseUserChat (latest RawUser.id id users))
  | .chat _ => Chat.parseChatChat (latest RawChat.id id chats)
  | .channel _ => Chat.parseChannelChat (latest RawChat.id id chats)

theorem parse_sender {message : RawMessage} {peerId : Peer} (hpeer : message.peerId = some peerId)
    (users : List RawUser)
    (chats : List RawChat) :
    Chat.parse message.fromId message.peerId users chats false = readAs users chats peerId
      (message.sender peerId).rawId := by
  rw [hpeer, RawMessage.sender]
  cases message.fromId <;> cases peerId <;> rfl

theorem parse_chat {message : RawMessage} {peerId : Peer} (hpeer : message.peerId = some peerId)
    (users : List RawUser)
    (chats : List RawChat) :
    Chat.parse message.fromId message.peerId users chats true =
      readAs users chats peerId peerId.rawId := by
  rw [hpeer]
  cases message.fromId <;> cases peerId <;> rfl

theorem map_raw_parse (user : Option RawUser) :
    (User.parse user).map User.raw = user.filter fun user => !user.isEmpty := by
  rcases user with _ | _ | _ <;> rfl

theorem map_raw_parseUserChat (user : Option RawUser) :
    (Chat.parseUserChat user).map Chat.raw = (user.filter fun user => !user.isEmpty).map .inl := by
  rcases user with _ | _ | _ <;> rfl

/-- An entry is read as a group if it is one, as what is listed. -/
theorem parseChatChat_iff {entry listed : Option RawChat} :
    (∃ chat, Chat.parseChatChat entry = .ok chat ∧ chat.map Chat.raw = listed.map .inr) ↔
      (∀ chat ∈ entry, chat.kind = .group) ∧ listed = entry.filter fun chat => !chat.isEmpty := by
  rcases entry with _ | entry
  · cases listed <;> simp [Chat.parseChatChat]
  · cases entry <;> cases listed <;>
      simp [Chat.parseChatChat, RawChat.kind, RawChat.isEmpty, Option.filter, eq_comm]

/-- An entry is read as a channel if it is one, as what is listed. -/
theorem parseChannelChat_iff {entry listed : Option RawChat} :
    (∃ chat, Chat.parseChannelChat entry = .ok chat ∧ chat.map Chat.raw = listed.map .inr) ↔
      (∀ chat ∈ entry, chat.kind = .channel) ∧ listed = entry.filter fun chat => !chat.isEmpty := by
  rcases entry with _ | entry
  · cases listed <;> simp [Chat.parseChannelChat]
  · cases entry <;> cases listed <;>
      simp [Chat.parseChannelChat, RawChat.kind, RawChat.isEmpty, Option.filter, eq_comm]

variable {users : List RawUser} {chats : List RawChat} {peerId sender : Peer} {id : ℕ+}

theorem readAs_iff {kind : ChatKind} (hkind : peerId.kind = some kind) {listed : Option RawChat} :
    (∃ chat, readAs users chats peerId id = .ok chat ∧ chat.map Chat.raw = listed.map .inr) ↔
      (∀ chat ∈ latest RawChat.id id chats, chat.kind = kind) ∧
        listed = (latest RawChat.id id chats).filter fun chat => !chat.isEmpty := by
  cases peerId with
  | user _ => cases hkind
  | chat _ =>
    cases hkind
    exact parseChatChat_iff
  | channel _ =>
    cases hkind
    exact parseChannelChat_iff

theorem readAs_user (hkind : peerId.kind = none) : readAs users chats peerId id =
    .ok (Chat.parseUserChat (latest RawUser.id id users)) := by
  cases peerId with
  | user _ => rfl
  | chat _ | channel _ => cases hkind

/-! ### What is listed -/

theorem listedChat_of_latest_none (h : latest RawChat.id sender.rawId chats = none) :
    sender.listedChat chats = none := by
  have hnone : ∀ kind, latest RawChat.id sender.rawId (chats.filter fun chat => chat.kind = kind) =
      none := by
    intro kind
    rw [latest_eq_none_iff] at h ⊢
    exact fun chat hchat => h chat (List.mem_of_mem_filter hchat)
  unfold Peer.listedChat
  cases sender.kind with
  | none => rfl
  | some kind =>
    simp only [hnone]
    rfl

theorem listedChat_of_latest {chat : RawChat} (h : latest RawChat.id sender.rawId chats = some chat)
    (hkind : sender.kind = some chat.kind) :
    sender.listedChat chats = (some chat).filter fun chat => !chat.isEmpty := by
  have hlatest := latest_filter (P := fun other => other.kind = chat.kind) h (decide_eq_true rfl)
  rw [Peer.listedChat, hkind]
  exact congrArg (Option.filter _) hlatest

theorem kind_of_listedChat {chat : RawChat} (h : sender.listedChat chats = some chat) :
    sender.kind = some chat.kind := by
  unfold Peer.listedChat at h
  split at h
  · cases h
  · next kind hkind =>
    obtain ⟨hlatest, -⟩ := Option.filter_eq_some_iff.mp h
    have hmem := List.mem_filter.mp (mem_of_latest hlatest)
    rw [hkind, of_decide_eq_true hmem.2]

theorem kind_of_silent {chat : RawChat} {kind : ChatKind} (hsilent : Silent chats peerId id)
    (hlatest : latest RawChat.id id chats = some chat) (hkind : peerId.kind = some kind) :
    kind = .group ∧ chat = .empty id := by
  rcases hsilent with hnone | hnone | ⟨hgroup, hempty⟩
  · rw [hkind] at hnone
    cases hnone
  · rw [hlatest] at hnone
    cases hnone
  · exact ⟨Option.some.inj (hkind.symm.trans hgroup), Option.some.inj (hlatest.symm.trans hempty)⟩

/-- What is found under the number of the sender, where no user is. -/
theorem sender_iff (huser : (Peer.user sender.rawId).listedUser users = none) :
    (∃ chat, readAs users chats peerId sender.rawId = .ok chat ∧
        chat.map Chat.raw = (sender.listedChat chats).map .inr) ↔
      Silent chats peerId sender.rawId ∧ sender.listedChat chats = none ∨
        peerId.kind = sender.kind ∧
          ∃ chat, latest RawChat.id sender.rawId chats = some chat ∧
            some chat.kind = sender.kind := by
  -- of a user the chats say nothing; a chat is looked up under its kind
  cases hkind : peerId.kind with
  | none =>
    have hsilent : Silent chats peerId sender.rawId := .inl hkind
    have hraw : (Chat.parseUserChat (latest RawUser.id sender.rawId users)).map Chat.raw =
        none := by
      rw [map_raw_parseUserChat]
      exact congrArg (Option.map Sum.inl) huser
    rw [readAs_user hkind]
    constructor
    · rintro ⟨chat, hchat', hchat⟩
      obtain rfl := Except.ok.inj hchat'
      rw [hraw] at hchat
      exact .inl ⟨hsilent, Option.map_eq_none_iff.mp hchat.symm⟩
    · rintro (⟨-, hlisted⟩ | ⟨hsender, chat, -, hchat⟩)
      · exact ⟨_, rfl, by rw [hraw, hlisted]; rfl⟩
      · rw [← hsender] at hchat
        cases hchat
  | some kind =>
    rw [readAs_iff hkind]
    cases hlatest : latest RawChat.id sender.rawId chats with
    | none =>
      have hlisted := listedChat_of_latest_none hlatest
      have hsilent : Silent chats peerId sender.rawId := .inr (.inl hlatest)
      simp [hlisted, hsilent]
    | some chat =>
      simp only [Option.mem_def, Option.some.injEq, forall_eq', exists_eq_left']
      -- the entry found may be of another kind than the sender
      constructor
      · rintro ⟨hchat, hlisted⟩
        by_cases hsender : some chat.kind = sender.kind
        · exact .inr ⟨hchat ▸ hsender, hsender⟩
        · -- an entry that is listed is of the kind of the sender, and this one is not
          have hnone : sender.listedChat chats = none := by
            rw [Option.eq_none_iff_forall_ne_some]
            intro other hother
            obtain ⟨hfound, -⟩ := Option.filter_eq_some_iff.mp (hlisted.symm.trans hother)
            exact hsender ((Option.some.inj hfound) ▸ (kind_of_listedChat hother).symm)
          refine .inl ⟨.inr (.inr ?_), hnone⟩
          have hid : chat.id = sender.rawId := key_of_latest hlatest
          cases chat with
          | empty id =>
            obtain rfl : id = sender.rawId := hid
            exact ⟨hkind.trans (congrArg some hchat.symm), hlatest⟩
          | _ => cases hnone.symm.trans hlisted
      · rintro (⟨hsilent, hlisted⟩ | ⟨hkinds, hsender⟩)
        · obtain ⟨rfl, rfl⟩ := kind_of_silent hsilent hlatest hkind
          exact ⟨rfl, hlisted⟩
        · rw [← hsender, Option.some.injEq] at hkinds
          exact ⟨hkinds.symm, listedChat_of_latest hlatest hsender.symm⟩

/-- What is found under the number of the chat, which is listed. -/
theorem chat_iff (hlisted : peerId.listed users chats ≠ none) :
    (∃ chat, readAs users chats peerId peerId.rawId = .ok (some chat) ∧
      peerId.listed users chats = some chat.raw) ↔
      ∀ kind, peerId.kind = some kind →
        ∃ chat, latest RawChat.id peerId.rawId chats = some chat ∧ chat.kind = kind := by
  obtain ⟨entry, hentry⟩ := Option.ne_none_iff_exists'.mp hlisted
  -- a user is read from the users, and is there because it is listed
  cases hkind : peerId.kind with
  | none =>
    obtain ⟨userId, rfl⟩ : ∃ userId, peerId = .user userId := by
      cases peerId with
      | user userId => exact ⟨userId, rfl⟩
      | chat _ | channel _ => cases hkind
    have hraw := map_raw_parseUserChat (latest RawUser.id userId users)
    have hlistedUser : (Peer.user userId).listed users chats =
        ((latest RawUser.id userId users).filter fun user => !user.isEmpty).map .inl :=
          Option.or_none
    rw [← hraw] at hlistedUser
    obtain ⟨chat, hchat, rfl⟩ := Option.map_eq_some_iff.mp (hlistedUser.symm.trans hentry)
    exact iff_of_true ⟨chat, congrArg Except.ok hchat, hentry⟩ nofun
  | some kind =>
    have hlistedChat : peerId.listed users chats = (peerId.listedChat chats).map .inr := by
      cases peerId with
      | user _ => cases hkind
      | chat _ | channel _ => rfl
    obtain ⟨listed, hsome, rfl⟩ := Option.map_eq_some_iff.mp (hlistedChat.symm.trans hentry)
    have hiff := @readAs_iff users chats peerId peerId.rawId kind hkind (some listed)
    constructor
    · rintro ⟨chat, hchat, hraw⟩ _ ⟨⟩
      obtain ⟨hkinds, hfound⟩ := hiff.mp ⟨some chat, hchat, hraw.symm.trans hentry⟩
      obtain ⟨hlatest, -⟩ := Option.filter_eq_some_iff.mp hfound.symm
      exact ⟨listed, hlatest, hkinds listed hlatest⟩
    -- the latest entry under the id is of the kind asked for, so it is the listed one
    · intro h
      obtain ⟨chat, hlatest, hchat⟩ := h kind rfl
      have hfound := listedChat_of_latest hlatest (hkind.trans (congrArg some hchat.symm))
      rw [hsome] at hfound
      obtain ⟨parsed, hparsed, hraw⟩ := hiff.mpr ⟨by simp [hlatest, hchat], hlatest ▸ hfound⟩
      obtain ⟨parsed, rfl, hraw'⟩ := Option.map_eq_some_iff.mp hraw
      exact ⟨parsed, hparsed, hentry.trans (congrArg some hraw'.symm)⟩

theorem listedUser_eq_none (h : (Peer.user sender.rawId).listedUser users = none) :
    sender.listedUser users = none := by
  cases sender with
  | user _ => exact h
  | chat _ | channel _ => rfl

theorem listedUser_of_kind (h : sender.kind = none) :
    sender.listedUser users = (Peer.user sender.rawId).listedUser users := by
  cases sender with
  | user _ => rfl
  | chat _ | channel _ => cases h

theorem unambiguous_of_no_user (huser : (Peer.user sender.rawId).listedUser users = none) :
    Unambiguous users chats sender peerId ↔
      (∀ kind, peerId.kind = some kind →
        ∃ chat, latest RawChat.id peerId.rawId chats = some chat ∧ chat.kind = kind) ∧
      (Silent chats peerId sender.rawId ∧ sender.listedChat chats = none ∨
        peerId.kind = sender.kind ∧
          ∃ chat, latest RawChat.id sender.rawId chats = some chat ∧
            some chat.kind = sender.kind) := by
  constructor
  · rintro ⟨hchat, hsender, hnot⟩
    refine ⟨hchat, ?_⟩
    cases hkind : sender.kind with
    | none =>
      refine .inl ⟨(hsender hkind).resolve_left (not_not_intro (listedUser_eq_none huser)), ?_⟩
      rw [Peer.listedChat, hkind]
    | some kind =>
      rw [← hkind]
      exact (hnot (by simp [hkind])).2
  · rintro ⟨hchat, hread⟩
    refine ⟨hchat, fun hkind => ?_, fun _ => ⟨huser, hread⟩⟩
    rcases hread with ⟨hsilent, -⟩ | ⟨-, chat, -, hsome⟩
    · exact .inr hsilent
    · rw [hkind] at hsome
      cases hsome

theorem unambiguous_of_user (huser : (Peer.user sender.rawId).listedUser users ≠ none) :
    Unambiguous users chats sender peerId ↔
      (∀ kind, peerId.kind = some kind →
        ∃ chat, latest RawChat.id peerId.rawId chats = some chat ∧ chat.kind = kind) ∧
          sender.kind = none := by
  constructor
  · rintro ⟨hchat, -, hnot⟩
    exact ⟨hchat, by_contra fun hkind => huser (hnot hkind).1⟩
  · rintro ⟨hchat, hkind⟩
    exact ⟨hchat, fun _ => .inl (listedUser_of_kind hkind ▸ huser), fun h => absurd hkind h⟩

/-- **The lookups of a parser** find the sender and the chat, where the bare numbers lead
to them. -/
theorem parsePeers_iff {message : RawMessage} (hpeer : message.peerId = some peerId)
    (hlisted : peerId.listed users chats ≠ none) :
    (∃ fromUser senderChat chat, Message.parsePeers message users chats =
      .ok (fromUser, senderChat, some chat) ∧
        fromUser.map User.raw = (message.sender peerId).listedUser users ∧
        senderChat.map Chat.raw = ((message.sender peerId).listedChat chats).map .inr ∧
        peerId.listed users chats = some chat.raw) ↔
      Unambiguous users chats (message.sender peerId) peerId := by
  -- a message without a sender is sent by its peer
  have hsender : (getRawPeerId message.fromId <|> getRawPeerId message.peerId) =
      some (message.sender peerId).rawId := by
    rw [hpeer, RawMessage.sender]
    cases message.fromId <;> rfl
  unfold Message.parsePeers
  rw [hsender, parse_sender hpeer, parse_chat hpeer]
  generalize message.sender peerId = sender
  have huser : (User.parse (latest RawUser.id sender.rawId users)).map User.raw =
    (Peer.user sender.rawId).listedUser users := map_raw_parse _
  simp only [Option.bind_some]
  -- a listed user is the sender, and no chat is read for it
  cases hfrom : User.parse (latest RawUser.id sender.rawId users) with
  | none =>
    have hnone : (Peer.user sender.rawId).listedUser users = none := by rw [← huser, hfrom]; rfl
    rw [unambiguous_of_no_user hnone, ← chat_iff hlisted, ← sender_iff hnone,
      listedUser_eq_none hnone, if_pos rfl]
    constructor
    · rintro ⟨fromUser, senderChat, chat, hparse, -, hraw, hchat⟩
      obtain ⟨senderChat', hread, hparse⟩ := Except.bind_eq_ok.mp hparse
      obtain ⟨chat', hreadChat, hparse⟩ := Except.bind_eq_ok.mp hparse
      cases hparse
      exact ⟨⟨chat, hreadChat, hchat⟩, senderChat, hread, hraw⟩
    · rintro ⟨⟨chat, hreadChat, hchat⟩, senderChat, hread, hraw⟩
      refine ⟨none, senderChat, chat, ?_, rfl, hraw, hchat⟩
      rw [hread, hreadChat]
      rfl
  | some fromUser =>
    have hsome : (Peer.user sender.rawId).listedUser users =
        some fromUser.raw := by rw [← huser, hfrom]; rfl
    rw [unambiguous_of_user (by simp [hsome]), ← chat_iff hlisted, if_neg (by simp)]
    constructor
    · rintro ⟨fromUser', senderChat, chat, hparse, hlistedUser, -, hchat⟩
      rw [Except.bind_ok] at hparse
      obtain ⟨chat', hreadChat, hparse⟩ := Except.bind_eq_ok.mp hparse
      cases hparse
      refine ⟨⟨chat, hreadChat, hchat⟩, ?_⟩
      cases sender with
      | user _ => rfl
      | chat _ | channel _ => cases hlistedUser
    · rintro ⟨⟨chat, hreadChat, hchat⟩, hkind⟩
      refine ⟨some fromUser, none, chat, ?_, ?_, ?_, hchat⟩
      · rw [Except.bind_ok, hreadChat]
        rfl
      · rw [listedUser_of_kind hkind, hsome]
        rfl
      · rw [Peer.listedChat, hkind]
        rfl

/-! ### The request of a private message -/

variable {getUsers : GetUsers} {message : RawMessage}

theorem knownUsers_cases (getUsers : GetUsers) (message : RawMessage) (users : List RawUser) :
    Message.knownUsers getUsers message users = users ∨
      ∃ fromId peerId, message.fromId = some (.user fromId) ∧ message.peerId = some (.user peerId) ∧
        Message.knownUsers getUsers message users = users ++ (getUsers fromId peerId).getD [] := by
  unfold Message.knownUsers
  split
  · next fromId peerId hfrom hpeer =>
    split
    · exact .inr ⟨fromId, peerId, hfrom, hpeer, rfl⟩
    · exact .inl rfl
  · exact .inl rfl

/-- What is listed after more users have come that hold the user that a peer names. -/
theorem listed_append {more : List RawUser} {userId : ℕ+}
    (h : (Peer.user userId).listed users chats ≠ none)
    (hmore : more = [] ∨ (Peer.user userId).listedUser more ≠ none) :
    (Peer.user userId).listed (users ++ more) chats ≠ none := by
  rcases hmore with rfl | hmore
  · rwa [List.append_nil]
  · obtain ⟨user, huser⟩ := Option.ne_none_iff_exists'.mp hmore
    obtain ⟨hlatest, hempty⟩ := Option.filter_eq_some_iff.mp huser
    have hlast : latest RawUser.id userId (users ++ more) = some user := by
      rw [latest_append, hlatest]
      rfl
    simp [Peer.listed, Peer.listedUser, hlast, Option.filter, hempty]

/-- A message of each of the three classes is what its parser finds, and its ids and date. -/
theorem parse_eq_ok_iff (hmessage : message.isEmpty = false) {m : Message} {known : List RawUser} :
    Message.parse getUsers message users chats = .ok (m, known) ↔
      known = Message.knownUsers getUsers message users ∧
        Message.parsePeers message known chats = .ok (m.fromUser, m.senderChat, m.chat) ∧
        m = { Message.stub message with
          fromUser := m.fromUser
          senderChat := m.senderChat
          chat := m.chat } := by
  rw [Message.parse, hmessage, if_neg (by simp)]
  constructor
  · intro h
    obtain ⟨peers, hpeers, h⟩ := Except.bind_eq_ok.mp h
    cases h
    exact ⟨rfl, hpeers, rfl⟩
  · rintro ⟨rfl, hpeers, hm⟩
    dsimp only
    rw [hpeers]
    exact congrArg (fun m => Except.ok (m, Message.knownUsers getUsers message users)) hm.symm

/-- **A message is attributed to the peers that the server named exactly when the bare
numbers lead to them**, where a request for users brings those it names. -/
theorem attributed_iff {users : List RawUser} {chats : List RawChat} {peerId : Peer}
    (hmessage : message.isEmpty = false)
    (hpeer : message.peerId = some peerId) (hlisted : peerId.listed users chats ≠ none)
    (hgetUsers : ∀ fromId peerId more, getUsers fromId peerId = some more →
      (Peer.user fromId).listedUser more ≠ none ∧ (Peer.user peerId).listedUser more ≠ none) :
    (∃ m, Message.parse getUsers message users chats =
      .ok (m, Message.knownUsers getUsers message users) ∧
        m.Attributed (Message.knownUsers getUsers message users) chats (message.sender peerId)
          peerId) ↔
      Unambiguous users chats (message.sender peerId) peerId := by
  -- after the request the chat is listed still, and the numbers lead where they did
  have hknown : peerId.listed (Message.knownUsers getUsers message users) chats ≠ none ∧
      (Unambiguous (Message.knownUsers getUsers message users) chats (message.sender peerId)
        peerId ↔
        Unambiguous users chats (message.sender peerId) peerId) := by
    rcases knownUsers_cases getUsers message users with heq | ⟨fromId, userId, hfrom, huser, heq⟩
    · rw [heq]
      exact ⟨hlisted, Iff.rfl⟩
    · obtain rfl : peerId = .user userId := Option.some.inj (hpeer.symm.trans huser)
      have hprivate : ∀ users, Unambiguous users chats (message.sender (.user userId))
          (.user userId) := by
        intro users
        rw [RawMessage.sender, hfrom]
        exact ⟨nofun, fun _ => .inr (.inl rfl), fun h => absurd rfl h⟩
      refine ⟨?_, iff_of_true (hprivate _) (hprivate _)⟩
      rw [heq]
      refine listed_append hlisted ?_
      cases hmore : getUsers fromId userId with
      | none => exact .inl rfl
      | some more => exact .inr (hgetUsers fromId userId more hmore).2
  rw [← hknown.2, ← parsePeers_iff hpeer hknown.1]
  constructor
  · rintro ⟨m, hparse, hattributed⟩
    obtain ⟨-, hpeers, -⟩ := (parse_eq_ok_iff hmessage).mp hparse
    obtain ⟨chat, hchat, hraw⟩ := hattributed.chat
    exact ⟨m.fromUser, m.senderChat, chat, hchat ▸ hpeers, hattributed.fromUser,
      hattributed.senderChat, hraw⟩
  · rintro ⟨fromUser, senderChat, chat, hpeers, huser, hsender, hraw⟩
    refine ⟨{ Message.stub message with fromUser, senderChat, chat := some chat }, ?_, huser,
      hsender, chat, rfl, hraw⟩
    exact (parse_eq_ok_iff hmessage).mpr ⟨rfl, hpeers, rfl⟩

/-! ### Messages -/

def namedUser (id : ℕ+) : RawUser := .user id false none none none []

def namedChannel (id : ℕ+) : RawChat := .channel id "" false false true none []

/-- The users that are asked for are returned. -/
def namedUsers : GetUsers := fun fromId peerId => some [namedUser fromId, namedUser peerId]

theorem namedUsers_listed {fromId peerId : ℕ+} {more : List RawUser}
    (h : namedUsers fromId peerId = some more) :
    (Peer.user fromId).listedUser more ≠ none ∧ (Peer.user peerId).listedUser more ≠ none := by
  cases h
  constructor
  · by_cases heq : peerId = fromId <;>
      simp [Peer.listedUser, latest, under, RawUser.id, namedUser, RawUser.isEmpty, heq]
  · by_cases heq : fromId = peerId <;>
      simp [Peer.listedUser, latest, under, RawUser.id, namedUser, RawUser.isEmpty, heq]

/-- A private message whose sender is not listed. -/
theorem attributed_iff_private :
    (∃ m, Message.parse namedUsers (.message 1 0 (some (.user 7)) (.user 9)) [namedUser 9]
      [namedChannel 7] =
          .ok (m, [namedUser 9, namedUser 7, namedUser 9]) ∧
        m.Attributed [namedUser 9, namedUser 7, namedUser 9] [namedChannel 7] (.user 7) (.user 9)) ↔
      Unambiguous [namedUser 9] [namedChannel 7] (.user 7) (.user 9) :=
  @attributed_iff namedUsers (.message 1 0 (some (.user 7)) (.user 9)) _ _ _ rfl rfl (by decide)
    fun _ _ _ => namedUsers_listed

/-- A channel that has the number of a user which is not listed takes its place, and so
does a user that has the number of a channel. -/
theorem not_attributed_of_number :
    (∃ m, Message.parse namedUsers (.message 1 0 (some (.user 7)) (.channel 9)) []
      [namedChannel 9, namedChannel 7] =
          .ok (m, []) ∧
        m.senderChat.map Chat.id = some (-1000000000007) ∧
        ¬ m.Attributed [] [namedChannel 9, namedChannel 7] (.user 7) (.channel 9)) ∧
      ∃ m, Message.parse namedUsers (.message 1 0 (some (.channel 7)) (.channel 9)) [namedUser 7]
            [namedChannel 9, namedChannel 7] = .ok (m, [namedUser 7]) ∧
        m.fromUser.map User.id = some 7 ∧
        ¬ m.Attributed [namedUser 7] [namedChannel 9, namedChannel 7] (.channel 7)
          (.channel 9) := by
  refine ⟨⟨_, rfl, rfl, fun h => ?_⟩, _, rfl, rfl, fun h => ?_⟩
  · cases h.senderChat
  · cases h.fromUser

end Pyrogram.Types
