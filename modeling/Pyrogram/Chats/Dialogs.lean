import Pyrogram.Types.Message

/-!
# The dialogs of an account

`get_dialogs` asks for pages of a hundred dialogs at most.  It leaves out what it has seen,
looks the chats and the top messages up, and goes on from the last dialog of a page.

Dialogs are told apart by their bare ids, and chats are looked up by them; the messages
are looked up by marked ids.  `resolve_peer` returns the peer of a marked id.

## Main definitions

* `getPage` — what is made of an answer.
* `getDialogs` — what is yielded, and the exception that ends it.
* `Server` — the dialogs that there are, and what is listed beside a page.
* `Complete` — they are yielded in order, each with its top message.

## Main results

* `getPage_of_legible` — a page that can be read, of dialogs that are new.
* `yields_dialogs_iff` — **when every dialog is yielded, whatever the limit.**
-/

namespace Pyrogram.Types.Dialogs

open ByKey

/-! ### Answers -/

/-- A `raw.types.Dialog`. -/
structure RawDialog where
  peer : Peer
  readInboxMaxId : ℤ := 0
  readOutboxMaxId : ℤ := 0
  unreadCount : ℤ := 0
  unreadMentionsCount : ℤ := 0
  unreadReactionsCount : ℤ := 0
  unreadPollVotesCount : ℤ := 0
  unreadMark : Bool := false
  pinned : Bool := false
  folderId : Option ℤ := none
  ttlPeriod : Option ℤ := none
  deriving DecidableEq, Repr

/-- A `raw.base.Dialog`. -/
inductive DialogEntry
  | dialog (dialog : RawDialog)
  /-- A `DialogFolder` or a `DialogCommunity`. -/
  | other
  deriving DecidableEq, Repr

/-- `messages.Dialogs` -/
structure Answer where
  dialogs : List DialogEntry
  messages : List RawMessage
  users : List RawUser
  chats : List RawChat
  deriving DecidableEq, Repr

/-- Where a request goes on; no peer is `InputPeerEmpty`, and a date that is `None` cannot be
written. -/
structure Offset where
  date : Option ℤ := some 0
  id : ℤ := 0
  peer : Option Peer := none
  deriving DecidableEq, Repr

/-! ### The client -/

/-- `types.Dialog` -/
structure Dialog where
  chat : Option Chat
  topMessage : Option Message
  lastReadInboxMessageId : ℤ
  lastReadOutboxMessageId : ℤ
  unreadMessagesCount : ℤ
  unreadMentionsCount : ℤ
  unreadReactionsCount : ℤ
  unreadPollVoteCount : ℤ
  unreadMark : Bool
  isPinned : Bool
  folderId : Option ℤ
  ttlPeriod : Option ℤ
  raw : RawDialog
  deriving DecidableEq, Repr

/-- The messages by the marked ids of their peers. -/
abbrev Messages := List (ℤ × Message)

def Messages.get (messages : Messages) (id : ℤ) : Option Message :=
  (latest Prod.fst id messages).map Prod.snd

/-- `Dialog._parse` -/
def Dialog.parse (dialog : RawDialog) (messages : Messages) (users : List RawUser)
    (chats : List RawChat) :
    Except Exc Dialog := do
  let chat ← Chat.parseDialog dialog.peer users chats
  return {
    chat
    topMessage := messages.get (getPeerId dialog.peer)
    lastReadInboxMessageId := dialog.readInboxMaxId
    lastReadOutboxMessageId := dialog.readOutboxMaxId
    unreadMessagesCount := dialog.unreadCount
    unreadMentionsCount := dialog.unreadMentionsCount
    unreadReactionsCount := dialog.unreadReactionsCount
    unreadPollVoteCount := dialog.unreadPollVotesCount
    unreadMark := dialog.unreadMark
    isPinned := dialog.pinned
    folderId := dialog.folderId
    ttlPeriod := dialog.ttlPeriod
    raw := dialog }

section Client

variable (getUsers : GetUsers) (resolvePeer : ℤ → Except Exc Peer)

/-- The loop over `r.messages`, and the users after it. -/
def parseMessages (chats : List RawChat) : List RawMessage → List RawUser →
    Except Exc (Messages × List RawUser)
  | [], users => .ok ([], users)
  | message :: messages, users =>
      if message.isEmpty then parseMessages chats messages users
      else do
        let parsed ← Message.parse getUsers message users chats
        let rest ← parseMessages chats messages parsed.2
        match message.peerId with
        | none => .error (.valueError "Peer type invalid: None")
        | some peerId => .ok ((getPeerId peerId, parsed.1) :: rest.1, rest.2)

/-- `users.get(peer_id) or chats.get(peer_id)` is a `UserEmpty` or a `ChatEmpty`. -/
def hidden (users : List RawUser) (chats : List RawChat) (id : ℕ+) : Bool :=
  match latest RawUser.id id users with
  | some user => user.isEmpty
  | none =>
      match latest RawChat.id id chats with
      | some chat => chat.isEmpty
      | none => false

/-- The loop over `r.dialogs`, and the ids that have been seen after it. -/
def parseDialogs (messages : Messages) (users : List RawUser) (chats : List RawChat) :
    List DialogEntry → List ℕ+ → Except Exc (List Dialog × List ℕ+)
  | [], seen => .ok ([], seen)
  | .other :: entries, seen => parseDialogs messages users chats entries seen
  | .dialog dialog :: entries, seen =>
      let peerId := dialog.peer.rawId
      if peerId ∈ seen then parseDialogs messages users chats entries seen
      else if hidden users chats peerId then parseDialogs messages users chats entries seen
      else do
        let parsed ← Dialog.parse dialog messages users chats
        let rest ← parseDialogs messages users chats entries (peerId :: seen)
        return (parsed :: rest.1, rest.2)

/-- What is made of an answer: the dialogs, the messages and the ids that have been seen. -/
def getPage (r : Answer) (seen : List ℕ+) : Except Exc (List Dialog × Messages × List ℕ+) := do
  let messages ← parseMessages getUsers r.chats r.messages r.users
  let dialogs ← parseDialogs messages.1 messages.2 r.chats r.dialogs seen
  return (dialogs.1, messages.1, dialogs.2)

/-- `last_message`, of the dialogs from the last one on. -/
def lastMessage (messages : Messages) : List Dialog → Except Exc (Option Message)
  | [] => .ok none
  | dialog :: dialogs =>
      match dialog.chat with
      | none => .error attributeError
      | some chat =>
          match messages.get chat.id with
          | some message => .ok (some message)
          | none => lastMessage messages dialogs

/-- Where the next request goes on; `last` is the last of the dialogs. -/
def nextOffset (messages : Messages) (dialogs : List Dialog) (last : Dialog) :
    Except Exc Offset := do
  let message ← lastMessage messages dialogs.reverse
  match last.chat with
  | none => .error attributeError
  | some chat => do
      let peer ← resolvePeer chat.id
      return {
        date := match message with
          | none => some 0
          | some message => message.date
        id := (message.map Message.id).getD 0
        peer := some peer }

/-- The loop that yields: what it yields, `current` after it, and whether it has returned. -/
def yieldDialogs (total : ℕ) : ℕ → List Dialog → List Dialog × ℕ × Bool
  | current, [] => ([], current, false)
  | current, dialog :: dialogs =>
      if total ≤ current + 1 then ([dialog], current + 1, true)
      else
        let (yielded, current', returned) := yieldDialogs total (current + 1) dialogs
        (dialog :: yielded, current', returned)

/-- What is yielded, and the exception that ends it. -/
abbrev Yields := List Dialog × Option Exc

/-- The `while` loop, for a number of turns at most. -/
def yieldPages (server : Offset → Answer) (total : ℕ) : ℕ → Offset → List ℕ+ → ℕ → Option Yields
  | 0, _, _, _ => none
  | fuel + 1, offset, seen, current =>
      if offset.date = none then some ([], some attributeError)
      else match getPage getUsers (server offset) seen with
      | .error e => some ([], some e)
      | .ok (dialogs, messages, seen') =>
          match dialogs.getLast? with
          | none => some ([], none)
          | some last =>
              match nextOffset resolvePeer messages dialogs last with
              | .error e => some ([], some e)
              | .ok offset' =>
                  match yieldDialogs total current dialogs with
                  | (yielded, _, true) => some (yielded, none)
                  | (yielded, current', false) =>
                      (yieldPages server total fuel offset' seen' current').map fun rest =>
                        (yielded ++ rest.1, rest.2)

def totalOf (limit : ℕ) : ℕ := if limit = 0 then 2 ^ 31 - 1 else limit

/-- `get_dialogs`; `none` where it goes on after a number of requests. -/
def getDialogs (server : Offset → ℕ → Answer) (limit fuel : ℕ) : Option Yields :=
  yieldPages getUsers resolvePeer (fun offset => server offset (min 100 (totalOf limit)))
    (totalOf limit) fuel {} [] 0

end Client

/-! ### The server -/

/-- A dialog with its top message, whose date is a time. -/
structure Listing where
  dialog : RawDialog
  id : ℤ
  date : ℤ
  date_ne : date ≠ 0
  top : RawMessage
  top_eq : top = .message id date top.fromId dialog.peer ∨
    top = .service id date top.fromId dialog.peer
  deriving DecidableEq, Repr

namespace Listing

def peer (l : Listing) : Peer := l.dialog.peer

/-- The offset that names a dialog. -/
def offset (l : Listing) : Offset := { date := some l.date, id := l.id, peer := some l.peer }

end Listing

/-- The dialogs that there are, and what is listed beside a page of them. -/
structure Server where
  listings : List Listing
  marked : (listings.map fun l : Listing => getPeerId l.peer).Nodup
  users : List Listing → List RawUser
  chats : List Listing → List RawChat
  listed : ∀ page ⊆ listings, ∀ l ∈ page, l.peer.listed (users page) (chats page) ≠ none
  /-- The dialogs for an offset that names none. -/
  elsewhere : Offset → List Listing

namespace Server

/-- The dialogs that follow the one that is named. -/
def following (server : Server) (offset : Offset) : List Listing :=
  if offset.peer = none then server.listings
  else
    match server.listings.findIdx? fun l : Listing => l.offset = offset with
    | some i => server.listings.drop (i + 1)
    | none => server.elsewhere offset

def answerWith (server : Server) (page : List Listing) : Answer where
  dialogs := page.map fun l => .dialog l.dialog
  messages := page.map Listing.top
  users := server.users page
  chats := server.chats page

def answer (server : Server) (offset : Offset) (limit : ℕ) : Answer :=
  server.answerWith ((server.following offset).take limit)

end Server

/-! ### What can be read -/

/-- The chat and the sender of a message are read without an exception. -/
def Readable (users : List RawUser) (chats : List RawChat) (sender peerId : Peer) : Prop :=
  ∀ kind, peerId.kind = some kind →
    (∀ chat ∈ latest RawChat.id peerId.rawId chats, chat.kind = kind) ∧
      ((Peer.user sender.rawId).listedUser users ≠ none ∨
        ∀ chat ∈ latest RawChat.id sender.rawId chats, chat.kind = kind)

/-- Under the number of a peer there is the peer, and no `UserEmpty`. -/
def Own (users : List RawUser) (chats : List RawChat) (peer : Peer) : Prop :=
  match peer.kind with
  | none => (Peer.user peer.rawId).listedUser users ≠ none
  | some kind =>
      (∃ chat, latest RawChat.id peer.rawId chats = some chat ∧ chat.kind = kind ∧
        chat.isEmpty = false) ∧
        ∀ user ∈ latest RawUser.id peer.rawId users, user.isEmpty = false

section Legible

variable (getUsers : GetUsers)

/-- The top messages are read one after another. -/
def MessagesRead (chats : List RawChat) : List Listing → List RawUser → Prop
  | [], _ => True
  | l :: page, users =>
      Readable (Message.knownUsers getUsers l.top users) chats (l.top.sender l.peer) l.peer ∧
        MessagesRead chats page (Message.knownUsers getUsers l.top users)

/-- The users after the top messages have been read. -/
def knownAfter (page : List Listing) (users : List RawUser) : List RawUser :=
  page.foldl (fun users l => Message.knownUsers getUsers l.top users) users

/-- **The bare numbers on a page lead to its peers.** -/
structure Legible (server : Server) (page : List Listing) : Prop where
  messages : MessagesRead getUsers (server.chats page) page (server.users page)
  own : ∀ l ∈ page, Own (knownAfter getUsers page (server.users page)) (server.chats page) l.peer

end Legible

/-! ### One message, one dialog -/

section Reading

variable {getUsers : GetUsers} {resolvePeer : ℤ → Except Exc Peer} {users : List RawUser}
    {chats : List RawChat}
  {messages : Messages}

theorem parseChatChat_isOk_iff {entry : Option RawChat} :
    (∃ chat, Chat.parseChatChat entry = .ok chat) ↔ ∀ chat ∈ entry, chat.kind = .group := by
  rcases entry with _ | entry
  · simp [Chat.parseChatChat]
  · cases entry <;> simp [Chat.parseChatChat, RawChat.kind]

theorem parseChannelChat_isOk_iff {entry : Option RawChat} :
    (∃ chat, Chat.parseChannelChat entry = .ok chat) ↔ ∀ chat ∈ entry, chat.kind = .channel := by
  rcases entry with _ | entry
  · simp [Chat.parseChannelChat]
  · cases entry <;> simp [Chat.parseChannelChat, RawChat.kind]

theorem readAs_isOk_iff {peerId : Peer} {id : ℕ+} :
    (∃ chat, readAs users chats peerId id = .ok chat) ↔
      ∀ kind, peerId.kind = some kind → ∀ chat ∈ latest RawChat.id id chats, chat.kind = kind := by
  cases peerId with
  | user _ => exact iff_of_true ⟨_, rfl⟩ nofun
  | chat _ => simpa [readAs, Peer.kind] using parseChatChat_isOk_iff
  | channel _ => simpa [readAs, Peer.kind] using parseChannelChat_isOk_iff

theorem parsePeers_isOk_iff {message : RawMessage} {peerId : Peer}
    (hpeer : message.peerId = some peerId) :
    (∃ peers, Message.parsePeers message users chats = .ok peers) ↔
      Readable users chats (message.sender peerId) peerId := by
  -- the peer stands in for a sender that is not given
  have hsender : (getRawPeerId message.fromId <|> getRawPeerId message.peerId) =
      some (message.sender peerId).rawId := by
    rw [hpeer, RawMessage.sender]
    cases message.fromId <;> rfl
  unfold Message.parsePeers
  rw [hsender, parse_sender hpeer, parse_chat hpeer]
  generalize message.sender peerId = sender
  have huser : (User.parse (latest RawUser.id sender.rawId users)).map User.raw =
    (Peer.user sender.rawId).listedUser users := map_raw_parse _
  have hreadable : Readable users chats sender peerId ↔
      (∃ chat, readAs users chats peerId peerId.rawId = .ok chat) ∧
        ((Peer.user sender.rawId).listedUser users ≠ none ∨
          ∃ chat, readAs users chats peerId sender.rawId = .ok chat) := by
    rw [readAs_isOk_iff, readAs_isOk_iff]
    constructor
    · intro h
      refine ⟨fun kind hkind => (h kind hkind).1, ?_⟩
      by_cases hlisted : (Peer.user sender.rawId).listedUser users = none
      · exact .inr fun kind hkind => (h kind hkind).2.resolve_left (not_not_intro hlisted)
      · exact .inl hlisted
    · rintro ⟨hchat, hsender⟩ kind hkind
      exact ⟨hchat kind hkind, hsender.imp_right fun h => h kind hkind⟩
  rw [hreadable, ← huser]
  simp only [Option.bind_some]
  -- without a listed user, the sender is read as a chat too
  cases User.parse (latest RawUser.id sender.rawId users) with
  | none =>
    rw [if_pos rfl]
    constructor
    · rintro ⟨peers, hpeers⟩
      obtain ⟨senderChat, hsender, hpeers⟩ := Except.bind_eq_ok.mp hpeers
      obtain ⟨chat, hchat, -⟩ := Except.bind_eq_ok.mp hpeers
      exact ⟨⟨chat, hchat⟩, .inr ⟨senderChat, hsender⟩⟩
    · rintro ⟨⟨chat, hchat⟩, hsender⟩
      obtain ⟨senderChat, hsender⟩ := hsender.resolve_left (by simp)
      exact ⟨(none, senderChat, chat), by rw [hsender, hchat]; rfl⟩
  | some fromUser =>
    rw [if_neg (by simp)]
    constructor
    · rintro ⟨peers, hpeers⟩
      rw [Except.bind_ok] at hpeers
      obtain ⟨chat, hchat, -⟩ := Except.bind_eq_ok.mp hpeers
      exact ⟨⟨chat, hchat⟩, .inl (by simp)⟩
    · rintro ⟨⟨chat, hchat⟩, -⟩
      exact ⟨(some fromUser, none, chat), by rw [Except.bind_ok, hchat]; rfl⟩

/-! ### The messages of a page -/

theorem isEmpty_top (l : Listing) : l.top.isEmpty = false := by
  rcases l.top_eq with h | h <;> rw [h] <;> rfl

theorem peerId_top (l : Listing) : l.top.peerId = some l.peer := by
  rcases l.top_eq with h | h <;> rw [h] <;> rfl

theorem parse_top_isOk_iff (l : Listing) :
    (∃ parsed, Message.parse getUsers l.top users chats = .ok parsed) ↔
      Readable (Message.knownUsers getUsers l.top users) chats (l.top.sender l.peer) l.peer := by
  rw [← parsePeers_isOk_iff (peerId_top l), Message.parse, isEmpty_top, if_neg (by simp)]
  constructor
  · rintro ⟨parsed, h⟩
    obtain ⟨peers, hpeers, -⟩ := Except.bind_eq_ok.mp h
    exact ⟨peers, hpeers⟩
  · rintro ⟨peers, hpeers⟩
    dsimp only
    rw [hpeers]
    exact ⟨_, rfl⟩

/-- A top message with its ids and its date. -/
structure IsTop (l : Listing) (m : Message) : Prop where
  raw : m.raw = l.top
  id : m.id = l.id
  date : m.date = some l.date

theorem isTop_of_parse {l : Listing} {parsed : Message × List RawUser}
    (h : Message.parse getUsers l.top users chats = .ok parsed) :
    parsed.2 = Message.knownUsers getUsers l.top users ∧ IsTop l parsed.1 := by
  obtain ⟨hknown, -, hm⟩ := (parse_eq_ok_iff (isEmpty_top l)).mp h
  refine ⟨hknown, ?_⟩
  rw [hm]
  have hdate : Message.timestampToDatetime l.date = some l.date := if_neg l.date_ne
  rcases l.top_eq with htop | htop <;> rw [htop] <;> exact ⟨htop.symm, rfl, hdate⟩

theorem parseMessages_cons (l : Listing) (page : List Listing) (users : List RawUser) :
    parseMessages getUsers chats ((l :: page).map Listing.top) users =
      (Message.parse getUsers l.top users chats >>= fun parsed =>
        parseMessages getUsers chats (page.map Listing.top) parsed.2 >>= fun rest =>
          .ok ((getPeerId l.peer, parsed.1) :: rest.1, rest.2)) := by
  simp only [List.map_cons, parseMessages, isEmpty_top, peerId_top, Bool.false_eq_true, if_false]

/-- The messages that are read, and the users after them. -/
theorem parseMessages_spec {page : List Listing} {r : Messages × List RawUser}
    (h : parseMessages getUsers chats (page.map Listing.top) users = .ok r) :
    r.2 = knownAfter getUsers page users ∧
      List.Forall₂ (fun entry l => entry.1 = getPeerId l.peer ∧ IsTop l entry.2) r.1 page := by
  induction page generalizing users r with
  | nil =>
    cases h
    exact ⟨rfl, .nil⟩
  | cons l page ih =>
    rw [parseMessages_cons] at h
    obtain ⟨parsed, hparsed, h⟩ := Except.bind_eq_ok.mp h
    obtain ⟨rest, hrest, h⟩ := Except.bind_eq_ok.mp h
    cases h
    obtain ⟨hknown, htop⟩ := isTop_of_parse hparsed
    obtain ⟨hafter, hentries⟩ := ih hrest
    exact ⟨hafter.trans (by rw [hknown]; rfl), .cons ⟨rfl, htop⟩ hentries⟩

theorem parseMessages_isOk_iff {page : List Listing} :
    (∃ r, parseMessages getUsers chats (page.map Listing.top) users = .ok r) ↔
      MessagesRead getUsers chats page users := by
  induction page generalizing users with
  | nil => exact iff_of_true ⟨_, rfl⟩ trivial
  | cons l page ih =>
    rw [parseMessages_cons, MessagesRead, ← parse_top_isOk_iff]
    constructor
    · rintro ⟨r, h⟩
      obtain ⟨parsed, hparsed, h⟩ := Except.bind_eq_ok.mp h
      obtain ⟨rest, hrest, -⟩ := Except.bind_eq_ok.mp h
      refine ⟨⟨parsed, hparsed⟩, ?_⟩
      rw [← (isTop_of_parse hparsed).1]
      exact ih.mp ⟨rest, hrest⟩
    · rintro ⟨⟨parsed, hparsed⟩, hpage⟩
      rw [← (isTop_of_parse hparsed).1] at hpage
      obtain ⟨rest, hrest⟩ := ih.mpr hpage
      refine ⟨((getPeerId l.peer, parsed.1) :: rest.1, rest.2), ?_⟩
      rw [hparsed, Except.bind_ok, hrest]
      rfl

/-- The message under the marked id of a dialog is its top message. -/
theorem get_of_spec {page : List Listing}
    (hmarked : (page.map fun l : Listing => getPeerId l.peer).Nodup)
    (hentries : List.Forall₂ (fun entry l => entry.1 = getPeerId l.peer ∧ IsTop l entry.2)
      messages page)
    {l : Listing} (hl : l ∈ page) : ∃ m, messages.get (getPeerId l.peer) = some m ∧ IsTop l m := by
  -- the entry is there, and another one with the same marked id is of the same dialog
  obtain ⟨i, hi, rfl⟩ := List.getElem_of_mem hl
  have hlength := hentries.length_eq
  have hentry := hentries.get (by omega) hi
  cases hlatest : latest Prod.fst (getPeerId page[i].peer) messages with
  | none =>
    exact absurd hentry.1 (latest_eq_none_iff.mp hlatest _ (List.getElem_mem _))
  | some entry =>
    refine ⟨entry.2, by rw [Messages.get, hlatest]; rfl, ?_⟩
    obtain ⟨j, hj, rfl⟩ := List.getElem_of_mem (mem_of_latest hlatest)
    have hother := hentries.get hj (by omega)
    have hkey := hother.1.symm.trans (key_of_latest hlatest)
    exact List.inj_on_of_nodup_map hmarked (List.getElem_mem _) (List.getElem_mem hi) hkey ▸
      hother.2

/-! ### The dialogs of a page -/

theorem parseDialog_of_own {peer : Peer} (h : Own users chats peer) :
    ∃ chat, Chat.parseDialog peer users chats = .ok (some chat) ∧ chat.id = getPeerId peer := by
  cases peer with
  | user userId =>
    obtain ⟨user, huser⟩ := Option.ne_none_iff_exists'.mp h
    obtain ⟨hlatest, hempty⟩ := Option.filter_eq_some_iff.mp huser
    have hid := key_of_latest hlatest
    cases user with
    | empty _ => cases hempty
    | user id =>
      obtain rfl : id = userId := hid
      exact ⟨_, congrArg (fun user => Except.ok (Chat.parseUserChat user)) hlatest, rfl⟩
  | chat chatId =>
    obtain ⟨⟨chat, hlatest, hkind, hempty⟩, -⟩ := h
    have hid := key_of_latest hlatest
    cases chat with
    | chat id title | chatForbidden id title =>
      obtain rfl : id = chatId := hid
      exact ⟨_, congrArg Chat.parseChatChat hlatest, rfl⟩
    | empty _ => cases hempty
    | channel | channelForbidden | community | communityForbidden => cases hkind
  | channel channelId =>
    obtain ⟨⟨chat, hlatest, hkind, -⟩, -⟩ := h
    have hid := key_of_latest hlatest
    cases chat with
    | channel id | channelForbidden id =>
      obtain rfl : id = channelId := hid
      exact ⟨_, congrArg Chat.parseChannelChat hlatest, rfl⟩
    | empty | chat | chatForbidden | community | communityForbidden => cases hkind

theorem hidden_of_own {peer : Peer} (h : Own users chats peer) :
    hidden users chats peer.rawId = false := by
  unfold Own at h
  unfold hidden
  split at h
  · obtain ⟨user, huser⟩ := Option.ne_none_iff_exists'.mp h
    obtain ⟨hlatest, hempty⟩ := Option.filter_eq_some_iff.mp huser
    rw [show latest RawUser.id peer.rawId users = some user from hlatest]
    simpa using hempty
  · obtain ⟨⟨chat, hlatest, -, hempty⟩, husers⟩ := h
    cases huser : latest RawUser.id peer.rawId users with
    | none => simpa [hlatest] using hempty
    | some user => exact husers user huser

/-- What a dialog is parsed to. -/
structure IsDialog (messages : Messages) (d : Dialog) (l : Listing) : Prop where
  raw : d.raw = l.dialog
  topMessage : d.topMessage = messages.get (getPeerId l.peer)
  chat : ∃ chat, d.chat = some chat ∧ chat.id = getPeerId l.peer

theorem parse_of_own {l : Listing} (h : Own users chats l.peer) :
    ∃ d, Dialog.parse l.dialog messages users chats = .ok d ∧ IsDialog messages d l := by
  obtain ⟨chat, hchat, hid⟩ := parseDialog_of_own h
  unfold Dialog.parse
  rw [show Chat.parseDialog l.dialog.peer users chats = _ from hchat]
  exact ⟨_, rfl, rfl, rfl, chat, rfl, hid⟩

def entriesOf (page : List Listing) : List DialogEntry := page.map fun l => .dialog l.dialog

def rawIds (page : List Listing) : List ℕ+ := page.map fun l => l.peer.rawId

@[simp] theorem rawIds_cons (l : Listing) (page : List Listing) :
    rawIds (l :: page) = l.peer.rawId :: rawIds page := rfl

/-- **The dialogs of a page** are all there, where each is under its own number and none has
been seen. -/
theorem parseDialogs_of_own {page : List Listing} {seen : List ℕ+}
    (hown : ∀ l ∈ page, Own users chats l.peer)
    (hnew : (rawIds page).Nodup) (hseen : ∀ id ∈ rawIds page, id ∉ seen) :
    ∃ r, parseDialogs messages users chats (entriesOf page) seen = .ok r ∧
      List.Forall₂ (IsDialog messages) r.1 page ∧ ∀ id, id ∈ r.2 ↔ id ∈ seen ∨
        id ∈ rawIds page := by
  induction page generalizing seen with
  | nil => exact ⟨([], seen), rfl, .nil, by simp [rawIds]⟩
  | cons l page ih =>
    have hl := hown l List.mem_cons_self
    rw [rawIds_cons, List.nodup_cons] at hnew
    obtain ⟨d, hd, hdialog⟩ := @parse_of_own users chats messages l hl
    have hrest : ∀ id ∈ rawIds page, id ∉ l.peer.rawId :: seen := by
      intro id hid hmem
      rcases List.mem_cons.mp hmem with rfl | hmem
      · exact hnew.1 hid
      · exact hseen id (List.mem_cons_of_mem _ hid) hmem
    obtain ⟨r, hr, hdialogs, hids⟩ :=
      ih (fun l hl => hown l (List.mem_cons_of_mem _ hl)) hnew.2 hrest
    refine ⟨(d :: r.1, r.2), ?_, .cons hdialog hdialogs, fun id => ?_⟩
    · have hnot : l.dialog.peer.rawId ∉ seen := hseen _ List.mem_cons_self
      have hshown : hidden users chats l.dialog.peer.rawId = false := hidden_of_own hl
      have hr' : parseDialogs messages users chats (page.map fun l => .dialog l.dialog)
          (l.dialog.peer.rawId :: seen) = .ok r := hr
      simp only [entriesOf, List.map_cons, parseDialogs, if_neg hnot, hshown, hd, hr',
        Except.bind_ok, Bool.false_eq_true, if_false]
      rfl
    · rw [hids, rawIds_cons, List.mem_cons, List.mem_cons]
      tauto

/-- What is yielded of an answer has not been seen before, and is seen after it. -/
theorem parseDialogs_new {entries : List DialogEntry} {seen : List ℕ+} {r : List Dialog × List ℕ+}
    (h : parseDialogs messages users chats entries seen = .ok r) :
    (r.1.map fun d => d.raw.peer.rawId).Nodup ∧ (∀ d ∈ r.1, d.raw.peer.rawId ∉ seen) ∧
      (∀ id ∈ seen, id ∈ r.2) ∧ ∀ d ∈ r.1, d.raw.peer.rawId ∈ r.2 := by
  -- on the entries, with the ids seen before them
  induction entries generalizing seen r with
  | nil =>
    cases h
    simp
  | cons entry entries ih =>
    cases entry with
    | other => exact ih h
    | dialog dialog =>
      rw [parseDialogs] at h
      split at h
      · exact ih h
      · next hnot =>
        split at h
        · exact ih h
        · obtain ⟨d, hd, h⟩ := Except.bind_eq_ok.mp h
          obtain ⟨rest, hrest, h⟩ := Except.bind_eq_ok.mp h
          cases h
          obtain ⟨chat, -, hd⟩ := Except.bind_eq_ok.mp hd
          cases hd
          obtain ⟨hnodup, hunseen, hkept, hadded⟩ := ih hrest
          -- the first has an id not seen yet, and those after it have seen that id
          refine ⟨?_, ?_, fun id hid => hkept id (List.mem_cons_of_mem _ hid), ?_⟩
          · refine List.nodup_cons.mpr ⟨fun hmem => ?_, hnodup⟩
            obtain ⟨d, hd, hid⟩ := List.mem_map.mp hmem
            exact hunseen d hd (hid ▸ List.mem_cons_self)
          · rintro d (_ | ⟨_, hd⟩)
            · exact hnot
            · exact fun hmem => hunseen d hd (List.mem_cons_of_mem _ hmem)
          · rintro d (_ | ⟨_, hd⟩)
            · exact hkept _ List.mem_cons_self
            · exact hadded d hd

/-- A dialog that is parsed is under its number, where nothing is empty. -/
theorem own_of_parse {l : Listing} (hlisted : l.peer.listed users chats ≠ none)
    (husers : ∀ user ∈ users, user.isEmpty = false) (hchats : ∀ chat ∈ chats, chat.isEmpty = false)
    {d : Dialog}
    (h : Dialog.parse l.dialog messages users chats = .ok d) : Own users chats l.peer := by
  obtain ⟨chat, hchat, -⟩ := Except.bind_eq_ok.mp h
  have hshown : ∀ id, ∀ user ∈ latest RawUser.id id users, user.isEmpty = false :=
      fun id user huser =>
    husers user (mem_of_latest huser)
  have hread : readAs users chats l.peer l.peer.rawId = .ok chat := by
    rw [← hchat, ← Listing.peer]
    cases l.peer <;> rfl
  unfold Own
  split
  · next hkind =>
    have hlistedChat : l.peer.listedChat chats = none := by rw [Peer.listedChat, hkind]
    rw [Peer.listed, hlistedChat, listedUser_of_kind hkind] at hlisted
    simpa using hlisted
  · next kind hkind =>
    refine ⟨?_, hshown _⟩
    have hkinds := readAs_isOk_iff.mp ⟨chat, hread⟩ kind hkind
    cases hlatest : latest RawChat.id l.peer.rawId chats with
    | none =>
      have hlistedUser : l.peer.listedUser users = none := by
        cases hpeer : l.peer with
        | user _ => rw [hpeer] at hkind; cases hkind
        | chat _ | channel _ => rfl
      rw [Peer.listed, hlistedUser, listedChat_of_latest_none hlatest] at hlisted
      exact absurd rfl hlisted
    | some found => exact ⟨found, rfl, hkinds found hlatest, hchats found (mem_of_latest hlatest)⟩

theorem hidden_of_nonempty (husers : ∀ user ∈ users, user.isEmpty = false)
    (hchats : ∀ chat ∈ chats, chat.isEmpty = false) (id : ℕ+) : hidden users chats id = false := by
  unfold hidden
  cases huser : latest RawUser.id id users with
  | some user => exact husers user (mem_of_latest huser)
  | none =>
    cases hchat : latest RawChat.id id chats with
    | some chat => exact hchats chat (mem_of_latest hchat)
    | none => rfl

/-- **The dialogs of a page are under their own numbers**, where they are new, parsed and
nothing is empty. -/
theorem own_of_parseDialogs {page : List Listing} {seen : List ℕ+}
    (hlisted : ∀ l ∈ page, l.peer.listed users chats ≠ none)
    (husers : ∀ user ∈ users, user.isEmpty = false) (hchats : ∀ chat ∈ chats, chat.isEmpty = false)
    (hnew : (rawIds page).Nodup) (hseen : ∀ id ∈ rawIds page, id ∉ seen) {r : List Dialog × List ℕ+}
    (h : parseDialogs messages users chats (entriesOf page) seen = .ok r) :
    ∀ l ∈ page, Own users chats l.peer := by
  induction page generalizing seen r with
  | nil => exact fun l hl => absurd hl List.not_mem_nil
  | cons l page ih =>
    rw [rawIds_cons, List.nodup_cons] at hnew
    have hnot : l.dialog.peer.rawId ∉ seen := hseen _ List.mem_cons_self
    have hshown : hidden users chats l.dialog.peer.rawId = false :=
      hidden_of_nonempty husers hchats _
    simp only [entriesOf, List.map_cons, parseDialogs, if_neg hnot, hshown, Bool.false_eq_true,
      if_false] at h
    obtain ⟨d, hd, h⟩ := Except.bind_eq_ok.mp h
    obtain ⟨rest, hrest, -⟩ := Except.bind_eq_ok.mp h
    have hrestSeen : ∀ id ∈ rawIds page, id ∉ l.dialog.peer.rawId :: seen := by
      intro id hid hmem
      rcases List.mem_cons.mp hmem with rfl | hmem
      · exact hnew.1 hid
      · exact hseen id (List.mem_cons_of_mem _ hid) hmem
    rintro l' (_ | ⟨_, hl'⟩)
    · exact own_of_parse (hlisted _ List.mem_cons_self) husers hchats hd
    · exact ih (fun l hl => hlisted l (List.mem_cons_of_mem _ hl)) hnew.2 hrestSeen hrest l' hl'

end Reading

/-! ### Pages of the server -/

/-- A dialog is shown with its chat and its own top message. -/
structure Shows (d : Dialog) (l : Listing) : Prop where
  raw : d.raw = l.dialog
  topMessage : ∃ m, d.topMessage = some m ∧ IsTop l m
  chat : ∃ chat, d.chat = some chat ∧ chat.id = getPeerId l.peer

section Pages

variable {getUsers : GetUsers} {resolvePeer : ℤ → Except Exc Peer} {server : Server}

theorem shows_of_isDialog {messages : Messages} {dialogs : List Dialog} {page : List Listing}
    (hget : ∀ l ∈ page, ∃ m, messages.get (getPeerId l.peer) = some m ∧ IsTop l m)
    (h : List.Forall₂ (IsDialog messages) dialogs page) : List.Forall₂ Shows dialogs page := by
  induction h with
  | nil => exact .nil
  | @cons d l ds page hd _ ih =>
    obtain ⟨m, hm, htop⟩ := hget l List.mem_cons_self
    exact .cons ⟨hd.raw, ⟨m, hd.topMessage.trans hm, htop⟩, hd.chat⟩
      (ih fun l hl => hget l (List.mem_cons_of_mem _ hl))

theorem getPage_answerWith (page : List Listing) (seen : List ℕ+) :
    getPage getUsers (server.answerWith page) seen =
    (parseMessages getUsers (server.chats page) (page.map Listing.top) (server.users page) >>=
        fun messages =>
      parseDialogs messages.1 messages.2 (server.chats page) (entriesOf page) seen >>=
          fun dialogs =>
        .ok (dialogs.1, messages.1, dialogs.2)) := rfl

/-- **A page that can be read** is shown, where its dialogs are new. -/
theorem getPage_of_legible {page : List Listing} {seen : List ℕ+}
    (hlegible : Legible getUsers server page)
    (hmarked : (page.map fun l : Listing => getPeerId l.peer).Nodup) (hnew : (rawIds page).Nodup)
    (hseen : ∀ id ∈ rawIds page, id ∉ seen) :
    ∃ dialogs messages seen', getPage getUsers (server.answerWith page) seen =
      .ok (dialogs, messages, seen') ∧
      List.Forall₂ Shows dialogs page ∧
      (∀ l ∈ page, ∃ m, Messages.get messages (getPeerId l.peer) = some m ∧ IsTop l m) ∧
      ∀ id, id ∈ seen' ↔ id ∈ seen ∨ id ∈ rawIds page := by
  obtain ⟨messages, hmessages⟩ := parseMessages_isOk_iff.mpr hlegible.messages
  obtain ⟨hknown, hentries⟩ := parseMessages_spec hmessages
  have hget := fun l hl => @get_of_spec messages.1 page hmarked hentries l hl
  obtain ⟨r, hr, hdialogs, hids⟩ :=
    @parseDialogs_of_own _ _ messages.1 page seen (hknown ▸ hlegible.own) hnew hseen
  refine ⟨r.1, messages.1, r.2, ?_, shows_of_isDialog hget hdialogs, hget, hids⟩
  rw [getPage_answerWith, hmessages, Except.bind_ok, hr, Except.bind_ok]

/-- The next request goes on from the last dialog of a page. -/
theorem nextOffset_of_shows {messages : Messages} {dialogs : List Dialog} {page : List Listing}
    {last : Listing}
    (hresolve : ∀ l ∈ server.listings, resolvePeer (getPeerId l.peer) = .ok l.peer)
    (hget : ∀ l ∈ page, ∃ m, messages.get (getPeerId l.peer) = some m ∧ IsTop l m)
    (hshows : List.Forall₂ Shows dialogs page) (hlast : page.getLast? = some last)
    (hmem : last ∈ server.listings) :
    ∃ d, dialogs.getLast? = some d ∧ nextOffset resolvePeer messages dialogs d =
      .ok last.offset := by
  obtain ⟨before, rfl⟩ := List.getLast?_eq_some_iff.mp hlast
  have hreverse := List.forall₂_reverse_iff.mpr hshows
  rw [List.reverse_append] at hreverse
  obtain ⟨d, rest, hd, -, hdialogs⟩ := List.forall₂_cons_right_iff.mp hreverse
  obtain ⟨m, hm, htop⟩ := hget last (List.mem_append_right _ List.mem_cons_self)
  obtain ⟨chat, hchat, hid⟩ := hd.chat
  refine ⟨d, ?_, ?_⟩
  · rw [← List.head?_reverse, hdialogs, List.head?_cons]
  · simp only [nextOffset, hdialogs, lastMessage, hchat, hid, hm, Except.bind_ok,
      hresolve last hmem, htop.date,
      Option.map_some, htop.id, Option.getD_some]
    rfl

/-- The offset of a dialog names that dialog. -/
theorem following_of_getElem? {i : ℕ} {l : Listing} (h : server.listings[i]? = some l) :
    server.following l.offset = server.listings.drop (i + 1) := by
  obtain ⟨hi, rfl⟩ := List.getElem?_eq_some_iff.mp h
  have hfind : (server.listings.findIdx? fun other : Listing =>
      other.offset = server.listings[i].offset) = some i := by
    rw [List.findIdx?_eq_some_iff_getElem]
    refine ⟨hi, decide_eq_true rfl, fun j hj => ?_⟩
    have hmarked := List.pairwise_iff_getElem.mp (List.pairwise_map.mp server.marked) j i
      (Nat.lt_trans hj hi) hi hj
    have hne : (server.listings.get ⟨j, Nat.lt_trans hj hi⟩).offset ≠
        server.listings[i].offset := by
      intro heq
      exact hmarked (congrArg getPeerId (Option.some.inj (congrArg Offset.peer heq)))
    simpa using hne
  rw [Server.following, if_neg (by simp [Listing.offset]), hfind]

/-! ### The loop -/

theorem yieldDialogs_eq {total current : ℕ} (h : current < total) (dialogs : List Dialog) :
    yieldDialogs total current dialogs =
      (dialogs.take (total - current), min total (current + dialogs.length),
        decide (total ≤ current + dialogs.length)) := by
  induction dialogs generalizing current with
  | nil => simp [yieldDialogs]; omega
  | cons d dialogs ih =>
    rw [yieldDialogs]
    split
    · next hle =>
      obtain rfl : total = current + 1 := by omega
      simp
    · next hlt =>
      rw [ih (by omega), show total - current = (total - (current + 1)) + 1 by omega]
      simp [List.take_succ_cons, Nat.add_assoc, Nat.add_comm 1]

/-- How many dialogs at most the server is asked for, in pages of a hundred or one that is
shorter. -/
def reach (total : ℕ) : ℕ := if total ≤ 100 then total else 100 * ((total + 99) / 100)

/-- A page that the server is asked for. -/
def Asked (server : Server) (total : ℕ) (page : List Listing) : Prop :=
  ∃ k, 100 * k < total ∧ page = (server.listings.drop (100 * k)).take (min 100 total)

/-- **No two dialogs on the pages share a bare number, and the bare numbers on each page lead to
its peers.** -/
structure Clear (getUsers : GetUsers) (server : Server) (limit : ℕ) : Prop where
  count : limit = 0 → server.listings.length ≤ 2 ^ 31 - 1
  rawIds : (rawIds (server.listings.take (reach (totalOf limit)))).Nodup
  legible : ∀ page, Asked server (totalOf limit) page → Legible getUsers server page

/-- The loop goes on at a position: what precedes it has been seen. -/
structure At (server : Server) (limit q : ℕ) (offset : Offset) (seen : List ℕ+) : Prop where
  date : offset.date ≠ none
  following : server.following offset = server.listings.drop q
  seen : ∀ id, id ∈ seen ↔ id ∈ rawIds (server.listings.take q)
  whole : q = 0 ∨ limit = 100 ∧ 100 ∣ q ∨ server.listings.length ≤ q

theorem at_zero (server : Server) (limit : ℕ) : At server limit 0 {} [] where
  date := nofun
  following := rfl
  seen := by simp [rawIds]
  whole := .inl rfl

theorem legible_nil (getUsers : GetUsers) (server : Server) : Legible getUsers server [] where
  messages := trivial
  own := fun _ h => absurd h List.not_mem_nil

/-- The page at a position is one that is asked for, or empty. -/
theorem At.legible {total q : ℕ} {offset : Offset} {seen : List ℕ+}
    (h : At server (min 100 total) q offset seen)
    (hq : q < total) (hlegible : ∀ page, Asked server total page → Legible getUsers server page) :
    Legible getUsers server ((server.listings.drop q).take (min 100 total)) := by
  rcases h.whole with rfl | ⟨-, k, rfl⟩ | hlength
  · exact hlegible _ ⟨0, hq, rfl⟩
  · exact hlegible _ ⟨k, hq, rfl⟩
  · rw [List.drop_eq_nil_of_le hlength, List.take_nil]
    exact legible_nil getUsers server

theorem At.reaches {total q : ℕ} {offset : Offset} {seen : List ℕ+}
    (h : At server (min 100 total) q offset seen)
    (hq : q < total) : q + min 100 total ≤ reach total ∨ server.listings.length ≤ q := by
  rcases h.whole with rfl | ⟨hlimit, k, rfl⟩ | hlength
  · unfold reach
    split <;> exact .inl (by omega)
  · unfold reach
    split <;> exact .inl (by omega)
  · exact .inr hlength

theorem rawIds_append (page page' : List Listing) :
    rawIds (page ++ page') = rawIds page ++ rawIds page' :=
  List.map_append

/-- What is taken at a position is new, as far as no number comes twice. -/
theorem At.new {limit q n r : ℕ} {offset : Offset} {seen : List ℕ+}
    (h : At server limit q offset seen)
    (hnodup : (rawIds (server.listings.take r)).Nodup)
    (hr : q + n ≤ r ∨ server.listings.length ≤ q) :
    (rawIds ((server.listings.drop q).take n)).Nodup ∧
      ∀ id ∈ rawIds ((server.listings.drop q).take n), id ∉ seen := by
  rcases hr with hr | hlength
  · obtain ⟨more, rfl⟩ := Nat.exists_eq_add_of_le hr
    rw [Nat.add_assoc, List.take_add, List.take_add, rawIds_append, rawIds_append] at hnodup
    obtain ⟨-, hrest, hdisjoint⟩ := List.nodup_append.mp hnodup
    refine ⟨(List.nodup_append.mp hrest).1, fun id hid hmem => ?_⟩
    exact hdisjoint id ((h.seen id).mp hmem) id (List.mem_append_left _ hid) rfl
  · rw [List.drop_eq_nil_of_le hlength, List.take_nil]
    exact ⟨List.nodup_nil, fun _ hid => absurd hid List.not_mem_nil⟩

/-- After a page the loop goes on behind it. -/
theorem At.next {limit q : ℕ} {offset : Offset} {seen seen' : List ℕ+} {page : List Listing}
    {last : Listing}
    (h : At server limit q offset seen) (hpage : page = (server.listings.drop q).take limit)
    (hlast : page.getLast? = some last) (hseen : ∀ id, id ∈ seen' ↔ id ∈ seen ∨ id ∈ rawIds page)
    (hlimit : limit = 100 ∨ page.length < limit) :
    At server limit (q + page.length) last.offset seen' := by
  have hlength : page.length = min limit (server.listings.length - q) := by simp [hpage]
  have htake : server.listings.take (q + page.length) = server.listings.take q ++ page := by
    rw [List.take_add, hpage, ← List.prefix_iff_eq_take.mp (List.take_prefix limit _)]
  have hpos : 0 < page.length := by
    cases page with
    | nil => cases hlast
    | cons _ _ => exact Nat.succ_pos _
  -- the last of the page is the last that the server has given
  have hindex : server.listings[q + (page.length - 1)]? = some last := by
    have hget : page[page.length - 1]? =
        ((server.listings.drop q).take limit)[page.length - 1]? := by rw [← hpage]
    rw [List.getElem?_take_of_lt (by omega), List.getElem?_drop] at hget
    rw [← hget, ← List.getLast?_eq_getElem?, hlast]
  refine ⟨Option.some_ne_none _, ?_, ?_, ?_⟩
  · rw [following_of_getElem? hindex]
    congr 1
    omega
  · intro id
    rw [hseen, h.seen, htake, rawIds_append, List.mem_append]
  -- a page cut off at a hundred keeps the position a multiple of it; a shorter one is the last
  · rcases hlimit with rfl | hshort
    · by_cases hfull : page.length = 100
      · refine .inr (.inl ⟨rfl, ?_⟩)
        rcases h.whole with rfl | ⟨-, hdvd⟩ | hq
        · rw [hfull]
        · exact Nat.dvd_add hdvd (Dvd.intro_left 1 (by omega))
        · omega
      · exact .inr (.inr (by omega))
    · exact .inr (.inr (by omega))

variable {users : List RawUser} {limit total : ℕ}

theorem marked_take (server : Server) (q n : ℕ) :
    (((server.listings.drop q).take n).map fun l : Listing => getPeerId l.peer).Nodup := by
  refine server.marked.sublist (List.Sublist.map _ ?_)
  exact (List.take_sublist _ _).trans (List.drop_sublist _ _)

/-- **The loop yields what follows a position**, where everything can be read. -/
theorem yieldPages_of_legible {limit total q : ℕ}
    (hnodup : (rawIds (server.listings.take (reach total))).Nodup)
    (hlegibles : ∀ page, Asked server total page → Legible getUsers server page)
    (hresolve : ∀ l ∈ server.listings, resolvePeer (getPeerId l.peer) = .ok l.peer)
    {offset : Offset}
    {seen : List ℕ+} (hlimit : limit = min 100 total) (htotal : q < total)
    (h : At server limit q offset seen) :
    ∃ fuel out, yieldPages getUsers resolvePeer (fun offset => server.answer offset limit) total
      fuel offset seen q =
        some (out, none) ∧
      List.Forall₂ Shows out ((server.listings.drop q).take (total - q)) := by
  -- by induction on what is left of the list
  induction hleft : server.listings.length - q using Nat.strong_induction_on generalizing q offset
    seen with
  | _ left ih =>
    subst hleft
    obtain ⟨page, hpage⟩ : ∃ page, page = (server.listings.drop q).take limit := ⟨_, rfl⟩
    have hlegible : Legible getUsers server page := by
      rw [hpage, hlimit]
      exact (hlimit ▸ h).legible htotal hlegibles
    obtain ⟨hnew, hseen⟩ := h.new hnodup (hlimit ▸ (hlimit ▸ h).reaches htotal)
    rw [← hpage] at hnew hseen
    obtain ⟨dialogs, messages, seen', hget, hshows, htops, hseen'⟩ :=
      getPage_of_legible hlegible (hpage ▸ marked_take server q limit) hnew hseen
    have hanswer : server.answer offset limit = server.answerWith page := by
      rw [Server.answer, h.following, ← hpage]
    cases hlast : page.getLast? with
    | none =>
      -- the list is at its end
      obtain rfl : page = [] := List.getLast?_eq_none_iff.mp hlast
      obtain rfl : dialogs = [] := List.forall₂_nil_right_iff.mp hshows
      have hend : server.listings.length ≤ q := by
        have hlength := congrArg List.length hpage
        simp only [List.length_nil, List.length_take, List.length_drop] at hlength
        omega
      refine ⟨1, [], ?_, ?_⟩
      · rw [yieldPages, if_neg h.date, hanswer, hget]
        rfl
      · rw [List.drop_eq_nil_of_le hend, List.take_nil]
        exact .nil
    | some last =>
      have hmem : last ∈ server.listings := by
        have hlastPage := List.mem_of_getLast? hlast
        rw [hpage] at hlastPage
        exact List.mem_of_mem_drop (List.mem_of_mem_take hlastPage)
      obtain ⟨d, hd, hnext⟩ := nextOffset_of_shows hresolve htops hshows hlast hmem
      have hlength := hshows.length_eq
      have hpageLength : page.length = min limit (server.listings.length - q) := by simp [hpage]
      by_cases henough : total ≤ q + page.length
      · refine ⟨1, dialogs.take (total - q), ?_, ?_⟩
        · rw [yieldPages, if_neg h.date, hanswer, hget]
          simp only [hd, hnext, yieldDialogs_eq htotal, hlength, henough, decide_true]
        · have htake : (server.listings.drop q).take (total - q) = page.take (total - q) := by
            rw [hpage, List.take_take]
            congr 1
            omega
          rw [htake]
          exact List.forall₂_take _ hshows
      · have hpos : 0 < page.length := by
          cases page with
          | nil => cases hlast
          | cons _ _ => exact Nat.succ_pos _
        have hat := h.next hpage hlast hseen' (by omega)
        obtain ⟨fuel, out, hout, hrest⟩ :=
          ih (server.listings.length - (q + page.length)) (by omega) (by omega) hat rfl
        refine ⟨fuel + 1, dialogs ++ out, ?_, ?_⟩
        · rw [yieldPages, if_neg h.date, hanswer, hget]
          have hcount : min total (q + page.length) = q + page.length := by omega
          simp only [hd, hnext, yieldDialogs_eq htotal, hlength, henough, decide_false, hcount,
            hout, Option.map_some]
          rw [List.take_of_length_le (by omega)]
        · have htake : (server.listings.drop q).take (total - q) =
              page ++ (server.listings.drop (q + page.length)).take
                (total - (q + page.length)) := by
            have hpre : (server.listings.drop q).take page.length = page := by
              rw [hpage, ← List.prefix_iff_eq_take.mp (List.take_prefix limit _)]
            rw [show total - q = page.length + (total - (q + page.length)) by
              omega, List.take_add, hpre, List.drop_drop]
          rw [htake]
          exact List.rel_append hshows hrest

/-! ### What has been yielded can be read -/

/-- No `UserEmpty` and no `ChatEmpty` is listed. -/
structure NoneEmpty (getUsers : GetUsers) (server : Server) : Prop where
  users : ∀ page, ∀ user ∈ server.users page, user.isEmpty = false
  chats : ∀ page, ∀ chat ∈ server.chats page, chat.isEmpty = false
  more : ∀ fromId peerId more, getUsers fromId peerId = some more →
    ∀ user ∈ more, user.isEmpty = false

theorem yieldDialogs_prefix (total current : ℕ) (dialogs : List Dialog) :
    (yieldDialogs total current dialogs).1 <+: dialogs := by
  induction dialogs generalizing current with
  | nil => exact List.prefix_rfl
  | cons d dialogs ih =>
    rw [yieldDialogs]
    split
    · exact List.cons_prefix_cons.mpr ⟨rfl, List.nil_prefix⟩
    · exact List.cons_prefix_cons.mpr ⟨rfl, ih (current + 1)⟩

/-- A turn that goes on yields the start of a page, and a turn that ends nothing else. -/
theorem yieldPages_succ {server : Offset → Answer} {fuel current : ℕ} {offset : Offset}
    {seen : List ℕ+} {out : List Dialog}
    (h : yieldPages getUsers resolvePeer server total (fuel + 1) offset seen current =
      some (out, none)) :
    ∃ dialogs messages seen', getPage getUsers (server offset) seen =
      .ok (dialogs, messages, seen') ∧
      (out <+: dialogs ∨ ∃ offset' current' yielded rest, yielded <+: dialogs ∧
        out = yielded ++ rest ∧
        yieldPages getUsers resolvePeer server total fuel offset' seen' current' =
          some (rest, none)) := by
  rw [yieldPages] at h
  -- the page cannot be had
  split at h
  · cases h
  split at h
  · cases h
  · next dialogs messages seen' hget =>
    refine ⟨dialogs, messages, seen', hget, ?_⟩
    -- an empty page ends the run, and the last entry of another one gives the next offset
    split at h
    · cases h
      exact .inl List.nil_prefix
    · next last hlast =>
      split at h
      · cases h
      · next offset' hoffset =>
        have hpre := yieldDialogs_prefix total current dialogs
        -- the total is reached within the page, or the next page is asked for
        split at h
        · next yielded _ heq =>
          rw [heq] at hpre
          cases h
          exact .inl hpre
        · next yielded current' heq =>
          rw [heq] at hpre
          obtain ⟨⟨rest, raised⟩, hrest, h⟩ := Option.map_eq_some_iff.mp h
          cases h
          exact .inr ⟨offset', current', yielded, rest, hpre, rfl, hrest⟩

/-- **No bare number is yielded twice.** -/
theorem nodup_of_yieldPages {server : Offset → Answer} {fuel current : ℕ} {offset : Offset}
    {seen : List ℕ+}
    {out : List Dialog} (h : yieldPages getUsers resolvePeer server total fuel offset seen current =
      some (out, none)) :
    (out.map fun d => d.raw.peer.rawId).Nodup ∧ ∀ d ∈ out, d.raw.peer.rawId ∉ seen := by
  induction fuel generalizing offset seen current out with
  | zero => cases h
  | succ fuel ih =>
    obtain ⟨dialogs, messages, seen', hget, hout⟩ := yieldPages_succ h
    obtain ⟨read, -, hget⟩ := Except.bind_eq_ok.mp hget
    obtain ⟨r, hr, hget⟩ := Except.bind_eq_ok.mp hget
    cases hget
    obtain ⟨hnodup, hunseen, hkept, hadded⟩ := parseDialogs_new hr
    rcases hout with hpre | ⟨offset', current', yielded, rest, hpre, rfl, hrest⟩
    · exact ⟨hnodup.sublist (hpre.sublist.map _), fun d hd => hunseen d (hpre.subset hd)⟩
    · obtain ⟨hnodupRest, hunseenRest⟩ := ih hrest
      refine ⟨?_, fun d hd => ?_⟩
      · rw [List.map_append, List.nodup_append]
        refine ⟨hnodup.sublist (hpre.sublist.map _), hnodupRest, ?_⟩
        intro id hid id' hid' heq
        obtain ⟨d, hd, rfl⟩ := List.mem_map.mp hid
        obtain ⟨d', hd', rfl⟩ := List.mem_map.mp hid'
        exact hunseenRest d' hd' (heq ▸ hadded d (hpre.subset hd))
      · rcases List.mem_append.mp hd with hd | hd
        · exact hunseen d (hpre.subset hd)
        · exact fun hmem => hunseenRest d hd (hkept _ hmem)

theorem listedUser_ne_none {userId : ℕ+} (hempty : ∀ user ∈ users, user.isEmpty = false) :
    (Peer.user userId).listedUser users ≠ none ↔ ∃ user ∈ users, user.id = userId := by
  cases hlatest : latest RawUser.id userId users with
  | none =>
    have hnot := latest_eq_none_iff.mp hlatest
    simpa [Peer.listedUser, hlatest] using hnot
  | some user =>
    have hmem := mem_of_latest hlatest
    refine iff_of_true ?_ ⟨user, hmem, key_of_latest hlatest⟩
    simp [Peer.listedUser, hlatest, Option.filter, hempty user hmem]

/-- A peer that is listed is so among more users. -/
theorem listed_of_subset {users' : List RawUser} {peer : Peer} (hsubset : users ⊆ users')
    (hempty : ∀ user ∈ users', user.isEmpty = false) (h : peer.listed users chats ≠ none) :
    peer.listed users' chats ≠ none := by
  cases peer with
  | chat _ | channel _ => exact h
  | user userId =>
    have hlisted : ∀ users, (Peer.user userId).listed users chats ≠ none ↔
        (Peer.user userId).listedUser users ≠ none := by
      intro users
      simp [Peer.listed, Peer.listedChat, Peer.kind]
    rw [hlisted, listedUser_ne_none fun user huser => hempty user (hsubset huser)] at h
    rw [hlisted, listedUser_ne_none hempty]
    obtain ⟨user, huser, hid⟩ := h
    exact ⟨user, hsubset huser, hid⟩

/-- The users after a page: those before it, and nothing empty. -/
theorem knownAfter_spec (hnone : NoneEmpty getUsers server) (page : List Listing)
    (hempty : ∀ user ∈ users, user.isEmpty = false) :
    users ⊆ knownAfter getUsers page users ∧ ∀ user ∈ knownAfter getUsers page users, user.isEmpty =
      false := by
  induction page generalizing users with
  | nil => exact ⟨List.Subset.refl _, hempty⟩
  | cons l page ih =>
    rcases knownUsers_cases getUsers l.top users with heq | ⟨fromId, peerId, -, -, heq⟩
    · obtain ⟨hsubset, hafter⟩ := ih hempty
      rw [knownAfter, List.foldl_cons, heq]
      exact ⟨hsubset, hafter⟩
    · have hmore : ∀ user ∈ users ++ (getUsers fromId peerId).getD [], user.isEmpty = false := by
        intro user huser
        rcases List.mem_append.mp huser with huser | huser
        · exact hempty user huser
        · cases hget : getUsers fromId peerId with
          | none => rw [hget] at huser; cases huser
          | some more => exact hnone.more fromId peerId more hget user (by simpa [hget] using huser)
      obtain ⟨hsubset, hafter⟩ := ih hmore
      rw [knownAfter, List.foldl_cons, heq]
      exact ⟨List.Subset.trans (List.subset_append_left _ _) hsubset, hafter⟩

/-- **A page that has been read is legible**, where its dialogs are new and nothing is
empty. -/
theorem legible_of_getPage (hnone : NoneEmpty getUsers server) {page : List Listing}
    {seen : List ℕ+}
    (hpage : page ⊆ server.listings) (hnew : (rawIds page).Nodup)
    (hseen : ∀ id ∈ rawIds page, id ∉ seen) {r : List Dialog × Messages × List ℕ+}
    (h : getPage getUsers (server.answerWith page) seen = .ok r) :
    Legible getUsers server page := by
  rw [getPage_answerWith] at h
  obtain ⟨messages, hmessages, h⟩ := Except.bind_eq_ok.mp h
  obtain ⟨dialogs, hdialogs, -⟩ := Except.bind_eq_ok.mp h
  have hknown := (parseMessages_spec hmessages).1
  obtain ⟨hsubset, hempty⟩ := knownAfter_spec hnone page (hnone.users page)
  rw [hknown] at hdialogs
  refine ⟨parseMessages_isOk_iff.mp ⟨messages, hmessages⟩, ?_⟩
  exact own_of_parseDialogs
    (fun l hl => listed_of_subset hsubset hempty (server.listed page hpage l hl)) hempty
    (hnone.chats page) hnew hseen hdialogs

/-- **Where the loop has ended, each page from its position on is legible.** -/
theorem legible_of_yieldPages (hnone : NoneEmpty getUsers server)
    (hnodup : (rawIds server.listings).Nodup)
    (hresolve : ∀ l ∈ server.listings, resolvePeer (getPeerId l.peer) = .ok l.peer)
    {fuel q : ℕ} {offset : Offset} {seen : List ℕ+} {out : List Dialog}
    (htotal : server.listings.length ≤ total)
    (hq : q < total) (hat : At server 100 q offset seen)
    (h : yieldPages getUsers resolvePeer (fun offset => server.answer offset 100) total fuel offset
      seen q = some (out, none))
    (k : ℕ) : Legible getUsers server ((server.listings.drop (q + 100 * k)).take 100) := by
  induction fuel generalizing q offset seen out k with
  | zero => cases h
  | succ fuel ih =>
    obtain ⟨page, hpage⟩ : ∃ page, page = (server.listings.drop q).take 100 := ⟨_, rfl⟩
    have hpageLength : page.length = min 100 (server.listings.length - q) := by simp [hpage]
    obtain ⟨hnew, hseen⟩ := hat.new (r := q + 100) (hnodup.sublist ((List.take_sublist _ _).map _))
      (.inl le_rfl)
    rw [← hpage] at hnew hseen
    have hanswer : server.answer offset 100 = server.answerWith page := by
      rw [Server.answer, hat.following, ← hpage]
    have hlegible : Legible getUsers server page := by
      obtain ⟨dialogs, messages, seen', hget, -⟩ := yieldPages_succ h
      have hsubset : page ⊆ server.listings :=
        hpage ▸ List.Subset.trans (List.take_subset _ _) (List.drop_subset _ _)
      exact legible_of_getPage hnone hsubset hnew hseen (hanswer ▸ hget)
    -- past the end there is nothing to read
    have hend : ∀ n, server.listings.length ≤ n →
        Legible getUsers server ((server.listings.drop n).take 100) := by
      intro n hn
      rw [List.drop_eq_nil_of_le hn]
      exact legible_nil getUsers server
    cases k with
    | zero => rwa [Nat.mul_zero, Nat.add_zero, ← hpage]
    | succ k =>
      by_cases hshort : server.listings.length ≤ q + page.length
      · exact hend _ (by omega)
      · have hfull : page.length = 100 := by omega
        obtain ⟨dialogs, messages, seen', hget, hshows, htops, hseen'⟩ :=
          getPage_of_legible hlegible (hpage ▸ marked_take server q 100) hnew hseen
        cases hlast : page.getLast? with
        | none =>
          rw [List.getLast?_eq_none_iff.mp hlast] at hfull
          cases hfull
        | some last =>
          have hmem : last ∈ server.listings := by
            have hlastPage := List.mem_of_getLast? hlast
            rw [hpage] at hlastPage
            exact List.mem_of_mem_drop (List.mem_of_mem_take hlastPage)
          obtain ⟨d, hd, hnext⟩ := nextOffset_of_shows hresolve htops hshows hlast hmem
          have henough : ¬ total ≤ q + page.length := by omega
          have hcount : min total (q + page.length) = q + page.length := by omega
          rw [yieldPages, if_neg hat.date, hanswer, hget] at h
          simp only [hd, hnext, yieldDialogs_eq hq, hshows.length_eq, henough, decide_false,
            hcount] at h
          obtain ⟨⟨rest, raised⟩, hrest, hraised⟩ := Option.map_eq_some_iff.mp h
          obtain rfl : raised = none := congrArg Prod.snd hraised
          have hlegibleNext := ih (by omega) (hat.next hpage hlast hseen' (.inl rfl)) hrest k
          rwa [hfull, show q + 100 + 100 * k = q + 100 * (k + 1) by omega] at hlegibleNext

/-- No more is yielded than was asked for. -/
theorem length_of_yieldPages {server : Offset → Answer} {fuel current : ℕ} {offset : Offset}
    {seen : List ℕ+}
    {out : List Dialog} (hcurrent : current < total)
    (h : yieldPages getUsers resolvePeer server total fuel offset seen current = some (out, none)) :
    out.length ≤ total - current := by
  induction fuel generalizing offset seen current out with
  | zero => cases h
  | succ fuel ih =>
    rw [yieldPages] at h
    split at h
    · cases h
    split at h
    · cases h
    · next dialogs messages seen' hget =>
      split at h
      · cases h
        exact Nat.zero_le _
      · split at h
        · cases h
        -- fewer are left than the page has, or the whole page is yielded
        · rw [yieldDialogs_eq hcurrent] at h
          by_cases hle : total ≤ current + dialogs.length
          · simp only [hle, decide_true, Option.some.injEq, Prod.mk.injEq] at h
            rw [← h.1, List.length_take]
            exact Nat.min_le_left _ _
          · simp only [hle, decide_false] at h
            obtain ⟨⟨rest, raised⟩, hrest, h⟩ := Option.map_eq_some_iff.mp h
            cases h
            have hcount : min total (current + dialogs.length) = current +
                dialogs.length := by omega
            -- what is left after the page bounds the pages behind it
            rw [hcount] at hrest
            have hlength := ih (by omega) hrest
            show (dialogs.take (total - current) ++ rest).length ≤ total - current
            rw [List.length_append, List.length_take]
            omega

end Pages

/-! ### Every dialog -/

/-- The dialogs that are asked for. -/
def Server.requested (server : Server) (limit : ℕ) : List Listing :=
  if limit = 0 then server.listings else server.listings.take limit

/-- **Every dialog that is asked for is yielded once, in order, with its top message.** -/
def Complete (getUsers : GetUsers) (resolvePeer : ℤ → Except Exc Peer) (server : Server)
    (limit : ℕ) : Prop :=
  ∃ fuel out, getDialogs getUsers resolvePeer server.answer limit fuel = some (out, none) ∧
    List.Forall₂ Shows out (server.requested limit)

theorem totalOf_pos (limit : ℕ) : 0 < totalOf limit := by
  unfold totalOf
  split <;> omega

theorem totalOf_of_pos {limit : ℕ} (h : 0 < limit) : totalOf limit = limit := if_neg (by omega)

section Complete

variable {getUsers : GetUsers} {resolvePeer : ℤ → Except Exc Peer} {server : Server}

theorem complete_of_clear (hresolve : ∀ l ∈ server.listings, resolvePeer (getPeerId l.peer) =
    .ok l.peer)
    {limit : ℕ} (hclear : Clear getUsers server limit) :
    Complete getUsers resolvePeer server limit := by
  obtain ⟨fuel, out, hout, hshows⟩ :=
    yieldPages_of_legible hclear.rawIds hclear.legible hresolve rfl (totalOf_pos limit)
      (at_zero server _)
  refine ⟨fuel, out, hout, ?_⟩
  have htake : server.requested limit = (server.listings.drop 0).take (totalOf limit - 0) := by
    rw [Server.requested, totalOf]
    split
    · next hzero => exact (List.take_of_length_le (hclear.count hzero)).symm
    · rfl
  rw [htake]
  exact hshows

theorem rawIds_of_shows {out : List Dialog} {page : List Listing}
    (h : List.Forall₂ Shows out page) :
    out.map (fun d => d.raw.peer.rawId) = rawIds page := by
  induction h with
  | nil => rfl
  | cons hd _ ih => rw [List.map_cons, ih, hd.raw, rawIds_cons, Listing.peer]

theorem clear_of_complete (hresolve : ∀ l ∈ server.listings, resolvePeer (getPeerId l.peer) =
    .ok l.peer)
    (hnone : NoneEmpty getUsers server) (h : ∀ limit, Complete getUsers resolvePeer server limit)
    (limit : ℕ) :
    Clear getUsers server limit := by
  -- without a limit all of them are there, so there are not too many, and no number comes twice
  obtain ⟨_, out, hout, hshows⟩ := h 0
  have hcount : server.listings.length ≤ 2 ^ 31 - 1 := by
    have hlength := length_of_yieldPages (totalOf_pos 0) hout
    rwa [hshows.length_eq] at hlength
  have hnodup : (rawIds server.listings).Nodup :=
    rawIds_of_shows hshows ▸ (nodup_of_yieldPages hout).1
  have hnodupTake : ∀ n, (rawIds (server.listings.take n)).Nodup := fun n =>
    hnodup.sublist ((List.take_sublist _ _).map _)
  refine ⟨fun _ => hcount, hnodupTake _, ?_⟩
  rintro page ⟨k, hk, rfl⟩
  by_cases hshort : totalOf limit ≤ 100
  · -- a limit of at most a hundred asks for the page alone
    obtain rfl : k = 0 := by omega
    have hpos := totalOf_pos limit
    obtain ⟨fuel, out, hout, -⟩ := h (totalOf limit)
    have hlimit : min 100 (totalOf (totalOf limit)) =
        totalOf limit := by rw [totalOf_of_pos hpos]; omega
    cases fuel with
    | zero => cases hout
    | succ fuel =>
      obtain ⟨dialogs, messages, seen', hget, -⟩ := yieldPages_succ hout
      obtain ⟨hnew, hseen⟩ := (at_zero server (totalOf limit)).new (hnodupTake _) (.inl le_rfl)
      rw [hlimit] at hget
      rw [Nat.min_eq_right hshort]
      refine legible_of_getPage hnone ?_ hnew hseen (r := (dialogs, messages, seen')) hget
      exact List.Subset.trans (List.take_subset _ _) (List.drop_subset _ _)
  · -- and the number of the dialogs asks for all pages of a hundred
    obtain ⟨fuel, out, hout, -⟩ := h (max 100 server.listings.length)
    have htotal : totalOf (max 100 server.listings.length) = max 100 server.listings.length :=
      totalOf_of_pos (by omega)
    rw [getDialogs, htotal, show min 100 (max 100 server.listings.length) = 100 by omega] at hout
    have hlegible := legible_of_yieldPages hnone hnodup hresolve (by omega) (by omega)
      (at_zero server 100) hout k
    rw [show min 100 (totalOf limit) = 100 by omega]
    rwa [Nat.zero_add] at hlegible

/-- **Every dialog is yielded where no two dialogs on the pages of a limit share a bare number and
the bare numbers lead to the peers of each page**; and whatever the limit only there, where nothing
empty is listed. -/
theorem yields_dialogs_iff (hresolve : ∀ l ∈ server.listings, resolvePeer (getPeerId l.peer) =
    .ok l.peer) :
    (∀ limit, Clear getUsers server limit → Complete getUsers resolvePeer server limit) ∧
      (NoneEmpty getUsers server → (∀ limit, Complete getUsers resolvePeer server limit) →
        ∀ limit, Clear getUsers server limit) :=
  ⟨fun _ => complete_of_clear hresolve, clear_of_complete hresolve⟩

end Complete

/-! ### A user and a channel -/

/-- The peer of a marked id. -/
def resolveMarked (id : ℤ) : Except Exc Peer :=
  .ok
    (if 0 < id then .user id.toNat.toPNat'
    else if zeroChannelId < id then .chat (-id).toNat.toPNat'
    else .channel (zeroChannelId - id).toNat.toPNat')

def listing (peer : Peer) (id : ℤ) : Listing where
  dialog := { peer }
  id := id
  date := 1700000000
  date_ne := by decide
  top := .message id 1700000000 none peer
  top_eq := .inl rfl

local instance neZero_seven : NeZero 7 := ⟨by decide⟩

/-- The user 7 and the channel 7, or another channel. -/
def twoDialogs (channelId : ℕ+) : Server where
  listings := [listing (.user 7) 1, listing (.channel channelId) 2]
  marked := by
    have hne : (7 : ℤ) ≠ -1000000000000 - channelId := by have := channelId.pos; omega
    simpa [listing, Listing.peer, getPeerId, zeroChannelId] using hne
  users := fun _ => [namedUser 7]
  chats := fun _ => [namedChannel channelId]
  listed := by
    intro page hpage l hl
    rcases List.mem_pair.mp (hpage hl) with rfl | rfl
    · exact Option.some_ne_none _
    · simp [Peer.listed, Peer.listedUser, Peer.listedChat, listing, Listing.peer, Peer.kind,
        Peer.rawId, latest, under,
        RawChat.kind, RawChat.id, RawChat.isEmpty, namedChannel]
  elsewhere := fun _ => []

theorem yields_dialogs_iff_two :
    (∀ limit, Clear namedUsers (twoDialogs 9) limit →
      Complete namedUsers resolveMarked (twoDialogs 9) limit) ∧
      (NoneEmpty namedUsers (twoDialogs 9) →
        (∀ limit, Complete namedUsers resolveMarked (twoDialogs 9) limit) →
        ∀ limit, Clear namedUsers (twoDialogs 9) limit) :=
  yields_dialogs_iff (by decide)

/-- The channel is taken for the user that has been seen. -/
theorem not_complete_of_sharedNumber :
    (∃ out, getDialogs namedUsers resolveMarked (twoDialogs 7).answer 0 2 = some (out, none) ∧
        out.map (fun d => d.raw.peer) = [.user 7]) ∧
      ¬ Complete namedUsers resolveMarked (twoDialogs 7) 0 := by
  refine ⟨⟨_, rfl, rfl⟩, ?_⟩
  rintro ⟨_, out, hout, hshows⟩
  have hnodup := rawIds_of_shows hshows ▸ (nodup_of_yieldPages hout).1
  exact absurd hnodup (by decide)

end Pyrogram.Types.Dialogs
