import Pyrogram.ByKey
import Pyrogram.Errors
import Mathlib.Data.PNat.Basic

/-!
# Peers, users and chats

What the server lists beside its answers, and the `User` and the `Chat` that are parsed
from an entry.  Ids are positive, and count for themselves in each of the three kinds; the
marked id tells the kinds apart.

A dict that is filled from a list is that list: under a key it keeps the last entry.

## Main definitions

* `Peer`, `getRawPeerId`, `getPeerId` — a peer, its id and its marked id.
* `RawUser`, `RawChat` — the entries.
* `Chat.parseUserChat`, `Chat.parseChatChat`, `Chat.parseChannelChat` — an entry as a chat.
-/

namespace Pyrogram.Types

open ByKey

/-! ### Peers -/

inductive Peer
  | user (userId : ℕ+)
  | chat (chatId : ℕ+)
  | channel (channelId : ℕ+)
  deriving DecidableEq, Repr

def Peer.rawId : Peer → ℕ+
  | user userId => userId
  | chat chatId => chatId
  | channel channelId => channelId

/-- `get_raw_peer_id` -/
def getRawPeerId (peer : Option Peer) : Option ℕ+ := peer.map Peer.rawId

def zeroChannelId : ℤ := -1000000000000

/-- `get_peer_id` -/
def getPeerId : Peer → ℤ
  | .user userId => userId
  | .chat chatId => -chatId
  | .channel channelId => zeroChannelId - channelId

/-! ### The entries -/

/-- `raw.base.User` -/
inductive RawUser
  | empty (id : ℕ+)
  | user (id : ℕ+) (bot : Bool) (firstName lastName username : Option String)
      (usernames : List String)
  deriving DecidableEq, Repr

namespace RawUser

def id : RawUser → ℕ+
  | empty id => id
  | user id .. => id

def isEmpty : RawUser → Bool
  | empty _ => true
  | user .. => false

end RawUser

/-- `raw.base.Chat` -/
inductive RawChat
  | empty (id : ℕ+)
  | chat (id : ℕ+) (title : String)
  | chatForbidden (id : ℕ+) (title : String)
  | channel (id : ℕ+) (title : String) (monoforum forum megagroup : Bool) (username : Option String)
    (usernames : List String)
  | channelForbidden (id : ℕ+) (title : String) (monoforum megagroup : Bool)
  | community (id : ℕ+) (title : String)
  | communityForbidden (id : ℕ+) (title : String)
  deriving DecidableEq, Repr

/-- What an entry is of. -/
inductive ChatKind
  | group
  | channel
  | community
  deriving DecidableEq, Repr

namespace RawChat

def id : RawChat → ℕ+
  | empty id | chat id _ | chatForbidden id _ | channel id .. | channelForbidden id
      .. | community id _
  | communityForbidden id _ => id

def kind : RawChat → ChatKind
  | empty _ | chat .. | chatForbidden .. => .group
  | channel .. | channelForbidden .. => .channel
  | community .. | communityForbidden .. => .community

def isEmpty : RawChat → Bool
  | empty _ => true
  | chat .. | chatForbidden .. | channel .. | channelForbidden .. | community
      .. | communityForbidden .. => false

end RawChat

/-! ### `User` -/

/-- `types.User` -/
structure User where
  id : ℕ+
  isBot : Bool
  firstName : Option String
  lastName : Option String
  username : Option String
  raw : RawUser
  deriving DecidableEq, Repr

/-- `username or (usernames[0].username if usernames else None)` -/
def firstUsername (username : Option String) (usernames : List String) : Option String :=
  match username with
  | none => usernames.head?
  | some username => if username = "" then usernames.head? else some username

/-- `User._parse` -/
def User.parse : Option RawUser → Option User
  | none | some (.empty _) => none
  | some raw@(.user id bot firstName lastName username usernames) =>
      some
        { id, isBot := bot, firstName, lastName, username := firstUsername username usernames, raw }

/-! ### `Chat` -/

inductive ChatType
  /-- `PRIVATE` -/
  | privateChat
  | bot
  | group
  | supergroup
  | channel
  | forum
  | direct
  deriving DecidableEq, Repr

/-- `types.Chat` -/
structure Chat where
  id : ℤ
  type : ChatType
  title : Option String := none
  firstName : Option String := none
  lastName : Option String := none
  username : Option String := none
  usernames : List String := []
  isBanned : Bool := false
  raw : RawUser ⊕ RawChat
  deriving DecidableEq, Repr

/-- The attribute that an entry of another class does not have. -/
def attributeError : Exc := .other "AttributeError"

namespace Chat

/-- `Chat._parse_user_chat` -/
def parseUserChat : Option RawUser → Option Chat
  | none | some (.empty _) => none
  | some raw@(.user id bot firstName lastName username usernames) =>
      some
        { id := id
          type := if bot then .bot else .privateChat
          firstName
          lastName
          username := firstUsername username usernames
          usernames
          raw := .inl raw }

/-- `Chat._parse_chat_chat`: `creator` and `deactivated` are attributes of a `Chat`. -/
def parseChatChat : Option RawChat → Except Exc (Option Chat)
  | none | some (.empty _) => .ok none
  | some raw@(.chatForbidden id title) =>
      .ok
        (some { id := -id, type := .group, title := some title, isBanned := true, raw := .inr raw })
  | some raw@(.chat id title) =>
      .ok (some { id := -id, type := .group, title := some title, raw := .inr raw })
  | some _ => .error attributeError

/-- `Chat._parse_channel_chat`: `monoforum` is an attribute of a `Channel`. -/
def parseChannelChat : Option RawChat → Except Exc (Option Chat)
  | none => .ok none
  | some raw@(.channelForbidden id title monoforum megagroup) =>
      .ok (some
        { id := zeroChannelId - id
          type := if monoforum then .direct else if megagroup then .supergroup else .channel
          title := some title
          isBanned := true
          raw := .inr raw })
  | some raw@(.channel id title monoforum forum megagroup username usernames) =>
      .ok (some
        { id := zeroChannelId - id
          type := if monoforum then .direct else if forum then .forum
            else if megagroup then .supergroup else .channel
          title := some title
          username := firstUsername username usernames
          usernames
          raw := .inr raw })
  | some _ => .error attributeError

/-- `Chat._parse` -/
def parse (fromId peerId : Option Peer) (users : List RawUser) (chats : List RawChat)
    (isChat : Bool) :
    Except Exc (Option Chat) :=
  let fromRaw := getRawPeerId fromId
  let peerRaw := getRawPeerId peerId
  let chatId := if isChat then peerRaw <|> fromRaw else fromRaw <|> peerRaw
  match peerId with
  | some (.user _) => .ok (parseUserChat (chatId.bind (latest RawUser.id · users)))
  | some (.chat _) => parseChatChat (chatId.bind (latest RawChat.id · chats))
  | some (.channel _) | none => parseChannelChat (chatId.bind (latest RawChat.id · chats))

/-- `Chat._parse_dialog` -/
def parseDialog (peer : Peer) (users : List RawUser) (chats : List RawChat) :
    Except Exc (Option Chat) :=
  match peer with
  | .user userId => .ok (parseUserChat (latest RawUser.id userId users))
  | .chat chatId => parseChatChat (latest RawChat.id chatId chats)
  | .channel channelId => parseChannelChat (latest RawChat.id channelId chats)

/-- `Chat._parse_chat`, of an entry of either list; `monoforum` is no attribute of a `UserEmpty`. -/
def parseChat : Option (RawUser ⊕ RawChat) → Except Exc (Option Chat)
  | some (.inl (.empty _)) => .error attributeError
  | some (.inl user@(.user ..)) => .ok (parseUserChat (some user))
  | some (.inr chat@(.chat ..)) | some (.inr chat@(.chatForbidden ..)) => parseChatChat (some chat)
  | some (.inr chat) => parseChannelChat (some chat)
  | none => .ok none

end Chat

end Pyrogram.Types
