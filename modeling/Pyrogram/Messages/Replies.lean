import Pyrogram.Dict
import Pyrogram.Types.Chat

/-!
# The messages that are replied to

`parse_messages` fetches the messages that those of a response reply to, all into one list, and
finds them there by their ids alone; ids are those of a channel, or of the mailbox that holds all
other chats.  The chat of a parsed message is taken to be its own.

## Main definitions

* `Server` — what is stored, and what `get_messages` is answered.
* `parseMessages` — the messages of a response, with what they reply to.
* `target` — the message that a header names.
* `Attached` — each message has the message that its header names.
* `Led` — the headers of a response lead to these, by what is stored and asked for.

## Main results

* `attached_iff` — **when the right messages are attached.**
* `led_of_oneChat` — as in the messages of one chat that reply to each other there.
-/

namespace Pyrogram.Types.Replies

open ByKey

/-! ### Messages and the server -/

/-- `raw.types.MessageReplyHeader` -/
structure Header where
  replyToMsgId : Option ℤ
  replyToPeerId : Option Peer := none
  deriving DecidableEq, Repr

/-- `reply_to` -/
inductive ReplyTo
  | header (header : Header)
  | story
  deriving DecidableEq, Repr

inductive RawMessage
  | empty (id : ℤ)
  | message (id : ℤ) (peerId : Peer) (replyTo : Option ReplyTo)
  deriving DecidableEq, Repr

namespace RawMessage

def id : RawMessage → ℤ
  | empty id | message id .. => id

def peerId : RawMessage → Option Peer
  | empty _ => none
  | message _ peerId _ => some peerId

/-- The header, where it is one of a message. -/
def header : RawMessage → Option Header
  | message _ _ (some (.header header)) => some header
  | _ => none

def isEmpty : RawMessage → Bool
  | empty _ => true
  | message .. => false

end RawMessage

/-- `types.Message` -/
inductive Message
  | mk (raw : RawMessage) (replyToMessage : Option Message)

namespace Message

def raw : Message → RawMessage
  | mk raw _ => raw

def replyToMessage : Message → Option Message
  | mk _ replyToMessage => replyToMessage

def id (m : Message) : ℤ := m.raw.id

end Message

/-- Where ids count: in a channel, or in the mailbox. -/
def box : Peer → Option ℕ+
  | .channel channelId => some channelId
  | .user _ | .chat _ => none

/-- The message that a header names: its chat is the one of the message, where it names none. -/
def targetIn (stored : Option ℕ+ → ℤ → Option RawMessage) : RawMessage → Option RawMessage
  | .message _ peerId (some (.header ⟨some id, replyToPeerId⟩)) =>
      (stored (box (replyToPeerId.getD peerId)) id).filter fun m =>
        m.peerId = some (replyToPeerId.getD peerId)
  | _ => none

/-- What the server stores, and what it answers to an `InputMessageReplyTo`. -/
structure Server where
  stored : Option ℕ+ → ℤ → Option RawMessage
  replied : Option ℕ+ → ℤ → RawMessage
  stored_spec : ∀ b id m, stored b id = some m → m.id = id ∧ m.peerId.map box = some b
  /-- The message that is replied to, or an empty one. -/
  replied_spec : ∀ b id, ((stored b id).bind (targetIn stored)).elim ((replied b id).isEmpty = true)
    (replied b id = ·)

namespace Server

variable (server : Server)

/-- What the server answers to an `InputMessageID`. -/
def message (b : Option ℕ+) (id : ℤ) : RawMessage := (server.stored b id).getD (.empty id)

/-- The message that the header of a message names. -/
def target (m : RawMessage) : Option RawMessage := targetIn server.stored m

end Server

/-! ### The parser -/

/-- `messages_with_replies` -/
def messagesWithReplies (messages : List RawMessage) : List (ℤ × Header) :=
  Dict.ofList (messages.filterMap fun m => m.header.map (m.id, ·))

/-- The chat of the first message that has one. -/
def firstChat (messages : List RawMessage) : Option Peer := messages.findSome? RawMessage.peerId

/-- `is_all_replies_in_same_chat` -/
def isAllRepliesInSameChat (withReplies : List (ℤ × Header)) : Bool :=
  withReplies.all fun e => e.2.replyToPeerId.isNone

section Fetch

variable (server : Server) (parse : List RawMessage → Except Exc (List Message))

/-- `get_messages(chat_id, message_ids, reply=True)` -/
def getReplied (chatId : Option Peer) (messageIds : List ℤ) : Except Exc (List Message) :=
  match chatId with
  | none => .error (.valueError "Invalid chat_id.")
  | some chat => parse (messageIds.map (server.replied (box chat)))

/-- `get_messages(chat_id, message_id)` -/
def getMessage (chatId : Option Peer) (messageId : Option ℤ) : Except Exc Message :=
  match chatId, messageId with
  | none, _ => .error (.valueError "Invalid chat_id.")
  | some _, none => .error (.valueError "Invalid message ids.")
  | some chat, some id =>
      match parse [server.message (box chat) id] with
      | .error e => .error e
      | .ok (message :: _) => .ok message
      -- `reply.id` of `None`
      | .ok [] => .error attributeError

/-- `reply_messages` -/
def replyMessages (chatId : Option Peer) (withReplies : List (ℤ × Header)) :
    Except Exc (List Message) :=
  if isAllRepliesInSameChat withReplies then getReplied server parse chatId
    (withReplies.map Prod.fst)
  else withReplies.mapM fun e => getMessage server parse (e.2.replyToPeerId <|> chatId)
    e.2.replyToMsgId

end Fetch

/-- The loop over the replies, for one message. -/
def attach (withReplies : List (ℤ × Header)) (replies : List Message) (message : Message) :
    Message :=
  match Dict.get message.id withReplies with
  | none => message
  | some replyTo => replies.foldl
      (fun message reply => if some reply.id = replyTo.replyToMsgId then .mk message.raw
        (some reply) else message) message

/-- `parse_messages` -/
def parseMessages (server : Server) : ℕ → List RawMessage → Except Exc (List Message)
  | 0, messages => .ok (messages.map (.mk · none))
  | replies + 1, messages =>
      let withReplies := messagesWithReplies messages
      if withReplies.isEmpty then .ok (messages.map (.mk · none))
      else do
        let fetched ← replyMessages server (parseMessages server replies) (firstChat messages)
          withReplies
        return messages.map fun m => attach withReplies fetched (.mk m none)

/-! ### What the headers lead to -/

/-- The last entry of a kind. -/
def last {α : Type} (P : α → Bool) (l : List α) : Option α := (l.filter P).getLast?

/-- The id that a message's reply is looked for by: the one that the header kept under the message's
id names. -/
def sought (messages : List RawMessage) (m : RawMessage) : Option ℤ :=
  (Dict.get m.id (messagesWithReplies messages)).bind Header.replyToMsgId

/-- **The headers lead to what they name.** -/
structure Led (server : Server) (messages : List RawMessage) : Prop where
  /-- Where no id is looked for, the message names nothing that is stored. -/
  unsought : ∀ m ∈ messages, sought messages m = none → server.target m = none
  /-- Where no header names a chat, the messages of the response are asked for once more, by their
  ids and in the chat of the first; the last one whose answer bears the id that is looked for
  replies to what the message names. -/
  here : ∀ chat, firstChat messages = some chat →
    isAllRepliesInSameChat (messagesWithReplies messages) = true →
    ∀ m ∈ messages, ∀ id, sought messages m = some id →
      (last (fun e => (server.replied (box chat) e.1).id = id) (messagesWithReplies messages)).bind
        (fun e => (server.stored (box chat) e.1).bind server.target) = server.target m
  /-- Where one names a chat, the last header that names the id that is looked for has it, in the
  chat that it names, for what the message names. -/
  there : ∀ chat, firstChat messages = some chat →
    isAllRepliesInSameChat (messagesWithReplies messages) = false →
    ∀ m ∈ messages, ∀ id, sought messages m = some id →
      (last (fun e => e.2.replyToMsgId = some id) (messagesWithReplies messages)).bind
        (fun e => server.stored (box (e.2.replyToPeerId.getD chat)) id) = server.target m

/-- Where a header names another chat, all of the response name a message; and so it is with the
messages that are fetched. -/
def Fetchable (server : Server) : ℕ → List RawMessage → Prop
  | 0, _ => True
  | replies + 1, messages =>
      let withReplies := messagesWithReplies messages
      ∀ chat, firstChat messages = some chat → withReplies ≠ [] →
        if isAllRepliesInSameChat withReplies then
          Fetchable server replies (withReplies.map fun e => server.replied (box chat) e.1)
        else ∀ e ∈ withReplies, ∃ id, e.2.replyToMsgId = some id ∧
          Fetchable server replies [server.message (box (e.2.replyToPeerId.getD chat)) id]

/-- **Each message has the message that its header names**; an empty one stands for none. -/
def Attached (server : Server) (messages : List RawMessage) (parsed : List Message) : Prop :=
  List.Forall₂ (fun m p => p.raw = m ∧ (p.replyToMessage.map Message.raw).filter
    (fun r => !r.isEmpty) = server.target m)
    messages parsed

variable {server : Server} {messages : List RawMessage} {withReplies : List (ℤ × Header)}
    {chat : Peer}

/-! ### The last entry of a kind -/

theorem last_concat {α : Type} (P : α → Bool) (l : List α) (a : α) :
    last P (l ++ [a]) = if P a then some a else last P l := by
  cases h : P a <;> simp [last, h]

theorem last_map {α β : Type} (f : α → β) (P : β → Bool) (l : List α) :
    last P (l.map f) = (last (fun a => P (f a)) l).map f := by
  rw [last, last, List.filter_map, List.getLast?_map]
  rfl

theorem last_eq_some {α : Type} {P : α → Bool} {l : List α} {a : α} (h : last P l = some a) :
    a ∈ l ∧ P a = true :=
  List.mem_filter.mp (List.mem_of_getLast? h)

theorem last_eq_none_iff {α : Type} {P : α → Bool} {l : List α} : last P l = none ↔
    ∀ a ∈ l, P a = false := by
  rw [last, List.getLast?_eq_none_iff, List.filter_eq_nil_iff]
  simp

/-! ### What is fetched -/

/-- The last reply of a kind is attached. -/
theorem foldl_attach (P : Message → Bool) (replies : List Message) (raw : RawMessage)
    (before : Option Message) :
    replies.foldl (fun message reply => if P reply then Message.mk message.raw (some reply)
      else message) (.mk raw before) =
      .mk raw ((last P replies).or before) := by
  induction replies using List.reverseRecOn with
  | nil => rfl
  | append_singleton replies reply ih =>
    rw [List.foldl_concat, ih, last_concat]
    cases P reply <;> rfl

theorem attach_eq (withReplies : List (ℤ × Header)) (replies : List Message) (m : RawMessage) :
    attach withReplies replies (.mk m none) = .mk m ((Dict.get m.id withReplies).bind fun replyTo =>
      last (fun reply => some reply.id = replyTo.replyToMsgId) replies) := by
  have hid : (Message.mk m none).id = m.id := rfl
  rw [attach, hid]
  cases Dict.get m.id withReplies with
  | none => rfl
  | some replyTo =>
    have hfold := foldl_attach (fun reply => decide (some reply.id = replyTo.replyToMsgId))
      replies m none
    simp only [decide_eq_true_eq, Option.or_none] at hfold
    exact hfold

theorem replyToMessage_attach (replies : List Message) (m : RawMessage) :
    (attach withReplies replies (.mk m none)).replyToMessage.map Message.raw =
      (Dict.get m.id withReplies).bind fun replyTo =>
        last (fun r => some r.id = replyTo.replyToMsgId) (replies.map Message.raw) := by
  rw [attach_eq]
  cases Dict.get m.id withReplies with
  | none => rfl
  | some replyTo => exact (last_map Message.raw (fun r => decide (some r.id = replyTo.replyToMsgId))
      replies).symm

/-- A response is parsed message by message. -/
theorem map_raw_parseMessages {n : ℕ} {parsed : List Message}
    (h : parseMessages server n messages = .ok parsed) :
    parsed.map Message.raw = messages := by
  have hplain : (messages.map (Message.mk · none)).map Message.raw = messages := by
    rw [List.map_map]
    exact List.map_id messages
  cases n with
  | zero =>
    cases h
    exact hplain
  | succ n =>
    rw [parseMessages] at h
    split at h
    · cases h
      exact hplain
    · obtain ⟨fetched, -, h⟩ := Except.bind_eq_ok.mp h
      cases h
      rw [List.map_map]
      exact (List.map_congr_left fun m _ => congrArg Message.raw (attach_eq _ fetched m)).trans
        (List.map_id messages)

theorem mem_of_messagesWithReplies {e : ℤ × Header} (h : e ∈ messagesWithReplies messages) :
    ∃ m ∈ messages, m.id = e.1 ∧ m.header = some e.2 := by
  obtain ⟨m, hm, he⟩ := List.mem_filterMap.mp (Dict.mem_of_mem_ofList h)
  obtain ⟨header, hheader, heq⟩ := Option.map_eq_some_iff.mp he
  obtain ⟨hid, rfl⟩ := Prod.mk.inj heq
  exact ⟨m, hm, hid, hheader⟩

/-- Where there are headers, there is a chat. -/
theorem exists_firstChat (h : messagesWithReplies messages ≠ []) :
    ∃ chat, firstChat messages = some chat := by
  obtain ⟨e, he⟩ := List.exists_mem_of_ne_nil _ h
  obtain ⟨m, hm, -, hheader⟩ := mem_of_messagesWithReplies he
  refine Option.ne_none_iff_exists'.mp fun hnone => ?_
  have hpeer := List.findSome?_eq_none_iff.mp hnone m hm
  cases m with
  | empty id => cases hheader
  | message id peerId replyTo => cases hpeer

/-- The chat that a header's message is asked for in. -/
theorem or_some_eq (peer : Option Peer) (chat : Peer) :
    (peer <|> some chat) = some (peer.getD chat) := by
  cases peer <;> rfl

theorem getMessage_eq_ok {n : ℕ} {messageId : Option ℤ} {reply : Message}
    (h : getMessage server (parseMessages server n) (some chat) messageId = .ok reply) :
    ∃ id, messageId = some id ∧ reply.raw = server.message (box chat) id := by
  cases messageId with
  | none => cases h
  | some id =>
    rw [getMessage] at h
    split at h
    · cases h
    · next message rest hparse =>
      cases h
      exact ⟨id, rfl, (List.cons.inj (map_raw_parseMessages hparse)).1⟩
    · cases h

theorem exists_getMessage_iff {n : ℕ} {messageId : Option ℤ} :
    (∃ reply, getMessage server (parseMessages server n) (some chat) messageId = .ok reply) ↔
      ∃ id, messageId = some id ∧ ∃ parsed, parseMessages server n [server.message (box chat) id] =
        .ok parsed := by
  cases messageId with
  | none => exact iff_of_false (fun ⟨_, h⟩ => by cases h) fun ⟨_, h, _⟩ => by cases h
  | some id =>
    have hraw (parsed : List Message) (h : parseMessages server n [server.message (box chat) id] =
      .ok parsed) :
        ∃ reply, parsed = [reply] :=
          List.length_eq_one_iff.mp (by simpa using congrArg List.length (map_raw_parseMessages h))
    rw [getMessage]
    constructor
    · rintro ⟨reply, h⟩
      split at h
      · cases h
      · next hparse => exact ⟨id, rfl, _, hparse⟩
      · cases h
    · rintro ⟨_, ⟨⟩, parsed, hparsed⟩
      obtain ⟨reply, rfl⟩ := hraw parsed hparsed
      exact ⟨reply, by rw [hparsed]⟩

/-- **What is fetched**: the answers for the ids of the messages, or for the ids they name. -/
theorem raw_replyMessages {n : ℕ} {fetched : List Message}
    (h : replyMessages server (parseMessages server n) (some chat) withReplies = .ok fetched) :
    if isAllRepliesInSameChat withReplies then
      fetched.map Message.raw = withReplies.map fun e => server.replied (box chat) e.1
    else List.Forall₂ (fun e r => ∃ id, e.2.replyToMsgId = some id ∧
      r = server.message (box (e.2.replyToPeerId.getD chat)) id) withReplies
        (fetched.map Message.raw) := by
  rw [replyMessages] at h
  split at h
  · next hsame =>
    rw [if_pos hsame, map_raw_parseMessages h, List.map_map]
    rfl
  · next hsame =>
    rw [if_neg hsame, List.forall₂_map_right_iff]
    refine (Except.mapM_eq_ok.mp h).imp fun e r he => ?_
    rw [or_some_eq] at he
    exact getMessage_eq_ok he

/-- **Nothing raises** where the messages can be fetched. -/
theorem exists_parseMessages_iff : ∀ {n : ℕ} {messages : List RawMessage},
    (∃ parsed, parseMessages server n messages = .ok parsed) ↔ Fetchable server n messages
  | 0, _ => iff_of_true ⟨_, rfl⟩ trivial
  | n + 1, messages => by
    by_cases hnil : messagesWithReplies messages = []
    · have hempty : (messagesWithReplies messages).isEmpty = true := by rw [hnil]; rfl
      exact iff_of_true ⟨_, if_pos hempty⟩ fun chat _ hne => absurd hnil hne
    · obtain ⟨chat, hchat⟩ := exists_firstChat hnil
      have hempty : ¬ (messagesWithReplies messages).isEmpty = true := by simpa using hnil
      have hparse : (∃ parsed, parseMessages server (n + 1) messages = .ok parsed) ↔
          ∃ fetched, replyMessages server (parseMessages server n) (some chat)
            (messagesWithReplies messages) = .ok fetched := by
        simp only [parseMessages, if_neg hempty, hchat]
        constructor
        · rintro ⟨parsed, h⟩
          obtain ⟨fetched, hfetched, -⟩ := Except.bind_eq_ok.mp h
          exact ⟨fetched, hfetched⟩
        · rintro ⟨fetched, hfetched⟩
          exact ⟨_, Except.bind_eq_ok.mpr ⟨fetched, hfetched, rfl⟩⟩
      rw [hparse, Fetchable, replyMessages]
      simp only [hchat, Option.some.injEq, forall_eq', ne_eq, hnil, not_false_eq_true, forall_const]
      split
      · rw [getReplied, exists_parseMessages_iff, List.map_map]
        rfl
      · rw [Except.exists_mapM_eq_ok]
        refine forall₂_congr fun e _ => ?_
        rw [or_some_eq, exists_getMessage_iff]
        exact exists_congr fun id => and_congr_right fun _ => exists_parseMessages_iff

/-! ### What is found -/

/-- The message that is found last under an id, among those that are fetched. -/
def found (server : Server) (messages : List RawMessage) (id : ℤ) : Option RawMessage :=
  let withReplies := messagesWithReplies messages
  (firstChat messages).bind fun chat =>
    if isAllRepliesInSameChat withReplies then
      ((last (fun e => (server.replied (box chat) e.1).id = id) withReplies).map fun e =>
        server.replied (box chat) e.1).filter fun m => !m.isEmpty
    else
      (last (fun e => e.2.replyToMsgId = some id) withReplies).bind fun e =>
        server.stored (box (e.2.replyToPeerId.getD chat)) id

theorem isEmpty_of_target {m r : RawMessage} (h : server.target m = some r) :
    r.isEmpty = false := by
  rcases m with _ | ⟨_, peerId, _ | ⟨_ | id, replyToPeerId⟩ | _⟩ <;> try cases h
  obtain ⟨hstored, -⟩ := Option.filter_eq_some_iff.mp h
  have hpeer := (server.stored_spec _ _ _ hstored).2
  cases r with
  | empty _ => cases hpeer
  | message _ _ _ => rfl

namespace Server

theorem id_message (server : Server) (b : Option ℕ+) (id : ℤ) : (server.message b id).id = id := by
  rw [Server.message]
  cases h : server.stored b id with
  | none => rfl
  | some m => exact (server.stored_spec b id m h).1

/-- An empty message stands for none. -/
theorem filter_message (server : Server) (b : Option ℕ+) (id : ℤ) :
    (some (server.message b id)).filter (fun m => !m.isEmpty) = server.stored b id := by
  rw [Server.message]
  cases h : server.stored b id with
  | none => rfl
  | some m =>
    have hpeer := (server.stored_spec b id m h).2
    cases m with
    | empty _ => cases hpeer
    | message _ _ _ => rfl

/-- The answer to an `InputMessageReplyTo`, where it is not empty. -/
theorem filter_replied (server : Server) (b : Option ℕ+) (id : ℤ) :
    (some (server.replied b id)).filter (fun m => !m.isEmpty) =
      (server.stored b id).bind server.target := by
  have hspec := server.replied_spec b id
  change ((server.stored b id).bind server.target).elim _ _ at hspec
  cases htarget : (server.stored b id).bind server.target with
  | none =>
    rw [htarget] at hspec
    simpa using hspec
  | some r =>
    rw [htarget] at hspec
    obtain ⟨m, -, hm⟩ := Option.bind_eq_some_iff.mp htarget
    have hr : server.replied b id = r := hspec
    simp [hr, isEmpty_of_target hm]

end Server

theorem last_congr {α : Type} {P Q : α → Bool} {l : List α} (h : ∀ a ∈ l, P a = Q a) :
    last P l = last Q l := by
  rw [last, last, List.filter_congr h]

/-- The id of an answer is the one that is asked for. -/
theorem eq_map_of_forall₂ {raws : List RawMessage}
    (h : List.Forall₂ (fun e r => ∃ id, e.2.replyToMsgId = some id ∧
      r = server.message (box (e.2.replyToPeerId.getD chat)) id) withReplies raws) :
    (raws = withReplies.map fun e => server.message (box (e.2.replyToPeerId.getD chat))
      (e.2.replyToMsgId.getD 0)) ∧
      ∀ e ∈ withReplies, ∃ id, e.2.replyToMsgId = some id := by
  induction h with
  | nil => exact ⟨rfl, fun e he => absurd he List.not_mem_nil⟩
  | cons he _ ih =>
    obtain ⟨id, hid, rfl⟩ := he
    refine ⟨?_, List.forall_mem_cons.mpr ⟨⟨id, hid⟩, ih.2⟩⟩
    rw [List.map_cons, ← ih.1, hid]
    rfl

/-- **The reply that is attached is the message that is found.** -/
theorem found_eq {n : ℕ} {fetched : List Message} (hchat : firstChat messages = some chat)
    (h : replyMessages server (parseMessages server n) (some chat) (messagesWithReplies messages) =
      .ok fetched) (id : ℤ) :
    (last (fun r => some r.id = some id) (fetched.map Message.raw)).filter (fun r => !r.isEmpty) =
      found server messages id := by
  have hraw := raw_replyMessages h
  simp only [Option.some.injEq, found, hchat, Option.bind_some]
  split at hraw
  · next hsame => rw [if_pos hsame, hraw, last_map]
  · next hsame =>
    rw [if_neg hsame]
    obtain ⟨hmap, hsome⟩ := eq_map_of_forall₂ hraw
    have hpick : last
      (fun e => decide
      ((server.message (box (e.2.replyToPeerId.getD chat)) (e.2.replyToMsgId.getD 0)).id = id))
        (messagesWithReplies messages) = last (fun e => decide (e.2.replyToMsgId = some id))
        (messagesWithReplies messages) := by
      refine last_congr fun e he => ?_
      obtain ⟨named, hnamed⟩ := hsome e he
      rw [Server.id_message, hnamed]
      simp
    rw [hmap, last_map, hpick]
    cases hlast : last (fun e => decide (e.2.replyToMsgId = some id))
      (messagesWithReplies messages) with
    | none => rfl
    | some e =>
      have hnamed : e.2.replyToMsgId = some id := by simpa using (last_eq_some hlast).2
      rw [Option.map_some, Option.bind_some, hnamed]
      exact Server.filter_message server _ id

theorem sought_eq_none (h : messagesWithReplies messages = []) (m : RawMessage) :
    sought messages m = none := by
  rw [sought, h]
  rfl

/-- What is found, where no header names a chat. -/
theorem found_here (hchat : firstChat messages = some chat)
    (hsame : isAllRepliesInSameChat (messagesWithReplies messages) = true)
    (id : ℤ) : found server messages id =
      (last (fun e => (server.replied (box chat) e.1).id = id) (messagesWithReplies messages)).bind
        fun e => (server.stored (box chat) e.1).bind server.target := by
  simp only [found, hchat, Option.bind_some, if_pos hsame]
  cases last (fun e => decide ((server.replied (box chat) e.1).id = id))
    (messagesWithReplies messages) with
  | none => rfl
  | some e => exact Server.filter_replied server _ e.1

/-- What is found, where one names a chat. -/
theorem found_there (hchat : firstChat messages = some chat)
    (hsame : isAllRepliesInSameChat (messagesWithReplies messages) = false) (id : ℤ) :
    found server messages id =
      (last (fun e => e.2.replyToMsgId = some id) (messagesWithReplies messages)).bind
        fun e => server.stored (box (e.2.replyToPeerId.getD chat)) id := by
  have hother : ¬ isAllRepliesInSameChat (messagesWithReplies messages) =
      true := by rw [hsame]; exact Bool.false_ne_true
  simp only [found, hchat, Option.bind_some, if_neg hother]

/-- **The headers lead to what is found** for each message. -/
theorem led_iff : Led server messages ↔
    ∀ m ∈ messages, (sought messages m).bind (found server messages) = server.target m := by
  constructor
  · intro hled m hm
    cases hsought : sought messages m with
    | none => exact (hled.unsought m hm hsought).symm
    | some id =>
      have hne : messagesWithReplies messages ≠ [] := fun hnil => by
        cases (sought_eq_none hnil m).symm.trans hsought
      obtain ⟨chat, hchat⟩ := exists_firstChat hne
      cases hsame : isAllRepliesInSameChat (messagesWithReplies messages) with
      | true => exact (found_here hchat hsame id).trans (hled.here chat hchat hsame m hm id hsought)
      | false => exact (found_there hchat hsame id).trans (hled.there chat hchat hsame m hm id
          hsought)
  · intro h
    have hfound : ∀ m ∈ messages, ∀ id, sought messages m = some id →
        found server messages id = server.target m :=
      fun m hm id hsought => by rw [← h m hm, hsought, Option.bind_some]
    exact
      { unsought := fun m hm hsought => by rw [← h m hm, hsought, Option.bind_none]
        here := fun chat hchat hsame m hm id hsought => (found_here hchat hsame id).symm.trans
          (hfound m hm id hsought)
        there := fun chat hchat hsame m hm id hsought => (found_there hchat hsame id).symm.trans
          (hfound m hm id hsought) }

/-- **When the right messages are attached**: they can be fetched, and the headers lead to them. -/
theorem attached_iff (server : Server) (replies : ℕ) (messages : List RawMessage) :
    (∃ parsed, parseMessages server (replies + 1) messages = .ok parsed ∧
      Attached server messages parsed) ↔
      Fetchable server (replies + 1) messages ∧ Led server messages := by
  rw [← exists_parseMessages_iff, ← exists_and_right]
  refine exists_congr fun parsed => and_congr_right fun h => ?_
  -- without replies nothing is fetched and nothing is attached
  by_cases hnil : messagesWithReplies messages = []
  · have hempty : (messagesWithReplies messages).isEmpty = true := by rw [hnil]; rfl
    rw [parseMessages, if_pos hempty] at h
    cases h
    simp [Attached, led_iff, sought_eq_none hnil, List.forall₂_map_right_iff, List.forall₂_same,
      Message.replyToMessage, Message.raw]
  · obtain ⟨chat, hchat⟩ := exists_firstChat hnil
    have hempty : ¬ (messagesWithReplies messages).isEmpty = true := by simpa using hnil
    rw [parseMessages, if_neg hempty, hchat] at h
    obtain ⟨fetched, hfetched, h⟩ := Except.bind_eq_ok.mp h
    cases h
    rw [Attached, List.forall₂_map_right_iff, List.forall₂_same, led_iff]
    refine forall₂_congr fun m _ => ?_
    have hraw : (attach (messagesWithReplies messages) fetched (.mk m none)).raw = m :=
      congrArg Message.raw (attach_eq _ fetched m)
    rw [and_iff_right hraw, replyToMessage_attach]
    refine Eq.congr_left ?_
    -- message by message: the one attached is the one found under the id
    rw [sought]
    cases Dict.get m.id (messagesWithReplies messages) with
    | none => rfl
    | some header =>
      rw [Option.bind_some, Option.bind_some]
      cases hid : header.replyToMsgId with
      | none => simp [last]
      | some id => exact found_eq hchat hfetched id

/-! ### One chat, and two -/

/-- A server that stores messages, and answers to an `InputMessageReplyTo` of another with an empty
one of its id. -/
def Server.ofStored (stored : Option ℕ+ → ℤ → Option RawMessage)
    (h : ∀ b id m, stored b id = some m → m.id = id ∧ m.peerId.map box = some b) : Server where
  stored
  replied b id := ((stored b id).bind (targetIn stored)).getD (.empty id)
  stored_spec := h
  replied_spec b id := by
    cases (stored b id).bind (targetIn stored) <;> rfl

/-- Where ids are not repeated, the header that is kept under an id is that of its message. -/
theorem get_messagesWithReplies (hids : (messages.map RawMessage.id).Nodup) {m : RawMessage}
    (hm : m ∈ messages) :
    Dict.get m.id (messagesWithReplies messages) = m.header := by
  have hown : ∀ header, Dict.get m.id (messagesWithReplies messages) = some header →
      m.header = some header := by
    intro header h
    obtain ⟨m', hm', hid, hheader⟩ :=
      mem_of_messagesWithReplies ((Dict.mem_iff_get (Dict.nodup_ofList _)).mpr h)
    rwa [List.inj_on_of_nodup_map hids hm' hm hid] at hheader
  cases hheader : m.header with
  | none =>
    refine Option.eq_none_iff_forall_ne_some.mpr fun header h => ?_
    cases hheader.symm.trans (hown header h)
  | some header =>
    cases hget : Dict.get m.id (messagesWithReplies messages) with
    | some other => exact (hown other hget).symm.trans hheader
    | none =>
      rw [messagesWithReplies, Dict.get_ofList, Option.map_eq_none_iff, latest_eq_none_iff] at hget
      exact absurd rfl (hget (m.id, header) (List.mem_filterMap.mpr ⟨m, hm, by rw [hheader]; rfl⟩))

theorem isEmpty_of_header {m : RawMessage} {header : Header} (h : m.header = some header) :
    m.isEmpty = false := by
  cases m with
  | empty _ => cases h
  | message _ _ _ => rfl

theorem target_of_header_none {m : RawMessage} (h : m.header = none) : server.target m = none := by
  rcases m with _ | ⟨_, _, _ | _ | _⟩
  · rfl
  · rfl
  · cases h
  · rfl

theorem target_of_id_none {m : RawMessage} {header : Header} (h : m.header = some header)
    (hid : header.replyToMsgId = none) :
    server.target m = none := by
  rcases m with _ | ⟨_, _, _ | ⟨_ | _, _⟩ | _⟩ <;> cases h
  · rfl
  · cases hid

variable (server) in
/-- The message that is named in the chat of the message. -/
theorem target_of_header {m : RawMessage} {header : Header} {id : ℤ} (hpeer : m.peerId = some chat)
    (h : m.header = some header)
    (hnone : header.replyToPeerId = none) (hid : header.replyToMsgId = some id) :
    server.target m = (server.stored (box chat) id).filter fun m => m.peerId = some chat := by
  rcases m with _ | ⟨_, _, _ | ⟨_, _⟩ | _⟩ <;> cases h
  cases hpeer
  cases hnone
  cases hid
  rfl

theorem id_of_target {m r : RawMessage} {id : ℤ}
    (htarget : server.target m = (server.stored (box chat) id).filter fun m => m.peerId = some chat)
    (h : server.target m = some r) : r.id = id := by
  obtain ⟨hstored, -⟩ := Option.filter_eq_some_iff.mp (htarget.symm.trans h)
  exact (server.stored_spec _ _ _ hstored).1

theorem exists_id_of_target {m r : RawMessage} {header : Header} (h : server.target m = some r)
    (hheader : m.header = some header) :
    ∃ id, header.replyToMsgId = some id := by
  refine Option.ne_none_iff_exists'.mp fun hnone => ?_
  cases (target_of_id_none hheader hnone).symm.trans h

theorem replied_of_target {b : Option ℕ+} {m r : RawMessage}
    (hstored : server.stored b m.id = some m)
    (h : server.target m = some r) : server.replied b m.id = r := by
  have hspec := server.replied_spec b m.id
  rwa [hstored, Option.bind_some, ← Server.target, h] at hspec

theorem replied_of_target_none {b : Option ℕ+} {m : RawMessage}
    (hstored : server.stored b m.id = some m)
    (h : server.target m = none) : (server.replied b m.id).isEmpty = true := by
  have hspec := server.replied_spec b m.id
  rwa [hstored, Option.bind_some, ← Server.target, h] at hspec

theorem firstChat_eq (hchat : ∀ m ∈ messages, m.isEmpty = false → m.peerId = some chat)
    {m : RawMessage} (hm : m ∈ messages)
    (hne : m.isEmpty = false) : firstChat messages = some chat := by
  have hsome : firstChat messages ≠ none := fun hnone => by
    cases (List.findSome?_eq_none_iff.mp hnone m hm).symm.trans (hchat m hm hne)
  obtain ⟨other, hother⟩ := Option.ne_none_iff_exists'.mp hsome
  obtain ⟨m', hm', hpeer⟩ := List.exists_of_findSome?_eq_some hother
  have hne' : m'.isEmpty = false := by
    cases m' with
    | empty _ => cases hpeer
    | message _ _ _ => rfl
  exact hother.trans (hpeer.symm.trans (hchat m' hm' hne'))

/-- **In one chat** the headers lead to what they name: ids are not repeated, no header names
another chat, the messages are stored, and the empty answers bear none of the ids that are named. -/
theorem led_of_oneChat (hchat : ∀ m ∈ messages, m.isEmpty = false → m.peerId = some chat ∧
    server.stored (box chat) m.id = some m)
    (hids : (messages.map RawMessage.id).Nodup)
    (hheaders : ∀ m ∈ messages, ∀ header, m.header = some header → header.replyToPeerId = none)
    (hempty : ∀ m ∈ messages, (server.replied (box chat) m.id).isEmpty = true →
      ∀ m' ∈ messages, ∀ header,
      m'.header = some header → header.replyToMsgId ≠ some (server.replied (box chat) m.id).id) :
    Led server messages := by
  have hpeer : ∀ m ∈ messages, ∀ header, m.header = some header → m.peerId = some chat ∧
      server.stored (box chat) m.id = some m :=
        fun m hm header h => hchat m hm (isEmpty_of_header h)
  have hsame : isAllRepliesInSameChat (messagesWithReplies messages) = true := by
    refine List.all_eq_true.mpr fun e he => ?_
    obtain ⟨m, hm, -, hheader⟩ := mem_of_messagesWithReplies he
    rw [hheaders m hm e.2 hheader]
    rfl
  refine led_iff.mpr fun m hm => ?_
  rw [sought, get_messagesWithReplies hids hm]
  cases hheader : m.header with
  | none => exact (target_of_header_none hheader).symm
  | some header =>
    cases hid : header.replyToMsgId with
    | none =>
      rw [Option.bind_some, hid]
      exact (target_of_id_none hheader hid).symm
    | some id =>
      have htarget := target_of_header server (hpeer m hm header hheader).1 hheader
        (hheaders m hm header hheader) hid
      have hfirst : firstChat messages = some chat :=
        firstChat_eq (fun m hm hne => (hchat m hm hne).1) hm (isEmpty_of_header hheader)
      rw [Option.bind_some, hid, Option.bind_some, found, hfirst]
      simp only [Option.bind_some, hsame, if_true]
      have hkept : (m.id, header) ∈ messagesWithReplies messages := by
        rw [messagesWithReplies, Dict.mem_iff_get (Dict.nodup_ofList _), ← messagesWithReplies,
          get_messagesWithReplies hids hm, hheader]
      cases hlast : last (fun e => decide ((server.replied (box chat) e.1).id = id))
        (messagesWithReplies messages) with
      | none =>
        -- the message itself would be found
        cases hnamed : server.target m with
        | none => rfl
        | some r =>
          have hreplied := replied_of_target (hpeer m hm header hheader).2 hnamed
          have hr : r.id = id := id_of_target htarget hnamed
          have := last_eq_none_iff.mp hlast _ hkept
          simp [hreplied, hr] at this
      | some e =>
        obtain ⟨key, other⟩ := e
        obtain ⟨he, hfound⟩ := last_eq_some hlast
        rw [decide_eq_true_eq] at hfound
        rw [Option.map_some]
        obtain ⟨m', hm', rfl, hheader'⟩ : ∃ m' ∈ messages, m'.id = key ∧ m'.header = some other :=
          mem_of_messagesWithReplies he
        have hstored := (hpeer m' hm' other hheader').2
        cases hnamed : server.target m' with
        | none =>
          have hisEmpty := replied_of_target_none hstored hnamed
          exact absurd (hid.trans (congrArg some hfound.symm))
            (hempty m' hm' hisEmpty m hm header hheader)
        | some r =>
          -- the messages that reply to one id in one chat reply to the same message
          have hreplied := replied_of_target hstored hnamed
          rw [hreplied] at hfound ⊢
          obtain ⟨id', hid'⟩ := exists_id_of_target hnamed hheader'
          have htarget' := target_of_header server (hpeer m' hm' other hheader').1 hheader'
            (hheaders m' hm' other hheader') hid'
          obtain rfl : id' = id := (id_of_target htarget' hnamed).symm.trans hfound
          rw [htarget, ← htarget', hnamed]
          exact Option.filter_eq_some_iff.mpr ⟨rfl, by simp [isEmpty_of_target hnamed]⟩

/-- Two channels, in each of which a message bears the id 5. -/
def twoChannels : Server :=
  Server.ofStored (fun b id => if id = 5 then b.map fun channelId =>
    .message 5 (.channel channelId) none else none)
    (by
      intro b id m h
      split at h
      · next hid =>
        obtain ⟨channelId, rfl, rfl⟩ := Option.map_eq_some_iff.mp h
        exact ⟨hid.symm, rfl⟩
      · cases h)

/-- **A reply to the same id in another chat** takes the place of the message that is named. -/
theorem not_attached_of_twoChannels : ¬ ∀ (server : Server) (replies : ℕ)
    (messages : List RawMessage),
    ∃ parsed, parseMessages server (replies + 1) messages = .ok parsed ∧
      Attached server messages parsed := by
  intro h
  obtain ⟨parsed, hparsed, hattached⟩ := h twoChannels 0
    [.message 10 (.channel 1) (some (.header ⟨some 5, none⟩)),
      .message 11 (.channel 1) (some (.header ⟨some 5, some (.channel 2)⟩))]
  cases hparsed
  obtain ⟨⟨-, hfirst⟩, -⟩ := List.forall₂_cons.mp hattached
  exact absurd hfirst (by decide)

end Pyrogram.Types.Replies
