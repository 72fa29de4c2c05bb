import Pyrogram.Errors
import Pyrogram.Types.Chat

/-!
# The admin log

`ChatEvent._parse` tells the kinds of events apart by a long chain of `isinstance` tests.  A branch
sets `action_type` and one of as many local variables as there are kinds, and all the variables
become attributes of the event: `getattr(event, event.action.value)` is how the payload is found
again.

The parsers of what an event holds are taken as they are (`Parsers`), but for that of an invite
link.  A coroutine that is not awaited is a value too.

## Main definitions

* `ChatInviteLink.parse`, `ChatEvent.parse` — the parsers.
* `own` — the payload of an event.
* `Exposes` — the event has that payload, under the name of its action, and no other.

## Main results

* `exposes_of_assign`, `not_exposes_of_name`, `exposes_assign_iff` — what one branch comes to.
* `exposes_iff` — **which events expose their payload**.
-/

namespace Pyrogram.Types

/-! ### The names -/

/-- `enums.ChatEventActionType` -/
inductive ChatEventActionType
  | unsupported
  | messageEdited
  | messageDeleted
  | messagePinned
  | messageUnpinned
  | pollStopped
  | memberJoined
  | memberJoinedByInviteLink
  | memberJoinedByRequest
  | memberInvited
  | memberLeft
  | memberPromoted
  | memberRestricted
  | memberTagChanged
  | memberSubscriptionExtended
  | availableReactionsChanged
  | backgroundChanged
  | descriptionChanged
  | emojiStatusChanged
  | linkedChatChanged
  | locationChanged
  | messageAutoDeleteTimeChanged
  | permissionsChanged
  | photoChanged
  | slowModeDelayChanged
  | stickerSetChanged
  | emojiStickerSetChanged
  | titleChanged
  | usernameChanged
  | activeUsernamesChanged
  | accentColorChanged
  | profileAccentColorChanged
  | hasProtectedContentToggled
  | invitesToggled
  | isAllHistoryAvailableToggled
  | hasAggressiveAntiSpamEnabledToggled
  | signMessagesToggled
  | showMessageSenderToggled
  | automaticTranslationToggled
  | inviteLinkEdited
  | inviteLinkRevoked
  | inviteLinkDeleted
  | videoChatCreated
  | videoChatEnded
  | videoChatMuteNewParticipantsToggled
  | videoChatParticipantIsMutedToggled
  | videoChatParticipantVolumeLevelChanged
  | isForumToggled
  | forumTopicCreated
  | forumTopicEdited
  | forumTopicToggleIsClosed
  | forumTopicToggleIsHidden
  | forumTopicDeleted
  | forumTopicPinned
  deriving DecidableEq, Repr

def ChatEventActionType.value : ChatEventActionType → String
  | .unsupported => "unsupported"
  | .messageEdited => "message_edited"
  | .messageDeleted => "message_deleted"
  | .messagePinned => "message_pinned"
  | .messageUnpinned => "message_unpinned"
  | .pollStopped => "poll_stopped"
  | .memberJoined => "member_joined"
  | .memberJoinedByInviteLink => "member_joined_by_invite_link"
  | .memberJoinedByRequest => "member_joined_by_request"
  | .memberInvited => "member_invited"
  | .memberLeft => "member_left"
  | .memberPromoted => "member_promoted"
  | .memberRestricted => "member_restricted"
  | .memberTagChanged => "member_tag_changed"
  | .memberSubscriptionExtended => "member_subscription_extended"
  | .availableReactionsChanged => "available_reactions_changed"
  | .backgroundChanged => "background_changed"
  | .descriptionChanged => "description_changed"
  | .emojiStatusChanged => "emoji_status_changed"
  | .linkedChatChanged => "linked_chat_changed"
  | .locationChanged => "location_changed"
  | .messageAutoDeleteTimeChanged => "message_auto_delete_time_changed"
  | .permissionsChanged => "permissions_changed"
  | .photoChanged => "photo_changed"
  | .slowModeDelayChanged => "slow_mode_delay_changed"
  | .stickerSetChanged => "sticker_set_changed"
  | .emojiStickerSetChanged => "emoji_sticker_set_changed"
  | .titleChanged => "title_changed"
  | .usernameChanged => "username_changed"
  | .activeUsernamesChanged => "active_usernames_changed"
  | .accentColorChanged => "accent_color_changed"
  | .profileAccentColorChanged => "profile_accent_color_changed"
  | .hasProtectedContentToggled => "has_protected_content_toggled"
  | .invitesToggled => "invites_toggled"
  | .isAllHistoryAvailableToggled => "is_all_history_available_toggled"
  | .hasAggressiveAntiSpamEnabledToggled => "has_aggressive_anti_spam_enabled_toggled"
  | .signMessagesToggled => "sign_messages_toggled"
  | .showMessageSenderToggled => "show_message_sender_toggled"
  | .automaticTranslationToggled => "automatic_translation_toggled"
  | .inviteLinkEdited => "invite_link_edited"
  | .inviteLinkRevoked => "invite_link_revoked"
  | .inviteLinkDeleted => "invite_link_deleted"
  | .videoChatCreated => "video_chat_created"
  | .videoChatEnded => "video_chat_ended"
  | .videoChatMuteNewParticipantsToggled => "video_chat_mute_new_participants_toggled"
  | .videoChatParticipantIsMutedToggled => "video_chat_participant_is_muted_toggled"
  | .videoChatParticipantVolumeLevelChanged => "video_chat_participant_volume_level_changed"
  | .isForumToggled => "is_forum_toggled"
  | .forumTopicCreated => "forum_topic_created"
  | .forumTopicEdited => "forum_topic_edited"
  | .forumTopicToggleIsClosed => "forum_topic_toggle_is_closed"
  | .forumTopicToggleIsHidden => "forum_topic_toggle_is_hidden"
  | .forumTopicDeleted => "forum_topic_deleted"
  | .forumTopicPinned => "forum_topic_pinned"

namespace ChatEvent

/-- The attributes of a `ChatEvent` for the payload, which are named like the variables of
`_parse`. -/
inductive Attribute
  | messageEdited
  | messageDeleted
  | messagePinned
  | messageUnpinned
  | pollStopped
  | memberJoined
  | memberJoinedByInviteLink
  | memberJoinedByRequest
  | memberInvited
  | memberLeft
  | memberPromoted
  | memberRestricted
  | memberTagChanged
  | memberSubscriptionExtended
  | availableReactionsChanged
  | backgroundChanged
  | descriptionChanged
  | emojiStatusChanged
  | linkedChatChanged
  | locationChanged
  | messageAutoDeleteTimeChanged
  | permissionsChanged
  | photoChanged
  | slowModeDelayChanged
  | stickerSetChanged
  | customEmojiStickerSetChanged
  | titleChanged
  | usernameChanged
  | activeUsernamesChanged
  | accentColorChanged
  | profileAccentColorChanged
  | hasProtectedContentToggled
  | invitesToggled
  | isAllHistoryAvailableToggled
  | hasAggressiveAntiSpamEnabledToggled
  | signMessagesToggled
  | showMessageSenderToggled
  | automaticTranslationToggled
  | inviteLinkEdited
  | inviteLinkRevoked
  | inviteLinkDeleted
  | videoChatCreated
  | videoChatEnded
  | videoChatMuteNewParticipantsToggled
  | videoChatParticipantIsMutedToggled
  | videoChatParticipantVolumeLevelChanged
  | isForumToggled
  | forumTopicCreated
  | forumTopicEdited
  | forumTopicToggleIsClosed
  | forumTopicToggleIsHidden
  | forumTopicDeleted
  | forumTopicPinned
  deriving DecidableEq, Repr

def Attribute.name : Attribute → String
  | .messageEdited => "message_edited"
  | .messageDeleted => "message_deleted"
  | .messagePinned => "message_pinned"
  | .messageUnpinned => "message_unpinned"
  | .pollStopped => "poll_stopped"
  | .memberJoined => "member_joined"
  | .memberJoinedByInviteLink => "member_joined_by_invite_link"
  | .memberJoinedByRequest => "member_joined_by_request"
  | .memberInvited => "member_invited"
  | .memberLeft => "member_left"
  | .memberPromoted => "member_promoted"
  | .memberRestricted => "member_restricted"
  | .memberTagChanged => "member_tag_changed"
  | .memberSubscriptionExtended => "member_subscription_extended"
  | .availableReactionsChanged => "available_reactions_changed"
  | .backgroundChanged => "background_changed"
  | .descriptionChanged => "description_changed"
  | .emojiStatusChanged => "emoji_status_changed"
  | .linkedChatChanged => "linked_chat_changed"
  | .locationChanged => "location_changed"
  | .messageAutoDeleteTimeChanged => "message_auto_delete_time_changed"
  | .permissionsChanged => "permissions_changed"
  | .photoChanged => "photo_changed"
  | .slowModeDelayChanged => "slow_mode_delay_changed"
  | .stickerSetChanged => "sticker_set_changed"
  | .customEmojiStickerSetChanged => "custom_emoji_sticker_set_changed"
  | .titleChanged => "title_changed"
  | .usernameChanged => "username_changed"
  | .activeUsernamesChanged => "active_usernames_changed"
  | .accentColorChanged => "accent_color_changed"
  | .profileAccentColorChanged => "profile_accent_color_changed"
  | .hasProtectedContentToggled => "has_protected_content_toggled"
  | .invitesToggled => "invites_toggled"
  | .isAllHistoryAvailableToggled => "is_all_history_available_toggled"
  | .hasAggressiveAntiSpamEnabledToggled => "has_aggressive_anti_spam_enabled_toggled"
  | .signMessagesToggled => "sign_messages_toggled"
  | .showMessageSenderToggled => "show_message_sender_toggled"
  | .automaticTranslationToggled => "automatic_translation_toggled"
  | .inviteLinkEdited => "invite_link_edited"
  | .inviteLinkRevoked => "invite_link_revoked"
  | .inviteLinkDeleted => "invite_link_deleted"
  | .videoChatCreated => "video_chat_created"
  | .videoChatEnded => "video_chat_ended"
  | .videoChatMuteNewParticipantsToggled => "video_chat_mute_new_participants_toggled"
  | .videoChatParticipantIsMutedToggled => "video_chat_participant_is_muted_toggled"
  | .videoChatParticipantVolumeLevelChanged => "video_chat_participant_volume_level_changed"
  | .isForumToggled => "is_forum_toggled"
  | .forumTopicCreated => "forum_topic_created"
  | .forumTopicEdited => "forum_topic_edited"
  | .forumTopicToggleIsClosed => "forum_topic_toggle_is_closed"
  | .forumTopicToggleIsHidden => "forum_topic_toggle_is_hidden"
  | .forumTopicDeleted => "forum_topic_deleted"
  | .forumTopicPinned => "forum_topic_pinned"

/-! ### What the server sends -/

/-- `raw.base.Message`: only a message proper has `pinned`. -/
inductive RawMessage (R : Type)
  | message (pinned : Bool) (message : R)
  | service (message : R)
  | empty (message : R)

/-- `raw.base.ForumTopic`: a deleted topic has neither flag. -/
inductive RawTopic (R : Type)
  | topic (closed hidden : Bool) (topic : R)
  | deleted (topic : R)

/-- `raw.base.InputStickerSet`: one of the kinds has an `id`. -/
inductive InputStickerSet
  | id (id accessHash : ℤ)
  | other

/-- `raw.base.InputGroupCall` -/
inductive InputGroupCall
  | call (id accessHash : ℤ)
  | slug (slug : String)
  | inviteMessage (msgId : ℤ)

/-- `raw.base.PeerColor` -/
inductive PeerColor
  | color (color backgroundEmojiId : Option ℤ)
  | collectible (collectibleId giftEmojiId backgroundEmojiId accentColor : ℤ)
  | inputCollectible (collectibleId : ℤ)

/-- `raw.types.GroupCallParticipant` -/
structure GroupCallParticipant where
  peer : Peer
  volume : Option ℤ

/-- `raw.base.ExportedChatInvite` -/
inductive ExportedChatInvite
  | exported (revoked permanent requestNeeded : Bool) (link : String) (adminId date : ℤ)
    (startDate expireDate usageLimit usage requested : Option ℤ) (title : Option String)
  | publicJoinRequests

/-- `raw.base.ChannelAdminLogEventAction`; `R` are the objects that only their own parsers look
into. -/
inductive Action (R : Type)
  | changeTitle (prevValue newValue : String)
  | changeAbout (prevValue newValue : String)
  | changeUsername (prevValue newValue : String)
  | changePhoto (prevPhoto newPhoto : R)
  | toggleInvites (newValue : Bool)
  | toggleSignatures (newValue : Bool)
  | updatePinned (message : RawMessage R)
  | editMessage (prevMessage newMessage : RawMessage R)
  | deleteMessage (message : RawMessage R)
  | participantJoin
  | participantLeave
  | participantInvite (participant : R)
  | participantToggleBan (prevParticipant newParticipant : R)
  | participantToggleAdmin (prevParticipant newParticipant : R)
  | changeStickerSet (prevStickerset newStickerset : InputStickerSet)
  | togglePreHistoryHidden (newValue : Bool)
  | defaultBannedRights (prevBannedRights newBannedRights : R)
  | stopPoll (message : RawMessage R)
  | changeLinkedChat (prevValue newValue : ℤ)
  | changeLocation (prevValue newValue : R)
  | toggleSlowMode (prevValue newValue : ℤ)
  | startGroupCall (call : InputGroupCall)
  | discardGroupCall (call : InputGroupCall)
  | participantMute (participant : GroupCallParticipant)
  | participantUnmute (participant : GroupCallParticipant)
  | toggleGroupCallSetting (joinMuted : Bool)
  | participantJoinByInvite (viaChatlist : Bool) (invite : ExportedChatInvite)
  | exportedInviteDelete (invite : ExportedChatInvite)
  | exportedInviteRevoke (invite : ExportedChatInvite)
  | exportedInviteEdit (prevInvite newInvite : ExportedChatInvite)
  | participantVolume (participant : GroupCallParticipant)
  | changeHistoryTTL (prevValue newValue : ℤ)
  | participantJoinByRequest (invite : ExportedChatInvite) (approvedBy : ℤ)
  | toggleNoForwards (newValue : Bool)
  | sendMessage (message : RawMessage R)
  | changeAvailableReactions (prevValue newValue : R)
  | changeUsernames (prevValue newValue : List String)
  | toggleForum (newValue : Bool)
  | createTopic (topic : RawTopic R)
  | editTopic (prevTopic newTopic : RawTopic R)
  | deleteTopic (topic : RawTopic R)
  | pinTopic (prevTopic newTopic : Option (RawTopic R))
  | toggleAntiSpam (newValue : Bool)
  | changePeerColor (prevValue newValue : PeerColor)
  | changeProfilePeerColor (prevValue newValue : PeerColor)
  | changeWallpaper (prevValue newValue : R)
  | changeEmojiStatus (prevValue newValue : R)
  | changeEmojiStickerSet (prevStickerset newStickerset : InputStickerSet)
  | toggleSignatureProfiles (newValue : Bool)
  | participantSubExtend (prevParticipant newParticipant : R)
  | toggleAutotranslation (newValue : Bool)
  | participantEditRank (userId : ℤ) (prevRank newRank : String)

/-- `raw.types.ChannelAdminLogEvent` -/
structure Event (R : Type) where
  id : ℤ
  date : ℤ
  userId : ℤ
  action : Action R

abbrev Dict (V : Type) := ℤ → Option V

/-- `d[key]` -/
def getItem {V : Type} (d : Dict V) (key : ℤ) : Except Exc V :=
  match d key with
  | some v => .ok v
  | none => .error (.other "KeyError")

/-- `users.get(key) or chats.get(key)` -/
def getEntry {U C : Type} (users : Dict U) (chats : Dict C) (key : ℤ) : Option (U ⊕ C) :=
  match users key with
  | some user => some (.inl user)
  | none => (chats key).map .inr

/-- The parsers of what an event holds: `U` and `C` are the entries of the two dicts, `O` what the
parsers make. A chat keeps the entry that it was made of. -/
structure Parsers (U C R O : Type) where
  message : Dict U → Dict C → RawMessage R → O
  user : Option U → O
  chat : Option (U ⊕ C) → O
  chatMember : Dict U → Dict C → R → O
  chatReactions : R → O
  chatBackground : R → O
  emojiStatus : R → O
  location : R → O
  chatPermissions : R → O
  photo : R → O
  forumTopic : Dict U → Dict C → Option (RawTopic R) → O
  timestampToDatetime : Option ℤ → O
  raw : O → Option (U ⊕ C)
  raw_chat : ∀ entry, raw (chat (some entry)) = some entry

/-! ### What is made of it -/

/-- A value, or a coroutine that nobody has awaited. -/
inductive Awaitable (α : Type)
  | finished (value : α)
  | coroutine

/-- `types.ChatInviteLink` -/
structure ChatInviteLink (O : Type) where
  inviteLink : String
  date : O
  isPrimary : Bool
  isRevoked : Bool
  creator : Option O
  name : Option String
  createsJoinRequest : Bool
  startDate : O
  expireDate : O
  memberLimit : Option ℤ
  memberCount : Option ℤ
  pendingJoinRequestCount : Option ℤ

abbrev Link (O : Type) := Awaitable (Option (ChatInviteLink O))

/-- The `types.ChatEventAction…` objects. -/
inductive Payload (O : Type)
  | messageEdited (oldMessage newMessage : O)
  | messageDeleted (message : O) (canReportAntiSpamFalsePositive : Bool)
  | messagePinned (message : O)
  | messageUnpinned (message : O)
  | pollStopped (message : O)
  | memberJoined
  | memberJoinedByInviteLink (inviteLink : Link O) (viaChatFolderInviteLink : Bool)
  | memberJoinedByRequest (approverUser : O) (inviteLink : Link O)
  | memberInvited (member : O)
  | memberLeft
  | memberPromoted (oldMember newMember : O)
  | memberRestricted (oldMember newMember : O)
  | memberTagChanged (user : O) (oldTag newTag : String)
  | memberSubscriptionExtended (oldMember newMember : O)
  | availableReactionsChanged (oldAvailableReactions newAvailableReactions : O)
  | backgroundChanged (oldBackground newBackground : O)
  | descriptionChanged (oldDescription newDescription : String)
  | emojiStatusChanged (oldEmojiStatus newEmojiStatus : O)
  | linkedChatChanged (oldLinkedChat newLinkedChat : O)
  | locationChanged (oldLocation newLocation : O)
  | messageAutoDeleteTimeChanged (oldMessageAutoDeleteTime newMessageAutoDeleteTime : ℤ)
  | permissionsChanged (oldPermissions newPermissions : O)
  | photoChanged (oldPhoto newPhoto : O)
  | slowModeDelayChanged (oldSlowModeDelay newSlowModeDelay : ℤ)
  | stickerSetChanged (oldStickerSetId newStickerSetId : Option ℤ)
  | customEmojiStickerSetChanged (oldStickerSetId newStickerSetId : Option ℤ)
  | titleChanged (oldTitle newTitle : String)
  | usernameChanged (oldUsername newUsername : String)
  | activeUsernamesChanged (oldUsernames newUsernames : List String)
  | accentColorChanged (oldAccentColorId : Option ℤ) (oldBackgroundCustomEmojiId : Option String)
    (newAccentColorId : Option ℤ) (newBackgroundCustomEmojiId : Option String)
  | profileAccentColorChanged (oldProfileAccentColorId : Option ℤ)
      (oldProfileBackgroundCustomEmojiId : Option String)
    (newProfileAccentColorId : Option ℤ) (newProfileBackgroundCustomEmojiId : Option String)
  | hasProtectedContentToggled (hasProtectedContent : Bool)
  | invitesToggled (canInviteUsers : Bool)
  | isAllHistoryAvailableToggled (isAllHistoryAvailable : Bool)
  | hasAggressiveAntiSpamEnabledToggled (hasAggressiveAntiSpamEnabled : Bool)
  | signMessagesToggled (signMessages : Bool)
  | showMessageSenderToggled (showMessageSender : Bool)
  | automaticTranslationToggled (hasAutomaticTranslation : Bool)
  | inviteLinkEdited (oldInviteLink newInviteLink : Link O)
  | inviteLinkRevoked (inviteLink : Link O)
  | inviteLinkDeleted (inviteLink : Link O)
  | videoChatCreated (groupCallId : Option ℤ)
  | videoChatEnded (groupCallId : Option ℤ)
  | videoChatMuteNewParticipantsToggled (muteNewParticipants : Bool)
  | videoChatParticipantIsMutedToggled (participant : O) (isMuted : Bool)
  | videoChatParticipantVolumeLevelChanged (participant : O) (volumeLevel : Option ℤ)
  | isForumToggled (isForum : Bool)
  | forumTopicCreated (topicInfo : O)
  | forumTopicEdited (oldTopicInfo newTopicInfo : O)
  | forumTopicToggleIsClosed (topicInfo : O)
  | forumTopicToggleIsHidden (topicInfo : O)
  | forumTopicDeleted (topicInfo : O)
  | forumTopicPinned (oldTopicInfo newTopicInfo : O)

end ChatEvent

open ChatEvent

/-- `types.ChatEvent` -/
structure ChatEvent (O : Type) where
  id : ℤ
  date : O
  member : O
  action : ChatEventActionType
  attributes : Attribute → Option (Payload O)

namespace ChatEvent

variable {U C R O : Type}

/-- `ChatInviteLink._parse` -/
def ChatInviteLink.parse (P : Parsers U C R O) (invite : ExportedChatInvite)
    (users : Option (Dict U)) :
    Except Exc (Option (ChatInviteLink O)) :=
  match invite with
  | .publicJoinRequests => .ok none
  | .exported revoked permanent requestNeeded link adminId date startDate expireDate usageLimit
      usage requested title =>
      do
      let creator ←
        match users with
        | none => .ok none
        | some users => do
            let user ← getItem users adminId
            .ok (some (P.user (some user)))
      .ok (some
        { inviteLink := link
          date := P.timestampToDatetime (some date)
          isPrimary := permanent
          isRevoked := revoked
          creator
          name := title
          createsJoinRequest := requestNeeded
          startDate := P.timestampToDatetime startDate
          expireDate := P.timestampToDatetime expireDate
          memberLimit := usageLimit
          memberCount := usage
          pendingJoinRequestCount := requested })

/-- `getattr(stickerset, "id", None)` -/
def InputStickerSet.id? : InputStickerSet → Option ℤ
  | .id stickerSetId _ => some stickerSetId
  | .other => none

/-- `getattr(call, "id", None)` -/
def InputGroupCall.id? : InputGroupCall → Option ℤ
  | .call callId _ => some callId
  | .slug _ | .inviteMessage _ => none

/-- `getattr(color, "color", None)` -/
def PeerColor.color? : PeerColor → Option ℤ
  | .color value _ => value
  | .collectible .. | .inputCollectible _ => none

/-- `getattr(color, "custom_emoji_id", None)`: no kind has an attribute of that name. -/
def PeerColor.customEmojiId? : PeerColor → Option ℤ
  | .color .. | .collectible .. | .inputCollectible _ => none

/-- `str(id) if id else None` -/
def strOrNone : Option ℤ → Option String
  | none => none
  | some id => if id = 0 then none else some (toString id)

/-- `message.pinned` -/
def RawMessage.pinned : RawMessage R → Except Exc Bool
  | .message pinned _ => .ok pinned
  | .service _ | .empty _ => .error attributeError

/-- `topic.closed` -/
def RawTopic.closed : RawTopic R → Except Exc Bool
  | .topic closed _ _ => .ok closed
  | .deleted _ => .error attributeError

/-- `topic.hidden` -/
def RawTopic.hidden : RawTopic R → Except Exc Bool
  | .topic _ hidden _ => .ok hidden
  | .deleted _ => .error attributeError

/-- The variables of `_parse` after a branch that has set `action_type` and one of them. -/
structure Locals (O : Type) where
  actionType : ChatEventActionType
  attributes : Attribute → Option (Payload O)

def assign (actionType : ChatEventActionType) (a : Attribute) (payload : Payload O) : Locals O :=
  { actionType, attributes := fun b => if b = a then some payload else none }

/-- `client.get_app_config()["telegram_antispam_user_id"]`, if there is one, is `antispamUserId`. -/
def parseAction (P : Parsers U C R O) (antispamUserId : Option ℤ) (event : Event R) (users : Dict U)
    (chats : Dict C) :
    Except Exc (Locals O) :=
  match event.action with
  | .editMessage prevMessage newMessage =>
      .ok (assign .messageEdited .messageEdited
        (.messageEdited (P.message users chats prevMessage) (P.message users chats newMessage)))
  | .deleteMessage message =>
      .ok (assign .messageDeleted .messageDeleted
        (.messageDeleted (P.message users chats message)
          (match antispamUserId with
          | some userId => event.userId = userId
          | none => false)))
  | .updatePinned message => do
      let pinned ← message.pinned
      if pinned then
        .ok (assign .messagePinned .messagePinned (.messagePinned (P.message users chats message)))
      else
        .ok (assign .messageUnpinned .messageUnpinned
          (.messageUnpinned (P.message users chats message)))
  | .stopPoll message =>
      .ok (assign .pollStopped .pollStopped (.pollStopped (P.message users chats message)))
  | .participantJoin => .ok (assign .memberJoined .memberJoined .memberJoined)
  | .participantJoinByInvite viaChatlist invite => do
      let link ← ChatInviteLink.parse P invite (some users)
      .ok (assign .memberJoinedByInviteLink .memberJoinedByInviteLink
        (.memberJoinedByInviteLink (.finished link) viaChatlist))
  | .participantJoinByRequest invite approvedBy => do
      let link ← ChatInviteLink.parse P invite (some users)
      -- the variable is that of the branch before
      .ok (assign .memberJoinedByRequest .memberJoinedByInviteLink
        (.memberJoinedByRequest (P.user (users approvedBy)) (.finished link)))
  | .participantInvite participant =>
      .ok (assign .memberInvited .memberInvited
        (.memberInvited (P.chatMember users chats participant)))
  | .participantLeave => .ok (assign .memberLeft .memberLeft .memberLeft)
  | .participantToggleAdmin prevParticipant newParticipant =>
      .ok (assign .memberPromoted .memberPromoted
        (.memberPromoted (P.chatMember users chats prevParticipant)
          (P.chatMember users chats newParticipant)))
  | .participantToggleBan prevParticipant newParticipant =>
      .ok (assign .memberRestricted .memberRestricted
        (.memberRestricted (P.chatMember users chats prevParticipant)
          (P.chatMember users chats newParticipant)))
  | .participantEditRank userId prevRank newRank => do
      let user ← getItem users userId
      .ok (assign .memberTagChanged .memberTagChanged
        (.memberTagChanged (P.user (some user)) prevRank newRank))
  | .participantSubExtend prevParticipant newParticipant =>
      .ok (assign .memberSubscriptionExtended .memberSubscriptionExtended
        (.memberSubscriptionExtended (P.chatMember users chats prevParticipant)
          (P.chatMember users chats newParticipant)))
  | .changeAvailableReactions prevValue newValue =>
      .ok (assign .availableReactionsChanged .availableReactionsChanged
        (.availableReactionsChanged (P.chatReactions prevValue) (P.chatReactions newValue)))
  | .changeWallpaper prevValue newValue =>
      -- again that of the branch before
      .ok (assign .backgroundChanged .availableReactionsChanged
        (.backgroundChanged (P.chatBackground prevValue) (P.chatBackground newValue)))
  | .changeAbout prevValue newValue =>
      .ok (assign .descriptionChanged .descriptionChanged (.descriptionChanged prevValue newValue))
  | .changeEmojiStatus prevValue newValue =>
      .ok (assign .emojiStatusChanged .emojiStatusChanged
        (.emojiStatusChanged (P.emojiStatus prevValue) (P.emojiStatus newValue)))
  | .changeLinkedChat prevValue newValue =>
      .ok (assign .linkedChatChanged .linkedChatChanged
        (.linkedChatChanged (P.chat ((chats prevValue).map .inr))
          (P.chat ((chats newValue).map .inr))))
  | .changeLocation prevValue newValue =>
      .ok (assign .locationChanged .locationChanged
        (.locationChanged (P.location prevValue) (P.location newValue)))
  | .changeHistoryTTL prevValue newValue =>
      .ok (assign .messageAutoDeleteTimeChanged .messageAutoDeleteTimeChanged
        (.messageAutoDeleteTimeChanged prevValue newValue))
  | .defaultBannedRights prevBannedRights newBannedRights =>
      .ok (assign .permissionsChanged .permissionsChanged
        (.permissionsChanged (P.chatPermissions prevBannedRights)
          (P.chatPermissions newBannedRights)))
  | .changePhoto prevPhoto newPhoto =>
      .ok (assign .photoChanged .photoChanged
        (.photoChanged (P.photo prevPhoto) (P.photo newPhoto)))
  | .toggleSlowMode prevValue newValue =>
      .ok (assign .slowModeDelayChanged .slowModeDelayChanged
        (.slowModeDelayChanged prevValue newValue))
  | .changeStickerSet prevStickerset newStickerset =>
      -- the branch that sets `custom_emoji_sticker_set_changed` tests for the same class, and is
      -- never reached
      .ok (assign .stickerSetChanged .stickerSetChanged
        (.stickerSetChanged prevStickerset.id? newStickerset.id?))
  | .changeTitle prevValue newValue =>
      .ok (assign .titleChanged .titleChanged (.titleChanged prevValue newValue))
  | .changeUsername prevValue newValue =>
      .ok (assign .usernameChanged .usernameChanged (.usernameChanged prevValue newValue))
  | .changeUsernames prevValue newValue =>
      .ok (assign .activeUsernamesChanged .usernameChanged
        (.activeUsernamesChanged prevValue newValue))
  | .changePeerColor prevValue newValue =>
      .ok (assign .accentColorChanged .accentColorChanged
        (.accentColorChanged prevValue.color? (strOrNone prevValue.customEmojiId?) newValue.color?
          (strOrNone newValue.customEmojiId?)))
  | .changeProfilePeerColor prevValue newValue =>
      .ok (assign .profileAccentColorChanged .profileAccentColorChanged
        (.profileAccentColorChanged prevValue.color? (strOrNone prevValue.customEmojiId?)
          newValue.color?
          (strOrNone newValue.customEmojiId?)))
  | .toggleNoForwards newValue =>
      .ok (assign .hasProtectedContentToggled .hasProtectedContentToggled
        (.hasProtectedContentToggled newValue))
  | .toggleInvites newValue =>
      .ok (assign .invitesToggled .invitesToggled (.invitesToggled newValue))
  | .togglePreHistoryHidden newValue =>
      .ok (assign .isAllHistoryAvailableToggled .isAllHistoryAvailableToggled
        (.isAllHistoryAvailableToggled newValue))
  | .toggleAntiSpam newValue =>
      .ok (assign .hasAggressiveAntiSpamEnabledToggled .hasAggressiveAntiSpamEnabledToggled
        (.hasAggressiveAntiSpamEnabledToggled newValue))
  | .toggleSignatures newValue =>
      .ok (assign .signMessagesToggled .hasAggressiveAntiSpamEnabledToggled
        (.signMessagesToggled newValue))
  | .toggleSignatureProfiles newValue =>
      .ok (assign .showMessageSenderToggled .showMessageSenderToggled
        (.showMessageSenderToggled newValue))
  | .toggleAutotranslation newValue =>
      .ok (assign .automaticTranslationToggled .automaticTranslationToggled
        (.automaticTranslationToggled newValue))
  -- `_parse` of an invite link is called, but not awaited
  | .exportedInviteEdit _ _ =>
      .ok (assign .inviteLinkEdited .inviteLinkEdited (.inviteLinkEdited .coroutine .coroutine))
  | .exportedInviteRevoke _ =>
      .ok (assign .inviteLinkRevoked .inviteLinkRevoked (.inviteLinkRevoked .coroutine))
  | .exportedInviteDelete _ =>
      .ok (assign .inviteLinkDeleted .inviteLinkDeleted (.inviteLinkDeleted .coroutine))
  | .startGroupCall call =>
      .ok (assign .videoChatCreated .videoChatCreated (.videoChatCreated call.id?))
  | .discardGroupCall call =>
      .ok (assign .videoChatEnded .videoChatEnded (.videoChatEnded call.id?))
  | .toggleGroupCallSetting joinMuted =>
      .ok (assign .videoChatMuteNewParticipantsToggled .videoChatMuteNewParticipantsToggled
        (.videoChatMuteNewParticipantsToggled joinMuted))
  | .participantMute participant =>
      .ok (assign .videoChatParticipantIsMutedToggled .videoChatParticipantIsMutedToggled
        (.videoChatParticipantIsMutedToggled (P.chat (getEntry users chats participant.peer.rawId))
          true))
  | .participantUnmute participant =>
      .ok (assign .videoChatParticipantIsMutedToggled .videoChatParticipantIsMutedToggled
        (.videoChatParticipantIsMutedToggled (P.chat (getEntry users chats participant.peer.rawId))
          false))
  | .participantVolume participant =>
      .ok (assign .videoChatParticipantVolumeLevelChanged .videoChatParticipantVolumeLevelChanged
        (.videoChatParticipantVolumeLevelChanged
          (P.chat (getEntry users chats participant.peer.rawId))
          participant.volume))
  | .toggleForum newValue => .ok (assign .isForumToggled .isForumToggled (.isForumToggled newValue))
  | .createTopic topic =>
      .ok (assign .forumTopicCreated .forumTopicCreated
        (.forumTopicCreated (P.forumTopic users chats (some topic))))
  | .editTopic prevTopic newTopic => do
      let prevClosed ← prevTopic.closed
      let newClosed ← newTopic.closed
      if prevClosed ≠ newClosed then
        .ok (assign .forumTopicToggleIsClosed .forumTopicToggleIsClosed
          (.forumTopicToggleIsClosed (P.forumTopic users chats (some newTopic))))
      else
        let prevHidden ← prevTopic.hidden
        let newHidden ← newTopic.hidden
        if prevHidden ≠ newHidden then
          .ok (assign .forumTopicToggleIsHidden .forumTopicToggleIsHidden
            (.forumTopicToggleIsHidden (P.forumTopic users chats (some newTopic))))
        else
          .ok (assign .forumTopicEdited .forumTopicEdited
            (.forumTopicEdited (P.forumTopic users chats (some prevTopic))
              (P.forumTopic users chats (some newTopic))))
  | .deleteTopic topic =>
      .ok (assign .forumTopicDeleted .forumTopicDeleted
        (.forumTopicDeleted (P.forumTopic users chats (some topic))))
  | .pinTopic prevTopic newTopic =>
      .ok (assign .forumTopicPinned .forumTopicPinned
        (.forumTopicPinned (P.forumTopic users chats prevTopic)
          (P.forumTopic users chats newTopic)))
  | .changeEmojiStickerSet _ _ | .sendMessage _ =>
      .ok { actionType := .unsupported, attributes := fun _ => none }

/-- `ChatEvent._parse` -/
def parse (P : Parsers U C R O) (antispamUserId : Option ℤ) (event : Event R) (users : Dict U)
    (chats : Dict C) :
    Except Exc (ChatEvent O) := do
  let locals ← parseAction P antispamUserId event users chats
  .ok
    { id := event.id
      date := P.timestampToDatetime (some event.date)
      member := P.chat (getEntry users chats event.userId)
      action := locals.actionType
      attributes := locals.attributes }

/-! ### The payload of an event -/

/-- The entry of a peer, in the dict of its kind. -/
def entryOf (users : Dict U) (chats : Dict C) : Peer → Option (U ⊕ C)
  | .user userId => (users userId).map .inl
  | .chat chatId => (chats chatId).map .inr
  | .channel channelId => (chats channelId).map .inr

/-- An invite link with its creator among `users`. -/
def linkOf (P : Parsers U C R O) (users : Dict U) : ExportedChatInvite → Link O
  | .publicJoinRequests => .finished none
  | .exported revoked permanent requestNeeded link adminId date startDate expireDate usageLimit
      usage requested title =>
      .finished (some
        { inviteLink := link
          date := P.timestampToDatetime (some date)
          isPrimary := permanent
          isRevoked := revoked
          creator := some (P.user (users adminId))
          name := title
          createsJoinRequest := requestNeeded
          startDate := P.timestampToDatetime startDate
          expireDate := P.timestampToDatetime expireDate
          memberLimit := usageLimit
          memberCount := usage
          pendingJoinRequestCount := requested })

/-- The accent color of a peer. -/
def PeerColor.accentColor : PeerColor → Option ℤ
  | .color value _ => value
  | .collectible _ _ _ accentColor => some accentColor
  | .inputCollectible _ => none

/-- The custom emoji in the background of a peer. -/
def PeerColor.backgroundCustomEmojiId : PeerColor → Option String
  | .color _ backgroundEmojiId => strOrNone backgroundEmojiId
  | .collectible _ _ backgroundEmojiId _ => strOrNone (some backgroundEmojiId)
  | .inputCollectible _ => none

def RawMessage.isPinned : RawMessage R → Bool
  | .message pinned _ => pinned
  | .service _ | .empty _ => false

def RawTopic.flags : RawTopic R → Bool × Bool
  | .topic closed hidden _ => (closed, hidden)
  | .deleted _ => (false, false)

/-- The payload of an event: the parsed forms of its own values.  There is no kind for a message
that was sent. -/
def own (P : Parsers U C R O) (antispamUserId : Option ℤ) (event : Event R) (users : Dict U)
    (chats : Dict C) :
    Option (Payload O) :=
  match event.action with
  | .editMessage prevMessage newMessage =>
      some (.messageEdited (P.message users chats prevMessage) (P.message users chats newMessage))
  | .deleteMessage message =>
      some (.messageDeleted (P.message users chats message) (antispamUserId = some event.userId))
  | .updatePinned message =>
      if message.isPinned then some (.messagePinned (P.message users chats message))
      else some (.messageUnpinned (P.message users chats message))
  | .stopPoll message => some (.pollStopped (P.message users chats message))
  | .participantJoin => some .memberJoined
  | .participantJoinByInvite viaChatlist invite =>
      some (.memberJoinedByInviteLink (linkOf P users invite) viaChatlist)
  | .participantJoinByRequest invite approvedBy =>
      some (.memberJoinedByRequest (P.user (users approvedBy)) (linkOf P users invite))
  | .participantInvite participant => some (.memberInvited (P.chatMember users chats participant))
  | .participantLeave => some .memberLeft
  | .participantToggleAdmin prevParticipant newParticipant =>
      some (.memberPromoted (P.chatMember users chats prevParticipant)
        (P.chatMember users chats newParticipant))
  | .participantToggleBan prevParticipant newParticipant =>
      some (.memberRestricted (P.chatMember users chats prevParticipant)
        (P.chatMember users chats newParticipant))
  | .participantEditRank userId prevRank newRank =>
      some (.memberTagChanged (P.user (users userId)) prevRank newRank)
  | .participantSubExtend prevParticipant newParticipant =>
      some (.memberSubscriptionExtended (P.chatMember users chats prevParticipant)
        (P.chatMember users chats newParticipant))
  | .changeAvailableReactions prevValue newValue =>
      some (.availableReactionsChanged (P.chatReactions prevValue) (P.chatReactions newValue))
  | .changeWallpaper prevValue newValue =>
      some (.backgroundChanged (P.chatBackground prevValue) (P.chatBackground newValue))
  | .changeAbout prevValue newValue => some (.descriptionChanged prevValue newValue)
  | .changeEmojiStatus prevValue newValue =>
      some (.emojiStatusChanged (P.emojiStatus prevValue) (P.emojiStatus newValue))
  | .changeLinkedChat prevValue newValue =>
      some (.linkedChatChanged (P.chat ((chats prevValue).map .inr))
        (P.chat ((chats newValue).map .inr)))
  | .changeLocation prevValue newValue =>
      some (.locationChanged (P.location prevValue) (P.location newValue))
  | .changeHistoryTTL prevValue newValue => some (.messageAutoDeleteTimeChanged prevValue newValue)
  | .defaultBannedRights prevBannedRights newBannedRights =>
      some (.permissionsChanged (P.chatPermissions prevBannedRights)
        (P.chatPermissions newBannedRights))
  | .changePhoto prevPhoto newPhoto => some (.photoChanged (P.photo prevPhoto) (P.photo newPhoto))
  | .toggleSlowMode prevValue newValue => some (.slowModeDelayChanged prevValue newValue)
  | .changeStickerSet prevStickerset newStickerset =>
      some (.stickerSetChanged prevStickerset.id? newStickerset.id?)
  | .changeEmojiStickerSet prevStickerset newStickerset =>
      some (.customEmojiStickerSetChanged prevStickerset.id? newStickerset.id?)
  | .changeTitle prevValue newValue => some (.titleChanged prevValue newValue)
  | .changeUsername prevValue newValue => some (.usernameChanged prevValue newValue)
  | .changeUsernames prevValue newValue => some (.activeUsernamesChanged prevValue newValue)
  | .changePeerColor prevValue newValue =>
      some (.accentColorChanged prevValue.accentColor prevValue.backgroundCustomEmojiId
        newValue.accentColor
        newValue.backgroundCustomEmojiId)
  | .changeProfilePeerColor prevValue newValue =>
      some (.profileAccentColorChanged prevValue.accentColor prevValue.backgroundCustomEmojiId
        newValue.accentColor
        newValue.backgroundCustomEmojiId)
  | .toggleNoForwards newValue => some (.hasProtectedContentToggled newValue)
  | .toggleInvites newValue => some (.invitesToggled newValue)
  -- the server says whether the history is hidden
  | .togglePreHistoryHidden newValue => some (.isAllHistoryAvailableToggled (!newValue))
  | .toggleAntiSpam newValue => some (.hasAggressiveAntiSpamEnabledToggled newValue)
  | .toggleSignatures newValue => some (.signMessagesToggled newValue)
  | .toggleSignatureProfiles newValue => some (.showMessageSenderToggled newValue)
  | .toggleAutotranslation newValue => some (.automaticTranslationToggled newValue)
  | .exportedInviteEdit prevInvite newInvite =>
      some (.inviteLinkEdited (linkOf P users prevInvite) (linkOf P users newInvite))
  | .exportedInviteRevoke invite => some (.inviteLinkRevoked (linkOf P users invite))
  | .exportedInviteDelete invite => some (.inviteLinkDeleted (linkOf P users invite))
  | .startGroupCall call => some (.videoChatCreated call.id?)
  | .discardGroupCall call => some (.videoChatEnded call.id?)
  | .toggleGroupCallSetting joinMuted => some (.videoChatMuteNewParticipantsToggled joinMuted)
  | .participantMute participant =>
      some (.videoChatParticipantIsMutedToggled (P.chat (entryOf users chats participant.peer))
        true)
  | .participantUnmute participant =>
      some (.videoChatParticipantIsMutedToggled (P.chat (entryOf users chats participant.peer))
        false)
  | .participantVolume participant =>
      some (.videoChatParticipantVolumeLevelChanged (P.chat (entryOf users chats participant.peer))
        participant.volume)
  | .toggleForum newValue => some (.isForumToggled newValue)
  | .createTopic topic => some (.forumTopicCreated (P.forumTopic users chats (some topic)))
  | .editTopic prevTopic newTopic =>
      if prevTopic.flags.1 ≠ newTopic.flags.1 then
        some (.forumTopicToggleIsClosed (P.forumTopic users chats (some newTopic)))
      else if prevTopic.flags.2 ≠ newTopic.flags.2 then
        some (.forumTopicToggleIsHidden (P.forumTopic users chats (some newTopic)))
      else
        some (.forumTopicEdited (P.forumTopic users chats (some prevTopic))
          (P.forumTopic users chats (some newTopic)))
  | .deleteTopic topic => some (.forumTopicDeleted (P.forumTopic users chats (some topic)))
  | .pinTopic prevTopic newTopic =>
      some (.forumTopicPinned (P.forumTopic users chats prevTopic)
        (P.forumTopic users chats newTopic))
  | .sendMessage _ => none

/-- The event has its own payload under the name of its action, and no other attribute for a
payload. -/
def Exposes (P : Parsers U C R O) (antispamUserId : Option ℤ) (event : Event R) (users : Dict U)
    (chats : Dict C) :
    Prop :=
  ∃ e, parse P antispamUserId event users chats = .ok e ∧
    ∃ payload, own P antispamUserId event users chats = some payload ∧
    ∃ a : Attribute, a.name = e.action.value ∧ ∀ b, e.attributes b = if b = a then some payload
      else none

/-- There is a member of `ChatEventActionType` for every kind of event but one. -/
def Action.HasMember : Action R → Prop
  | .sendMessage _ => False
  | _ => True

def ExportedChatInvite.Known (users : Dict U) : ExportedChatInvite → Prop
  | .publicJoinRequests => True
  | .exported _ _ _ _ adminId _ _ _ _ _ _ _ => ∃ user, users adminId = some user

/-- The peers that an action names are in the dicts. -/
def Action.Known (users : Dict U) (chats : Dict C) : Action R → Prop
  | .participantEditRank userId _ _ => ∃ user, users userId = some user
  | .participantJoinByInvite _ invite | .exportedInviteRevoke invite | .exportedInviteDelete
      invite =>
      invite.Known users
  | .participantJoinByRequest invite approvedBy =>
      invite.Known users ∧ ∃ user, users approvedBy = some user
  | .exportedInviteEdit prevInvite newInvite => prevInvite.Known users ∧ newInvite.Known users
  | .participantMute participant | .participantUnmute participant | .participantVolume
      participant =>
      ∃ entry, entryOf users chats participant.peer = some entry
  | .changeLinkedChat prevValue newValue =>
      (prevValue ≠ 0 → ∃ chat, chats prevValue = some chat) ∧
        (newValue ≠ 0 → ∃ chat, chats newValue = some chat)
  | _ => True

/-- The color of a peer without a custom emoji and without a collectible. -/
def PeerColor.IsPlain : PeerColor → Prop
  | .color _ backgroundEmojiId => backgroundEmojiId = none ∨ backgroundEmojiId = some 0
  | .collectible .. => False
  | .inputCollectible _ => True

/-- Not taken for a user of the same id. -/
def GroupCallParticipant.Found (users : Dict U) (participant : GroupCallParticipant) : Prop :=
  (∃ userId, participant.peer = .user userId) ∨ users participant.peer.rawId = none

/-- What the branch of an action gets right. -/
def Action.Handled (users : Dict U) : Action R → Prop
  -- another variable, or a branch that is never reached
  | .participantJoinByRequest .. | .changeWallpaper .. | .changeUsernames .. | .toggleSignatures _
  | .changeEmojiStickerSet .. => False
  -- a value that is not the one it should be
  | .togglePreHistoryHidden _ | .exportedInviteEdit .. | .exportedInviteRevoke
      _ | .exportedInviteDelete _ => False
  | .updatePinned message => ∃ pinned m, message = .message pinned m
  | .editTopic prevTopic newTopic =>
      (∃ closed hidden t, prevTopic = .topic closed hidden t) ∧ ∃ closed hidden t,
        newTopic = .topic closed hidden t
  | .changePeerColor prevValue newValue | .changeProfilePeerColor prevValue newValue =>
      prevValue.IsPlain ∧ newValue.IsPlain
  | .participantMute participant | .participantUnmute participant | .participantVolume
      participant =>
      participant.Found users
  | _ => True

section Branches

variable {P : Parsers U C R O} {antispamUserId : Option ℤ} {event : Event R} {users : Dict U}
    {chats : Dict C}
  {actionType : ChatEventActionType} {a : Attribute} {payload : Payload O}

theorem parse_eq_ok_iff {e : ChatEvent O} {l : Locals O}
    (h : parseAction P antispamUserId event users chats = .ok l)
    (he : parse P antispamUserId event users chats = .ok e) :
    e.action = l.actionType ∧ e.attributes = l.attributes := by
  rw [parse, h, Except.bind_ok] at he
  cases he
  exact ⟨rfl, rfl⟩

/-- A branch that sets the variable of its action to the payload. -/
theorem exposes_of_assign (h : parseAction P antispamUserId event users chats =
    .ok (assign actionType a payload))
    (hname : a.name = actionType.value)
    (hown : own P antispamUserId event users chats = some payload) :
    Exposes P antispamUserId event users chats := by
  refine ⟨_, by rw [parse, h, Except.bind_ok], payload, hown, a, hname, fun b => rfl⟩

theorem not_exposes_of_error {exc : Exc}
    (h : parseAction P antispamUserId event users chats = .error exc) :
    ¬Exposes P antispamUserId event users chats := by
  rintro ⟨e, he, -⟩
  rw [parse, h] at he
  cases he

/-- A branch that sets no variable. -/
theorem not_exposes_of_nothing
    (h : parseAction P antispamUserId event users chats = .ok ⟨actionType, fun _ => none⟩) :
    ¬Exposes P antispamUserId event users chats := by
  rintro ⟨e, he, p, -, b, -, hattributes⟩
  have hb := hattributes b
  rw [(parse_eq_ok_iff h he).2, if_pos rfl] at hb
  cases hb

/-- The variable that a branch sets is the one whose name counts. -/
theorem Exposes.of_assign (h : parseAction P antispamUserId event users chats =
    .ok (assign actionType a payload))
    (hexposes : Exposes P antispamUserId event users chats) :
    a.name = actionType.value ∧ own P antispamUserId event users chats = some payload := by
  obtain ⟨e, he, p, hown, b, hname, hattributes⟩ := hexposes
  obtain ⟨haction, hassigned⟩ := parse_eq_ok_iff h he
  have ha : some payload = if a = b then some p else none := by
    rw [← hattributes a, hassigned]
    exact (if_pos rfl).symm
  split at ha
  · next hab =>
    cases ha
    rw [hab, hname, haction]
    exact ⟨rfl, hown⟩
  · cases ha

/-- The variable of another action. -/
theorem not_exposes_of_name (h : parseAction P antispamUserId event users chats =
    .ok (assign actionType a payload))
    (hname : a.name ≠ actionType.value) : ¬Exposes P antispamUserId event users chats :=
  fun hexposes => hname (hexposes.of_assign h).1

/-- Where the variable is the right one, the value counts. -/
theorem exposes_assign_iff (h : parseAction P antispamUserId event users chats =
    .ok (assign actionType a payload))
    (hname : a.name = actionType.value) :
    Exposes P antispamUserId event users chats ↔
      own P antispamUserId event users chats = some payload :=
  ⟨fun hexposes => (hexposes.of_assign h).2, exposes_of_assign h hname⟩

end Branches

/-! ### The values -/

/-- The attribute that the code asks for is not that of the background. -/
theorem PeerColor.shown_iff (c : PeerColor) :
    c.color? = c.accentColor ∧ strOrNone c.customEmojiId? = c.backgroundCustomEmojiId ↔
      c.IsPlain := by
  cases c with
  | color value backgroundEmojiId =>
    rcases backgroundEmojiId with _ | n
    · simp [color?, accentColor, customEmojiId?, backgroundCustomEmojiId, strOrNone, IsPlain]
    · by_cases hn : n = 0 <;>
        simp [color?, accentColor, customEmojiId?, backgroundCustomEmojiId, strOrNone, IsPlain, hn]
  | collectible collectibleId giftEmojiId backgroundEmojiId accent =>
    simp [color?, accentColor, IsPlain]
  | inputCollectible collectibleId =>
    simp [color?, accentColor, customEmojiId?, backgroundCustomEmojiId, strOrNone, IsPlain]

/-- The dict of the users is asked first. -/
theorem found_iff (P : Parsers U C R O) {users : Dict U} {chats : Dict C}
    {participant : GroupCallParticipant}
    (hknown : ∃ entry, entryOf users chats participant.peer = some entry) :
    P.chat (entryOf users chats participant.peer) =
      P.chat (getEntry users chats participant.peer.rawId) ↔
      participant.Found users := by
  obtain ⟨peer, volume⟩ := participant
  have hchat (chatId : ℕ+) (hpeer : ∀ userId, peer ≠ .user userId) (hraw : peer.rawId = chatId)
      (hentry : entryOf users chats peer = (chats chatId).map .inr) :
      P.chat (entryOf users chats peer) = P.chat (getEntry users chats peer.rawId) ↔
        GroupCallParticipant.Found users ⟨peer, volume⟩ := by
    obtain ⟨entry, hknown⟩ := hknown
    have hfound : GroupCallParticipant.Found users ⟨peer, volume⟩ ↔ users peer.rawId = none :=
      or_iff_right fun ⟨userId, h⟩ => hpeer userId h
    rw [hfound]
    dsimp only at hknown
    rw [hentry] at hknown ⊢
    rw [hraw, getEntry]
    cases huser : users chatId with
    | none => simp
    | some user =>
      rw [hknown]
      refine iff_of_false (fun h => ?_) (Option.some_ne_none user)
      -- a parsed chat still holds the entry
      have hraw := congrArg P.raw h
      rw [P.raw_chat, P.raw_chat] at hraw
      obtain ⟨chat, -, rfl⟩ := Option.map_eq_some_iff.mp hknown
      cases hraw
  cases peer with
  | user userId =>
    obtain ⟨entry, hknown⟩ := hknown
    obtain ⟨user, huser, -⟩ := Option.map_eq_some_iff.mp hknown
    refine iff_of_true ?_ (.inl ⟨userId, rfl⟩)
    simp [entryOf, getEntry, Peer.rawId, huser]
  | chat chatId =>
    refine hchat chatId ?_ rfl rfl
    rintro userId ⟨⟩
  | channel channelId =>
    refine hchat channelId ?_ rfl rfl
    rintro userId ⟨⟩

theorem ChatInviteLink.parse_eq (P : Parsers U C R O) {users : Dict U} {invite : ExportedChatInvite}
    (hknown : invite.Known users) :
    ∃ link, ChatInviteLink.parse P invite (some users) = .ok link ∧
      linkOf P users invite = .finished link := by
  cases invite with
  | publicJoinRequests => exact ⟨none, rfl, rfl⟩
  | exported revoked permanent requestNeeded link adminId date startDate expireDate usageLimit usage
      requested title =>
    obtain ⟨user, huser⟩ := hknown
    refine ⟨_, ?_, rfl⟩
    simp [ChatInviteLink.parse, getItem, huser]

/-- **An event exposes its payload iff the branch of its action is right.** -/
theorem exposes_iff (P : Parsers U C R O) (antispamUserId : Option ℤ) (event : Event R)
    (users : Dict U)
    (chats : Dict C) (hmember : event.action.HasMember) (hknown : event.action.Known users chats) :
    Exposes P antispamUserId event users chats ↔ event.action.Handled users := by
  obtain ⟨eventId, date, userId, action⟩ := event
  cases action with
  | sendMessage message => exact hmember.elim
  -- the branches that set the variable of another action
  | participantJoinByRequest invite approvedBy =>
    obtain ⟨link, hlink, -⟩ := ChatInviteLink.parse_eq P hknown.1
    refine iff_of_false
      (not_exposes_of_name (by simp only [parseAction, hlink, Except.bind_ok]; rfl) ?_) not_false
    decide
  | changeWallpaper prevValue newValue =>
      exact iff_of_false (not_exposes_of_name rfl (by decide)) not_false
  | changeUsernames prevValue newValue =>
      exact iff_of_false (not_exposes_of_name rfl (by decide)) not_false
  | toggleSignatures newValue => exact iff_of_false (not_exposes_of_name rfl (by decide)) not_false
  | changeEmojiStickerSet prevStickerset newStickerset =>
      exact iff_of_false (not_exposes_of_nothing rfl) not_false
  -- the branches with another value
  | togglePreHistoryHidden newValue =>
    refine iff_of_false (fun h => ?_) not_false
    have hown := (exposes_assign_iff rfl rfl).mp h
    cases newValue <;> cases hown
  | exportedInviteEdit prevInvite newInvite =>
    refine iff_of_false (fun h => ?_) not_false
    have hown := (exposes_assign_iff rfl rfl).mp h
    cases prevInvite <;> cases hown
  | exportedInviteRevoke invite =>
    refine iff_of_false (fun h => ?_) not_false
    have hown := (exposes_assign_iff rfl rfl).mp h
    cases invite <;> cases hown
  | exportedInviteDelete invite =>
    refine iff_of_false (fun h => ?_) not_false
    have hown := (exposes_assign_iff rfl rfl).mp h
    cases invite <;> cases hown
  -- the branches that depend on the values
  | updatePinned message =>
    cases message with
    | message pinned m =>
      refine iff_of_true ?_ ⟨pinned, m, rfl⟩
      cases pinned <;> exact exposes_of_assign rfl rfl rfl
    | service m => exact iff_of_false (not_exposes_of_error rfl) (by rintro ⟨_, _, ⟨⟩⟩)
    | empty m => exact iff_of_false (not_exposes_of_error rfl) (by rintro ⟨_, _, ⟨⟩⟩)
  | editTopic prevTopic newTopic =>
    cases prevTopic with
    | deleted t => exact iff_of_false (not_exposes_of_error rfl) (by rintro ⟨⟨_, _, _, ⟨⟩⟩, -⟩)
    | topic closed hidden t =>
      cases newTopic with
      | deleted t' => exact iff_of_false (not_exposes_of_error rfl) (by rintro ⟨-, _, _, _, ⟨⟩⟩)
      | topic closed' hidden' t' =>
        refine iff_of_true ?_ ⟨⟨closed, hidden, t, rfl⟩, closed', hidden', t', rfl⟩
        cases closed <;> cases closed' <;> cases hidden <;> cases hidden' <;>
          exact exposes_of_assign rfl rfl rfl
  | changePeerColor prevValue newValue =>
    have hshown := and_congr prevValue.shown_iff newValue.shown_iff
    rw [exposes_assign_iff rfl rfl]
    simp only [own, Option.some.injEq, Payload.accentColorChanged.injEq]
    rw [← and_assoc, eq_comm, eq_comm (a := prevValue.backgroundCustomEmojiId),
      eq_comm (a := newValue.accentColor), eq_comm (a := newValue.backgroundCustomEmojiId)]
    exact hshown
  | changeProfilePeerColor prevValue newValue =>
    have hshown := and_congr prevValue.shown_iff newValue.shown_iff
    rw [exposes_assign_iff rfl rfl]
    simp only [own, Option.some.injEq, Payload.profileAccentColorChanged.injEq]
    rw [← and_assoc, eq_comm, eq_comm (a := prevValue.backgroundCustomEmojiId),
      eq_comm (a := newValue.accentColor), eq_comm (a := newValue.backgroundCustomEmojiId)]
    exact hshown
  | participantMute participant =>
    rw [exposes_assign_iff rfl rfl]
    simp only [own, Option.some.injEq, Payload.videoChatParticipantIsMutedToggled.injEq, and_true]
    exact found_iff P hknown
  | participantUnmute participant =>
    rw [exposes_assign_iff rfl rfl]
    simp only [own, Option.some.injEq, Payload.videoChatParticipantIsMutedToggled.injEq, and_true]
    exact found_iff P hknown
  | participantVolume participant =>
    rw [exposes_assign_iff rfl rfl]
    simp only [own, Option.some.injEq, Payload.videoChatParticipantVolumeLevelChanged.injEq,
      and_true]
    exact found_iff P hknown
  -- the branches that use the dicts
  | participantJoinByInvite viaChatlist invite =>
    obtain ⟨link, hlink, hown⟩ := ChatInviteLink.parse_eq P hknown
    refine iff_of_true (exposes_of_assign (by simp only [parseAction, hlink, Except.bind_ok]; rfl)
      rfl ?_) trivial
    simp only [own, hown]
  | participantEditRank user prevRank newRank =>
    obtain ⟨u, hu⟩ := hknown
    refine iff_of_true
      (exposes_of_assign (by simp only [parseAction, getItem, hu, Except.bind_ok]; rfl) rfl ?_)
      trivial
    simp only [own, hu]
  | deleteMessage message =>
    refine iff_of_true (exposes_of_assign rfl rfl ?_) trivial
    cases antispamUserId with
    | none => rfl
    | some n => simp [own, eq_comm]
  | _ => exact iff_of_true (exposes_of_assign rfl rfl rfl) trivial

/-- Parsers that keep the entry of a chat and nothing else. -/
def entryParsers : Parsers Unit Unit Unit (Option (Unit ⊕ Unit)) where
  message _ _ _ := none
  user _ := none
  chat entry := entry
  chatMember _ _ _ := none
  chatReactions _ := none
  chatBackground _ := none
  emojiStatus _ := none
  location _ := none
  chatPermissions _ := none
  photo _ := none
  forumTopic _ _ _ := none
  timestampToDatetime _ := none
  raw entry := entry
  raw_chat _ := rfl

theorem exposes_iff_mute :
    Exposes entryParsers none ⟨1, 1700000000, 7, .participantMute ⟨.channel 5, none⟩⟩
      (fun _ => some ())
        (fun _ => some ()) ↔
      (Action.participantMute ⟨.channel 5, none⟩ : Action Unit).Handled fun _ => some () :=
  exposes_iff entryParsers none ⟨1, 1700000000, 7, .participantMute ⟨.channel 5, none⟩⟩ _ _ trivial
    ⟨.inr (), rfl⟩

/-- User 8 lets user 9 in: the payload is behind `member_joined_by_invite_link`. -/
theorem not_exposes_joinByRequest :
    (Action.participantJoinByRequest .publicJoinRequests 8 : Action Unit).HasMember ∧
      (Action.participantJoinByRequest .publicJoinRequests 8 : Action Unit).Known (fun _ => some ())
        (fun _ => (none : Option Unit)) ∧
      ¬Exposes entryParsers none ⟨1, 1700000000, 9, .participantJoinByRequest .publicJoinRequests 8⟩
        (fun _ => some ()) (fun _ => none) :=
  ⟨trivial, ⟨trivial, (), rfl⟩, not_exposes_of_name rfl (by decide)⟩

end ChatEvent

end Pyrogram.Types
