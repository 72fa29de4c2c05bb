import Pyrogram.Types.Chat

/-!
# What a marked id tells

The marked ids of users, basic groups, channels, monoforums and secret chats lie in intervals of
their own, next to each other, and two functions find the interval with comparisons of their own.

## Main definitions

* `getPeerType`, `getRawPeerIdOf` — the kind and the raw id of a marked id.
* `InRange` — the raw ids of each kind.
* `Classified` — a marked id is taken for what it is.

## Main results

* `getPeerType_eq_ok` — the kind of an id is the interval it lies in, the two zero ids apart.
* `classified_iff` — **all ids are taken for what they are but the two zero ids**.
-/

namespace Pyrogram.Types

def zeroSecretChatId : ℤ := -2000000000000
def maxChannelId : ℤ := 1000000000000 - 2 ^ 31
def minMonoforumChannelId : ℤ := 1000000000000 + 2 ^ 31 + 1
def maxMonoforumChannelId : ℤ := 3000000000000
def maxUserId : ℤ := 2 ^ 40 - 1
def maxChatId : ℤ := 999999999999

/-- What `get_peer_type` returns. -/
inductive PeerKind
  | user
  | chat
  | channel
  | monoforum
  | secretChat
  deriving DecidableEq, Repr

/-- `get_raw_peer_id` of a marked id. -/
def getRawPeerIdOf (peer : ℤ) : Option ℤ :=
  if peer < 0 then
    if -maxChatId ≤ peer then some (-peer)
    else if zeroChannelId - maxChannelId ≤ peer ∧
      peer ≠ zeroChannelId then some (zeroChannelId - peer)
    else if zeroChannelId - maxMonoforumChannelId ≤ peer then some (zeroChannelId - peer)
    else none
  else if 0 < peer ∧ peer ≤ maxUserId then some peer
  else none

def getPeerType (peerId : ℤ) : Except Exc PeerKind :=
  let invalid := .error (.valueError s!"Peer id invalid: {peerId}")
  if peerId < 0 then
    if -maxChatId ≤ peerId then .ok .chat
    else if zeroChannelId - maxChannelId ≤ peerId ∧ peerId ≠ zeroChannelId then .ok .channel
    else if zeroSecretChatId + -2 ^ 31 ≤ peerId ∧ peerId ≠ zeroSecretChatId then .ok .secretChat
    else if zeroChannelId - maxMonoforumChannelId ≤ peerId then .ok .monoforum
    else invalid
  else if 0 < peerId ∧ peerId ≤ maxUserId then .ok .user
  else invalid

/-! ### The kinds -/

/-- The raw peers of a kind that has them. -/
inductive InRange : PeerKind → Peer → Prop
  | user {userId : ℕ+} (hmax : userId ≤ maxUserId) : InRange .user (.user userId)
  | chat {chatId : ℕ+} (hmax : chatId ≤ maxChatId) : InRange .chat (.chat chatId)
  | channel {channelId : ℕ+} (hmax : channelId ≤ maxChannelId) :
      InRange .channel (.channel channelId)
  | monoforum {channelId : ℕ+} (hmin : minMonoforumChannelId ≤ channelId)
      (hmax : channelId ≤ maxMonoforumChannelId) :
      InRange .monoforum (.channel channelId)

/-- The id is one of the kind: the marked id of a raw peer, or that of a secret chat. -/
def PeerKind.Has (kind : PeerKind) (id : ℤ) : Prop :=
  match kind with
  | .secretChat => ∃ n : ℤ, n ≠ 0 ∧ -2 ^ 31 ≤ n ∧ n < 2 ^ 31 ∧ id = zeroSecretChatId + n
  | kind => ∃ peer, InRange kind peer ∧ getPeerId peer = id

/-- **An id is taken for what it is**: for the kind that has it, or for none, and the raw id is
found. -/
structure Classified (id : ℤ) : Prop where
  kind : ∀ kind, getPeerType id = .ok kind ↔ kind.Has id
  raises : (∀ kind : PeerKind, ¬ kind.Has id) →
    getPeerType id = .error (.valueError s!"Peer id invalid: {id}")
  raw : ∀ kind peer, InRange kind peer → getPeerId peer = id →
    getRawPeerIdOf id = some (peer.rawId : ℤ)
  rejected : ∀ e, getPeerType id = .error e → getRawPeerIdOf id = none

/-! ### The intervals -/

/-- The lowest and the highest marked id of a kind. -/
def PeerKind.bounds : PeerKind → ℤ × ℤ
  | user => (1, maxUserId)
  | chat => (-maxChatId, -1)
  | channel => (zeroChannelId - maxChannelId, zeroChannelId - 1)
  | monoforum => (zeroChannelId - maxMonoforumChannelId, zeroChannelId - minMonoforumChannelId)
  | secretChat => (zeroSecretChatId - 2 ^ 31, zeroSecretChatId + (2 ^ 31 - 1))

theorem exists_pnat {n : ℤ} (h : 0 < n) : ∃ k : ℕ+, (k : ℤ) = n :=
  ⟨⟨n.toNat, by omega⟩, Int.toNat_of_nonneg h.le⟩

theorem one_le_cast (k : ℕ+) : (1 : ℤ) ≤ k := by exact_mod_cast k.pos

/-- **A kind has the ids of its interval**, secret chats without the zero. -/
theorem has_iff (kind : PeerKind) (id : ℤ) :
    kind.Has id ↔ kind.bounds.1 ≤ id ∧ id ≤ kind.bounds.2 ∧
      (kind = .secretChat → id ≠ zeroSecretChatId) := by
  -- each kind has its range; only a secret chat leaves its zero out
  cases kind with
  | user =>
    constructor
    · rintro ⟨_, hrange, rfl⟩
      cases hrange with
      | @user userId hmax =>
        exact ⟨one_le_cast userId, hmax, by simp⟩
    · rintro ⟨hmin, hmax, -⟩
      obtain ⟨userId, rfl⟩ := exists_pnat hmin
      exact ⟨_, .user hmax, rfl⟩
  | chat =>
    constructor
    · rintro ⟨_, hrange, rfl⟩
      cases hrange with
      | @chat chatId hmax =>
        exact ⟨Int.neg_le_neg hmax, Int.neg_le_neg (one_le_cast chatId), by simp⟩
    · rintro ⟨hmin, hmax, -⟩
      simp only [PeerKind.bounds] at hmin hmax
      obtain ⟨chatId, hchat⟩ := exists_pnat (show 0 < -id by omega)
      have hid : getPeerId (.chat chatId) = id := by
        rw [getPeerId, hchat, neg_neg]
      exact ⟨_, .chat (by omega), hid⟩
  | channel =>
    constructor
    · rintro ⟨_, hrange, rfl⟩
      cases hrange with
      | @channel channelId hmax =>
        exact ⟨Int.sub_le_sub_left hmax _, Int.sub_le_sub_left (one_le_cast channelId) _, by simp⟩
    · rintro ⟨hmin, hmax, -⟩
      simp only [PeerKind.bounds] at hmin hmax
      obtain ⟨channelId, hchannel⟩ := exists_pnat (show 0 < zeroChannelId - id by omega)
      have hid : getPeerId (.channel channelId) = id := by
        rw [getPeerId, hchannel, sub_sub_cancel]
      exact ⟨_, .channel (by omega), hid⟩
  | monoforum =>
    constructor
    · rintro ⟨_, hrange, rfl⟩
      cases hrange with
      | @monoforum channelId hmin hmax =>
        exact ⟨Int.sub_le_sub_left hmax _, Int.sub_le_sub_left hmin _, by simp⟩
    · rintro ⟨hmin, hmax, -⟩
      simp only [PeerKind.bounds] at hmin hmax
      have hpos : 0 < minMonoforumChannelId := by decide
      obtain ⟨channelId, hchannel⟩ := exists_pnat (show 0 < zeroChannelId - id by omega)
      have hid : getPeerId (.channel channelId) = id := by
        rw [getPeerId, hchannel, sub_sub_cancel]
      exact ⟨_, .monoforum (by omega) (by omega), hid⟩
  | secretChat =>
    simp only [PeerKind.bounds, forall_const]
    constructor
    · rintro ⟨n, hne, hmin, hmax, rfl⟩
      exact ⟨by omega, by omega, by omega⟩
    · rintro ⟨hmin, hmax, hne⟩
      exact ⟨id - zeroSecretChatId, sub_ne_zero.mpr hne, by omega, by omega, by omega⟩

/-- **The kind of an id is the one whose interval it lies in**, unless it is one of the two zero
ids. -/
theorem getPeerType_eq_ok {id : ℤ} (hchannel : id ≠ zeroChannelId) (hsecret : id ≠ zeroSecretChatId)
    (kind : PeerKind) : getPeerType id = .ok kind ↔ kind.bounds.1 ≤ id ∧ id ≤ kind.bounds.2 := by
  unfold getPeerType
  dsimp only
  split_ifs <;> cases kind <;>
    simp only [PeerKind.bounds, Except.ok.injEq, reduceCtorEq, true_iff, false_iff, maxUserId,
      maxChatId, maxChannelId,
      minMonoforumChannelId, maxMonoforumChannelId, zeroChannelId, zeroSecretChatId] at * <;> omega

theorem getRawPeerIdOf_user {id : ℤ} (hpos : 0 < id) (hmax : id ≤ maxUserId) :
    getRawPeerIdOf id = some id := by
  rw [getRawPeerIdOf, if_neg (by omega), if_pos ⟨hpos, hmax⟩]

theorem getRawPeerIdOf_chat {id : ℤ} (hneg : id < 0) (hmin : -maxChatId ≤ id) :
    getRawPeerIdOf id = some (-id) := by
  rw [getRawPeerIdOf, if_pos hneg, if_pos hmin]

/-- Both comparisons for channels lead to the same. -/
theorem getRawPeerIdOf_channel {id : ℤ} (hmax : id < -maxChatId)
    (hmin : zeroChannelId - maxMonoforumChannelId ≤ id) :
    getRawPeerIdOf id = some (zeroChannelId - id) := by
  have hneg : id < 0 := hmax.trans (by decide)
  rw [getRawPeerIdOf, if_pos hneg, if_neg (by omega), if_pos hmin, ite_self]

/-- **The raw id of a marked id** is the one it was marked from. -/
theorem getRawPeerIdOf_getPeerId {kind : PeerKind} {peer : Peer} (h : InRange kind peer) :
    getRawPeerIdOf (getPeerId peer) = some (peer.rawId : ℤ) := by
  have hzero : zeroChannelId - 1 < -maxChatId := by decide
  have hmono : maxChannelId ≤ maxMonoforumChannelId := by decide
  have hpos := one_le_cast peer.rawId
  cases h with
  | user hmax => exact getRawPeerIdOf_user hpos hmax
  | chat hmax =>
    simp only [Peer.rawId] at hpos
    rw [getPeerId, getRawPeerIdOf_chat (by omega) (by omega), neg_neg]
    rfl
  | channel hmax =>
    simp only [Peer.rawId] at hpos
    rw [getPeerId, getRawPeerIdOf_channel (by omega) (by omega), sub_sub_cancel]
    rfl
  | monoforum hmin hmax =>
    simp only [Peer.rawId] at hpos
    rw [getPeerId, getRawPeerIdOf_channel (by omega) (by omega), sub_sub_cancel]
    rfl

/-- **What is no peer has no raw id.** -/
theorem getRawPeerIdOf_of_invalid {id : ℤ} {e : Exc} (h : getPeerType id = .error e) :
    getRawPeerIdOf id = none := by
  have hinvalid : (id < 0 ∧ id < zeroChannelId - maxMonoforumChannelId) ∨
      (¬ id < 0 ∧ ¬ (0 < id ∧ id ≤ maxUserId)) := by
    unfold getPeerType at h
    dsimp only at h
    split_ifs at h <;> omega
  rw [getRawPeerIdOf]
  rcases hinvalid with ⟨hneg, hlt⟩ | ⟨hneg, hmax⟩
  · have hchat : zeroChannelId - maxMonoforumChannelId ≤ -maxChatId := by decide
    have hchannel : maxChannelId ≤ maxMonoforumChannelId := by decide
    rw [if_pos hneg, if_neg (by omega), if_neg (by omega), if_neg (by omega)]
  · rw [if_neg hneg, if_neg hmax]

theorem getPeerType_eq_error {id : ℤ} {e : Exc} (h : getPeerType id = .error e) :
    e = .valueError s!"Peer id invalid: {id}" := by
  unfold getPeerType at h
  dsimp only at h
  split_ifs at h
  · cases h
    rfl
  · cases h
    rfl

theorem getPeerType_zeroChannelId : getPeerType zeroChannelId = .ok .secretChat := by decide

theorem getPeerType_zeroSecretChatId : getPeerType zeroSecretChatId = .ok .monoforum := by decide

theorem not_has_zeroChannelId : ¬ PeerKind.secretChat.Has zeroChannelId := by
  rw [has_iff]
  decide

theorem not_has_zeroSecretChatId : ¬ PeerKind.monoforum.Has zeroSecretChatId := by
  rw [has_iff]
  decide

/-- **All ids are taken for what they are but the two zero ids**: that of channels, which the
comparison for secret chats lets in, and that of secret chats, which the one for monoforums lets
in. -/
theorem classified_iff (id : ℤ) : Classified id ↔ id ≠ zeroChannelId ∧ id ≠ zeroSecretChatId := by
  constructor
  · intro h
    constructor
    · rintro rfl
      exact not_has_zeroChannelId ((h.kind .secretChat).mp getPeerType_zeroChannelId)
    · rintro rfl
      exact not_has_zeroSecretChatId ((h.kind .monoforum).mp getPeerType_zeroSecretChatId)
  · rintro ⟨hchannel, hsecret⟩
    have hkind : ∀ kind, getPeerType id = .ok kind ↔ kind.Has id := by
      intro kind
      rw [getPeerType_eq_ok hchannel hsecret, has_iff]
      simp only [hsecret, ne_eq, not_false_eq_true, implies_true, and_true]
    refine ⟨hkind, ?_, ?_, ?_⟩
    · intro hnone
      cases htype : getPeerType id with
      | ok kind => exact absurd ((hkind kind).mp htype) (hnone kind)
      | error e => rw [getPeerType_eq_error htype]
    · rintro kind peer hrange rfl
      exact getRawPeerIdOf_getPeerId hrange
    · intro e he
      exact getRawPeerIdOf_of_invalid he

/-- The zero id of channels is taken for a secret chat, and that of secret chats for a monoforum. -/
theorem not_classified_zero :
    getPeerType zeroChannelId = .ok .secretChat ∧ getPeerType zeroSecretChatId = .ok .monoforum ∧
      ¬ Classified zeroChannelId ∧ ¬ Classified zeroSecretChatId := by
  refine ⟨getPeerType_zeroChannelId, getPeerType_zeroSecretChatId, ?_, ?_⟩
  · exact fun h => not_has_zeroChannelId ((h.kind .secretChat).mp getPeerType_zeroChannelId)
  · exact fun h => not_has_zeroSecretChatId ((h.kind .monoforum).mp getPeerType_zeroSecretChatId)

end Pyrogram.Types
