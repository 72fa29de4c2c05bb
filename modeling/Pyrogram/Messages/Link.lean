import Pyrogram.Decimal
import Pyrogram.Errors
import Pyrogram.Regex
import Pyrogram.Storage.Peers
import Mathlib

/-!
# The link of a message

`Message.link` writes the chat of a message into a link, by its username or else by its channel
id, and `get_messages` reads such a link with a regular expression.

## Main definitions

* `Strings` — what Python's `str` knows about characters.
* `messageLink`, `getMessages`, `resolvePeer` — the reader.
* `Chat`, `Message`, `Message.link` — the writer.
* `LeadsBack` — the link leads back to its message.
* `Linkable` — the messages of which this is so.

## Main results

* `leadsBack_iff` — **which links lead back.**
-/

namespace Pyrogram.Links

open Decimal Regex

/-! ### Strings -/

/-- The methods of `str`, of which only the ASCII part is known here. -/
structure Strings where
  lower : List Char → List Char
  /-- `\w` -/
  isWord : Char → Bool
  /-- `\s` -/
  isSpace : Char → Bool
  isDigit : Char → Bool
  /-- The value of a `\d`. -/
  decimal : Char → Option ℕ
  lower_ascii : ∀ l : List Char, (∀ c ∈ l, c.toNat < 128) → lower l = l.map Char.toLower
  isWord_ascii : ∀ c : Char, c.toNat < 128 → isWord c = (c.isAlphanum || c = '_')
  isSpace_ascii : ∀ c :
    Char, c.toNat < 128 → isSpace c = decide (9 ≤ c.toNat ∧ c.toNat ≤ 13 ∨ 28 ≤ c.toNat ∧
    c.toNat ≤ 32)
  isDigit_ascii : ∀ c : Char, c.toNat < 128 → isDigit c = c.isDigit
  decimal_ascii : ∀ c :
    Char, c.toNat < 128 → decimal c = if c.isDigit then some (c.toNat - '0'.toNat) else none

/-- Where there is nothing else. -/
def Strings.ascii : Strings where
  lower l := l.map Char.toLower
  isWord c := c.isAlphanum || c = '_'
  isSpace c := decide (9 ≤ c.toNat ∧ c.toNat ≤ 13 ∨ 28 ≤ c.toNat ∧ c.toNat ≤ 32)
  isDigit c := c.isDigit
  decimal c := if c.isDigit then some (c.toNat - '0'.toNat) else none
  lower_ascii _ _ := rfl
  isWord_ascii _ _ := rfl
  isSpace_ascii _ _ := rfl
  isDigit_ascii _ _ := rfl
  decimal_ascii _ _ := rfl

variable (strings : Strings)

/-- `int`, with the digits before. -/
def intFrom (value : ℕ) : List Char → Option ℕ
  | [] => some value
  | '_' :: c :: l => (strings.decimal c).bind fun digit => intFrom (10 * value + digit) l
  | c :: l => (strings.decimal c).bind fun digit => intFrom (10 * value + digit) l

/-- `int` of a string of word characters; `none` is a `ValueError`. -/
def int : List Char → Option ℕ
  | [] => none
  | c :: l => (strings.decimal c).bind fun digit => intFrom strings digit l

/-! ### Reading a link -/

def word : Regex Char := one strings.isWord

def digit : Regex Char := one fun c => (strings.decimal c).isSome

/-- `$` -/
def dollar : Regex Char := look fun l => decide (l = [] ∨ l = ['\n'])

/-- `^(?:https?://)?(?:www\.)?(?:t(?:elegram)?\.(?:org|me|dog)/` -/
def host : Regex Char :=
  seq (opt (seq (lit ['h', 't', 't', 'p']) (seq (opt (lit ['s'])) (lit [':', '/', '/']))))
    (seq (opt (lit ['w', 'w', 'w', '.']))
      (seq (lit ['t']) (seq (opt (lit ['e', 'l', 'e', 'g', 'r', 'a', 'm']))
        (seq (lit ['.']) (seq
          (alt (lit ['o', 'r', 'g']) (alt (lit ['m', 'e']) (lit ['d', 'o', 'g']))) (lit ['/']))))))

/-- `([\w]+)(?:/\d+)*/(\d+)/?$` -/
def path : Regex Char :=
  seq (group 1 (plus (word strings)))
    (seq (star (seq (lit ['/']) (plus (digit strings))))
      (seq (lit ['/']) (seq (group 2 (plus (digit strings))) (seq (opt (lit ['/'])) dollar))))

/-- The regular expression of `get_messages`. -/
def messageLink : Regex Char := seq host (seq (opt (lit ['c', '/'])) (path strings))

/-- `CHANNEL_MESSAGE_LINK_RE` -/
def channelMessageLink : Regex Char :=
  seq host (seq (opt (lit ['c', '/']))
    (seq (group 1 (plus (word strings)))
      (seq (opt (plus (one fun c => decide (c ≠ '\n')))) dollar)))

/-- `match.group` -/
def captured (n : ℕ) (groups : List (ℕ × List Char)) : List Char := (groups.lookup n).getD []

/-- `int | str` -/
inductive ChatId
  | id (id : ℤ)
  | name (name : List Char)
  deriving DecidableEq, Repr

/-- Whom `resolve_peer` looks for, in the storage and then, unless `stored`, at the server. -/
inductive Reference
  | id (id : ℤ)
  | stored (id : ℤ)
  | phone (phone : List Char)
  | username (username : List Char)
  deriving DecidableEq, Repr

inductive Resolved
  | self
  | empty
  | peer (peer : InputPeer)
  deriving DecidableEq, Repr

variable (lookup : Reference → Except Exc InputPeer)

/-- `resolve_peer`, of a client that is connected. -/
def resolvePeer : ChatId → Except Exc Resolved
  | .id id => (lookup (.id id)).map .peer
  | .name name =>
      if name = ['s', 'e', 'l', 'f'] ∨ name = ['m', 'e'] then .ok .self
      else if name = ['e', 'm', 'p', 't', 'y'] then .ok .empty
      else
        let phone := name.filter fun c => !(c ∈ ['+', '(', ')', '-'] || strings.isSpace c)
        if phone ≠ [] ∧ phone.all strings.isDigit then (lookup (.phone phone)).map .peer
        else
          match (channelMessageLink strings).first (strings.lower name) with
          | some groups =>
              match int strings (captured 1 groups) with
              | some n => (lookup (.stored (Peer.getChannelId n))).map .peer
              | none => (lookup (.username (captured 1 groups))).map .peer
          | none =>
              let username := (strings.lower name).filter fun c =>
                !(c ∈ ['@', '+'] || strings.isSpace c)
              if username ≠ [] then (lookup (.username username)).map .peer
              else .error (.other "PeerIdInvalid")

inductive InputMessage
  | id (id : ℤ)
  | replyTo (id : ℤ)
  | pinned
  deriving DecidableEq, Repr

/-- `channels.GetMessages`, `messages.GetMessages` -/
inductive Request
  | channels (channelId : ℤ) (accessHash : Option ℤ) (id : List InputMessage)
  | messages (id : List InputMessage)
  deriving DecidableEq, Repr

def request (ids : List InputMessage) : Resolved → Request
  | .peer (.channel channelId accessHash) => .channels channelId accessHash ids
  | .self | .empty | .peer (.user _ _) | .peer (.chat _) => .messages ids

/-- The `message_ids` of `get_messages`. -/
inductive MessageIds
  | none
  | one (id : ℤ)
  | many (ids : List ℤ)
  | link (link : List Char)
  deriving DecidableEq, Repr

/-- The ids that are given as numbers. -/
def MessageIds.ids : MessageIds → Option (List ℤ)
  | none | link _ => .none
  | one id => some [id]
  | many ids => some ids

/-- The chat and the message that a link names. -/
def readLink (link : List Char) : Except Exc (ChatId × ℕ) :=
  match (messageLink strings).first (strings.lower link) with
  | none => .error (.valueError "Invalid message link.")
  | some groups =>
      let chatId := match int strings (captured 1 groups) with
        | some n => .id (Peer.getChannelId n)
        | none => .name (captured 1 groups)
      match int strings (captured 2 groups) with
      | some id => .ok (chatId, id)
      | none => .error (.valueError "invalid literal for int() with base 10")

/-- `get_messages`, up to what it sends. -/
def getMessages (chatId : Option ChatId) (messageIds : MessageIds) (reply pinned : Bool) :
    Except Exc Request :=
  let inputMessage (id : ℤ) : InputMessage := if reply then .replyTo id else .id id
  match messageIds with
  | .link link => do
      let (chatId, id) ← readLink strings link
      let peer ← resolvePeer strings lookup chatId
      pure (request [inputMessage id] peer)
  | .none | .one _ | .many _ =>
      match chatId with
      | none | some (.id 0) | some (.name []) => .error (.valueError "Invalid chat_id.")
      | some chatId => do
          let ids ←
            if pinned then pure [.pinned]
            else match messageIds.ids with
              | none => .error (.valueError "Invalid message ids.")
              | some ids => pure (ids.map inputMessage)
          let peer ← resolvePeer strings lookup chatId
          pure (request ids peer)

/-! ### Writing a link -/

/-- `enums.ChatType` -/
inductive ChatType
  | user
  | bot
  | group
  | supergroup
  | channel
  | forum
  | direct
  deriving DecidableEq, Repr

/-- The marked ids of the chats of a type: channels are below all others. -/
def Marked (id : ℤ) : ChatType → Prop
  | .user | .bot => 0 < id
  | .group => zeroChannelId < id ∧ id < 0
  | .supergroup | .channel | .forum | .direct => id < zeroChannelId

/-- A letter followed by letters, digits and underscores. -/
structure Username where
  head : Char
  tail : List Char
  isAlpha : head.isAlpha = true
  isWord : ∀ c ∈ tail, (c.isAlphanum || c = '_') = true

def Username.name (username : Username) : List Char := username.head :: username.tail

structure Chat where
  type : ChatType
  id : ℤ
  username : Option Username
  marked : Marked id type

structure Message where
  id : ℕ
  chat : Chat
  messageThreadId : Option ℕ

/-- The thread, where it is not zero. -/
def Message.thread (m : Message) : Option ℕ := m.messageThreadId.filter (· ≠ 0)

/-- `Message.link` -/
def Message.link (m : Message) : List Char :=
  if m.chat.type = .user ∨ m.chat.type = .bot then []
  else
    let chat := match m.chat.username with
      | some username => username.name
      | none => ['c', '/'] ++ format (Peer.getChannelId m.chat.id)
    let thread := match m.thread with
      | some thread => '/' :: format thread
      | none => []
    ['h', 't', 't', 'p', 's', ':', '/', '/', 't', '.', 'm', 'e', '/'] ++ chat ++ thread ++
      '/' :: format m.id

/-! ### Back again -/

/-- The chat whose username is this one, or that has this id. -/
def Chat.reference (chat : Chat) : Reference :=
  match chat.username with
  | some username => .username (username.name.map Char.toLower)
  | none => .id chat.id

/-- **The link leads back**: it is empty, or with it `get_messages` asks for this message of this
chat, whatever is known of its peer. -/
def LeadsBack (m : Message) : Prop :=
  m.link = [] ∨ ∀ lookup : Reference → Except Exc InputPeer,
    getMessages strings lookup none (.link m.link) false false =
      (lookup m.chat.reference).map fun peer => request [.id m.id] (.peer peer)

/-- **The messages with links that lead back**: a chat without a username is a channel, and a
username is not read as something else. -/
def Linkable (m : Message) : Prop :=
  m.chat.type = .user ∨ m.chat.type = .bot ∨
    match m.chat.username with
    | none => m.chat.type ≠ .group
    | some username =>
        username.name.map Char.toLower ∉
          [['s', 'e', 'l', 'f'], ['m', 'e'], ['e', 'm', 'p', 't', 'y']] ∧
        (username.name.map Char.toLower = ['c'] → m.thread = none)

/-! ### Characters -/

/-- What is to be checked of ASCII is checked of its 128 characters. -/
theorem ascii_forall {P : Char → Prop} (h : ∀ n < 128, P (Char.ofNat n)) {c : Char}
    (hc : c.toNat < 128) : P c := by
  have hP := h c.toNat hc
  rwa [Char.ofNat_toNat] at hP

theorem lt_of_isDigit {c : Char} (h : c.isDigit = true) : c.toNat < 128 := by
  have hle := (Char.isDigit_iff_toNat.mp h).2
  have hnine : '9'.toNat = 57 := rfl
  omega

theorem lt_of_isWord {c : Char} (h : (c.isAlphanum || c = '_') = true) : c.toNat < 128 := by
  simp only [Char.isAlphanum, Char.isAlpha, Char.isUpper, Char.isLower, Char.isDigit,
    Bool.or_eq_true, Bool.and_eq_true, decide_eq_true_eq, ge_iff_le, UInt32.le_iff_toNat_le] at h
  rcases h with ((⟨-, h⟩ | ⟨-, h⟩) | ⟨-, h⟩) | rfl
  · exact lt_of_le_of_lt h (by decide)
  · exact lt_of_le_of_lt h (by decide)
  · exact lt_of_le_of_lt h (by decide)
  · decide

variable {strings}

theorem decimal_of_isDigit {c : Char} (h : c.isDigit = true) :
    strings.decimal c = some (c.toNat - '0'.toNat) := by
  rw [strings.decimal_ascii c (lt_of_isDigit h), if_pos h]

theorem isWord_of_isDigit {c : Char} (h : c.isDigit = true) : strings.isWord c = true := by
  rw [strings.isWord_ascii c (lt_of_isDigit h), Char.isAlphanum, h]
  simp

theorem not_isWord_slash : strings.isWord '/' = false := strings.isWord_ascii '/' (by decide)

theorem decimal_slash : strings.decimal '/' = none := strings.decimal_ascii '/' (by decide)

theorem decimal_minus : strings.decimal '-' = none := strings.decimal_ascii '-' (by decide)

/-! ### Numbers -/

theorem intFrom_of_digits (value : ℕ) {l : List Char} (h : ∀ c ∈ l, c.isDigit = true) :
    intFrom strings value l = some (Nat.ofDigitChars 10 l value) := by
  induction l generalizing value with
  | nil => rw [intFrom, Nat.ofDigitChars_nil]
  | cons c l ih =>
    rw [List.forall_mem_cons] at h
    have hne : c ≠ '_' := by
      rintro rfl
      cases h.1
    rw [intFrom, decimal_of_isDigit h.1, Option.bind_some, ih _ h.2, Nat.ofDigitChars_cons]
    intro c' l' heq
    exact absurd heq hne

/-- **A number is read back.** -/
theorem int_toDigits (n : ℕ) : int strings (Nat.toDigits 10 n) = some n := by
  have hdigits : ∀ c ∈ Nat.toDigits 10 n, c.isDigit = true := fun c hc =>
    Nat.isDigit_of_mem_toDigits (by decide) (by decide) hc
  cases hl : Nat.toDigits 10 n with
  | nil => exact absurd hl Nat.toDigits_ne_nil
  | cons c l =>
    rw [hl, List.forall_mem_cons] at hdigits
    rw [int, decimal_of_isDigit hdigits.1, Option.bind_some, intFrom_of_digits _ hdigits.2]
    have hvalue := Nat.ofDigitChars_toDigits (b := 10) (n := n) (by decide) le_rfl
    rw [hl, Nat.ofDigitChars_cons] at hvalue
    rw [← hvalue, Nat.mul_zero, Nat.zero_add]

/-! ### The path of a link -/

section Path

/-- The segment of a thread. -/
def segment : Option ℕ → List Char
  | some thread => '/' :: Nat.toDigits 10 thread
  | none => []

theorem slash_notMem_of_isWord {w : List Char} (h : ∀ c ∈ w, strings.isWord c = true) :
    '/' ∉ w := by
  intro hmem
  cases not_isWord_slash.symm.trans (h '/' hmem)

theorem slash_notMem_of_decimal {w : List Char} (h : ∀ c ∈ w, (strings.decimal c).isSome = true) :
    '/' ∉ w := by
  intro hmem
  have hsome := h '/' hmem
  rw [decimal_slash] at hsome
  cases hsome

theorem slash_notMem_toDigits (n : ℕ) : '/' ∉ Nat.toDigits 10 n :=
  fun h => absurd (isDigit_toDigits h) (by decide)

/-- What the segments of numbers match, and a slash after them, begins with a slash. -/
theorem slash_of_mem_run {s u t : Regex.State Char}
    (hu : u ∈ (star (seq (lit ['/']) (plus (digit strings)))).run s)
    (ht : t ∈ (lit ['/']).run u) : ∃ l, s.1 = '/' :: l := by
  rcases mem_run_star.mp hu with ⟨v, hv, -⟩ | rfl
  · obtain ⟨v', hv', -⟩ := mem_run_seq.mp hv
    exact ⟨v'.1, (mem_run_lit.mp hv').1⟩
  · exact ⟨t.1, (mem_run_lit.mp ht).1⟩

/-- What comes before the first slash. -/
theorem eq_of_slash {w w' l l' : List Char} (h : '/' ∉ w) (h' : '/' ∉ w')
    (heq : w ++ '/' :: l = w' ++ '/' :: l') :
    w = w' := by
  have htake := congrArg (List.takeWhile (· ≠ '/')) heq
  rwa [List.takeWhile_append_of_pos, List.takeWhile_append_of_pos, List.takeWhile_cons_of_neg
    (by simp),
    List.takeWhile_cons_of_neg (by simp), List.append_nil, List.append_nil] at htake
  · intro c hc
    simpa using fun heq : c = '/' => h' (heq ▸ hc)
  · intro c hc
    simpa using fun heq : c = '/' => h (heq ▸ hc)

/-- The number in front of the end is the last one. -/
theorem eq_of_last {l last d rest : List Char} {before : List Char} (hlast : last ≠ [])
    (hdigits : ∀ c ∈ last, c.isDigit = true) (hl : l ++ '/' :: last = before ++ '/' :: (d ++ rest))
    (hd : ∀ c ∈ d, (strings.decimal c).isSome = true) (hrest : ∀ c ∈ rest, c = '/' ∨ c = '\n') :
    last = d := by
  have hnil : rest = [] := by
    by_contra hne
    have hend := congrArg List.getLast? hl
    rw [List.getLast?_append_of_ne_nil _ (List.cons_ne_nil _ _), List.getLast?_cons_of_ne_nil hlast,
      List.getLast?_append_of_ne_nil _ (List.cons_ne_nil _ _),
      List.getLast?_cons_of_ne_nil (List.append_ne_nil_of_right_ne_nil d hne),
      List.getLast?_append_of_ne_nil _ hne, List.getLast?_eq_some_getLast hne] at hend
    have hdigit := hdigits _ (List.mem_of_getLast? hend)
    rcases hrest _ (List.getLast_mem hne) with h | h
    · rw [h] at hdigit; cases hdigit
    · rw [h] at hdigit; cases hdigit
  rw [hnil, List.append_nil] at hl
  have hreverse := congrArg List.reverse hl
  rw [List.reverse_append, List.reverse_append, List.reverse_cons, List.reverse_cons,
    List.append_assoc, List.append_assoc, List.singleton_append, List.singleton_append] at hreverse
  have hlast' : '/' ∉ last.reverse := fun h =>
    absurd (hdigits '/' (List.mem_reverse.mp h)) (by decide)
  have hd' : '/' ∉ d.reverse := fun h => slash_notMem_of_decimal hd (List.mem_reverse.mp h)
  exact List.reverse_injective (eq_of_slash hlast' hd' hreverse)

/-- **What the path captures**: the word, and the last number. -/
theorem groups_of_mem_path {w before last rest : List Char} {t : Regex.State Char}
    {g : List (ℕ × List Char)}
    (hw : '/' ∉ w) (hrest : before ++ '/' :: last = '/' :: rest) (hlast : last ≠ [])
    (hdigits : ∀ c ∈ last, c.isDigit = true)
    (h : t ∈ (path strings).run (w ++ (before ++ '/' :: last), g)) :
    t.2 = (2, last) :: (1, w) :: g := by
  obtain ⟨u₁, hu₁, h⟩ := mem_run_seq.mp h
  obtain ⟨u₂, hu₂, h⟩ := mem_run_seq.mp h
  obtain ⟨u₃, hu₃, h⟩ := mem_run_seq.mp h
  obtain ⟨u₄, hu₄, h⟩ := mem_run_seq.mp h
  obtain ⟨u₅, hu₅, h⟩ := mem_run_seq.mp h
  obtain ⟨w', g₁, hw', hword, hgroup₁⟩ := mem_run_group_iff.mp hu₁
  obtain ⟨w'', -, hw'', hall, (hg₁ : g₁ = g)⟩ := mem_run_plus_one.mp hword
  obtain rfl : w' = w'' := List.append_cancel_right (hw'.symm.trans hw'')
  -- the word ends at the first slash
  obtain ⟨l, hl⟩ := slash_of_mem_run hu₂ hu₃
  obtain rfl : w = w' := by
    rw [hrest, hl] at hw'
    exact eq_of_slash hw (slash_notMem_of_isWord hall) hw'
  -- and the last number comes after the last one
  obtain ⟨d, g₂, hd, hdigit, hgroup₂⟩ := mem_run_group_iff.mp hu₄
  obtain ⟨d', -, hd', halld, (hg₂ : g₂ = u₃.2)⟩ := mem_run_plus_one.mp hdigit
  obtain rfl : d = d' := List.append_cancel_right (hd.symm.trans hd')
  obtain ⟨hslash, hu₃⟩ := mem_run_lit.mp hu₃
  obtain ⟨taken, htaken⟩ := suffix_of_mem_run hu₂
  obtain ⟨hdollar, rfl⟩ := mem_run_look.mp h
  have hend : t.1 = [] ∨ t.1 = ['\n'] := of_decide_eq_true hdollar
  have hleft : ∀ c ∈ u₄.1, c = '/' ∨ c = '\n' := by
    intro c hc
    have hin : ∀ {c : Char}, c ∈ t.1 → c = '\n' := by
      intro c hc
      rcases hend with hend | hend
      · rw [hend] at hc; cases hc
      · rw [hend] at hc; exact List.mem_singleton.mp hc
    rcases mem_run_opt.mp hu₅ with hu₅ | rfl
    · rw [(mem_run_lit.mp hu₅).1, List.mem_append, List.mem_singleton] at hc
      exact hc.imp_right hin
    · exact .inr (hin hc)
  have hinput : (w ++ before) ++ '/' :: last = (w ++ taken) ++ '/' :: (d ++ u₄.1) := by
    rw [← hd, List.append_assoc, List.append_assoc, ← List.singleton_append (l := u₃.1),
      ← hslash, htaken]
    exact hw'
  obtain rfl := eq_of_last hlast hdigits hinput halld hleft
  have hopt : t.2 = u₄.2 := groups_of_plain (r := opt (lit ['/'])) rfl hu₅
  have hstar : u₂.2 = u₁.2 :=
    groups_of_plain (r := star (seq (lit ['/']) (plus (digit strings)))) rfl hu₂
  rw [hopt, hgroup₂, hg₂, hu₃, hstar, hgroup₁, hg₁]

theorem decimal_toDigits {n : ℕ} : ∀ c ∈ Nat.toDigits 10 n, (strings.decimal c).isSome = true := by
  intro c hc
  rw [decimal_of_isDigit (isDigit_toDigits hc)]
  rfl

/-- The path matches a word with a thread and a message. -/
theorem exists_mem_path {w : List Char} (thread : Option ℕ) (n : ℕ) (g : List (ℕ × List Char))
    (hne : w ≠ [])
    (hall : ∀ c ∈ w, strings.isWord c = true) :
    ∃ t, t ∈ (path strings).run (w ++ (segment thread ++ '/' :: Nat.toDigits 10 n), g) := by
  -- the expression part by part, from the word to the end of the link
  have hstar : ('/' :: Nat.toDigits 10 n, (1, w) :: g) ∈
    (star (seq (lit ['/']) (plus (digit strings)))).run
      (segment thread ++ '/' :: Nat.toDigits 10 n, (1, w) :: g) := by
    cases thread with
    | none => exact mem_run_star_self
    | some thread =>
      have hthread : ('/' :: Nat.toDigits 10 n, (1, w) :: g) ∈
        (seq (lit ['/']) (plus (digit strings))).run
          (segment (some thread) ++ '/' :: Nat.toDigits 10 n, (1, w) :: g) :=
        mem_run_seq.mpr ⟨(Nat.toDigits 10 thread ++ '/' :: Nat.toDigits 10 n, _),
          mem_run_lit.mpr ⟨rfl, rfl⟩,
          mem_run_plus_one.mpr ⟨_, Nat.toDigits_ne_nil, rfl, decimal_toDigits, rfl⟩⟩
      refine mem_run_star.mpr (.inl ⟨_, hthread, ?_, mem_run_star_self⟩)
      simp only [segment, List.cons_append, List.length_cons, List.length_append]
      omega
  have hword : (segment thread ++ '/' :: Nat.toDigits 10 n, (1, w) :: g) ∈
    (group 1 (plus (word strings))).run
      (w ++ (segment thread ++ '/' :: Nat.toDigits 10 n), g) :=
    mem_run_group_iff.mpr ⟨w, g, rfl, mem_run_plus_one.mpr ⟨w, hne, rfl, hall, rfl⟩, rfl⟩
  have hnumber : ([], (2, Nat.toDigits 10 n) :: (1, w) :: g) ∈ (group 2 (plus (digit strings))).run
      (Nat.toDigits 10 n, (1, w) :: g) :=
    mem_run_group_iff.mpr ⟨_, _, (List.append_nil _).symm,
      mem_run_plus_one.mpr ⟨_, Nat.toDigits_ne_nil, (List.append_nil _).symm, decimal_toDigits,
        rfl⟩, rfl⟩
  have hdollar : ([], (2, Nat.toDigits 10 n) :: (1, w) :: g) ∈
      dollar.run ([], (2, Nat.toDigits 10 n) :: (1, w) :: g) :=
    mem_run_look.mpr ⟨rfl, rfl⟩
  have hslash : (Nat.toDigits 10 n, (1, w) :: g) ∈
      (lit ['/']).run ('/' :: Nat.toDigits 10 n, (1, w) :: g) :=
    mem_run_lit.mpr ⟨rfl, rfl⟩
  exact ⟨_, mem_run_seq.mpr ⟨_, hword, mem_run_seq.mpr ⟨_, hstar, mem_run_seq.mpr ⟨_, hslash,
    mem_run_seq.mpr ⟨_, hnumber, mem_run_seq.mpr ⟨_, mem_run_opt.mpr (.inr rfl), hdollar⟩⟩⟩⟩⟩⟩

/-- What a path matches has a slash. -/
theorem slash_mem_of_mem_path {s t : Regex.State Char} (h : t ∈ (path strings).run s) :
    '/' ∈ s.1 := by
  obtain ⟨u₁, hu₁, h⟩ := mem_run_seq.mp h
  obtain ⟨u₂, hu₂, h⟩ := mem_run_seq.mp h
  obtain ⟨u₃, hu₃, -⟩ := mem_run_seq.mp h
  have hslash : '/' ∈ u₂.1 := by
    rw [(mem_run_lit.mp hu₃).1]
    exact List.mem_cons_self
  exact (suffix_of_mem_run hu₁).mem ((suffix_of_mem_run hu₂).mem hslash)

end Path

/-! ### The whole link -/

/-- What is written before the chat. -/
def site : List Char := ['h', 't', 't', 'p', 's', ':', '/', '/', 't', '.', 'm', 'e', '/']

/-- The site is read in one way. -/
theorem run_host (l : List Char) (g : List (ℕ × List Char)) :
    host.run (site ++ l, g) = [(l, g)] := by
  simp [host, site, opt, lit, run]

theorem run_messageLink (l : List Char) :
    (messageLink strings).run (site ++ l, []) =
      ((lit ['c', '/']).run (l, [])).flatMap (path strings).run ++ (path strings).run (l, []) := by
  rw [messageLink, run, run_host, List.flatMap_singleton, run, opt, run, List.flatMap_append, run,
    List.flatMap_singleton]

/-- A path of a word, a thread and a message. -/
def pathOf (w : List Char) (thread : Option ℕ) (n : ℕ) : List Char :=
  w ++ (segment thread ++ '/' :: Nat.toDigits 10 n)

/-- The groups that it should give. -/
def groupsOf (w : List Char) (n : ℕ) : List (ℕ × List Char) := [(2, Nat.toDigits 10 n), (1, w)]

theorem exists_segment (thread : Option ℕ) (n : ℕ) :
    ∃ rest, segment thread ++ '/' :: Nat.toDigits 10 n = '/' :: rest := by
  cases thread with
  | none => exact ⟨_, rfl⟩
  | some thread => exact ⟨_, rfl⟩

theorem groups_of_mem_pathOf {w : List Char} {thread : Option ℕ} {n : ℕ} {t : Regex.State Char}
    (hw : '/' ∉ w)
    (h : t ∈ (path strings).run (pathOf w thread n, [])) : t.2 = groupsOf w n := by
  obtain ⟨rest, hrest⟩ := exists_segment thread n
  exact groups_of_mem_path hw hrest Nat.toDigits_ne_nil (fun c hc => isDigit_toDigits hc) h

/-- After `c/`, a number is read first. -/
theorem first_number (w : List Char) (thread : Option ℕ) (n : ℕ) (hne : w ≠ [])
    (hall : ∀ c ∈ w, strings.isWord c = true) :
    (messageLink strings).first (site ++ 'c' :: '/' :: pathOf w thread n) =
      some (groupsOf w n) := by
  have hrun : ((lit ['c', '/']).run ('c' :: '/' :: pathOf w thread n, [])) =
      [(pathOf w thread n, [])] := rfl
  obtain ⟨t, ht⟩ := exists_mem_path thread n [] hne hall
  have hne' : (path strings).run (pathOf w thread n, []) ≠ [] := List.ne_nil_of_mem ht
  rw [first, run_messageLink, hrun, List.flatMap_singleton, List.head?_append_of_ne_nil _ hne',
    List.head?_eq_some_head hne', Option.map_some,
    groups_of_mem_pathOf (slash_notMem_of_isWord hall) (List.head_mem hne')]

/-- A word is read, unless it is a `c` before a thread. -/
theorem first_word (w : List Char) (thread : Option ℕ) (n : ℕ) (hne : w ≠ [])
    (hall : ∀ c ∈ w, strings.isWord c = true) (hc : w = ['c'] → thread = none) :
    (messageLink strings).first (site ++ pathOf w thread n) = some (groupsOf w n) := by
  have hslash := slash_notMem_of_isWord hall
  obtain ⟨t, ht⟩ := exists_mem_path thread n [] hne hall
  refine first_eq_some ⟨t, ?_⟩ fun t ht => ?_
  · rw [run_messageLink]
    exact List.mem_append_right _ ht
  · rw [run_messageLink, List.mem_append] at ht
    rcases ht with ht | ht
    · -- `c/` before the word leaves only the number of the message
      exfalso
      obtain ⟨u, hu, hafter⟩ := List.mem_flatMap.mp ht
      obtain ⟨hl, -⟩ := mem_run_lit.mp hu
      have hw : w = ['c'] := by
        obtain ⟨rest, hrest⟩ := exists_segment thread n
        have hpath : w ++ '/' :: rest = ['c'] ++ '/' :: u.1 := by
          rw [← hrest]
          exact hl
        exact eq_of_slash hslash (by decide) hpath
      rw [hw, hc hw] at hl
      have hpath : pathOf ['c'] none n = ['c', '/'] ++ Nat.toDigits 10 n := rfl
      rw [hpath] at hl
      have hnumber : Nat.toDigits 10 n = u.1 := List.append_cancel_left hl
      have hmem : '/' ∈ u.1 := slash_mem_of_mem_path hafter
      rw [← hnumber] at hmem
      exact slash_notMem_toDigits n hmem
    · exact groups_of_mem_pathOf hslash ht

/-- A negative number is not read. -/
theorem first_negative (l : List Char) :
    (messageLink strings).first (site ++ 'c' :: '/' :: '-' :: l) = none := by
  have hminus : strings.isWord '-' = false := strings.isWord_ascii '-' (by decide)
  refine first_eq_none fun t ht => ?_
  rw [run_messageLink, List.mem_append] at ht
  rcases ht with ht | ht
  · -- there is no word
    obtain ⟨u, hu, ht⟩ := List.mem_flatMap.mp ht
    obtain ⟨v, hv, -⟩ := mem_run_seq.mp ht
    have hl : '-' :: l = u.1 := (List.cons.inj (List.cons.inj (mem_run_lit.mp hu).1).2).2
    obtain ⟨w, _, -, hword, -⟩ := mem_run_group_iff.mp hv
    obtain ⟨w, hne, hw, hall, -⟩ := mem_run_plus_one.mp hword
    cases w with
    | nil => exact hne rfl
    | cons c w =>
      rw [← hl] at hw
      obtain rfl := (List.cons.inj hw).1
      cases hminus.symm.trans (hall '-' List.mem_cons_self)
  · -- the word is the `c`, and no number follows
    obtain ⟨u₁, hu₁, ht⟩ := mem_run_seq.mp ht
    obtain ⟨u₂, hu₂, ht⟩ := mem_run_seq.mp ht
    obtain ⟨u₃, hu₃, ht⟩ := mem_run_seq.mp ht
    obtain ⟨u₄, hu₄, -⟩ := mem_run_seq.mp ht
    obtain ⟨w, g₁, hw, hword, -⟩ := mem_run_group_iff.mp hu₁
    obtain ⟨w', -, hw', hall, -⟩ := mem_run_plus_one.mp hword
    obtain rfl : w = w' := List.append_cancel_right (hw.symm.trans hw')
    obtain ⟨l', hl'⟩ := slash_of_mem_run hu₂ hu₃
    -- nothing but the `c` can be taken before the slash
    have hc : ['c'] = w := by
      have hinput : ['c'] ++ '/' :: '-' :: l = w ++ '/' :: l' := by
        rw [← hl']
        exact hw
      exact eq_of_slash (by decide) (slash_notMem_of_isWord hall) hinput
    subst hc
    have hu₁ : u₁.1 = ['/'] ++ '-' :: l := (List.cons.inj hw).2.symm
    have hdigit : ∀ {s t : Regex.State Char}, s.1 = '-' :: l →
        t ∉ (plus (digit strings)).run s := by
      intro s t hs h
      obtain ⟨d, hne, hd, hall, -⟩ := mem_run_plus_one.mp h
      cases d with
      | nil => exact hne rfl
      | cons c d =>
        rw [hs] at hd
        obtain rfl := (List.cons.inj hd).1
        have hsome := hall '-' List.mem_cons_self
        rw [decimal_minus] at hsome
        cases hsome
    rcases mem_run_star.mp hu₂ with ⟨v, hv, -⟩ | rfl
    · obtain ⟨v', hv', hv⟩ := mem_run_seq.mp hv
      exact hdigit (List.append_cancel_left ((mem_run_lit.mp hv').1.symm.trans hu₁)) hv
    · obtain ⟨d, _, -, hu₄, -⟩ := mem_run_group_iff.mp hu₄
      exact hdigit (List.append_cancel_left ((mem_run_lit.mp hu₃).1.symm.trans hu₁)) hu₄

/-! ### What is read -/

theorem isDigit_eq_false {c : Char} (hc : c.isAlpha = true) : c.isDigit = false := by
  have hword : (c.isAlphanum || c = '_') = true := by simp [Char.isAlphanum, hc]
  refine ascii_forall (P := fun c => c.isAlpha = true → c.isDigit = false) ?_
    (lt_of_isWord hword) hc
  decide

variable (strings) in
/-- A name is not a number. -/
theorem int_name (l : List Char) {c : Char} (hc : c.isAlpha = true) :
    int strings (c :: l) = none := by
  have hword : (c.isAlphanum || c = '_') = true := by simp [Char.isAlphanum, hc]
  rw [int, strings.decimal_ascii c (lt_of_isWord hword), isDigit_eq_false hc]
  rfl

/-- Lower case letters are characters of words. -/
theorem ascii_toLower {c : Char} (h : (c.isAlphanum || c = '_') = true) :
    c.toLower.toNat < 128 ∧ (c.toLower.isAlphanum || c.toLower = '_') = true := by
  refine ascii_forall (P := fun c => (c.isAlphanum || c = '_') = true →
    c.toLower.toNat < 128 ∧ (c.toLower.isAlphanum || c.toLower = '_') = true) ?_ (lt_of_isWord h) h
  decide

theorem isWord_toLower {c : Char} (h : (c.isAlphanum || c = '_') = true) :
    strings.isWord c.toLower = true := by
  rw [strings.isWord_ascii _ (ascii_toLower h).1, (ascii_toLower h).2]

theorem isAlpha_toLower {c : Char} (h : c.isAlpha = true) : c.toLower.isAlpha = true := by
  have hword : (c.isAlphanum || c = '_') = true := by simp [Char.isAlphanum, h]
  refine ascii_forall (P := fun c => c.isAlpha = true → c.toLower.isAlpha = true) ?_
    (lt_of_isWord hword) h
  decide

theorem toLower_of_isDigit {c : Char} (h : c.isDigit = true) : c.toLower = c := by
  refine ascii_forall (P := fun c => c.isDigit = true → c.toLower = c) ?_ (lt_of_isDigit h) h
  decide

theorem toLower_toLower {c : Char} (h : (c.isAlphanum || c = '_') = true) :
    c.toLower.toLower = c.toLower := by
  refine ascii_forall (P := fun c => c.toLower.toLower = c.toLower) ?_ (lt_of_isWord h)
  decide

theorem lt_toDigits {n : ℕ} {c : Char} (h : c ∈ Nat.toDigits 10 n) : c.toNat < 128 :=
  lt_of_isDigit (isDigit_toDigits h)

theorem map_toLower_toDigits (n : ℕ) :
    (Nat.toDigits 10 n).map Char.toLower = Nat.toDigits 10 n := by
  have hid : (Nat.toDigits 10 n).map Char.toLower = (Nat.toDigits 10 n).map id :=
    List.map_congr_left fun c hc => toLower_of_isDigit (isDigit_toDigits hc)
  rw [hid, List.map_id]

theorem map_toLower_segment (thread : Option ℕ) :
    (segment thread).map Char.toLower = segment thread := by
  cases thread with
  | none => rfl
  | some thread => rw [segment, List.map_cons, map_toLower_toDigits]; rfl

/-- A link in lower case. -/
theorem lower_site {w : List Char} (thread : Option ℕ) (n : ℕ) (hw : ∀ c ∈ w, c.toNat < 128) :
    strings.lower (site ++ pathOf w thread n) = site ++ pathOf (w.map Char.toLower) thread n := by
  have hsegment : ∀ c ∈ segment thread, c.toNat < 128 := by
    intro c hc
    cases thread with
    | none => cases hc
    | some thread =>
      rcases List.mem_cons.mp hc with rfl | hc
      · decide
      · exact lt_toDigits hc
  have hascii : ∀ c ∈ site ++ pathOf w thread n, c.toNat < 128 := by
    intro c hc
    rw [pathOf, List.mem_append, List.mem_append, List.mem_append, List.mem_cons] at hc
    have hpre : ∀ c ∈ site, c.toNat < 128 := by simp [site]
    rcases hc with hc | hc | hc | rfl | hc
    · exact hpre c hc
    · exact hw c hc
    · exact hsegment c hc
    · decide
    · exact lt_toDigits hc
  have hsite : site.map Char.toLower = site := by decide
  rw [strings.lower_ascii _ hascii, pathOf, pathOf, List.map_append, List.map_append,
    List.map_append, List.map_cons,
    hsite, map_toLower_segment, map_toLower_toDigits]
  rfl

theorem captured_groupsOf (w : List Char) (n : ℕ) :
    captured 1 (groupsOf w n) = w ∧ captured 2 (groupsOf w n) = Nat.toDigits 10 n := ⟨rfl, rfl⟩

/-- A name is read. -/
theorem readLink_name {c : Char} {l : List Char} {thread : Option ℕ} (n : ℕ) (hc : c.isAlpha = true)
    (hl : ∀ d ∈ l, (d.isAlphanum || d = '_') = true)
    (hthread : (c :: l).map Char.toLower = ['c'] → thread = none) :
    readLink strings (site ++ pathOf (c :: l) thread n) =
      .ok (.name ((c :: l).map Char.toLower), n) := by
  have hword : ∀ d ∈ c :: l, (d.isAlphanum || d = '_') = true :=
    List.forall_mem_cons.mpr ⟨by simp [Char.isAlphanum, hc], hl⟩
  have hall : ∀ d ∈ (c :: l).map Char.toLower, strings.isWord d = true := by
    intro d hd
    obtain ⟨e, he, rfl⟩ := List.mem_map.mp hd
    exact isWord_toLower (hword e he)
  rw [readLink, lower_site thread n fun d hd => lt_of_isWord (hword d hd),
    first_word ((c :: l).map Char.toLower) thread n (List.cons_ne_nil _ _) hall hthread]
  simp only [(captured_groupsOf _ n).1, (captured_groupsOf _ n).2, int_toDigits, List.map_cons,
    int_name strings _ (isAlpha_toLower hc)]

/-- A number after `c/` is read. -/
theorem readLink_number (k : ℕ) (thread : Option ℕ) (n : ℕ) :
    readLink strings (site ++ pathOf (['c', '/'] ++ Nat.toDigits 10 k) thread n) =
      .ok (.id (Peer.getChannelId k), n) := by
  have hascii : ∀ d ∈ ['c', '/'] ++ Nat.toDigits 10 k, d.toNat < 128 := by
    intro d hd
    have hpre : ∀ d ∈ ['c', '/'], d.toNat < 128 := by simp
    rcases List.mem_append.mp hd with hd | hd
    · exact hpre d hd
    · exact lt_toDigits hd
  have hmap : (['c', '/'] ++ Nat.toDigits 10 k).map Char.toLower = ['c', '/'] ++
      Nat.toDigits 10 k := by
    rw [List.map_append, map_toLower_toDigits]
    rfl
  have hpath : pathOf (['c', '/'] ++ Nat.toDigits 10 k) thread n =
      'c' :: '/' :: pathOf (Nat.toDigits 10 k) thread n :=
    List.append_assoc _ _ _
  rw [readLink, lower_site thread n hascii, hmap, hpath,
    first_number _ thread n Nat.toDigits_ne_nil fun d hd => isWord_of_isDigit (isDigit_toDigits hd)]
  simp only [(captured_groupsOf _ n).1, (captured_groupsOf _ n).2, int_toDigits]

/-- The thread after a `c` is read as well. -/
theorem readLink_thread {w : List Char} (thread n : ℕ) (hascii : ∀ d ∈ w, d.toNat < 128)
    (hw : w.map Char.toLower = ['c']) :
    readLink strings (site ++ pathOf w (some thread) n) =
      .ok (.id (Peer.getChannelId thread), n) := by
  have hpath : pathOf ['c'] (some thread) n =
      'c' :: '/' :: pathOf (Nat.toDigits 10 thread) none n := rfl
  rw [readLink, lower_site _ n hascii, hw, hpath,
    first_number _ none n Nat.toDigits_ne_nil fun d hd => isWord_of_isDigit (isDigit_toDigits hd)]
  simp only [(captured_groupsOf _ n).1, (captured_groupsOf _ n).2, int_toDigits]

/-- A negative number after `c/` is no link. -/
theorem readLink_negative (k : ℕ) (thread : Option ℕ) (n : ℕ) :
    readLink strings (site ++ pathOf (['c', '/', '-'] ++ Nat.toDigits 10 k) thread n) =
      .error (.valueError "Invalid message link.") := by
  have hascii : ∀ d ∈ ['c', '/', '-'] ++ Nat.toDigits 10 k, d.toNat < 128 := by
    intro d hd
    have hpre : ∀ d ∈ ['c', '/', '-'], d.toNat < 128 := by simp
    rcases List.mem_append.mp hd with hd | hd
    · exact hpre d hd
    · exact lt_toDigits hd
  have hmap : (['c', '/', '-'] ++ Nat.toDigits 10 k).map Char.toLower = ['c', '/', '-'] ++
      Nat.toDigits 10 k := by
    rw [List.map_append, map_toLower_toDigits]
    rfl
  have hpath : pathOf (['c', '/', '-'] ++ Nat.toDigits 10 k) thread n =
      'c' :: '/' :: '-' :: pathOf (Nat.toDigits 10 k) thread n := List.append_assoc _ _ _
  rw [readLink, lower_site thread n hascii, hmap, hpath, first_negative]

/-- A link of another site, as far as `resolve_peer` is concerned. -/
theorem first_eq_none_of_dot {l : List Char} (h : '.' ∉ l) :
    (channelMessageLink strings).first l = none := by
  refine first_eq_none fun t ht => ?_
  obtain ⟨u₁, hu₁, -⟩ := mem_run_seq.mp ht
  obtain ⟨u₂, hu₂, hu₁⟩ := mem_run_seq.mp hu₁
  obtain ⟨u₃, hu₃, hu₁⟩ := mem_run_seq.mp hu₁
  obtain ⟨u₄, hu₄, hu₁⟩ := mem_run_seq.mp hu₁
  obtain ⟨u₅, hu₅, hu₁⟩ := mem_run_seq.mp hu₁
  obtain ⟨u₆, hu₆, -⟩ := mem_run_seq.mp hu₁
  have hdot : '.' ∈ u₅.1 := by
    rw [(mem_run_lit.mp hu₆).1]
    exact List.mem_cons_self
  have hsuffix := (((suffix_of_mem_run hu₅).trans (suffix_of_mem_run hu₄)).trans
    (suffix_of_mem_run hu₃)).trans
    (suffix_of_mem_run hu₂)
  exact h (hsuffix.mem hdot)

/-- **A name is a username**, unless it is one of the three that are not. -/
theorem resolvePeer_name (lookup : Reference → Except Exc InputPeer) {c : Char} {l : List Char}
    (hc : c.isAlpha = true)
    (hl : ∀ d ∈ l, (d.isAlphanum || d = '_') = true)
    (hname : (c :: l).map Char.toLower ∉
      [['s', 'e', 'l', 'f'], ['m', 'e'], ['e', 'm', 'p', 't', 'y']]) :
    resolvePeer strings lookup (.name ((c :: l).map Char.toLower)) =
      (lookup (.username ((c :: l).map Char.toLower))).map .peer := by
  have hword : ∀ d ∈ c :: l, (d.isAlphanum || d = '_') = true :=
    List.forall_mem_cons.mpr ⟨by simp [Char.isAlphanum, hc], hl⟩
  generalize hw : (c :: l).map Char.toLower = w at hname
  have hlower : ∀ d ∈ w, d.toNat < 128 ∧ (d.isAlphanum || d = '_') = true ∧ d.toLower = d := by
    intro d hd
    rw [← hw] at hd
    obtain ⟨e, he, rfl⟩ := List.mem_map.mp hd
    exact ⟨(ascii_toLower (hword e he)).1, (ascii_toLower (hword e he)).2,
      toLower_toLower (hword e he)⟩
  -- nothing is filtered away
  have hplain : ∀ d ∈ w, ¬ d ∈ ['+', '(', ')', '-', '@', '.'] ∧ strings.isSpace d = false := by
    intro d hd
    obtain ⟨hlt, hword, -⟩ := hlower d hd
    have hchars : ∀ n < 128, ((Char.ofNat n).isAlphanum || Char.ofNat n = '_') = true →
        ¬ Char.ofNat n ∈ ['+', '(', ')', '-', '@', '.'] ∧
        decide (9 ≤ (Char.ofNat n).toNat ∧ (Char.ofNat n).toNat ≤ 13 ∨
          28 ≤ (Char.ofNat n).toNat ∧ (Char.ofNat n).toNat ≤ 32) = false := by decide
    rw [strings.isSpace_ascii d hlt]
    exact ascii_forall (P := fun d => (d.isAlphanum || d = '_') = true →
      ¬ d ∈ ['+', '(', ')', '-', '@', '.'] ∧
      decide (9 ≤ d.toNat ∧ d.toNat ≤ 13 ∨ 28 ≤ d.toNat ∧ d.toNat ≤ 32) = false) hchars hlt hword
  have hphone : w.filter (fun c => !(c ∈ ['+', '(', ')', '-'] || strings.isSpace c)) = w := by
    refine List.filter_eq_self.mpr fun d hd => ?_
    have hd := hplain d hd
    simp_all
  have husername : w.filter (fun c => !(c ∈ ['@', '+'] || strings.isSpace c)) = w := by
    refine List.filter_eq_self.mpr fun d hd => ?_
    have hd := hplain d hd
    simp_all
  have hself : strings.lower w = w := by
    rw [strings.lower_ascii w fun d hd => (hlower d hd).1]
    exact (List.map_congr_left fun d hd => (hlower d hd).2.2).trans (List.map_id w)
  have hne : w ≠ [] := by
    rw [← hw]
    exact List.cons_ne_nil _ _
  have hdot : '.' ∉ w := fun hmem => (hplain '.' hmem).1 (by decide)
  -- the first character is a letter
  have hdigits : w.all strings.isDigit = false := by
    rw [← hw, List.map_cons, List.all_cons]
    rw [strings.isDigit_ascii _ (ascii_toLower (hword c List.mem_cons_self)).1,
      isDigit_eq_false (isAlpha_toLower hc),
      Bool.false_and]
  simp only [List.mem_cons, List.not_mem_nil, or_false, not_or] at hname
  simp only [resolvePeer, hphone, hself, husername, first_eq_none_of_dot hdot, hdigits, hname, hne,
    or_self, if_false,
    ne_eq, not_false_eq_true, if_true, and_false, Bool.false_eq_true]

/-! ### Which links lead back -/

theorem link_eq {m : Message} (h : ¬(m.chat.type = .user ∨ m.chat.type = .bot)) :
    m.link = site ++ pathOf (match m.chat.username with
      | some username => username.name
      | none => ['c', '/'] ++ format (Peer.getChannelId m.chat.id)) m.thread m.id := by
  rw [Message.link, if_neg h, pathOf, site]
  cases m.thread with
  | none => simp [segment, format_natCast]
  | some thread => simp [segment, format_natCast]

/-- What is read is asked for. -/
theorem getMessages_link {link : List Char} {chatId : ChatId} {n : ℕ}
    (h : readLink strings link = .ok (chatId, n))
    (lookup : Reference → Except Exc InputPeer) :
    getMessages strings lookup none (.link link) false false =
      (resolvePeer strings lookup chatId).map (request [.id n]) := by
  rw [getMessages, h]
  cases hpeer : resolvePeer strings lookup chatId with
  | error e => simp [hpeer, Except.map]
  | ok peer => simp [hpeer, Except.map, pure, Except.pure]

theorem map_map_peer (x : Except Exc InputPeer) (ids : List InputMessage) :
    (x.map Resolved.peer).map (request ids) = x.map fun peer => request ids (.peer peer) := by
  cases x <;> rfl

/-- A channel is found by its id. -/
theorem leadsBack_of_channel {m : Message} (h : ¬(m.chat.type = .user ∨ m.chat.type = .bot))
    (hnone : m.chat.username = none) (hid : m.chat.id < zeroChannelId) : LeadsBack strings m := by
  obtain ⟨k, hk⟩ :=
    Int.eq_ofNat_of_zero_le (a := Peer.getChannelId m.chat.id) (by rw [Peer.getChannelId]; omega)
  have hchat : Peer.getChannelId k = m.chat.id := by
    rw [← hk, Peer.getChannelId, Peer.getChannelId]
    omega
  have hread : readLink strings m.link = .ok (.id m.chat.id, m.id) := by
    have hnumber := @readLink_number strings k m.thread m.id
    rw [hchat] at hnumber
    rw [link_eq h, hnone]
    simp only [hk]
    exact hnumber
  refine .inr fun lookup => ?_
  rw [getMessages_link hread, resolvePeer, map_map_peer, Chat.reference, hnone]

/-- The link of a basic group is none. -/
theorem not_leadsBack_of_group {m : Message} (h : ¬(m.chat.type = .user ∨ m.chat.type = .bot))
    (hnone : m.chat.username = none) (hid : zeroChannelId < m.chat.id) : ¬ LeadsBack strings m := by
  obtain ⟨k, hk⟩ : ∃ k, Peer.getChannelId m.chat.id = .negSucc k := by
    refine Int.eq_negSucc_of_lt_zero ?_
    rw [Peer.getChannelId]
    omega
  have hread : readLink strings m.link = .error (.valueError "Invalid message link.") := by
    rw [link_eq h, hnone]
    simp only [hk]
    exact readLink_negative (k + 1) m.thread m.id
  rintro (hempty | hleads)
  · rw [link_eq h] at hempty
    cases hempty
  · have hpeer := hleads fun _ => .ok (.chat 0)
    rw [getMessages, hread] at hpeer
    cases hpeer

/-- **What becomes of a link with a username.** -/
theorem leadsBack_iff_of_username {m : Message} (h : ¬(m.chat.type = .user ∨ m.chat.type = .bot))
    {username : Username}
    (hsome : m.chat.username = some username) :
    LeadsBack strings m ↔
      username.name.map Char.toLower ∉
        [['s', 'e', 'l', 'f'], ['m', 'e'], ['e', 'm', 'p', 't', 'y']] ∧
      (username.name.map Char.toLower = ['c'] → m.thread = none) := by
  have hlink : m.link = site ++ pathOf username.name m.thread m.id := by
    rw [link_eq h, hsome]
  have hne : m.link ≠ [] := by
    rw [hlink]
    exact List.cons_ne_nil _ _
  have href : m.chat.reference = .username (username.name.map Char.toLower) := by
    rw [Chat.reference, hsome]
  have hleads : LeadsBack strings m ↔ ∀ lookup : Reference → Except Exc InputPeer,
      getMessages strings lookup none (.link m.link) false false =
        (lookup (.username (username.name.map Char.toLower))).map fun peer => request [.id m.id]
        (.peer peer) := by
    rw [LeadsBack, or_iff_right hne, href]
  rw [hleads]
  by_cases hc : username.name.map Char.toLower = ['c'] → m.thread = none
  · have hread : readLink strings m.link = .ok (.name (username.name.map Char.toLower), m.id) := by
      rw [hlink]
      exact readLink_name m.id username.isAlpha username.isWord hc
    rw [and_iff_left hc]
    constructor
    · -- one of the three is resolved whatever is known
      intro hleads hname
      have herror := hleads fun _ => .error (.other "KeyError")
      rw [getMessages_link hread] at herror
      simp only [List.mem_cons, List.not_mem_nil, or_false] at hname
      rcases hname with hname | hname | hname
      · rw [hname] at herror; cases herror
      · rw [hname] at herror; cases herror
      · rw [hname] at herror; cases herror
    · intro hname lookup
      have hpeer := @resolvePeer_name strings lookup _ _ username.isAlpha username.isWord hname
      rw [getMessages_link hread]
      exact (congrArg _ hpeer).trans (map_map_peer _ _)
  · -- the thread is taken for a channel
    rw [Classical.not_imp] at hc
    obtain ⟨hname, hthread⟩ := hc
    obtain ⟨thread, hthread⟩ := Option.ne_none_iff_exists'.mp hthread
    have hascii : ∀ d ∈ username.name, d.toNat < 128 := by
      intro d hd
      rcases List.mem_cons.mp hd with rfl | hd
      · exact lt_of_isWord (by simp [Char.isAlphanum, username.isAlpha])
      · exact lt_of_isWord (username.isWord d hd)
    have hread : readLink strings m.link = .ok (.id (Peer.getChannelId thread), m.id) := by
      rw [hlink, hthread]
      exact readLink_thread thread m.id hascii hname
    refine iff_of_false (fun hleads => ?_) fun h => by simp [h.2 hname] at hthread
    have hpeer := hleads fun
      | .username _ => .ok (.chat 0)
      | _ => .error (.other "KeyError")
    rw [getMessages_link hread] at hpeer
    cases hpeer

/-- **A link leads back exactly where the message is linkable.** -/
theorem leadsBack_iff (strings : Strings) (m : Message) : LeadsBack strings m ↔ Linkable m := by
  by_cases h : m.chat.type = .user ∨ m.chat.type = .bot
  · have hempty : LeadsBack strings m := .inl (if_pos h)
    exact iff_of_true hempty (h.imp_right .inl)
  · have hlinkable : Linkable m ↔ match m.chat.username with
        | none => m.chat.type ≠ .group
        | some username =>
            username.name.map Char.toLower ∉
              [['s', 'e', 'l', 'f'], ['m', 'e'], ['e', 'm', 'p', 't', 'y']] ∧
            (username.name.map Char.toLower = ['c'] → m.thread = none) := by
      rw [Linkable, ← or_assoc, or_iff_right h]
    rw [hlinkable]
    cases husername : m.chat.username with
    | some username => exact leadsBack_iff_of_username h husername
    | none =>
      have hmarked := m.chat.marked
      cases htype : m.chat.type with
      | user => exact absurd (.inl htype) h
      | bot => exact absurd (.inr htype) h
      | group =>
        rw [htype] at hmarked
        exact iff_of_false (not_leadsBack_of_group h husername hmarked.1) fun hne => hne rfl
      | supergroup | channel | forum | direct =>
        rw [htype] at hmarked
        exact iff_of_true (leadsBack_of_channel h husername hmarked) nofun

/-- A message of a basic group. -/
def groupMessage : Message where
  id := 7
  chat := { type := .group, id := -5, username := none, marked := ⟨by decide, by decide⟩ }
  messageThreadId := none

/-- Its link has a negative number, which is not read. -/
theorem not_leadsBack_groupMessage : ¬ LeadsBack .ascii groupMessage :=
  not_leadsBack_of_group (by decide) rfl (by decide)

end Pyrogram.Links
