import Pyrogram.Decimal
import Pyrogram.Types.Chat

/-!
# Rich texts

`RichText._parse` reads a tree from the server, and the `write` of each class writes it back.
Only the root is parsed with the users; below it nobody is known.

## Main definitions

* `RawRichText`, `RichText` — the two kinds of trees.
* `RichText.parse`, `RichText.write`, `RichText.toPlainText` — from one to the other.
* `RawRichText.supported` — the trees that can be written at all.
* `KeepsMentions` — a user is mentioned at the root only, and known there.

## Main results

* `survives_iff` — **a tree survives exactly where its mentions are kept.**
-/

namespace Pyrogram.Types

open ByKey

/-! ### Trees from the server -/

/-- `TextBold` and the others that have nothing but a text. -/
inductive RawStyle
  | bold
  | italic
  | underline
  | strike
  | spoiler
  | subscript
  | superscript
  | marked
  | fixed
  deriving DecidableEq, Repr

/-- What is named by its own text. -/
inductive Tag
  | mention
  | hashtag
  | cashtag
  | tonAddress
  | botCommand
  deriving DecidableEq, Repr

/-- The flags of a `TextDate`; one that is `None` is off. -/
structure DateForm where
  relative : Bool := false
  shortTime : Bool := false
  longTime : Bool := false
  shortDate : Bool := false
  longDate : Bool := false
  dayOfWeek : Bool := false
  deriving DecidableEq, Repr

/-- `raw.base.RichText` -/
inductive RawRichText
  | empty
  | plain (text : List Char)
  | concat (texts : List RawRichText)
  | styled (style : RawStyle) (text : RawRichText)
  | date (form : DateForm) (date : ℤ) (text : RawRichText)
  | mentionName (userId : ℕ+) (text : RawRichText)
  | customEmoji (documentId : ℤ) (alt : List Char)
  | math (source : List Char)
  | url (url : List Char) (webpageId : ℤ) (text : RawRichText)
  | email (email : List Char) (text : RawRichText)
  | phone (phone : List Char) (text : RawRichText)
  | bankCard (text : RawRichText)
  | tagged (tag : Tag) (text : RawRichText)
  | anchor (name : List Char) (text : RawRichText)

/-! ### Trees of the client -/

/-- `RichTextBold` and the others that have nothing but a text. -/
inductive Style
  | bold
  | italic
  | underline
  | strikethrough
  | spoiler
  | subscript
  | superscript
  | marked
  | code
  deriving DecidableEq, Repr

/-- `types.RichText`, or the string, list or `None` in its place; a date is a `τ`. -/
inductive RichText (τ : Type)
  | null
  | str (text : List Char)
  | list (texts : List (RichText τ))
  | styled (style : Style) (text : RichText τ)
  | dateTime (text : RichText τ) (date : τ) (dateTimeFormat : Option (List Char))
  | textMention (text : RichText τ) (user : Option User)
  | customEmoji (customEmojiId alternativeText : List Char)
  | mathematicalExpression (expression : List Char)
  | url (text : RichText τ) (url : List Char)
  | referenceLink (text : RichText τ) (referenceName : List Char)
  | emailAddress (text : RichText τ) (emailAddress : List Char)
  | phoneNumber (text : RichText τ) (phoneNumber : List Char)
  | bankCardNumber (text bankCardNumber : RichText τ)
  /-- With its username, hashtag, cashtag, address or command. -/
  | tagged (tag : Tag) (text : RichText τ) (name : List Char)
  | anchor (text : RichText τ) (name : List Char)
  | reference (text : RichText τ) (name : List Char)
  /-- It is only ever written. -/
  | anchorLink (text : RichText τ) (anchorName : List Char)

/-- The conversion of timestamps, and the one back. -/
structure Dates (τ : Type) where
  timestampToDatetime : ℤ → τ
  datetimeToTimestamp : τ → ℤ
  inverse : ∀ ts, datetimeToTimestamp (timestampToDatetime ts) = ts

/-! ### Reading -/

def RawStyle.parse : RawStyle → Style
  | bold => .bold
  | italic => .italic
  | underline => .underline
  | strike => .strikethrough
  | spoiler => .spoiler
  | subscript => .subscript
  | superscript => .superscript
  | marked => .marked
  | fixed => .code

/-- The string that says how a date is to be shown. -/
def DateForm.format (form : DateForm) : Option (List Char) :=
  let dateTimeFormat :=
    if form.relative then ['r']
    else
      (if form.dayOfWeek then ['w'] else []) ++
      (if form.shortDate then ['d'] else if form.longDate then ['D'] else []) ++
      (if form.shortTime then ['t'] else if form.longTime then ['T'] else [])
  if dateTimeFormat = [] then none else some dateTimeFormat

/-- What is stripped from the front of a name. -/
def Tag.marker : Tag → Option Char
  | mention => some '@'
  | hashtag => some '#'
  | cashtag => some '$'
  | tonAddress => none
  | botCommand => some '/'

namespace RichText

variable {τ : Type}

mutual

/-- `RichText._to_plain_text` -/
def toPlainText : RichText τ → List Char
  | null => []
  | str s => s
  | list texts => toPlainTexts texts
  | mathematicalExpression expression => expression
  | customEmoji _ alternativeText => alternativeText
  | styled _ text | dateTime text _ _ | textMention text _ | url text _ | referenceLink text
      _ | emailAddress text _
  | phoneNumber text _ | bankCardNumber text _ | tagged _ text _ | anchor text _ | reference text _
  | anchorLink text _ => toPlainText text

def toPlainTexts : List (RichText τ) → List Char
  | [] => []
  | text :: texts => toPlainText text ++ toPlainTexts texts

end

/-- The name that a text is a tag of. -/
def nameOf (tag : Tag) (content : RichText τ) : List Char := content.toPlainText.dropWhile fun c =>
    tag.marker = some c

variable (dates : Dates τ)

mutual

/-- `RichText._parse`: the users are not passed on. -/
def parse : RawRichText → List RawUser → RichText τ
  | .empty, _ => null
  | .plain s, _ => str s
  | .concat texts, _ => list (parseAll texts)
  | .styled style text, _ => styled style.parse (parse text [])
  | .date form date text, _ => dateTime (parse text []) (dates.timestampToDatetime date) form.format
  | .mentionName userId text, users =>
      textMention (parse text []) (User.parse (latest RawUser.id userId users))
  | .customEmoji documentId alt, _ => customEmoji (Decimal.format documentId) alt
  | .math source, _ => mathematicalExpression source
  | .url ('#' :: name) _ text, _ => referenceLink (parse text []) name
  | .url address _ text, _ => url (parse text []) address
  | .email email text, _ => emailAddress (parse text []) email
  | .phone phone text, _ => phoneNumber (parse text []) phone
  | .bankCard text, _ => bankCardNumber (parse text []) (parse text [])
  | .tagged tag text, _ =>
      let content := parse text []
      tagged tag content (nameOf tag content)
  | .anchor name .empty, _ => anchor null name
  | .anchor name text, _ => reference (parse text []) name

def parseAll : List RawRichText → List (RichText τ)
  | [] => []
  | text :: texts => parse text [] :: parseAll texts

end

end RichText

/-! ### Writing -/

def Style.write : Style → RawStyle
  | bold => .bold
  | italic => .italic
  | underline => .underline
  | strikethrough => .strike
  | spoiler => .spoiler
  | subscript => .subscript
  | superscript => .superscript
  | marked => .marked
  | code => .fixed

/-- The flags of a string that says how a date is to be shown. -/
def DateForm.ofFormat : Option (List Char) → DateForm
  | none => {}
  | some dateTimeFormat =>
      if 'r' ∈ dateTimeFormat then { relative := true }
      else
        { dayOfWeek := 'w' ∈ dateTimeFormat
          shortDate := 'd' ∈ dateTimeFormat
          longDate := 'd' ∉ dateTimeFormat ∧ 'D' ∈ dateTimeFormat
          shortTime := 't' ∈ dateTimeFormat
          longTime := 't' ∉ dateTimeFormat ∧ 'T' ∈ dateTimeFormat }

namespace RichText

variable {τ : Type} (dates : Dates τ)

/-- Of the `id` of `None`. -/
def attributeError : Exc := .other "AttributeError"

mutual

/-- `RichText._write`, and the `write` of each class. -/
def write : RichText τ → Except Exc RawRichText
  | null => .ok .empty
  | str s => .ok (.plain s)
  | list texts => (writeAll texts).map .concat
  | styled style text => (write text).map (.styled style.write)
  | dateTime text date dateTimeFormat =>
      (write text).map (.date (.ofFormat dateTimeFormat) (dates.datetimeToTimestamp date))
  | textMention text user => do
      let text ← write text
      match user with
      | none => .error attributeError
      | some user => .ok (.mentionName user.id text)
  | customEmoji customEmojiId alternativeText =>
      match Decimal.read customEmojiId with
      | none => .error (.valueError "invalid literal for int() with base 10")
      | some documentId => .ok (.customEmoji documentId alternativeText)
  | mathematicalExpression expression => .ok (.math expression)
  | url text address => (write text).map (.url address 0)
  | referenceLink text referenceName => (write text).map (.url ('#' :: referenceName) 0)
  | emailAddress text email => (write text).map (.email email)
  | phoneNumber text phone => (write text).map (.phone phone)
  | bankCardNumber text _ => (write text).map .bankCard
  | tagged tag text _ => (write text).map (.tagged tag)
  | anchor text name | reference text name => (write text).map (.anchor name)
  | anchorLink text anchorName => (write text).map (.url ('#' :: anchorName) 0)

def writeAll : List (RichText τ) → Except Exc (List RawRichText)
  | [] => .ok []
  | text :: texts => do
      let text ← write text
      let texts ← writeAll texts
      .ok (text :: texts)

end

end RichText

/-! ### What survives -/

/-- A date is relative, or has one date and one time at most. -/
def DateForm.supported (form : DateForm) : Bool :=
  if form.relative then form = { relative := true }
  else !(form.shortDate && form.longDate) && !(form.shortTime && form.longTime)

namespace RawRichText

mutual

/-- The trees whose flags and ids can be written. -/
def supported : RawRichText → Bool
  | empty | plain _ | customEmoji _ _ | math _ => true
  | concat texts => supportedAll texts
  | date form _ text => form.supported && text.supported
  | url _ webpageId text => webpageId = 0 && text.supported
  | styled _ text | mentionName _ text | email _ text | phone _ text | bankCard text | tagged _ text
  | anchor _ text => text.supported

def supportedAll : List RawRichText → Bool
  | [] => true
  | text :: texts => text.supported && supportedAll texts

end

mutual

/-- Nobody is mentioned by name. -/
def mentionFree : RawRichText → Bool
  | empty | plain _ | customEmoji _ _ | math _ => true
  | concat texts => mentionFreeAll texts
  | mentionName _ _ => false
  | date _ _ text | url _ _ text | styled _ text | email _ text | phone _ text | bankCard
      text | tagged _ text
  | anchor _ text => text.mentionFree

def mentionFreeAll : List RawRichText → Bool
  | [] => true
  | text :: texts => text.mentionFree && mentionFreeAll texts

end

end RawRichText

/-- **The mentions are kept**: there is one at the root at most, of a user who is known and not
empty. -/
def KeepsMentions (users : List RawUser) : RawRichText → Prop
  | .mentionName userId text =>
      User.parse (latest RawUser.id userId users) ≠ none ∧ text.mentionFree = true
  | tree => tree.mentionFree = true

theorem RawStyle.write_parse (style : RawStyle) : style.parse.write = style := by
  cases style <;> rfl

/-- The string says which flags a form has. -/
theorem DateForm.ofFormat_format {form : DateForm} (h : form.supported = true) :
    ofFormat form.format = form := by
  obtain ⟨relative, shortTime, longTime, shortDate, longDate, dayOfWeek⟩ := form
  revert relative shortTime longTime shortDate longDate dayOfWeek
  decide

namespace RichText

variable {τ : Type} (dates : Dates τ)

/-- A link is written as it is read, whether it is one to a reference or not. -/
theorem write_parse_url (address : List Char) (webpageId : ℤ) (text : RawRichText)
    (users : List RawUser) :
    write dates (parse dates (.url address webpageId text) users) =
      (write dates (parse dates text [])).map (.url address 0) := by
  cases address with
  | nil => rfl
  | cons c name =>
    by_cases hc : c = '#'
    · subst hc
      rfl
    · rw [parse, write]
      intro name' heq
      exact hc (List.cons.inj heq).1

/-- An anchor is written as it is read, whether it is one of a reference or not. -/
theorem write_parse_anchor (name : List Char) (text : RawRichText) (users : List RawUser) :
    write dates (parse dates (.anchor name text) users) = (write dates (parse dates text [])).map
      (.anchor name) := by
  cases text <;> rfl

mutual

/-- Below the root a tree survives without mentions. -/
theorem write_parse (tree : RawRichText) (h : tree.supported = true) :
    write dates (parse dates tree []) = if tree.mentionFree = true then .ok tree
      else .error attributeError := by
  -- on the tree; the inner text decides whether the writer raises
  cases tree with
  | empty => rfl
  | plain s => rfl
  | concat texts =>
    have hall := writeAll_parseAll texts h
    rw [parse, write, hall, RawRichText.mentionFree]
    split <;> rfl
  | styled style text =>
    have htext := write_parse text h
    rw [parse, write, htext, RawRichText.mentionFree, RawStyle.write_parse]
    split <;> rfl
  | date form date text =>
    rw [RawRichText.supported, Bool.and_eq_true] at h
    have htext := write_parse text h.2
    rw [parse, write, htext, RawRichText.mentionFree, DateForm.ofFormat_format h.1, dates.inverse]
    split <;> rfl
  | mentionName userId text =>
    have htext := write_parse text h
    rw [parse, write, htext, RawRichText.mentionFree]
    split <;> rfl
  | customEmoji documentId alt => rw [parse, write, Decimal.read_format]; rfl
  | math source => rfl
  | url address webpageId text =>
    rw [RawRichText.supported, Bool.and_eq_true, decide_eq_true_eq] at h
    have htext := write_parse text h.2
    rw [write_parse_url, htext, RawRichText.mentionFree, h.1]
    split <;> rfl
  | email email text =>
    have htext := write_parse text h
    rw [parse, write, htext, RawRichText.mentionFree]
    split <;> rfl
  | phone phone text =>
    have htext := write_parse text h
    rw [parse, write, htext, RawRichText.mentionFree]
    split <;> rfl
  | bankCard text =>
    have htext := write_parse text h
    rw [parse, write, htext, RawRichText.mentionFree]
    split <;> rfl
  | tagged tag text =>
    have htext := write_parse text h
    rw [parse, write, htext, RawRichText.mentionFree]
    split <;> rfl
  | anchor name text =>
    have htext := write_parse text h
    rw [write_parse_anchor, htext, RawRichText.mentionFree]
    split <;> rfl

theorem writeAll_parseAll (texts : List RawRichText) (h : RawRichText.supportedAll texts = true) :
    writeAll dates (parseAll dates texts) =
      if RawRichText.mentionFreeAll texts = true then .ok texts else .error attributeError := by
  cases texts with
  | nil => rfl
  | cons text texts =>
    rw [RawRichText.supportedAll, Bool.and_eq_true] at h
    have htext := write_parse text h.1
    have hall := writeAll_parseAll texts h.2
    rw [parseAll, writeAll, htext, hall, RawRichText.mentionFreeAll]
    cases text.mentionFree <;> cases RawRichText.mentionFreeAll texts <;> rfl

end

/-- The users make a difference for a mention only. -/
theorem parse_users {tree : RawRichText} (h : ∀ userId text, tree ≠ .mentionName userId text)
    (users : List RawUser) :
    parse dates tree users = parse dates tree [] := by
  cases tree with
  | mentionName userId text => exact absurd rfl (h userId text)
  | url address webpageId text =>
    cases address with
    | nil => rfl
    | cons c name =>
      by_cases hc : c = '#'
      · subst hc
        rfl
      · have hne : ∀ name', c :: name = '#' :: name' → False :=
          fun name' heq => hc (List.cons.inj heq).1
        rw [parse, parse]
        · exact hne
        · exact hne
  | anchor name text => cases text <;> rfl
  | empty | plain _ | concat _ | styled _ _ | date _ _ _ | customEmoji _ _ | math _ | email _ _
  | phone _ _ | bankCard _ | tagged _ _ => rfl

/-- The user that is found has the id that it is found by. -/
theorem id_of_parse {userId : ℕ+} {users : List RawUser} {user : User}
    (h : User.parse (latest RawUser.id userId users) = some user) : user.id = userId := by
  cases hraw : latest RawUser.id userId users with
  | none => rw [hraw] at h; cases h
  | some raw =>
    rw [hraw] at h
    cases raw with
    | empty id => cases h
    | user id bot firstName lastName username usernames =>
      have hid : id = userId := key_of_latest hraw
      cases h
      exact hid

/-- A mention is written back to the user that is found. -/
theorem write_parse_mentionName (userId : ℕ+) (text : RawRichText) (h : text.supported = true)
    (users : List RawUser) :
    write dates (parse dates (.mentionName userId text) users) = .ok (.mentionName userId text) ↔
      User.parse (latest RawUser.id userId users) ≠ none ∧ text.mentionFree = true := by
  rw [parse, write, write_parse dates text h]
  cases hfree : text.mentionFree with
  | false => simp
  | true =>
    cases huser : User.parse (latest RawUser.id userId users) with
    | none => simp
    | some user =>
      simp [id_of_parse huser]

end RichText

/-- **A tree survives exactly where its mentions are kept.** -/
theorem survives_iff {τ : Type} (dates : Dates τ) (users : List RawUser) (tree : RawRichText)
    (h : tree.supported = true) :
    RichText.write dates (RichText.parse dates tree users) = .ok tree ↔
      KeepsMentions users tree := by
  by_cases hmention : ∃ userId text, tree = .mentionName userId text
  · obtain ⟨userId, text, rfl⟩ := hmention
    exact RichText.write_parse_mentionName dates userId text h users
  · have hne : ∀ userId text, tree ≠ .mentionName userId text :=
      fun userId text heq => hmention ⟨userId, text, heq⟩
    have hkeeps : KeepsMentions users tree ↔ tree.mentionFree = true := by
      cases tree with
      | mentionName userId text => exact absurd rfl (hne userId text)
      | _ => exact Iff.rfl
    rw [RichText.parse_users dates hne, RichText.write_parse dates tree h, hkeeps]
    cases tree.mentionFree with
    | true => simp
    | false => simp

/-- A user who is mentioned at the root. -/
theorem survives_iff_mention :
    RichText.write ⟨id, id, fun _ => rfl⟩
      (RichText.parse ⟨id, id, fun _ => rfl⟩ (.mentionName 5 (.plain ['x']))
      [.user 5 false none none none []]) = .ok (.mentionName 5 (.plain ['x'])) ↔
    KeepsMentions [.user 5 false none none none []] (.mentionName 5 (.plain ['x'])) :=
  survives_iff ⟨id, id, fun _ => rfl⟩ _ _ rfl

/-- The same mention in bold: nobody is known there. -/
theorem not_survives_of_bold :
    RichText.write ⟨id, id, fun _ => rfl⟩ (RichText.parse ⟨id, id, fun _ => rfl⟩
      (.styled .bold (.mentionName 5 (.plain ['x']))) [.user 5 false none none none []]) =
      .error RichText.attributeError ∧
    RichText.write ⟨id, id, fun _ => rfl⟩ (RichText.parse ⟨id, id, fun _ => rfl⟩
      (.styled .bold (.mentionName 5 (.plain ['x']))) [.user 5 false none none none []]) ≠
      .ok (.styled .bold (.mentionName 5 (.plain ['x']))) :=
  ⟨rfl, nofun⟩

end Pyrogram.Types
