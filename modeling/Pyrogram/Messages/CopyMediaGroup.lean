import Pyrogram.Parser.Plain

/-!
# Copying a media group

`copy_media_group` sends the media of a group again.  One chained conditional takes the caption of
each from `captions` or from the message, and whatever it takes goes through the parser of the
client, like a text that somebody has typed.

## Main definitions

* `Client.parse` — `Parser.parse`.
* `Client.Plain` — a text without markup, for the mode of the client.
* `captionText`, `multiMedia` — the conditional, and the loop.
* `expected` — the caption of each medium.
* `Copies` — every caption is the one that is expected.

## Main results

* `multiMedia_caption` — what is sent is what the conditional gives the parser.
* `kept_iff_of_plain`, `dropped_iff_of_plain` — which captions without markup are left as they are,
  and of which nothing is made.
* `copies_iff` — **when the captions are the expected ones**.
-/

namespace Pyrogram.MediaGroup

open Utf8 (CodePoint)
open Pyrogram.Parser (Str chars)

variable {Peer E M : Type}

/-! ### Parsing -/

/-- The `message` and the `entities` of an `InputSingleMedia`; `None` and an empty list are the
same. -/
@[ext] structure Caption (E : Type) where
  message : Str
  entities : List E

def noCaption : Caption E := ⟨[], []⟩

/-- `enums.ParseMode` -/
inductive ParseMode
  | default
  | markdown
  | html
  | disabled
  deriving DecidableEq, Repr

/-- What parses the captions: the mode of the client, what it finds out of peers, and what the
parser leaves to the language. -/
structure Client (Peer E : Type) where
  parseMode : ParseMode
  urls : Parser.Markdown.Urls
  builtins : Parser.HTMLParser.Builtins
  /-- `resolve_peer`, unless it raises `PeerIdInvalid`. -/
  resolvePeer : ℤ → Option Peer
  /-- An entity of the parser, among all entities. -/
  entity : Parser.HTMLParser.Entity × Option Peer → E

inductive Error
  | exc (e : Exc)
  | html (e : Parser.HTMLParser.Error)
  deriving DecidableEq, Repr

/-- `str.strip` -/
def strip (text : Str) : Str :=
  (text.dropWhile Parser.HTMLParser.isSpace).rdropWhile Parser.HTMLParser.isSpace

/-- `HTML.parse` -/
def Client.html (client : Client Peer E) (text : Str) : Except Error (Caption E) :=
  match Parser.HTML.parse client.builtins (some client.resolvePeer) text with
  | .ok (message, entities) => .ok ⟨message, (entities.getD []).map client.entity⟩
  | .error e => .error (.html e)

/-- `Parser.parse` -/
def Client.parse (client : Client Peer E) (text : Str) : Except Error (Caption E) :=
  match client.parseMode with
  | .default => Parser.Markdown.parse .exc client.urls client.html (strip text) false
  | .markdown => Parser.Markdown.parse .exc client.urls client.html (strip text) true
  | .html => client.html (strip text)
  | .disabled => .ok ⟨strip text, []⟩

/-- No markup, for the mode of the client. -/
def Client.Plain (client : Client Peer E) (text : Str) : Prop :=
  match client.parseMode with
  | .default => Parser.HTML.Unmarked text ∧ Parser.Markdown.Unmarked false text
  | .markdown => Parser.HTML.Unmarked text ∧ Parser.Markdown.Unmarked true text
  | .html => Parser.HTML.Unmarked text
  | .disabled => True

theorem Client.html_eq_self (client : Client Peer E) {text : Str} (h : Parser.HTML.Unmarked text) :
    client.html text = .ok ⟨text, []⟩ := by
  rw [Client.html, Parser.HTML.parse_eq_self _ h]
  rfl

/-- **Of a text without markup only the white space around it is lost.** -/
theorem Client.parse_of_plain (client : Client Peer E) {text : Str}
    (h : client.Plain (strip text)) :
    client.parse text = .ok ⟨strip text, []⟩ := by
  unfold Client.Plain at h
  unfold Client.parse
  cases hmode : client.parseMode with
  | default =>
    rw [hmode] at h
    exact (Parser.Markdown.parse_of_toHtml (Parser.Markdown.toHtml_eq_self _ h.2)).trans
      (client.html_eq_self h.1)
  | markdown =>
    rw [hmode] at h
    exact (Parser.Markdown.parse_of_toHtml (Parser.Markdown.toHtml_eq_self _ h.2)).trans
      (client.html_eq_self h.1)
  | html =>
    rw [hmode] at h
    exact client.html_eq_self h
  | disabled => rfl

theorem plain_nil (client : Client Peer E) : client.Plain [] := by
  have hhtml : Parser.HTML.Unmarked [] := ⟨[], rfl, List.not_mem_nil, List.not_mem_nil⟩
  have hmarkdown (strict : Bool) : Parser.Markdown.Unmarked strict [] :=
    { delims := by decide
      link := List.not_mem_nil
      quote := List.not_mem_nil
      breaks := nofun
      last := nofun
      escaped := fun _ _ _ => List.not_mem_nil }
  unfold Client.Plain
  split
  · exact ⟨hhtml, hmarkdown false⟩
  · exact ⟨hhtml, hmarkdown true⟩
  · exact hhtml
  · trivial

theorem Client.parse_nil (client : Client Peer E) : client.parse [] = .ok noCaption :=
  client.parse_of_plain (plain_nil client)

/-! ### The loop -/

/-- `message.caption` and its entities; an empty one is `None`. -/
structure Original (E : Type) where
  text : Str
  entities : List E
  text_ne_nil : text ≠ []

/-- A message of the group, with the file ids of its media. -/
structure Message (E : Type) where
  photo : Option String
  audio : Option String
  document : Option String
  video : Option String
  hasMediaSpoiler : Option Bool
  caption : Option (Original E)

/-- `captions`: `plain` if the type of the string is `str` itself, and not a class over it like
`Str`. -/
inductive Captions
  | none
  | str (text : Str) (plain : Bool)
  | list (texts : List (Option Str))

/-- `has_spoilers` -/
inductive Spoilers
  | none
  | bool (all : Bool)
  | list (each : List Bool)

structure InputSingleMedia (E M : Type) where
  media : M
  randomId : ℤ
  caption : Caption E

def Message.fileId (message : Message E) : Except Error String :=
  match message.photo, message.audio, message.document, message.video with
  | some fileId, _, _, _ => .ok fileId
  | _, some fileId, _, _ => .ok fileId
  | _, _, some fileId, _ => .ok fileId
  | _, _, _, some fileId => .ok fileId
  | .none, .none, .none, .none =>
      .error (.exc (.valueError "Message with this type can't be copied."))

def Spoilers.of (hasSpoilers : Spoilers) (i : ℕ) (message : Message E) : Option Bool :=
  match hasSpoilers with
  | .list each => if i < each.length then each[i]? else message.hasMediaSpoiler
  | .bool all => some all
  | .none => message.hasMediaSpoiler

/-- `captions[i]`, if `captions` is a list, and long enough, and the entry is not empty. -/
def Captions.item (captions : Captions) (i : ℕ) : Option Str :=
  match captions with
  | .list texts => texts[i]?.join.filter (· ≠ [])
  | _ => .none

/-- `type(captions) is str` -/
def Captions.isStr : Captions → Bool
  | .str _ plain => plain
  | _ => false

/-- What is taken from the message. -/
def Message.captionText (message : Message E) (captions : Captions) : Str :=
  match message.caption with
  | some caption =>
      if caption.text ≠ chars "None".toList ∧ !captions.isStr then caption.text else []
  | .none => []

/-- The text that is parsed for medium `i`. -/
def captionText (captions : Captions) (i : ℕ) (message : Message E) : Str :=
  match captions.item i, captions, i with
  | some text, _, _ => text
  | .none, .str text _, 0 => text
  | .none, _, _ => message.captionText captions

/-- The caption of medium `i`. -/
def captionSent (client : Client Peer E) (captions : Captions) (i : ℕ) (message : Message E) :
    Except Error (Caption E) :=
  client.parse (captionText captions i message)

section Loop

variable (client : Client Peer E) (getInputMediaFromFileId : String → Option Bool → M)
    (rndId : ℕ → ℤ) (captions : Captions)
  (hasSpoilers : Spoilers)

/-- A round of the loop. -/
def singleMedia (i : ℕ) (message : Message E) : Except Error (InputSingleMedia E M) := do
  let fileId ← message.fileId
  let caption ← captionSent client captions i message
  .ok ⟨getInputMediaFromFileId fileId (hasSpoilers.of i message), rndId i, caption⟩

/-- `multi_media` -/
def multiMedia (mediaGroup : List (Message E)) : Except Error (List (InputSingleMedia E M)) :=
  mediaGroup.zipIdx.mapM fun x => singleMedia client getInputMediaFromFileId rndId captions
    hasSpoilers x.2 x.1

variable {client getInputMediaFromFileId rndId captions hasSpoilers}

/-- What is sent for a medium has the caption that the conditional gives the parser. -/
theorem multiMedia_caption {mediaGroup : List (Message E)} {items : List (InputSingleMedia E M)}
    (h : multiMedia client getInputMediaFromFileId rndId captions hasSpoilers mediaGroup =
      .ok items) :
    List.Forall₂ (fun x item => captionSent client captions x.2 x.1 = .ok item.caption)
      mediaGroup.zipIdx items := by
  refine (Except.mapM_eq_ok.mp h).imp fun x item hitem => ?_
  obtain ⟨fileId, -, hitem⟩ := Except.bind_eq_ok.mp hitem
  obtain ⟨caption, hcaption, hitem⟩ := Except.bind_eq_ok.mp hitem
  cases hitem
  exact hcaption

end Loop

/-! ### The captions that are expected -/

/-- The text that `captions` asks for. -/
def Captions.asked (captions : Captions) (i : ℕ) : Option Str :=
  match captions with
  | .none => .none
  | .str text _ => some (if i = 0 then text else [])
  | .list texts => texts[i]?.join

/-- The text that is asked for, parsed, or else the original caption as it is. -/
def expected (client : Client Peer E) (captions : Captions) (i : ℕ) (message : Message E) :
    Except Error (Caption E) :=
  match captions.asked i, message.caption with
  | some text, _ => client.parse text
  | .none, some caption => .ok ⟨caption.text, caption.entities⟩
  | .none, .none => .ok noCaption

def Copies (client : Client Peer E) (captions : Captions) (mediaGroup : List (Message E)) : Prop :=
  ∀ (i : ℕ) (message : Message E), mediaGroup[i]? = some message →
    captionSent client captions i message = expected client captions i message

/-- The parser leaves the caption as it is. -/
def Kept (client : Client Peer E) (caption : Original E) : Prop :=
  caption.text ≠ chars "None".toList ∧
    client.parse caption.text = .ok ⟨caption.text, caption.entities⟩

/-- The caption counts as none, or the parser makes nothing of it. -/
def Dropped (client : Client Peer E) (caption : Original E) : Prop :=
  caption.text = chars "None".toList ∨ client.parse caption.text = .ok noCaption

/-- What the original caption of medium `i` must be like. -/
def Respected (client : Client Peer E) (captions : Captions) (i : ℕ) (caption : Original E) :
    Prop :=
  match captions with
  | .none => Kept client caption
  | .str _ plain => i = 0 ∨ plain = true ∨ Dropped client caption
  | .list texts =>
      match texts[i]?.join with
      | some text => text = [] → Dropped client caption
      | .none => Kept client caption

/-- **Without markup**, a caption is kept that has no entities, and no white space around it. -/
theorem kept_iff_of_plain {client : Client Peer E} {caption : Original E}
    (h : client.Plain (strip caption.text)) :
    Kept client caption ↔
      caption.text ≠ chars "None".toList ∧ strip caption.text = caption.text ∧
        caption.entities = [] := by
  simp [Kept, client.parse_of_plain h, eq_comm]

/-- **Without markup**, nothing is made of a caption that is white space. -/
theorem dropped_iff_of_plain {client : Client Peer E} {caption : Original E}
    (h : client.Plain (strip caption.text)) :
    Dropped client caption ↔ caption.text = chars "None".toList ∨ strip caption.text = [] := by
  simp [Dropped, client.parse_of_plain h, noCaption]

/-! ### What is taken from the message -/

section Taken

variable {client : Client Peer E} {captions : Captions} {message : Message E} {caption : Original E}

theorem parse_captionText_of_none (h : message.caption = none) :
    client.parse (message.captionText captions) = .ok noCaption := by
  rw [Message.captionText, h]
  exact client.parse_nil

theorem parse_captionText_of_isStr (h : captions.isStr = true) :
    client.parse (message.captionText captions) = .ok noCaption := by
  unfold Message.captionText
  cases message.caption with
  | none => exact client.parse_nil
  | some caption =>
    have hnot : ¬(caption.text ≠ chars "None".toList ∧ (!captions.isStr) = true) := by simp [h]
    exact (congrArg client.parse (if_neg hnot)).trans client.parse_nil

/-- The original caption arrives as it is where the parser keeps it. -/
theorem parse_captionText_eq_original_iff (hstr : captions.isStr = false)
    (h : message.caption = some caption) :
    client.parse (message.captionText captions) = .ok ⟨caption.text, caption.entities⟩ ↔
      Kept client caption := by
  rw [Message.captionText, h, Kept]
  by_cases hnone : caption.text = chars "None".toList
  · have hempty : client.parse [] ≠ .ok ⟨caption.text, caption.entities⟩ := by
      intro heq
      rw [client.parse_nil] at heq
      exact caption.text_ne_nil (congrArg Caption.message (Except.ok.inj heq)).symm
    simp only [hnone, ne_eq, not_true_eq_false, false_and, if_false, iff_false]
    rwa [hnone] at hempty
  · simp only [hstr, ne_eq, hnone, not_false_eq_true, Bool.not_false, and_self, if_true, true_and]

/-- Nothing arrives where the parser makes nothing of it. -/
theorem parse_captionText_eq_none_iff (hstr : captions.isStr = false)
    (h : message.caption = some caption) :
    client.parse (message.captionText captions) = .ok noCaption ↔ Dropped client caption := by
  rw [Message.captionText, h, Dropped]
  by_cases hnone : caption.text = chars "None".toList
  · simp only [hnone, ne_eq, not_true_eq_false, false_and, if_false, true_or, iff_true]
    exact client.parse_nil
  · simp only [hstr, ne_eq, hnone, not_false_eq_true, Bool.not_false, and_self, if_true, false_or]

end Taken

/-! ### When the captions are the expected ones -/

theorem expected_of_asked {client : Client Peer E} {captions : Captions} {i : ℕ} {text : Str}
    (h : captions.asked i = some text)
    (message : Message E) : expected client captions i message = client.parse text := by
  rw [expected, h]

theorem captionText_of_item {captions : Captions} {i : ℕ} {text : Str}
    (h : captions.item i = some text)
    (message : Message E) : captionText captions i message = text := by
  unfold captionText
  rw [h]

theorem captionText_list_of_item {texts : List (Option Str)} {i : ℕ}
    (h : (Captions.list texts).item i = none)
    (message : Message E) :
    captionText (.list texts) i message = message.captionText (.list texts) := by
  unfold captionText
  rw [h]

/-- A medium whose caption is left to the message. -/
theorem captionSent_eq_iff_of_left {client : Client Peer E} {captions : Captions} {i : ℕ}
    {message : Message E}
    (hasked : captions.asked i = none)
    (htext : captionText captions i message = message.captionText captions)
    (hstr : captions.isStr = false) :
    captionSent client captions i message = expected client captions i message ↔
      ∀ caption, message.caption = some caption → Kept client caption := by
  rw [captionSent, htext, expected, hasked]
  cases hcaption : message.caption with
  | none =>
    have hparse : client.parse (message.captionText captions) = .ok noCaption :=
      parse_captionText_of_none hcaption
    exact iff_of_true hparse nofun
  | some caption =>
    have hkept : _ ↔ Kept client caption := parse_captionText_eq_original_iff hstr hcaption
    simpa using hkept

/-- A medium that is to have no caption. -/
theorem captionSent_eq_iff_of_empty {client : Client Peer E} {captions : Captions} {i : ℕ}
    {message : Message E}
    (hasked : captions.asked i = some [])
    (htext : captionText captions i message = message.captionText captions)
    (hstr : captions.isStr = false) :
    captionSent client captions i message = expected client captions i message ↔
      ∀ caption, message.caption = some caption → Dropped client caption := by
  rw [captionSent, htext, expected_of_asked hasked, client.parse_nil]
  cases hcaption : message.caption with
  | none =>
    have hparse : client.parse (message.captionText captions) = .ok noCaption :=
      parse_captionText_of_none hcaption
    exact iff_of_true hparse nofun
  | some caption =>
    have hdropped : _ ↔ Dropped client caption := parse_captionText_eq_none_iff hstr hcaption
    simpa using hdropped

theorem captionSent_eq_iff (client : Client Peer E) (captions : Captions) (i : ℕ)
    (message : Message E) :
    captionSent client captions i message = expected client captions i message ↔
      ∀ caption, message.caption = some caption → Respected client captions i caption := by
  -- no captions, one for the first message, or a list with one for each
  cases captions with
  | none => exact captionSent_eq_iff_of_left rfl rfl rfl
  | str text plain =>
    cases i with
    | zero => exact iff_of_true rfl fun _ _ => .inl rfl
    | succ i =>
      cases plain with
      | true =>
        have hparse : captionSent client (.str text true) (i + 1) message = .ok noCaption :=
          parse_captionText_of_isStr rfl
        exact iff_of_true (hparse.trans client.parse_nil.symm) fun _ _ => .inr (.inl rfl)
      | false =>
        have hempty : captionSent client (.str text false) (i + 1) message =
          expected client (.str text false) (i + 1) message ↔
            _ := captionSent_eq_iff_of_empty rfl rfl rfl
        simpa [Respected] using hempty
  | list texts =>
    have hitem : (Captions.list texts).item i = texts[i]?.join.filter (· ≠ []) := rfl
    have hgiven : (Captions.list texts).asked i = texts[i]?.join := rfl
    cases hasked : texts[i]?.join with
    | none =>
      rw [hasked] at hitem hgiven
      have hleft :
          captionSent client (.list texts) i message = expected client (.list texts) i message ↔ _ :=
        captionSent_eq_iff_of_left hgiven (captionText_list_of_item hitem message) rfl
      -- an empty caption of the list is taken for none
      simpa only [Respected, hasked] using hleft
    | some asked =>
      rw [hasked] at hitem hgiven
      by_cases hnil : asked = []
      · subst hnil
        have hempty :
            captionSent client (.list texts) i message =
              expected client (.list texts) i message ↔ _ :=
          captionSent_eq_iff_of_empty hgiven (captionText_list_of_item hitem message) rfl
        simpa only [Respected, hasked, true_implies] using hempty
      · rw [Option.filter_some_pos (by simpa using hnil)] at hitem
        have hsent : captionSent client (.list texts) i message = client.parse asked :=
          congrArg client.parse (captionText_of_item hitem message)
        refine iff_of_true (hsent.trans (expected_of_asked hgiven message).symm) fun caption _ => ?_
        simp only [Respected, hasked]
        exact fun h => absurd h hnil

/-- **The captions are the expected ones exactly when** every original caption that is to stay is
one that the parser leaves as it is, and every one that is to go, and whose text is taken all the
same, is one that it makes nothing of; where a caption has no markup, this is a matter of its
entities and of white space. -/
theorem copies_iff (client : Client Peer E) (captions : Captions) (mediaGroup : List (Message E)) :
    (Copies client captions mediaGroup ↔
      ∀ (i : ℕ) (message : Message E) (caption : Original E), mediaGroup[i]? = some message →
        message.caption = some caption → Respected client captions i caption) ∧
    ∀ caption : Original E, client.Plain (strip caption.text) →
      (Kept client caption ↔
        caption.text ≠ chars "None".toList ∧ strip caption.text = caption.text ∧
          caption.entities = []) ∧
      (Dropped client caption ↔ caption.text = chars "None".toList ∨ strip caption.text = []) := by
  refine ⟨?_, fun caption h => ⟨kept_iff_of_plain h, dropped_iff_of_plain h⟩⟩
  unfold Copies
  constructor
  · intro h i message caption hmessage
    exact (captionSent_eq_iff client captions i message).mp (h i message hmessage) caption
  · intro h i message hmessage
    exact (captionSent_eq_iff client captions i message).mpr fun caption =>
      h i message caption hmessage

/-- A client that parses nothing. -/
def disabledClient : Client Unit Unit where
  parseMode := .disabled
  urls := ⟨fun _ => .ok [], fun _ _ => []⟩
  builtins := Parser.HTMLParser.asciiBuiltins
  resolvePeer _ := none
  entity _ := ()

/-- A photo with a caption. -/
def photo : Message Unit where
  photo := some "file_id"
  audio := none
  document := none
  video := none
  hasMediaSpoiler := none
  caption := some ⟨chars ['H', 'i'], [], List.cons_ne_nil _ _⟩

/-- An empty string does not remove a caption. -/
theorem not_copies_empty : ¬ Copies disabledClient (.list [some []]) [photo] := by
  intro h
  have hsent := congrArg (Except.map Caption.message) (h 0 photo rfl)
  revert hsent
  decide

end Pyrogram.MediaGroup
