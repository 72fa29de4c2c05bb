import Pyrogram.Parser.Tokens
import Mathlib.Algebra.Order.Ring.Int
import Mathlib.Data.List.DropRight
import Mathlib.Data.List.Infix
import Mathlib.Data.List.Sort
import Mathlib.Logic.Function.Basic

/-!
# Parsing HTML

`Parser` handles the calls of `html.parser`: a start tag puts an entity on the stack of its
tag, data make every entity that is open longer, and an end tag takes the last entity of its
tag from the stack.  `HTML.parse` deletes some white space, feeds the parser with the UTF-16
form of the text, and returns the entities that are not empty.

The data come decoded already, and `handle_data` decodes them once more.  A character beyond
the basic plane that a reference stands for is then counted as one unit.

## Main definitions

* `startEntity` — what a tag stands for.
* `State`, `handleStarttag`, `handleData`, `handleEndtag` — the parser.
* `HTML.parse`.
* `elements` — the tags of a document with their end tags.

## Main results

* `mem_entities_iff` — the parser returns an entity for every tag that is closed.
* `parse_selects` — **what an entity selects.**
-/

namespace Pyrogram.Parser

open Utf8 (CodePoint)

namespace HTMLParser

/-- What the code leaves to the language: the table of the references, the classes of the
patterns, and the reading of numbers. -/
structure Builtins where
  html5 : List Char → Option (List Char)
  /-- `\w` -/
  isWord : Char → Bool
  /-- `\d` -/
  isDecimal : Char → Bool
  int : Str → Option ℤ

def str (s : String) : Str := chars s.toList

inductive Error
  | typeError
  | invalidLiteral (s : Str)
  | invalidFormat (dateTimeFormat : Str)
  deriving DecidableEq, Repr

structure DateFlags where
  relative : Bool
  shortTime : Bool
  longTime : Bool
  shortDate : Bool
  longDate : Bool
  dayOfWeek : Bool
  deriving DecidableEq, Repr

/-- The types of `raw.types`. -/
inductive RawType
  | bold
  | italic
  | underline
  | strike
  | blockquote (collapsed : Bool)
  | code
  | pre (language : Option Str)
  | spoiler
  | mentionName (userId : ℤ)
  | email
  | textUrl (url : Str)
  | customEmoji (documentId : ℤ)
  | formattedDate (date : ℤ) (flags : DateFlags)
  deriving DecidableEq, Repr

structure Entity where
  type : RawType
  offset : ℕ
  length : ℕ
  deriving DecidableEq, Repr

/-! ### Start tags -/

/-- `dict(attrs).get(key)`. -/
def getAttr (attrs : List (Str × Option Str)) (key : String) : Option (Option Str) :=
  (attrs.reverse.find? fun a => a.1 = str key).map Prod.snd

/-- `r|w?[dD]?[tT]?` -/
def isDateTimeFormat (s : Str) : Bool :=
  let skip (options : Str) : Str → Str
    | [] => []
    | p :: s => if p ∈ options then s else p :: s
  s = str "r" || skip (str "tT") (skip (str "dD") (skip (str "w") s)) = []

def dateFlags (s : Str) : DateFlags :=
  if s = str "r" then ⟨true, false, false, false, false, false⟩
  else
    { relative := false
      dayOfWeek := .char 'w' ∈ s
      shortDate := .char 'd' ∈ s
      longDate := .char 'd' ∉ s && .char 'D' ∈ s
      shortTime := .char 't' ∈ s
      longTime := .char 't' ∉ s && .char 'T' ∈ s }

def normalizeInt64 (value : ℤ) : ℤ := if 2 ^ 63 ≤ value then value - 2 ^ 64 else value

section

variable (b : Builtins)

/-- `MENTION_RE.match`. -/
def mention (url : Str) : Option Str :=
  if (str "tg://user?id=").isPrefixOf url then
    let digits := (url.drop 13).takeWhile fun
      | .char c => b.isDecimal c
      | .surrogate _ => false
    if digits = [] then none else some digits
  else none

def linkType (url : Str) : Except Error RawType :=
  match mention b url with
  | some digits =>
      match b.int digits with
      | some userId => .ok (.mentionName userId)
      | none => .error (.invalidLiteral digits)
  | none => .ok (if (str "mailto:").isPrefixOf url then .email else .textUrl url)

def dateType (unix dateTimeFormat : Str) : Except Error RawType :=
  match b.int unix with
  | none => .error (.invalidLiteral unix)
  | some date =>
      if dateTimeFormat =
        [] then .ok (.formattedDate date ⟨false, false, false, false, false, false⟩)
      else if isDateTimeFormat dateTimeFormat then .ok
        (.formattedDate date (dateFlags dateTimeFormat))
      else .error (.invalidFormat dateTimeFormat)

/-- The entity of a start tag, if it has one. -/
def startEntity (tag : Str) (attrs : List (Str × Option Str)) : Except Error (Option RawType) :=
  if tag ∈ [str "b", str "strong"] then .ok (some .bold)
  else if tag ∈ [str "i", str "em"] then .ok (some .italic)
  else if tag ∈ [str "u", str "ins"] then .ok (some .underline)
  else if tag ∈ [str "s", str "del", str "strike"] then .ok (some .strike)
  else if tag = str "blockquote" then .ok (some (.blockquote (getAttr attrs "expandable").isSome))
  else if tag = str "code" then .ok (some .code)
  else if tag = str "pre" then .ok (some (.pre ((getAttr attrs "language").getD (some []))))
  else if tag ∈ [str "spoiler", str "tg-spoiler"] then .ok (some .spoiler)
  else if tag = str "a" then
    match (getAttr attrs "href").getD (some []) with
    | some url => (linkType b url).map some
    | none => .error .typeError
  else if tag ∈ [str "emoji", str "tg-emoji"] then
    match if tag = str "tg-emoji" then getAttr attrs "emoji-id" else getAttr attrs "id" with
    | some (some customEmojiId) =>
        .ok ((b.int customEmojiId).map fun n => .customEmoji (normalizeInt64 n))
    | _ => .ok none
  else if tag = str "tg-time" then
    match getAttr attrs "unix" with
    | some (some unix) => (dateType b unix (((getAttr attrs "format").getD none).getD [])).map some
    | _ => .error .typeError
  else .ok none

end

/-! ### The parser -/

structure State where
  text : Str
  entities : List Entity
  /-- The entities that are open, for every tag, the last one first. -/
  tagEntities : Str → List Entity

def State.init : State := ⟨[], [], fun _ => []⟩

def Entity.grow (e : Entity) (n : ℕ) : Entity := { e with length := e.length + n }

section

variable (b : Builtins)

def handleStarttag (st : State) (tag : Str) (attrs : List (Str × Option Str)) :
    Except Error State :=
  (startEntity b tag attrs).map fun
    | none => st
    | some type =>
        { st with
          tagEntities := Function.update st.tagEntities tag
            (⟨type, st.text.length, 0⟩ :: st.tagEntities tag) }

def handleData (st : State) (data : Str) : State :=
  let data := unescape b.html5 data
  { st with
    text := st.text ++ data
    tagEntities := fun tag => (st.tagEntities tag).map (·.grow data.length) }

def handleEndtag (st : State) (tag : Str) : State :=
  match st.tagEntities tag with
  | [] => st
  | e :: es => { st with
        entities := st.entities ++ [e]
        tagEntities := Function.update st.tagEntities tag es }

def handle (st : State) : Event → Except Error State
  | .starttag tag attrs => handleStarttag b st tag attrs
  | .endtag tag => .ok (handleEndtag st tag)
  | .data data => .ok (handleData b st data)

def run : State → List Event → Except Error State
  | st, [] => .ok st
  | st, event :: events => (handle b st event).bind (run · events)

end

/-! ### White space -/

/-- `\s` -/
def isSpace : CodePoint → Bool
  | .char c =>
      (9 ≤ c.toNat && c.toNat ≤ 13) || (28 ≤ c.toNat && c.toNat ≤ 32) ||
        c.toNat ∈ [0x85, 0xa0, 0x1680, 0x2028, 0x2029, 0x202f, 0x205f, 0x3000] ||
          (0x2000 ≤ c.toNat && c.toNat ≤ 0x200a)
  | .surrogate _ => false

section

variable (b : Builtins)

def isWordChar : CodePoint → Bool
  | .char c => b.isWord c
  | .surrogate _ => false

def isOpeningChar (p : CodePoint) : Bool :=
  isWordChar b p || isSpace p || p ∈ chars ['<', '>', '=', '\x22']

def isClosingChar (p : CodePoint) : Bool := isWordChar b p || p ∈ chars ['<', '/', '>']

/-- `^\s*(<[\w<>=\s\"]*>)\s*`, replaced by its group. -/
def stripOpening (text : Str) : Str :=
  match text.dropWhile isSpace with
  | .char '<' :: rest =>
      let inner := (rest.takeWhile (isOpeningChar b)).rdropWhile (· ≠ .char '>')
      if inner = [] then text else .char '<' :: inner ++ (rest.drop inner.length).dropWhile isSpace
  | _ => text

/-- `\s*(</[\w</>]*>)\s*$`, replaced by its group: the group begins at the first `</` of the
longest part that it may have, and white space can only be in front of that part. -/
def stripClosing (text : Str) : Str :=
  let body := text.rdropWhile isSpace
  let front := body.rdropWhile (isClosingChar b)
  let group := body.rtakeWhile (isClosingChar b)
  if group.getLast? = some (.char '>') ∧ chars ['<', '/'] <:+: group then
    (if chars ['<', '/'] <+: group then front.rdropWhile isSpace else front) ++ group
  else text

end

end HTMLParser

namespace HTML

open HTMLParser (Builtins Error)

/-- A mention gets its peer, or is left out if there is none. -/
def resolve {Peer : Type*} (client : Option (ℤ → Option Peer)) (e : HTMLParser.Entity) :
    Option (HTMLParser.Entity × Option Peer) :=
  match e.type, client with
  | .mentionName userId, some resolvePeer => (resolvePeer userId).map fun peer => (e, some peer)
  | _, _ => some (e, none)

/-- The entities that are not empty, in the order of their offsets. -/
def returned {Peer : Type*} (client : Option (ℤ → Option Peer))
    (entities : List HTMLParser.Entity) :
    List (HTMLParser.Entity × Option Peer) :=
  ((entities.filterMap (resolve client)).filter (0 < ·.1.length)).mergeSort
    (·.1.offset ≤ ·.1.offset)

def parse {Peer : Type*} (b : Builtins) (client : Option (ℤ → Option Peer)) (text : Str) :
    Except Error (Str × Option (List (HTMLParser.Entity × Option Peer))) :=
  let text := HTMLParser.stripClosing b (HTMLParser.stripOpening b text)
  (HTMLParser.run b .init (HTMLParser.feed b.html5 (addSurrogates text))).map fun parser =>
    let entities := returned client parser.entities
    (removeSurrogates parser.text, if entities.isEmpty then none else some entities)

theorem mem_returned_iff {Peer : Type*} {client : Option (ℤ → Option Peer)}
    {entities : List HTMLParser.Entity}
    {e : HTMLParser.Entity × Option Peer} :
    e ∈ returned client entities ↔ (∃ e₀ ∈ entities, resolve client e₀ = some e) ∧
      0 < e.1.length := by
  simp [returned, List.mem_filterMap]

theorem resolve_fst {Peer : Type*} {client : Option (ℤ → Option Peer)} {e₀ : HTMLParser.Entity}
    {e : HTMLParser.Entity × Option Peer} (h : resolve client e₀ = some e) : e.1 = e₀ := by
  unfold resolve at h
  split at h
  · obtain ⟨peer, -, rfl⟩ := Option.map_eq_some_iff.mp h
    rfl
  · rw [← Option.some.inj h]

/-- `... or None` -/
theorem getD_returned {α : Type*} (entities : List α) :
    (if entities.isEmpty then none else some entities).getD [] = entities := by
  cases entities <;> rfl

end HTML

namespace HTMLParser

/-! ### The tags of a document -/

/-- The name that the parser sees. -/
def Tag.name : Tag → List Char
  | opening name _ | closing name => name.map Char.toLower

def Tag.isClosing : Tag → Bool
  | opening _ _ => false
  | closing _ => true

section

variable (b : Builtins)

/-- The entity that a tag opens. -/
def Tag.entity? (tag : Tag) : Option RawType :=
  match tag.event b.html5 with
  | .starttag name attrs => (startEntity b name attrs).toOption.join
  | _ => none

/-- The texts up to the end tag of a tag, if `d` tags of its name are open within it. -/
def closeOf (name : List Char) : ℕ → List (Tag × List Char) → Option (List (List Char))
  | _, [] => none
  | d, (tag, text) :: parts =>
      if tag.isClosing ∧ tag.name = name then if d = 0 then some []
        else (closeOf name (d - 1) parts).map (text :: ·)
      else if tag.name = name ∧ (tag.entity? b).isSome then (closeOf name (d + 1) parts).map
        (text :: ·)
      else (closeOf name d parts).map (text :: ·)

/-- A tag that has an entity and is closed, with the texts before it and within it. -/
structure Element where
  type : RawType
  before : List (List Char)
  inside : List (List Char)
  deriving DecidableEq, Repr

def elementsFrom (before : List (List Char)) : List (Tag × List Char) → List Element
  | [] => []
  | (tag, text) :: parts =>
      (match tag.entity? b, closeOf b tag.name 0 parts with
        | some type, some inside => [⟨type, before, text :: inside⟩]
        | _, _ => []) ++ elementsFrom (before ++ [text]) parts

def elements (doc : Document) : List Element := elementsFrom b [doc.head] doc.parts

/-- A text with its references decoded. -/
def decodeOnce (text : List Char) : Str := unescape b.html5 (utf16 text)

/-- What the parser makes of it. -/
def decodeTwice (text : List Char) : Str := unescape b.html5 (decodeOnce b text)

def Element.entity (x : Element) : Entity :=
  ⟨x.type, (x.before.flatMap (decodeTwice b)).length, (x.inside.flatMap (decodeTwice b)).length⟩

/-- What stood between the tags, with every reference decoded once, in UTF-16. -/
def Element.text (x : Element) : Str := addSurrogates (x.inside.flatMap (decodeOnce b))

end

/-- What an entity selects. -/
def Entity.select (e : Entity) (message : Str) : Str :=
  ((addSurrogates message).drop e.offset).take e.length

/-! ### The run of the parser -/

section

variable {b : Builtins}

@[simp] theorem grow_zero (e : Entity) : e.grow 0 = e := rfl

@[simp] theorem grow_grow (e : Entity) (m n : ℕ) : (e.grow m).grow n = e.grow (m + n) := by
  simp [Entity.grow, Nat.add_assoc]

theorem handleData_nil (st : State) : handleData b st [] = st := by
  simp [handleData, unescape, unescapeFrom]

/-- What is still to be returned: an entity that is open, as long as it gets up to its end tag. -/
def Pending (b : Builtins) (st : State) (parts : List (Tag × List Char)) (e : Entity) : Prop :=
  ∃ name d e₀ inside, (st.tagEntities (chars name))[d]? = some e₀ ∧
    closeOf b name d parts = some inside ∧
    e = e₀.grow (inside.flatMap (decodeTwice b)).length

theorem run_dataEvents (st : State) (text : List Char) (events : List Event) :
    run b st (dataEvents b.html5 text ++ events) =
      run b (handleData b st (decodeOnce b text)) events := by
  by_cases hne : text = []
  · rw [hne, dataEvents, if_pos rfl, List.nil_append, show decodeOnce b [] = [] from rfl,
      handleData_nil]
  · rw [dataEvents_of_ne hne]
    rfl

theorem run_closing (st : State) (name text : List Char) (events : List Event) :
    run b st (partEvents b.html5 (.closing name, text) ++ events) =
      run b (handleData b (handleEndtag st (chars (Tag.closing name).name)) (decodeOnce b text))
        events := by
  rw [Tag.name, ← lower_chars]
  exact run_dataEvents _ _ _

/-- The state behind an opening tag. -/
theorem run_opening {st st' : State} {tag : Tag} {text : List Char} {events : List Event}
    (htag : ∀ name, tag ≠ .closing name)
    (hrun : run b st (partEvents b.html5 (tag, text) ++ events) = .ok st') :
    run b (handleData b (match tag.entity? b with
      | none => st
      | some type =>
          { st with
            tagEntities := Function.update st.tagEntities (chars tag.name)
              (⟨type, st.text.length, 0⟩ :: st.tagEntities (chars tag.name)) }) (decodeOnce b text))
                events = .ok st' := by
  cases tag with
  | closing name => exact absurd rfl (htag name)
  | opening name attrs =>
    have hrun' : (handleStarttag b st (lower (chars name)) _).bind
        (run b · (dataEvents b.html5 text ++ events)) = .ok st' := hrun
    rw [handleStarttag, lower_chars] at hrun'
    rw [Tag.entity?, Tag.event, Tag.name, lower_chars]
    simp only
    cases hstart : startEntity b (chars (name.map Char.toLower))
        (attrs.map fun a =>
          (lower (chars a.1), a.2.map fun value => unescape b.html5 (utf16 value.text))) with
    | error err =>
      rw [hstart] at hrun'
      cases hrun'
    -- the builder of the entity raises, and the run with it
    | ok type =>
      rw [hstart] at hrun'
      rw [← run_dataEvents]
      cases type with
      | none => exact hrun'
      | some type => exact hrun'

/-- What is still to be returned behind a text. -/
def PendingBehind (b : Builtins) (tagEntities : Str → List Entity) (text : List Char)
    (parts : List (Tag × List Char))
    (e : Entity) : Prop :=
  ∃ name d e₀ inside, (tagEntities (chars name))[d]? = some e₀ ∧
    closeOf b name d parts = some inside ∧
    e = e₀.grow ((text :: inside).flatMap (decodeTwice b)).length

theorem pending_handleData {st : State} {text : List Char} {parts : List (Tag × List Char)}
    {e : Entity} :
    Pending b (handleData b st (decodeOnce b text)) parts e ↔
      PendingBehind b st.tagEntities text parts e := by
  constructor
  · rintro ⟨name, d, e₀, inside, he₀, hclose, rfl⟩
    obtain ⟨e₁, he₁, rfl⟩ := Option.map_eq_some_iff.mp (List.getElem?_map.symm.trans he₀)
    exact ⟨name, d, e₁, inside, he₁, hclose, by simp [decodeTwice]⟩
  · rintro ⟨name, d, e₀, inside, he₀, hclose, rfl⟩
    refine ⟨name, d, e₀.grow (decodeTwice b text).length, inside, ?_, hclose, by simp⟩
    show (List.map _ _)[d]? = _
    rw [List.getElem?_map, he₀]
    rfl

theorem closeOf_closing_ne {name name' text : List Char} {parts : List (Tag × List Char)}
    (h : name' ≠ (Tag.closing name).name) (d : ℕ) :
    closeOf b name' d ((.closing name, text) :: parts) = (closeOf b name' d parts).map
      (text :: ·) := by
  rw [closeOf, if_neg fun heq => h heq.2.symm, if_neg fun heq => h heq.1.symm]

theorem closeOf_opening {tag : Tag} (htag : ∀ name, tag ≠ .closing name) {text : List Char}
    {parts : List (Tag × List Char)}
    (name : List Char) (d : ℕ) :
    closeOf b name d ((tag, text) :: parts) =
      (closeOf b name (if tag.name = name ∧ (tag.entity? b).isSome then d + 1 else d) parts).map
        (text :: ·) := by
  have hopening : ¬ (tag.isClosing = true ∧ tag.name = name) := by
    rintro ⟨hclosing, -⟩
    cases tag with
    | opening _ _ => cases hclosing
    | closing name' => exact htag name' rfl
  rw [closeOf, if_neg hopening]
  split <;> rfl

theorem update_chars_of_ne {f : Str → List Entity} {name name' : List Char} (h : name' ≠ name)
    (es : List Entity) :
    Function.update f (chars name) es (chars name') = f (chars name') :=
  Function.update_of_ne (fun heq => h (chars_injective heq)) _ _

/-- An end tag takes the last entity of its tag, which is as long as it gets. -/
theorem pending_closing {st : State} {name text : List Char} {parts : List (Tag × List Char)}
    {e : Entity} :
    (e ∈ st.entities ∨ Pending b st ((.closing name, text) :: parts) e) ↔
      e ∈ (handleEndtag st (chars (Tag.closing name).name)).entities ∨
        PendingBehind b (handleEndtag st (chars (Tag.closing name).name)).tagEntities text
          parts e := by
  have hself : ∀ d, closeOf b (Tag.closing name).name d ((.closing name, text) :: parts) =
      if d = 0 then some [] else (closeOf b (Tag.closing name).name (d - 1) parts).map
        (text :: ·) := fun d => by
    rw [closeOf, if_pos ⟨rfl, rfl⟩]
  have hother : ∀ name', name' ≠ (Tag.closing name).name →
    ∀ d, closeOf b name' d ((.closing name, text) :: parts) =
      (closeOf b name' d parts).map (text :: ·) := fun name' hne d => closeOf_closing_ne hne d
  -- only the name that the parser sees matters
  generalize (Tag.closing name).name = low at hself hother ⊢
  cases hstack : st.tagEntities (chars low) with
  | nil =>
    rw [handleEndtag, hstack]
    refine or_congr_right ⟨?_, ?_⟩
    · rintro ⟨name', d, e₀, texts, he₀, htexts, rfl⟩
      have hne : name' ≠ low := by
        rintro rfl
        rw [hstack] at he₀
        cases he₀
      rw [hother _ hne] at htexts
      obtain ⟨inside, hinside, rfl⟩ := Option.map_eq_some_iff.mp htexts
      exact ⟨name', d, e₀, inside, he₀, hinside, rfl⟩
    · rintro ⟨name', d, e₀, inside, he₀, hinside, rfl⟩
      have hne : name' ≠ low := by
        rintro rfl
        rw [hstack] at he₀
        cases he₀
      exact ⟨name', d, e₀, text :: inside, he₀, by rw [hother _ hne, hinside]; rfl, rfl⟩
  | cons e₁ es =>
    rw [handleEndtag, hstack]
    simp only [List.mem_append, List.mem_singleton, or_assoc]
    refine or_congr_right ⟨?_, ?_⟩
    · rintro ⟨name', d, e₀, texts, he₀, htexts, rfl⟩
      by_cases hne : name' = low
      · subst hne
        rw [hself] at htexts
        rw [hstack] at he₀
        cases d with
        | zero =>
          obtain rfl := Option.some.inj htexts
          obtain rfl := Option.some.inj he₀
          exact .inl rfl
        | succ d =>
          obtain ⟨inside, hinside, rfl⟩ := Option.map_eq_some_iff.mp htexts
          exact .inr ⟨name', d, e₀, inside, by rw [Function.update_self]; exact he₀, hinside, rfl⟩
      · rw [hother _ hne] at htexts
        obtain ⟨inside, hinside, rfl⟩ := Option.map_eq_some_iff.mp htexts
        exact .inr ⟨name', d, e₀, inside, by rw [update_chars_of_ne hne]; exact he₀, hinside, rfl⟩
    · rintro (rfl | ⟨name', d, e₀, inside, he₀, hinside, rfl⟩)
      · exact ⟨low, 0, e, [], by rw [hstack]; rfl, by rw [hself]; rfl, rfl⟩
      by_cases hne : name' = low
      · subst hne
        rw [Function.update_self] at he₀
        refine ⟨name', d + 1, e₀, text :: inside, by rw [hstack]; exact he₀, ?_, rfl⟩
        rw [hself, if_neg (Nat.succ_ne_zero d), Nat.add_sub_cancel, hinside]
        rfl
      · rw [update_chars_of_ne hne] at he₀
        exact ⟨name', d, e₀, text :: inside, he₀, by rw [hother _ hne, hinside]; rfl, rfl⟩

/-- A tag that opens no entity changes nothing. -/
theorem pending_opening_none {st : State} {tag : Tag} (htag : ∀ name, tag ≠ .closing name)
    (hentity : tag.entity? b = none)
    {text : List Char} {parts : List (Tag × List Char)} {e : Entity} :
    Pending b st ((tag, text) :: parts) e ↔ PendingBehind b st.tagEntities text parts e := by
  have hclose : ∀ name d, closeOf b name d ((tag, text) :: parts) = (closeOf b name d parts).map
      (text :: ·) := by
    intro name d
    rw [closeOf_opening htag, hentity, if_neg (by simp)]
  constructor
  · rintro ⟨name, d, e₀, texts, he₀, htexts, rfl⟩
    rw [hclose] at htexts
    obtain ⟨inside, hinside, rfl⟩ := Option.map_eq_some_iff.mp htexts
    exact ⟨name, d, e₀, inside, he₀, hinside, rfl⟩
  · rintro ⟨name, d, e₀, inside, he₀, hinside, rfl⟩
    exact ⟨name, d, e₀, text :: inside, he₀, by rw [hclose, hinside]; rfl, rfl⟩

/-- A tag that opens an entity puts it on the stack, and the others below it. -/
theorem pending_opening_some {st : State} {tag : Tag} (htag : ∀ name, tag ≠ .closing name)
    {type : RawType}
    (hentity : tag.entity? b = some type) {text : List Char} {parts : List (Tag × List Char)}
    {e : Entity} :
    PendingBehind b (Function.update st.tagEntities (chars tag.name)
        (⟨type, st.text.length, 0⟩ :: st.tagEntities (chars tag.name))) text parts e ↔
      Pending b st ((tag, text) :: parts) e ∨ ∃ inside, closeOf b tag.name 0 parts = some inside ∧
        e = ⟨type, st.text.length, ((text :: inside).flatMap (decodeTwice b)).length⟩ := by
  have hself : ∀ d, closeOf b tag.name d ((tag, text) :: parts) =
      (closeOf b tag.name (d + 1) parts).map (text :: ·) := by
    intro d
    rw [closeOf_opening htag, hentity, if_pos ⟨rfl, rfl⟩]
  have hother : ∀ name d, name ≠ tag.name →
      closeOf b name d ((tag, text) :: parts) = (closeOf b name d parts).map (text :: ·) := by
    intro name d hne
    rw [closeOf_opening htag, if_neg fun h => hne h.1.symm]
  -- an element that was open before, or the one that opens here
  constructor
  · rintro ⟨name, d, e₀, inside, he₀, hinside, rfl⟩
    by_cases hne : name = tag.name
    · subst hne
      rw [Function.update_self] at he₀
      cases d with
      | zero =>
        obtain rfl := Option.some.inj he₀
        exact .inr ⟨inside, hinside, by simp [Entity.grow]⟩
      | succ d => exact .inl ⟨tag.name, d, e₀, text :: inside,
          he₀, by rw [hself, hinside]; rfl, rfl⟩
    · rw [update_chars_of_ne hne] at he₀
      exact .inl ⟨name, d, e₀, text :: inside, he₀, by rw [hother name d hne, hinside]; rfl, rfl⟩
  · rintro (⟨name, d, e₀, texts, he₀, htexts, rfl⟩ | ⟨inside, hinside, rfl⟩)
    · by_cases hne : name = tag.name
      · subst hne
        rw [hself] at htexts
        obtain ⟨inside, hinside, rfl⟩ := Option.map_eq_some_iff.mp htexts
        exact ⟨tag.name, d + 1, e₀, inside, by rw [Function.update_self]; exact he₀, hinside, rfl⟩
      · rw [hother name d hne] at htexts
        obtain ⟨inside, hinside, rfl⟩ := Option.map_eq_some_iff.mp htexts
        exact ⟨name, d, e₀, inside, by rw [update_chars_of_ne hne]; exact he₀, hinside, rfl⟩
    · exact ⟨tag.name, 0, _,
        inside, by rw [Function.update_self]; rfl, hinside, by simp [Entity.grow]⟩

theorem handleEndtag_text (st : State) (tag : Str) : (handleEndtag st tag).text = st.text := by
  unfold handleEndtag
  split <;> rfl

/-- The entity of the first tag, if it has one and is closed. -/
theorem exists_mem_elementsFrom {before : List (List Char)} {tag : Tag} {text : List Char}
    {parts : List (Tag × List Char)}
    {e : Entity} :
    (∃ x ∈ elementsFrom b before ((tag, text) :: parts), x.entity b = e) ↔
      (∃ type inside, tag.entity? b = some type ∧ closeOf b tag.name 0 parts = some inside ∧
        Element.entity b ⟨type, before, text :: inside⟩ = e) ∨
      ∃ x ∈ elementsFrom b (before ++ [text]) parts, x.entity b = e := by
  rw [elementsFrom]
  cases htype : tag.entity? b with
  | none => simp
  | some type =>
    cases hclose : closeOf b tag.name 0 parts with
    | none => simp
    | some inside => simp

/-- **What is returned in the end** was returned before, or is open and closed later, or is
opened and closed later. -/
theorem mem_run_iff {parts : List (Tag × List Char)} {before : List (List Char)} {st st' : State}
    (htext : st.text = before.flatMap (decodeTwice b))
    (hrun : run b st (parts.flatMap (partEvents b.html5)) = .ok st') :
    st'.text = (before ++ parts.map Prod.snd).flatMap (decodeTwice b) ∧
      ∀ e, e ∈ st'.entities ↔
        e ∈ st.entities ∨ Pending b st parts e ∨ ∃ x ∈ elementsFrom b before parts,
          x.entity b = e := by
  induction parts generalizing before st with
  | nil =>
    obtain rfl := Except.ok.inj hrun
    refine ⟨by simpa using htext, fun e => ⟨.inl, ?_⟩⟩
    rintro (h | ⟨name, d, e₀, inside, -, hinside, -⟩ | ⟨x, hx, -⟩)
    · exact h
    · cases hinside
    · cases hx
  | cons part parts ih =>
    obtain ⟨tag, text⟩ := part
    rw [List.flatMap_cons] at hrun
    -- the state behind the tag and its text is what the rest is run from
    have hstep : ∀ st₁ : State, st₁.text = st.text → run b (handleData b st₁ (decodeOnce b text))
        (parts.flatMap (partEvents b.html5)) = .ok st' →
        st'.text = (before ++ text :: parts.map Prod.snd).flatMap (decodeTwice b) ∧
          ∀ e, e ∈ st'.entities ↔ e ∈ st₁.entities ∨ PendingBehind b st₁.tagEntities text parts e ∨
            ∃ x ∈ elementsFrom b (before ++ [text]) parts, x.entity b = e := by
      intro st₁ htext₁ hrun₁
      have hbefore : (handleData b st₁ (decodeOnce b text)).text = (before ++ [text]).flatMap
          (decodeTwice b) := by
        show st₁.text ++ _ = _
        rw [htext₁, htext, List.flatMap_append, List.flatMap_singleton]
        rfl
      obtain ⟨htext', hmem⟩ := ih hbefore hrun₁
      refine ⟨by simpa using htext', fun e => ?_⟩
      rw [hmem, pending_handleData]
      rfl
    cases htag : tag with
    | closing name =>
      rw [htag, run_closing] at hrun
      obtain ⟨htext', hmem⟩ := hstep _ (handleEndtag_text _ _) hrun
      refine ⟨htext', fun e => ?_⟩
      rw [hmem, ← or_assoc, ← pending_closing, or_assoc, exists_mem_elementsFrom]
      refine or_congr_right (or_congr_right ⟨.inr, ?_⟩)
      rintro (⟨type, inside, hentity, -⟩ | hx)
      · cases hentity
      · exact hx
    | opening name attrs =>
      have hopening : ∀ name', tag ≠ .closing name' := by
        rintro name' rfl
        cases htag
      have hrun' := run_opening hopening hrun
      rw [← htag]
      cases hentity : tag.entity? b with
      | none =>
        rw [hentity] at hrun'
        obtain ⟨htext', hmem⟩ := hstep _ rfl hrun'
        refine ⟨htext', fun e => ?_⟩
        rw [hmem, pending_opening_none hopening hentity, exists_mem_elementsFrom]
        refine or_congr_right (or_congr_right ⟨.inr, ?_⟩)
        rintro (⟨type, inside, hentity', -⟩ | hx)
        · rw [hentity] at hentity'
          cases hentity'
        · exact hx
      | some type =>
        rw [hentity] at hrun'
        have htag' : ({ st with
            tagEntities := Function.update st.tagEntities (chars tag.name)
              (⟨type, st.text.length, 0⟩ :: st.tagEntities (chars tag.name)) } : State).text =
                st.text := rfl
        obtain ⟨htext', hmem⟩ := hstep _ htag' hrun'
        refine ⟨htext', fun e => ?_⟩
        rw [hmem, pending_opening_some hopening hentity, exists_mem_elementsFrom, or_assoc]
        refine or_congr_right (or_congr_right (or_congr_left ?_))
        constructor
        · rintro ⟨inside, hinside, rfl⟩
          exact ⟨type, inside, hentity, hinside, by rw [Element.entity, htext]⟩
        · rintro ⟨type', inside, hentity', hinside, rfl⟩
          obtain rfl := Option.some.inj (hentity.symm.trans hentity')
          exact ⟨inside, hinside, by rw [Element.entity, htext]⟩

def Document.texts (doc : Document) : List (List Char) := doc.head :: doc.parts.map Prod.snd

/-- **The parser returns an entity for every tag that is closed**, and no other. -/
theorem mem_entities_iff {doc : Document} {st : State}
    (hrun : run b .init (doc.events b.html5) = .ok st) :
    st.text = doc.texts.flatMap (decodeTwice b) ∧ ∀ e, e ∈ st.entities ↔
      ∃ x ∈ elements b doc, x.entity b = e := by
  rw [Document.events, run_dataEvents] at hrun
  have hhead : (handleData b .init (decodeOnce b doc.head)).text =
      [doc.head].flatMap (decodeTwice b) := by
    rw [List.flatMap_singleton]
    rfl
  obtain ⟨htext, hmem⟩ := mem_run_iff hhead hrun
  refine ⟨htext, fun e => (hmem e).trans ⟨?_, fun hx => .inr (.inr hx)⟩⟩
  rintro (h | ⟨name, d, e₀, inside, he₀, -⟩ | hx)
  · cases h
  · cases he₀
  · exact hx

/-! ### Where the texts stand -/

theorem closeOf_prefix {name : List Char} {d : ℕ} {parts : List (Tag × List Char)}
    {inside : List (List Char)}
    (h : closeOf b name d parts = some inside) : inside <+: parts.map Prod.snd := by
  induction parts generalizing d inside with
  | nil => cases h
  | cons part parts ih =>
    obtain ⟨tag, text⟩ := part
    rw [closeOf] at h
    split at h
    · split at h
      · obtain rfl := Option.some.inj h
        exact List.nil_prefix
      · obtain ⟨inside, hinside, rfl⟩ := Option.map_eq_some_iff.mp h
        exact List.cons_prefix_cons.mpr ⟨rfl, ih hinside⟩
    · split at h
      · obtain ⟨inside, hinside, rfl⟩ := Option.map_eq_some_iff.mp h
        exact List.cons_prefix_cons.mpr ⟨rfl, ih hinside⟩
      · obtain ⟨inside, hinside, rfl⟩ := Option.map_eq_some_iff.mp h
        exact List.cons_prefix_cons.mpr ⟨rfl, ih hinside⟩

theorem elementsFrom_texts {before : List (List Char)} {parts : List (Tag × List Char)}
    {x : Element}
    (hx : x ∈ elementsFrom b before parts) :
    x.before ++ x.inside <+: before ++ parts.map Prod.snd := by
  induction parts generalizing before with
  | nil => cases hx
  | cons part parts ih =>
    obtain ⟨tag, text⟩ := part
    rw [elementsFrom] at hx
    rcases List.mem_append.mp hx with hx | hx
    · split at hx
      · rename_i type inside htype hclose
        obtain rfl := List.mem_singleton.mp hx
        exact (List.prefix_append_right_inj _).mpr
          (List.cons_prefix_cons.mpr ⟨rfl, closeOf_prefix hclose⟩)
      · cases hx
    · simpa using ih hx

theorem paired_decodeTwice (text : List Char) : Paired (decodeTwice b text) :=
  (paired_addSurrogates text).unescape.unescape

theorem paired_flatMap (texts : List (List Char)) : Paired (texts.flatMap (decodeTwice b)) := by
  induction texts with
  | nil => exact .nil
  | cons text texts ih => exact (paired_decodeTwice text).append ih

theorem addSurrogates_flatMap {texts : List (List Char)} {f : List Char → Str}
    (h : ∀ text ∈ texts, addSurrogates (f text) = f text) :
    addSurrogates (texts.flatMap f) = texts.flatMap f := by
  induction texts with
  | nil => rfl
  | cons text texts ih =>
    obtain ⟨htext, htexts⟩ := List.forall_mem_cons.mp h
    rw [List.flatMap_cons, addSurrogates_append, htext, ih htexts]

/-- What an entity selects, if no reference stands for a character beyond the basic plane. -/
theorem select_eq {doc : Document} {x : Element} (hx : x ∈ elements b doc)
    (hplane : ∀ text ∈ x.before ++ x.inside, addSurrogates (decodeTwice b text) =
      decodeTwice b text) :
    (x.entity b).select (removeSurrogates (doc.texts.flatMap (decodeTwice b))) =
      x.inside.flatMap (decodeTwice b) := by
  obtain ⟨after, hafter⟩ := elementsFrom_texts hx
  have hbefore := addSurrogates_flatMap fun text htext => hplane text (List.mem_append_left _ htext)
  have hinside := addSurrogates_flatMap fun text htext =>
    hplane text (List.mem_append_right _ htext)
  rw [Entity.select, (paired_flatMap _).addSurrogates_removeSurrogates, Document.texts,
    ← List.singleton_append, ← hafter,
    List.flatMap_append, List.flatMap_append, addSurrogates_append, addSurrogates_append, hbefore,
      hinside,
    List.append_assoc, Element.entity, List.drop_left, List.take_left]

/-! ### White space that is deleted -/

variable (b) in
/-- No white space is deleted: none in front of the first tag or behind the last one, none
behind the last `>` that the first pattern gets to from the first tag, and none in front of the
`</` that the second pattern gets to from the last one. -/
structure Tight (text : Str) : Prop where
  opening : ∀ front inner rest, text = front ++ .char '<' :: inner ++ .char '>' :: rest →
    (∀ c ∈ front, isSpace c = true) →
    (∀ c ∈ inner, isOpeningChar b c = true) → .char '>' ∉ rest.takeWhile (isOpeningChar b) →
    front = [] ∧ ∀ c ∈ rest.head?, isSpace c = false
  closing : ∀ front inner rest, text = front ++ .char '<' :: .char '/' :: inner ++
    .char '>' :: rest →
    (∀ c ∈ rest, isSpace c = true) →
    (∀ c ∈ inner, isClosingChar b c = true) → rest = [] ∧ ∀ c ∈ front.getLast?, isSpace c = false

theorem stripOpening_eq_self {text : Str} (h : Tight b text) : stripOpening b text = text := by
  unfold stripOpening
  split
  · rename_i rest hrest
    simp only
    split
    · rfl
    · rename_i hinner
      -- the group ends in the last `>` of what the class has
      have hlast := List.rdropWhile_last_not _ _ hinner
      have hend := List.dropLast_append_getLast hinner
      rw [show List.getLast _ hinner = .char '>' by simpa using hlast] at hend
      have hrun := List.rdropWhile_append_rtakeWhile (p := (· ≠ .char '>'))
        (l := rest.takeWhile (isOpeningChar b))
      have htail : ∀ c ∈ (rest.takeWhile (isOpeningChar b)).rtakeWhile (· ≠ .char '>'), c ≠
          .char '>' := fun c hc => by
        simpa using List.mem_rtakeWhile_imp hc
      have hclass : ∀ c ∈ rest.takeWhile (isOpeningChar b), isOpeningChar b c = true :=
        fun c hc => List.mem_takeWhile_imp hc
      have hwhole := List.takeWhile_append_dropWhile (p := isOpeningChar b) (l := rest)
      have hstop := (takeWhile_append (s := []) (by simp) (head_dropWhile (isOpeningChar b) rest)).1
      rw [List.nil_append] at hstop
      generalize (rest.takeWhile (isOpeningChar b)).rdropWhile (· ≠ .char '>') = inner at *
      generalize (rest.takeWhile (isOpeningChar b)).rtakeWhile (· ≠ .char '>') = tail at *
      generalize rest.takeWhile (isOpeningChar b) = run at *
      generalize rest.dropWhile (isOpeningChar b) = behind at *
      subst hrun hwhole
      have hfront : ∀ c ∈ text.takeWhile isSpace, isSpace c = true :=
        fun c hc => List.mem_takeWhile_imp hc
      have htext := List.takeWhile_append_dropWhile (p := isSpace) (l := text)
      rw [hrest] at htext
      obtain ⟨hnil, hhead⟩ := h.opening (text.takeWhile isSpace) inner.dropLast (tail ++ behind)
        (htext.symm.trans (by conv_lhs => rw [← hend]
                              simp)) hfront
        (fun c hc => hclass c (List.mem_append_left _ (List.dropLast_subset _ hc)))
        (by
          rw [List.takeWhile_append_of_pos fun c hc => hclass c (List.mem_append_right _ hc), hstop,
            List.append_nil]
          exact fun hgt => htail _ hgt rfl)
      rw [hnil, List.nil_append] at htext
      have hkeep : (tail ++ behind).dropWhile isSpace = tail ++ behind :=
        (takeWhile_append (s := []) (by simp) hhead).2
      rw [List.append_assoc, List.drop_left, hkeep, ← htext]
      simp
  · rfl

theorem stripClosing_eq_self {text : Str} (h : Tight b text) : stripClosing b text = text := by
  have hbody := List.rdropWhile_append_rtakeWhile (p := isSpace) (l := text)
  have hgroup := List.rdropWhile_append_rtakeWhile (p := isClosingChar b)
    (l := text.rdropWhile isSpace)
  have hspace : ∀ c ∈ text.rtakeWhile isSpace, isSpace c = true :=
    fun c hc => List.mem_rtakeWhile_imp hc
  have hclass : ∀ c ∈ (text.rdropWhile isSpace).rtakeWhile (isClosingChar b), isClosingChar b c =
      true := fun c hc =>
    List.mem_rtakeWhile_imp hc
  unfold stripClosing
  simp only
  split
  · rename_i hcond
    obtain ⟨hlast, a, c, hac⟩ := hcond
    generalize (text.rdropWhile isSpace).rtakeWhile (isClosingChar b) = group at *
    generalize (text.rdropWhile isSpace).rdropWhile (isClosingChar b) = front at *
    have hclosing : ∀ a c, a ++ chars ['<', '/'] ++ c = group →
        text.rtakeWhile isSpace = [] ∧ ∀ d ∈ (front ++ a).getLast?, isSpace d = false := by
      intro a c hac
      obtain ⟨inner, rfl⟩ : ∃ inner, c = inner ++ [.char '>'] := by
        rcases List.eq_nil_or_concat' c with rfl | ⟨inner, d, rfl⟩
        · rw [← hac, List.append_nil, List.getLast?_append] at hlast
          cases hlast
        · rw [← hac, ← List.append_assoc, List.getLast?_concat] at hlast
          exact ⟨inner, by rw [Option.some.inj hlast]⟩
      have htext : text = (front ++ a) ++ .char '<' :: .char '/' :: inner ++
          .char '>' :: text.rtakeWhile isSpace := by
        conv_lhs => rw [← hbody, ← hgroup, ← hac]
        simp
      exact h.closing (front ++ a) inner _ htext hspace fun c hc =>
        hclass c (by rw [← hac]; simp [hc])
    rw [(hclosing a c hac).1, List.append_nil, ← hgroup] at hbody
    split
    · rename_i hpre
      -- the group begins with `</`, and what is in front of it ends without white space
      obtain ⟨d, hd⟩ := hpre
      have hfront := (hclosing [] d hd).2
      rw [List.append_nil] at hfront
      rw [List.rdropWhile_eq_self_iff.mpr fun hne => by
        simp [hfront _ (List.getLast?_eq_some_getLast hne)], hbody]
    · exact hbody
  · rfl

variable (b) in
/-- The entity is returned: it is not empty, and no mention of a peer that is not known. -/
def Element.IsReturned {Peer : Type*} (client : Option (ℤ → Option Peer)) (x : Element) : Prop :=
  0 < (x.entity b).length ∧ (HTML.resolve client (x.entity b)).isSome = true

instance {Peer : Type*} (client : Option (ℤ → Option Peer)) (x : Element) :
    Decidable (x.IsReturned b client) :=
  inferInstanceAs (Decidable (_ ∧ _))

variable (b) in
/-- The references of an element whose entity is returned are decoded once, and those that stand
for a character beyond the basic plane come behind every such entity; no white space is
deleted. -/
structure Straight {Peer : Type*} (client : Option (ℤ → Option Peer)) (doc : Document) : Prop where
  tight : Tight b (chars doc.render)
  plane : ∀ x ∈ elements b doc, x.IsReturned b client →
    ∀ text ∈ x.before ++ x.inside, addSurrogates (decodeTwice b text) = decodeTwice b text
  once : ∀ x ∈ elements b doc, x.IsReturned b client →
    ∀ text ∈ x.inside, decodeTwice b text = decodeOnce b text

/-- **An entity selects what stood between its tags**, with every reference decoded once. -/
theorem parse_selects {Peer : Type*} (client : Option (ℤ → Option Peer)) {doc : Document}
    (hdoc : doc.WellFormed)
    (h : Straight b client doc) {message : Str} {entities : Option (List (Entity × Option Peer))}
    (hparse : HTML.parse b client (chars doc.render) = .ok (message, entities))
    {e : Entity × Option Peer} (he : e ∈ entities.getD []) :
    ∃ x ∈ elements b doc, x.entity b = e.1 ∧ e.1.select message = x.text b := by
  rw [HTML.parse, stripOpening_eq_self h.tight, stripClosing_eq_self h.tight, ← utf16,
    feed_render hdoc] at hparse
  cases hrun : run b .init (doc.events b.html5) with
  | error err =>
    rw [hrun] at hparse
    cases hparse
  | ok st =>
    rw [hrun] at hparse
    obtain ⟨hmessage, hentities⟩ := Prod.mk.inj (Except.ok.inj hparse)
    obtain ⟨htext, hmem⟩ := mem_entities_iff hrun
    rw [← hentities, HTML.getD_returned, HTML.mem_returned_iff] at he
    obtain ⟨⟨e₀, he₀, hresolve⟩, hpos⟩ := he
    obtain ⟨x, hx, hxe⟩ := (hmem e.1).mp (HTML.resolve_fst hresolve ▸ he₀)
    refine ⟨x, hx, hxe, ?_⟩
    have hreturned : x.IsReturned b client := by
      rw [Element.IsReturned, hxe, HTML.resolve_fst hresolve]
      exact ⟨HTML.resolve_fst hresolve ▸ hpos, by rw [hresolve]; rfl⟩
    rw [← hxe]
    have hplane := h.plane x hx hreturned
    have honce := h.once x hx hreturned
    rw [← hmessage, htext, select_eq hx hplane, Element.text, ← List.flatMap_congr honce,
      addSurrogates_flatMap fun text htext => hplane text (List.mem_append_right _ htext)]

/-- A text without white space loses none. -/
theorem tight_of_forall {text : Str} (h : ∀ c ∈ text, isSpace c = false) : Tight b text := by
  have hnil : ∀ s : Str, (∀ c ∈ s, c ∈ text) → (∀ c ∈ s, isSpace c = true) → s = [] := by
    intro s hs hspace
    refine List.eq_nil_iff_forall_not_mem.mpr fun c hc => ?_
    have hfalse := h c (hs c hc)
    rw [hspace c hc] at hfalse
    cases hfalse
  constructor
  · intro front inner rest htext hspace _ _
    refine ⟨hnil front (fun c hc => htext ▸ by simp [hc]) hspace, fun c hc => h c ?_⟩
    have hmem := List.mem_of_mem_head? hc
    exact htext ▸ by simp [hmem]
  · intro front inner rest htext hspace _
    refine ⟨hnil rest (fun c hc => htext ▸ by simp [hc]) hspace, fun c hc => h c ?_⟩
    have hmem := List.mem_of_getLast? hc
    exact htext ▸ by simp [hmem]

end

/-! ### Two documents -/

/-- The ASCII part of the tables. -/
def asciiBuiltins : Builtins where
  html5 name := if name = "amp;".toList then some ['&'] else if name = "lt;".toList then some ['<']
    else none
  isWord c := c.isAlphanum || c = '_'
  isDecimal := Char.isDigit
  int s := if s ≠ [] ∧ s.all (isDigit 10) then some (readNumber 10 s) else none

/-- `a<b>&lt;c</b>` -/
def boldDocument : Document := ⟨['a'], [(.opening ['b'] [], "&lt;c".toList), (.closing ['b'], [])]⟩

theorem forall_isSpace_of_all {cs : Str} (h : cs.all (!isSpace ·) = true) :
    ∀ c ∈ cs, isSpace c = false := by
  simpa using h

/-- A document whose parser returns one entity. -/
theorem parse_of_run {doc : Document} (hspace : ∀ c ∈ chars doc.render, isSpace c = false)
    {text : Str} {type : RawType} {offset n : ℕ}
    (hrun : ∃ f, run asciiBuiltins .init (feed asciiBuiltins.html5 (utf16 doc.render)) =
      .ok ⟨text, [⟨type, offset, n + 1⟩], f⟩)
    (htype : HTML.resolve (none : Option (ℤ → Option Unit)) ⟨type, offset, n + 1⟩ =
      some (⟨type, offset, n + 1⟩, none)) :
    HTML.parse asciiBuiltins (none : Option (ℤ → Option Unit)) (chars doc.render) =
      .ok (removeSurrogates text, some [(⟨type, offset, n + 1⟩, none)]) := by
  obtain ⟨f, hrun⟩ := hrun
  rw [HTML.parse, stripOpening_eq_self (tight_of_forall hspace),
    stripClosing_eq_self (tight_of_forall hspace), ← utf16,
    hrun]
  simp [Except.map, HTML.returned, htype]

/-- A reference within a bold text. -/
theorem parse_selects_bold : ∃ x ∈ elements asciiBuiltins boldDocument, x.entity asciiBuiltins =
    ⟨.bold, 1, 2⟩ ∧
    Entity.select ⟨.bold, 1, 2⟩ (removeSurrogates (chars "a<c".toList)) = x.text asciiBuiltins := by
  have hspace := @forall_isSpace_of_all (chars boldDocument.render) rfl
  have hdoc : boldDocument.WellFormed := ⟨by decide, by decide⟩
  have hstraight : Straight asciiBuiltins (none : Option (ℤ → Option Unit)) boldDocument :=
    ⟨tight_of_forall hspace, by decide, by decide⟩
  have hrun : ∃ f, run asciiBuiltins .init (feed asciiBuiltins.html5 (utf16 boldDocument.render)) =
      .ok ⟨chars "a<c".toList, [⟨.bold, 1, 2⟩], f⟩ := ⟨_, rfl⟩
  have hparse := parse_of_run hspace hrun rfl
  exact parse_selects none hdoc hstraight hparse List.mem_cons_self

/-- `&#128512;<b>a</b>` -/
def emojiDocument : Document :=
  ⟨"&#128512;".toList, [(.opening ['b'] [], ['a']), (.closing ['b'], [])]⟩

/-- A reference to a character beyond the basic plane moves what is selected. -/
theorem selects_surrogate : ∃ message entities,
    emojiDocument.WellFormed ∧ HTML.parse asciiBuiltins (none : Option (ℤ → Option Unit))
      (chars emojiDocument.render) = .ok (message, some entities) ∧
      ∃ e ∈ entities, ¬∃ x ∈ elements asciiBuiltins emojiDocument, x.entity asciiBuiltins = e.1 ∧
        e.1.select message = x.text asciiBuiltins := by
  have hspace := @forall_isSpace_of_all (chars emojiDocument.render) rfl
  have hrun : ∃ f, run asciiBuiltins .init (feed asciiBuiltins.html5 (utf16 emojiDocument.render)) =
      .ok ⟨chars ['😀', 'a'], [⟨.bold, 1, 1⟩], f⟩ := ⟨_, rfl⟩
  refine ⟨_, _, ⟨by decide, by decide⟩, parse_of_run hspace hrun rfl, _, List.mem_cons_self, ?_⟩
  decide

end HTMLParser

end Pyrogram.Parser
