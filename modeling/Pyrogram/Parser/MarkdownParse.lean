import Pyrogram.Parser.MarkdownQuotes

/-!
# Parsing Markdown

`Markdown.parse` turns a text into HTML: first the quotes, then what `MARKDOWN_RE` finds, a match
after the other.  The matches are those of the text before anything is replaced, and a replacement
is the first one from the place where its match was; `HTML.parse` does the rest.

## Main definitions

* `matchAt`, `finditer` — the regular expression.
* `Pass`, `Pass.next` — a round of the loop.
* `parse` — the function.
-/

namespace Pyrogram.Parser.Markdown

def codeDelim : Str := chars ['\x60']

def preDelim : Str := chars ['\x60', '\x60', '\x60']

def strikeDelim : Str := chars ['~', '~']

def underlineDelim : Str := chars ['-', '-']

def italicDelim : Str := chars ['_', '_']

def boldDelim : Str := chars ['*', '*']

def spoilerDelim : Str := chars ['|', '|']

/-- The delimiters, in the order of the regular expression. -/
def delims : List Str :=
  [preDelim, codeDelim, strikeDelim, underlineDelim, italicDelim, boldDelim, spoilerDelim]

/-! ### Matches -/

/-- The groups of a match. -/
inductive Groups
  | delim (delim : Str)
  | link (isEmojiLike : Bool) (textUrl url : Str)
  deriving DecidableEq, Repr

/-- `(.+?)` and what is behind it: the shortest text that the rest goes on from. -/
def lazily {α : Type} (rest : Str → Option α) : Str → Option (Str × α)
  | [] => none
  | c :: text =>
      if c = .char '\n' then none
      else
        match rest text with
        | some a => some ([c], a)
        | none => (lazily rest text).map fun x => (c :: x.1, x.2)

/-- `\[(.+?)\]\((.+?)\)`, with what is left. -/
def linkAt : Str → Option (Str × Str × Str)
  | .char '[' :: text =>
      lazily (fun
        | .char ']' :: .char '(' :: text => lazily (fun
            | .char ')' :: text => some text
            | _ => none) text
        | _ => none) text
  | _ => none

/-- A match at the beginning of a text, with what is left. -/
def matchAt (text : Str) : Option (Groups × Str) :=
  match delims.find? (·.isPrefixOf text) with
  | some delim => some (.delim delim, text.drop delim.length)
  | none =>
      match text with
      | .char '!' :: rest => (linkAt rest).map fun x => (.link true x.1 x.2.1, x.2.2)
      | _ => (linkAt text).map fun x => (.link false x.1 x.2.1, x.2.2)

/-- A match: its groups, where it starts, and all of it. -/
structure Match where
  groups : Groups
  start : ℕ
  full : Str
  deriving DecidableEq, Repr

/-- `re.finditer`, from a place in the text on. -/
def finditerFrom : ℕ → ℕ → Str → List Match
  | 0, _, _ => []
  | _ + 1, _, [] => []
  | fuel + 1, start, c :: text =>
      match matchAt (c :: text) with
      | some (groups, rest) =>
          let length := (c :: text).length - rest.length
          ⟨groups, start, (c :: text).take length⟩ :: finditerFrom fuel (start + length) rest
      | none => finditerFrom fuel (start + 1) text

def finditer (text : Str) : List Match := finditerFrom text.length 0 text

/-! ### Replacements -/

/-- `text.find(sub)` -/
def find (sub : Str) : Str → Option ℕ
  | [] => if sub = [] then some 0 else none
  | c :: text => if sub.isPrefixOf (c :: text) then some 0 else (find sub text).map (· + 1)

/-- `source[:start] + source[start:].replace(old, new, 1)` -/
def replaceOnce (source old new : Str) (start : ℕ) : Str :=
  match find old (source.drop start) with
  | some i => source.take (start + i) ++ new ++ source.drop (start + i + old.length)
  | none => source

/-- What `urllib.parse` makes of an address. -/
structure Urls where
  /-- `urlparse(url).netloc` -/
  netloc : Str → Except Exc Str
  /-- `parse_qs(urlparse(url).query).get(key, [""])[0]` -/
  param : Str → String → Str

def str (s : String) : Str := chars s.toList

/-- ` name="value"` -/
def attr (name : String) (value : Str) : Str :=
  str " " ++ str name ++ chars ['=', '\x22'] ++ value ++ chars ['\x22']

def opening (tag : Str) : Str := str "<" ++ tag ++ str ">"

def closing (tag : Str) : Str := str "</" ++ tag ++ str ">"

/-- The markup of a date or of a custom emoji; any other address is left alone. -/
def emojiLikeMarkup (urls : Urls) (url emojiDate : Str) : Except Exc (Option Str) := do
  let netloc ← urls.netloc url
  if netloc = str "time" then
    let unixTime := urls.param url "unix"
    let dateTimeFormat := urls.param url "format"
    if dateTimeFormat ≠ [] then
      .ok (some (opening (str "tg-time" ++ attr "unix" unixTime ++ attr "format" dateTimeFormat) ++
        emojiDate ++
        closing (str "tg-time")))
    else .ok (some (opening (str "tg-time" ++ attr "unix" unixTime) ++ emojiDate ++
      closing (str "tg-time")))
  else if netloc = str "emoji" then
    .ok (some (opening (str "tg-emoji" ++ attr "emoji-id" (urls.param url "id")) ++ emojiDate ++
      closing (str "tg-emoji")))
  else .ok none

def tagOf (delim : Str) : Str :=
  if delim = boldDelim then str "b"
  else if delim = italicDelim then str "i"
  else if delim = underlineDelim then str "u"
  else if delim = strikeDelim then str "s"
  else if delim = codeDelim then str "code"
  else if delim = preDelim then str "pre"
  else str "spoiler"

/-- `text[text.find(PRE_DELIM) :].split("\n")[0]` -/
def delimAndLanguage (text : Str) : Str :=
  -- `find` is -1 where there is none
  let start := (find preDelim text).getD (text.length - 1)
  (text.drop start).takeWhile (· ≠ .char '\n')

/-! ### The loop -/

/-- The variables of `parse`; `delims` are those that are open. -/
structure Pass where
  text : Str
  delims : List Str
  isFixedWidth : Bool

namespace Pass

local instance lawfulBEq_str : LawfulBEq Str := inferInstance

/-- A delimiter becomes a tag. -/
def delimiter (s : Pass) (delim : Str) (start : ℕ) : Pass :=
  if delim ∈ s.delims then
    { s with
      delims := s.delims.erase delim
      text := replaceOnce s.text delim (closing (tagOf delim)) start }
  else
    let delims := delim :: s.delims
    if delim = preDelim then
      let delimAndLanguage := delimAndLanguage s.text
      let language := delimAndLanguage.drop preDelim.length
      { s with
        delims
        text := replaceOnce s.text delimAndLanguage
          (opening (str "pre" ++ attr "language" language)) start }
    else { s with delims, text := replaceOnce s.text delim (opening (tagOf delim)) start }

/-- A round of the loop. -/
def next (urls : Urls) (s : Pass) (m : Match) : Except Exc Pass :=
  let isFixed : Bool := m.groups = .delim codeDelim ∨ m.groups = .delim preDelim
  let s := if isFixed then { s with isFixedWidth := !s.isFixedWidth } else s
  if s.isFixedWidth ∧ ¬ isFixed then .ok s
  else
    match m.groups with
    | .link false textUrl url =>
        .ok { s with text := replaceOnce s.text m.full (opening (str "a" ++ attr "href" url) ++
          textUrl ++ closing (str "a")) m.start }
    | .link true textUrl url => do
        match ← emojiLikeMarkup urls url textUrl with
        | some markup => .ok { s with text := replaceOnce s.text m.full markup m.start }
        | none => .ok s
    | .delim delim => .ok (s.delimiter delim m.start)

end Pass

/-- `Markdown.parse` up to its last line: the text as HTML. -/
def toHtml (urls : Urls) (text : Str) (strict : Bool) : Except Exc Str := do
  let text ← escapeAndCreateQuotes text strict
  let s ← (finditer text).foldlM (Pass.next urls) ⟨text, [], false⟩
  .ok s.text

/-- `Markdown.parse`, over `HTML.parse`, which has exceptions of its own. -/
def parse {ε α : Type} (exc : Exc → ε) (urls : Urls) (html : Str → Except ε α) (text : Str)
    (strict : Bool) : Except ε α := do
  html (← (toHtml urls text strict).mapError exc)

@[simp] theorem toHtml_nil (urls : Urls) (strict : Bool) : toHtml urls [] strict = .ok [] := by
  cases strict with
  | false => rfl
  | true => rfl

theorem parse_of_toHtml {ε α : Type} {exc : Exc → ε} {urls : Urls} {html : Str → Except ε α}
    {text markup : Str} {strict : Bool}
    (h : toHtml urls text strict = .ok markup) : parse exc urls html text strict = html markup := by
  rw [parse, h]
  rfl

end Pyrogram.Parser.Markdown
