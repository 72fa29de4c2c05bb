import Pyrogram.Parser.HtmlParse
import Pyrogram.Parser.MarkdownParse

/-!
# Texts without markup

A text that has no `<` and no `&` is all that `HTML.parse` returns of it.  `Markdown.parse` gives it
to `HTML.parse` as it is where none of its delimiters stands in it, no link begins and no line is
quoted; what is left is to put its lines together again, and they end in `\n` only.

## Main definitions

* `HTML.Unmarked`, `Markdown.Unmarked` — no markup of the one parser, and of the other.

## Main results

* `HTML.parse_eq_self`, `Markdown.toHtml_eq_self` — **a text without markup is left alone.**
-/

namespace Pyrogram.Parser

open Utf8 (CodePoint)

/-! ### HTML -/

theorem unescape_eq_self {html5 : List Char → Option (List Char)} {s : Str} (h : .char '&' ∉ s) :
    unescape html5 s = s := by
  induction s with
  | nil => rfl
  | cons p s ih =>
    obtain ⟨hp, hs⟩ := List.ne_and_not_mem_of_not_mem_cons h
    rw [unescape, unescapeFrom, if_neg hp.symm]
    exact congrArg _ (ih hs)

namespace HTML

open HTMLParser

variable {b : Builtins} {t : List Char}

theorem tight_of_not_mem (h : '<' ∉ t) : Tight b (chars t) := by
  have hnot : .char '<' ∉ chars t := fun hmem => by
    obtain ⟨c, hc, heq⟩ := List.mem_map.mp hmem
    exact h (CodePoint.char.inj heq ▸ hc)
  constructor
  · intro front inner rest htext
    exact absurd (htext ▸ by simp) hnot
  · intro front inner rest htext
    exact absurd (htext ▸ by simp) hnot

/-- The text of a document without tags is all that the parser has in the end. -/
theorem run_text (h : '&' ∉ t) :
    ∃ f, run b .init (dataEvents b.html5 t) = .ok ⟨utf16 t, [], f⟩ := by
  have hnot : .char '&' ∉ utf16 t := fun hmem => h (mem_of_mem_utf16 hmem)
  rw [← List.append_nil (dataEvents b.html5 t), run_dataEvents]
  refine ⟨(handleData b .init (utf16 t)).tagEntities, ?_⟩
  rw [run, decodeOnce, unescape_eq_self hnot, handleData, unescape_eq_self hnot]
  rfl

/-- No markup of `HTML.parse`: no tag and no reference. -/
def Unmarked (text : Str) : Prop := ∃ t : List Char, text = chars t ∧ '<' ∉ t ∧ '&' ∉ t

/-- **A text without tags and references is returned as it is.** -/
theorem parse_eq_self {Peer : Type*} (client : Option (ℤ → Option Peer)) {text : Str}
    (h : Unmarked text) :
    HTML.parse b client text = .ok (text, none) := by
  obtain ⟨t, rfl, hlt, hamp⟩ := h
  have hdoc : (⟨t, []⟩ : Document).WellFormed :=
    ⟨hlt, fun part hpart => absurd hpart List.not_mem_nil⟩
  have hfeed : feed b.html5 (utf16 t) = dataEvents b.html5 t := by
    simpa [Document.render, Document.events] using feed_render hdoc
  obtain ⟨f, hrun⟩ := @run_text b t hamp
  rw [HTML.parse, stripOpening_eq_self (tight_of_not_mem hlt),
    stripClosing_eq_self (tight_of_not_mem hlt), ← utf16, hfeed, hrun]
  have hmessage : removeSurrogates (utf16 t) = chars t :=
    removeSurrogates_eq (addSurrogates_addSurrogates _)
  simp [Except.map, returned, hmessage]

end HTML

namespace Markdown

/-! ### The lines -/

theorem splitlinesFrom_ne_nil {line text : Str} (h : line ++ text ≠ []) :
    splitlinesFrom line text ≠ [] := by
  fun_induction splitlinesFrom line text with
  | case1 => exact absurd rfl h
  | case2 => exact List.cons_ne_nil _ _
  | case3 => exact List.cons_ne_nil _ _
  | case4 => exact List.cons_ne_nil _ _
  | case5 line c text _ _ ih => exact ih (by simp)

/-- Lines that end in `\n` only are put together again. -/
theorem joined_splitlinesFrom {line text : Str}
    (hbreak : ∀ p ∈ text, p ∈ lineBreaks → p = .char '\n')
    (hlast : text.getLast? ≠ some (.char '\n')) : joined (splitlinesFrom line text) = line ++
      text := by
  fun_induction splitlinesFrom line text with
  | case1 => rfl
  | case2 line => simp [joined]
  | case3 line text ih => cases hbreak (.char '\r') List.mem_cons_self (by decide)
  | case4 line c text _ hc ih =>
    obtain rfl := hbreak c List.mem_cons_self hc
    -- the text goes on behind the end of a line
    have hne : text ≠ [] := by
      rintro rfl
      exact hlast rfl
    have hlast' : text.getLast? ≠ some (.char '\n') := by
      rwa [List.getLast?_cons_of_ne_nil hne] at hlast
    have htail : joined (splitlinesFrom [] text) = text :=
      ih (fun p hp => hbreak p (List.mem_cons_of_mem _ hp)) hlast'
    obtain ⟨l, ls, hls⟩ := List.exists_cons_of_ne_nil (@splitlinesFrom_ne_nil [] _ hne)
    rw [hls] at htail ⊢
    rw [joined, List.intercalate_cons_cons, ← joined, htail]
    simp
  | case5 line c text _ hc ih =>
    have hlast' : text.getLast? ≠ some (.char '\n') := by
      intro h
      have hne : text ≠ [] := by
        rintro rfl
        cases h
      exact hlast (by rwa [List.getLast?_cons_of_ne_nil hne])
    rw [ih (fun p hp => hbreak p (List.mem_cons_of_mem _ hp)) hlast']
    simp

/-- A line has nothing that the text does not have. -/
theorem mem_of_splitlinesFrom {line text l : Str} (hl : l ∈ splitlinesFrom line text) :
    ∀ p ∈ l, p ∈ line ++ text := by
  fun_induction splitlinesFrom line text with
  | case1 => cases hl
  | case2 line _ => simp [List.mem_singleton.mp hl]
  | case3 line text ih =>
    rcases List.mem_cons.mp hl with rfl | hl
    · exact fun p hp => List.mem_append_left _ hp
    · exact fun p hp =>
        List.mem_append_right _ (List.mem_cons_of_mem _ (List.mem_cons_of_mem _ (ih hl p hp)))
  | case4 line c text _ _ ih =>
    rcases List.mem_cons.mp hl with rfl | hl
    · exact fun p hp => List.mem_append_left _ hp
    · exact fun p hp => List.mem_append_right _ (List.mem_cons_of_mem _ (ih hl p hp))
  | case5 line c text _ _ ih =>
    intro p hp
    simpa using ih hl p hp

/-! ### Markdown -/

/-- No markup of `Markdown.parse`: no delimiter, no link and no quote, no line that ends in anything
but `\n` or with the text, and where the lines are escaped, nothing to escape. -/
structure Unmarked (strict : Bool) (text : Str) : Prop where
  delims : ∀ delim ∈ delims, ¬ delim <:+: text
  link : .char '[' ∉ text
  quote : .char '>' ∉ text
  breaks : ∀ p ∈ text, p ∈ lineBreaks → p = .char '\n'
  last : text.getLast? ≠ some (.char '\n')
  escaped : strict = true → ∀ c ∈ ['&', '<', '>', '\x22', '\x27'], .char c ∉ text

theorem escape_eq_self {s : Str} (h : ∀ c ∈ ['&', '<', '>', '\x22', '\x27'], .char c ∉ s) :
    escape s = s := by
  induction s with
  | nil => rfl
  | cons p s ih =>
    have hs : escape s = s := ih fun c hc hmem => h c hc (List.mem_cons_of_mem _ hmem)
    rw [← List.singleton_append, escape_append, hs]
    congr 1
    cases p with
    | surrogate n => rfl
    | char c =>
      have hc : c ∉ ['&', '<', '>', '\x22', '\x27'] := fun hc => h c hc List.mem_cons_self
      have hchar : escapeChar c = [c] := by
        unfold escapeChar
        split <;> first | rfl | exact absurd (by simp) hc
      show chars (escapeChar c) ++ [] = _
      rw [hchar]
      rfl

theorem not_isPrefixOf_of_not_mem {delim line : Str} (hdelim : .char '>' ∈ delim)
    (hline : .char '>' ∉ line) :
    ¬ delim.isPrefixOf line = true :=
      fun h => hline ((List.isPrefixOf_iff_prefix.mp h).subset hdelim)

theorem loop_eq_self {f : Quoting → ℕ → Str → Quoting} {s : Quoting} (h : ∀ i, s.visit f i = s) :
    s.loop f = s :=
  List.foldl_fixed' h _

/-- A round that leaves every line alone. -/
theorem visit_start {f : Quoting → ℕ → Str → Quoting} {lines : List Str}
    (h : ∀ line ∈ lines, ∀ i, f (start lines) i line = start lines) (i : ℕ) :
    (start lines).visit f i = start lines := by
  have hget : (start lines).textLines[i]? = lines[i]?.map fun line => some (.line line) :=
    List.getElem?_map
  rw [Quoting.visit, hget]
  cases hline : lines[i]? with
  | none => rfl
  | some line => exact h line (List.mem_of_getElem? hline) i

/-- Where no line is quoted, the lines are as they were. -/
theorem quoted_eq_start {strict : Bool} {lines : List Str} (h : ∀ line ∈ lines, .char '>' ∉ line) :
    quoted strict lines = start lines := by
  have hexpandable : (start lines).loop (Quoting.expandableLine strict) = start lines := by
    refine loop_eq_self (visit_start fun line hline i => ?_)
    have hopen : ¬ blockquoteExpandableDelim.isPrefixOf line = true :=
      not_isPrefixOf_of_not_mem (by decide) (h line hline)
    simp [Quoting.expandableLine, hopen, start]
  have hquote : (start lines).loop (Quoting.quoteLine strict) = start lines := by
    refine loop_eq_self (visit_start fun line hline i => ?_)
    rw [quoteLine_eq_createBlockquote (not_isPrefixOf_of_not_mem (by decide) (h line hline)),
      createBlockquote_of_empty rfl]
  rw [quoted, hexpandable, hquote, createBlockquote_of_empty rfl]

variable {strict : Bool} {text : Str}

/-- Nothing is quoted, and nothing escaped. -/
theorem Unmarked.escapeAndCreateQuotes (h : Unmarked strict text) :
    escapeAndCreateQuotes text strict = .ok text := by
  have hlines : ∀ line ∈ splitlines text, ∀ p ∈ line, p ∈ text :=
    fun line hline p hp => mem_of_splitlinesFrom hline p hp
  have hquoted := @quoted_eq_start strict (splitlines text) fun line hline hp =>
    h.quote (hlines line hline _ hp)
  have hparsed : ∀ line ∈ splitlines text, parsedLine strict line = line := by
    intro line hline
    cases strict with
    | false => rfl
    | true => exact escape_eq_self fun c hc hp => h.escaped rfl c hc (hlines line hline _ hp)
  have hentries : (((start (splitlines text)).textLines.map (escapeEntry strict)).filterMap id).map
      Entry.text = splitlines text := by
    show (((rawCells (splitlines text)).map (escapeEntry strict)).filterMap id).map Entry.text =
      splitlines text
    generalize splitlines text = lines at hparsed
    induction lines with
    | nil => rfl
    | cons line lines ih =>
      obtain ⟨hline, htail⟩ := List.forall_mem_cons.mp hparsed
      rw [rawCells_cons, List.map_cons, escapeEntry, hline]
      exact congrArg (line :: ·) (ih htail)
  rw [Markdown.escapeAndCreateQuotes, textLines_eq, hquoted, Except.bind_ok, hentries]
  exact congrArg Except.ok (joined_splitlinesFrom h.breaks h.last)

theorem linkAt_eq_none (h : .char '[' ∉ text) : linkAt text = none := by
  unfold linkAt
  split
  · exact absurd List.mem_cons_self h
  · rfl

/-- No match begins where no delimiter and no bracket stands. -/
theorem matchAt_eq_none (hdelims : ∀ delim ∈ Markdown.delims, ¬ delim <:+: text)
    (hlink : .char '[' ∉ text) : matchAt text = none := by
  have hfind : Markdown.delims.find? (·.isPrefixOf text) = none :=
    List.find?_eq_none.mpr fun delim hdelim hp =>
      hdelims delim hdelim (List.isPrefixOf_iff_prefix.mp hp).isInfix
  unfold matchAt
  rw [hfind]
  dsimp only
  split
  · rw [linkAt_eq_none fun hmem => hlink (List.mem_cons_of_mem _ hmem)]
    rfl
  · rw [linkAt_eq_none hlink]
    rfl

theorem finditerFrom_eq_nil {fuel start : ℕ}
    (hdelims : ∀ delim ∈ Markdown.delims, ¬ delim <:+: text) (hlink : .char '[' ∉ text) :
    finditerFrom fuel start text = [] := by
  induction fuel generalizing start text with
  | zero => rfl
  | succ fuel ih =>
    cases text with
    | nil => rfl
    | cons c text =>
      rw [finditerFrom, matchAt_eq_none hdelims hlink]
      exact ih (fun delim hdelim hpart =>
        hdelims delim hdelim (hpart.trans (List.suffix_cons c text).isInfix))
        fun hmem => hlink (List.mem_cons_of_mem _ hmem)

/-- **A text without markup becomes itself as HTML.** -/
theorem toHtml_eq_self (urls : Urls) (h : Unmarked strict text) :
    toHtml urls text strict = .ok text := by
  rw [toHtml, h.escapeAndCreateQuotes, Except.bind_ok, finditer,
    finditerFrom_eq_nil h.delims h.link]
  rfl

end Markdown

end Pyrogram.Parser
