import Pyrogram.Errors
import Pyrogram.Parser.Utils
import Mathlib.Data.List.Basic
import Mathlib.Data.List.Forall2
import Mathlib.Tactic.Common

/-!
# Quotes in Markdown

`Markdown.escape_and_create_quotes` goes through the lines of a text twice: first for the expandable
quotes, from `**>` to a line that ends with `||`, and then for the lines behind `>`.  The lines of a
quote are put in a queue, and when the quote is over its first line becomes the whole quote and the
others are blanked out.  The queue is shared: an expandable quote that is never closed is still in
it when the second pass begins.

## Main definitions

* `textLines`, `escapeAndCreateQuotes` — the function.
* `shown` — which lines of the text are shown, in which order.
* `unmarked` — the lines of a text without their marks.
* `pieces` — a text as single lines and closed expandable quotes.
* `Keeps` — every line is shown once and in its place.

## Main results

* `expandable_run`, `quote_run` — what the two passes make of the pieces.
* `swallowed_quoted` — a quote that swallows the first line.
* `keeps_iff` — **when no text is lost or moved**.
-/

namespace Pyrogram.Parser.Markdown

/-! ### Lines -/

/-- Where `str.splitlines` ends a line. -/
def lineBreaks : Str :=
  chars ['\n', '\r', '\x0b', '\x0c', '\x1c', '\x1d', '\x1e', Char.ofNat 0x85, Char.ofNat 0x2028,
    Char.ofNat 0x2029]

/-- `str.splitlines`, with the line so far. -/
def splitlinesFrom : Str → Str → List Str
  | line, [] => if line = [] then [] else [line]
  | line, .char '\r' :: .char '\n' :: text => line :: splitlinesFrom [] text
  | line, c :: text =>
      if c ∈ lineBreaks then line :: splitlinesFrom [] text else splitlinesFrom (line ++ [c]) text

def splitlines (text : Str) : List Str := splitlinesFrom [] text

def blockquoteDelim : Str := chars ['>']

def blockquoteExpandableDelim : Str := chars ['*', '*', '>']

def blockquoteExpandableEndDelim : Str := chars ['|', '|']

/-- `line` behind a delimiter and one space. -/
def afterDelim (delim line : Str) : Str :=
  line.drop (delim.length + if (delim ++ chars [' ']).isPrefixOf line then 1 else 0)

/-- A closing line of an expandable quote, without its marks. -/
def unwrappedLine (line : Str) : Str :=
  let unwrapped := if blockquoteDelim.isPrefixOf line then afterDelim blockquoteDelim line else line
  unwrapped.take (unwrapped.length - blockquoteExpandableEndDelim.length)

def parsedLine (strict : Bool) (line : Str) : Str := if strict then escape line else line

/-! ### The function -/

/-- An entry of `text_lines`: a line, or a quote with the lines that were joined in it. -/
inductive Entry
  | line (text : Str)
  | blockquote (expandable : Bool) (lines : List (ℕ × Str))
  deriving DecidableEq

/-- `"\n".join`. -/
def joined (lines : List Str) : Str := (chars ['\n']).intercalate lines

def Entry.text : Entry → Str
  | .line text => text
  | .blockquote expandable lines =>
      chars ("<blockquote".toList ++ (if expandable then " expandable".toList else []) ++
        ">".toList) ++
        joined (lines.map Prod.snd) ++ chars "</blockquote>".toList

/-- The variables of `escape_and_create_quotes`. -/
structure Quoting where
  textLines : List (Option Entry)
  htmlEscapedList : List ℕ
  toQuoteList : List (ℕ × Str)
  insideBlockquote : Bool

namespace Quoting

def enqueue (s : Quoting) (index : ℕ) (parsed : Str) : Quoting :=
  { s with
    toQuoteList := s.toQuoteList ++ [(index, parsed)]
    htmlEscapedList := s.htmlEscapedList ++ [index] }

def createBlockquote (s : Quoting) (expandable : Bool) : Quoting :=
  match s.toQuoteList with
  | [] => s
  | (firstLineIndex, _) :: toRemove =>
      let lines := s.textLines.set firstLineIndex (some (.blockquote expandable s.toQuoteList))
      { s with
        textLines := toRemove.foldl (fun lines x => lines.set x.1 none) lines
        toQuoteList := [] }

/-- A round of the first loop, on a line. -/
def expandableLine (strict : Bool) (s : Quoting) (index : ℕ) (line : Str) : Quoting :=
  if blockquoteExpandableDelim.isPrefixOf line ∧ !s.insideBlockquote then
    { s.enqueue index
      (parsedLine strict (afterDelim blockquoteExpandableDelim line)) with insideBlockquote :=
      true }
  else
    let s :=
      if blockquoteExpandableEndDelim.isSuffixOf line ∧ s.insideBlockquote then
        { s.enqueue index (parsedLine strict (unwrappedLine line)) with insideBlockquote := false
          }.createBlockquote true
      else s
    -- not reached by a line that has just closed the quote
    if s.insideBlockquote then s.enqueue index (parsedLine strict (afterDelim blockquoteDelim line))
      else s

/-- A round of the second loop, on a line. -/
def quoteLine (strict : Bool) (s : Quoting) (index : ℕ) (line : Str) : Quoting :=
  if blockquoteDelim.isPrefixOf line then s.enqueue index
    (parsedLine strict (afterDelim blockquoteDelim line))
  else if 0 < s.toQuoteList.length then s.createBlockquote false
  else s

/-- `for index, line in enumerate(text_lines)`: the list is read as it is now, and `None` is
skipped. -/
def visit (body : Quoting → ℕ → Str → Quoting) (s : Quoting) (index : ℕ) : Quoting :=
  match s.textLines[index]? with
  | some (some entry) => body s index entry.text
  | _ => s

def loop (body : Quoting → ℕ → Str → Quoting) (s : Quoting) : Quoting :=
  (List.range s.textLines.length).foldl (visit body) s

/-- The last loop: what is not escaped yet. -/
def escapeRest (s : Quoting) (strict : Bool) : Except Exc (List (Option Entry)) :=
  s.textLines.zipIdx.mapM fun x =>
    if strict ∧ x.2 ∉ s.htmlEscapedList then
      match x.1 with
      | some entry => .ok (some (.line (escape entry.text)))
      | none => .error (.other "AttributeError")
    else .ok x.1

end Quoting

open Quoting

/-- `text_lines` before the first loop. -/
def start (lines : List Str) : Quoting := ⟨lines.map fun line => some (.line line), [], [], false⟩

/-- `text_lines` in the end. -/
def textLines (text : Str) (strict : Bool) : Except Exc (List (Option Entry)) :=
  let s := (start (splitlines text)).loop (expandableLine strict)
  ((s.loop (quoteLine strict)).createBlockquote false).escapeRest strict

def escapeAndCreateQuotes (text : Str) (strict : Bool) : Except Exc Str := do
  let lines ← textLines text strict
  .ok (joined ((lines.filterMap id).map Entry.text))

/-! ### What is shown -/

/-- A line behind a mark or not, and its text. -/
abbrev Shown := Bool × Str

/-- The lines that an entry shows, each with its index in the text. -/
def Entry.shown (position : ℕ) : Option Entry → List (Shown × ℕ)
  | none => []
  | some (.line text) => [((false, text), position)]
  | some (.blockquote _ lines) => lines.map fun x => ((true, x.2), x.1)

def shown (position : ℕ) (lines : List (Option Entry)) : List (Shown × ℕ) :=
  (lines.zipIdx position).flatMap fun x => Entry.shown x.2 x.1

/-- Whether an expandable quote is open after a line. -/
def opens (inside : Bool) (line : Str) : Bool :=
  if inside then !blockquoteExpandableEndDelim.isSuffixOf line
    else blockquoteExpandableDelim.isPrefixOf line

/-- A line of an open quote without its mark. -/
def withoutMark (line : Str) : Str :=
  if blockquoteDelim.isPrefixOf line then afterDelim blockquoteDelim line else line

/-- The lines of a text, each without its marks; `inner` takes the mark from a line of an open
quote. -/
def unmarked (inner : Str → Str) : Bool → List Str → List Shown
  | _, [] => []
  | false, line :: lines =>
      (if opens false line then (true, afterDelim blockquoteExpandableDelim line)
        else if blockquoteDelim.isPrefixOf line then (true, afterDelim blockquoteDelim line)
        else (false, line)) :: unmarked inner (opens false line) lines
  | true, line :: lines =>
      (true, if opens true line then inner line else unwrappedLine line) :: unmarked inner
        (opens true line) lines

/-- No line is lost, doubled or moved: the entries show every line once and in its place, without
its mark, in a quote if it has one, and escaped once. -/
def Keeps (text : Str) (strict : Bool) : Prop :=
  ∃ lines, textLines text strict = .ok lines ∧
    shown 0 lines = ((unmarked withoutMark false (splitlines text)).map fun x =>
      (x.1, parsedLine strict x.2)).zipIdx

/-! ### Entries side by side -/

abbrev Cells := List (Option Entry)

theorem shown_append (k : ℕ) (a b : Cells) :
    shown k (a ++ b) = shown k a ++ shown (k + a.length) b := by
  simp [shown, List.zipIdx_append, List.flatMap_append]

@[simp] theorem shown_nil (k : ℕ) : shown k [] = [] := rfl

@[simp] theorem shown_cons (k : ℕ) (x : Option Entry) (a : Cells) :
    shown k (x :: a) = Entry.shown k x ++ shown (k + 1) a := rfl

theorem shown_replicate_none (k n : ℕ) : shown k (List.replicate n none) = [] := by
  induction n generalizing k with
  | zero => rfl
  | succ n ih => rw [List.replicate_succ, shown_cons, ih]; rfl

/-- Lines as they are at first. -/
def rawCells (lines : List Str) : Cells := lines.map fun line => some (.line line)

@[simp] theorem rawCells_nil : rawCells [] = [] := rfl

@[simp] theorem rawCells_cons (line : Str) (lines : List Str) :
    rawCells (line :: lines) = some (.line line) :: rawCells lines := rfl

@[simp] theorem length_rawCells (lines : List Str) : (rawCells lines).length = lines.length :=
  List.length_map _

theorem rawCells_append (lines lines' : List Str) : rawCells (lines ++ lines') = rawCells lines ++
    rawCells lines' :=
  List.map_append

/-- The queue with consecutive lines in it, the first at index `k`. -/
def queued (strict : Bool) (k : ℕ) (lines : List Str) : List (ℕ × Str) :=
  (lines.zipIdx k).map fun x => (x.2, parsedLine strict x.1)

@[simp] theorem queued_nil (strict : Bool) (k : ℕ) : queued strict k [] = [] := rfl

@[simp] theorem queued_cons (strict : Bool) (k : ℕ) (line : Str) (lines : List Str) :
    queued strict k (line :: lines) = (k, parsedLine strict line) :: queued strict (k + 1) lines :=
      rfl

theorem queued_concat (strict : Bool) (k : ℕ) (lines : List Str) (line : Str) :
    queued strict k (lines ++ [line]) = queued strict k lines ++
      [(k + lines.length, parsedLine strict line)] := by
  simp [queued, List.zipIdx_append]

/-- The entries of a quote that begins at index `k`. -/
def quoteCells (strict expandable : Bool) (k : ℕ) : List Str → Cells
  | [] => []
  | line :: lines =>
      some (.blockquote expandable (queued strict k (line :: lines))) :: List.replicate
        lines.length none

@[simp] theorem length_quoteCells (strict expandable : Bool) (k : ℕ) (lines : List Str) :
    (quoteCells strict expandable k lines).length = lines.length := by
  cases lines <;> simp [quoteCells]

theorem shown_quoteCells (strict expandable : Bool) (k : ℕ) (lines : List Str) :
    shown k (quoteCells strict expandable k lines) =
      (lines.map fun line => (true, parsedLine strict line)).zipIdx k := by
  cases lines with
  | nil => rfl
  | cons line lines =>
    rw [quoteCells, shown_cons, shown_replicate_none, List.append_nil]
    simp [Entry.shown, queued, List.zipIdx_map, Function.comp_def]

/-- Blanking out consecutive entries. -/
theorem foldl_set_none (strict : Bool) (lines : List Str) (a b c : Cells)
    (hb : b.length = lines.length) :
    (queued strict a.length lines).foldl (fun cells x => cells.set x.1 none) (a ++ (b ++ c)) =
      a ++ (List.replicate lines.length none ++ c) := by
  induction lines generalizing a b with
  | nil => rw [List.length_eq_zero_iff.mp hb]; rfl
  | cons line lines ih =>
    obtain ⟨x, b, rfl⟩ := List.exists_cons_of_length_eq_add_one hb
    have hset : (a ++ (x :: b ++ c)).set a.length none = (a ++ [none]) ++ (b ++ c) := by
      simp
    have hlength : (a ++ [(none : Option Entry)]).length = a.length + 1 := by simp
    rw [queued_cons, List.foldl_cons, hset, ← hlength, ih (a ++ [none]) b (by simpa using hb)]
    simp [List.replicate_succ]

/-- A queue of consecutive lines becomes a quote in their place. -/
theorem textLines_createBlockquote {strict e : Bool} {s : Quoting} {lines : List Str}
    {a b c : Cells}
    (hlines : s.textLines = a ++ (b ++ c)) (hqueue : s.toQuoteList = queued strict a.length lines)
    (hb : b.length = lines.length) :
    (s.createBlockquote e).textLines = a ++ (quoteCells strict e a.length lines ++ c) := by
  cases lines with
  | nil =>
    rw [List.length_eq_zero_iff.mp hb] at hlines
    simp [createBlockquote, hqueue, hlines, quoteCells]
  | cons line lines =>
    obtain ⟨x, b, rfl⟩ := List.exists_cons_of_length_eq_add_one hb
    -- the first line takes the whole quote, the others are behind it
    let whole : Option Entry := some (.blockquote e (queued strict a.length (line :: lines)))
    have hset : s.textLines.set a.length whole = (a ++ [whole]) ++ (b ++ c) := by simp [hlines]
    have hlength : (a ++ [whole]).length = a.length + 1 := by simp
    have hblank := foldl_set_none strict lines (a ++ [whole]) b c (by simpa using hb)
    rw [hlength, ← hset] at hblank
    simp only [createBlockquote, hqueue, queued_cons]
    refine hblank.trans ?_
    simp [whole, quoteCells]

@[simp] theorem toQuoteList_createBlockquote (s : Quoting) (expandable : Bool) :
    (s.createBlockquote expandable).toQuoteList = [] := by
  unfold createBlockquote
  split
  · assumption
  · rfl

@[simp] theorem insideBlockquote_createBlockquote (s : Quoting) (expandable : Bool) :
    (s.createBlockquote expandable).insideBlockquote = s.insideBlockquote := by
  unfold createBlockquote
  split <;> rfl

@[simp] theorem htmlEscapedList_createBlockquote (s : Quoting) (expandable : Bool) :
    (s.createBlockquote expandable).htmlEscapedList = s.htmlEscapedList := by
  unfold createBlockquote
  split <;> rfl

@[simp] theorem length_foldl_set_none (more : List (ℕ × Str)) (lines : Cells) :
    (more.foldl (fun lines x => lines.set x.1 none) lines).length = lines.length := by
  induction more generalizing lines with
  | nil => rfl
  | cons x more ih => rw [List.foldl_cons, ih, List.length_set]

@[simp] theorem length_createBlockquote (s : Quoting) (expandable : Bool) :
    (s.createBlockquote expandable).textLines.length = s.textLines.length := by
  unfold createBlockquote
  split
  · rfl
  · simp

/-! ### Pieces of a text -/

/-- A line outside the expandable quotes, or a quote that is made already, with its lines. -/
inductive Piece
  | line (line : Str)
  | block (expandable : Bool) (lines : List Str)

/-- The lines of an expandable quote that is still open, as the code reads them. -/
def opened : List Str → List Str
  | [] => []
  | first :: lines =>
      afterDelim blockquoteExpandableDelim first :: lines.map (afterDelim blockquoteDelim)

/-- The pieces of a text up to an expandable quote that is never closed, and the lines of that one;
`pending` are the lines of the quote that is open now. -/
def pieces : List Str → List Str → List Piece × List Str
  | pending, [] => ([], pending)
  | [], line :: lines =>
      if opens false line then pieces [line] lines
      else ((pieces [] lines).map (.line line :: ·) id)
  | first :: pending, line :: lines =>
      if opens true line then pieces (first :: pending ++ [line]) lines
      else (pieces [] lines).map (.block true (opened (first :: pending) ++ [unwrappedLine line])
        :: ·) id

def Piece.cells (strict : Bool) (k : ℕ) : Piece → Cells
  | .line text => [some (.line text)]
  | .block expandable lines => quoteCells strict expandable k lines

def cells (strict : Bool) : ℕ → List Piece → Cells
  | _, [] => []
  | k, piece :: rest =>
      piece.cells strict k ++ cells strict (k + (piece.cells strict k).length) rest

theorem cells_concat (strict : Bool) (k : ℕ) (ps : List Piece) (piece : Piece) :
    cells strict k (ps ++ [piece]) = cells strict k ps ++
      piece.cells strict (k + (cells strict k ps).length) := by
  induction ps generalizing k with
  | nil => simp [cells]
  | cons p ps ih => simp [cells, ih, Nat.add_assoc]

/-- The lines of a piece as the second loop reads them. -/
def Piece.shown : Piece → List Shown
  | .line text =>
      [if blockquoteDelim.isPrefixOf text then (true, afterDelim blockquoteDelim text)
        else (false, text)]
  | .block _ lines => lines.map (true, ·)

/-- The pieces are the lines, with the mark of an inner line taken off as if it were always
there. -/
theorem shown_pieces (pending lines : List Str) :
    (pieces pending lines).1.flatMap Piece.shown ++ (opened (pieces pending lines).2).map
      (true, ·) =
      (opened pending).map (true, ·) ++ unmarked (afterDelim blockquoteDelim)
      (!pending.isEmpty) lines := by
  induction pending, lines using pieces.induct with
  | case1 pending => simp [pieces, unmarked]
  | case2 line lines hopens ih =>
    rw [pieces, if_pos hopens, ih]
    simp [opened, unmarked, hopens]
  | case3 line lines hopens ih =>
    rw [pieces, if_neg hopens]
    simp only [Prod.map_fst, Prod.map_snd, id_eq, List.flatMap_cons, List.append_assoc, ih]
    simp [opened, unmarked, hopens, Piece.shown]
  | case4 first pending line lines hopens ih =>
    rw [pieces, if_pos hopens, ih]
    simp [opened, unmarked, hopens]
  | case5 first pending line lines hopens ih =>
    rw [pieces, if_neg hopens]
    simp only [Prod.map_fst, Prod.map_snd, id_eq, List.flatMap_cons, List.append_assoc, ih]
    simp [opened, unmarked, hopens, Piece.shown]

/-! ### The first loop -/

/-- The first loop has made `done` of what is behind it, `pending` is the open quote, and `lines`
are ahead. -/
structure Reads (strict : Bool) (done : Cells) (pending lines : List Str) (s : Quoting) : Prop where
  textLines : s.textLines = done ++ rawCells (pending ++ lines)
  toQuoteList : s.toQuoteList = queued strict done.length (opened pending)
  insideBlockquote : s.insideBlockquote = !pending.isEmpty

theorem reads_start (strict : Bool) (lines : List Str) : Reads strict [] [] lines (start lines) :=
  ⟨rfl, rfl, rfl⟩

theorem visit_eq {f : Quoting → ℕ → Str → Quoting} {s : Quoting} {a c : Cells} {entry : Entry}
    (h : s.textLines = a ++ some entry :: c) : s.visit f a.length = f s a.length entry.text := by
  have hentry : s.textLines[a.length]? = some (some entry) := by simp [h]
  rw [visit, hentry]

theorem visit_none {f : Quoting → ℕ → Str → Quoting} {s : Quoting} {a c : Cells}
    (h : s.textLines = a ++ none :: c) : s.visit f a.length = s := by
  have hnone : s.textLines[a.length]? = some none := by simp [h]
  rw [visit, hnone]

@[simp] theorem opened_nil : opened [] = [] := rfl

@[simp] theorem length_opened (lines : List Str) : (opened lines).length = lines.length := by
  cases lines <;> simp [opened]

variable {strict : Bool} {s : Quoting} {a : Cells} {first line : Str} {pending lines : List Str}

theorem Reads.visit_eq (h : Reads strict a pending (line :: lines) s) :
    s.visit (expandableLine strict) (a.length + pending.length) =
      expandableLine strict s (a.length + pending.length) line := by
  have hlines : s.textLines = (a ++ rawCells pending) ++ some (.line line) :: rawCells lines := by
    simp [h.textLines, rawCells_append]
  have hvisit := Markdown.visit_eq (f := expandableLine strict) hlines
  rwa [List.length_append, length_rawCells] at hvisit

/-- The first line of a quote. -/
theorem Reads.visit_open (h : Reads strict a [] (line :: lines) s) (hopens : opens false line) :
    Reads strict a [line] lines (s.visit (expandableLine strict) a.length) := by
  have hvisit : s.visit (expandableLine strict) a.length = expandableLine strict s a.length line :=
    h.visit_eq
  have hinside : s.insideBlockquote = false := h.insideBlockquote
  have hqueue : s.toQuoteList = [] := h.toQuoteList
  have hstarts : blockquoteExpandableDelim.isPrefixOf line = true := hopens
  rw [hvisit, expandableLine, if_pos (by simp [hstarts, hinside])]
  exact ⟨h.textLines, by simp [enqueue, hqueue, opened], rfl⟩

/-- A line outside. -/
theorem Reads.visit_line (h : Reads strict a [] (line :: lines) s) (hopens : ¬opens false line) :
    Reads strict (a ++ [some (.line line)]) [] lines
      (s.visit (expandableLine strict) a.length) := by
  have hvisit : s.visit (expandableLine strict) a.length = expandableLine strict s a.length line :=
    h.visit_eq
  have hinside : s.insideBlockquote = false := h.insideBlockquote
  have hstarts : ¬blockquoteExpandableDelim.isPrefixOf line = true := hopens
  have hkeep : expandableLine strict s a.length line =
      s := by simp [expandableLine, hstarts, hinside]
  rw [hvisit, hkeep]
  exact ⟨by simp [h.textLines], h.toQuoteList, h.insideBlockquote⟩

/-- Another line of an open quote. -/
theorem Reads.visit_inner (h : Reads strict a (first :: pending) (line :: lines) s)
    (hopens : opens true line) :
    Reads strict a (first :: pending ++ [line]) lines
      (s.visit (expandableLine strict) (a.length + (first :: pending).length)) := by
  have hinside : s.insideBlockquote = true := h.insideBlockquote
  have hsuffix : blockquoteExpandableEndDelim.isSuffixOf line =
      false := by simpa [opens] using hopens
  have hline (i : ℕ) : expandableLine strict s i line =
      s.enqueue i (parsedLine strict (afterDelim blockquoteDelim line)) := by
    simp [expandableLine, hinside, hsuffix]
  rw [h.visit_eq, hline]
  refine ⟨by simp [enqueue, h.textLines], ?_, by simp [enqueue, hinside]⟩
  have hopened : opened (first :: pending ++ [line]) =
      opened (first :: pending) ++ [afterDelim blockquoteDelim line] := by simp [opened]
  rw [hopened, queued_concat, length_opened, enqueue, h.toQuoteList]

/-- The last line of a quote. -/
theorem Reads.visit_close (h : Reads strict a (first :: pending) (line :: lines) s)
    (hopens : ¬opens true line) :
    Reads strict (a ++ quoteCells strict true a.length (opened (first :: pending) ++
      [unwrappedLine line])) [] lines
      (s.visit (expandableLine strict) (a.length + (first :: pending).length)) := by
  have hinside : s.insideBlockquote = true := h.insideBlockquote
  have hsuffix : blockquoteExpandableEndDelim.isSuffixOf line =
      true := by simpa [opens] using hopens
  have hline (i : ℕ) : expandableLine strict s i line =
      { s.enqueue i (parsedLine strict (unwrappedLine line)) with insideBlockquote := false
        }.createBlockquote true := by
    simp [expandableLine, hinside, hsuffix]
  rw [h.visit_eq, hline]
  have hqueue := queued_concat strict a.length (opened (first :: pending)) (unwrappedLine line)
  rw [length_opened, ← h.toQuoteList] at hqueue
  have hlines := textLines_createBlockquote (e := true)
    (s := { s.enqueue (a.length + (first :: pending).length)
        (parsedLine strict (unwrappedLine line)) with
      insideBlockquote := false })
    (b := rawCells (first :: pending ++ [line]))
    (c := rawCells lines) (by simp [enqueue, h.textLines, rawCells_append]) hqueue.symm (by simp)
  refine ⟨?_, by simp, by simp⟩
  rw [hlines]
  simp

/-- **The first loop makes its pieces of the text.** -/
theorem expandable_run (h : Reads strict a pending lines s) :
    Reads strict (a ++ cells strict a.length (pieces pending lines).1) (pieces pending lines).2 []
      ((List.range' (a.length + pending.length) lines.length).foldl (visit (expandableLine strict))
        s) := by
  induction pending, lines using pieces.induct generalizing a s with
  | case1 pending => simpa [pieces, cells] using h
  | case2 line lines hopens ih =>
    rw [pieces, if_pos hopens, List.length_cons, List.range'_succ]
    exact ih (h.visit_open hopens)
  | case3 line lines hopens ih =>
    have hnext := ih (h.visit_line hopens)
    rw [pieces, if_neg hopens, List.length_cons, List.range'_succ]
    simpa [cells, Piece.cells] using hnext
  | case4 first pending line lines hopens ih =>
    have hnext := ih (h.visit_inner hopens)
    rw [pieces, if_pos hopens, List.length_cons (a := line), List.range'_succ]
    simpa [Nat.add_assoc] using hnext
  | case5 first pending line lines hopens ih =>
    have hnext := ih (h.visit_close hopens)
    rw [pieces, if_neg hopens, List.length_cons (a := line), List.range'_succ]
    simpa [cells, Piece.cells, Nat.add_assoc] using hnext

/-! ### The second loop -/

/-- The second loop has made `done` of what is behind it, the lines `pending` are queued, and `rest`
is ahead. -/
structure Quotes (strict : Bool) (done : Cells) (pending : List Str) (rest : Cells) (s : Quoting) :
    Prop where
  textLines : s.textLines = done ++ (rawCells pending ++ rest)
  toQuoteList : s.toQuoteList = queued strict done.length (pending.map (afterDelim blockquoteDelim))

/-- What the loops leave of a line: a line that is not quoted is not escaped yet. -/
def stage (strict : Bool) (x : Shown) : Shown := (x.1, if x.1 then parsedLine strict x.2 else x.2)

variable {rest : Cells} {entry : Entry} {ps : List Piece}

/-- The queue is emptied at an entry that is no quoted line, and at the end. -/
theorem Quotes.flush (h : Quotes strict a pending rest s) :
    Quotes strict (a ++ quoteCells strict false a.length (pending.map (afterDelim blockquoteDelim)))
      [] rest
      (s.createBlockquote false) := by
  refine ⟨?_, by simp⟩
  have hlines := textLines_createBlockquote (e := false) h.textLines h.toQuoteList (by simp)
  simpa using hlines

theorem Quotes.visit_eq (h : Quotes strict a pending (some entry :: rest) s) :
    s.visit (quoteLine strict) (a.length + pending.length) =
      quoteLine strict s (a.length + pending.length) entry.text := by
  have hlines : s.textLines = (a ++ rawCells pending) ++ some entry :: rest := by simp [h.textLines]
  have hvisit := Markdown.visit_eq (f := quoteLine strict) hlines
  rwa [List.length_append, length_rawCells] at hvisit

/-- A line behind a mark. -/
theorem Quotes.visit_quoted (h : Quotes strict a pending (some (.line line) :: rest) s)
    (hmark : blockquoteDelim.isPrefixOf line) :
    Quotes strict a (pending ++ [line]) rest
      (s.visit (quoteLine strict) (a.length + pending.length)) := by
  have htext : (Entry.line line).text = line := rfl
  rw [h.visit_eq, htext, quoteLine, if_pos hmark]
  refine ⟨by simp [enqueue, h.textLines, rawCells_append], ?_⟩
  rw [List.map_append, List.map_singleton, queued_concat, List.length_map, ← h.toQuoteList, enqueue]

theorem createBlockquote_of_empty {expandable : Bool} (h : s.toQuoteList = []) :
    s.createBlockquote expandable = s := by
  simp [createBlockquote, h]

theorem quoteLine_eq_createBlockquote {i : ℕ} (hmark : ¬blockquoteDelim.isPrefixOf line) :
    quoteLine strict s i line = s.createBlockquote false := by
  rw [quoteLine, if_neg hmark]
  split
  · rfl
  · next hempty =>
    exact (createBlockquote_of_empty
      (List.length_eq_zero_iff.mp (Nat.eq_zero_of_not_pos hempty))).symm

/-- Any other entry. -/
theorem Quotes.visit_other (h : Quotes strict a pending (some entry :: rest) s)
    (hmark : ¬blockquoteDelim.isPrefixOf entry.text) :
    Quotes strict (a ++ quoteCells strict false a.length
      (pending.map (afterDelim blockquoteDelim)) ++ [some entry]) []
      rest (s.visit (quoteLine strict) (a.length + pending.length)) := by
  rw [h.visit_eq, quoteLine_eq_createBlockquote hmark]
  refine ⟨?_, by simp⟩
  rw [h.flush.textLines]
  simp

theorem foldl_visit_none {f : Quoting → ℕ → Str → Quoting} {n : ℕ} {c : Cells}
    (h : s.textLines = a ++ (List.replicate n none ++ c)) :
    (List.range' a.length n).foldl (visit f) s = s := by
  induction n generalizing a with
  | zero => rfl
  | succ n ih =>
    have hvisit : s.visit f a.length = s := visit_none (by simpa [List.replicate_succ] using h)
    have hnext := ih (a := a ++ [none]) (by simpa [List.replicate_succ] using h)
    rw [List.range'_succ, List.foldl_cons, hvisit]
    simpa using hnext

/-- A quote begins with its tag. -/
theorem not_mark_blockquote {expandable : Bool} {items : List (ℕ × Str)} :
    ¬blockquoteDelim.isPrefixOf (Entry.blockquote expandable items).text := by
  have htag : "<blockquote".toList = '<' :: "blockquote".toList := rfl
  have hlt : (Utf8.CodePoint.char '>' == .char '<') = false := by decide
  rw [Entry.text, htag]
  simp only [blockquoteDelim, List.cons_append, chars_cons, chars_nil, List.isPrefixOf, hlt,
    Bool.false_and, Bool.false_eq_true, not_false_eq_true]

/-- An expandable quote. -/
theorem Quotes.run_block {expandable : Bool} (hne : lines ≠ [])
    (h : Quotes strict a pending (quoteCells strict expandable (a.length + pending.length) lines ++
      rest) s) :
    Quotes strict
      (a ++ quoteCells strict false a.length (pending.map (afterDelim blockquoteDelim)) ++
        quoteCells strict expandable (a.length + pending.length) lines) [] rest
      ((List.range' (a.length + pending.length) lines.length).foldl (visit (quoteLine strict))
        s) := by
  obtain ⟨l, ls, rfl⟩ := List.exists_cons_of_ne_nil hne
  have hvisit := h.visit_other not_mark_blockquote
  have hnone := foldl_visit_none (f := quoteLine strict) (n := ls.length) (c := rest)
    (a := a ++ quoteCells strict false a.length (pending.map (afterDelim blockquoteDelim)) ++
      [some (.blockquote expandable (queued strict (a.length + pending.length) (l :: ls)))])
    (by simpa using hvisit.textLines)
  have hlength : (a ++ quoteCells strict false a.length
    (pending.map (afterDelim blockquoteDelim)) ++
      [some (Entry.blockquote expandable
        (queued strict (a.length + pending.length) (l :: ls)))]).length =
      a.length + pending.length + 1 := by simp; omega
  rw [hlength] at hnone
  rw [List.length_cons, List.range'_succ, List.foldl_cons, hnone]
  exact ⟨by simpa [quoteCells] using hvisit.textLines, hvisit.toQuoteList⟩

/-- **What the second loop makes of the pieces.** -/
theorem quote_run {k : ℕ} (hk : a.length + pending.length = k)
    (h : Quotes strict a pending (cells strict k ps) s) :
    shown 0 (((List.range' k (cells strict k ps).length).foldl (visit (quoteLine strict))
      s).createBlockquote
        false).textLines =
      shown 0 a ++ ((pending.map (fun line => (true, afterDelim blockquoteDelim line)) ++
        ps.flatMap Piece.shown).map (stage strict)).zipIdx a.length := by
  -- on the pieces: a line outside every block, or a block that is read already
  induction ps generalizing a pending s k with
  | nil =>
    have hlines := h.flush.textLines
    simp only [rawCells_nil, cells, List.append_nil] at hlines
    simp only [cells, List.length_nil, List.range'_zero, List.foldl_nil]
    rw [hlines, shown_append, Nat.zero_add, shown_quoteCells]
    simp [stage, Function.comp_def]
  | cons piece ps ih =>
    cases piece with
    | line line =>
      subst hk
      rw [cells, Piece.cells, List.cons_append, List.nil_append] at h ⊢
      rw [List.length_cons, List.range'_succ, List.foldl_cons]
      -- a line with the delimiter joins the waiting quote, another one flushes it
      by_cases hmark : blockquoteDelim.isPrefixOf line
      · have hnext := ih (by simp [Nat.add_assoc]) (h.visit_quoted hmark)
        refine hnext.trans ?_
        simp [Piece.shown, hmark]
      · have hnext := ih (by simp [Nat.add_assoc]) (h.visit_other hmark)
        refine hnext.trans ?_
        simp [Piece.shown, hmark, shown_append, shown_quoteCells, Entry.shown, stage,
          List.zipIdx_append, Function.comp_def, Nat.add_assoc]
    | block expandable lines =>
      rw [cells, Piece.cells] at h ⊢
      -- the lines of a block are passed over as they are
      rw [List.length_append, ← List.range'_append, List.foldl_append]
      by_cases hne : lines = []
      · subst hne
        have hnext := ih hk (by simpa [quoteCells] using h)
        simpa [quoteCells, Piece.shown] using hnext
      · subst hk
        have hnext := ih (by simp [Nat.add_assoc]) (h.run_block hne)
        simp only [length_quoteCells, Nat.one_mul] at hnext ⊢
        refine hnext.trans ?_
        simp [Piece.shown, shown_append, shown_quoteCells, stage, List.zipIdx_append,
          Function.comp_def, Nat.add_assoc]

/-! ### Both loops -/

theorem getElem?_foldl_set_none (more : List (ℕ × Str)) (lines : Cells) (i : ℕ) :
    (more.foldl (fun lines x => lines.set x.1 none) lines)[i]? =
      if i ∈ more.map Prod.fst then lines[i]?.map (fun _ => none) else lines[i]? := by
  induction more generalizing lines with
  | nil => simp
  | cons x more ih =>
    rw [List.foldl_cons, ih, List.getElem?_set]
    by_cases hx : x.1 = i
    · subst hx
      by_cases hlt : x.1 < lines.length <;> simp [hlt]
    · have hcons : i ∈ (x :: more).map Prod.fst ↔ i ∈ more.map Prod.fst := by
        rw [List.map_cons, List.mem_cons, or_iff_right fun h => hx h.symm]
      simp only [if_neg hx, hcons]

/-- Entry `i` after the queue is emptied. -/
theorem getElem?_createBlockquote {e : Bool} {first : ℕ} {text : Str} {more : List (ℕ × Str)}
    (h : s.toQuoteList = (first, text) :: more) (i : ℕ) :
    (s.createBlockquote e).textLines[i]? =
      if i ∈ more.map Prod.fst then s.textLines[i]?.map (fun _ => none)
      else if i = first then s.textLines[i]?.map (fun _ => some (.blockquote e s.toQuoteList))
      else s.textLines[i]? := by
  rw [createBlockquote, h]
  simp only [getElem?_foldl_set_none, List.getElem?_set]
  by_cases hfirst : first = i
  · subst hfirst
    by_cases hlt : first < s.textLines.length <;> simp [hlt]
  · have hfirst' : ¬i = first := fun h => hfirst h.symm
    simp [hfirst, hfirst']

/-- What is queued or quoted is what is escaped already, and a quote stands where its first line
was. -/
structure Placed (s : Quoting) : Prop where
  escaped : ∀ i < s.textLines.length, i ∈ s.htmlEscapedList ↔
    i ∈ s.toQuoteList.map Prod.fst ∨ ∀ text, s.textLines[i]? ≠ some (some (.line text))
  first : ∀ (i : ℕ) (expandable : Bool) (items : List (ℕ × Str)),
    s.textLines[i]? = some (some (.blockquote expandable items)) → items.head?.map Prod.fst = some i

theorem placed_start (lines : List Str) : Placed (start lines) where
  escaped i hi := by
    have hi' : i < lines.length := by simpa [start] using hi
    simp [start, hi']
  first i expandable items h := by
    simp [start] at h

theorem Placed.enqueue (h : Placed s) (i : ℕ) (parsed : Str) : Placed (s.enqueue i parsed) where
  escaped j hj := by
    have hj' := h.escaped j hj
    simp only [Quoting.enqueue, List.mem_append, List.mem_singleton, List.map_append,
      List.map_singleton] at *
    tauto
  first := h.first

theorem Placed.createBlockquote (h : Placed s) (expandable : Bool) :
    Placed (s.createBlockquote expandable) := by
  rcases hqueue : s.toQuoteList with _ | ⟨⟨first, text⟩, more⟩
  · rwa [createBlockquote_of_empty hqueue]
  have hentry := getElem?_createBlockquote (e := expandable) hqueue
  have hlength : (s.createBlockquote expandable).textLines.length = s.textLines.length := by simp
  have hescaped : (s.createBlockquote expandable).htmlEscapedList = s.htmlEscapedList := by simp
  constructor
  -- the queued lines leave the queue, and all but the first are emptied
  case escaped =>
    intro i hi
    rw [hlength] at hi
    rw [hescaped, h.escaped i hi, hentry, hqueue, toQuoteList_createBlockquote,
      List.getElem?_eq_getElem hi]
    by_cases hmem : i ∈ more.map Prod.fst
    · rw [if_pos hmem]
      exact iff_of_true (Or.inl (List.mem_cons_of_mem _ hmem)) (Or.inr fun _ ht => by simp at ht)
    · rw [if_neg hmem]
      by_cases hfirst : i = first
      · simp [hfirst]
      · have hqueued : i ∉ ((first, text) :: more).map Prod.fst := by
          rw [List.map_cons, List.mem_cons, not_or]
          exact ⟨hfirst, hmem⟩
        simp only [if_neg hfirst, or_iff_right hqueued, List.map_nil, List.not_mem_nil, false_or]
  -- a quote stands where its first line stood
  case first =>
    intro i e items hi
    rw [hentry] at hi
    split at hi
    · simp at hi
    · split at hi
      · next hfirst =>
        obtain ⟨x, -, hx⟩ := Option.map_eq_some_iff.mp hi
        cases hx
        rw [hqueue, hfirst]
        rfl
      · exact h.first i e items hi

/-- Both loops queue lines, make quotes of the queue and keep track of the open quote; they do
nothing else. -/
theorem loop_induction {P : Quoting → Prop} (enqueue : ∀ s i parsed, P s → P (s.enqueue i parsed))
    (create : ∀ s expandable, P s → P (s.createBlockquote expandable))
    (inside : ∀ s b, P s → P { s with insideBlockquote := b }) (h : P s) :
    P ((s.loop (expandableLine strict)).loop (quoteLine strict)) := by
  -- a line that is emptied already is not visited again
  have visit_of {body : Quoting → ℕ → Str → Quoting} (hbody : ∀ s i line, P s → P (body s i line))
      {s : Quoting} (h : P s) : P (s.loop body) := by
    refine List.foldlRecOn _ _ h fun s hs i _ => ?_
    unfold visit
    split
    · exact hbody s i _ hs
    · exact hs
  -- the second pass quotes, the first one opens and closes blocks
  refine visit_of (fun s i line hs => ?_) (visit_of (fun s i line hs => ?_) h)
  · unfold quoteLine
    split
    · exact enqueue _ _ _ hs
    · split
      · exact create _ _ hs
      · exact hs
  · unfold expandableLine
    split
    · exact inside _ _ (enqueue _ _ _ hs)
    · dsimp only
      split
      · have hclosed := create _ true
          (inside _ false (enqueue s i (parsedLine strict (unwrappedLine line)) hs))
        split
        · exact enqueue _ _ _ hclosed
        · exact hclosed
      · split
        · exact enqueue _ _ _ hs
        · exact hs

/-- The state before the last loop. -/
def quoted (strict : Bool) (lines : List Str) : Quoting :=
  (((start lines).loop (expandableLine strict)).loop (quoteLine strict)).createBlockquote false

theorem placed_quoted (strict : Bool) (lines : List Str) : Placed (quoted strict lines) :=
  Placed.createBlockquote
    (loop_induction (fun _ i parsed h => h.enqueue i parsed) (fun _ b h => h.createBlockquote b)
      (fun _ _ h => ⟨h.escaped, h.first⟩) (placed_start lines)) false

/-- What the last loop makes of an entry. -/
def escapeEntry (strict : Bool) : Option Entry → Option Entry
  | some (.line text) => some (.line (parsedLine strict text))
  | entry => entry

/-- The last loop escapes the lines that are not quoted, and fails at none. -/
theorem escapeRest_quoted (strict : Bool) (lines : List Str) :
    (quoted strict lines).escapeRest strict =
      .ok ((quoted strict lines).textLines.map (escapeEntry strict)) := by
  have hplaced := placed_quoted strict lines
  have hqueue : (quoted strict lines).toQuoteList = [] := toQuoteList_createBlockquote _ _
  have hentries : (quoted strict lines).textLines.map (escapeEntry strict) =
      (quoted strict lines).textLines.zipIdx.map fun x => escapeEntry strict x.1 := by
    rw [← Function.comp_def (escapeEntry strict) Prod.fst, ← List.map_map, List.zipIdx_map_fst]
  rw [escapeRest, hentries, Except.mapM_eq_ok, List.forall₂_map_right_iff, List.forall₂_same]
  rintro ⟨entry, i⟩ hmem
  have hentry := List.mem_zipIdx_iff_getElem?.mp hmem
  have hescaped := hplaced.escaped i (List.getElem?_eq_some_iff.mp hentry).1
  simp only [hqueue, hentry, List.map_nil, List.not_mem_nil, false_or] at hescaped
  rcases entry with _ | text | ⟨e, items⟩
  · have hi := hescaped.mpr (fun _ h => by simp at h)
    simp [hi, escapeEntry]
  · have hi : i ∉ (quoted strict lines).htmlEscapedList := fun h => hescaped.mp h text rfl
    cases strict <;> simp [hi, escapeEntry, parsedLine, Entry.text]
  · have hi := hescaped.mpr (fun _ h => by simp at h)
    simp [hi, escapeEntry]

theorem shown_map_escapeEntry (k : ℕ) (lines : Cells) :
    shown k (lines.map (escapeEntry strict)) =
      (shown k lines).map fun x =>
        ((x.1.1, if x.1.1 then x.1.2 else parsedLine strict x.1.2), x.2) := by
  induction lines generalizing k with
  | nil => rfl
  | cons entry lines ih =>
    rw [List.map_cons, shown_cons, shown_cons, List.map_append, ih]
    congr 1
    rcases entry with _ | _ | _ <;> simp [escapeEntry, Entry.shown]

/-! ### A text in its pieces -/

/-- Whether an expandable quote is never closed. -/
theorem pieces_snd_ne_nil (pending lines : List Str) :
    (pieces pending lines).2 ≠ [] ↔ lines.foldl opens (!pending.isEmpty) := by
  induction pending, lines using pieces.induct with
  | case1 pending => cases pending <;> simp [pieces]
  | case2 line lines hopens ih =>
    rw [pieces, if_pos hopens, ih]
    simp [hopens]
  | case3 line lines hopens ih =>
    rw [pieces, if_neg hopens, Prod.map_snd, id_eq, ih]
    simp [hopens]
  | case4 first pending line lines hopens ih =>
    rw [pieces, if_pos hopens, ih]
    simp [hopens]
  | case5 first pending line lines hopens ih =>
    rw [pieces, if_neg hopens, Prod.map_snd, id_eq, ih]
    simp [hopens]

/-- A text begins with an entry: its first line, or a quote. -/
theorem first_cell (strict : Bool) (k : ℕ) (pending lines : List Str) :
    (∃ entry c, cells strict k (pieces pending lines).1 = some entry :: c ∧
      (entry.text ∈ (pending ++ lines).head? ∨ ¬blockquoteDelim.isPrefixOf entry.text)) ∨
    (pieces pending lines).1 = [] ∧ (pieces pending lines).2.head? = (pending ++ lines).head? := by
  induction pending, lines using pieces.induct with
  | case1 pending => simp [pieces]
  | case2 line lines hopens ih =>
    rw [pieces, if_pos hopens]
    exact ih
  | case3 line lines hopens ih =>
    rw [pieces, if_neg hopens]
    exact .inl ⟨.line line, _, rfl, .inl rfl⟩
  | case4 first pending line lines hopens ih =>
    rw [pieces, if_pos hopens]
    simpa using ih
  | case5 first pending line lines hopens ih =>
    rw [pieces, if_neg hopens]
    exact .inl ⟨_, _, rfl, .inr not_mark_blockquote⟩

/-- The state after the first loop. -/
theorem reads_expandable (strict : Bool) (lines : List Str) :
    Reads strict (cells strict 0 (pieces [] lines).1) (pieces [] lines).2 []
      ((start lines).loop (expandableLine strict)) := by
  have hrun := expandable_run (reads_start strict lines)
  simpa [loop, start, List.range_eq_range'] using hrun

theorem shown_loop_quoteLine (h : Quotes strict [] [] (cells strict 0 ps) s) :
    shown 0 ((s.loop (quoteLine strict)).createBlockquote false).textLines =
      ((ps.flatMap Piece.shown).map (stage strict)).zipIdx := by
  have hlines : s.textLines = cells strict 0 ps := by simpa using h.textLines
  have hrun := quote_run rfl h
  rw [loop, List.range_eq_range', hlines]
  simpa using hrun

/-- The first round empties the queue, and the loop goes on as if it had been empty. -/
theorem loop_createBlockquote {entry' : Entry} {c c' : Cells} (h : s.textLines = some entry :: c)
    (hmark : ¬blockquoteDelim.isPrefixOf entry.text)
    (h' : (s.createBlockquote false).textLines = some entry' :: c')
    (hmark' : ¬blockquoteDelim.isPrefixOf entry'.text) :
    s.loop (quoteLine strict) = (s.createBlockquote false).loop (quoteLine strict) := by
  have hvisit : s.visit (quoteLine strict) 0 = s.createBlockquote false := by
    have hbody := visit_eq (a := []) (f := quoteLine strict) h
    rw [List.length_nil] at hbody
    rw [hbody, quoteLine_eq_createBlockquote hmark]
  have hvisit' : (s.createBlockquote false).visit (quoteLine strict) 0 =
      s.createBlockquote false := by
    have hbody := visit_eq (a := []) (f := quoteLine strict) h'
    rw [List.length_nil] at hbody
    rw [hbody, quoteLine_eq_createBlockquote hmark', createBlockquote_of_empty
      (toQuoteList_createBlockquote s false)]
  have hlength : s.textLines.length = c.length + 1 := by rw [h, List.length_cons]
  rw [loop, loop, length_createBlockquote, hlength, List.range_eq_range', List.range'_succ,
    List.foldl_cons, List.foldl_cons, hvisit, hvisit']

/-- A queue that is left over becomes a quote in its place if the text does not begin with a
mark. -/
theorem shown_quoted
    (hfirst : lines.foldl opens false = true → ∀ line ∈ lines.head?,
      ¬blockquoteDelim.isPrefixOf line) :
    shown 0 (quoted strict lines).textLines =
      ((unmarked (afterDelim blockquoteDelim) false lines).map (stage strict)).zipIdx := by
  have hreads := reads_expandable strict lines
  have hpieces : (pieces [] lines).1.flatMap Piece.shown ++ (opened (pieces [] lines).2).map
    (true, ·) =
      unmarked (afterDelim blockquoteDelim) false lines := shown_pieces [] lines
  rw [quoted]
  generalize (start lines).loop (expandableLine strict) = s at hreads ⊢
  -- no block is left open: the pieces are all of the text
  rcases hrest : (pieces [] lines).2 with _ | ⟨first, pending⟩
  · rw [hrest] at hreads hpieces
    rw [shown_loop_quoteLine ⟨by simpa using hreads.textLines, hreads.toQuoteList⟩, ← hpieces]
    simp
  -- the last block is open: its lines wait in the queue when the second pass begins
  have hopen : lines.foldl opens false = true := (pieces_snd_ne_nil [] lines).mp (by simp [hrest])
  rw [hrest] at hreads hpieces
  have hlines : s.textLines = cells strict 0 (pieces [] lines).1 ++
      rawCells (first :: pending) := by
    simpa using hreads.textLines
  have hflushed : (s.createBlockquote false).textLines =
      cells strict 0 ((pieces [] lines).1 ++ [.block false (opened (first :: pending))]) := by
    have hflush := textLines_createBlockquote (e := false) (c := []) (by simpa using hlines)
      hreads.toQuoteList (by simp)
    rw [hflush, cells_concat, Piece.cells, List.append_nil, Nat.zero_add]
  -- so the second pass begins by closing it
  have hloop : s.loop (quoteLine strict) = (s.createBlockquote false).loop (quoteLine strict) := by
    rcases first_cell strict 0 [] lines with ⟨entry, c, hentry, hmark⟩ | ⟨hnil, hhead⟩
    · have hmark' : ¬blockquoteDelim.isPrefixOf entry.text := hmark.elim (hfirst hopen _) id
      rw [hentry, List.cons_append] at hlines
      rw [cells_concat, hentry, List.cons_append] at hflushed
      exact loop_createBlockquote hlines hmark' hflushed hmark'
    · rw [hrest] at hhead
      rw [hnil] at hlines hflushed
      exact loop_createBlockquote hlines (hfirst hopen first hhead.symm) hflushed
        not_mark_blockquote
  rw [hloop, shown_loop_quoteLine ⟨by simpa using hflushed, by simp⟩, ← hpieces]
  simp [Piece.shown]

/-! ### A quote that swallows the first line -/

/-- The first line is in the queue behind another one, or is blanked out already. -/
def Swallowed (s : Quoting) : Prop :=
  (∃ i text more, s.toQuoteList = (i, text) :: more ∧ i ≠ 0 ∧ 0 ∈ more.map Prod.fst) ∨
    s.textLines[0]? = some none ∧ ∀ x ∈ s.toQuoteList, x.1 ≠ 0

theorem Swallowed.enqueue (h : Swallowed s) {i : ℕ} (hi : i ≠ 0) (parsed : Str) :
    Swallowed (s.enqueue i parsed) := by
  rcases h with ⟨j, text, more, hqueue, hj, hmem⟩ | ⟨hnone, hqueue⟩
  · refine .inl ⟨j, text, more ++ [(i, parsed)], by simp [Quoting.enqueue, hqueue], hj, ?_⟩
    rw [List.map_append]
    exact List.mem_append_left _ hmem
  · refine .inr ⟨hnone, ?_⟩
    simpa [Quoting.enqueue, or_imp, forall_and, hi] using hqueue

theorem Swallowed.createBlockquote (hlength : 0 < s.textLines.length) (h : Swallowed s)
    (expandable : Bool) :
    Swallowed (s.createBlockquote expandable) := by
  refine .inr ⟨?_, by simp⟩
  rcases h with ⟨j, text, more, hqueue, hj, hmem⟩ | ⟨hnone, hqueue⟩
  · rw [getElem?_createBlockquote hqueue, if_pos hmem, List.getElem?_eq_getElem hlength,
      Option.map_some]
  · rcases hcons : s.toQuoteList with _ | ⟨⟨first, text⟩, more⟩
    · rwa [createBlockquote_of_empty hcons]
    · rw [hcons, List.forall_mem_cons] at hqueue
      have hmore : 0 ∉ more.map Prod.fst := fun h => by
        obtain ⟨x, hx, h0⟩ := List.mem_map.mp h
        exact hqueue.2 x hx h0
      rw [getElem?_createBlockquote hcons, if_neg hmore, if_neg fun h => hqueue.1 h.symm, hnone]

theorem Swallowed.visit {i : ℕ} (hlength : 0 < s.textLines.length) (hi : i ≠ 0) (h : Swallowed s) :
    Swallowed (s.visit (quoteLine strict) i) := by
  unfold Quoting.visit
  split
  · unfold quoteLine
    split
    · exact h.enqueue hi _
    · split
      · exact h.createBlockquote hlength _
      · exact h
  · exact h

@[simp] theorem length_visit_quoteLine (s : Quoting) (i : ℕ) :
    (s.visit (quoteLine strict) i).textLines.length = s.textLines.length := by
  unfold Quoting.visit
  split
  · unfold quoteLine
    split
    · rfl
    · split
      · exact length_createBlockquote _ _
      · rfl
  · rfl

variable (strict) in
theorem Swallowed.run {k n : ℕ} (hk : k ≠ 0) (hlength : 0 < s.textLines.length) (h : Swallowed s) :
    Swallowed ((List.range' k n).foldl (Quoting.visit (quoteLine strict)) s) ∧
      0 < ((List.range' k n).foldl (Quoting.visit (quoteLine strict)) s).textLines.length := by
  induction n generalizing k s with
  | zero => exact ⟨h, hlength⟩
  | succ n ih =>
    rw [List.range'_succ, List.foldl_cons]
    exact ih k.succ_ne_zero (by simpa using hlength) (h.visit hlength hk)

/-- An entry shows its own line first. -/
theorem le_of_mem_head?_shown {k : ℕ} {lines : Cells}
    (h : ∀ (i : ℕ) (expandable : Bool) (items : List (ℕ × Str)),
      lines[i]? = some (some (.blockquote expandable items)) →
        items.head?.map Prod.fst = some (k + i))
    {x : Shown × ℕ} (hx : x ∈ (shown k lines).head?) : k ≤ x.2 := by
  induction lines generalizing k with
  | nil => simp at hx
  | cons entry lines ih =>
    have hrest := ih (k := k + 1) fun i e items hi => by
      rw [Nat.add_right_comm k 1 i, Nat.add_assoc]
      exact h (i + 1) e items hi
    rw [shown_cons] at hx
    rcases entry with _ | text | ⟨e, items⟩
    · exact Nat.le_of_succ_le (hrest hx)
    · cases hx
      exact Nat.le_refl k
    · have hhead := h 0 e items rfl
      rcases items with _ | ⟨item, items⟩
      · simp at hhead
      · cases hx
        exact Nat.le_of_eq (Option.some.inj hhead).symm

theorem not_opens_of_mark (hmark : blockquoteDelim.isPrefixOf line) : ¬opens false line := by
  obtain ⟨text, rfl⟩ := List.isPrefixOf_iff_prefix.mp hmark
  simp [opens, blockquoteDelim, blockquoteExpandableDelim]

variable (strict) in
/-- The state before the last loop, where the first line is queued behind a quote that is never
closed. -/
theorem swallowed_quoted {tail : List Str} (hopen : (first :: tail).foldl opens false = true)
    (hmark : blockquoteDelim.isPrefixOf first) : (quoted strict (first :: tail)).textLines[0]? =
      some none := by
  have hreads := reads_expandable strict (first :: tail)
  rw [quoted]
  generalize (start (first :: tail)).loop (expandableLine strict) = s at hreads ⊢
  obtain ⟨l, ls, hrest⟩ :=
    List.exists_cons_of_ne_nil ((pieces_snd_ne_nil [] (first :: tail)).mpr hopen)
  rw [hrest] at hreads
  -- the block that is never closed holds the line with the delimiter
  rw [pieces, if_neg (not_opens_of_mark hmark)] at hreads
  simp only [Prod.map_fst, cells, Piece.cells, List.cons_append, List.nil_append] at hreads
  have hlines := hreads.textLines
  have hqueue := hreads.toQuoteList
  have hvisit : s.visit (quoteLine strict) 0 =
      s.enqueue 0 (parsedLine strict (afterDelim blockquoteDelim first)) := by
    have hbody := visit_eq (a := []) (f := quoteLine strict) hlines
    rw [List.length_nil] at hbody
    rw [hbody, Entry.text, quoteLine, if_pos hmark]
  -- the line is queued behind those of the open block, which are closed before it
  have hswallowed : Swallowed (s.visit (quoteLine strict) 0) := by
    rw [hvisit]
    exact .inl ⟨_, _,
      _, by rw [enqueue, hqueue, opened, queued_cons, List.cons_append], by simp, by simp⟩
  have hlength : s.textLines.length ≠ 0 := by simp [hlines]
  obtain ⟨n, hn⟩ := Nat.exists_eq_add_one_of_ne_zero hlength
  obtain ⟨hrun, hpos⟩ := hswallowed.run strict (k := 1) (n := n) Nat.one_ne_zero
    (by rw [length_visit_quoteLine, hn]; exact n.succ_pos)
  rw [loop, hn, List.range_eq_range', List.range'_succ, List.foldl_cons]
  -- the queue is flushed at the end: only the line that begins it is kept
  rcases hrun.createBlockquote hpos false with ⟨_, _, _, hcons, -⟩ | ⟨hnone, -⟩
  · rw [toQuoteList_createBlockquote] at hcons
    cases hcons
  · exact hnone

/-- **A quote that is never closed swallows a marked line at the beginning of the text.** -/
theorem ne_zero_of_open {tail : List Str} (hopen : (first :: tail).foldl opens false = true)
    (hmark : blockquoteDelim.isPrefixOf first) {x : Shown × ℕ}
    (hx : x ∈ (shown 0 (quoted strict (first :: tail)).textLines).head?) : x.2 ≠ 0 := by
  have hnone := swallowed_quoted strict hopen hmark
  have hplaced := (placed_quoted strict (first :: tail)).first
  rcases hlines : (quoted strict (first :: tail)).textLines with _ | ⟨entry, rest⟩
  · rw [hlines] at hx
    cases hx
  rw [hlines] at hnone hplaced hx
  cases hnone
  have hheads (i : ℕ) (expandable : Bool) (items : List (ℕ × Str))
      (hi : rest[i]? = some (some (.blockquote expandable items))) :
      items.head?.map Prod.fst = some (1 + i) := by
    rw [Nat.add_comm 1 i]
    exact hplaced (i + 1) expandable items hi
  have hle := le_of_mem_head?_shown hheads hx
  exact Nat.ne_of_gt hle

/-! ### When no text is lost or moved -/

/-- Every line of an open expandable quote has its mark unless it is empty, and a quote that is
never closed does not follow a text that begins with a mark. -/
structure WellMarked (lines : List Str) : Prop where
  inner : ∀ before line after, lines = before ++ line :: after → before.foldl opens false = true →
    opens true line → line = [] ∨ blockquoteDelim.isPrefixOf line
  closed : lines.foldl opens false = true → ∀ line ∈ lines.head?, ¬blockquoteDelim.isPrefixOf line

theorem length_escapeChar_pos (c : Char) : 0 < (escapeChar c).length := by
  unfold escapeChar
  split <;> simp

theorem length_parsedLine_lt (strict : Bool) (c : Utf8.CodePoint) (line : Str) :
    (parsedLine strict line).length < (parsedLine strict (c :: line)).length := by
  cases strict with
  | false => simp [parsedLine]
  | true =>
    have hpos : 0 < (escape [c]).length := by
      cases c with
      | char c => simpa [escape, chars] using length_escapeChar_pos c
      | surrogate n => simp [escape]
    have hcons : escape (c :: line) = escape [c] ++ escape line := escape_append [c] line
    rw [parsedLine, if_pos rfl, parsedLine, if_pos rfl, hcons, List.length_append]
    exact Nat.lt_add_of_pos_left hpos

/-- What is taken from a line without a mark is its first character. -/
theorem parsedLine_afterDelim_iff :
    parsedLine strict (afterDelim blockquoteDelim line) = parsedLine strict (withoutMark line) ↔
      line = [] ∨ blockquoteDelim.isPrefixOf line := by
  by_cases hmark : blockquoteDelim.isPrefixOf line
  · simp [withoutMark, hmark]
  rcases line with _ | ⟨c, text⟩
  · exact iff_of_true rfl (.inl rfl)
  · have hspace : ¬(blockquoteDelim ++ chars [' ']).isPrefixOf (c :: text) = true := fun h =>
      hmark (List.isPrefixOf_iff_prefix.mpr
        ((List.prefix_append _ _).trans (List.isPrefixOf_iff_prefix.mp h)))
    have hafter : afterDelim blockquoteDelim (c :: text) = text := by
      rw [afterDelim, if_neg hspace]
      rfl
    have hlt := length_parsedLine_lt strict c text
    rw [hafter, withoutMark, if_neg hmark]
    refine iff_of_false (fun h => ?_) (fun h => h.elim (List.cons_ne_nil c text) hmark)
    rw [h] at hlt
    exact Nat.lt_irrefl _ hlt

/-- A statement about the lines with what stands before each. -/
theorem forall_split_cons {P : List Str → Str → Prop} {first : Str} {tail : List Str} :
    (∀ before line after, first :: tail = before ++ line :: after → P before line) ↔
      P [] first ∧ ∀ before line after, tail = before ++ line :: after →
        P (first :: before) line := by
  constructor
  · refine fun h => ⟨h [] first tail rfl, fun before line after htail =>
      h (first :: before) line after ?_⟩
    rw [htail, List.cons_append]
  · rintro ⟨hfirst, htail⟩ before line after hsplit
    cases before with
    | nil => cases hsplit; exact hfirst
    | cons b before => cases hsplit; exact htail before line after rfl

/-- The code reads every line without its mark iff it never takes a character that is none. -/
theorem map_unmarked_iff (inside : Bool) (lines : List Str) :
    (unmarked (afterDelim blockquoteDelim) inside lines).map
      (fun x => (x.1, parsedLine strict x.2)) =
        (unmarked withoutMark inside lines).map (fun x => (x.1, parsedLine strict x.2)) ↔
      ∀ before line after, lines = before ++ line :: after → before.foldl opens inside = true →
        opens true line →
        line = [] ∨ blockquoteDelim.isPrefixOf line := by
  induction lines generalizing inside with
  | nil =>
    refine iff_of_true (by cases inside <;> rfl) fun before line after h => ?_
    simp at h
  | cons first tail ih =>
    rw [forall_split_cons (P := fun before line => before.foldl opens inside = true →
      opens true line →
      line = [] ∨ blockquoteDelim.isPrefixOf line)]
    cases inside with
    | false =>
      rw [unmarked, unmarked, List.map_cons, List.map_cons, List.cons_inj_right, ih]
      simp
    | true =>
      rw [unmarked, unmarked, List.map_cons, List.map_cons, List.cons.injEq, ih]
      refine and_congr ?_ Iff.rfl
      by_cases hopens : opens true first
      · simp only [Prod.mk.injEq, true_and, List.foldl_nil, true_imp_iff, hopens]
        exact parsedLine_afterDelim_iff
      · simp [hopens]

theorem textLines_eq (text : Str) (strict : Bool) :
    textLines text strict =
      .ok ((quoted strict (splitlines text)).textLines.map (escapeEntry strict)) :=
  escapeRest_quoted strict (splitlines text)

/-- The entries, if the queue is emptied in its place. -/
theorem shown_textLines
    (hfirst : lines.foldl opens false = true → ∀ line ∈ lines.head?,
      ¬blockquoteDelim.isPrefixOf line) :
    shown 0 ((quoted strict lines).textLines.map (escapeEntry strict)) =
      ((unmarked (afterDelim blockquoteDelim) false lines).map fun x =>
        (x.1, parsedLine strict x.2)).zipIdx := by
  rw [shown_map_escapeEntry, shown_quoted hfirst, List.zipIdx_map, List.zipIdx_map, List.map_map]
  refine List.map_congr_left fun x _ => ?_
  rcases x with ⟨⟨_ | _, text⟩, i⟩ <;> rfl

/-- **No text is lost or moved iff the marks are as they should be**: every line that is not empty
has its mark in an open expandable quote, and where such a quote is never closed the text does not
begin with a mark. -/
theorem keeps_iff (text : Str) (strict : Bool) : Keeps text strict ↔
    WellMarked (splitlines text) := by
  have hkeeps : Keeps text strict ↔
    shown 0 ((quoted strict (splitlines text)).textLines.map (escapeEntry strict)) =
      ((unmarked withoutMark false (splitlines text)).map fun x =>
        (x.1, parsedLine strict x.2)).zipIdx := by
    simp [Keeps, textLines_eq]
  rw [hkeeps]
  generalize splitlines text = lines
  by_cases hfirst : lines.foldl opens false = true → ∀ line ∈ lines.head?,
    ¬blockquoteDelim.isPrefixOf line
  · rw [shown_textLines hfirst]
    have hzip {l l' : List Shown} : l.zipIdx = l'.zipIdx ↔ l = l' :=
      ⟨fun h => by simpa using congrArg (List.map Prod.fst) h, fun h => by rw [h]⟩
    rw [hzip, map_unmarked_iff]
    exact ⟨fun h => ⟨h, hfirst⟩, fun h => h.inner⟩
  · refine iff_of_false (fun h => hfirst fun hopen line hline hmark => ?_)
      (fun h => hfirst h.closed)
    obtain ⟨tail, rfl⟩ : ∃ tail, lines = line :: tail := List.head?_eq_some_iff.mp hline
    -- the first line is shown first, but no quote shows it first
    have hhead := congrArg List.head? h
    rw [shown_map_escapeEntry, List.head?_map, unmarked, List.map_cons, List.zipIdx_cons,
      List.head?_cons, Option.map_eq_some_iff] at hhead
    obtain ⟨x, hx, hx0⟩ := hhead
    exact ne_zero_of_open hopen hmark hx (congrArg Prod.snd hx0)

/-- An expandable quote with a line that has no mark: `cd` loses its first character. -/
theorem not_keeps_unmarked :
    ¬Keeps (chars "**>ab\ncd\nef||".toList) false ∧
      escapeAndCreateQuotes (chars "**>ab\ncd\nef||".toList) false =
        .ok (chars "<blockquote expandable>ab\nd\nef</blockquote>".toList) := by
  constructor
  · rintro ⟨lines, hlines, hshown⟩
    rw [textLines_eq] at hlines
    cases hlines
    revert hshown
    decide
  · rfl

end Pyrogram.Parser.Markdown
