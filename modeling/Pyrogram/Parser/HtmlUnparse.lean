import Pyrogram.Parser.Utils
import Mathlib.Algebra.BigOperators.Group.List.Basic
import Mathlib.Algebra.GroupWithZero.Nat
import Mathlib.Data.Int.Notation
import Mathlib.Data.List.Induction
import Mathlib.Data.List.Sort

/-!
# Writing HTML

`HTML.unparse` sorts the entities, walks through them with a recursion that pushes the
opening tag of an entity, what is inside it, and the closing tag, and then inserts the tags
from the last one to the first.  What stands between two tags is escaped when the tag before
it is inserted.

## Main definitions

* `Entity`, `Entity.parseOne` — an entity, and its two tags.
* `parseEntities` — the recursion.
* `unparse` — `HTML.unparse`.
* `Escaped` — a text that is escaped as a whole, with the tags at their places.

## Main results

* `parseEntities_spec` — the tags are nested, and in the order of their offsets.
* `insertMarks_reverse` — what the insertions make of the text.
* `escaped_iff` — **when everything that is not tagged is escaped.**
-/

namespace Pyrogram.Parser.HTML

/-- `MessageEntityType`, with what the tags show of an entity. -/
inductive EntityType
  | bold
  | italic
  | underline
  | strikethrough
  | pre (language : List Char)
  | blockquote (expandable : Bool)
  | code
  | spoiler
  | textLink (url : List Char)
  | textMention (userId : ℤ)
  | customEmoji (customEmojiId : ℤ)
  | dateTime (unixTime : ℤ) (dateTimeFormat : List Char)
  /-- A type that has no tag. -/
  | other
  deriving DecidableEq, Repr

structure Entity where
  type : EntityType
  offset : ℕ
  length : ℕ
  deriving DecidableEq, Repr

def Entity.stop (e : Entity) : ℕ := e.offset + e.length

/-- An entry of `entities_offsets`. -/
structure Mark where
  tag : List Char
  offset : ℕ
  deriving DecidableEq, Repr

/-- The decimal form of a number. -/
def decimal (n : ℤ) : List Char := (toString n).toList

def quoted (s : List Char) : List Char := '\x22' :: s ++ ['\x22']

/-- The opening and the closing tag. -/
def EntityType.tags : EntityType → Option (List Char × List Char)
  | .bold => some ("<b>".toList, "</b>".toList)
  | .italic => some ("<i>".toList, "</i>".toList)
  | .underline => some ("<u>".toList, "</u>".toList)
  | .strikethrough => some ("<s>".toList, "</s>".toList)
  | .pre language =>
      some (if language ≠ [] then "<pre language=".toList ++ quoted language ++ ">".toList
        else "<pre>".toList,
        "</pre>".toList)
  | .blockquote expandable =>
      some ("<blockquote".toList ++ (if expandable then " expandable".toList else []) ++ ">".toList,
        "</blockquote>".toList)
  | .code => some ("<code>".toList, "</code>".toList)
  | .spoiler => some ("<spoiler>".toList, "</spoiler>".toList)
  | .textLink url => some ("<a href=".toList ++ quoted url ++ ">".toList, "</a>".toList)
  | .textMention userId =>
      some ("<a href=".toList ++ quoted ("tg://user?id=".toList ++ decimal userId) ++ ">".toList,
        "</a>".toList)
  | .customEmoji customEmojiId =>
      some ("<tg-emoji emoji-id=".toList ++ quoted (decimal customEmojiId) ++ ">".toList,
        "</tg-emoji>".toList)
  | .dateTime unixTime dateTimeFormat =>
      some ("<tg-time unix=".toList ++ quoted (decimal unixTime) ++
        (if dateTimeFormat ≠ [] then " format=".toList ++ quoted dateTimeFormat else []) ++
          ">".toList, "</tg-time>".toList)
  | .other => none

def Entity.parseOne (e : Entity) : Option (Mark × Mark) :=
  e.type.tags.map fun (startTag, endTag) => (⟨startTag, e.offset⟩, ⟨endTag, e.stop⟩)

/-- The `while` loops, and `recursive` within them: the loop for the entities inside another
one ends at its end, the main loop goes to the last entity.  It returns what is pushed and
the entities that are left. -/
def parseEntities : ℕ → Option ℕ → List Entity → List Mark × List Entity
  | 0, _, entities => ([], entities)
  | _ + 1, _, [] => ([], [])
  | fuel + 1, stop, e :: entities =>
      if stop.all (e.offset < ·) then
        let (this, entities) :=
          match e.parseOne with
          | none => ([], entities)
          | some (opening, closing) =>
              let (inner, entities) := parseEntities fuel (some closing.offset) entities
              (opening :: inner ++ [closing], entities)
        let (marks, entities) := parseEntities fuel stop entities
        (this ++ marks, entities)
      else ([], e :: entities)

/-- `key=lambda e: (e.offset, -e.length)`. -/
def entityLe (e e' : Entity) : Bool := e.offset < e'.offset || e.offset = e'.offset && e'.length ≤
    e.length

/-- `text[start:stop]`. -/
def slice (text : Str) (start stop : ℕ) : Str := (text.take stop).drop start

/-- The last loop, with `last_offset`. -/
def insertMarks (text : Str) (lastOffset : ℕ) : List Mark → Str
  | [] => text
  | mark :: marks =>
      insertMarks (text.take mark.offset ++ chars mark.tag ++
        escape (slice text mark.offset lastOffset) ++
        text.drop lastOffset) mark.offset marks

def unparse (text : Str) (entities : List Entity) : Str :=
  let text := addSurrogates text
  let entities := entities.mergeSort entityLe
  let marks := (parseEntities (entities.length + 1) none entities).1
  match marks.getLast? with
  | none => removeSurrogates text
  | some last => removeSurrogates (insertMarks text last.offset marks.reverse)

/-! ### What should be written -/

inductive Tag
  | opening (e : Entity)
  | closing (e : Entity)
  deriving DecidableEq, Repr

namespace Tag

def offset : Tag → ℕ
  | opening e => e.offset
  | closing e => e.stop

def chars : Tag → List Char
  | opening e => (e.type.tags.map Prod.fst).getD []
  | closing e => (e.type.tags.map Prod.snd).getD []

def opened? : Tag → Option Entity
  | opening e => some e
  | closing _ => none

def mark (t : Tag) : Mark := ⟨t.chars, t.offset⟩

def entity : Tag → Entity
  | opening e | closing e => e

end Tag

/-- Every closing tag closes the entity that was opened last. -/
inductive Nested : List Tag → Prop
  | nil : Nested []
  | element (e : Entity) {inner rest : List Tag} (hinner : Nested inner) (hrest : Nested rest) :
      Nested (.opening e :: inner ++ .closing e :: rest)

inductive Piece
  | text (s : List Char)
  | tag (t : Tag)
  deriving DecidableEq, Repr

namespace Piece

def chars : Piece → List Char
  | text s => s
  | tag t => t.chars

/-- What is left when the tags are deleted. -/
def content : Piece → List Char
  | text s => s
  | tag _ => []

def tag? : Piece → Option Tag
  | text _ => none
  | tag t => some t

end Piece

def Entity.isTagged (e : Entity) : Bool := e.type.tags.isSome

/-- `out` is the text, escaped, with the tags of the entities at their offsets. -/
structure Escaped (text : List Char) (entities : List Entity) (out : Str) (pieces : List Piece) :
    Prop where
  out : out = chars (pieces.flatMap Piece.chars)
  content : pieces.flatMap Piece.content = escapeText text
  nested : Nested (pieces.filterMap Piece.tag?)
  tags : ((pieces.filterMap Piece.tag?).filterMap Tag.opened?).Perm
    (entities.filter Entity.isTagged)
  position : ∀ before tag after, pieces = before ++ .tag tag :: after →
    ∃ t rest, text = t ++ rest ∧ unitLength t = tag.offset ∧
      before.flatMap Piece.content = escapeText t

/-- Two entities are apart, or one of them is inside the other. -/
def Laminar (e e' : Entity) : Prop :=
  e.stop ≤ e'.offset ∨ e'.stop ≤ e.offset ∨ e.offset ≤ e'.offset ∧ e'.stop ≤ e.stop ∨
    e'.offset ≤ e.offset ∧ e.stop ≤ e'.stop

/-- A list of properly nested entities of a text, whose offsets split no character. -/
structure Proper (text : List Char) (entities : List Entity) : Prop where
  nested : entities.Pairwise Laminar
  boundary : ∀ e ∈ entities, Boundary text e.offset ∧ Boundary text e.stop

/-! ### The recursion -/

variable {text : List Char} {entities : List Entity} {tags tags' : List Tag} {pieces : List Piece}

theorem Nested.append (h : Nested tags) (h' : Nested tags') : Nested (tags ++ tags') := by
  induction h with
  | nil => exact h'
  | element e hinner _ _ ih =>
    simp only [List.cons_append, List.append_assoc]
    exact .element e hinner ih

/-- A tag that closes an entity has one that opens it. -/
theorem Nested.entity_mem (h : Nested tags) :
    ∀ t ∈ tags, t.entity ∈ tags.filterMap Tag.opened? := by
  induction h with
  | nil => nofun
  | element e _ _ ihinner ihrest =>
    intro t ht
    simp only [List.filterMap_append, List.filterMap_cons, Tag.opened?, List.mem_append,
      List.mem_cons] at ht ⊢
    rcases ht with (rfl | ht) | (rfl | ht)
    · exact Or.inl (Or.inl rfl)
    · exact Or.inl (Or.inr (ihinner t ht))
    · exact Or.inl (Or.inl rfl)
    · exact Or.inr (ihrest t ht)

/-- The order of the sorted entities, of which the first of two may hold the second. -/
def Ordered (e e' : Entity) : Prop := e.offset ≤ e'.offset ∧ (e.stop ≤ e'.offset ∨ e'.stop ≤ e.stop)

theorem pairwise_ordered (h : entities.Pairwise Laminar) :
    (entities.mergeSort entityLe).Pairwise Ordered := by
  have hsymm : ∀ {e e'}, Laminar e e' → Laminar e' e := by
    unfold Laminar
    omega
  have hlaminar : (entities.mergeSort entityLe).Pairwise Laminar :=
    (List.Perm.pairwise_iff hsymm (List.mergeSort_perm entities entityLe)).mpr h
  have hsorted : (entities.mergeSort entityLe).Pairwise fun e e' => entityLe e e' = true := by
    refine List.pairwise_mergeSort ?_ ?_ entities
    · simp only [entityLe, Bool.or_eq_true, Bool.and_eq_true, decide_eq_true_eq]
      omega
    · intro e e'
      simp only [entityLe, Bool.or_eq_true, Bool.and_eq_true, decide_eq_true_eq]
      omega
  refine (hlaminar.and hsorted).imp ?_
  simp only [entityLe, Bool.or_eq_true, Bool.and_eq_true, decide_eq_true_eq]
  unfold Laminar Ordered Entity.stop
  omega

theorem parseOne_eq {e : Entity} (h : e.isTagged = true) :
    e.parseOne = some ((Tag.opening e).mark, (Tag.closing e).mark) := by
  obtain ⟨tags, htags⟩ := Option.isSome_iff_exists.mp h
  simp [Entity.parseOne, Tag.mark, Tag.chars, Tag.offset, htags]

theorem parseOne_eq_none {e : Entity} (h : e.isTagged = false) : e.parseOne = none := by
  have hnone : e.type.tags = none := by simpa [Entity.isTagged] using h
  simp [Entity.parseOne, hnone]

/-- What a loop pushes: the tags of the entities it parses, all between two offsets. -/
structure Pushed (start : ℕ) (stop : Option ℕ) (parsed rest : List Entity) (tags : List Tag) :
    Prop where
  nested : Nested tags
  opened : tags.filterMap Tag.opened? = parsed.filter Entity.isTagged
  sorted : (tags.map Tag.offset).Pairwise (· ≤ ·)
  start_le : ∀ t ∈ tags, start ≤ t.offset
  le_stop : ∀ b ∈ stop, ∀ t ∈ tags, t.offset ≤ b
  stop_le : ∀ b ∈ stop, ∀ e ∈ rest, b ≤ e.offset
  all : stop = none → rest = []

/-- A tagged entity around what the inner loop pushes. -/
theorem Pushed.element {e : Entity} {inner after rest : List Entity} {start : ℕ} {stop : Option ℕ}
    (he : e.isTagged = true)
    (hstart : start ≤ e.offset) (hstop : ∀ b ∈ stop, e.stop ≤ b)
    (hinner : Pushed e.offset (some e.stop) inner (after ++ rest) tags)
    (hafter : Pushed e.stop stop after rest tags') :
    Pushed start stop (e :: inner ++ after) rest (.opening e :: tags ++ .closing e :: tags') := by
  have hlength : e.offset ≤ e.stop := Nat.le_add_right _ _
  refine ⟨.element e hinner.nested hafter.nested, ?_, ?_, ?_, ?_, hafter.stop_le, hafter.all⟩
  · rw [List.filterMap_append, List.filter_append, ← hafter.opened, List.filter_cons_of_pos he,
      ← hinner.opened]
    rfl
  -- the inner tags lie within the element, the later ones behind it
  · rw [List.map_append, List.map_cons, List.map_cons, List.pairwise_append, List.pairwise_cons,
      List.pairwise_cons]
    have hle : ∀ o ∈ tags.map Tag.offset, e.offset ≤ o ∧ o ≤ e.stop := by
      intro o ho
      obtain ⟨t, ht, rfl⟩ := List.mem_map.mp ho
      exact ⟨hinner.start_le t ht, hinner.le_stop _ rfl t ht⟩
    have hge : ∀ o ∈ tags'.map Tag.offset, e.stop ≤ o := by
      intro o ho
      obtain ⟨t, ht, rfl⟩ := List.mem_map.mp ho
      exact hafter.start_le t ht
    refine ⟨⟨fun o ho => (hle o ho).1, hinner.sorted⟩, ⟨hge, hafter.sorted⟩, ?_⟩
    intro o ho o' ho'
    have hl : o ≤ e.stop := by
      rcases List.mem_cons.mp ho with rfl | ho
      · exact hlength
      · exact (hle o ho).2
    rcases List.mem_cons.mp ho' with rfl | ho'
    · exact hl
    · exact hl.trans (hge o' ho')
  -- the bounds on both sides, tag by tag
  · intro t ht
    rcases List.mem_append.mp ht with ht | ht <;> rcases List.mem_cons.mp ht with rfl | ht
    · exact hstart
    · exact hstart.trans (hinner.start_le t ht)
    · exact hstart.trans hlength
    · exact (hstart.trans hlength).trans (hafter.start_le t ht)
  · intro b hb t ht
    rcases List.mem_append.mp ht with ht | ht <;> rcases List.mem_cons.mp ht with rfl | ht
    · exact hlength.trans (hstop b hb)
    · exact (hinner.le_stop _ rfl t ht).trans (hstop b hb)
    · exact hstop b hb
    · exact hafter.le_stop b hb t ht

/-- **The tags are nested, and in the order of their offsets.** -/
theorem parseEntities_spec (fuel start : ℕ) (stop : Option ℕ) (entities : List Entity)
    (hfuel : entities.length < fuel)
    (hordered : entities.Pairwise Ordered) (hstart : ∀ e ∈ entities, start ≤ e.offset)
    (hstop : ∀ b ∈ stop, ∀ e ∈ entities, e.offset < b → e.stop ≤ b) :
    ∃ parsed rest tags, entities = parsed ++ rest ∧
      parseEntities fuel stop entities = (tags.map Tag.mark, rest) ∧
      Pushed start stop parsed rest tags := by
  induction fuel generalizing start stop entities with
  | zero => cases hfuel
  | succ fuel ih =>
    cases entities with
    | nil => exact ⟨[], [], [], rfl, rfl, .nil, rfl, .nil, nofun, fun _ _ => nofun, fun _ _ =>
        nofun, fun _ => rfl⟩
    | cons e entities =>
      obtain ⟨he, hrest⟩ := List.pairwise_cons.mp hordered
      obtain ⟨hstarte, hstart'⟩ := List.forall_mem_cons.mp hstart
      have hfuel' : entities.length < fuel := Nat.lt_of_succ_lt_succ hfuel
      rw [parseEntities]
      by_cases hinside : stop.all (e.offset < ·) = true
      · rw [if_pos hinside]
        cases htagged : e.isTagged with
        | false =>
          obtain ⟨parsed, rest, tags, rfl, hparse, hpushed⟩ :=
            ih start stop entities hfuel' hrest hstart'
            fun b hb e' he' => hstop b hb e' (List.mem_cons_of_mem e he')
          rw [parseOne_eq_none htagged]
          dsimp only
          rw [hparse]
          refine ⟨e :: parsed, rest, tags, rfl, rfl, { hpushed with opened := ?_ }⟩
          rw [List.filter_cons_of_neg (by rw [htagged]; exact Bool.false_ne_true)]
          exact hpushed.opened
        | true =>
          -- What starts inside the entity ends inside it.
          have hinner : ∀ b ∈ some e.stop, ∀ e' ∈ entities, e'.offset < b → e'.stop ≤ b := by
            rintro b hb e' he' hlt
            obtain rfl : e.stop = b := Option.some.inj hb
            exact (he e' he').2.resolve_left (Nat.not_le_of_lt hlt)
          obtain ⟨inner, left, tags, rfl, hparse, hpushed⟩ :=
            ih e.offset (some e.stop) entities hfuel' hrest
            (fun e' he' => (he e' he').1) hinner
          have hleft : left.length < fuel := by
            rw [List.length_append] at hfuel'
            omega
          obtain ⟨after, rest, tags', rfl, hparse', hpushed'⟩ := ih e.stop stop left hleft
            (List.pairwise_append.mp hrest).2.1 (hpushed.stop_le _ rfl) fun b hb e' he' =>
              hstop b hb e' (List.mem_cons_of_mem e (List.mem_append_right inner he'))
          rw [parseOne_eq htagged]
          dsimp only
          have hclosing : (Tag.closing e).mark.offset = e.stop := rfl
          rw [hclosing, hparse]
          dsimp only
          rw [hparse']
          refine ⟨e :: inner ++ after, rest, .opening e :: tags ++
            .closing e :: tags', by simp, by simp,
            .element htagged hstarte ?_ hpushed hpushed'⟩
          intro b hb
          refine hstop b hb e List.mem_cons_self ?_
          rw [Option.mem_def.mp hb] at hinside
          simpa using hinside
      · rw [if_neg hinside]
        obtain ⟨b, rfl, hb⟩ : ∃ b, stop = some b ∧ b ≤ e.offset := by
          cases stop with
          | none => exact absurd rfl hinside
          | some b => exact ⟨b, rfl, by simpa using hinside⟩
        refine ⟨[], e :: entities, [], rfl, rfl, .nil, rfl, .nil, nofun, fun _ _ =>
          nofun, ?_, nofun⟩
        rintro b' hb' e' he'
        obtain rfl : b = b' := Option.some.inj hb'
        rcases List.mem_cons.mp he' with rfl | he'
        · exact hb
        · exact hb.trans (he e' he').1

/-! ### The insertions -/

/-- The marks, with what stands between them. -/
def assemble (text : Str) : List Mark → Str
  | [] => []
  | [mark] => chars mark.tag
  | mark :: mark' :: marks =>
      chars mark.tag ++
        (escape (slice text mark.offset mark'.offset) ++ assemble text (mark' :: marks))

/-- **What the insertions make of the text**: all in front of the first mark and behind the last
one stays as it is. -/
theorem insertMarks_reverse {text tail : Str} {mark : Mark} {marks before : List Mark}
    {first : Mark}
    (hfirst : (before ++ mark :: marks).head? = some first)
    (hsorted : ((before ++ mark :: marks).map Mark.offset).Pairwise (· ≤ ·))
    (hlength : mark.offset ≤ text.length) :
    insertMarks (text.take mark.offset ++ assemble text (mark :: marks) ++ tail) mark.offset
      before.reverse =
      text.take first.offset ++ assemble text (before ++ mark :: marks) ++ tail := by
  induction before using List.reverseRecOn generalizing mark marks with
  | nil =>
    obtain rfl : mark = first := Option.some.inj hfirst
    rfl
  | append_singleton before mark' ih =>
    have hassoc : before ++ [mark'] ++ mark :: marks = before ++ mark' :: mark :: marks :=
      List.append_assoc ..
    rw [hassoc] at hfirst hsorted ⊢
    have hle : mark'.offset ≤ mark.offset := by
      rw [List.map_append] at hsorted
      have htail := (List.pairwise_append.mp hsorted).2.1
      exact (List.pairwise_cons.mp htail).1 _ List.mem_cons_self
    have hstep := @ih mark' (mark :: marks) hfirst hsorted (hle.trans hlength)
    rw [List.reverse_append, List.reverse_singleton, List.singleton_append, insertMarks, ← hstep]
    congr 1
    have htake : (text.take mark.offset).length = mark.offset := List.length_take_of_le hlength
    rw [List.append_assoc (text.take mark.offset), List.take_append_of_le_length
      (by rw [htake]; exact hle), List.take_take,
      Nat.min_eq_left hle, List.drop_left' htake, slice, List.take_left' htake]
    simp [assemble, slice]

/-- All marks inserted. -/
theorem insertMarks_eq {text : Str} {marks : List Mark} {first last : Mark}
    (hfirst : marks.head? = some first)
    (hlast : marks.getLast? = some last) (hsorted : (marks.map Mark.offset).Pairwise (· ≤ ·))
    (hlength : last.offset ≤ text.length) :
    insertMarks text last.offset marks.reverse =
      text.take first.offset ++ assemble text marks ++ text.drop last.offset := by
  obtain ⟨before, rfl⟩ := List.getLast?_eq_some_iff.mp hlast
  have hslice : escape (slice text last.offset last.offset) = [] := by
    rw [slice, List.drop_take, Nat.sub_self, List.take_zero]
    rfl
  rw [List.reverse_append, List.reverse_singleton, List.singleton_append, insertMarks, hslice,
    List.append_nil, ← insertMarks_reverse hfirst hsorted hlength]
  rfl

/-! ### The pieces -/

/-- The characters between two offsets. -/
def between (text : List Char) (start stop : ℕ) : List Char :=
  (before text stop).drop (before text start).length

/-- The characters behind an offset. -/
def after (text : List Char) (offset : ℕ) : List Char := text.drop (before text offset).length

/-- The tags, with what stands between them, escaped. -/
def middle (text : List Char) : List Tag → List Piece
  | [] => []
  | [t] => [.tag t]
  | t :: t' :: tags =>
      .tag t :: .text (escapeText (between text t.offset t'.offset)) :: middle text (t' :: tags)

/-- The whole text: `f` is what becomes of its two ends. -/
def whole (f : List Char → List Char) (text : List Char) (tags : List Tag) : List Piece :=
  match tags.head?, tags.getLast? with
  | some first, some last =>
      .text (f (before text first.offset)) :: middle text tags ++
        [.text (f (after text last.offset))]
  | _, _ => [.text (f text)]

theorem before_append_after (text : List Char) (offset : ℕ) (h : Boundary text offset) :
    before text offset ++ after text offset = text := by
  obtain ⟨t, rest, rfl, rfl⟩ := h
  rw [after, before_unitLength, List.drop_left]

theorem unitLength_before {offset : ℕ} (h : Boundary text offset) :
    unitLength (before text offset) = offset := by
  obtain ⟨t, rest, rfl, rfl⟩ := h
  rw [before_unitLength]

/-- The part before an offset is what is before a smaller one, and what is between the two. -/
theorem before_append_between {start stop : ℕ} (hstart : Boundary text start)
    (hstop : Boundary text stop)
    (hle : start ≤ stop) : before text start ++ between text start stop = before text stop := by
  obtain ⟨t, rest, htext, rfl⟩ := hstart
  obtain ⟨t', rest', rfl, rfl⟩ := hstop
  have hlength : t.length ≤ t'.length := by
    by_contra hlt
    rcases List.append_eq_append_iff.mp htext with ⟨u, rfl, rfl⟩ | ⟨u, rfl, rfl⟩
    · cases u with
      | nil => simp at hlt
      | cons c u =>
        have hpos := unitLength_pos c
        rw [unitLength_append, unitLength_cons] at hle
        omega
    · exact hlt (by simp)
  have hpre : t <+: t' :=
    List.prefix_of_prefix_length_le ⟨rest, htext.symm⟩ (List.prefix_append t' rest') hlength
  obtain ⟨u, rfl⟩ := hpre
  rw [between, before_unitLength, List.append_assoc, before_unitLength, List.drop_left]

theorem take_addSurrogates {offset : ℕ} (h : Boundary text offset) :
    (addSurrogates (Parser.chars text)).take offset =
      addSurrogates (Parser.chars (before text offset)) := by
  conv_lhs => rw [← before_append_after text offset h, chars_append, addSurrogates_append]
  exact List.take_left' (unitLength_before h)

theorem drop_addSurrogates {offset : ℕ} (h : Boundary text offset) :
    (addSurrogates (Parser.chars text)).drop offset =
      addSurrogates (Parser.chars (after text offset)) := by
  conv_lhs => rw [← before_append_after text offset h, chars_append, addSurrogates_append]
  exact List.drop_left' (unitLength_before h)

theorem slice_addSurrogates {start stop : ℕ} (hstart : Boundary text start)
    (hstop : Boundary text stop)
    (hle : start ≤ stop) :
    slice (addSurrogates (Parser.chars text)) start stop =
      addSurrogates (Parser.chars (between text start stop)) := by
  rw [slice, take_addSurrogates hstop, ← before_append_between hstart hstop hle, chars_append,
    addSurrogates_append]
  exact List.drop_left' (unitLength_before hstart)

/-- What the tags stand for, in the units of the text. -/
theorem addSurrogates_assemble (hsorted : (tags.map Tag.offset).Pairwise (· ≤ ·))
    (hboundary : ∀ t ∈ tags, Boundary text t.offset) :
    addSurrogates (assemble (addSurrogates (Parser.chars text)) (tags.map Tag.mark)) =
      addSurrogates (Parser.chars ((middle text tags).flatMap Piece.chars)) := by
  induction tags with
  | nil => rfl
  | cons t tags ih =>
    cases tags with
    | nil => simp [assemble, middle, Piece.chars, Tag.mark]
    | cons t' tags =>
      obtain ⟨hle, hsorted'⟩ := List.pairwise_cons.mp hsorted
      obtain ⟨ht, hboundary'⟩ := List.forall_mem_cons.mp hboundary
      have hslice : addSurrogates
        (escape (slice (addSurrogates (Parser.chars text)) t.offset t'.offset)) =
          addSurrogates (Parser.chars (escapeText (between text t.offset t'.offset))) := by
        rw [slice_addSurrogates ht (hboundary' t' List.mem_cons_self) (hle _ List.mem_cons_self),
          addSurrogates_escape, addSurrogates_addSurrogates, ← addSurrogates_escape, escape_chars]
      have ih' := ih hsorted' hboundary'
      rw [List.map_cons] at ih'
      rw [List.map_cons, List.map_cons, assemble, addSurrogates_append, addSurrogates_append, ih',
        middle, List.flatMap_cons,
        List.flatMap_cons, chars_append, chars_append, addSurrogates_append, addSurrogates_append]
      exact congrArg (fun s => addSurrogates (Parser.chars t.chars) ++ (s ++ _)) hslice

/-- **What is written**: only what stands between two tags is escaped. -/
theorem unparse_eq (hproper : Proper text entities) :
    ∃ tags, Nested tags ∧ (tags.filterMap Tag.opened?).Perm (entities.filter Entity.isTagged) ∧
      (tags.map Tag.offset).Pairwise (· ≤ ·) ∧ (∀ t ∈ tags, Boundary text t.offset) ∧
      unparse (Parser.chars text) entities =
        Parser.chars ((whole id text tags).flatMap Piece.chars) := by
  -- sorting loses no entity, and orders them as the recursion needs
  have hperm := List.mergeSort_perm entities entityLe
  obtain ⟨parsed, rest, tags, hentities, hparse, hpushed⟩ :=
    parseEntities_spec ((entities.mergeSort entityLe).length + 1) 0
    none (entities.mergeSort entityLe) (Nat.lt_succ_self _) (pairwise_ordered hproper.nested)
      (fun _ _ => Nat.zero_le _) nofun
  obtain rfl := hpushed.all rfl
  rw [List.append_nil] at hentities
  have hopened : (tags.filterMap Tag.opened?).Perm (entities.filter Entity.isTagged) := by
    rw [hpushed.opened, ← hentities]
    exact hperm.filter _
  -- each tag stands at an end of its entity
  have hboundary : ∀ t ∈ tags, Boundary text t.offset := by
    intro t ht
    have hmem := List.mem_of_mem_filter (hopened.mem_iff.mp (hpushed.nested.entity_mem t ht))
    have hentity := hproper.boundary _ hmem
    cases t with
    | opening e => exact hentity.1
    | closing e => exact hentity.2
  refine ⟨tags, hpushed.nested, hopened, hpushed.sorted, hboundary, ?_⟩
  unfold unparse
  simp only [hparse, List.getLast?_map]
  -- without a tag nothing is inserted
  cases hlast : tags.getLast? with
  | none =>
    obtain rfl := List.getLast?_eq_none_iff.mp hlast
    refine removeSurrogates_eq ?_
    simp [whole, Piece.chars]
  | some last =>
    have hlastBoundary := hboundary last (List.mem_of_getLast? hlast)
    have hlength : last.mark.offset ≤ (addSurrogates (Parser.chars text)).length := by
      obtain ⟨t, rest, rfl, hoffset⟩ := hlastBoundary
      show last.offset ≤ unitLength (t ++ rest)
      rw [← hoffset, unitLength_append]
      exact Nat.le_add_right _ _
    obtain ⟨first, hfirst⟩ : ∃ first, tags.head? = some first := by
      cases tags with
      | nil => cases hlast
      | cons t tags => exact ⟨t, rfl⟩
    have hfirstMark : (tags.map Tag.mark).head? = some first.mark := by
      rw [List.head?_map, hfirst]; rfl
    have hlastMark : (tags.map Tag.mark).getLast? = some last.mark := by
      rw [List.getLast?_map, hlast]; rfl
    -- the marks are inserted from the last to the first, so that the offsets stay true
    have hinsert := insertMarks_eq hfirstMark hlastMark (by rw [List.map_map]; exact hpushed.sorted)
      hlength
    have hwhole : (whole id text tags).flatMap Piece.chars = before text first.offset ++
        ((middle text tags).flatMap Piece.chars ++ after text last.offset) := by
      rw [whole, hfirst, hlast]
      simp [Piece.chars]
    refine removeSurrogates_eq ?_
    have htake := take_addSurrogates (hboundary first (List.mem_of_head? hfirst))
    have hdrop := drop_addSurrogates hlastBoundary
    rw [hinsert, hwhole, addSurrogates_append, addSurrogates_append,
      addSurrogates_assemble hpushed.sorted hboundary]
    change addSurrogates (List.take first.offset _) ++ _ ++
      addSurrogates (List.drop last.offset _) = _
    rw [htake, hdrop]
    simp

/-! ### When everything is escaped -/

theorem content_middle {t : Tag} (hsorted : ((t :: tags).map Tag.offset).Pairwise (· ≤ ·))
    (hboundary : ∀ t' ∈ t :: tags, Boundary text t'.offset) {before after : List Piece} {tag : Tag}
    (h : middle text (t :: tags) = before ++ .tag tag :: after) :
    tag ∈ t :: tags ∧ escapeText (Parser.before text t.offset) ++ before.flatMap Piece.content =
      escapeText (Parser.before text tag.offset) := by
  -- on the tags before it, each with the text between it and the next one
  induction tags generalizing t before with
  | nil =>
    cases before with
    | nil =>
      obtain rfl : t = tag := by simpa [middle] using (List.cons.inj h).1
      exact ⟨List.mem_cons_self, by simp⟩
    | cons p before => simp [middle] at h
  | cons t' tags ih =>
    obtain ⟨hle, hsorted'⟩ := List.pairwise_cons.mp hsorted
    obtain ⟨ht, hboundary'⟩ := List.forall_mem_cons.mp hboundary
    cases before with
    | nil =>
      obtain rfl : t = tag := by simpa [middle] using (List.cons.inj h).1
      exact ⟨List.mem_cons_self, by simp⟩
    | cons p before =>
      rw [middle, List.cons_append] at h
      obtain ⟨rfl, hrest⟩ := List.cons.inj h
      cases before with
      | nil => cases (List.cons.inj hrest).1
      | cons p before =>
        obtain ⟨rfl, hmiddle⟩ := List.cons.inj hrest
        obtain ⟨hmem, hcontent⟩ := ih hsorted' hboundary' hmiddle
        refine ⟨List.mem_cons_of_mem t hmem, ?_⟩
        rw [← hcontent, List.flatMap_cons, List.flatMap_cons, Piece.content, Piece.content,
          List.nil_append,
          ← before_append_between ht (hboundary' t' List.mem_cons_self) (hle _ List.mem_cons_self),
            escapeText_append,
          List.append_assoc]

theorem content_middle_eq {t last : Tag} (hlast : (t :: tags).getLast? = some last)
    (hsorted : ((t :: tags).map Tag.offset).Pairwise (· ≤ ·))
    (hboundary : ∀ t' ∈ t :: tags, Boundary text t'.offset) :
    escapeText (before text t.offset) ++ (middle text (t :: tags)).flatMap Piece.content =
      escapeText (before text last.offset) := by
  induction tags generalizing t with
  | nil =>
    obtain rfl : t = last := Option.some.inj hlast
    simp [middle, Piece.content]
  | cons t' tags ih =>
    obtain ⟨hle, hsorted'⟩ := List.pairwise_cons.mp hsorted
    obtain ⟨ht, hboundary'⟩ := List.forall_mem_cons.mp hboundary
    rw [List.getLast?_cons_cons] at hlast
    rw [← ih hlast hsorted' hboundary', middle, List.flatMap_cons, List.flatMap_cons, Piece.content,
      Piece.content, List.nil_append, ← before_append_between ht (hboundary' t' List.mem_cons_self)
        (hle _ List.mem_cons_self),
      escapeText_append, List.append_assoc]

theorem tags_middle (text : List Char) (tags : List Tag) :
    (middle text tags).filterMap Piece.tag? = tags := by
  induction tags with
  | nil => rfl
  | cons t tags ih =>
    cases tags with
    | nil => rfl
    | cons t' tags => exact congrArg (t :: ·) ih

theorem whole_eq (f : List Char → List Char) {first last : Tag} (hfirst : tags.head? = some first)
    (hlast : tags.getLast? = some last) :
    whole f text tags =
      .text (f (before text first.offset)) :: middle text tags ++
        [.text (f (after text last.offset))] := by
  rw [whole, hfirst, hlast]

theorem tags_whole (f : List Char → List Char) (text : List Char) (tags : List Tag) :
    (whole f text tags).filterMap Piece.tag? = tags := by
  cases hlast : tags.getLast? with
  | none =>
    obtain rfl := List.getLast?_eq_none_iff.mp hlast
    rfl
  | some last =>
    cases tags with
    | nil => cases hlast
    | cons t tags =>
      rw [whole_eq f rfl hlast, List.cons_append, List.filterMap_cons_none rfl,
        List.filterMap_append, tags_middle]
      exact List.append_nil _

/-- **A text that is escaped as a whole.** -/
theorem escaped_whole (hnested : Nested tags)
    (htags : (tags.filterMap Tag.opened?).Perm (entities.filter Entity.isTagged))
    (hsorted : (tags.map Tag.offset).Pairwise (· ≤ ·))
    (hboundary : ∀ t ∈ tags, Boundary text t.offset) :
    Escaped text entities (Parser.chars ((whole escapeText text tags).flatMap Piece.chars))
      (whole escapeText text tags) := by
  refine ⟨rfl, ?_, (tags_whole _ _ _).symm ▸ hnested, (tags_whole _ _ _).symm ▸ htags, ?_⟩
  · cases hlast : tags.getLast? with
    | none =>
      obtain rfl := List.getLast?_eq_none_iff.mp hlast
      simp [whole, Piece.content]
    | some last =>
      cases tags with
      | nil => cases hlast
      | cons t tags =>
        have hmiddle := content_middle_eq hlast hsorted hboundary
        have hafter := before_append_after text last.offset
          (hboundary last (List.mem_of_getLast? hlast))
        rw [whole_eq escapeText rfl hlast, List.cons_append, List.flatMap_cons, List.flatMap_append,
          ← List.append_assoc, Piece.content, hmiddle]
        simp only [List.flatMap_cons, List.flatMap_nil, Piece.content, List.append_nil]
        rw [← escapeText_append, hafter]
  · intro pre tag post hpieces
    cases hlast : tags.getLast? with
    | none =>
      obtain rfl := List.getLast?_eq_none_iff.mp hlast
      cases pre with
      | nil => cases (List.cons.inj hpieces).1
      | cons p pre => cases pre <;> cases (List.cons.inj hpieces).2
    | some last =>
      cases tags with
      | nil => cases hlast
      | cons t tags =>
        rw [whole_eq escapeText rfl hlast, List.cons_append] at hpieces
        cases pre with
        | nil => cases (List.cons.inj hpieces).1
        | cons p pre =>
          obtain ⟨rfl, hrest⟩ := List.cons.inj hpieces
          -- The tag is not the text at the end.
          obtain ⟨post', hmiddle⟩ :
              ∃ post', middle text (t :: tags) = pre ++ .tag tag :: post' := by
            rcases List.append_eq_append_iff.mp hrest with ⟨u, rfl, hu⟩ | ⟨u, hmiddle, hu⟩
            · cases u with
              | nil => cases (List.cons.inj hu).1
              | cons p u => cases u <;> cases (List.cons.inj hu).2
            · cases u with
              | nil => cases (List.cons.inj hu).1
              | cons p u =>
                obtain ⟨rfl, -⟩ := List.cons.inj hu
                exact ⟨u, hmiddle⟩
          obtain ⟨hmem, hcontent⟩ := content_middle hsorted hboundary hmiddle
          exact ⟨before text tag.offset, after text tag.offset,
            (before_append_after text _ (hboundary tag hmem)).symm,
            unitLength_before (hboundary tag hmem), hcontent⟩

/-! ### The length of what is written -/

def tagLength (tags : List Tag) : ℕ := (tags.map fun t => t.chars.length).sum

theorem length_chars (pieces : List Piece) :
    (pieces.flatMap Piece.chars).length = (pieces.flatMap Piece.content).length +
      tagLength (pieces.filterMap Piece.tag?) := by
  induction pieces with
  | nil => rfl
  | cons p pieces ih =>
    rw [List.flatMap_cons, List.flatMap_cons, List.length_append, List.length_append, ih]
    cases p with
    | text s =>
      rw [List.filterMap_cons_none rfl]
      exact (Nat.add_assoc ..).symm
    | tag t =>
      simp [Piece.chars, Piece.content, Piece.tag?, tagLength]
      omega

/-- The tags of an entity are as long as they are, wherever they stand. -/
theorem Nested.tagLength_eq (h : Nested tags) :
    tagLength tags = ((tags.filterMap Tag.opened?).map fun e =>
      (Tag.opening e).chars.length + (Tag.closing e).chars.length).sum := by
  induction h with
  | nil => rfl
  | element e _ _ ihinner ihrest =>
    unfold tagLength at ihinner ihrest ⊢
    simp only [List.map_append, List.map_cons, List.sum_append, List.sum_cons,
      List.filterMap_append, List.filterMap_cons,
      Tag.opened?, ihinner, ihrest]
    omega

theorem tagLength_eq_of_perm (h : Nested tags) (h' : Nested tags')
    (hperm : (tags.filterMap Tag.opened?).Perm (tags'.filterMap Tag.opened?)) :
    tagLength tags = tagLength tags' := by
  rw [h.tagLength_eq, h'.tagLength_eq]
  exact (hperm.map _).sum_eq

/-! ### The two ends -/

theorem Nested.head_eq (h : Nested tags) {t : Tag} (hhead : tags.head? = some t) :
    t = .opening t.entity := by
  cases h with
  | nil => cases hhead
  | element e => cases hhead; rfl

theorem Nested.getLast_eq (h : Nested tags) {t : Tag} (hlast : tags.getLast? = some t) :
    t = .closing t.entity := by
  induction h with
  | nil => cases hlast
  | @element e inner rest _ _ _ ih =>
    rw [List.getLast?_append_of_ne_nil _ (List.cons_ne_nil _ _)] at hlast
    cases rest with
    | nil => cases hlast; rfl
    | cons t' rest =>
      rw [List.getLast?_cons_cons] at hlast
      exact ih hlast

theorem Nested.mem_of_opened (h : Nested tags) {e : Entity} (he : e ∈ tags.filterMap Tag.opened?) :
    .opening e ∈ tags ∧ .closing e ∈ tags := by
  induction h with
  | nil => cases he
  | element e' _ _ ihinner ihrest =>
    simp only [List.cons_append, List.filterMap_cons, List.filterMap_append, Tag.opened?,
      List.mem_cons, List.mem_append] at he ⊢
    rcases he with rfl | he | he
    · simp
    · simp [ihinner he]
    · simp [ihrest he]

/-- A character stands before an offset or behind it. -/
theorem mem_before_or_mem_after {t rest : List Char} {c : Char} {offset : ℕ}
    (htext : text = t ++ c :: rest)
    (hboundary : Boundary text offset) :
    (unitLength t < offset → c ∈ before text offset) ∧
      (offset ≤ unitLength t → c ∈ after text offset) := by
  obtain ⟨b, a, rfl, rfl⟩ := hboundary
  rw [after, before_unitLength, List.drop_left]
  rcases List.append_eq_append_iff.mp htext with ⟨u, rfl, rfl⟩ | ⟨u, rfl, hu⟩
  · refine ⟨fun hlt => absurd hlt ?_, fun _ => by simp⟩
    rw [unitLength_append]
    omega
  · cases u with
    | nil =>
      refine ⟨fun hlt => absurd hlt (by simp), fun _ => ?_⟩
      rw [List.nil_append] at hu
      exact hu ▸ List.mem_cons_self
    | cons c' u =>
      obtain ⟨rfl, -⟩ := List.cons.inj hu
      have hpos := unitLength_pos c
      refine ⟨fun _ => by simp, fun hle => absurd hle ?_⟩
      rw [unitLength_append, unitLength_cons]
      omega

/-- Every character that is to be escaped has a tagged entity that starts before it, and one
that ends behind it. -/
def Covered (text : List Char) (entities : List Entity) : Prop :=
  ∀ t c rest, text = t ++ c :: rest → isSpecial c = true →
    (∃ e ∈ entities, e.isTagged = true ∧ e.offset ≤ unitLength t) ∧
      ∃ e ∈ entities, e.isTagged = true ∧ unitLength t < e.stop

theorem length_whole_id
    (hpieces : Escaped text entities (Parser.chars ((whole id text tags).flatMap Piece.chars))
    pieces)
    (hnested : Nested tags)
    (htags : (tags.filterMap Tag.opened?).Perm (entities.filter Entity.isTagged)) :
    ((whole id text tags).flatMap Piece.content).length = (escapeText text).length := by
  have hout := congrArg List.length (chars_injective hpieces.out)
  rw [length_chars, length_chars, tags_whole, hpieces.content,
    tagLength_eq_of_perm hnested hpieces.nested (htags.trans hpieces.tags.symm)] at hout
  omega

/-- There is nothing to escape at the two ends. -/
def PlainEnds (text : List Char) (tags : List Tag) : Prop :=
  match tags.head?, tags.getLast? with
  | some first, some last =>
      (∀ c ∈ before text first.offset, isSpecial c = false) ∧ ∀ c ∈ after text last.offset,
        isSpecial c = false
  | _, _ => ∀ c ∈ text, isSpecial c = false

theorem PlainEnds.whole_eq (h : PlainEnds text tags) :
    whole id text tags = whole escapeText text tags := by
  unfold PlainEnds at h
  unfold whole
  split at h
  · simp only [id, escapeText_eq_self h.1, escapeText_eq_self h.2]
  · rw [escapeText_eq_self h]
    rfl

/-- The ends are as long as they are when they are escaped. -/
theorem plainEnds_of_length
    (h : ((whole id text tags).flatMap Piece.content).length =
      ((whole escapeText text tags).flatMap Piece.content).length) :
    PlainEnds text tags := by
  unfold PlainEnds
  split
  · next first last hfirst hlast =>
    rw [HTML.whole_eq id hfirst hlast, HTML.whole_eq escapeText hfirst hlast] at h
    simp only [List.cons_append, List.flatMap_cons, List.flatMap_append, List.flatMap_nil,
      Piece.content, List.append_nil,
      List.length_append, id] at h
    have hbefore := length_le_length_escapeText (before text first.offset)
    have hafter := length_le_length_escapeText (after text last.offset)
    exact ⟨length_escapeText_le_iff.mp (by omega), length_escapeText_le_iff.mp (by omega)⟩
  · next hnone =>
    have hwhole : ∀ f, whole f text tags = [.text (f text)] := by
      intro f
      unfold whole
      split
      · next first last hfirst hlast => exact absurd hlast (hnone first last hfirst)
      · rfl
    rw [hwhole, hwhole] at h
    simp only [List.flatMap_cons, List.flatMap_nil, Piece.content, List.append_nil, id] at h
    exact length_escapeText_le_iff.mp h.ge

theorem head_le (hsorted : (tags.map Tag.offset).Pairwise (· ≤ ·)) {first : Tag}
    (hfirst : tags.head? = some first) :
    ∀ t ∈ tags, first.offset ≤ t.offset := by
  cases tags with
  | nil => cases hfirst
  | cons t tags =>
    obtain rfl : t = first := Option.some.inj hfirst
    intro t' ht'
    rcases List.mem_cons.mp ht' with rfl | ht'
    · exact le_rfl
    · exact (List.pairwise_cons.mp hsorted).1 _ (List.mem_map_of_mem ht')

theorem le_getLast (hsorted : (tags.map Tag.offset).Pairwise (· ≤ ·)) {last : Tag}
    (hlast : tags.getLast? = some last) :
    ∀ t ∈ tags, t.offset ≤ last.offset := by
  obtain ⟨init, rfl⟩ := List.getLast?_eq_some_iff.mp hlast
  rw [List.map_append, List.pairwise_append] at hsorted
  intro t ht
  rcases List.mem_append.mp ht with ht | ht
  · exact hsorted.2.2 _ (List.mem_map_of_mem ht) _ List.mem_cons_self
  · rw [List.mem_singleton.mp ht]

theorem plainEnds_iff_covered (hnested : Nested tags)
    (htags : (tags.filterMap Tag.opened?).Perm (entities.filter Entity.isTagged))
    (hsorted : (tags.map Tag.offset).Pairwise (· ≤ ·))
    (hboundary : ∀ t ∈ tags, Boundary text t.offset) :
    PlainEnds text tags ↔ Covered text entities := by
  have hopened : ∀ e, e ∈ tags.filterMap Tag.opened? ↔ e ∈ entities ∧ e.isTagged = true := by
    intro e
    rw [htags.mem_iff, List.mem_filter]
  unfold PlainEnds
  -- the text before the first tag and after the last is not escaped
  split
  · next first last hfirst hlast =>
    have hfirstMem := List.mem_of_head? hfirst
    have hlastMem := List.mem_of_getLast? hlast
    constructor
    · rintro ⟨hbefore, hafter⟩ t c rest htext hspecial
      constructor
      -- a special character before the first tag is in no entity, and is not plain
      · refine ⟨first.entity, ((hopened _).mp (hnested.entity_mem first hfirstMem)).1,
          ((hopened _).mp (hnested.entity_mem first hfirstMem)).2, ?_⟩
        by_contra hlt
        have hoffset : first.offset = first.entity.offset := by rw [hnested.head_eq hfirst]; rfl
        have hmem := (mem_before_or_mem_after htext (hboundary first hfirstMem)).1 (by omega)
        rw [hbefore c hmem] at hspecial
        cases hspecial
      · refine ⟨last.entity, ((hopened _).mp (hnested.entity_mem last hlastMem)).1,
          ((hopened _).mp (hnested.entity_mem last hlastMem)).2, ?_⟩
        by_contra hlt
        have hoffset : last.offset = last.entity.stop := by rw [hnested.getLast_eq hlast]; rfl
        have hmem := (mem_before_or_mem_after htext (hboundary last hlastMem)).2 (by omega)
        rw [hafter c hmem] at hspecial
        cases hspecial
    · intro hcovered
      constructor
      · intro c hc
        by_contra hspecial
        obtain ⟨t, u, hsplit⟩ := List.append_of_mem hc
        have htext := before_append_after text _ (hboundary first hfirstMem)
        have hlength := unitLength_before (hboundary first hfirstMem)
        rw [hsplit] at htext hlength
        rw [List.append_assoc, List.cons_append] at htext
        -- the entity that covers it begins before the first tag, which cannot be
        obtain ⟨⟨e, he, htagged, hle⟩, -⟩ :=
          hcovered t c _ htext.symm (Bool.not_eq_false _ ▸ hspecial)
        have hfirstLe : first.offset ≤ e.offset :=
          head_le hsorted hfirst _ (hnested.mem_of_opened ((hopened e).mpr ⟨he, htagged⟩)).1
        have hpos := unitLength_pos c
        rw [unitLength_append, unitLength_cons] at hlength
        omega
      · intro c hc
        by_contra hspecial
        obtain ⟨t, u, hsplit⟩ := List.append_of_mem hc
        have htext := before_append_after text _ (hboundary last hlastMem)
        have hlength := unitLength_before (hboundary last hlastMem)
        rw [hsplit, ← List.append_assoc] at htext
        obtain ⟨-, e, he, htagged, hlt⟩ :=
          hcovered _ c _ htext.symm (Bool.not_eq_false _ ▸ hspecial)
        have hleLast : e.stop ≤ last.offset :=
          le_getLast hsorted hlast _ (hnested.mem_of_opened ((hopened e).mpr ⟨he, htagged⟩)).2
        rw [unitLength_append] at hlt
        omega
  -- without a tag the whole text is left as it is
  · next hnone =>
    obtain rfl : tags = [] := by
      cases tags with
      | nil => rfl
      | cons t tags =>
        exact absurd (List.getLast?_eq_some_getLast (List.cons_ne_nil t tags)) (hnone t _ rfl)
    constructor
    · intro hplain t c rest htext hspecial
      rw [hplain c (htext ▸ by simp)] at hspecial
      cases hspecial
    · intro hcovered c hc
      by_contra hspecial
      obtain ⟨t, rest, htext⟩ := List.append_of_mem hc
      obtain ⟨⟨e, he, htagged, -⟩, -⟩ := hcovered t c rest htext (Bool.not_eq_false _ ▸ hspecial)
      cases (hopened e).mpr ⟨he, htagged⟩

/-- **When everything that is not tagged is escaped**: there is nothing to escape in front of
the first tagged entity and behind the last one. -/
theorem escaped_iff (text : List Char) (entities : List Entity) (hproper : Proper text entities) :
    (∃ pieces, Escaped text entities (unparse (Parser.chars text) entities) pieces) ↔
      Covered text entities := by
  obtain ⟨tags, hnested, htags, hsorted, hboundary, hunparse⟩ := unparse_eq hproper
  have hwhole := escaped_whole hnested htags hsorted hboundary
  rw [hunparse, ← plainEnds_iff_covered hnested htags hsorted hboundary]
  constructor
  · rintro ⟨pieces, hpieces⟩
    refine plainEnds_of_length ?_
    rw [length_whole_id hpieces hnested htags, hwhole.content]
  · intro hplain
    rw [hplain.whole_eq]
    exact ⟨_, hwhole⟩

/-- A bold text that is escaped, within two characters that need not be. -/
theorem escaped_iff_bold :
    ∃ pieces, Escaped "a<b".toList [⟨.bold, 1, 1⟩]
      (unparse (Parser.chars "a<b".toList) [⟨.bold, 1, 1⟩]) pieces := by
  have hproper : Proper "a<b".toList [⟨.bold, 1, 1⟩] := by
    refine ⟨List.pairwise_singleton _ _, ?_⟩
    intro e he
    obtain rfl := List.mem_singleton.mp he
    exact ⟨⟨['a'], ['<', 'b'], rfl, rfl⟩, ⟨['a', '<'], ['b'], rfl, rfl⟩⟩
  refine (escaped_iff _ _ hproper).mpr ?_
  intro t c rest htext hspecial
  have hmem : (⟨.bold, 1, 1⟩ : Entity) ∈ [(⟨.bold, 1, 1⟩ : Entity)] := List.mem_cons_self
  have htext' : ['a', '<', 'b'] = t ++ c :: rest := htext
  match t, htext' with
  | [], h =>
    cases h
    cases hspecial
  | [_], h =>
    cases h
    exact ⟨⟨_, hmem, rfl, by decide⟩, ⟨_, hmem, rfl, by decide⟩⟩
  | [_, _], h =>
    cases h
    cases hspecial
  | _ :: _ :: _ :: t, h => cases t <;> cases h

/-- A text without entities is not escaped. -/
theorem unescaped_noEntities :
    Proper ['<'] [] ∧ ¬∃ pieces, Escaped ['<'] [] (unparse (Parser.chars ['<']) []) pieces := by
  refine ⟨⟨.nil, nofun⟩, ?_⟩
  rintro ⟨pieces, hpieces⟩
  have hunparse : unparse (Parser.chars ['<']) [] = Parser.chars ['<'] := by
    simp only [unparse, List.mergeSort_nil, List.length_nil, parseEntities, List.getLast?_nil]
    exact removeSurrogates_eq (addSurrogates_addSurrogates (Parser.chars ['<']))
  have hout : Parser.chars ['<'] = Parser.chars (pieces.flatMap Piece.chars) :=
    hunparse.symm.trans hpieces.out
  have hlength := congrArg List.length (chars_injective hout)
  rw [length_chars, hpieces.content] at hlength
  have hescape : (escapeText ['<']).length = 4 := rfl
  rw [hescape, List.length_singleton] at hlength
  omega

end Pyrogram.Parser.HTML
