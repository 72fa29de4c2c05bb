import Pyrogram.Parser.Unescape

/-!
# Reading HTML

`html.parser` cuts a text into tags and the data between them and calls a handler for each.
With its default setting the data are handed out with their references decoded.

What is modelled is what it does with start tags, end tags and data.  A document is written
out, with names in either case and values in either quotes or in none, and is read back with
its names in lower case.

## Main definitions

* `Event` — the calls of the handlers.
* `feed` — `feed` and `close`.
* `Document`, `Document.render`, `Document.events` — tags with texts between them.
* `Value` — the value of an attribute, and how it is written.

## Main results

* `feed_render` — **a document is cut at its tags.**
-/

namespace Pyrogram.Parser

open Utf8 (CodePoint)

/-- A text as the handlers get it. -/
def utf16 (t : List Char) : Str := addSurrogates (chars t)

@[simp] theorem utf16_nil : utf16 [] = [] := rfl

@[simp] theorem utf16_append (t t' : List Char) : utf16 (t ++ t') = utf16 t ++ utf16 t' := by
  rw [utf16, chars_append, addSurrogates_append]
  rfl

theorem utf16_cons (c : Char) (t : List Char) : utf16 (c :: t) = utf16 [c] ++ utf16 t :=
  utf16_append [c] t

theorem utf16_ne_nil {t : List Char} (h : t ≠ []) : utf16 t ≠ [] := by
  obtain ⟨c, t, rfl⟩ := List.exists_cons_of_ne_nil h
  rw [utf16_cons]
  exact List.append_ne_nil_of_left_ne_nil (List.ne_nil_of_length_pos (unitLength_pos c)) _

namespace HTMLParser

/-- A call of a handler. -/
inductive Event
  | starttag (tag : Str) (attrs : List (Str × Option Str))
  | endtag (tag : Str)
  | data (data : Str)
  deriving DecidableEq, Repr

def isTagSpace (p : CodePoint) : Bool :=
  p ∈ [.char ' ', .char '\t', .char '\n', .char '\r', .char '\x0c']

def isLetter : CodePoint → Bool
  | .char c => c.isAlpha
  | .surrogate _ => false

def isTagChar (p : CodePoint) : Bool := !isTagSpace p && p ∉ [.char '/', .char '>', .char '\x00']

def isAttrChar (p : CodePoint) : Bool := !isTagSpace p && p ∉ [.char '/', .char '>', .char '=']

/-- `lower`, for the names. -/
def lower (s : Str) : Str :=
  s.map fun
    | .char c => .char c.toLower
    | .surrogate n => .surrogate n

section

variable (html5 : List Char → Option (List Char))

/-- The value of an attribute, in quotes or without, and what follows. -/
def parseValue (s : Str) : Option Str × Str :=
  match s.dropWhile isTagSpace with
  | .char '=' :: t =>
      match t.dropWhile isTagSpace with
      | .char '\x22' :: t =>
          (some (unescape html5 (t.takeWhile (· ≠ .char '\x22'))),
            (t.dropWhile (· ≠ .char '\x22')).tail)
      | .char '\x27' :: t =>
          (some (unescape html5 (t.takeWhile (· ≠ .char '\x27'))),
            (t.dropWhile (· ≠ .char '\x27')).tail)
      | t =>
          let stop := fun p => !isTagSpace p && p ≠ .char '>'
          (some (unescape html5 (t.takeWhile stop)), t.dropWhile stop)
  | _ => (none, s)

/-- The attributes, whether the tag closes itself, and what follows the tag. -/
def parseAttrs : ℕ → Str → Option (List (Str × Option Str) × Bool × Str)
  | 0, _ => none
  | fuel + 1, s =>
      match s.dropWhile isTagSpace with
      | [] => none
      | .char '>' :: rest => some ([], false, rest)
      | .char '/' :: .char '>' :: rest => some ([], true, rest)
      | .char '/' :: rest => parseAttrs fuel rest
      | p :: t =>
          let (value, rest) := parseValue html5 (t.dropWhile isAttrChar)
          (parseAttrs fuel rest).map fun (attrs, closed, rest) =>
            ((lower (p :: t.takeWhile isAttrChar), value) :: attrs, closed, rest)

/-- A tag, behind its `<`. -/
def parseTag (s : Str) : Option (List Event × Str) :=
  match s with
  | .char '/' :: s =>
      if s.head?.any isLetter then
        match (s.dropWhile isTagChar).dropWhile (· ≠ .char '>') with
        | _ :: rest => some ([.endtag (lower (s.takeWhile isTagChar))], rest)
        | [] => none
      else none
  | s =>
      if s.head?.any isLetter then
        let tag := lower (s.takeWhile isTagChar)
        (parseAttrs html5 (s.length + 1) (s.dropWhile isTagChar)).map fun (attrs, closed, rest) =>
          (.starttag tag attrs :: (if closed then [.endtag tag] else []), rest)
      else none

/-- `goahead`: the data up to the next `<`, then a tag, or a `<` that begins none. -/
def goahead : ℕ → Str → List Event
  | 0, _ => []
  | _ + 1, [] => []
  | fuel + 1, p :: s =>
      if p = .char '<' then
        match parseTag html5 s with
        | some (events, rest) => events ++ goahead fuel rest
        | none => .data [p] :: goahead fuel s
      else
        .data (unescape html5 ((p :: s).takeWhile (· ≠ .char '<'))) ::
          goahead fuel ((p :: s).dropWhile (· ≠ .char '<'))

def feed (s : Str) : List Event := goahead html5 (s.length + 1) s

end

/-! ### Documents -/

inductive Quote
  | double
  | single
  | bare
  deriving DecidableEq, Repr

/-- The value of an attribute, and how it is written. -/
structure Value where
  quote : Quote
  text : List Char
  deriving DecidableEq, Repr

inductive Tag
  | opening (name : List Char) (attrs : List (List Char × Option Value))
  | closing (name : List Char)
  deriving DecidableEq, Repr

/-- A text, and tags with the texts behind them. -/
structure Document where
  head : List Char
  parts : List (Tag × List Char)
  deriving DecidableEq, Repr

def Value.render : Value → List Char
  | ⟨.double, text⟩ => '\x22' :: text ++ ['\x22']
  | ⟨.single, text⟩ => '\x27' :: text ++ ['\x27']
  | ⟨.bare, text⟩ => text

def renderAttr : List Char × Option Value → List Char
  | (name, none) => ' ' :: name
  | (name, some value) => ' ' :: name ++ '=' :: value.render

def Tag.render : Tag → List Char
  | opening name attrs => '<' :: name ++ attrs.flatMap renderAttr ++ ['>']
  | closing name => '<' :: '/' :: name ++ ['>']

def renderPart (part : Tag × List Char) : List Char := part.1.render ++ part.2

def Document.render (doc : Document) : List Char := doc.head ++ doc.parts.flatMap renderPart

/-- A name: letters of either case, digits and hyphens behind a letter. -/
def IsName (name : List Char) : Prop :=
  name.head?.any Char.isAlpha = true ∧ ∀ c ∈ name, (c.isAlpha || c.isDigit || c = '-') = true

instance (name : List Char) : Decidable (IsName name) :=
  @instDecidableAnd _ _ inferInstance (List.decidableBAll _ name)

/-- A value does not have the quote that it is written in; without quotes it is a word. -/
def Value.WellFormed : Value → Prop
  | ⟨.double, text⟩ => '\x22' ∉ text
  | ⟨.single, text⟩ => '\x27' ∉ text
  | ⟨.bare, text⟩ => text ≠ [] ∧ ∀ c ∈ [' ', '\t', '\n', '\r', '\x0c', '\x22', '\x27',
      '>'], c ∉ text

def Tag.WellFormed : Tag → Prop
  | opening name attrs => IsName name ∧ ∀ a ∈ attrs, IsName a.1 ∧ ∀ value ∈ a.2, value.WellFormed
  | closing name => IsName name

instance : ∀ value : Value, Decidable value.WellFormed
  | ⟨.double, text⟩ => inferInstanceAs (Decidable ('\x22' ∉ text))
  | ⟨.single, text⟩ => inferInstanceAs (Decidable ('\x27' ∉ text))
  | ⟨.bare, text⟩ =>
      inferInstanceAs (Decidable
        (text ≠ [] ∧ ∀ c ∈ [' ', '\t', '\n', '\r', '\x0c', '\x22', '\x27', '>'], c ∉ text))

instance : ∀ tag : Tag, Decidable tag.WellFormed
  | .opening name attrs =>
      inferInstanceAs (Decidable (IsName name ∧ ∀ a ∈ attrs, IsName a.1 ∧ ∀ value ∈ a.2,
        value.WellFormed))
  | .closing name => inferInstanceAs (Decidable (IsName name))

structure Document.WellFormed (doc : Document) : Prop where
  head : '<' ∉ doc.head
  parts : ∀ part ∈ doc.parts, part.1.WellFormed ∧ '<' ∉ part.2

section

variable (html5 : List Char → Option (List Char))

def dataEvents (text : List Char) : List Event :=
  if text = [] then [] else [.data (unescape html5 (utf16 text))]

def Tag.event : Tag → Event
  | opening name attrs =>
      .starttag (lower (chars name)) (attrs.map fun a =>
        (lower (chars a.1), a.2.map fun value => unescape html5 (utf16 value.text)))
  | closing name => .endtag (lower (chars name))

def partEvents (part : Tag × List Char) : List Event :=
  part.1.event html5 :: dataEvents html5 part.2

def Document.events (doc : Document) : List Event :=
  dataEvents html5 doc.head ++ doc.parts.flatMap (partEvents html5)

end

/-! ### Characters -/

theorem mem_of_mem_utf16 {c : Char} {t : List Char} (h : .char c ∈ utf16 t) : c ∈ t := by
  induction t with
  | nil => cases h
  | cons d t ih =>
    rcases List.mem_append.mp (show .char c ∈ Utf16.units (.char d) ++ utf16 t from h) with hd | ht
    · by_cases hlt : d.toNat < 0x10000
      · rw [Utf16.units, if_pos hlt, List.mem_singleton] at hd
        exact List.mem_cons.mpr (.inl (CodePoint.char.inj hd))
      · simp [Utf16.units, hlt] at hd
    · exact List.mem_cons_of_mem _ (ih ht)

/-- A text within the basic plane. -/
theorem utf16_eq_chars {t : List Char} (h : ∀ c ∈ t, c.toNat < 0x10000) : utf16 t = chars t := by
  induction t with
  | nil => rfl
  | cons c t ih =>
    obtain ⟨hc, ht⟩ := List.forall_mem_cons.mp h
    show Utf16.units (.char c) ++ utf16 t = _
    rw [Utf16.units, if_pos hc, ih ht]
    rfl

/-- What the reader does with a character of a name. -/
structure NameChar (c : Char) : Prop where
  plane : c.toNat < 0x10000
  tag : isTagChar (.char c) = true
  attr : isAttrChar (.char c) = true

theorem nameChar {c : Char} (h : (c.isAlpha || c.isDigit || c = '-') = true) : NameChar c := by
  have hne : ∀ d : Char, (d.isAlpha || d.isDigit || d = '-') = false → c ≠ d := by
    rintro d hd rfl
    rw [h] at hd
    cases hd
  have hspace : isTagSpace (.char c) = false := by
    simp [isTagSpace, hne ' ' rfl, hne '\t' rfl, hne '\n' rfl, hne '\r' rfl, hne '\x0c' rfl]
  have hrange : c.toNat < 128 := by
    rw [Bool.or_eq_true, Bool.or_eq_true] at h
    rcases h with (h | h) | h
    · rcases Bool.or_eq_true_iff.mp h with hupper | hlower
      · have hrange : 'A'.val ≤ c.val ∧ c.val ≤ 'Z'.val := of_decide_eq_true hupper
        have hle : c.toNat ≤ 90 := hrange.2
        omega
      · have hle : c.toNat ≤ 122 := of_decide_eq_true (Bool.and_eq_true_iff.mp hlower).2
        omega
    · have hdigit : decide ('0'.val ≤ c.val) = true ∧ decide (c.val ≤ '9'.val) = true :=
        Bool.and_eq_true_iff.mp h
      have hle : c.toNat ≤ 57 := of_decide_eq_true hdigit.2
      omega
    · obtain rfl := of_decide_eq_true h
      decide
  refine ⟨by omega, ?_, ?_⟩
  · simp [isTagChar, hspace, hne '/' rfl, hne '>' rfl, hne '\x00' rfl]
  · simp [isAttrChar, hspace, hne '/' rfl, hne '>' rfl, hne '=' rfl]

theorem nameChars {name : List Char} (h : IsName name) : ∀ c ∈ name, NameChar c :=
  fun c hc => nameChar (h.2 c hc)

theorem utf16_name {name : List Char} (h : IsName name) : utf16 name = chars name :=
  utf16_eq_chars fun c hc => (nameChars h c hc).plane

theorem lower_chars (name : List Char) : lower (chars name) = chars (name.map Char.toLower) := by
  rw [lower, chars, chars, List.map_map, List.map_map]
  rfl

/-- What a part of a text is cut from, if the rest begins with something else. -/
theorem takeWhile_append {α : Type*} {f : α → Bool} {s rest : List α} (hs : ∀ p ∈ s, f p = true)
    (hrest : ∀ p ∈ rest.head?, f p = false) :
    (s ++ rest).takeWhile f = s ∧ (s ++ rest).dropWhile f = rest := by
  rw [List.takeWhile_append_of_pos hs, List.dropWhile_append_of_pos hs]
  cases rest with
  | nil => exact ⟨by simp, rfl⟩
  | cons p rest =>
    have hp := hrest p rfl
    rw [List.takeWhile_cons_of_neg (by simp [hp]), List.dropWhile_cons_of_neg (by simp [hp])]
    exact ⟨List.append_nil _, rfl⟩

theorem head_dropWhile {α : Type*} (f : α → Bool) (s : List α) :
    ∀ p ∈ (s.dropWhile f).head?, f p = false := by
  intro p hp
  have hnot := List.head?_dropWhile_not f s
  rwa [show (s.dropWhile f).head? = some p from hp] at hnot

theorem takeWhile_ne {c : Char} {t : List Char} (ht : c ∉ t) (rest : Str) :
    (utf16 t ++ .char c :: rest).takeWhile (· ≠ .char c) = utf16 t ∧
      (utf16 t ++ .char c :: rest).dropWhile (· ≠ .char c) = .char c :: rest := by
  refine takeWhile_append ?_ ?_
  · intro p hp
    refine decide_eq_true fun h => ht ?_
    exact mem_of_mem_utf16 (h ▸ hp)
  · rintro p hp
    rw [← Option.some.inj hp]
    simp

/-! ### Attributes -/

section

variable {html5 : List Char → Option (List Char)}

/-- What follows an attribute. -/
def BeginsAttr (s : Str) : Prop :=
  ∃ p t, s = p :: t ∧ (p = .char '>' ∨ p = .char ' ' ∧ ∀ q ∈ t.head?, isTagSpace q = false ∧
  q ≠ .char '=')

theorem parseValue_none {s : Str} (h : BeginsAttr s) : parseValue html5 s = (none, s) := by
  obtain ⟨p, t, rfl, rfl | ⟨rfl, ht⟩⟩ := h
  · rfl
  · unfold parseValue
    cases t with
    | nil => rfl
    | cons q t =>
      obtain ⟨hspace, heq⟩ := ht q rfl
      rw [List.dropWhile_cons_of_pos rfl, List.dropWhile_cons_of_neg (by simp [hspace])]
      split
      · rename_i hcons
        exact absurd (List.cons.inj hcons).1 heq
      · rfl

/-- A value in quotes ends where its quote comes again. -/
theorem parseValue_quoted {text : List Char} {rest : Str} :
    ('\x22' ∉ text → parseValue html5
      (.char '=' :: .char '\x22' :: (utf16 text ++ .char '\x22' :: rest)) =
      (some (unescape html5 (utf16 text)), rest)) ∧
    ('\x27' ∉ text → parseValue html5
      (.char '=' :: .char '\x27' :: (utf16 text ++ .char '\x27' :: rest)) =
      (some (unescape html5 (utf16 text)), rest)) := by
  constructor <;>
  · intro htext
    obtain ⟨htake, hdrop⟩ := takeWhile_ne htext rest
    show (some (unescape html5 (List.takeWhile _ _)), (List.dropWhile _ _).tail) = _
    rw [htake, hdrop]
    rfl

/-- A value without quotes ends where the next attribute begins, or with the tag. -/
theorem parseValue_bare {text : List Char} (hne : text ≠ [])
    (htext : ∀ c ∈ [' ', '\t', '\n', '\r', '\x0c', '\x22', '\x27', '>'], c ∉ text) {rest : Str}
    (hrest : BeginsAttr rest) :
    parseValue html5 (.char '=' :: (utf16 text ++ rest)) =
      (some (unescape html5 (utf16 text)), rest) := by
  have hmem : ∀ p ∈ utf16 text, ∀ c ∈ [' ', '\t', '\n', '\r', '\x0c', '\x22', '\x27', '>'], p ≠
      .char c := by
    rintro p hp c hc rfl
    exact htext c hc (mem_of_mem_utf16 hp)
  have hspace : ∀ p ∈ utf16 text, isTagSpace p = false := by
    intro p hp
    have h := hmem p hp
    simp only [List.forall_mem_cons] at h
    simp [isTagSpace, h]
  -- the value ends at the first blank or the closing angle
  have hword : ∀ p ∈ utf16 text, (!isTagSpace p && decide (p ≠ .char '>')) = true := by
    intro p hp
    simp [hspace p hp, hmem p hp '>' (by simp)]
  have hstop : ∀ p ∈ rest.head?, (!isTagSpace p && decide (p ≠ .char '>')) = false := by
    obtain ⟨q, s, rfl, hq⟩ := hrest
    intro p hp
    rw [← Option.some.inj hp]
    rcases hq with rfl | ⟨rfl, -⟩ <;> rfl
  obtain ⟨htake, hdrop⟩ := takeWhile_append hword hstop
  obtain ⟨p, s, hps⟩ := List.exists_cons_of_ne_nil (utf16_ne_nil hne)
  have hp : p ∈ utf16 text := by rw [hps]; exact List.mem_cons_self
  have hskip : (utf16 text ++ rest).dropWhile isTagSpace = utf16 text ++ rest := by
    rw [hps, List.cons_append, List.dropWhile_cons_of_neg (by simp [hspace p hp])]
  unfold parseValue
  rw [List.dropWhile_cons_of_neg (by decide)]
  simp only [hskip]
  -- neither of the quotation signs begins it
  split
  · next t heq =>
    rw [hps] at heq
    exact absurd (List.cons.inj heq).1 (hmem p hp _ (by simp))
  · next t heq =>
    rw [hps] at heq
    exact absurd (List.cons.inj heq).1 (hmem p hp _ (by simp))
  · rw [htake, hdrop]

theorem parseValue_render {value : Value} (hvalue : value.WellFormed) {rest : Str}
    (hrest : BeginsAttr rest) :
    parseValue html5 (.char '=' :: (utf16 value.render ++ rest)) =
      (some (unescape html5 (utf16 value.text)), rest) := by
  obtain ⟨_ | _ | _, text⟩ := value
  · have hquote : utf16 ['\x22'] = [.char '\x22'] := rfl
    rw [Value.render, utf16_append, utf16_cons, hquote]
    simpa using parseValue_quoted.1 hvalue
  · have hquote : utf16 ['\x27'] = [.char '\x27'] := rfl
    rw [Value.render, utf16_append, utf16_cons, hquote]
    simpa using parseValue_quoted.2 hvalue
  · exact parseValue_bare hvalue.1 hvalue.2 hrest

/-- The text of an attribute behind its name. -/
def valueText : Option Value → Str
  | none => []
  | some value => .char '=' :: utf16 value.render

theorem utf16_renderAttr {name : List Char} (hname : IsName name) (value : Option Value) :
    utf16 (renderAttr (name, value)) = .char ' ' :: (chars name ++ valueText value) := by
  cases value with
  | none =>
    show utf16 ([' '] ++ name) = _
    rw [utf16_append, utf16_name hname, valueText, List.append_nil]
    rfl
  | some value =>
    have hsplit : renderAttr (name, some value) = [' '] ++ (name ++ (['='] ++ value.render)) := by
      simp [renderAttr]
    rw [hsplit, utf16_append, utf16_append, utf16_append, utf16_name hname]
    rfl

/-- A name is not empty. -/
theorem IsName.exists_cons {name : List Char} (h : IsName name) :
    ∃ c t, name = c :: t ∧ c.isAlpha = true ∧ NameChar c ∧ ∀ d ∈ t, NameChar d := by
  cases name with
  | nil => cases h.1
  | cons c t =>
    obtain ⟨hc, ht⟩ := List.forall_mem_cons.mp (nameChars h)
    exact ⟨c, t, rfl, h.1, hc, ht⟩

theorem ne_of_isTagChar {p q : CodePoint} (hp : isTagChar p = true) (hq : isTagChar q = false) :
    p ≠ q := by
  rintro rfl
  rw [hp] at hq
  cases hq

theorem isTagSpace_of_isTagChar {p : CodePoint} (hp : isTagChar p = true) :
    isTagSpace p = false := by
  by_contra h
  rw [Bool.not_eq_false] at h
  simp [isTagChar, h] at hp

theorem beginsAttr_render (attrs : List (List Char × Option Value))
    (hattrs : ∀ a ∈ attrs, IsName a.1) (rest : Str) :
    BeginsAttr (utf16 (attrs.flatMap renderAttr) ++ .char '>' :: rest) := by
  cases attrs with
  | nil => exact ⟨_, _, rfl, .inl rfl⟩
  | cons a attrs =>
    have hname := hattrs a List.mem_cons_self
    obtain ⟨c, t, hc, -, hchar, -⟩ := hname.exists_cons
    rw [List.flatMap_cons, utf16_append, show a = (a.1, a.2) from rfl, utf16_renderAttr hname]
    refine ⟨.char ' ', _, rfl, .inr ⟨rfl, ?_⟩⟩
    intro q hq
    rw [hc] at hq
    obtain rfl : .char c = q := Option.some.inj hq
    refine ⟨isTagSpace_of_isTagChar hchar.tag, fun h => ?_⟩
    have hattr := hchar.attr
    rw [h] at hattr
    exact absurd hattr (by decide)

/-- One attribute is read. -/
theorem parseAttrs_name {fuel : ℕ} {p : CodePoint} {t : Str} (hp : isTagChar p = true) :
    parseAttrs html5 (fuel + 1) (.char ' ' :: p :: t) =
      (parseAttrs html5 fuel (parseValue html5 (t.dropWhile isAttrChar)).2).map
          fun (attrs, closed, rest) =>
        ((lower (p :: t.takeWhile isAttrChar), (parseValue html5 (t.dropWhile isAttrChar)).1) ::
          attrs, closed, rest) := by
  rw [parseAttrs, List.dropWhile_cons_of_pos rfl, List.dropWhile_cons_of_neg
    (by simp [isTagSpace_of_isTagChar hp])]
  split
  · rename_i h
    cases h
  · rename_i h
    exact absurd (List.cons.inj h).1 (ne_of_isTagChar hp rfl)
  · rename_i h
    exact absurd (List.cons.inj h).1 (ne_of_isTagChar hp rfl)
  · rename_i h
    exact absurd (List.cons.inj h).1 (ne_of_isTagChar hp rfl)
  · rename_i h
    obtain ⟨rfl, rfl⟩ := List.cons.inj h
    rfl

theorem parseAttrs_render (attrs : List (List Char × Option Value))
    (hattrs : ∀ a ∈ attrs, IsName a.1 ∧ ∀ value ∈ a.2, value.WellFormed) (rest : Str) {fuel : ℕ}
    (hfuel : attrs.length < fuel) :
    parseAttrs html5 fuel (utf16 (attrs.flatMap renderAttr) ++ .char '>' :: rest) =
      some (attrs.map fun a =>
        (lower (chars a.1), a.2.map fun value => unescape html5 (utf16 value.text)), false,
        rest) := by
  induction attrs generalizing fuel with
  | nil =>
    obtain ⟨fuel, rfl⟩ := Nat.exists_eq_add_of_lt hfuel
    rfl
  | cons a attrs ih =>
    obtain ⟨fuel, rfl⟩ : ∃ k, fuel = k + 1 := ⟨fuel - 1, by omega⟩
    obtain ⟨⟨hname, hvalue⟩, htail⟩ := List.forall_mem_cons.mp hattrs
    obtain ⟨name, value⟩ := a
    obtain ⟨c, t, rfl, -, hc, ht⟩ := hname.exists_cons
    have hbegins := beginsAttr_render attrs (fun a ha => (htail a ha).1) rest
    have hsplit : utf16 (((c :: t, value) :: attrs).flatMap renderAttr) ++ .char '>' :: rest =
        .char ' ' :: .char c ::
          (chars t ++ (valueText value ++ (utf16 (attrs.flatMap renderAttr) ++ .char '>' :: rest)))
          := by
      rw [List.flatMap_cons, utf16_append, utf16_renderAttr hname]
      simp
    -- the name ends where its value begins, or with it
    have hstop : ∀ p ∈ (valueText value ++
        (utf16 (attrs.flatMap renderAttr) ++ .char '>' :: rest)).head?, isAttrChar p = false := by
      cases value with
      | some value =>
        intro p hp
        rw [← Option.some.inj hp]
        rfl
      | none =>
        obtain ⟨q, s, hs, hq⟩ := hbegins
        rw [valueText, List.nil_append, hs]
        intro p hp
        rw [← Option.some.inj hp]
        rcases hq with rfl | ⟨rfl, -⟩ <;> rfl
    have hattrChars : ∀ p ∈ chars t, isAttrChar p = true := by
      simpa [chars] using fun d hd => (ht d hd).attr
    have hcut := takeWhile_append hattrChars hstop
    have hvalue' : parseValue html5
      (valueText value ++ (utf16 (attrs.flatMap renderAttr) ++ .char '>' :: rest)) =
        (value.map fun value => unescape html5 (utf16 value.text),
          utf16 (attrs.flatMap renderAttr) ++ .char '>' :: rest) := by
      cases value with
      | none => exact parseValue_none hbegins
      | some value => exact parseValue_render (hvalue value rfl) hbegins
    rw [hsplit, parseAttrs_name hc.tag, hcut.1, hcut.2, hvalue', ih htail (by simpa using hfuel),
      show CodePoint.char c :: chars t = chars (c :: t) from rfl]
    rfl

/-! ### Tags and data -/

theorem length_le_length_attrs (attrs : List (List Char × Option Value))
    (hattrs : ∀ a ∈ attrs, IsName a.1) :
    attrs.length ≤ (utf16 (attrs.flatMap renderAttr)).length := by
  induction attrs with
  | nil => exact Nat.zero_le _
  | cons a attrs ih =>
    obtain ⟨hname, hattrs⟩ := List.forall_mem_cons.mp hattrs
    rw [List.flatMap_cons, utf16_append, show a = (a.1, a.2) from rfl, utf16_renderAttr hname]
    have hle := ih hattrs
    simp
    omega

theorem head_isLetter {name : List Char} (hname : IsName name) (rest : Str) :
    (chars name ++ rest).head?.any isLetter = true := by
  obtain ⟨c, t, rfl, hletter, -, -⟩ := hname.exists_cons
  exact hletter

/-- The name of a tag ends where its attributes begin, or with it. -/
theorem cut_name {name : List Char} (hname : IsName name) {rest : Str} (hrest : BeginsAttr rest) :
    (chars name ++ rest).takeWhile isTagChar = chars name ∧
      (chars name ++ rest).dropWhile isTagChar = rest := by
  refine takeWhile_append (by simpa [chars] using fun d hd => (nameChars hname d hd).tag) ?_
  obtain ⟨q, s, rfl, hq⟩ := hrest
  intro p hp
  rw [← Option.some.inj hp]
  rcases hq with rfl | ⟨rfl, -⟩ <;> rfl

theorem parseTag_closing {name : List Char} (hname : IsName name) (rest : Str) :
    parseTag html5 (.char '/' :: (chars name ++ .char '>' :: rest)) =
      some ([.endtag (lower (chars name))], rest) := by
  have hbegins : BeginsAttr (.char '>' :: rest) := ⟨_, _, rfl, .inl rfl⟩
  obtain ⟨htake, hdrop⟩ := cut_name hname hbegins
  rw [parseTag, if_pos (head_isLetter hname _), htake, hdrop, List.dropWhile_cons_of_neg (by simp)]

theorem parseTag_opening {name : List Char} (hname : IsName name)
    {attrs : List (List Char × Option Value)}
    (hattrs : ∀ a ∈ attrs, IsName a.1 ∧ ∀ value ∈ a.2, value.WellFormed) (rest : Str) :
    parseTag html5 (chars name ++ (utf16 (attrs.flatMap renderAttr) ++ .char '>' :: rest)) =
      some ([(Tag.opening name attrs).event html5], rest) := by
  obtain ⟨htake, hdrop⟩ :=
    cut_name hname (beginsAttr_render attrs (fun a ha => (hattrs a ha).1) rest)
  have hle := length_le_length_attrs attrs fun a ha => (hattrs a ha).1
  have hslash : ∀ s, chars name ++ (utf16 (attrs.flatMap renderAttr) ++ .char '>' :: rest) ≠
      .char '/' :: s := by
    intro s h
    have hletter := head_isLetter hname (utf16 (attrs.flatMap renderAttr) ++ .char '>' :: rest)
    rw [h] at hletter
    cases hletter
  rw [parseTag.eq_2 _ _ hslash, if_pos (head_isLetter hname _), htake, hdrop,
    parseAttrs_render attrs hattrs rest (by simp; omega)]
  rfl

theorem utf16_render {tag : Tag} (htag : tag.WellFormed) (rest : Str) :
    ∃ s, utf16 tag.render ++ rest = .char '<' :: s ∧
      parseTag html5 s = some ([tag.event html5], rest) := by
  cases tag with
  | closing name =>
    refine ⟨.char '/' :: (chars name ++ .char '>' :: rest), ?_, parseTag_closing htag rest⟩
    rw [Tag.render, show '<' :: '/' :: name ++ ['>'] = ['<', '/'] ++ (name ++ ['>']) from rfl,
      utf16_append, utf16_append,
      utf16_name htag]
    simp
    rfl
  | opening name attrs =>
    refine ⟨chars name ++ (utf16 (attrs.flatMap renderAttr) ++ .char '>' :: rest), ?_,
      parseTag_opening htag.1 htag.2 rest⟩
    rw [Tag.render, show '<' :: name ++ attrs.flatMap renderAttr ++ ['>'] = ['<'] ++
      (name ++ (attrs.flatMap renderAttr ++ ['>'])) by simp,
      utf16_append, utf16_append, utf16_append, utf16_name htag.1]
    simp
    rfl

theorem goahead_tag {tag : Tag} (htag : tag.WellFormed) (rest : Str) (fuel : ℕ) :
    goahead html5 (fuel + 1) (utf16 tag.render ++ rest) =
      tag.event html5 :: goahead html5 fuel rest := by
  obtain ⟨s, hs, hparse⟩ := @utf16_render html5 _ htag rest
  rw [hs, goahead, if_pos rfl, hparse]
  rfl

theorem goahead_data {text : List Char} (htext : '<' ∉ text) (hne : text ≠ []) {rest : Str}
    (hrest : ∀ p ∈ rest.head?, p = .char '<') (fuel : ℕ) :
    goahead html5 (fuel + 1) (utf16 text ++ rest) = .data (unescape html5 (utf16 text)) :: goahead
      html5 fuel rest := by
  have hdata : ∀ p ∈ utf16 text, decide (p ≠ .char '<') = true := by
    intro p hp
    refine decide_eq_true fun h => htext ?_
    exact mem_of_mem_utf16 (h ▸ hp)
  have hstop : ∀ p ∈ rest.head?, decide (p ≠ .char '<') = false := fun p hp => by simp [hrest p hp]
  obtain ⟨htake, hdrop⟩ := takeWhile_append hdata hstop
  obtain ⟨p, s, hps⟩ := List.exists_cons_of_ne_nil (utf16_ne_nil hne)
  rw [hps] at hdata htake hdrop ⊢
  rw [List.cons_append, goahead, if_neg (by simpa using hdata p List.mem_cons_self),
    ← List.cons_append, htake, hdrop]

theorem dataEvents_of_ne {text : List Char} (hne : text ≠ []) :
    dataEvents html5 text = [.data (unescape html5 (utf16 text))] := if_neg hne

/-- What follows a text of a document. -/
theorem head_parts {parts : List (Tag × List Char)}
    (hparts : ∀ part ∈ parts, part.1.WellFormed ∧ '<' ∉ part.2) :
    ∀ p ∈ (utf16 (parts.flatMap renderPart)).head?, p = .char '<' := by
  cases parts with
  | nil => exact nofun
  | cons part parts =>
    obtain ⟨s, hs, -⟩ := @utf16_render (fun _ => none) _ (hparts part List.mem_cons_self).1
      (utf16 part.2 ++ utf16 (parts.flatMap renderPart))
    intro p hp
    rw [List.flatMap_cons, renderPart, utf16_append, utf16_append, List.append_assoc, hs] at hp
    exact (Option.some.inj hp).symm

theorem goahead_parts (parts : List (Tag × List Char))
    (hparts : ∀ part ∈ parts, part.1.WellFormed ∧ '<' ∉ part.2) {fuel : ℕ}
    (hfuel : 2 * parts.length < fuel) :
    goahead html5 fuel (utf16 (parts.flatMap renderPart)) = parts.flatMap (partEvents html5) := by
  induction parts generalizing fuel with
  | nil =>
    obtain ⟨fuel, rfl⟩ := Nat.exists_eq_add_of_lt hfuel
    rfl
  | cons part parts ih =>
    -- one step for the tag, and one for the text, if there is one
    obtain ⟨fuel, rfl⟩ : ∃ k, fuel = k + 2 := ⟨fuel - 2, by simp at hfuel; omega⟩
    obtain ⟨⟨htag, htext⟩, hparts⟩ := List.forall_mem_cons.mp hparts
    have hlt : 2 * parts.length < fuel := by simp at hfuel; omega
    rw [List.flatMap_cons, List.flatMap_cons, renderPart, utf16_append, utf16_append,
      List.append_assoc, goahead_tag htag,
      partEvents, List.cons_append]
    by_cases hne : part.2 = []
    · rw [hne, utf16_nil, List.nil_append, ih hparts (Nat.lt_succ_of_lt hlt)]
      rfl
    · rw [goahead_data htext hne (head_parts hparts), dataEvents_of_ne hne, ih hparts hlt]
      rfl

theorem two_mul_length_le (parts : List (Tag × List Char))
    (hparts : ∀ part ∈ parts, part.1.WellFormed ∧ '<' ∉ part.2) :
    2 * parts.length ≤ (utf16 (parts.flatMap renderPart)).length := by
  induction parts with
  | nil => exact Nat.zero_le _
  | cons part parts ih =>
    obtain ⟨⟨htag, -⟩, hparts⟩ := List.forall_mem_cons.mp hparts
    obtain ⟨s, hs, hparse⟩ := @utf16_render (fun _ => none) _ htag []
    have hpos : 0 < s.length := by
      cases s with
      | nil => cases hparse
      | cons p s => exact Nat.succ_pos _
    have hle := ih hparts
    rw [List.append_nil] at hs
    rw [List.flatMap_cons, renderPart, utf16_append, utf16_append, hs]
    simp
    omega

/-- **A document is cut at its tags**, and its data are decoded once. -/
theorem feed_render {doc : Document} (hdoc : doc.WellFormed) :
    feed html5 (utf16 doc.render) = doc.events html5 := by
  have hle := two_mul_length_le doc.parts hdoc.parts
  rw [feed, Document.render, utf16_append, Document.events, List.length_append]
  by_cases hne : doc.head = []
  · rw [hne, utf16_nil, List.nil_append]
    exact goahead_parts _ hdoc.parts (Nat.lt_succ_of_le (Nat.le_trans hle (Nat.le_add_left _ _)))
  · have hpos := List.length_pos_iff.mpr (utf16_ne_nil hne)
    rw [goahead_data hdoc.head hne (head_parts hdoc.parts), dataEvents_of_ne hne]
    exact congrArg _ (goahead_parts _ hdoc.parts (by omega))

end

end HTMLParser

end Pyrogram.Parser
