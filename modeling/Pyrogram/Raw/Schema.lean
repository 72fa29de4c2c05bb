import Pyrogram.Raw.Compiler
import Pyrogram.Raw.Misread
import Mathlib.Data.List.Forall2
import Mathlib.Data.List.Nodup

/-!
# The schema, printed and compiled

A schema is a list of parts, one for each section, whose declarations name their arguments with
their types.  Printed in the form of the three files that are read, it is compiled to one class for
each declaration, in order, with the code that each argument asks for.

With ids and names that are its own, a class is the one that its constructor id gives, so that an
object that is written is read back as an object of its class.

## Main definitions

* `Declaration`, `File` — schemas, and `print`, their text.
* `WellFormed` — the names can be told apart.
* `Spaced` — a namespace of constructors is one of types.
* `Parameter.code`, `Declaration.combinator` — what a declaration is to be compiled to.
* `Generated.read` — `TLObject.read`.

## Main results

* `start_print` — **a printed schema is compiled to its classes.**
* `start_read_write` — **an object of a class is read back by its constructor id.**
-/

namespace Pyrogram.Compiler

open Regex LittleEndian
open Raw.Combinator (Flag)

/-! ### Schemas -/

/-- A name, in a namespace or in none. -/
structure QualName where
  nameSpace : List Char
  name : List Char

/-- What a vector has. -/
inductive Element
  | core (t : CoreType)
  | boxed (name : QualName)

inductive Ty
  | core (t : CoreType)
  | vector (bare : Bool) (element : Element)
  | boxed (name : QualName)
  /-- `!X` -/
  | query

inductive Parameter
  /-- `flags{number}:#` -/
  | flags (number : Option (Fin 10))
  | of (name : List Char) (flag : Option Flag) (type : Ty)

inductive Result
  | boxed (name : QualName)
  | vector (element : Element)

structure Declaration where
  name : QualName
  id : List Char
  /-- With `{X:Type}`. -/
  generic : Bool
  parameters : List Parameter
  result : Result

inductive Note
  | blank
  | comment (text : List Char)
  | layer (number : ℕ)

inductive Entry
  | note (n : Note)
  | declaration (d : Declaration)

/-- A section. -/
structure Part where
  name : List Char
  entries : List Entry

structure File where
  preamble : List Note
  parts : List Part

/-! ### Printing -/

def QualName.print (q : QualName) : List Char := if q.nameSpace = [] then q.name else q.nameSpace ++
    '.' :: q.name

def Element.print : Element → List Char
  | core t => t.text
  | boxed name => name.print

def Ty.print : Ty → List Char
  | core t => t.text
  | vector bare element =>
      [if bare then 'v' else 'V', 'e', 'c', 't', 'o', 'r'] ++ '<' :: (element.print ++ ['>'])
  | boxed name => name.print
  | query => ['!', 'X']

def numberText : Option (Fin 10) → List Char
  | none => []
  | some n => [Nat.digitChar n]

def Parameter.name : Parameter → List Char
  | flags number => ['f', 'l', 'a', 'g', 's'] ++ numberText number
  | of name _ _ => name

def Parameter.type : Parameter → List Char
  | flags _ => ['#']
  | of _ none type => type.print
  | of _ (some flag) type =>
      ['f', 'l', 'a', 'g', 's'] ++
        (numberText flag.number ++ '.' :: (Nat.toDigits 10 flag.index ++ '?' :: type.print))

def Parameter.print (p : Parameter) : List Char := p.name ++ ':' :: p.type

/-- A vector of a type in a namespace has the namespace of the text before the dot. -/
def Result.qualName : Result → QualName
  | boxed name => name
  | vector (.core t) => ⟨[], ['V', 'e', 'c', 't', 'o', 'r', '<'] ++ (t.text ++ ['>'])⟩
  | vector (.boxed name) =>
      if name.nameSpace = [] then ⟨[], ['V', 'e', 'c', 't', 'o', 'r', '<'] ++ (name.name ++ ['>'])⟩
      else ⟨['V', 'e', 'c', 't', 'o', 'r', '<'] ++ name.nameSpace, name.name ++ ['>']⟩

def Result.print (r : Result) : List Char := r.qualName.print

/-- The words between the id and the result. -/
def Declaration.words (d : Declaration) : List (List Char) :=
  (if d.generic then [['{', 'X', ':', 'T', 'y', 'p', 'e', '}']] else []) ++
    d.parameters.map Parameter.print

def Declaration.print (d : Declaration) : List Char :=
  d.name.print ++ '#' ::
    (d.id ++ ' ' :: (d.words.flatMap (· ++ [' ']) ++ '=' :: ' ' :: (d.result.print ++ [';'])))

def Note.print : Note → List Char
  | blank => []
  | comment text => '/' :: '/' :: text
  | layer number => ['/', '/', ' ', 'L', 'A', 'Y', 'E', 'R', ' '] ++ Nat.toDigits 10 number

def Entry.print : Entry → List Char
  | note n => n.print
  | declaration d => d.print

def Part.lines (p : Part) : List (List Char) :=
  (['-', '-', '-'] ++ (p.name ++ (['-', '-', '-'] ++ []))) :: p.entries.map Entry.print

def File.lines (f : File) : List (List Char) :=
  f.preamble.map Note.print ++ f.parts.flatMap Part.lines

/-- The text of the file, a line after the other. -/
def File.print (f : File) : List Char := f.lines.flatMap (· ++ ['\n'])

/-! ### What it is to be compiled to -/

/-- The words of the name, each with a capital. -/
def camelCase (s : List Char) : List Char :=
  (s.splitOn '_').flatMap fun
    | [] => []
    | c :: l => c.toUpper :: l

/-- The result as the classes have it. -/
def Result.qualtype (r : Result) : List Char :=
  qualified r.qualName.nameSpace (camelCase r.qualName.name)

def Declaration.combinator (sectionName : List Char) (d : Declaration) : Combinator where
  sectionName := some sectionName
  qualname := qualified d.name.nameSpace (camelCase d.name.name)
  nameSpace := d.name.nameSpace
  name := camelCase d.name.name
  id := '0' :: 'x' :: d.id
  args := d.parameters.map fun p => (argName p.name, p.type)
  qualtype := d.result.qualtype
  typespace := d.result.qualName.nameSpace
  type := camelCase d.result.qualName.name

def Element.coreType : Element → Option CoreType
  | core t => some t
  | boxed _ => none

def flagText (flag : Flag) : FlagText := ⟨numberText flag.number, Nat.toDigits 10 flag.index⟩

/-- The code for an argument of the type, that is read when a bit is set or always. -/
def Ty.code : Ty → Option FlagText → Code
  | core t, none => .core t
  | core .true, some flag => .trueFlag flag
  | core (.of t), some flag => .optionalCore flag (.of t)
  | vector _ element, none => .vector element.coreType
  | vector _ element, some flag => .optionalVector flag element.coreType
  | boxed _, none | query, none => .boxed
  | boxed _, some flag | query, some flag => .optionalBoxed flag

def Parameter.code (p : Parameter) : Code :=
  match p with
  | flags _ => .flags p.name
  | of _ flag type => type.code (flag.map flagText)

def Declaration.generated (sectionName : List Char) (d : Declaration) : GeneratedClass :=
  ⟨d.combinator sectionName, sectionName, d.parameters.map Parameter.code⟩

def Part.declarations (p : Part) : List (List Char × Declaration) :=
  p.entries.filterMap fun
    | .note _ => none
    | .declaration d => some (p.name, d)

def File.declarations (f : File) : List (List Char × Declaration) :=
  f.parts.flatMap Part.declarations

def Part.notes (p : Part) : List Note :=
  p.entries.filterMap fun
    | .note n => some n
    | .declaration _ => none

def File.notes (f : File) : List Note := f.preamble ++ f.parts.flatMap Part.notes

/-- The layer that is known after the note. -/
def Note.layerAfter (layer : Option (List Char)) : Note → Option (List Char)
  | blank | comment _ => layer
  | .layer number => some (Nat.toDigits 10 number)

/-- What the files are to be compiled to. -/
def generated (files : List File) : Generated where
  layer := (files.flatMap File.notes).foldl Note.layerAfter none
  classes := (files.flatMap File.declarations).map fun d => d.2.generated d.1

/-! ### Well-formed schemas -/

/-- There is no empty word in the name. -/
def HasWords (s : List Char) : Prop := ∀ word ∈ s.splitOn '_', word ≠ []

structure QualName.WellFormed (q : QualName) : Prop where
  nameSpace : ∀ c ∈ q.nameSpace, isWord c = true
  name_ne : q.name ≠ []
  name : ∀ c ∈ q.name, isWord c = true

/-- The name is neither that of a core type nor taken for a vector's. -/
structure QualName.Boxed (q : QualName) : Prop extends q.WellFormed where
  not_core : CoreType.ofText? q.print = none
  not_vector : isVector q.print = false

def Element.WellFormed : Element → Prop
  | core _ => True
  | boxed name => name.Boxed

def Ty.WellFormed : Ty → Prop
  | core _ | query => True
  | vector _ element => element.WellFormed
  | boxed name => name.Boxed

/-- A query is not optional. -/
def Parameter.WellFormed : Parameter → Prop
  | flags _ => True
  | of name flag type => (name ≠ [] ∧ ∀ c ∈ name, isWord c = true) ∧ type.WellFormed ∧ (type =
      .query → flag = none)

/-- A named result is not taken for a vector, and neither is what a vector has. -/
def Result.WellFormed (r : Result) : Prop :=
  HasWords r.qualName.name ∧
    match r with
    | boxed name => name.WellFormed ∧ isVector r.qualtype = false
    | vector element => element.WellFormed ∧ isVector (r.qualtype.drop 7) = false

structure Declaration.WellFormed (d : Declaration) : Prop where
  name : d.name.WellFormed
  words : HasWords d.name.name
  id_ne : d.id ≠ []
  id : ∀ c ∈ d.id, isHex c = true
  parameters : ∀ p ∈ d.parameters, p.WellFormed
  result : d.result.WellFormed

/-- A comment is on one line, and is not the one about the layer. -/
def Note.WellFormed : Note → Prop
  | blank | layer _ => True
  | comment text => (∀ c ∈ text, c ∉ lineBreaks) ∧ layerRe.first ('/' :: '/' :: text) = none

/-- The result is a name. -/
def Result.IsBoxed : Result → Prop
  | boxed _ => True
  | vector _ => False

/-- There are constructors and functions, and no constructor is one of a vector. -/
structure File.WellFormed (f : File) : Prop where
  notes : ∀ n ∈ f.notes, n.WellFormed
  names : ∀ p ∈ f.parts, p.name = typesName ∨ p.name = functionsName
  declarations : ∀ d ∈ f.declarations, d.2.WellFormed
  constructors : ∀ d ∈ f.declarations, d.1 = typesName → d.2.result.IsBoxed

/-- A namespace that has constructors has types. -/
def Spaced (files : List File) : Prop :=
  ∀ d ∈ files.flatMap File.declarations, d.1 = typesName → d.2.name.nameSpace ≠ [] →
    ∃ d' ∈ files.flatMap File.declarations, d'.1 = typesName ∧
      d'.2.result.qualName.nameSpace = d.2.name.nameSpace

theorem not_mem_lineBreaks_of_all {w : List Char}
    (h : w.all (fun c => decide (c ∉ lineBreaks)) = true) :
    ∀ c ∈ w, c ∉ lineBreaks := fun c hc => of_decide_eq_true (List.all_eq_true.mp h c hc)

/-- A file without a line. -/
def noLines : File := ⟨[], []⟩

def pong : Declaration where
  name := ⟨[], ['p', 'o', 'n', 'g']⟩
  id := ['3', '4', '7', '7', '7', '3', 'c', '5']
  generic := false
  parameters :=
    [.of ['m', 's', 'g', '_', 'i', 'd'] none (.core (.of .long)),
      .of ['p', 'i', 'n', 'g', '_', 'i', 'd'] none (.core (.of .long))]
  result := .boxed ⟨[], ['P', 'o', 'n', 'g']⟩

/-- A line of the system messages. -/
def pongLines : File :=
  ⟨[.comment [' ', 'S', 'y', 's', 't', 'e', 'm'], .layer 214], [⟨typesName, [.declaration pong]⟩]⟩

theorem noLines_wellFormed : noLines.WellFormed := ⟨nofun, nofun, nofun, nofun⟩

theorem pong_wellFormed : pong.WellFormed where
  name := ⟨nofun, by decide, forall_of_all rfl⟩
  words := by
    rw [HasWords]
    decide
  id_ne := by decide
  id := forall_of_all rfl
  parameters := by
    simp only [pong, List.forall_mem_cons]
    exact ⟨⟨⟨by decide, forall_of_all rfl⟩, trivial, nofun⟩,
      ⟨⟨by decide, forall_of_all rfl⟩, trivial, nofun⟩, nofun⟩
  result := by
    refine ⟨?_, ⟨nofun, by decide, forall_of_all rfl⟩, rfl⟩
    rw [HasWords]
    decide

theorem pongLines_wellFormed : pongLines.WellFormed where
  notes := by
    change ∀ n ∈ [Note.comment [' ', 'S', 'y', 's', 't', 'e', 'm'], .layer 214], n.WellFormed
    simp only [List.forall_mem_cons]
    exact ⟨⟨not_mem_lineBreaks_of_all rfl, by decide⟩, trivial, nofun⟩
  names := List.forall_mem_singleton.mpr (.inl rfl)
  declarations := List.forall_mem_singleton.mpr pong_wellFormed
  constructors := List.forall_mem_singleton.mpr fun _ => trivial

theorem pongLines_spaced : Spaced [noLines, pongLines, noLines] :=
  List.forall_mem_singleton.mpr fun _ hspace => absurd rfl hspace

/-! ### Names -/

section Names

variable {c : Char} {q : QualName} {s : List Char}

theorem isQualified_of_isWord (h : isWord c = true) :
    isQualified c = true := by rw [isQualified, h, Bool.true_or]

theorem isResult_of_isQualified (h : isQualified c = true) : isResult c = true := by
  rw [isQualified, Bool.or_eq_true, decide_eq_true_eq] at h
  rcases h with h | rfl
  · rw [isResult, h, Bool.true_or]
  · rfl

theorem isType_of_isResult (h : isResult c = true) : isType c = true := by
  rw [isResult, Bool.or_eq_true, decide_eq_true_eq] at h
  rcases h with h | h
  · rw [isType, h, Bool.true_or]
  · exact forall_of_all (w := ['<', '>', '.']) rfl c h

theorem not_mem_of_forall {p : Char → Bool} (hs : ∀ c ∈ s, p c = true) (hc : p c = false) :
    c ∉ s := by
  intro hmem
  rw [hs c hmem] at hc
  cases hc

theorem QualName.print_ne_nil (hne : q.name ≠ []) : q.print ≠ [] := by
  rw [print]
  split
  · exact hne
  · simp

/-- The characters of a name with its namespace. -/
theorem QualName.forall_print {P : Char → Prop} (hdot : P '.') (hspace : ∀ c ∈ q.nameSpace, P c)
    (hname : ∀ c ∈ q.name, P c) : ∀ c ∈ q.print, P c := by
  rw [print]
  split
  · exact hname
  · rw [List.forall_mem_append, List.forall_mem_cons]
    exact ⟨hspace, hdot, hname⟩

theorem QualName.WellFormed.isQualified (h : q.WellFormed) : ∀ c ∈ q.print, isQualified c = true :=
  QualName.forall_print rfl (fun c hc => isQualified_of_isWord (h.nameSpace c hc))
    fun c hc => isQualified_of_isWord (h.name c hc)

/-- A printed name is split where its namespace ends. -/
theorem splitName_print (hspace : '.' ∉ q.nameSpace) (hname : '.' ∉ q.name) :
    splitName q.print = .ok (q.nameSpace, q.name) := by
  rw [splitName, QualName.print]
  split_ifs with hnil
  · rw [List.splitOn_eq_singleton hname, hnil]
  · rw [List.splitOn_append_cons_self_of_not_mem hspace, List.splitOn_eq_singleton hname]

theorem camel_eq_ok (h : HasWords s) : camel s = .ok (camelCase s) := by
  rw [camel, camelCase]
  rw [HasWords] at h
  generalize s.splitOn '_' = words at h
  induction words with
  | nil => rfl
  | cons word words ih =>
    obtain ⟨hne, hwords⟩ := List.forall_mem_cons.mp h
    obtain ⟨parts, hparts, heq⟩ := Except.bind_eq_ok.mp (ih hwords)
    cases word with
    | nil => exact absurd rfl hne
    | cons c word =>
      rw [List.mapM_cons, hparts]
      injection heq with heq
      rw [List.flatMap_cons, ← heq]
      rfl

end Names

/-! ### Types -/

section Types

variable {c : Char} {p : Parameter}

theorem CoreType.isWord_text (t : CoreType) : ∀ c ∈ t.text, isWord c = Bool.true := by
  cases t with
  | of t => cases t <;> exact forall_of_all rfl
  | true => exact forall_of_all rfl

theorem CoreType.ofText?_text (t : CoreType) : CoreType.ofText? t.text = some t := by
  cases t with
  | of t => cases t <;> rfl
  | true => rfl

theorem Element.isQualified {e : Element} (h : e.WellFormed) :
    ∀ c ∈ e.print, isQualified c = true := by
  cases e with
  | core t => exact fun c hc => isQualified_of_isWord (t.isWord_text c hc)
  | boxed name => exact h.isQualified

theorem Ty.isResult {t : Ty} (h : t.WellFormed) (hquery : t ≠ .query) :
    ∀ c ∈ t.print, isResult c = true := by
  cases t with
  | core t => exact fun c hc => isResult_of_isQualified (isQualified_of_isWord (t.isWord_text c hc))
  | vector bare element =>
    refine List.forall_mem_append.mpr
      ⟨by cases bare <;> exact forall_of_all rfl, List.forall_mem_cons.mpr ⟨rfl, ?_⟩⟩
    exact List.forall_mem_append.mpr
      ⟨fun c hc => isResult_of_isQualified (Element.isQualified h c hc), forall_of_all rfl⟩
  | boxed name => exact fun c hc => isResult_of_isQualified (h.isQualified c hc)
  | query => exact absurd rfl hquery

theorem Ty.print_ne_nil {t : Ty} (h : t.WellFormed) : t.print ≠ [] := by
  cases t with
  | core t =>
    cases t with
    | of t => cases t <;> decide
    | true => decide
  | vector bare element => exact List.cons_ne_nil _ _
  | boxed name => exact QualName.print_ne_nil h.name_ne
  | query => decide

theorem isDigit_numberText {number : Option (Fin 10)} (hc : c ∈ numberText number) :
    c.isDigit = true := by
  cases number with
  | none => cases hc
  | some n =>
    obtain rfl := List.mem_singleton.mp hc
    revert n
    decide

/-- The pattern has at most one digit for the number. -/
theorem numberText_eq (number : Option (Fin 10)) :
    numberText number = [] ∨ ∃ c, numberText number = [c] ∧ c.isDigit = true := by
  cases number with
  | none => exact .inl rfl
  | some n =>
    have hmem : Nat.digitChar n ∈ numberText (some n) := List.mem_cons_self
    exact .inr ⟨_, rfl, isDigit_numberText hmem⟩

theorem isWord_of_isDigit (h : c.isDigit = true) : isWord c = true := by
  rw [isWord, Char.isAlphanum, h, Bool.or_true, Bool.true_or]

theorem Parameter.name_ne_nil (h : p.WellFormed) : p.name ≠ [] := by
  cases p with
  | flags number => exact List.cons_ne_nil _ _
  | of name flag type => exact h.1.1

theorem Parameter.isWord_name (h : p.WellFormed) : ∀ c ∈ p.name, isWord c = true := by
  cases p with
  | flags number =>
    rw [name, List.forall_mem_append]
    exact ⟨forall_of_all rfl, fun c hc => isWord_of_isDigit (isDigit_numberText hc)⟩
  | of name flag type => exact h.1.2

theorem Parameter.type_ne_nil (h : p.WellFormed) : p.type ≠ [] := by
  rcases p with number | ⟨name, _ | flag, type⟩
  · exact List.cons_ne_nil _ _
  · exact Ty.print_ne_nil h.2.1
  · exact List.cons_ne_nil _ _

theorem Parameter.isType_type (h : p.WellFormed) : ∀ c ∈ p.type, isType c = true := by
  rcases p with number | ⟨name, flag, type⟩
  · exact List.forall_mem_singleton.mpr rfl
  · obtain ⟨-, htype, hflag⟩ := h
    by_cases hquery : type = .query
    · rw [hflag hquery, hquery]
      exact forall_of_all (w := ['!', 'X']) rfl
    have hprint : ∀ c ∈ type.print, isType c = true :=
      fun c hc => isType_of_isResult (Ty.isResult htype hquery c hc)
    cases flag with
    | none => exact hprint
    | some flag =>
      have hdigit : ∀ {c : Char}, c.isDigit = true → isType c = true := by
        intro c hc
        rw [isType, isWord_of_isDigit hc, Bool.true_or]
      refine List.forall_mem_append.mpr
        ⟨forall_of_all rfl, List.forall_mem_append.mpr ⟨?_, List.forall_mem_cons.mpr ⟨rfl, ?_⟩⟩⟩
      · exact fun c hc => hdigit (isDigit_numberText hc)
      · exact List.forall_mem_append.mpr
          ⟨fun c hc => hdigit (Decimal.isDigit_toDigits hc), List.forall_mem_cons.mpr ⟨rfl, hprint⟩⟩

end Types

/-! ### The code -/

section Code

variable {p : Parameter}

theorem argName_flags (number : Option (Fin 10)) :
    argName (['f', 'l', 'a', 'g', 's'] ++ numberText number) = ['f', 'l', 'a', 'g', 's'] ++
      numberText number := by
  cases number with
  | none => rfl
  | some n =>
    revert n
    decide

theorem vectorElement_append {w e : List Char} (hw : '<' ∉ w) (he : '<' ∉ e) :
    vectorElement (w ++ '<' :: (e ++ ['>'])) = .ok e := by
  have he' : '<' ∉ e ++ ['>'] := by
    rw [List.mem_append, not_or]
    exact ⟨he, by decide⟩
  rw [vectorElement, List.splitOn_append_cons_self_of_not_mem hw, List.splitOn_eq_singleton he']
  exact congrArg Except.ok List.dropLast_concat

/-- A vector's bracket is the first one of the whole type. -/
theorem vectorElement_print {w : List Char} {bare : Bool} {e : Element} (hw : '<' ∉ w)
    (he : e.WellFormed) :
    vectorElement (w ++ (Ty.vector bare e).print) = .ok e.print := by
  have hword : '<' ∉ w ++ [if bare then 'v' else 'V', 'e', 'c', 't', 'o', 'r'] := by
    rw [List.mem_append, not_or]
    exact ⟨hw, by cases bare <;> decide⟩
  rw [Ty.print, ← List.append_assoc]
  exact vectorElement_append hword (not_mem_of_forall (Element.isQualified he) rfl)

theorem ofText?_vector (bare : Bool) (e : Element) : CoreType.ofText? (Ty.vector bare e).print =
    none := by
  refine List.find?_eq_none.mpr fun t _ h => ?_
  have heq := congrArg List.head? (of_decide_eq_true h)
  revert heq
  cases bare <;> rcases t with (_ | _ | _ | _ | _ | _ | _ | _) | _ <;> exact fun heq =>
    absurd (Option.some.inj heq) (by decide)

theorem isVector_vector (bare : Bool) (e : Element) : isVector (Ty.vector bare e).print = true := by
  refine decide_eq_true (List.IsPrefix.isInfix ?_)
  rw [Ty.print, List.map_append]
  cases bare <;> exact List.prefix_append _ _

theorem ofText?_element {e : Element} (h : e.WellFormed) :
    CoreType.ofText? e.print = e.coreType := by
  cases e with
  | core t => exact t.ofText?_text
  | boxed name => exact h.not_core

theorem not_mem_print {t : Ty} {c : Char} (ht : t.WellFormed) (hc : c = '#' ∨ c = '?') :
    c ∉ t.print := by
  by_cases hquery : t = .query
  · subst hquery
    rcases hc with rfl | rfl <;> decide
  · refine not_mem_of_forall (Ty.isResult ht hquery) ?_
    rcases hc with rfl | rfl <;> rfl

theorem emit_plain {name : List Char} {t : Ty} (ht : t.WellFormed) :
    emit name t.print = .ok (t.code none) := by
  have hname : ¬ (['f', 'l', 'a', 'g', 's'] <+: name ∧ t.print = ['#']) := by
    rintro ⟨-, h⟩
    exact not_mem_print ht (.inl rfl) (h ▸ List.mem_singleton_self '#')
  rw [emit, if_neg hname, first_flagsRe2_of_not_mem (not_mem_print ht (.inr rfl))]
  dsimp only
  cases t with
  | core t =>
    rw [Ty.print, t.ofText?_text]
    rfl
  | vector bare e =>
    rw [ofText?_vector, isVector_vector]
    dsimp only
    have helement : vectorElement (Ty.vector bare e).print = .ok e.print :=
      vectorElement_print List.not_mem_nil ht
    rw [if_pos rfl, helement]
    exact congrArg (fun t => Except.ok (Code.vector t)) (ofText?_element ht)
  | boxed name =>
    rw [Ty.print, ht.not_core, ht.not_vector]
    rfl
  | query => rfl

theorem emit_optional {name : List Char} {t : Ty} (flag : Flag) (ht : t.WellFormed)
    (hquery : t ≠ .query) :
    emit name (['f', 'l', 'a', 'g', 's'] ++
      (numberText flag.number ++ '.' :: (Nat.toDigits 10 flag.index ++ '?' :: t.print))) =
      .ok (t.code (some (flagText flag))) := by
  have hname : ∀ {l : List Char}, ¬ (['f', 'l', 'a', 'g', 's'] <+: name ∧
      ['f', 'l', 'a', 'g', 's'] ++ l = ['#']) := by
    rintro l ⟨-, h⟩
    exact absurd (List.cons.inj h).1 (by decide)
  rw [emit, if_neg hname, first_flagsRe2 (numberText_eq flag.number) Nat.toDigits_ne_nil
    (fun c hc => Decimal.isDigit_toDigits hc)
    (Ty.print_ne_nil ht) (Ty.isResult ht hquery)]
  dsimp only
  have htype : captured 3 [(3, t.print), (2, Nat.toDigits 10 flag.index),
      (1, numberText flag.number)] = t.print := rfl
  rw [htype]
  -- after the flag, the type alone decides
  cases t with
  | core t =>
    rw [Ty.print, t.ofText?_text]
    cases t <;> rfl
  | vector bare e =>
    rw [ofText?_vector, isVector_vector]
    dsimp only
    -- the element is cut at the first angle bracket, and there is none in the flag
    have hflag : '<' ∉ ['f', 'l', 'a', 'g', 's'] ++
        (numberText flag.number ++ '.' :: (Nat.toDigits 10 flag.index ++ ['?'])) := by
      have hdigit : '<' ∉ numberText flag.number :=
        fun h => absurd (isDigit_numberText h) (by decide)
      have hindex : '<' ∉ Nat.toDigits 10 flag.index :=
        fun h => absurd (Decimal.isDigit_toDigits h) (by decide)
      simp [hdigit, hindex]
    have happend : ['f', 'l', 'a', 'g', 's'] ++
      (numberText flag.number ++ '.' :: (Nat.toDigits 10 flag.index ++ '?' ::
          (Ty.vector bare e).print)) =
        ['f', 'l', 'a', 'g', 's'] ++
          (numberText flag.number ++ '.' :: (Nat.toDigits 10 flag.index ++ ['?'])) ++
          (Ty.vector bare e).print := by simp
    rw [if_pos rfl, happend, vectorElement_print hflag ht]
    exact congrArg (fun t => Except.ok (Code.optionalVector (flagText flag) t)) (ofText?_element ht)
  | boxed name =>
    rw [Ty.print, ht.not_core, ht.not_vector]
    rfl
  | query => exact absurd rfl hquery

/-- **The code for an argument is the one its type asks for.** -/
theorem emit_parameter (h : p.WellFormed) : emit (argName p.name) p.type = .ok p.code := by
  rcases p with number | ⟨name, _ | flag, type⟩
  · rw [Parameter.name, argName_flags, emit, if_pos ⟨List.prefix_append _ _, rfl⟩]
    rfl
  · exact emit_plain h.2.1
  · exact emit_optional flag h.2.1 fun hquery => absurd (h.2.2 hquery) (Option.some_ne_none flag)

end Code

/-! ### A declaration's line -/

section Line

variable {d : Declaration} {schema : Schema}

/-- The arguments are found where they stand, up to a rest without one. -/
theorem findall_parameters {ps : List Parameter} {rest : List Char} (hps : ∀ p ∈ ps, p.WellFormed)
    (hrest : ':' ∉ rest) :
    argsRe.findall (' ' :: ((ps.map Parameter.print).flatMap (· ++ [' ']) ++ rest)) =
      ps.map fun p => [(2, p.type), (1, p.name)] := by
  induction ps with
  | nil =>
    refine findall_argsRe_of_not_mem ?_
    rw [List.mem_cons, not_or]
    exact ⟨by decide, hrest⟩
  | cons p ps ih =>
    obtain ⟨hp, hps⟩ := List.forall_mem_cons.mp hps
    have hline : ' ' :: (((p :: ps).map Parameter.print).flatMap (· ++ [' ']) ++ rest) =
        ' ' :: (p.name ++
          ':' :: (p.type ++ ' ' :: ((ps.map Parameter.print).flatMap (· ++ [' ']) ++ rest))) := by
      simp [Parameter.print]
    rw [hline, findall_argsRe_arg (by decide) (Parameter.name_ne_nil hp) (Parameter.isWord_name hp)
      (Parameter.type_ne_nil hp) (Parameter.isType_type hp) (by rintro c ⟨⟩; rfl), ih hps,
        List.map_cons]

/-- No argument begins in the type variable. -/
theorem findall_generic {l : List Char} :
    argsRe.findall (' ' :: '{' :: 'X' :: ':' :: 'T' :: 'y' :: 'p' :: 'e' :: '}' :: ' ' :: l) =
      argsRe.findall (' ' :: l) := by
  rw [← List.singleton_append, findall_argsRe_append (by decide)
    (by rintro c ⟨⟩; exact ⟨rfl, by decide⟩)]
  rw [findall_cons_of_run rfl]
  have hvariable : argsRe.run ('X' :: ([] ++ ':' :: 'T' :: 'y' :: 'p' :: 'e' :: '}' :: ' ' :: l),
      []) = [] :=
    run_argsRe_eq_nil nofun (by rintro c ⟨⟩; rfl) (.inl rfl)
  have hcolon : argsRe.run (':' :: (['T', 'y', 'p', 'e'] ++ '}' :: ' ' :: l), []) = [] :=
    run_argsRe_eq_nil (forall_of_all rfl) (by rintro c ⟨⟩; rfl) (.inr (by rintro c ⟨⟩; decide))
  refine (findall_cons_of_run hvariable).trans ((findall_cons_of_run hcolon).trans ?_)
  exact findall_argsRe_append (w := ['T', 'y', 'p', 'e', '}']) (by decide)
    (by rintro c ⟨⟩; exact ⟨rfl, by decide⟩)

/-- The characters of a result's name and its namespace. -/
def isAngled (c : Char) : Bool := isWord c || c = '<' || c = '>'

theorem isAngled_of_isWord {c : Char} (h : isWord c = true) : isAngled c = true := by
  rw [isAngled, h, Bool.true_or, Bool.true_or]

theorem isResult_of_isAngled {c : Char} (h : isAngled c = true) : isResult c = true := by
  simp only [isAngled, Bool.or_eq_true, decide_eq_true_eq] at h
  rcases h with (h | rfl) | rfl
  · exact isResult_of_isQualified (isQualified_of_isWord h)
  · rfl
  · rfl

theorem Result.isAngled_qualName {r : Result} (h : r.WellFormed) :
    (∀ c ∈ r.qualName.nameSpace, isAngled c = true) ∧ ∀ c ∈ r.qualName.name, isAngled c = true := by
  have hangled : ∀ {w : List Char}, (∀ c ∈ w, isWord c = true) → ∀ c ∈ w, isAngled c = true :=
    fun hw c hc => isAngled_of_isWord (hw c hc)
  have hclose : ∀ {w : List Char}, (∀ c ∈ w, isWord c = true) →
      ∀ c ∈ w ++ ['>'], isAngled c = true :=
    fun hw => List.forall_mem_append.mpr ⟨hangled hw, forall_of_all rfl⟩
  have hopen : ∀ {w : List Char}, (∀ c ∈ w, isAngled c = true) →
      ∀ c ∈ ['V', 'e', 'c', 't', 'o', 'r', '<'] ++ w, isAngled c = true :=
    fun hw => List.forall_mem_append.mpr ⟨forall_of_all rfl, hw⟩
  rcases r with name | (t | name)
  · exact ⟨hangled h.2.1.nameSpace, hangled h.2.1.name⟩
  · exact ⟨nofun, hopen (hclose t.isWord_text)⟩
  · have hname : name.WellFormed := QualName.Boxed.toWellFormed h.2.1
    rw [qualName]
    split_ifs
    · exact ⟨nofun, hopen (hclose hname.name)⟩
    · exact ⟨hopen (hangled hname.nameSpace), hclose hname.name⟩

theorem Result.name_ne_nil {r : Result} (h : r.WellFormed) : r.qualName.name ≠ [] := by
  rcases r with name | (t | name)
  · exact h.2.1.name_ne
  · exact List.cons_ne_nil _ _
  · rw [qualName]
    split_ifs
    · exact List.cons_ne_nil _ _
    · simp

theorem Result.isResult_print {r : Result} (h : r.WellFormed) : ∀ c ∈ r.print, isResult c = true :=
  QualName.forall_print rfl (fun c hc => isResult_of_isAngled ((isAngled_qualName h).1 c hc))
    fun c hc => isResult_of_isAngled ((isAngled_qualName h).2 c hc)

/-- The line up to the arguments, and from there on. -/
theorem Declaration.findall_print (h : d.WellFormed) :
    argsRe.findall d.print = d.parameters.map fun p => [(2, p.type), (1, p.name)] := by
  have hhead : ':' ∉ d.name.print ++ '#' :: d.id := by
    rw [List.mem_append, List.mem_cons, not_or, not_or]
    exact ⟨not_mem_of_forall h.name.isQualified rfl, by decide, not_mem_of_forall h.id rfl⟩
  have hresult : ':' ∉ '=' :: ' ' :: (d.result.print ++ [';']) := by
    have hprint := not_mem_of_forall (Result.isResult_print h.result) (c := ':') rfl
    simp [hprint]
  have hline : d.print = (d.name.print ++ '#' :: d.id) ++ ' ' :: (d.words.flatMap (· ++ [' ']) ++
      '=' :: ' ' :: (d.result.print ++ [';'])) := by
    rw [print, List.append_assoc, List.cons_append]
  rw [hline, findall_argsRe_append hhead (by rintro c ⟨⟩; exact ⟨rfl, by decide⟩), words]
  cases d.generic with
  | false =>
    rw [if_neg Bool.false_ne_true, List.nil_append]
    exact findall_parameters h.parameters hresult
  | true =>
    rw [if_pos rfl, List.singleton_append, List.flatMap_cons, List.append_assoc]
    exact findall_generic.trans (findall_parameters h.parameters hresult)

/-- The words of a line are on it. -/
theorem Declaration.forall_words {P : Char → Prop} (h : d.WellFormed)
    (hP : ∀ c, isType c = true → P c) (hcolon : P ':')
    (hbraces : P '{' ∧ P '}') : ∀ word ∈ d.words, ∀ c ∈ word, P c := by
  intro word hword
  rcases List.mem_append.mp hword with hword | hword
  · split_ifs at hword with hgeneric
    · obtain rfl := List.mem_singleton.mp hword
      simp only [List.forall_mem_cons]
      exact ⟨hbraces.1, hP 'X' rfl, hcolon, hP 'T' rfl, hP 'y' rfl, hP 'p' rfl, hP 'e' rfl,
        hbraces.2, nofun⟩
    · cases hword
  · obtain ⟨p, hp, rfl⟩ := List.mem_map.mp hword
    refine List.forall_mem_append.mpr
      ⟨fun c hc => hP c ?_, List.forall_mem_cons.mpr ⟨hcolon, fun c hc => hP c ?_⟩⟩
    · exact isType_of_isResult
        (isResult_of_isQualified
        (isQualified_of_isWord (Parameter.isWord_name (h.parameters p hp) c hc)))
    · exact Parameter.isType_type (h.parameters p hp) c hc

/-- **A declaration's line is read.** -/
theorem Schema.readLine_declaration {sectionName : List Char} (h : d.WellFormed)
    (hsection : schema.sectionName = some sectionName) :
    schema.readLine d.print =
      .ok { schema with combinators := schema.combinators ++ [d.combinator sectionName] } := by
  -- a letter of a name begins the line, so neither the section nor the layer matches
  have hqualified := h.name.isQualified
  obtain ⟨c, l, hcons⟩ := List.exists_cons_of_ne_nil (QualName.print_ne_nil h.name.name_ne)
  have hc : isQualified c = true := hqualified c (hcons ▸ List.mem_cons_self)
  have hsectionRe : sectionRe.first d.print = none := by
    rw [Declaration.print, hcons]
    exact first_sectionRe_cons (by rintro rfl; cases hc)
  have hlayerRe : layerRe.first d.print = none := by
    rw [Declaration.print, hcons]
    exact first_layerRe_cons (by rintro rfl; cases hc)
  have hwords : '\n' ∉ d.words.flatMap (· ++ [' ']) := by
    rw [List.mem_flatMap]
    rintro ⟨word, hword, hmem⟩
    have hnot := Declaration.forall_words (P := fun c => c ≠ '\n') h (by rintro _ hc rfl; cases hc)
      (by decide)
      ⟨by decide, by decide⟩ word hword
    rcases List.mem_append.mp hmem with hmem | hmem
    · exact hnot _ hmem rfl
    · exact absurd hmem (by decide)
  -- the groups are the name, the id and the result
  have hcombinatorRe :
      combinatorRe.first d.print = some [(3, d.result.print), (2, d.id), (1, d.name.print)] :=
    first_combinatorRe (QualName.print_ne_nil h.name.name_ne) hqualified h.id_ne h.id hwords
      (QualName.print_ne_nil (Result.name_ne_nil h.result)) (Result.isResult_print h.result)
  have hname := splitName_print (not_mem_of_forall h.name.nameSpace rfl)
    (not_mem_of_forall h.name.name rfl)
  have hangled := Result.isAngled_qualName h.result
  have hresult : splitName d.result.print =
      .ok (d.result.qualName.nameSpace, d.result.qualName.name) :=
    splitName_print (not_mem_of_forall hangled.1 rfl) (not_mem_of_forall hangled.2 rfl)
  have hgroups : ∀ a b c : List Char, captured 1 [(3, a), (2, b), (1, c)] = c ∧
    captured 2 [(3, a), (2, b), (1, c)] = b ∧
      captured 3 [(3, a), (2, b), (1, c)] = a := fun a b c => ⟨rfl, rfl, rfl⟩
  have hargs : ((d.parameters.map fun p => [(2, p.type), (1, p.name)]).map fun groups =>
      (argName (captured 1 groups), captured 2 groups)) = d.parameters.map fun p =>
        (argName p.name, p.type) := by
    rw [List.map_map]
    rfl
  simp only [readLine, hsectionRe, hlayerRe, hcombinatorRe, hgroups, hname, hresult,
    camel_eq_ok h.words,
    camel_eq_ok h.result.1, Except.bind_ok, Declaration.findall_print h, hargs, hsection]
  rfl

end Line

/-! ### The whole schema -/

section Lines

variable {schema : Schema} {lines : List (List Char)}

theorem Schema.readLine_note {n : Note} (h : n.WellFormed) :
    schema.readLine n.print = .ok { schema with layer := n.layerAfter schema.layer } := by
  cases n with
  | blank => rfl
  | comment text =>
    have hsection : sectionRe.first (Note.comment text).print = none :=
      first_sectionRe_cons (by decide)
    have hcombinator : combinatorRe.first (Note.comment text).print = none :=
      first_combinatorRe_cons rfl
    have hlayer : layerRe.first (Note.comment text).print = none := h.2
    simp only [readLine, hsection, hlayer, hcombinator]
    rfl
  | layer number =>
    have hsection : sectionRe.first (Note.layer number).print = none :=
      first_sectionRe_cons (by decide)
    have hlayer : layerRe.first (Note.layer number).print = some [(1, Nat.toDigits 10 number)] :=
      first_layerRe Nat.toDigits_ne_nil fun c hc => Decimal.isDigit_toDigits hc
    simp only [readLine, hsection, hlayer]
    rfl

theorem Schema.readLine_section {name : List Char} (hne : name ≠ [])
    (hname : ∀ c ∈ name, isWord c = true) :
    schema.readLine (['-', '-', '-'] ++ (name ++ (['-', '-', '-'] ++ []))) =
      .ok { schema with sectionName := some name } := by
  simp only [readLine, first_sectionRe hne hname]
  rfl

/-- A section's name is a word. -/
theorem isWord_of_names {name : List Char} (h : name = typesName ∨ name = functionsName) :
    name ≠ [] ∧ ∀ c ∈ name, isWord c = true := by
  rcases h with rfl | rfl <;> exact ⟨by decide, forall_of_all rfl⟩

theorem Schema.foldlM_notes {notes : List Note} (h : ∀ n ∈ notes, n.WellFormed) :
    (notes.map Note.print).foldlM readLine schema =
      .ok { schema with layer := notes.foldl Note.layerAfter schema.layer } := by
  induction notes generalizing schema with
  | nil => rfl
  | cons n notes ih =>
    obtain ⟨hn, h⟩ := List.forall_mem_cons.mp h
    rw [List.map_cons, List.foldlM_cons, readLine_note hn, Except.bind_ok, ih h]
    rfl

/-- The lines of a section. -/
theorem Schema.foldlM_entries {sectionName : List Char} {entries : List Entry}
    (hnotes : ∀ n, .note n ∈ entries → n.WellFormed)
    (hdeclarations : ∀ d, .declaration d ∈ entries → d.WellFormed)
    (hsection : schema.sectionName = some sectionName) :
    (entries.map Entry.print).foldlM readLine schema = .ok
      { schema with
        layer := (Part.notes ⟨sectionName, entries⟩).foldl Note.layerAfter schema.layer
        combinators := schema.combinators ++
          (Part.declarations ⟨sectionName, entries⟩).map fun d => d.2.combinator d.1 } := by
  -- on the lines of the section: a note may set the layer, a declaration adds a combinator
  induction entries generalizing schema with
  | nil =>
    change Except.ok schema = _
    rw [show (Part.declarations ⟨sectionName, []⟩).map (fun d => d.2.combinator d.1) = [] from rfl,
      List.append_nil]
    rfl
  | cons e entries ih =>
    have hnotes' : ∀ n, .note n ∈ entries → n.WellFormed :=
      fun n hn => hnotes n (List.mem_cons_of_mem _ hn)
    have hdeclarations' : ∀ d, .declaration d ∈ entries → d.WellFormed :=
      fun d hd => hdeclarations d (List.mem_cons_of_mem _ hd)
    rw [List.map_cons, List.foldlM_cons]
    cases e with
    | note n =>
      rw [Entry.print, readLine_note (hnotes n List.mem_cons_self), Except.bind_ok]
      exact ih hnotes' hdeclarations' hsection
    | declaration d =>
      rw [Entry.print, readLine_declaration (hdeclarations d List.mem_cons_self) hsection,
        Except.bind_ok]
      refine (ih hnotes' hdeclarations' (by exact hsection)).trans ?_
      rw [List.append_assoc]
      rfl

/-- The lines of one section after the other, the last of which stays. -/
theorem Schema.foldlM_parts {parts : List Part} (hnotes : ∀ p ∈ parts, ∀ n ∈ p.notes, n.WellFormed)
    (hnames : ∀ p ∈ parts, p.name = typesName ∨ p.name = functionsName)
    (hdeclarations : ∀ p ∈ parts, ∀ d ∈ p.declarations, d.2.WellFormed) :
    ∃ sectionName, (parts.flatMap Part.lines).foldlM readLine schema = .ok
      { sectionName := sectionName
        layer := (parts.flatMap Part.notes).foldl Note.layerAfter schema.layer
        combinators := schema.combinators ++
          (parts.flatMap Part.declarations).map fun d => d.2.combinator d.1 } := by
  induction parts generalizing schema with
  | nil =>
    refine ⟨schema.sectionName, ?_⟩
    rw [List.flatMap_nil, List.flatMap_nil, List.flatMap_nil, List.map_nil, List.append_nil]
    rfl
  | cons p parts ih =>
    obtain ⟨hnotes, hnotes'⟩ := List.forall_mem_cons.mp hnotes
    obtain ⟨hname, hnames'⟩ := List.forall_mem_cons.mp hnames
    obtain ⟨hne, hname⟩ := isWord_of_names hname
    obtain ⟨hdeclarations, hdeclarations'⟩ := List.forall_mem_cons.mp hdeclarations
    have hentries := @foldlM_entries { schema with sectionName := some p.name } p.name p.entries
      (fun n hn => hnotes n (List.mem_filterMap.mpr ⟨_, hn, rfl⟩))
      (fun d hd => hdeclarations (p.name, d) (List.mem_filterMap.mpr ⟨_, hd, rfl⟩)) rfl
    obtain ⟨sectionName, hparts⟩ := ih hnotes' hnames' hdeclarations'
    refine ⟨sectionName, ?_⟩
    rw [List.flatMap_cons, List.foldlM_append, Part.lines, List.foldlM_cons,
      readLine_section hne hname, Except.bind_ok, hentries, Except.bind_ok]
    refine hparts.trans ?_
    rw [List.flatMap_cons, List.flatMap_cons, List.foldl_append, List.map_append, List.append_assoc]

/-- The lines of one file after the other. -/
theorem Schema.foldlM_files {files : List File} (h : ∀ f ∈ files, f.WellFormed) :
    ∃ sectionName, (files.flatMap File.lines).foldlM readLine schema = .ok
      { sectionName := sectionName
        layer := (files.flatMap File.notes).foldl Note.layerAfter schema.layer
        combinators := schema.combinators ++
          (files.flatMap File.declarations).map fun d => d.2.combinator d.1 } := by
  induction files generalizing schema with
  | nil =>
    refine ⟨schema.sectionName, ?_⟩
    rw [List.flatMap_nil, List.flatMap_nil, List.flatMap_nil, List.map_nil, List.append_nil]
    rfl
  | cons f files ih =>
    obtain ⟨hf, h⟩ := List.forall_mem_cons.mp h
    obtain ⟨hpreamble, hnotes⟩ := List.forall_mem_append.mp hf.notes
    obtain ⟨_, hparts⟩ :=
      @foldlM_parts { schema with layer := f.preamble.foldl Note.layerAfter schema.layer } f.parts
      (fun p hp n hn => hnotes n (List.mem_flatMap.mpr ⟨p, hp, hn⟩)) hf.names
      (fun p hp d hd => hf.declarations d (List.mem_flatMap.mpr ⟨p, hp, hd⟩))
    obtain ⟨sectionName, hfiles⟩ := ih h
    refine ⟨sectionName, ?_⟩
    rw [List.flatMap_cons, List.foldlM_append, File.lines, List.foldlM_append,
      foldlM_notes hpreamble, Except.bind_ok,
      hparts, Except.bind_ok]
    refine hfiles.trans ?_
    rw [List.flatMap_cons, List.flatMap_cons, List.foldl_append, File.notes, List.foldl_append,
      List.map_append, List.append_assoc]
    rfl

/-! ### Its text -/

theorem splitlinesFrom_append {before line rest : List Char} (h : ∀ c ∈ line, c ∉ lineBreaks) :
    splitlinesFrom before (line ++ '\n' :: rest) = (before ++ line) :: splitlinesFrom [] rest := by
  induction line generalizing before with
  | nil => rw [List.nil_append, splitlinesFrom, if_pos (by decide), List.append_nil]
  | cons c line ih =>
    obtain ⟨hc, h⟩ := List.forall_mem_cons.mp h
    rw [List.cons_append, splitlinesFrom, if_neg hc, ih h, List.append_assoc, List.singleton_append]

/-- Lines without line breaks are split where they end. -/
theorem splitlines_flatMap (h : ∀ line ∈ lines, ∀ c ∈ line, c ∉ lineBreaks) :
    splitlines (lines.flatMap (· ++ ['\n'])) = lines := by
  induction lines with
  | nil => rfl
  | cons line lines ih =>
    obtain ⟨hline, h⟩ := List.forall_mem_cons.mp h
    rw [splitlines, List.flatMap_cons, List.append_assoc, List.singleton_append,
      splitlinesFrom_append hline]
    exact congrArg (line :: ·) (ih h)

theorem not_mem_lineBreaks {c : Char} (h : isType c = true) : c ∉ lineBreaks := by
  have hall : ∀ c ∈ lineBreaks, isType c = false := forall_not_of_all rfl
  intro hmem
  rw [hall c hmem] at h
  cases h

theorem not_mem_lineBreaks_of_isWord {c : Char} (h : isWord c = true) : c ∉ lineBreaks :=
  not_mem_lineBreaks (isType_of_isResult (isResult_of_isQualified (isQualified_of_isWord h)))

theorem Note.not_mem_lineBreaks {n : Note} (h : n.WellFormed) : ∀ c ∈ n.print, c ∉ lineBreaks := by
  cases n with
  | blank => exact nofun
  | comment text => exact List.forall_mem_cons.mpr ⟨by
      decide, List.forall_mem_cons.mpr ⟨by decide, h.1⟩⟩
  | layer number =>
    refine List.forall_mem_append.mpr ⟨not_mem_lineBreaks_of_all rfl, fun c hc => ?_⟩
    exact not_mem_lineBreaks_of_isWord (isWord_of_isDigit (Decimal.isDigit_toDigits hc))

theorem Declaration.not_mem_lineBreaks {d : Declaration} (h : d.WellFormed) :
    ∀ c ∈ d.print, c ∉ lineBreaks := by
  have hresult : ∀ {c : Char}, isResult c = true → c ∉ lineBreaks :=
    fun hc => Compiler.not_mem_lineBreaks (isType_of_isResult hc)
  have hhex : ∀ {c : Char}, isHex c = true → c ∉ lineBreaks := by
    have hall : ∀ c ∈ lineBreaks, isHex c = false := forall_not_of_all rfl
    intro c hc hmem
    rw [hall c hmem] at hc
    cases hc
  have hwords := Declaration.forall_words h (fun c hc => Compiler.not_mem_lineBreaks hc) (by decide)
    ⟨by decide, by decide⟩
  refine List.forall_mem_append.mpr
    ⟨fun c hc => hresult (isResult_of_isQualified (h.name.isQualified c hc)), ?_⟩
  refine List.forall_mem_cons.mpr
    ⟨by decide, List.forall_mem_append.mpr ⟨fun c hc => hhex (h.id c hc), ?_⟩⟩
  refine List.forall_mem_cons.mpr ⟨by decide, List.forall_mem_append.mpr ⟨fun c hc => ?_, ?_⟩⟩
  · obtain ⟨word, hword, hc⟩ := List.mem_flatMap.mp hc
    exact List.forall_mem_append.mpr ⟨hwords word hword, not_mem_lineBreaks_of_all rfl⟩ c hc
  · refine List.forall_mem_cons.mpr
      ⟨by decide, List.forall_mem_cons.mpr ⟨by decide, List.forall_mem_append.mpr ?_⟩⟩
    exact ⟨fun c hc => hresult (Result.isResult_print h.result c hc), not_mem_lineBreaks_of_all rfl⟩

theorem File.not_mem_lineBreaks {f : File} (h : f.WellFormed) :
    ∀ line ∈ f.lines, ∀ c ∈ line, c ∉ lineBreaks := by
  obtain ⟨hpreamble, hnotes⟩ := List.forall_mem_append.mp h.notes
  refine List.forall_mem_append.mpr ⟨?_, ?_⟩
  · rintro line hline
    obtain ⟨n, hn, rfl⟩ := List.mem_map.mp hline
    exact Note.not_mem_lineBreaks (hpreamble n hn)
  · rintro line hline
    obtain ⟨p, hp, hline⟩ := List.mem_flatMap.mp hline
    rcases List.mem_cons.mp hline with rfl | hline
    · refine List.forall_mem_append.mpr ⟨not_mem_lineBreaks_of_all rfl, List.forall_mem_append.mpr
        ⟨fun c hc => ?_, not_mem_lineBreaks_of_all rfl⟩⟩
      exact not_mem_lineBreaks_of_isWord ((isWord_of_names (h.names p hp)).2 c hc)
    · obtain ⟨e, he, rfl⟩ := List.mem_map.mp hline
      cases e with
      | note n =>
        exact Note.not_mem_lineBreaks
          (hnotes n (List.mem_flatMap.mpr ⟨p, hp, List.mem_filterMap.mpr ⟨_, he, rfl⟩⟩))
      | declaration d =>
        exact Declaration.not_mem_lineBreaks
          (h.declarations (p.name, d)
            (List.mem_flatMap.mpr ⟨p, hp, List.mem_filterMap.mpr ⟨_, he, rfl⟩⟩))

/-- The schema of some files is read. -/
theorem parse_print {files : List File} (h : ∀ f ∈ files, f.WellFormed) :
    ∃ sectionName, parse (files.flatMap File.print) = .ok
      { sectionName := sectionName
        layer := (files.flatMap File.notes).foldl Note.layerAfter none
        combinators := (files.flatMap File.declarations).map fun d => d.2.combinator d.1 } := by
  have hlines : ∀ line ∈ files.flatMap File.lines, ∀ c ∈ line, c ∉ lineBreaks := by
    intro line hline
    obtain ⟨f, hf, hline⟩ := List.mem_flatMap.mp hline
    exact File.not_mem_lineBreaks (h f hf) line hline
  have htext : files.flatMap File.print = (files.flatMap File.lines).flatMap (· ++ ['\n']) := by
    rw [List.flatMap_assoc]
    rfl
  rw [parse, htext, splitlines_flatMap hlines]
  exact Schema.foldlM_files h

end Lines

/-! ### The classes -/

section Classes

theorem exists_vectorElement {s : List Char} (h : '<' ∈ s) : ∃ e, vectorElement s = .ok e := by
  obtain ⟨a, b, rfl, ha⟩ := List.eq_append_cons_of_mem h
  rw [vectorElement, List.splitOn_append_cons_self_of_not_mem ha]
  cases hb : b.splitOn '<' with
  | nil => exact absurd hb (List.splitOn_ne_nil '<' b)
  | cons e rest => exact ⟨e.dropLast, rfl⟩

theorem exists_mem_splitOn {s : List Char} {c d : Char} (hc : c ∈ s) (hcd : c ≠ d) :
    ∃ word ∈ s.splitOn d, c ∈ word := by
  induction s with
  | nil => cases hc
  | cons x s ih =>
    rw [List.splitOn_cons_eq_if_modifyHead]
    split_ifs with hx
    · have hne : c ≠ x := fun h => hcd (h.trans (eq_of_beq hx))
      obtain ⟨word, hword, hc⟩ := ih ((List.mem_cons.mp hc).resolve_left hne)
      exact ⟨word, List.mem_cons_of_mem _ hword, hc⟩
    · obtain ⟨w, ws, hsplit⟩ := List.exists_cons_of_ne_nil (List.splitOn_ne_nil d s)
      rw [hsplit] at ih ⊢
      rw [List.modifyHead_cons]
      rcases List.mem_cons.mp hc with rfl | hc
      · exact ⟨c :: w, List.mem_cons_self, List.mem_cons_self⟩
      obtain ⟨word, hword, hc⟩ := ih hc
      rcases List.mem_cons.mp hword with rfl | hword
      · exact ⟨x :: word, List.mem_cons_self, List.mem_cons_of_mem _ hc⟩
      · exact ⟨word, List.mem_cons_of_mem _ hword, hc⟩

theorem mem_camelCase {s : List Char} {c : Char} (hc : c ∈ s) (hne : c ≠ '_')
    (hupper : c.toUpper = c) : c ∈ camelCase s := by
  obtain ⟨word, hword, hc⟩ := exists_mem_splitOn hc hne
  refine List.mem_flatMap.mpr ⟨word, hword, ?_⟩
  cases word with
  | nil => cases hc
  | cons d word =>
    rcases List.mem_cons.mp hc with rfl | hc
    · exact List.mem_cons.mpr (.inl hupper.symm)
    · exact List.mem_cons_of_mem _ hc

theorem mem_qualified {space name : List Char} {c : Char} (hc : c ∈ space ∨ c ∈ name)
    (hne : c ≠ '.') :
    c ∈ qualified space name := by
  have hmem : c ∈ space ++ '.' :: name :=
    List.mem_append.mpr (hc.imp_right fun hc => List.mem_cons_of_mem _ hc)
  rw [← List.takeWhile_append_dropWhile (p := fun c => decide (c = '.'))
    (l := space ++ '.' :: name)] at hmem
  refine (List.mem_append.mp hmem).resolve_left fun htake => hne ?_
  exact of_decide_eq_true (List.mem_takeWhile_imp (p := fun c => decide (c = '.')) htake)

/-- What is not taken for a vector does not begin as one. -/
theorem not_prefix_of_isVector {s : List Char} (h : isVector s = false) :
    ¬ ['V', 'e', 'c', 't', 'o', 'r'] <+: s := by
  rintro ⟨rest, rfl⟩
  refine of_decide_eq_false h (List.IsPrefix.isInfix ?_)
  rw [List.map_append]
  exact List.prefix_append _ _

theorem mem_of_mem_splitOn {s word : List Char} {c d : Char} (hword : word ∈ s.splitOn d)
    (hc : c ∈ word) : c ∈ s := by
  induction s generalizing word with
  | nil =>
    obtain rfl : word = [] := by simpa using hword
    cases hc
  | cons x s ih =>
    rw [List.splitOn_cons_eq_if_modifyHead] at hword
    split_ifs at hword with hx
    · rcases List.mem_cons.mp hword with rfl | hword
      · cases hc
      · exact List.mem_cons_of_mem _ (ih hword hc)
    · obtain ⟨w, ws, hsplit⟩ := List.exists_cons_of_ne_nil (List.splitOn_ne_nil d s)
      rw [hsplit] at ih hword
      rw [List.modifyHead_cons] at hword
      rcases List.mem_cons.mp hword with rfl | hword
      · exact (List.mem_cons.mp hc).elim (fun heq => heq ▸ List.mem_cons_self)
          fun hc => List.mem_cons_of_mem _ (ih List.mem_cons_self hc)
      · exact List.mem_cons_of_mem _ (ih (List.mem_cons_of_mem _ hword) hc)

/-- No dot comes from another character. -/
theorem eq_dot_of_toUpper {c : Char} (h : c.toUpper = '.') : c = '.' := by
  by_cases hlower : 'a'.val ≤ c.val ∧ c.val ≤ 'z'.val
  · have hupper : c.toUpper = _ := dif_pos hlower
    have hval := congrArg Char.val (hupper.symm.trans h)
    simp only [Char.reduceVal] at hval hlower
    -- the capital of `c` would be the dot, that is `c` a capital itself
    have hc : c.val = 78 := by grind
    rw [hc] at hlower
    exact absurd hlower.1 (by decide)
  · have hupper : c.toUpper = c := dif_neg hlower
    exact hupper.symm.trans h

theorem dot_not_mem_camelCase {s : List Char} (h : '.' ∉ s) : '.' ∉ camelCase s := by
  intro hmem
  obtain ⟨word, hword, hmem⟩ := List.mem_flatMap.mp hmem
  cases word with
  | nil => cases hmem
  | cons c word =>
    rcases List.mem_cons.mp hmem with heq | hmem
    · exact h (mem_of_mem_splitOn hword (eq_dot_of_toUpper heq.symm ▸ List.mem_cons_self))
    · exact h (mem_of_mem_splitOn hword (List.mem_cons_of_mem _ hmem))

theorem qualified_eq_print {space name : List Char} (hspace : '.' ∉ space) (hname : '.' ∉ name) :
    qualified space name = QualName.print ⟨space, name⟩ := by
  have hdrop : ∀ {l : List Char}, (∀ c ∈ l.head?, c ≠ '.') →
      l.dropWhile (fun c => decide (c = '.')) = l := by
    intro l hl
    cases l with
    | nil => rfl
    | cons c l => exact List.dropWhile_cons_of_neg (by simpa using hl c rfl)
  rw [qualified, QualName.print]
  cases space with
  | nil =>
    rw [List.nil_append, List.dropWhile_cons_of_pos (by decide), if_pos rfl]
    exact hdrop fun c hc heq => hname (heq ▸ List.mem_of_mem_head? hc)
  | cons c space =>
    rw [if_neg (List.cons_ne_nil c space)]
    exact hdrop fun a ha heq => hspace (heq ▸ (Option.some.inj ha) ▸ List.mem_cons_self)

/-- No result is without the element it is taken to have. -/
theorem Declaration.exists_key {d : Declaration} (h : d.WellFormed) (sectionName : List Char) :
    ∃ key, (d.combinator sectionName).key = .ok key := by
  rw [Combinator.key]
  split_ifs with hprefix
  · refine exists_vectorElement ?_
    obtain ⟨_, hresult⟩ := h.result
    change '<' ∈ d.result.qualtype
    change _ <+: d.result.qualtype at hprefix
    revert hprefix hresult
    rcases d.result with name | (t | name)
    · exact fun hresult hprefix => absurd hprefix (not_prefix_of_isVector hresult.2)
    · exact fun _ _ => mem_qualified
        (.inr (mem_camelCase (by simp [Result.qualName]) (by decide) rfl)) (by decide)
    · intro _ _
      refine mem_qualified ?_ (by decide)
      rw [Result.qualName]
      split_ifs
      · exact .inr (mem_camelCase (by simp) (by decide) rfl)
      · exact .inl (by simp)
  · exact ⟨_, rfl⟩

/-- A constructor's type is in the namespace it is written with. -/
theorem Declaration.typespaceOf_combinator {d : Declaration} (h : d.WellFormed)
    (hboxed : d.result.IsBoxed)
    (sectionName : List Char) :
    (d.combinator sectionName).typespaceOf = .ok d.result.qualName.nameSpace := by
  obtain ⟨_, hresult⟩ := h.result
  have hkey : (d.combinator sectionName).key = .ok d.result.qualtype := by
    rw [Combinator.key, if_neg]
    · rfl
    · revert hresult hboxed
      cases hr : d.result with
      | boxed name =>
        intro _ hresult
        change ¬ _ <+: d.result.qualtype
        rw [hr]
        exact not_prefix_of_isVector hresult.2
      | vector element => exact nofun
  have hsplit : splitName d.result.qualtype =
      .ok (d.result.qualName.nameSpace, camelCase d.result.qualName.name) := by
    have hangled := Result.isAngled_qualName h.result
    have hspace := not_mem_of_forall hangled.1 (c := '.') rfl
    have hname := dot_not_mem_camelCase (not_mem_of_forall hangled.2 (c := '.') rfl)
    rw [Result.qualtype, qualified_eq_print hspace hname]
    exact splitName_print hspace hname
  rw [Combinator.typespaceOf, hkey, Except.bind_ok, hsplit]
  rfl

theorem mapM_map_eq_ok {α β γ : Type} {f : α → β} {g : β → Except Exc γ} {h : α → γ} {l : List α}
    (hall : ∀ a ∈ l, g (f a) = .ok (h a)) : (l.map f).mapM g = .ok (l.map h) := by
  rw [Except.mapM_eq_ok, List.forall₂_map_left_iff, List.forall₂_map_right_iff]
  exact List.forall₂_same.mpr hall

theorem Declaration.generate_combinator {d : Declaration} (h : d.WellFormed)
    (sectionName : List Char) :
    generate (d.combinator sectionName) = .ok (d.generated sectionName) := by
  have hcode : (d.combinator sectionName).args.mapM (fun arg => emit arg.1 arg.2) =
      .ok (d.parameters.map Parameter.code) := mapM_map_eq_ok fun p hp =>
        emit_parameter (h.parameters p hp)
  rw [generate, hcode]
  rfl

theorem Part.fst_of_mem_declarations {p : Part} {d : List Char × Declaration}
    (hd : d ∈ p.declarations) :
    d.1 = p.name := by
  obtain ⟨e, -, he⟩ := List.mem_filterMap.mp hd
  cases e with
  | note n => cases he
  | declaration d' => exact (Option.some.inj he) ▸ rfl

/-- There are the directories for the packages of a schema. -/
theorem hasDirectories_generated {declarations : List (List Char × Declaration)}
    (hsections : ∀ d ∈ declarations, d.1 = typesName ∨ d.1 = functionsName)
    (hspaced : ∀ d ∈ declarations, d.1 = typesName → d.2.name.nameSpace ≠ [] →
      ∃ d' ∈ declarations, d'.1 = typesName ∧ d'.2.result.qualName.nameSpace = d.2.name.nameSpace) :
    HasDirectories ((declarations.filter fun d => d.1 = typesName).map fun d =>
      d.2.result.qualName.nameSpace)
      (declarations.map fun d => d.2.generated d.1) := by
  intro c hc
  obtain ⟨d, hd, rfl⟩ := List.mem_map.mp hc
  have hspace : ∀ d ∈ declarations, d.1 = typesName →
      d.2.result.qualName.nameSpace ∈
        (declarations.filter fun d => d.1 = typesName).map fun d => d.2.result.qualName.nameSpace :=
    fun d hd htypes => List.mem_map_of_mem (List.mem_filter.mpr ⟨hd, decide_eq_true htypes⟩)
  change if d.1 = typesName then HasDirectory _ d.2.name.nameSpace
    else HasDirectory _ d.2.name.nameSpace
  split_ifs with htypes
  · by_cases hnil : d.2.name.nameSpace = []
    · exact .inr ⟨hnil, List.append_ne_nil_of_left_ne_nil (List.ne_nil_of_mem (hspace d hd htypes))
        _⟩
    · obtain ⟨d', hd', htypes', heq⟩ := hspaced d hd htypes hnil
      exact .inl (List.mem_append_left _ (heq ▸ hspace d' hd' htypes'))
  · have hfunctions := (hsections d hd).resolve_left htypes
    exact .inl (List.mem_map_of_mem (f := fun c : GeneratedClass => c.combinator.nameSpace)
      (List.mem_filter.mpr ⟨hc, decide_eq_true hfunctions⟩))

end Classes

/-! ### Objects -/

/-- The number of a flags field, of which there are eleven. -/
def readNumber : List Char → Option (Option (Fin 10))
  | [] => some none
  | [c] => if c.isDigit then some (some (Fin.ofNat 10 (c.toNat - '0'.toNat))) else none
  | _ => none

/-- A literal that begins with a zero is a syntax error. -/
def FlagText.flag? (flag : FlagText) : Option Flag := do
  let number ← readNumber flag.number
  let index ← (Decimal.readNat flag.index).filter fun n => Nat.toDigits 10 n = flag.index
  return ⟨number, index⟩

/-- The code, where it is for a core type that is written or for a boxed one; the elements of a
vector without a core type are read by what they look like. -/
def Code.arg? : Code → Option Raw.Combinator.Arg
  | flags name => (readNumber (name.drop 5)).map .flags
  | trueFlag flag => flag.flag?.map fun flag => .of (.trueFlag flag)
  | optionalCore flag (.of t) => flag.flag?.map fun flag => .of (.optionalCore flag t)
  | optionalVector flag (some (.of t)) => flag.flag?.map fun flag => .of (.optionalVector flag t)
  | optionalBoxed flag => flag.flag?.map fun flag => .of (.optionalBoxed flag)
  | core (.of t) => some (.of (.core t))
  | vector (some (.of t)) => some (.of (.vector t))
  | boxed => some (.of .boxed)
  | optionalCore _ .true | optionalVector _ none | optionalVector _ (some .true)
  | core .true | vector none | vector (some .true) => none

/-- `TLObject.read`, with the class of the object and its attributes, of a class whose names are
its own. -/
def Generated.read {ω : Type} (g : Generated) (objects : Raw.Combinator.Objects ω) :
    Raw.Reader (GeneratedClass × List (Raw.Combinator.Attr ω)) := fun b =>
  let (id, b) := Raw.readId b
  ((g.load id).filter fun c => c.combinator.OwnNames).bind fun c =>
      (c.code.mapM Code.arg?).bind fun args =>
    (Raw.Combinator.read objects (fun _ => none) args).map (fun attrs => (c, attrs)) b

def Ty.arg? : Ty → Option Flag → Option Raw.Combinator.Arg
  | core .true, some flag => some (.of (.trueFlag flag))
  | core (.of t), some flag => some (.of (.optionalCore flag t))
  | vector _ (.core (.of t)), some flag => some (.of (.optionalVector flag t))
  | boxed _, some flag | query, some flag => some (.of (.optionalBoxed flag))
  | core (.of t), none => some (.of (.core t))
  | vector _ (.core (.of t)), none => some (.of (.vector t))
  | boxed _, none | query, none => some (.of .boxed)
  | core .true, none | vector _ _, _ => none

def Parameter.arg? : Parameter → Option Raw.Combinator.Arg
  | flags number => some (.flags number)
  | of _ flag type => type.arg? flag

def Declaration.value (d : Declaration) : ℕ := hexLiteral ('0' :: 'x' :: d.id)

/-- Ids and files are those of one class, no id is that of a class of `raw.core`, and each argument
has a name of its own. -/
structure Distinct (files : List File) : Prop where
  ids : ((files.flatMap File.declarations).map fun d => d.2.value).Nodup
  not_core : ∀ d ∈ files.flatMap File.declarations, d.2.value ∉ coreIds
  paths : ((files.flatMap File.declarations).map fun d => (d.2.generated d.1).path).Nodup
  own : ∀ d ∈ files.flatMap File.declarations, (d.2.combinator d.1).OwnNames

section Objects

variable {p : Parameter} {files : List File} {d : List Char × Declaration}

theorem readNumber_numberText (number : Option (Fin 10)) :
    readNumber (numberText number) = some number := by
  cases number with
  | none => rfl
  | some n =>
    revert n
    decide

theorem flag?_flagText (flag : Flag) : (flagText flag).flag? = some flag := by
  rw [FlagText.flag?, flagText, readNumber_numberText, Decimal.readNat_toDigits]
  simp [Option.filter]

/-- The code for an argument is the piece that its type asks for. -/
theorem Parameter.arg?_code (p : Parameter) : p.code.arg? = p.arg? := by
  rcases p with number | ⟨name, flag, type⟩
  · change (readNumber (numberText number)).map Raw.Combinator.Arg.flags = _
    rw [readNumber_numberText]
    rfl
  · rcases type with (t | _) | ⟨bare, (t | _) | element⟩ | name | _ <;> cases flag <;>
      simp [Parameter.code, Ty.code, Code.arg?, Parameter.arg?, Ty.arg?, Element.coreType,
        flag?_flagText]

/-- Of a list whose keys are distinct, what a key finds is the one that has it. -/
theorem find?_of_nodup {α κ : Type} [DecidableEq κ] {key : α → κ} {l : List α} {a : α}
    (h : (l.map key).Nodup)
    (ha : a ∈ l) : (l.find? fun b => key b = key a) = some a := by
  induction l with
  | nil => cases ha
  | cons b l ih =>
    rw [List.map_cons, List.nodup_cons] at h
    rcases List.mem_cons.mp ha with rfl | ha
    · rw [List.find?_cons_of_pos (by simp)]
    · have hne : ¬ key b = key a := fun heq => h.1 (heq ▸ List.mem_map_of_mem ha)
      rw [List.find?_cons_of_neg (by simpa using hne), ih h.2 ha]

/-- **The constructor id of a declaration gives its class.** -/
theorem load_generated (h : Distinct files) (hd : d ∈ files.flatMap File.declarations) :
    (generated files).load d.2.value = some (d.2.generated d.1) := by
  have hmem : d.2.generated d.1 ∈ (generated files).classes.reverse :=
    List.mem_reverse.mpr (List.mem_map_of_mem (f := fun d => d.2.generated d.1) hd)
  have hids : ((generated files).classes.reverse.map fun c =>
      hexLiteral c.combinator.id).Nodup := by
    rw [List.map_reverse, List.nodup_reverse, generated, List.map_map]
    exact h.ids
  have hpaths : ((generated files).classes.reverse.map GeneratedClass.path).Nodup := by
    rw [List.map_reverse, List.nodup_reverse, generated, List.map_map]
    exact h.paths
  have hobject : (generated files).objects d.2.value = some (d.2.generated d.1) := by
    rw [Generated.objects, if_neg (h.not_core d hd)]
    exact find?_of_nodup hids hmem
  rw [Generated.load, hobject, Option.bind_some, find?_of_nodup hpaths hmem]
  exact Option.filter_some_pos (decide_eq_true rfl)

theorem mapM_code (ps : List Parameter) :
    (ps.map Parameter.code).mapM Code.arg? = ps.mapM Parameter.arg? := by
  induction ps with
  | nil => rfl
  | cons p ps ih => rw [List.map_cons, List.mapM_cons, List.mapM_cons, ih, Parameter.arg?_code]

theorem pong_ownNames : (pong.combinator typesName).OwnNames := by
  have hname : (pong.combinator typesName).name = ['P', 'o', 'n', 'g'] := rfl
  have hargs : (pong.combinator typesName).args.map Prod.fst =
      [['m', 's', 'g', '_', 'i', 'd'], ['p', 'i', 'n', 'g', '_', 'i', 'd']] := rfl
  have hfree : ∀ name ∈ (pong.combinator typesName).args.map Prod.fst, IsFree name := by
    rw [hargs]
    simp [IsFree, keywords, usedNames]
  refine ⟨?_, fun arg harg => hfree _ (List.mem_map_of_mem harg), ?_⟩
  · rw [hname]
    simp [IsFree, keywords, usedNames]
  · rw [hname, hargs]
    simp

theorem pongLines_distinct : Distinct [noLines, pongLines, noLines] where
  ids := List.nodup_singleton _
  not_core := List.forall_mem_singleton.mpr (by decide)
  paths := List.nodup_singleton _
  own := List.forall_mem_singleton.mpr pong_ownNames

/-- The answer 9 to the message 7. -/
def answer : List (Raw.Combinator.Field Unit) :=
  [.of (.core .long (7 : ℤ)), .of (.core .long (9 : ℤ))]

theorem forall_answer {P : Raw.Combinator.Slot Unit → Prop} (hmessage : P (.core .long (7 : ℤ)))
    (hping : P (.core .long (9 : ℤ))) : ∀ slot, .of slot ∈ answer → P slot := by
  intro slot hmem
  rcases List.mem_cons.mp hmem with heq | hmem
  · exact Raw.Combinator.Field.of.inj heq ▸ hmessage
  · exact Raw.Combinator.Field.of.inj (List.mem_singleton.mp hmem) ▸ hping

end Objects

end Pyrogram.Compiler
