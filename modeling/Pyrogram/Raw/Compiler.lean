import Pyrogram.Errors
import Pyrogram.Decimal
import Pyrogram.Regex
import Pyrogram.Raw.Combinator
import Mathlib.Data.List.TakeWhile

/-!
# The compiler of the schema

`compiler.start` reads the schema line by line, with a regular expression for each kind of line,
and searches a combinator's line for its arguments.  What it writes for a combinator is one class
in one file, with a piece of code for each argument that is chosen by the text of its type; the
table `objects` names the class of each constructor id.  A package has a directory for each
namespace, and an `__init__.py` in it, for which the directory has to be there.

The schema is ASCII, as the three files that are read are.

## Main definitions

* `sectionRe`, `layerRe`, `combinatorRe`, `argsRe`, `flagsRe2` — the regular expressions.
* `parse` — the combinators of the schema.
* `emit` — the code for an argument.
* `snake`, `GeneratedClass.path` — the file of a class.
* `start` — what is generated.
* `Generated.load` — the class that `objects` gives for a constructor id.
-/

namespace Pyrogram.Compiler

open Regex

/-! ### The regular expressions -/

/-- `\w` -/
def isWord (c : Char) : Bool := c.isAlphanum || c = '_'

/-- `\s` -/
def isSpace (c : Char) : Bool := decide (9 ≤ c.toNat ∧ c.toNat ≤ 13 ∨ 28 ≤ c.toNat ∧ c.toNat ≤ 32)

/-- `[\w.]` -/
def isQualified (c : Char) : Bool := isWord c || c = '.'

/-- `[0-9a-f]` -/
def isHex (c : Char) : Bool := c.isDigit || c ∈ ['a', 'b', 'c', 'd', 'e', 'f']

/-- `[\w<>.]` -/
def isResult (c : Char) : Bool := isWord c || c ∈ ['<', '>', '.']

/-- `[\w?!.<>#]` -/
def isType (c : Char) : Bool := isWord c || c ∈ ['?', '!', '.', '<', '>', '#']

/-- `---(\w+)---` -/
def sectionRe : Regex Char :=
  seq (lit ['-', '-', '-']) (seq (group 1 (plus (one isWord))) (lit ['-', '-', '-']))

/-- `//\sLAYER\s(\d+)` -/
def layerRe : Regex Char :=
  seq (lit ['/', '/']) (seq (one isSpace) (seq (lit ['L', 'A', 'Y', 'E', 'R'])
    (seq (one isSpace) (group 1 (plus (one Char.isDigit))))))

/-- `(?:.*)=\s([\w<>.]+);$` -/
def resultRe : Regex Char :=
  seq (star (one fun c => decide (c ≠ '\n'))) (seq (lit ['=']) (seq (one isSpace)
    (seq (group 3 (plus (one isResult)))
      (seq (lit [';']) (look fun l => decide (l = [] ∨ l.head? = some '\n'))))))

/-- `^([\w.]+)#([0-9a-f]+)\s(?:.*)=\s([\w<>.]+);$` -/
def combinatorRe : Regex Char :=
  seq (group 1 (plus (one isQualified))) (seq (lit ['#']) (seq (group 2 (plus (one isHex)))
    (seq (one isSpace) resultRe)))

/-- `[^{](\w+):([\w?!.<>#]+)` -/
def argsRe : Regex Char :=
  seq (one fun c => decide (c ≠ '{')) (seq (group 1 (plus (one isWord)))
    (seq (lit [':']) (group 2 (plus (one isType)))))

/-- `flags(\d?)\.(\d+)\?([\w<>.]+)` -/
def flagsRe2 : Regex Char :=
  seq (lit ['f', 'l', 'a', 'g', 's']) (seq (group 1 (opt (one Char.isDigit))) (seq (lit ['.'])
    (seq (group 2 (plus (one Char.isDigit))) (seq (lit ['?']) (group 3 (plus (one isResult)))))))

/-- `match.group`, of a group that the pattern has. -/
def captured (n : ℕ) (groups : List (ℕ × List Char)) : List Char := (groups.lookup n).getD []

/-! ### What they match -/

section Match

variable {l name id result type : List Char} {c : Char}

theorem forall_of_all {p : Char → Bool} {w : List Char} (h : w.all p = true) :
    ∀ c ∈ w, p c = true :=
  List.all_eq_true.mp h

theorem forall_not_of_all {p : Char → Bool} {w : List Char} (h : w.all (fun c => !p c) = true) :
    ∀ c ∈ w, p c = false :=
  fun c hc => Bool.not_eq_true' _ ▸ List.all_eq_true.mp h c hc

theorem first_sectionRe (hne : name ≠ []) (hname : ∀ c ∈ name, isWord c = true) :
    sectionRe.first (['-', '-', '-'] ++ (name ++ (['-', '-', '-'] ++ l))) = some [(1, name)] := by
  refine first_of_head? (t := (l, [(1, name)])) ?_
  refine head?_run_seq_of_some head?_run_lit (head?_run_seq_of_some ?_ head?_run_lit)
  exact head?_run_group_append (head?_run_plus_one hne hname (by rintro c ⟨⟩; rfl))

theorem first_sectionRe_cons (h : c ≠ '-') : sectionRe.first (c :: l) = none :=
  first_of_run (run_seq_of_left (run_lit_cons_of_ne h))

theorem first_layerRe (hne : name ≠ []) (hname : ∀ c ∈ name, c.isDigit = true) :
    layerRe.first (['/', '/', ' ', 'L', 'A', 'Y', 'E', 'R', ' '] ++ name) = some [(1, name)] := by
  refine first_of_head? (t := ([], [(1, name)])) ?_
  have hdigits := head?_run_group_append (n := 1)
    (head?_run_plus_one (l := []) (g := []) hne hname (by rintro c ⟨⟩))
  rw [List.append_nil] at hdigits
  refine head?_run_seq_of_some (head?_run_lit (w := ['/', '/'])) (head?_run_seq_of_some
    (congrArg List.head? (run_one_cons rfl)) (head?_run_seq_of_some
      (head?_run_lit (w := ['L', 'A', 'Y', 'E', 'R'])) (head?_run_seq_of_some ?_ hdigits)))
  exact congrArg List.head? (run_one_cons rfl)

theorem first_layerRe_cons (h : c ≠ '/') : layerRe.first (c :: l) = none :=
  first_of_run (run_seq_of_left (run_lit_cons_of_ne h))

theorem first_flagsRe2 {number index : List Char}
    (hnumber : number = [] ∨ ∃ c, number = [c] ∧ c.isDigit = true)
    (hindex : index ≠ []) (hdigits : ∀ c ∈ index, c.isDigit = true) (htype : type ≠ [])
    (hresult : ∀ c ∈ type, isResult c = true) :
    flagsRe2.first (['f', 'l', 'a', 'g', 's'] ++ (number ++ '.' :: (index ++ '?' :: type))) =
      some [(3, type), (2, index), (1, number)] := by
  refine first_of_head? (t := ([], [(3, type), (2, index), (1, number)])) ?_
  have hrest := head?_run_group_append (n := 3)
    (head?_run_plus_one (l := []) (g := [(2, index), (1, number)]) htype hresult (by rintro c ⟨⟩))
  rw [List.append_nil] at hrest
  refine head?_run_seq_of_some head?_run_lit (head?_run_seq_of_some (t := (_, [(1, number)])) ?_
    (head?_run_seq_of_some (head?_run_lit (w := ['.'])) (head?_run_seq_of_some
      (head?_run_group_append (head?_run_plus_one hindex hdigits (by rintro c ⟨⟩; rfl)))
      (head?_run_seq_of_some (head?_run_lit (w := ['?'])) hrest))))
  refine head?_run_group_append ?_
  rcases hnumber with rfl | ⟨c, rfl, hc⟩
  · rw [opt, head?_run_alt_right rfl]
    rfl
  · exact head?_run_alt_left (congrArg List.head? (run_one_cons hc))

theorem first_flagsRe2_of_not_mem (h : '?' ∉ type) : flagsRe2.first type = none := by
  refine first_eq_none fun t ht => h ?_
  -- what is taken before the question mark is a part of the text
  obtain ⟨u₁, hu₁, ht⟩ := mem_run_seq.mp ht
  obtain ⟨u₂, hu₂, ht⟩ := mem_run_seq.mp ht
  obtain ⟨u₃, hu₃, ht⟩ := mem_run_seq.mp ht
  obtain ⟨u₄, hu₄, ht⟩ := mem_run_seq.mp ht
  obtain ⟨u₅, hu₅, -⟩ := mem_run_seq.mp ht
  have hsuffix : u₄.1 <:+ type :=
    (suffix_of_mem_run hu₄).trans
      ((suffix_of_mem_run hu₃).trans ((suffix_of_mem_run hu₂).trans (suffix_of_mem_run hu₁)))
  refine hsuffix.subset ?_
  rw [(mem_run_lit.mp hu₅).1]
  exact List.mem_cons_self

theorem eq_of_append_cons_eq {a : Char} {u w x y : List Char} (h : u ++ a :: x = w ++ a :: y)
    (hx : a ∉ x)
    (hy : a ∉ y) : x = y := by
  rcases List.append_eq_append_iff.mp h with ⟨v, -, hv⟩ | ⟨v, -, hv⟩
  · cases v with
    | nil => exact (List.cons.inj hv).2
    | cons b v =>
      refine absurd ?_ hx
      rw [(List.cons.inj hv).2]
      exact List.mem_append_right v List.mem_cons_self
  · cases v with
    | nil => exact (List.cons.inj hv).2.symm
    | cons b v =>
      refine absurd ?_ hy
      rw [(List.cons.inj hv).2]
      exact List.mem_append_right v List.mem_cons_self

/-- The result stands after the last equals sign. -/
theorem head?_run_resultRe {u : List Char} {g : List (ℕ × List Char)} (hu : '\n' ∉ u)
    (hne : result ≠ [])
    (hresult : ∀ c ∈ result, isResult c = true) :
    (resultRe.run (u ++ '=' :: ' ' :: (result ++ [';']), g)).head? =
      some ([], (3, result) :: g) := by
  refine head?_run_of_forall ⟨([], (3, result) :: g), ?_⟩ fun t ht => ?_
  · refine mem_run_seq.mpr ⟨('=' :: ' ' :: (result ++ [';']), g),
      mem_run_star_one.mpr ⟨u, rfl, ?_, rfl⟩, ?_⟩
    · intro c hc
      exact decide_eq_true (fun h => hu (h ▸ hc))
    refine mem_run_seq.mpr ⟨(' ' :: (result ++ [';']), g), mem_run_lit.mpr ⟨rfl, rfl⟩, ?_⟩
    refine mem_run_seq.mpr ⟨(result ++ [';'], g), mem_run_one.mpr ⟨' ', rfl, rfl, rfl⟩, ?_⟩
    refine mem_run_seq.mpr ⟨([';'], (3, result) :: g),
      mem_run_group_iff.mpr ⟨result, g, rfl, ?_, rfl⟩, ?_⟩
    · exact mem_run_plus_one.mpr ⟨result, hne, rfl, hresult, rfl⟩
    exact mem_run_seq.mpr ⟨([], (3, result) :: g), mem_run_lit.mpr ⟨rfl, rfl⟩,
      mem_run_look.mpr ⟨rfl, rfl⟩⟩
  · obtain ⟨⟨l₁, g₁⟩, h₁, ht⟩ := mem_run_seq.mp ht
    obtain ⟨w, hw, -, hg₁⟩ := mem_run_star_one.mp h₁
    obtain ⟨⟨l₂, g₂⟩, h₂, ht⟩ := mem_run_seq.mp ht
    obtain ⟨hl₁, hg₂⟩ := mem_run_lit.mp h₂
    obtain ⟨⟨l₃, g₃⟩, h₃, ht⟩ := mem_run_seq.mp ht
    obtain ⟨c, hl₂, hc, hg₃⟩ := mem_run_one.mp h₃
    obtain ⟨⟨l₄, g₄⟩, h₄, ht⟩ := mem_run_seq.mp ht
    obtain ⟨word, g₅, hl₃, h₅, hg₄⟩ := mem_run_group_iff.mp h₄
    obtain ⟨word', -, hl₃', hword, hg₅⟩ := mem_run_plus_one.mp h₅
    obtain ⟨⟨l₅, g₆⟩, h₆, ht⟩ := mem_run_seq.mp ht
    obtain ⟨hl₄, hg₆⟩ := mem_run_lit.mp h₆
    obtain ⟨hend, rfl⟩ := mem_run_look.mp ht
    dsimp only at *
    subst hg₁ hg₂ hg₃ hg₅ hg₄ hg₆ hl₁ hl₂ hl₄
    obtain rfl : word = word' := List.append_cancel_right (hl₃.symm.trans hl₃')
    subst hl₃
    simp only [List.cons_append, List.nil_append] at hw
    have hwhole : u ++ '=' :: ' ' :: (result ++ [';']) = w ++ '=' :: c :: (word ++ ';' :: l₅) := hw
    -- the line has no end inside
    have hnil : l₅ = [] := by
      refine (of_decide_eq_true hend).resolve_right fun hhead => ?_
      have hmem : '\n' ∈ u ++ '=' :: ' ' :: (result ++ [';']) := by
        rw [hwhole]
        exact List.mem_append_right w (List.mem_cons_of_mem _ (List.mem_cons_of_mem _
          (List.mem_append_right word (List.mem_cons_of_mem _ (List.mem_of_mem_head? hhead)))))
      have hnot : '\n' ∉ result := fun h => absurd (hresult _ h) (by decide)
      simp [hu, hnot] at hmem
    subst hnil
    have hnotMem : ∀ {c : Char} {word : List Char}, isSpace c = true →
      (∀ c ∈ word, isResult c = true) →
        '=' ∉ c :: (word ++ [';']) := by
      intro c word hc hword hmem
      rcases List.mem_cons.mp hmem with rfl | hmem
      · exact absurd hc (by decide)
      · rcases List.mem_append.mp hmem with hmem | hmem
        · exact absurd (hword _ hmem) (by decide)
        · exact absurd hmem (by decide)
    have htail := eq_of_append_cons_eq hwhole (hnotMem rfl hresult) (hnotMem hc hword)
    rw [List.append_cancel_right (List.cons.inj htail).2]

theorem first_combinatorRe {u : List Char} (hname : name ≠ [])
    (hqualified : ∀ c ∈ name, isQualified c = true)
    (hid : id ≠ []) (hhex : ∀ c ∈ id, isHex c = true) (hu : '\n' ∉ u) (hne : result ≠ [])
    (hresult : ∀ c ∈ result, isResult c = true) :
    combinatorRe.first (name ++ '#' :: (id ++ ' ' :: (u ++ '=' :: ' ' :: (result ++ [';'])))) =
      some [(3, result), (2, id), (1, name)] := by
  refine first_of_head? (t := ([], [(3, result), (2, id), (1, name)])) ?_
  refine head?_run_seq_of_some (head?_run_group_append (head?_run_plus_one hname hqualified
    (by rintro c ⟨⟩; rfl)))
      (head?_run_seq_of_some (head?_run_lit (w := ['#'])) (head?_run_seq_of_some
      (head?_run_group_append (head?_run_plus_one hid hhex (by rintro c ⟨⟩; rfl)))
      (head?_run_seq_of_some ?_ (head?_run_resultRe hu hne hresult))))
  exact congrArg List.head? (run_one_cons rfl)

theorem first_combinatorRe_cons (h : isQualified c = false) :
    combinatorRe.first (c :: l) = none := by
  refine first_eq_none fun t ht => ?_
  obtain ⟨u, hu, -⟩ := mem_run_seq.mp ht
  obtain ⟨w, g, hw, hplus, -⟩ := mem_run_group_iff.mp hu
  obtain ⟨w', hne, hw', hall, -⟩ := mem_run_plus_one.mp hplus
  cases w' with
  | nil => exact hne rfl
  | cons d w' =>
    rw [(List.cons.inj hw').1, hall d List.mem_cons_self] at h
    cases h

/-- No argument begins where the next name does not end at a colon. -/
theorem run_argsRe_eq_nil {w : List Char} (hw : ∀ d ∈ w, isWord d = true)
    (hl : ∀ d ∈ l.head?, isWord d = false)
    (h : w = [] ∨ ∀ d ∈ l.head?, d ≠ ':') : argsRe.run (c :: (w ++ l), []) = [] := by
  refine List.eq_nil_iff_forall_not_mem.mpr fun t ht => ?_
  obtain ⟨u₁, h₁, ht⟩ := mem_run_seq.mp ht
  obtain ⟨d, hd, -, -⟩ := mem_run_one.mp h₁
  obtain ⟨u₂, h₂, ht⟩ := mem_run_seq.mp ht
  obtain ⟨w₁, g, hw₁, hplus, -⟩ := mem_run_group_iff.mp h₂
  obtain ⟨w₂, hne, hw₂, hword, -⟩ := mem_run_plus_one.mp hplus
  obtain ⟨u₃, h₃, -⟩ := mem_run_seq.mp ht
  have heq : w ++ l = w₂ ++ ':' :: u₃.1 := by
    have hcolon := (mem_run_lit.mp h₃).1
    rw [(List.cons.inj hd).2, hw₂]
    exact congrArg (w₂ ++ ·) hcolon
  obtain ⟨rfl, rfl⟩ := eq_of_append_eq heq hw hword hl (by rintro d ⟨⟩; rfl)
  exact h.elim hne fun hcolon => hcolon ':' rfl rfl

/-- No argument begins where there is no colon, up to a character that is none of a name. -/
theorem findall_argsRe_append {w : List Char} (hw : ':' ∉ w)
    (hl : ∀ c ∈ l.head?, isWord c = false ∧ c ≠ ':') :
    argsRe.findall (w ++ l) = argsRe.findall l := by
  induction w with
  | nil => rfl
  | cons c w ih =>
    obtain ⟨-, hw⟩ := not_or.mp (mt List.mem_cons.mpr hw)
    rw [List.cons_append, ← ih hw]
    refine findall_cons_of_run ?_
    -- the next name ends in the block, or where the block does
    have hhead : ∀ d ∈ (w.dropWhile isWord ++ l).head?, isWord d = false ∧ d ≠ ':' := by
      intro d hd
      cases hdrop : w.dropWhile isWord with
      | nil =>
        rw [hdrop] at hd
        exact hl d hd
      | cons a v =>
        rw [hdrop] at hd
        obtain rfl := Option.some.inj hd
        have hmem : a ∈ w := (List.dropWhile_suffix isWord).subset (hdrop ▸ List.mem_cons_self)
        refine ⟨?_, fun h => hw (h ▸ hmem)⟩
        have hnot := List.head_dropWhile_not isWord (l := w)
          (by rw [hdrop]; exact List.cons_ne_nil a v)
        simpa only [hdrop, List.head_cons] using hnot
    rw [← List.takeWhile_append_dropWhile (p := isWord) (l := w), List.append_assoc]
    exact run_argsRe_eq_nil (fun d hd => List.mem_takeWhile_imp hd) (fun d hd => (hhead d hd).1)
      (.inr fun d hd => (hhead d hd).2)

theorem findall_argsRe_of_not_mem (hl : ':' ∉ l) : argsRe.findall l = [] := by
  have := findall_argsRe_append (l := []) hl (by rintro c ⟨⟩)
  rwa [List.append_nil] at this

/-- An argument is found. -/
theorem findall_argsRe_arg (hc : c ≠ '{') (hne : name ≠ []) (hname : ∀ c ∈ name, isWord c = true)
    (htype : type ≠ [])
    (hall : ∀ c ∈ type, isType c = true) (hl : ∀ c ∈ l.head?, isType c = false) :
    argsRe.findall (c :: (name ++ ':' :: (type ++ l))) = [(2, type), (1, name)] ::
      argsRe.findall l := by
  have hhead : (argsRe.run (c :: (name ++ ':' :: (type ++ l)), [])).head? =
      some (l, [(2, type), (1, name)]) := by
    refine head?_run_seq_of_some ?_ (head?_run_seq_of_some (head?_run_group_append
      (head?_run_plus_one hne hname (by rintro c ⟨⟩; rfl)))
        (head?_run_seq_of_some (head?_run_lit (w := [':']))
        (head?_run_group_append (head?_run_plus_one htype hall hl))))
    exact congrArg List.head? (run_one_cons (p := fun c => decide (c ≠ '{')) (decide_eq_true hc))
  have heq : c :: (name ++ ':' :: (type ++ l)) = c :: (name ++ ':' :: type) ++ l := by simp
  rw [heq] at hhead ⊢
  exact findall_append hhead

end Match

/-! ### Reading the schema -/

structure Combinator where
  sectionName : Option (List Char)
  qualname : List Char
  nameSpace : List Char
  name : List Char
  id : List Char
  args : List (List Char × List Char)
  qualtype : List Char
  typespace : List Char
  type : List Char
  deriving DecidableEq, Repr

/-- `i[0].upper() + i[1:]` -/
def capitalized : List Char → Except Exc (List Char)
  | [] => .error (.other "IndexError")
  | c :: l => .ok (c.toUpper :: l)

/-- `"".join([i[0].upper() + i[1:] for i in s.split("_")])` -/
def camel (s : List Char) : Except Exc (List Char) := do
  let parts ← (s.splitOn '_').mapM capitalized
  return parts.flatten

/-- `re.sub(r"(.)([A-Z][a-z]+)", r"\1_\2", s)`, of a text of at most this length. -/
def markWords : ℕ → List Char → List Char
  | 0, _ | _, [] => []
  | _, [c] => [c]
  | n + 1, c :: d :: l =>
      if c ≠ '\n' ∧ d.isUpper ∧ (l.head?.any Char.isLower) then
        c :: '_' :: d :: (l.takeWhile Char.isLower ++ markWords n (l.dropWhile Char.isLower))
      else c :: markWords n (d :: l)

/-- `re.sub(r"([a-z0-9])([A-Z])", r"\1_\2", s)` -/
def markCapitals : List Char → List Char
  | [] => []
  | [c] => [c]
  | c :: d :: l =>
      if (c.isLower || c.isDigit) && d.isUpper then c :: '_' :: d :: markCapitals l
        else c :: markCapitals (d :: l)

/-- The name of a module, of a name of ASCII. -/
def snake (s : List Char) : List Char := (markCapitals (markWords s.length s)).map Char.toLower

/-- `s.split(".") if "." in s else ("", s)`, as a pair. -/
def splitName (s : List Char) : Except Exc (List Char × List Char) :=
  match s.splitOn '.' with
  | [name] => .ok ([], name)
  | [space, name] => .ok (space, name)
  | _ => .error (.valueError "too many values to unpack (expected 2)")

/-- `".".join([space, name]).lstrip(".")` -/
def qualified (space name : List Char) : List Char := (space ++ '.' :: name).dropWhile (· = '.')

/-- An argument's name, unless it is a keyword of Python. -/
def argName (name : List Char) : List Char :=
  if name = ['s', 'e', 'l', 'f'] then ['i', 's', '_', 's', 'e', 'l', 'f']
  else if name = ['f', 'r', 'o', 'm'] then ['f', 'r', 'o', 'm', '_', 'p', 'e', 'e', 'r']
  else name

/-- What has been read of the schema. -/
structure Schema where
  sectionName : Option (List Char)
  layer : Option (List Char)
  combinators : List Combinator
  deriving DecidableEq, Repr

def Schema.empty : Schema := ⟨none, none, []⟩

def Schema.readLine (schema : Schema) (line : List Char) : Except Exc Schema :=
  match sectionRe.first line with
  | some groups => .ok { schema with sectionName := some (captured 1 groups) }
  | none =>
    match layerRe.first line with
    | some groups => .ok { schema with layer := some (captured 1 groups) }
    | none =>
      match combinatorRe.first line with
      | none => .ok schema
      | some groups => do
          let (nameSpace, name) ← splitName (captured 1 groups)
          let name ← camel name
          let (typespace, type) ← splitName (captured 3 groups)
          let type ← camel type
          let combinator : Combinator :=
            { sectionName := schema.sectionName
              qualname := qualified nameSpace name
              nameSpace := nameSpace
              name := name
              id := '0' :: 'x' :: captured 2 groups
              args := (argsRe.findall line).map fun groups =>
                (argName (captured 1 groups), captured 2 groups)
              qualtype := qualified typespace type
              typespace := typespace
              type := type }
          return { schema with combinators := schema.combinators ++ [combinator] }

/-- Where `str.splitlines` ends a line. -/
def lineBreaks : List Char := ['\n', '\r', '\x0b', '\x0c', '\x1c', '\x1d', '\x1e']

/-- `str.splitlines` of what is read from a file in text mode, with the line so far. -/
def splitlinesFrom : List Char → List Char → List (List Char)
  | [], [] => []
  | line, [] => [line]
  | line, c :: text =>
      if c ∈ lineBreaks then line :: splitlinesFrom [] text else splitlinesFrom (line ++ [c]) text

def splitlines (text : List Char) : List (List Char) := splitlinesFrom [] text

/-- The loop of `start` over the lines. -/
def parse (text : List Char) : Except Exc Schema :=
  (splitlines text).foldlM Schema.readLine Schema.empty

/-! ### The code for an argument -/

/-- `CORE_TYPES` -/
inductive CoreType
  | of (t : Raw.Core)
  | true
  deriving DecidableEq, Repr

def CoreType.text : CoreType → List Char
  | of .int => ['i', 'n', 't']
  | of .long => ['l', 'o', 'n', 'g']
  | of .int128 => ['i', 'n', 't', '1', '2', '8']
  | of .int256 => ['i', 'n', 't', '2', '5', '6']
  | of .double => ['d', 'o', 'u', 'b', 'l', 'e']
  | of .bytes => ['b', 'y', 't', 'e', 's']
  | of .string => ['s', 't', 'r', 'i', 'n', 'g']
  | of .bool => ['B', 'o', 'o', 'l']
  | true => ['t', 'r', 'u', 'e']

def coreTypes : List CoreType :=
  [.of .int, .of .long, .of .int128, .of .int256, .of .double, .of .bytes, .of .string,
    .of .bool, .true]

/-- The core type of this name. -/
def CoreType.ofText? (s : List Char) : Option CoreType := coreTypes.find? fun t => t.text = s

/-- The name of a flags field and the bit, as they stand in the code. -/
structure FlagText where
  number : List Char
  index : List Char
  deriving DecidableEq, Repr

/-- The pieces of code for an argument; for a vector there is the core type of its elements, if
it has one. -/
inductive Code
  | flags (name : List Char)
  | trueFlag (flag : FlagText)
  | optionalCore (flag : FlagText) (t : CoreType)
  | optionalVector (flag : FlagText) (element : Option CoreType)
  | optionalBoxed (flag : FlagText)
  | core (t : CoreType)
  | vector (element : Option CoreType)
  | boxed
  deriving DecidableEq, Repr

/-- `"vector" in s.lower()` -/
def isVector (s : List Char) : Bool :=
  decide (['v', 'e', 'c', 't', 'o', 'r'] <:+: s.map Char.toLower)

/-- `s.split("<")[1][:-1]` -/
def vectorElement (s : List Char) : Except Exc (List Char) :=
  match s.splitOn '<' with
  | _ :: element :: _ => .ok element.dropLast
  | _ => .error (.other "IndexError")

/-- The code for the argument of this name and type. -/
def emit (name type : List Char) : Except Exc Code :=
  if ['f', 'l', 'a', 'g', 's'] <+: name ∧ type = ['#'] then .ok (.flags name)
  else
    match flagsRe2.first type with
    | some groups =>
        let flag : FlagText := ⟨captured 1 groups, captured 2 groups⟩
        let flagType := captured 3 groups
        match CoreType.ofText? flagType with
        | some .true => .ok (.trueFlag flag)
        | some t => .ok (.optionalCore flag t)
        | none =>
            if isVector flagType then
              (vectorElement type).map fun element =>
                .optionalVector flag (CoreType.ofText? element)
            else .ok (.optionalBoxed flag)
    | none =>
        match CoreType.ofText? type with
        | some t => .ok (.core t)
        | none =>
            if isVector type then (vectorElement type).map fun element =>
              .vector (CoreType.ofText? element)
            else .ok .boxed

/-! ### What is generated -/

/-- The value of a hexadecimal digit. -/
def hexDigit (c : Char) : ℕ := if c.isDigit then c.toNat - '0'.toNat else c.toNat - 'a'.toNat + 10

/-- The value of a literal that begins with `0x`. -/
def hexLiteral (s : List Char) : ℕ := (s.drop 2).foldl (fun n c => 16 * n + hexDigit c) 0

/-- The class of a combinator. -/
structure GeneratedClass where
  combinator : Combinator
  sectionName : List Char
  code : List Code
  deriving DecidableEq, Repr

/-- `module`; there is a namespace `updates`. -/
def moduleOf (name : List Char) : List Char :=
  snake (if name = ['U', 'p', 'd', 'a', 't', 'e', 's'] then ['U', 'p', 'd', 'a', 't', 'e', 's', 'T']
    else name)

/-- The file the class is written to: its package, the directory in it and the module. -/
def GeneratedClass.path (c : GeneratedClass) : List Char × List Char × List Char :=
  (c.sectionName, c.combinator.nameSpace, moduleOf c.combinator.name)

/-- What `types_to_constructors` and `types_to_functions` have the combinator under. -/
def Combinator.key (c : Combinator) : Except Exc (List Char) :=
  if ['V', 'e', 'c', 't', 'o', 'r'] <+: c.qualtype then vectorElement c.qualtype else .ok c.qualtype

/-- `"types"` -/
def typesName : List Char := ['t', 'y', 'p', 'e', 's']

/-- `"functions"` -/
def functionsName : List Char := ['f', 'u', 'n', 'c', 't', 'i', 'o', 'n', 's']

/-- `"base"` -/
def baseName : List Char := ['b', 'a', 's', 'e']

/-- The directory in `base` that is made for the type of a constructor. -/
def Combinator.typespaceOf (c : Combinator) : Except Exc (List Char) := do
  let (typespace, _) ← splitName (← c.key)
  return typespace

def generate (c : Combinator) : Except Exc GeneratedClass := do
  let code ← c.args.mapM fun arg => emit arg.1 arg.2
  match c.sectionName with
  | none => .error (.other "TypeError")
  | some sectionName => return ⟨c, sectionName, code⟩

/-- The directories of a package with these namespaces: one for each, and the package's own. -/
def HasDirectory (namespaces : List (List Char)) (nameSpace : List Char) : Prop :=
  nameSpace ∈ namespaces ∨ nameSpace = [] ∧ namespaces ≠ []

instance (namespaces : List (List Char)) (nameSpace : List Char) :
    Decidable (HasDirectory namespaces nameSpace) :=
  inferInstanceAs (Decidable (_ ∨ _))

/-- The namespaces of the classes of a section. -/
def namespacesOf (classes : List GeneratedClass) (sectionName : List Char) : List (List Char) :=
  (classes.filter fun c => c.sectionName = sectionName).map fun c => c.combinator.nameSpace

/-- Where each `__init__.py` goes there is a directory: for a constructor's namespace in `base` as
in `types`, and for any other combinator's in `functions`. -/
def HasDirectories (typespaces : List (List Char)) (classes : List GeneratedClass) : Prop :=
  ∀ c ∈ classes,
    if c.sectionName = typesName then
      HasDirectory (typespaces ++ namespacesOf classes baseName) c.combinator.nameSpace
    else HasDirectory (namespacesOf classes functionsName) c.combinator.nameSpace

instance (typespaces : List (List Char)) (classes : List GeneratedClass) :
    Decidable (HasDirectories typespaces classes) :=
  inferInstanceAs (Decidable (∀ c ∈ classes, _))

/-- The classes of `raw.core` in the table. -/
def coreIds : List ℕ :=
  [0xbc799737, 0x997275b5, 0x1cb5c415, 0x73f1f8dc, 0xae500895, 0x0949d9dc, 0x3072cfa1, 0x5bb8e511]

structure Generated where
  layer : Option (List Char)
  classes : List GeneratedClass
  deriving DecidableEq, Repr

def start (authKey sysMsgs mainApi : List Char) : Except Exc Generated := do
  let schema ← parse (authKey ++ sysMsgs ++ mainApi)
  let _ ← schema.combinators.mapM Combinator.key
  let typespaces ← (schema.combinators.filter fun c => c.sectionName = some typesName).mapM
    Combinator.typespaceOf
  let classes ← schema.combinators.mapM generate
  if HasDirectories typespaces classes then return ⟨schema.layer, classes⟩
  else .error (.other "FileNotFoundError")

/-- The class that `objects` names for the id; the last entry of an id counts. -/
def Generated.objects (g : Generated) (id : ℕ) : Option GeneratedClass :=
  if id ∈ coreIds then none else g.classes.reverse.find? fun c => hexLiteral c.combinator.id = id

/-- The class of the constructor id, once the packages are imported: the module of the class is
looked up, where the last class that was written to its file is, and the class in it by its name. -/
def Generated.load (g : Generated) (id : ℕ) : Option GeneratedClass :=
  (g.objects id).bind fun c =>
    (g.classes.reverse.find? fun c' => c'.path = c.path).filter fun c' => c'.combinator.name =
      c.combinator.name

/-! ### Names in the code -/

/-- The keywords of Python. -/
def keywords : List (List Char) :=
  [['F', 'a', 'l', 's', 'e'], ['N', 'o', 'n', 'e'], ['T', 'r', 'u', 'e'], ['a', 'n', 'd'],
    ['a', 's'], ['a', 's', 's', 'e', 'r', 't'], ['a', 's', 'y', 'n', 'c'],
    ['a', 'w', 'a', 'i', 't'], ['b', 'r', 'e', 'a', 'k'], ['c', 'l', 'a', 's', 's'],
    ['c', 'o', 'n', 't', 'i', 'n', 'u', 'e'], ['d', 'e', 'f'], ['d', 'e', 'l'],
    ['e', 'l', 'i', 'f'], ['e', 'l', 's', 'e'], ['e', 'x', 'c', 'e', 'p', 't'],
    ['f', 'i', 'n', 'a', 'l', 'l', 'y'], ['f', 'o', 'r'], ['f', 'r', 'o', 'm'],
    ['g', 'l', 'o', 'b', 'a', 'l'], ['i', 'f'], ['i', 'm', 'p', 'o', 'r', 't'], ['i', 'n'],
    ['i', 's'], ['l', 'a', 'm', 'b', 'd', 'a'], ['n', 'o', 'n', 'l', 'o', 'c', 'a', 'l'],
    ['n', 'o', 't'], ['o', 'r'], ['p', 'a', 's', 's'], ['r', 'a', 'i', 's', 'e'],
    ['r', 'e', 't', 'u', 'r', 'n'], ['t', 'r', 'y'], ['w', 'h', 'i', 'l', 'e'],
    ['w', 'i', 't', 'h'], ['y', 'i', 'e', 'l', 'd']]

/-- The names that stand for something in the class of a combinator. -/
def usedNames : List (List Char) :=
  [['b'], ['I', 'n', 't'], ['L', 'o', 'n', 'g'], ['I', 'n', 't', '1', '2', '8'],
    ['I', 'n', 't', '2', '5', '6'], ['B', 'o', 'o', 'l'], ['B', 'y', 't', 'e', 's'],
    ['S', 't', 'r', 'i', 'n', 'g'], ['D', 'o', 'u', 'b', 'l', 'e'], ['V', 'e', 'c', 't', 'o', 'r'],
    ['T', 'L', 'O', 'b', 'j', 'e', 'c', 't'], ['B', 'y', 't', 'e', 's', 'I', 'O'], ['I', 'D'],
    ['Q', 'U', 'A', 'L', 'N', 'A', 'M', 'E'], ['r', 'e', 'a', 'd'], ['w', 'r', 'i', 't', 'e']]

/-- A name of the code, that stands for nothing else there. -/
def IsFree (name : List Char) : Prop :=
  (∀ c ∈ name.head?, c.isDigit = false) ∧ name ∉ keywords ∧ name ∉ usedNames

instance (name : List Char) : Decidable (IsFree name) := inferInstanceAs (Decidable (_ ∧ _ ∧ _))

/-- Each argument has a name of its own, and so has the class. -/
def Combinator.OwnNames (c : Combinator) : Prop :=
  IsFree c.name ∧ (∀ arg ∈ c.args, IsFree arg.1) ∧ (c.name :: c.args.map Prod.fst).Nodup

instance (c : Combinator) : Decidable c.OwnNames := inferInstanceAs (Decidable (_ ∧ _ ∧ _))

end Pyrogram.Compiler
