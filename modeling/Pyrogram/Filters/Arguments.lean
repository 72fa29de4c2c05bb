import Mathlib.Data.List.Infix
import Mathlib.Data.List.TakeWhile
import Mathlib.Tactic.Common

/-!
# The arguments of a command

What follows a command is taken apart by `(["'])(.*?)(?<!\\)\1|(\S+)`: a quoted text, or a word.  A
quote that nothing closes is part of a word, so that what the arguments are depends on where the
search begins.

## Main definitions

* `Strings` — what Python's `str` and `re` know about characters.
* `arguments` — the arguments, without the backslashes before quotes.
* `Token` — one of the matches.
* `Boundary` — a match may end between two texts, or may not begin before the second.

## Main results

* `arguments_dropWhile` — white space in front makes no difference.
* `arguments_append_ne` — **anything else in front does**, where it ends at a boundary.
-/

namespace Pyrogram.Filters

/-! ### Strings -/

/-- `\s`, in ASCII. -/
def asciiSpace (c : Char) : Bool :=
  decide (9 ≤ c.toNat ∧ c.toNat ≤ 13 ∨ 28 ≤ c.toNat ∧ c.toNat ≤ 32)

structure Strings where
  lower : List Char → List Char
  /-- `\s` -/
  isSpace : Char → Bool
  /-- With `re.IGNORECASE` the first character of a pattern matches the second. -/
  ignoreCase : Char → Char → Bool
  isSpace_ascii : ∀ c, c.toNat < 128 → isSpace c = asciiSpace c
  /-- White space has no case, and neither has `@`. -/
  eq_of_ignoreCase : ∀ c d, ignoreCase c d = true → isSpace c = true ∨ isSpace d = true ∨ c = '@' ∨
    d = '@' → c = d

def isQuote (c : Char) : Bool := c = '\x22' || c = '\x27'

namespace Strings

variable (strings : Strings)

theorem isSpace_newline : strings.isSpace '\n' = true := strings.isSpace_ascii _ (by decide)

theorem isSpace_backslash : strings.isSpace '\x5c' = false := strings.isSpace_ascii _ (by decide)

theorem isSpace_quote {c : Char} (h : isQuote c = true) : strings.isSpace c = false := by
  rcases Bool.or_eq_true_iff.mp h with h | h
  · rw [of_decide_eq_true h]
    exact strings.isSpace_ascii _ (by decide)
  · rw [of_decide_eq_true h]
    exact strings.isSpace_ascii _ (by decide)

end Strings

theorem ne_backslash_of_isQuote {c : Char} (h : isQuote c = true) : c ≠ '\x5c' := by
  rintro rfl
  cases h

/-! ### The search -/

variable (strings : Strings)

/-- `(.*?)(?<!\\)\1`, with the character before: the text up to the quote, and what is left. -/
def closing (quote : Char) : Char → List Char → Option (List Char × List Char)
  | _, [] => none
  | before, c :: l =>
      if c = quote ∧ before ≠ '\x5c' then some ([], l)
      else if c = '\n' then none
      else (closing quote c l).map fun found => (c :: found.1, found.2)

/-- `(["'])(.*?)(?<!\\)\1` -/
def quoted : List Char → Option (List Char × List Char)
  | [] => none
  | c :: l => if isQuote c then closing c c l else none

/-- The groups of `command_re.finditer`, of a text of at most this length. -/
def finditer : ℕ → List Char → List (List Char)
  | 0, _ | _, [] => []
  | n + 1, c :: l =>
      match quoted (c :: l) with
      | some (text, rest) => text :: finditer n rest
      | none =>
          if strings.isSpace c then finditer n l
          else
            -- `(\S+)`
            (c :: l.takeWhile fun d => !strings.isSpace d) :: finditer n (l.dropWhile fun d =>
              !strings.isSpace d)

/-- `re.sub(r"\\([\"'])", r"\1", ...)` -/
def unescape : List Char → List Char
  | [] => []
  | [c] => [c]
  | c :: d :: l => if c = '\x5c' ∧ isQuote d then d :: unescape l else c :: unescape (d :: l)

/-- The groups of all matches. -/
def groups (text : List Char) : List (List Char) := finditer strings text.length text

def arguments (text : List Char) : List (List Char) := (groups strings text).map unescape

/-! ### Backslashes -/

theorem unescape_append {x y : List Char}
    (h : x.getLast? ≠ some '\x5c' ∨ ∀ c ∈ y.head?, isQuote c = false) :
    unescape (x ++ y) = unescape x ++ unescape y := by
  induction x using unescape.induct with
  | case1 => rfl
  | case2 c =>
    cases y with
    | nil => rfl
    | cons d y =>
      refine if_neg ?_
      rintro ⟨rfl, hquote⟩
      rcases h with h | h
      · exact h rfl
      · rw [h d rfl] at hquote
        cases hquote
  | case3 c d l hescaped ih =>
    rw [List.cons_append, List.cons_append, unescape, if_pos hescaped, unescape, if_pos hescaped,
      List.cons_append, ih]
    cases l with
    | nil => exact .inl nofun
    | cons e l => simpa using h
  | case4 c d l hescaped ih =>
    rw [List.cons_append, List.cons_append, unescape, if_neg hescaped, unescape, if_neg hescaped,
      List.cons_append, ← List.cons_append, ih]
    simpa using h

theorem unescape_eq_nil {x : List Char} : unescape x = [] ↔ x = [] := by
  cases x with
  | nil => exact Iff.rfl
  | cons c x =>
    refine iff_of_false ?_ (List.cons_ne_nil _ _)
    cases x with
    | nil => exact List.cons_ne_nil _ _
    | cons d x =>
      rw [unescape]
      split <;> exact List.cons_ne_nil _ _

variable {strings}

/-- No white space comes or goes. -/
theorem mem_unescape {c : Char} (hc : strings.isSpace c = true) {x : List Char} : c ∈ unescape x ↔
    c ∈ x := by
  have hbackslash : c ≠ '\x5c' := by
    rintro rfl
    rw [strings.isSpace_backslash] at hc
    cases hc
  fun_induction unescape x with
  | case1 => exact Iff.rfl
  | case2 d => exact Iff.rfl
  | case3 d e l hescaped ih =>
    simp only [List.mem_cons, ih, hescaped.1, hbackslash, false_or]
  | case4 d e l hescaped ih => simp only [List.mem_cons, ih]

/-! ### Quotes -/

/-- Nothing in this text, behind a quote that is open and the character `before`, closes it. -/
def Inside (quote : Char) : Char → List Char → Prop
  | _, [] => True
  | before, c :: l => ¬ (c = quote ∧ before ≠ '\x5c') ∧ Inside quote c l

theorem Inside.ne {quote before c : Char} {x y : List Char} (h : Inside quote before (x ++ c :: y))
    (hx : (before :: x).getLast? ≠ some '\x5c') : c ≠ quote := by
  induction x generalizing before with
  | nil =>
    rintro rfl
    exact h.1 ⟨rfl, fun hbefore => hx (by rw [hbefore]; rfl)⟩
  | cons d x ih => exact ih h.2 (by simpa using hx)

theorem closing_eq_some {quote before : Char} {l text rest : List Char}
    (h : closing quote before l = some (text, rest)) :
    l = text ++ quote :: rest ∧ Inside quote before text ∧
      (before :: text).getLast? ≠ some '\x5c' := by
  induction l generalizing before text with
  | nil => cases h
  | cons c l ih =>
    rw [closing] at h
    split at h
    · next hcloses =>
      cases h
      exact ⟨by rw [hcloses.1]; rfl, trivial, by simpa using hcloses.2⟩
    · next hopen =>
      split at h
      · cases h
      · obtain ⟨found, hfound, heq⟩ := Option.map_eq_some_iff.mp h
        cases heq
        obtain ⟨hl, hinside, hend⟩ := ih hfound
        exact ⟨by rw [hl, List.cons_append], ⟨hopen, hinside⟩, by simpa using hend⟩

theorem quoted_eq_some {l text rest : List Char} (h : quoted l = some (text, rest)) :
    ∃ quote, isQuote quote = true ∧ l = quote :: (text ++ quote :: rest) ∧ Inside quote quote text ∧
      (quote :: text).getLast? ≠ some '\x5c' := by
  cases l with
  | nil => cases h
  | cons c l =>
    obtain ⟨hquote, h⟩ := Option.ite_none_right_eq_some.mp h
    obtain ⟨rfl, hinside, hend⟩ := closing_eq_some h
    exact ⟨c, hquote, rfl, hinside, hend⟩

/-! ### Matches -/

variable (strings) in
/-- A match, what is taken of it, and what is left. -/
inductive Token : List Char → List Char → List Char → Prop
  | quoted {quote : Char} {text rest : List Char} (hquote : isQuote quote = true)
      (hinside : Inside quote quote text)
      (hend : (quote :: text).getLast? ≠ some '\x5c') : Token (quote :: text ++ [quote]) text rest
  | word {w rest : List Char} (hne : w ≠ []) (hword : ∀ c ∈ w, strings.isSpace c = false)
      (hrest : ∀ c ∈ rest.head?, strings.isSpace c = true) : Token w w rest

variable (strings) in
/-- A match that takes in the end of the first text begins with it. -/
def Boundary (s r : List Char) : Prop :=
  (∃ s' c, s = s' ++ [c] ∧
    (strings.isSpace c = true ∨ isQuote c = true ∧ s'.getLast? ≠ some '\x5c')) ∨
    ∀ c ∈ r.head?, strings.isSpace c = true

theorem Boundary.of_append {x z r : List Char} (h : Boundary strings (x ++ z) r) (hz : z ≠ []) :
    Boundary strings z r := by
  rcases h with ⟨s', c, hs, hc⟩ | h
  · obtain ⟨z', d, rfl⟩ : ∃ z' d, z = z' ++ [d] := ⟨_, _, (List.dropLast_append_getLast hz).symm⟩
    rw [← List.append_assoc] at hs
    obtain ⟨rfl, hd⟩ := List.append_inj' hs rfl
    obtain rfl := (List.cons.inj hd).1
    refine .inl ⟨z', d, rfl, hc.imp_right fun hquote => ⟨hquote.1, ?_⟩⟩
    rintro hlast
    refine hquote.2 ?_
    rw [List.getLast?_append, hlast, Option.some_or]
  · exact .inr h

namespace Token

variable {tok text rest : List Char}

theorem exists_cons (h : Token strings tok text rest) :
    ∃ c l, tok = c :: l ∧ strings.isSpace c = false := by
  cases h with
  | quoted hquote _ _ => exact ⟨_, _, rfl, strings.isSpace_quote hquote⟩
  | word hne hword _ =>
    obtain ⟨c, l, rfl⟩ := List.exists_cons_of_ne_nil hne
    exact ⟨c, l, rfl, hword c List.mem_cons_self⟩

theorem exists_concat (h : Token strings tok text rest) :
    ∃ l c, tok = l ++ [c] ∧ strings.isSpace c = false := by
  cases h with
  | quoted hquote _ _ => exact ⟨_, _, rfl, strings.isSpace_quote hquote⟩
  | word hne hword _ =>
    obtain ⟨l, c, rfl⟩ : ∃ l c, tok = l ++ [c] := ⟨_, _, (List.dropLast_append_getLast hne).symm⟩
    exact ⟨l, c, rfl, hword c List.mem_concat_self⟩

/-- A match ends at a boundary, whatever is before it. -/
theorem boundary (h : Token strings tok text rest) (s : List Char) :
    Boundary strings (s ++ tok) rest := by
  cases h with
  | @quoted quote _ _ hquote _ hend =>
    refine .inl ⟨s ++ quote :: text, quote, by simp, .inr ⟨hquote, ?_⟩⟩
    rwa [List.getLast?_append_of_ne_nil _ (List.cons_ne_nil _ _)]
  | word _ _ hrest => exact .inr hrest

/-- The end of a match is more than white space, and at a boundary. -/
theorem of_suffix {blank x z : List Char} (h : Token strings tok text rest)
    (hsuffix : blank ++ tok = x ++ z)
    (hz : z ≠ []) : (∃ c ∈ z, strings.isSpace c = false) ∧ Boundary strings z rest := by
  obtain ⟨l, c, rfl, hc⟩ := h.exists_concat
  obtain ⟨z', d, rfl⟩ : ∃ z' d, z = z' ++ [d] := ⟨_, _, (List.dropLast_append_getLast hz).symm⟩
  have hboundary := h.boundary blank
  rw [hsuffix] at hboundary
  rw [← List.append_assoc, ← List.append_assoc] at hsuffix
  obtain ⟨-, hlast⟩ := List.append_inj' hsuffix rfl
  obtain rfl := (List.cons.inj hlast).1
  exact ⟨⟨c, List.mem_concat_self, hc⟩, hboundary.of_append hz⟩

end Token

/-! ### The matches of a text -/

theorem length_of_quoted {l text rest : List Char} (h : quoted l = some (text, rest)) :
    rest.length < l.length := by
  obtain ⟨quote, -, rfl, -, -⟩ := quoted_eq_some h
  simp only [List.length_cons, List.length_append]
  omega

/-- Enough fuel is as good as more. -/
theorem finditer_eq_finditer {n m : ℕ} {l : List Char} (hn : l.length ≤ n) (hm : l.length ≤ m) :
    finditer strings n l = finditer strings m l := by
  induction n generalizing m l with
  | zero =>
    obtain rfl := List.length_eq_zero_iff.mp (Nat.le_zero.mp hn)
    cases m <;> rfl
  | succ n ih =>
    cases l with
    | nil => cases m <;> rfl
    | cons c l =>
      cases m with
      | zero => simp at hm
      | succ m =>
        simp only [List.length_cons] at hn hm
        have hdrop := (List.dropWhile_suffix (l := l) fun d => !strings.isSpace d).length_le
        unfold finditer
        split
        · next text rest hquoted =>
          have hlt := length_of_quoted hquoted
          simp only [List.length_cons] at hlt
          rw [ih (m := m) (by omega) (by omega)]
        · rw [ih (m := m) (by omega) (by omega), ih (m := m) (l := l.dropWhile _) (by omega)
            (by omega)]

theorem groups_of_quoted {l text rest : List Char} (h : quoted l = some (text, rest)) :
    groups strings l = text :: groups strings rest := by
  cases l with
  | nil => cases h
  | cons c l =>
    have hlt := length_of_quoted h
    rw [groups, List.length_cons, finditer, h]
    exact congrArg (text :: ·) (finditer_eq_finditer (Nat.le_of_lt_succ hlt) le_rfl)

theorem groups_cons_of_space {c : Char} (hc : strings.isSpace c = true) (l : List Char) :
    groups strings (c :: l) = groups strings l := by
  have hquoted : quoted (c :: l) = none := by
    refine if_neg fun hquote => ?_
    rw [strings.isSpace_quote hquote] at hc
    cases hc
  rw [groups, List.length_cons, finditer, hquoted]
  exact if_pos hc

theorem groups_cons_of_word {c : Char} {l : List Char} (hquoted : quoted (c :: l) = none)
    (hc : strings.isSpace c = false) :
    groups strings (c :: l) = ((c :: l).takeWhile fun d => !strings.isSpace d) ::
      groups strings ((c :: l).dropWhile fun d => !strings.isSpace d) := by
  have hdrop := (List.dropWhile_suffix (l := l) fun d => !strings.isSpace d).length_le
  have hpos : (!strings.isSpace c) = true := by rw [hc]; rfl
  rw [List.takeWhile_cons_of_pos (p := fun d => !strings.isSpace d) hpos,
    List.dropWhile_cons_of_pos (p := fun d => !strings.isSpace d) hpos, groups, List.length_cons,
      finditer, hquoted]
  simp only [hc, Bool.false_eq_true, if_false]
  exact congrArg (List.cons _) (finditer_eq_finditer hdrop le_rfl)

theorem groups_blank_append {blank : List Char} (h : ∀ c ∈ blank, strings.isSpace c = true)
    (l : List Char) :
    groups strings (blank ++ l) = groups strings l := by
  induction blank with
  | nil => rfl
  | cons c blank ih =>
    rw [List.forall_mem_cons] at h
    rw [List.cons_append, groups_cons_of_space h.1, ih h.2]

/-- **White space in front makes no difference.** -/
theorem arguments_dropWhile (l : List Char) : arguments strings (l.dropWhile strings.isSpace) =
    arguments strings l := by
  have hblank : ∀ c ∈ l.takeWhile strings.isSpace, strings.isSpace c = true :=
    fun c hc => List.mem_takeWhile_imp hc
  rw [arguments, arguments, ← groups_blank_append hblank, List.takeWhile_append_dropWhile]

theorem groups_eq_nil {l : List Char} (h : ∀ c ∈ l, strings.isSpace c = true) :
    groups strings l = [] := by
  rw [← List.append_nil l, groups_blank_append h]
  rfl

/-- Where there is more than white space, there is a first match. -/
theorem exists_token {l : List Char} (h : ∃ c ∈ l, strings.isSpace c = false) :
    ∃ blank tok text rest,
    l = blank ++ (tok ++ rest) ∧ (∀ c ∈ blank, strings.isSpace c = true) ∧
      Token strings tok text rest ∧
      groups strings l = text :: groups strings rest := by
  -- on the text: a blank is passed over, and a word or a quotation is taken
  induction l with
  | nil =>
    obtain ⟨c, hc, -⟩ := h
    cases hc
  | cons c l ih =>
    cases hquoted : quoted (c :: l) with
    | some found =>
      obtain ⟨text, rest⟩ := found
      obtain ⟨quote, hquote, hl, hinside, hend⟩ := quoted_eq_some hquoted
      exact ⟨[], _, text,
        rest, by simp [hl], nofun, .quoted hquote hinside hend, groups_of_quoted hquoted⟩
    | none =>
      cases hc : strings.isSpace c with
      | true =>
        obtain ⟨d, hd, hword⟩ := h
        have hmem : d ∈ l :=
          (List.mem_cons.mp hd).resolve_left (by rintro rfl; rw [hc] at hword; cases hword)
        obtain ⟨blank, tok, text, rest, hl, hblank, htoken, hgroups⟩ := ih ⟨d, hmem, hword⟩
        refine ⟨c :: blank, tok, text, rest, by rw [hl, List.cons_append], ?_, htoken, ?_⟩
        · exact List.forall_mem_cons.mpr ⟨hc, hblank⟩
        · rw [groups_cons_of_space hc, hgroups]
      | false =>
        refine ⟨[], _, _, _, (List.takeWhile_append_dropWhile ..).symm, nofun, .word ?_ ?_ ?_,
          groups_cons_of_word hquoted hc⟩
        · rw [List.takeWhile_cons_of_pos (by rw [hc]; rfl)]
          exact List.cons_ne_nil _ _
        · intro d hd
          simpa using List.mem_takeWhile_imp hd
        · intro d hd
          have hnot := List.head?_dropWhile_not (fun d => !strings.isSpace d) (c :: l)
          rw [Option.mem_def.mp hd] at hnot
          simpa using hnot

/-! ### Something in front -/

theorem unescape_append_quote {l : List Char} (h : l.getLast? ≠ some '\x5c') (c : Char) :
    unescape (l ++ [c]) = unescape l ++ [c] := unescape_append (.inl h)

/-- A match is as long as what is taken of it. -/
theorem Token.length_unescape_le {tok text rest : List Char} (h : Token strings tok text rest) :
    (unescape text).length ≤ (unescape tok).length := by
  cases h with
  | @quoted quote _ _ hquote _ hend =>
    have hopening : unescape (quote :: text) = [quote] ++ unescape text :=
      unescape_append (x := [quote])
        (.inl fun h => ne_backslash_of_isQuote hquote (Option.some.inj h))
    rw [unescape_append_quote hend, hopening]
    simp only [List.length_append]
    omega
  | word => exact le_rfl

/-- A character that ends the text in front of a match, or a boundary before it, is no backslash. -/
theorem ne_backslash_of_boundary {c : Char} {s : List Char}
    (h : strings.isSpace c = true ∨ isQuote c = true ∧ s.getLast? ≠ some '\x5c') : c ≠ '\x5c' := by
  rcases h with h | ⟨h, -⟩
  · rintro rfl
    rw [strings.isSpace_backslash] at h
    cases h
  · exact ne_backslash_of_isQuote h

section Front

variable {tok' text text' s blank rest w : List Char} {quote : Char}

/-- A match right behind the end of the text in front begins at the boundary. -/
theorem Token.last_of_boundary (h' : Token strings tok' text' rest)
    (h : Boundary strings s (tok' ++ rest)) :
    ∃ s' c, s = s' ++ [c] ∧
      (strings.isSpace c = true ∨ isQuote c = true ∧ s'.getLast? ≠ some '\x5c') := by
  obtain ⟨d, l, rfl, hd⟩ := h'.exists_cons
  refine h.resolve_right fun hhead => ?_
  rw [hhead d rfl] at hd
  cases hd

/-- A longer word says more. -/
theorem Token.unescape_ne_of_word (h' : Token strings tok' text' rest) (hs : s ≠ [])
    (hboundary : Boundary strings s (tok' ++ rest)) : unescape (s ++ tok') ≠ unescape text' := by
  obtain ⟨s', c, rfl, hc⟩ := h'.last_of_boundary hboundary
  have hfront : (s' ++ [c]).getLast? ≠ some '\x5c' := by
    rw [List.getLast?_concat]
    exact fun h => ne_backslash_of_boundary hc (Option.some.inj h)
  intro heq
  have hlength := congrArg List.length heq
  have hpos := List.length_pos_iff.mpr (unescape_eq_nil.not.mpr hs)
  have hle := h'.length_unescape_le
  rw [unescape_append (.inl hfront), List.length_append] at hlength
  omega

/-- The quote that closes a text has not opened another. -/
theorem Inside.not_opened (hinside : Inside quote quote (s ++ (blank ++ quote :: w)))
    (hblank : ∀ c ∈ blank, strings.isSpace c = true)
    (hlast : blank = [] → ∃ s' c, quote :: s = s' ++ [c] ∧
      (strings.isSpace c = true ∨ isQuote c = true ∧ s'.getLast? ≠ some '\x5c')) : False := by
  rw [← List.append_assoc] at hinside
  refine hinside.ne ?_ rfl
  rcases List.eq_nil_or_concat blank with rfl | ⟨b, c, rfl⟩
  · obtain ⟨s', c, hs', hc⟩ := hlast rfl
    rw [List.append_nil, hs', List.getLast?_concat]
    exact fun h => ne_backslash_of_boundary hc (Option.some.inj h)
  · rw [List.concat_eq_append] at hblank ⊢
    rw [← List.append_assoc, ← List.cons_append, List.getLast?_concat]
    intro h
    exact ne_backslash_of_boundary (s := []) (.inl (hblank c List.mem_concat_self))
      (Option.some.inj h)

/-- A quoted text does not say the same as a word in it that ends with the quote. -/
theorem Inside.unescape_ne (hinside : Inside quote quote (s ++ (blank ++ w)))
    (hend : (quote :: (s ++ (blank ++ w))).getLast? ≠ some '\x5c')
    (hword : ∀ c ∈ w ++ [quote], strings.isSpace c = false)
    (hblank : ∀ c ∈ blank, strings.isSpace c = true)
    (hlast : blank = [] → ∃ s' c, quote :: s = s' ++ [c] ∧
      (strings.isSpace c = true ∨ isQuote c = true ∧ s'.getLast? ≠ some '\x5c')) :
    unescape (s ++ (blank ++ w)) ≠ unescape (w ++ [quote]) := by
  intro heq
  -- there is no white space on either side
  have hno_space : ∀ c ∈ s ++ (blank ++ w), strings.isSpace c = false := by
    intro c hc
    cases hspace : strings.isSpace c with
    | false => rfl
    | true =>
      have hmem := (mem_unescape hspace).mpr hc
      rw [heq, mem_unescape hspace] at hmem
      rw [hword c hmem] at hspace
      cases hspace
  have hnil : blank = [] := List.eq_nil_iff_forall_not_mem.mpr fun c hc => by
    have hspace := hblank c hc
    rw [hno_space c (by simp [hc])] at hspace
    cases hspace
  subst hnil
  have hw : w.getLast? ≠ some '\x5c' := by
    intro h
    refine hend ?_
    rw [List.nil_append, ← List.cons_append, List.getLast?_append, h, Option.some_or]
  rw [unescape_append_quote hw] at heq
  obtain ⟨s', c, hs', hc⟩ := hlast rfl
  rcases List.eq_nil_or_concat s with rfl | ⟨t, c', rfl⟩
  · have hlength := congrArg List.length heq
    simp at hlength
  -- in front there is a quote of the other kind, which one side has once more than the other
  · rw [List.concat_eq_append] at *
    rw [← List.cons_append] at hs'
    obtain ⟨rfl, heq'⟩ := List.append_inj' hs' rfl
    obtain rfl : c' = c := (List.cons.inj heq').1
    rename' c' => c
    have hquote := hc.resolve_left (by rw [hno_space c (by simp)]; exact Bool.false_ne_true)
    have hne : c ≠ quote := by
      refine Inside.ne (x := t) (y := w) ?_ hquote.2
      simpa using hinside
    have ht : t.getLast? ≠ some '\x5c' := by
      intro h
      exact hquote.2 (by rw [List.getLast?_cons, h]; rfl)
    have hfront : (t ++ [c]).getLast? ≠ some '\x5c' := by
      rw [List.getLast?_concat]
      exact fun h => ne_backslash_of_boundary hc (Option.some.inj h)
    have hcount := congrArg (List.count c) heq
    have hzero : List.count c [quote] = 0 := List.count_eq_zero.mpr (by simpa using hne)
    rw [List.nil_append, unescape_append (.inl hfront), unescape_append_quote ht, List.count_append,
      List.count_append, List.count_append, List.count_singleton_self, hzero] at hcount
    omega

/-- Two matches that end at the same place do not say the same. -/
theorem Token.unescape_ne (h : Token strings (s ++ (blank ++ tok')) text rest)
    (h' : Token strings tok' text' rest)
    (hs : s ≠ []) (hblank : ∀ c ∈ blank, strings.isSpace c = true)
    (hboundary : Boundary strings s (blank ++ (tok' ++ rest))) :
    unescape text ≠ unescape text' := by
  generalize htok : s ++ (blank ++ tok') = tok at h
  -- a word holds no blank, so it is cut within itself
  cases h with
  | word _ hword _ =>
    have hnil : blank = [] := List.eq_nil_iff_forall_not_mem.mpr fun c hc => by
      have hspace := hblank c hc
      rw [hword c (by rw [← htok]; simp [hc])] at hspace
      cases hspace
    subst hnil htok
    exact h'.unescape_ne_of_word hs hboundary
  -- a quotation is cut behind its first sign, and the rest is no quotation of the same text
  | @quoted quote _ _ hquote hinside hend =>
    obtain ⟨e, t, rfl⟩ := List.exists_cons_of_ne_nil hs
    obtain ⟨rfl, htok⟩ := List.cons.inj htok
    have hlast : blank = [] → ∃ s' c, e :: t = s' ++ [c] ∧
        (strings.isSpace c = true ∨ isQuote c = true ∧ s'.getLast? ≠ some '\x5c') := by
      rintro rfl
      exact h'.last_of_boundary hboundary
    cases h' with
    | @quoted quote' text' _ hquote' hinside' hend' =>
      have htok : (t ++ (blank ++ quote' :: text')) ++ [quote'] = text ++ [e] := by simpa using htok
      obtain ⟨rfl, heq⟩ := List.append_inj' htok rfl
      obtain rfl := (List.cons.inj heq).1
      exact (hinside.not_opened hblank hlast).elim
    | word hne hword hrest =>
      obtain ⟨w, d, rfl⟩ : ∃ w d, tok' = w ++ [d] := ⟨_, _, (List.dropLast_append_getLast hne).symm⟩
      have htok : (t ++ (blank ++ w)) ++ [d] = text ++ [e] := by simpa using htok
      obtain ⟨rfl, heq⟩ := List.append_inj' htok rfl
      obtain rfl := (List.cons.inj heq).1
      exact hinside.unescape_ne hend hword hblank hlast

end Front

/-- **Anything else in front makes a difference**, where it ends at a boundary: of the first matches
one ends before the other, or they do not say the same. -/
theorem arguments_append_ne {s r : List Char} (hs : ∃ c ∈ s, strings.isSpace c = false)
    (hboundary : Boundary strings s r) :
    arguments strings (s ++ r) ≠ arguments strings r := by
  induction hlength : r.length using Nat.strongRecOn generalizing s r with
  | ind n ih =>
    obtain ⟨e, he, hword⟩ := hs
    obtain ⟨blank, tok, text, rest, hsplit, hblank, htoken, hgroups⟩ :=
      exists_token (l := s ++ r) ⟨e, List.mem_append_left r he, hword⟩
    by_cases hr : ∃ c ∈ r, strings.isSpace c = false
    · obtain ⟨blank', tok', text', rest', hsplit', hblank', htoken', hgroups'⟩ := exists_token hr
      rw [arguments, arguments, hgroups, hgroups', List.map_cons, List.map_cons]
      intro heq
      obtain ⟨htext, hrest⟩ := List.cons.inj heq
      obtain ⟨l, c, htok', hc⟩ := htoken'.exists_concat
      have hlt : rest'.length < n := by
        rw [← hlength, hsplit', htok']
        simp only [List.length_append, List.length_cons, List.length_nil]
        omega
      -- the same end
      have hsame : blank ++ tok = s ++ (blank' ++ tok') → rest = rest' → False := by
        rintro hfirst rfl
        rcases List.append_eq_append_iff.mp hfirst with ⟨x, rfl, rfl⟩ | ⟨x, rfl, -⟩
        · have hx : x ≠ [] := by
            rintro rfl
            rw [List.append_nil] at he
            rw [hblank e he] at hword
            cases hword
          rw [hsplit'] at hboundary
          exact htoken.unescape_ne htoken' hx hblank' (hboundary.of_append hx) htext
        · rw [hblank e (List.mem_append_left x he)] at hword
          cases hword
      rw [← List.append_assoc] at hsplit hsplit'
      rcases List.append_eq_append_iff.mp hsplit with ⟨j, hj, hr'⟩ | ⟨x, -, hx⟩
      · rcases List.append_eq_append_iff.mp (hr'.symm.trans hsplit') with ⟨z, hz, hrest_eq⟩ | ⟨z,
          hz, hrest_eq⟩
        · by_cases hnil : z = []
          · subst hnil
            exact hsame (by rw [hj, ← List.append_nil j, ← hz]) hrest_eq
          · obtain ⟨hmore, hend⟩ := htoken'.of_suffix hz hnil
            exact ih _ hlt hmore hend rfl (by rw [← hrest_eq]; exact hrest)
        · by_cases hnil : z = []
          · subst hnil
            exact hsame (by rw [hj, hz, List.append_nil]) hrest_eq.symm
          · obtain ⟨hmore, hend⟩ :=
              htoken.of_suffix (hj.trans (by rw [hz, ← List.append_assoc])) hnil
            refine ih _ (Nat.lt_of_le_of_lt ?_ hlt) hmore hend rfl
              (by rw [← hrest_eq]; exact hrest.symm)
            rw [hrest_eq, List.length_append]
            exact Nat.le_add_left ..
      -- the first match ends in the text in front
      · refine ih _ hlt (s := x ++ blank' ++ tok') ⟨c, ?_, hc⟩ (htoken'.boundary _) rfl ?_
        · simp [htok']
        · rw [List.append_assoc, List.append_assoc, ← List.append_assoc blank', ← hsplit', ← hx]
          exact hrest
    · have hnil : groups strings r = [] := groups_eq_nil (by simpa using hr)
      rw [arguments, arguments, hgroups, hnil]
      exact List.cons_ne_nil _ _

end Pyrogram.Filters
