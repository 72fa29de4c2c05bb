import Pyrogram.Filters.Arguments
import Pyrogram.Regex
import Mathlib.Data.Finset.Basic
import Mathlib.Data.Finset.Dedup
import Mathlib.Data.List.Destutter

/-!
# Commands

`filters.command` keeps its commands and its prefixes in sets.  For each prefix, and for each
command behind it, it tries a regular expression at the start of the text, and the first that
matches is taken: `message.command` is that command and its arguments.  A set is gone through in
some order, which may be another one in the next process.

## Main definitions

* `Str.slice` — what is left of a text where some UTF-16 units are cut off.
* `command`, `CommandFilter.func` — the filter, and its run over a message.
* `Leaves` — a text begins with a command, and this is behind it.
* `Stands` — a command stands behind a prefix at the start of a text.
* `OrderIndependent` — the order of the sets makes no difference.

## Main results

* `findSome?_iterates_iff` — the first result is the same in every order iff there are no two
  results.
* `first_matchRe_iff`, `remove_subRe` — what the two patterns match is what `Leaves` says.
* `matched_iff` — whether a message is a command never depends on the order.
* `orderIndependent_iff` — **when `message.command` does not depend on it**.
-/

namespace Pyrogram.Filters

open Regex

/-! ### Sets in some order -/

/-- The set may be gone through in this order. -/
def Iterates {α : Type*} [DecidableEq α] (l : List α) (s : Finset α) : Prop :=
  l.Nodup ∧ l.toFinset = s

section Iterates

variable {α β : Type*} [DecidableEq α] {s : Finset α} {l : List α}

theorem Iterates.mem_iff (h : Iterates l s) {a : α} : a ∈ l ↔ a ∈ s := by
  rw [← h.2, List.mem_toFinset]

theorem exists_iterates (s : Finset α) : ∃ l, Iterates l s :=
  ⟨s.toList, s.nodup_toList, s.toList_toFinset⟩

/-- Any element may be the first. -/
theorem exists_iterates_cons {a : α} (h : a ∈ s) : ∃ l, Iterates (a :: l) s := by
  obtain ⟨l, hnodup, hl⟩ := exists_iterates (s.erase a)
  have ha : a ∉ l := by
    rw [← List.mem_toFinset, hl]
    exact Finset.notMem_erase a s
  refine ⟨l, List.nodup_cons.mpr ⟨ha, hnodup⟩, ?_⟩
  rw [List.toFinset_cons, hl, Finset.insert_erase h]

theorem findSome?_isSome_iterates (h : Iterates l s) {f : α → Option β} :
    (l.findSome? f).isSome ↔ ∃ a ∈ s, (f a).isSome := by
  simp only [List.findSome?_isSome_iff, h.mem_iff]

theorem exists_of_findSome?_iterates (h : Iterates l s) {f : α → Option β} {b : β}
    (hb : l.findSome? f = some b) :
    ∃ a ∈ s, f a = some b := by
  obtain ⟨a, ha, hfa⟩ := List.exists_of_findSome?_eq_some hb
  exact ⟨a, h.mem_iff.mp ha, hfa⟩

/-- **The first result of two loops is the same in every order iff there are no two results.** -/
theorem findSome?_iterates_iff {γ : Type*} [DecidableEq β] {t : Finset β} (f : α → β → Option γ) :
    (∀ l l' k k', Iterates l s → Iterates l' s → Iterates k t → Iterates k' t →
        (l.findSome? fun a => k.findSome? (f a)) = l'.findSome? fun a => k'.findSome? (f a)) ↔
      ∀ a ∈ s, ∀ b ∈ t, ∀ a' ∈ s, ∀ b' ∈ t, ∀ c c', f a b = some c → f a' b' = some c' →
        c = c' := by
  constructor
  -- each of the two may come first in its iteration
  · intro h a ha b hb a' ha' b' hb' c c' hc hc'
    obtain ⟨l, hl⟩ := exists_iterates_cons ha
    obtain ⟨l', hl'⟩ := exists_iterates_cons ha'
    obtain ⟨k, hk⟩ := exists_iterates_cons hb
    obtain ⟨k', hk'⟩ := exists_iterates_cons hb'
    have hfirst := h _ _ _ _ hl hl' hk hk'
    simp only [List.findSome?_cons, hc, hc'] at hfirst
    exact Option.some.inj hfirst
  · intro h l l' k k' hl hl' hk hk'
    have hresult : ∀ {l k c}, Iterates l s → Iterates k t →
      (l.findSome? fun a => k.findSome? (f a)) = some c →
        ∃ a ∈ s, ∃ b ∈ t, f a b = some c := by
      intro l k c hl hk hc
      obtain ⟨a, ha, hc⟩ := exists_of_findSome?_iterates hl hc
      exact ⟨a, ha, exists_of_findSome?_iterates hk hc⟩
    have hsome : (l.findSome? fun a => k.findSome? (f a)).isSome ↔
        (l'.findSome? fun a => k'.findSome? (f a)).isSome := by
      simp only [findSome?_isSome_iterates hl, findSome?_isSome_iterates hl',
        findSome?_isSome_iterates hk, findSome?_isSome_iterates hk']
    -- whatever is found first was found for some pair, and all pairs agree
    cases hc : l.findSome? fun a => k.findSome? (f a) with
    | none =>
      rw [hc] at hsome
      exact (Option.not_isSome_iff_eq_none.mp fun h' => Bool.false_ne_true (hsome.mpr h')).symm
    | some c =>
      rw [hc] at hsome
      obtain ⟨c', hc'⟩ := Option.isSome_iff_exists.mp (hsome.mp rfl)
      obtain ⟨a, ha, b, hb, hab⟩ := hresult hl hk hc
      obtain ⟨a', ha', b', hb', hab'⟩ := hresult hl' hk' hc'
      rw [hc', h a ha b hb a' ha' b' hb' c c' hab hab']

end Iterates

/-! ### Texts -/

/-- The UTF-16 units of a code point. -/
def utf16Units (c : Char) : ℕ := if c.toNat > 0xFFFF then 2 else 1

/-- Which character each offset lands in; the first is the character of this index. -/
def characterIndexAtOffset : ℕ → List Char → List ℕ
  | _, [] => []
  | i, c :: l => List.replicate (utf16Units c) i ++ characterIndexAtOffset (i + 1) l

/-- `Str.__getitem__` of the slice from `start` on; `groupby` drops the repeats. -/
def Str.slice (text : List Char) (start : ℕ) : List Char :=
  (((characterIndexAtOffset 0 text).drop start).destutter (· ≠ ·)).filterMap (text[·]?)

theorem characterIndexAtOffset_cons (i : ℕ) (c : Char) (l : List Char) :
    characterIndexAtOffset i (c :: l) = i :: characterIndexAtOffset (i + 1) l ∨
      characterIndexAtOffset i (c :: l) = i :: i :: characterIndexAtOffset (i + 1) l := by
  rw [characterIndexAtOffset, utf16Units]
  split
  · exact .inr rfl
  · exact .inl rfl

/-- From one character on, each is there once. -/
theorem destutter'_characterIndexAtOffset (i : ℕ) (l : List Char) :
    (characterIndexAtOffset (i + 1) l).destutter' (· ≠ ·) i = List.range' i (l.length + 1) := by
  induction l generalizing i with
  | nil => rfl
  | cons c l ih =>
    have hne : i ≠ i + 1 := (Nat.succ_ne_self i).symm
    rw [List.length_cons, List.range'_succ, ← ih]
    rcases characterIndexAtOffset_cons (i + 1) c l with h | h
    · rw [h, List.destutter'_cons_pos _ hne]
    · rw [h, List.destutter'_cons_pos _ hne, List.destutter'_cons_neg _ (not_not_intro rfl)]

/-- The characters that are left are those from one of them on. -/
theorem exists_destutter_drop (i n : ℕ) (l : List Char) : ∃ k ≤ l.length,
    ((characterIndexAtOffset i l).drop n).destutter (· ≠ ·) = List.range' (i + k)
    (l.length - k) := by
  induction l generalizing i n with
  | nil => exact ⟨0, le_rfl, by simp [characterIndexAtOffset]⟩
  | cons c l ih =>
    have hwhole : (i :: characterIndexAtOffset (i + 1) l).destutter (· ≠ ·) =
        List.range' (i + 0) ((c :: l).length - 0) :=
      destutter'_characterIndexAtOffset i l
    have hnext : ∀ n, ∃ k ≤ (c :: l).length, ((characterIndexAtOffset (i + 1) l).drop n).destutter
      (· ≠ ·) =
        List.range' (i + k) ((c :: l).length - k) := by
      intro n
      obtain ⟨k, hk, hdrop⟩ := ih (i + 1) n
      refine ⟨k + 1, Nat.succ_le_succ hk, ?_⟩
      rw [hdrop, List.length_cons, Nat.add_sub_add_right, Nat.add_assoc, Nat.add_comm 1]
    rcases characterIndexAtOffset_cons i c l with h | h
    · rw [h]
      cases n with
      | zero => exact ⟨0, Nat.zero_le _, hwhole⟩
      | succ n => exact hnext n
    · rw [h]
      cases n with
      | zero =>
        refine ⟨0, Nat.zero_le _, ?_⟩
        rw [← hwhole]
        exact List.destutter'_cons_neg _ (not_not_intro rfl)
      | succ n =>
        cases n with
        -- a cut inside of a character leaves all of it
        | zero => exact ⟨0, Nat.zero_le _, hwhole⟩
        | succ n => exact hnext n

theorem filterMap_range' {α : Type*} {l text : List α} {k : ℕ} (h : text.drop k = l) :
    (List.range' k l.length).filterMap (text[·]?) = l := by
  induction l generalizing k with
  | nil => rfl
  | cons a l ih =>
    have hhead : text[k]? = some a := by
      rw [← List.head?_drop, h]
      rfl
    have htail : text.drop (k + 1) = l := by
      rw [← List.tail_drop, h]
      rfl
    rw [List.length_cons, List.range'_succ, List.filterMap_cons_some hhead, ih htail]

/-- **What is left is the end of the text.** -/
theorem Str.slice_suffix (text : List Char) (start : ℕ) : Str.slice text start <:+ text := by
  obtain ⟨k, hk, hdrop⟩ := exists_destutter_drop 0 start text
  have hslice : Str.slice text start = text.drop k := by
    rw [Str.slice, hdrop, Nat.zero_add, ← List.length_drop]
    exact filterMap_range' rfl
  rw [hslice]
  exact List.drop_suffix k text

/-- A prefix outside the Basic Multilingual Plane stays. -/
example : Str.slice "🔥start".toList 1 = "🔥start".toList := by decide

/-! ### The patterns -/

/-- An escaped string. -/
def escaped (same : Char → Char → Bool) : List Char → Regex Char
  | [] => empty
  | c :: l => seq (one (same c)) (escaped same l)

/-- `(?:@?{escaped_username})` -/
def mentionRe (same : Char → Char → Bool) (username : List Char) : Regex Char :=
  seq (opt (lit ['@'])) (escaped same username)

/-- `(?:{escaped_command}(?:@?{escaped_username})?)` -/
def commandRe (same : Char → Char → Bool) (cmd username : List Char) : Regex Char :=
  seq (escaped same cmd) (opt (mentionRe same username))

/-- `$` -/
def dollar : Regex Char := look fun l => decide (l = [] ∨ l = ['\n'])

/-- `re.sub(r, "", ...)` with a count of one: what the leftmost match leaves. -/
def remove (r : Regex Char) : List Char → List Char
  | [] => []
  | c :: l =>
      match (r.run (c :: l, [])).head? with
      | some t => t.1
      | none => c :: remove r l

/-- Each character of the pattern matches one of the text. -/
abbrev Same (same : Char → Char → Bool) : List Char → List Char → Prop :=
  List.Forall₂ fun c d => same c d = true

/-- The bot's name, with or without `@`, or nothing. -/
inductive Mention (same : Char → Char → Bool) (username : List Char) : List Char → Prop
  | nothing : Mention same username []
  | name {l : List Char} (h : Same same username l) : Mention same username l
  | atName {l : List Char} (h : Same same username l) : Mention same username ('@' :: l)

section Patterns

variable {same : Char → Char → Bool} {cmd username l l' : List Char} {s t : State Char}
    {g : List (ℕ × List Char)}

theorem mem_run_escaped : t ∈ (escaped same cmd).run s ↔ ∃ c, s.1 = c ++ t.1 ∧ Same same cmd c ∧
    t.2 = s.2 := by
  induction cmd generalizing s with
  | nil =>
    rw [escaped, mem_run_empty, Prod.ext_iff]
    constructor
    · rintro ⟨hl, hg⟩
      exact ⟨[], hl.symm, .nil, hg⟩
    · rintro ⟨c, hl, hc, hg⟩
      obtain rfl := List.forall₂_nil_left_iff.mp hc
      exact ⟨hl.symm, hg⟩
  | cons d cmd ih =>
    rw [escaped, mem_run_seq]
    constructor
    · rintro ⟨u, hu, ht⟩
      obtain ⟨e, he, hsame, hg⟩ := mem_run_one.mp hu
      obtain ⟨c, hc, hcmd, hg'⟩ := ih.mp ht
      exact ⟨e :: c, by rw [he, hc, List.cons_append], .cons hsame hcmd, hg'.trans hg⟩
    · rintro ⟨c, hl, hc, hg⟩
      obtain ⟨e, c, hsame, hcmd, rfl⟩ := List.forall₂_cons_left_iff.mp hc
      exact ⟨(c ++ t.1, s.2), mem_run_one.mpr ⟨e, hl, hsame, rfl⟩, ih.mpr ⟨c, rfl, hcmd, hg⟩⟩

theorem head?_run_escaped (h : Same same cmd l) : ((escaped same cmd).run (l ++ l', g)).head? =
    some (l', g) := by
  induction h with
  | nil => rfl
  | @cons c d cmd l hsame hrest ih =>
    have hone : ((one (same c)).run (d :: l ++ l', g)).head? = some (l ++ l', g) := by
      rw [List.cons_append, run_one_cons hsame]
      rfl
    exact head?_run_seq_of_some hone ih

theorem mem_run_mentionRe : t ∈ (mentionRe same username).run s ↔
    ∃ l, (s.1 = l ++ t.1 ∨ s.1 = '@' :: (l ++ t.1)) ∧ Same same username l ∧ t.2 = s.2 := by
  rw [mentionRe, mem_run_seq]
  simp only [mem_run_opt, mem_run_lit, mem_run_escaped]
  constructor
  · rintro ⟨u, hat | rfl, l, hl, hname, hg⟩
    · exact ⟨l, .inr (by rw [hat.1, hl]; rfl), hname, hg.trans hat.2⟩
    · exact ⟨l, .inl hl, hname, hg⟩
  · rintro ⟨l, hl | hl, hname, hg⟩
    · exact ⟨s, .inr rfl, l, hl, hname, hg⟩
    · exact ⟨(l ++ t.1, s.2), .inl ⟨hl, rfl⟩, l, rfl, hname, hg⟩

theorem mem_run_commandRe : t ∈ (commandRe same cmd username).run s ↔
    ∃ c u, s.1 = c ++ (u ++ t.1) ∧ Same same cmd c ∧ Mention same username u ∧ t.2 = s.2 := by
  rw [commandRe, mem_run_seq]
  simp only [mem_run_opt, mem_run_escaped, mem_run_mentionRe]
  constructor
  · rintro ⟨u, ⟨c, hc, hcmd, hg⟩, ⟨l, hl | hl, hname, hg'⟩ | rfl⟩
    · exact ⟨c, l, by rw [hc, hl], hcmd, .name hname, hg'.trans hg⟩
    · exact ⟨c, '@' :: l, by rw [hc, hl, List.cons_append], hcmd, .atName hname, hg'.trans hg⟩
    · exact ⟨c, [], hc, hcmd, .nothing, hg⟩
  · rintro ⟨c, u, hs, hcmd, hmention, hg⟩
    refine ⟨(u ++ t.1, s.2), ⟨c, hs, hcmd, rfl⟩, ?_⟩
    cases hmention with
    | nothing => exact .inr (Prod.ext rfl hg)
    | name hname => exact .inl ⟨u, .inl rfl, hname, hg⟩
    | @atName l hname => exact .inl ⟨l, .inr rfl, hname, hg⟩

/-- The name with `@` is tried first. -/
theorem head?_run_mentionRe_at (h : Same same username l) :
    ((mentionRe same username).run ('@' :: l ++ l', g)).head? = some (l', g) := by
  refine head?_run_seq_of_some (t := (l ++ l', g)) (head?_run_alt_left ?_) (head?_run_escaped h)
  exact head?_run_lit (w := ['@']) (l := l ++ l')

theorem head?_run_mentionRe_name (h : Same same username l) (hat : '@' ∉ (l ++ l').head?) :
    ((mentionRe same username).run (l ++ l', g)).head? = some (l', g) := by
  have hnone : (lit ['@']).run (l ++ l', g) = [] := by
    refine List.eq_nil_iff_forall_not_mem.mpr fun t ht => hat ?_
    have hl : l ++ l' = '@' :: t.1 := (mem_run_lit.mp ht).1
    rw [hl]
    rfl
  refine head?_run_seq_of_some (t := (l ++ l', g)) ?_ (head?_run_escaped h)
  rw [opt, head?_run_alt_right hnone]
  rfl

theorem remove_eq {r : Regex Char} {rest : List Char} (h : (r.run (l, [])).head? = some (rest, g)) :
    remove r l = rest := by
  cases l with
  | nil =>
    have hsuffix : rest <:+ [] := suffix_of_mem_run (List.mem_of_head? h)
    exact (List.suffix_nil.mp hsuffix).symm
  | cons c l =>
    rw [remove]
    simp only [h]

end Patterns

/-! ### The filter -/

variable (strings : Strings)

/-- Letters, digits and underscores. -/
structure Username where
  name : List Char
  valid : ∀ c ∈ name, c.isAlphanum = true ∨ c = '_'

/-- Letters and digits are no white space. -/
theorem toNat_of_isAlphanum {c : Char} (h : c.isAlphanum = true) :
    (65 ≤ c.toNat ∧ c.toNat ≤ 90 ∨ 97 ≤ c.toNat ∧ c.toNat ≤ 122) ∨ 48 ≤ c.toNat ∧ c.toNat ≤ 57 := by
  change (decide ('A'.val ≤ c.val ∧ c.val ≤ 'Z'.val) ||
    (decide ('a'.val ≤ c.val) && decide (c.val ≤ 'z'.val)) ||
    (decide ('0'.val ≤ c.val) && decide (c.val ≤ '9'.val))) = true at h
  simp only [Bool.or_eq_true, Bool.and_eq_true, decide_eq_true_eq, UInt32.le_iff_toNat_le] at h
  exact h

theorem Username.bounds (username : Username) {c : Char} (h : c ∈ username.name) :
    48 ≤ c.toNat ∧ c.toNat < 128 ∧ c ≠ '@' := by
  have hat : c.toNat ≠ 64 → c ≠ '@' := by
    rintro hne rfl
    exact hne rfl
  rcases username.valid c h with halphanum | rfl
  · have hbounds := toNat_of_isAlphanum halphanum
    exact ⟨by omega, by omega, hat (by omega)⟩
  · decide

structure CommandFilter where
  commands : Finset (List Char)
  prefixes : Finset (List Char)
  caseSensitive : Bool

/-- `filters.command`; a single string is the list of it. -/
def command (commands : List (List Char)) (prefixes : Option (List (List Char)))
    (caseSensitive : Bool) : CommandFilter where
  commands := (commands.map fun c => if caseSensitive then c else strings.lower c).toFinset
  prefixes :=
    let prefixes := prefixes.getD []
    if prefixes ≠ [] then prefixes.toFinset else ({[]} : Finset (List Char))
  caseSensitive := caseSensitive

/-- What the filter reads of a client and a message; the texts are `Str`s. -/
structure Message where
  username : Option Username
  text : Option (List Char)
  caption : Option (List Char)

/-- `message.text or message.caption`, and no text is empty. -/
def Message.content (m : Message) : List Char := if m.text.getD [] ≠ [] then m.text.getD []
    else m.caption.getD []

/-- `client.me.username or ""` -/
def Message.escapedUsername (m : Message) : List Char := (m.username.map Username.name).getD []

namespace CommandFilter

variable (flt : CommandFilter) (m : Message)

/-- How a pattern compares characters. -/
def same : Char → Char → Bool := if flt.caseSensitive then fun c d => decide (d = c)
    else strings.ignoreCase

def matchRe (cmd : List Char) : Regex Char :=
  seq (commandRe (flt.same strings) cmd m.escapedUsername) (alt (one strings.isSpace) dollar)

def subRe (cmd : List Char) : Regex Char :=
  seq (commandRe (flt.same strings) cmd m.escapedUsername) (opt (one strings.isSpace))

/-- The inner loop. -/
def tryCommands (withoutPrefix : List Char) (commands : List (List Char)) :
    Option (List (List Char)) :=
  commands.findSome? fun cmd =>
    if ((flt.matchRe strings m cmd).first withoutPrefix).isSome then
      some (cmd :: arguments strings (remove (flt.subRe strings m cmd) withoutPrefix))
    else none

/-- `func`: `message.command` where it returns `True`, `none` where it returns `False`; the sets in
the order of the lists. -/
def func (prefixes commands : List (List Char)) : Option (List (List Char)) :=
  if m.content = [] then none
  else
    prefixes.findSome? fun pre =>
      if pre.isPrefixOf m.content then flt.tryCommands strings m (Str.slice m.content pre.length)
        commands else none

/-! ### What is asked for -/

/-- The text begins with the command, a mention of the bot or none, and white space or nothing more;
the rest is behind that. -/
def Leaves (cmd text rest : List Char) : Prop :=
  ∃ c u, Same (flt.same strings) cmd c ∧ Mention (flt.same strings) m.escapedUsername u ∧
    ((∃ x, strings.isSpace x = true ∧ text = c ++ (u ++ x :: rest)) ∨ text = c ++ u ∧ rest = [])

/-- **A command stands behind a prefix** at the start of the text, and this behind the command. -/
structure Stands (pre cmd rest : List Char) : Prop where
  pre_mem : pre ∈ flt.prefixes
  cmd_mem : cmd ∈ flt.commands
  content_ne : m.content ≠ []
  starts : pre <+: m.content
  leaves : flt.Leaves strings m cmd (Str.slice m.content pre.length) rest

/-- **The order of the sets makes no difference.** -/
def OrderIndependent : Prop :=
  ∀ prefixes prefixes' commands commands', Iterates prefixes flt.prefixes →
    Iterates prefixes' flt.prefixes →
    Iterates commands flt.commands → Iterates commands' flt.commands →
      flt.func strings m prefixes commands = flt.func strings m prefixes' commands'

/-! ### What the patterns match -/

variable {strings flt m} {cmd text rest : List Char}

/-- White space and `@` match themselves only. -/
theorem eq_of_same {c d : Char} (h : flt.same strings c d = true)
    (hcase : strings.isSpace c = true ∨ strings.isSpace d = true ∨ c = '@' ∨ d = '@') : c = d := by
  unfold same at h
  split at h
  · exact (of_decide_eq_true h).symm
  · exact strings.eq_of_ignoreCase c d h hcase

theorem not_mem_username {c : Char} (h : strings.isSpace c = true ∨ c = '@') :
    c ∉ m.escapedUsername := by
  intro hmem
  rw [Message.escapedUsername] at hmem
  cases husername : m.username with
  | none =>
    rw [husername] at hmem
    cases hmem
  | some username =>
    rw [husername] at hmem
    obtain ⟨hlow, hascii, hat⟩ := username.bounds hmem
    rcases h with h | h
    · rw [strings.isSpace_ascii c hascii, asciiSpace, decide_eq_true_eq] at h
      omega
    · exact hat h

/-- White space does not begin with the bot's name. -/
theorem same_username_nil {l : List Char} (h : Same (flt.same strings) m.escapedUsername l)
    (hl : ∀ c ∈ l.head?, strings.isSpace c = true ∨ c = '@') : l = [] := by
  cases l with
  | nil => rfl
  | cons d l =>
    obtain ⟨c, username, hsame, -, husername⟩ := List.forall₂_cons_right_iff.mp h
    have hd := hl d rfl
    obtain rfl : c = d := eq_of_same hsame (by rcases hd with hd | hd <;> simp [hd])
    exact absurd (by rw [husername]; exact List.mem_cons_self) (not_mem_username (m := m) hd)

/-- **The first pattern matches where the text begins with the command.** -/
theorem first_matchRe_iff : ((flt.matchRe strings m cmd).first text).isSome ↔
    ∃ rest, flt.Leaves strings m cmd text rest := by
  have hfirst : ((flt.matchRe strings m cmd).first text).isSome ↔
      ∃ t, t ∈ (flt.matchRe strings m cmd).run (text, []) := by
    rw [first, Option.isSome_map]
    cases (flt.matchRe strings m cmd).run (text, []) with
    | nil => simp
    | cons t l => simp
  rw [hfirst, matchRe]
  simp only [mem_run_seq, mem_run_commandRe, mem_run_alt, mem_run_one, dollar, mem_run_look,
    decide_eq_true_eq]
  constructor
  · rintro ⟨t, v, ⟨c, u, hsplit, hc, hu, -⟩, ⟨x, hx, hspace, -⟩ | ⟨hend | hend, -⟩⟩
    · exact ⟨t.1, c, u, hc, hu, .inl ⟨x, hspace, by rw [← hx]; exact hsplit⟩⟩
    · refine ⟨[], c, u, hc, hu, .inr ⟨?_, rfl⟩⟩
      rw [hend, List.append_nil] at hsplit
      exact hsplit
    · exact ⟨[], c, u, hc, hu, .inl ⟨'\n', strings.isSpace_newline, by rw [← hend]; exact hsplit⟩⟩
  · rintro ⟨rest, c, u, hc, hu, ⟨x, hx, rfl⟩ | ⟨rfl, -⟩⟩
    · exact ⟨(rest, []), (x :: rest, []), ⟨c, u, rfl, hc, hu, rfl⟩, .inl ⟨x, rfl, hx, rfl⟩⟩
    · exact ⟨([], []), ([], []), ⟨c, u, by rw [List.append_nil], hc, hu, rfl⟩, .inr ⟨.inl rfl, rfl⟩⟩

/-- The command and the mention are taken first. -/
theorem head?_run_commandRe {c u l : List Char} (hc : Same (flt.same strings) cmd c)
    (hu : Mention (flt.same strings) m.escapedUsername u)
    (hl : ∀ x ∈ l.head?, strings.isSpace x = true) :
    ((commandRe (flt.same strings) cmd m.escapedUsername).run (c ++ (u ++ l), [])).head? =
      some (l, []) := by
  refine head?_run_seq_of_some (head?_run_escaped hc) ?_
  have hat : '@' ∉ l.head? := by
    intro hmem
    have hspace := hl '@' hmem
    rw [strings.isSpace_ascii '@' (by decide)] at hspace
    revert hspace
    decide
  -- the mention, with or without the sign, or none
  cases hu with
  | atName hname => exact head?_run_alt_left (head?_run_mentionRe_at hname)
  | name hname =>
    refine head?_run_alt_left (head?_run_mentionRe_name hname ?_)
    cases u with
    | nil => exact hat
    | cons d u =>
      rintro hd
      obtain rfl := Option.some.inj hd
      exact List.cons_ne_nil _ _ (same_username_nil hname fun c hc =>
        .inr (Option.some.inj hc).symm)
  | nothing =>
    -- without a mention, the username cannot begin with what follows
    cases husername : m.escapedUsername with
    | nil => exact head?_run_alt_left (head?_run_mentionRe_name .nil hat)
    | cons d username =>
      have hnone : (mentionRe (flt.same strings) (d :: username)).run (l, []) = [] := by
        refine List.eq_nil_iff_forall_not_mem.mpr fun t ht => ?_
        obtain ⟨v, hv | hv, hname, -⟩ := mem_run_mentionRe.mp ht
        · rw [← husername] at hname
          obtain rfl : v = [] := by
            refine same_username_nil hname fun c hc => .inl (hl c ?_)
            rw [show l = v ++ t.1 from hv, List.head?_append, Option.mem_def.mp hc, Option.some_or]
            rfl
          rw [husername] at hname
          cases hname
        · refine hat ?_
          rw [show l = '@' :: (v ++ t.1) from hv]
          rfl
      rw [List.nil_append, opt, head?_run_alt_right hnone]
      rfl

/-- **The second pattern takes away the command**, and leaves what is behind it. -/
theorem remove_subRe (h : flt.Leaves strings m cmd text rest) :
    remove (flt.subRe strings m cmd) text = rest := by
  obtain ⟨c, u, hc, hu, ⟨x, hx, rfl⟩ | ⟨rfl, rfl⟩⟩ := h
  · refine remove_eq (g := []) (head?_run_seq_of_some (head?_run_commandRe hc hu ?_)
      (head?_run_alt_left ?_))
    · intro y hy
      rwa [← Option.some.inj hy]
    · rw [run_one_cons hx]
      rfl
  · rw [← List.append_nil u]
    exact remove_eq (g := []) (head?_run_seq_of_some (head?_run_commandRe hc hu nofun) rfl)

/-! ### What is left -/

/-- What is behind a command ends the text, behind white space or at the end. -/
theorem Leaves.boundary (h : flt.Leaves strings m cmd text rest) :
    rest = [] ∨ ∃ p x, strings.isSpace x = true ∧ text = p ++ [x] ++ rest := by
  obtain ⟨c, u, -, -, ⟨x, hx, rfl⟩ | ⟨-, rfl⟩⟩ := h
  · exact .inr ⟨c ++ u, x, hx, by simp⟩
  · exact .inl rfl

/-- The same in the whole text. -/
theorem Stands.boundary {pre : List Char} (h : flt.Stands strings m pre cmd rest) :
    rest <:+ m.content ∧
      (rest = [] ∨ ∃ p x, strings.isSpace x = true ∧ m.content = p ++ [x] ++ rest) := by
  obtain ⟨front, hfront⟩ := Str.slice_suffix m.content pre.length
  rcases h.leaves.boundary with rfl | ⟨p, x, hx, htext⟩
  · exact ⟨List.nil_suffix, .inl rfl⟩
  · have hcontent : m.content = front ++ p ++ [x] ++ rest := by
      rw [← hfront, htext]
      simp only [List.append_assoc]
    exact ⟨⟨front ++ p ++ [x], hcontent.symm⟩, .inr ⟨front ++ p, x, hx, hcontent⟩⟩

/-- **Two ends of a text that are behind white space hold the same arguments only if there is
nothing but white space between them.** -/
theorem dropWhile_eq_of_suffix {content rest rest' : List Char} (hsuffix : rest' <:+ rest)
    (hrest : rest <:+ content)
    (h : rest' = [] ∨ ∃ p x, strings.isSpace x = true ∧ content = p ++ [x] ++ rest')
    (hsame : arguments strings rest = arguments strings rest') :
    rest.dropWhile strings.isSpace = rest'.dropWhile strings.isSpace := by
  obtain ⟨s, rfl⟩ := hsuffix
  by_contra hne
  have hmore : ∃ c ∈ s, strings.isSpace c = false := by
    by_contra hblank
    refine hne (List.dropWhile_append_of_pos fun c hc => ?_)
    cases hspace : strings.isSpace c with
    | false => exact absurd ⟨c, hc, hspace⟩ hblank
    | true => rfl
  refine arguments_append_ne hmore ?_ hsame
  rcases h with rfl | ⟨p, x, hx, hcontent⟩
  · exact .inr nofun
  · obtain ⟨front, hfront⟩ := hrest
    rw [← List.append_assoc, hcontent] at hfront
    obtain ⟨hp, -⟩ := List.append_inj' hfront rfl
    have hs : s ≠ [] := by
      rintro rfl
      obtain ⟨c, hc, -⟩ := hmore
      cases hc
    refine Boundary.of_append (x := front) ?_ hs
    rw [hp]
    exact .inl ⟨p, x, rfl, .inl hx⟩

theorem dropWhile_eq_iff {pre pre' cmd' rest' : List Char} (h : flt.Stands strings m pre cmd rest)
    (h' : flt.Stands strings m pre' cmd' rest') :
    arguments strings rest = arguments strings rest' ↔
      rest.dropWhile strings.isSpace = rest'.dropWhile strings.isSpace := by
  obtain ⟨hsuffix, hboundary⟩ := h.boundary
  obtain ⟨hsuffix', hboundary'⟩ := h'.boundary
  constructor
  · intro hsame
    rcases List.suffix_or_suffix_of_suffix hsuffix hsuffix' with hle | hle
    · exact (dropWhile_eq_of_suffix hle hsuffix' hboundary hsame.symm).symm
    · exact dropWhile_eq_of_suffix hle hsuffix hboundary' hsame
  · intro hsame
    rw [← arguments_dropWhile rest, hsame, arguments_dropWhile]

/-! ### The loops -/

/-- What the two loops try. -/
theorem func_eq (hcontent : m.content ≠ []) (prefixes commands : List (List Char)) :
    flt.func strings m prefixes commands = prefixes.findSome? fun pre =>
        commands.findSome? fun cmd =>
      if pre <+: m.content ∧
          ((flt.matchRe strings m cmd).first (Str.slice m.content pre.length)).isSome then
        some (cmd :: arguments strings
          (remove (flt.subRe strings m cmd) (Str.slice m.content pre.length)))
      else none := by
  rw [func, if_neg hcontent]
  congr 1
  funext pre
  split
  · next hpre =>
    rw [List.isPrefixOf_iff_prefix] at hpre
    simp only [hpre, true_and]
    rfl
  · next hpre =>
    rw [List.isPrefixOf_iff_prefix] at hpre
    simp only [hpre, false_and, if_false]
    exact (List.findSome?_eq_none_iff.mpr fun _ _ => rfl).symm

/-- **Whether a message is a command never depends on the order.** -/
theorem matched_iff {prefixes commands : List (List Char)}
    (hprefixes : Iterates prefixes flt.prefixes)
    (hcommands : Iterates commands flt.commands) :
    (flt.func strings m prefixes commands).isSome ↔
      ∃ pre cmd rest, flt.Stands strings m pre cmd rest := by
  by_cases hcontent : m.content = []
  · rw [func, if_pos hcontent]
    refine iff_of_false Bool.false_ne_true ?_
    rintro ⟨pre, cmd, rest, h⟩
    exact h.content_ne hcontent
  · rw [func_eq hcontent, findSome?_isSome_iterates hprefixes]
    simp only [findSome?_isSome_iterates hcommands, Option.isSome_ite, first_matchRe_iff]
    constructor
    · rintro ⟨pre, hpre, cmd, hcmd, hstart, rest, hleaves⟩
      exact ⟨pre, cmd, rest, hpre, hcmd, hcontent, hstart, hleaves⟩
    · rintro ⟨pre, cmd, rest, h⟩
      exact ⟨pre, h.pre_mem, cmd, h.cmd_mem, h.starts, rest, h.leaves⟩

variable (strings flt m) in
/-- **The order makes no difference iff all that stands behind a prefix is one command, with the
same behind it but for white space.** -/
theorem orderIndependent_iff :
    flt.OrderIndependent strings m ↔ ∀ pre cmd rest pre' cmd' rest',
      flt.Stands strings m pre cmd rest →
      flt.Stands strings m pre' cmd' rest' →
        cmd = cmd' ∧ rest.dropWhile strings.isSpace = rest'.dropWhile strings.isSpace := by
  -- without content there is nothing to match
  by_cases hcontent : m.content = []
  · refine iff_of_true ?_ ?_
    · intro prefixes prefixes' commands commands' _ _ _ _
      rw [func, if_pos hcontent, func, if_pos hcontent]
    · intro pre cmd rest pre' cmd' rest' h
      exact absurd hcontent h.content_ne
  · simp only [OrderIndependent, func_eq hcontent]
    rw [findSome?_iterates_iff]
    constructor
    -- two commands that stand, each in front of its order
    · intro h pre cmd rest pre' cmd' rest' hs hs'
      have hsame := h pre hs.pre_mem cmd hs.cmd_mem pre' hs'.pre_mem cmd' hs'.cmd_mem _ _
        (if_pos ⟨hs.starts, first_matchRe_iff.mpr ⟨rest, hs.leaves⟩⟩)
        (if_pos ⟨hs'.starts, first_matchRe_iff.mpr ⟨rest', hs'.leaves⟩⟩)
      rw [remove_subRe hs.leaves, remove_subRe hs'.leaves] at hsame
      obtain ⟨hcommand, harguments⟩ := List.cons.inj hsame
      exact ⟨hcommand, (dropWhile_eq_iff hs hs').mp harguments⟩
    -- a match is a command that stands, so the two agree
    · intro h pre hpre cmd hcmd pre' hpre' cmd' hcmd' c c' hc hc'
      obtain ⟨⟨hstart, hmatch⟩, hc⟩ := Option.ite_none_right_eq_some.mp hc
      obtain ⟨⟨hstart', hmatch'⟩, hc'⟩ := Option.ite_none_right_eq_some.mp hc'
      obtain ⟨rest, hleaves⟩ := first_matchRe_iff.mp hmatch
      obtain ⟨rest', hleaves'⟩ := first_matchRe_iff.mp hmatch'
      have hs : flt.Stands strings m pre cmd rest := ⟨hpre, hcmd, hcontent, hstart, hleaves⟩
      have hs' : flt.Stands strings m pre' cmd' rest' := ⟨hpre', hcmd', hcontent, hstart', hleaves'⟩
      obtain ⟨hcommand, hrest⟩ := h _ _ _ _ _ _ hs hs'
      rw [remove_subRe hleaves] at hc
      rw [remove_subRe hleaves'] at hc'
      rw [← Option.some.inj hc, ← Option.some.inj hc', hcommand,
        (dropWhile_eq_iff hs hs').mpr hrest]

end CommandFilter

/-! ### A filter -/

/-- Where there is nothing but ASCII. -/
def Strings.ascii : Strings where
  lower l := l.map Char.toLower
  isSpace := asciiSpace
  ignoreCase c d := c = d || (c.isAlphanum && d.isAlphanum && c.toLower = d.toLower)
  isSpace_ascii _ _ := rfl
  eq_of_ignoreCase c d h hcase := by
    rcases Bool.or_eq_true_iff.mp h with h | h
    · exact of_decide_eq_true h
    · simp only [Bool.and_eq_true] at h
      have hc := toNat_of_isAlphanum h.1.1
      have hd := toNat_of_isAlphanum h.1.2
      simp only [asciiSpace, decide_eq_true_eq] at hcase
      rcases hcase with hspace | hspace | rfl | rfl
      · omega
      · omega
      · exact absurd hc (by decide)
      · exact absurd hd (by decide)

/-- `command(["start", "start now"])` and the message "/start now": either command may be found. -/
theorem not_orderIndependent_start :
    let start := "start".toList
    let startNow := "start now".toList
    let flt := command .ascii [start, startNow] (some ["/".toList]) false
    let m : Message := ⟨none, some "/start now".toList, none⟩
    flt.func .ascii m ["/".toList] [start, startNow] = some [start, "now".toList] ∧
      flt.func .ascii m ["/".toList] [startNow, start] = some [startNow] ∧
        ¬ flt.OrderIndependent .ascii m := by
  intro start startNow flt m
  have hfirst : flt.func .ascii m ["/".toList] [start, startNow] =
      some [start, "now".toList] := by decide
  have hsecond : flt.func .ascii m ["/".toList] [startNow, start] = some [startNow] := by decide
  refine ⟨hfirst, hsecond, ?_⟩
  intro h
  have hprefixes : Iterates ["/".toList] flt.prefixes := ⟨by decide, by decide⟩
  have hcommands : Iterates [start, startNow] flt.commands := ⟨by decide, by decide⟩
  have hreversed : Iterates [startNow, start] flt.commands := ⟨by decide, by decide⟩
  have hsame := h _ _ _ _ hprefixes hprefixes hcommands hreversed
  rw [hfirst, hsecond] at hsame
  exact absurd hsame (by decide)

end Pyrogram.Filters
