import Pyrogram.Errors
import Mathlib.Data.List.Infix

/-!
# Chunked bodies

A response that is re-framed by a proxy comes in chunks.  Each has its size in front, in hexadecimal
and perhaps with extensions, and a line end behind; the chunk of size zero is the last, and trailer
fields may follow it up to an empty line.

The stream is the bytes that are still to come, after which it ends.

## Main definitions

* `readline`, `readexactly` — `asyncio.StreamReader`.
* `int16` — `int(..., 16)`.
* `readChunkedBody` — the reader.
* `ChunkedBody` — a body as it is sent, in any chunks, with any extensions and trailer fields.
* `Stream` — what arrives of it: all and more, or a part.
* `CutShort` — the parts that are taken for a whole body.

## Main results

* `readChunks_whole` — a body that arrives whole is read exactly.
* `readChunks_cut` — which parts are taken for whole bodies.
* `asRead_iff` — **which streams are read as they should be.**
-/

namespace Pyrogram.Chunked

/-! ### The stream -/

/-- The limit of a `StreamReader` for a line. -/
def limit : ℕ := 65536

/-- `readline`, which raises `ValueError` beyond the limit. -/
def readline (data : List UInt8) : Except Exc (List UInt8 × List UInt8) :=
  let line := data.takeWhile (· ≠ 10)
  if limit < line.length then .error (.other "ValueError")
  else .ok (data.take (line.length + 1), data.drop (line.length + 1))

/-- `readexactly` -/
def readexactly (n : ℤ) (data : List UInt8) : Except Exc (List UInt8 × List UInt8) :=
  if n < 0 then .error (.valueError "readexactly size can not be less than zero")
  else if n ≤ data.length then .ok (data.take n.toNat, data.drop n.toNat)
  else .error (.other "IncompleteReadError")

def crlf : List UInt8 := [13, 10]

/-! ### Numbers -/

/-- Whitespace of `bytes`. -/
def isSpace (b : UInt8) : Bool := b = 32 || (9 ≤ b && b ≤ 13)

def strip (bs : List UInt8) : List UInt8 :=
  ((bs.dropWhile isSpace).reverse.dropWhile isSpace).reverse

def hexDigit (b : UInt8) : Option ℕ :=
  if 48 ≤ b ∧ b ≤ 57 then some (b.toNat - 48)
  else if 65 ≤ b ∧ b ≤ 70 then some (b.toNat - 55)
  else if 97 ≤ b ∧ b ≤ 102 then some (b.toNat - 87)
  else none

/-- The digits of a number, with the value of those before; a single underscore may stand between
two. -/
def digitsFrom (value : ℕ) : List UInt8 → Option ℕ
  | [] => some value
  | [b] => (hexDigit b).map (16 * value + ·)
  | b :: c :: bs =>
      if b = 95 then (hexDigit c).bind fun digit => digitsFrom (16 * value + digit) bs
      else (hexDigit b).bind fun digit => digitsFrom (16 * value + digit) (c :: bs)

def digits : List UInt8 → Option ℕ
  | [] => none
  | b :: bs => (hexDigit b).bind fun digit => digitsFrom digit bs

/-- A number without its sign, which may begin with `0x`. -/
def magnitude : List UInt8 → Option ℕ
  | 48 :: 120 :: 95 :: bs | 48 :: 88 :: 95 :: bs => digits bs
  | 48 :: 120 :: bs | 48 :: 88 :: bs => digits bs
  | bs => digits bs

/-- `int(..., 16)` of a field without whitespace around it; `none` is a `ValueError`. -/
def int16 : List UInt8 → Option ℤ
  | 43 :: bs => (magnitude bs).map Int.ofNat
  | 45 :: bs => (magnitude bs).map fun n => -Int.ofNat n
  | bs => (magnitude bs).map Int.ofNat

/-! ### The reader -/

/-- The trailer fields and the empty line, in a stream of fewer bytes than `fuel`. -/
def readTrailer : ℕ → List UInt8 → Except Exc (List UInt8)
  | 0, data => .ok data
  | fuel + 1, data => do
      let (line, data) ← readline data
      if line = crlf ∨ line = [] then return data else readTrailer fuel data

/-- The loop over the chunks, in a stream of fewer bytes than `fuel`: what they hold, and what is
left. -/
def readChunks : ℕ → List UInt8 → Except Exc (List UInt8 × List UInt8)
  | 0, data => .ok ([], data)
  | fuel + 1, data => do
      let (sizeLine, data) ← readline data
      if sizeLine = [] then .error (.connectionError "connection closed inside a chunked body")
      else
        let sizeField := strip (sizeLine.takeWhile (· ≠ 59))
        match int16 sizeField with
        | none => .error (.connectionError "malformed chunk size")
        | some chunkSize =>
            if chunkSize = 0 then
              let data ← readTrailer (data.length + 1) data
              return ([], data)
            else
              let (chunk, data) ← readexactly chunkSize data
              let (terminator, data) ← readexactly 2 data
              if terminator ≠ crlf then .error (.connectionError "malformed chunk terminator")
              else
                let (chunks, data) ← readChunks fuel data
                return (chunk ++ chunks, data)

/-- `_read_chunked_body`: the body, and what is left of the stream. -/
def readChunkedBody (data : List UInt8) : Except Exc (List UInt8 × List UInt8) :=
  readChunks (data.length + 1) data

/-! ### What is sent -/

/-- The value of hexadecimal digits. -/
def valueOf (ds : List UInt8) : ℕ := ds.foldl (fun value b => 16 * value + (hexDigit b).getD 0) 0

/-- The extensions of a chunk: none, or anything on the line after a semicolon, with blanks before
it. -/
def IsExtension (bs : List UInt8) : Prop :=
  10 ∉ bs ∧ (bs = [] ∨ ∃ blanks rest, bs = blanks ++ 59 :: rest ∧ ∀ b ∈ blanks, b = 32 ∨ b = 9)

/-- The line that gives a size. -/
structure SizeLine (size : ℕ) where
  digits : List UInt8
  digits_ne_nil : digits ≠ []
  isHex : ∀ b ∈ digits, (hexDigit b).isSome
  value : valueOf digits = size
  extension : List UInt8
  isExtension : IsExtension extension

structure Chunk where
  data : List UInt8
  ne_nil : data ≠ []
  line : SizeLine data.length

/-- A trailer field. -/
structure Field where
  text : List UInt8
  ne_nil : text ≠ []
  oneLine : 10 ∉ text

structure ChunkedBody where
  chunks : List Chunk
  last : SizeLine 0
  trailer : List Field

/-- The line without its line end. -/
def SizeLine.text {size : ℕ} (l : SizeLine size) : List UInt8 := l.digits ++ l.extension

def Chunk.encode (c : Chunk) : List UInt8 := c.line.text ++ crlf ++ (c.data ++ crlf)

def encodeTrailer (trailer : List Field) : List UInt8 :=
  (trailer.flatMap fun f => f.text ++ crlf) ++ crlf

def encodeFrom (chunks : List Chunk) (last : SizeLine 0) (trailer : List Field) : List UInt8 :=
  chunks.flatMap Chunk.encode ++ (last.text ++ crlf ++ encodeTrailer trailer)

namespace ChunkedBody

def encode (b : ChunkedBody) : List UInt8 := encodeFrom b.chunks b.last b.trailer

def body (b : ChunkedBody) : List UInt8 := b.chunks.flatMap Chunk.data

end ChunkedBody

/-- What arrives of a body before the stream ends. -/
inductive Stream (b : ChunkedBody)
  /-- All of it, and more. -/
  | whole (rest : List UInt8)
  | cut (part : List UInt8) (hpart : part <+: b.encode) (hproper : part ≠ b.encode)

/-- **A stream is read as it should be**: a whole body exactly, and a part of one not at all. -/
def Stream.AsRead {b : ChunkedBody} : Stream b → Prop
  | whole rest => readChunkedBody (b.encode ++ rest) = .ok (b.body, rest)
  | cut part _ _ => ∃ e, readChunkedBody part = .error e

/-- A line without its line end is within the limit. -/
def FitsLine (text : List UInt8) : Prop := text.length + 1 ≤ limit

instance : DecidablePred FitsLine :=
  fun text => inferInstanceAs (Decidable (text.length + 1 ≤ limit))

/-- All lines of a body are within the limit. -/
def ChunkedBody.Fits (b : ChunkedBody) : Prop :=
  (∀ c ∈ b.chunks, FitsLine c.line.text) ∧ FitsLine b.last.text ∧ ∀ f ∈ b.trailer, FitsLine f.text

/-- All that is between the line ends of a text is within the limit. -/
def FitsLines (bs : List UInt8) : Prop := ∀ line ∈ bs.splitOn 10, line.length ≤ limit

/-- **The part ends too late to be found out**: after the first digit of the last size, or among the
leading zeros of another one, where no line before is over the limit. -/
def CutShort : List Chunk → List UInt8 → Prop
  | [], part => part ≠ [] ∧ FitsLines part
  | c :: chunks, part =>
      (part ≠ [] ∧ part <+: c.line.digits ∧ (∀ b ∈ part, b = 48) ∧ FitsLines part) ∨
        ∃ more, part = c.encode ++ more ∧ FitsLine c.line.text ∧ CutShort chunks more

/-! ### Lines -/

theorem prefix_append_cases {p a b : List UInt8} (h : p <+: a ++ b) :
    (p <+: a ∧ p ≠ a) ∨ ∃ q, p = a ++ q ∧ q <+: b := by
  rcases Nat.lt_or_ge p.length a.length with hlt | hge
  · refine .inl ⟨List.prefix_of_prefix_length_le h (List.prefix_append a b) hlt.le, ?_⟩
    rintro rfl
    exact absurd rfl hlt.ne
  · obtain ⟨q, rfl⟩ := List.prefix_of_prefix_length_le (List.prefix_append a b) h hge
    exact .inr ⟨q, rfl, (List.prefix_append_right_inj a).mp h⟩

/-- A line that is not complete. -/
theorem prefix_of_cut {p text : List UInt8} (h : p <+: text ++ crlf) (hne : p ≠ text ++ crlf) :
    p <+: text ++ [13] := by
  have hsplit : text ++ crlf = (text ++ [13]) ++ [10] := by
    rw [List.append_assoc]
    rfl
  rw [hsplit] at h hne
  exact (List.prefix_concat_iff.mp h).resolve_left hne

theorem not_mem_of_part {p text : List UInt8} (h : p <+: text ++ [13]) (htext : 10 ∉ text) :
    10 ∉ p := by
  intro hp
  rcases List.mem_append.mp (h.subset hp) with hmem | hmem
  · exact htext hmem
  · exact absurd (List.mem_singleton.mp hmem) (by decide)

theorem takeWhile_line {l : List UInt8} (h : 10 ∉ l) (rest : List UInt8) :
    (l ++ rest).takeWhile (· ≠ 10) = l ++ rest.takeWhile (· ≠ 10) := by
  apply List.takeWhile_append_of_pos
  intro b hb
  simpa using ne_of_mem_of_not_mem hb h

/-- A line is read up to its end. -/
theorem readline_line {l : List UInt8} (h : 10 ∉ l) (rest : List UInt8) :
    readline (l ++ 10 :: rest) = if limit < l.length then .error (.other "ValueError")
      else .ok (l ++ [10], rest) := by
  have hline : (l ++ 10 :: rest).takeWhile (· ≠ 10) = l := by
    rw [takeWhile_line h, List.takeWhile_cons_of_neg (by simp), List.append_nil]
  have hsplit : l ++ 10 :: rest = (l ++ [10]) ++ rest := by
    rw [List.append_assoc]
    rfl
  have hlength : (l ++ [10]).length = l.length + 1 := List.length_append
  rw [readline, hline, hsplit, List.take_left' hlength, List.drop_left' hlength]

/-- At the end of the stream a line is what is left. -/
theorem readline_end {l : List UInt8} (h : 10 ∉ l) :
    readline l = if limit < l.length then .error (.other "ValueError") else .ok (l, []) := by
  have hline : l.takeWhile (· ≠ 10) = l := by
    have hend := takeWhile_line h []
    rwa [List.takeWhile_nil, List.append_nil] at hend
  rw [readline, hline, List.take_of_length_le (Nat.le_succ _),
    List.drop_of_length_le (Nat.le_succ _)]

theorem fitsLines_line {l : List UInt8} (h : 10 ∉ l) : FitsLines l ↔ l.length ≤ limit := by
  rw [FitsLines, List.splitOn_eq_singleton h, List.forall_mem_singleton]

theorem fitsLines_append {text : List UInt8} (h : 10 ∉ text) (rest : List UInt8) :
    FitsLines (text ++ crlf ++ rest) ↔ FitsLine text ∧ FitsLines rest := by
  have hsplit : text ++ crlf ++ rest = (text ++ [13]) ++ 10 :: rest := by
    simp [crlf]
  have htext : 10 ∉ text ++ [13] := not_mem_of_part List.prefix_rfl h
  rw [FitsLines, hsplit, List.splitOn_append_cons_self_of_not_mem htext, List.forall_mem_cons,
    List.length_append]
  rfl

theorem readline_text {text : List UInt8} (h : 10 ∉ text) (rest : List UInt8) :
    readline (text ++ crlf ++ rest) =
      if FitsLine text then .ok (text ++ crlf, rest) else .error (.other "ValueError") := by
  have hsplit : text ++ crlf ++ rest = (text ++ [13]) ++ 10 :: rest := by
    simp [crlf]
  have hline : (text ++ [13]) ++ [10] = text ++ crlf := by
    simp [crlf]
  rw [hsplit, readline_line (not_mem_of_part List.prefix_rfl h), hline, List.length_append,
    List.length_singleton]
  by_cases hfits : FitsLine text
  · rw [if_pos hfits, if_neg (not_lt.mpr hfits)]
  · rw [if_neg hfits, if_pos (not_le.mp hfits)]

/-! ### Sizes -/

theorem not_isSpace_of_hex {b : UInt8} (h : (hexDigit b).isSome) : isSpace b = false := by
  have hfar : ∀ c : UInt8, c.toNat < 48 → hexDigit c = none := by
    intro c hc
    unfold hexDigit
    simp only [UInt8.le_iff_toNat_le, UInt8.reduceToNat]
    rw [if_neg (by omega), if_neg (by omega), if_neg (by omega)]
  have hle : 48 ≤ b.toNat := by
    by_contra hlt
    rw [hfar b (not_le.mp hlt)] at h
    cases h
  simp only [isSpace, UInt8.le_iff_toNat_le, ← UInt8.toNat_inj, UInt8.reduceToNat,
    Bool.or_eq_false_iff, Bool.and_eq_false_iff, decide_eq_false_iff_not]
  omega

theorem digitsFrom_eq {bs : List UInt8} (h : ∀ b ∈ bs, (hexDigit b).isSome) (value : ℕ) :
    digitsFrom value bs =
      some (bs.foldl (fun value b => 16 * value + (hexDigit b).getD 0) value) := by
  induction bs generalizing value with
  | nil => rfl
  | cons b bs ih =>
    obtain ⟨digit, hdigit⟩ := Option.isSome_iff_exists.mp (h b List.mem_cons_self)
    have hrest := ih fun c hc => h c (List.mem_cons_of_mem b hc)
    rw [List.foldl_cons, ← hrest, hdigit, Option.getD_some]
    cases bs with
    | nil =>
      show (hexDigit b).map _ = _
      rw [hdigit]
      rfl
    | cons c bs =>
      -- an underscore is not a digit
      have hne : b ≠ 95 := by
        rintro rfl
        cases hdigit
      rw [digitsFrom, if_neg hne, hdigit, Option.bind_some]

theorem digits_eq {bs : List UInt8} (hne : bs ≠ []) (h : ∀ b ∈ bs, (hexDigit b).isSome) :
    digits bs = some (valueOf bs) := by
  cases bs with
  | nil => exact absurd rfl hne
  | cons b bs =>
    obtain ⟨digit, hdigit⟩ := Option.isSome_iff_exists.mp (h b List.mem_cons_self)
    rw [digits, hdigit, Option.bind_some, digitsFrom_eq fun c hc => h c (List.mem_cons_of_mem b hc),
      valueOf, List.foldl_cons, hdigit, Nat.mul_zero, Nat.zero_add, Option.getD_some]

/-- **A hexadecimal number is its value.** -/
theorem int16_eq {bs : List UInt8} (hne : bs ≠ []) (h : ∀ b ∈ bs, (hexDigit b).isSome) :
    int16 bs = some (valueOf bs : ℤ) := by
  have hmagnitude : magnitude bs = some (valueOf bs) := by
    rw [← digits_eq hne h]
    -- there is no `x` among the digits
    have hx : (120 : UInt8) ∉ bs ∧ (88 : UInt8) ∉ bs := ⟨fun hmem => absurd (h _ hmem) (by decide),
      fun hmem => absurd (h _ hmem) (by decide)⟩
    unfold magnitude
    split
    · simp at hx
    · simp at hx
    · simp at hx
    · simp at hx
    · rfl
  have hsign : (43 : UInt8) ∉ bs ∧ (45 : UInt8) ∉ bs := ⟨fun hmem => absurd (h _ hmem) (by decide),
    fun hmem => absurd (h _ hmem) (by decide)⟩
  unfold int16
  split
  · simp at hsign
  · simp at hsign
  · rw [hmagnitude]
    rfl

theorem strip_append {bs blanks : List UInt8} (hne : bs ≠ []) (hbs : ∀ b ∈ bs, isSpace b = false)
    (hblanks : ∀ b ∈ blanks, isSpace b = true) : strip (bs ++ blanks) = bs := by
  have hdrop : ∀ {l : List UInt8}, l ≠ [] → (∀ b ∈ l, isSpace b = false) →
      ∀ l', (l ++ l').dropWhile isSpace = l ++ l' := by
    intro l hl hspace l'
    cases l with
    | nil => exact absurd rfl hl
    | cons b l => exact List.dropWhile_cons_of_neg (by simp [hspace b List.mem_cons_self])
  rw [strip, hdrop hne hbs, List.reverse_append, List.dropWhile_append_of_pos
    (by simpa using hblanks)]
  have hreverse := hdrop (List.reverse_ne_nil_iff.mpr hne)
    (fun b hb => hbs b (List.mem_reverse.mp hb)) []
  rw [List.append_nil] at hreverse
  rw [hreverse, List.reverse_reverse]

theorem hexDigit_eq_zero {b : UInt8} (h : (hexDigit b).isSome) : (hexDigit b).getD 0 = 0 ↔
    b = 48 := by
  unfold hexDigit at h ⊢
  simp only [UInt8.le_iff_toNat_le, ← UInt8.toNat_inj] at h ⊢
  split_ifs at h ⊢ with h1 h2 h3
  · simp at h1 ⊢; omega
  · simp at h2 ⊢; omega
  · simp at h3 ⊢; omega
  · cases h

theorem valueOf_eq_zero {bs : List UInt8} (h : ∀ b ∈ bs, (hexDigit b).isSome) : valueOf bs = 0 ↔
    ∀ b ∈ bs, b = 48 := by
  have hfold : ∀ (bs : List UInt8) (value : ℕ), (∀ b ∈ bs, (hexDigit b).isSome) →
      (bs.foldl (fun value b => 16 * value + (hexDigit b).getD 0) value = 0 ↔ value = 0 ∧
        ∀ b ∈ bs, b = 48) := by
    intro bs
    induction bs with
    | nil => simp
    | cons b bs ih =>
      intro value h
      rw [List.foldl_cons, ih _ fun c hc => h c (List.mem_cons_of_mem b hc), List.forall_mem_cons,
        ← hexDigit_eq_zero (h b List.mem_cons_self), ← and_assoc]
      refine and_congr_left' ?_
      omega
  exact (hfold bs 0 h).trans (and_iff_right rfl)

/-- The size field of a line with digits, and of a part of one. -/
theorem sizeField_eq {ds tail : List UInt8} (hne : ds ≠ []) (h : ∀ b ∈ ds, (hexDigit b).isSome)
    (htail : ∀ b ∈ tail.takeWhile (· ≠ 59), isSpace b = true) :
    int16 (strip ((ds ++ tail).takeWhile (· ≠ 59))) = some (valueOf ds : ℤ) := by
  have hsemicolon : (ds ++ tail).takeWhile (· ≠ 59) = ds ++ tail.takeWhile (· ≠ 59) := by
    apply List.takeWhile_append_of_pos
    intro b hb
    have hne : b ≠ 59 := by
      rintro rfl
      exact absurd (h _ hb) (by decide)
    simpa using hne
  rw [hsemicolon, strip_append hne (fun b hb => not_isSpace_of_hex (h b hb)) htail, int16_eq hne h]

variable {size : ℕ}

namespace SizeLine

theorem not_mem_text (l : SizeLine size) : 10 ∉ l.text := by
  intro hmem
  rcases List.mem_append.mp hmem with hmem | hmem
  · exact absurd (l.isHex _ hmem) (by decide)
  · exact l.isExtension.1 hmem

theorem text_ne_nil (l : SizeLine size) : l.text ≠ [] :=
  List.append_ne_nil_of_left_ne_nil l.digits_ne_nil _

/-- Between the digits and the semicolon, or the end, there are blanks. -/
theorem blank_tail (l : SizeLine size) {tail : List UInt8} (h : tail <+: l.extension ++ crlf) :
    ∀ b ∈ tail.takeWhile (· ≠ 59), isSpace b = true := by
  obtain ⟨more, hmore⟩ := h
  have hwhole : ∀ b ∈ (l.extension ++ crlf).takeWhile (· ≠ 59), isSpace b = true := by
    rcases l.isExtension.2 with hnil | ⟨blanks, rest, heq, hblanks⟩
    · intro b hb
      rw [hnil, List.nil_append] at hb
      rcases List.mem_pair.mp (List.takeWhile_subset _ hb) with rfl | rfl <;> rfl
    · have htake : (l.extension ++ crlf).takeWhile (· ≠ 59) = blanks := by
        rw [heq, List.append_assoc, List.takeWhile_append_of_pos, List.cons_append,
          List.takeWhile_cons_of_neg (by simp), List.append_nil]
        intro b hb
        rcases hblanks b hb with rfl | rfl <;> decide
      rw [htake]
      intro b hb
      rcases hblanks b hb with rfl | rfl <;> decide
  intro b hb
  apply hwhole b
  rw [← hmore, List.takeWhile_append]
  split
  · exact List.mem_append_left _ (List.takeWhile_subset _ hb)
  · exact hb

/-- **The size of a line.** -/
theorem size_eq (l : SizeLine size) {tail : List UInt8} (h : tail <+: l.extension ++ crlf) :
    int16 (strip ((l.digits ++ tail).takeWhile (· ≠ 59))) = some (size : ℤ) := by
  rw [sizeField_eq l.digits_ne_nil l.isHex (l.blank_tail h), l.value]

theorem size_text (l : SizeLine size) : int16 (strip ((l.text ++ crlf).takeWhile (· ≠ 59))) =
    some (size : ℤ) := by
  rw [text, List.append_assoc]
  exact l.size_eq List.prefix_rfl

/-- A part of the digits is a size as well. -/
theorem size_part (l : SizeLine size) {part : List UInt8} (hne : part ≠ [])
    (h : part <+: l.digits) :
    int16 (strip (part.takeWhile (· ≠ 59))) = some (valueOf part : ℤ) := by
  have hpart := @sizeField_eq part [] hne (fun b hb => l.isHex b (h.subset hb)) (by simp)
  rwa [List.append_nil] at hpart

end SizeLine

/-! ### One step of the reader -/

theorem readexactly_append (data rest : List UInt8) :
    readexactly data.length (data ++ rest) = .ok (data, rest) := by
  rw [readexactly, if_neg (by omega), if_pos (by rw [List.length_append]; omega), Int.toNat_natCast,
    List.take_left, List.drop_left]

theorem readexactly_short {n : ℕ} {data : List UInt8} (h : data.length < n) :
    readexactly n data = .error (.other "IncompleteReadError") := by
  rw [readexactly, if_neg (by omega), if_neg (by omega)]

theorem readTrailer_of_line {line data rest : List UInt8} (h : readline data = .ok (line, rest))
    (fuel : ℕ) :
    readTrailer (fuel + 1) data = if line = crlf ∨ line = [] then .ok rest
      else readTrailer fuel rest := by
  rw [readTrailer, h, Except.bind_ok]
  rfl

theorem readTrailer_of_error {data : List UInt8} {e : Exc} (h : readline data = .error e)
    (fuel : ℕ) :
    readTrailer (fuel + 1) data = .error e := by
  rw [readTrailer, h, Except.bind_error]

theorem readTrailer_crlf (fuel : ℕ) (rest : List UInt8) :
    readTrailer (fuel + 1) (crlf ++ rest) = .ok rest := by
  have hline := @readline_text [] (by simp) rest
  rw [if_pos (by decide), List.nil_append] at hline
  rw [readTrailer_of_line hline, if_pos (.inl rfl)]

theorem readTrailer_field (fuel : ℕ) (f : Field) (rest : List UInt8) :
    readTrailer (fuel + 1) (f.text ++ crlf ++ rest) =
      if FitsLine f.text then readTrailer fuel rest else .error (.other "ValueError") := by
  have hline := readline_text f.oneLine rest
  split
  · next hfits =>
    rw [if_pos hfits] at hline
    have hne : ¬ (f.text ++ crlf = crlf ∨ f.text ++ crlf = []) := by
      rintro (h | h)
      · exact f.ne_nil (List.append_left_eq_self.mp h)
      · exact f.ne_nil (List.append_eq_nil_iff.mp h).1
    rw [readTrailer_of_line hline, if_neg hne]
  · next hfits =>
    rw [if_neg hfits] at hline
    exact readTrailer_of_error hline fuel

/-- The loop over the chunks, once the size is known. -/
theorem readChunks_of_size {line data rest : List UInt8} {n : ℤ}
    (h : readline data = .ok (line, rest)) (hne : line ≠ [])
    (hsize : int16 (strip (line.takeWhile (· ≠ 59))) = some n) (fuel : ℕ) :
    readChunks (fuel + 1) data =
      if n = 0 then (readTrailer (rest.length + 1) rest).map fun rest => ([], rest)
      else (do
        let (chunk, rest) ← readexactly n rest
        let (terminator, rest) ← readexactly 2 rest
        if terminator ≠ crlf then .error (.connectionError "malformed chunk terminator")
        else (readChunks fuel rest).map fun r => (chunk ++ r.1, r.2)) := by
  rw [readChunks, h, Except.bind_ok]
  dsimp only
  rw [if_neg hne, hsize]
  dsimp only
  split
  · cases readTrailer (rest.length + 1) rest <;> rfl
  · rfl

theorem readChunks_of_error {data : List UInt8} {e : Exc} (h : readline data = .error e)
    (fuel : ℕ) :
    readChunks (fuel + 1) data = .error e := by
  rw [readChunks, h, Except.bind_error]

/-- **A chunk is read**, and then the others. -/
theorem readChunks_chunk (fuel : ℕ) (c : Chunk) (more : List UInt8) :
    readChunks (fuel + 1) (c.encode ++ more) =
      if FitsLine c.line.text then (readChunks fuel more).map fun r => (c.data ++ r.1, r.2)
      else .error (.other "ValueError") := by
  have hsplit : c.encode ++ more = c.line.text ++ crlf ++ (c.data ++ (crlf ++ more)) := by
    simp only [Chunk.encode, List.append_assoc]
  have hline := readline_text c.line.not_mem_text (c.data ++ (crlf ++ more))
  rw [hsplit]
  split
  · next hfits =>
    rw [if_pos hfits] at hline
    have hpos : (c.data.length : ℤ) ≠ 0 := by
      rw [Int.natCast_ne_zero]
      exact fun h => c.ne_nil (List.length_eq_zero_iff.mp h)
    have hterminator : readexactly 2 (crlf ++ more) = .ok (crlf, more) :=
      readexactly_append crlf more
    rw [readChunks_of_size hline (List.append_ne_nil_of_left_ne_nil c.line.text_ne_nil _)
      c.line.size_text, if_neg hpos,
      readexactly_append, Except.bind_ok]
    dsimp only
    rw [hterminator, Except.bind_ok]
    rfl
  · next hfits =>
    rw [if_neg hfits] at hline
    exact readChunks_of_error hline fuel

/-- **The last chunk is read**, and then the trailer. -/
theorem readChunks_last (fuel : ℕ) (l : SizeLine 0) (more : List UInt8) :
    readChunks (fuel + 1) (l.text ++ crlf ++ more) =
      if FitsLine l.text then (readTrailer (more.length + 1) more).map fun rest => ([], rest)
      else .error (.other "ValueError") := by
  have hline := readline_text l.not_mem_text more
  split
  · next hfits =>
    rw [if_pos hfits] at hline
    rw [readChunks_of_size hline (List.append_ne_nil_of_left_ne_nil l.text_ne_nil _) l.size_text,
      if_pos (show ((0 : ℕ) : ℤ) = 0 from rfl)]
  · next hfits =>
    rw [if_neg hfits] at hline
    exact readChunks_of_error hline fuel

/-! ### Whole bodies -/

theorem encodeTrailer_cons (f : Field) (trailer : List Field) :
    encodeTrailer (f :: trailer) = f.text ++ crlf ++ encodeTrailer trailer := by
  simp only [encodeTrailer, List.flatMap_cons, List.append_assoc]

theorem encodeFrom_nil (last : SizeLine 0) (trailer : List Field) :
    encodeFrom [] last trailer = last.text ++ crlf ++ encodeTrailer trailer := rfl

theorem encodeFrom_cons (c : Chunk) (chunks : List Chunk) (last : SizeLine 0)
    (trailer : List Field) :
    encodeFrom (c :: chunks) last trailer = c.encode ++ encodeFrom chunks last trailer := by
  simp only [encodeFrom, List.flatMap_cons, List.append_assoc]

theorem encode_ne_nil (c : Chunk) : c.encode ≠ [] :=
  List.append_ne_nil_of_left_ne_nil (List.append_ne_nil_of_left_ne_nil c.line.text_ne_nil _) _

/-- A trailer that arrives whole is read where its lines are within the limit. -/
theorem readTrailer_whole {trailer : List Field} {rest : List UInt8} {fuel : ℕ}
    (hfuel : (encodeTrailer trailer ++ rest).length < fuel) :
    readTrailer fuel (encodeTrailer trailer ++ rest) = .ok rest ↔
      ∀ f ∈ trailer, FitsLine f.text := by
  induction trailer generalizing fuel with
  | nil =>
    obtain ⟨fuel, rfl⟩ := Nat.exists_eq_add_one_of_ne_zero (Nat.ne_of_gt (Nat.zero_lt_of_lt hfuel))
    refine iff_of_true (readTrailer_crlf fuel rest) (by simp)
  | cons f trailer ih =>
    obtain ⟨fuel, rfl⟩ := Nat.exists_eq_add_one_of_ne_zero (Nat.ne_of_gt (Nat.zero_lt_of_lt hfuel))
    rw [encodeTrailer_cons, List.append_assoc] at hfuel ⊢
    rw [readTrailer_field, List.forall_mem_cons]
    have hrest : (encodeTrailer trailer ++ rest).length < fuel := by
      have hpos := List.length_pos_iff.mpr f.ne_nil
      simp only [List.length_append] at hfuel ⊢
      omega
    split
    · next hfits => rw [ih hrest, and_iff_right hfits]
    · next hfits => exact iff_of_false (by simp) fun h => hfits h.1

/-- **A body that arrives whole is read exactly**, where its lines are within the limit. -/
theorem readChunks_whole {chunks : List Chunk} {last : SizeLine 0} {trailer : List Field}
    {rest : List UInt8} {fuel : ℕ}
    (hfuel : (encodeFrom chunks last trailer ++ rest).length < fuel) :
    readChunks fuel (encodeFrom chunks last trailer ++ rest) =
      .ok (chunks.flatMap Chunk.data, rest) ↔
      (∀ c ∈ chunks, FitsLine c.line.text) ∧ FitsLine last.text ∧ ∀ f ∈ trailer,
        FitsLine f.text := by
  induction chunks generalizing fuel with
  | nil =>
    obtain ⟨fuel, rfl⟩ := Nat.exists_eq_add_one_of_ne_zero (Nat.ne_of_gt (Nat.zero_lt_of_lt hfuel))
    have hsplit : encodeFrom [] last trailer ++ rest = last.text ++ crlf ++
        (encodeTrailer trailer ++ rest) := by
      simp only [encodeFrom, List.flatMap_nil, List.nil_append, List.append_assoc]
    rw [hsplit, readChunks_last,
      ← readTrailer_whole (Nat.lt_succ_self (encodeTrailer trailer ++ rest).length)]
    split
    · next hfits =>
      cases readTrailer ((encodeTrailer trailer ++ rest).length + 1)
        (encodeTrailer trailer ++ rest) <;>
        simp [Except.map, hfits]
    · next hfits => exact iff_of_false (by simp) fun h => hfits h.2.1
  | cons c chunks ih =>
    obtain ⟨fuel, rfl⟩ := Nat.exists_eq_add_one_of_ne_zero (Nat.ne_of_gt (Nat.zero_lt_of_lt hfuel))
    rw [encodeFrom_cons, List.append_assoc] at hfuel ⊢
    rw [readChunks_chunk, List.forall_mem_cons, List.flatMap_cons]
    have hrest : (encodeFrom chunks last trailer ++ rest).length < fuel := by
      have hpos := List.length_pos_iff.mpr (encode_ne_nil c)
      rw [List.length_append] at hfuel
      omega
    split
    · next hfits =>
      rw [and_assoc, and_iff_right hfits, ← ih hrest]
      cases readChunks fuel (encodeFrom chunks last trailer ++ rest) <;>
        simp [Except.map, Prod.ext_iff]
    · next hfits => exact iff_of_false (by simp) fun h => hfits h.1.1

/-! ### Parts -/

theorem readTrailer_nil (fuel : ℕ) : readTrailer fuel [] = .ok [] := by
  cases fuel with
  | zero => rfl
  | succ fuel =>
    have hline : readline [] = .ok ([], []) := rfl
    rw [readTrailer_of_line hline, if_pos (.inr rfl)]

/-- A part of a line is read where it is within the limit. -/
theorem readTrailer_part {part : List UInt8} (h : 10 ∉ part) (fuel : ℕ) :
    (∃ rest, readTrailer (fuel + 1) part = .ok rest) ↔ FitsLines part := by
  rw [fitsLines_line h]
  have hline := readline_end h
  split at hline
  · next hlong =>
    rw [readTrailer_of_error hline]
    exact iff_of_false (by simp) (not_le.mpr hlong)
  · next hshort =>
    rw [readTrailer_of_line hline, readTrailer_nil, ite_self]
    exact iff_of_true ⟨[], rfl⟩ (not_lt.mp hshort)

/-- **A trailer that is cut off is taken for a whole one.** -/
theorem readTrailer_cut {trailer : List Field} {part : List UInt8} {fuel : ℕ}
    (hfuel : part.length < fuel)
    (hpart : part <+: encodeTrailer trailer) (hproper : part ≠ encodeTrailer trailer) :
    (∃ rest, readTrailer fuel part = .ok rest) ↔ FitsLines part := by
  induction trailer generalizing part fuel with
  | nil =>
    obtain ⟨fuel, rfl⟩ := Nat.exists_eq_add_one_of_ne_zero (Nat.ne_of_gt (Nat.zero_lt_of_lt hfuel))
    exact readTrailer_part (not_mem_of_part (@prefix_of_cut part [] hpart hproper) (by simp)) fuel
  | cons f trailer ih =>
    obtain ⟨fuel, rfl⟩ := Nat.exists_eq_add_one_of_ne_zero (Nat.ne_of_gt (Nat.zero_lt_of_lt hfuel))
    rw [encodeTrailer_cons] at hpart hproper
    rcases prefix_append_cases hpart with ⟨hline, hcut⟩ | ⟨more, rfl, hmore⟩
    · exact readTrailer_part (not_mem_of_part (prefix_of_cut hline hcut) f.oneLine) fuel
    · rw [readTrailer_field, fitsLines_append f.oneLine]
      split
      · next hfits =>
        have hpos := List.length_pos_iff.mpr f.ne_nil
        simp only [List.length_append] at hfuel
        rw [and_iff_right hfits]
        refine ih (by omega) hmore ?_
        rintro rfl
        exact hproper rfl
      · next hfits => exact iff_of_false (by simp) fun h => hfits h.1

/-- A chunk of which something is missing is not read. -/
theorem not_ok_of_short {line data rest : List UInt8} {n : ℕ} (h : readline data = .ok (line, rest))
    (hne : line ≠ [])
    (hsize : int16 (strip (line.takeWhile (· ≠ 59))) = some (n : ℤ)) (hn : n ≠ 0)
    (hshort : rest.length < n + 2)
    (fuel : ℕ) : ¬ ∃ r, readChunks (fuel + 1) data = .ok r := by
  rw [readChunks_of_size h hne hsize, if_neg (Int.natCast_ne_zero.mpr hn)]
  rintro ⟨r, hr⟩
  obtain ⟨⟨chunk, rest'⟩, hchunk, hr⟩ := Except.bind_eq_ok.mp hr
  obtain ⟨terminator, hterminator, -⟩ := Except.bind_eq_ok.mp hr
  rcases Nat.lt_or_ge rest.length n with hlt | hge
  · rw [readexactly_short hlt] at hchunk
    cases hchunk
  · rw [readexactly, if_neg (by omega), if_pos (by omega)] at hchunk
    cases hchunk
    have hrest : (rest.drop (n : ℤ).toNat).length < 2 := by
      rw [List.length_drop, Int.toNat_natCast]
      omega
    have hshort' : readexactly 2 (rest.drop (n : ℤ).toNat) =
        .error (.other "IncompleteReadError") := readexactly_short hrest
    rw [hshort'] at hterminator
    cases hterminator

theorem readChunks_nil (fuel : ℕ) : ¬ ∃ r, readChunks (fuel + 1) [] = .ok r := by
  rintro ⟨r, hr⟩
  cases hr

/-- The end of the stream in place of a size that is not zero, and in place of one that is. -/
theorem readChunks_sizePart {part : List UInt8} {n : ℕ} (hline : readline part = .ok (part, []))
    (hne : part ≠ [])
    (hsize : int16 (strip (part.takeWhile (· ≠ 59))) = some (n : ℤ)) (fuel : ℕ) :
    (∃ r, readChunks (fuel + 1) part = .ok r) ↔ n = 0 := by
  by_cases hn : n = 0
  · subst hn
    rw [readChunks_of_size hline hne hsize, if_pos (show ((0 : ℕ) : ℤ) = 0 from rfl),
      readTrailer_nil]
    exact iff_of_true ⟨_, rfl⟩ rfl
  · exact iff_of_false (not_ok_of_short hline hne hsize hn (Nat.zero_lt_of_ne_zero (by omega)) fuel)
      hn

/-- **What is read of a part of a size line**: a size of zero, where there are no digits but
zeros. -/
theorem readChunks_linePart (l : SizeLine size) {part : List UInt8}
    (hpart : part <+: l.text ++ [13]) (fuel : ℕ) :
    (∃ r, readChunks (fuel + 1) part = .ok r) ↔
      part ≠ [] ∧ FitsLines part ∧ (size = 0 ∨ part <+: l.digits ∧ ∀ b ∈ part, b = 48) := by
  have hmem := not_mem_of_part hpart l.not_mem_text
  have hzeros : size = 0 ↔ ∀ b ∈ l.digits, b = 48 := by
    rw [← valueOf_eq_zero l.isHex, l.value]
  have hline := readline_end hmem
  rw [fitsLines_line hmem]
  split at hline
  · next hlong =>
    rw [readChunks_of_error hline]
    exact iff_of_false (by simp) fun h => absurd h.2.1 (not_le.mpr hlong)
  · next hshort =>
    by_cases hne : part = []
    · rw [hne]
      exact iff_of_false (readChunks_nil fuel) fun h => h.1 rfl
    · rw [and_iff_right hne, and_iff_right (not_lt.mp hshort)]
      rw [SizeLine.text, List.append_assoc] at hpart
      rcases prefix_append_cases hpart with ⟨hdigits, -⟩ | ⟨tail, rfl, htail⟩
      · have hvalue := @valueOf_eq_zero part fun b hb => l.isHex b (hdigits.subset hb)
        rw [readChunks_sizePart hline hne (l.size_part hne hdigits), hvalue, and_iff_right hdigits,
          hzeros]
        exact ⟨.inr, fun h => h.elim (fun h b hb => h b (hdigits.subset hb)) id⟩
      · have htail' : tail <+: l.extension ++ crlf :=
          htail.trans ((List.prefix_append_right_inj _).mpr ⟨[10], rfl⟩)
        rw [readChunks_sizePart hline hne (l.size_eq htail')]
        refine ⟨.inl, fun h => h.elim id fun h => hzeros.mpr ?_⟩
        intro b hb
        exact h.2 b (List.mem_append_left tail hb)

/-- What is read of the part of a chunk. -/
theorem readChunks_part {c : Chunk} {part : List UInt8} (hpart : part <+: c.encode)
    (hproper : part ≠ c.encode) (fuel : ℕ) :
    (∃ r, readChunks (fuel + 1) part = .ok r) ↔
      part ≠ [] ∧ part <+: c.line.digits ∧ (∀ b ∈ part, b = 48) ∧ FitsLines part := by
  have hsize : c.data.length ≠ 0 := fun h => c.ne_nil (List.length_eq_zero_iff.mp h)
  rcases prefix_append_cases hpart with ⟨hline, hcut⟩ | ⟨more, rfl, hmore⟩
  · rw [readChunks_linePart c.line (prefix_of_cut hline hcut)]
    tauto
  · have hlength : more.length < c.data.length + 2 := by
      have hend : (c.data ++ crlf).length = c.data.length + 2 := List.length_append
      rw [← hend]
      refine lt_of_le_of_ne hmore.length_le fun h => hproper ?_
      rw [Chunk.encode, hmore.eq_of_length h]
    have hlong : ¬ c.line.text ++ crlf ++ more <+: c.line.digits := by
      intro h
      have hle := h.length_le
      simp only [SizeLine.text, crlf, List.length_append, List.length_cons, List.length_nil] at hle
      omega
    refine iff_of_false ?_ fun h => hlong h.2.1
    have hline := readline_text c.line.not_mem_text more
    split at hline
    · exact not_ok_of_short hline (List.append_ne_nil_of_left_ne_nil c.line.text_ne_nil _)
        c.line.size_text hsize hlength fuel
    · rw [readChunks_of_error hline]
      simp

/-- **Which parts are taken for whole bodies.** -/
theorem readChunks_cut {chunks : List Chunk} {last : SizeLine 0} {trailer : List Field}
    {part : List UInt8} {fuel : ℕ}
    (hfuel : part.length < fuel) (hpart : part <+: encodeFrom chunks last trailer)
    (hproper : part ≠ encodeFrom chunks last trailer) :
    (∃ r, readChunks fuel part = .ok r) ↔ CutShort chunks part := by
  -- on the chunks before the cut
  induction chunks generalizing part fuel with
  | nil =>
    obtain ⟨fuel, rfl⟩ := Nat.exists_eq_add_one_of_ne_zero (Nat.ne_of_gt (Nat.zero_lt_of_lt hfuel))
    rw [encodeFrom_nil] at hpart hproper
    rw [CutShort]
    -- the cut falls within the last size line
    rcases prefix_append_cases hpart with ⟨hline, hcut⟩ | ⟨more, rfl, hmore⟩
    · rw [readChunks_linePart last (prefix_of_cut hline hcut)]
      tauto
    · have hne : last.text ++ crlf ++ more ≠ [] :=
        List.append_ne_nil_of_left_ne_nil (List.append_ne_nil_of_left_ne_nil last.text_ne_nil _) _
      -- the cut falls within the trailer
      have hcut : more ≠ encodeTrailer trailer := by
        rintro rfl
        exact hproper rfl
      have htrailer := readTrailer_cut (Nat.lt_succ_self more.length) hmore hcut
      rw [and_iff_right hne, readChunks_last, fitsLines_append last.not_mem_text, ← htrailer]
      split
      · next hfits => cases readTrailer (more.length + 1) more <;> simp [Except.map, hfits]
      · next hfits => exact iff_of_false (by simp) fun h => hfits h.1
  | cons c chunks ih =>
    obtain ⟨fuel, rfl⟩ := Nat.exists_eq_add_one_of_ne_zero (Nat.ne_of_gt (Nat.zero_lt_of_lt hfuel))
    rw [encodeFrom_cons] at hpart hproper
    rw [CutShort]
    rcases prefix_append_cases hpart with ⟨hchunk, hcut⟩ | ⟨more, rfl, hmore⟩
    -- the cut falls within the chunk, or behind it
    · rw [readChunks_part hchunk hcut]
      refine (or_iff_left ?_).symm
      rintro ⟨more, rfl, -⟩
      exact hcut (hchunk.eq_of_length_le (List.prefix_append c.encode more).length_le)
    · have hpos := List.length_pos_iff.mpr (encode_ne_nil c)
      have hlong : ¬ c.encode ++ more <+: c.line.digits := by
        intro h
        have hle := h.length_le
        simp only [Chunk.encode, SizeLine.text, crlf, List.length_append, List.length_cons,
          List.length_nil] at hle
        omega
      have hproper' : more ≠ encodeFrom chunks last trailer := by
        rintro rfl
        exact hproper rfl
      rw [List.length_append] at hfuel
      have hrest := ih (show more.length < fuel by omega) hmore hproper'
      rw [readChunks_chunk, or_iff_right fun h => hlong h.2.1]
      simp only [List.append_cancel_left_eq, exists_eq_left']
      rw [← hrest]
      split
      · next hfits => cases readChunks fuel more <;> simp [Except.map, hfits]
      · next hfits => exact iff_of_false (by simp) fun h => hfits h.1

/-- **Which streams are read as they should be**: whole ones with their lines within the limit, and
parts that do not end too late. -/
theorem asRead_iff {b : ChunkedBody} (s : Stream b) :
    s.AsRead ↔ match s with
      | .whole _ => b.Fits
      | .cut part _ _ => ¬ CutShort b.chunks part := by
  cases s with
  | whole rest => exact readChunks_whole (Nat.lt_succ_self _)
  | cut part hpart hproper =>
    have hcut := readChunks_cut (Nat.lt_succ_self part.length) hpart hproper
    show (∃ e, readChunks (part.length + 1) part = .error e) ↔ ¬ CutShort b.chunks part
    rw [← hcut]
    cases readChunks (part.length + 1) part <;> simp

/-- The body `abc` in one chunk. -/
def abc : ChunkedBody where
  chunks :=
    [{ data := [97, 98, 99]
       ne_nil := by decide
       line :=
         { digits := [51]
           digits_ne_nil := by decide
           isHex := List.forall_mem_singleton.mpr rfl
           value := rfl
           extension := []
           isExtension := ⟨by decide, .inl rfl⟩ } }]
  last :=
    { digits := [48]
      digits_ne_nil := by decide
      isHex := List.forall_mem_singleton.mpr rfl
      value := rfl
      extension := []
      isExtension := ⟨by decide, .inl rfl⟩ }
  trailer := []

/-- Without the end of its last size line it is taken for the whole body. -/
theorem not_asRead_abc :
    ∃ hpart hproper, readChunkedBody [51, 13, 10, 97, 98, 99, 13, 10, 48] = .ok ([97, 98, 99], []) ∧
      ¬ (@Stream.cut abc [51, 13, 10, 97, 98, 99, 13, 10, 48] hpart hproper).AsRead := by
  have hread : readChunkedBody [51, 13, 10, 97, 98, 99, 13, 10, 48] = .ok ([97, 98, 99], []) := by
    decide
  refine ⟨⟨[13, 10, 13, 10], rfl⟩, by decide, hread, ?_⟩
  rintro ⟨e, he⟩
  rw [hread] at he
  cases he

end Pyrogram.Chunked
