import Pyrogram.Connection.ChunkedBody
import Mathlib.Algebra.Group.Nat.Defs
import Mathlib.Data.List.TakeWhile
import Mathlib.Logic.Function.Basic

/-!
# The responses of the relay

A response is a status line, header fields up to an empty line, and a body that is framed by its
length or in chunks.  A stream that ends in the middle of one is read like one that goes on:
`readline` gives what is left, and the end of the fields is where nothing is.

Text is Latin-1, so its characters are the bytes.

## Main definitions

* `int` — `int(...)`.
* `readStatusAndHeaders`, `readBody`, `readResponse` — the reader.
* `Sent` — a response as it is sent.

## Main results

* `readResponse_sent` — **a response that arrives whole is read exactly, and one that is cut short
  is not read at all.**
-/

namespace Pyrogram.Http

open Chunked (readline readexactly crlf readChunkedBody ChunkedBody FitsLine CutShort)

/-! ### Text -/

/-- The text of a literal. -/
def latin1 (s : String) : List UInt8 := s.toList.map fun c => UInt8.ofNat c.toNat

/-- Whitespace of `str`. -/
def isSpace (b : UInt8) : Bool := (9 ≤ b && b ≤ 13) || (28 ≤ b && b ≤ 32) || b = 0x85 || b = 0xa0

def strip (s : List UInt8) : List UInt8 := ((s.dropWhile isSpace).reverse.dropWhile isSpace).reverse

def lowerChar (b : UInt8) : UInt8 :=
  if (65 ≤ b ∧ b ≤ 90) ∨ (0xc0 ≤ b ∧ b ≤ 0xde ∧ b ≠ 0xd7) then b + 32 else b

def lower (s : List UInt8) : List UInt8 := s.map lowerChar

/-- `split(None, 2)[1]`, which is empty where there is no such field. -/
def secondField (s : List UInt8) : List UInt8 :=
  (((s.dropWhile isSpace).dropWhile (! isSpace ·)).dropWhile isSpace).takeWhile (! isSpace ·)

def decDigit (b : UInt8) : Option ℕ := if 48 ≤ b ∧ b ≤ 57 then some (b.toNat - 48) else none

/-- The digits of a number, with the value of those before; a single underscore may stand between
two. -/
def digitsFrom (value : ℕ) : List UInt8 → Option ℕ
  | [] => some value
  | [b] => (decDigit b).map (10 * value + ·)
  | b :: c :: bs =>
      if b = 95 then (decDigit c).bind fun digit => digitsFrom (10 * value + digit) bs
      else (decDigit b).bind fun digit => digitsFrom (10 * value + digit) (c :: bs)

def digits : List UInt8 → Option ℕ
  | [] => none
  | b :: bs => (decDigit b).bind fun digit => digitsFrom digit bs

/-- `int(...)` of text without whitespace around it; `none` is a `ValueError`. -/
def int : List UInt8 → Option ℤ
  | 43 :: bs => (digits bs).map Int.ofNat
  | 45 :: bs => (digits bs).map fun n => -Int.ofNat n
  | bs => (digits bs).map Int.ofNat

/-! ### The reader -/

/-- A dictionary of header fields, of which only `get` is used. -/
abbrev Headers := List UInt8 → Option (List UInt8)

structure StatusAndHeaders where
  status : ℤ
  headers : Headers

structure HttpResponse where
  status : ℤ
  headers : Headers
  body : List UInt8

/-- What a line of the header sets. -/
def setHeader (headers : Headers) (line : List UInt8) : Headers :=
  let name := line.takeWhile (· ≠ 58)
  Function.update headers (lower (strip name)) (some (strip (line.drop (name.length + 1))))

/-- The header fields and the empty line, in a stream of fewer bytes than `fuel`. -/
def readHeaders : ℕ → Headers → List UInt8 → Except Exc (Headers × List UInt8)
  | 0, headers, data => .ok (headers, data)
  | fuel + 1, headers, data => do
      let (line, data) ← readline data
      if line = crlf ∨ line = [] then return (headers, data)
      else readHeaders fuel (setHeader headers line) data

/-- `_read_status_and_headers` -/
def readStatusAndHeaders (data : List UInt8) : Except Exc (StatusAndHeaders × List UInt8) := do
  let (statusLine, data) ← readline data
  if statusLine = [] then .error (.connectionError "connection closed before a response arrived")
  else
    match int (secondField statusLine) with
    | none => .error (.connectionError "malformed HTTP status line")
    | some status =>
        let (headers, data) ← readHeaders (data.length + 1) (fun _ => none) data
        return (⟨status, headers⟩, data)

def noContent : ℤ := 204

/-- `_read_body` -/
def readBody (status : ℤ) (headers : Headers) (data : List UInt8) :
    Except Exc (List UInt8 × List UInt8) :=
  let transferEncoding := lower ((headers (latin1 "transfer-encoding")).getD [])
  if latin1 "chunked" <:+: transferEncoding then readChunkedBody data
  else
    match headers (latin1 "content-length") with
    | some contentLength =>
        match int contentLength with
        | none => .error (.connectionError "malformed Content-Length header")
        | some contentLength => readexactly contentLength data
    | none =>
        if status = noContent then .ok ([], data)
        else .error (.connectionError
          s!"HTTP {status} response has neither Content-Length nor chunked framing")

/-- `_send_and_read`, after the request: the response, and what is left of the stream. -/
def readResponse (data : List UInt8) : Except Exc (HttpResponse × List UInt8) := do
  let (head, data) ← readStatusAndHeaders data
  let (body, data) ← readBody head.status head.headers data
  return (⟨head.status, head.headers, body⟩, data)

/-- Whether the response asks to close the connection. -/
def HttpResponse.closes (response : HttpResponse) : Bool :=
  lower ((response.headers (latin1 "connection")).getD []) = latin1 "close"

/-! ### What is sent -/

/-- The value of decimal digits, behind those of `value`. -/
def valueFrom (value : ℕ) (ds : List UInt8) :
    ℕ := ds.foldl (fun value b => 10 * value + (decDigit b).getD 0) value

/-- A number as it is written; only zero begins with a zero. -/
structure Numeral (n : ℕ) where
  digits : List UInt8
  ne_nil : digits ≠ []
  isDec : ∀ b ∈ digits, (decDigit b).isSome
  value : valueFrom 0 digits = n
  lead : n ≠ 0 → ∀ bs, digits ≠ 48 :: bs

/-- `HTTP/1.1 200 OK`; the reason begins with a blank where there is one. -/
structure StatusLine where
  version : List UInt8
  version_ne_nil : version ≠ []
  version_solid : ∀ b ∈ version, isSpace b = false
  status : ℕ
  code : Numeral status
  code_length : code.digits.length = 3
  reason : List UInt8
  reason_line : 10 ∉ reason
  reason_blank : reason = [] ∨ ∃ b bs, reason = b :: bs ∧ isSpace b = true

def StatusLine.text (l : StatusLine) : List UInt8 := l.version ++ 32 :: (l.code.digits ++ l.reason)

/-- A header field; the value has the blanks around it. -/
structure Field where
  name : List UInt8
  value : List UInt8
  name_line : 10 ∉ name
  name_colon : 58 ∉ name
  value_line : 10 ∉ value

namespace Field

def text (f : Field) : List UInt8 := f.name ++ 58 :: f.value

/-- The name by which a field is found. -/
def key (f : Field) : List UInt8 := lower (strip f.name)

end Field

/-- How a body is framed. -/
inductive Body
  | sized (data : List UInt8)
  | chunked (b : ChunkedBody)
  | nothing

def Body.data : Body → List UInt8
  | sized data => data
  | chunked b => b.body
  | nothing => []

def Body.encode : Body → List UInt8
  | sized data => data
  | chunked b => b.encode
  | nothing => []

def Body.Fits : Body → Prop
  | chunked b => b.Fits
  | sized _ | nothing => True

/-- The fields that tell the framing. -/
def Body.Framed (status : ℕ) (fields : List Field) : Body → Prop
  | sized data => (∃ f ∈ fields, f.key = latin1 "content-length") ∧ (∀ f ∈ fields, f.key ≠
      latin1 "transfer-encoding") ∧
      ∀ f ∈ fields, f.key = latin1 "content-length" → ∃ n :
        Numeral data.length, f.value = 32 :: n.digits
  | chunked _ => (∃ f ∈ fields, f.key = latin1 "transfer-encoding") ∧ (∀ f ∈ fields, f.key ≠
      latin1 "content-length") ∧
      ∀ f ∈ fields, f.key = latin1 "transfer-encoding" → latin1 "chunked" <:+: lower (strip f.value)
  | nothing => (status :
      ℤ) = noContent ∧ ∀ f ∈ fields, f.key ≠ latin1 "content-length" ∧
      f.key ≠ latin1 "transfer-encoding"

structure Sent where
  statusLine : StatusLine
  fields : List Field
  body : Body
  framed : body.Framed statusLine.status fields

namespace Sent

def encodeFields (fields : List Field) : List UInt8 :=
  (fields.flatMap fun f => f.text ++ crlf) ++ crlf

def head (r : Sent) : List UInt8 := r.statusLine.text ++ crlf ++ encodeFields r.fields

def encode (r : Sent) : List UInt8 := r.head ++ r.body.encode

/-- The headers that are read: of fields with one name the last. -/
def headersFrom (headers : Headers) (fields : List Field) : Headers :=
  fields.foldl (fun headers f => Function.update headers f.key (some (strip f.value))) headers

def HeadFits (r : Sent) : Prop := FitsLine r.statusLine.text ∧ ∀ f ∈ r.fields, FitsLine f.text

instance (r : Sent) : Decidable r.HeadFits := inferInstanceAs (Decidable (_ ∧ _))

/-- All lines are within the limit of the stream. -/
def Fits (r : Sent) : Prop := r.HeadFits ∧ r.body.Fits

end Sent

/-! ### Text -/

theorem dropWhile_solid {s : List UInt8} (hne : s ≠ []) (hs : ∀ b ∈ s, isSpace b = false)
    (rest : List UInt8) :
    (s ++ rest).dropWhile isSpace = s ++ rest := by
  cases s with
  | nil => exact absurd rfl hne
  | cons b s => exact List.dropWhile_cons_of_neg (by simp [hs b List.mem_cons_self])

/-- Blanks at the end are stripped. -/
theorem strip_append_blank (s : List UInt8) {blanks : List UInt8}
    (hblanks : ∀ b ∈ blanks, isSpace b = true) :
    strip (s ++ blanks) = strip s := by
  have hend : ∀ l : List UInt8, ((l ++ blanks).reverse.dropWhile isSpace).reverse =
      (l.reverse.dropWhile isSpace).reverse := by
    intro l
    rw [List.reverse_append, List.dropWhile_append_of_pos (by simpa using hblanks)]
  by_cases hall : ∀ b ∈ s, isSpace b = true
  · have hs : s.dropWhile isSpace = [] := List.dropWhile_eq_nil_iff.mpr hall
    have hboth : (s ++ blanks).dropWhile isSpace = [] := by
      refine List.dropWhile_eq_nil_iff.mpr fun b hb => ?_
      exact (List.mem_append.mp hb).elim (hall b) (hblanks b)
    rw [strip, strip, hs, hboth]
  · have hfront : (s ++ blanks).dropWhile isSpace = s.dropWhile isSpace ++ blanks := by
      rw [List.dropWhile_append, if_neg]
      rw [List.isEmpty_iff, List.dropWhile_eq_nil_iff]
      exact hall
    rw [strip, strip, hfront, hend]

theorem strip_solid {s : List UInt8} (hs : ∀ b ∈ s, isSpace b = false) : strip s = s := by
  cases s with
  | nil => rfl
  | cons b s =>
    have hend : ∀ c ∈ (b :: s).reverse, isSpace c = false :=
      fun c hc => hs c (List.mem_reverse.mp hc)
    have hreverse := dropWhile_solid (List.reverse_ne_nil_iff.mpr (List.cons_ne_nil b s)) hend []
    have hfront := dropWhile_solid (List.cons_ne_nil b s) hs []
    rw [List.append_nil] at hreverse hfront
    rw [strip, hfront, hreverse, List.reverse_reverse]

theorem strip_blank_cons (s : List UInt8) : strip (32 :: s) = strip s := rfl

/-- The second field of a line: up to a blank or the end. -/
theorem secondField_eq {version field rest : List UInt8} (hne : version ≠ [])
    (hversion : ∀ b ∈ version, isSpace b = false)
    (hfield : ∀ b ∈ field, isSpace b = false)
    (hrest : rest = [] ∨ field ≠ [] ∧ ∃ b bs, rest = b :: bs ∧ isSpace b = true) :
    secondField (version ++ 32 :: (field ++ rest)) = field := by
  have hskip : ((version ++ 32 :: (field ++ rest)).dropWhile isSpace).dropWhile (! isSpace ·) =
      32 :: (field ++ rest) := by
    rw [dropWhile_solid hne hversion, List.dropWhile_append_of_pos (by simpa using hversion)]
    exact List.dropWhile_cons_of_neg (by decide)
  have hblank : (32 :: (field ++ rest)).dropWhile isSpace = (field ++ rest).dropWhile isSpace :=
    List.dropWhile_cons_of_pos (by decide)
  rw [secondField, hskip, hblank]
  rcases hrest with rfl | ⟨hfield_ne, b, bs, rfl, hb⟩
  · cases field with
    | nil => rfl
    | cons c field =>
      rw [dropWhile_solid (List.cons_ne_nil c field) hfield, List.append_nil]
      exact List.takeWhile_eq_self_iff.mpr (by simpa using hfield)
  · rw [dropWhile_solid hfield_ne hfield, List.takeWhile_append_of_pos (by simpa using hfield),
      List.takeWhile_cons_of_neg (by simp [hb]), List.append_nil]

/-! ### Numbers -/

theorem not_isSpace_of_dec {b : UInt8} (h : (decDigit b).isSome) : isSpace b = false := by
  have hrange : 48 ≤ b.toNat ∧ b.toNat ≤ 57 := by
    unfold decDigit at h
    split at h
    · next hle => simpa only [UInt8.le_iff_toNat_le, UInt8.reduceToNat] using hle
    · cases h
  simp only [isSpace, UInt8.le_iff_toNat_le, ← UInt8.toNat_inj, UInt8.reduceToNat,
    Bool.or_eq_false_iff, Bool.and_eq_false_iff, decide_eq_false_iff_not]
  omega

theorem digitsFrom_eq {ds : List UInt8} (h : ∀ b ∈ ds, (decDigit b).isSome) (value : ℕ) :
    digitsFrom value ds = some (valueFrom value ds) := by
  induction ds generalizing value with
  | nil => rfl
  | cons b ds ih =>
    obtain ⟨digit, hdigit⟩ := Option.isSome_iff_exists.mp (h b List.mem_cons_self)
    have hrest := ih fun c hc => h c (List.mem_cons_of_mem b hc)
    have hne : b ≠ 95 := by
      rintro rfl
      cases hdigit
    have hvalue : valueFrom value (b :: ds) = valueFrom (10 * value + digit) ds := by
      rw [valueFrom, List.foldl_cons, hdigit, Option.getD_some]
      rfl
    rw [hvalue, ← hrest]
    cases ds with
    | nil => simp [digitsFrom, hdigit]
    | cons c ds => rw [digitsFrom, if_neg hne, hdigit, Option.bind_some]

/-- What is written in digits is read. -/
theorem int_eq {ds : List UInt8} (hne : ds ≠ []) (h : ∀ b ∈ ds, (decDigit b).isSome) :
    int ds = some (valueFrom 0 ds : ℤ) := by
  cases ds with
  | nil => exact absurd rfl hne
  | cons b ds =>
    have hdigits : digits (b :: ds) = some (valueFrom 0 (b :: ds)) := by
      rw [← digitsFrom_eq h]
      obtain ⟨digit, hdigit⟩ := Option.isSome_iff_exists.mp (h b List.mem_cons_self)
      have hb : b ≠ 95 := by
        rintro rfl
        cases hdigit
      cases ds with
      | nil => simp [digits, digitsFrom, hdigit]
      | cons c ds =>
        rw [digits, digitsFrom, if_neg hb, hdigit]
        simp
    have hsign : ∀ c : UInt8, decDigit c = none → b ≠ c := by
      rintro c hc rfl
      have := h b List.mem_cons_self
      rw [hc] at this
      cases this
    rw [int]
    · rw [hdigits]
      rfl
    · intro _ heq
      exact hsign 43 rfl (List.cons.inj heq).1
    · intro _ heq
      exact hsign 45 rfl (List.cons.inj heq).1

theorem valueFrom_pos {ds : List UInt8} {value : ℕ} (h : 0 < value) : 0 < valueFrom value ds := by
  induction ds generalizing value with
  | nil => exact h
  | cons b ds ih =>
    apply ih
    show 0 < 10 * value + (decDigit b).getD 0
    omega

theorem decDigit_lt {b : UInt8} {digit : ℕ} (h : decDigit b = some digit) : digit < 10 := by
  unfold decDigit at h
  split at h
  · next hle =>
    cases h
    simp only [UInt8.le_iff_toNat_le, UInt8.reduceToNat] at hle
    omega
  · cases h

theorem valueFrom_lt {ds : List UInt8} (value : ℕ) :
    valueFrom value ds < (value + 1) * 10 ^ ds.length := by
  induction ds generalizing value with
  | nil => simp [valueFrom]
  | cons b ds ih =>
    have hdigit : (decDigit b).getD 0 < 10 := by
      cases h : decDigit b with
      | none => decide
      | some digit => exact decDigit_lt h
    calc valueFrom value (b :: ds) < (10 * value + (decDigit b).getD 0 + 1) * 10 ^ ds.length := ih _
      _ ≤ ((value + 1) * 10) * 10 ^ ds.length := Nat.mul_le_mul_right _ (by omega)
      _ = (value + 1) * 10 ^ (b :: ds).length := by rw [List.length_cons, Nat.pow_succ',
        Nat.mul_assoc]

namespace Numeral

variable {n : ℕ}

theorem solid (m : Numeral n) : ∀ b ∈ m.digits, isSpace b = false :=
  fun b hb => not_isSpace_of_dec (m.isDec b hb)

theorem int_digits (m : Numeral n) :
    int m.digits = some (n : ℤ) := by rw [int_eq m.ne_nil m.isDec, m.value]

theorem int_prefix (m : Numeral n) {part : List UInt8} (hpart : part <+: m.digits)
    (hne : part ≠ []) :
    int part = some (valueFrom 0 part : ℤ) := int_eq hne fun b hb => m.isDec b (hpart.subset hb)

/-- The first digits of a number are not zero. -/
theorem prefix_pos (m : Numeral n) (hn : n ≠ 0) {part : List UInt8} (hpart : part <+: m.digits)
    (hne : part ≠ []) :
    0 < valueFrom 0 part := by
  cases part with
  | nil => exact absurd rfl hne
  | cons c part =>
    obtain ⟨bs, hbs⟩ := hpart
    rw [List.cons_append] at hbs
    obtain ⟨digit, hdigit⟩ := Option.isSome_iff_exists.mp (m.isDec c (hbs ▸ List.mem_cons_self))
    have hpos : 0 < digit := by
      unfold decDigit at hdigit
      split at hdigit
      · next hle =>
        obtain rfl := Option.some.inj hdigit
        simp only [UInt8.le_iff_toNat_le, UInt8.reduceToNat] at hle
        have hc : c.toNat ≠ 48 := by
          intro h
          obtain rfl : c = 48 := UInt8.toNat_inj.mp h
          exact m.lead hn _ hbs.symm
        omega
      · cases hdigit
    have hvalue : valueFrom 0 (c :: part) = valueFrom digit part := by
      rw [valueFrom, List.foldl_cons, hdigit]
      simp [valueFrom]
    rw [hvalue]
    exact valueFrom_pos hpos

end Numeral

/-! ### Reading what is whole -/

theorem readHeaders_of_line {line data rest : List UInt8} (h : readline data = .ok (line, rest))
    (fuel : ℕ) (headers : Headers) :
    readHeaders (fuel + 1) headers data =
      if line = crlf ∨ line = [] then .ok (headers, rest)
        else readHeaders fuel (setHeader headers line) rest := by
  rw [readHeaders, h, Except.bind_ok]
  rfl

theorem text_ne_nil (f : Field) : f.text ≠ [] :=
  List.append_ne_nil_of_right_ne_nil _ (List.cons_ne_nil _ _)

theorem text_line (f : Field) : 10 ∉ f.text := by
  intro h
  rcases List.mem_append.mp h with h | h
  · exact f.name_line h
  · exact (List.mem_cons.mp h).elim (fun h => nomatch h) f.value_line

theorem takeWhile_colon {name : List UInt8} (h : 58 ∉ name) (rest : List UInt8) :
    (name ++ 58 :: rest).takeWhile (· ≠ 58) = name := by
  have hname : ∀ b ∈ name, decide (b ≠ 58) = true := by
    intro b hb
    simpa using ne_of_mem_of_not_mem hb h
  rw [List.takeWhile_append_of_pos hname, List.takeWhile_cons_of_neg (by simp), List.append_nil]

/-- A line with a colon sets what is behind it. -/
theorem setHeader_colon (headers : Headers) (f : Field) (value : List UInt8) :
    setHeader headers (f.name ++ 58 :: value) = Function.update headers f.key
      (some (strip value)) := by
  have hvalue : (f.name ++ 58 :: value).drop (f.name.length + 1) = value := by
    rw [← List.drop_drop, List.drop_left]
    rfl
  rw [setHeader, takeWhile_colon f.name_colon, hvalue]
  rfl

theorem isSpace_crlf : ∀ b ∈ crlf, isSpace b = true := by
  simp [crlf, isSpace]

/-- A field that has come whole. -/
theorem readHeaders_field (fuel : ℕ) (headers : Headers) (f : Field) (rest : List UInt8) :
    readHeaders (fuel + 1) headers (f.text ++ crlf ++ rest) =
      if FitsLine f.text then readHeaders fuel
        (Function.update headers f.key (some (strip f.value))) rest
      else .error (.other "ValueError") := by
  have hread := Chunked.readline_text (text_line f) rest
  split
  · next hfits =>
    rw [if_pos hfits] at hread
    have hne : ¬ (f.text ++ crlf = crlf ∨ f.text ++ crlf = []) := by
      rintro (h | h)
      · exact text_ne_nil f (List.append_left_eq_self.mp h)
      · exact text_ne_nil f (List.append_eq_nil_iff.mp h).1
    have hset : setHeader headers (f.text ++ crlf) = Function.update headers f.key
        (some (strip f.value)) := by
      rw [Field.text, List.append_assoc, List.cons_append, setHeader_colon,
        strip_append_blank _ isSpace_crlf]
    rw [readHeaders_of_line hread, if_neg hne, hset]
  · next hfits =>
    rw [if_neg hfits] at hread
    rw [readHeaders, hread, Except.bind_error]

theorem encodeFields_cons (f : Field) (fields : List Field) :
    Sent.encodeFields (f :: fields) = f.text ++ crlf ++ Sent.encodeFields fields := by
  simp only [Sent.encodeFields, List.flatMap_cons, List.append_assoc]

/-- **Fields that have come whole are read** where their lines are within the limit. -/
theorem readHeaders_fields {fields : List Field} {fuel : ℕ} {headers : Headers} {rest : List UInt8}
    (hfuel : (Sent.encodeFields fields ++ rest).length < fuel) :
    readHeaders fuel headers (Sent.encodeFields fields ++ rest) =
      if ∀ f ∈ fields, FitsLine f.text then .ok (Sent.headersFrom headers fields, rest)
        else .error (.other "ValueError") := by
  induction fields generalizing fuel headers with
  | nil =>
    obtain ⟨fuel, rfl⟩ := Nat.exists_eq_add_one_of_ne_zero (Nat.ne_of_gt (Nat.zero_lt_of_lt hfuel))
    have hline := @Chunked.readline_text [] (by simp) rest
    rw [if_pos (by decide), List.nil_append] at hline
    rw [Sent.encodeFields, List.flatMap_nil, List.nil_append, readHeaders_of_line hline,
      if_pos (.inl rfl), if_pos (by simp)]
    rfl
  | cons f fields ih =>
    obtain ⟨fuel, rfl⟩ := Nat.exists_eq_add_one_of_ne_zero (Nat.ne_of_gt (Nat.zero_lt_of_lt hfuel))
    have hpos := List.length_pos_iff.mpr (text_ne_nil f)
    rw [encodeFields_cons, List.append_assoc, List.length_append, List.length_append] at hfuel
    rw [encodeFields_cons, List.append_assoc, readHeaders_field, ih (by omega)]
    by_cases hfits : FitsLine f.text
    · simp only [hfits, if_true, List.forall_mem_cons, true_and]
      rfl
    · simp only [hfits, if_false, List.forall_mem_cons, false_and]

theorem headersFrom_cons (headers : Headers) (f : Field) (fields : List Field) :
    Sent.headersFrom headers (f :: fields) =
    Sent.headersFrom (Function.update headers f.key (some (strip f.value))) fields := rfl

/-- What is found under a name is the value of a field. -/
theorem exists_field_of_headersFrom {headers : Headers} {fields : List Field}
    {key value : List UInt8}
    (h : Sent.headersFrom headers fields key = some value) :
    headers key = some value ∨ ∃ f ∈ fields, f.key = key ∧ strip f.value = value := by
  induction fields generalizing headers with
  | nil => exact .inl h
  | cons f fields ih =>
    rw [headersFrom_cons] at h
    rcases ih h with h | ⟨g, hmem, hkey⟩
    · rcases eq_or_ne key f.key with rfl | hne
      · rw [Function.update_self] at h
        exact .inr ⟨f, List.mem_cons_self, rfl, Option.some.inj h⟩
      · rw [Function.update_of_ne hne] at h
        exact .inl h
    · exact .inr ⟨g, List.mem_cons_of_mem f hmem, hkey⟩

theorem isSome_headersFrom {headers : Headers} {fields : List Field} {key : List UInt8}
    (h : (headers key).isSome ∨ ∃ f ∈ fields, f.key = key) :
    (Sent.headersFrom headers fields key).isSome := by
  induction fields generalizing headers with
  | nil => exact h.resolve_right (by simp)
  | cons f fields ih =>
    rw [headersFrom_cons]
    apply ih
    by_cases hkey : key = f.key
    · rw [hkey, Function.update_self]
      exact .inl rfl
    · rw [Function.update_of_ne hkey]
      refine h.imp_right ?_
      rintro ⟨g, hmem, rfl⟩
      exact ⟨g, (List.mem_cons.mp hmem).resolve_left (by rintro rfl; exact hkey rfl), rfl⟩

/-- A field that is there is found, or another one of its name. -/
theorem exists_headersFrom {fields : List Field} {key : List UInt8}
    (h : ∃ f ∈ fields, f.key = key) :
    ∃ f ∈ fields, f.key = key ∧ Sent.headersFrom (fun _ => none) fields key =
      some (strip f.value) := by
  obtain ⟨value, hvalue⟩ :=
    Option.isSome_iff_exists.mp (@isSome_headersFrom (fun _ => none) fields key (.inr h))
  obtain ⟨f, hmem, hkey, rfl⟩ := (exists_field_of_headersFrom hvalue).resolve_left (by simp)
  exact ⟨f, hmem, hkey, hvalue⟩

theorem headersFrom_eq_none {fields : List Field} {key : List UInt8}
    (h : ∀ f ∈ fields, f.key ≠ key) :
    Sent.headersFrom (fun _ => none) fields key = none := by
  rw [Option.eq_none_iff_forall_ne_some]
  intro value hvalue
  obtain ⟨f, hmem, hkey, -⟩ := (exists_field_of_headersFrom hvalue).resolve_left (by simp)
  exact h f hmem hkey

theorem text_line_status (l : StatusLine) : 10 ∉ l.text := by
  have hsolid : ∀ {s : List UInt8}, (∀ b ∈ s, isSpace b = false) → 10 ∉ s :=
    fun hs h => nomatch hs 10 h
  intro h
  simp only [StatusLine.text, List.mem_append, List.mem_cons] at h
  rcases h with h | h | h | h
  · exact hsolid l.version_solid h
  · cases h
  · exact hsolid l.code.solid h
  · exact l.reason_line h

theorem secondField_line (l : StatusLine) : secondField (l.text ++ crlf) = l.code.digits := by
  rw [StatusLine.text, List.append_assoc, List.cons_append, List.append_assoc]
  refine secondField_eq l.version_ne_nil l.version_solid l.code.solid (.inr ⟨l.code.ne_nil, ?_⟩)
  rcases l.reason_blank with hreason | ⟨b, bs, hreason, hb⟩
  · exact ⟨13, [10], by rw [hreason]; rfl, by decide⟩
  · exact ⟨b, bs ++ crlf, by rw [hreason, List.cons_append], hb⟩

/-- The head of a response that has come whole. -/
theorem readStatusAndHeaders_head (r : Sent) (rest : List UInt8) :
    readStatusAndHeaders (r.head ++ rest) =
    if r.HeadFits then
      .ok (⟨r.statusLine.status, Sent.headersFrom (fun _ => none) r.fields⟩, rest)
    else .error (.other "ValueError") := by
  have hread := Chunked.readline_text (text_line_status r.statusLine)
    (Sent.encodeFields r.fields ++ rest)
  have hne : r.statusLine.text ++ crlf ≠ [] :=
    List.append_ne_nil_of_right_ne_nil _ (List.cons_ne_nil _ _)
  rw [readStatusAndHeaders, Sent.head, List.append_assoc, hread]
  by_cases hline : FitsLine r.statusLine.text
  · rw [if_pos hline, Except.bind_ok]
    dsimp only
    rw [if_neg hne, secondField_line, r.statusLine.code.int_digits]
    dsimp only
    rw [readHeaders_fields (Nat.lt_succ_self _)]
    by_cases hfields : ∀ f ∈ r.fields, FitsLine f.text
    · rw [if_pos hfields, if_pos ⟨hline, hfields⟩]
      rfl
    · rw [if_neg hfields, if_neg fun h => hfields h.2]
      rfl
  · rw [if_neg hline, if_neg fun h => hline h.1]
    rfl

theorem not_chunked_nil : ¬ latin1 "chunked" <:+: lower [] := by
  decide

/-- A body whose length is given. -/
theorem readBody_sized {status n : ℤ} {headers : Headers} {length data : List UInt8}
    (hencoding : headers (latin1 "transfer-encoding") = none)
    (hlength : headers (latin1 "content-length") = some length)
    (hint : int length = some n) : readBody status headers data = readexactly n data := by
  rw [readBody, hencoding, Option.getD_none, if_neg not_chunked_nil, hlength]
  dsimp only
  rw [hint]

theorem readBody_chunked {status : ℤ} {headers : Headers} {encoding data : List UInt8}
    (hencoding : headers (latin1 "transfer-encoding") = some encoding)
    (hchunked : latin1 "chunked" <:+: lower encoding) :
    readBody status headers data = readChunkedBody data := by
  rw [readBody, hencoding, Option.getD_some, if_pos hchunked]

/-- What is in the headers of a response with a body of a given length. -/
theorem headers_sized {fields : List Field} {data : List UInt8} {status : ℕ}
    (h : (Body.sized data).Framed status fields) :
    Sent.headersFrom (fun _ => none) fields (latin1 "transfer-encoding") = none ∧
      ∃ m : Numeral data.length, Sent.headersFrom (fun _ => none) fields (latin1 "content-length") =
        some m.digits := by
  obtain ⟨hthere, hnone, hvalue⟩ := h
  refine ⟨headersFrom_eq_none hnone, ?_⟩
  obtain ⟨f, hmem, hkey, hfound⟩ := exists_headersFrom hthere
  obtain ⟨m, hm⟩ := hvalue f hmem hkey
  rw [hm, strip_blank_cons, strip_solid m.solid] at hfound
  exact ⟨m, hfound⟩

theorem headers_chunked {fields : List Field} {b : ChunkedBody} {status : ℕ}
    (h : (Body.chunked b).Framed status fields) :
    ∃ encoding, Sent.headersFrom (fun _ => none) fields (latin1 "transfer-encoding") =
      some encoding ∧
      latin1 "chunked" <:+: lower encoding := by
  obtain ⟨hthere, -, hvalue⟩ := h
  obtain ⟨f, hmem, hkey, hfound⟩ := exists_headersFrom hthere
  exact ⟨_, hfound, hvalue f hmem hkey⟩

/-- The body behind its head. -/
theorem readBody_encode {status : ℕ} {fields : List Field} {body : Body}
    (hframed : body.Framed status fields)
    (rest : List UInt8) : readBody status (Sent.headersFrom (fun _ => none) fields)
    (body.encode ++ rest) = .ok (body.data, rest) ↔
      body.Fits := by
  cases body with
  | sized data =>
    obtain ⟨hencoding, m, hlength⟩ := headers_sized hframed
    rw [readBody_sized hencoding hlength m.int_digits]
    exact iff_of_true (Chunked.readexactly_append data rest) trivial
  | chunked b =>
    obtain ⟨encoding, hencoding, hchunked⟩ := headers_chunked hframed
    rw [readBody_chunked hencoding hchunked]
    exact Chunked.readChunks_whole (Nat.lt_succ_self _)
  | nothing =>
    obtain ⟨hstatus, hfields⟩ := hframed
    have hlength := headersFrom_eq_none fun f hf => (hfields f hf).1
    have hencoding := headersFrom_eq_none fun f hf => (hfields f hf).2
    rw [readBody, hencoding, Option.getD_none, if_neg not_chunked_nil, hlength]
    exact iff_of_true (if_pos hstatus) trivial

/-- A response that has come whole is read exactly where its lines are within the limit. -/
theorem readResponse_encode (r : Sent) (rest : List UInt8) : readResponse (r.encode ++ rest) =
    .ok (⟨r.statusLine.status, Sent.headersFrom (fun _ => none) r.fields, r.body.data⟩, rest) ↔
      r.Fits := by
  rw [readResponse, Sent.encode, List.append_assoc, readStatusAndHeaders_head]
  by_cases hhead : r.HeadFits
  · rw [if_pos hhead, Except.bind_ok]
    dsimp only
    rw [Sent.Fits, and_iff_right hhead, ← readBody_encode r.framed rest]
    constructor
    · intro h
      obtain ⟨⟨data, rest'⟩, hread, h⟩ := Except.bind_eq_ok.mp h
      obtain ⟨hresponse, hrest⟩ := Prod.mk.inj (Except.ok.inj h)
      have hdata : data = r.body.data := (HttpResponse.mk.inj hresponse).2.2
      rw [hread, hdata, show rest' = rest from hrest]
    · intro h
      rw [h]
      rfl
  · rw [if_neg hhead]
    exact iff_of_false (fun h => nomatch h) fun h => hhead h.1

/-! ### Reading what is cut short -/

/-- What may be found under a name when the head is cut short: a value, the beginning of one, or
nothing behind a name. -/
def Partly (fields : List Field) (headers : Headers) : Prop :=
  ∀ key value, headers key = some value → value = [] ∨
    ∃ f ∈ fields, f.key = key ∧ ∃ part, part <+: f.value ++ [13] ∧ value = strip part

theorem partly_none (fields : List Field) : Partly fields fun _ => none := fun _ _ h => nomatch h

theorem Partly.update {fields : List Field} {headers : Headers} (h : Partly fields headers)
    {key value : List UInt8}
    (hvalue : value = [] ∨ ∃ f ∈ fields, f.key = key ∧ ∃ part, part <+: f.value ++ [13] ∧
      value = strip part) :
    Partly fields (Function.update headers key (some value)) := by
  intro key' value' hfound
  rcases eq_or_ne key' key with rfl | hne
  · rw [Function.update_self] at hfound
    obtain rfl := Option.some.inj hfound
    exact hvalue
  · rw [Function.update_of_ne hne] at hfound
    exact h key' value' hfound

/-- A line without a colon sets nothing behind a name. -/
theorem setHeader_name (headers : Headers) {line : List UInt8} (hcolon : 58 ∉ line) :
    setHeader headers line = Function.update headers (lower (strip line)) (some []) := by
  have hwhole : line.takeWhile (· ≠ 58) = line := by
    refine List.takeWhile_eq_self_iff.mpr fun b hb => ?_
    simpa using ne_of_mem_of_not_mem hb hcolon
  rw [setHeader, hwhole, List.drop_of_length_le (Nat.le_succ _)]
  rfl

theorem Partly.setHeader_part {fields : List Field} {headers : Headers} (h : Partly fields headers)
    {f : Field} (hf : f ∈ fields)
    {part : List UInt8} (hpart : part <+: f.text ++ [13]) :
    Partly fields (setHeader headers part) := by
  rw [Field.text, List.append_assoc] at hpart
  rcases Chunked.prefix_append_cases hpart with ⟨hname, -⟩ | ⟨more, rfl, hmore⟩
  · rw [setHeader_name headers fun hmem => f.name_colon (hname.subset hmem)]
    exact h.update (.inl rfl)
  · cases more with
    | nil =>
      rw [List.append_nil, setHeader_name headers f.name_colon]
      exact h.update (.inl rfl)
    | cons b more =>
      obtain ⟨rfl, hvalue⟩ := List.cons_prefix_cons.mp hmore
      rw [setHeader_colon]
      exact h.update (.inr ⟨f, hf, rfl, more, hvalue, rfl⟩)

theorem readHeaders_nil (fuel : ℕ) (headers : Headers) :
    readHeaders fuel headers [] = .ok (headers, []) := by
  cases fuel with
  | zero => rfl
  | succ fuel =>
    have hline : readline [] = .ok ([], []) := rfl
    rw [readHeaders_of_line hline, if_pos (.inr rfl)]

/-- The last line that has come sets what it sets, and there the fields end. -/
theorem readHeaders_line {line : List UInt8} (hline : 10 ∉ line) (fuel : ℕ) (headers : Headers) :
    (∃ e, readHeaders (fuel + 1) headers line = .error e) ∨
      readHeaders (fuel + 1) headers line = .ok (headers, []) ∨
      readHeaders (fuel + 1) headers line = .ok (setHeader headers line, []) := by
  have hread := Chunked.readline_end hline
  split at hread
  · left
    exact ⟨_, by rw [readHeaders, hread, Except.bind_error]⟩
  · right
    rw [readHeaders_of_line hread]
    split
    · exact .inl rfl
    · exact .inr (readHeaders_nil _ _)

/-- **Fields that are cut short** are taken for fields. -/
theorem readHeaders_part {all fields : List Field} (hsub : ∀ f ∈ fields, f ∈ all) {fuel : ℕ}
    {headers : Headers}
    {part : List UInt8} (hfuel : part.length < fuel) (hpart : part <+: Sent.encodeFields fields)
    (hproper : part ≠ Sent.encodeFields fields) (h : Partly all headers) :
    (∃ e, readHeaders fuel headers part = .error e) ∨
      ∃ headers', readHeaders fuel headers part = .ok (headers', []) ∧ Partly all headers' := by
  -- on the fields still to come: the cut falls in the first of them, or behind it
  induction fields generalizing fuel headers part with
  | nil =>
    obtain ⟨fuel, rfl⟩ := Nat.exists_eq_add_one_of_ne_zero (Nat.ne_of_gt (Nat.zero_lt_of_lt hfuel))
    -- only the empty line is left
    have hcut := @Chunked.prefix_of_cut part [] hpart hproper
    have hline := Chunked.not_mem_of_part hcut (by simp)
    have hcolon : 58 ∉ part := fun hmem => nomatch List.mem_singleton.mp (hcut.subset hmem)
    rcases readHeaders_line hline fuel headers with he | hok | hok
    · exact .inl he
    · exact .inr ⟨headers, hok, h⟩
    · rw [setHeader_name headers hcolon] at hok
      exact .inr ⟨_, hok, h.update (.inl rfl)⟩
  | cons f fields ih =>
    obtain ⟨fuel, rfl⟩ := Nat.exists_eq_add_one_of_ne_zero (Nat.ne_of_gt (Nat.zero_lt_of_lt hfuel))
    have hf := hsub f List.mem_cons_self
    rw [encodeFields_cons] at hpart hproper
    rcases Chunked.prefix_append_cases hpart with ⟨hline, hcut⟩ | ⟨more, rfl, hmore⟩
    · have hpart' := Chunked.prefix_of_cut hline hcut
      rcases readHeaders_line (Chunked.not_mem_of_part hpart' (text_line f)) fuel
        headers with he | hok | hok
      · exact .inl he
      · exact .inr ⟨headers, hok, h⟩
      · exact .inr ⟨_, hok, h.setHeader_part hf hpart'⟩
    · have hpos := List.length_pos_iff.mpr (text_ne_nil f)
      rw [List.length_append, List.length_append] at hfuel
      rw [readHeaders_field]
      split
      · refine ih (fun g hg => hsub g (List.mem_cons_of_mem f hg)) (by omega) hmore ?_ ?_
        · rintro rfl
          exact hproper rfl
        · exact h.update (.inr ⟨f, hf, rfl, f.value, List.prefix_append _ _, rfl⟩)
      · exact .inl ⟨_, rfl⟩

/-- What is read of the beginning of a status line: no status, the status, or one of two digits at
most. -/
theorem int_secondField_part (l : StatusLine) {part : List UInt8}
    (hpart : part <+: l.text ++ [13]) :
    int (secondField part) = none ∨ ∃ status : ℕ, int (secondField part) = some (status : ℤ) ∧
      (status = l.status ∨ status < 100) := by
  have hversion : ∀ s, s <+: l.version → secondField s = [] := by
    intro s hs
    have hsolid : ∀ b ∈ s, isSpace b = false := fun b hb => l.version_solid b (hs.subset hb)
    have hdrop : (s.dropWhile isSpace).dropWhile (! isSpace ·) = [] := by
      refine List.dropWhile_eq_nil_iff.mpr fun b hb => ?_
      simp [hsolid b ((List.dropWhile_suffix _).subset hb)]
    rw [secondField, hdrop]
    rfl
  rw [StatusLine.text, List.append_assoc] at hpart
  -- cut within the version: there is no second field
  rcases Chunked.prefix_append_cases hpart with ⟨hs, -⟩ | ⟨more, rfl, hmore⟩
  · rw [hversion part hs]
    exact .inl rfl
  cases more with
  | nil =>
    rw [List.append_nil, hversion _ List.prefix_rfl]
    exact .inl rfl
  | cons b more =>
    obtain ⟨rfl, htail⟩ := List.cons_prefix_cons.mp hmore
    change more <+: l.code.digits ++ l.reason ++ [13] at htail
    rw [List.append_assoc] at htail
    rcases Chunked.prefix_append_cases htail with ⟨hcode, hcut⟩ | ⟨rest, rfl, hrest⟩
    -- cut within the code: fewer than three digits are below a hundred
    · have hfield := @secondField_eq l.version more [] l.version_ne_nil l.version_solid
        (fun b hb => l.code.solid b (hcode.subset hb)) (.inl rfl)
      rw [List.append_nil] at hfield
      rw [hfield]
      rcases eq_or_ne more [] with rfl | hne
      · exact .inl rfl
      · refine .inr ⟨_, l.code.int_prefix hcode hne, .inr ?_⟩
        have hlength : more.length < 3 := by
          rw [← l.code_length]
          exact lt_of_le_of_ne hcode.length_le fun h => hcut (hcode.eq_of_length h)
        calc valueFrom 0 more < (0 + 1) * 10 ^ more.length := valueFrom_lt 0
          _ ≤ 1 * 10 ^ 2 := Nat.mul_le_mul_left 1 (Nat.pow_le_pow_right (by decide) (by omega))
          _ = 100 := rfl
    -- cut behind the code: the status is read whole
    · have hblank : rest = [] ∨ l.code.digits ≠ [] ∧ ∃ b bs, rest = b :: bs ∧ isSpace b = true := by
        cases rest with
        | nil => exact .inl rfl
        | cons b bs =>
          refine .inr ⟨l.code.ne_nil, b, bs, rfl, ?_⟩
          rcases l.reason_blank with hreason | ⟨c, cs, hreason, hc⟩
          · rw [hreason] at hrest
            obtain ⟨rfl, -⟩ := List.cons_prefix_cons.mp hrest
            decide
          · rw [hreason] at hrest
            obtain ⟨rfl, -⟩ := List.cons_prefix_cons.mp hrest
            exact hc
      rw [secondField_eq l.version_ne_nil l.version_solid l.code.solid hblank, l.code.int_digits]
      exact .inr ⟨l.status, rfl, .inl rfl⟩

/-- The beginning of a head is refused, or taken for a head without a body behind it. -/
theorem readStatusAndHeaders_part {r : Sent} {part : List UInt8} (hpart : part <+: r.head)
    (hproper : part ≠ r.head) :
    (∃ e, readStatusAndHeaders part = .error e) ∨ ∃ (status : ℕ) (headers : Headers),
      readStatusAndHeaders part = .ok (⟨status, headers⟩, []) ∧
        (status = r.statusLine.status ∨ status < 100) ∧
        Partly r.fields headers := by
  rw [Sent.head] at hpart hproper
  rcases Chunked.prefix_append_cases hpart with ⟨hline, hcut⟩ | ⟨more, rfl, hmore⟩
  -- the cut falls within the status line
  · have hpart' := Chunked.prefix_of_cut hline hcut
    have hread := Chunked.readline_end
      (Chunked.not_mem_of_part hpart' (text_line_status r.statusLine))
    split at hread
    · exact .inl ⟨_, by rw [readStatusAndHeaders, hread, Except.bind_error]⟩
    · rw [readStatusAndHeaders, hread, Except.bind_ok]
      dsimp only
      split
      · exact .inl ⟨_, rfl⟩
      rcases int_secondField_part r.statusLine hpart' with hnone | ⟨status, hstatus, hle⟩
      · rw [hnone]
        exact .inl ⟨_, rfl⟩
      · rw [hstatus]
        exact .inr ⟨status, _, rfl, hle, partly_none r.fields⟩
  -- the status line is whole, and the cut falls within the fields
  · have hcut : more ≠ Sent.encodeFields r.fields := by
      rintro rfl
      exact hproper rfl
    have hread := Chunked.readline_text (text_line_status r.statusLine) more
    split at hread
    · rw [readStatusAndHeaders, hread, Except.bind_ok]
      dsimp only
      split
      · exact .inl ⟨_, rfl⟩
      rw [secondField_line, r.statusLine.code.int_digits]
      dsimp only
      rcases readHeaders_part (fun f hf => hf) (Nat.lt_succ_self more.length) hmore hcut
          (partly_none r.fields) with
        ⟨e, he⟩ | ⟨headers, hok, hpartly⟩
      · rw [he, Except.bind_error]
        exact .inl ⟨e, rfl⟩
      · rw [hok, Except.bind_ok]
        exact .inr ⟨r.statusLine.status, headers, rfl, .inl rfl, hpartly⟩
    · exact .inl ⟨_, by rw [readStatusAndHeaders, hread, Except.bind_error]⟩

/-- The beginning of a length is no number, or none that is zero. -/
theorem int_strip_part {n : ℕ} (m : Numeral n) (hn : n ≠ 0) {part : List UInt8}
    (hpart : part <+: 32 :: m.digits ++ [13]) :
    int (strip part) = none ∨ ∃ k : ℕ, 0 < k ∧ int (strip part) = some (k : ℤ) := by
  cases part with
  | nil => exact .inl rfl
  | cons b part =>
    obtain ⟨rfl, htail⟩ := List.cons_prefix_cons.mp hpart
    change part <+: m.digits ++ [13] at htail
    rw [strip_blank_cons]
    -- the end of the line may have begun behind the digits
    have hdigits : ∃ ds, ds <+: m.digits ∧ strip part = ds := by
      rcases List.prefix_concat_iff.mp htail with rfl | hds
      · refine ⟨m.digits, List.prefix_rfl, ?_⟩
        rw [strip_append_blank m.digits (List.forall_mem_singleton.mpr rfl), strip_solid m.solid]
      · exact ⟨part, hds, strip_solid fun b hb => m.solid b (hds.subset hb)⟩
    obtain ⟨ds, hds, hstrip⟩ := hdigits
    rw [hstrip]
    rcases eq_or_ne ds [] with rfl | hne
    · exact .inl rfl
    · exact .inr ⟨_, m.prefix_pos hn hds hne, m.int_prefix hds hne⟩

/-- A body of which something can be missing. -/
def Body.Substantial : Body → Prop
  | sized data => data ≠ []
  | chunked _ => True
  | nothing => False

/-- **Behind a head that was cut short there is no body.** -/
theorem readBody_partly {fields : List Field} {body : Body} {code status : ℕ}
    (hframed : body.Framed code fields)
    (hbody : body.Substantial) {headers : Headers} (hpartly : Partly fields headers)
    (hstatus : (status : ℤ) ≠ noContent) :
    ∃ e, readBody status headers [] = .error e := by
  have hempty : ∃ e, readChunkedBody [] = .error e := ⟨_, rfl⟩
  rw [readBody]
  split
  · exact hempty
  cases hlength : headers (latin1 "content-length") with
  | none => exact ⟨_, rfl⟩
  | some length =>
    dsimp only
    rcases hpartly _ _ hlength with rfl | ⟨f, hf, hkey, part, hpart, rfl⟩
    · exact ⟨_, rfl⟩
    · cases body with
      | sized data =>
        obtain ⟨m, hm⟩ := hframed.2.2 f hf hkey
        rw [hm] at hpart
        have hn : data.length ≠ 0 := fun h => hbody (List.length_eq_zero_iff.mp h)
        rcases int_strip_part m hn hpart with hnone | ⟨k, hpos, hk⟩
        · rw [hnone]
          exact ⟨_, rfl⟩
        · rw [hk]
          exact ⟨_, Chunked.readexactly_short hpos⟩
      | chunked b => exact absurd hkey (hframed.2.1 f hf)
      | nothing => exact hbody.elim

/-- **The beginning of a body is not taken for a body**, but for chunks that end late. -/
theorem readBody_part {fields : List Field} {body : Body} {status : ℕ}
    (hframed : body.Framed status fields) {part : List UInt8}
    (hpart : part <+: body.encode) (hproper : part ≠ body.encode) :
    (∃ e, readBody status (Sent.headersFrom (fun _ => none) fields) part = .error e) ↔
      ¬ ∃ b, body = .chunked b ∧ CutShort b.chunks part := by
  cases body with
  | sized data =>
    obtain ⟨hencoding, m, hlength⟩ := headers_sized hframed
    rw [readBody_sized hencoding hlength m.int_digits]
    refine iff_of_true ⟨_, Chunked.readexactly_short ?_⟩ (by simp)
    exact lt_of_le_of_ne hpart.length_le fun h => hproper (hpart.eq_of_length h)
  | chunked b =>
    obtain ⟨encoding, hencoding, hchunked⟩ := headers_chunked hframed
    have hcut := Chunked.readChunks_cut (Nat.lt_succ_self part.length) hpart hproper
    have hlate : (∃ b', Body.chunked b = .chunked b' ∧ CutShort b'.chunks part) ↔
        CutShort b.chunks part := by
      simp
    rw [readBody_chunked hencoding hchunked, hlate, ← hcut, readChunkedBody]
    cases Chunked.readChunks (part.length + 1) part <;> simp
  | nothing =>
    obtain rfl := List.prefix_nil.mp hpart
    exact absurd rfl hproper

/-- The head has come, and of the chunks so much that they are taken for all. -/
def Sent.EndsLate (r : Sent) (part : List UInt8) : Prop :=
  r.HeadFits ∧ ∃ more, part = r.head ++ more ∧ ∃ b, r.body = .chunked b ∧ CutShort b.chunks more

/-- A response that is cut short is not read at all, but for chunks that end late. -/
theorem readResponse_part {r : Sent} (hbody : r.body.Substantial)
    (hstatus : (r.statusLine.status : ℤ) ≠ noContent)
    {part : List UInt8} (hpart : part <+: r.encode) (hproper : part ≠ r.encode) :
    (∃ e, readResponse part = .error e) ↔ ¬ r.EndsLate part := by
  rw [Sent.encode] at hpart hproper
  rcases Chunked.prefix_append_cases hpart with ⟨hhead, hcut⟩ | ⟨more, rfl, hmore⟩
  -- the cut falls within the head, which is never late
  · have hearly : ¬ r.EndsLate part := by
      rintro ⟨-, more, rfl, -⟩
      exact hcut (hhead.eq_of_length_le (List.prefix_append r.head more).length_le)
    refine iff_of_true ?_ hearly
    rcases readStatusAndHeaders_part hhead hcut with ⟨e, he⟩ | ⟨status, headers, hok, hle, hpartly⟩
    · exact ⟨e, by rw [readResponse, he, Except.bind_error]⟩
    -- a status that was cut off is below a hundred, so a body is still asked for
    · have hne : (status : ℤ) ≠ noContent := by
        rcases hle with rfl | hlt
        · exact hstatus
        · simp only [noContent, ne_eq]
          omega
      obtain ⟨e, he⟩ := readBody_partly r.framed hbody hpartly hne
      refine ⟨e, ?_⟩
      rw [readResponse, hok, Except.bind_ok]
      dsimp only
      rw [he, Except.bind_error]
  -- the head is whole: the body decides
  · have hcut : more ≠ r.body.encode := by
      rintro rfl
      exact hproper rfl
    have hlate : r.EndsLate (r.head ++ more) ↔ r.HeadFits ∧ ∃ b, r.body = .chunked b ∧
        CutShort b.chunks more := by
      simp only [Sent.EndsLate, List.append_cancel_left_eq, exists_eq_left']
    rw [hlate, readResponse, readStatusAndHeaders_head]
    split
    · next hfits =>
      rw [and_iff_right hfits, ← readBody_part r.framed hmore hcut, Except.bind_ok]
      dsimp only
      cases readBody r.statusLine.status (Sent.headersFrom (fun _ => none) r.fields) more <;> simp
    · next hfits => exact iff_of_true ⟨_, rfl⟩ fun h => hfits h.1

/-- The status that is read of a part is that of the response, or has two digits at most. -/
theorem status_of_part {r : Sent} {part : List UInt8} (hpart : part <+: r.encode)
    {response : HttpResponse} {rest : List UInt8}
    (hread : readResponse part = .ok (response, rest)) :
    response.status = r.statusLine.status ∨ response.status < 100 := by
  have hhead : ∀ {head data}, readStatusAndHeaders part = .ok (head, data) →
      response.status = head.status := by
    intro head data hhead
    rw [readResponse, hhead, Except.bind_ok] at hread
    obtain ⟨_, _, h⟩ := Except.bind_eq_ok.mp hread
    exact (Prod.mk.inj (Except.ok.inj h)).1 ▸ rfl
  rw [Sent.encode] at hpart
  rcases Chunked.prefix_append_cases hpart with ⟨hcut, hproper⟩ | ⟨more, rfl, -⟩
  · rcases readStatusAndHeaders_part hcut hproper with ⟨e, he⟩ | ⟨status, headers, hok, hle, -⟩
    · rw [readResponse, he] at hread
      cases hread
    · rw [hhead hok]
      exact hle.imp (congrArg _) Int.ofNat_lt.mpr
  · have hok := readStatusAndHeaders_head r more
    split at hok
    · exact .inl (hhead hok)
    · rw [readResponse, hok] at hread
      cases hread

/-- `Content-Length: 1`, and a byte. -/
def oneByte : Sent where
  statusLine :=
    { version := [72]
      version_ne_nil := by decide
      version_solid := List.forall_mem_singleton.mpr rfl
      status := 200
      code :=
        { digits := [50, 48, 48]
          ne_nil := by decide
          isDec := by simp [decDigit]
          value := rfl
          lead := by simp }
      code_length := rfl
      reason := []
      reason_line := by decide
      reason_blank := .inl rfl }
  fields :=
    [{ name := latin1 "Content-Length"
       value := [32, 49]
       name_line := by decide
       name_colon := by decide
       value_line := by decide }]
  body := .sized [7]
  framed := ⟨⟨_, List.mem_cons_self, by decide⟩, by decide, List.forall_mem_singleton.mpr fun _ =>
    ⟨{ digits := [49]
       ne_nil := by decide
       isDec := List.forall_mem_singleton.mpr rfl
       value := rfl
       lead := by simp }, rfl⟩⟩

end Pyrogram.Http
