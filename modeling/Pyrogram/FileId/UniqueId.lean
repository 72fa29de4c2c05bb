import Pyrogram.FileId.Codec

/-!
# Unique file ids

`FileUniqueId` names a file without saying how to get it.  Each kind has its own fields, which
are packed, their zeros counted, and spelled in base64.

## Main definitions

* `FileUniqueType`, `FileUniqueId`.
* `FileUniqueId.encode`, `FileUniqueId.decode`.
* `FileUniqueId.Identifies` — an id is read back, and no other is written as it is.

## Main results

* `identifies_iff` — **all ids identify their file but those of urls**, of which one byte is packed.
-/

namespace Pyrogram.FileId

open LittleEndian Raw

inductive FileUniqueType
  | web
  | photo
  | document
  | secure
  | encrypted
  | temp
  deriving DecidableEq, Repr

namespace FileUniqueType

def all : List FileUniqueType := [web, photo, document, secure, encrypted, temp]

def value (t : FileUniqueType) : ℤ := all.idxOf t

/-- `FileUniqueType(value)`. -/
def ofValue (v : ℤ) : Option FileUniqueType := all.find? (·.value = v)

theorem ofValue_value (t : FileUniqueType) : ofValue t.value = some t := by
  cases t <;> rfl

end FileUniqueType

structure FileUniqueId where
  fileUniqueType : FileUniqueType
  url : Option (List Utf8.CodePoint) := none
  mediaId : Option ℤ := none
  volumeId : Option ℤ := none
  localId : Option ℤ := none
  deriving DecidableEq

namespace FileUniqueId

/-- The packed bytes; `none` where it raises. -/
def string (u : FileUniqueId) : Option (List UInt8) :=
  match u.fileUniqueType with
  | .web => do
      let type ← pack [(4, some u.fileUniqueType.value)]
      let url ← Core.new .string (← u.url)
      -- `s` is a string of one byte
      return type ++ url.take 1
  | .photo => pack [(4, some u.fileUniqueType.value), (8, u.volumeId), (4, u.localId)]
  | .document => pack [(4, some u.fileUniqueType.value), (8, u.mediaId)]
  | .secure | .encrypted | .temp => none

/-- `FileUniqueId.encode` -/
def encode (u : FileUniqueId) : Option (List Utf8.CodePoint) := do
  let string ← u.string
  return b64Encode (← rleEncode string)

/-- What `decode` reads from the buffer. -/
def read (buffer : List UInt8) : Option FileUniqueId := do
  let ([fileUniqueType], buffer) ← unpack [4] buffer | none
  let fileUniqueType ← FileUniqueType.ofValue fileUniqueType
  match fileUniqueType with
  | .web =>
      let (url, _) ← Core.read .string buffer
      return { fileUniqueType, url := some url }
  | .photo =>
      -- `struct.unpack` takes a buffer of its own length only
      let ([volumeId, localId], []) ← unpack [8, 4] buffer | none
      return { fileUniqueType, volumeId := some volumeId, localId := some localId }
  | .document =>
      let ([mediaId], []) ← unpack [8] buffer | none
      return { fileUniqueType, mediaId := some mediaId }
  | .secure | .encrypted | .temp => none

/-- `FileUniqueId.decode`; `none` where it raises. -/
def decode (fileUniqueId : List Utf8.CodePoint) : Option FileUniqueId := do
  read (rleDecode (← b64Decode fileUniqueId))

/-- The ids of the kinds that are encoded, with their own fields in their ranges. -/
inductive Packed : FileUniqueId → Prop
  | web (url : List Utf8.CodePoint) : Packed { fileUniqueType := .web, url := some url }
  | photo {volumeId localId : ℤ} (hvolume : Int.Fits 8 volumeId) (hlocal : Int.Fits 4 localId) :
      Packed { fileUniqueType := .photo, volumeId := some volumeId, localId := some localId }
  | document {mediaId : ℤ} (hmedia : Int.Fits 8 mediaId) :
      Packed { fileUniqueType := .document, mediaId := some mediaId }

/-- **An id identifies its file**: it is read back, and no other id is written in the same way. -/
def Identifies (u : FileUniqueId) : Prop :=
  ∃ s, u.encode = some s ∧ decode s = some u ∧ ∀ v : FileUniqueId, Packed v → v ≠ u →
    v.encode ≠ some s

/-! ### What is encoded -/

variable {u v : FileUniqueId} {w : List UInt8} {s : List Utf8.CodePoint}

theorem not_longRun {w : List UInt8} (h : w.length < 256) : ¬ LongRun w := by
  intro hrun
  have hle := List.IsInfix.length_le hrun
  rw [List.length_replicate] at hle
  omega

/-- What is encoded is the bytes. -/
theorem string_of_encode (h : u.encode = some s) :
    ∃ w, u.string = some w ∧ (b64Decode s).map rleDecode = some w := by
  simp only [encode, Option.bind_eq_bind, Option.bind_eq_some_iff] at h
  obtain ⟨w, hw, r, hr, h⟩ := h
  cases h
  exact ⟨w, hw, by rw [b64Decode_b64Encode, Option.map_some, rleDecode_rleEncode hr]⟩

theorem exists_encode (h : u.string = some w) (hw : w.length < 256) :
    ∃ s, u.encode = some s ∧ decode s = read w := by
  obtain ⟨r, hr⟩ := Option.isSome_iff_exists.mp (isSome_rleEncode.mpr (not_longRun hw))
  refine ⟨b64Encode r, ?_, ?_⟩
  · rw [encode, h, Option.bind_eq_bind, Option.bind_some, hr]
    rfl
  · rw [decode, b64Decode_b64Encode, Option.bind_eq_bind, Option.bind_some, rleDecode_rleEncode hr]

theorem string_congr (hu : u.encode = some s) (hv : v.encode = some s) : u.string = v.string := by
  obtain ⟨w, hw, hs⟩ := string_of_encode hu
  obtain ⟨w', hw', hs'⟩ := string_of_encode hv
  rw [hw, hw', ← hs, ← hs']

/-- Fields that are read together are read one after the other. -/
theorem unpack_head {size : ℕ} {sizes : List ℕ} {value : ℤ} {values : List ℤ} {b rest : List UInt8}
    (h : unpack (size :: sizes) b = some (value :: values, rest)) :
    ∃ b', unpack [size] b = some ([value], b') ∧ unpack sizes b' = some (values, rest) := by
  obtain ⟨hle, values', heq, hrest⟩ := unpack_eq_some.mp h
  obtain ⟨rfl, rfl⟩ := List.cons.inj heq
  exact ⟨b.drop size, unpack_eq_some.mpr ⟨hle, [], rfl, rfl⟩, hrest⟩

theorem values_eq {fields : List (ℕ × ℤ)} {values : List ℤ}
    (h : List.Forall₂ (fun (field : ℕ × Option ℤ) v => field.2 = some v) (fields.map fun f =>
      (f.1, some f.2)) values) :
    values = fields.map Prod.snd := by
  induction fields generalizing values with
  | nil => cases h; rfl
  | cons f fields ih =>
    cases h with
    | cons hvalue hvalues =>
      rw [ih hvalues, List.map_cons, ← Option.some.inj hvalue]

/-- Packed fields, the type in front of them, are read back. -/
theorem unpack_packed {type : ℤ} {fields : List (ℕ × ℤ)}
    (h : pack (((4, type) :: fields).map fun f => (f.1, some f.2)) = some w) (rest : List UInt8) :
    ∃ b, unpack [4] (w ++ rest) = some ([type], b) ∧
      unpack (fields.map Prod.fst) b = some (fields.map Prod.snd, rest) := by
  obtain ⟨values, hvalues, hread⟩ := unpackFields_pack h rest
  rw [values_eq hvalues, List.map_map] at hread
  exact unpack_head hread

/-- Fields that fit are packed. -/
theorem exists_pack {fields : List (ℕ × ℤ)} (h : ∀ f ∈ fields, Int.Fits f.1 f.2) :
    ∃ w, pack (fields.map fun f => (f.1, some f.2)) = some w ∧
      w.length = (fields.map Prod.fst).sum := by
  refine ⟨_, pack_eq_some.mpr ⟨?_, rfl⟩, ?_⟩
  · intro field hfield
    obtain ⟨f, hf, rfl⟩ := List.mem_map.mp hfield
    exact ⟨f.2, rfl, h f hf⟩
  · clear h
    induction fields with
    | nil => rfl
    | cons f fields ih =>
      rw [List.map_cons, raw, List.flatMap_cons, List.length_append, length_encode, List.map_cons,
        List.sum_cons, ← ih]
      rfl

theorem fits_type (t : FileUniqueType) : Int.Fits 4 t.value := by
  cases t <;> exact ⟨by decide, by decide⟩

/-- **An id of numbers is read back.** -/
theorem read_string (hu : Packed u) (hurl : u.fileUniqueType ≠ .web) :
    ∃ w, u.string = some w ∧ w.length < 256 ∧ read w = some u := by
  cases hu with
  | web url => exact absurd rfl hurl
  | @photo volumeId localId hvolume hlocal =>
    obtain ⟨w, hw, hlength⟩ :=
      @exists_pack [(4, FileUniqueType.photo.value), (8, volumeId), (4, localId)]
      (by simpa using ⟨fits_type .photo, hvolume, hlocal⟩)
    obtain ⟨b, htype, hfields⟩ := unpack_packed hw []
    rw [List.append_nil] at htype
    refine ⟨w, hw, by simp [hlength], ?_⟩
    simp only [List.map_cons, List.map_nil] at hfields
    simp only [read, htype, Option.bind_eq_bind, Option.bind_some, FileUniqueType.ofValue_value,
      hfields, Option.pure_def]
  | @document mediaId hmedia =>
    obtain ⟨w, hw, hlength⟩ := @exists_pack [(4, FileUniqueType.document.value), (8, mediaId)]
      (by simpa using ⟨fits_type .document, hmedia⟩)
    obtain ⟨b, htype, hfields⟩ := unpack_packed hw []
    rw [List.append_nil] at htype
    refine ⟨w, hw, by simp [hlength], ?_⟩
    simp only [List.map_cons, List.map_nil] at hfields
    simp only [read, htype, Option.bind_eq_bind, Option.bind_some, FileUniqueType.ofValue_value,
      hfields, Option.pure_def]

/-! ### Urls -/

/-- The one byte of a url. -/
def urlByte (url : List Utf8.CodePoint) : Option UInt8 :=
  (Bytes.new (Utf8.encode url)).bind List.head?

/-- Of a url there is one byte after the type. -/
theorem string_web {url : List Utf8.CodePoint} {w : List UInt8}
    (h : string { fileUniqueType := .web, url := some url } = some w) :
    ∃ b, urlByte url = some b ∧ w = [0, 0, 0, 0, b] := by
  have htype : pack [(4, some FileUniqueType.web.value)] = some [0, 0, 0, 0] := by decide
  simp only [string, htype, Option.bind_eq_bind, Option.bind_some, Option.bind_eq_some_iff] at h
  obtain ⟨t, ht, h⟩ := h
  cases h
  have ht : Bytes.new (Utf8.encode url) = some t := ht
  cases t with
  | nil => exact absurd rfl (Bytes.new_ne_nil ht)
  | cons b t => exact ⟨b, by rw [urlByte, ht]; rfl, rfl⟩

/-- Whatever the byte, an empty url is read. -/
theorem read_web (b : UInt8) :
    read [0, 0, 0, 0, b] = some { fileUniqueType := .web, url := some [] } := by
  have htype : unpack [4] [0, 0, 0, 0, b] = some ([FileUniqueType.web.value], [b]) := by
    rfl
  have hbytes : Bytes.read [b] = some ([], []) := by
    simp only [Bytes.read, List.drop_succ_cons, List.drop_nil, List.take_nil, ite_self]
  have hurl : Core.read .string [b] = some (([] : List Utf8.CodePoint), []) := by
    change (Bytes.read.map Utf8.decode) [b] = _
    rw [Reader.map, hbytes, Option.map_some, Prod.map_apply, Utf8.decode_nil, id]
  simp only [read, htype, Option.bind_eq_bind, Option.bind_some, FileUniqueType.ofValue_value, hurl,
    Option.pure_def]
  rfl

/-- The byte is zero for the empty url only. -/
theorem eq_nil_of_urlByte {url : List Utf8.CodePoint} (h : urlByte url = some 0) : url = [] := by
  rw [urlByte, Bytes.new] at h
  split at h
  · rename_i hle
    have hzero : UInt8.ofNat (Utf8.encode url).length = 0 := Option.some.inj h
    have hlength : (Utf8.encode url).length = 0 := by
      have hmod := congrArg UInt8.toNat hzero
      rw [UInt8.toNat_ofNat', Nat.mod_eq_of_lt (by omega)] at hmod
      exact hmod
    have hnil := List.flatMap_eq_nil_iff.mp (List.length_eq_zero_iff.mp hlength)
    apply List.eq_nil_iff_forall_not_mem.mpr
    intro p hp
    cases p with
    | char c => exact String.utf8EncodeChar_ne_nil (hnil _ hp)
    | surrogate n => exact List.cons_ne_nil _ _ (hnil _ hp)
  · split at h
    · -- a long url begins with 254
      have hzero : (254 : UInt8) = 0 := Option.some.inj h
      exact absurd hzero (by decide)
    · cases h

/-- **What is read back**: all but the url. -/
theorem read_of_string (hu : Packed u) (h : u.string = some w) :
    w.length < 256 ∧ read w = some { u with url := u.url.map fun _ => [] } := by
  cases hu with
  | web url =>
    obtain ⟨b, -, rfl⟩ := string_web h
    exact ⟨by simp, read_web b⟩
  | photo hvolume hlocal =>
    obtain ⟨w', hw, hlength, hread⟩ := read_string (.photo hvolume hlocal) (by simp)
    cases hw.symm.trans h
    exact ⟨hlength, hread⟩
  | document hmedia =>
    obtain ⟨w', hw, hlength, hread⟩ := read_string (.document hmedia) (by simp)
    cases hw.symm.trans h
    exact ⟨hlength, hread⟩

/-- No other id has the bytes of an id that has no url to lose. -/
theorem eq_of_string (hu : Packed u) (hv : Packed v) (h : u.string = some w)
    (h' : v.string = some w)
    (hurl : u.fileUniqueType = .web → u.url = some []) : v = u := by
  have heq := Option.some.inj ((read_of_string hv h').2.symm.trans (read_of_string hu h).2)
  cases hu with
  | web url =>
    obtain rfl : url = [] := Option.some.inj (hurl rfl)
    cases hv with
    | web url' =>
      obtain ⟨b, hb, rfl⟩ := string_web h
      obtain ⟨b', hb', hbytes⟩ := string_web h'
      obtain rfl : b = b' := by simpa using hbytes
      have hb0 : b = 0 := Option.some.inj (hb.symm.trans (by decide))
      have hurl' : urlByte url' = some 0 := by rw [hb', hb0]
      rw [eq_nil_of_urlByte hurl']
    | photo hvolume hlocal => simp at heq
    | document hmedia => simp at heq
  | photo hvolume hlocal =>
    cases hv with
    | web url' => simp at heq
    | photo hvolume' hlocal' => exact heq
    | document hmedia => simp at heq
  | document hmedia =>
    cases hv with
    | web url' => simp at heq
    | photo hvolume hlocal => simp at heq
    | document hmedia' => exact heq

/-- An id of numbers and the id of the empty url are encoded. -/
theorem exists_string (hu : Packed u) (hurl : u.fileUniqueType = .web → u.url = some []) :
    ∃ w, u.string = some w := by
  cases hu with
  | web url =>
    obtain rfl : url = [] := Option.some.inj (hurl rfl)
    exact ⟨[0, 0, 0, 0, 0], by decide⟩
  | photo hvolume hlocal =>
    obtain ⟨w, hw, -⟩ := read_string (.photo hvolume hlocal) (by simp)
    exact ⟨w, hw⟩
  | document hmedia =>
    obtain ⟨w, hw, -⟩ := read_string (.document hmedia) (by simp)
    exact ⟨w, hw⟩

/-- **An id identifies its file iff it is not of a url**, the empty one apart. -/
theorem identifies_iff (hu : Packed u) :
    Identifies u ↔ (u.fileUniqueType = .web → u.url = some []) := by
  constructor
  · rintro ⟨s, hs, hdecode, -⟩ hweb
    obtain ⟨w, hw, -⟩ := string_of_encode hs
    obtain ⟨hlength, hread⟩ := read_of_string hu hw
    obtain ⟨s', hs', hdecode'⟩ := exists_encode hw hlength
    cases hs'.symm.trans hs
    rw [hdecode', hread] at hdecode
    cases hu with
    | web url => exact (congrArg FileUniqueId.url (Option.some.inj hdecode)).symm
    | photo hvolume hlocal => cases hweb
    | document hmedia => cases hweb
  · intro hurl
    obtain ⟨w, hw⟩ := exists_string hu hurl
    obtain ⟨hlength, hread⟩ := read_of_string hu hw
    obtain ⟨s, hs, hdecode⟩ := exists_encode hw hlength
    refine ⟨s, hs, ?_, ?_⟩
    · rw [hdecode, hread]
      cases hu with
      | web url =>
        obtain rfl : url = [] := Option.some.inj (hurl rfl)
        rfl
      | photo hvolume hlocal => rfl
      | document hmedia => rfl
    · -- the bytes tell which id it is
      intro v hv hne hv'
      have hstring : v.string = some w := by rw [string_congr hv' hs, hw]
      exact hne (eq_of_string hu hv hw hstring hurl)

/-- The id of a photo. -/
theorem identifies_photo :
    Identifies { fileUniqueType := .photo, volumeId := some 200, localId := some (-7) } := by
  refine (identifies_iff (.photo ⟨by decide, by decide⟩ ⟨by decide, by decide⟩)).mpr ?_
  intro hweb
  cases hweb

/-- The urls "a" and "b" have one id, and neither is read back. -/
theorem not_identifies_url :
    let a : FileUniqueId := { fileUniqueType := .web, url := some [.char 'a'] }
    let b : FileUniqueId := { fileUniqueType := .web, url := some [.char 'b'] }
    (a.encode.isSome ∧ a.encode = b.encode ∧ a ≠ b) ∧ ¬ Identifies a ∧ ¬ Identifies b := by
  intro a b
  have hencode : a.encode.isSome ∧ a.encode = b.encode := by decide
  have hne : a ≠ b := by decide
  refine ⟨⟨hencode.1, hencode.2, hne⟩, ?_, ?_⟩
  · rintro ⟨s, hs, -, hother⟩
    exact hother b (.web _) hne.symm (hencode.2.symm.trans hs)
  · rintro ⟨s, hs, -, hother⟩
    exact hother a (.web _) hne (hencode.2.trans hs)

end FileUniqueId

end Pyrogram.FileId
