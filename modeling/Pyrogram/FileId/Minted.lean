import Pyrogram.FileId.RoundTrip

/-!
# Minting file ids again

What has been read is encoded again: every field is in the range of its format but the
versions, which are packed as signed bytes, and a web location has no media id.

## Main definitions

* `layout` — the bytes of the fields of a file id, one after the other.
* `Mintable` — the file ids that can be encoded again.

## Main results

* `buffer_eq_some` — the encoder writes the layout, or raises for the versions.
* `minted_iff` — **which accepted file ids can be minted again**.
* `minted_web` — a web location cannot.
-/

namespace Pyrogram

namespace FileId

open Raw

variable {fileId : FileId}

/-! ### The layout -/

/-- The fields after the source tag of a photo, and around it. -/
def photoFields (fileId : FileId) : List (ℕ × Option ℤ) :=
  (if fileId.minor < noVolumeAndLocalIdMinor then [(8, fileId.volumeId)] else []) ++
  (if 4 ≤ fileId.major then [(4, fileId.thumbnailSource.map ThumbnailSource.value)] else []) ++
  (match fileId.thumbnailSource with
    | some source => photoTailFields source fileId.toPhotoTail
    | none => []) ++
  (if fileId.minor < noVolumeAndLocalIdMinor then [(4, fileId.localId)] else [])

/-- The fields after the ids. -/
def restFields (fileId : FileId) : List (ℕ × Option ℤ) :=
  if fileId.fileType.isPhoto then fileId.photoFields
  else if fileId.fileReference = [] then [(4, some fileId.minor), (4, some fileId.major)]
  else []

/-- The bytes of the fields. -/
def layout (fileId : FileId) : List UInt8 :=
  raw [(4, some fileId.flaggedType), (4, some fileId.dcId)] ++
  (if fileId.fileReference = [] then [] else (Bytes.new fileId.fileReference).getD []) ++
  raw [(8, fileId.mediaId), (8, fileId.accessHash)] ++
  raw fileId.restFields ++
  raw [(1, some fileId.minor), (1, some fileId.major)]

/-- The file ids that can be encoded again: no web location, versions that fit a signed
byte, and no run of zeros that a byte cannot count. -/
structure Mintable (fileId : FileId) : Prop where
  url : fileId.url = none
  version : fileId.major < 128 ∧ fileId.minor < 128
  zeros : ¬ LongRun fileId.layout

/-! ### What is written -/

theorem pack_of_packable {fields : List (ℕ × Option ℤ)} (h : ∀ field ∈ fields, Packable field) :
    pack fields = some (raw fields) := pack_eq_some.mpr ⟨h, rfl⟩

theorem raw_append (fields more : List (ℕ × Option ℤ)) :
    raw (fields ++ more) = raw fields ++ raw more :=
  List.flatMap_append

theorem packable_of_lt {size : ℕ} {v : ℤ} (hneg : 0 ≤ v) (hlt : 2 * v < 256 ^ size) :
    Packable (size, some v) := by
  have hpos : (0 : ℤ) < 256 ^ size := pow_pos (by decide) size
  have hfits : -256 ^ size ≤ 2 * v ∧ 2 * v < 256 ^ size := by omega
  exact ⟨v, rfl, hfits⟩

/-- The versions that fit a signed byte. -/
theorem packable_byte {v : ℤ} (hneg : 0 ≤ v) : Packable (1, some v) ↔ v < 128 := by
  constructor
  · rintro ⟨_, ⟨⟩, hfits⟩
    have hlt : 2 * v < 256 ^ 1 := hfits.2
    omega
  · intro hlt
    exact packable_of_lt hneg (by omega)

theorem flaggedType_cases (hurl : fileId.url = none) :
    fileId.flaggedType = if fileId.fileReference = [] then fileId.fileType.value
      else setFlag fileReferenceFlag fileId.fileType.value := by
  by_cases hreference : fileId.fileReference = [] <;> simp [flaggedType, hurl, hreference]

theorem packable_flaggedType (hurl : fileId.url = none) :
    Packable (4, some fileId.flaggedType) := by
  have hbounds : 0 ≤ fileId.flaggedType ∧ fileId.flaggedType < 2 ^ 26 := by
    rw [flaggedType_cases hurl]
    split
    · cases fileId.fileType <;> decide
    · cases fileId.fileType <;> decide
  exact packable_of_lt hbounds.1 (by omega)

/-- A flagged type is no document type. -/
theorem isDocument_flaggedType (hurl : fileId.url = none) (hdocument : ¬ fileId.fileType.isPhoto) :
    ((FileType.ofValue fileId.flaggedType).any fun t => ¬ t.isPhoto) ↔
      fileId.fileReference = [] := by
  have hnone : ∀ t : FileType, FileType.ofValue (setFlag fileReferenceFlag t.value) = none := by
    intro t
    cases t <;> decide
  rw [flaggedType_cases hurl]
  split
  · next hempty => simpa [FileType.ofValue_value, hempty] using hdocument
  · next hempty => simp [hnone, hempty]

namespace Readable

theorem writePhoto (h : Readable fileId) (hphoto : fileId.fileType.isPhoto) :
    fileId.writePhoto fileId.major fileId.minor = some (raw fileId.photoFields) := by
  obtain ⟨source, hsource, -, -⟩ := h.carries.photo hphoto
  have hvalue := source.value_mem
  have htag : Packable (4, some source.value) := packable_of_lt hvalue.1 (by omega)
  have htail : fileId.writePhotoTail = some (raw (photoTailFields source fileId.toPhotoTail)) := by
    rw [writePhotoTail, hsource]
    exact pack_of_packable (h.tail source hsource)
  have hsourceTag :
    writeIf (4 ≤ fileId.major) (pack [(4, fileId.thumbnailSource.map ThumbnailSource.value)]) =
      some (raw (if 4 ≤ fileId.major then [(4, fileId.thumbnailSource.map ThumbnailSource.value)]
        else [])) := by
    by_cases hmajor : 4 ≤ fileId.major
    · rw [writeIf_pos hmajor, if_pos hmajor, hsource]
      exact pack_of_packable (by simpa using htag)
    · rw [writeIf_neg hmajor, if_neg hmajor]
      rfl
  rw [FileId.writePhoto, hsourceTag, htail, photoFields, hsource]
  simp only [raw_append]
  by_cases hminor : fileId.minor < noVolumeAndLocalIdMinor
  · obtain ⟨hvolume, hlocal⟩ := h.volumeAndLocalId hphoto hminor
    rw [writeIf_pos hminor, writeIf_pos hminor, if_pos hminor, if_pos hminor,
      pack_of_packable (by simpa using hvolume), pack_of_packable (by simpa using hlocal)]
    rfl
  · rw [writeIf_neg hminor, writeIf_neg hminor, if_neg hminor, if_neg hminor]
    rfl

theorem writeRest (h : Readable fileId) :
    fileId.writeRest fileId.major fileId.minor = some (raw fileId.restFields) := by
  unfold FileId.writeRest restFields
  split
  · next hphoto => exact h.writePhoto hphoto
  · next hdocument =>
    have hversion := h.version
    have hbytes := h.bytes
    by_cases hempty : fileId.fileReference = []
    · rw [writeIf_pos ((isDocument_flaggedType h.carries.url hdocument).mpr hempty), if_pos hempty]
      refine pack_of_packable ?_
      simp only [List.forall_mem_cons]
      exact ⟨packable_of_lt hversion.2.1 (by omega), packable_of_lt hversion.1 (by omega), by simp⟩
    · rw [writeIf_neg (fun hany =>
        hempty ((isDocument_flaggedType h.carries.url hdocument).mp hany)), if_neg hempty]
      rfl

/-- **The encoder writes the layout**, where the versions fit a signed byte. -/
theorem buffer_eq_some (h : Readable fileId) {bytes : List UInt8} :
    fileId.buffer fileId.major fileId.minor = some bytes ↔
      (fileId.major < 128 ∧ fileId.minor < 128) ∧ fileId.layout = bytes := by
  -- only the two version bytes may not fit; all the other fields do
  have hurl : ¬ fileId.url.getD [] ≠ [] := by simp [h.carries.url]
  have hheader : pack [(4, some fileId.flaggedType), (4, some fileId.dcId)] =
      some (raw [(4, some fileId.flaggedType), (4, some fileId.dcId)]) := by
    refine pack_of_packable ?_
    simp only [List.forall_mem_cons]
    exact ⟨packable_flaggedType h.carries.url, h.dcId, by simp⟩
  have hids : pack [(8, fileId.mediaId), (8, fileId.accessHash)] =
      some (raw [(8, fileId.mediaId), (8, fileId.accessHash)]) := by
    refine pack_of_packable ?_
    simp only [List.forall_mem_cons]
    exact ⟨h.ids.1, h.ids.2, by simp⟩
  have hreference : writeIf (fileId.fileReference ≠ []) (Bytes.new fileId.fileReference) =
      some (if fileId.fileReference = [] then [] else (Bytes.new fileId.fileReference).getD
        []) := by
    by_cases hempty : fileId.fileReference = []
    · rw [writeIf_neg (not_not.mpr hempty), if_pos hempty]
    · obtain ⟨w, hw⟩ := Option.isSome_iff_exists.mp (Bytes.isSome_new.mpr h.fileReference)
      rw [writeIf_pos hempty, if_neg hempty, hw]
      rfl
  have hpack : ∀ w, pack [(1, some fileId.minor), (1, some fileId.major)] = some w ↔
      (fileId.major < 128 ∧ fileId.minor < 128) ∧
        raw [(1, some fileId.minor), (1, some fileId.major)] = w := by
    intro w
    rw [pack_eq_some]
    refine and_congr_left fun _ => ?_
    simp only [List.forall_mem_cons, packable_byte h.version.1, packable_byte h.version.2.1]
    exact ⟨fun ⟨hminor, hmajor, _⟩ => ⟨hmajor, hminor⟩, fun ⟨hmajor, hminor⟩ =>
      ⟨hminor, hmajor, by simp⟩⟩
  simp only [buffer, hheader, hids, hreference, h.writeRest, writeIf_neg hurl, Option.bind_eq_bind,
    Option.bind_some, Option.bind_eq_some_iff, hpack, Option.pure_def, Option.some.injEq]
  constructor
  · rintro ⟨w, ⟨hversion, rfl⟩, rfl⟩
    exact ⟨hversion, by simp [layout]⟩
  · rintro ⟨hversion, rfl⟩
    exact ⟨_, ⟨hversion, rfl⟩, by simp [layout]⟩

end Readable

/-! ### Minting again -/

/-- The file id is encoded, and read back from that. -/
def Mints (fileId : FileId) : Prop := ∃ s, fileId.encode = some s ∧ decode s = some fileId

theorem encode_eq_some {s : List Utf8.CodePoint} : fileId.encode = some s ↔
    ∃ bytes, fileId.buffer fileId.major fileId.minor = some bytes ∧ ∃ r, rleEncode bytes = some r ∧
      b64Encode r = s := by
  simp [encode, Option.bind_eq_some_iff]

/-- The encoder raises without a media id. -/
theorem not_mints (hmedia : fileId.mediaId = none) : ¬ Mints fileId := by
  rintro ⟨t, hencode, -⟩
  obtain ⟨bytes, hbuffer, -⟩ := encode_eq_some.mp hencode
  simp only [buffer, hmedia, Option.bind_eq_bind, Option.bind_eq_some_iff] at hbuffer
  obtain ⟨-, -, -, -, -, -, ids, hids, -⟩ := hbuffer
  cases hids

/-- **Which accepted file ids can be minted again**: those that are no web location, whose
versions fit a signed byte, and whose fields have no run of more than `255` zeros. -/
theorem minted_iff {s : List Utf8.CodePoint} (h : decode s = some fileId) :
    Mints fileId ↔ Mintable fileId := by
  obtain ⟨hversion, ⟨-, hreadable⟩ | ⟨hurl, hmedia⟩⟩ := readable_of_decode h
  · constructor
    · rintro ⟨t, hencode, -⟩
      obtain ⟨bytes, hbuffer, r, hrle, -⟩ := encode_eq_some.mp hencode
      obtain ⟨hbytes, rfl⟩ := hreadable.buffer_eq_some.mp hbuffer
      exact ⟨hreadable.carries.url, hbytes, isSome_rleEncode.mp (Option.isSome_of_eq_some hrle)⟩
    · rintro ⟨-, hbytes, hzeros⟩
      have hbuffer := hreadable.buffer_eq_some.mpr ⟨hbytes, rfl⟩
      obtain ⟨r, hrle⟩ := Option.isSome_iff_exists.mp (isSome_rleEncode.mpr hzeros)
      exact ⟨_, encode_eq_some.mpr ⟨_, hbuffer, r, hrle, rfl⟩,
        decode_of_buffer hreadable.carries hversion hbuffer hrle⟩
  · -- a web location has no media id to pack
    exact iff_of_false (not_mints hmedia) fun hmintable => hurl hmintable.url

/-- What `thumbnail` is encoded to is accepted, and minted again. -/
theorem minted_thumbnail : ∃ s, decode s = some thumbnail ∧ Mints thumbnail := by
  have hdecode : decode (thumbnail.encode.getD []) = some thumbnail := by decide
  have hzeros : ¬ LongRun thumbnail.layout := isSome_rleEncode.mp (by decide)
  exact ⟨_, hdecode, (minted_iff hdecode).mpr ⟨rfl, by decide, hzeros⟩⟩

/-- A web location with the address `a`. -/
def webLocation : List Utf8.CodePoint :=
  b64Encode [5, 0, 2, 1, 2, 0, 3, 1, 97, 0, 2, 6, 0, 7, 30, 4]

/-- **A web location is accepted, and cannot be minted again.** -/
theorem minted_web : ∃ fileId, decode webLocation = some fileId ∧ ¬ Mints fileId := by
  have hmedia : (decode webLocation).map FileId.mediaId = some none := by decide
  obtain ⟨fileId, hdecode, hnone⟩ := Option.map_eq_some_iff.mp hmedia
  exact ⟨fileId, hdecode, not_mints hnone⟩

end FileId

end Pyrogram
