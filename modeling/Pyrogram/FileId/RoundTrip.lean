import Pyrogram.FileId.Readable

/-!
# Round trip of file ids

A file id that sets the fields it carries is read back from what it is encoded to, layout
by layout.  The version bytes are packed as signed and read as unsigned.

## Main results

* `readPhotoTail_pack`, `readPhoto_writePhoto`, `decode_of_buffer` — each layer is read back.
* `decode_encode_iff` — **the round trip**, exactly for the versions that can be read.
* `decode_encode_negative` — a negative minor version is read as another.
-/

namespace Pyrogram

namespace FileId

open Raw

/-! ### The tail of a photo -/

theorem ord_eq_some {s : List Utf8.CodePoint} {v : ℤ} (h : ord s = some v) :
    ∃ character : Utf8.CodePoint, s = [character] ∧ v = character.toNat := by
  unfold ord at h
  split at h
  · next character => exact ⟨character, rfl, (Option.some.inj h).symm⟩
  · cases h

/-- **The tail is read back**, whatever follows it. -/
theorem readPhotoTail_pack {source : ThumbnailSource} {tail : PhotoTail} {w : List UInt8}
    (h : pack (photoTailFields source tail) = some w) (rest : List UInt8) :
    readPhotoTail source (w ++ rest) = some (ownTail source tail, rest) := by
  obtain ⟨values, hvalues, hread⟩ := unpackFields_pack h rest
  cases source with
  | legacy =>
    rcases hvalues with _ | ⟨h1, _ | _⟩
    simp only [photoTailFields, List.map_cons, List.map_nil] at h1 hread
    simp [readPhotoTail, ownTail, hread, h1]
  | thumbnail =>
    rcases hvalues with _ | ⟨h1, _ | ⟨h2, _ | _⟩⟩
    simp only [photoTailFields, List.map_cons, List.map_nil] at h1 h2 hread
    obtain ⟨character, hsize, rfl⟩ := ord_eq_some h2
    simp [readPhotoTail, ownTail, hread, h1, hsize, chr, Utf8.CodePoint.ofNat_toNat]
  | chatPhotoSmall | chatPhotoBig | stickerSetThumbnail =>
    rcases hvalues with _ | ⟨h1, _ | ⟨h2, _ | _⟩⟩
    simp only [photoTailFields, List.map_cons, List.map_nil] at h1 h2 hread
    simp [readPhotoTail, ownTail, hread, h1, h2]
  | fullLegacy | stickerSetThumbnailVersion =>
    rcases hvalues with _ | ⟨h1, _ | ⟨h2, _ | ⟨h3, _ | _⟩⟩⟩
    simp only [photoTailFields, List.map_cons, List.map_nil] at h1 h2 h3 hread
    simp [readPhotoTail, ownTail, hread, h1, h2, h3]
  | chatPhotoSmallLegacy | chatPhotoBigLegacy | stickerSetThumbnailLegacy =>
    rcases hvalues with _ | ⟨h1, _ | ⟨h2, _ | ⟨h3, _ | ⟨h4, _ | _⟩⟩⟩⟩
    simp only [photoTailFields, List.map_cons, List.map_nil] at h1 h2 h3 h4 hread
    simp [readPhotoTail, ownTail, hread, h1, h2, h3, h4]

/-- What follows the ids of a photo is read back. -/
theorem readPhoto_writePhoto {fileId : FileId} {major minor : ℤ} {source : ThumbnailSource}
    (hsource : fileId.thumbnailSource = some source) (hlegacy : major < 4 → source = .legacy)
    (hcarried : carriedTail minor source fileId.toPhotoTail = fileId.toPhotoTail) {w : List UInt8}
    (h : fileId.writePhoto major minor = some w) (rest : List UInt8) :
    readPhoto major minor (w ++ rest) = some (source, fileId.toPhotoTail) := by
  simp only [writePhoto, writePhotoTail, hsource, Option.bind_eq_bind, Option.bind_eq_some_iff,
    Option.pure_def, Option.some.injEq, Option.map_some, exists_eq_left'] at h
  obtain ⟨volumeId, hvolume, tag, htag, tail, htail, localId, hlocal, rfl⟩ := h
  -- from the fourth version on the source is told by its number
  have hread : readIf (4 ≤ major) (unpack [4]) [0] (tag ++ (tail ++ (localId ++ rest))) =
      some ([source.value], tail ++ (localId ++ rest)) := by
    by_cases hmajor : 4 ≤ major
    · rw [writeIf_pos hmajor] at htag
      obtain ⟨values, hvalues, hread⟩ := unpackFields_pack htag (tail ++ (localId ++ rest))
      rcases hvalues with _ | ⟨h1, _ | _⟩
      cases h1
      rw [readIf_pos hmajor]
      exact hread
    · rw [writeIf_neg hmajor] at htag
      cases htag
      rw [readIf_neg hmajor, hlegacy (not_le.mp hmajor)]
      rfl
  have htailRead := readPhotoTail_pack htail (localId ++ rest)
  simp only [List.append_assoc]
  -- an old version has the volume id before it and the local id behind it
  by_cases hminor : minor < noVolumeAndLocalIdMinor
  · rw [carriedTail, if_pos hminor] at hcarried
    rw [writeIf_pos hminor] at hvolume hlocal
    obtain ⟨values, hvalues, hvolumeRead⟩ :=
      unpackFields_pack hvolume (tag ++ (tail ++ (localId ++ rest)))
    rcases hvalues with _ | ⟨h1, _ | _⟩
    obtain ⟨values, hvalues, hlocalRead⟩ := unpackFields_pack hlocal rest
    rcases hvalues with _ | ⟨h2, _ | _⟩
    simp only [List.map_cons, List.map_nil] at h1 h2 hvolumeRead hlocalRead
    rw [h1, h2] at hcarried
    simp [readPhoto, hminor, hvolumeRead, hread, ThumbnailSource.ofValue_value, htailRead,
      hlocalRead, hcarried]
  · rw [carriedTail, if_neg hminor] at hcarried
    rw [writeIf_neg hminor] at hvolume hlocal
    cases hvolume
    simp [readPhoto, hminor, hread, ThumbnailSource.ofValue_value, htailRead, hcarried]

/-! ### The version bytes -/

theorem toNat_of_encodeSigned {v : ℤ} {w : List UInt8} (h : LittleEndian.encodeSigned 1 v = some w)
    (hv : 0 ≤ v) :
    ∃ b : UInt8, w = [b] ∧ (b.toNat : ℤ) = v := by
  obtain ⟨⟨-, hlt⟩, rfl⟩ := LittleEndian.encodeSigned_eq_some.mp h
  refine ⟨_, rfl, ?_⟩
  rw [UInt8.toNat_ofNat']
  omega

/-- The version is read back, and the rest of the buffer with it. -/
theorem readVersion_pack {major minor : ℤ} (hversion : Version major minor) {w : List UInt8}
    (h : pack [(1, some minor), (1, some major)] = some w) (body : List UInt8) :
    ∃ rest, readVersion (body ++ w) = some (major, minor, body ++ rest) := by
  obtain ⟨hmajor, hminor, hzero⟩ := hversion
  simp only [pack, Option.bind_eq_bind, Option.bind_some, Option.bind_eq_some_iff, Option.pure_def,
    Option.some.injEq] at h
  obtain ⟨w1, hw1, w2, ⟨w3, hw3, -, rfl, rfl⟩, rfl⟩ := h
  obtain ⟨x, rfl, rfl⟩ := toNat_of_encodeSigned hw1 hminor
  obtain ⟨y, rfl, rfl⟩ := toNat_of_encodeSigned hw3 hmajor
  have hsplit : body ++ ([x] ++ ([y] ++ [])) = body ++ [x] ++ [y] := by simp
  rw [hsplit, readVersion, List.getLast?_concat, List.dropLast_concat]
  by_cases hlt : y.toNat < 4
  · refine ⟨[x], ?_⟩
    have hx := hzero (by exact_mod_cast hlt)
    simp [hlt, hx]
  · refine ⟨[], ?_⟩
    simp [hlt]

/-! ### The header -/

theorem hasFlag_value (t : FileType) : hasFlag webLocationFlag t.value = false ∧
    hasFlag fileReferenceFlag t.value = false := by
  cases t <;> decide

/-- The flags of a file id that is no web location, and its type without them. -/
theorem flags_flaggedType {fileId : FileId} (hurl : fileId.url = none) :
    hasFlag webLocationFlag fileId.flaggedType = false ∧
    (hasFlag fileReferenceFlag fileId.flaggedType ↔ fileId.fileReference ≠ []) ∧
    clearFlag fileReferenceFlag (clearFlag webLocationFlag fileId.flaggedType) =
      fileId.fileType.value := by
  have hflags : ∀ t : FileType, hasFlag webLocationFlag (setFlag fileReferenceFlag t.value) =
    false ∧
      hasFlag fileReferenceFlag (setFlag fileReferenceFlag t.value) = true ∧
      clearFlag fileReferenceFlag (clearFlag webLocationFlag (setFlag fileReferenceFlag t.value)) =
        t.value := by
    intro t
    cases t <;> decide
  have hplain : ∀ t : FileType,
      clearFlag fileReferenceFlag (clearFlag webLocationFlag t.value) = t.value := by
    intro t
    cases t <;> decide
  by_cases hreference : fileId.fileReference = []
  · have hflagged : fileId.flaggedType = fileId.fileType.value := by
      simp [flaggedType, hurl, hreference]
    rw [hflagged]
    exact ⟨(hasFlag_value _).1, by simp [(hasFlag_value _).2, hreference], hplain _⟩
  · have hflagged : fileId.flaggedType = setFlag fileReferenceFlag fileId.fileType.value := by
      simp [flaggedType, hurl, hreference]
    rw [hflagged]
    exact ⟨(hflags _).1, by simp [(hflags _).2.1, hreference], (hflags _).2.2⟩

/-! ### The whole file id -/

/-- **A buffer is read back**: the file id whose fields are those it carries. -/
theorem decode_of_buffer {fileId : FileId} (hcarries : Carries fileId)
    (hversion : Version fileId.major fileId.minor) {bytes r : List UInt8}
    (hbuffer : fileId.buffer fileId.major fileId.minor = some bytes)
    (hrle : rleEncode bytes = some r) :
    decode (b64Encode r) = some fileId := by
  have hurl : ¬ fileId.url.getD [] ≠ [] := by simp [hcarries.url]
  simp only [buffer, Option.bind_eq_bind, Option.bind_eq_some_iff, Option.pure_def,
    Option.some.injEq, writeIf_neg hurl, exists_eq_left'] at hbuffer
  obtain ⟨header, hheader, reference, hreference, ids, hids, body, hbody, version, hpack, rfl⟩ :=
    hbuffer
  -- the fields are read one by one, in the order in which they were written
  obtain ⟨rest, hversionRead⟩ :=
    readVersion_pack hversion hpack (header ++ [] ++ reference ++ ids ++ body)
  obtain ⟨hweb, hflag, hclear⟩ := flags_flaggedType hcarries.url
  simp only [List.append_nil, List.append_assoc] at hversionRead
  obtain ⟨values, hvalues, hheaderRead⟩ :=
    unpackFields_pack hheader (reference ++ (ids ++ (body ++ rest)))
  rcases hvalues with _ | ⟨h1, _ | ⟨h2, _ | _⟩⟩
  cases h1
  cases h2
  -- the file reference is there when its flag is set
  have hreferenceRead : readIf (hasFlag fileReferenceFlag fileId.flaggedType) Bytes.read []
      (reference ++ (ids ++ (body ++ rest))) =
        some (fileId.fileReference, ids ++ (body ++ rest)) := by
    by_cases hempty : fileId.fileReference = []
    · rw [writeIf_neg (not_not.mpr hempty)] at hreference
      cases hreference
      rw [readIf_neg (fun h => hflag.mp h hempty), hempty]
      rfl
    · rw [writeIf_pos hempty] at hreference
      rw [readIf_pos (hflag.mpr hempty), Bytes.read_new hreference]
  obtain ⟨values, hvalues, hidsRead⟩ := unpackFields_pack hids (body ++ rest)
  rcases hvalues with _ | ⟨hmedia, _ | ⟨hhash, _ | _⟩⟩
  simp only [List.map_cons, List.map_nil] at hmedia hhash hheaderRead hidsRead
  simp only [decode, b64Decode_b64Encode, rleDecode_rleEncode hrle, List.append_nil,
    List.append_assoc, Option.bind_eq_bind, Option.bind_some, hversionRead, hheaderRead, hclear,
      FileType.ofValue_value, hweb,
    Bool.false_eq_true, if_false, hreferenceRead, hidsRead]
  -- a photo has a tail of its own
  by_cases hphoto : fileId.fileType.isPhoto
  · obtain ⟨source, hsource, hlegacy, hcarried⟩ := hcarries.photo hphoto
    rw [writeRest, if_pos hphoto] at hbody
    have hphotoRead := readPhoto_writePhoto hsource hlegacy hcarried hbody rest
    rw [if_pos hphoto, hphotoRead, Option.bind_some, ← hsource, ← hmedia, ← hhash, ← hcarries.url]
    rfl
  · obtain ⟨hsource, htail⟩ := hcarries.document hphoto
    rw [if_neg hphoto, ← hsource, ← hmedia, ← hhash, ← hcarries.url, ← htail]
    rfl

/-- **The round trip of file ids**: a file id whose set fields are those it carries is read
back from what it is encoded to exactly when its version is one that can be read. -/
theorem decode_encode_iff {fileId : FileId} (hcarries : Carries fileId) {s : List Utf8.CodePoint}
    (h : fileId.encode = some s) : decode s = some fileId ↔ Version fileId.major fileId.minor := by
  constructor
  · exact fun hdecode => (readable_of_decode hdecode).1
  · intro hversion
    simp only [encode, Option.getD_none, Option.bind_eq_bind, Option.bind_eq_some_iff,
      Option.pure_def, Option.some.injEq] at h
    obtain ⟨bytes, hbuffer, r, hrle, rfl⟩ := h
    exact decode_of_buffer hcarries hversion hbuffer hrle

/-- A thumbnail of a photo. -/
def thumbnail : FileId where
  minor := 32
  fileType := .photo
  dcId := 2
  fileReference := [1, 0, 0, 2]
  mediaId := some 5
  accessHash := some (-6)
  thumbnailSource := some .thumbnail
  thumbnailFileType := some 2
  thumbnailSize := [.char 'm']

theorem decode_encode_thumbnail : ∃ s, thumbnail.encode = some s ∧
    (decode s = some thumbnail ↔ Version thumbnail.major thumbnail.minor) := by
  have hcarries : Carries thumbnail :=
    ⟨rfl, fun _ => ⟨.thumbnail, rfl, fun h => absurd h (by decide), rfl⟩, fun h => absurd rfl h⟩
  have hencode : (thumbnail.encode).isSome := by decide
  obtain ⟨s, hs⟩ := Option.isSome_iff_exists.mp hencode
  exact ⟨s, hs, decode_encode_iff hcarries hs⟩

/-- A document of a negative minor version. -/
def negative : FileId where
  minor := -1
  fileType := .document
  dcId := 2
  mediaId := some 5
  accessHash := some 6

/-- **A negative minor version is not read back**: it is packed as a signed byte, and read as
an unsigned one. -/
theorem decode_encode_negative : Carries negative ∧ ∃ s, negative.encode = some s ∧
    decode s ≠ some negative := by
  have hencode : (negative.encode).isSome := by decide
  obtain ⟨s, hs⟩ := Option.isSome_iff_exists.mp hencode
  refine ⟨⟨rfl, fun h => absurd h (by decide), fun _ => ⟨rfl, rfl⟩⟩, s, hs, fun hdecode => ?_⟩
  have hminor : (0 : ℤ) ≤ -1 := (readable_of_decode hdecode).1.2.1
  omega

end FileId

end Pyrogram
