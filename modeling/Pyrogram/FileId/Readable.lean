import Pyrogram.FileId.Layout

/-!
# What can be read as a file id

The fields that a file id carries, and what the decoder returns.

## Main definitions

* `ownTail`, `carriedTail`, `Carries` — the fields that are carried.
* `Version` — the versions that can be read.
* `Readable` — the file ids that are read from what is no web location.

## Main results

* `readable_of_decode` — what has been read is a web location or readable.
-/

namespace Pyrogram

namespace FileId

open Raw

/-! ### What is carried -/

/-- The fields of a tail that its source carries. -/
def ownTail (source : ThumbnailSource) (tail : PhotoTail) : PhotoTail :=
  match source with
  | .legacy => { secret := tail.secret }
  | .thumbnail =>
      { thumbnailFileType := tail.thumbnailFileType, thumbnailSize := tail.thumbnailSize }
  | .chatPhotoSmall | .chatPhotoBig =>
      { chatId := tail.chatId, chatAccessHash := tail.chatAccessHash }
  | .stickerSetThumbnail =>
      { stickerSetId := tail.stickerSetId, stickerSetAccessHash := tail.stickerSetAccessHash }
  | .fullLegacy => { volumeId := tail.volumeId, secret := tail.secret, localId := tail.localId }
  | .chatPhotoSmallLegacy | .chatPhotoBigLegacy =>
      { chatId := tail.chatId, chatAccessHash := tail.chatAccessHash
        volumeId := tail.volumeId, localId := tail.localId }
  | .stickerSetThumbnailLegacy =>
      { stickerSetId := tail.stickerSetId, stickerSetAccessHash := tail.stickerSetAccessHash
        volumeId := tail.volumeId, localId := tail.localId }
  | .stickerSetThumbnailVersion =>
      { stickerSetId := tail.stickerSetId, stickerSetAccessHash := tail.stickerSetAccessHash
        stickerSetVersion := tail.stickerSetVersion }

/-- The fields of a tail that its source and the minor version carry. -/
def carriedTail (minor : ℤ) (source : ThumbnailSource) (tail : PhotoTail) : PhotoTail :=
  if minor < noVolumeAndLocalIdMinor then
    { ownTail source tail with volumeId := tail.volumeId, localId := tail.localId }
  else ownTail source tail

/-- The fields that are set are those of a file id that is no web location: of a photo
its source and what that carries, of a document none. -/
structure Carries (fileId : FileId) : Prop where
  url : fileId.url = none
  photo : fileId.fileType.isPhoto → ∃ source, fileId.thumbnailSource = some source ∧
    (fileId.major < 4 → source = .legacy) ∧
    carriedTail fileId.minor source fileId.toPhotoTail = fileId.toPhotoTail
  document : ¬ fileId.fileType.isPhoto → fileId.thumbnailSource = none ∧ fileId.toPhotoTail = {}

/-- The versions that can be read: no negative ones, and no minor version before major 4. -/
def Version (major minor : ℤ) : Prop := 0 ≤ major ∧ 0 ≤ minor ∧ (major < 4 → minor = 0)

/-- A file id that is no web location, with every field in the range of its format, the
versions up to a whole byte. -/
structure Readable (fileId : FileId) : Prop where
  version : Version fileId.major fileId.minor
  bytes : fileId.major < 256 ∧ fileId.minor < 256
  carries : Carries fileId
  dcId : Packable (4, some fileId.dcId)
  fileReference : fileId.fileReference.length < 2 ^ 24
  ids : Packable (8, fileId.mediaId) ∧ Packable (8, fileId.accessHash)
  tail : ∀ source, fileId.thumbnailSource = some source →
    ∀ field ∈ photoTailFields source fileId.toPhotoTail, Packable field
  volumeAndLocalId : fileId.fileType.isPhoto → fileId.minor < noVolumeAndLocalIdMinor →
    Packable (8, fileId.volumeId) ∧ Packable (4, fileId.localId)

/-! ### What is read -/

/-- A tail has the fields of its source, each in the range of its format. -/
theorem fields_of_readPhotoTail {source : ThumbnailSource} {b b' : List UInt8} {tail : PhotoTail}
    (h : readPhotoTail source b = some (tail, b')) :
    ownTail source tail = tail ∧ ∀ field ∈ photoTailFields source tail, Packable field := by
  -- the sources by the number of fields in their tails
  cases source with
  | legacy =>
    simp only [readPhotoTail, Option.bind_eq_bind, Option.bind_eq_some_iff] at h
    obtain ⟨⟨values, rest⟩, hread, h⟩ := h
    rcases packable_of_unpack hread with _ | ⟨h1, _ | _⟩
    cases h
    exact ⟨rfl, by simp [photoTailFields, h1]⟩
  | thumbnail =>
    simp only [readPhotoTail, Option.bind_eq_bind, Option.bind_eq_some_iff] at h
    obtain ⟨⟨values, rest⟩, hread, h⟩ := h
    rcases packable_of_unpack hread with _ | ⟨h1, _ | ⟨h2, _ | _⟩⟩
    simp only [Option.bind_eq_some_iff] at h
    obtain ⟨character, -, h⟩ := h
    cases h
    -- the size of the thumbnail is read as a character
    have hord : Packable (4, ord [character]) := by
      refine ⟨_, rfl, ?_⟩
      have hlt := character.toNat_lt
      change -256 ^ 4 ≤ 2 * (character.toNat : ℤ) ∧ 2 * (character.toNat : ℤ) < 256 ^ 4
      omega
    exact ⟨rfl, by simp [photoTailFields, h1, hord]⟩
  | chatPhotoSmall | chatPhotoBig | stickerSetThumbnail =>
    simp only [readPhotoTail, Option.bind_eq_bind, Option.bind_eq_some_iff] at h
    obtain ⟨⟨values, rest⟩, hread, h⟩ := h
    rcases packable_of_unpack hread with _ | ⟨h1, _ | ⟨h2, _ | _⟩⟩
    cases h
    exact ⟨rfl, by simp [photoTailFields, h1, h2]⟩
  | fullLegacy | stickerSetThumbnailVersion =>
    simp only [readPhotoTail, Option.bind_eq_bind, Option.bind_eq_some_iff] at h
    obtain ⟨⟨values, rest⟩, hread, h⟩ := h
    rcases packable_of_unpack hread with _ | ⟨h1, _ | ⟨h2, _ | ⟨h3, _ | _⟩⟩⟩
    cases h
    exact ⟨rfl, by simp [photoTailFields, h1, h2, h3]⟩
  | chatPhotoSmallLegacy | chatPhotoBigLegacy | stickerSetThumbnailLegacy =>
    simp only [readPhotoTail, Option.bind_eq_bind, Option.bind_eq_some_iff] at h
    obtain ⟨⟨values, rest⟩, hread, h⟩ := h
    rcases packable_of_unpack hread with _ | ⟨h1, _ | ⟨h2, _ | ⟨h3, _ | ⟨h4, _ | _⟩⟩⟩⟩
    cases h
    exact ⟨rfl, by simp [photoTailFields, h1, h2, h3, h4]⟩

/-- The other version's fields take the place of those of the tail. -/
theorem ownTail_with (source : ThumbnailSource) (tail : PhotoTail) (volumeId localId : Option ℤ) :
    { ownTail source { tail with volumeId, localId } with volumeId, localId } =
      { ownTail source tail with volumeId, localId } := by
  cases source <;> rfl

theorem packable_with {source : ThumbnailSource} {tail : PhotoTail}
    (h : ∀ field ∈ photoTailFields source tail, Packable field) {volumeId localId : Option ℤ}
    (hvolume : Packable (8, volumeId)) (hlocal : Packable (4, localId)) :
    ∀ field ∈ photoTailFields source { tail with volumeId, localId }, Packable field := by
  cases source <;> simp_all [photoTailFields]

/-- What follows the ids of a photo has the fields it carries. -/
theorem fields_of_readPhoto {major minor : ℤ} {b : List UInt8} {source : ThumbnailSource}
    {tail : PhotoTail}
    (h : readPhoto major minor b = some (source, tail)) :
    (major < 4 → source = .legacy) ∧ carriedTail minor source tail = tail ∧
      (∀ field ∈ photoTailFields source tail, Packable field) ∧
      (minor < noVolumeAndLocalIdMinor → Packable (8, tail.volumeId) ∧
        Packable (4, tail.localId)) := by
  simp only [readPhoto, Option.bind_eq_bind, Option.bind_eq_some_iff] at h
  obtain ⟨⟨volumeId, b1⟩, hvolume, ⟨sources, b2⟩, hsources, value, hvalue, source', hsource,
    ⟨tail', b3⟩,
    htail, h⟩ := h
  obtain ⟨hown, hfields⟩ := fields_of_readPhotoTail htail
  -- before the fourth version there is one source
  have hlegacy : major < 4 → source' = .legacy := by
    intro hlt
    rw [readIf_neg (not_le.mpr hlt)] at hsources
    cases hsources
    cases hvalue
    exact (Option.some.inj hsource).symm
  -- old versions carry the volume and local ids, newer ones leave them out
  split at h
  · next hminor =>
    simp only [Option.bind_eq_some_iff] at h
    obtain ⟨⟨localId, b4⟩, hlocal, h⟩ := h
    rw [readIf_pos hminor] at hvolume
    rcases packable_of_unpack hvolume with _ | ⟨h1, _ | _⟩
    rcases packable_of_unpack hlocal with _ | ⟨h2, _ | _⟩
    cases h
    refine ⟨hlegacy, ?_, packable_with hfields h1 h2, fun _ => ⟨h1, h2⟩⟩
    rw [carriedTail, if_pos hminor, ownTail_with, hown]
  · next hminor =>
    cases h
    refine ⟨hlegacy, ?_, hfields, fun h => absurd h hminor⟩
    rw [carriedTail, if_neg hminor, hown]

/-- The versions that are read. -/
theorem version_of_readVersion {decoded rest : List UInt8} {major minor : ℤ}
    (h : readVersion decoded = some (major, minor, rest)) : Version major minor ∧ major < 256 ∧
      minor < 256 := by
  simp only [readVersion, Option.bind_eq_bind, Option.bind_eq_some_iff, Option.pure_def] at h
  obtain ⟨x, -, h⟩ := h
  have hx := x.toNat_lt
  split at h
  · cases h
    refine ⟨⟨Int.natCast_nonneg _, le_refl _, fun _ => rfl⟩, by omega, by decide⟩
  · next hle =>
    obtain ⟨y, -, h⟩ := Option.bind_eq_some_iff.mp h
    cases h
    have hy := y.toNat_lt
    exact ⟨⟨Int.natCast_nonneg _, Int.natCast_nonneg _, fun hlt => by omega⟩, by omega, by omega⟩

theorem length_of_read {b b' reference : List UInt8} (h : Bytes.read b = some (reference, b')) :
    reference.length < 2 ^ 24 := by
  unfold Bytes.read at h
  dsimp only at h
  split at h
  · next hshort =>
    cases h
    rw [List.length_take]
    omega
  · cases h
    have hlt := LittleEndian.decode_lt (((b.drop 1).take 3))
    have hpow : 256 ^ ((b.drop 1).take 3).length ≤ 256 ^ 3 :=
      Nat.pow_le_pow_right (by decide) (by rw [List.length_take]; omega)
    rw [List.length_take]
    omega

/-- **What has been read** has a version that can be read, and is a web location or readable. -/
theorem readable_of_decode {s : List Utf8.CodePoint} {fileId : FileId}
    (h : decode s = some fileId) :
    Version fileId.major fileId.minor ∧
      (fileId.url = none ∧ Readable fileId ∨ fileId.url ≠ none ∧ fileId.mediaId = none) := by
  simp only [decode, Option.bind_eq_bind, Option.bind_eq_some_iff] at h
  obtain ⟨decoded, -, ⟨major, minor, buffer⟩, hversion, ⟨header, b1⟩, hheader, h⟩ := h
  obtain ⟨hversion, hbytes⟩ := version_of_readVersion hversion
  rcases packable_of_unpack hheader with _ | ⟨h1, _ | ⟨h2, _ | _⟩⟩
  simp only [Option.bind_eq_some_iff] at h
  obtain ⟨fileType, -, h⟩ := h
  -- whether there is a URL is told by the first field
  split at h
  · simp only [Option.bind_eq_some_iff] at h
    obtain ⟨⟨url, b2⟩, -, ⟨hash, b3⟩, hhash, h⟩ := h
    rcases packable_of_unpack hhash with _ | ⟨h3, _ | _⟩
    cases h
    exact ⟨hversion, Or.inr ⟨Option.some_ne_none _, rfl⟩⟩
  · simp only [Option.bind_eq_some_iff] at h
    obtain ⟨⟨reference, b2⟩, hreference, ⟨ids, b3⟩, hids, h⟩ := h
    rcases packable_of_unpack hids with _ | ⟨h3, _ | ⟨h4, _ | _⟩⟩
    have hlength : reference.length < 2 ^ 24 := by
      unfold readIf at hreference
      split at hreference
      · exact length_of_read hreference
      · cases hreference
        decide
    dsimp only at h
    -- a photo has its source and the tail of it
    by_cases hphoto : fileType.isPhoto
    · rw [if_pos hphoto] at h
      obtain ⟨⟨source, tail⟩, hread, h⟩ := Option.bind_eq_some_iff.mp h
      cases h
      obtain ⟨hlegacy, hcarried, hfields, hids⟩ := fields_of_readPhoto hread
      refine ⟨hversion, Or.inl ⟨rfl, ?_⟩⟩
      constructor
      case carries => exact ⟨rfl, fun _ => ⟨source, rfl, hlegacy, hcarried⟩, fun hnot =>
        absurd hphoto hnot⟩
      case tail =>
        rintro _ ⟨⟩
        exact hfields
      case volumeAndLocalId => exact fun _ => hids
      all_goals first | assumption | exact ⟨h3, h4⟩
    · rw [if_neg hphoto] at h
      cases h
      refine ⟨hversion, Or.inl ⟨rfl, ?_⟩⟩
      constructor
      case carries => exact ⟨rfl, fun hphoto' => absurd hphoto' hphoto, fun _ => ⟨rfl, rfl⟩⟩
      case tail => rintro _ ⟨⟩
      case volumeAndLocalId => exact fun hphoto' => absurd hphoto' hphoto
      all_goals first | assumption | exact ⟨h3, h4⟩

end FileId

end Pyrogram
