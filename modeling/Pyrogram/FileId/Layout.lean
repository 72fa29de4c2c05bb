import Pyrogram.FileId.Codec

/-!
# File ids

What a file id consists of, and how it is written and read.  The layout branches on the
file type, the flags in it, the two version bytes and, for photos, the thumbnail source.

## Main definitions

* `FileType`, `ThumbnailSource`, `FileId`.
* `PhotoTail`, `readPhotoTail`, `writePhotoTail` — what a photo carries after its source.
* `FileId.decode`, `FileId.encode`.
-/

namespace Pyrogram

open Raw

/-! ### Types -/

inductive FileType
  | thumbnail
  | chatPhoto
  | photo
  | voice
  | video
  | document
  | encrypted
  | temp
  | sticker
  | audio
  | animation
  | encryptedThumbnail
  | wallpaper
  | videoNote
  | secureRaw
  | secure
  | background
  | documentAsFile
  deriving DecidableEq, Repr

namespace FileType

def all : List FileType :=
  [thumbnail, chatPhoto, photo, voice, video, document, encrypted, temp, sticker,
  audio, animation, encryptedThumbnail, wallpaper, videoNote, secureRaw, secure, background,
    documentAsFile]

def value (t : FileType) : ℤ := all.idxOf t

/-- `FileType(value)`. -/
def ofValue (v : ℤ) : Option FileType := all.find? (·.value = v)

/-- The types in `PHOTO_TYPES`; the others are in `DOCUMENT_TYPES`. -/
def isPhoto : FileType → Bool
  | thumbnail | chatPhoto | photo | wallpaper | encryptedThumbnail => true
  | voice | video | document | encrypted | temp | sticker | audio | animation | videoNote
      | secureRaw | secure
  | background | documentAsFile => false

theorem ofValue_value (t : FileType) : ofValue t.value = some t := by
  cases t <;> rfl

theorem value_of_ofValue {v : ℤ} {t : FileType} (h : ofValue v = some t) : t.value = v := by
  simpa using List.find?_some h

theorem value_mem (t : FileType) : 0 ≤ t.value ∧ t.value < 18 := by
  cases t <;> decide

end FileType

inductive ThumbnailSource
  | legacy
  | thumbnail
  | chatPhotoSmall
  | chatPhotoBig
  | stickerSetThumbnail
  | fullLegacy
  | chatPhotoSmallLegacy
  | chatPhotoBigLegacy
  | stickerSetThumbnailLegacy
  | stickerSetThumbnailVersion
  deriving DecidableEq, Repr

namespace ThumbnailSource

def all : List ThumbnailSource :=
  [legacy, thumbnail, chatPhotoSmall, chatPhotoBig, stickerSetThumbnail,
  fullLegacy, chatPhotoSmallLegacy, chatPhotoBigLegacy, stickerSetThumbnailLegacy,
    stickerSetThumbnailVersion]

def value (s : ThumbnailSource) : ℤ := all.idxOf s

/-- `ThumbnailSource(value)`. -/
def ofValue (v : ℤ) : Option ThumbnailSource := all.find? (·.value = v)

theorem ofValue_value (s : ThumbnailSource) : ofValue s.value = some s := by
  cases s <;> rfl

theorem value_of_ofValue {v : ℤ} {s : ThumbnailSource} (h : ofValue v = some s) : s.value = v := by
  simpa using List.find?_some h

theorem value_mem (s : ThumbnailSource) : 0 ≤ s.value ∧ s.value < 10 := by
  cases s <;> decide

end ThumbnailSource

/-- What a photo file id carries after its source tag. -/
structure PhotoTail where
  volumeId : Option ℤ := none
  localId : Option ℤ := none
  secret : Option ℤ := none
  thumbnailFileType : Option ℤ := none
  thumbnailSize : List Utf8.CodePoint := []
  chatId : Option ℤ := none
  chatAccessHash : Option ℤ := none
  stickerSetId : Option ℤ := none
  stickerSetAccessHash : Option ℤ := none
  stickerSetVersion : Option ℤ := none
  deriving DecidableEq, Repr

structure FileId extends PhotoTail where
  major : ℤ := 4
  minor : ℤ := 30
  fileType : FileType
  dcId : ℤ
  fileReference : List UInt8 := []
  url : Option (List Utf8.CodePoint) := none
  mediaId : Option ℤ := none
  accessHash : Option ℤ := none
  thumbnailSource : Option ThumbnailSource := none
  deriving DecidableEq, Repr

namespace FileId

/-! ### Flags -/

def webLocationFlag : ℤ := 2 ^ 24

def fileReferenceFlag : ℤ := 2 ^ 25

/-- `value & flag`, of one bit. -/
def hasFlag (flag value : ℤ) : Bool := value / flag % 2 = 1

/-- `value | flag`. -/
def setFlag (flag value : ℤ) : ℤ := if hasFlag flag value then value else value + flag

/-- `value & ~flag`. -/
def clearFlag (flag value : ℤ) : ℤ := if hasFlag flag value then value - flag else value

def noVolumeAndLocalIdMinor : ℤ := 32

/-! ### The tail of a photo -/

/-- `chr`; `none` where it raises. -/
def chr (n : ℤ) : Option Utf8.CodePoint := if 0 ≤ n then Utf8.CodePoint.ofNat n.toNat else none

/-- `read_photo_tail`. -/
def readPhotoTail (source : ThumbnailSource) (buffer : List UInt8) :
    Option (PhotoTail × List UInt8) :=
  match source with
  | .legacy => do
      let ([secret], buffer) ← unpack [8] buffer | none
      return ({ secret := some secret }, buffer)
  | .thumbnail => do
      let ([thumbnailFileType, thumbnailSize], buffer) ← unpack [4, 4] buffer | none
      let character ← chr thumbnailSize
      return ({ thumbnailFileType := some thumbnailFileType, thumbnailSize := [character] }, buffer)
  | .chatPhotoSmall | .chatPhotoBig => do
      let ([chatId, chatAccessHash], buffer) ← unpack [8, 8] buffer | none
      return ({ chatId := some chatId, chatAccessHash := some chatAccessHash }, buffer)
  | .stickerSetThumbnail => do
      let ([stickerSetId, stickerSetAccessHash], buffer) ← unpack [8, 8] buffer | none
      return ({ stickerSetId := some stickerSetId, stickerSetAccessHash := some stickerSetAccessHash
        }, buffer)
  | .fullLegacy => do
      let ([volumeId, secret, localId], buffer) ← unpack [8, 8, 4] buffer | none
      return ({ volumeId := some volumeId, secret := some secret, localId := some localId }, buffer)
  | .chatPhotoSmallLegacy | .chatPhotoBigLegacy => do
      let ([chatId, chatAccessHash, volumeId, localId], buffer) ← unpack [8, 8, 8, 4] buffer | none
      return (
        { chatId := some chatId
          chatAccessHash := some chatAccessHash
          volumeId := some volumeId
          localId := some localId }, buffer)
  | .stickerSetThumbnailLegacy => do
      let ([stickerSetId, stickerSetAccessHash, volumeId, localId], buffer) ← unpack [8, 8, 8, 4]
        buffer | none
      return ({ stickerSetId := some stickerSetId, stickerSetAccessHash := some stickerSetAccessHash
                volumeId := some volumeId, localId := some localId }, buffer)
  | .stickerSetThumbnailVersion => do
      let ([stickerSetId, stickerSetAccessHash, stickerSetVersion], buffer) ← unpack [8, 8, 4]
        buffer | none
      return ({ stickerSetId := some stickerSetId, stickerSetAccessHash := some stickerSetAccessHash
                stickerSetVersion := some stickerSetVersion }, buffer)

/-- `ord`; `none` where the text is not one character. -/
def ord : List Utf8.CodePoint → Option ℤ
  | [character] => some character.toNat
  | _ => none

/-- The fields that `write_photo_tail` packs, with their sizes. -/
def photoTailFields (source : ThumbnailSource) (fileId : PhotoTail) : List (ℕ × Option ℤ) :=
  match source with
  | .legacy => [(8, fileId.secret)]
  | .thumbnail => [(4, fileId.thumbnailFileType), (4, ord fileId.thumbnailSize)]
  | .chatPhotoSmall | .chatPhotoBig => [(8, fileId.chatId), (8, fileId.chatAccessHash)]
  | .stickerSetThumbnail => [(8, fileId.stickerSetId), (8, fileId.stickerSetAccessHash)]
  | .fullLegacy => [(8, fileId.volumeId), (8, fileId.secret), (4, fileId.localId)]
  | .chatPhotoSmallLegacy | .chatPhotoBigLegacy =>
      [(8, fileId.chatId), (8, fileId.chatAccessHash), (8, fileId.volumeId), (4, fileId.localId)]
  | .stickerSetThumbnailLegacy =>
      [(8, fileId.stickerSetId), (8, fileId.stickerSetAccessHash), (8, fileId.volumeId),
        (4, fileId.localId)]
  | .stickerSetThumbnailVersion =>
      [(8, fileId.stickerSetId), (8, fileId.stickerSetAccessHash), (4, fileId.stickerSetVersion)]

/-- `write_photo_tail`. -/
def writePhotoTail (fileId : FileId) : Option (List UInt8) := do
  pack (photoTailFields (← fileId.thumbnailSource) fileId.toPhotoTail)

/-! ### Decoding -/

/-- The version bytes: `major`, `minor` and the rest of the buffer. -/
def readVersion (decoded : List UInt8) : Option (ℤ × ℤ × List UInt8) := do
  let major ← decoded.getLast?
  if major.toNat < 4 then return (major.toNat, 0, decoded.dropLast)
  else
    let minor ← decoded.dropLast.getLast?
    return (major.toNat, minor.toNat, decoded.dropLast.dropLast)

/-- `read(...) if condition else absent`. -/
def readIf {β : Type} (condition : Prop) [Decidable condition] (read : Reader β) (absent : β) :
    Reader β :=
  fun buffer => if condition then read buffer else some (absent, buffer)

section ReadIf

variable {β : Type} {condition : Prop} [Decidable condition] {read : Reader β} {absent : β}
    {buffer : List UInt8}

@[simp] theorem readIf_pos (h : condition) : readIf condition read absent buffer = read buffer :=
  if_pos h

@[simp] theorem readIf_neg (h : ¬ condition) :
    readIf condition read absent buffer = some (absent, buffer) :=
  if_neg h

end ReadIf

/-- What follows the ids of a photo: the source and the tail. -/
def readPhoto (major minor : ℤ) (buffer : List UInt8) : Option (ThumbnailSource × PhotoTail) := do
  let (volumeId, buffer) ← readIf (minor < noVolumeAndLocalIdMinor) (unpack [8]) [] buffer
  let (thumbnailSource, buffer) ← readIf (4 ≤ major) (unpack [4]) [0] buffer
  let thumbnailSource ← ThumbnailSource.ofValue (← thumbnailSource.head?)
  let (tail, buffer) ← readPhotoTail thumbnailSource buffer
  if minor < noVolumeAndLocalIdMinor then
    -- before minor 32 every source shared one layout, with `local_id` last
    let (localId, _) ← unpack [4] buffer
    return (thumbnailSource, { tail with volumeId := volumeId.head?, localId := localId.head? })
  else return (thumbnailSource, tail)

/-- `FileId.decode`; `none` where it raises. -/
def decode (fileId : List Utf8.CodePoint) : Option FileId := do
  let decoded := rleDecode (← b64Decode fileId)
  let (major, minor, buffer) ← readVersion decoded
  let ([flagged, dcId], buffer) ← unpack [4, 4] buffer | none
  let hasWebLocation := hasFlag webLocationFlag flagged
  let hasFileReference := hasFlag fileReferenceFlag flagged
  let fileType ← FileType.ofValue (clearFlag fileReferenceFlag (clearFlag webLocationFlag flagged))
  if hasWebLocation then
    let (url, buffer) ← Core.read .string buffer
    let ([accessHash], _) ← unpack [8] buffer | none
    return { major, minor, fileType, dcId, url := some url, accessHash := some accessHash }
  else
    let (fileReference, buffer) ← readIf hasFileReference Bytes.read [] buffer
    let ([mediaId, accessHash], buffer) ← unpack [8, 8] buffer | none
    if fileType.isPhoto then
      let (thumbnailSource, tail) ← readPhoto major minor buffer
      return { major, minor, fileType, dcId, fileReference, mediaId := some mediaId
               accessHash := some accessHash, thumbnailSource :=
                 some thumbnailSource, toPhotoTail := tail }
    else
      return { major, minor, fileType, dcId, fileReference, mediaId := some mediaId
               accessHash := some accessHash }

/-! ### Encoding -/

/-- `file_type` with its flags. -/
def flaggedType (fileId : FileId) : ℤ :=
  let fileType := fileId.fileType.value
  let fileType := if fileId.url.getD [] ≠ [] then setFlag webLocationFlag fileType else fileType
  if fileId.fileReference ≠ [] then setFlag fileReferenceFlag fileType else fileType

/-- `if condition: buffer.write(...)`. -/
def writeIf (condition : Prop) [Decidable condition] (w : Option (List UInt8)) :
    Option (List UInt8) :=
  if condition then w else some []

section WriteIf

variable {condition : Prop} [Decidable condition] {w : Option (List UInt8)}

@[simp] theorem writeIf_pos (h : condition) : writeIf condition w = w := if_pos h

@[simp] theorem writeIf_neg (h : ¬ condition) : writeIf condition w = some [] := if_neg h

end WriteIf

/-- What is written after the ids of a photo. -/
def writePhoto (fileId : FileId) (major minor : ℤ) : Option (List UInt8) := do
  let volumeId ← writeIf (minor < noVolumeAndLocalIdMinor) (pack [(8, fileId.volumeId)])
  let source ← writeIf (4 ≤ major) (pack [(4, fileId.thumbnailSource.map ThumbnailSource.value)])
  let tail ← fileId.writePhotoTail
  let localId ← writeIf (minor < noVolumeAndLocalIdMinor) (pack [(4, fileId.localId)])
  return volumeId ++ source ++ tail ++ localId

/-- What is written after the ids. -/
def writeRest (fileId : FileId) (major minor : ℤ) : Option (List UInt8) :=
  if fileId.fileType.isPhoto then fileId.writePhoto major minor
  -- a flagged type is not in `DOCUMENT_TYPES`
  else writeIf ((FileType.ofValue fileId.flaggedType).any fun t => ¬ t.isPhoto)
    (pack [(4, some minor), (4, some major)])

/-- The buffer that `encode` writes, with the versions it was given; `none` where it raises. -/
def buffer (fileId : FileId) (major minor : ℤ) : Option (List UInt8) := do
  let header ← pack [(4, some fileId.flaggedType), (4, some fileId.dcId)]
  let url ← writeIf (fileId.url.getD [] ≠ []) (Core.new .string (fileId.url.getD []))
  let fileReference ← writeIf (fileId.fileReference ≠ []) (Bytes.new fileId.fileReference)
  let ids ← pack [(8, fileId.mediaId), (8, fileId.accessHash)]
  let rest ← fileId.writeRest major minor
  let version ← pack [(1, some minor), (1, some major)]
  return header ++ url ++ fileReference ++ ids ++ rest ++ version

/-- `encode`; `none` where it raises. -/
def encode (fileId : FileId) (major minor : Option ℤ := none) : Option (List Utf8.CodePoint) := do
  let buffer ← fileId.buffer (major.getD fileId.major) (minor.getD fileId.minor)
  return b64Encode (← rleEncode buffer)

end FileId

end Pyrogram
