import Mathlib.Order.Interval.Finset.Nat
import Pyrogram.Media.GetFile

/-!
# The hashes of CDN chunks

The data centre gives hashes of parts of the file, each with its offset and its length.
The generator takes for the `i`-th hash the `i`-th part of the chunk of that length,
wherever the hash says it is.

## Main definitions

* `bytesBetween` — the bytes of a content at the positions of a range.
* `Yields`, `Verified` — what the generator accepts, and what it should.
* `Covers`, `Aligned` — the partitions for which these are the same.

## Main results

* `verified_iff` — **which partitions of a chunk are verified**.
* `lastBlock_rejected` — a shorter last block is not.
-/

namespace Pyrogram

def FileHash.range (h : FileHash) : ℤ × ℤ := (h.offset, h.limit)

namespace Download

/-! ### Ranges of bytes -/

/-- The bytes at the positions from `a` to `b`. -/
def bytesBetween (content : List UInt8) (a b : ℤ) : List UInt8 :=
  (content.take b.toNat).drop a.toNat

/-- The positions that a hash is for. -/
def hashRange (total : ℕ) (range : ℤ × ℤ) : Finset ℕ :=
  Finset.Ico range.1.toNat (min (range.1 + range.2).toNat total)

/-- The positions that are compared with the `i`-th hash of a chunk of `n` bytes at an offset. -/
def slicedRange (offset n i : ℕ) (range : ℤ × ℤ) : Finset ℕ :=
  Finset.Ico (offset + sliceIndex n (range.2 * i)) (offset + sliceIndex n (range.2 * (i + 1)))

/-- Every byte of the chunk is in the range of a hash. -/
def Covers (offset n : ℕ) (ranges : List (ℤ × ℤ)) : Prop :=
  ∀ p : ℕ, offset ≤ p → p < offset + n → ∃ range ∈ ranges, range.1 ≤ p ∧ p < range.1 + range.2

/-- What is compared with a hash is what the hash is for. -/
def Aligned (offset n total : ℕ) (ranges : List (ℤ × ℤ)) : Prop :=
  ∀ (i : ℕ) (range : ℤ × ℤ), ranges[i]? = some range →
    slicedRange offset n i range = hashRange total range

/-! ### Acceptance -/

/-- The generator, waiting for the hashes of a chunk, yields it. -/
def Yields (cipher : Aes.Cipher) (sha256 : List UInt8 → List UInt8) (s : Download)
    (hashes : List FileHash)
    (decryptedChunk : List UInt8) : Prop :=
  ∃ s', step cipher sha256 s (.hashes hashes) = some s' ∧ s'.yielded = s.yielded ++ [decryptedChunk]

/-- The hashes cover the chunk, and are those of the bytes they are for. -/
def Verified (sha256 : List UInt8 → List UInt8) (content : List UInt8) (offset n : ℕ)
    (hashes : List FileHash) : Prop :=
  Covers offset n (hashes.map FileHash.range) ∧
    ∀ h ∈ hashes, h.hash = sha256 (bytesBetween content h.offset (h.offset + h.limit))

variable {cipher : Aes.Cipher} {sha256 : List UInt8 → List UInt8} {s : Download}
    {redirect : CdnRedirect}
  {chunk decryptedChunk : List UInt8} {hashes : List FileHash}

theorem checkAllHashes_iff : checkAllHashes sha256 hashes decryptedChunk ↔ ∀ (i : ℕ) (h : FileHash),
    hashes[i]? = some h →
    h.hash = sha256 (slice decryptedChunk (h.limit * i) (h.limit * (i + 1))) := by
  simp only [checkAllHashes, List.all_eq_true, decide_eq_true_eq, Prod.forall,
    List.mk_mem_zipIdx_iff_getElem?]
  exact forall_comm

theorem yields_iff (hphase : s.phase = .getCdnFileHashes redirect chunk decryptedChunk) :
    Yields cipher sha256 s hashes decryptedChunk ↔ checkAllHashes sha256 hashes decryptedChunk := by
  unfold Yields step
  rw [hphase]
  by_cases hcheck : checkAllHashes sha256 hashes decryptedChunk
  · simp [hcheck, yieldChunk]
  · simp [hcheck]

/-! ### Ranges of a content -/

theorem length_sliceIndex_le (n : ℕ) (i : ℤ) : sliceIndex n i ≤ n := by
  unfold sliceIndex
  split <;> omega

/-- A slice of the chunk is a range of the content. -/
theorem slice_chunk {content : List UInt8} {offset n : ℕ} (hn : offset + n ≤ content.length)
    (a b : ℤ) :
    slice ((content.drop offset).take n) a b =
      (content.take (offset + sliceIndex n b)).drop (offset + sliceIndex n a) := by
  have hb := length_sliceIndex_le n b
  have hlength : ((content.drop offset).take n).length = n := by
    rw [List.length_take, List.length_drop]
    omega
  rw [slice, hlength, List.take_take, Nat.min_eq_left hb, ← List.drop_drop, List.take_drop]

/-- Ranges of the same positions have the same bytes. -/
theorem drop_take_of_Ico {content : List UInt8} {a b a' b' : ℕ}
    (h : Finset.Ico a b = Finset.Ico a' b') :
    (content.take b).drop a = (content.take b').drop a' := by
  have hempty : ∀ {a b : ℕ}, b ≤ a → (content.take b).drop a = [] := by
    intro a b hle
    rw [List.drop_eq_nil_iff, List.length_take]
    omega
  have hmem : ∀ x, a ≤ x ∧ x < b ↔ a' ≤ x ∧ x < b' := by
    intro x
    simpa using Finset.ext_iff.mp h x
  have ha := hmem a
  have ha' := hmem a'
  by_cases hlt : a < b
  · have hlast := hmem (b - 1)
    have hlast' := hmem (b' - 1)
    obtain rfl : a = a' := by omega
    obtain rfl : b = b' := by omega
    rfl
  · rw [hempty (not_lt.mp hlt), hempty (by omega)]

/-- Ranges of different positions have different bytes in some content. -/
theorem exists_content (total : ℕ) {a b a' b' : ℕ} (hb : b ≤ total) (hb' : b' ≤ total)
    (h : Finset.Ico a b ≠ Finset.Ico a' b') : ∃ content : List UInt8, content.length = total ∧
      (content.take b).drop a ≠ (content.take b').drop a' := by
  by_cases hlength : b - a = b' - a'
  · -- the first byte of one of them is marked
    have hne : a < b ∧ a ≠ a' := by
      by_contra hnot
      refine h (Finset.ext fun x => ?_)
      simp only [Finset.mem_Ico]
      omega
    refine ⟨(List.replicate total 0).set a 1, by simp, fun heq => ?_⟩
    have hhead := congrArg (·[0]?) heq
    simp only [List.getElem?_drop, List.getElem?_take, Nat.add_zero, hne.1, if_true,
      show a' < b' by omega, List.getElem?_set_ne hne.2, List.getElem?_replicate,
      List.getElem?_set_self', show a < total by omega, show a' < total by omega] at hhead
    simp at hhead
  · refine ⟨List.replicate total 0, List.length_replicate, fun heq => hlength ?_⟩
    have hcount := congrArg List.length heq
    simp only [List.length_drop, List.length_take, List.length_replicate] at hcount
    omega

theorem bytesBetween_eq (content : List UInt8) (a b : ℤ) :
    bytesBetween content a b = (content.take (min b.toNat content.length)).drop a.toNat := by
  have htake : content.take b.toNat = content.take (min b.toNat content.length) := by
    rw [List.take_eq_take_iff]
    omega
  rw [bytesBetween, htake]

/-! ### Which partitions are verified -/

/-- The hashes of the parts of the chunk that they are compared with, where the function
leaves its argument as it is. -/
def fittedHashes (decryptedChunk : List UInt8) (ranges : List (ℤ × ℤ)) : List FileHash :=
  ranges.zipIdx.map fun (range, i) =>
    ⟨range.1, range.2, slice decryptedChunk (range.2 * i) (range.2 * (i + 1))⟩

theorem getElem?_fittedHashes (ranges : List (ℤ × ℤ)) (i : ℕ) :
    (fittedHashes decryptedChunk ranges)[i]? =
    ranges[i]?.map fun range =>
      ⟨range.1, range.2, slice decryptedChunk (range.2 * i) (range.2 * (i + 1))⟩ := by
  rw [fittedHashes, List.getElem?_map, List.getElem?_zipIdx, Option.map_map]
  simp [Function.comp_def]

theorem range_fittedHashes (ranges : List (ℤ × ℤ)) :
    (fittedHashes decryptedChunk ranges).map FileHash.range = ranges := by
  refine List.ext_getElem? fun i => ?_
  rw [List.getElem?_map, getElem?_fittedHashes, Option.map_map]
  exact Option.map_id'

theorem checkAllHashes_fittedHashes (ranges : List (ℤ × ℤ)) :
    checkAllHashes id (fittedHashes decryptedChunk ranges) decryptedChunk := by
  rw [checkAllHashes_iff]
  intro i h hget
  rw [getElem?_fittedHashes] at hget
  obtain ⟨range, -, rfl⟩ := Option.map_eq_some_iff.mp hget
  rfl

/-- **Which partitions of a chunk are verified**: the generator yields the chunk exactly for
hashes that cover it and are those of the bytes they are for, whatever these are, where
the hashes cover the chunk and each is for the part of the chunk it is compared with. -/
theorem verified_iff {offset n m : ℕ} {ranges : List (ℤ × ℤ)} :
    (∀ (sha256 : List UInt8 → List UInt8) (content : List UInt8) (hashes : List FileHash)
      (s : Download)
      (redirect : CdnRedirect) (chunk : List UInt8), content.length = offset + n + m →
      hashes.map FileHash.range = ranges →
      s.phase = .getCdnFileHashes redirect chunk ((content.drop offset).take n) →
        (Yields cipher sha256 s hashes ((content.drop offset).take n) ↔
          Verified sha256 content offset n hashes)) ↔
    Covers offset n ranges ∧ Aligned offset n (offset + n + m) ranges := by
  constructor
  · intro h
    -- fitted hashes are accepted, so they have to be verified
    have hverified : ∀ content : List UInt8, content.length = offset + n + m →
        Verified id content offset n (fittedHashes ((content.drop offset).take n) ranges) := by
      intro content hlength
      let s : Download := { start 0 0 with
        phase := .getCdnFileHashes ⟨[], []⟩ [] ((content.drop offset).take n) }
      have hyields : Yields cipher id s (fittedHashes ((content.drop offset).take n) ranges)
          ((content.drop offset).take n) :=
            (yields_iff rfl).mpr (checkAllHashes_fittedHashes ranges)
      exact (h id content _ s ⟨[], []⟩ [] hlength (range_fittedHashes ranges) rfl).mp hyields
    constructor
    · have hcovers := (hverified (List.replicate (offset + n + m) 0) List.length_replicate).1
      rwa [range_fittedHashes] at hcovers
    · intro i range hget
      by_contra hne
      have hsliced := length_sliceIndex_le n (range.2 * (i + 1))
      obtain ⟨content, hlength, hbytes⟩ := exists_content (offset + n + m) (by omega) (by omega) hne
      refine hbytes ?_
      have hmem : (⟨range.1, range.2, slice ((content.drop offset).take n) (range.2 * i)
        (range.2 * (i + 1))⟩ :
          FileHash) ∈ fittedHashes ((content.drop offset).take n) ranges := by
        refine List.mem_of_getElem? (i := i) ?_
        rw [getElem?_fittedHashes, hget]
        rfl
      have hhash := (hverified content hlength).2 _ hmem
      rw [bytesBetween_eq, hlength] at hhash
      exact (slice_chunk (by omega) _ _).symm.trans hhash
  · rintro ⟨hcovers, haligned⟩ sha256 content hashes s redirect chunk hlength rfl hphase
    rw [yields_iff hphase, checkAllHashes_iff, Verified, and_iff_right hcovers]
    have hbytes : ∀ (i : ℕ) (h : FileHash), hashes[i]? = some h →
        slice ((content.drop offset).take n) (h.limit * i) (h.limit * (i + 1)) =
          bytesBetween content h.offset (h.offset + h.limit) := by
      intro i h hget
      have hrange := haligned i h.range (by rw [List.getElem?_map, hget]; rfl)
      rw [bytesBetween_eq, hlength]
      exact (slice_chunk (by omega) _ _).trans (drop_take_of_Ico hrange)
    constructor
    · intro hall h hmem
      obtain ⟨i, hi⟩ := List.getElem?_of_mem hmem
      rw [← hbytes i h hi]
      exact hall i h hi
    · intro hall i h hi
      rw [hbytes i h hi]
      exact hall h (List.mem_of_getElem? hi)

/-- **A shorter last block is rejected**: the hashes of two bytes and of one verify the three
bytes, but the second is compared with the second byte. -/
theorem lastBlock_rejected :
    Verified id [1, 2, 3] 0 3 [⟨0, 2, [1, 2]⟩, ⟨2, 1, [3]⟩] ∧
    ¬ Yields (fun _ => Equiv.refl _) id
      { start 0 0 with phase := .getCdnFileHashes ⟨[], []⟩ [1, 2, 3] [1, 2, 3] }
      [⟨0, 2, [1, 2]⟩, ⟨2, 1, [3]⟩] [1, 2, 3] := by
  refine ⟨⟨fun p _ hlt => ?_, by decide⟩, fun hyields => ?_⟩
  · by_cases hp : p < 2
    · exact ⟨(0, 2), by decide, by omega, by omega⟩
    · exact ⟨(2, 1), by decide, by omega, by omega⟩
  · rw [yields_iff rfl] at hyields
    exact absurd hyields (by decide)

/-- A chunk without hashes is accepted. -/
example : Yields (fun _ => Equiv.refl _) id
    { start 0 0 with phase := .getCdnFileHashes ⟨[], []⟩ [1, 2, 3] [1, 2, 3] } [] [1, 2, 3] :=
  (yields_iff rfl).mpr rfl

end Download

end Pyrogram
