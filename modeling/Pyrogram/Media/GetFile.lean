import Pyrogram.Crypto.Aes
import Pyrogram.Runs
import Mathlib.Data.List.TakeDrop

/-!
# Downloads

`get_file` yields a file chunk by chunk, from the data centre or, after a redirect, from a
CDN, whose chunks it decrypts and compares with the hashes of the data centre.  A CDN may
ask for the file to be uploaded to it again.  What the generator awaits is answered by the
events of a run.

## Main definitions

* `Phase`, `Download`, `step` — the generator between two awaits.
* `Exact` — the answers of servers that hold a content.
* `wanted` — the part of the content that was asked for.

## Main results

* `Download.ctr256_ctr256` — a chunk of the CDN is decrypted.
* `Download.complete_iff` — **when a download that ends is complete**.
* `Download.refused_incomplete` — a download that ends in the middle of the file.
-/

namespace Pyrogram

open Runs

/-- An `upload.FileCdnRedirect`. -/
structure CdnRedirect where
  encryptionKey : List UInt8
  encryptionIv : List UInt8
  deriving DecidableEq, Repr

/-- A `FileHash`. -/
structure FileHash where
  offset : ℤ
  limit : ℤ
  hash : List UInt8
  deriving DecidableEq, Repr

namespace Download

/-- `chunk_size`. -/
def chunkSize : ℕ := 1024 * 1024

/-- The two loops. -/
inductive Loop
  | file
  | cdn (redirect : CdnRedirect)
  deriving DecidableEq, Repr

/-- What the generator awaits. -/
inductive Phase
  /-- The first `GetFile`. -/
  | getFile
  /-- `GetFile` in the loop. -/
  | nextFile
  | getCdnFile (redirect : CdnRedirect)
  | reuploadCdnFile (redirect : CdnRedirect)
  | getCdnFileHashes (redirect : CdnRedirect) (chunk decryptedChunk : List UInt8)
  /-- The consumer, and `progress`, after a chunk. -/
  | progress (loop : Loop) (chunk : List UInt8)
  /-- `cdn_session.stop`. -/
  | stop
  | ended
  | raised
  deriving DecidableEq, Repr

end Download

structure Download where
  phase : Download.Phase := .getFile
  current : ℕ := 0
  total : ℕ
  offsetBytes : ℕ
  /-- The chunks that have been yielded. -/
  yielded : List (List UInt8) := []
  deriving DecidableEq, Repr

namespace Download

/-- What an await ends with. -/
inductive Answer
  /-- `upload.File`. -/
  | file (bytes : List UInt8)
  | cdnRedirect (redirect : CdnRedirect)
  /-- `upload.CdnFile`. -/
  | cdnFile (bytes : List UInt8)
  | cdnFileReuploadNeeded
  | reuploaded
  | volumeLocNotFound
  | hashes (hashes : List FileHash)
  /-- The call has returned. -/
  | returned
  /-- Any other exception. -/
  | raises
  deriving DecidableEq, Repr

/-- The start of `get_file` for a limit and an offset in chunks. -/
def start (limit offset : ℤ) : Download where
  total := if limit = 0 then 2 ^ 31 - 1 else limit.natAbs
  offsetBytes := offset.natAbs * chunkSize

/-! ### Chunks of the CDN -/

/-- `encryption_iv[:-4] + (offset_bytes // 16).to_bytes(4, "big")`; `none` where that raises,
or is no block. -/
def cdnIv (redirect : CdnRedirect) (offsetBytes : ℕ) : Option Aes.Block :=
  match Aes.toBytes (offsetBytes / 16) 4 with
  | .ok counter =>
      let iv := redirect.encryptionIv.take (redirect.encryptionIv.length - 4) ++ counter
      if h : iv.length = 16 then some ⟨iv, h⟩ else none
  | .error _ => none

/-- `ctr256_decrypt`, which encrypts as well. -/
def ctr256 (cipher : Aes.Cipher) (redirect : CdnRedirect) (iv : Aes.Block) (chunk : List UInt8) :
    List UInt8 :=
  (Aes.ctr cipher redirect.encryptionKey (.start iv) chunk).1

/-- The index that a bound of a slice stands for. -/
def sliceIndex (length : ℕ) (i : ℤ) : ℕ := if i < 0 then (length + i).toNat else min i.toNat length

/-- `l[a:b]`. -/
def slice (l : List UInt8) (a b : ℤ) : List UInt8 :=
  (l.take (sliceIndex l.length b)).drop (sliceIndex l.length a)

/-- `_check_all_hashes`. -/
def checkAllHashes (sha256 : List UInt8 → List UInt8) (hashes : List FileHash)
    (decryptedChunk : List UInt8) : Bool :=
  hashes.zipIdx.all fun (h, i) =>
    h.hash = sha256 (slice decryptedChunk (h.limit * i) (h.limit * (i + 1)))

/-! ### The generator -/

/-- A chunk is yielded. -/
def yieldChunk (s : Download) (loop : Loop) (chunk yielded : List UInt8) : Download :=
  { s with
    phase := .progress loop chunk
    current := s.current + 1
    offsetBytes := s.offsetBytes + chunkSize
    yielded := s.yielded ++ [yielded] }

/-- The end of a pass of a loop: `chunk` is what the server sent. -/
def next (s : Download) (loop : Loop) (chunk : List UInt8) : Phase :=
  if chunk.length < chunkSize ∨ s.total ≤ s.current then
    match loop with
    | .file => .ended
    | .cdn _ => .stop
  else
    match loop with
    | .file => .nextFile
    | .cdn redirect => .getCdnFile redirect

/-- The generator goes on from an await; `none` where that cannot end so. -/
def step (cipher : Aes.Cipher) (sha256 : List UInt8 → List UInt8) (s : Download) (a : Answer) :
    Option Download :=
  match s.phase, a with
  | .ended, _ | .raised, _ => none
  | _, .raises => some { s with phase := .raised }
  | .getFile, .file bytes | .nextFile, .file bytes => some (s.yieldChunk .file bytes bytes)
  | .getFile, .cdnRedirect redirect => some { s with phase := .getCdnFile redirect }
  -- a redirect has no `bytes`
  | .nextFile, .cdnRedirect _ => some { s with phase := .raised }
  | .getCdnFile redirect, .cdnFileReuploadNeeded =>
      some { s with phase := .reuploadCdnFile redirect }
  | .getCdnFile redirect, .cdnFile bytes =>
      match cdnIv redirect s.offsetBytes with
      | some iv => some { s with
            phase := .getCdnFileHashes redirect bytes (ctr256 cipher redirect iv bytes) }
      | none => some { s with phase := .raised }
  | .reuploadCdnFile redirect, .reuploaded => some { s with phase := .getCdnFile redirect }
  | .reuploadCdnFile _, .volumeLocNotFound => some { s with phase := .stop }
  | .getCdnFileHashes redirect chunk decryptedChunk, .hashes hashes =>
      if checkAllHashes sha256 hashes decryptedChunk then
        some (s.yieldChunk (.cdn redirect) chunk decryptedChunk)
      else some { s with phase := .raised }
  | .progress loop chunk, .returned => some { s with phase := s.next loop chunk }
  | .stop, .returned => some { s with phase := .ended }
  | _, _ => none

/-! ### Completeness -/

/-- The slice of a content that a request for an offset asks for. -/
def sliceAt (content : List UInt8) (offset : ℕ) : List UInt8 := (content.drop offset).take chunkSize

/-- The answers of servers that hold the content: the slice at the offset asked for, from
the CDN encrypted with the key and the counter of the offset. -/
def Exact (cipher : Aes.Cipher) (content : List UInt8) (s : Download) (a : Answer) : Prop :=
  match s.phase, a with
  | .getFile, .file bytes | .nextFile, .file bytes => bytes = sliceAt content s.offsetBytes
  | .getCdnFile redirect, .cdnFile bytes => ∀ iv, cdnIv redirect s.offsetBytes = some iv →
      bytes = ctr256 cipher redirect iv (sliceAt content s.offsetBytes)
  | _, _ => True

/-- The content from the offset to the end, or to the limit. -/
def wanted (content : List UInt8) (limit offset : ℤ) : List UInt8 :=
  let rest := content.drop (offset.natAbs * chunkSize)
  if limit = 0 then rest else rest.take (limit.natAbs * chunkSize)

/-- A refused upload to the CDN leaves nothing out: the content ends before the offset. -/
def NothingRefused (content : List UInt8) (s : Download) (a : Answer) : Prop :=
  (∃ redirect, s.phase = .reuploadCdnFile redirect) → a = .volumeLocNotFound →
    content.length ≤ s.offsetBytes

variable {cipher : Aes.Cipher} {sha256 : List UInt8 → List UInt8} {content : List UInt8}
    {limit offset : ℤ}
  {s s' : Download} {a : Answer}

/-- **A chunk of the CDN is decrypted** to what was encrypted. -/
theorem ctr256_ctr256 (redirect : CdnRedirect) (iv : Aes.Block) (chunk : List UInt8) :
    ctr256 cipher redirect iv (ctr256 cipher redirect iv chunk) = chunk := by
  simp only [ctr256, Aes.ctr_eq]
  exact BlockModes.Keystream.apply_apply _ _ _

@[simp] theorem length_ctr256 (redirect : CdnRedirect) (iv : Aes.Block) (chunk : List UInt8) :
    (ctr256 cipher redirect iv chunk).length = chunk.length := by
  rw [ctr256, Aes.ctr_eq, BlockModes.Keystream.length_apply]

/-- What a step can do. -/
inductive Steps (cipher : Aes.Cipher) (sha256 : List UInt8 → List UInt8) (s : Download) :
    Answer → Download → Prop
  | raises (a : Answer) : Steps cipher sha256 s a { s with phase := .raised }
  | file (bytes : List UInt8) (h : s.phase = .getFile ∨ s.phase = .nextFile) :
      Steps cipher sha256 s (.file bytes) (s.yieldChunk .file bytes bytes)
  | cdnRedirect (redirect : CdnRedirect) (h : s.phase = .getFile) :
      Steps cipher sha256 s (.cdnRedirect redirect) { s with phase := .getCdnFile redirect }
  | cdnFileReuploadNeeded (redirect : CdnRedirect) (h : s.phase = .getCdnFile redirect) :
      Steps cipher sha256 s .cdnFileReuploadNeeded { s with phase := .reuploadCdnFile redirect }
  | cdnFile (redirect : CdnRedirect) (bytes : List UInt8) (iv : Aes.Block)
      (h : s.phase = .getCdnFile redirect)
      (hiv : cdnIv redirect s.offsetBytes = some iv) :
      Steps cipher sha256 s (.cdnFile bytes)
        { s with phase := .getCdnFileHashes redirect bytes (ctr256 cipher redirect iv bytes) }
  | reuploaded (redirect : CdnRedirect) (h : s.phase = .reuploadCdnFile redirect) :
      Steps cipher sha256 s .reuploaded { s with phase := .getCdnFile redirect }
  | volumeLocNotFound (redirect : CdnRedirect) (h : s.phase = .reuploadCdnFile redirect) :
      Steps cipher sha256 s .volumeLocNotFound { s with phase := .stop }
  | hashes (redirect : CdnRedirect) (chunk decryptedChunk : List UInt8) (hashes : List FileHash)
      (h : s.phase = .getCdnFileHashes redirect chunk decryptedChunk)
      (hcheck : checkAllHashes sha256 hashes decryptedChunk) :
      Steps cipher sha256 s (.hashes hashes) (s.yieldChunk (.cdn redirect) chunk decryptedChunk)
  | progress (loop : Loop) (chunk : List UInt8) (h : s.phase = .progress loop chunk) :
      Steps cipher sha256 s .returned { s with phase := s.next loop chunk }
  | stop (h : s.phase = .stop) : Steps cipher sha256 s .returned { s with phase := .ended }

theorem steps_of_step (h : step cipher sha256 s a = some s') : Steps cipher sha256 s a s' := by
  -- one case for each phase and what comes back
  unfold step at h
  split at h
  case h_1 | h_2 => cases h
  case h_3 | h_7 =>
    cases h
    exact .raises _
  case h_4 hs =>
    cases h
    exact .file _ (Or.inl hs)
  case h_5 hs =>
    cases h
    exact .file _ (Or.inr hs)
  case h_6 hs =>
    cases h
    exact .cdnRedirect _ hs
  case h_8 hs =>
    cases h
    exact .cdnFileReuploadNeeded _ hs
  case h_9 hs =>
    split at h
    · next iv hiv =>
      cases h
      exact .cdnFile _ _ iv hs hiv
    · cases h
      exact .raises _
  case h_10 hs =>
    cases h
    exact .reuploaded _ hs
  case h_11 hs =>
    cases h
    exact .volumeLocNotFound _ hs
  case h_12 hs =>
    split at h
    · next hcheck =>
      cases h
      exact .hashes _ _ _ _ hs hcheck
    · cases h
      exact .raises _
  case h_13 hs =>
    cases h
    exact .progress _ _ hs
  case h_14 hs =>
    cases h
    exact .stop hs
  case h_15 => cases h

/-- What is known at an await. -/
def AtPhase (content : List UInt8) (s : Download) : Phase → Prop
  | .getFile | .nextFile | .getCdnFile _ | .reuploadCdnFile _ => s.current < s.total
  | .getCdnFileHashes _ chunk decryptedChunk => s.current < s.total ∧
      decryptedChunk = sliceAt content s.offsetBytes ∧ chunk.length = decryptedChunk.length
  | .progress _ chunk => s.current ≤ s.total ∧ (chunk.length < chunkSize →
      content.length ≤ s.offsetBytes)
  | .stop | .ended => s.current ≤ s.total
  | .raised => True

/-- The chunks that have been yielded are the content up to the offset. -/
structure Sound (content : List UInt8) (limit offset : ℤ) (s : Download) : Prop where
  total : s.total = (start limit offset).total
  offsetBytes : s.offsetBytes = (start limit offset).offsetBytes + s.current * chunkSize
  yielded : s.yielded.flatten = (content.drop (start limit offset).offsetBytes).take
    (s.current * chunkSize)
  phase : AtPhase content s s.phase

theorem start_total_pos (limit offset : ℤ) : 0 < (start limit offset).total := by
  unfold start
  dsimp only
  split <;> omega

theorem sound_start (content : List UInt8) (limit offset : ℤ) :
    Sound content limit offset (start limit offset) where
  total := rfl
  offsetBytes := by simp [start]
  yielded := by simp [start]
  phase := start_total_pos limit offset

/-- **A chunk keeps what has been yielded in order.** -/
theorem Sound.yieldChunk (h : Sound content limit offset s) (hlt : s.current < s.total)
    (loop : Loop)
    {chunk decrypted : List UInt8} (hdecrypted : decrypted = sliceAt content s.offsetBytes)
    (hlength : chunk.length = decrypted.length) :
    Sound content limit offset (s.yieldChunk loop chunk decrypted) where
  total := h.total
  offsetBytes := by
    have hoffset := h.offsetBytes
    simp only [Download.yieldChunk, Nat.succ_mul]
    omega
  yielded := by
    simp only [Download.yieldChunk, List.flatten_append, List.flatten_singleton, h.yielded,
      hdecrypted, sliceAt,
      h.offsetBytes, Nat.succ_mul, List.take_add, List.drop_drop]
  phase := by
    refine ⟨hlt, fun hshort => ?_⟩
    have hslice : chunk.length = min chunkSize (content.length - s.offsetBytes) := by
      rw [hlength, hdecrypted, sliceAt, List.length_take, List.length_drop]
    change content.length ≤ s.offsetBytes + chunkSize
    omega

/-- **A step keeps what is known.** -/
theorem Sound.step (h : Sound content limit offset s) (hexact : Exact cipher content s a)
    (hstep : Download.step cipher sha256 s a = some s') : Sound content limit offset s' := by
  have hat : ∀ {phase}, s.phase = phase → AtPhase content s phase := fun hs => hs ▸ h.phase
  -- only a chunk that is yielded adds to what was; the rest keeps the place in the file
  cases steps_of_step hstep with
  | raises => exact ⟨h.total, h.offsetBytes, h.yielded, trivial⟩
  | file bytes hs =>
    have hlt : s.current < s.total := by
      rcases hs with hs | hs <;> exact hat hs
    have hbytes : bytes = sliceAt content s.offsetBytes := by
      rcases hs with hs | hs <;> simpa [Exact, hs] using hexact
    exact h.yieldChunk hlt .file hbytes rfl
  | cdnRedirect redirect hs | cdnFileReuploadNeeded redirect hs | reuploaded redirect hs =>
    exact ⟨h.total, h.offsetBytes, h.yielded, hat hs⟩
  | cdnFile redirect bytes iv hs hiv =>
    have hbytes : bytes = ctr256 cipher redirect iv (sliceAt content s.offsetBytes) := by
      simp only [Exact, hs] at hexact
      exact hexact iv hiv
    -- what the server encrypted is decrypted at the same offset
    refine ⟨h.total, h.offsetBytes, h.yielded, hat hs, ?_, ?_⟩
    · rw [hbytes, ctr256_ctr256]
    · rw [length_ctr256]
  | volumeLocNotFound redirect hs =>
    have hlt : s.current < s.total := hat hs
    exact ⟨h.total, h.offsetBytes, h.yielded, hlt.le⟩
  | hashes redirect chunk decryptedChunk hashes hs hcheck =>
    obtain ⟨hlt, hdecrypted, hlength⟩ := hat hs
    exact h.yieldChunk hlt (.cdn redirect) hdecrypted hlength
  | progress loop chunk hs =>
    obtain ⟨hle, -⟩ := hat hs
    refine ⟨h.total, h.offsetBytes, h.yielded, ?_⟩
    unfold next
    split
    · cases loop <;> exact hle
    · next hgoes => cases loop <;> exact not_le.mp fun hle => hgoes (Or.inr hle)
  | stop hs => exact ⟨h.total, h.offsetBytes, h.yielded, hat hs⟩

/-- The generator is about to end. -/
def Ending (s : Download) : Prop := s.phase = .stop ∨ s.phase = .ended

/-- A generator that is about to end has reached the end of the content, or the limit. -/
def Done (content : List UInt8) (s : Download) : Prop :=
  Ending s → content.length ≤ s.offsetBytes ∨ s.current = s.total

/-- **Where nothing is refused** the generator ends for one of these two reasons. -/
theorem done_step (h : Sound content limit offset s) (hdone : Done content s)
    (hrefused : NothingRefused content s a)
    (hstep : step cipher sha256 s a = some s') : Done content s' := by
  cases steps_of_step hstep with
  | raises | cdnRedirect | cdnFileReuploadNeeded | cdnFile | reuploaded | file | hashes =>
    rintro (hs' | hs') <;> cases hs'
  | volumeLocNotFound redirect hs => exact fun _ => Or.inl (hrefused ⟨redirect, hs⟩ rfl)
  | progress loop chunk hs =>
    obtain ⟨hle, hshort⟩ : AtPhase content s (.progress loop chunk) := hs ▸ h.phase
    intro hending
    by_cases hend : chunk.length < chunkSize ∨ s.total ≤ s.current
    · rcases hend with hend | hend
      · exact Or.inl (hshort hend)
      · exact Or.inr (le_antisymm hle hend)
    · simp only [Ending, next, if_neg hend] at hending
      cases loop <;> rcases hending with hs' | hs' <;> cases hs'
  | stop hs => exact fun _ => hdone (Or.inl hs)

/-- What has been yielded is all that was asked for exactly where it ends for one of these. -/
theorem Sound.yielded_eq_wanted (h : Sound content limit offset s) (hle : s.current ≤ s.total) :
    s.yielded.flatten = wanted content limit offset ↔
      content.length ≤ s.offsetBytes ∨ limit ≠ 0 ∧ s.current = s.total := by
  have hlength : (content.drop (offset.natAbs * chunkSize)).length =
      content.length - offset.natAbs * chunkSize :=
    List.length_drop
  have hend : s.offsetBytes = offset.natAbs * chunkSize + s.current * chunkSize := h.offsetBytes
  have hyielded : s.yielded.flatten = (content.drop (offset.natAbs * chunkSize)).take
      (s.current * chunkSize) :=
    h.yielded
  rw [hyielded, wanted, hend]
  generalize content.drop (offset.natAbs * chunkSize) = rest at hlength ⊢
  by_cases hlimit : limit = 0
  · simp only [hlimit, if_true, ne_eq, not_true, false_and, or_false, List.take_eq_self_iff]
    omega
  · have htotal : s.total = limit.natAbs := h.total.trans (if_neg hlimit)
    simp only [hlimit, if_false, ne_eq, not_false_iff, true_and, List.take_eq_take_iff]
    rcases hle.lt_or_eq with hlt | heq
    · have hmul : s.current * chunkSize < limit.natAbs * chunkSize :=
        Nat.mul_lt_mul_of_pos_right (htotal ▸ hlt) (by decide)
      clear hyielded hend
      generalize s.current * chunkSize = counted at hmul ⊢
      generalize limit.natAbs * chunkSize = most at hmul ⊢
      omega
    · simp [heq, htotal]

/-- The generator yields nothing more, and has counted as much as another. -/
def Over (t s : Download) : Prop :=
  (Ending s ∨ s.phase = .raised) ∧ s.current = t.current ∧ s.offsetBytes = t.offsetBytes ∧
    s.total = t.total

theorem Over.step {t : Download} (h : Over t s)
    (hstep : Download.step cipher sha256 s a = some s') : Over t s' := by
  obtain ⟨hphase, hcounted⟩ := h
  cases steps_of_step hstep with
  | raises => exact ⟨Or.inr rfl, hcounted⟩
  | stop => exact ⟨Or.inl (Or.inr rfl), hcounted⟩
  | file bytes hs => rcases hphase with (h
      | h) | h <;> rcases hs with hs | hs <;> cases h.symm.trans hs
  | cdnRedirect redirect hs | cdnFileReuploadNeeded redirect hs | reuploaded redirect hs
  | volumeLocNotFound redirect hs | cdnFile _ _ _ hs _ | hashes _ _ _ _ hs _ | progress _ _ hs =>
    rcases hphase with (h | h) | h <;> cases h.symm.trans hs

/-- A refused upload in a download that ends complete. -/
theorem allSteps_nothingRefused {t : Download}
    (hdone : content.length ≤ t.offsetBytes ∨ t.current = t.total) :
    ∀ {answers : List Answer} {s : Download},
      Sound content limit offset s →
      AllSteps (Download.step cipher sha256) (fun s a _ => Exact cipher content s a) s answers →
      run (Download.step cipher sha256) s answers = some t →
      AllSteps (Download.step cipher sha256) (fun s a _ => NothingRefused content s a) s
        answers := by
  intro answers
  induction answers with
  | nil =>
    intro s _ _ _
    trivial
  | cons a answers ih =>
    intro s hsound hexact hrun s' hs'
    obtain ⟨hexact, hrest⟩ := hexact s' hs'
    have hsound' := hsound.step hexact hs'
    rw [run_cons, hs'] at hrun
    refine ⟨?_, ih hsound' hrest hrun⟩
    rintro ⟨redirect, hphase⟩ rfl
    have hover : Over s s' := by
      cases steps_of_step hs' with
      | raises => exact ⟨Or.inr rfl, rfl, rfl, rfl⟩
      | volumeLocNotFound => exact ⟨Or.inl (Or.inl rfl), rfl, rfl, rfl⟩
    -- nothing has been yielded since
    obtain ⟨-, hcurrent, hoffset, htotal⟩ : Over s t :=
      run_of_invariant (I := Over s) (fun _ _ _ h hstep => h.step hstep) hover hrun
    have hlt : s.current < s.total := by
      have hat := hsound.phase
      rwa [hphase] at hat
    omega

/-- What is known after a run. -/
theorem sound_run {answers : List Answer} {t : Download}
    (hexact : AllSteps (step cipher sha256) (fun s a _ => Exact cipher content s a)
      (start limit offset) answers)
    (hrun : run (step cipher sha256) (start limit offset) answers = some t) :
    Sound content limit offset t := by
  refine run_of_invariant_of_allSteps ?_ (sound_start content limit offset) hexact hrun
  intro s a s' hs hexact hstep
  exact hs.step hexact hstep

/-- A download that ends has not counted more chunks than it may. -/
theorem Sound.current_le (h : Sound content limit offset s) (hended : s.phase = .ended) :
    s.current ≤ s.total := by
  have hat := h.phase
  rwa [hended] at hat

/-- Without a limit, chunks are counted all the same. -/
theorem Sound.offsetBytes_le (h : Sound content limit offset s) (hended : s.phase = .ended)
    (hlimit : limit = 0) :
    s.offsetBytes ≤ (offset.natAbs + (2 ^ 31 - 1)) * chunkSize := by
  have hle := h.current_le hended
  have htotal : s.total = 2 ^ 31 - 1 := h.total.trans (if_pos hlimit)
  have hoffset : s.offsetBytes = offset.natAbs * chunkSize + s.current * chunkSize := h.offsetBytes
  rw [hoffset, ← Nat.add_mul]
  exact Nat.mul_le_mul_right _ (by omega)

/-- **A download that ends and was refused nothing** has reached the end of the content or the
limit. -/
theorem done_run {answers : List Answer} {t : Download}
    (hexact : AllSteps (step cipher sha256) (fun s a _ => Exact cipher content s a)
      (start limit offset) answers)
    (hrefused : AllSteps (step cipher sha256) (fun s a _ => NothingRefused content s a)
      (start limit offset) answers)
    (hrun : run (step cipher sha256) (start limit offset) answers = some t) : Done content t := by
  have hdone : Sound content limit offset t ∧ Done content t := by
    refine run_of_invariant_of_allSteps (I := fun t => Sound content limit offset t ∧
      Done content t) ?_
      ⟨sound_start content limit offset, ?_⟩ (hexact.and hrefused) hrun
    · rintro s a s' ⟨hs, hdone⟩ ⟨hexact, hrefused⟩ hstep
      exact ⟨hs.step hexact hstep, done_step hs hdone hrefused hstep⟩
    · rintro (hs | hs) <;> cases hs
  exact hdone.2

/-- Where the chunks that are counted reach to the end of the content, a download yields all that
was asked for. -/
theorem Sound.yielded_of_done (h : Sound content limit offset s) (hended : s.phase = .ended)
    (hdone : Done content s)
    (hbound : limit = 0 → content.length ≤ (offset.natAbs + (2 ^ 31 - 1)) * chunkSize) :
    s.yielded.flatten = wanted content limit offset := by
  refine (h.yielded_eq_wanted (h.current_le hended)).mpr ?_
  rcases hdone (Or.inr hended) with hend | htotal
  · exact Or.inl hend
  · by_cases hzero : limit = 0
    · left
      have htotal' : s.total = 2 ^ 31 - 1 := h.total.trans (if_pos hzero)
      have hoffset : s.offsetBytes = offset.natAbs * chunkSize + s.current * chunkSize :=
        h.offsetBytes
      rw [hoffset, htotal, htotal', ← Nat.add_mul]
      exact hbound hzero
    · exact Or.inr ⟨hzero, htotal⟩

/-- **When a download that ends is complete**: no upload to the CDN was refused before the
end of the content, and a download without limit stays within the chunks that are counted. -/
theorem complete_iff {answers : List Answer} {t : Download}
    (hexact : AllSteps (step cipher sha256) (fun s a _ => Exact cipher content s a)
      (start limit offset) answers)
    (hrun : run (step cipher sha256) (start limit offset) answers = some t)
    (hended : t.phase = .ended) :
    t.yielded.flatten = wanted content limit offset ↔
      AllSteps (step cipher sha256) (fun s a _ => NothingRefused content s a) (start limit offset)
        answers ∧
      (limit = 0 → content.length ≤ (offset.natAbs + (2 ^ 31 - 1)) * chunkSize) := by
  have hsound := sound_run hexact hrun
  constructor
  · intro hwanted
    have hwanted := (hsound.yielded_eq_wanted (hsound.current_le hended)).mp hwanted
    refine ⟨allSteps_nothingRefused (hwanted.imp_right And.right) (sound_start content limit offset)
      hexact
      hrun, fun hlimit => ?_⟩
    exact (hwanted.resolve_right fun h => h.1 hlimit).trans (hsound.offsetBytes_le hended hlimit)
  · rintro ⟨hrefused, hlimit⟩
    exact hsound.yielded_of_done hended (done_run hexact hrefused hrun) hlimit

/-- A file of three bytes, from the data centre. -/
theorem complete_threeBytes : ∃ t,
    run (step (fun _ => Equiv.refl _) id) (start 0 0) [.file [1, 2, 3], .returned] = some t ∧
      t.phase = .ended ∧
    (t.yielded.flatten = wanted [1, 2, 3] 0 0 ↔
      AllSteps (step (fun _ => Equiv.refl _) id) (fun s a _ => NothingRefused [1, 2, 3] s a)
        (start 0 0)
        [.file [1, 2, 3], .returned] ∧
      ((0 : ℤ) = 0 → [1, 2, 3].length ≤ ((0 : ℤ).natAbs + (2 ^ 31 - 1)) * chunkSize)) := by
  have hexact : AllSteps (step (fun _ => Equiv.refl _) id)
    (fun s a _ => Exact (fun _ => Equiv.refl _) [1, 2, 3] s a) (start 0 0)
      [.file [1, 2, 3], .returned] :=
    AllSteps.cons rfl rfl (AllSteps.cons rfl trivial trivial)
  exact ⟨_, rfl, rfl, complete_iff hexact rfl rfl⟩

/-- **A download may end in the middle of the file**: the CDN asks for the file, which can no
longer be uploaded to it. -/
theorem refused_incomplete : ∃ t answers,
    AllSteps (step (fun _ => Equiv.refl _) id) (fun s a _ => Exact (fun _ => Equiv.refl _) [1, 2, 3]
      s a) (start 0 0) answers ∧
    run (step (fun _ => Equiv.refl _) id) (start 0 0) answers = some t ∧ t.phase = .ended ∧
    t.yielded.flatten ≠ wanted [1, 2, 3] 0 0 := by
  refine ⟨_, [.cdnRedirect ⟨[], []⟩, .cdnFileReuploadNeeded, .volumeLocNotFound, .returned], ?_,
    rfl, rfl, by decide⟩
  exact AllSteps.cons rfl trivial (AllSteps.cons rfl trivial (AllSteps.cons rfl trivial
    (AllSteps.cons rfl trivial trivial)))

end Download

end Pyrogram
