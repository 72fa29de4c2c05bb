import Pyrogram.Base64
import Pyrogram.LittleEndian
import Pyrogram.Raw.Primitives
import Pyrogram.Utf8

/-!
# The wrapping of file ids

A file id is a buffer of packed fields, its runs of zeros counted, in base64 for URLs
without padding.

## Main definitions

* `b64Encode`, `b64Decode`; `rleEncode`, `rleDecode`.
* `pack`, `unpack` — signed fields of the sizes of a format; `raw` — their bytes.

## Main results

* `b64Decode_b64Encode`, `rleDecode_rleEncode`, `unpackFields_pack` — decoding undoes encoding.
* `isSome_rleEncode` — a buffer is encoded unless it has a run of more than `255` zeros.
* `rle_comesBack_iff` — the round trip of run-length coding, and exactly where it fails.
* `pack_eq_some` — fields are packed where each is set and fits.
-/

namespace Pyrogram.FileId

open LittleEndian Raw

/-! ### Base64 -/

/-- `b64_encode`. -/
def b64Encode (s : List UInt8) : List Utf8.CodePoint :=
  Utf8.decodeAscii (Base64.strip ((Base64.b2a s).map Base64.toUrl))

/-- `b64_decode`; `none` where it raises. -/
def b64Decode (s : List Utf8.CodePoint) : Option (List UInt8) := do
  let s ← Utf8.encodeAscii s
  Base64.a2b ((s ++ Base64.padding s.length).map Base64.ofUrl)

theorem b64Decode_b64Encode (s : List UInt8) : b64Decode (b64Encode s) = some s := by
  have hurl : ∀ ch ∈ (Base64.b2aUnpadded s).map Base64.toUrl, ch < 128 ∧ ch ≠ Base64.pad := by
    intro ch hch
    obtain ⟨c, hc, rfl⟩ := List.mem_map.mp hch
    obtain ⟨v, rfl⟩ := Base64.mem_b2aUnpadded hc
    exact Base64.toUrl_character_lt v
  have hstrip : Base64.strip ((Base64.b2a s).map Base64.toUrl) =
      (Base64.b2aUnpadded s).map Base64.toUrl := by
    rw [Base64.b2a, List.map_append, List.map_replicate]
    exact Base64.strip_append_pads (fun ch hch => (hurl ch hch).2) _
  have hofUrl : ((Base64.b2aUnpadded s).map Base64.toUrl).map Base64.ofUrl =
      Base64.b2aUnpadded s := by
    rw [List.map_map, List.map_congr_left, List.map_id]
    intro ch hch
    obtain ⟨v, rfl⟩ := Base64.mem_b2aUnpadded hch
    exact Base64.ofUrl_toUrl_character v
  have hpadding : ∀ n, (Base64.padding n).map Base64.ofUrl = Base64.padding n := by
    intro n
    rw [Base64.padding, List.map_replicate]
    rfl
  rw [b64Encode, b64Decode, hstrip, Utf8.encodeAscii_decodeAscii fun ch hch => (hurl ch hch).1]
  change Base64.a2b _ = some s
  rw [List.map_append, hofUrl, hpadding, List.length_map, Base64.b2aUnpadded_append_padding,
    Base64.a2b_b2a]

/-! ### Runs of zeros -/

/-- A run of zeros that ends; `none` where `bytes` raises for its length. -/
def zeros (n : ℕ) : Option (List UInt8) :=
  if n = 0 then some [] else if n < 256 then some [0, UInt8.ofNat n] else none

/-- The loop of `rle_encode`, with the zeros seen last. -/
def rleEncodeFrom : ℕ → List UInt8 → Option (List UInt8)
  | n, [] => zeros n
  | n, b :: s =>
      if b = 0 then rleEncodeFrom (n + 1) s
      else do
        let run ← zeros n
        let rest ← rleEncodeFrom 0 s
        return run ++ b :: rest

/-- `rle_encode`. -/
def rleEncode (s : List UInt8) : Option (List UInt8) := rleEncodeFrom 0 s

/-- The loop of `rle_decode`, with the flag `z`. -/
def rleDecodeFrom : Bool → List UInt8 → List UInt8
  | _, [] => []
  | z, b :: s =>
      if b = 0 then rleDecodeFrom true s
      else if z then List.replicate b.toNat 0 ++ rleDecodeFrom false s
      else b :: rleDecodeFrom false s

/-- `rle_decode`. -/
def rleDecode (s : List UInt8) : List UInt8 := rleDecodeFrom false s

theorem rleDecodeFrom_zeros {n : ℕ} {run : List UInt8} (h : zeros n = some run) (s : List UInt8) :
    rleDecodeFrom false (run ++ s) = List.replicate n 0 ++ rleDecodeFrom false s := by
  unfold zeros at h
  split at h
  · next hzero =>
    cases h
    rw [hzero]
    rfl
  · next hne =>
    split at h
    · next hlt =>
      cases h
      have hn : UInt8.ofNat n ≠ 0 := by
        intro heq
        have hmod := congrArg UInt8.toNat heq
        rw [UInt8.toNat_ofNat'] at hmod
        exact hne ((Nat.mod_eq_of_lt hlt).symm.trans hmod)
      have hcount : (UInt8.ofNat n).toNat = n := by
        rw [UInt8.toNat_ofNat']
        exact Nat.mod_eq_of_lt hlt
      simp only [List.cons_append, List.nil_append, rleDecodeFrom, if_true, if_neg hn, hcount]
    · cases h

theorem rleDecodeFrom_rleEncodeFrom {n : ℕ} {s r : List UInt8} (h : rleEncodeFrom n s = some r) :
    rleDecodeFrom false r = List.replicate n 0 ++ s := by
  induction s generalizing n r with
  | nil =>
    have hrun := rleDecodeFrom_zeros h []
    rwa [List.append_nil] at hrun
  | cons b s ih =>
    rw [rleEncodeFrom] at h
    split at h
    · next hb =>
      rw [ih h, hb, List.replicate_succ']
      simp
    · next hb =>
      simp only [Option.bind_eq_bind, Option.bind_eq_some_iff, Option.pure_def,
        Option.some.injEq] at h
      obtain ⟨run, hrun, rest, hrest, rfl⟩ := h
      rw [rleDecodeFrom_zeros hrun, rleDecodeFrom, if_neg hb, if_neg Bool.false_ne_true, ih hrest]
      rfl

/-- **Counting the zeros can be undone.** -/
theorem rleDecode_rleEncode {s r : List UInt8} (h : rleEncode s = some r) : rleDecode r = s :=
  rleDecodeFrom_rleEncodeFrom h

/-- A run of as many zeros. -/
def Run (k : ℕ) (s : List UInt8) : Prop := List.replicate k 0 <:+: s

theorem run_replicate {k n : ℕ} : Run k (List.replicate n 0) ↔ k ≤ n := by
  constructor
  · intro h
    simpa using List.IsInfix.length_le h
  · intro hle
    exact (List.prefix_replicate_iff.mpr (by simpa using hle)).isInfix

/-- A run ends at a byte that is not zero. -/
theorem run_append_cons {k n : ℕ} {b : UInt8} (hb : b ≠ 0) {s : List UInt8} :
    Run k (List.replicate n 0 ++ b :: s) ↔ k ≤ n ∨ Run k s := by
  have hinitial : ∀ m, List.replicate k 0 <+: List.replicate m 0 ++ b :: s ↔ k ≤ m := by
    intro m
    constructor
    · intro h
      by_contra hlt
      have hget := h.getElem (i := m) (by simpa using hlt)
      simp at hget
      exact hb hget.symm
    · intro hle
      exact (List.prefix_replicate_iff.mpr (by simpa using hle)).trans (List.prefix_append ..)
  have hcons : ∀ (c : UInt8) (s : List UInt8), Run k (c :: s) ↔ List.replicate k 0 <+: c :: s ∨
      Run k s :=
    fun _ _ => List.infix_cons_iff
  induction n with
  | zero =>
    rw [List.replicate_zero, List.nil_append, hcons]
    exact or_congr_left (hinitial 0)
  | succ n ih =>
    have hsucc := hinitial (n + 1)
    rw [List.replicate_succ, List.cons_append] at hsucc ⊢
    rw [hcons, hsucc]
    refine (or_congr_right ih).trans ?_
    rw [← or_assoc]
    exact or_congr_left ⟨fun h => by omega, fun h => by omega⟩

/-- A run of more zeros than a byte can count. -/
def LongRun (s : List UInt8) : Prop := Run 256 s

theorem isSome_zeros {n : ℕ} : (zeros n).isSome ↔ n < 256 := by
  unfold zeros
  split
  · simp [*]
  · split <;> simp [*]

theorem isSome_rleEncodeFrom {n : ℕ} {s : List UInt8} :
    (rleEncodeFrom n s).isSome ↔ ¬ LongRun (List.replicate n 0 ++ s) := by
  induction s generalizing n with
  | nil => rw [rleEncodeFrom, isSome_zeros, List.append_nil, LongRun, run_replicate, not_le]
  | cons b s ih =>
    rw [rleEncodeFrom]
    split
    · next hb =>
      rw [ih, hb, List.replicate_succ', List.append_assoc]
      rfl
    · next hb =>
      rw [LongRun, run_append_cons hb, not_or, not_le, ← isSome_zeros, ← LongRun]
      have hrest : (rleEncodeFrom 0 s).isSome ↔ ¬ LongRun s := ih
      rw [← hrest]
      cases zeros n <;> cases rleEncodeFrom 0 s <;> simp

/-- **A buffer is encoded** unless it has a run of more than `255` zeros. -/
theorem isSome_rleEncode {s : List UInt8} : (rleEncode s).isSome ↔ ¬ LongRun s :=
  isSome_rleEncodeFrom

/-- **Bytes come back from their run-length coding** iff no run of zeros is too long for its
count. -/
theorem rle_comesBack_iff (s : List UInt8) : (∃ r, rleEncode s = some r ∧ rleDecode r = s) ↔
    ¬ LongRun s := by
  rw [← isSome_rleEncode, Option.isSome_iff_exists]
  constructor
  · rintro ⟨r, hr, -⟩
    exact ⟨r, hr⟩
  · rintro ⟨r, hr⟩
    exact ⟨r, hr, rleDecode_rleEncode hr⟩

/-- 256 zeros are one too many. -/
theorem not_rle_comesBack_zeros : ¬ ∃ r, rleEncode (List.replicate 256 0) = some r ∧
    rleDecode r = List.replicate 256 0 := by
  rintro ⟨r, hr, -⟩
  have hrun : LongRun (List.replicate 256 0) := List.infix_rfl
  exact isSome_rleEncode.mp (Option.isSome_iff_exists.mpr ⟨r, hr⟩) hrun

/-! ### Packed fields -/

theorem fits_decodeSigned (bs : List UInt8) : Int.Fits bs.length (decodeSigned bs) := by
  have hlt := decode_lt bs
  have hcast : ((256 ^ bs.length : ℕ) : ℤ) = 256 ^ bs.length := Nat.cast_pow 256 _
  unfold Int.Fits decodeSigned
  split <;> omega

/-- `struct.pack`, of fields with their sizes; `none` where it raises. -/
def pack : List (ℕ × Option ℤ) → Option (List UInt8)
  | [] => some []
  | (size, value) :: fields => do
      let w ← encodeSigned size (← value)
      let rest ← pack fields
      return w ++ rest

/-- `struct.unpack`, of the next bytes of a buffer. -/
def unpack : List ℕ → Reader (List ℤ)
  | [], b => some ([], b)
  | size :: sizes, b =>
      if b.length < size then none
      else (unpack sizes (b.drop size)).map (Prod.map (decodeSigned (b.take size) :: ·) id)

/-- The bytes of fields, each cut to its size. -/
def raw (fields : List (ℕ × Option ℤ)) : List UInt8 :=
  fields.flatMap fun (size, value) => encode size (value.getD 0 % 256 ^ size).toNat

/-- A field that is set, to a value that fits. -/
def Packable (field : ℕ × Option ℤ) : Prop := ∃ v, field.2 = some v ∧ Int.Fits field.1 v

theorem pack_eq_some {fields : List (ℕ × Option ℤ)} {w : List UInt8} :
    pack fields = some w ↔ (∀ field ∈ fields, Packable field) ∧ raw fields = w := by
  induction fields generalizing w with
  | nil => simp [pack, raw]
  | cons field fields ih =>
    obtain ⟨size, value⟩ := field
    have hraw : raw ((size, value) :: fields) =
        encode size (value.getD 0 % 256 ^ size).toNat ++ raw fields := rfl
    simp only [pack, Option.bind_eq_bind, Option.bind_eq_some_iff, Option.pure_def,
      Option.some.injEq, ih,
      encodeSigned_eq_some, List.forall_mem_cons, hraw, Packable]
    constructor
    · rintro ⟨v, rfl, u, ⟨hfits, rfl⟩, rest, ⟨hfields, rfl⟩, rfl⟩
      exact ⟨⟨⟨v, rfl, hfits⟩, hfields⟩, rfl⟩
    · rintro ⟨⟨⟨v, rfl, hfits⟩, hfields⟩, rfl⟩
      exact ⟨v, rfl, _, ⟨hfits, rfl⟩, _, ⟨hfields, rfl⟩, rfl⟩

/-- **Packed fields are read back**, whatever follows them. -/
theorem unpackFields_pack {fields : List (ℕ × Option ℤ)} {w : List UInt8} (h : pack fields = some w)
    (rest : List UInt8) : ∃ values, List.Forall₂ (fun field v => field.2 = some v) fields values ∧
      unpack (fields.map Prod.fst) (w ++ rest) = some (values, rest) := by
  induction fields generalizing w with
  | nil =>
    cases h
    exact ⟨[], List.Forall₂.nil, rfl⟩
  | cons field fields ih =>
    obtain ⟨size, value⟩ := field
    simp only [pack, Option.bind_eq_bind, Option.bind_eq_some_iff, Option.pure_def,
      Option.some.injEq] at h
    obtain ⟨v, rfl, u, hu, w, hw, rfl⟩ := h
    obtain ⟨values, hvalues, hread⟩ := ih hw
    have hlength : u.length = size := length_encodeSigned hu
    have hle : ¬ (u ++ (w ++ rest)).length < size := by
      rw [List.length_append, hlength]
      omega
    refine ⟨v :: values, List.Forall₂.cons rfl hvalues, ?_⟩
    rw [List.append_assoc, List.map_cons, unpack, if_neg hle, List.drop_left' hlength,
      List.take_left' hlength, hread, decodeSigned_encodeSigned hu]
    rfl

theorem unpack_eq_some {size : ℕ} {sizes : List ℕ} {b b' : List UInt8} {values : List ℤ} :
    unpack (size :: sizes) b = some (values, b') ↔ size ≤ b.length ∧
      ∃ rest, values = decodeSigned (b.take size) :: rest ∧
        unpack sizes (b.drop size) = some (rest, b') := by
  rw [unpack]
  split
  · next hlt => simp [not_le.mpr hlt]
  · next hle => simp [not_lt.mp hle, and_comm, eq_comm]

/-- What is read fits where it was read from. -/
theorem packable_of_unpack {sizes : List ℕ} {b b' : List UInt8} {values : List ℤ}
    (h : unpack sizes b = some (values, b')) :
    List.Forall₂ (fun size v => Packable (size, some v)) sizes values := by
  induction sizes generalizing b values with
  | nil =>
    cases h
    exact List.Forall₂.nil
  | cons size sizes ih =>
    obtain ⟨hle, rest, rfl, hrest⟩ := unpack_eq_some.mp h
    have htake : (b.take size).length = size := by
      rw [List.length_take, Nat.min_eq_left hle]
    have hfits := fits_decodeSigned (b.take size)
    rw [htake] at hfits
    exact List.Forall₂.cons ⟨_, rfl, hfits⟩ (ih hrest)

end Pyrogram.FileId
