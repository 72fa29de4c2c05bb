import Pyrogram.Connection.Carrier
import Pyrogram.Delimited
import Pyrogram.Errors
import Pyrogram.Hex
import Mathlib.Data.Nat.Bitwise

/-!
# The frames of the WEB carrier on the wire

A frame is a type, a stream id of three bytes and a payload of at most 1 MiB, behind a
header of eight bytes.  `parse_frames` reads what has come so far and leaves a frame
that is cut off where it is; `parse_frame_message` reads a body that must end with a
frame.

## Main definitions

* `serializeFrame`, `parseFrames`, `parseFrameMessage` — the functions of
  `web_proxy_carrier.py`.
* `Frame.code` — the frames as a self-delimiting code.

## Main results

* `parseFrames_eq_scan` — the loop reads the code.
* `frames_roundTrip` — **frames cut off anywhere are read up to the cut, and a message is
  accepted exactly if it is a row of frames.**
-/

namespace Pyrogram

open LittleEndian

/-! ### The format -/

/-- `FRAME_HEADER_SIZE` -/
def frameHeaderSize : ℕ := 8

/-- `FRAME_MAX_PAYLOAD` -/
def frameMaxPayload : ℕ := 1024 * 1024

/-- `_MAX_STREAM_ID` -/
def maxStreamId : ℕ := 0x00ffffff

def FrameType.byte : FrameType → UInt8
  | .open => 0x01
  | .data => 0x02
  | .close => 0x03
  | .window => 0x04
  | .ping => 0x05
  | .pong => 0x06
  | .hello => 0x10
  | .welcome => 0x11
  | .authChallenge => 0x12
  | .authResponse => 0x13
  | .bye => 0x1f

/-- `FrameType(type_byte)`, and `none` for a byte that is not in `_KNOWN_FRAME_TYPES`. -/
def FrameType.ofByte (b : UInt8) : Option FrameType :=
  [FrameType.open, .data, .close, .window, .ping, .pong, .hello, .welcome, .authChallenge,
    .authResponse, .bye].find? (·.byte = b)

structure FrameParseError where
  msg : String
  deriving DecidableEq, Repr

/-- The four bytes before the length of the payload. -/
def frameHead (type : FrameType) (streamId : ℕ) : List UInt8 :=
  [type.byte, UInt8.ofNat (streamId >>> 16), UInt8.ofNat (streamId >>> 8), UInt8.ofNat streamId]

def serializeFrame (type : FrameType) (streamId : ℤ) (payload : List UInt8) :
    Except Exc (List UInt8) :=
  if ¬ (0 ≤ streamId ∧ streamId ≤ maxStreamId) then
    .error (.valueError s!"frame: stream id {streamId} out of range")
  else if payload.length > frameMaxPayload then
    .error (.valueError s!"frame: payload too large ({payload.length} bytes)")
  else .ok (frameHead type streamId.toNat ++ (encode 4 payload.length).reverse ++ payload)

def Frame.serialize (f : Frame) : Except Exc (List UInt8) :=
  serializeFrame f.type f.streamId f.payload

/-! ### Reading -/

/-- The frames, and how much of the bytes they are. -/
structure ParsedFrames where
  frames : List Frame
  consumed : ℕ
  deriving DecidableEq, Repr

/-- `(wire[1] << 16) | (wire[2] << 8) | wire[3]` -/
def streamIdAt (wire : List UInt8) : ℕ :=
  ((wire.getD 1 0).toNat <<< 16) ||| ((wire.getD 2 0).toNat <<< 8) ||| (wire.getD 3 0).toNat

/-- `int.from_bytes(wire[4:8], "big")` -/
def sizeAt (wire : List UInt8) : ℕ := decode (wire.extract 4 8).reverse

/-- The loop of `parse_frames`; each frame moves `offset` on by the header at least. -/
def parseFramesFrom (wire : List UInt8) : ℕ → List Frame → ℕ → Except FrameParseError ParsedFrames
  | 0, frames, offset => .ok ⟨frames, offset⟩
  | fuel + 1, frames, offset =>
      if wire.length - offset < frameHeaderSize then .ok ⟨frames, offset⟩
      else
        let typeByte := wire.getD offset 0
        match FrameType.ofByte typeByte with
        | none => .error ⟨"frame: unknown type 0x" ++ Hex.lower typeByte⟩
        | some type =>
            let size := sizeAt (wire.drop offset)
            if size > frameMaxPayload then .error ⟨s!"frame: payload too large ({size} bytes)"⟩
            else if wire.length - offset < frameHeaderSize + size then .ok ⟨frames, offset⟩
            else
              let payload := wire.extract (offset + frameHeaderSize)
                (offset + (frameHeaderSize + size))
              parseFramesFrom wire fuel (frames ++ [⟨type, streamIdAt (wire.drop offset), payload⟩])
                (offset + (frameHeaderSize + size))

def parseFrames (wire : List UInt8) : Except FrameParseError ParsedFrames :=
  parseFramesFrom wire (wire.length + 1) [] 0

def parseFrameMessage (body : List UInt8) : Except FrameParseError (List Frame) :=
  if body = [] then .error ⟨"frame: empty message"⟩
  else do
    let parsed ← parseFrames body
    if parsed.consumed ≠ body.length ∨
      parsed.frames = [] then .error ⟨"frame: trailing partial frame"⟩
    else return parsed.frames

/-! ### The code -/

/-- A frame that can be serialized. -/
def Frame.Valid (f : Frame) : Prop := f.streamId ≤ maxStreamId ∧ f.payload.length ≤ frameMaxPayload

def Frame.bytes (f : Frame) : List UInt8 :=
  frameHead f.type f.streamId ++ (encode 4 f.payload.length).reverse ++ f.payload

/-- One turn of the loop, on the bytes that are left. -/
def nextFrame (w : List UInt8) : Except FrameParseError (Option (Frame × ℕ)) :=
  if w.length < frameHeaderSize then .ok none
  else
    match FrameType.ofByte (w.getD 0 0) with
    | none => .error ⟨"frame: unknown type 0x" ++ Hex.lower (w.getD 0 0)⟩
    | some type =>
        if sizeAt w > frameMaxPayload then .error ⟨s!"frame: payload too large ({sizeAt w} bytes)"⟩
        else if w.length < frameHeaderSize + sizeAt w then .ok none
        else .ok (some (⟨type, streamIdAt w, w.extract frameHeaderSize
          (frameHeaderSize + sizeAt w)⟩,
          frameHeaderSize + sizeAt w))

/-- The frames as a self-delimiting code. -/
def Frame.code : Delimited.Code UInt8 Frame FrameParseError := ⟨Frame.bytes, nextFrame⟩

/-- **The loop reads the code**, from where it stands. -/
theorem parseFramesFrom_eq_scan (wire : List UInt8) (fuel : ℕ) (frames : List Frame) {offset : ℕ}
    (h : offset ≤ wire.length) :
    parseFramesFrom wire fuel frames offset =
      (Frame.code.scan fuel (wire.drop offset)).map fun read =>
        ⟨frames ++ read.1, offset + read.2⟩ := by
  -- on the fuel; a header cut short, an unknown type, too large a size and a cut payload end it
  induction fuel generalizing frames offset with
  | zero =>
    rw [parseFramesFrom, Delimited.Code.scan, Except.map, List.append_nil, Nat.add_zero]
  | succ fuel ih =>
    have hhead : (wire.drop offset).getD 0 0 = wire.getD offset 0 := by simp
    rw [parseFramesFrom, Delimited.Code.scan]
    simp only [Frame.code, nextFrame, List.length_drop, hhead]
    by_cases hshort : wire.length - offset < frameHeaderSize
    · simp [hshort, Except.map]
    simp only [if_neg hshort]
    cases htype : FrameType.ofByte (wire.getD offset 0) with
    | none => rfl
    | some type =>
      by_cases hlarge : sizeAt (wire.drop offset) > frameMaxPayload
      · simp only [if_pos hlarge]
        rfl
      simp only [if_neg hlarge]
      by_cases hcut : wire.length - offset < frameHeaderSize + sizeAt (wire.drop offset)
      · simp [hcut, Except.map]
      · -- a whole frame: the loop goes on behind it
        have hpayload : wire.extract (offset + frameHeaderSize)
          (offset + (frameHeaderSize + sizeAt (wire.drop offset))) =
            (wire.drop offset).extract frameHeaderSize
              (frameHeaderSize + sizeAt (wire.drop offset)) := by
          rw [List.extract_eq_take_drop, List.extract_eq_take_drop, List.drop_drop]
          congr 1
          omega
        simp only [if_neg hcut]
        rw [ih _ (by omega), hpayload]
        simp only [Frame.code, List.drop_drop]
        cases Delimited.Code.scan _ fuel _ with
        | error e => rfl
        | ok read => simp [Except.map, Nat.add_assoc]

/-! ### The header -/

@[simp] theorem FrameType.ofByte_byte (t : FrameType) : ofByte t.byte = some t := by
  cases t <;> rfl

theorem FrameType.byte_of_ofByte {b : UInt8} {t : FrameType} (h : ofByte b = some t) :
    t.byte = b := by
  simpa using List.find?_some h

theorem frameHead_eq (t : FrameType) (streamId : ℕ) :
    frameHead t streamId = t.byte :: (encode 3 streamId).reverse := by
  simp [frameHead, encode, Nat.shiftRight_eq_div_pow, Nat.div_div_eq_div_mul]

theorem streamIdAt_eq (b₀ b₁ b₂ b₃ : UInt8) (w : List UInt8) :
    streamIdAt (b₀ :: b₁ :: b₂ :: b₃ :: w) = decode [b₃, b₂, b₁] := by
  have h₂ := b₂.toNat_lt
  have h₃ := b₃.toNat_lt
  have hlow : (b₂.toNat <<< 8 ||| b₃.toNat) = b₂.toNat <<< 8 + b₃.toNat :=
    (Nat.shiftLeft_add_eq_or_of_lt h₃ _).symm
  have hlt : b₂.toNat <<< 8 + b₃.toNat < 2 ^ 16 := by
    rw [Nat.shiftLeft_eq]
    omega
  simp only [streamIdAt, List.getD_cons_succ, List.getD_cons_zero, decode_cons, decode_nil]
  rw [Nat.lor_assoc, hlow, ← Nat.shiftLeft_add_eq_or_of_lt hlt, Nat.shiftLeft_eq, Nat.shiftLeft_eq]
  omega

section Header

variable {t : FrameType} {streamId size : ℕ} (tail : List UInt8)

theorem streamIdAt_header (hid : streamId ≤ maxStreamId) :
    streamIdAt (frameHead t streamId ++ (encode 4 size).reverse ++ tail) = streamId := by
  have h : decode (encode 3 streamId) = streamId := decode_encode (Nat.lt_succ_of_le hid)
  rw [frameHead_eq, List.append_assoc]
  exact (streamIdAt_eq _ _ _ _ _).trans h

theorem sizeAt_header (hsize : size ≤ frameMaxPayload) :
    sizeAt (frameHead t streamId ++ (encode 4 size).reverse ++ tail) = size := by
  have hlt : size < 256 ^ 4 := lt_of_le_of_lt hsize (by decide)
  have hdrop : (frameHead t streamId ++ ((encode 4 size).reverse ++ tail)).drop 4 =
      (encode 4 size).reverse ++ tail :=
    List.drop_left' rfl
  have htake : ((encode 4 size).reverse ++ tail).take (8 - 4) = (encode 4 size).reverse :=
    List.take_left' (by simp)
  rw [sizeAt, List.extract_eq_take_drop, List.append_assoc, hdrop, htake, List.reverse_reverse,
    decode_encode hlt]

/-- What the loop makes of a header, of whatever length the bytes after it are. -/
theorem nextFrame_header (hid : streamId ≤ maxStreamId) (hsize : size ≤ frameMaxPayload) :
    nextFrame (frameHead t streamId ++ (encode 4 size).reverse ++ tail) =
      .ok (if tail.length < size then none
        else some (⟨t, streamId, tail.take size⟩, frameHeaderSize + size)) := by
  have hhead : (frameHead t streamId ++ (encode 4 size).reverse).length =
      frameHeaderSize := by simp [frameHead, frameHeaderSize]
  have htype : (frameHead t streamId ++ (encode 4 size).reverse ++ tail).getD 0 0 = t.byte := rfl
  have hpayload : (frameHead t streamId ++ (encode 4 size).reverse ++ tail).extract frameHeaderSize
    (frameHeaderSize + size) =
      tail.take size := by
    rw [List.extract_eq_take_drop, List.drop_left' hhead, Nat.add_sub_cancel_left]
  rw [nextFrame, htype, FrameType.ofByte_byte]
  simp only [streamIdAt_header tail hid, sizeAt_header tail hsize, hpayload]
  rw [List.length_append, hhead, if_neg (by omega), if_neg (by omega)]
  simp only [Nat.add_lt_add_iff_left]
  split <;> rfl

end Header

theorem exists_cons_of_eight_le {w : List UInt8} (h : 8 ≤ w.length) :
    ∃ b₀ b₁ b₂ b₃ c₀ c₁ c₂ c₃ tail,
    w = b₀ :: b₁ :: b₂ :: b₃ :: c₀ :: c₁ :: c₂ :: c₃ :: tail := by
  match w, h with
  | b₀ :: b₁ :: b₂ :: b₃ :: c₀ :: c₁ :: c₂ :: c₃ :: tail, _ =>
      exact ⟨_, _, _, _, _, _, _, _, _, rfl⟩

/-- Bytes that begin with a frame begin with a header. -/
theorem exists_header {w : List UInt8} {f : Frame} {n : ℕ} (h : nextFrame w = .ok (some (f, n))) :
    ∃ size tail, w = frameHead f.type f.streamId ++ (encode 4 size).reverse ++ tail ∧
      f.streamId ≤ maxStreamId ∧
      size ≤ frameMaxPayload := by
  rw [nextFrame] at h
  split at h
  · cases h
  · next hlong =>
    split at h
    · cases h
    · next t htype =>
      split at h
      · cases h
      · next hsize =>
        split at h
        · cases h
        · obtain ⟨rfl, rfl⟩ := Prod.mk.inj (Option.some.inj (Except.ok.inj h))
          -- the bytes of the header, one by one
          obtain ⟨b₀, b₁, b₂, b₃, c₀, c₁, c₂, c₃, tail, rfl⟩ :=
            exists_cons_of_eight_le (not_lt.mp hlong)
          have hsizeAt : sizeAt (b₀ :: b₁ :: b₂ :: b₃ :: c₀ :: c₁ :: c₂ :: c₃ :: tail) =
              decode [c₃, c₂, c₁, c₀] := rfl
          refine ⟨decode [c₃, c₂, c₁, c₀], tail, ?_, ?_, ?_⟩
          · have hid := encode_decode [b₃, b₂, b₁]
            have hlen := encode_decode [c₃, c₂, c₁, c₀]
            simp only [List.length_cons, List.length_nil] at hid hlen
            rw [frameHead_eq, streamIdAt_eq, hid, hlen, FrameType.byte_of_ofByte htype]
            rfl
          · rw [streamIdAt_eq]
            have hlt : decode [b₃, b₂, b₁] < 256 ^ 3 := decode_lt [b₃, b₂, b₁]
            show decode [b₃, b₂, b₁] ≤ 0x00ffffff
            omega
          · rw [← hsizeAt]
            exact not_lt.mp hsize

/-- **The frames are a self-delimiting code.** -/
theorem Frame.lawful_code : Frame.code.Lawful Frame.Valid := by
  have hread : ∀ f : Frame, f.Valid →
      ∀ rest, nextFrame (f.bytes ++ rest) = .ok (some (f, f.bytes.length)) := by
    intro f hf rest
    rw [Frame.bytes, List.append_assoc, nextFrame_header _ hf.1 hf.2, if_neg (by simp),
      List.take_left' rfl]
    simp [frameHead, frameHeaderSize]
    omega
  refine ⟨?_, hread, ?_, ?_⟩
  · intro f _
    simp [Frame.code, Frame.bytes, frameHead]
  · intro f hf p hp hne
    -- cut off within the header, or within the payload
    have hlt : p.length < f.bytes.length := lt_of_le_of_ne hp.length_le fun h =>
      hne (hp.eq_of_length h)
    obtain ⟨rest, hrest⟩ := hp
    show nextFrame p = .ok none
    by_cases hshort : p.length < frameHeaderSize
    · rw [nextFrame, if_pos hshort]
    · have hhead : (frameHead f.type f.streamId ++ (encode 4 f.payload.length).reverse).length =
          frameHeaderSize := by
        simp [frameHead, frameHeaderSize]
      have hp : p = frameHead f.type f.streamId ++ (encode 4 f.payload.length).reverse ++
          p.drop frameHeaderSize := by
        have htake : p.take frameHeaderSize = (p ++ rest).take frameHeaderSize :=
          (List.take_append_of_le_length (not_lt.mp hshort)).symm
        have hfront : (p ++ rest).take frameHeaderSize = frameHead f.type f.streamId ++
            (encode 4 f.payload.length).reverse := by
          rw [hrest]
          exact List.take_left' hhead
        rw [← hfront, ← htake, List.take_append_drop]
      rw [hp, nextFrame_header _ hf.1 hf.2, if_pos]
      rw [Frame.bytes, List.length_append, hhead] at hlt
      rw [List.length_drop]
      omega
  · intro w f n h
    obtain ⟨size, tail, rfl, hid, hsize⟩ := exists_header h
    have hnext : nextFrame (frameHead f.type f.streamId ++ (encode 4 size).reverse ++ tail) =
        .ok (some (f, n)) := h
    rw [nextFrame_header tail hid hsize] at hnext
    split at hnext
    · cases hnext
    · next hlong =>
      obtain ⟨hf, rfl⟩ := Prod.mk.inj (Option.some.inj (Except.ok.inj hnext))
      have hpayload : f.payload = tail.take size := (congrArg Frame.payload hf).symm
      have hlen : f.payload.length =
          size := by rw [hpayload, List.length_take, min_eq_left (not_lt.mp hlong)]
      refine ⟨⟨hid, hlen.le.trans hsize⟩, ?_, ?_⟩
      · simp [Frame.code, Frame.bytes, frameHead, frameHeaderSize, hlen]
        omega
      · refine ⟨tail.drop size, ?_⟩
        show f.bytes ++ tail.drop size = _
        rw [Frame.bytes, hlen, List.append_assoc, hpayload, List.take_append_drop]

/-! ### What is sent and what is read -/

theorem Frame.serialize_eq_ok {f : Frame} {b : List UInt8} : f.serialize = .ok b ↔
    f.Valid ∧ b = f.bytes := by
  rw [Frame.serialize, serializeFrame]
  by_cases hid : f.streamId ≤ maxStreamId
  · rw [if_neg (not_not.mpr ⟨Int.natCast_nonneg _, Int.ofNat_le.mpr hid⟩)]
    by_cases hpayload : f.payload.length ≤ frameMaxPayload
    · rw [if_neg (not_lt.mpr hpayload), Except.ok.injEq, Frame.Valid, Int.toNat_natCast]
      exact ⟨fun h => ⟨⟨hid, hpayload⟩, h.symm⟩, fun h => h.2.symm⟩
    · rw [if_pos (not_le.mp hpayload)]
      exact ⟨fun h => (nomatch h), fun h => absurd h.1.2 hpayload⟩
  · rw [if_pos (fun h => hid (Int.ofNat_le.mp h.2))]
    exact ⟨fun h => (nomatch h), fun h => absurd h.1.1 hid⟩

/-- Frames are serialized one by one. -/
theorem mapM_serialize_eq_ok {fs : List Frame} {wires : List (List UInt8)} :
    fs.mapM Frame.serialize = .ok wires ↔ (∀ f ∈ fs, f.Valid) ∧ wires = fs.map Frame.bytes := by
  induction fs generalizing wires with
  | nil => simp [pure, Except.pure, eq_comm]
  | cons f fs ih =>
    rw [List.mapM_cons, Except.bind_eq_ok]
    simp only [Except.bind_eq_ok, Frame.serialize_eq_ok, ih, List.forall_mem_cons, List.map_cons]
    constructor
    · rintro ⟨_, ⟨hf, rfl⟩, _, ⟨hfs, rfl⟩, h⟩
      exact ⟨⟨hf, hfs⟩, (Except.ok.inj h).symm⟩
    · rintro ⟨⟨hf, hfs⟩, rfl⟩
      exact ⟨_, ⟨hf, rfl⟩, _, ⟨hfs, rfl⟩, rfl⟩

theorem parseFrames_eq_scan (wire : List UInt8) :
    parseFrames wire = (Frame.code.scan (wire.length + 1) wire).map fun read =>
      ⟨read.1, read.2⟩ := by
  rw [parseFrames, parseFramesFrom_eq_scan wire _ _ (Nat.zero_le _), List.drop_zero]
  simp

/-- A frame is not empty, so frames are not more than their bytes. -/
theorem length_le_length_flatMap_bytes (fs : List Frame) :
    fs.length ≤ (fs.flatMap Frame.bytes).length := by
  induction fs with
  | nil => exact Nat.le_refl 0
  | cons f fs ih =>
    have hpos : 0 < f.bytes.length := by simp [Frame.bytes, frameHead]
    rw [List.flatMap_cons, List.length_append, List.length_cons]
    omega

/-- Frames, and the beginning of another. -/
theorem parseFrames_of_valid {fs : List Frame} (hfs : ∀ f ∈ fs, f.Valid) {rest : List UInt8}
    (hrest : nextFrame rest = .ok none) :
    parseFrames (fs.flatMap Frame.bytes ++ rest) = .ok ⟨fs, (fs.flatMap Frame.bytes).length⟩ := by
  have hfuel : fs.length < (fs.flatMap Frame.bytes ++ rest).length + 1 := by
    have := length_le_length_flatMap_bytes fs
    rw [List.length_append]
    omega
  rw [parseFrames_eq_scan]
  exact congrArg (Except.map _) (Frame.lawful_code.scan_flatMap hfs hrest hfuel)

theorem parseFrameMessage_eq_ok {body : List UInt8} {fs : List Frame} :
    parseFrameMessage body = .ok fs ↔ fs ≠ [] ∧ (∀ f ∈ fs, f.Valid) ∧
      body = fs.flatMap Frame.bytes := by
  constructor
  · intro h
    rw [parseFrameMessage] at h
    split at h
    · cases h
    · obtain ⟨parsed, hparsed, h⟩ := Except.bind_eq_ok.mp h
      split at h
      · cases h
      · next hwhole =>
        obtain rfl : parsed.frames = fs := Except.ok.inj h
        obtain ⟨hlen, hne⟩ := not_or.mp hwhole
        rw [parseFrames_eq_scan] at hparsed
        cases hscan : Frame.code.scan (body.length + 1) body with
        | error e =>
          rw [hscan] at hparsed
          cases hparsed
        | ok read =>
          rw [hscan] at hparsed
          obtain rfl := Except.ok.inj hparsed
          -- the frames are the whole of the body
          obtain ⟨hvalid, hn, hbegin⟩ :=
            @Delimited.Code.Lawful.eq_of_scan _ _ _ _ _ Frame.lawful_code _ _ read.1 read.2 hscan
          exact ⟨hne, hvalid, (hbegin.eq_of_length (hn.symm.trans (not_not.mp hlen))).symm⟩
  · rintro ⟨hne, hvalid, rfl⟩
    -- frames that are valid are read back, and nothing is left
    have hparse := @parseFrames_of_valid fs hvalid [] rfl
    rw [List.append_nil] at hparse
    have hbody : fs.flatMap Frame.bytes ≠ [] := by
      intro h
      have := length_le_length_flatMap_bytes fs
      rw [h] at this
      exact hne (List.length_eq_zero_iff.mp (Nat.le_zero.mp this))
    rw [parseFrameMessage, if_neg hbody, hparse, Except.bind_ok, if_neg (by simp [hne])]
    rfl

/-- **Frames on the wire**: frames with another that is cut off behind them are read up to
the cut, and a body is accepted exactly if it is a row of whole frames. -/
theorem frames_roundTrip :
    (∀ (fs : List Frame) (wires : List (List UInt8)) (f : Frame) (w p : List UInt8),
      fs.mapM Frame.serialize = .ok wires →
      f.serialize = .ok w → p <+: w → p ≠ w →
        parseFrames (wires.flatten ++ p) = .ok ⟨fs, wires.flatten.length⟩) ∧
    ∀ (body : List UInt8) (fs : List Frame), parseFrameMessage body = .ok fs ↔
      fs ≠ [] ∧ ∃ wires, fs.mapM Frame.serialize = .ok wires ∧ body = wires.flatten := by
  refine ⟨?_, ?_⟩
  · intro fs wires f w p hfs hf hp hne
    obtain ⟨hvalid, rfl⟩ := mapM_serialize_eq_ok.mp hfs
    obtain ⟨hvalidf, rfl⟩ := Frame.serialize_eq_ok.mp hf
    rw [← List.flatMap_def]
    exact parseFrames_of_valid hvalid (Frame.lawful_code.head_of_prefix f hvalidf p hp hne)
  · intro body fs
    rw [parseFrameMessage_eq_ok]
    simp only [mapM_serialize_eq_ok, List.flatMap_def, and_assoc, exists_and_left, exists_eq_left]

/-- A frame and three bytes of another, and the same with nothing behind it. -/
theorem frames_roundTrip_ping :
    parseFrames ([0x05, 0, 0, 0, 0, 0, 0, 1, 0x2a] ++ [0x02, 0, 0]) =
      .ok ⟨[⟨.ping, 0, [0x2a]⟩], 9⟩ ∧
      parseFrameMessage [0x05, 0, 0, 0, 0, 0, 0, 1, 0x2a] = .ok [⟨.ping, 0, [0x2a]⟩] :=
  ⟨frames_roundTrip.1 [⟨.ping, 0, [0x2a]⟩] [[0x05, 0, 0, 0, 0, 0, 0, 1, 0x2a]] ⟨.data, 1, [7]⟩
      [0x02, 0, 0, 1, 0, 0, 0, 1, 7] [0x02, 0, 0] rfl rfl ⟨[1, 0, 0, 0, 1, 7], rfl⟩ (by decide),
    (frames_roundTrip.2 _ _).mpr ⟨by decide, [[0x05, 0, 0, 0, 0, 0, 0, 1, 0x2a]], rfl, rfl⟩⟩

end Pyrogram
