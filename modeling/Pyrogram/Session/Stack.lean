import Pyrogram.Connection.Readers
import Pyrogram.Crypto.RoundTrip
import Mathlib.Data.List.Forall2

/-!
# Messages over the transports

A session seals a message and hands the packet to its transport; on the other side the transport's
framing finds the packet again, and it is opened.  `recv_worker` tells a packet from an error of the
transport by its length.

The server seals and opens like the client in the other direction.

## Main definitions

* `recvWorker` — the loop of `recv_worker`.
* `Outgoing`, `Packs`, `PacksAsServer` — a message with what is drawn for it, and its packet in
  either direction.

## Main results

* `carries_of_seals` — every framing carries a sealed packet, the padded one too.
* `up_round_trip` — **the server opens what the session sends.**
* `down_round_trip` — **`recv_worker` hands over what the server sends**, until the transport
  reports an error.
-/

namespace Pyrogram.Stack

open Raw LittleEndian Mtproto

/-! ### The receiver -/

/-- Why `recv_worker` ends. -/
inductive Ended (ε : Type*)
  /-- `None` was received. -/
  | nothing
  /-- Four bytes were received, which are the negative of an error code. -/
  | transport (code : ℤ)
  | raised (e : ε)

/-- The loop of `recv_worker` for a number of turns: the packets that are handed to `handle_packet`,
and why it ends, if it does. -/
def recvWorker {ε σ : Type*} (framing : Framing) (R : ByteReader ε σ) :
    ℕ → σ → List (List UInt8) × Option (Ended ε)
  | 0, _ => ([], none)
  | turns + 1, s =>
      match framing.recvOver R s with
      | (.error e, _) => ([], some (.raised e))
      | (.ok none, _) => ([], some .nothing)
      | (.ok (some packet), s) =>
          if packet.length = 4 then ([], some (.transport (-decodeSigned packet)))
          else
            let (packets, ended) := recvWorker framing R turns s
            (packet :: packets, ended)

/-! ### Sealed packets -/

variable {β : Type} {sha256 : Sha256} {aes : Ige256} {authKey authKeyId plain packet : List UInt8}
    {x : ℕ} {outgoing : Bool}

/-- A sealed packet has as many bytes as its plaintext, behind the two keys. -/
theorem length_of_seals (h : Seals sha256 aes authKey authKeyId x outgoing plain packet)
    (hplain : plain ≠ []) :
    packet.length = 24 + plain.length := by
  have hpos := List.length_pos_iff.mpr hplain
  have hlength := h.length
  rw [List.length_drop] at hlength
  omega

/-- **Every framing carries a sealed packet**; the padded one tells its length by the blocks, and a
packet from the unencrypted ones by the id of the key. -/
theorem carries_of_seals (framing : Framing)
    (h : Seals sha256 aes authKey authKeyId x outgoing plain packet)
    (hplain : plain ≠ []) (hwhole : 16 ∣ plain.length) (hid : authKeyId ≠ List.replicate 8 0)
    {padding : List UInt8}
    (hpadding : padding.length < 16) : framing.Carries ⟨packet, padding⟩ := by
  have hlength := length_of_seals h hplain
  obtain ⟨k, hk⟩ := hwhole
  cases framing with
  | abridged =>
    refine ⟨6 + 4 * k, ?_⟩
    show packet.length = _
    omega
  | intermediate => trivial
  | full => trivial
  | intermediatePadded =>
    refine ⟨⟨k, by rw [hlength, hk]⟩, ?_, hpadding⟩
    show packet.take 8 ≠ _
    rw [h.authKeyId]
    exact hid

/-- A packet that is handed over is not taken for an error. -/
theorem length_ne_four_of_seals (h : Seals sha256 aes authKey authKeyId x outgoing plain packet)
    (hplain : plain ≠ []) :
    packet.length ≠ 4 := by
  rw [length_of_seals h hplain]
  omega

/-! ### Errors of the transport -/

section Errors

variable {ε σ : Type*} {R : ByteReader ε σ} {seqNo : ℕ} {data padding frame : List UInt8}

/-- Four bytes, which are not those of a quick acknowledgment, are received as they are. -/
theorem reads_error (framing : Framing) (hsend : framing.send seqNo ⟨data, padding⟩ = some frame)
    (hdata : data.length = 4)
    (hack : data ≠ List.replicate 4 0xff) (hpadding : padding.length < 16) :
    R.Reads (framing.recvOver R) frame data := by
  cases framing with
  | abridged =>
    have hwords : 4 ∣ data.length := by rw [hdata]
    exact TCPAbridged.reads_send hsend hwords
  | intermediate => exact TCPIntermediate.reads_send hsend
  | full => exact TCPFull.reads_send hsend
  | intermediatePadded =>
    change TCPIntermediatePadded.send padding data = some frame at hsend
    obtain ⟨length, hencode, rfl⟩ := Option.map_eq_some_iff.mp hsend
    have hdecode := decodeSigned_encodeSigned hencode
    have htake : (data ++ padding).take 4 = data := List.take_left' hdata
    have hstrip : TCPIntermediatePadded.strip (data.length + padding.length) (data ++ padding) =
        data := by
      rw [TCPIntermediatePadded.strip, if_pos (by omega), htake, if_neg (fun h => hack h.2)]
    rw [List.append_assoc]
    refine (ByteReader.reads_read (by rw [length_encodeSigned hencode]; rfl)).andThen ?_
    rw [hdecode]
    refine (ByteReader.reads_read (by rw [List.length_append, Nat.cast_add])).andThen_done ?_
    rw [hstrip]

end Errors

section Worker

variable {ε σ : Type*} {R : ByteReader ε σ} {framing : Framing} {frames datas : List (List UInt8)}
    {s : σ} {rest : List UInt8}

/-- **The worker hands over** the packets of the frames in front of it, and goes on behind them. -/
theorem recvWorker_of_reads
    (hframes : List.Forall₂ (fun frame data => R.Reads (framing.recvOver R) frame data)
    frames datas)
    (hlength : ∀ data ∈ datas, data.length ≠ 4) (hholds : R.Holds s (frames.flatten ++ rest))
    (turns : ℕ) :
    ∃ s', R.Holds s' rest ∧ recvWorker framing R (datas.length + turns) s =
      (datas ++ (recvWorker framing R turns s').1, (recvWorker framing R turns s').2) := by
  induction hframes generalizing s with
  | nil => exact ⟨s, hholds, by rw [List.length_nil, Nat.zero_add]; rfl⟩
  | @cons frame data frames datas hframe _ ih =>
    rw [List.forall_mem_cons] at hlength
    rw [List.flatten_cons, List.append_assoc] at hholds
    obtain ⟨s₁, hrecv, h₁⟩ := hframe hholds
    obtain ⟨s₂, h₂, hworker⟩ := ih hlength.2 h₁
    refine ⟨s₂, h₂, ?_⟩
    rw [List.length_cons, Nat.succ_add, recvWorker, hrecv]
    dsimp only
    rw [if_neg hlength.1, hworker]
    rfl

/-- The worker ends with an error of the transport. -/
theorem recvWorker_of_error {data : List UInt8}
    (hread : R.Reads (framing.recvOver R) frames.flatten data)
    (hdata : data.length = 4) (hholds : R.Holds s (frames.flatten ++ rest)) (turns : ℕ) :
    recvWorker framing R (turns + 1) s = ([], some (.transport (-decodeSigned data))) := by
  obtain ⟨s', hrecv, -⟩ := hread hholds
  rw [recvWorker, hrecv]
  exact if_pos hdata

end Worker

/-! ### Both directions -/

/-- A message with its salt, and the padding that is drawn for it. -/
structure Outgoing (β : Type) where
  message : Raw.Message β
  salt : ℤ
  urandom : Urandom

/-- A message that can be written, and its bytes. -/
structure Outgoing.Writes (writeBody : β → List UInt8) (o : Outgoing β) (w : List UInt8) :
    Prop where
  salt : ∃ s, Int.new Long.size o.salt = .ok s
  write : o.message.write writeBody = .ok w
  framed : o.message.Framed writeBody

section

variable (sha256 : Sha256) (cipher : Aes.Cipher) (writeBody : β → List UInt8)
    (sessionId authKey authKeyId : List UInt8)

/-- The packet of a message, with the padding of its frame. -/
def Packs (o : Outgoing β) (packet : Framing.Packet) : Prop :=
  pack sha256 (.ofCipher cipher) o.urandom writeBody o.message o.salt sessionId authKey authKeyId =
    .ok packet.data ∧
    packet.padding.length < 16

/-- The packet of a message of the server. -/
def PacksAsServer (o : Outgoing β) (packet : Framing.Packet) : Prop :=
  packAsServer sha256 (.ofCipher cipher) o.urandom writeBody o.message o.salt sessionId authKey
    authKeyId = .ok packet.data ∧
    packet.padding.length < 16

variable {sha256 cipher writeBody sessionId authKeyId} {o : Outgoing β} {out : List (Outgoing β)}
    {w : List UInt8}
  {packet : Framing.Packet} {packets : List Framing.Packet} {frames : List (List UInt8)}
  {framing : Framing}

theorem plainOf_ne_nil {s : List UInt8} (urandom : Urandom) (hsession : sessionId.length = 8) :
    plainOf urandom s sessionId w ≠ [] := by
  intro hnil
  have hlength := congrArg List.length hnil
  rw [plainOf, List.length_append, List.length_append, List.length_append, hsession,
    List.length_nil] at hlength
  omega

/-- **A packet is carried, and opened on the other side.** -/
theorem Packs.opens (h : Packs sha256 cipher writeBody sessionId authKey authKeyId o packet)
    (hw : o.Writes writeBody w)
    (hid : authKeyId.length = 8) (hne : authKeyId ≠ List.replicate 8 0)
    (hsession : sessionId.length = 8) :
    framing.Carries packet ∧ ∃ padding, unpackAsServer sha256 (.ofCipher cipher) packet.data authKey
      authKeyId =
      .ok (o.salt, sessionId, w, padding) := by
  obtain ⟨s, hs⟩ := hw.salt
  obtain ⟨data, hpack, hseals⟩ :=
    exists_pack sha256 cipher o.urandom sessionId authKey hid hs hw.write
  obtain rfl := Except.ok.inj (hpack.symm.trans h.1)
  have hbounds := paddingSize_bounds (s ++ sessionId ++ w)
  have hsize := (o.urandom (paddingSize (s ++ sessionId ++ w))).property
  refine ⟨carries_of_seals framing hseals (plainOf_ne_nil o.urandom hsession) (plainOf_whole ..)
    hne h.2, _,
    unpackAsServer_of_seals hs hsession hw.write hw.framed ?_ hseals⟩
  omega

/-- **A packet of the server is carried, and opened**, where its message is one that a server
sends. -/
theorem PacksAsServer.opens {objects : ℕ → Option (Parser β)}
    (h : PacksAsServer sha256 cipher writeBody sessionId authKey authKeyId o packet)
    (hw : o.Writes writeBody w)
    (hid : authKeyId.length = 8) (hne : authKeyId ≠ List.replicate 8 0)
    (hsession : sessionId.length = 8)
    (hodd : o.message.msgId % 2 = 1)
    (hbody : TLObject.readObject objects (writeBody o.message.body) = .ok o.message.body) :
    framing.Carries packet ∧ packet.data.length ≠ 4 ∧
      unpack sha256 (.ofCipher cipher) objects packet.data sessionId authKey authKeyId =
        .ok o.message := by
  obtain ⟨s, hs⟩ := hw.salt
  obtain ⟨data, hpack, hseals⟩ := exists_packAsServer sha256 cipher o.urandom sessionId authKey hid
    hs hw.write
  obtain rfl := Except.ok.inj (hpack.symm.trans h.1)
  have hbounds := paddingSize_bounds (s ++ sessionId ++ w)
  have hsize := (o.urandom (paddingSize (s ++ sessionId ++ w))).property
  have hplain := plainOf_ne_nil (s := s) (w := w) o.urandom hsession
  refine ⟨carries_of_seals framing hseals hplain (plainOf_whole ..) hne h.2,
    length_ne_four_of_seals hseals hplain,
    unpack_of_seals hs hsession hw.write hw.framed ?_ (plainOf_whole ..) hodd hbody hseals⟩
  omega

theorem forall₂_imp_of_mem {α γ : Type*} {P Q : α → γ → Prop} {as : List α} {cs : List γ}
    (h : List.Forall₂ P as cs)
    (himp : ∀ a ∈ as, ∀ c, P a c → Q a c) : List.Forall₂ Q as cs := by
  induction h with
  | nil => exact .nil
  | cons hfirst _ ih =>
    rw [List.forall_mem_cons] at himp
    exact .cons (himp.1 _ hfirst) (ih himp.2)

/-- **The server opens what the session sends**: in order, over any framing, whatever the server
reads from. -/
theorem up_round_trip {ε σ : Type*} (R : ByteReader ε σ) (framing : Framing)
    (hid : authKeyId.length = 8)
    (hne : authKeyId ≠ List.replicate 8 0) (hsession : sessionId.length = 8)
    (hout : ∀ o ∈ out, ∃ w, o.Writes writeBody w)
    (hpacks : List.Forall₂ (Packs sha256 cipher writeBody sessionId authKey authKeyId) out packets)
    (hframes : framing.sendAll 0 packets = some frames) {s : σ} {later : List UInt8}
    (hholds : R.Holds s (frames.flatten ++ later)) :
    ∃ received s', ByteReader.times (framing.recvOver R) packets.length s =
      (.ok (some (received.map some)), s') ∧
      R.Holds s' later ∧
      List.Forall₂ (fun o packet => ∃ w padding, o.message.write writeBody = .ok w ∧
        unpackAsServer sha256 (.ofCipher cipher) packet authKey authKeyId =
          .ok (o.salt, sessionId, w, padding)) out received := by
  have hopens : List.Forall₂ (fun o packet => framing.Carries packet ∧
    ∃ w padding, o.message.write writeBody = .ok w ∧
      unpackAsServer sha256 (.ofCipher cipher) packet.data authKey authKeyId =
        .ok (o.salt, sessionId, w, padding))
      out packets := by
    refine forall₂_imp_of_mem hpacks ?_
    intro o ho packet hpack
    obtain ⟨w, hw⟩ := hout o ho
    obtain ⟨hcarries, padding, hunpack⟩ := hpack.opens authKey hw hid hne hsession
    exact ⟨hcarries, w, padding, hw.write, hunpack⟩
  obtain ⟨hcarries, hunpacks⟩ := (List.forall₂_and_left ..).mp hopens.flip
  obtain ⟨s', htimes, hlater⟩ := Framing.reads_sendAll (R := R) hframes hcarries hholds
  refine ⟨packets.map (·.data), s', ?_, hlater, List.forall₂_map_right_iff.mpr hunpacks.flip⟩
  rw [htimes, List.map_map]
  rfl

/-- **`recv_worker` hands over what the server sends**, in order and in packets that open to its
messages, and ends with the error that the transport reports after them. -/
theorem down_round_trip {ε σ : Type*} (R : ByteReader ε σ) (framing : Framing)
    {objects : ℕ → Option (Parser β)}
    (hid : authKeyId.length = 8) (hne : authKeyId ≠ List.replicate 8 0)
    (hsession : sessionId.length = 8)
    (hout : ∀ o ∈ out, (∃ w, o.Writes writeBody w) ∧ o.message.msgId % 2 = 1 ∧
      TLObject.readObject objects (writeBody o.message.body) = .ok o.message.body)
    (hpacks : List.Forall₂ (PacksAsServer sha256 cipher writeBody sessionId authKey authKeyId) out
      packets)
    (hframes : framing.sendAll 0 packets = some frames) {code : ℤ}
    {error padding errorFrame later : List UInt8}
    (herror : encodeSigned 4 (-code) = some error) (hack : code ≠ 1)
    (hpadding : padding.length < 16)
    (herrorFrame : framing.send packets.length ⟨error, padding⟩ = some errorFrame) {s : σ}
    (hholds : R.Holds s (frames.flatten ++ (errorFrame ++ later))) {turns : ℕ}
    (hturns : packets.length < turns) :
    ∃ received, recvWorker framing R turns s = (received, some (.transport code)) ∧
      List.Forall₂ (fun o packet => unpack sha256 (.ofCipher cipher) objects packet sessionId
        authKey authKeyId =
        .ok o.message) out received := by
  -- each packet is carried by its framing and opened by the client
  have hopens : List.Forall₂ (fun o packet => (framing.Carries packet ∧ packet.data.length ≠ 4) ∧
      unpack sha256 (.ofCipher cipher) objects packet.data sessionId authKey authKeyId =
        .ok o.message) out packets := by
    refine forall₂_imp_of_mem hpacks ?_
    intro o ho packet hpack
    obtain ⟨⟨w, hw⟩, hodd, hbody⟩ := hout o ho
    obtain ⟨hcarries, hlength, hunpack⟩ := hpack.opens authKey hw hid hne hsession hodd hbody
    exact ⟨⟨hcarries, hlength⟩, hunpack⟩
  obtain ⟨hcarries, hunpacks⟩ := (List.forall₂_and_left ..).mp hopens.flip
  have hreads := Framing.forall₂_reads (R := R) hframes fun packet hpacket =>
    (hcarries packet hpacket).1
  -- none of them has the length of an error
  have hlength : ∀ data ∈ packets.map (·.data), data.length ≠ 4 := by
    intro data hdata
    obtain ⟨packet, hpacket, rfl⟩ := List.mem_map.mp hdata
    exact (hcarries packet hpacket).2
  obtain ⟨more, rfl⟩ : ∃ more, turns = (packets.map (·.data)).length + (more + 1) := by
    refine ⟨turns - packets.length - 1, ?_⟩
    rw [List.length_map]
    omega
  obtain ⟨s', hrest, hworker⟩ := recvWorker_of_reads hreads hlength hholds (more + 1)
  -- the error behind them is read as one
  have hdata : error.length = 4 := length_encodeSigned herror
  have hdecode : decodeSigned error = -code := decodeSigned_encodeSigned herror
  have hquick : error ≠ List.replicate 4 0xff := by
    rintro rfl
    exact hack (by rw [← neg_neg code, ← hdecode]; decide)
  have hread : R.Reads (framing.recvOver R) [errorFrame].flatten error := by
    rw [List.flatten_singleton]
    exact reads_error framing herrorFrame hdata hquick hpadding
  have hend := recvWorker_of_error hread hdata (by rw [List.flatten_singleton]; exact hrest) more
  refine ⟨packets.map (·.data), ?_, List.forall₂_map_right_iff.mpr hunpacks.flip⟩
  rw [hworker, hend, List.append_nil, hdecode, neg_neg]

end

/-! ### A message that is true -/

/-- A message with its salt. -/
def outgoingTrue : Outgoing Bool :=
  ⟨⟨5, 0, 4, true⟩, 3, fun n => ⟨List.replicate n 7, List.length_replicate⟩⟩

theorem writes_outgoingTrue :
    outgoingTrue.Writes writeBool (encode 8 5 ++ encode 4 0 ++ encode 4 4 ++ writeBool true) where
  salt := ⟨encode 8 3, by decide⟩
  write := by decide
  framed := rfl

/-- A sealed packet that is not too long has a frame. -/
theorem exists_frame {plain packet : List UInt8}
    (h : Seals sha256 aes authKey authKeyId x outgoing plain packet)
    (hplain : plain ≠ []) (hsize : plain.length < 2 ^ 20) :
    ∃ frame, Framing.intermediatePadded.sendAll 0 [⟨packet, [0]⟩] = some [frame] := by
  have hlength := length_of_seals h hplain
  have hsome : (Framing.intermediatePadded.send 0 ⟨packet, [0]⟩).isSome := by
    refine Framing.isSome_send.mpr ?_
    show packet.length + 1 < 2 ^ 31
    omega
  obtain ⟨frame, hframe⟩ := Option.isSome_iff_exists.mp hsome
  refine ⟨frame, ?_⟩
  rw [Framing.sendAll, hframe]
  rfl

theorem up_round_trip_true : ∃ frame received s',
    ByteReader.times (Framing.intermediatePadded.recvOver (ByteReader.list Exc)) 1 frame =
      (.ok (some (received.map some)), s') ∧
    List.Forall₂ (fun (o : Outgoing Bool) packet => ∃ w padding, o.message.write writeBool = .ok w ∧
      unpackAsServer zeroSha256 (.ofCipher fun _ => Equiv.refl _) packet [] (List.replicate 8 2) =
        .ok (o.salt, List.replicate 8 1, w, padding)) [outgoingTrue] received := by
  have hs : Int.new Long.size outgoingTrue.salt = .ok (encode 8 3) := by decide
  obtain ⟨packet, hpack, hseals⟩ :=
    exists_pack zeroSha256 (fun _ => Equiv.refl _) outgoingTrue.urandom
    (List.replicate 8 1) [] (show (List.replicate 8 (2 : UInt8)).length = 8 from rfl) hs
      writes_outgoingTrue.write
  obtain ⟨frame, hframe⟩ := exists_frame hseals (plainOf_ne_nil _ rfl) (by decide)
  obtain ⟨received, s', htimes, -, hunpacks⟩ :=
    up_round_trip [] (ByteReader.list Exc) .intermediatePadded rfl (by decide) rfl
    (by rintro o (_ | ⟨_, ⟨⟩⟩); exact ⟨_, writes_outgoingTrue⟩)
    (.cons ⟨hpack, Nat.one_lt_two.trans (by decide)⟩ .nil) hframe
    (List.append_nil _).symm
  exact ⟨_, received, s', htimes, hunpacks⟩

theorem down_round_trip_true : ∃ stream received,
    recvWorker .intermediatePadded (ByteReader.list Exc) 2 stream =
      (received, some (.transport 404)) ∧
    List.Forall₂ (fun (o : Outgoing Bool) packet =>
      unpack zeroSha256 (.ofCipher fun _ => Equiv.refl _) boolObjects packet
      (List.replicate 8 1) [] (List.replicate 8 2) = .ok o.message) [outgoingTrue] received := by
  have hs : Int.new Long.size outgoingTrue.salt = .ok (encode 8 3) := by decide
  obtain ⟨packet, hpack, hseals⟩ :=
    exists_packAsServer zeroSha256 (fun _ => Equiv.refl _) outgoingTrue.urandom
    (List.replicate 8 1) [] (show (List.replicate 8 (2 : UInt8)).length = 8 from rfl) hs
      writes_outgoingTrue.write
  obtain ⟨frame, hframe⟩ := exists_frame hseals (plainOf_ne_nil _ rfl) (by decide)
  obtain ⟨received, hworker, hunpacks⟩ :=
    @down_round_trip Bool zeroSha256 (fun _ => Equiv.refl _) writeBool
    (List.replicate 8 1) [] (List.replicate 8 2) [outgoingTrue] [⟨packet, [0]⟩]
    [frame] Exc (List UInt8) (ByteReader.list Exc)
    .intermediatePadded boolObjects rfl (by decide) rfl
    (by rintro o (_ | ⟨_, ⟨⟩⟩); exact ⟨⟨_, writes_outgoingTrue⟩, by decide, by decide⟩)
    (.cons ⟨hpack, Nat.one_lt_two.trans (by decide)⟩ .nil) hframe 404 [0x6c, 0xfe, 0xff, 0xff] []
    [4, 0, 0, 0, 0x6c, 0xfe, 0xff, 0xff]
    [] (by decide) (by decide) (by decide)
    (show Framing.intermediatePadded.send 1 ⟨[0x6c, 0xfe, 0xff, 0xff], []⟩ = some _ by decide) _ rfl
      2 Nat.one_lt_two
  exact ⟨_, received, hworker, hunpacks⟩

end Pyrogram.Stack
