import Pyrogram.Errors
import Pyrogram.Raw.Vector

/-!
# Messages and containers on the wire

`raw.core.Message`: a message identity, a sequence number, the length of the body
and the body.  The body is an object of the generated classes: `objects` gives
for a constructor id the `read` of its class, `write` the bytes of an object.

## Main definitions

* `TLObject.readObject` — `TLObject.read` with the exceptions it raises.
* `Message.read`, `Message.write`.

## Main results

* `Message.read_write` — a message with the length of its own body is read back.
-/

namespace Pyrogram.Raw

open LittleEndian

/-- The `read` of a class: what it reads and the bytes still unread, or the
exception it raises. -/
abbrev Parser (β : Type) := List UInt8 → Except Exc (β × List UInt8)

/-- `BytesIO.read(size)`: a negative size reads to the end. -/
def bytesRead (size : ℤ) (b : List UInt8) : List UInt8 × List UInt8 :=
  if size < 0 then (b, []) else (b.take size.toNat, b.drop size.toNat)

/-- `Int(value)`, `Long(value)`. -/
def Int.new (size : ℕ) (value : ℤ) : Except Exc (List UInt8) :=
  match encodeSigned size value with
  | some w => .ok w
  | none => .error (.overflowError "int too big to convert")

theorem Int.new_eq_ok {size : ℕ} {z : ℤ} {w : List UInt8} :
    Int.new size z = .ok w ↔ encodeSigned size z = some w := by
  unfold Int.new
  cases encodeSigned size z <;> simp

theorem Int.length_new {size : ℕ} {z : ℤ} {w : List UInt8} (h : Int.new size z = .ok w) :
    w.length = size :=
  length_encodeSigned (Int.new_eq_ok.mp h)

theorem Int.decodeSigned_new {size : ℕ} {z : ℤ} {w : List UInt8} (h : Int.new size z = .ok w) :
    decodeSigned w = z :=
  decodeSigned_encodeSigned (Int.new_eq_ok.mp h)

/-- `TLObject.read(BytesIO(body))`: bytes of the body left over are not looked at. -/
def TLObject.readObject {β : Type} (objects : ℕ → Option (Parser β)) (body : List UInt8) :
    Except Exc β :=
  let (id, b) := readId body
  match objects id with
  | none => .error (.keyError id)
  | some read => (read b).map Prod.fst

structure Message (β : Type) where
  msgId : ℤ
  seqNo : ℤ
  length : ℤ
  body : β
  deriving DecidableEq, Repr

namespace Message

variable {β : Type}

/-- `Message.read`, and the bytes the stream has left when it returns or raises. -/
def read (objects : ℕ → Option (Parser β)) (data : List UInt8) :
    Except Exc (Message β) × List UInt8 :=
  let msgId := decodeSigned (data.take 8)
  let seqNo := decodeSigned ((data.drop 8).take 4)
  let length := decodeSigned ((data.drop 12).take 4)
  let (body, rest) := bytesRead length (data.drop 16)
  ((TLObject.readObject objects body).map fun body => ⟨msgId, seqNo, length, body⟩, rest)

/-- `Message.write`. -/
def write (writeBody : β → List UInt8) (m : Message β) : Except Exc (List UInt8) := do
  let msgId ← Int.new Long.size m.msgId
  let seqNo ← Int.new Int.size m.seqNo
  let length ← Int.new Int.size m.length
  return msgId ++ seqNo ++ length ++ writeBody m.body

/-- The length field is the length of the body, as `MsgFactory.create` sets it. -/
def Framed (writeBody : β → List UInt8) (m : Message β) : Prop :=
  m.length = (writeBody m.body).length

theorem write_eq_ok {writeBody : β → List UInt8} {m : Message β} {w : List UInt8} :
    m.write writeBody = .ok w ↔ ∃ msgId seqNo length,
      Int.new Long.size m.msgId = .ok msgId ∧ Int.new Int.size m.seqNo = .ok seqNo ∧
        Int.new Int.size m.length = .ok length ∧
          msgId ++ seqNo ++ length ++ writeBody m.body = w := by
  simp only [write, Except.bind_eq_ok, pure, Except.pure, Except.ok.injEq]
  constructor
  · rintro ⟨a, ha, b, hb, c, hc, h⟩
    exact ⟨a, b, c, ha, hb, hc, h⟩
  · rintro ⟨a, b, c, ha, hb, hc, h⟩
    exact ⟨a, ha, b, hb, c, hc, h⟩

/-- The header is 16 bytes. -/
theorem length_write {writeBody : β → List UInt8} {m : Message β} {w : List UInt8}
    (h : m.write writeBody = .ok w) : w.length = 16 + (writeBody m.body).length := by
  obtain ⟨msgId, seqNo, length, hmsgId, hseqNo, hlength, rfl⟩ := write_eq_ok.mp h
  have h1 : msgId.length = 8 := Int.length_new hmsgId
  have h2 : seqNo.length = 4 := Int.length_new hseqNo
  have h3 : length.length = 4 := Int.length_new hlength
  simp only [List.length_append, h1, h2, h3]

/-- **A message is read back**, whatever follows it, if its length field is the
length of its body and its body is read back. -/
theorem read_write {objects : ℕ → Option (Parser β)} {writeBody : β → List UInt8} {m : Message β}
    {w : List UInt8} (hm : m.Framed writeBody) (h : m.write writeBody = .ok w)
    (hbody : TLObject.readObject objects (writeBody m.body) = .ok m.body) (rest : List UInt8) :
    read objects (w ++ rest) = (.ok m, rest) := by
  obtain ⟨msgId, seqNo, length, hmsgId, hseqNo, hlength, rfl⟩ := write_eq_ok.mp h
  have h1 : msgId.length = 8 := Int.length_new hmsgId
  have h2 : seqNo.length = 4 := Int.length_new hseqNo
  have h3 : length.length = 4 := Int.length_new hlength
  have hd8 : (msgId ++ seqNo ++ length ++ writeBody m.body ++ rest).drop 8 =
      seqNo ++ (length ++ (writeBody m.body ++ rest)) := by
    simp only [List.append_assoc]
    exact List.drop_left' h1
  have hd12 : (msgId ++ seqNo ++ length ++ writeBody m.body ++ rest).drop 12 =
      length ++ (writeBody m.body ++ rest) := by
    rw [show 12 = 8 + 4 from rfl, ← List.drop_drop, hd8, List.drop_left' h2]
  have hd16 : (msgId ++ seqNo ++ length ++ writeBody m.body ++ rest).drop 16 =
      writeBody m.body ++ rest := by
    rw [show 16 = 12 + 4 from rfl, ← List.drop_drop, hd12, List.drop_left' h3]
  have hid : decodeSigned ((msgId ++ seqNo ++ length ++ writeBody m.body ++ rest).take 8) =
      m.msgId := by
    simp only [List.append_assoc]
    rw [List.take_left' h1, Int.decodeSigned_new hmsgId]
  have hread : bytesRead m.length (writeBody m.body ++ rest) = (writeBody m.body, rest) := by
    rw [bytesRead, hm, if_neg (by omega), Int.toNat_natCast, List.take_left, List.drop_left]
  simp only [read, hid, hd8, hd12, hd16, List.take_left' h2, List.take_left' h3,
    Int.decodeSigned_new hseqNo, Int.decodeSigned_new hlength, hread, hbody]
  rfl

end Message

end Pyrogram.Raw
