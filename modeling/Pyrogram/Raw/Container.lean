import Pyrogram.Raw.Message
import Pyrogram.Raw.Primitives

/-!
# Containers

`raw.core.MsgContainer`: after the constructor id the number of the messages, and the
messages one after the other.  A message is read through a stream of its own, of as
many bytes as its length field names, so the container goes on behind the body
whatever the `read` of the body leaves.

## Main definitions

* `MsgContainer.read`, `MsgContainer.write`.

## Main results

* `MsgContainer.read_write` — messages with the length of their own body are read back.
* `codecs_read_back` — **byte strings, texts and containers are read back**, and the
  stream is left where they end.
-/

namespace Pyrogram.Raw

open LittleEndian

/-! ### Whole words -/

namespace Bytes

/-- Padding fills up the last word. -/
theorem dvd_add_pad (n : ℕ) : 4 ∣ n + pad n := by
  have hnonneg : 0 ≤ -(n : ℤ) % 4 := Int.emod_nonneg _ (by decide)
  have hpad : ((pad n : ℕ) : ℤ) = -(n : ℤ) % 4 := Int.toNat_of_nonneg hnonneg
  omega

/-- Byte strings are written in whole words. -/
theorem dvd_length_new {value w : List UInt8} (h : new value = some w) : 4 ∣ w.length := by
  unfold new at h
  split at h
  · cases h
    have hdvd := dvd_add_pad (value.length + 1)
    simp only [List.length_append, List.length_cons, List.length_replicate]
    exact hdvd
  · split at h
    · cases h
      have hdvd := dvd_add_pad value.length
      simp only [List.length_append, List.length_cons, List.length_replicate, length_encode]
      omega
    · cases h

/-- **A short byte string is written in whole words and read back**, whatever follows. -/
theorem exists_new {value : List UInt8} (h : value.length < 2 ^ 24) (rest : List UInt8) :
    ∃ w, new value = some w ∧ 4 ∣ w.length ∧ read (w ++ rest) = some (value, rest) := by
  obtain ⟨w, hw⟩ := Option.isSome_iff_exists.mp (isSome_new.mpr h)
  exact ⟨w, hw, dvd_length_new hw, read_new hw rest⟩

end Bytes

/-! ### Containers -/

structure MsgContainer (β : Type) where
  messages : List (Message β)
  deriving DecidableEq, Repr

namespace MsgContainer

variable {β : Type}

/-- `MsgContainer.ID`. -/
def id : ℕ := 0x73F1F8DC

/-- `[Message.read(data) for _ in range(count)]`. -/
def readMessages (objects : ℕ → Option (Parser β)) : ℕ → Parser (List (Message β))
  | 0, data => .ok ([], data)
  | count + 1, data =>
      let (message, data) := Message.read objects data
      do
        let message ← message
        let (messages, data) ← readMessages objects count data
        return (message :: messages, data)

/-- `MsgContainer.read`; `TLObject.read` has read the constructor id. -/
def read (objects : ℕ → Option (Parser β)) : Parser (MsgContainer β) := fun data => do
  let count := decodeSigned (data.take 4)
  -- `range` of a negative count is empty
  let (messages, data) ← readMessages objects count.toNat (data.drop 4)
  return (⟨messages⟩, data)

/-- `for message in self.messages: b.write(message.write())`. -/
def writeMessages (writeBody : β → List UInt8) : List (Message β) → Except Exc (List UInt8)
  | [] => .ok []
  | message :: messages => do
      let b ← message.write writeBody
      return b ++ (← writeMessages writeBody messages)

/-- `MsgContainer.write`. -/
def write (writeBody : β → List UInt8) (container : MsgContainer β) : Except Exc (List UInt8) := do
  let count ← Int.new Int.size container.messages.length
  return encode 4 id ++ count ++ (← writeMessages writeBody container.messages)

/-- The messages carry the length of their body, and the bodies are read back. -/
def ReadsBack (objects : ℕ → Option (Parser β)) (writeBody : β → List UInt8)
    (messages : List (Message β)) : Prop :=
  ∀ m ∈ messages, m.Framed writeBody ∧
    TLObject.readObject objects (writeBody m.body) = .ok m.body

variable {objects : ℕ → Option (Parser β)} {writeBody : β → List UInt8}

/-- As many messages are read as were written, and no byte after them. -/
theorem readMessages_writeMessages {messages : List (Message β)} {w : List UInt8}
    (hmessages : ReadsBack objects writeBody messages)
    (h : writeMessages writeBody messages = .ok w) (rest : List UInt8) :
    readMessages objects messages.length (w ++ rest) = .ok (messages, rest) := by
  induction messages generalizing w with
  | nil =>
    cases h
    rfl
  | cons m messages ih =>
    obtain ⟨b, hb, h⟩ := Except.bind_eq_ok.mp h
    obtain ⟨bs, hbs, h⟩ := Except.bind_eq_ok.mp h
    cases h
    obtain ⟨hframed, hbody⟩ := hmessages m List.mem_cons_self
    have hhead := Message.read_write hframed hb hbody (bs ++ rest)
    have htail := ih (fun m' hm' => hmessages m' (List.mem_cons_of_mem m hm')) hbs
    rw [List.append_assoc, List.length_cons, readMessages, hhead]
    simp only [Except.bind_ok, htail]
    rfl

/-- **A container is read back**, and the stream goes on after its last message. -/
theorem read_write {container : MsgContainer β} {w : List UInt8}
    (hmessages : ReadsBack objects writeBody container.messages)
    (h : container.write writeBody = .ok w) (rest : List UInt8) :
    (readId (w ++ rest)).1 = id ∧
      read objects (readId (w ++ rest)).2 = .ok (container, rest) := by
  obtain ⟨count, hcount, h⟩ := Except.bind_eq_ok.mp h
  obtain ⟨ms, hms, h⟩ := Except.bind_eq_ok.mp h
  cases h
  have hid : readId (encode 4 id ++ count ++ ms ++ rest) = (id, count ++ (ms ++ rest)) := by
    simp only [List.append_assoc]
    exact readId_append (by decide) _
  have hlength : count.length = 4 := Int.length_new hcount
  have hread := readMessages_writeMessages hmessages hms rest
  refine ⟨by rw [hid], ?_⟩
  rw [hid, read]
  dsimp only
  rw [List.take_left' hlength, List.drop_left' hlength, Int.decodeSigned_new hcount,
    Int.toNat_natCast, hread]
  rfl

end MsgContainer

/-! ### The codecs -/

/-- **Byte strings, texts and containers are read back**: the byte strings and the texts
that are shorter than `2 ^ 24` bytes in whole words, the containers of messages whose
lengths are right and whose bodies are read back, and the bytes after them are left. -/
theorem codecs_read_back :
    (∀ value : List UInt8, value.length < 2 ^ 24 → ∀ rest, ∃ w, Core.bytes.new value = some w ∧
      4 ∣ w.length ∧ Core.bytes.read (w ++ rest) = some (value, rest)) ∧
    (∀ value : List Utf8.CodePoint, Utf8.NoSurrogates value → (Utf8.encode value).length < 2 ^ 24 →
      ∀ rest, ∃ w, Core.string.new value = some w ∧
        4 ∣ w.length ∧ Core.string.read (w ++ rest) = some (value, rest)) ∧
    ∀ (β : Type) (objects : ℕ → Option (Parser β)) (writeBody : β → List UInt8)
      (container : MsgContainer β) (w : List UInt8),
      MsgContainer.ReadsBack objects writeBody container.messages →
        container.write writeBody = .ok w → ∀ rest, (readId (w ++ rest)).1 = MsgContainer.id ∧
          MsgContainer.read objects (readId (w ++ rest)).2 = .ok (container, rest) := by
  refine ⟨?_, ?_, ?_⟩
  · intro value hvalue rest
    exact Bytes.exists_new hvalue rest
  · intro value htext hvalue rest
    obtain ⟨w, hw, hdvd, -⟩ := Bytes.exists_new hvalue rest
    have hread := Core.read_new (t := .string) (x := value) hw htext rest
    exact ⟨w, hw, hdvd, hread⟩
  · intro β objects writeBody container w hmessages hw rest
    exact MsgContainer.read_write hmessages hw rest

/-- `ping#7abe77ec ping_id:long = Pong`. -/
def Ping.write (pingId : UInt64) : List UInt8 := encode 4 0x7ABE77EC ++ encode 8 pingId.toNat

def Ping.objects (id : ℕ) : Option (Parser UInt64) :=
  if id = 0x7ABE77EC then
    some fun b => .ok (UInt64.ofNat (decode (b.take 8)), b.drop 8)
  else none

/-- A container of two pings. -/
def Ping.container : MsgContainer UInt64 :=
  ⟨[⟨4, 0, 12, 7⟩, ⟨8, 2, 12, 9⟩]⟩

theorem codecs_read_back_pings :
    (∃ w, Core.bytes.new [1, 2, 3, 4] = some w ∧ 4 ∣ w.length ∧
      Core.bytes.read (w ++ [5]) = some ([1, 2, 3, 4], [5])) ∧
    (∃ w, Core.string.new [.char 'é'] = some w ∧ 4 ∣ w.length ∧
      Core.string.read (w ++ [5]) = some ([.char 'é'], [5])) ∧
    ∃ w, Ping.container.write Ping.write = .ok w ∧
      (readId (w ++ [5])).1 = MsgContainer.id ∧
        MsgContainer.read Ping.objects (readId (w ++ [5])).2 = .ok (Ping.container, [5]) := by
  obtain ⟨hbytes, hstring, hcontainer⟩ := codecs_read_back
  have htext : Utf8.NoSurrogates [.char 'é'] := by
    intro n hn
    cases List.mem_singleton.mp hn
  have hmessages : MsgContainer.ReadsBack Ping.objects Ping.write Ping.container.messages := by
    intro m hm
    simp only [Ping.container, List.mem_cons, List.not_mem_nil, or_false] at hm
    obtain rfl | rfl := hm
    · exact ⟨rfl, by decide⟩
    · exact ⟨rfl, by decide⟩
  refine ⟨hbytes _ (by decide) [5], hstring _ htext (by decide) [5], ?_⟩
  have hok : (Ping.container.write Ping.write).isOk := by decide
  cases hw : Ping.container.write Ping.write with
  | error e =>
    rw [hw] at hok
    cases hok
  | ok w => exact ⟨w, rfl, hcontainer UInt64 _ _ _ _ hmessages hw [5]⟩

end Pyrogram.Raw
