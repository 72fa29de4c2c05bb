import Pyrogram.Base64
import Pyrogram.Utf8

/-!
# Base64 for URLs, without padding

The text of some bytes in the alphabet for URLs; the padding is left out, and is put back from the
length.

## Main results

* `urlDecode_urlEncode` — **decoding undoes encoding.**
* `length_urlEncode` — the length of the text.
-/

namespace Base64

/-- `rstrip("=")` -/
def rstrip (s : List UInt8) : List UInt8 := (s.reverse.dropWhile (· = pad)).reverse

theorem rstrip_append_pads {s : List UInt8} (h : ∀ ch ∈ s, ch ≠ pad) (k : ℕ) :
    rstrip (s ++ List.replicate k pad) = s := by
  rw [rstrip, List.reverse_append, List.reverse_replicate, dropWhile_pads,
    dropWhile_of_forall_ne fun ch hch => h ch (List.mem_reverse.mp hch), List.reverse_reverse]

/-- `urlsafe_b64encode(s).decode().rstrip("=")` -/
def urlEncode (s : List UInt8) : List Utf8.CodePoint :=
  Utf8.decodeAscii (rstrip ((b2a s).map toUrl))

/-- `urlsafe_b64decode(s + "=" * (-len(s) % 4))`; `none` where it raises. -/
def urlDecode (s : List Utf8.CodePoint) : Option (List UInt8) := do
  let s ← Utf8.encodeAscii s
  a2b ((s ++ padding s.length).map ofUrl)

theorem mem_map_toUrl {s : List UInt8} {ch : UInt8} (h : ch ∈ (b2aUnpadded s).map toUrl) :
    ch < 128 ∧ ch ≠ pad := by
  obtain ⟨c, hc, rfl⟩ := List.mem_map.mp h
  obtain ⟨v, rfl⟩ := mem_b2aUnpadded hc
  exact toUrl_character_lt v

theorem rstrip_map_toUrl (s : List UInt8) :
    rstrip ((b2a s).map toUrl) = (b2aUnpadded s).map toUrl := by
  rw [b2a, List.map_append, List.map_replicate]
  exact rstrip_append_pads (fun ch hch => (mem_map_toUrl hch).2) _

/-- **Decoding undoes encoding.** -/
theorem urlDecode_urlEncode (s : List UInt8) : urlDecode (urlEncode s) = some s := by
  have hofUrl : ((b2aUnpadded s).map toUrl).map ofUrl = b2aUnpadded s := by
    rw [List.map_map, List.map_congr_left, List.map_id]
    intro ch hch
    obtain ⟨v, rfl⟩ := mem_b2aUnpadded hch
    exact ofUrl_toUrl_character v
  have hpadding : ∀ n, (padding n).map ofUrl = padding n := by
    intro n
    rw [padding, List.map_replicate]
    rfl
  rw [urlEncode, urlDecode, rstrip_map_toUrl, Utf8.encodeAscii_decodeAscii fun ch hch =>
    (mem_map_toUrl hch).1]
  change a2b _ = some s
  rw [List.map_append, hofUrl, hpadding, List.length_map, b2aUnpadded_append_padding, a2b_b2a]

theorem length_urlEncode (s : List UInt8) : (urlEncode s).length = (s.length * 4 + 2) / 3 := by
  have hlength := length_b2aUnpadded s
  rw [urlEncode, rstrip_map_toUrl, Utf8.decodeAscii, List.length_map, List.length_map]
  omega

end Base64
