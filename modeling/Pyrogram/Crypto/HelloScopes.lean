import Pyrogram.Crypto.HelloWriter

/-!
# The scopes of the fake-TLS greeting

What the writer leaves in front of a scope is the number of the bytes that stand in it, however deep
it is and whatever is drawn.  A length has two bytes, so a scope of `2 ^ 16` bytes cannot be
written, and the writer raises.

## Main definitions

* `Framed` — the bytes of a tree: in front of each scope stands the number of its bytes.
* `size` — how many bytes a tree has, which is not drawn.

## Main results

* `framed_of_contents` — what a tree is written as is framed.
* `measured_contents` — and has as many bytes as its size says.
* `exists_rendered` — **the writer comes to framed bytes.**
-/

namespace Pyrogram.FakeTls

section Contents

variable {g : Greeting}

/-! ### Framed bytes -/

/-- Two bytes that stand for the number of bytes of `body`. -/
def IsLength (size body : List UInt8) : Prop := size.length = SCOPE_LENGTH_SIZE ∧
    Aes.fromBytes size = body.length

/-- The bytes of trees: those of a scope stand behind two bytes for their number, and so does what
fills up the greeting. -/
inductive Framed (g : Greeting) : List Block → List UInt8 → Prop
  | nil : Framed g [] []
  | field {f : Field} {draw : Draw} {b rest : List UInt8} {blocks : List Block}
      (h : f.bytes g draw = .ok b)
      (hrest : Framed g blocks rest) : Framed g (.field f :: blocks) (b ++ rest)
  | scope {inner blocks : List Block} {size body rest : List UInt8} (hsize : IsLength size body)
      (hinner : Framed g inner body) (hrest : Framed g blocks rest) :
      Framed g (.scope inner :: blocks) (size ++ body ++ rest)
  | permutation {parts : List (List Block)} {rendered shuffled : List (List UInt8)}
      {rest : List UInt8}
      {blocks : List Block} (hparts : List.Forall₂ (Framed g) parts rendered)
      (hperm : shuffled.Perm rendered)
      (hrest : Framed g blocks rest) : Framed g (.permutation parts :: blocks)
      (shuffled.flatten ++ rest)
  | full {blocks : List Block} {rest : List UInt8} (hrest : Framed g blocks rest) :
      Framed g (.padding :: blocks) rest
  | padding {n : ℕ} {size rest : List UInt8} {blocks : List Block}
      (hsize : IsLength size (List.replicate n 0))
      (hrest : Framed g blocks rest) :
      Framed g (.padding :: blocks) ([0x00, 0x15] ++ size ++ List.replicate n 0 ++ rest)

theorem isLength_of_toBytes {size body : List UInt8}
    (h : Aes.toBytes body.length SCOPE_LENGTH_SIZE = .ok size) :
    IsLength size body := by
  obtain ⟨hsize, hlength⟩ := Aes.fromBytes_of_toBytes h
  exact ⟨hlength, hsize⟩

theorem perm_swap {parts : List (List UInt8)} {i j : ℕ} (hi : i < parts.length)
    (hj : j < parts.length) :
    (swap parts i j).Perm parts := by
  have hgeti : parts.getD i [] = parts[i] := List.getD_eq_getElem _ _ hi
  have hgetj : parts.getD j [] = parts[j] := List.getD_eq_getElem _ _ hj
  rw [swap, hgeti, hgetj]
  exact List.set_set_perm hi hj

/-- No part is lost where they are shuffled. -/
theorem perm_shuffled (draw : Draw) (parts : List (List UInt8)) :
    (shuffled draw parts).Perm parts := by
  have hfold : ∀ (indices : List ℕ) (parts' : List (List UInt8)),
    (∀ i ∈ indices, i + 1 < parts.length) →
      parts'.Perm parts → (indices.foldl
        (fun shuffled index =>
          swap shuffled index (index + (draw.randbelow index (parts.length - index - 1)).val))
        parts').Perm parts := by
    intro indices
    induction indices with
    | nil => exact fun parts' _ hperm => hperm
    | cons index indices ih =>
      intro parts' hindices hperm
      have hindex := hindices index List.mem_cons_self
      have hbelow := (draw.randbelow index (parts.length - index - 1)).isLt
      have hlength := hperm.length_eq
      refine ih _ (fun i hi => hindices i (List.mem_cons_of_mem _ hi))
        ((perm_swap ?_ ?_).trans hperm)
      · omega
      · omega
  refine hfold _ _ ?_ (.refl _)
  intro i hi
  have hlt := List.mem_range.mp hi
  omega

mutual

theorem framed_of_block : ∀ (block : Block) {offset drawn drawn' : ℕ} {b rest : List UInt8}
    {blocks : List Block},
    block.contents g offset drawn = .ok (b, drawn') → Framed g blocks rest →
      Framed g (block :: blocks) (b ++ rest)
  | .field f, offset, drawn, drawn', b, rest, blocks, h, hrest => by
    rw [Block.contents] at h
    obtain ⟨b', hb', h⟩ := Except.bind_eq_ok.mp h
    cases h
    exact .field hb' hrest
  | .scope inner, offset, drawn, drawn', b, rest, blocks, h, hrest => by
    rw [Block.contents] at h
    obtain ⟨⟨body, drawn''⟩, hbody, h⟩ := Except.bind_eq_ok.mp h
    obtain ⟨size, hsize, h⟩ := Except.bind_eq_ok.mp h
    cases h
    exact .scope (isLength_of_toBytes hsize) (framed_of_contents inner hbody) hrest
  | .permutation parts, offset, drawn, drawn', b, rest, blocks, h, hrest => by
    rw [Block.contents] at h
    obtain ⟨⟨rendered, drawn''⟩, hrendered, h⟩ := Except.bind_eq_ok.mp h
    cases h
    exact .permutation (framed_of_parts parts hrendered) (perm_shuffled _ _) hrest
  | .padding, offset, drawn, drawn', b, rest, blocks, h, hrest => by
    rw [Block.contents] at h
    cases h
    unfold paddingBytes
    dsimp only
    split
    · exact .full hrest
    · refine .padding (isLength_of_toBytes ?_) hrest
      rw [List.length_replicate]
      exact if_pos ((Nat.sub_le _ _).trans_lt (by decide))

theorem framed_of_contents : ∀ (blocks : List Block) {offset drawn drawn' : ℕ} {b : List UInt8},
    contents g blocks offset drawn = .ok (b, drawn') → Framed g blocks b
  | [], offset, drawn, drawn', b, h => by
    rw [contents] at h
    cases h
    exact .nil
  | block :: blocks, offset, drawn, drawn', b, h => by
    rw [contents] at h
    obtain ⟨⟨b₁, drawn₁⟩, hb₁, h⟩ := Except.bind_eq_ok.mp h
    obtain ⟨⟨b₂, drawn₂⟩, hb₂, h⟩ := Except.bind_eq_ok.mp h
    cases h
    exact framed_of_block block hb₁ (framed_of_contents blocks hb₂)

theorem framed_of_parts : ∀ (parts : List (List Block)) {drawn drawn' : ℕ}
    {rendered : List (List UInt8)},
    partsContents g parts drawn = .ok (rendered, drawn') → List.Forall₂ (Framed g) parts rendered
  | [], drawn, drawn', rendered, h => by
    rw [partsContents] at h
    cases h
    exact .nil
  | part :: parts, drawn, drawn', rendered, h => by
    rw [partsContents] at h
    obtain ⟨⟨b₁, drawn₁⟩, hb₁, h⟩ := Except.bind_eq_ok.mp h
    obtain ⟨⟨bs, drawn₂⟩, hbs, h⟩ := Except.bind_eq_ok.mp h
    cases h
    exact .cons (framed_of_contents part hb₁) (framed_of_parts parts hbs)

end

/-! ### How long it is -/

section Size

variable (g : Greeting)

/-- The number of bytes of an operation; `none` where it names no grease value. -/
def Field.size : Field → Option ℕ
  | .string data => some data.length
  | .random length => some length
  | .zero length => some length
  | .domain => some g.domain.length
  | .grease seed => if seed < g.grease.length then some 2 else none
  | .key => some 32
  | .mlKem768Key => some (3 * ML_KEM_768_COEFFICIENT_PAIRS + 32)

mutual

/-- The number of bytes of a tree, whatever is drawn; `none` also where a scope has more than two
bytes can count. -/
def Block.size : Block → ℕ → Option ℕ
  | .field f, _ => f.size g
  | .scope blocks, offset => do
      let n ← size blocks (offset + SCOPE_LENGTH_SIZE)
      if n < 256 ^ SCOPE_LENGTH_SIZE then some (SCOPE_LENGTH_SIZE + n) else none
  | .permutation parts, _ => partsSize parts
  | .padding, offset =>
      some (if PADDING_TARGET_OFFSET ≤ offset then 0 else 2 + SCOPE_LENGTH_SIZE +
        (PADDING_TARGET_OFFSET - offset))

def size : List Block → ℕ → Option ℕ
  | [], _ => some 0
  | block :: blocks, offset => do
      let n ← block.size offset
      let m ← size blocks (offset + n)
      some (n + m)

def partsSize : List (List Block) → Option ℕ
  | [] => some 0
  | part :: parts => do
      let n ← size part 0
      let m ← partsSize parts
      some (n + m)

end

end Size

/-- The result has so many bytes, or there is none. -/
def Measured {α : Type} (length : α → ℕ) (x : Except Exc α) (n : Option ℕ) : Prop :=
  match x with
  | .ok a => n = some (length a)
  | .error _ => n = none

/-- What follows a result is measured from its length. -/
theorem Measured.bind {α β : Type} {length : α → ℕ} {length' : β → ℕ} {x : Except Exc α}
    {n : Option ℕ}
    {f : α → Except Exc β} {k : ℕ → Option ℕ} (hx : Measured length x n)
    (hf : ∀ a, Measured length' (f a) (k (length a))) : Measured length' (x >>= f) (n >>= k) := by
  cases x with
  | error e =>
    rw [show n = none from hx]
    rfl
  | ok a =>
    rw [show n = some (length a) from hx]
    exact hf a

theorem length_generateMlKem768Key (draw : Draw) :
    (generateMlKem768Key draw).length = 3 * ML_KEM_768_COEFFICIENT_PAIRS + 32 := by
  have hpairs : ∀ l : List ℕ, (l.flatMap fun i => coefficientPair (draw.randbits i)).length = 3 *
      l.length := by
    intro l
    induction l with
    | nil => rfl
    | cons i l ih =>
      rw [List.flatMap_cons, List.length_append, ih, List.length_cons, Nat.mul_succ, Nat.add_comm]
      rfl
  rw [generateMlKem768Key, List.length_append, hpairs, List.length_range,
    (draw.tokenBytes 32).property]

theorem measured_bytes (f : Field) (draw : Draw) : Measured List.length (f.bytes g draw)
    (f.size g) := by
  cases f with
  | string data => rfl
  | random length => exact congrArg some (draw.tokenBytes length).property.symm
  | zero length => exact congrArg some List.length_replicate.symm
  | domain => rfl
  | grease seed =>
    simp only [Field.bytes, Field.size]
    by_cases hseed : seed < g.grease.length
    · rw [List.getElem?_eq_getElem hseed, if_pos hseed]
      rfl
    · rw [List.getElem?_eq_none (Nat.not_lt.mp hseed), if_neg hseed]
      rfl
  | key => exact congrArg some (LittleEndian.length_encode ..).symm
  | mlKem768Key => exact congrArg some (length_generateMlKem768Key draw).symm

theorem length_paddingBytes (offset : ℕ) : (paddingBytes offset).length =
    if PADDING_TARGET_OFFSET ≤ offset then 0 else 2 + SCOPE_LENGTH_SIZE +
      (PADDING_TARGET_OFFSET - offset) := by
  unfold paddingBytes
  dsimp only
  split
  · rfl
  · simp only [List.length_append, List.length_reverse, LittleEndian.length_encode,
      List.length_replicate]
    rfl

/-- A scope is written unless it has more bytes than its length can say. -/
theorem measured_scope (body : List UInt8) (drawn : ℕ) :
    Measured (fun r => r.1.length)
      (Aes.toBytes body.length SCOPE_LENGTH_SIZE >>= fun size =>
        (.ok (size ++ body, drawn) : Except Exc (List UInt8 × ℕ)))
      (if body.length < 256 ^ SCOPE_LENGTH_SIZE then some (SCOPE_LENGTH_SIZE + body.length)
        else none) := by
  unfold Aes.toBytes
  split
  · refine congrArg some ?_
    simp only [List.length_append, List.length_reverse, LittleEndian.length_encode]
  · rfl

mutual

theorem measured_block : ∀ (block : Block) (offset drawn : ℕ),
    Measured (fun r => r.1.length) (block.contents g offset drawn) (block.size g offset)
  | .field f, offset, drawn => by
    rw [Block.contents, Block.size, ← Option.bind_fun_some (f.size g)]
    exact (measured_bytes f (g.draws drawn)).bind fun b => rfl
  | .scope blocks, offset, drawn => by
    rw [Block.contents, Block.size]
    exact (measured_contents blocks (offset + SCOPE_LENGTH_SIZE) drawn).bind fun r =>
      measured_scope r.1 r.2
  | .permutation parts, offset, drawn => by
    rw [Block.contents, Block.size, ← Option.bind_fun_some (partsSize g parts)]
    refine (measured_parts parts drawn).bind fun r => ?_
    exact congrArg some (perm_shuffled (g.draws r.2) r.1).flatten.length_eq.symm
  | .padding, offset, drawn => congrArg some (length_paddingBytes offset).symm

theorem measured_contents : ∀ (blocks : List Block) (offset drawn : ℕ),
    Measured (fun r => r.1.length) (contents g blocks offset drawn) (size g blocks offset)
  | [], offset, drawn => rfl
  | block :: blocks, offset, drawn => by
    rw [contents, size]
    refine (measured_block block offset drawn).bind fun r => ?_
    refine (measured_contents blocks (offset + r.1.length) r.2).bind fun r' => ?_
    exact congrArg some List.length_append.symm

theorem measured_parts : ∀ (parts : List (List Block)) (drawn : ℕ),
    Measured (fun r => r.1.flatten.length) (partsContents g parts drawn) (partsSize g parts)
  | [], drawn => rfl
  | part :: parts, drawn => by
    rw [partsContents, partsSize]
    refine (measured_contents part 0 drawn).bind fun r => ?_
    refine (measured_parts parts r.2).bind fun r' => ?_
    exact congrArg some (List.length_append.symm.trans
      (congrArg List.length List.flatten_cons.symm))

end

/-- What a tree comes to: framed bytes, as many as its size says, or an exception where it has
none. -/
def Rendered (g : Greeting) (blocks : List Block) (x : Except Exc Writer) : Prop :=
  match size g blocks 0 with
  | some n => ∃ w, x = .ok w ∧ w.out.length = n ∧ w.scopes = [] ∧ Framed g blocks w.out
  | none => ∃ e, x = .error e

theorem rendered_opsOf (g : Greeting) (blocks : List Block) (drawn : ℕ) :
    Rendered g blocks (render g (opsOf blocks) ⟨[], [], drawn⟩) := by
  have hrender : render g (opsOf blocks) ⟨[], [], drawn⟩ = (contents g blocks 0 drawn).map _ :=
    render_ops blocks ⟨[], [], drawn⟩
  have hmeasured := measured_contents (g := g) blocks 0 drawn
  rw [hrender, Rendered]
  cases hcontents : contents g blocks 0 drawn with
  | error e =>
    rw [hcontents] at hmeasured
    rw [show size g blocks 0 = none from hmeasured]
    exact ⟨e, rfl⟩
  | ok r =>
    rw [hcontents] at hmeasured
    rw [show size g blocks 0 = some r.1.length from hmeasured]
    exact ⟨⟨r.1, [], r.2⟩, rfl, rfl, rfl, framed_of_contents blocks hcontents⟩

/-- **The writer comes to framed bytes**, whatever is drawn, unless a scope has more of them than
its length can say or an operation names no grease value; then it raises. -/
theorem exists_rendered (g : Greeting) {ops : List Op} (h : WellBracketed ops) (drawn : ℕ) :
    ∃ blocks, opsOf blocks = ops ∧ Rendered g blocks (render g ops ⟨[], [], drawn⟩) := by
  obtain ⟨blocks, rfl⟩ := exists_blocks h
  exact ⟨blocks, rfl, rendered_opsOf g blocks drawn⟩

end Contents

/-- The bytes of the candidate 9. -/
def nineBytes : {b : List UInt8 // b.length = 32} := ⟨List.replicate 31 0 ++ [9], rfl⟩

theorem isResidue_nineBytes : IsResidue (candidate nineBytes) := by
  have hnine : candidate nineBytes = 9 := by decide
  rw [hnine]
  exact isResidue_nine

theorem length_zeros (n : ℕ) : (List.replicate n (0 : UInt8)).length = n := List.length_replicate

/-- The candidate 9, and zeros. -/
def zeroDraw : Draw where
  tokenBytes n := ⟨List.replicate n 0, length_zeros n⟩
  randbits _ := (0, 0)
  randbelow _ _ := 0
  candidates _ := nineBytes
  exists_residue := ⟨0, isResidue_nineBytes⟩

theorem wellBracketed_scope (n : ℕ) : WellBracketed [.beginScope, .field (.zero n), .endScope] := by
  simp [WellBracketed, Balanced, Op.Balanced]

/-- A scope of `2 ^ 16` bytes is not written. -/
theorem render_ne_ok (g : Greeting) {n : ℕ} (hn : 2 ^ 16 ≤ n) (w : Writer) :
    render g [.beginScope, .field (.zero n), .endScope] ⟨[], [], 0⟩ ≠ .ok w := by
  intro hw
  have hlong : ¬ n < 256 ^ SCOPE_LENGTH_SIZE := Nat.not_lt.mpr hn
  have hsize : size g [.scope [.field (.zero n)]] 0 = none := by
    simp [size, Block.size, Field.size, hlong]
  have hrendered : Rendered g [.scope [.field (.zero n)]]
      (render g [.beginScope, .field (.zero n), .endScope] _) :=
    rendered_opsOf g [.scope [.field (.zero n)]] 0
  rw [hw, Rendered, hsize] at hrendered
  obtain ⟨e, he⟩ := hrendered
  cases he

/-- Not every list of operations that is well bracketed is written. -/
theorem not_render_wellBracketed : ¬ ∀ ops, WellBracketed ops →
    ∃ w, render ⟨[], [], fun _ => zeroDraw⟩ ops ⟨[], [], 0⟩ = .ok w := by
  intro h
  obtain ⟨w, hw⟩ := h _ (wellBracketed_scope (2 ^ 16))
  exact render_ne_ok _ le_rfl w hw

end Pyrogram.FakeTls
