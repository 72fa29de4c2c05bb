import Pyrogram.Crypto.Curve25519
import Pyrogram.Crypto.Mtproto

/-!
# The writer of the fake-TLS greeting

`_HelloWriter`: a greeting is a list of operations, and a scope writes the number of its bytes into
two bytes that it reserves at its beginning.  The writer knows of a scope only where it began; the
operations of a list are well bracketed where they are those of a tree of scopes, and there the
writer comes to what the tree is written as.

## Main definitions

* `Op` — the operations.
* `render` — the writer.
* `WellBracketed` — each scope that begins ends.
* `contents` — what a tree of scopes is written as, without positions.

## Main results

* `exists_blocks` — operations that are well bracketed are those of a tree.
* `render_ops` — **the writer comes to the contents of the tree.**
-/

namespace Pyrogram.FakeTls

open Mtproto

/-! ### What is drawn -/

/-- What `secrets` gives to one operation.  Of the candidates for a key there is one that passes: a
draw without any would not end. -/
structure Draw where
  tokenBytes : Urandom
  /-- `randbits(32)`, the first and the second of a pair. -/
  randbits : ℕ → Fin (2 ^ 32) × Fin (2 ^ 32)
  /-- `randbelow(n + 1)`, at an index. -/
  randbelow : ℕ → (n : ℕ) → Fin (n + 1)
  candidates : ℕ → {b : List UInt8 // b.length = 32}
  exists_residue : ∃ n, IsResidue (candidate (candidates n))

/-- `_generate_curve25519_key` -/
def generateCurve25519Key (draw : Draw) : List UInt8 :=
  LittleEndian.encode 32 (keyOf (candidate (draw.candidates (Nat.find draw.exists_residue))))

def ML_KEM_768_MODULUS : ℕ := 3329

def ML_KEM_768_COEFFICIENT_PAIRS : ℕ := 384

/-- Two 12-bit coefficients in three bytes. -/
def coefficientPair (pair : Fin (2 ^ 32) × Fin (2 ^ 32)) : List UInt8 :=
  let first := pair.1.val % ML_KEM_768_MODULUS
  let second := pair.2.val % ML_KEM_768_MODULUS
  [UInt8.ofNat (first &&& 0xFF), UInt8.ofNat (first >>> 8 ||| (second &&& 0x0F) <<< 4),
    UInt8.ofNat (second >>> 4)]

/-- `_generate_ml_kem_768_key` -/
def generateMlKem768Key (draw : Draw) : List UInt8 :=
  (List.range ML_KEM_768_COEFFICIENT_PAIRS).flatMap (fun i => coefficientPair (draw.randbits i)) ++
    (draw.tokenBytes 32).val

/-- `parts[i], parts[j] = parts[j], parts[i]` -/
def swap (parts : List (List UInt8)) (i j : ℕ) : List (List UInt8) :=
  (parts.set i (parts.getD j [])).set j (parts.getD i [])

/-- `_shuffled` -/
def shuffled (draw : Draw) (parts : List (List UInt8)) : List (List UInt8) :=
  (List.range (parts.length - 1)).foldl
    (fun shuffled index =>
      swap shuffled index (index + (draw.randbelow index (parts.length - index - 1)).val)) parts

/-! ### Operations -/

/-- The operations that only write bytes. -/
inductive Field
  | string (data : List UInt8)
  | random (length : ℕ)
  | zero (length : ℕ)
  | domain
  | grease (seed : ℕ)
  | key
  | mlKem768Key
  deriving DecidableEq, Repr

inductive Op
  | field (f : Field)
  | beginScope
  | endScope
  | permutation (parts : List (List Op))
  | padding

/-- What one writer is made with. -/
structure Greeting where
  grease : List UInt8
  domain : List UInt8
  /-- What each of the operations draws, one after the other. -/
  draws : ℕ → Draw

/-- What an operation writes. -/
def Field.bytes (g : Greeting) (draw : Draw) : Field → Except Exc (List UInt8)
  | string data => .ok data
  | random length => .ok (draw.tokenBytes length).val
  | zero length => .ok (List.replicate length 0)
  | domain => .ok g.domain
  | grease seed =>
      match g.grease[seed]? with
      | some b => .ok [b, b]
      | none => .error (.other "IndexError")
  | key => .ok (generateCurve25519Key draw)
  | mlKem768Key => .ok (generateMlKem768Key draw)

/-! ### The writer -/

def SCOPE_LENGTH_SIZE : ℕ := 2

def PADDING_TARGET_OFFSET : ℕ := 513

/-- `_HelloWriter`; `scopes` has the scope that began last in front. -/
structure Writer where
  out : List UInt8
  scopes : List ℕ
  drawn : ℕ

namespace Writer

def append (w : Writer) (b : List UInt8) : Writer := { w with out := w.out ++ b }

def beginScope (w : Writer) : Writer :=
  { w with out := w.out ++ List.replicate SCOPE_LENGTH_SIZE 0, scopes := w.out.length :: w.scopes }

/-- `_close_scope`; the scope began at least two bytes before the end. -/
def closeScope (w : Writer) : Except Exc Writer :=
  match w.scopes with
  | [] => .error (.other "IndexError")
  | start :: scopes => do
      let size ← Aes.toBytes (w.out.length - start - SCOPE_LENGTH_SIZE) SCOPE_LENGTH_SIZE
      return { w with
        out := w.out.take start ++ size ++ w.out.drop (start + SCOPE_LENGTH_SIZE)
        scopes }

/-- `_write_padding` -/
def writePadding (w : Writer) : Except Exc Writer :=
  if PADDING_TARGET_OFFSET ≤ w.out.length then .ok w
  else
    let size := PADDING_TARGET_OFFSET - w.out.length
    (((w.append [0x00, 0x15]).beginScope).append (List.replicate size 0)).closeScope

end Writer

section Render

variable (g : Greeting)

mutual

/-- `_write` -/
def write : Op → Writer → Except Exc Writer
  | .field f, w => do
      let b ← f.bytes g (g.draws w.drawn)
      return { w.append b with drawn := w.drawn + 1 }
  | .beginScope, w => .ok w.beginScope
  | .endScope, w => w.closeScope
  | .permutation parts, w => do
      let (rendered, drawn) ← renderParts parts w.drawn
      return { w.append (shuffled (g.draws drawn) rendered).flatten with drawn := drawn + 1 }
  | .padding, w => w.writePadding

/-- `render` -/
def render : List Op → Writer → Except Exc Writer
  | [], w => .ok w
  | op :: ops, w => do
      let w ← write op w
      render ops w

/-- The parts, each rendered by a writer of its own. -/
def renderParts : List (List Op) → ℕ → Except Exc (List (List UInt8) × ℕ)
  | [], drawn => .ok ([], drawn)
  | part :: parts, drawn => do
      let w ← render part ⟨[], [], drawn⟩
      let (rendered, drawn) ← renderParts parts w.drawn
      return (w.out :: rendered, drawn)

end

end Render

/-! ### Trees of scopes -/

inductive Block
  | field (f : Field)
  | scope (blocks : List Block)
  | permutation (parts : List (List Block))
  | padding

mutual

/-- The operations of a tree. -/
def Block.ops : Block → List Op
  | .field f => [.field f]
  | .scope blocks => .beginScope :: opsOf blocks ++ [.endScope]
  | .permutation parts => [.permutation (partsOf parts)]
  | .padding => [.padding]

def opsOf : List Block → List Op
  | [] => []
  | block :: blocks => block.ops ++ opsOf blocks

def partsOf : List (List Block) → List (List Op)
  | [] => []
  | part :: parts => opsOf part :: partsOf parts

end

mutual

/-- The operations close `depth` scopes more than they begin, and none before it has begun; those of
the parts of a permutation are well bracketed. -/
def Op.Balanced : Op → Prop
  | .permutation parts => PartsBalanced parts
  | .field _ | .beginScope | .endScope | .padding => True

def Balanced : ℕ → List Op → Prop
  | depth, [] => depth = 0
  | depth, .beginScope :: ops => Balanced (depth + 1) ops
  | 0, .endScope :: _ => False
  | depth + 1, .endScope :: ops => Balanced depth ops
  | depth, op :: ops => op.Balanced ∧ Balanced depth ops

def PartsBalanced : List (List Op) → Prop
  | [] => True
  | part :: parts => Balanced 0 part ∧ PartsBalanced parts

end

/-- Each scope that begins ends, and ends where it is the last one that began. -/
def WellBracketed (ops : List Op) : Prop := Balanced 0 ops

/-- Trees, between any two of which a scope ends. -/
def opsBetween : List (List Block) → List Op
  | [] => []
  | [blocks] => opsOf blocks
  | blocks :: rest => opsOf blocks ++ .endScope :: opsBetween rest

theorem opsBetween_cons (block : Block) (blocks : List Block) (rest : List (List Block)) :
    opsBetween ((block :: blocks) :: rest) = block.ops ++ opsBetween (blocks :: rest) := by
  cases rest with
  | nil => rfl
  | cons _ _ => exact List.append_assoc _ _ _

theorem opsBetween_scope (inner blocks : List Block) (rest : List (List Block)) :
    opsBetween ((.scope inner :: blocks) :: rest) = .beginScope :: opsBetween
      (inner :: blocks :: rest) := by
  rw [opsBetween_cons, Block.ops, List.append_assoc]
  rfl

/-- The operations are trees, with the ends of `depth` scopes between them. -/
def Between (depth : ℕ) (ops : List Op) : Prop := ∃ trees, trees.length = depth + 1 ∧
    opsBetween trees = ops

theorem Between.cons {depth : ℕ} {ops : List Op} (h : Between depth ops) (block : Block) :
    Between depth (block.ops ++ ops) := by
  obtain ⟨trees, hlength, hops⟩ := h
  match trees, hlength with
  | blocks :: rest, hlength =>
      exact ⟨(block :: blocks) :: rest, hlength, by rw [opsBetween_cons, hops]⟩

mutual

theorem between_of_balanced : ∀ (ops : List Op) (depth : ℕ), Balanced depth ops → Between depth ops
  -- on the operations; the list of trees has one for each scope that is still open
  | [], depth, h => by
    rw [Balanced] at h
    exact ⟨[[]], by rw [h]; rfl, rfl⟩
  | .field f :: ops, depth, h => by
    rw [Balanced] at h
    · exact (between_of_balanced ops depth h.2).cons (.field f)
    all_goals nofun
  | .padding :: ops, depth, h => by
    rw [Balanced] at h
    · exact (between_of_balanced ops depth h.2).cons .padding
    all_goals nofun
  | .permutation parts :: ops, depth, h => by
    rw [Balanced] at h
    · obtain ⟨blocks, hparts⟩ := exists_parts parts h.1
      have hcons := (between_of_balanced ops depth h.2).cons (.permutation blocks)
      rwa [Block.ops, hparts] at hcons
    all_goals nofun
  | .beginScope :: ops, depth, h => by
    rw [Balanced] at h
    obtain ⟨trees, hlength, hops⟩ := between_of_balanced ops (depth + 1) h
    match trees, hlength with
    | inner :: blocks :: rest, hlength =>
      refine ⟨(.scope inner :: blocks) :: rest, Nat.succ.inj hlength, ?_⟩
      rw [opsBetween_scope, hops]
  | .endScope :: ops, 0, h => by
    rw [Balanced] at h
    exact h.elim
  | .endScope :: ops, depth + 1, h => by
    rw [Balanced] at h
    obtain ⟨trees, hlength, hops⟩ := between_of_balanced ops depth h
    match trees, hlength with
    | blocks :: rest, hlength =>
        exact ⟨[] :: blocks :: rest, congrArg Nat.succ hlength, congrArg (Op.endScope :: ·) hops⟩

theorem exists_parts : ∀ parts : List (List Op), PartsBalanced parts →
    ∃ blocks, partsOf blocks = parts
  | [], _ => ⟨[], rfl⟩
  | part :: parts, h => by
    rw [PartsBalanced] at h
    obtain ⟨trees, hlength, hops⟩ := between_of_balanced part 0 h.1
    obtain ⟨blocks', hparts⟩ := exists_parts parts h.2
    match trees, hlength with
    | [blocks], _ => exact ⟨blocks :: blocks', by rw [partsOf, hparts, ← hops]; rfl⟩

end

/-- **Operations that are well bracketed are those of a tree.** -/
theorem exists_blocks {ops : List Op} (h : WellBracketed ops) : ∃ blocks, opsOf blocks = ops := by
  obtain ⟨trees, hlength, hops⟩ := between_of_balanced ops 0 h
  match trees, hlength with
  | [blocks], _ => exact ⟨blocks, hops⟩

/-! ### What a tree is written as -/

/-- The padding extension after `offset` bytes. -/
def paddingBytes (offset : ℕ) : List UInt8 :=
  let size := PADDING_TARGET_OFFSET - offset
  if PADDING_TARGET_OFFSET ≤ offset then []
  else [0x00, 0x15] ++ (LittleEndian.encode SCOPE_LENGTH_SIZE size).reverse ++ List.replicate size 0

section Contents

variable (g : Greeting)

mutual

/-- What a block is written as after `offset` bytes, and how many operations have drawn. -/
def Block.contents : Block → ℕ → ℕ → Except Exc (List UInt8 × ℕ)
  | .field f, _, drawn => do
      let b ← f.bytes g (g.draws drawn)
      return (b, drawn + 1)
  | .scope blocks, offset, drawn => do
      let (body, drawn) ← contents blocks (offset + SCOPE_LENGTH_SIZE) drawn
      let size ← Aes.toBytes body.length SCOPE_LENGTH_SIZE
      return (size ++ body, drawn)
  | .permutation parts, _, drawn => do
      let (rendered, drawn) ← partsContents parts drawn
      return ((shuffled (g.draws drawn) rendered).flatten, drawn + 1)
  | .padding, offset, drawn => .ok (paddingBytes offset, drawn)

def contents : List Block → ℕ → ℕ → Except Exc (List UInt8 × ℕ)
  | [], _, drawn => .ok ([], drawn)
  | block :: blocks, offset, drawn => do
      let (b, drawn) ← block.contents offset drawn
      let (bs, drawn) ← contents blocks (offset + b.length) drawn
      return (b ++ bs, drawn)

def partsContents : List (List Block) → ℕ → Except Exc (List (List UInt8) × ℕ)
  | [], drawn => .ok ([], drawn)
  | part :: parts, drawn => do
      let (b, drawn) ← contents part 0 drawn
      let (rendered, drawn) ← partsContents parts drawn
      return (b :: rendered, drawn)

end

variable {g}

/-- The writer, after it has written what it was given. -/
def Writer.wrote (w : Writer) (r : List UInt8 × ℕ) : Writer :=
  { w with out := w.out ++ r.1, drawn := r.2 }

theorem render_append (ops ops' : List Op) (w : Writer) :
    render g (ops ++ ops') w = render g ops w >>= render g ops' := by
  induction ops generalizing w with
  | nil => rfl
  | cons op ops ih =>
    rw [List.cons_append, render, render]
    cases write g op w with
    | error e => rfl
    | ok w => exact ih w

theorem render_endScope (w : Writer) : render g [.endScope] w = w.closeScope := by
  rw [render, write]
  cases w.closeScope <;> rfl

/-- A scope that is closed has the number of its bytes in front. -/
theorem closeScope_eq (out : List UInt8) (scopes : List ℕ) (body : List UInt8) (drawn : ℕ) :
    (Writer.mk (out ++ List.replicate SCOPE_LENGTH_SIZE 0 ++ body) (out.length :: scopes)
        drawn).closeScope = do
      let size ← Aes.toBytes body.length SCOPE_LENGTH_SIZE
      return ⟨out ++ (size ++ body), scopes, drawn⟩ := by
  have hsize : (out ++ List.replicate SCOPE_LENGTH_SIZE 0 ++
      body).length - out.length - SCOPE_LENGTH_SIZE = body.length := by
    simp only [List.length_append, List.length_replicate]
    omega
  have htake : (out ++ List.replicate SCOPE_LENGTH_SIZE 0 ++ body).take out.length = out := by
    rw [List.append_assoc, List.take_left]
  have hdrop : (out ++ List.replicate SCOPE_LENGTH_SIZE 0 ++ body).drop
      (out.length + SCOPE_LENGTH_SIZE) = body :=
    List.drop_left' (by rw [List.length_append, List.length_replicate])
  unfold Writer.closeScope
  dsimp only
  rw [hsize, htake, hdrop]
  simp only [List.append_assoc]

theorem writePadding_eq (w : Writer) :
    w.writePadding = .ok (w.wrote (paddingBytes w.out.length, w.drawn)) := by
  unfold Writer.writePadding paddingBytes
  split
  · simp [Writer.wrote]
  · have hlt : PADDING_TARGET_OFFSET - w.out.length < 256 ^ SCOPE_LENGTH_SIZE :=
      (Nat.sub_le _ _).trans_lt (by decide)
    have hclose := closeScope_eq (w.out ++ [0x00, 0x15]) w.scopes
      (List.replicate (PADDING_TARGET_OFFSET - w.out.length) 0) w.drawn
    rw [List.length_replicate, Aes.toBytes, if_pos hlt] at hclose
    refine hclose.trans ?_
    simp [Writer.wrote]

mutual

theorem render_block : ∀ (block : Block) (w : Writer),
    render g block.ops w = (block.contents g w.out.length w.drawn).map w.wrote
  | .field f, w => by
    rw [Block.ops, Block.contents, render, write]
    cases f.bytes g (g.draws w.drawn) with
    | error e => rfl
    | ok b => rfl
  | .padding, w => by
    rw [Block.ops, Block.contents, render, write, writePadding_eq]
    rfl
  | .permutation parts, w => by
    rw [Block.ops, Block.contents, render, write, renderParts_ops parts w.drawn]
    cases partsContents g parts w.drawn with
    | error e => rfl
    | ok r => rfl
  | .scope blocks, w => by
    have hlength : w.beginScope.out.length = w.out.length + SCOPE_LENGTH_SIZE := by
      rw [Writer.beginScope, List.length_append, List.length_replicate]
    have hinner := render_ops blocks w.beginScope
    rw [hlength] at hinner
    rw [Block.ops, Block.contents, List.cons_append, render, write, Except.bind_ok,
      render_append, hinner]
    change Except.bind (Except.map _ (contents g blocks _ w.drawn)) _ = _
    cases contents g blocks (w.out.length + SCOPE_LENGTH_SIZE) w.drawn with
    | error e => rfl
    -- the length is known when the scope is closed, and is written into its place
    | ok r =>
      have hclose : (w.beginScope.wrote r).closeScope = _ := closeScope_eq w.out w.scopes r.1 r.2
      change render g [.endScope] (w.beginScope.wrote r) = _
      rw [render_endScope, hclose]
      change _ = Except.map w.wrote (Aes.toBytes r.1.length SCOPE_LENGTH_SIZE >>= _)
      cases Aes.toBytes r.1.length SCOPE_LENGTH_SIZE with
      | error e => rfl
      | ok size => rfl

theorem render_ops : ∀ (blocks : List Block) (w : Writer),
    render g (opsOf blocks) w = (contents g blocks w.out.length w.drawn).map w.wrote
  | [], w => by
    simp [opsOf, contents, render, Writer.wrote, Except.map]
  | block :: blocks, w => by
    rw [opsOf, contents, render_append, render_block block w]
    cases block.contents g w.out.length w.drawn with
    | error e => rfl
    | ok r =>
      have hrest := render_ops blocks (w.wrote r)
      have hlength : (w.wrote r).out.length = w.out.length + r.1.length := List.length_append
      have hdrawn : (w.wrote r).drawn = r.2 := rfl
      rw [hlength, hdrawn] at hrest
      refine hrest.trans ?_
      change _ = Except.map w.wrote (contents g blocks _ r.2 >>= _)
      cases contents g blocks (w.out.length + r.1.length) r.2 with
      | error e => rfl
      | ok r' =>
        refine congrArg Except.ok ?_
        simp [Writer.wrote]

theorem renderParts_ops : ∀ (parts : List (List Block)) (drawn : ℕ),
    renderParts g (partsOf parts) drawn = partsContents g parts drawn
  | [], _ => rfl
  | part :: parts, drawn => by
    rw [partsOf, partsContents, renderParts, render_ops part ⟨[], [], drawn⟩]
    change Except.bind (Except.map _ (contents g part 0 drawn)) _ = _
    cases contents g part 0 drawn with
    | error e => rfl
    | ok r =>
      have hrest := renderParts_ops parts r.2
      change (renderParts g (partsOf parts) r.2 >>= _) = _
      rw [hrest]
      rfl

end

end Contents

end Pyrogram.FakeTls
