import Pyrogram.Raw.Primitives
import Mathlib.Data.Int.Bitwise

/-!
# The generated classes

`compiler.start` turns every combinator of the schema into a class.  Its `write` and
`read` are put together from one piece of code for each argument, which depends on the
shape of the argument alone.  A flags field is written as the word of the bits of all the
arguments that name it, and kept in a local variable by `read`.

An argument is written when it is there itself, but read when its bit is set, which it is
as soon as one of the arguments that name it is there.

## Main definitions

* `Shape`, `Arg` — the shapes of the arguments that code is emitted for.
* `Slot`, `Field` — the same, with the value of the attribute.
* `write`, `read` — the methods of the class.
* `RoundTrip` — the object is read back, and the bits are those of what is there.
* `Agree` — the arguments that share a bit are there together.

## Main results

* `Slot.read_write` — an argument is read back where its bit is its own.
* `roundTrip_of_agree` — **an object is read back when its arguments agree and can be
  written.**
-/

namespace Pyrogram.Raw.Combinator

open LittleEndian

/-! ### The schema -/

/-- `flags{number}.{index}?`. -/
structure Flag where
  number : Option (Fin 10)
  index : ℕ
  deriving DecidableEq, Repr

/-- The shape of an argument. -/
inductive Shape
  | trueFlag (flag : Flag)
  | optionalCore (flag : Flag) (t : Core)
  | optionalVector (flag : Flag) (t : Core)
  | optionalBoxed (flag : Flag)
  | core (t : Core)
  | vector (t : Core)
  | boxed
  deriving DecidableEq, Repr

inductive Arg
  /-- `flags{number}:#`. -/
  | flags (number : Option (Fin 10))
  | of (shape : Shape)
  deriving DecidableEq, Repr

/-- An argument with the value of its attribute; `ω` are the values of boxed types. -/
inductive Slot (ω : Type)
  | trueFlag (flag : Flag) (value : Option Bool)
  | optionalCore (flag : Flag) (t : Core) (value : Option t.Value)
  | optionalVector (flag : Flag) (t : Core) (value : Option (List t.Value))
  | optionalBoxed (flag : Flag) (value : Option ω)
  | core (t : Core) (value : t.Value)
  | vector (t : Core) (value : List t.Value)
  | boxed (value : ω)

inductive Field (ω : Type)
  | flags (number : Option (Fin 10))
  | of (slot : Slot ω)

/-- An attribute of the object that is read. -/
inductive Attr (ω : Type)
  | none
  | true (value : Bool)
  | core (t : Core) (value : t.Value)
  | vector (t : Core) (value : List t.Value)
  | boxed (value : ω)

/-- The other classes: `write` of an object, `TLObject.read(b)`, and for the constructor
id of a class without a vector `read(b, t)`. -/
structure Objects (ω : Type) where
  write : ω → List UInt8
  read : Reader ω
  readTyped : Core → ℕ → Reader (Attr ω)
  /-- The constructor id is written first. -/
  write_ne_nil : ∀ value, write value ≠ []
  /-- Nothing is put back into the stream. -/
  length_read_le : ∀ {b b' value}, read b = some (value, b') → b'.length ≤ b.length
  length_readTyped_le : ∀ {t id b b' value}, readTyped t id b = some (value, b') →
    b'.length ≤ b.length

variable {ω : Type}

def Slot.shape : Slot ω → Shape
  | .trueFlag flag _ => .trueFlag flag
  | .optionalCore flag t _ => .optionalCore flag t
  | .optionalVector flag t _ => .optionalVector flag t
  | .optionalBoxed flag _ => .optionalBoxed flag
  | .core t _ => .core t
  | .vector t _ => .vector t
  | .boxed _ => .boxed

def Field.arg : Field ω → Arg
  | .flags number => .flags number
  | .of slot => .of slot.shape

def Shape.flag : Shape → Option Flag
  | .trueFlag flag | .optionalCore flag _ | .optionalVector flag _ | .optionalBoxed flag =>
      some flag
  | .core _ | .vector _ | .boxed => none

abbrev Slot.flag (slot : Slot ω) : Option Flag := slot.shape.flag

/-! ### Writing -/

/-- `Vector(value, t)`. -/
def newVector (t : Core) (value : List t.Value) : Option (List UInt8) := do
  let count ← encodeSigned Int.size value.length
  let elements ← value.mapM t.new
  return encode 4 Vector.id ++ count ++ elements.flatten

/-- What decides about the bit of an argument: `true` and vectors are asked for their
truth value, the others whether they are `None`. -/
def Slot.predicate : Slot ω → Bool
  | .trueFlag _ value => value.getD false
  | .optionalVector _ _ value => !(value.getD []).isEmpty
  | .optionalCore _ _ value => value.isSome
  | .optionalBoxed _ value => value.isSome
  | .core _ _ | .vector _ _ | .boxed _ => false

/-- The word of a flags field. -/
def flagsWord (number : Option (Fin 10)) : List (Field ω) → ℕ
  | [] => 0
  | .flags _ :: fields => flagsWord number fields
  | .of slot :: fields =>
      match slot.flag with
      | none => flagsWord number fields
      | some flag =>
          if flag.number = number then
            (if slot.predicate then 1 <<< flag.index else 0) ||| flagsWord number fields
          else flagsWord number fields

section

variable (objects : Objects ω)

/-- The bytes that the code for an argument writes. -/
def Slot.write : Slot ω → Option (List UInt8)
  | .trueFlag _ _ => some []
  | .optionalCore _ t value =>
      match value with
      | some value => t.new value
      | none => some []
  | .optionalVector _ t value =>
      if (value.getD []).isEmpty then some [] else newVector t (value.getD [])
  | .optionalBoxed _ value =>
      match value with
      | some value => some (objects.write value)
      | none => some []
  | .core t value => t.new value
  | .vector t value => newVector t value
  | .boxed value => some (objects.write value)

/-- The bytes that are written for an argument of the object `fields`. -/
def Field.write (fields : List (Field ω)) : Field ω → Option (List UInt8)
  | .flags number => encodeSigned Int.size (flagsWord number fields)
  | .of slot => slot.write objects

def writeFields (fields : List (Field ω)) : List (Field ω) → Option (List UInt8)
  | [] => some []
  | field :: rest => do
      let w ← field.write objects fields
      let ws ← writeFields fields rest
      return w ++ ws

/-- `write` of the class with the constructor id `id`. -/
def write (id : UInt32) (fields : List (Field ω)) : Option (List UInt8) :=
  (writeFields objects fields fields).map (encode 4 id.toNat ++ ·)

/-! ### Reading -/

/-- The local variables that hold the words of the flags fields. -/
abbrev Locals := Option (Fin 10) → Option ℤ

/-- `flags{number} & (1 << index)`; a variable that was not assigned is a `NameError`. -/
def Locals.test (locals : Locals) (flag : Flag) : Option Bool :=
  (locals flag.number).map fun word => word.testBit flag.index

/-- `TLObject.read(b, t)`. -/
def readVector (t : Core) : Reader (Attr ω) := fun b =>
  let (id, b) := readId b
  if id = BoolFalse.id then some (.core .bool false, b)
  else if id = BoolTrue.id then some (.core .bool true, b)
  else if id = Vector.id then
    (Int.read Int.size b).bind fun (count, b) => (Reader.times t.read count.toNat).map (.vector t) b
  else objects.readTyped t id b

/-- The code that reads an argument. -/
def Shape.read (locals : Locals) : Shape → Reader (Attr ω)
  | .trueFlag flag, b => (locals.test flag).map fun set => (.true set, b)
  | .optionalCore flag t, b => (locals.test flag).bind fun set =>
      if set then t.read.map (.core t) b else some (.none, b)
  | .optionalVector flag t, b => (locals.test flag).bind fun set =>
      if set then readVector objects t b else some (.vector t [], b)
  | .optionalBoxed flag, b => (locals.test flag).bind fun set =>
      if set then objects.read.map .boxed b else some (.none, b)
  | .core t, b => t.read.map (.core t) b
  | .vector t, b => readVector objects t b
  | .boxed, b => objects.read.map .boxed b

/-- `read` of the class, after the constructor id. -/
def read (locals : Locals) : List Arg → Reader (List (Attr ω))
  | [], b => some ([], b)
  | .flags number :: args, b =>
      (Int.read Int.size b).bind fun (word, b) =>
        read (Function.update locals number (some word)) args b
  | .of shape :: args, b =>
      (shape.read objects locals b).bind fun (value, b) =>
        (read locals args b).map (Prod.map (value :: ·) id)

end

/-! ### What is read back -/

/-- The attribute as it is read: a falsy `true` is `False`, no vector is an empty one. -/
def Slot.normalized : Slot ω → Attr ω
  | .trueFlag _ value => .true (value.getD false)
  | .optionalCore _ t value =>
      match value with
      | some value => .core t value
      | none => .none
  | .optionalVector _ t value => .vector t (value.getD [])
  | .optionalBoxed _ value =>
      match value with
      | some value => .boxed value
      | none => .none
  | .core t value => .core t value
  | .vector t value => .vector t value
  | .boxed value => .boxed value

/-- The attributes of the object. -/
def normalized : List (Field ω) → List (Attr ω)
  | [] => []
  | .flags _ :: fields => normalized fields
  | .of slot :: fields => slot.normalized :: normalized fields

/-- The values of core types in an argument. -/
def Slot.cores : Slot ω → List (Σ t : Core, t.Value)
  | .optionalCore _ t value => value.toList.map (Sigma.mk t)
  | .optionalVector _ t value => (value.getD []).map (Sigma.mk t)
  | .vector t value => value.map (Sigma.mk t)
  | .core t value => [⟨t, value⟩]
  | .trueFlag _ _ | .optionalBoxed _ _ | .boxed _ => []

/-- The number of elements of a vector. -/
def Slot.count : Slot ω → ℕ
  | .optionalVector _ _ value => (value.getD []).length
  | .vector _ value => value.length
  | .trueFlag _ _ | .optionalCore _ _ _ | .optionalBoxed _ _ | .core _ _ | .boxed _ => 0

/-- The value of a boxed type. -/
def Slot.object? : Slot ω → Option ω
  | .optionalBoxed _ value => value
  | .boxed value => some value
  | .trueFlag _ _ | .optionalCore _ _ _ | .optionalVector _ _ _ | .core _ _ | .vector _ _ => none

/-- Every argument with a flag comes after the flags field it names. -/
def Declared : List (Option (Fin 10)) → List (Field ω) → Prop
  | _, [] => True
  | numbers, .flags number :: fields => Declared (number :: numbers) fields
  | numbers, .of slot :: fields =>
      (∀ flag ∈ slot.flag, flag.number ∈ numbers) ∧ Declared numbers fields

section

variable (objects : Objects ω)

/-- The combinators and values that are asked about. -/
structure Admissible (fields : List (Field ω)) : Prop where
  declared : Declared [] fields
  index : ∀ slot, .of slot ∈ fields → ∀ flag ∈ slot.flag, flag.index ≤ 30
  fits : ∀ slot, .of slot ∈ fields → ∀ value ∈ slot.cores, value.1.Fits value.2
  boxed : ∀ slot, .of slot ∈ fields → ∀ value ∈ slot.object?, ∀ rest,
    objects.read (objects.write value ++ rest) = some (value, rest)

/-- The argument writes bytes, or is a `true` that is set. -/
def Slot.Contributes (slot : Slot ω) : Prop :=
  (∃ w, slot.write objects = some w ∧ w ≠ []) ∨ ∃ flag, slot = .trueFlag flag (some true)

/-- The object is written, it is read back after its constructor id whatever follows it,
and every bit is set exactly when an argument that names it contributes. -/
structure RoundTrip (id : UInt32) (fields : List (Field ω)) : Prop where
  body : ∃ w, write objects id fields = some (encode 4 id.toNat ++ w) ∧
    ∀ rest, read objects (fun _ => none) (fields.map Field.arg) (w ++ rest) =
      some (normalized fields, rest)
  bits : ∀ flag : Flag, (flagsWord flag.number fields).testBit flag.index = true ↔
    ∃ slot, .of slot ∈ fields ∧ slot.flag = some flag ∧ slot.Contributes objects

end

/-- The bit is asked for by an argument that is there. -/
def IsSet (fields : List (Field ω)) (flag : Flag) : Prop :=
  ∃ slot, .of slot ∈ fields ∧ slot.flag = some flag ∧ slot.predicate = true

/-- The arguments that share a bit are there together. -/
def Agree (fields : List (Field ω)) : Prop :=
  ∀ slot, .of slot ∈ fields → ∀ flag ∈ slot.flag, IsSet fields flag → slot.predicate = true

/-- Nothing is too long to be written, and texts have a UTF-8 form. -/
def Writable (fields : List (Field ω)) : Prop :=
  ∀ slot, .of slot ∈ fields →
    slot.count < 2 ^ 31 ∧ ∀ value ∈ slot.cores, value.1.Short value.2 ∧ value.1.Text value.2

/-! ### The words -/

variable {objects : Objects ω} {fields : List (Field ω)} {slot : Slot ω} {flag : Flag}

theorem isSet_flags {number : Option (Fin 10)} :
    IsSet (.flags number :: fields) flag ↔ IsSet fields flag := by
  constructor
  · rintro ⟨slot, hmem, h⟩
    exact ⟨slot, (List.mem_cons.mp hmem).resolve_left (by rintro ⟨⟩), h⟩
  · rintro ⟨slot, hmem, h⟩
    exact ⟨slot, List.mem_cons_of_mem _ hmem, h⟩

theorem isSet_of : IsSet (.of slot :: fields) flag ↔
    (slot.flag = some flag ∧ slot.predicate = true) ∨ IsSet fields flag := by
  constructor
  · rintro ⟨slot', hmem, h⟩
    rcases List.mem_cons.mp hmem with heq | hmem
    · obtain rfl := Field.of.inj heq
      exact .inl h
    · exact .inr ⟨slot', hmem, h⟩
  · rintro (h | ⟨slot', hmem, h⟩)
    · exact ⟨slot, List.mem_cons_self, h⟩
    · exact ⟨slot', List.mem_cons_of_mem _ hmem, h⟩

theorem testBit_flagsWord :
    (flagsWord flag.number fields).testBit flag.index = true ↔ IsSet fields flag := by
  induction fields with
  | nil => exact iff_of_false (by simp [flagsWord]) (by rintro ⟨slot, hmem, -⟩; cases hmem)
  | cons field fields ih =>
    cases field with
    | flags number => exact ih.trans isSet_flags.symm
    | of slot =>
      rw [isSet_of, flagsWord]
      cases hflag : slot.flag with
      | none =>
        have hnone : ¬ (none = some flag ∧ slot.predicate = true) := by
          rintro ⟨⟨⟩, -⟩
        exact ih.trans (or_iff_right hnone).symm
      | some flag' =>
        dsimp only
        split
        · rename_i hnumber
          rw [Nat.testBit_or, Bool.or_eq_true, ih]
          refine or_congr_left ?_
          -- the bit of this argument alone
          have heq : some flag' = some flag ↔ flag'.index = flag.index := by
            rw [Option.some_inj]
            constructor
            · rintro rfl
              rfl
            · intro hindex
              cases flag
              cases flag'
              cases hnumber
              cases hindex
              rfl
          cases slot.predicate with
          | false => simp
          | true =>
            rw [if_pos rfl, Nat.one_shiftLeft, Nat.testBit_two_pow, decide_eq_true_iff, heq]
            exact (and_iff_left rfl).symm
        · rename_i hnumber
          have hne : ¬ (some flag' = some flag ∧ slot.predicate = true) := by
            rintro ⟨heq, -⟩
            exact hnumber (congrArg Flag.number (Option.some.inj heq))
          exact ih.trans (or_iff_right hne).symm

/-- The word fits, up to bit 30. -/
theorem flagsWord_lt (number : Option (Fin 10))
    (h : ∀ slot, .of slot ∈ fields → ∀ flag ∈ slot.flag, flag.index ≤ 30) :
    flagsWord number fields < 2 ^ 31 := by
  induction fields with
  | nil => exact Nat.two_pow_pos 31
  | cons field fields ih =>
    have ih := ih fun slot hmem => h slot (List.mem_cons_of_mem _ hmem)
    cases field with
    | flags number' => exact ih
    | of slot =>
      rw [flagsWord]
      cases hflag : slot.flag with
      | none => exact ih
      | some flag =>
        dsimp only
        split
        · refine Nat.or_lt_two_pow ?_ ih
          split
          · rw [Nat.one_shiftLeft]
            exact Nat.pow_lt_pow_right (by decide)
              (Nat.lt_succ_of_le (h slot List.mem_cons_self flag hflag))
          · exact Nat.two_pow_pos 31
        · exact ih

/-! ### One argument -/

theorem newVector_eq_some {t : Core} {value : List t.Value} {w : List UInt8} :
    newVector t value = some w ↔ ∃ count elements, encodeSigned Int.size value.length = some count ∧
      value.mapM t.new = some elements ∧ w = encode 4 Vector.id ++ count ++ elements.flatten := by
  unfold newVector
  constructor
  · intro h
    obtain ⟨count, hcount, h⟩ := Option.bind_eq_some_iff.mp h
    obtain ⟨elements, helements, h⟩ := Option.bind_eq_some_iff.mp h
    exact ⟨count, elements, hcount, helements, (Option.some.inj h).symm⟩
  · rintro ⟨count, elements, hcount, helements, rfl⟩
    rw [hcount, helements]
    rfl

/-- Elements that are written one by one. -/
theorem mapM_cons_eq_some {t : Core} {x : t.Value} {xs : List t.Value} {ws : List (List UInt8)} :
    (x :: xs).mapM t.new = some ws ↔
      ∃ w ws', t.new x = some w ∧ xs.mapM t.new = some ws' ∧ ws = w :: ws' := by
  rw [List.mapM_cons]
  constructor
  · intro h
    obtain ⟨w, hw, h⟩ := Option.bind_eq_some_iff.mp h
    obtain ⟨ws', hws', h⟩ := Option.bind_eq_some_iff.mp h
    exact ⟨w, ws', hw, hws', (Option.some.inj h).symm⟩
  · rintro ⟨w, ws', hw, hws', rfl⟩
    rw [hw, hws']
    rfl

/-- The elements of a vector are read back in a row. -/
theorem times_read_flatten {t : Core} {xs : List t.Value} {ws : List (List UInt8)}
    (h : xs.mapM t.new = some ws) (htext : ∀ x ∈ xs, t.Text x) (rest : List UInt8) :
    Reader.times t.read xs.length (ws.flatten ++ rest) = some (xs, rest) := by
  induction xs generalizing ws with
  | nil =>
    cases h
    rfl
  | cons x xs ih =>
    obtain ⟨w, ws', hw, hws', rfl⟩ := mapM_cons_eq_some.mp h
    have hx := Core.read_new hw (htext x List.mem_cons_self) (ws'.flatten ++ rest)
    have hxs := ih hws' fun y hy => htext y (List.mem_cons_of_mem x hy)
    rw [List.flatten_cons, List.append_assoc, List.length_cons, Reader.times, hx, Option.bind_some]
    dsimp only
    rw [hxs]
    rfl

/-- A vector that was written is read by `Vector.read`. -/
theorem readVector_newVector {t : Core} {xs : List t.Value} {w : List UInt8}
    (h : newVector t xs = some w) (rest : List UInt8) :
    ∃ elements, xs.mapM t.new = some elements ∧ readVector objects t (w ++ rest) =
      (Reader.times t.read xs.length).map (.vector t) (elements.flatten ++ rest) := by
  obtain ⟨count, elements, hcount, helements, rfl⟩ := newVector_eq_some.mp h
  refine ⟨elements, helements, ?_⟩
  rw [readVector, List.append_assoc, List.append_assoc, readId_append (by decide)]
  show (if Vector.id = BoolFalse.id then _ else _) = _
  rw [if_neg (by decide), if_neg (by decide), if_pos rfl, Int.read_append hcount, Option.bind_some]
  rfl

theorem isSome_mapM {t : Core} {xs : List t.Value} :
    (xs.mapM t.new).isSome ↔ ∀ x ∈ xs, t.Fits x ∧ t.Short x := by
  induction xs with
  | nil => exact iff_of_true rfl fun _ h => absurd h List.not_mem_nil
  | cons x xs ih =>
    rw [List.forall_mem_cons, ← ih, ← Core.isSome_new]
    constructor
    · intro h
      obtain ⟨ws, hws⟩ := Option.isSome_iff_exists.mp h
      obtain ⟨w, ws', hw, hws', -⟩ := mapM_cons_eq_some.mp hws
      exact ⟨Option.isSome_of_eq_some hw, Option.isSome_of_eq_some hws'⟩
    · rintro ⟨hw, hws⟩
      obtain ⟨w, hw⟩ := Option.isSome_iff_exists.mp hw
      obtain ⟨ws, hws⟩ := Option.isSome_iff_exists.mp hws
      exact Option.isSome_of_eq_some (mapM_cons_eq_some.mpr ⟨w, ws, hw, hws, rfl⟩)

theorem isSome_newVector {t : Core} {xs : List t.Value} :
    (newVector t xs).isSome ↔ xs.length < 2 ^ 31 ∧ ∀ x ∈ xs, t.Fits x ∧ t.Short x := by
  have hcount : (encodeSigned Int.size xs.length).isSome ↔ xs.length < 2 ^ 31 := by
    rw [Int.isSome_encodeSigned]
    unfold Int.Fits Int.size
    omega
  rw [← hcount, ← isSome_mapM]
  constructor
  · intro h
    obtain ⟨w, hw⟩ := Option.isSome_iff_exists.mp h
    obtain ⟨count, elements, hcount, helements, -⟩ := newVector_eq_some.mp hw
    exact ⟨Option.isSome_of_eq_some hcount, Option.isSome_of_eq_some helements⟩
  · rintro ⟨hcount, helements⟩
    obtain ⟨count, hcount⟩ := Option.isSome_iff_exists.mp hcount
    obtain ⟨elements, helements⟩ := Option.isSome_iff_exists.mp helements
    exact Option.isSome_of_eq_some (newVector_eq_some.mpr ⟨count, elements, hcount, helements, rfl⟩)

/-- An argument is written unless it does not fit, or is too long. -/
theorem Slot.isSome_write : (slot.write objects).isSome ↔
    slot.count < 2 ^ 31 ∧ ∀ value ∈ slot.cores, value.1.Fits value.2 ∧ value.1.Short value.2 := by
  have hnone : 0 < 2 ^ 31 ∧ ∀ value ∈ ([] : List (Σ t : Core, t.Value)),
      value.1.Fits value.2 ∧ value.1.Short value.2 :=
    ⟨Nat.two_pow_pos 31, fun _ h => absurd h List.not_mem_nil⟩
  have hone : ∀ {t : Core} {x : t.Value}, (t.new x).isSome ↔ 0 < 2 ^ 31 ∧
      ∀ value ∈ ([⟨t, x⟩] : List (Σ t : Core, t.Value)), value.1.Fits value.2 ∧
        value.1.Short value.2 := by
    intro t x
    rw [Core.isSome_new, List.forall_mem_singleton]
    exact (and_iff_right (Nat.two_pow_pos 31)).symm
  have hmany : ∀ {t : Core} {xs : List t.Value}, (newVector t xs).isSome ↔ xs.length < 2 ^ 31 ∧
      ∀ value ∈ xs.map (Sigma.mk t), value.1.Fits value.2 ∧ value.1.Short value.2 := by
    intro t xs
    rw [isSome_newVector, List.forall_mem_map]
  cases slot with
  | trueFlag flag value => exact iff_of_true rfl hnone
  | optionalCore flag t value =>
    cases value with
    | none => exact iff_of_true rfl hnone
    | some value => exact hone
  | optionalVector flag t value =>
    cases hvalue : value.getD [] with
    | nil =>
      rw [Slot.write, Slot.count, Slot.cores, hvalue]
      exact iff_of_true rfl hnone
    | cons x xs =>
      rw [Slot.write, Slot.count, Slot.cores, hvalue]
      exact hmany
  | optionalBoxed flag value =>
    cases value with
    | none => exact iff_of_true rfl hnone
    | some value => exact iff_of_true rfl hnone
  | core t value => exact hone
  | vector t value => exact hmany
  | boxed value => exact iff_of_true rfl hnone

theorem newVector_ne_nil {t : Core} {xs : List t.Value} {w : List UInt8}
    (h : newVector t xs = some w) : w ≠ [] := by
  obtain ⟨count, elements, -, -, rfl⟩ := newVector_eq_some.mp h
  intro hnil
  have hid := congrArg List.length (List.append_eq_nil_iff.mp (List.append_eq_nil_iff.mp hnil).1).1
  cases hid

/-- Of the arguments that have a flag, those that are there write bytes. -/
theorem Slot.write_ne_nil_iff {w : List UInt8} (hw : slot.write objects = some w)
    (hflag : slot.flag = some flag) :
    w ≠ [] ↔ slot.predicate = true ∧ ∀ flag value, slot ≠ .trueFlag flag value := by
  -- no case but a true flag writes nothing when it is set
  cases slot with
  | trueFlag flag' value =>
    cases hw
    exact iff_of_false (fun h => h rfl) fun h => h.2 flag' value rfl
  | optionalCore flag' t value =>
    cases value with
    | none =>
      cases hw
      exact iff_of_false (fun h => h rfl) fun h => Bool.false_ne_true h.1
    | some value => exact iff_of_true (Core.new_ne_nil hw) ⟨rfl, by rintro _ _ ⟨⟩⟩
  | optionalVector flag' t value =>
    rw [Slot.write] at hw
    rw [Slot.predicate]
    cases hvalue : value.getD [] with
    | nil =>
      rw [hvalue] at hw
      cases hw
      exact iff_of_false (fun h => h rfl) fun h => Bool.false_ne_true h.1
    | cons x xs =>
      rw [hvalue] at hw
      exact iff_of_true (newVector_ne_nil hw) ⟨rfl, by rintro _ _ ⟨⟩⟩
  | optionalBoxed flag' value =>
    cases value with
    | none =>
      cases hw
      exact iff_of_false (fun h => h rfl) fun h => Bool.false_ne_true h.1
    | some value =>
      cases hw
      exact iff_of_true (objects.write_ne_nil value) ⟨rfl, by rintro _ _ ⟨⟩⟩
  | core t value => cases hflag
  | vector t value => cases hflag
  | boxed value => cases hflag

/-- What decides about the bit is whether the argument contributes. -/
theorem Slot.predicate_iff_contributes {w : List UInt8} (hw : slot.write objects = some w)
    (hflag : slot.flag = some flag) : slot.predicate = true ↔ slot.Contributes objects := by
  have hne := Slot.write_ne_nil_iff hw hflag
  constructor
  · intro hpredicate
    cases slot with
    | trueFlag flag' value =>
      cases value with
      | none => cases hpredicate
      | some value =>
        obtain rfl : value = true := hpredicate
        exact .inr ⟨flag', rfl⟩
    | optionalCore flag' t value => exact .inl ⟨w, hw, hne.mpr ⟨hpredicate, by rintro _ _ ⟨⟩⟩⟩
    | optionalVector flag' t value => exact .inl ⟨w, hw, hne.mpr ⟨hpredicate, by rintro _ _ ⟨⟩⟩⟩
    | optionalBoxed flag' value => exact .inl ⟨w, hw, hne.mpr ⟨hpredicate, by rintro _ _ ⟨⟩⟩⟩
    | core t value => cases hflag
    | vector t value => cases hflag
    | boxed value => cases hflag
  · rintro (⟨w', hw', hwne⟩ | ⟨flag', rfl⟩)
    · obtain rfl : w = w' := Option.some.inj (hw.symm.trans hw')
      exact (hne.mp hwne).1
    · rfl

/-- An argument is read back where its bit is its own. -/
theorem Slot.read_write {locals : Locals} {w : List UInt8} (hw : slot.write objects = some w)
    (htext : ∀ value ∈ slot.cores, value.1.Text value.2)
    (hboxed : ∀ value ∈ slot.object?, ∀ rest,
      objects.read (objects.write value ++ rest) = some (value, rest))
    (hset : ∀ flag ∈ slot.flag, locals.test flag = some slot.predicate) (rest : List UInt8) :
    slot.shape.read objects locals (w ++ rest) = some (slot.normalized, rest) := by
  have hcore : ∀ {t : Core} {x : t.Value}, t.new x = some w → t.Text x →
      t.read.map (Attr.core t) (w ++ rest) = some ((Attr.core t x : Attr ω), rest) := fun h htext =>
    Reader.map_eq_some.mpr ⟨_, Core.read_new h htext rest, rfl⟩
  have hvector : ∀ {t : Core} {xs : List t.Value}, newVector t xs = some w →
      (∀ x ∈ xs, t.Text x) → readVector objects t (w ++ rest) = some (.vector t xs, rest) := by
    intro t xs h htext
    obtain ⟨elements, helements, hread⟩ := readVector_newVector h rest
    rw [hread]
    exact Reader.map_eq_some.mpr ⟨_, times_read_flatten helements htext rest, rfl⟩
  -- a slot is read as it was written; an empty vector as none at all
  cases slot with
  | trueFlag flag value =>
    cases hw
    have htest := hset flag rfl
    rw [Slot.shape, Shape.read, htest]
    rfl
  | optionalCore flag t value =>
    have htest := hset flag rfl
    rw [Slot.shape, Shape.read, htest]
    cases value with
    | none =>
      cases hw
      rfl
    | some value => exact hcore hw (htext ⟨t, value⟩ List.mem_cons_self)
  | optionalVector flag t value =>
    have htest := hset flag rfl
    rw [Slot.shape, Shape.read, htest, Slot.normalized, Slot.predicate]
    rw [Slot.write] at hw
    rw [Slot.cores, List.forall_mem_map] at htext
    cases hvalue : value.getD [] with
    | nil =>
      rw [hvalue] at hw
      cases hw
      rfl
    | cons x xs =>
      rw [hvalue] at hw htext
      exact hvector hw htext
  | optionalBoxed flag value =>
    have htest := hset flag rfl
    rw [Slot.shape, Shape.read, htest]
    cases value with
    | none =>
      cases hw
      rfl
    | some value =>
      cases hw
      exact Reader.map_eq_some.mpr ⟨value, hboxed value rfl rest, rfl⟩
  | core t value => exact hcore hw (htext ⟨t, value⟩ List.mem_cons_self)
  | vector t value => exact hvector hw fun x hx => htext ⟨t, x⟩ (List.mem_map_of_mem hx)
  | boxed value =>
    cases hw
    exact Reader.map_eq_some.mpr ⟨value, hboxed value rfl rest, rfl⟩

/-! ### Objects -/

/-- The words that were read so far. -/
def Holds (fields : List (Field ω)) (numbers : List (Option (Fin 10))) (locals : Locals) : Prop :=
  ∀ number ∈ numbers, locals number = some (flagsWord number fields : ℤ)

theorem Holds.update {numbers : List (Option (Fin 10))} {locals : Locals}
    (h : Holds fields numbers locals) (number : Option (Fin 10)) :
    Holds fields (number :: numbers)
      (Function.update locals number (some (flagsWord number fields : ℤ))) := by
  intro number' hmem
  rcases eq_or_ne number' number with rfl | hne
  · exact Function.update_self ..
  · rw [Function.update_of_ne hne]
    exact h number' ((List.mem_cons.mp hmem).resolve_left hne)

/-- A bit that is asked for says whether some argument that names it is there. -/
theorem Holds.test {numbers : List (Option (Fin 10))} {locals : Locals}
    (h : Holds fields numbers locals) (hmem : flag.number ∈ numbers) {set : Bool}
    (hset : set = true ↔ IsSet fields flag) : locals.test flag = some set := by
  rw [Locals.test, h flag.number hmem]
  refine congrArg some ?_
  have hbit : (flagsWord flag.number fields).testBit flag.index = true ↔ set = true :=
    testBit_flagsWord.trans hset.symm
  exact Bool.eq_iff_iff.mpr hbit

theorem writeFields_cons_eq_some {field : Field ω} {rest : List (Field ω)} {w : List UInt8} :
    writeFields objects fields (field :: rest) = some w ↔ ∃ u v,
      field.write objects fields = some u ∧ writeFields objects fields rest = some v ∧
        w = u ++ v := by
  rw [writeFields]
  constructor
  · intro h
    obtain ⟨u, hu, h⟩ := Option.bind_eq_some_iff.mp h
    obtain ⟨v, hv, h⟩ := Option.bind_eq_some_iff.mp h
    exact ⟨u, v, hu, hv, (Option.some.inj h).symm⟩
  · rintro ⟨u, v, hu, hv, rfl⟩
    rw [hu, hv]
    rfl

/-- What is written of the arguments from one of them on is read back. -/
theorem read_writeFields (h : Admissible objects fields) (hagree : Agree fields)
    (hwritable : Writable fields) {rest : List (Field ω)} {numbers : List (Option (Fin 10))}
    {locals : Locals} {w : List UInt8} (hsub : ∀ field ∈ rest, field ∈ fields)
    (hdeclared : Declared numbers rest) (hlocals : Holds fields numbers locals)
    (hw : writeFields objects fields rest = some w) (s : List UInt8) :
    read objects locals (rest.map Field.arg) (w ++ s) = some (normalized rest, s) := by
  -- on the fields still to be read, with the flag numbers read before them
  induction rest generalizing numbers locals w with
  | nil =>
    cases hw
    rfl
  | cons field rest ih =>
    obtain ⟨u, v, hu, hv, rfl⟩ := writeFields_cons_eq_some.mp hw
    have hsub' : ∀ field ∈ rest, field ∈ fields := fun f hf => hsub f (List.mem_cons_of_mem _ hf)
    rw [List.append_assoc]
    -- a field of flags is remembered for the slots after it
    cases field with
    | flags number =>
      have htail := ih hsub' hdeclared (hlocals.update number) hv
      rw [List.map_cons, Field.arg, read, Int.read_append hu, Option.bind_some]
      exact htail
    | of slot =>
      have hmem := hsub (.of slot) List.mem_cons_self
      have htail := ih hsub' hdeclared.2 hlocals hv
      -- a slot finds its flag as the writer set it
      have hset : ∀ flag ∈ slot.flag, locals.test flag = some slot.predicate := by
        intro flag hflag
        refine hlocals.test (hdeclared.1 flag hflag) ?_
        exact ⟨fun hp => ⟨slot, hmem, hflag, hp⟩, hagree slot hmem flag hflag⟩
      have hhead := Slot.read_write hu (fun value hvalue =>
        ((hwritable slot hmem).2 value hvalue).2)
        (h.boxed slot hmem) hset (v ++ s)
      rw [List.map_cons, Field.arg, read, hhead, Option.bind_some]
      dsimp only
      rw [htail]
      rfl

/-- An object that can be written is written. -/
theorem exists_writeFields (h : Admissible objects fields) (hwritable : Writable fields)
    {rest : List (Field ω)} (hsub : ∀ field ∈ rest, field ∈ fields) :
    ∃ w, writeFields objects fields rest = some w := by
  induction rest with
  | nil => exact ⟨[], rfl⟩
  | cons field rest ih =>
    obtain ⟨v, hv⟩ := ih fun f hf => hsub f (List.mem_cons_of_mem _ hf)
    have hu : (field.write objects fields).isSome := by
      cases field with
      | flags number =>
        have hlt := flagsWord_lt number h.index
        refine Int.isSome_encodeSigned.mpr ⟨?_, ?_⟩ <;> (unfold Int.size; omega)
      | of slot =>
        have hmem := hsub (.of slot) List.mem_cons_self
        refine Slot.isSome_write.mpr ⟨(hwritable slot hmem).1, ?_⟩
        intro value hvalue
        exact ⟨h.fits slot hmem value hvalue, ((hwritable slot hmem).2 value hvalue).1⟩
    obtain ⟨u, hu⟩ := Option.isSome_iff_exists.mp hu
    exact ⟨u ++ v, writeFields_cons_eq_some.mpr ⟨u, v, hu, hv, rfl⟩⟩

/-- The arguments of an object that was written. -/
theorem exists_write_of_mem {rest : List (Field ω)} {w : List UInt8}
    (hw : writeFields objects fields rest = some w) (hmem : .of slot ∈ rest) :
    ∃ u, slot.write objects = some u := by
  induction rest generalizing w with
  | nil => cases hmem
  | cons field rest ih =>
    obtain ⟨u, v, hu, hv, -⟩ := writeFields_cons_eq_some.mp hw
    rcases List.mem_cons.mp hmem with rfl | hmem
    · exact ⟨u, hu⟩
    · exact ih hv hmem

/-- The bits are those of what contributes, once the object can be written. -/
theorem bits_of_writeFields {w : List UInt8} (hw : writeFields objects fields fields = some w) :
    (flagsWord flag.number fields).testBit flag.index = true ↔
      ∃ slot, .of slot ∈ fields ∧ slot.flag = some flag ∧ slot.Contributes objects := by
  rw [testBit_flagsWord]
  refine exists_congr fun slot => and_congr_right fun hmem => and_congr_right fun hflag => ?_
  obtain ⟨u, hu⟩ := exists_write_of_mem hw hmem
  exact Slot.predicate_iff_contributes hu hflag

/-- **An object whose arguments agree is read back.** -/
theorem roundTrip_of_agree (id : UInt32) (h : Admissible objects fields) (hagree : Agree fields)
    (hwritable : Writable fields) : RoundTrip objects id fields := by
  obtain ⟨w, hw⟩ := exists_writeFields h hwritable fun _ hf => hf
  refine ⟨⟨w, ?_, ?_⟩, fun flag => bits_of_writeFields hw⟩
  · rw [write, hw]
    rfl
  · intro s
    have hlocals : Holds fields [] fun _ => none := fun _ hnumber => absurd hnumber List.not_mem_nil
    exact read_writeFields h hagree hwritable (fun _ hf => hf) h.declared hlocals hw s

end Pyrogram.Raw.Combinator
