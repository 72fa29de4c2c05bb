import Pyrogram.Raw.Combinator

/-!
# Arguments that share a bit

Where a bit is set for one argument and another that names it is not there, `read` looks
for the other one in the bytes of what follows.  What it finds is no `None`, and no
falsy `true`, so the object is not read back; but it may be an empty vector.  Then eight
bytes too many were read, and some later value has to be read from fewer bytes than it
was written in.

## Main definitions

* `Slot.Misread` — an empty vector whose bit is set by another argument.
* `Slot.Shrinks` — a value that is read from fewer bytes than it is written in.

## Main results

* `Slot.mayShrink_of_shrinks` — only boxed values, texts with replaced parts, and vectors that
  another class reads shrink.
* `roundTrip_iff` — **an object is read back if its arguments agree and can be written,
  and otherwise at most where both of these are found.**
-/

namespace Pyrogram.Raw.Combinator

open LittleEndian

variable {ω : Type} {objects : Objects ω} {fields : List (Field ω)} {slot : Slot ω} {flag : Flag}
  {locals : Locals}

/-- An empty vector whose bit is set by another argument. -/
def Slot.Misread (fields : List (Field ω)) (slot : Slot ω) : Prop :=
  ∃ flag t value, slot = .optionalVector flag t value ∧ slot.predicate = false ∧ IsSet fields flag

/-- The value is also read from fewer bytes than it is written in. -/
def Slot.Shrinks (objects : Objects ω) (slot : Slot ω) : Prop :=
  ∃ (locals : Locals) (b b' w : List UInt8), b' ≠ [] ∧
    slot.shape.read objects locals b = some (slot.normalized, b') ∧
    slot.write objects = some w ∧ b.length < w.length + b'.length

/-- A boxed value, a text with replaced parts, or a vector where another class reads vectors. -/
def Slot.MayShrink (objects : Objects ω) (slot : Slot ω) : Prop :=
  slot.object? ≠ none ∨ (∃ t id b b' xs, objects.readTyped t id b = some (.vector t xs, b')) ∨
    ∃ value ∈ slot.cores, ¬ value.1.Unreplaced value.2

/-! ### How much is read -/

theorem length_times_le {β : Type} {read : Reader β}
    (h : ∀ {b b' v}, read b = some (v, b') → b'.length ≤ b.length) {n : ℕ} {b b' : List UInt8}
    {vs : List β} (hread : Reader.times read n b = some (vs, b')) : b'.length ≤ b.length := by
  induction n generalizing b vs with
  | zero =>
    cases hread
    exact le_rfl
  | succ n ih =>
    obtain ⟨⟨v, b₁⟩, hv, hread⟩ := Option.bind_eq_some_iff.mp hread
    obtain ⟨⟨vs', b₂⟩, hvs, heq⟩ := Option.map_eq_some_iff.mp hread
    obtain rfl : b₂ = b' := (Prod.mk.inj heq).2
    exact (ih hvs).trans (h hv)

/-- The constructor id is read of every vector. -/
theorem length_readVector_le {t : Core} {b b' : List UInt8} {value : Attr ω}
    (h : readVector objects t b = some (value, b')) : b'.length ≤ (b.drop 4).length := by
  unfold readVector readId at h
  dsimp only at h
  split at h
  · cases h
    exact le_rfl
  · split at h
    · cases h
      exact le_rfl
    · split at h
      · obtain ⟨⟨count, b₁⟩, hcount, h⟩ := Option.bind_eq_some_iff.mp h
        obtain ⟨xs, hxs, -⟩ := Reader.map_eq_some.mp h
        obtain ⟨-, rfl⟩ := Prod.mk.inj (Option.some.inj hcount)
        have htimes := length_times_le Core.length_read_le hxs
        rw [List.length_drop] at htimes
        omega
      · exact objects.length_readTyped_le h

/-- Nothing is put back into the stream. -/
theorem Shape.length_read_le {shape : Shape} {b b' : List UInt8} {value : Attr ω}
    (h : shape.read objects locals b = some (value, b')) : b'.length ≤ b.length := by
  have hcore : ∀ {t : Core}, t.read.map (Attr.core t) b = some (value, b') →
      b'.length ≤ b.length := by
    intro t h
    obtain ⟨x, hx, -⟩ := Reader.map_eq_some.mp h
    exact Core.length_read_le hx
  have hvector : ∀ {t : Core}, readVector objects t b = some (value, b') →
      b'.length ≤ b.length := by
    intro t h
    have hle := length_readVector_le h
    rw [List.length_drop] at hle
    omega
  have hboxed : objects.read.map Attr.boxed b = some (value, b') → b'.length ≤ b.length := by
    intro h
    obtain ⟨x, hx, -⟩ := Reader.map_eq_some.mp h
    exact objects.length_read_le hx
  -- where the bit is not set, the stream stays as it is
  have hset : ∀ {flag : Flag} {read : Reader (Attr ω)} {absent : Attr ω},
      ((locals.test flag).bind fun set => if set then read b else some (absent, b)) =
        some (value, b') → (read b = some (value, b') → b'.length ≤ b.length) →
      b'.length ≤ b.length := by
    intro flag read absent h hread
    obtain ⟨set, -, h⟩ := Option.bind_eq_some_iff.mp h
    cases set with
    | false =>
      cases h
      exact le_rfl
    | true => exact hread h
  cases shape with
  | trueFlag flag =>
    obtain ⟨set, -, heq⟩ := Option.map_eq_some_iff.mp h
    cases heq
    exact le_rfl
  | optionalCore flag t => exact hset h hcore
  | optionalVector flag t => exact hset h hvector
  | optionalBoxed flag => exact hset h hboxed
  | core t => exact hcore h
  | vector t => exact hvector h
  | boxed => exact hboxed h

/-- **Only an empty vector is read where nothing was written**, and from bytes that
belong to others. -/
theorem Slot.eq_optionalVector_of_read {b b' : List UInt8} (hflag : slot.flag = some flag)
    (htest : locals.test flag = some true) (hpredicate : slot.predicate = false)
    (hread : slot.shape.read objects locals b = some (slot.normalized, b')) :
    (∃ t value, slot = .optionalVector flag t value) ∧ b'.length ≤ (b.drop 4).length := by
  -- a slot that is not set but read: the value read would have to be no value
  cases slot with
  | trueFlag flag' value =>
    cases hflag
    rw [Slot.shape, Shape.read, htest] at hread
    have hvalue : Attr.true true = (.true (value.getD false) : Attr ω) :=
      (Prod.mk.inj (Option.some.inj hread)).1
    have htrue : value.getD false = true := (Attr.true.inj hvalue).symm
    rw [Slot.predicate, htrue] at hpredicate
    cases hpredicate
  | optionalCore flag' t value =>
    cases hflag
    cases value with
    | some value => cases hpredicate
    | none =>
      rw [Slot.shape, Shape.read, htest] at hread
      obtain ⟨u, -, hu⟩ := Reader.map_eq_some.mp hread
      cases hu
  | optionalVector flag' t value =>
    cases hflag
    rw [Slot.shape, Shape.read, htest] at hread
    exact ⟨⟨t, value, rfl⟩, length_readVector_le hread⟩
  | optionalBoxed flag' value =>
    cases hflag
    cases value with
    | some value => cases hpredicate
    | none =>
      rw [Slot.shape, Shape.read, htest] at hread
      obtain ⟨u, -, hu⟩ := Reader.map_eq_some.mp hread
      cases hu
  | core t value => cases hflag
  | vector t value => cases hflag
  | boxed value => cases hflag

theorem text_of_times {t : Core} {n : ℕ} {b b' : List UInt8} {xs : List t.Value}
    (h : Reader.times t.read n b = some (xs, b')) : ∀ x ∈ xs, t.Text x := by
  induction n generalizing b xs with
  | zero =>
    cases h
    exact fun _ h => absurd h List.not_mem_nil
  | succ n ih =>
    obtain ⟨⟨y, b₁⟩, hy, h⟩ := Option.bind_eq_some_iff.mp h
    obtain ⟨⟨ys, b₂⟩, hys, heq⟩ := Option.map_eq_some_iff.mp h
    cases heq
    exact List.forall_mem_cons.mpr ⟨Core.text_of_read hy, ih hys⟩

/-- Only texts that have a UTF-8 form are read back from what was written of them. -/
theorem Slot.text_of_read {u s b' : List UInt8} (hw : slot.write objects = some u)
    (hset : ∀ flag ∈ slot.flag, locals.test flag = some slot.predicate)
    (hread : slot.shape.read objects locals (u ++ s) = some (slot.normalized, b')) :
    ∀ value ∈ slot.cores, value.1.Text value.2 := by
  -- only the core types have a text to be decoded, alone or in a vector
  have hcore : ∀ {t : Core} {x : t.Value},
      t.read.map (Attr.core t) (u ++ s) = some ((Attr.core t x : Attr ω), b') → t.Text x := by
    intro t x h
    obtain ⟨y, hy, heq⟩ := Reader.map_eq_some.mp h
    cases heq
    exact Core.text_of_read hy
  have hvector : ∀ {t : Core} {xs : List t.Value}, newVector t xs = some u →
      readVector objects t (u ++ s) = some (.vector t xs, b') →
      ∀ value ∈ xs.map (Sigma.mk t), value.1.Text value.2 := by
    intro t xs hu h
    obtain ⟨elements, -, hread⟩ := readVector_newVector hu s
    rw [hread] at h
    obtain ⟨ys, hys, heq⟩ := Reader.map_eq_some.mp h
    cases heq
    exact List.forall_mem_map.mpr (text_of_times hys)
  cases slot with
  | trueFlag flag value => exact fun _ h => absurd h List.not_mem_nil
  | optionalCore flag t value =>
    have htest := hset flag rfl
    cases value with
    | none => exact fun _ h => absurd h List.not_mem_nil
    | some value =>
      rw [Slot.shape, Shape.read, htest] at hread
      exact List.forall_mem_singleton.mpr (hcore hread)
  | optionalVector flag t value =>
    have htest := hset flag rfl
    rw [Slot.shape, Shape.read, htest, Slot.normalized, Slot.predicate] at hread
    rw [Slot.write] at hw
    rw [Slot.cores]
    -- an empty vector is not written, so there is no text in it
    cases hvalue : value.getD [] with
    | nil => exact fun _ h => absurd h List.not_mem_nil
    | cons x xs =>
      rw [hvalue] at hw hread
      exact hvector hw hread
  | optionalBoxed flag value => exact fun _ h => absurd h List.not_mem_nil
  | core t value => exact List.forall_mem_singleton.mpr (hcore hread)
  | vector t value => exact hvector hw hread
  | boxed value => exact fun _ h => absurd h List.not_mem_nil

/-! ### Values that do not shrink -/

theorem length_flatten_le {t : Core} {n : ℕ} {b b' : List UInt8} {xs : List t.Value}
    {ws : List (List UInt8)} (hread : Reader.times t.read n b = some (xs, b')) (hb' : b' ≠ [])
    (hxs : ∀ x ∈ xs, t.Unreplaced x) (hws : xs.mapM t.new = some ws) :
    ws.flatten.length + b'.length ≤ b.length := by
  induction n generalizing b xs ws with
  | zero =>
    cases hread
    cases hws
    exact (Nat.zero_add _).le
  | succ n ih =>
    obtain ⟨⟨x, b₁⟩, hx, hread⟩ := Option.bind_eq_some_iff.mp hread
    obtain ⟨⟨ys, b₂⟩, hys, heq⟩ := Option.map_eq_some_iff.mp hread
    cases heq
    obtain ⟨w, ws', hw, hws', rfl⟩ := mapM_cons_eq_some.mp hws
    obtain ⟨hhead, htail⟩ := List.forall_mem_cons.mp hxs
    have htail := ih hys htail hws'
    have hpos := List.length_pos_iff.mpr hb'
    have hne : b₁ ≠ [] := by
      rintro rfl
      rw [List.length_nil] at htail
      omega
    have hhead := Core.length_new_le hx hne hhead hw
    rw [List.flatten_cons, List.length_append]
    omega

/-- A vector is not read from fewer bytes, unless an object of another class is one. -/
theorem length_newVector_le {t : Core} {b b' w : List UInt8} {xs : List t.Value}
    (htyped : ∀ id b b', objects.readTyped t id b ≠ some (.vector t xs, b'))
    (hread : readVector objects t b = some (.vector t xs, b')) (hb' : b' ≠ [])
    (hxs : ∀ x ∈ xs, t.Unreplaced x) (hw : newVector t xs = some w) :
    w.length + b'.length ≤ b.length := by
  have hpos := List.length_pos_iff.mpr hb'
  obtain ⟨count, elements, hcount, helements, rfl⟩ := newVector_eq_some.mp hw
  unfold readVector readId at hread
  dsimp only at hread
  split at hread
  · cases hread
  · split at hread
    · cases hread
    · split at hread
      · obtain ⟨⟨n, b₁⟩, hn, hread⟩ := Option.bind_eq_some_iff.mp hread
        obtain ⟨ys, hys, heq⟩ := Reader.map_eq_some.mp hread
        cases heq
        obtain ⟨-, rfl⟩ := Prod.mk.inj (Option.some.inj hn)
        have hle := length_flatten_le hys hb' hxs helements
        have hlength : count.length = Int.size := length_encodeSigned hcount
        simp only [List.length_append, length_encode, List.length_drop] at hle ⊢
        omega
      · exact absurd hread (htyped _ _ _)

/-- **Only boxed values, texts with replaced parts, and vectors that another class reads
shrink.** -/
theorem Slot.mayShrink_of_shrinks (h : slot.Shrinks objects) : slot.MayShrink objects := by
  by_contra hnot
  simp only [MayShrink, not_or, not_not, not_exists, not_and] at hnot
  obtain ⟨hboxed, htyped, htext⟩ := hnot
  obtain ⟨locals, b, b', w, hb', hread, hw, hlt⟩ := h
  refine absurd hlt (not_lt.mpr ?_)
  -- what writes nothing does not shrink
  have habsent : w = [] → w.length + b'.length ≤ b.length := by
    rintro rfl
    exact (Nat.zero_add _).trans_le (Shape.length_read_le hread)
  have hcore : ∀ {t : Core} {x : t.Value},
      t.read.map (Attr.core t) b = some ((Attr.core t x : Attr ω), b') →
      t.new x = some w → t.Unreplaced x → w.length + b'.length ≤ b.length := by
    intro t x h hw hx
    obtain ⟨y, hy, heq⟩ := Reader.map_eq_some.mp h
    cases heq
    exact Core.length_new_le hy hb' hx hw
  cases slot with
  | trueFlag flag value => exact habsent (Option.some.inj hw).symm
  | optionalCore flag t value =>
    cases value with
    | none => exact habsent (Option.some.inj hw).symm
    | some value =>
      obtain ⟨set, -, hread⟩ := Option.bind_eq_some_iff.mp hread
      cases set with
      | false => cases hread
      | true => exact hcore hread hw (htext ⟨t, value⟩ List.mem_cons_self)
  | optionalVector flag t value =>
    obtain ⟨set, -, hset⟩ := Option.bind_eq_some_iff.mp hread
    rw [Slot.normalized] at hset
    rw [Slot.write] at hw
    rw [Slot.cores] at htext
    cases hvalue : value.getD [] with
    | nil =>
      rw [hvalue] at hw
      exact habsent (Option.some.inj hw).symm
    | cons x xs =>
      rw [hvalue] at hw hset htext
      cases set with
      | false => cases hset
      | true =>
        exact length_newVector_le (fun id b b' => htyped t id b b' (x :: xs)) hset hb'
          (fun y hy => htext ⟨t, y⟩ (List.mem_map_of_mem hy)) hw
  | optionalBoxed flag value =>
    cases hboxed
    exact habsent (Option.some.inj hw).symm
  | core t value => exact hcore hread hw (htext ⟨t, value⟩ List.mem_cons_self)
  | vector t value =>
    exact length_newVector_le (fun id b b' => htyped t id b b' value) hread hb'
      (fun x hx => htext ⟨t, x⟩ (List.mem_map_of_mem hx)) hw
  | boxed value => cases hboxed

/-! ### Counting the bytes -/

/-- Where no value shrinks, an object is not read from fewer bytes than it is written in,
whatever words its flags fields are read with. -/
theorem length_writeFields_le {rest : List (Field ω)} {b b' w : List UInt8}
    (htight : ∀ slot, .of slot ∈ rest → ¬ slot.Shrinks objects) (hb' : b' ≠ [])
    (hw : writeFields objects fields rest = some w)
    (hread : read objects locals (rest.map Field.arg) b = some (normalized rest, b')) :
    w.length + b'.length ≤ b.length := by
  induction rest generalizing locals b w with
  | nil =>
    cases hw
    cases hread
    exact (Nat.zero_add _).le
  | cons field rest ih =>
    obtain ⟨u, v, hu, hv, rfl⟩ := writeFields_cons_eq_some.mp hw
    have htight' : ∀ slot, .of slot ∈ rest → ¬ slot.Shrinks objects := fun slot hmem =>
      htight slot (List.mem_cons_of_mem _ hmem)
    have hpos := List.length_pos_iff.mpr hb'
    rw [List.length_append]
    cases field with
    | flags number =>
      obtain ⟨⟨word, b₁⟩, hword, hread⟩ := Option.bind_eq_some_iff.mp hread
      have htail := ih htight' hv hread
      obtain ⟨-, rfl⟩ := Prod.mk.inj (Option.some.inj hword)
      have hlength : u.length = Int.size := length_encodeSigned hu
      rw [List.length_drop] at htail
      omega
    | of slot =>
      obtain ⟨⟨value, b₁⟩, hvalue, hread⟩ := Option.bind_eq_some_iff.mp hread
      obtain ⟨⟨values, b₂⟩, hvalues, heq⟩ := Option.map_eq_some_iff.mp hread
      cases heq
      have htail := ih htight' hv hvalues
      have hne : b₁ ≠ [] := by
        rintro rfl
        rw [List.length_nil] at htail
        omega
      have hhead : ¬ b.length < u.length + b₁.length := fun hlt =>
        htight slot List.mem_cons_self ⟨locals, b, b₁, u, hne, hvalue, hu, hlt⟩
      omega

/-- An argument that is read back where its bit is set is there, if what follows it is
not read from fewer bytes. -/
theorem Slot.predicate_of_read {u v b' : List UInt8} (hw : slot.write objects = some u)
    (hflag : slot.flag = some flag) (htest : locals.test flag = some true)
    (hread : slot.shape.read objects locals (u ++ v) = some (slot.normalized, b')) (hv : v ≠ [])
    (hle : ∀ t value, slot = .optionalVector flag t value → slot.predicate = false →
      v.length ≤ b'.length) : slot.predicate = true := by
  by_contra hpredicate
  have hpredicate := Bool.eq_false_of_not_eq_true hpredicate
  obtain ⟨⟨t, value, hvector⟩, hlength⟩ :=
    Slot.eq_optionalVector_of_read hflag htest hpredicate hread
  have hle := hle t value hvector hpredicate
  have hnil : u = [] := by
    by_contra hne
    exact Bool.false_ne_true (hpredicate.symm.trans ((Slot.write_ne_nil_iff hw hflag).mp hne).1)
  -- the constructor id was taken from what follows
  have hpos := List.length_pos_iff.mpr hv
  rw [hnil, List.nil_append, List.length_drop] at hlength
  omega

/-- The arguments of an object that is read back agree, unless a vector is misread and a
value shrinks. -/
theorem predicate_of_read (h : Admissible objects fields)
    (htight : (∀ slot, .of slot ∈ fields → ¬ slot.Shrinks objects) ∨
      ∀ slot, .of slot ∈ fields → ¬ slot.Misread fields)
    {rest : List (Field ω)} {numbers : List (Option (Fin 10))} {w s : List UInt8} (hs : s ≠ [])
    (hsub : ∀ field ∈ rest, field ∈ fields) (hdeclared : Declared numbers rest)
    (hlocals : Holds fields numbers locals) (hw : writeFields objects fields rest = some w)
    (hread : read objects locals (rest.map Field.arg) (w ++ s) = some (normalized rest, s)) :
    ∀ slot, .of slot ∈ rest → (∀ flag ∈ slot.flag, IsSet fields flag → slot.predicate = true) ∧
      ∀ value ∈ slot.cores, value.1.Text value.2 := by
  induction rest generalizing numbers locals w with
  | nil => exact fun _ h => absurd h List.not_mem_nil
  | cons field rest ih =>
    obtain ⟨u, v, hu, hv, rfl⟩ := writeFields_cons_eq_some.mp hw
    have hsub' : ∀ field ∈ rest, field ∈ fields := fun f hf => hsub f (List.mem_cons_of_mem _ hf)
    rw [List.append_assoc] at hread
    cases field with
    | flags number =>
      rw [List.map_cons, Field.arg, read, Int.read_append hu, Option.bind_some] at hread
      have htail := ih hsub' hdeclared (hlocals.update number) hv hread
      intro slot hmem
      exact htail slot ((List.mem_cons.mp hmem).resolve_left (by rintro ⟨⟩))
    | of slot =>
      have hu : slot.write objects = some u := hu
      have hmem := hsub (.of slot) List.mem_cons_self
      obtain ⟨⟨value, b₁⟩, hvalue, hread⟩ := Option.bind_eq_some_iff.mp hread
      obtain ⟨⟨values, b₂⟩, hvalues, heq⟩ := Option.map_eq_some_iff.mp hread
      obtain rfl : s = b₂ := (Prod.mk.inj heq).2.symm
      obtain ⟨rfl, rfl⟩ := List.cons.inj (Prod.mk.inj heq).1
      have hagree : ∀ flag ∈ slot.flag, IsSet fields flag → slot.predicate = true := by
        intro flag hflag hset
        have htest : locals.test flag = some true :=
          hlocals.test (hdeclared.1 flag hflag) (iff_of_true rfl hset)
        have hne : v ++ s ≠ [] := List.append_ne_nil_of_right_ne_nil v hs
        refine Slot.predicate_of_read hu hflag htest hvalue hne ?_
        intro t xs hvector hpredicate
        rcases htight with htight | hnone
        · rw [List.length_append]
          exact length_writeFields_le (fun slot hmem => htight slot (hsub' _ hmem)) hs hv hvalues
        · exact absurd ⟨flag, t, xs, hvector, hpredicate, hset⟩ (hnone slot hmem)
      have hset : ∀ flag ∈ slot.flag, locals.test flag = some slot.predicate := by
        intro flag hflag
        refine hlocals.test (hdeclared.1 flag hflag) ?_
        exact ⟨fun hp => ⟨slot, hmem, hflag, hp⟩, hagree flag hflag⟩
      have htext := Slot.text_of_read hu hset hvalue
      -- so the argument was read from its own bytes, and the rest from the rest
      have hhead := Slot.read_write hu htext (h.boxed slot hmem) hset (v ++ s)
      obtain rfl : v ++ s = b₁ := (Prod.mk.inj (Option.some.inj (hhead.symm.trans hvalue))).2
      have htail := ih hsub' hdeclared.2 hlocals hv hvalues
      intro slot' hmem'
      rcases List.mem_cons.mp hmem' with heq | hmem'
      · obtain rfl := Field.of.inj heq
        exact ⟨hagree, htext⟩
      · exact htail slot' hmem'

/-- **An object is read back if its arguments agree and it can be written.**  Otherwise
it is read back only where an empty vector is misread and some value, of the few kinds that
can, is read from fewer bytes than it was written in. -/
theorem roundTrip_iff (objects : Objects ω) (id : UInt32) (fields : List (Field ω))
    (h : Admissible objects fields) :
    (Agree fields ∧ Writable fields → RoundTrip objects id fields) ∧
      (RoundTrip objects id fields → Agree fields ∧ Writable fields ∨
        (∃ slot, .of slot ∈ fields ∧ slot.Misread fields) ∧
          ∃ slot, .of slot ∈ fields ∧ slot.Shrinks objects ∧ slot.MayShrink objects) := by
  refine ⟨fun hholds => roundTrip_of_agree id h hholds.1 hholds.2, ?_⟩
  intro hround
  obtain ⟨w', hwrite, hread⟩ := hround.body
  obtain ⟨w, hw, hww⟩ := Option.map_eq_some_iff.mp hwrite
  obtain rfl : w = w' := List.append_cancel_left hww
  refine or_iff_not_imp_right.mpr ?_
  intro hmisread
  have htight : (∀ slot, .of slot ∈ fields → ¬ slot.Shrinks objects) ∨
      ∀ slot, .of slot ∈ fields → ¬ slot.Misread fields := by
    by_cases hshrinks : ∃ slot, .of slot ∈ fields ∧ slot.Shrinks objects
    · obtain ⟨slot, hslot, hshrinks⟩ := hshrinks
      exact .inr fun slot' hmem hm =>
        hmisread ⟨⟨slot', hmem, hm⟩, slot, hslot, hshrinks, Slot.mayShrink_of_shrinks hshrinks⟩
    · exact .inl fun slot hmem hs => hshrinks ⟨slot, hmem, hs⟩
  have hlocals : Holds fields [] fun _ => none := fun _ hnumber => absurd hnumber List.not_mem_nil
  have hall := predicate_of_read h htight (List.cons_ne_nil 0 []) (fun _ hf => hf)
    h.declared hlocals
    hw (hread [0])
  refine ⟨fun slot hmem => (hall slot hmem).1, ?_⟩
  intro slot hmem
  obtain ⟨u, hu⟩ := exists_write_of_mem hw hmem
  obtain ⟨hcount, hcores⟩ := Slot.isSome_write.mp (Option.isSome_of_eq_some hu)
  exact ⟨hcount, fun value hvalue => ⟨(hcores value hvalue).2, (hall slot hmem).2 value hvalue⟩⟩

/-! ### Two objects -/

/-- `inputPeerSelf`, a class without arguments, and no other one. -/
def inputPeerSelf : Objects Unit where
  write _ := encode 4 0x7DA07EC9
  read b := if (readId b).1 = 0x7DA07EC9 then some ((), (readId b).2) else none
  readTyped _ id b := if id = 0x7DA07EC9 then some (.boxed (), b) else none
  write_ne_nil _ := List.ne_nil_of_length_eq_add_one (length_encode ..)
  length_read_le := by
    intro b b' value h
    split at h
    · cases h
      exact (List.length_drop.trans_le (Nat.sub_le ..))
    · cases h
  length_readTyped_le := by
    intro t id b b' value h
    split at h
    · cases h
      exact le_rfl
    · cases h

/-- `premium.applyBoost` with two slots. -/
def applyBoost : List (Field Unit) :=
  [.flags none, .of (.optionalVector ⟨none, 0⟩ .int (some [(1 : ℤ), (2 : ℤ)])), .of (.boxed ())]

theorem forall_applyBoost {P : Slot Unit → Prop}
    (hslots : P (.optionalVector ⟨none, 0⟩ .int (some [(1 : ℤ), (2 : ℤ)])))
    (hpeer : P (.boxed ())) :
    ∀ slot, .of slot ∈ applyBoost → P slot := by
  intro slot hmem
  simp only [applyBoost, List.mem_cons, Field.of.injEq, reduceCtorEq, false_or, List.not_mem_nil,
    or_false] at hmem
  rcases hmem with rfl | rfl
  · exact hslots
  · exact hpeer

theorem applyBoost_roundTrip : RoundTrip inputPeerSelf 0x6B7DA746 applyBoost := by
  have hadmissible : Admissible inputPeerSelf applyBoost := by
    refine ⟨?_, forall_applyBoost ?_ ?_, forall_applyBoost ?_ ?_, forall_applyBoost ?_ ?_⟩
    · refine ⟨?_, ?_, trivial⟩
      · rintro flag ⟨⟩
        exact List.mem_cons_self
      · rintro flag ⟨⟩
    · rintro flag ⟨⟩
      decide
    · rintro flag ⟨⟩
    · have hfits : ∀ x ∈ [(1 : ℤ), (2 : ℤ)], Core.int.Fits x := by
        change ∀ x ∈ [(1 : ℤ), (2 : ℤ)], -256 ^ 4 ≤ 2 * x ∧ 2 * x < 256 ^ 4
        decide
      exact List.forall_mem_map.mpr hfits
    · exact fun _ h => absurd h List.not_mem_nil
    · rintro value ⟨⟩
    · rintro value ⟨⟩ rest
      have hid : readId (encode 4 0x7DA07EC9 ++ rest) = (0x7DA07EC9, rest) :=
        readId_append (by decide) rest
      have hread : ∀ b, inputPeerSelf.read b =
          if (readId b).1 = 0x7DA07EC9 then some ((), (readId b).2) else none := fun _ => rfl
      have hwrite : inputPeerSelf.write () = encode 4 0x7DA07EC9 := rfl
      rw [hread, hwrite, hid]
      exact if_pos rfl
  refine (roundTrip_iff inputPeerSelf 0x6B7DA746 applyBoost hadmissible).1 ⟨?_, ?_⟩
  · exact forall_applyBoost (fun _ _ _ => rfl) (by rintro flag ⟨⟩)
  · refine forall_applyBoost ⟨by decide, ?_⟩ ⟨by decide, fun _ h => absurd h List.not_mem_nil⟩
    exact List.forall_mem_map.mpr fun _ _ => ⟨trivial, trivial⟩

/-- The tips of an `invoice`: the largest one that is accepted, and no suggested ones. -/
def tips : List (Field Unit) :=
  [.flags none, .of (.optionalCore ⟨none, 8⟩ .long (some (500 : ℤ))),
    .of (.optionalVector ⟨none, 8⟩ .long (some []))]

theorem tips_not_roundTrip :
    Admissible inputPeerSelf tips ∧ ¬ RoundTrip inputPeerSelf 0x49EE584 tips := by
  -- two slots share the flag: one that is set, and an empty vector
  have hslots : ∀ {P : Slot Unit → Prop}, P (.optionalCore ⟨none, 8⟩ .long (some (500 : ℤ))) →
      P (.optionalVector ⟨none, 8⟩ .long (some [])) → ∀ slot, .of slot ∈ tips → P slot := by
    intro P hlargest hsuggested slot hmem
    simp only [tips, List.mem_cons, Field.of.injEq, reduceCtorEq, false_or, List.not_mem_nil,
      or_false] at hmem
    rcases hmem with rfl | rfl
    · exact hlargest
    · exact hsuggested
  constructor
  · refine ⟨?_, hslots ?_ ?_, hslots ?_ ?_, hslots ?_ ?_⟩
    -- every clause of the admissible fields holds
    · refine ⟨?_, ?_, trivial⟩
      · rintro flag ⟨⟩
        exact List.mem_cons_self
      · rintro flag ⟨⟩
        exact List.mem_cons_self
    · rintro flag ⟨⟩
      decide
    · rintro flag ⟨⟩
      decide
    · have hfits : Core.long.Fits (500 : ℤ) := by
        change -256 ^ 8 ≤ 2 * (500 : ℤ) ∧ 2 * (500 : ℤ) < 256 ^ 8
        decide
      exact List.forall_mem_singleton.mpr hfits
    · exact fun _ h => absurd h List.not_mem_nil
    · rintro value ⟨⟩
    · rintro value ⟨⟩
  -- the vector is read where none was written, and the body ends there
  · intro hround
    obtain ⟨w, hwrite, hread⟩ := hround.body
    have hbody : write inputPeerSelf 0x49EE584 tips =
        some (encode 4 (0x49EE584 : UInt32).toNat ++ [0, 1, 0, 0, 0xF4, 1, 0, 0, 0, 0, 0, 0]) := by
      decide
    obtain rfl := List.append_cancel_left (Option.some.inj (hbody.symm.trans hwrite))
    have hnone : read inputPeerSelf (fun _ => none) (tips.map Field.arg)
        ([0, 1, 0, 0, 0xF4, 1, 0, 0, 0, 0, 0, 0] ++ []) = none := by
      rfl
    exact Option.some_ne_none _ ((hread []).symm.trans hnone)

end Pyrogram.Raw.Combinator
