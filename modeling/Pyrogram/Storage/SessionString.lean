import Pyrogram.Base64Url
import Pyrogram.LittleEndian
import Pyrogram.Storage.Migration

/-!
# Session strings

A session is exported as a text, and opened from it in memory.  There are two older formats; which
one a text has is told by its length.

## Main definitions

* `Field`, `pack`, `unpack` — the fields of a format of `struct`.
* `exportSessionString`, `openInMemory` — writing and reading a session string.

## Main results

* `openInMemory_export` — **an exported session is opened as it was**, and exporting it again gives
  the same text.
* `openInMemory_exported_again` — a session that was opened from any format is exported and opened
  again as it is.
-/

namespace Pyrogram.SQLiteStorage

open LittleEndian

/-! ### The formats -/

/-- `B`, `I` and `Q`; `?`; `s`. -/
inductive Field
  | unsigned (size : ℕ)
  | flag
  | bytes (size : ℕ)
  deriving DecidableEq, Repr

namespace Field

def size : Field → ℕ
  | unsigned size | bytes size => size
  | flag => 1

/-- The bytes of a value; `none` where `struct.error` is raised. -/
def pack : Field → Value → Option (List UInt8)
  | unsigned size, .integer n =>
      if 0 ≤ n ∧ n < 256 ^ size then some (encode size n.toNat).reverse else none
  | flag, value => some [if value.truthy then 1 else 0]
  | bytes size, .blob b => some (b.take size ++ List.replicate (size - b.length) 0)
  | unsigned _, _ | bytes _, _ => none

/-- The value of as many bytes as the field has; the truth values are stored as numbers. -/
def unpack : Field → List UInt8 → Value
  | unsigned _, bs => .integer (decode bs.reverse)
  | flag, bs => .integer (if bs = [0] then 0 else 1)
  | bytes _, bs => .blob bs

/-- What is left of a value. -/
def fit : Field → Value → Value
  | flag, value => .integer (if value.truthy then 1 else 0)
  | bytes size, .blob b => .blob (b.take size ++ List.replicate (size - b.length) 0)
  | unsigned _, value | bytes _, value => value

variable {field : Field} {value : Value} {w : List UInt8}

theorem length_pack (h : field.pack value = some w) : w.length = field.size := by
  cases field with
  | flag =>
    obtain rfl := Option.some.inj h
    rfl
  | unsigned size =>
    cases value with
    | integer n =>
      rw [pack] at h
      split at h
      · obtain rfl := Option.some.inj h
        rw [List.length_reverse, length_encode, Field.size]
      · cases h
    | null | text _ | blob _ => cases h
  | bytes size =>
    cases value with
    | blob b =>
      obtain rfl := Option.some.inj h
      rw [List.length_append, List.length_take, List.length_replicate, Field.size]
      omega
    | null | text _ | integer _ => cases h

/-- A field is read as it was written. -/
theorem unpack_of_pack (h : field.pack value = some w) : field.unpack w = field.fit value := by
  cases field with
  | flag =>
    obtain rfl := Option.some.inj h
    cases htruthy : value.truthy <;> simp [unpack, fit, htruthy]
  | unsigned size =>
    cases value with
    | integer n =>
      rw [pack] at h
      split at h
      · next hn =>
        obtain rfl := Option.some.inj h
        have hlt : n.toNat < 256 ^ size := by
          rw [← Int.ofNat_lt, Int.toNat_of_nonneg hn.1]
          exact_mod_cast hn.2
        rw [unpack, List.reverse_reverse, decode_encode hlt, Int.toNat_of_nonneg hn.1, fit]
      · cases h
    | null | text _ | blob _ => cases h
  | bytes size =>
    cases value with
    | blob b =>
      obtain rfl := Option.some.inj h
      rfl
    | null | text _ | integer _ => cases h

theorem isSome_pack_unsigned {size : ℕ} :
    ((unsigned size).pack value).isSome ↔ ∃ n, value = .integer n ∧ 0 ≤ n ∧ n < 256 ^ size := by
  cases value with
  | integer n =>
    rw [pack]
    split
    · next hn => exact iff_of_true rfl ⟨n, rfl, hn⟩
    · next hn =>
      refine iff_of_false Bool.false_ne_true ?_
      rintro ⟨_, ⟨⟩, h⟩
      exact hn h
  | null | text _ | blob _ => simp [pack]

theorem isSome_pack_bytes {size : ℕ} : ((bytes size).pack value).isSome ↔ ∃ b, value = .blob b := by
  cases value <;> simp [pack]

/-- What is read can be written. -/
theorem isSome_pack_unpack (h : w.length = field.size) : (field.pack (field.unpack w)).isSome := by
  cases field with
  | flag => rfl
  | bytes size => rfl
  | unsigned size =>
    have hlt := decode_lt w.reverse
    rw [List.length_reverse, h] at hlt
    exact isSome_pack_unsigned.mpr ⟨_, rfl, Int.natCast_nonneg _, by exact_mod_cast hlt⟩

/-- Nothing is left out of what is read. -/
theorem fit_unpack (h : w.length = field.size) : field.fit (field.unpack w) = field.unpack w := by
  cases field with
  | unsigned size => rfl
  | bytes size =>
    rw [Field.size] at h
    rw [unpack, fit, List.take_of_length_le h.le, h, Nat.sub_self, List.replicate_zero,
      List.append_nil]
  | flag =>
    by_cases hw : w = [0]
    · simp [unpack, fit, hw, Value.truthy]
    · simp [unpack, fit, hw, Value.truthy]

/-- What is left of a value is written as the value is. -/
theorem pack_fit (field : Field) (value : Value) :
    field.pack (field.fit value) = field.pack value := by
  cases field with
  | flag => simp [pack, fit, Value.truthy]
  | unsigned size => rfl
  | bytes size =>
    cases value with
    | blob b =>
      have hlength : (b.take size ++ List.replicate (size - b.length) (0 : UInt8)).length =
          size := by
        rw [List.length_append, List.length_take, List.length_replicate]
        omega
      rw [fit, pack, pack, List.take_of_length_le hlength.le, hlength, Nat.sub_self,
        List.replicate_zero, List.append_nil]
    | null | text _ | integer _ => rfl

end Field

abbrev Format := List Field

def OLD_SESSION_STRING_FORMAT : Format := [.unsigned 1, .flag, .bytes 256, .unsigned 4, .flag]

def OLD_SESSION_STRING_FORMAT_64 : Format := [.unsigned 1, .flag, .bytes 256, .unsigned 8, .flag]

def SESSION_STRING_SIZE : ℕ := 351

def SESSION_STRING_SIZE_64 : ℕ := 356

def SESSION_STRING_FORMAT : Format :=
  [.unsigned 1, .unsigned 4, .flag, .bytes 256, .unsigned 8, .flag]

/-- `struct.pack` -/
def pack : Format → List Value → Option (List UInt8)
  | [], [] => some []
  | field :: fields, value :: values => do
      let w ← field.pack value
      let rest ← pack fields values
      return w ++ rest
  | _, _ => none

/-- `struct.unpack` -/
def unpack : Format → List UInt8 → Option (List Value)
  | [], bs => if bs = [] then some [] else none
  | field :: fields, bs =>
      if bs.length < field.size then none
      else (unpack fields (bs.drop field.size)).map (field.unpack (bs.take field.size) :: ·)

variable {fields : Format} {values : List Value} {w : List UInt8}

theorem length_pack (h : pack fields values = some w) : w.length = (fields.map Field.size).sum := by
  induction fields, values using pack.induct generalizing w with
  | case1 =>
    obtain rfl := Option.some.inj h
    rfl
  | case2 field fields value values ih =>
    simp only [pack, Option.bind_eq_bind, Option.bind_eq_some_iff, Option.pure_def,
      Option.some.injEq] at h
    obtain ⟨u, hu, v, hv, rfl⟩ := h
    rw [List.length_append, Field.length_pack hu, ih hv, List.map_cons, List.sum_cons]
  | case3 fields values hnil hcons =>
    rw [pack] at h
    · cases h
    · exact hnil
    · exact hcons

/-- **Fields are read as they were written.** -/
theorem unpack_of_pack (h : pack fields values = some w) :
    unpack fields w = some (List.zipWith Field.fit fields values) := by
  induction fields, values using pack.induct generalizing w with
  | case1 =>
    obtain rfl := Option.some.inj h
    rfl
  | case2 field fields value values ih =>
    simp only [pack, Option.bind_eq_bind, Option.bind_eq_some_iff, Option.pure_def,
      Option.some.injEq] at h
    obtain ⟨u, hu, v, hv, rfl⟩ := h
    have hlength := Field.length_pack hu
    have hle : ¬(u ++ v).length < field.size := by
      rw [List.length_append, hlength]
      omega
    rw [unpack, if_neg hle, List.drop_left' hlength, List.take_left' hlength, ih hv,
      Field.unpack_of_pack hu]
    rfl
  | case3 fields values hnil hcons =>
    rw [pack] at h
    · cases h
    · exact hnil
    · exact hcons

/-- What is left of the values is written as they are. -/
theorem pack_fit (h : fields.length = values.length) :
    pack fields (List.zipWith Field.fit fields values) = pack fields values := by
  induction fields generalizing values with
  | nil =>
    obtain rfl := List.length_eq_zero_iff.mp h.symm
    rfl
  | cons field fields ih =>
    cases values with
    | nil => cases h
    | cons value values =>
      rw [List.zipWith_cons_cons, pack, pack, Field.pack_fit, ih (Nat.succ.inj h)]

theorem isSome_pack : (pack fields values).isSome ↔
    List.Forall₂ (fun field value => (field.pack value).isSome) fields values := by
  induction fields, values using pack.induct with
  | case1 => exact iff_of_true rfl .nil
  | case2 field fields value values ih =>
    rw [List.forall₂_cons, ← ih, pack]
    cases field.pack value with
    | none => simp
    | some u => cases pack fields values <;> simp
  | case3 fields values hnil hcons =>
    refine iff_of_false ?_ ?_
    · rw [pack]
      · exact Bool.false_ne_true
      · exact hnil
      · exact hcons
    · intro h
      cases h with
      | nil => exact hnil rfl rfl
      | cons hfirst hrest => exact hcons _ _ _ _ rfl rfl

theorem of_unpack {bs : List UInt8} (h : unpack fields bs = some values) :
    List.Forall₂ (fun field value => ∃ w, w.length = field.size ∧ value = field.unpack w) fields
      values := by
  induction fields generalizing bs values with
  | nil =>
    rw [unpack] at h
    split at h
    · obtain rfl := Option.some.inj h
      exact .nil
    · cases h
  | cons field fields ih =>
    rw [unpack] at h
    split at h
    · cases h
    · next hle =>
      obtain ⟨rest, hrest, rfl⟩ := Option.map_eq_some_iff.mp h
      exact .cons ⟨_, List.length_take_of_le (not_lt.mp hle), rfl⟩ (ih hrest)

/-! ### Opening and exporting -/

/-- The text of packed values. -/
def sessionString (format : Format) (values : List Value) : Option (List Utf8.CodePoint) :=
  (pack format values).map Base64.urlEncode

/-- `export_session_string`; `none` where it raises. -/
def exportSessionString (db : Database) : Option (List Utf8.CodePoint) :=
  sessionString SESSION_STRING_FORMAT
    [db.session .dcId, db.session .apiId, db.session .testMode, db.session .authKey,
      db.session .userId, db.session .isBot]

/-- What SQLite can store. -/
def Value.Storable : Value → Prop
  | .integer n => -2 ^ 63 ≤ n ∧ n < 2 ^ 63
  | _ => True

instance : DecidablePred Value.Storable := fun value => by
  cases value <;> unfold Value.Storable <;> infer_instance

/-- `_set`, of a column of `sessions`; `none` where it raises `OverflowError`. -/
def setColumn (column : Column) (value : Value) (db : Database) : Option Database :=
  if value.Storable then some { db with session := Function.update db.session column value }
    else none

/-- Columns set one after the other. -/
def setColumns : List (Column × Value) → Database → Option Database
  | [], db => some db
  | (column, value) :: rest, db => setColumn column value db >>= setColumns rest

/-- The values of the older formats. -/
def restoreOld : List Value → Option Database
  | [dcId, testMode, authKey, userId, isBot] => do
      let (address, port) ← getDcEndpoint dcId testMode.truthy
      setColumns [(.dcId, dcId), (.serverAddress, .text address), (.port, .integer port),
        (.testMode, testMode),
        (.authKey, authKey), (.userId, userId), (.isBot, isBot), (.date, .integer 0)] create
  | _ => none

/-- The values of the current format. -/
def restore : List Value → Option Database
  | [dcId, apiId, testMode, authKey, userId, isBot] => do
      let (address, port) ← getDcEndpoint dcId testMode.truthy
      setColumns [(.dcId, dcId), (.serverAddress, .text address), (.port, .integer port),
        (.apiId, apiId),
        (.testMode, testMode), (.authKey, authKey), (.userId, userId), (.isBot, isBot),
          (.date, .integer 0)] create
  | _ => none

/-- A session string of one of the older formats. -/
abbrev IsOld (s : List Utf8.CodePoint) : Prop := s.length = SESSION_STRING_SIZE ∨
    s.length = SESSION_STRING_SIZE_64

/-- The `open` of a storage in memory; `none` where it raises. -/
def openInMemory : Option (List Utf8.CodePoint) → Option Database
  | none | some [] => some create
  | some s => do
      let bs ← Base64.urlDecode s
      if IsOld s then
        unpack (if s.length = SESSION_STRING_SIZE then OLD_SESSION_STRING_FORMAT
          else OLD_SESSION_STRING_FORMAT_64) bs
          >>= restoreOld
      else unpack SESSION_STRING_FORMAT bs >>= restore

/-! ### An exported session -/

/-- What is left of a session that is opened from a session string. -/
def Database.restored (db : Database) (address : String) (port : ℤ) : Database where
  schema := SCHEMA
  session
    | .dcId => db.session .dcId
    | .serverAddress => .text address
    | .port => .integer port
    | .apiId => db.session .apiId
    | .testMode => Field.flag.fit (db.session .testMode)
    | .authKey => (Field.bytes 256).fit (db.session .authKey)
    | .date => .integer 0
    | .userId => db.session .userId
    | .isBot => Field.flag.fit (db.session .isBot)
    | _ => .null
  version := currentVersion

/-- A session whose values a session string has room for. -/
structure Database.Portable (db : Database) : Prop where
  dcId : ∃ n, db.session .dcId = .integer n ∧ 0 ≤ n ∧ n < 2 ^ 8
  apiId : ∃ n, db.session .apiId = .integer n ∧ 0 ≤ n ∧ n < 2 ^ 32
  authKey : ∃ b, db.session .authKey = .blob b
  userId : ∃ n, db.session .userId = .integer n ∧ 0 ≤ n ∧ n < 2 ^ 63

/-- The values that are exported. -/
def Database.exported (db : Database) : List Value :=
  [db.session .dcId, db.session .apiId, db.session .testMode, db.session .authKey,
    db.session .userId, db.session .isBot]

theorem setColumns_of_storable {columns : List (Column × Value)} (h : ∀ c ∈ columns, c.2.Storable)
    (db : Database) :
    setColumns columns db =
      some { db with
        session := columns.foldl (fun session c => Function.update session c.1 c.2)
          db.session } := by
  induction columns generalizing db with
  | nil => rfl
  | cons c columns ih =>
    rw [List.forall_mem_cons] at h
    rw [setColumns, setColumn, if_pos h.1]
    exact ih h.2 _

theorem setColumns_of_not_storable {columns : List (Column × Value)} {c : Column × Value}
    (hc : c ∈ columns)
    (h : ¬c.2.Storable) (db : Database) : setColumns columns db = none := by
  induction columns generalizing db with
  | nil => cases hc
  | cons c' columns ih =>
    rw [setColumns, setColumn]
    rcases List.mem_cons.mp hc with rfl | hc
    · rw [if_neg h]
      rfl
    · split
      · exact ih hc _
      · rfl

theorem truthy_fit (value : Value) : (Field.flag.fit value).truthy = value.truthy := by
  cases htruthy : value.truthy with
  | false => rw [Field.fit, htruthy]; rfl
  | true => rw [Field.fit, htruthy]; rfl

theorem storable_of_unsigned {n : ℤ} (h : 0 ≤ n) (hlt : n < 2 ^ 63) :
    (Value.integer n).Storable := by
  refine ⟨?_, hlt⟩
  have hneg : (-2 ^ 63 : ℤ) ≤ 0 := by norm_num
  exact hneg.trans h

theorem storable_flag (value : Value) : (Field.flag.fit value).Storable := by
  cases htruthy : value.truthy <;> simp [Field.fit, htruthy, Value.Storable]

theorem length_sessionString {w : List UInt8} (h : pack SESSION_STRING_FORMAT values = some w) :
    (Base64.urlEncode w).length = 362 := by
  rw [Base64.length_urlEncode, length_pack h]
  rfl

theorem openInMemory_of_ne_nil {s : List Utf8.CodePoint} (hs : s ≠ []) : openInMemory (some s) =
    (Base64.urlDecode s).bind fun bs => if IsOld s then
      unpack (if s.length = SESSION_STRING_SIZE then OLD_SESSION_STRING_FORMAT
        else OLD_SESSION_STRING_FORMAT_64) bs
        >>= restoreOld
    else unpack SESSION_STRING_FORMAT bs >>= restore := by
  cases s with
  | nil => exact absurd rfl hs
  | cons ch s => rfl

/-- What is made of a text of the current format. -/
theorem openInMemory_of_pack {db : Database} {w : List UInt8}
    (h : pack SESSION_STRING_FORMAT db.exported = some w) :
    openInMemory (some (Base64.urlEncode w)) = db.endpoint.bind fun e =>
      setColumns [(.dcId, db.session .dcId), (.serverAddress, .text e.1), (.port, .integer e.2),
        (.apiId, db.session .apiId), (.testMode, Field.flag.fit (db.session .testMode)),
        (.authKey, (Field.bytes 256).fit (db.session .authKey)), (.userId, db.session .userId),
        (.isBot, Field.flag.fit (db.session .isBot)), (.date, .integer 0)] create := by
  have hlength := length_sessionString h
  have hne : Base64.urlEncode w ≠ [] := by
    intro hnil
    rw [hnil] at hlength
    cases hlength
  have hnot : ¬IsOld (Base64.urlEncode w) := by
    unfold IsOld
    rw [hlength]
    decide
  rw [openInMemory_of_ne_nil hne, Base64.urlDecode_urlEncode, Option.bind_some, if_neg hnot,
    unpack_of_pack h]
  change (getDcEndpoint (db.session .dcId) (Field.flag.fit (db.session .testMode)).truthy).bind _ =
    _
  rw [truthy_fit]
  rfl

/-- When a session is exported. -/
theorem isSome_pack_exported (db : Database) : (pack SESSION_STRING_FORMAT db.exported).isSome ↔
    (∃ n, db.session .dcId = .integer n ∧ 0 ≤ n ∧ n < 256 ^ 1) ∧
      (∃ n, db.session .apiId = .integer n ∧ 0 ≤ n ∧ n < 256 ^ 4) ∧
      (∃ b, db.session .authKey = .blob b) ∧ ∃ n, db.session .userId = .integer n ∧ 0 ≤ n ∧
        n < 256 ^ 8 := by
  rw [isSome_pack, SESSION_STRING_FORMAT, Database.exported]
  simp only [List.forall₂_cons, Field.isSome_pack_unsigned, Field.isSome_pack_bytes,
    List.forall₂_nil_right_iff, and_true]
  constructor
  · rintro ⟨hdc, hapi, -, hkey, huser, -⟩
    exact ⟨hdc, hapi, hkey, huser⟩
  · rintro ⟨hdc, hapi, hkey, huser⟩
    exact ⟨hdc, hapi, rfl, hkey, huser, rfl⟩

theorem Database.Portable.isSome {db : Database} (h : db.Portable) :
    (pack SESSION_STRING_FORMAT db.exported).isSome := by
  obtain ⟨n, hn, hpos, hlt⟩ := h.userId
  refine (isSome_pack_exported db).mpr ⟨h.dcId, h.apiId, h.authKey, n, hn, hpos, hlt.trans ?_⟩
  norm_num

/-- The values of an opened session are stored, unless the user's id is too large. -/
theorem setColumns_restored {db : Database} (h : db.Portable) (address : String) {port : ℤ}
    (hport : (Value.integer port).Storable) :
    setColumns [(.dcId, db.session .dcId), (.serverAddress, .text address), (.port, .integer port),
        (.apiId, db.session .apiId), (.testMode, Field.flag.fit (db.session .testMode)),
        (.authKey, (Field.bytes 256).fit (db.session .authKey)), (.userId, db.session .userId),
        (.isBot, Field.flag.fit (db.session .isBot)), (.date, .integer 0)] create =
          some (db.restored address port) := by
  -- what the columns of a portable storage hold
  obtain ⟨dcId, hdc, hdcPos, hdcLt⟩ := h.dcId
  obtain ⟨apiId, hapi, hapiPos, hapiLt⟩ := h.apiId
  obtain ⟨key, hkey⟩ := h.authKey
  obtain ⟨userId, huser, huserPos, huserLt⟩ := h.userId
  rw [setColumns_of_storable]
  · congr 1
    unfold Database.restored create
    congr 1
    funext column
    cases column <;> rfl
  -- each of these values may be stored
  · have hdcStorable : (db.session .dcId).Storable := by
      rw [hdc]
      exact storable_of_unsigned hdcPos (hdcLt.trans (by norm_num))
    have hapiStorable : (db.session .apiId).Storable := by
      rw [hapi]
      exact storable_of_unsigned hapiPos (hapiLt.trans (by norm_num))
    have hkeyStorable : ((Field.bytes 256).fit (db.session .authKey)).Storable := by
      rw [hkey]
      trivial
    have huserStorable : (db.session .userId).Storable := by
      rw [huser]
      exact storable_of_unsigned huserPos huserLt
    simp only [List.forall_mem_cons]
    exact ⟨hdcStorable, trivial, hport, hapiStorable, storable_flag _, hkeyStorable, huserStorable,
      storable_flag _, by decide, nofun⟩

/-- The ports of the endpoints. -/
theorem storable_port {db : Database} {address : String} {port : ℤ}
    (h : db.endpoint = some (address, port)) :
    (Value.integer port).Storable := by
  unfold Database.endpoint getDcEndpoint at h
  split at h
  · split at h <;> obtain ⟨_, -, hport⟩ := Option.map_eq_some_iff.mp h <;> obtain ⟨-, rfl⟩ :=
      Prod.mk.inj hport <;> decide
  · cases h

/-- **A session is opened as it was exported** exactly when a session string has room for its values
and its data center is known. -/
theorem bind_openInMemory_iff (db db' : Database) :
    (exportSessionString db).bind (fun s => openInMemory (some s)) = some db' ↔
      db.Portable ∧ ∃ address port, db.endpoint = some (address, port) ∧
        db' = db.restored address port := by
  have hexport : exportSessionString db =
      (pack SESSION_STRING_FORMAT db.exported).map Base64.urlEncode := rfl
  constructor
  · intro h
    obtain ⟨s, hs, hopen⟩ := Option.bind_eq_some_iff.mp h
    obtain ⟨w, hw, rfl⟩ := Option.map_eq_some_iff.mp (hexport ▸ hs)
    rw [openInMemory_of_pack hw] at hopen
    obtain ⟨⟨address, port⟩, hendpoint, hset⟩ := Option.bind_eq_some_iff.mp hopen
    obtain ⟨hdc, hapi, hkey, userId, huser, hpos, hlt⟩ := (isSome_pack_exported db).mp (hw ▸ rfl)
    have hstorable : (db.session .userId).Storable := by
      by_contra hnot
      rw [setColumns_of_not_storable (c := (.userId, db.session .userId)) (by simp) hnot] at hset
      cases hset
    rw [huser] at hstorable
    have hportable : db.Portable := ⟨hdc, hapi, hkey, userId, huser, hpos, hstorable.2⟩
    rw [setColumns_restored hportable address (storable_port hendpoint)] at hset
    exact ⟨hportable, address, port, hendpoint, (Option.some.inj hset).symm⟩
  · rintro ⟨hportable, address, port, hendpoint, rfl⟩
    obtain ⟨w, hw⟩ := Option.isSome_iff_exists.mp hportable.isSome
    rw [hexport, hw, Option.map_some, Option.bind_some, openInMemory_of_pack hw, hendpoint,
      Option.bind_some]
    exact setColumns_restored hportable address (storable_port hendpoint)

/-- **An exported session is opened as it was**, and its session string stays the same. -/
theorem openInMemory_export (db db' : Database) :
    ((exportSessionString db).bind (fun s => openInMemory (some s)) = some db' ↔
      db.Portable ∧ ∃ address port, db.endpoint = some (address, port) ∧
        db' = db.restored address port) ∧
    ((exportSessionString db).bind (fun s => openInMemory (some s)) = some db' →
      exportSessionString db' = exportSessionString db) := by
  refine ⟨bind_openInMemory_iff db db', ?_⟩
  intro h
  obtain ⟨-, address, port, -, rfl⟩ := (bind_openInMemory_iff db db').mp h
  exact congrArg (Option.map Base64.urlEncode)
    (pack_fit (show SESSION_STRING_FORMAT.length = db.exported.length from rfl))

/-! ### An opened session -/

/-- `api_id(value)` -/
def Database.setApiId (db : Database) (apiId : ℤ) : Database :=
  { db with session := Function.update db.session .apiId (.integer apiId) }

/-- A session that was opened from a session string. -/
structure Database.Opened (db : Database) : Prop where
  portable : db.Portable
  restored : ∃ address port, db.endpoint = some (address, port) ∧ db = db.restored address port

theorem Database.Opened.bind_openInMemory {db : Database} (h : db.Opened) :
    (exportSessionString db).bind (fun s => openInMemory (some s)) = some db :=
  (bind_openInMemory_iff db db).mpr ⟨h.portable, h.restored⟩

/-- The session that is made of the values of a session string. -/
def Database.ofValues (address : String) (port : ℤ)
    (dcId apiId testMode authKey userId isBot : Value) : Database where
  schema := SCHEMA
  session
    | .dcId => dcId
    | .serverAddress => .text address
    | .port => .integer port
    | .apiId => apiId
    | .testMode => testMode
    | .authKey => authKey
    | .date => .integer 0
    | .userId => userId
    | .isBot => isBot
    | _ => .null
  version := currentVersion

section Values

variable {address : String} {port : ℤ} {dcId apiId testMode authKey userId isBot : Value}
    {db : Database}

/-- Columns are set only where all of them can be stored. -/
theorem of_setColumns {columns : List (Column × Value)} {db₀ : Database}
    (h : setColumns columns db₀ = some db) :
    (∀ c ∈ columns, c.2.Storable) ∧
      db = { db₀ with
        session := columns.foldl (fun session c => Function.update session c.1 c.2)
          db₀.session } := by
  have hstorable : ∀ c ∈ columns, c.2.Storable := by
    intro c hc
    by_contra hnot
    rw [setColumns_of_not_storable hc hnot] at h
    cases h
  rw [setColumns_of_storable hstorable] at h
  exact ⟨hstorable, (Option.some.inj h).symm⟩

/-- What the older formats leave: no `api_id`. -/
theorem eq_ofValues_of_old
    (h : setColumns [(.dcId, dcId), (.serverAddress, .text address), (.port, .integer port),
      (.testMode, testMode), (.authKey, authKey), (.userId, userId), (.isBot, isBot),
        (.date, .integer 0)] create = some db) :
    userId.Storable ∧ db = .ofValues address port dcId .null testMode authKey userId isBot := by
  obtain ⟨hstorable, rfl⟩ := of_setColumns h
  refine ⟨hstorable (.userId, userId) (by simp), ?_⟩
  unfold Database.ofValues create
  congr 1
  funext column
  cases column <;> rfl

theorem eq_ofValues
    (h : setColumns [(.dcId, dcId), (.serverAddress, .text address), (.port, .integer port),
      (.apiId, apiId), (.testMode, testMode), (.authKey, authKey), (.userId, userId),
        (.isBot, isBot),
      (.date, .integer 0)] create = some db) :
    userId.Storable ∧ db = .ofValues address port dcId apiId testMode authKey userId isBot := by
  obtain ⟨hstorable, rfl⟩ := of_setColumns h
  refine ⟨hstorable (.userId, userId) (by simp), ?_⟩
  unfold Database.ofValues create
  congr 1
  funext column
  cases column <;> rfl

theorem setApiId_ofValues (n : ℤ) :
    (Database.ofValues address port dcId apiId testMode authKey userId isBot).setApiId n =
    .ofValues address port dcId (.integer n) testMode authKey userId isBot := by
  unfold Database.ofValues Database.setApiId
  congr 1
  funext column
  cases column <;> rfl

end Values

theorem exists_unpack_unsigned {size : ℕ} {w : List UInt8} (h : w.length = size) :
    ∃ n : ℤ, (Field.unsigned size).unpack w = .integer n ∧ 0 ≤ n ∧ n < 256 ^ size :=
  Field.isSome_pack_unsigned.mp (@Field.isSome_pack_unpack (.unsigned size) w h)

/-- A session made of values that were read, with an `api_id`, is the one that is opened from its
session string. -/
theorem opened_ofValues {address : String} {port apiId : ℤ}
    {dcId testMode authKey userId isBot : List UInt8} {size : ℕ}
    (hdc : dcId.length = 1) (htest : testMode.length = 1) (hkey : authKey.length = 256)
    (huser : userId.length = size)
    (hbot : isBot.length = 1) (hapi : 0 ≤ apiId ∧ apiId < 2 ^ 32)
    (hendpoint : getDcEndpoint ((Field.unsigned 1).unpack dcId)
      (Field.flag.unpack testMode).truthy = some (address, port))
    (hstorable : ((Field.unsigned size).unpack userId).Storable) :
    (Database.ofValues address port ((Field.unsigned 1).unpack dcId) (.integer apiId)
      (Field.flag.unpack testMode)
      ((Field.bytes 256).unpack authKey) ((Field.unsigned size).unpack userId)
      (Field.flag.unpack isBot)).Opened where
  -- the columns hold what the fields of the string can hold
  portable := by
    obtain ⟨n, hn, hpos, -⟩ := exists_unpack_unsigned huser
    rw [hn] at hstorable
    exact {
      dcId := exists_unpack_unsigned hdc
      apiId := ⟨apiId, rfl, hapi⟩
      authKey := ⟨authKey, rfl⟩
      userId := ⟨n, hn, hpos, hstorable.2⟩ }
  -- fitting a value that was unpacked changes nothing
  restored := by
    refine ⟨address, port, hendpoint, ?_⟩
    unfold Database.ofValues Database.restored
    congr 1
    funext column
    cases column with
    | testMode => exact (@Field.fit_unpack .flag _ htest).symm
    | authKey => exact (@Field.fit_unpack (.bytes 256) _ hkey).symm
    | isBot => exact (@Field.fit_unpack .flag _ hbot).symm
    | _ => rfl

/-- A session opened from an older format has no `api_id`; once it is set, the session is as if it
had been opened from the current one. -/
theorem opened_setApiId {s : List Utf8.CodePoint} {db : Database} (hs : s ≠ []) (hold : IsOld s)
    (h : openInMemory (some s) = some db) :
    db.session .apiId = .null ∧ ∀ apiId, 0 ≤ apiId → apiId < 2 ^ 32 →
      (db.setApiId apiId).Opened := by
  rw [openInMemory_of_ne_nil hs] at h
  obtain ⟨bs, -, h⟩ := Option.bind_eq_some_iff.mp h
  rw [if_pos hold] at h
  obtain ⟨values, hvalues, h⟩ := Option.bind_eq_some_iff.mp h
  have hformat : ∃ size, (if s.length = SESSION_STRING_SIZE then OLD_SESSION_STRING_FORMAT
    else OLD_SESSION_STRING_FORMAT_64) =
      [.unsigned 1, .flag, .bytes 256, .unsigned size, .flag] := by
    split
    · exact ⟨4, rfl⟩
    · exact ⟨8, rfl⟩
  obtain ⟨size, hformat⟩ := hformat
  rw [hformat] at hvalues
  have hread := of_unpack hvalues
  simp only [List.forall₂_cons_left_iff, List.forall₂_nil_left_iff] at hread
  obtain ⟨_, _, ⟨dcId, hdc, rfl⟩,
    ⟨_, _, ⟨testMode, htest, rfl⟩, ⟨_, _, ⟨authKey, hkey, rfl⟩, ⟨_, _, ⟨userId, huser, rfl⟩,
    ⟨_, _, ⟨isBot, hbot, rfl⟩, rfl, rfl⟩, rfl⟩, rfl⟩, rfl⟩, rfl⟩ := hread
  obtain ⟨⟨address, port⟩, hendpoint, hset⟩ := Option.bind_eq_some_iff.mp h
  obtain ⟨hstorable, rfl⟩ := eq_ofValues_of_old hset
  refine ⟨rfl, ?_⟩
  intro apiId hpos hlt
  have hopened := opened_ofValues hdc htest hkey huser hbot ⟨hpos, hlt⟩ hendpoint hstorable
  rw [setApiId_ofValues]
  exact hopened

/-- A session opened from the current format. -/
theorem opened_of_openInMemory {s : List Utf8.CodePoint} {db : Database} (hs : s ≠ [])
    (hold : ¬IsOld s)
    (h : openInMemory (some s) = some db) : db.Opened := by
  rw [openInMemory_of_ne_nil hs] at h
  obtain ⟨bs, -, h⟩ := Option.bind_eq_some_iff.mp h
  rw [if_neg hold] at h
  obtain ⟨values, hvalues, h⟩ := Option.bind_eq_some_iff.mp h
  have hread := of_unpack hvalues
  simp only [SESSION_STRING_FORMAT, List.forall₂_cons_left_iff, List.forall₂_nil_left_iff] at hread
  obtain ⟨_, _, ⟨dcId, hdc, rfl⟩,
    ⟨_, _, ⟨apiId, hapi, rfl⟩, ⟨_, _, ⟨testMode, htest, rfl⟩, ⟨_, _, ⟨authKey, hkey, rfl⟩,
    ⟨_, _, ⟨userId, huser, rfl⟩, ⟨_, _, ⟨isBot, hbot, rfl⟩, rfl, rfl⟩, rfl⟩, rfl⟩, rfl⟩, rfl⟩,
      rfl⟩ := hread
  obtain ⟨⟨address, port⟩, hendpoint, hset⟩ := Option.bind_eq_some_iff.mp h
  obtain ⟨hstorable, rfl⟩ := eq_ofValues hset
  obtain ⟨n, hn, hpos, hlt⟩ := @exists_unpack_unsigned 4 _ hapi
  rw [hn]
  exact opened_ofValues hdc htest hkey huser hbot ⟨hpos, hlt.trans_eq (by norm_num)⟩ hendpoint
    hstorable

/-- **A session that was opened is opened again as it is** when it is exported: at once where it
came from the current format, and once an `api_id` is set where it came from an older one; without,
it cannot be exported. -/
theorem openInMemory_exported_again (s : List Utf8.CodePoint) (db : Database) (hs : s ≠ [])
    (h : openInMemory (some s) = some db) :
    (¬IsOld s → (exportSessionString db).bind (fun s' => openInMemory (some s')) = some db) ∧
    (IsOld s → exportSessionString db = none ∧ ∀ apiId, 0 ≤ apiId → apiId < 2 ^ 32 →
      (exportSessionString (db.setApiId apiId)).bind (fun s' => openInMemory (some s')) =
        some (db.setApiId apiId)) := by
  constructor
  · intro hnew
    exact (opened_of_openInMemory hs hnew h).bind_openInMemory
  · intro hold
    obtain ⟨hnull, hopened⟩ := opened_setApiId hs hold h
    constructor
    · by_contra hsome
      obtain ⟨s', hs'⟩ := Option.ne_none_iff_exists'.mp hsome
      obtain ⟨w, hw, -⟩ := Option.map_eq_some_iff.mp hs'
      obtain ⟨-, ⟨n, hn, -⟩, -⟩ :=
        (isSome_pack_exported db).mp (show (pack SESSION_STRING_FORMAT db.exported).isSome from hw ▸
        rfl)
      rw [hnull] at hn
      cases hn
    · intro apiId hpos hlt
      exact (hopened apiId hpos hlt).bind_openInMemory

theorem openInMemory_exported_again_one :
    ∃ s, sessionString OLD_SESSION_STRING_FORMAT [.integer 1, .integer 0, .blob [7], .integer 9,
      .integer 1] = some s ∧
      ∃ db, openInMemory (some s) = some db ∧ exportSessionString db = none ∧
        (exportSessionString (db.setApiId 6)).bind (fun s' => openInMemory (some s')) =
          some (db.setApiId 6) := by
  -- every field fits its column
  obtain ⟨w, hw⟩ : ∃ w, pack OLD_SESSION_STRING_FORMAT [.integer 1, .integer 0, .blob [7],
      .integer 9, .integer 1] = some w := by
    refine Option.isSome_iff_exists.mp (isSome_pack.mpr ?_)
    exact .cons (Field.isSome_pack_unsigned.mpr ⟨1, rfl, by decide, by decide⟩) <| .cons rfl <|
      .cons (Field.isSome_pack_bytes.mpr ⟨_, rfl⟩) <|
        .cons (Field.isSome_pack_unsigned.mpr ⟨9, rfl, by decide, by decide⟩) <|
      .cons rfl .nil
  have hlength : (Base64.urlEncode w).length = SESSION_STRING_SIZE := by
    rw [Base64.length_urlEncode, length_pack hw]
    rfl
  have hne : Base64.urlEncode w ≠ [] := by
    intro hnil
    rw [hnil] at hlength
    cases hlength
  -- the old form has no `api_id`, which is left null
  have hopen : openInMemory (some (Base64.urlEncode w)) =
    some (.ofValues "149.154.175.53" 443 (.integer 1) .null
      (.integer 0) ((Field.bytes 256).fit (.blob [7])) (.integer 9) (.integer 1)) := by
    rw [openInMemory_of_ne_nil hne, Base64.urlDecode_urlEncode, Option.bind_some,
      if_pos (.inl hlength), if_pos hlength,
      unpack_of_pack hw, Option.bind_eq_bind, Option.bind_some]
    change setColumns _ create = _
    rw [setColumns_of_storable]
    · unfold Database.ofValues create
      congr 2
      funext column
      cases column <;> rfl
    · simp only [List.forall_mem_cons]
      exact ⟨by decide, trivial, by decide, by decide, trivial, by decide, by decide, by decide,
        nofun⟩
  -- so it cannot be exported until an `api_id` is set
  obtain ⟨hnone, hagain⟩ := (openInMemory_exported_again _ _ hne hopen).2 (.inl hlength)
  refine ⟨_, ?_, _, hopen, hnone, hagain 6 (by decide) (by decide)⟩
  rw [sessionString, hw, Option.map_some]

end Pyrogram.SQLiteStorage
