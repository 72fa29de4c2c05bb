import Mathlib.Data.Finset.Union
import Mathlib.Logic.Function.Basic
import Mathlib.Tactic.IntervalCases
import Pyrogram.Runs
import Pyrogram.Storage.Peers

/-!
# The migration of the storage

`update` brings a database of an older version to the current one.  Its statements that
change the schema take effect one by one; the version number is written after the last.

## Main definitions

* `Object`, `Database` — what a schema consists of, and the part of a database that the
  migration reads and writes.
* `Statement`, `exec` — the statements of the migration; `Statement.define` is what they do
  to the schema, `Statement.write` what they do to the rows.
* `migrations`, `migrate`, `update` — the stages, and those that a version needs.
* `schemaOf`, `Legacy` — a database of an older version.
* `Recovers` — the update of what an interrupted update has left.

## Main results

* `recovers_iff` — **when an interrupted update can be run again**: before the first change
  of the schema, or after the version number.
* `interrupted_addColumn` — after the first column has been added the second update raises.
-/

namespace Pyrogram

namespace SQLiteStorage

open Runs

/-! ### Schemas -/

inductive SqlTable
  | sessions
  | peers
  | usernames
  | updateState
  | version
  deriving DecidableEq, Repr

inductive Column
  | dcId
  | serverAddress
  | port
  | apiId
  | testMode
  | authKey
  | date
  | userId
  | isBot
  | id
  | accessHash
  | type
  | phoneNumber
  | lastUpdateOn
  | username
  | pts
  | qts
  | seq
  | number
  deriving DecidableEq, Repr

inductive Index
  | idxPeersId
  | idxPeersPhoneNumber
  | idxUsernamesId
  | idxUsernamesUsername
  deriving DecidableEq, Repr

inductive Object
  | table (table : SqlTable)
  | column (table : SqlTable) (column : Column)
  | index (index : Index)
  deriving DecidableEq, Repr

abbrev Schema := Finset Object

def Object.isIndex : Object → Bool
  | index _ => true
  | table _ | column _ _ => false

/-- A table with its columns. -/
def tableWith (table : SqlTable) (columns : List Column) : List Object :=
  .table table :: columns.map (.column table)

/-- `SCHEMA`. -/
def SCHEMA : Schema := List.toFinset <|
  tableWith .sessions [.dcId, .serverAddress, .port, .apiId, .testMode, .authKey, .date, .userId,
    .isBot] ++
  tableWith .peers [.id, .accessHash, .type, .phoneNumber, .lastUpdateOn] ++
  tableWith .usernames [.id, .username] ++
  tableWith .updateState [.id, .pts, .qts, .date, .seq] ++
  tableWith .version [.number] ++
  [.index .idxPeersId, .index .idxPeersPhoneNumber, .index .idxUsernamesId,
    .index .idxUsernamesUsername]

/-! ### Databases -/

inductive Value
  | null
  | integer (n : ℤ)
  | text (s : String)
  | blob (b : List UInt8)
  deriving DecidableEq, Repr

/-- What `if value` tests. -/
def Value.truthy : Value → Bool
  | null => false
  | integer n => n ≠ 0
  | text s => s ≠ ""
  | blob b => b ≠ []

structure Database where
  schema : Schema
  /-- The values of the row of `sessions`. -/
  session : Column → Value
  /-- The rows of `peers`. -/
  peers : List Peer := []
  /-- The row of `version`. -/
  version : ℤ

/-- The tables and the columns. -/
def Database.layout (db : Database) : Schema := db.schema.filter fun object => ¬ object.isIndex

/-- `VERSION`. -/
def currentVersion : ℤ := 7

/-- `create`. -/
def create : Database where
  schema := SCHEMA
  session
    | .dcId => .integer 2
    | .serverAddress => .text "149.154.167.51"
    | .port => .integer 443
    | .date => .integer 0
    | _ => .null
  version := currentVersion

def TEST : List (ℤ × String) :=
  [(1, "149.154.175.10"), (2, "149.154.167.40"), (3, "149.154.175.117")]

def PROD : List (ℤ × String) :=
  [(1, "149.154.175.53"), (2, "149.154.167.51"), (3, "149.154.175.100"),
  (4, "149.154.167.91"), (5, "91.108.56.130"), (203, "91.105.192.100")]

/-- `get_dc_endpoint`; `none` where it raises `KeyError`. -/
def getDcEndpoint (dcId : Value) (testMode : Bool) : Option (String × ℤ) :=
  match dcId with
  | .integer dcId =>
      if testMode then (TEST.lookup dcId).map (·, 80) else (PROD.lookup dcId).map (·, 443)
  | _ => none

/-- The endpoint of the stored session. -/
def Database.endpoint (db : Database) : Option (String × ℤ) :=
  getDcEndpoint (db.session .dcId) (db.session .testMode).truthy

/-! ### Statements -/

inductive Statement
  | deletePeers
  | addColumn (table : SqlTable) (column : Column)
  | createTable (table : SqlTable) (columns : List Column)
  | createIndex (index : Index) (table : SqlTable) (column : Column)
  | getDcEndpoint
  /-- The two `UPDATE`s of one transaction. -/
  | setEndpoint
  | setVersion (number : ℤ)
  deriving DecidableEq, Repr

namespace Statement

/-- What a statement creates. -/
def object : Statement → Option Object
  | addColumn table column => some (.column table column)
  | createTable table _ => some (.table table)
  | createIndex index _ _ => some (.index index)
  | deletePeers | getDcEndpoint | setEndpoint | setVersion _ => none

/-- The schema after a statement; `none` where it raises `OperationalError`: what it creates
is there, or what that belongs to is not. -/
def define : Schema → Statement → Option Schema
  | schema, addColumn table column =>
      if .column table column ∈ schema ∨ .table table ∉ schema then none
      else some (insert (.column table column) schema)
  | schema, createTable table columns =>
      if .table table ∈ schema then none else some (schema ∪ (tableWith table columns).toFinset)
  | schema, createIndex index table column =>
      if .index index ∈ schema ∨ .column table column ∉ schema then none
      else some (insert (.index index) schema)
  | schema, deletePeers | schema, getDcEndpoint | schema, setEndpoint | schema, setVersion _ =>
      some schema

/-- The rows after a statement; `none` where the endpoint is not known. -/
def write (db : Database) : Statement → Option Database
  | deletePeers => some { db with peers := [] }
  | addColumn table column =>
      let session := if table = .sessions then Function.update db.session column .null
        else db.session
      some { db with session }
  | createTable _ _ | createIndex _ _ _ => some db
  | getDcEndpoint => db.endpoint.map fun _ => db
  | setEndpoint => db.endpoint.map fun (address, port) =>
      let session := Function.update db.session .serverAddress (.text address)
      { db with session := Function.update session .port (.integer port) }
  | setVersion number => some { db with version := number }

end Statement

/-- A statement that takes effect. -/
def exec (db : Database) (statement : Statement) : Option Database := do
  let schema ← statement.define db.schema
  let db ← statement.write db
  return { db with schema }

/-! ### The update -/

/-- The statements at each version. -/
def migrations : List (ℤ × List Statement) := [
  (1, [.deletePeers]),
  (2, [.addColumn .sessions .apiId]),
  -- `USERNAMES_SCHEMA`
  (3, [.createTable .usernames [.id, .username], .createIndex .idxUsernamesUsername .usernames
    .username]),
  -- `UPDATE_STATE_SCHEMA`
  (4, [.createTable .updateState [.id, .pts, .qts, .date, .seq]]),
  (5, [.createIndex .idxUsernamesId .usernames .id]),
  (6, [.getDcEndpoint, .addColumn .sessions .serverAddress, .addColumn .sessions .port,
    .setEndpoint])]

/-- The statements that are executed from a version on. -/
def migrate : List (ℤ × List Statement) → ℤ → List Statement
  | [], version => [.setVersion version]
  | (number, statements) :: rest, version =>
      if version = number then statements ++ migrate rest (version + 1) else migrate rest version

/-- `update`; `none` where it raises. -/
def update (db : Database) : Option Database := run exec db (migrate migrations db.version)

/-! ### Databases of older versions -/

/-- The version that an object came with. -/
def introduced : Object → ℤ
  | .column .sessions .apiId => 3
  | .table .usernames | .column .usernames _ | .index .idxUsernamesUsername => 4
  | .table .updateState | .column .updateState _ => 5
  | .index .idxUsernamesId => 6
  | .column .sessions .serverAddress | .column .sessions .port => 7
  | _ => 1

/-- The schema of a version. -/
def schemaOf (version : ℤ) : Schema := SCHEMA.filter (introduced · ≤ version)

/-- A database of one of the versions `1` to `6`. -/
structure Legacy (db : Database) : Prop where
  version : 1 ≤ db.version ∧ db.version < currentVersion
  schema : db.schema = schemaOf db.version

/-- The second update, of what the first has left, gives the current version with the
tables and columns of a fresh storage and the values of the stored session. -/
def Recovers (db left : Database) : Prop :=
  ∃ db', update left = some db' ∧ db'.version = currentVersion ∧ db'.layout = create.layout ∧
    ∀ column, .column .sessions column ∈ db.schema → db'.session column = db.session column

/-! ### What a statement does -/

variable {db db' p p' : Database} {s s' : Schema} {st : Statement}

theorem exec_eq_some : exec db st = some db' ↔
    ∃ schema, st.define db.schema = some schema ∧ ∃ w, st.write db = some w ∧
      { w with schema } = db' := by
  simp [exec, Option.bind_eq_some_iff]

namespace Statement

theorem subset_of_define (h : st.define s = some s') : s ⊆ s' := by
  cases st <;> simp only [define, Option.ite_none_left_eq_some, Option.some.injEq] at h
  case addColumn | createIndex => exact h.2 ▸ Finset.subset_insert _ _
  case createTable => exact h.2 ▸ Finset.subset_union_left
  all_goals exact h.subset

/-- What is created was not there, and is afterwards. -/
theorem object_of_define (h : st.define s = some s') {object : Object}
    (hobject : st.object = some object) :
    object ∉ s ∧ object ∈ s' := by
  cases st <;> simp only [Statement.object, Option.some.injEq, reduceCtorEq] at hobject <;>
    subst hobject <;>
    simp only [define, Option.ite_none_left_eq_some, Option.some.injEq, not_or] at h
  case addColumn | createIndex => exact ⟨h.1.1, h.2 ▸ Finset.mem_insert_self _ _⟩
  case createTable => exact ⟨h.1, h.2 ▸ Finset.mem_union_right _ (by simp [tableWith])⟩

theorem eq_of_define (h : st.define s = some s') (hobject : st.object = none) : s' = s := by
  cases st <;> simp only [Statement.object, reduceCtorEq] at hobject <;>
    exact (Option.some.inj h).symm

theorem version_of_write (h : st.write db = some db') (hset : ∀ number, st ≠ .setVersion number) :
    db'.version = db.version := by
  cases st <;> simp only [write, Option.some.injEq, Option.map_eq_some_iff] at h
  case setVersion number => exact absurd rfl (hset number)
  case getDcEndpoint | setEndpoint =>
    obtain ⟨_, _, rfl⟩ := h
    rfl
  all_goals rw [← h]

end Statement

/-! ### What an update keeps -/

/-- The schema has only grown, and the values of the columns that were there are kept. -/
structure Kept (db p : Database) : Prop where
  schema : db.schema ⊆ p.schema
  session : ∀ column, .column .sessions column ∈ db.schema → p.session column = db.session column

theorem Kept.refl (db : Database) : Kept db db := ⟨Finset.Subset.refl _, fun _ _ => rfl⟩

/-- **A statement keeps what was there**: the columns it writes are new. -/
theorem Kept.exec (haddress : .column .sessions .serverAddress ∉ db.schema)
    (hport : .column .sessions .port ∉ db.schema) (h : Kept db p) (hexec : exec p st = some p') :
    Kept db p' := by
  obtain ⟨s, hdefine, w, hwrite, rfl⟩ := exec_eq_some.mp hexec
  refine ⟨h.schema.trans (st.subset_of_define hdefine), fun column hcolumn => ?_⟩
  rw [← h.session column hcolumn]
  -- only two statements write a column, and neither writes one that was there before
  cases st <;> simp only [Statement.write, Option.some.injEq, Option.map_eq_some_iff] at hwrite
  case addColumn table column' =>
    subst hwrite
    dsimp only
    split
    · next htable =>
      subst htable
      have hnew : .column .sessions column' ∉ p.schema := (Statement.object_of_define hdefine rfl).1
      refine Function.update_of_ne ?_ _ _
      rintro rfl
      exact hnew (h.schema hcolumn)
    · rfl
  case setEndpoint =>
    obtain ⟨_, _, rfl⟩ := hwrite
    have hne : column ≠ .serverAddress ∧ column ≠ .port := by
      constructor
      · rintro rfl
        exact haddress hcolumn
      · rintro rfl
        exact hport hcolumn
    dsimp only
    rw [Function.update_of_ne hne.2, Function.update_of_ne hne.1]
  case getDcEndpoint =>
    obtain ⟨_, _, rfl⟩ := hwrite
    rfl
  all_goals rw [← hwrite]

namespace Legacy

theorem endpoint_columns (h : Legacy db) :
    .column .sessions .dcId ∈ db.schema ∧ .column .sessions .testMode ∈ db.schema := by
  rw [h.schema]
  simp only [schemaOf, Finset.mem_filter]
  refine ⟨⟨by decide, h.version.1⟩, ⟨by decide, h.version.1⟩⟩

theorem new_columns (h : Legacy db) :
    .column .sessions .serverAddress ∉ db.schema ∧ .column .sessions .port ∉ db.schema := by
  have hlt : ¬ 7 ≤ db.version := not_le.mpr h.version.2
  rw [h.schema]
  simp only [schemaOf, Finset.mem_filter, not_and]
  exact ⟨fun _ => hlt, fun _ => hlt⟩

theorem kept_exec (h : Legacy db) (s : Database) (e : Statement) (s' : Database) (hs : Kept db s)
    (hexec : exec s e = some s') :
    Kept db s' := hs.exec h.new_columns.1 h.new_columns.2 hexec

end Legacy

/-- The endpoint is that of the stored session. -/
theorem Legacy.endpoint_of_kept (h : Legacy db) (hp : Kept db p) : p.endpoint = db.endpoint := by
  rw [Database.endpoint, hp.session _ h.endpoint_columns.1, hp.session _ h.endpoint_columns.2]
  rfl

/-! ### Where an update is left -/

/-- The statements of the stages of an older version. -/
theorem Legacy.migrate_of_legacy (h : Legacy db) : ∃ statements, migrate migrations db.version =
    statements ++ [.setVersion currentVersion] ∧ .getDcEndpoint ∈ statements ∧
      ∀ st ∈ statements, ∀ number, st ≠ .setVersion number := by
  obtain ⟨hone, hlt⟩ := h.version
  generalize db.version = version at hone hlt
  unfold currentVersion at hlt
  refine ⟨(migrate migrations version).dropLast, ?_⟩
  interval_cases version <;> exact ⟨by decide, by decide, by simp [migrate, migrations]⟩

theorem schema_of_exec (h : exec db st = some db') : st.define db.schema = some db'.schema := by
  obtain ⟨s, hdefine, w, -, rfl⟩ := exec_eq_some.mp h
  exact hdefine

/-- An object stays. -/
theorem mem_schema_of_exec (object : Object) (s : Database) (e : Statement) (s' : Database)
    (hmem : object ∈ s.schema) (h : exec s e = some s') : object ∈ s'.schema :=
  e.subset_of_define (schema_of_exec h) hmem

/-- **What has been created cannot be created again.** -/
theorem object_notMem_of_run {sts : List Statement} (hrun : run exec db sts = some db')
    (hst : st ∈ sts)
    {object : Object} (hobject : st.object = some object) : object ∉ db.schema := by
  intro hmem
  obtain ⟨q, q', -, hq, hexec, -⟩ := exists_step_of_mem (mem_schema_of_exec object) hmem hst hrun
  exact (Statement.object_of_define (schema_of_exec hexec) hobject).1 hq

/-- What has been created is there at the end. -/
theorem object_mem_of_run {sts : List Statement} (hrun : run exec db sts = some db')
    (hst : st ∈ sts)
    {object : Object} (hobject : st.object = some object) : object ∈ db'.schema := by
  obtain ⟨q, q', post, -, hexec, hpost⟩ :=
    exists_step_of_mem (I := fun _ => True) (fun _ _ _ _ _ => trivial) trivial hst hrun
  exact run_of_invariant (mem_schema_of_exec object)
    (Statement.object_of_define (schema_of_exec hexec) hobject).2 hpost

/-- Where nothing is created the schema is what it was. -/
theorem schema_of_run {sts : List Statement} (hrun : run exec db sts = some db')
    (hsts : ∀ st ∈ sts, st.object = none) : db'.schema = db.schema := by
  refine run_of_invariant_of_allSteps (I := fun q => q.schema = db.schema) ?_ rfl
    (allSteps_of_forall_mem hsts) hrun
  intro q st q' hq hobject hexec
  rw [← hq]
  exact Statement.eq_of_define (schema_of_exec hexec) hobject

theorem version_of_run {sts : List Statement} (hrun : run exec db sts = some db')
    (hsts : ∀ st ∈ sts, ∀ number, st ≠ .setVersion number) : db'.version = db.version := by
  refine run_of_invariant_of_allSteps (I := fun q => q.version = db.version) ?_ rfl
    (allSteps_of_forall_mem hsts) hrun
  intro q st q' hq hset hexec
  obtain ⟨s, -, w, hwrite, rfl⟩ := exec_eq_some.mp hexec
  have hw : w.version = q.version := Statement.version_of_write hwrite hset
  exact hw.trans hq

namespace Legacy

/-- A run that has asked for the endpoint has got one. -/
theorem endpoint_of_run (h : Legacy db) (hp : Kept db p) {sts : List Statement}
    (hrun : run exec p sts = some p')
    (hmem : .getDcEndpoint ∈ sts) : db.endpoint ≠ none := by
  obtain ⟨q, q', -, hq, hexec, -⟩ := exists_step_of_mem h.kept_exec hp hmem hrun
  obtain ⟨-, -, w, hwrite, -⟩ := exec_eq_some.mp hexec
  obtain ⟨endpoint, hendpoint, -⟩ := Option.map_eq_some_iff.mp hwrite
  rw [← h.endpoint_of_kept hq, hendpoint]
  exact Option.some_ne_none _

/-- Before its end an update leaves the old version. -/
theorem version_of_leftAt (h : Legacy db) (hp : LeftAt exec (migrate migrations db.version) db p) :
    update db = some p ∨ p.version = db.version := by
  obtain ⟨done, hinitial, hrun⟩ := hp
  obtain ⟨statements, hmigrate, -, hset⟩ := h.migrate_of_legacy
  rw [hmigrate, List.prefix_concat_iff] at hinitial
  rcases hinitial with rfl | hinitial
  · left
    rw [update, hmigrate]
    exact hrun
  · right
    exact version_of_run hrun fun st hst => hset st (hinitial.subset hst)

end Legacy

/-! ### A whole update -/

theorem exists_write (st : Statement) (h : p.endpoint ≠ none) : ∃ w, st.write p = some w := by
  obtain ⟨endpoint, hendpoint⟩ := Option.ne_none_iff_exists'.mp h
  cases st <;> simp [Statement.write, hendpoint]

/-- The statements succeed on the database as they do on its schema. -/
theorem Legacy.run_of_define (h : Legacy db) (hendpoint : db.endpoint ≠ none)
    {sts : List Statement} :
    ∀ {q : Database}, Kept db q → run Statement.define q.schema sts = some s' →
      ∃ q', run exec q sts = some q' ∧ q'.schema = s' := by
  induction sts with
  | nil =>
    intro q _ hrun
    exact ⟨q, rfl, Option.some.inj hrun⟩
  | cons st sts ih =>
    intro q hq hrun
    obtain ⟨s, hdefine, hrun⟩ := run_cons_eq_some hrun
    obtain ⟨w, hwrite⟩ := exists_write st (h.endpoint_of_kept hq ▸ hendpoint)
    have hexec : exec q st = some { w with schema := s } :=
      exec_eq_some.mpr ⟨s, hdefine, w, hwrite, rfl⟩
    obtain ⟨q', hrun', hschema⟩ :=
      ih (q := { w with schema := s }) (h.kept_exec _ _ _ hq hexec) hrun
    refine ⟨q', ?_, hschema⟩
    rw [run_cons, hexec]
    exact hrun'

/-- The stages from an older version on make its schema the current one. -/
theorem run_define_migrate {version : ℤ} (hone : 1 ≤ version) (hlt : version < currentVersion) :
    run Statement.define (schemaOf version) (migrate migrations version) = some SCHEMA := by
  unfold currentVersion at hlt
  interval_cases version <;> decide +kernel

namespace Legacy

theorem version_of_update (h : Legacy db) (hupdate : update db = some db') :
    db'.version = currentVersion := by
  obtain ⟨statements, hmigrate, -, -⟩ := h.migrate_of_legacy
  rw [update, hmigrate, run_append] at hupdate
  obtain ⟨q, -, hrun⟩ := Option.bind_eq_some_iff.mp hupdate
  obtain ⟨q', hexec, hrun⟩ := run_cons_eq_some hrun
  obtain ⟨s, -, w, hwrite, rfl⟩ := exec_eq_some.mp hexec
  cases hwrite
  cases hrun
  rfl

theorem endpoint_of_update (h : Legacy db) (hupdate : update db = some db') :
    db.endpoint ≠ none := by
  obtain ⟨statements, hmigrate, hmem, -⟩ := h.migrate_of_legacy
  rw [update, hmigrate] at hupdate
  exact h.endpoint_of_run (Kept.refl db) hupdate (List.mem_append_left _ hmem)

/-- **An update of an older version ends** where the endpoint is known. -/
theorem exists_update (h : Legacy db) (hendpoint : db.endpoint ≠ none) :
    ∃ db', update db = some db' ∧ db'.schema = SCHEMA := by
  refine h.run_of_define hendpoint (Kept.refl db) ?_
  rw [h.schema]
  exact run_define_migrate h.version.1 h.version.2

end Legacy

/-- An update of the current version only writes the version again. -/
theorem update_of_current (hversion : db.version = currentVersion) : update db = some db := by
  rw [update, hversion]
  change run exec db [.setVersion currentVersion] = some db
  rw [← hversion]
  rfl

/-- **When an interrupted update can be run again**: the endpoint of the stored session is
known, and the first update was left before the first change of the schema or after the
version number. -/
theorem recovers_iff (h : Legacy db) (hp : LeftAt exec (migrate migrations db.version) db p) :
    Recovers db p ↔ db.endpoint ≠ none ∧ (p.schema = db.schema ∨ p.version = currentVersion) := by
  have hkept : Kept db p := by
    obtain ⟨done, -, hrun⟩ := hp
    exact run_of_invariant h.kept_exec (Kept.refl db) hrun
  constructor
  · rintro ⟨db', hupdate, -, -, -⟩
    rcases h.version_of_leftAt hp with hdone | hversion
    · exact ⟨h.endpoint_of_update hdone, Or.inr (h.version_of_update hdone)⟩
    · rw [update, hversion] at hupdate
      obtain ⟨statements, hmigrate, hmem, -⟩ := h.migrate_of_legacy
      refine ⟨h.endpoint_of_run hkept hupdate (hmigrate ▸ List.mem_append_left _ hmem), Or.inl ?_⟩
      -- an object that the first update has created would be created again
      obtain ⟨done, hinitial, hrun⟩ := hp
      refine schema_of_run hrun fun st hst => ?_
      cases hobject : st.object with
      | none => rfl
      | some object =>
        exact absurd (object_mem_of_run hrun hst hobject)
          (object_notMem_of_run hupdate (hinitial.subset hst) hobject)
  · rintro ⟨hendpoint, hleft⟩
    have hlayout : ∀ db' : Database, db'.schema = SCHEMA → db'.layout = create.layout := by
      intro db' hschema
      rw [Database.layout, hschema]
      rfl
    obtain ⟨db', hupdate, hschema⟩ := h.exists_update hendpoint
    rcases h.version_of_leftAt hp with hdone | hversion
    · obtain rfl : db' = p := Option.some.inj (hupdate.symm.trans hdone)
      have hcurrent : db'.version = currentVersion := h.version_of_update hdone
      exact ⟨db', update_of_current hcurrent, hcurrent, hlayout db' hschema, hkept.session⟩
    · have hold : p.version ≠ currentVersion := hversion ▸ h.version.2.ne
      have hlegacy : Legacy p :=
        ⟨hversion ▸ h.version, by rw [hleft.resolve_right hold, h.schema, hversion]⟩
      obtain ⟨db', hupdate, hschema⟩ := hlegacy.exists_update (h.endpoint_of_kept hkept ▸ hendpoint)
      refine ⟨db', hupdate, hlegacy.version_of_update hupdate, hlayout db' hschema, ?_⟩
      exact (run_of_invariant h.kept_exec hkept hupdate : Kept db db').session

/-- A database of version `2`. -/
def versionTwo : Database where
  schema := schemaOf 2
  session
    | .dcId => .integer 2
    | .date => .integer 0
    | _ => .null
  version := 2

/-- Before the column is added the update of `versionTwo` can be run again. -/
theorem recovers_untouched : Recovers versionTwo versionTwo :=
  (recovers_iff ⟨by decide, rfl⟩ ⟨[], List.nil_prefix, rfl⟩).mpr ⟨by decide, Or.inl rfl⟩

/-- **After the first column the second update raises**: `api_id` is there already. -/
theorem interrupted_addColumn : Legacy versionTwo ∧ versionTwo.endpoint ≠ none ∧ ∃ left,
    LeftAt exec (migrate migrations versionTwo.version) versionTwo left ∧
      ¬ Recovers versionTwo left := by
  refine ⟨⟨by decide, rfl⟩, by decide, ?_⟩
  have hinitial : [.addColumn .sessions .apiId] <+: migrate migrations versionTwo.version :=
    ⟨_, rfl⟩
  refine ⟨_, ⟨_, hinitial, rfl⟩, ?_⟩
  rintro ⟨db', hupdate, -⟩
  refine object_notMem_of_run hupdate (hinitial.subset (List.mem_singleton_self _)) rfl ?_
  exact Finset.mem_insert_self _ _

end SQLiteStorage

end Pyrogram
