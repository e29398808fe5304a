import DbosTransact.Foundation.Solo
import DbosTransact.Foundation.Table

/-!
# The migration runner

`run_migrations` brings the schema to the last version, one migration at a time. A catalog migration
runs in one transaction with the write of its version. An online one builds or drops an index
concurrently, which Postgres does not do in a transaction, so its version is written by a statement
of its own; a build or a drop that is interrupted leaves an invalid index, which the next call drops
before its first online migration.

`Migrated` is what every state keeps to, whatever call was stopped in the middle of what.
`migrations_crash_safe` draws the conclusions for every sequence of calls.
-/

namespace Dbos.Migrate

open Txn Txn.Solo

/-! ### The schema -/

/-- The named objects of a schema: whether each is valid. Only an index can be invalid. -/
abbrev Objects : Type := Table String Bool

/-- The statements of a catalog migration, which are refused or carried out as a whole. They build
no index concurrently, so they leave no invalid object that was not there. -/
structure CatalogSql where
  run : Objects → Option Objects
  valid : ∀ t t', run t = some t' → ∀ n, t'.lookup n = some false → t.lookup n = some false

/-- The statement of an online migration. -/
inductive OnlineSql
  /-- `CREATE INDEX CONCURRENTLY IF NOT EXISTS` -/
  | create (index : String)
  /-- `DROP INDEX CONCURRENTLY IF EXISTS` -/
  | drop (index : String)

/-- The text of a migration, with its mode. The text of a catalog migration may be blank. -/
inductive MigrationSql
  | catalog (sql : Option CatalogSql)
  | online (sql : OnlineSql)

structure Migration where
  version : ℤ
  sql : MigrationSql

namespace Migration

def online (m : Migration) : Bool :=
  match m.sql with
  | .online _ => true
  | .catalog _ => false

/-- There is nothing to run. -/
def blank (m : Migration) : Bool :=
  match m.sql with
  | .catalog none => true
  | _ => false

end Migration

/-- Migrations in the order of their versions. -/
structure Migrations where
  list : List Migration
  sorted : list.Pairwise fun m m' ↦ m.version < m'.version
  positive : ∀ m ∈ list, 1 ≤ m.version

/-- A database with one schema. -/
structure SchemaDb where
  schema : Bool
  /-- The rows of `dbos_migrations`, once the table exists. -/
  migrations : Option (List ℤ)
  objects : Objects
  /-- The migrations that took effect so far, each time they did. -/
  applied : List ℤ

/-- The recorded version, 0 if there is none. -/
def SchemaDb.version (db : SchemaDb) : ℤ := ((db.migrations.bind List.head?)).getD 0

/-- The runner has never touched the schema. -/
structure SchemaDb.Untouched (db : SchemaDb) : Prop where
  migrations : db.migrations = none
  applied : db.applied = []

inductive SchemaError
  | refused (version : ℤ)
  | missing
  | exists
  | uniqueViolation
  | aborted
  | connection
  deriving DecidableEq, Repr

inductive SchemaStmt
  | schemaExists
  | createSchema
  | migrationsTableExists
  | createMigrationsTable
  | readVersionOpt
  | selectInvalidIndexes
  | dropIndexConcurrently (name : String)
  | execute (m : Migration)
  | insertVersion (version : ℤ)
  | updateVersion (version : ℤ)

abbrev SchemaStmt.Res : SchemaStmt → Type
  | schemaExists => Bool
  | migrationsTableExists => Bool
  | readVersionOpt => Option ℤ
  | selectInvalidIndexes => List String
  | _ => Unit

namespace SchemaDb

/-- A migration took effect. -/
def log (db : SchemaDb) (m : Migration) (objects : Objects) : SchemaDb :=
  { db with objects := objects, applied := db.applied ++ [m.version] }

/-- Run the text of a migration. A concurrent build skips an index that exists, also one that is
invalid and of no use. -/
def execute (db : SchemaDb) (m : Migration) : Except SchemaError (Unit × SchemaDb) :=
  match m.sql with
  | .catalog none => .ok ((), db)
  | .catalog (some sql) =>
    match sql.run db.objects with
    | none => .error (.refused m.version)
    | some objects => .ok ((), db.log m objects)
  | .online (.create index) =>
    match db.objects.lookup index with
    | none => .ok ((), db.log m (db.objects.insert index true))
    | some true => .ok ((), db.log m db.objects)
    | some false => .ok ((), db)
  | .online (.drop index) => .ok ((), db.log m (db.objects.erase index))

/-- The index is left invalid. -/
def invalidate (db : SchemaDb) (index : String) : SchemaDb :=
  { db with objects := db.objects.insert index false }

end SchemaDb

/-- Carry out a statement. -/
def SchemaStmt.run (s : SchemaStmt) (db : SchemaDb) : Except SchemaError (s.Res × SchemaDb) :=
  match s with
  | schemaExists => .ok (db.schema, db)
  | createSchema => if db.schema then .error .exists else .ok ((), { db with schema := true })
  | migrationsTableExists => .ok (db.migrations.isSome, db)
  | createMigrationsTable =>
    if db.migrations.isSome then .error .exists else .ok ((), { db with migrations := some [] })
  | readVersionOpt =>
    match db.migrations with
    | none => .error .missing
    | some versions => .ok (versions.head?, db)
  | selectInvalidIndexes => .ok ((db.objects.select fun _ valid ↦ !valid).map Prod.fst, db)
  | dropIndexConcurrently name => .ok ((), { db with objects := db.objects.erase name })
  | execute m => db.execute m
  | insertVersion version =>
    match db.migrations with
    | none => .error .missing
    | some versions =>
      if version ∈ versions then .error .uniqueViolation
      else .ok ((), { db with migrations := some (versions ++ [version]) })
  | updateVersion version =>
    match db.migrations with
    | none => .error .missing
    | some [] => .ok ((), db)
    | some [_] => .ok ((), { db with migrations := some [version] })
    | some _ => .error .uniqueViolation

/-- What an interrupted statement leaves behind. -/
def SchemaStmt.torn (s : SchemaStmt) (db : SchemaDb) : List SchemaDb :=
  match s with
  | dropIndexConcurrently name =>
    if (db.objects.lookup name).isSome then [db.invalidate name] else []
  | execute ⟨_, .online (.create index)⟩ =>
    if (db.objects.lookup index).isNone then [db.invalidate index] else []
  | execute ⟨_, .online (.drop index)⟩ =>
    if (db.objects.lookup index).isSome then [db.invalidate index] else []
  | _ => []

/-- Postgres, as the runner uses it. -/
def postgres : Backend SchemaDb SchemaStmt SchemaStmt.Res SchemaError where
  run := SchemaStmt.run
  torn := SchemaStmt.torn
  abortedErr := .aborted

/-! ### `db/migrate.rs` -/

abbrev SchemaM (α : Type) : Type := ScriptM SchemaStmt SchemaStmt.Res SchemaError α

/-- Send a statement. -/
abbrev send (s : SchemaStmt) : SchemaM s.Res := query s

def createSchemaIfMissing : SchemaM Unit := do
  if !(← send .schemaExists) then send .createSchema

def createTableIfMissing : SchemaM Unit := do
  if !(← send .migrationsTableExists) then send .createMigrationsTable

/-- Ensure that the schema and the migrations table exist, and read the current version. -/
def ensureMigrationsTable : SchemaM ℤ :=
  transaction do
    createSchemaIfMissing
    createTableIfMissing
    let version ← send .readVersionOpt
    commitTx
    return version.getD 0

/-- Insert the version row the first time, update it thereafter. -/
def writeVersion (version lastApplied : ℤ) : SchemaM Unit :=
  if lastApplied = 0 then send (.insertVersion version) else send (.updateVersion version)

def dropIndexes : List String → SchemaM Unit
  | [] => return
  | name :: names => do
    send (.dropIndexConcurrently name)
    dropIndexes names

/-- Drop the indexes an interrupted concurrent build has left invalid. -/
def cleanupInvalidIndexes : SchemaM Unit := do
  dropIndexes (← send .selectInvalidIndexes)

/-- Drop invalid indexes, unless this call has already done so. -/
def cleanupOnce (invalidIndexesCleaned : Bool) : SchemaM Unit :=
  if invalidIndexesCleaned then pure () else cleanupInvalidIndexes

/-- Run the text of a migration, unless it is blank. -/
def runText (m : Migration) : SchemaM Unit :=
  if m.blank then pure () else send (.execute m)

/-- Apply an online migration: in autocommit, with a statement of its own for the version. -/
def applyOnline (m : Migration) (currentVersion : ℤ) (invalidIndexesCleaned : Bool) :
    SchemaM Unit := do
  cleanupOnce invalidIndexesCleaned
  send (.execute m)
  writeVersion m.version currentVersion

/-- Apply a catalog migration: in one transaction with the version. -/
def applyCatalog (m : Migration) (currentVersion : ℤ) : SchemaM Unit :=
  transaction do
    runText m
    writeVersion m.version currentVersion
    commitTx

/-- Apply the pending ones of the migrations. -/
def applyPending : List Migration → (currentVersion : ℤ) → (invalidIndexesCleaned : Bool) →
    SchemaM Unit
  | [], _, _ => return
  | m :: rest, currentVersion, invalidIndexesCleaned =>
    if m.version ≤ currentVersion then applyPending rest currentVersion invalidIndexesCleaned
    else if m.online then do
      applyOnline m currentVersion invalidIndexesCleaned
      applyPending rest m.version true
    else do
      applyCatalog m currentVersion
      applyPending rest m.version invalidIndexesCleaned

def runMigrations (ms : Migrations) : SchemaM Unit := do
  let currentVersion ← ensureMigrationsTable
  applyPending ms.list currentVersion false

/-- One step of a runner. -/
abbrev runnerStep (ms : Migrations) :=
  Solo.step postgres (runMigrations ms).run

/-- The states of a runner. -/
abbrev RunnerState : Type :=
  State SchemaDb SchemaStmt SchemaStmt.Res SchemaError (Except SchemaError Unit)

/-! ### What every state keeps to -/

/-- The recorded version of the last migration. -/
def Migrations.last (ms : Migrations) : ℤ := (ms.list.getLast?.map Migration.version).getD 0

/-- The next migration after version `v`. -/
structure NextAfter (ms : Migrations) (v : ℤ) (m : Migration) : Prop where
  mem : m ∈ ms.list
  pending : v < m.version
  first : ∀ m' ∈ ms.list, v < m'.version → m.version ≤ m'.version

/-- What every state of a runner keeps to that has started from `start`. -/
structure Migrated (ms : Migrations) (start db : SchemaDb) : Prop where
  schema : db.migrations.isSome = true → db.schema = true
  /-- There is one row at most, with the version of a migration. -/
  rows : ∀ versions ∈ db.migrations, versions = [] ∨ ∃ m ∈ ms.list, versions = [m.version]
  /-- Every migration up to the recorded version took effect. -/
  applied : ∀ m ∈ ms.list, m.version ≤ db.version → m.blank = true ∨ m.version ∈ db.applied
  /-- A catalog migration took effect once, with the write of its version. -/
  catalog : ∀ m ∈ ms.list, m.online = false → m.blank = false →
    db.applied.count m.version = if m.version ≤ db.version then 1 else 0
  /-- An invalid index was left by the next migration, or is none of the runner's and no online
  migration has been reached. -/
  invalid : ∀ n, db.objects.lookup n = some false →
    (start.objects.lookup n = some false ∧
        ∀ m ∈ ms.list, m.online = true → db.version < m.version) ∨
      ∃ m, NextAfter ms db.version m ∧ m.online = true

/-- All migrations are recorded. -/
structure Done (ms : Migrations) (db : SchemaDb) : Prop where
  table : db.migrations.isSome = true
  all : ∀ m ∈ ms.list, m.version ≤ db.version

section

variable {ms : Migrations} {start db db' : SchemaDb} {m m' : Migration}

theorem Migrations.eq_of_version (hm : m ∈ ms.list) (hm' : m' ∈ ms.list)
    (h : m.version = m'.version) : m = m' := by
  have hnodup : (ms.list.map Migration.version).Nodup :=
    List.pairwise_map.2 (ms.sorted.imp fun hlt ↦ hlt.ne)
  exact List.inj_on_of_nodup_map hnodup hm hm' h

theorem NextAfter.unique {v : ℤ} (h : NextAfter ms v m) (h' : NextAfter ms v m') : m = m' :=
  Migrations.eq_of_version h.mem h'.mem
    (le_antisymm (h.first m' h'.mem h'.pending) (h'.first m h.mem h.pending))

/-- The first migration of those that are left is the next one, unless it has been reached. -/
theorem nextAfter_of_append {v : ℤ} {done rest : List Migration}
    (hlist : ms.list = done ++ m :: rest) (hdone : ∀ m ∈ done, m.version ≤ v)
    (hpending : v < m.version) : NextAfter ms v m := by
  refine ⟨by simp [hlist], hpending, fun m' hm' hpending' ↦ ?_⟩
  have hsorted := ms.sorted
  rw [hlist, List.pairwise_append, List.pairwise_cons] at hsorted
  rw [hlist, List.mem_append, List.mem_cons] at hm'
  rcases hm' with hm' | rfl | hm'
  · exact absurd (hdone m' hm') (not_le.2 hpending')
  · exact le_rfl
  · exact (hsorted.2.1.1 m' hm').le

/-- The migrations up to the next one are those recorded and the next one. -/
theorem NextAfter.le_iff {v : ℤ} (h : NextAfter ms v m) (hm' : m' ∈ ms.list) :
    m'.version ≤ m.version ↔ m'.version ≤ v ∨ m' = m := by
  constructor
  · intro hle
    refine or_iff_not_imp_left.2 fun hnot ↦ Migrations.eq_of_version hm' h.mem (le_antisymm hle ?_)
    exact h.first m' hm' (not_le.1 hnot)
  · rintro (hle | rfl)
    · exact hle.trans h.pending.le
    · exact le_rfl

theorem Untouched.migrated (h : start.Untouched) : Migrated ms start start := by
  have hversion : start.version = 0 := by simp [SchemaDb.version, h.migrations]
  have hpending : ∀ m ∈ ms.list, ¬m.version ≤ start.version := by
    intro m hm hle
    have := ms.positive m hm
    omega
  constructor
  · intro hsome
    simp [h.migrations] at hsome
  · intro versions hv
    simp [h.migrations] at hv
  · exact fun m hm hle ↦ (hpending m hm hle).elim
  · intro m hm _ _
    rw [h.applied, List.count_nil, if_neg (hpending m hm)]
  · exact fun n hn ↦ Or.inl ⟨hn, fun m hm _ ↦ not_le.1 (hpending m hm)⟩

/-- The version that is recorded, and its row. -/
theorem Migrated.version_rows (h : Migrated ms start db) {versions : List ℤ}
    (htable : db.migrations = some versions) :
    (versions = [] ∧ db.version = 0) ∨ (versions = [db.version] ∧ 1 ≤ db.version) := by
  rcases h.rows versions htable with rfl | ⟨m, hm, rfl⟩
  · exact Or.inl ⟨rfl, by simp [SchemaDb.version, htable]⟩
  · have hversion : db.version = m.version := by simp [SchemaDb.version, htable]
    exact Or.inr ⟨by rw [hversion], hversion ▸ ms.positive m hm⟩

/-- Whatever happens to indexes while the next migration is online is made good later. -/
theorem Migrated.atOnline (h : Migrated ms start db) (hm : NextAfter ms db.version m)
    (honline : m.online = true) (objects : Objects) {applied : List ℤ}
    (happlied : applied = db.applied ∨ applied = db.applied ++ [m.version]) :
    Migrated ms start { db with objects := objects, applied := applied } := by
  refine ⟨h.schema, h.rows, fun m' hm' hle ↦ ?_, fun m' hm' hcatalog hblank ↦ ?_,
    fun n _ ↦ Or.inr ⟨m, hm, honline⟩⟩
  · refine (h.applied m' hm' hle).imp id fun hmem ↦ ?_
    rcases happlied with rfl | rfl
    · exact hmem
    · exact List.mem_append_left _ hmem
  · have hne : m'.version ≠ m.version := by
      intro heq
      obtain rfl := Migrations.eq_of_version hm' hm.mem heq
      rw [honline] at hcatalog
      cases hcatalog
    refine Eq.trans ?_ (h.catalog m' hm' hcatalog hblank)
    rcases happlied with rfl | rfl
    · rfl
    · simp [hne.symm]

/-- The version of the next migration is written. -/
theorem Migrated.bump (h : Migrated ms start db) (hm : NextAfter ms db.version m)
    (hschema : db'.schema = true) (hrows : db'.migrations = some [m.version])
    (happlied : db'.applied = if m.online = true ∨ m.blank = true then db.applied
      else db.applied ++ [m.version])
    (heffect : m.online = true → m.version ∈ db.applied)
    (hinvalid : ∀ n, db'.objects.lookup n = some false →
      m.online = false ∧ db.objects.lookup n = some false) : Migrated ms start db' := by
  have hversion : db'.version = m.version := by simp [SchemaDb.version, hrows]
  have hnew : ¬m.version ≤ db.version := not_le.2 hm.pending
  constructor
  · exact fun _ ↦ hschema
  · intro versions hv
    rw [hrows] at hv
    cases hv
    exact Or.inr ⟨m, hm.mem, rfl⟩
  · intro m' hm' hle
    rw [hversion, hm.le_iff hm'] at hle
    rcases hle with hle | rfl
    · refine (h.applied m' hm' hle).imp id fun hmem ↦ ?_
      rw [happlied]
      split
      · exact hmem
      · exact List.mem_append_left _ hmem
    · rw [happlied]
      split
      · rename_i hcase
        exact hcase.symm.imp id heffect
      · exact Or.inr (by simp)
  · intro m' hm' hcatalog hblank
    rw [hversion, happlied]
    have hcount := h.catalog m' hm' hcatalog hblank
    by_cases heq : m' = m
    · subst heq
      rw [if_neg hnew] at hcount
      simp [hcatalog, hblank, hcount]
    · have hne : m.version ≠ m'.version := fun hv ↦
        heq (Migrations.eq_of_version hm' hm.mem hv.symm)
      have hsame : m'.version ≤ m.version ↔ m'.version ≤ db.version := by
        rw [hm.le_iff hm', or_iff_left heq]
      rw [if_congr hsame rfl rfl, ← hcount]
      split
      · rfl
      · simp [hne]
  · intro n hn
    obtain ⟨hcatalog, hold⟩ := hinvalid n hn
    rw [hversion]
    rcases h.invalid n hold with ⟨hstart, hnone⟩ | ⟨m', hm', honline⟩
    · refine Or.inl ⟨hstart, fun m' hm' honline ↦ ?_⟩
      by_contra hle
      rw [not_lt, hm.le_iff hm'] at hle
      rcases hle with hle | rfl
      · exact absurd (hnone m' hm' honline) (not_lt.2 hle)
      · rw [hcatalog] at honline
        cases honline
    · obtain rfl := hm.unique hm'
      rw [hcatalog] at honline
      cases honline

/-- When all migrations are recorded, the last one is, and no index of the runner is invalid. -/
theorem Migrated.ended (h : Migrated ms start db) (hdone : Done ms db) :
    db.version = ms.last ∧ ∀ n, db.objects.lookup n = some false →
      start.objects.lookup n = some false ∧ ∀ m ∈ ms.list, m.online = false := by
  obtain ⟨versions, htable⟩ := Option.isSome_iff_exists.1 hdone.table
  constructor
  · rcases hlast : ms.list.getLast? with - | l
    · -- there are no migrations
      have hnil : ms.list = [] := List.getLast?_eq_none_iff.1 hlast
      rw [Migrations.last, hlast]
      rcases h.rows versions htable with rfl | ⟨m, hm, -⟩
      · simp [SchemaDb.version, htable]
      · simp [hnil] at hm
    · have hl : l ∈ ms.list := List.mem_of_getLast? hlast
      rw [Migrations.last, hlast]
      show db.version = l.version
      refine le_antisymm ?_ (hdone.all l hl)
      rcases h.rows versions htable with rfl | ⟨m, hm, rfl⟩
      · have := ms.positive l hl
        simp only [SchemaDb.version, htable, Option.bind_some, List.head?_nil, Option.getD_none]
        omega
      · obtain ⟨init, hinit⟩ := List.getLast?_eq_some_iff.1 hlast
        have hversion : db.version = m.version := by simp [SchemaDb.version, htable]
        rw [hversion]
        have hsorted := ms.sorted
        rw [hinit, List.pairwise_append] at hsorted
        rw [hinit, List.mem_append, List.mem_singleton] at hm
        rcases hm with hm | rfl
        · exact (hsorted.2.2 m hm l (by simp)).le
        · exact le_rfl
  · intro n hn
    rcases h.invalid n hn with ⟨hstart, hnone⟩ | ⟨m, hm, -⟩
    · refine ⟨hstart, fun m hm ↦ ?_⟩
      by_contra honline
      exact absurd (hdone.all m hm) (not_le.2 (hnone m hm (by simpa using honline)))
    · exact absurd (hdone.all m hm.mem) (not_le.2 hm.pending)

end

/-! ### One call -/

/-- The database once its migrations table exists. -/
def SchemaDb.ensured (db : SchemaDb) : SchemaDb :=
  { db with schema := true, migrations := some (db.migrations.getD []) }

@[simp] theorem SchemaDb.version_ensured (db : SchemaDb) : db.ensured.version = db.version := by
  cases h : db.migrations <;> simp [SchemaDb.ensured, SchemaDb.version, h]

@[simp] theorem SchemaDb.objects_ensured (db : SchemaDb) : db.ensured.objects = db.objects := rfl

@[simp] theorem SchemaDb.applied_ensured (db : SchemaDb) : db.ensured.applied = db.applied := rfl

theorem SchemaDb.ensured_eq {db : SchemaDb} (hschema : db.schema = true)
    (htable : db.migrations.isSome = true) : db.ensured = db := by
  obtain ⟨versions, hversions⟩ := Option.isSome_iff_exists.1 htable
  cases db
  simp_all [SchemaDb.ensured]

theorem Migrated.ensured {ms : Migrations} {start db : SchemaDb} (h : Migrated ms start db) :
    Migrated ms start db.ensured := by
  refine ⟨fun _ ↦ rfl, ?_, ?_, ?_, ?_⟩
  · intro versions hv
    cases hm : db.migrations with
    | none =>
      simp only [SchemaDb.ensured, hm, Option.getD_none, Option.mem_def, Option.some.injEq] at hv
      exact Or.inl hv.symm
    | some vs =>
      simp only [SchemaDb.ensured, hm, Option.getD_some, Option.mem_def, Option.some.injEq] at hv
      exact hv ▸ h.rows vs hm
  · simpa using h.applied
  · simpa using h.catalog
  · simpa using h.invalid

section

variable {ms : Migrations} {start db work : SchemaDb} {m : Migration} {faulty : Prop}
variable {G : SchemaDb → SchemaDb → Prop} {X : SchemaError → Prop}

theorem wpM_createSchemaIfMissing {Q : Unit → Conn SchemaDb → SchemaDb → Prop}
    (hQ : Q () (.active { work with schema := true }) db) :
    wpM postgres faulty G createSchemaIfMissing Q X (.active work) db := by
  refine wpM_bind (wpM_query_active ?_)
  show wpM postgres faulty G (if (!work.schema) = true then send .createSchema else pure ()) Q X
    (.active work) db
  split
  · rename_i hnone
    refine wpM_query_active ?_
    show Served (if work.schema then _ else _) _ _
    rw [if_neg (by simpa using hnone)]
    exact hQ
  · rename_i hsome
    have hsame : ({ work with schema := true } : SchemaDb) = work := by
      cases work
      simp_all
    rw [hsame] at hQ
    exact wpM_pure hQ

theorem wpM_createTableIfMissing {Q : Unit → Conn SchemaDb → SchemaDb → Prop}
    (hQ : Q () (.active { work with migrations := some (work.migrations.getD []) }) db) :
    wpM postgres faulty G createTableIfMissing Q X (.active work) db := by
  refine wpM_bind (wpM_query_active ?_)
  show wpM postgres faulty G
    (if (!work.migrations.isSome) = true then send .createMigrationsTable else pure ()) Q X
    (.active work) db
  rcases hm : work.migrations with - | versions
  · refine wpM_query_active ?_
    show Served (if work.migrations.isSome then _ else _) _ _
    rw [hm] at hQ ⊢
    exact hQ
  · have hsame :
        ({ work with migrations := some (work.migrations.getD []) } : SchemaDb) = work := by
      cases work
      simp_all
    rw [hsame] at hQ
    exact wpM_pure hQ

/-- The first transaction of a call. -/
theorem wpM_ensureMigrationsTable (hG : G db db.ensured) :
    wpM postgres faulty G ensureMigrationsTable
      (fun v c db' ↦ v = db.version ∧ c = .idle ∧ db' = db.ensured) X .idle db :=
  wpM_transaction (wpM_bind (wpM_createSchemaIfMissing (wpM_bind (wpM_createTableIfMissing
    (wpM_bind (wpM_query_active (wpM_bind (wpM_commitTx hG
      (wpM_pure ⟨db.version_ensured, rfl, rfl⟩)))))))))

/-- The statement that writes a version, when the rows are those of a runner. -/
theorem Migrated.run_writeVersion (h : Migrated ms start db) (htable : db.migrations.isSome = true)
    (hwork : work.migrations = db.migrations) (v : ℤ) :
    (db.version = 0 → SchemaStmt.run (.insertVersion v) work =
      .ok ((), { work with migrations := some [v] })) ∧
    (db.version ≠ 0 → SchemaStmt.run (.updateVersion v) work =
      .ok ((), { work with migrations := some [v] })) := by
  obtain ⟨versions, hv⟩ := Option.isSome_iff_exists.1 htable
  rcases h.version_rows hv with ⟨rfl, hzero⟩ | ⟨hone, hpos⟩
  · refine ⟨fun _ ↦ ?_, fun hne ↦ (hne hzero).elim⟩
    simp [SchemaStmt.run, hwork, hv]
  · refine ⟨fun hzero ↦ by omega, fun _ ↦ ?_⟩
    rw [hone] at hv
    simp [SchemaStmt.run, hwork, hv]

theorem wpM_writeVersion_active (h : Migrated ms start db) (htable : db.migrations.isSome = true)
    (hwork : work.migrations = db.migrations) {v : ℤ} {Q : Unit → Conn SchemaDb → SchemaDb → Prop}
    (hQ : Q () (.active { work with migrations := some [v] }) db) :
    wpM postgres faulty G (writeVersion v db.version) Q X (.active work) db := by
  obtain ⟨hinsert, hupdate⟩ := h.run_writeVersion htable hwork v
  rw [writeVersion]
  split
  · rename_i hzero
    refine wpM_query_active ?_
    show Served (SchemaStmt.run (.insertVersion v) work) _ _
    rw [hinsert hzero]
    exact hQ
  · rename_i hzero
    refine wpM_query_active ?_
    show Served (SchemaStmt.run (.updateVersion v) work) _ _
    rw [hupdate hzero]
    exact hQ

theorem wpM_writeVersion_idle (h : Migrated ms start db) (htable : db.migrations.isSome = true)
    {v : ℤ} {Q : Unit → Conn SchemaDb → SchemaDb → Prop}
    (hG : G db { db with migrations := some [v] })
    (hQ : Q () .idle { db with migrations := some [v] }) :
    wpM postgres faulty G (writeVersion v db.version) Q X .idle db := by
  obtain ⟨hinsert, hupdate⟩ := h.run_writeVersion htable rfl v
  rw [writeVersion]
  split
  · rename_i hzero
    refine wpM_query_idle (fun _ db' hdb' ↦ by cases hdb') ?_
    show Served (SchemaStmt.run (.insertVersion v) db) _ _
    rw [hinsert hzero]
    exact ⟨hG, hQ⟩
  · rename_i hzero
    refine wpM_query_idle (fun _ db' hdb' ↦ by cases hdb') ?_
    show Served (SchemaStmt.run (.updateVersion v) db) _ _
    rw [hupdate hzero]
    exact ⟨hG, hQ⟩

/-- The drops of a cleanup, by induction on the names that are left. -/
theorem wpM_dropIndexes
    (hG : ∀ o o' : Objects, G { db with objects := o } { db with objects := o' })
    (names : List String) (o : Objects) (hall : ∀ n, o.lookup n = some false → n ∈ names) :
    wpM postgres faulty G (dropIndexes names)
      (fun _ c db' ↦ c = .idle ∧ ∃ o' : Objects, db' = { db with objects := o' } ∧
        ∀ n, o'.lookup n ≠ some false) X .idle { db with objects := o } := by
  induction names generalizing o with
  | nil => exact wpM_pure ⟨rfl, o, rfl, fun n hn ↦ List.not_mem_nil (hall n hn)⟩
  | cons name names ih =>
    refine wpM_bind (wpM_query_idle (fun _ db' hdb' ↦ ?_) ⟨hG o _, ih (o.erase name) fun n hn ↦ ?_⟩)
    · change db' ∈ (if (o.lookup name).isSome then [_] else []) at hdb'
      split at hdb'
      · rw [List.mem_singleton.1 hdb']
        exact hG o _
      · cases hdb'
    · have hne : n ≠ name := by
        rintro rfl
        rw [AList.lookup_erase] at hn
        cases hn
      rw [AList.lookup_erase_ne hne] at hn
      exact (List.mem_cons.1 (hall n hn)).resolve_left hne

theorem wpM_cleanupInvalidIndexes
    (hG : ∀ o o' : Objects, G { db with objects := o } { db with objects := o' }) :
    wpM postgres faulty G cleanupInvalidIndexes
      (fun _ c db' ↦ c = .idle ∧ ∃ o' : Objects, db' = { db with objects := o' } ∧
        ∀ n, o'.lookup n ≠ some false) X .idle db := by
  refine wpM_bind (wpM_query_idle (fun _ db' hdb' ↦ by cases hdb') ⟨hG db.objects db.objects, ?_⟩)
  refine wpM_dropIndexes hG _ db.objects fun n hn ↦ List.mem_map.2 ⟨(n, false), ?_, rfl⟩
  exact Table.mem_select_iff.2 ⟨hn, rfl⟩

/-- The statement of an online migration, when no index is invalid. -/
theorem wpM_execute_online (honline : m.online = true)
    (hvalid : ∀ n, db.objects.lookup n ≠ some false)
    (hG : ∀ o : Objects, G db { db with objects := o } ∧ G db (db.log m o)) :
    wpM postgres faulty G (send (.execute m))
      (fun _ c db' ↦ c = .idle ∧ ∃ o : Objects, db' = db.log m o ∧ ∀ n, o.lookup n ≠ some false) X
      .idle db := by
  have hserved : ∀ o : Objects, db.execute m = .ok ((), db.log m o) →
      (∀ n, o.lookup n ≠ some false) → Served (SchemaStmt.run (.execute m) db) X fun _ db' ↦
        G db db' ∧ Conn.idle = (Conn.idle : Conn SchemaDb) ∧ ∃ o : Objects, db' = db.log m o ∧
          ∀ n, o.lookup n ≠ some false := by
    intro o hrun ho
    rw [SchemaStmt.run, hrun]
    exact ⟨(hG o).2, rfl, o, rfl, ho⟩
  have htorn : ∀ {c : Bool} {index : String}, faulty →
      ∀ db' ∈ (if c then [db.invalidate index] else []), G db db' := by
    intro c index _ db' hdb'
    split at hdb'
    · rw [List.mem_singleton.1 hdb']
      exact (hG _).1
    · cases hdb'
  obtain ⟨version, sql⟩ := m
  rcases sql with _ | ⟨index⟩ | ⟨index⟩
  · cases honline
  · refine wpM_query_idle htorn ?_
    rcases hold : db.objects.lookup index with - | - | -
    · refine hserved (db.objects.insert index true) (by simp only [SchemaDb.execute, hold])
        fun n ↦ ?_
      by_cases hn : n = index
      · subst hn
        rw [AList.lookup_insert]
        decide
      · rw [AList.lookup_insert_ne hn]
        exact hvalid n
    · exact absurd hold (hvalid index)
    · exact hserved db.objects (by simp only [SchemaDb.execute, hold]) hvalid
  · refine wpM_query_idle htorn (hserved (db.objects.erase index) rfl fun n ↦ ?_)
    by_cases hn : n = index
    · subst hn
      rw [AList.lookup_erase]
      decide
    · rw [AList.lookup_erase_ne hn]
      exact hvalid n

/-- What the runner never does to a state it keeps: take back a migration, or break the invariant.
-/
def Keeps (ms : Migrations) (start db db' : SchemaDb) : Prop :=
  Migrated ms start db → Migrated ms start db' ∧ db.version ≤ db'.version

theorem Keeps.refl (ms : Migrations) (start db : SchemaDb) : Keeps ms start db db :=
  fun h ↦ ⟨h, le_rfl⟩

theorem Keeps.trans {db' db'' : SchemaDb} (h : Keeps ms start db db')
    (h' : Keeps ms start db' db'') : Keeps ms start db db'' := fun hdb ↦
  ⟨(h' (h hdb).1).1, (h hdb).2.trans (h' (h hdb).1).2⟩

/-- An error that is not due to a fault is the refusal of a catalog migration. -/
def Refused (ms : Migrations) (e : SchemaError) : Prop :=
  ∃ m ∈ ms.list, m.online = false ∧ e = .refused m.version

/-- What the loop has reached: the table exists, and once the invalid indexes have been dropped
there is none. -/
structure Reached (ms : Migrations) (start : SchemaDb) (cleaned : Bool) (db : SchemaDb) : Prop where
  kept : Migrated ms start db
  table : db.migrations.isSome = true
  cleaned : cleaned = true → ∀ n, db.objects.lookup n ≠ some false

variable {cleaned : Bool}

/-- One online migration. -/
theorem wpM_applyOnline (h : Reached ms start cleaned db) (hm : NextAfter ms db.version m)
    (honline : m.online = true) :
    wpM postgres faulty (Keeps ms start) (applyOnline m db.version cleaned)
      (fun _ c db' ↦ c = .idle ∧ Reached ms start true db' ∧ db'.version = m.version) X .idle
      db := by
  -- whatever becomes of the indexes, the invariant holds as long as the version is the old one
  have hobjects : ∀ o : Objects, Migrated ms start { db with objects := o } :=
    fun o ↦ h.kept.atOnline hm honline o (Or.inl rfl)
  have hlogged : ∀ o : Objects, Migrated ms start (db.log m o) :=
    fun o ↦ h.kept.atOnline hm honline o (Or.inr rfl)
  have hclean : wpM postgres faulty (Keeps ms start)
      (cleanupOnce cleaned)
      (fun _ c db' ↦ c = .idle ∧ ∃ o : Objects, db' = { db with objects := o } ∧
        ∀ n, o.lookup n ≠ some false) X .idle db := by
    rw [cleanupOnce]
    split
    · rename_i hc
      exact wpM_pure ⟨rfl, db.objects, rfl, h.cleaned hc⟩
    · exact wpM_cleanupInvalidIndexes fun o o' _ ↦ ⟨hobjects o', le_rfl⟩
  refine wpM_bind (wpM_mono hclean ?_)
  rintro - c db₁ ⟨rfl, o, rfl, ho⟩
  refine wpM_bind (wpM_mono (wpM_execute_online honline ho fun o' ↦ ?_) ?_)
  · exact ⟨fun _ ↦ ⟨hobjects o', le_rfl⟩, fun _ ↦ ⟨hlogged o', le_rfl⟩⟩
  rintro - c db₂ ⟨rfl, o', rfl, ho'⟩
  have hbump : Migrated ms start
      { (db.log m o') with migrations := some [m.version] } := by
    refine (hlogged o').bump hm (h.kept.schema h.table) rfl ?_ (fun _ ↦ ?_) fun n hn ↦
      (ho' n hn).elim
    · rw [if_pos (Or.inl honline)]
    · exact List.mem_append_right _ List.mem_cons_self
  have hversion : ∀ db' : SchemaDb, db'.migrations = some [m.version] → db'.version =
      m.version := by
    intro db' hdb'
    simp [SchemaDb.version, hdb']
  refine wpM_writeVersion_idle (hlogged o') h.table ?_
    ⟨rfl, ⟨hbump, rfl, fun _ ↦ ho'⟩, hversion _ rfl⟩
  exact fun _ ↦ ⟨hbump, hm.pending.le.trans_eq (hversion _ rfl).symm⟩

/-- One catalog migration. -/
theorem wpM_applyCatalog (h : Reached ms start cleaned db) (hm : NextAfter ms db.version m)
    (hcatalog : m.online = false) :
    wpM postgres faulty (Keeps ms start) (applyCatalog m db.version)
      (fun _ c db' ↦ c = .idle ∧ Reached ms start cleaned db' ∧ db'.version = m.version)
      (Refused ms) .idle db := by
  have hexecute : wpM postgres faulty (Keeps ms start) (runText m)
      (fun _ c db' ↦ db' = db ∧ ∃ o : Objects,
        (∀ n, o.lookup n = some false → db.objects.lookup n = some false) ∧
        c = .active (if m.blank then { db with objects := o } else db.log m o)) (Refused ms)
      (.active db) db := by
    obtain ⟨version, sql⟩ := m
    rcases sql with (_ | sql) | _
    · exact wpM_pure ⟨rfl, db.objects, fun _ hn ↦ hn, rfl⟩
    · refine wpM_query_active ?_
      show Served (SchemaStmt.run (.execute ⟨version, .catalog (some sql)⟩) db) _ _
      rcases hrun : sql.run db.objects with - | o
      · have hexec : db.execute ⟨version, .catalog (some sql)⟩ = .error (.refused version) := by
          simp only [SchemaDb.execute, hrun]
        rw [SchemaStmt.run, hexec]
        exact ⟨_, hm.mem, rfl, rfl⟩
      · have hexec : db.execute ⟨version, .catalog (some sql)⟩ =
            .ok ((), db.log ⟨version, .catalog (some sql)⟩ o) := by
          simp only [SchemaDb.execute, hrun]
        rw [SchemaStmt.run, hexec]
        exact ⟨rfl, o, sql.valid _ _ hrun, rfl⟩
    · cases hcatalog
  refine wpM_transaction (wpM_bind (wpM_mono hexecute ?_))
  rintro - c db₁ ⟨rfl, o, ho, rfl⟩
  have hversion : ∀ db' : SchemaDb, db'.migrations = some [m.version] → db'.version =
      m.version := by
    intro db' hdb'
    simp [SchemaDb.version, hdb']
  have hwork : ∀ work : SchemaDb,
      work = (if m.blank then { db₁ with objects := o } else db₁.log m o) →
      work.migrations = db₁.migrations ∧
      Reached ms start cleaned { work with migrations := some [m.version] } := by
    rintro work rfl
    have hschema := h.kept.schema h.table
    have hinvalid : ∀ n, o.lookup n = some false →
        m.online = false ∧ db₁.objects.lookup n = some false := fun n hn ↦ ⟨hcatalog, ho n hn⟩
    have hnone : cleaned = true → ∀ n, o.lookup n ≠ some false :=
      fun hc n hn ↦ h.cleaned hc n (ho n hn)
    have hoff : m.online = true → m.version ∈ db₁.applied := fun hon ↦ by
      rw [hcatalog] at hon
      cases hon
    split
    · rename_i hblank
      refine ⟨rfl, h.kept.bump hm hschema rfl ?_ hoff hinvalid, rfl, hnone⟩
      rw [if_pos (Or.inr hblank)]
    · rename_i hblank
      refine ⟨rfl, h.kept.bump hm hschema rfl ?_ hoff hinvalid, rfl, hnone⟩
      rw [if_neg (by simp [hcatalog, hblank])]
      rfl
  obtain ⟨hsame, hreached⟩ := hwork _ rfl
  refine wpM_bind (wpM_writeVersion_active h.kept h.table hsame (wpM_commitTx (fun _ ↦ ?_) ?_))
  · exact ⟨hreached.kept, hm.pending.le.trans_eq (hversion _ rfl).symm⟩
  · exact ⟨rfl, hreached, hversion _ rfl⟩

/-- The loop, by induction on the migrations that are left. -/
theorem wpM_applyPending {done rest : List Migration} (hlist : ms.list = done ++ rest)
    (h : Reached ms start cleaned db) (hdone : ∀ m ∈ done, m.version ≤ db.version) :
    wpM postgres faulty (Keeps ms start) (applyPending rest db.version cleaned)
      (fun _ _ db' ↦ Migrated ms start db' ∧ Done ms db') (Refused ms) .idle db := by
  induction rest generalizing done cleaned db with
  | nil =>
    refine wpM_pure ⟨h.kept, h.table, fun m hm ↦ hdone m ?_⟩
    simpa [hlist] using hm
  | cons m rest ih =>
    have hsplit : ms.list = (done ++ [m]) ++ rest := by simp [hlist]
    have hnext : ∀ {db' : SchemaDb}, db.version ≤ db'.version → m.version ≤ db'.version →
        ∀ m' ∈ done ++ [m], m'.version ≤ db'.version := by
      intro db' hle hm' m' hmem
      rcases List.mem_append.1 hmem with hmem | hmem
      · exact (hdone m' hmem).trans hle
      · rwa [List.mem_singleton.1 hmem]
    rw [applyPending]
    split
    · rename_i hle
      exact ih hsplit h (hnext le_rfl hle)
    rename_i hpending
    have hm : NextAfter ms db.version m := nextAfter_of_append hlist hdone (not_le.1 hpending)
    split
    · rename_i honline
      refine wpM_bind (wpM_mono (wpM_applyOnline h hm honline) ?_)
      rintro - c db' ⟨rfl, hreached, hversion⟩
      rw [← hversion]
      exact ih hsplit hreached (hnext (hversion ▸ hm.pending.le) hversion.ge)
    · rename_i honline
      refine wpM_bind (wpM_mono (wpM_applyCatalog h hm (by simpa using honline)) ?_)
      rintro - c db' ⟨rfl, hreached, hversion⟩
      rw [← hversion]
      exact ih hsplit hreached (hnext (hversion ▸ hm.pending.le) hversion.ge)

/-- One call. -/
theorem wpM_runMigrations (h : Migrated ms start db) :
    wpM postgres faulty (Keeps ms start) (runMigrations ms)
      (fun _ _ db' ↦ Migrated ms start db' ∧ Done ms db') (Refused ms) .idle db := by
  refine wpM_bind (wpM_mono (wpM_ensureMigrationsTable fun _ ↦ ⟨h.ensured, by simp⟩) ?_)
  rintro v c db' ⟨rfl, rfl, rfl⟩
  rw [← SchemaDb.version_ensured]
  have hlist : ms.list = [] ++ ms.list := rfl
  exact wpM_applyPending hlist ⟨h.ensured, rfl, by simp⟩ (by simp)

/-- A call that finds all migrations recorded changes nothing. -/
theorem wpM_runMigrations_done (h : Migrated ms start db) (hdone : Done ms db) :
    wpM postgres faulty (fun db db' ↦ db' = db) (runMigrations ms) (fun _ _ _ ↦ True) X .idle
    db := by
  have hensured : db.ensured = db := SchemaDb.ensured_eq (h.schema hdone.table) hdone.table
  have hskip : ∀ rest : List Migration, (∀ m ∈ rest, m.version ≤ db.version) →
      applyPending rest db.version false = pure () := by
    intro rest
    induction rest with
    | nil => exact fun _ ↦ rfl
    | cons m rest ih =>
      intro hall
      rw [applyPending, if_pos (hall m List.mem_cons_self)]
      exact ih fun m' hm' ↦ hall m' (List.mem_cons_of_mem _ hm')
  refine wpM_bind (wpM_mono (wpM_ensureMigrationsTable hensured) ?_)
  rintro v c db' ⟨rfl, -, -⟩
  rw [hskip ms.list hdone.all]
  exact wpM_pure trivial

end

/-! ### Every sequence of calls -/

/-- **The migration runner.** A runner starts with a schema it has never touched, and is called any
number of times, each call stopped anywhere or not at all. In every state reached there is one
version row at most, every migration up to the recorded version took effect, and a catalog migration
took effect exactly once, with its version (`Migrated`); and the recorded version only grows. A call
that has returned without an error has recorded the last version and left no index invalid, and no
further call changes anything. A call that is left alone returns, without an error unless a catalog
migration is refused. -/
theorem migrations_crash_safe (ms : Migrations) {start : SchemaDb} (hstart : start.Untouched)
    {S : RunnerState} (h : Run (runnerStep ms) (fun _ _ ↦ True) ⟨start, none⟩ S) :
    Migrated ms start S.db ∧
    (∀ S', Run (runnerStep ms) (fun _ _ ↦ True) S S' → S.db.version ≤ S'.db.version) ∧
    (S.Returned (.ok ()) → S.db.version = ms.last ∧
      (∀ n, S.db.objects.lookup n = some false →
        start.objects.lookup n = some false ∧ ∀ m ∈ ms.list, m.online = false) ∧
      ∀ S', Run (runnerStep ms) (fun _ _ ↦ True) S S' → S'.db = S.db) ∧
    (S.call = some ((runMigrations ms).run, .idle) → ∃ S' r,
      Run (runnerStep ms) (fun _ l ↦ l = .next) S S' ∧ S'.Returned r ∧
        (r = .ok () ∨ ∃ m ∈ ms.list, m.online = false ∧ r = .error (.refused m.version))) := by
  -- from any state that keeps to the invariant, and whose call does, on
  have hcall : ∀ db, Migrated ms start db → wp postgres True (Keeps ms start) (runMigrations ms).run
      (fun r _ db' ↦ r = .ok () → Migrated ms start db' ∧ Done ms db') .idle db := by
    refine fun db hdb ↦ wp_mono (wpM_runMigrations hdb) fun r c db' hr ↦ ?_
    rintro rfl
    exact hr
  have hkept : ∀ {S₀ S : RunnerState}, Migrated ms start S₀.db →
      S₀.Sat postgres True (Keeps ms start)
        (fun r _ db' ↦ r = .ok () → Migrated ms start db' ∧ Done ms db') →
      Run (runnerStep ms) (fun _ _ ↦ True) S₀ S → Keeps ms start S₀.db S.db ∧
        S.Sat postgres True (Keeps ms start)
          (fun r _ db' ↦ r = .ok () → Migrated ms start db' ∧ Done ms db') :=
    fun h₀ hsat hrun ↦ rel_of_run (Keeps.refl ms start) Keeps.trans hsat
      (fun db hdb ↦ hcall db (hdb h₀).1) hrun
  obtain ⟨hrel, hsat⟩ := hkept (Untouched.migrated hstart) (fun s hs ↦ by cases hs) h
  have hmigrated : Migrated ms start S.db := (hrel (Untouched.migrated hstart)).1
  refine ⟨hmigrated, fun S' hrun ↦ ((hkept hmigrated hsat hrun).1 hmigrated).2, ?_,
    fun hcalled ↦ ?_⟩
  · rintro ⟨c, hreturned⟩
    obtain ⟨-, hdone⟩ := hsat _ hreturned rfl
    obtain ⟨hlast, hvalid⟩ := hmigrated.ended hdone
    refine ⟨hlast, hvalid, fun S' hrun ↦ ?_⟩
    refine (rel_of_run (B := postgres) (G := fun db db' ↦ db' = db) (Q := fun _ _ _ ↦ True)
      (fun _ ↦ rfl) (fun h h' ↦ h'.trans h) (fun s hs ↦ ?_) (fun db hdb ↦ ?_) hrun).1
    · rw [hreturned] at hs
      cases hs
      trivial
    · subst hdb
      exact wp_mono (wpM_runMigrations_done (X := fun _ ↦ True) hmigrated hdone)
        fun _ _ _ _ ↦ trivial
  · have hcall : wpM postgres False (Keeps ms start) (runMigrations ms) _ _ .idle S.db :=
      wpM_runMigrations hmigrated
    obtain ⟨r, c, db', hrun, hr⟩ :=
      returns (p := (runMigrations ms).run) (Keeps.refl ms start) hcall
    refine ⟨⟨db', some (.pure r, c)⟩, r, ?_, ⟨c, rfl⟩, ?_⟩
    · obtain ⟨db, call⟩ := S
      dsimp only at hcalled
      rw [hcalled]
      exact hrun
    · cases r with
      | ok u => exact Or.inl rfl
      | error e =>
        obtain ⟨m, hm, hcatalog, rfl⟩ := hr.resolve_left id
        exact Or.inr ⟨m, hm, hcatalog, rfl⟩

/-! ### A runner that is interrupted -/

/-- `CREATE TABLE`, which is refused if the name is taken. -/
def createTable (name : String) : CatalogSql where
  run t := if (t.lookup name).isSome then none else some (t.insert name true)
  valid t t' h n hn := by
    obtain ⟨-, heq⟩ := Option.ite_none_left_eq_some.1 h
    cases heq
    by_cases hname : n = name
    · subst hname
      rw [AList.lookup_insert] at hn
      cases hn
    · rwa [AList.lookup_insert_ne hname] at hn

/-- A table, an index on it, and a migration with nothing to run. -/
def threeMigrations : Migrations where
  list := [⟨1, .catalog (some (createTable "t"))⟩, ⟨2, .online (.create "i")⟩, ⟨3, .catalog none⟩]
  sorted := by decide
  positive := by decide

/-- The build of the index is interrupted, and the next call goes through. -/
def interruptedBuild : List (Label SchemaError) :=
  .call :: List.replicate 14 .next ++ [.interrupt 0 .connection, .call] ++ List.replicate 14 .next

/-- Whether the call in progress has returned without an error. -/
def returnedOk (S : RunnerState) : Bool :=
  match S.call with
  | some (.pure (.ok ()), _) => true
  | _ => false

theorem returned_of_returnedOk {S : RunnerState} (h : returnedOk S = true) :
    S.Returned (.ok ()) := by
  rw [returnedOk] at h
  split at h
  · rename_i c hc
    exact ⟨c, hc⟩
  · cases h

theorem migrations_crash_safe_interruptedBuild : ∃ S : RunnerState,
    exec (runnerStep threeMigrations) ⟨⟨false, none, ∅, []⟩, none⟩ interruptedBuild = some S ∧
      S.db.version = threeMigrations.last ∧ Migrated threeMigrations ⟨false, none, ∅, []⟩ S.db := by
  have hrun : (exec (runnerStep threeMigrations) ⟨⟨false, none, ∅, []⟩, none⟩
      interruptedBuild).any returnedOk = true := by
    decide +kernel
  obtain ⟨S, hS, hok⟩ := (Option.any_eq_true _ _).1 hrun
  have hreach : Run (runnerStep threeMigrations) (fun _ _ ↦ True) ⟨⟨false, none, ∅, []⟩, none⟩ S :=
    Run.of_exec hS fun _ _ _ ↦ trivial
  obtain ⟨hmigrated, -, hreturned, -⟩ := migrations_crash_safe threeMigrations ⟨rfl, rfl⟩ hreach
  exact ⟨S, hS, (hreturned (returned_of_returnedOk hok)).1, hmigrated⟩

end Dbos.Migrate
