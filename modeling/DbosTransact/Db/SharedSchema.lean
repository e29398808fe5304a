import DbosTransact.Db.Migrate
import DbosTransact.Foundation.Statement
import Mathlib.Data.List.Dedup

/-!
# The schema among several runners

The statements of the migration runner as a server carries them out for several clients at once. A
`SchemaDb` is read by keys: the schema, the rows of `dbos_migrations` as a whole, every named
object, and for every migration whether it took effect. A statement is carried out by
`SchemaStmt.run` in the state it meets when the rows it writes are free; a read, and the search of
an update for its rows, use the state in which the statement was sent.

`CREATE INDEX CONCURRENTLY` and `DROP INDEX CONCURRENTLY` hold a lock on the table from their start
to their end, so that two of them exclude each other and each is carried out in one step here. A
build that is still going on shows, however: a reader may find its index invalid
(`Chance.building`). A build or a drop that is interrupted commits what `SchemaStmt.torn` says
(`Chance.torn`).
-/

namespace Dbos.Migrate

open Txn Txn.Solo

/-! ### Keys -/

/-- What a statement can write. -/
inductive SchemaKey
  | schema
  | versions
  | object (name : String)
  | applied (version : ℤ)
  deriving DecidableEq

/-- The row under a key. -/
abbrev SchemaRow : SchemaKey → Type
  | .schema => Unit
  | .versions => List ℤ
  | .object _ => Bool
  | .applied _ => Unit

namespace SchemaDb

/-- The row under a key. -/
def look (db : SchemaDb) : (k : SchemaKey) → Option (SchemaRow k)
  | .schema => if db.schema then some () else none
  | .versions => db.migrations
  | .object name => db.objects.lookup name
  | .applied version => if version ∈ db.applied then some () else none

/-- Replace the row under a key. -/
def put (db : SchemaDb) : (k : SchemaKey) → Option (SchemaRow k) → SchemaDb
  | .schema, r => { db with schema := r.isSome }
  | .versions, r => { db with migrations := r }
  | .object name, r => { db with objects := Table.set db.objects name r }
  | .applied version, some _ =>
    { db with applied := if version ∈ db.applied then db.applied else db.applied ++ [version] }
  | .applied version, none => { db with applied := db.applied.filter (· ≠ version) }

theorem look_put_self (db : SchemaDb) (k : SchemaKey) (r : Option (SchemaRow k)) :
    (db.put k r).look k = r := by
  cases k with
  | schema => cases r <;> rfl
  | versions => rfl
  | object name => exact Table.lookup_set_self ..
  | applied version =>
    cases r with
    | none => simp [put, look]
    | some r =>
      simp only [put, look]
      by_cases h : version ∈ db.applied <;> simp [h]

theorem look_put_of_ne (db : SchemaDb) (k : SchemaKey) (r : Option (SchemaRow k)) (k' : SchemaKey)
    (h : k' ≠ k) : (db.put k r).look k' = db.look k' := by
  cases k with
  | schema => cases k' <;> first | rfl | exact absurd rfl h
  | versions => cases k' <;> first | rfl | exact absurd rfl h
  | object name =>
    cases k' <;> try rfl
    exact Table.lookup_set_of_ne _ _ fun heq ↦ h (congrArg _ heq)
  | applied version =>
    cases k' with
    | applied version' =>
      have hne : version' ≠ version := fun heq ↦ h (congrArg _ heq)
      cases r with
      | none => simp [put, look, hne]
      | some r =>
        simp only [put, look]
        by_cases hmem : version ∈ db.applied <;> simp [hmem, hne]
    | _ => cases r <;> rfl

end SchemaDb

/-- The schema as rows under keys. -/
def schemaStore : Store SchemaDb SchemaKey SchemaRow where
  look := SchemaDb.look
  put := SchemaDb.put
  look_put_self := SchemaDb.look_put_self
  look_put_of_ne := SchemaDb.look_put_of_ne

/-! ### Statements -/

namespace OnlineSql

/-- The index a text is about. -/
def index : OnlineSql → String
  | create index => index
  | drop index => index

/-- How the text leaves its index. -/
def result : OnlineSql → Option Bool
  | create _ => some true
  | drop _ => none

end OnlineSql

/-- What is left open when a statement is carried out. -/
structure Chance where
  /-- Which effect an interruption has, if there is one. -/
  torn : Option ℕ := none
  /-- The indexes that are being built. -/
  building : List String := []
  deriving DecidableEq

/-- The objects in which two states differ. -/
def SchemaDb.changed (db db' : SchemaDb) : List String :=
  (db.objects.keys ++ db'.objects.keys).dedup.filter fun name ↦
    db.objects.lookup name ≠ db'.objects.lookup name

namespace SchemaStmt

/-- The migration whose text a statement runs, or whose version it writes. -/
def stage : SchemaStmt → Option ℤ
  | execute m => some m.version
  | insertVersion version => some version
  | updateVersion version => some version
  | _ => none

/-- The index a statement builds unless it exists. -/
def builds : SchemaStmt → Option String
  | execute ⟨_, .online (.create index)⟩ => some index
  | _ => none

/-- The index a statement of the cleanup drops. -/
def drops : SchemaStmt → Option String
  | dropIndexConcurrently name => some name
  | _ => none

/-- The rows a statement locks and writes that takes `db` to `db'`. A concurrent build locks its
index also where it skips it, and an update its row also where it does not change it. -/
def touches (s : SchemaStmt) (db db' : SchemaDb) : List SchemaKey :=
  match s with
  | createSchema => [.schema]
  | createMigrationsTable => [.versions]
  | dropIndexConcurrently name => [.object name]
  | execute ⟨_, .catalog none⟩ => []
  | execute ⟨version, .catalog (some _)⟩ => .applied version :: (db.changed db').map .object
  | execute ⟨version, .online (.create index)⟩ => [.object index, .applied version]
  | execute ⟨version, .online (.drop index)⟩ => [.object index, .applied version]
  | insertVersion _ => [.versions]
  | updateVersion _ => if db.migrations = some [] then [] else [.versions]
  | _ => []

/-- The rows a statement leaves. -/
def changes (s : SchemaStmt) (db db' : SchemaDb) : List (Σ k : SchemaKey, Option (SchemaRow k)) :=
  (s.touches db db').map fun k ↦ ⟨k, db'.look k⟩

/-- Carry out a statement in one state. -/
def carry (s : SchemaStmt) (db : SchemaDb) : Outcome SchemaKey SchemaRow SchemaError s.Res :=
  match s.run db with
  | .error e => .fail e
  | .ok (a, db') => .done a (s.changes db db')

/-- Carry out a statement that may be interrupted; what is reported then does not matter. -/
def carryConcurrently (s : SchemaStmt) (a : s.Res) (c : Chance) (db : SchemaDb) :
    Outcome SchemaKey SchemaRow SchemaError s.Res :=
  match c.torn with
  | none => s.carry db
  | some n =>
    match (s.torn db)[n]? with
    | none => .wait
    | some db' => .done a (s.changes db db')

/-- Carry out a statement in the view of its session. -/
def share (c : Chance) (v : View SchemaDb SchemaKey SchemaRow SchemaStmt) :
    (s : SchemaStmt) → Outcome SchemaKey SchemaRow SchemaError s.Res
  | schemaExists => schemaExists.carry v.base
  | migrationsTableExists => migrationsTableExists.carry v.base
  | readVersionOpt => readVersionOpt.carry v.base
  | selectInvalidIndexes => (selectInvalidIndexes.carry v.base).map (· ++ c.building)
  | dropIndexConcurrently name => (dropIndexConcurrently name).carryConcurrently () c v.cur
  | execute m => (execute m).carryConcurrently () c v.cur
  | updateVersion version =>
    -- the rows to update are those of the snapshot
    if v.base.migrations = some [] then .read () else (updateVersion version).carry v.cur
  | s => s.carry v.cur

/-- The state a statement leaves: that of `SchemaStmt.run`, or one of an interruption. -/
def Leads (s : SchemaStmt) (c : Chance) (db db' : SchemaDb) : Prop :=
  (∃ a, s.run db = .ok (a, db')) ∨ c.torn.isSome = true ∧ db' ∈ s.torn db

variable {s : SchemaStmt} {c : Chance} {db db' : SchemaDb}

theorem carry_done {a : s.Res} {ch : List (Σ k : SchemaKey, Option (SchemaRow k))}
    (h : s.carry db = .done a ch) : ∃ db', s.run db = .ok (a, db') ∧ ch = s.changes db db' := by
  rw [carry] at h
  split at h <;> cases h
  exact ⟨_, by assumption, rfl⟩

theorem carryConcurrently_done {a₀ a : s.Res} {ch : List (Σ k : SchemaKey, Option (SchemaRow k))}
    (h : s.carryConcurrently a₀ c db = .done a ch) :
    ∃ db', s.Leads c db db' ∧ ch = s.changes db db' := by
  rw [carryConcurrently] at h
  split at h
  · obtain ⟨db', hrun, hch⟩ := carry_done h
    exact ⟨db', Or.inl ⟨a, hrun⟩, hch⟩
  · rename_i n hn
    split at h <;> cases h
    exact ⟨_, Or.inr ⟨by rw [hn]; rfl, List.mem_of_getElem? (by assumption)⟩, rfl⟩

/-- Everything a statement can do: it changes nothing, or it leads to another state. -/
theorem share_done {v : View SchemaDb SchemaKey SchemaRow SchemaStmt} {a : s.Res}
    {ch : List (Σ k : SchemaKey, Option (SchemaRow k))} (h : share c v s = .done a ch) :
    ch = [] ∨ ∃ db', s.Leads c v.cur db' ∧ ch = s.changes v.cur db' := by
  have hcarry : s.carry v.cur = .done a ch → ∃ db', s.Leads c v.cur db' ∧
      ch = s.changes v.cur db' := by
    intro hc
    obtain ⟨db', hrun, hch⟩ := carry_done hc
    exact ⟨db', Or.inl ⟨a, hrun⟩, hch⟩
  cases s with
  | schemaExists =>
    rw [share] at h
    obtain ⟨db', -, hch⟩ := carry_done h
    exact Or.inl hch
  | migrationsTableExists =>
    rw [share] at h
    obtain ⟨db', -, hch⟩ := carry_done h
    exact Or.inl hch
  | readVersionOpt =>
    rw [share] at h
    obtain ⟨db', -, hch⟩ := carry_done h
    exact Or.inl hch
  | selectInvalidIndexes =>
    rw [share] at h
    obtain ⟨names, hnames, -⟩ := Outcome.map_eq_done.1 h
    obtain ⟨db', -, hch⟩ := carry_done hnames
    exact Or.inl hch
  | dropIndexConcurrently name => exact Or.inr (carryConcurrently_done h)
  | execute m => exact Or.inr (carryConcurrently_done h)
  | updateVersion version =>
    rw [share] at h
    split at h
    · cases h
      exact Or.inl rfl
    · exact Or.inr (hcarry h)
  | createSchema => exact Or.inr (hcarry h)
  | createMigrationsTable => exact Or.inr (hcarry h)
  | insertVersion version => exact Or.inr (hcarry h)

theorem nodup_touches (s : SchemaStmt) (db db' : SchemaDb) : (s.touches db db').Nodup := by
  cases s with
  | execute m =>
    obtain ⟨version, (- | sql) | (index | index)⟩ := m
    · exact List.nodup_nil
    · refine List.nodup_cons.2 ⟨by simp, List.Nodup.map (fun _ _ h ↦ SchemaKey.object.inj h) ?_⟩
      exact (List.nodup_dedup _).filter _
    · simp [touches]
    · simp [touches]
  | updateVersion version =>
    rw [touches]
    split <;> simp
  | _ => simp [touches]

/-- The writes of a statement are to the rows it touches, and leave them as in the state it leads
to. -/
theorem mem_record_changes {w : Write SchemaKey SchemaRow SchemaStmt} :
    w ∈ schemaStore.record s db (s.changes db db') ↔
      ∃ k ∈ s.touches db db', w = ⟨k, db.look k, db'.look k, s⟩ := by
  have hnd : ((s.changes db db').map Sigma.fst).Nodup := by
    simpa [changes, Function.comp_def] using s.nodup_touches db db'
  rw [schemaStore.mem_record hnd]
  simp only [changes, List.mem_map, exists_exists_and_eq_and]
  rfl

theorem mem_changed {name : String} :
    name ∈ db.changed db' ↔ db.objects.lookup name ≠ db'.objects.lookup name := by
  simp only [SchemaDb.changed, List.mem_filter, List.mem_dedup, List.mem_append, decide_eq_true_eq,
    and_iff_right_iff_imp]
  intro hne
  by_contra hnot
  obtain ⟨h, h'⟩ := not_or.1 hnot
  exact hne ((AList.lookup_eq_none.2 h).trans (AList.lookup_eq_none.2 h').symm)

/-- A statement changes no row that it does not touch. -/
theorem Leads.untouched (h : s.Leads c db db') {k : SchemaKey} (hk : k ∉ s.touches db db') :
    db'.look k = db.look k := by
  -- a statement that concerns one index, and may record a migration
  have hindex : ∀ {index : String} {objects : Objects} {applied : List ℤ},
      (∀ n, n ≠ index → objects.lookup n = db.objects.lookup n) →
      (∀ v, k = .applied v → (v ∈ applied ↔ v ∈ db.applied)) → k ≠ .object index →
      SchemaDb.look { db with objects := objects, applied := applied } k = db.look k := by
    intro index objects applied hobjects happlied hk
    cases k with
    | schema => rfl
    | versions => rfl
    | object n => exact hobjects n fun heq ↦ hk (congrArg _ heq)
    | applied v => simp [SchemaDb.look, happlied v rfl]
  have hlogged : ∀ {version : ℤ}, k ≠ .applied version →
      ∀ v, k = .applied v → (v ∈ db.applied ++ [version] ↔ v ∈ db.applied) := by
    rintro version hne v rfl
    simpa using fun heq : v = version ↦ absurd (congrArg _ heq) hne
  have hsame : ∀ v, k = .applied v → (v ∈ db.applied ↔ v ∈ db.applied) := fun _ _ ↦ Iff.rfl
  have hinsert : ∀ {index : String} {b : Bool} (n : String), n ≠ index →
      (db.objects.insert index b).lookup n = db.objects.lookup n :=
    fun n hn ↦ AList.lookup_insert_ne hn
  have herase : ∀ {index : String} (n : String), n ≠ index →
      (db.objects.erase index).lookup n = db.objects.lookup n :=
    fun n hn ↦ AList.lookup_erase_ne hn
  have honly : ∀ {k' : SchemaKey}, s.touches db db' = [k'] → k ≠ k' := by
    rintro k' htouches rfl
    rw [htouches] at hk
    exact hk List.mem_cons_self
  have hboth : ∀ {k₁ k₂ : SchemaKey}, s.touches db db' = [k₁, k₂] → k ≠ k₁ ∧ k ≠ k₂ := by
    intro k₁ k₂ htouches
    rw [htouches] at hk
    simpa using hk
  rcases h with ⟨a, hrun⟩ | ⟨-, htorn⟩
  · cases s with
    | schemaExists => cases hrun; rfl
    | migrationsTableExists => cases hrun; rfl
    | selectInvalidIndexes => cases hrun; rfl
    | readVersionOpt =>
      simp only [run] at hrun
      split at hrun <;> cases hrun
      rfl
    | createSchema =>
      simp only [run] at hrun
      split at hrun <;> cases hrun
      cases k <;> first | rfl | exact absurd rfl (honly rfl)
    | createMigrationsTable =>
      simp only [run] at hrun
      split at hrun <;> cases hrun
      cases k <;> first | rfl | exact absurd rfl (honly rfl)
    | insertVersion version =>
      simp only [run] at hrun
      split at hrun
      · cases hrun
      · split at hrun <;> cases hrun
        cases k <;> first | rfl | exact absurd rfl (honly rfl)
    | updateVersion version =>
      simp only [run] at hrun
      split at hrun <;> cases hrun
      · rfl
      · rename_i x hx
        have hne : k ≠ .versions := honly (by rw [touches, hx, if_neg (by simp)])
        cases k <;> first | rfl | exact absurd rfl hne
    | dropIndexConcurrently name =>
      cases hrun
      exact hindex herase hsame (honly rfl)
    | execute m =>
      obtain ⟨version, (- | sql) | (index | index)⟩ := m
      · cases hrun
        rfl
      · simp only [run, SchemaDb.execute] at hrun
        split at hrun <;> cases hrun
        rename_i objects hobjects
        simp only [touches, List.mem_cons, List.mem_map, not_or, not_exists, not_and] at hk
        cases k with
        | schema => rfl
        | versions => rfl
        | object n =>
          by_contra hne
          exact hk.2 n (mem_changed.2 (Ne.symm hne)) rfl
        | applied v => simp [SchemaDb.look, SchemaDb.log, hlogged hk.1 v rfl]
      · simp only [run, SchemaDb.execute] at hrun
        split at hrun <;> cases hrun
        · exact hindex hinsert (hlogged (hboth rfl).2) (hboth rfl).1
        · exact hindex (fun _ _ ↦ rfl) (hlogged (hboth rfl).2) (hboth rfl).1
        · rfl
      · cases hrun
        exact hindex herase (hlogged (hboth rfl).2) (hboth rfl).1
  · cases s with
    | dropIndexConcurrently name =>
      simp only [torn] at htorn
      split at htorn
      · cases List.mem_singleton.1 htorn
        exact hindex hinsert hsame (honly rfl)
      · cases htorn
    | execute m =>
      obtain ⟨version, (- | sql) | (index | index)⟩ := m
      · cases htorn
      · cases htorn
      · simp only [torn] at htorn
        split at htorn
        · cases List.mem_singleton.1 htorn
          exact hindex hinsert hsame (hboth rfl).1
        · cases htorn
      · simp only [torn] at htorn
        split at htorn
        · cases List.mem_singleton.1 htorn
          exact hindex hinsert hsame (hboth rfl).1
        · cases htorn
    | _ => cases htorn

theorem map_key_record_changes (s : SchemaStmt) (db db' db₀ : SchemaDb) :
    (schemaStore.record s db₀ (s.changes db db')).map Write.key = s.touches db db' := by
  rw [schemaStore.map_key_record, changes, List.map_map]
  exact List.map_id _

/-- After a statement every row is as in the state it leads to. -/
theorem Leads.look_apply (h : s.Leads c db db') (k : SchemaKey) :
    schemaStore.look (schemaStore.apply db (schemaStore.record s db (s.changes db db'))) k =
      db'.look k := by
  have hkeys := s.map_key_record_changes db db' db
  by_cases hk : k ∈ s.touches db db'
  · have hmem := mem_record_changes.2 ⟨k, hk, rfl⟩
    exact schemaStore.look_apply_of_mem db (hkeys ▸ s.nodup_touches db db') hmem
  · have hne : ∀ w ∈ schemaStore.record s db (s.changes db db'), w.key ≠ k := by
      rintro w hw rfl
      exact hk (hkeys ▸ List.mem_map_of_mem hw)
    rw [schemaStore.look_apply_of_forall_ne hne, h.untouched hk]
    rfl

/-- What took effect has taken effect. -/
theorem Leads.applied (h : s.Leads c db db') {version : ℤ} (hv : version ∈ db.applied) :
    version ∈ db'.applied := by
  rcases h with ⟨a, hrun⟩ | ⟨-, htorn⟩
  · cases s with
    | schemaExists => cases hrun; exact hv
    | migrationsTableExists => cases hrun; exact hv
    | selectInvalidIndexes => cases hrun; exact hv
    | dropIndexConcurrently name => cases hrun; exact hv
    | execute m =>
      obtain ⟨version, (- | sql) | (index | index)⟩ := m
      · cases hrun
        exact hv
      · simp only [run, SchemaDb.execute] at hrun
        split at hrun <;> cases hrun
        exact List.mem_append_left _ hv
      · simp only [run, SchemaDb.execute] at hrun
        split at hrun <;> cases hrun
        · exact List.mem_append_left _ hv
        · exact List.mem_append_left _ hv
        · exact hv
      · cases hrun
        exact List.mem_append_left _ hv
    | insertVersion version =>
      simp only [run] at hrun
      split at hrun
      · cases hrun
      · split at hrun <;> cases hrun
        exact hv
    | _ =>
      simp only [run] at hrun
      split at hrun <;> cases hrun <;> exact hv
  · cases s with
    | dropIndexConcurrently name =>
      simp only [torn] at htorn
      split at htorn
      · cases List.mem_singleton.1 htorn
        exact hv
      · cases htorn
    | execute m =>
      obtain ⟨version, (- | sql) | (index | index)⟩ := m
      · cases htorn
      · cases htorn
      · simp only [torn] at htorn
        split at htorn
        · cases List.mem_singleton.1 htorn
          exact hv
        · cases htorn
      · simp only [torn] at htorn
        split at htorn
        · cases List.mem_singleton.1 htorn
          exact hv
        · cases htorn
    | _ => cases htorn

/-- A statement that nobody disturbs. -/
theorem share_calm {v : View SchemaDb SchemaKey SchemaRow SchemaStmt} (h : v.Calm) :
    share {} v s = s.carry v.cur := by
  cases s with
  | schemaExists => rw [share, h.base]
  | migrationsTableExists => rw [share, h.base]
  | readVersionOpt => rw [share, h.base]
  | selectInvalidIndexes =>
    rw [share, h.base]
    simp [carry, run, Outcome.map]
  | updateVersion version =>
    rw [share, h.base]
    split
    · rename_i hnil
      simp [carry, run, changes, touches, hnil, Outcome.read]
    · rfl
  | _ => rfl

end SchemaStmt

/-! ### The server -/

/-- What a statement can do to the row under a key. A version comes from a statement that writes it.
An object is changed by the text of a migration, which for an online one is about its index and does
no harm where it has been run, or by the cleanup. A migration that took effect stays recorded. -/
def LegalSchemaWrite : Write SchemaKey SchemaRow SchemaStmt → Prop
  | ⟨.schema, _, _, _⟩ => True
  | ⟨.versions, old, new, s⟩ =>
    ∀ versions ∈ new, ∀ v ∈ versions, (∃ before ∈ old, v ∈ before) ∨ v ∈ s.stage
  | ⟨.object name, old, new, s⟩ =>
    (∃ m, s = .execute m ∧ ∀ sql, m.sql = .online sql →
      sql.index = name ∧ (old = sql.result → new = sql.result)) ∨
    name ∈ s.drops ∧ (old = none → new = none)
  | ⟨.applied version, old, new, s⟩ =>
    (∃ m, s = .execute m ∧ m.version = version) ∧ (old.isSome = true → new.isSome = true)

theorem SchemaDb.look_applied {db : SchemaDb} {version : ℤ} :
    (db.look (.applied version)).isSome = true ↔ version ∈ db.applied := by
  by_cases h : version ∈ db.applied <;> simp [SchemaDb.look, h]

namespace SchemaStmt

variable {s : SchemaStmt} {c : Chance} {db db' : SchemaDb} {version : ℤ} {sql : OnlineSql}

/-- The text of an online migration changes nothing where its index is as it leaves it. -/
theorem Leads.settled (h : (execute ⟨version, .online sql⟩).Leads c db db')
    (hold : db.objects.lookup sql.index = sql.result) :
    db'.objects.lookup sql.index = sql.result := by
  cases sql with
  | create index =>
    change db.objects.lookup index = some true at hold
    rcases h with ⟨a, hrun⟩ | ⟨-, htorn⟩
    · simp only [run, SchemaDb.execute, hold] at hrun
      cases hrun
      exact hold
    · simp [torn, hold] at htorn
  | drop index =>
    change db.objects.lookup index = none at hold
    rcases h with ⟨a, hrun⟩ | ⟨-, htorn⟩
    · cases hrun
      exact AList.lookup_erase ..
    · simp [torn, hold] at htorn

/-- The text of an online migration has taken effect where it is recorded to have done so. -/
theorem Leads.effective (h : (execute ⟨version, .online sql⟩).Leads c db db')
    (hnew : db'.applied ≠ db.applied) : db'.objects.lookup sql.index = sql.result := by
  cases sql with
  | create index =>
    rcases h with ⟨a, hrun⟩ | ⟨-, htorn⟩
    · simp only [run, SchemaDb.execute] at hrun
      split at hrun <;> cases hrun
      · exact AList.lookup_insert _
      · assumption
      · exact absurd rfl hnew
    · simp only [torn] at htorn
      split at htorn
      · cases List.mem_singleton.1 htorn
        exact absurd rfl hnew
      · cases htorn
  | drop index =>
    rcases h with ⟨a, hrun⟩ | ⟨-, htorn⟩
    · cases hrun
      exact AList.lookup_erase ..
    · simp only [torn] at htorn
      split at htorn
      · cases List.mem_singleton.1 htorn
        exact absurd rfl hnew
      · cases htorn

/-- A version that is recorded was so before, or is the one that is written. -/
theorem Leads.versions (h : s.Leads c db db') (hs : .versions ∈ s.touches db db') :
    ∀ versions ∈ db'.migrations, ∀ v ∈ versions,
      (∃ before ∈ db.migrations, v ∈ before) ∨ v ∈ s.stage := by
  obtain ⟨a, hrun⟩ : ∃ a, s.run db = .ok (a, db') := by
    refine h.resolve_right fun htorn ↦ ?_
    cases s with
    | execute m => obtain ⟨version, (- | sql) | (index | index)⟩ := m <;> simp [touches] at hs
    | dropIndexConcurrently name => simp [touches] at hs
    | _ => exact absurd htorn.2 (by simp [torn])
  cases s with
  | createMigrationsTable =>
    simp only [run] at hrun
    split at hrun <;> cases hrun
    rintro versions ⟨⟩ v hv
    cases hv
  | insertVersion version =>
    simp only [run] at hrun
    split at hrun
    · cases hrun
    · rename_i before hbefore
      split at hrun <;> cases hrun
      rintro versions ⟨⟩ v hv
      rcases List.mem_append.1 hv with hv | hv
      · exact Or.inl ⟨before, hbefore, hv⟩
      · exact Or.inr (List.mem_singleton.1 hv ▸ rfl)
  | updateVersion version =>
    simp only [run] at hrun
    split at hrun <;> cases hrun
    · rename_i hnil
      simp [touches, hnil] at hs
    · rintro versions ⟨⟩ v hv
      exact Or.inr (List.mem_singleton.1 hv ▸ rfl)
  | execute m => obtain ⟨version, (- | sql) | (index | index)⟩ := m <;> simp [touches] at hs
  | _ => simp [touches] at hs

/-- Every row a statement touches is changed as the statement can. -/
theorem Leads.legal (h : s.Leads c db db') {k : SchemaKey} (hk : k ∈ s.touches db db') :
    LegalSchemaWrite ⟨k, db.look k, db'.look k, s⟩ := by
  cases k with
  | schema => trivial
  | versions => exact h.versions hk
  | object name =>
    cases s with
    | dropIndexConcurrently index =>
      obtain rfl : name = index := by simpa [touches] using hk
      refine Or.inr ⟨rfl, fun hold ↦ ?_⟩
      change db.objects.lookup name = none at hold
      rcases h with ⟨a, hrun⟩ | ⟨-, htorn⟩
      · cases hrun
        exact AList.lookup_erase ..
      · simp [torn, hold] at htorn
    | execute m =>
      refine Or.inl ⟨m, rfl, fun sql hsql ↦ ?_⟩
      obtain ⟨version, sql'⟩ := m
      obtain rfl : sql' = .online sql := hsql
      have hname : sql.index = name := by
        cases sql <;> simpa [touches, OnlineSql.index, eq_comm] using hk
      subst hname
      exact ⟨rfl, fun hold ↦ h.settled hold⟩
    | updateVersion version =>
      rw [touches] at hk
      split at hk <;> simp at hk
    | _ => simp [touches] at hk
  | applied version =>
    refine ⟨?_, fun hold ↦ SchemaDb.look_applied.2 (h.applied (SchemaDb.look_applied.1 hold))⟩
    cases s with
    | execute m =>
      refine ⟨m, rfl, ?_⟩
      obtain ⟨version', (- | sql) | (index | index)⟩ := m <;> simp_all [touches]
    | updateVersion version =>
      rw [touches] at hk
      split at hk <;> simp at hk
    | _ => simp [touches] at hk

end SchemaStmt

theorem legal_of_share (c : Chance) (v : View SchemaDb SchemaKey SchemaRow SchemaStmt)
    (s : SchemaStmt) (a : s.Res) (ch : List (Σ k : SchemaKey, Option (SchemaRow k)))
    (h : s.share c v = .done a ch) : ∀ w ∈ schemaStore.record s v.cur ch, LegalSchemaWrite w := by
  rcases SchemaStmt.share_done h with rfl | ⟨db', hleads, rfl⟩
  · simp [Store.record]
  · intro w hw
    obtain ⟨k, hk, rfl⟩ := SchemaStmt.mem_record_changes.1 hw
    exact hleads.legal hk

/-- Postgres, as several runners use it. -/
def schemaServer :
    Engine SchemaDb SchemaKey SchemaRow SchemaStmt SchemaStmt.Res SchemaError Chance :=
  openEngine schemaStore .aborted (fun c v s ↦ s.share c v) LegalSchemaWrite legal_of_share

section

variable {c : Chance} {iso : Isolation} {s : SchemaStmt} {base cur db db' : SchemaDb}
variable {others ws : List (Write SchemaKey SchemaRow SchemaStmt)}

theorem eval_share {a : s.Res} (h : schemaServer.eval c iso s base cur others = some (.ok a, ws)) :
    ∃ ch, s.share c ⟨fun _ ↦ 0, iso, base, cur, others⟩ = .done a ch ∧
      ws = schemaStore.record s cur ch := by
  obtain ⟨ch, hrun, hws, -⟩ := View.eval_ok h
  exact ⟨ch, hrun, hws⟩

/-- Everything a statement can do. -/
theorem eval_leads {a : s.Res} (h : schemaServer.eval c iso s base cur others = some (.ok a, ws)) :
    ws = [] ∨ ∃ db', s.Leads c cur db' ∧ ws = schemaStore.record s cur (s.changes cur db') := by
  obtain ⟨ch, hshare, rfl⟩ := eval_share h
  rcases SchemaStmt.share_done hshare with rfl | ⟨db', hleads, rfl⟩
  · exact Or.inl rfl
  · exact Or.inr ⟨db', hleads, rfl⟩

/-- To one runner alone the server is the one of `SchemaStmt.run`. -/
theorem eval_alone {a : s.Res} (h : s.run db = .ok (a, db')) :
    ∃ ws, schemaServer.eval {} .readCommitted s db db [] = some (.ok a, ws) ∧
      ∀ k, schemaServer.look (schemaServer.apply db ws) k = db'.look k := by
  have hshare : s.share {} ⟨fun _ ↦ 0, .readCommitted, db, db, []⟩ =
      .done a (s.changes db db') := by
    rw [SchemaStmt.share_calm ⟨rfl, rfl⟩, SchemaStmt.carry, h]
  refine ⟨schemaStore.record s db (s.changes db db'), ?_, SchemaStmt.Leads.look_apply (c := {})
    (Or.inl ⟨a, h⟩)⟩
  simp [schemaServer, openEngine, View.eval, hshare, View.held]

end

end Dbos.Migrate
