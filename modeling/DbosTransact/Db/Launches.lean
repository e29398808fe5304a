import DbosTransact.Db.SharedSchema
import DbosTransact.Foundation.Script

/-!
# Several launches at once

Any number of processes call `run_migrations` on one schema. Each reads the version once and writes
absolute versions from then on, an online migration outside any transaction; no write looks again at
what is recorded. What holds regardless, and what a runner that was overtaken does to the version,
is said here about the runs of a `System` whose sessions are runners (`Launched`).

Launches interfere in two ways, and `Orderly` excludes exactly them. A launch is overtaken: it
writes the version, or an index, after another one has written it for a later migration. And a
launch acts on an index it has misjudged: it skips the build of one that an interrupted build has
left invalid since, or drops as invalid one that another launch has built since. In every run
without them the recorded version only grows, every migration up to it took effect, and every index
is as the last migration of it left it (`version_climbs`).

The proof is one specification of a runner among others (`launchSpec`): it may rely on what took
effect, and each of its commits is a `LaunchCommit`. What a runner knows depends on its own
statements having done what they were reported to do (`Clean`), which it may assume whenever it
sends another one, because it stops at the first error. That its writes climb is no part of it: the
rows they replace are those of other launches, and of its own earlier migrations (`Kept.climbs`).
-/

namespace Dbos.Migrate

open Txn Txn.Solo

abbrev SchemaMoment : Type := Moment SchemaDb
abbrev SchemaWrite : Type := Write SchemaKey SchemaRow SchemaStmt
abbrev SchemaEffect : Type := Effect SchemaDb SchemaKey SchemaRow SchemaStmt
abbrev SchemaCommit : Type := Commit SchemaDb SchemaKey SchemaRow SchemaStmt
abbrev SchemaTrace : Type := Trace SchemaDb SchemaKey SchemaRow SchemaStmt Empty fun _ ↦ Empty

/-- The processes and the database. -/
abbrev SchemaSystem : Type :=
  System SchemaDb SchemaKey SchemaRow SchemaStmt SchemaStmt.Res SchemaError Empty (fun _ ↦ Empty)
    (Except SchemaError Unit)

abbrev SchemaLabel : Type :=
  Label SchemaStmt SchemaStmt.Res SchemaError Chance Empty (fun _ ↦ Empty) (Except SchemaError Unit)

/-- One step of the processes and the database. -/
abbrev launchStep : SchemaSystem → SchemaLabel → Option SchemaSystem :=
  System.step schemaServer fun _ q ↦ nomatch q

/-! ### Runs -/

/-- What is written is of migrations up to `v`. -/
abbrev UpTo (v : ℤ) (ws : List SchemaWrite) : Prop := ∀ w ∈ ws, ∀ v' ∈ w.stmt.stage, v' ≤ v

/-- A build does not find its index invalid, and the cleanup does not find it valid. -/
def Finds : SchemaWrite → Prop
  | ⟨.object name, old, _, s⟩ =>
    (name ∈ s.builds → old ≠ some false) ∧ (name ∈ s.drops → old ≠ some true)
  | _ => True

instance : DecidablePred Finds := fun ⟨k, _, _, _⟩ ↦
  match k with
  | .object _ => inferInstanceAs (Decidable (_ ∧ _))
  | .schema => .isTrue trivial
  | .versions => .isTrue trivial
  | .applied _ => .isTrue trivial

/-- No other launch is in the way of a commit that is made after those of `past`. -/
structure Undisturbed (past : List SchemaCommit) (c : SchemaCommit) : Prop where
  /-- No other launch has written a row for a later migration than this one does. -/
  turn : ∀ w ∈ c.writes, ∀ v ∈ w.stmt.stage, ∀ d ∈ past, d.session ≠ c.session →
    UpTo v (d.writes.filter fun w' ↦ w'.key = w.key)
  finds : ∀ w ∈ c.writes, Finds w

instance (past : List SchemaCommit) (c : SchemaCommit) : Decidable (Undisturbed past c) :=
  decidable_of_iff
    ((∀ w ∈ c.writes, ∀ v ∈ w.stmt.stage, ∀ d ∈ past, d.session ≠ c.session →
      UpTo v (d.writes.filter fun w' ↦ w'.key = w.key)) ∧ ∀ w ∈ c.writes, Finds w)
    ⟨fun h ↦ ⟨h.1, h.2⟩, fun h ↦ ⟨h.turn, h.finds⟩⟩

/-- Every session is a call of `run_migrations`, and a statement is not reported to be done that was
interrupted. -/
def Launched (ms : Migrations) : SchemaLabel → Prop
  | .spawn _ p => p = (runMigrations ms).run
  | .finish _ c => c.torn = none
  | _ => True

/-- What the step commits is committed undisturbed. -/
def Orderly (S : SchemaSystem) (l : SchemaLabel) : Prop :=
  ∀ S' c, launchStep S l = some S' → S'.history = S.history ++ [c] → Undisturbed S.history c

/-! ### What every state keeps to -/

/-- Every migration up to version `v` took effect, or has nothing to run. -/
def AppliedUpTo (ms : Migrations) (v : ℤ) (db : SchemaDb) : Prop :=
  ∀ m ∈ ms.list, m.version ≤ v → m.blank = true ∨ m.version ∈ db.applied

/-- There is one row at most, with the version of a migration, and every migration up to it took
effect. -/
structure Recorded (ms : Migrations) (db : SchemaDb) : Prop where
  rows : ∀ versions ∈ db.migrations, versions = [] ∨ ∃ m ∈ ms.list, versions = [m.version]
  applied : AppliedUpTo ms db.version db

/-- The index of an online migration is as the migration leaves it, unless a later one has been run
on it. -/
def InForce (past : List SchemaCommit) (db : SchemaDb) (m : Migration) : Prop :=
  ∀ sql, m.sql = .online sql → db.objects.lookup sql.index = sql.result ∨
    ∃ w ∈ System.written past, w.key = .object sql.index ∧ ∃ v ∈ w.stmt.stage, m.version < v

/-- A schema to which runners have been let before, if at all, and which they have left: what took
effect is recorded, and still as it was left. -/
structure Settled (ms : Migrations) (db : SchemaDb) : Prop where
  recorded : Recorded ms db
  applied : ∀ m ∈ ms.list, m.version ∈ db.applied → m.version ≤ db.version ∧ InForce [] db m

/-- The write finds no larger version than the one it leaves. -/
def Climbs : SchemaWrite → Prop
  | ⟨.versions, old, _, s⟩ => ∀ v ∈ s.stage, ∀ versions ∈ old, ∀ x ∈ versions, x ≤ v
  | _ => True

/-- The write leaves no index invalid. -/
def LeavesValid : SchemaWrite → Prop
  | ⟨.object _, _, new, _⟩ => new ≠ some false
  | _ => True

/-- The write leaves no index invalid, unless it skips the build of one that is. -/
def Finished : SchemaWrite → Prop
  | ⟨.object name, old, new, s⟩ => (name ∈ s.builds → old ≠ some false) → new ≠ some false
  | _ => True

section

variable {ms : Migrations} {db db' : SchemaDb} {m : Migration} {v last : ℤ} {ws : List SchemaWrite}

theorem AppliedUpTo.mono (h : AppliedUpTo ms v db) (happlied : ∀ x ∈ db.applied, x ∈ db'.applied) :
    AppliedUpTo ms v db' :=
  fun m hm hle ↦ (h m hm hle).imp_right (happlied _)

/-- All migrations come after version 0. -/
theorem appliedUpTo_zero : AppliedUpTo ms 0 db := by
  intro m hm hle
  have := ms.positive m hm
  omega

theorem AppliedUpTo.next (h : AppliedUpTo ms v db) (hm : NextAfter ms v m)
    (happlied : m.blank = true ∨ m.version ∈ db.applied) : AppliedUpTo ms m.version db := by
  intro m' hm' hle
  rcases (hm.le_iff hm').1 hle with hle | rfl
  · exact h m' hm' hle
  · exact happlied

theorem SchemaDb.version_eq (h : db'.migrations = db.migrations) : db'.version = db.version := by
  rw [version, version, h]

theorem Untouched.recorded (h : db.Untouched) : Recorded ms db := by
  have hversion : db.version = 0 := by simp [SchemaDb.version, h.migrations]
  refine ⟨by simp [h.migrations], ?_⟩
  rw [hversion]
  exact appliedUpTo_zero

theorem Untouched.settled (h : db.Untouched) : Settled ms db :=
  ⟨Untouched.recorded h, fun m _ hm ↦ by simp [h.applied] at hm⟩

theorem Recorded.version_nonneg (h : Recorded ms db) : 0 ≤ db.version := by
  rw [SchemaDb.version]
  rcases hrows : db.migrations with - | versions
  · exact le_rfl
  · rcases h.rows _ hrows with rfl | ⟨m, hm, rfl⟩
    · exact le_rfl
    · exact zero_le_one.trans (ms.positive m hm)

/-- The version that is recorded is the only one. -/
theorem Recorded.le_version (h : Recorded ms db) {versions : List ℤ}
    (hrows : db.migrations = some versions) {x : ℤ} (hx : x ∈ versions) : x ≤ db.version := by
  rcases h.rows _ hrows with rfl | ⟨m, -, rfl⟩
  · cases hx
  · simp [SchemaDb.version, hrows, List.mem_singleton.1 hx]

theorem Finished.valid {w : SchemaWrite} (h : Finished w) (hfinds : Finds w) : LeavesValid w := by
  obtain ⟨k, old, new, s⟩ := w
  cases k with
  | object name => exact h hfinds.1
  | _ => trivial

theorem Recorded.congr (h : Recorded ms db) (hrows : db'.migrations = db.migrations)
    (happlied : ∀ x ∈ db.applied, x ∈ db'.applied) : Recorded ms db' := by
  refine ⟨?_, ?_⟩
  · rw [hrows]
    exact h.rows
  · rw [SchemaDb.version_eq hrows]
    exact h.applied.mono happlied

/-- What took effect has taken effect, whatever is written. -/
theorem mem_applied_apply (hchain : schemaServer.Chain db ws)
    (hlegal : ∀ w ∈ ws, LegalSchemaWrite w) {x : ℤ} (hx : x ∈ db.applied) :
    x ∈ (schemaServer.apply db ws).applied := by
  refine SchemaDb.look_applied.1 (hchain.keeps (k := .applied x) (P := fun r ↦ r.isSome = true)
    (SchemaDb.look_applied.2 hx) fun old new s hw hold ↦ ?_)
  exact (hlegal _ hw).2 hold

/-- Writes that leave the versions alone. -/
theorem migrations_apply (hws : ∀ w ∈ ws, w.key ≠ .versions) :
    (schemaServer.apply db ws).migrations = db.migrations :=
  schemaServer.look_apply_of_forall_ne hws

theorem Recorded.unversioned (h : Recorded ms db) (hchain : schemaServer.Chain db ws)
    (hlegal : ∀ w ∈ ws, LegalSchemaWrite w) (hws : ∀ w ∈ ws, w.key ≠ .versions) :
    Recorded ms (schemaServer.apply db ws) ∧ (schemaServer.apply db ws).version = db.version :=
  ⟨h.congr (migrations_apply hws) fun _ hx ↦ mem_applied_apply hchain hlegal hx,
    SchemaDb.version_eq (migrations_apply hws)⟩

/-! ### Writing the version -/

/-- What writing a version does where the rows are those of `db`. A runner that has found no version
inserts one. -/
inductive VersionWrite (version last : ℤ) (db : SchemaDb) : List SchemaWrite → Prop
  | none : VersionWrite version last db []
  | insert {versions : List ℤ} : last = 0 → db.migrations = some versions → version ∉ versions →
      VersionWrite version last db
        [⟨.versions, some versions, some (versions ++ [version]), .insertVersion version⟩]
  | update {x : ℤ} : db.migrations = some [x] →
      VersionWrite version last db [⟨.versions, some [x], some [version], .updateVersion version⟩]

variable {version : ℤ} {c : Chance} {iso : Isolation} {base : SchemaDb} {others : List SchemaWrite}

theorem versionWrite_of_insert {a : Unit}
    (h : schemaServer.eval c iso (.insertVersion version) base db others = some (.ok a, ws)) :
    VersionWrite version 0 db ws := by
  rcases eval_leads h with rfl | ⟨db', ⟨u, hrun⟩ | ⟨-, htorn⟩, rfl⟩
  · exact .none
  · simp only [SchemaStmt.run] at hrun
    split at hrun
    · cases hrun
    · rename_i versions hversions
      split at hrun <;> cases hrun
      rename_i hnew
      simp only [SchemaStmt.changes, SchemaStmt.touches, List.map_singleton, Store.record]
      rw [show schemaStore.look db .versions = some versions from hversions]
      exact .insert rfl hversions hnew
  · cases htorn

theorem versionWrite_of_update {a : Unit}
    (h : schemaServer.eval c iso (.updateVersion version) base db others = some (.ok a, ws)) :
    VersionWrite version last db ws := by
  rcases eval_leads h with rfl | ⟨db', ⟨u, hrun⟩ | ⟨-, htorn⟩, rfl⟩
  · exact .none
  · simp only [SchemaStmt.run] at hrun
    split at hrun <;> cases hrun
    · rename_i hnil
      rw [SchemaStmt.changes, SchemaStmt.touches, if_pos hnil]
      exact .none
    · rename_i x hx
      rw [SchemaStmt.changes, SchemaStmt.touches, if_neg (by simp [hx])]
      simp only [List.map_singleton, Store.record]
      rw [show schemaStore.look db .versions = some [x] from hx]
      exact .update hx
  · cases htorn

/-- The row is locked, so that it is the same one when the transaction commits. -/
theorem VersionWrite.of_chain (h : VersionWrite version last db ws)
    (hchain : schemaServer.Chain db' ws) : VersionWrite version last db' ws := by
  cases h with
  | none => exact .none
  | insert hlast hversions hnew => exact .insert hlast hchain.1.symm hnew
  | update hx => exact .update hchain.1.symm

/-- The version of the next migration is written where no larger one is recorded. -/
theorem Recorded.written (h : Recorded ms db) (hm : NextAfter ms last m)
    (happlied : AppliedUpTo ms m.version db) (hw : VersionWrite m.version last db ws)
    (hclimbs : ∀ w ∈ ws, Climbs w) :
    Recorded ms (schemaServer.apply db ws) ∧ db.version ≤ (schemaServer.apply db ws).version := by
  have hnew : Recorded ms { db with migrations := some [m.version] } :=
    ⟨by rintro versions ⟨⟩; exact Or.inr ⟨m, hm.mem, rfl⟩, happlied⟩
  cases hw with
  | none => exact ⟨h, le_rfl⟩
  | insert hlast hversions hfree =>
    rcases h.rows _ hversions with rfl | ⟨m', hm', rfl⟩
    · refine ⟨hnew, ?_⟩
      rw [show db.version = 0 by simp [SchemaDb.version, hversions]]
      show 0 ≤ m.version
      exact zero_le_one.trans (ms.positive m hm.mem)
    · -- the first migration is the only one a runner inserts
      have hle : m'.version ≤ m.version :=
        hclimbs _ List.mem_cons_self _ rfl _ rfl _ List.mem_cons_self
      have hpositive := ms.positive m' hm'
      have hge : m.version ≤ m'.version := hm.first m' hm' (by omega)
      exact absurd (List.mem_singleton.2 (le_antisymm hge hle)) hfree
  | @update x hx =>
    refine ⟨hnew, ?_⟩
    rw [show db.version = x by simp [SchemaDb.version, hx]]
    exact hclimbs _ List.mem_cons_self _ rfl _ rfl _ List.mem_cons_self

end

/-! ### Statements of a migration -/

section

variable {ms : Migrations} {m : Migration} {s : SchemaStmt} {c : Chance} {iso : Isolation}
variable {base db db' : SchemaDb} {others ws : List SchemaWrite}

theorem versions_not_mem_touches_execute (m : Migration) (db db' : SchemaDb) :
    SchemaKey.versions ∉ (SchemaStmt.execute m).touches db db' := by
  obtain ⟨version, (- | sql) | (index | index)⟩ := m <;> simp [SchemaStmt.touches]

/-- A statement that is not interrupted, and does not skip an invalid index, leaves none. -/
theorem Leads.valid (h : s.Leads c db db') (htorn : c.torn = none) {name : String}
    (hname : .object name ∈ s.touches db db')
    (hindex : name ∈ s.builds → db.objects.lookup name ≠ some false) :
    db'.objects.lookup name ≠ some false := by
  obtain ⟨a, hrun⟩ : ∃ a, s.run db = .ok (a, db') := by
    refine h.resolve_right fun hmem ↦ ?_
    simp [htorn] at hmem
  cases s with
  | dropIndexConcurrently index =>
    cases hrun
    cases List.mem_singleton.1 hname
    rw [AList.lookup_erase]
    simp
  | execute m =>
    obtain ⟨version, (- | sql) | (index | index)⟩ := m
    · simp [SchemaStmt.touches] at hname
    · simp only [SchemaStmt.run, SchemaDb.execute] at hrun
      split at hrun <;> cases hrun
      rename_i objects hobjects
      simp only [SchemaStmt.touches, List.mem_cons, reduceCtorEq, List.mem_map, false_or,
        SchemaKey.object.injEq, exists_eq_right] at hname
      -- what a catalog migration leaves invalid was so before
      intro hfalse
      exact SchemaStmt.mem_changed.1 hname ((sql.valid _ _ hobjects _ hfalse).trans hfalse.symm)
    · obtain rfl : name = index := by simpa [SchemaStmt.touches] using hname
      simp only [SchemaStmt.run, SchemaDb.execute] at hrun
      split at hrun <;> cases hrun
      · simp [SchemaDb.log, AList.lookup_insert]
      · rename_i htrue
        simp [SchemaDb.log, htrue]
      · exact hindex rfl
    · obtain rfl : name = index := by simpa [SchemaStmt.touches] using hname
      cases hrun
      simp [SchemaDb.log, AList.lookup_erase]
  | updateVersion version =>
    rw [SchemaStmt.touches] at hname
    split at hname <;> simp at hname
  | _ => simp [SchemaStmt.touches] at hname

theorem finished_of_eval {a : s.Res} (htorn : c.torn = none)
    (h : schemaServer.eval c iso s base db others = some (.ok a, ws)) : ∀ w ∈ ws, Finished w := by
  rcases eval_leads h with rfl | ⟨db', hleads, rfl⟩
  · simp
  intro w hw
  obtain ⟨k, hk, rfl⟩ := SchemaStmt.mem_record_changes.1 hw
  cases k with
  | object name => exact Leads.valid hleads htorn hk
  | _ => trivial

/-- The text of a migration was run, and is recorded as having taken effect unless it has left an
index invalid. -/
theorem mem_applied_execute {a : Unit}
    (h : schemaServer.eval c iso (.execute m) base db others = some (.ok a, ws))
    (hblank : m.blank = false) (hvalid : m.online = true → ∀ w ∈ ws, LeavesValid w)
    (db₂ : SchemaDb) : m.version ∈ (schemaServer.apply db₂ ws).applied := by
  obtain ⟨ch, hshare, rfl⟩ := eval_share h
  rw [SchemaStmt.share] at hshare
  obtain ⟨db', hleads, rfl⟩ := SchemaStmt.carryConcurrently_done hshare
  -- the index of an online migration is valid afterwards
  have hindex : m.online = true → ∀ name, .object name ∈ (SchemaStmt.execute m).touches db db' →
      db'.objects.lookup name ≠ some false := fun honline name hname ↦
    hvalid honline _ (SchemaStmt.mem_record_changes.2 ⟨_, hname, rfl⟩)
  have hkey : .applied m.version ∈ (SchemaStmt.execute m).touches db db' ∧
      m.version ∈ db'.applied := by
    obtain ⟨version, (- | sql) | (index | index)⟩ := m
    · cases hblank
    · refine ⟨List.mem_cons_self, ?_⟩
      rcases hleads with ⟨u, hrun⟩ | ⟨-, htorn⟩
      · simp only [SchemaStmt.run, SchemaDb.execute] at hrun
        split at hrun <;> cases hrun
        exact List.mem_append_right _ List.mem_cons_self
      · cases htorn
    · refine ⟨by simp [SchemaStmt.touches], ?_⟩
      replace hindex := hindex rfl index List.mem_cons_self
      rcases hleads with ⟨u, hrun⟩ | ⟨-, htorn⟩
      · simp only [SchemaStmt.run, SchemaDb.execute] at hrun
        split at hrun <;> cases hrun
        · exact List.mem_append_right _ List.mem_cons_self
        · exact List.mem_append_right _ List.mem_cons_self
        · rename_i hfalse
          exact absurd hfalse hindex
      · simp only [SchemaStmt.torn] at htorn
        split at htorn
        · cases List.mem_singleton.1 htorn
          exact absurd (AList.lookup_insert _) hindex
        · cases htorn
    · refine ⟨by simp [SchemaStmt.touches], ?_⟩
      replace hindex := hindex rfl index List.mem_cons_self
      rcases hleads with ⟨u, hrun⟩ | ⟨-, htorn⟩
      · cases hrun
        exact List.mem_append_right _ List.mem_cons_self
      · simp only [SchemaStmt.torn] at htorn
        split at htorn
        · cases List.mem_singleton.1 htorn
          exact absurd (AList.lookup_insert _) hindex
        · cases htorn
  have hnd : ((schemaStore.record (SchemaStmt.execute m) db
      ((SchemaStmt.execute m).changes db db')).map Write.key).Nodup := by
    rw [SchemaStmt.map_key_record_changes]
    exact SchemaStmt.nodup_touches _ _ _
  have hlook := schemaStore.look_apply_of_mem db₂ hnd
    (SchemaStmt.mem_record_changes.2 ⟨_, hkey.1, rfl⟩)
  refine SchemaDb.look_applied.1 ?_
  rw [show (schemaServer.apply db₂ _).look (.applied m.version) = _ from hlook]
  exact SchemaDb.look_applied.2 hkey.2

end

/-! ### One runner among others -/

/-- A write a runner can go on after: the version climbs, and no index is left invalid. -/
def Good (w : SchemaWrite) : Prop := Climbs w ∧ LeavesValid w

/-- The statements of a session did what they were reported to do. -/
def Clean (τ : SchemaTrace) : Prop := ∀ e ∈ τ.effects, ∀ w ∈ e.writes, Good w

/-- What is written is of one migration, none that comes before those of the trace, or before
version `floor`. -/
def Ascends (floor : ℤ) (τ : SchemaTrace) (ws : List SchemaWrite) : Prop :=
  ∀ w ∈ ws, ∀ v ∈ w.stmt.stage, floor ≤ v ∧ UpTo v ws ∧ ∀ e ∈ τ.effects, UpTo v e.writes

/-- A transaction of a runner. The text of an online migration is one of its own. -/
structure LaunchCommit (ms : Migrations) (floor : ℤ) (τ : SchemaTrace)
    (e : SchemaEffect) : Prop where
  recorded : (∀ w ∈ e.writes, Climbs w) → Recorded ms e.moment.db →
    Recorded ms (schemaServer.apply e.moment.db e.writes) ∧
      e.moment.db.version ≤ (schemaServer.apply e.moment.db e.writes).version
  ascends : Ascends floor τ e.writes
  text : ∀ w ∈ e.writes, ∀ m, w.stmt = .execute m → m ∈ ms.list ∧ (m.online = true →
    ∃ c db', (SchemaStmt.execute m).Leads c e.moment.db db' ∧ e.writes =
      schemaStore.record (.execute m) e.moment.db ((SchemaStmt.execute m).changes e.moment.db db'))

/-- A runner relies on what took effect, and on the version not falling below `floor`. It assumes of
each statement it sends that those before did what they were reported to do. -/
def launchSpec (ms : Migrations) (floor : ℤ) :
    ScriptSpec SchemaDb SchemaKey SchemaRow SchemaStmt where
  rely m m' := (Recorded ms m.db → Recorded ms m'.db) ∧ (∀ x ∈ m.db.applied, x ∈ m'.db.applied) ∧
    (floor ≤ m.db.version → floor ≤ m'.db.version)
  rely_refl _ := ⟨id, fun _ hx ↦ hx, id⟩
  rely_trans h h' :=
    ⟨fun hm ↦ h'.1 (h.1 hm), fun x hx ↦ h'.2.1 x (h.2.1 x hx), fun hv ↦ h'.2.2 (h.2.2 hv)⟩
  valid _ q := nomatch q
  guar := LaunchCommit ms floor
  issue τ _ _ := Clean τ

/-- What a runner knows that has come to version `v`. -/
def Ready (ms : Migrations) (v : ℤ) (m : SchemaMoment) (τ : SchemaTrace) : Prop :=
  Clean τ → Recorded ms m.db ∧ AppliedUpTo ms v m.db

/-- A runner has written nothing for a migration after `v`, which is not before `floor`. -/
structure Passed (floor v : ℤ) (τ : SchemaTrace) : Prop where
  floor : floor ≤ v
  past : ∀ e ∈ τ.effects, UpTo v e.writes

section

variable {ms : Migrations} {floor v last : ℤ} {mig : Migration} {m m' : SchemaMoment}
variable {τ : SchemaTrace} {ws : List SchemaWrite} {s : SchemaStmt}

theorem clean_commit {t : Option SchemaMoment × List SchemaWrite} :
    Clean (τ.commit m (some t)) ↔ Clean τ ∧ ∀ w ∈ t.2, Good w := by
  simp [Clean, or_imp, forall_and]

theorem Passed.commit {v' : ℤ} {t : Option SchemaMoment × List SchemaWrite} (h : Passed floor v τ)
    (hle : v ≤ v') (ht : UpTo v' t.2) : Passed floor v' (τ.commit m (some t)) := by
  refine ⟨h.floor.trans hle, fun e he ↦ ?_⟩
  rw [Trace.effects_commit, Moment.effects_some, List.mem_append, List.mem_singleton] at he
  rcases he with he | rfl
  · exact fun w hw v'' hv ↦ (h.past e he w hw v'' hv).trans hle
  · exact ht

theorem Passed.ascends (h : Passed floor v τ) {v' : ℤ} (hle : v ≤ v')
    (hws : ∀ w ∈ ws, w.stmt.stage = some v') : Ascends floor τ ws := by
  intro w hw x hx
  obtain rfl : v' = x := Option.some.inj ((hws w hw).symm.trans hx)
  refine ⟨h.floor.trans hle, fun w' hw' x' hx' ↦ ?_, fun e he w' hw' x' hx' ↦ ?_⟩
  · exact (Option.some.inj ((hws w' hw').symm.trans hx')).ge
  · exact (h.past e he w' hw' x' hx').trans hle

theorem Ready.env (h : Ready ms v m τ) (hm : (launchSpec ms floor).rely m m') : Ready ms v m' τ :=
  fun hclean ↦ ⟨hm.1 (h hclean).1, (h hclean).2.mono hm.2.1⟩

/-- After a commit a runner knows of its migrations what it knew, and what the commit adds. -/
theorem Ready.commit {v' : ℤ} {t : Option SchemaMoment × List SchemaWrite} (h : Ready ms v m τ)
    (hguar : LaunchCommit ms floor τ ⟨m, t.1, t.2⟩)
    (hnext : Clean τ → (∀ w ∈ t.2, Good w) → AppliedUpTo ms v m.db →
      AppliedUpTo ms v' (schemaServer.apply m.db t.2)) :
    Ready ms v' (m.after schemaServer t.2) (τ.commit m (some t)) := by
  intro hclean
  obtain ⟨hτ, ht⟩ := clean_commit.1 hclean
  exact ⟨(hguar.recorded (fun w hw ↦ (ht w hw).1) (h hτ).1).1, hnext hτ ht (h hτ).2⟩

variable {c : Chance} {base db : SchemaDb} {others : List SchemaWrite} {b : Option SchemaMoment}

/-- A statement that is a transaction of its own. -/
theorem launchCommit_of_eval {a : s.Res}
    (heval : schemaServer.eval c .readCommitted s base m.db others = some (.ok a, ws))
    (hpassed : Passed floor v τ) (hstage : ∀ v' ∈ s.stage, v ≤ v')
    (htext : ∀ mig, s = .execute mig → mig ∈ ms.list)
    (hrecorded : (∀ w ∈ ws, Climbs w) → Recorded ms m.db →
      Recorded ms (schemaServer.apply m.db ws) ∧
        m.db.version ≤ (schemaServer.apply m.db ws).version) :
    LaunchCommit ms floor τ ⟨m, b, ws⟩ := by
  have hstmt := schemaServer.eval_stmt heval
  refine ⟨hrecorded, fun w hw v' hv' ↦ ?_, fun w hw mig hmig ↦ ?_⟩
  · have hstage' : s.stage = some v' := hstmt w hw ▸ hv'
    exact hpassed.ascends (hstage v' hstage') (fun w' hw' ↦ hstmt w' hw' ▸ hstage') w hw v' hv'
  · obtain rfl : s = .execute mig := (hstmt w hw).symm.trans hmig
    refine ⟨htext mig rfl, fun _ ↦ ?_⟩
    rcases eval_leads heval with rfl | ⟨db', hleads, hws⟩
    · cases hw
    · exact ⟨c, db', hleads, hws⟩

theorem Passed.commit_eval {a : s.Res}
    (heval : schemaServer.eval c .readCommitted s base db others = some (.ok a, ws))
    (hpassed : Passed floor v τ) (hstage : ∀ v' ∈ s.stage, v ≤ v') :
    Passed floor (s.stage.getD v) (τ.commit m (some (b, ws))) := by
  have hstmt := schemaServer.eval_stmt heval
  refine hpassed.commit ?_ fun w hw v' hv' ↦ ?_
  · cases hs : s.stage with
    | none => exact le_rfl
    | some v' => exact hstage v' hs
  · rw [hstmt w hw] at hv'
    rw [Option.mem_def.1 hv']
    exact le_rfl

/-- A statement outside a transaction that leaves the versions alone. -/
theorem wpS_send_idle (hs : ∀ db db', SchemaKey.versions ∉ s.touches db db')
    (htext : ∀ mig, s = .execute mig → mig ∈ ms.list) (h : Ready ms v m τ)
    (hpassed : Passed floor v τ) (hstage : ∀ v' ∈ s.stage, v ≤ v') :
    wpS schemaServer (launchSpec ms floor) (send s) (fun a c m₁ τ₁ ↦ c = .idle ∧ Ready ms v m₁ τ₁ ∧
      Passed floor (s.stage.getD v) τ₁ ∧
      (Clean τ₁ → ∃ chance base db others ws,
        schemaServer.eval chance .readCommitted s base db others = some (.ok a, ws) ∧
          (∀ w ∈ ws, Good w) ∧
          ∀ x ∈ (schemaServer.apply db ws).applied, x ∈ m₁.db.applied)) .idle m τ := by
  refine wpS_query_idle fun b hb _ m₁ hm₁ chance others a ws heval ↦ ?_
  have hchain := schemaServer.eval_chain heval
  have hlegal := schemaServer.eval_legal heval
  have hkeys : ∀ w ∈ ws, w.key ≠ .versions := by
    rcases eval_leads heval with rfl | ⟨db', -, rfl⟩
    · simp
    · intro w hw
      obtain ⟨k, hk, rfl⟩ := SchemaStmt.mem_record_changes.1 hw
      rintro rfl
      exact hs _ _ hk
  have hguar : LaunchCommit ms floor τ ⟨m₁, some b, ws⟩ :=
    launchCommit_of_eval heval hpassed hstage htext fun _ hrecorded ↦
      (hrecorded.unversioned hchain hlegal hkeys).imp_right Eq.ge
  refine ⟨hguar, fun m₂ hm₂ ↦ ⟨rfl, ?_, hpassed.commit_eval heval hstage, fun hclean ↦ ?_⟩⟩
  · refine (((h.env hb).env hm₁).commit (t := (some b, ws)) hguar ?_).env hm₂
    exact fun _ _ happlied ↦ happlied.mono fun _ hx ↦ mem_applied_apply hchain hlegal hx
  · exact ⟨chance, b.db, m₁.db, others, ws, heval, (clean_commit.1 hclean).2, hm₂.2.1⟩

/-- A runner that drops invalid indexes knows no less than before. -/
theorem wpS_cleanupOnce (cleaned : Bool) (h : Ready ms v m τ) (hpassed : Passed floor v τ) :
    wpS schemaServer (launchSpec ms floor) (cleanupOnce cleaned)
      (fun _ c m₁ τ₁ ↦ c = .idle ∧ Ready ms v m₁ τ₁ ∧ Passed floor v τ₁) .idle m τ := by
  have hdrop : ∀ (names : List String) {m : SchemaMoment} {τ : SchemaTrace}, Ready ms v m τ →
      Passed floor v τ → wpS schemaServer (launchSpec ms floor) (dropIndexes names)
        (fun _ c m₁ τ₁ ↦ c = .idle ∧ Ready ms v m₁ τ₁ ∧ Passed floor v τ₁) .idle m τ := by
    intro names
    induction names with
    | nil => exact fun h hpassed ↦ wpS_pure fun m' hm ↦ ⟨rfl, h.env hm, hpassed⟩
    | cons name names ih =>
      refine fun h hpassed ↦ wpS_bind (wpS_mono
        (wpS_send_idle (s := .dropIndexConcurrently name) (by simp [SchemaStmt.touches]) (by simp) h
          hpassed (by simp [SchemaStmt.stage])) ?_)
      rintro a c m₁ τ₁ ⟨rfl, hready, hpassed₁, -⟩
      exact ih hready hpassed₁
  rw [cleanupOnce]
  split
  · exact wpS_pure fun m' hm ↦ ⟨rfl, h.env hm, hpassed⟩
  · refine wpS_bind (wpS_mono (wpS_send_idle (s := .selectInvalidIndexes)
      (by simp [SchemaStmt.touches]) (by simp) h hpassed (by simp [SchemaStmt.stage])) ?_)
    rintro names c m₁ τ₁ ⟨rfl, hready, hpassed₁, -⟩
    exact hdrop names hready hpassed₁

/-- A version write outside a transaction. -/
theorem wpS_send_version {version : ℤ} (hstage : s.stage = some version)
    (htext : ∀ mig, s ≠ .execute mig)
    (hwrite : ∀ {c iso base db others ws} {a : s.Res},
      schemaServer.eval c iso s base db others = some (.ok a, ws) → VersionWrite version last db ws)
    (hm : NextAfter ms last mig) (hversion : mig.version = version) (h : Ready ms version m τ)
    (hpassed : Passed floor version τ) :
    wpS schemaServer (launchSpec ms floor) (send s)
      (fun _ c m₁ τ₁ ↦ c = .idle ∧ Ready ms version m₁ τ₁ ∧ Passed floor version τ₁) .idle m τ := by
  subst hversion
  have hge : ∀ v' ∈ s.stage, mig.version ≤ v' := fun v' hv' ↦
    (Option.some.inj (hstage.symm.trans hv')).le
  refine wpS_query_idle fun b hb hτ m₁ hm₁ chance others a ws heval ↦ ?_
  have hready := (h.env hb).env hm₁
  have hguar : LaunchCommit ms floor τ ⟨m₁, some b, ws⟩ :=
    launchCommit_of_eval heval hpassed hge (fun mig' hmig' ↦ (htext mig' hmig').elim)
      fun hclimbs hrecorded ↦ hrecorded.written hm (hready hτ).2 (hwrite heval) hclimbs
  have hpassed₁ := hpassed.commit_eval (b := some b) (m := m₁) heval hge
  rw [hstage] at hpassed₁
  refine ⟨hguar, fun m₂ hm₂ ↦ ⟨rfl, ?_, hpassed₁⟩⟩
  refine (hready.commit (t := (some b, ws)) hguar fun _ _ happlied ↦ ?_).env hm₂
  exact happlied.mono fun _ hx ↦
    mem_applied_apply (schemaServer.eval_chain heval) (schemaServer.eval_legal heval) hx

theorem wpS_writeVersion_idle (hm : NextAfter ms last mig) (h : Ready ms mig.version m τ)
    (hpassed : Passed floor mig.version τ) :
    wpS schemaServer (launchSpec ms floor) (writeVersion mig.version last)
      (fun _ c m₁ τ₁ ↦ c = .idle ∧ Ready ms mig.version m₁ τ₁ ∧ Passed floor mig.version τ₁)
      .idle m τ := by
  rw [writeVersion]
  split
  · rename_i hzero
    subst hzero
    exact wpS_send_version rfl (by simp) versionWrite_of_insert hm rfl h hpassed
  · exact wpS_send_version rfl (by simp) versionWrite_of_update hm rfl h hpassed

/-- One online migration. -/
theorem wpS_applyOnline (cleaned : Bool) (hm : NextAfter ms v mig) (honline : mig.online = true)
    (h : Ready ms v m τ) (hpassed : Passed floor v τ) :
    wpS schemaServer (launchSpec ms floor) (applyOnline mig v cleaned)
      (fun _ c m₁ τ₁ ↦ c = .idle ∧ Ready ms mig.version m₁ τ₁ ∧ Passed floor mig.version τ₁)
      .idle m τ := by
  refine wpS_bind (wpS_mono (wpS_cleanupOnce cleaned h hpassed) ?_)
  rintro u c m₁ τ₁ ⟨rfl, hready, hpassed⟩
  refine wpS_bind (wpS_mono (wpS_send_idle (versions_not_mem_touches_execute mig) ?_ hready hpassed
    ?_) ?_)
  · rintro mig' ⟨⟩
    exact hm.mem
  · rintro v' ⟨⟩
    exact hm.pending.le
  rintro a c m₂ τ₂ ⟨rfl, hready, hpassed, hexecuted⟩
  have hblank : mig.blank = false := by
    obtain ⟨version, (- | sql) | index⟩ := mig
    · cases honline
    · rfl
    · rfl
  refine wpS_writeVersion_idle hm (fun hclean ↦ ⟨(hready hclean).1, ?_⟩) hpassed
  obtain ⟨chance, base, db, others, ws, heval, hgood, happlied⟩ := hexecuted hclean
  exact (hready hclean).2.next hm (Or.inr (happlied _
    (mem_applied_execute heval hblank (fun _ w hw ↦ (hgood w hw).2) db)))

/-! ### A catalog migration -/

/-- What the text of a migration writes in a transaction. -/
structure TextWrites (mig : Migration) (ws : List SchemaWrite) : Prop where
  legal : ∀ w ∈ ws, LegalSchemaWrite w
  stmt : ∀ w ∈ ws, w.stmt = .execute mig
  keys : ∀ w ∈ ws, w.key ≠ .versions
  applied : mig.blank = true ∨ ∀ db, mig.version ∈ (schemaServer.apply db ws).applied

theorem wpS_runText (hcatalog : mig.online = false) (h : Ready ms v m τ) :
    wpS schemaServer (launchSpec ms floor) (runText mig) (fun _ c m₁ τ₁ ↦ ∃ ws,
      c = .active ⟨.readCommitted, none, ws⟩ ∧ TextWrites mig ws ∧ τ₁ = τ ∧ Ready ms v m₁ τ)
      (.active ⟨.readCommitted, none, []⟩) m τ := by
  rw [runText]
  split
  · rename_i hblank
    exact wpS_pure fun m' hm ↦
      ⟨[], rfl, ⟨by simp, by simp, by simp, Or.inl hblank⟩, rfl, h.env hm⟩
  · rename_i hblank
    refine wpS_query_active fun b hb _ m₁ hm₁ chance others a ws heval m₂ hm₂ ↦ ?_
    refine ⟨ws, rfl, ⟨schemaServer.eval_legal heval, schemaServer.eval_stmt heval, ?_,
      Or.inr fun db ↦ ?_⟩, rfl, ((h.env hb).env hm₁).env hm₂⟩
    · rcases eval_leads heval with rfl | ⟨db', -, rfl⟩
      · simp
      · intro w hw
        obtain ⟨k, hk, rfl⟩ := SchemaStmt.mem_record_changes.1 hw
        rintro rfl
        exact versions_not_mem_touches_execute mig _ _ hk
    · refine mem_applied_execute heval (by simpa using hblank) (fun honline ↦ ?_) db
      rw [hcatalog] at honline
      cases honline

/-- The version that is written after the text in a transaction. -/
structure VersionWrites (version last : ℤ) (ws : List SchemaWrite) : Prop where
  legal : ∀ w ∈ ws, LegalSchemaWrite w
  stmt : ∀ w ∈ ws, w.stmt.stage = some version ∧ ∀ mig, w.stmt ≠ .execute mig
  write : ∃ db, VersionWrite version last db ws

theorem wpS_writeVersion_active {ws₀ : List SchemaWrite} (h : Ready ms v m τ) :
    wpS schemaServer (launchSpec ms floor) (writeVersion mig.version last) (fun _ c m₁ τ₁ ↦
      ∃ ws, c = .active ⟨.readCommitted, none, ws₀ ++ ws⟩ ∧ VersionWrites mig.version last ws ∧
        τ₁ = τ ∧ Clean τ ∧ Ready ms v m₁ τ)
      (.active ⟨.readCommitted, none, ws₀⟩) m τ := by
  have hstmt : ∀ {s : SchemaStmt} {ws : List SchemaWrite}, (∀ w ∈ ws, w.stmt = s) →
      s.stage = some mig.version → (∀ mig, s ≠ .execute mig) →
      ∀ w ∈ ws, w.stmt.stage = some mig.version ∧ ∀ mig, w.stmt ≠ .execute mig := by
    intro s ws hws hstage htext w hw
    rw [hws w hw]
    exact ⟨hstage, htext⟩
  rw [writeVersion]
  split
  · rename_i hzero
    subst hzero
    refine wpS_query_active fun b hb hτ m₁ hm₁ chance others a ws heval m₂ hm₂ ↦ ?_
    exact ⟨ws, rfl, ⟨schemaServer.eval_legal heval, hstmt (schemaServer.eval_stmt heval) rfl
      (by simp), _, versionWrite_of_insert heval⟩, rfl, hτ, ((h.env hb).env hm₁).env hm₂⟩
  · refine wpS_query_active fun b hb hτ m₁ hm₁ chance others a ws heval m₂ hm₂ ↦ ?_
    exact ⟨ws, rfl, ⟨schemaServer.eval_legal heval, hstmt (schemaServer.eval_stmt heval) rfl
      (by simp), _, versionWrite_of_update heval⟩, rfl, hτ, ((h.env hb).env hm₁).env hm₂⟩

/-- One catalog migration. -/
theorem wpS_applyCatalog (hm : NextAfter ms v mig) (hcatalog : mig.online = false)
    (h : Ready ms v m τ) (hpassed : Passed floor v τ) :
    wpS schemaServer (launchSpec ms floor) (applyCatalog mig v)
      (fun _ c m₁ τ₁ ↦ c = .idle ∧ Ready ms mig.version m₁ τ₁ ∧ Passed floor mig.version τ₁)
      .idle m τ := by
  refine wpS_transaction (wpS_bind (wpS_mono (wpS_runText hcatalog h) ?_))
  rintro u c m₁ τ₁ ⟨ws₁, rfl, htext, rfl, hready⟩
  -- the version is added to what the transaction writes
  refine wpS_bind (wpS_mono (wpS_writeVersion_active hready) ?_)
  rintro u c m₂ τ₂ ⟨ws₂, rfl, ⟨hlegal, hstmt, db, hversion⟩, rfl, hτ, hready⟩
  refine wpS_commitTx fun m₃ hm₃ hchain ↦ ?_
  -- the text has taken effect when the version is written over the row that was locked
  obtain ⟨hchain₁, hchain₂⟩ := schemaServer.chain_append.1 hchain
  have happlied : AppliedUpTo ms mig.version (schemaServer.apply m₃.db ws₁) :=
    (((hready.env hm₃) hτ).2.mono fun _ hx ↦ mem_applied_apply hchain₁ htext.legal hx).next hm
      (htext.applied.imp_right fun h ↦ h _)
  have hstage : ∀ w ∈ ws₁ ++ ws₂, w.stmt.stage = some mig.version := by
    intro w hw
    rcases List.mem_append.1 hw with hw | hw
    · rw [htext.stmt w hw]
      rfl
    · exact (hstmt w hw).1
  have hguar : LaunchCommit ms floor τ₂ ⟨m₃, none, ws₁ ++ ws₂⟩ := by
    refine ⟨fun hclimbs hrecorded ↦ ?_, hpassed.ascends hm.pending.le hstage,
      fun w hw mig' hmig' ↦ ?_⟩
    · obtain ⟨hbefore, hsame⟩ := hrecorded.unversioned hchain₁ htext.legal htext.keys
      rw [schemaServer.apply_append, ← hsame]
      exact hbefore.written hm happlied (hversion.of_chain hchain₂)
        fun w hw ↦ hclimbs w (List.mem_append_right _ hw)
    · rcases List.mem_append.1 hw with hw | hw
      · obtain rfl : mig = mig' := SchemaStmt.execute.inj ((htext.stmt w hw).symm.trans hmig')
        exact ⟨hm.mem, fun honline ↦ absurd (hcatalog.symm.trans honline) Bool.false_ne_true⟩
      · exact ((hstmt w hw).2 mig' hmig').elim
  have hpassed' : Passed floor mig.version (τ₂.commit m₃ (some (none, ws₁ ++ ws₂))) :=
    hpassed.commit hm.pending.le fun w hw v' hv' ↦
      (Option.some.inj ((hstage w hw).symm.trans hv')).ge
  refine ⟨hguar, fun m₄ hm₄ m₅ hm₅ ↦ ⟨rfl, ?_, hpassed'⟩⟩
  refine (((hready.env hm₃).commit (t := (none, ws₁ ++ ws₂)) hguar ?_).env hm₄).env hm₅
  intro _ _ _
  rw [schemaServer.apply_append]
  exact happlied.mono fun _ hx ↦ mem_applied_apply hchain₂ hlegal hx

/-! ### The start of a runner -/

/-- What the first transaction writes. -/
def Prepares (w : SchemaWrite) : Prop :=
  w.stmt.stage = none ∧
    (w.key = .schema ∨ w = ⟨.versions, none, some [], .createMigrationsTable⟩)

theorem Recorded.prepared {db : SchemaDb} (h : Recorded ms db) (hws : ∀ w ∈ ws, Prepares w) :
    Recorded ms (schemaServer.apply db ws) ∧ (schemaServer.apply db ws).applied = db.applied ∧
      (schemaServer.Chain db ws → (schemaServer.apply db ws).version = db.version) := by
  induction ws generalizing db with
  | nil => exact ⟨h, rfl, fun _ ↦ rfl⟩
  | cons w ws ih =>
    obtain ⟨key, old, new, s⟩ := w
    replace ih := fun {db} (h : Recorded ms db) ↦ ih h fun w hw ↦ hws w (List.mem_cons_of_mem _ hw)
    rw [schemaServer.apply_cons]
    rcases (hws _ List.mem_cons_self).2 with hkey | heq
    · obtain rfl : key = .schema := hkey
      have hput : Recorded ms (schemaServer.put db .schema new) := h.congr rfl fun _ hx ↦ hx
      obtain ⟨hrecorded, happlied, hversion⟩ := ih hput
      exact ⟨hrecorded, happlied, fun hchain ↦ hversion hchain.2⟩
    · cases heq
      have hput : Recorded ms (schemaServer.put db .versions (some [])) :=
        ⟨by rintro versions ⟨⟩; exact Or.inl rfl, appliedUpTo_zero⟩
      obtain ⟨hrecorded, happlied, hversion⟩ := ih hput
      refine ⟨hrecorded, happlied, fun hchain ↦ (hversion hchain.2).trans ?_⟩
      have hnone : none = db.migrations := hchain.1
      show 0 = db.version
      simp [SchemaDb.version, ← hnone]

/-- What the first transaction reads is no version below `floor`, unless the table it has created is
another's by the time it commits. -/
theorem Recorded.floor_le_prepared {db db₁ : SchemaDb} (h : Recorded ms db)
    (hws : ∀ w ∈ ws, Prepares w) (hfloor : floor ≤ db.version) (hfloor₁ : floor ≤ db₁.version)
    (hchain : schemaServer.Chain db₁ ws) : floor ≤ (schemaServer.apply db ws).version := by
  by_cases hversions : ∀ w ∈ ws, w.key ≠ .versions
  · rwa [SchemaDb.version_eq (migrations_apply hversions)]
  · obtain ⟨w, hw, hkey⟩ : ∃ w ∈ ws, w.key = .versions := by simpa using hversions
    have hcreates : w = ⟨.versions, none, some [], .createMigrationsTable⟩ :=
      (hws w hw).2.resolve_left fun hschema ↦ by cases hkey.symm.trans hschema
    -- the table did not exist, so that nothing is recorded
    have hnone : db₁.migrations = none := by
      by_contra hsome
      subst hcreates
      refine absurd ((hchain.of_mem hw (P := fun r ↦ r ≠ none) fun old new s hw _ ↦ ?_).1 hsome)
        (by simp)
      obtain ⟨-, hkey | heq⟩ := hws _ hw
      · cases hkey
      · cases heq
        simp
    have hzero : db₁.version = 0 := by simp [SchemaDb.version, hnone]
    exact (hzero ▸ hfloor₁).trans (h.prepared hws).1.version_nonneg

/-- The first transaction, up to its reading the version. -/
def Preparing (ms : Migrations) (floor : ℤ) (c : Conn SchemaDb SchemaKey SchemaRow SchemaStmt)
    (m : SchemaMoment) : Prop :=
  ∃ ws, c = .active ⟨.readCommitted, none, ws⟩ ∧ (∀ w ∈ ws, Prepares w) ∧ Recorded ms m.db ∧
    floor ≤ m.db.version

theorem Preparing.env {c : Conn SchemaDb SchemaKey SchemaRow SchemaStmt}
    (h : Preparing ms floor c m) (hm : (launchSpec ms floor).rely m m') :
    Preparing ms floor c m' := by
  obtain ⟨ws, hc, hws, hrecorded, hfloor⟩ := h
  exact ⟨ws, hc, hws, hm.1 hrecorded, hm.2.2 hfloor⟩

/-- A statement of the first transaction. -/
theorem wpS_send_preparing {c : Conn SchemaDb SchemaKey SchemaRow SchemaStmt}
    (hs : ∀ (chance : Chance) (base cur : SchemaDb) (others : List SchemaWrite) (a : s.Res) ws,
      schemaServer.eval chance .readCommitted s base cur others = some (.ok a, ws) →
        ∀ w ∈ ws, Prepares w) (h : Preparing ms floor c m) :
    wpS schemaServer (launchSpec ms floor) (send s)
      (fun _ c m₁ τ₁ ↦ τ₁ = τ ∧ Preparing ms floor c m₁) c m τ := by
  obtain ⟨ws₀, rfl, hws₀, hrecorded, hfloor⟩ := h
  refine wpS_query_active fun b hb _ m₁ hm₁ chance others a ws heval m₂ hm₂ ↦ ?_
  refine ⟨rfl, ws₀ ++ ws, rfl, fun w hw ↦ ?_, hm₂.1 (hm₁.1 (hb.1 hrecorded)),
    hm₂.2.2 (hm₁.2.2 (hb.2.2 hfloor))⟩
  exact (List.mem_append.1 hw).elim (hws₀ w) (hs _ _ _ _ _ _ heval w)

/-- A read writes nothing. -/
theorem prepares_of_read (hs : ∀ db db', s.touches db db' = []) {chance : Chance}
    {base cur : SchemaDb} {others : List SchemaWrite} {a : s.Res}
    (heval : schemaServer.eval chance .readCommitted s base cur others = some (.ok a, ws)) :
    ws = [] := by
  rcases eval_leads heval with rfl | ⟨db', -, rfl⟩
  · rfl
  · rw [SchemaStmt.changes, hs]
    rfl

theorem wpS_createSchemaIfMissing {c : Conn SchemaDb SchemaKey SchemaRow SchemaStmt}
    (h : Preparing ms floor c m) :
    wpS schemaServer (launchSpec ms floor) createSchemaIfMissing
      (fun _ c m₁ τ₁ ↦ τ₁ = τ ∧ Preparing ms floor c m₁) c m τ := by
  refine wpS_bind (wpS_mono (wpS_send_preparing (fun _ _ _ _ _ ws heval ↦ ?_) h) ?_)
  · rw [prepares_of_read (fun _ _ ↦ rfl) heval]
    simp
  rintro found c m₁ τ₁ ⟨rfl, hprep⟩
  cases found with
  | true => exact wpS_pure fun m₂ hm₂ ↦ ⟨rfl, hprep.env hm₂⟩
  | false =>
    refine wpS_send_preparing (fun _ _ _ _ _ ws heval w hw ↦ ?_) hprep
    rcases eval_leads heval with rfl | ⟨db', -, rfl⟩
    · cases hw
    · obtain ⟨k, hk, rfl⟩ := SchemaStmt.mem_record_changes.1 hw
      exact ⟨rfl, Or.inl (List.mem_singleton.1 hk)⟩

theorem wpS_createTableIfMissing {c : Conn SchemaDb SchemaKey SchemaRow SchemaStmt}
    (h : Preparing ms floor c m) :
    wpS schemaServer (launchSpec ms floor) createTableIfMissing
      (fun _ c m₁ τ₁ ↦ τ₁ = τ ∧ Preparing ms floor c m₁) c m τ := by
  refine wpS_bind (wpS_mono (wpS_send_preparing (fun _ _ _ _ _ ws heval ↦ ?_) h) ?_)
  · rw [prepares_of_read (fun _ _ ↦ rfl) heval]
    simp
  rintro found c m₁ τ₁ ⟨rfl, hprep⟩
  cases found with
  | true => exact wpS_pure fun m₂ hm₂ ↦ ⟨rfl, hprep.env hm₂⟩
  | false =>
    refine wpS_send_preparing (fun _ _ cur _ _ ws heval w hw ↦ ?_) hprep
    rcases eval_leads heval with rfl | ⟨db', ⟨a, hrun⟩ | ⟨-, htorn⟩, rfl⟩
    · cases hw
    · obtain ⟨k, hk, rfl⟩ := SchemaStmt.mem_record_changes.1 hw
      obtain rfl := List.mem_singleton.1 hk
      simp only [SchemaStmt.run] at hrun
      split at hrun <;> cases hrun
      rename_i hnone
      have hold : cur.look .versions = none := by simpa [SchemaDb.look] using hnone
      rw [hold]
      exact ⟨rfl, Or.inr rfl⟩
    · cases htorn

theorem wpS_ensureMigrationsTable (h : Recorded ms m.db) (hfloor : floor ≤ m.db.version) :
    wpS schemaServer (launchSpec ms floor) ensureMigrationsTable
      (fun v c m₁ τ₁ ↦ c = .idle ∧ Ready ms v m₁ τ₁ ∧ Passed floor v τ₁) .idle m {} := by
  have hprep : Preparing ms floor (.active ⟨.readCommitted, none, []⟩) m :=
    ⟨[], rfl, by simp, h, hfloor⟩
  refine wpS_transaction (wpS_bind (wpS_mono (wpS_createSchemaIfMissing hprep) ?_))
  rintro u c m₁ τ₁ ⟨rfl, hprep⟩
  refine wpS_bind (wpS_mono (wpS_createTableIfMissing hprep) ?_)
  rintro u c m₂ τ₂ ⟨rfl, ws₀, rfl, hws₀, hrecorded, hfloor⟩
  refine wpS_bind (wpS_query_active fun b hb _ m₃ hm₃ chance others a ws heval m₄ hm₄ ↦ ?_)
  -- the version read is that of the snapshot, after what the transaction itself has written
  obtain rfl := prepares_of_read (fun _ _ ↦ rfl) heval
  obtain ⟨hread, hsame, -⟩ := (hb.1 hrecorded).prepared hws₀
  have hversion : a.getD 0 = (schemaServer.apply b.db ws₀).version := by
    obtain ⟨ch, hshare, -⟩ := eval_share heval
    rw [SchemaStmt.share] at hshare
    obtain ⟨db', hrun, -⟩ := SchemaStmt.carry_done hshare
    simp only [SchemaStmt.run] at hrun
    split at hrun <;> cases hrun
    rename_i versions hversions
    rw [SchemaDb.version, hversions]
    rfl
  have hknown : AppliedUpTo ms (a.getD 0) m₄.db := by
    rw [hversion]
    exact (hread.applied.mono fun x hx ↦ hsame ▸ hx).mono fun x hx ↦ hm₄.2.1 x (hm₃.2.1 x hx)
  rw [List.append_nil]
  refine wpS_bind (wpS_commitTx fun m₅ hm₅ hchain ↦ ?_)
  have hfloor₅ : floor ≤ m₅.db.version :=
    hm₅.2.2 (hm₄.2.2 (hm₃.2.2 (hb.2.2 hfloor)))
  have hfloor' : floor ≤ a.getD 0 :=
    hversion ▸ (hb.1 hrecorded).floor_le_prepared hws₀ (hb.2.2 hfloor) hfloor₅ hchain
  have hstage : ∀ w ∈ ws₀, ∀ x, x ∉ w.stmt.stage := fun w hw x hx ↦ by
    rw [(hws₀ w hw).1] at hx
    cases hx
  have hguar : LaunchCommit ms floor {} ⟨m₅, none, ws₀⟩ := by
    refine ⟨fun _ h₅ ↦ ⟨(h₅.prepared hws₀).1, ((h₅.prepared hws₀).2.2 hchain).ge⟩,
      fun w hw x hx ↦ (hstage w hw x hx).elim, fun w hw mig hmig ↦ ?_⟩
    exact (hstage w hw mig.version (hmig ▸ rfl)).elim
  have hpassed : Passed floor (a.getD 0) (Trace.commit {} m₅ (some (none, ws₀))) :=
    Passed.commit ⟨hfloor', by simp⟩ le_rfl fun w hw x hx ↦ (hstage w hw x hx).elim
  refine ⟨hguar, fun m₆ hm₆ ↦ wpS_pure fun m₇ hm₇ m₈ hm₈ ↦ ⟨rfl, fun _ ↦ ?_, hpassed⟩⟩
  have h₅ := hm₅.1 (hm₄.1 (hm₃.1 (hb.1 hrecorded)))
  obtain ⟨hafter, happlied, -⟩ := h₅.prepared hws₀
  refine ⟨hm₈.1 (hm₇.1 (hm₆.1 hafter)),
    hknown.mono fun x hx ↦ hm₈.2.1 x (hm₇.2.1 x (hm₆.2.1 x ?_))⟩
  show x ∈ (schemaServer.apply m₅.db ws₀).applied
  rw [happlied]
  exact hm₅.2.1 x hx

/-! ### A runner from its start to its end -/

/-- The loop, by induction on the migrations that are left. -/
theorem wpS_applyPending {done rest : List Migration} (hlist : ms.list = done ++ rest)
    (hdone : ∀ m ∈ done, m.version ≤ v) (cleaned : Bool) (h : Ready ms v m τ)
    (hpassed : Passed floor v τ) :
    wpS schemaServer (launchSpec ms floor) (applyPending rest v cleaned) (fun _ _ _ _ ↦ True)
      .idle m τ := by
  induction rest generalizing done v cleaned m τ with
  | nil => exact wpS_pure fun _ _ ↦ trivial
  | cons mig rest ih =>
    have hsplit : ms.list = (done ++ [mig]) ++ rest := by simp [hlist]
    have hnext : ∀ {v' : ℤ}, v ≤ v' → mig.version ≤ v' →
        ∀ m' ∈ done ++ [mig], m'.version ≤ v' := by
      intro v' hle hmig m' hmem
      rcases List.mem_append.1 hmem with hmem | hmem
      · exact (hdone m' hmem).trans hle
      · rwa [List.mem_singleton.1 hmem]
    rw [applyPending]
    split
    · rename_i hle
      exact ih hsplit (hnext le_rfl hle) cleaned h hpassed
    rename_i hpending
    have hm : NextAfter ms v mig := nextAfter_of_append hlist hdone (not_le.1 hpending)
    split
    · rename_i honline
      refine wpS_bind (wpS_mono (wpS_applyOnline cleaned hm honline h hpassed) ?_)
      rintro u c m₁ τ₁ ⟨rfl, hready, hpassed₁⟩
      exact ih hsplit (hnext hm.pending.le le_rfl) true hready hpassed₁
    · rename_i honline
      refine wpS_bind (wpS_mono (wpS_applyCatalog hm (by simpa using honline) h hpassed) ?_)
      rintro u c m₁ τ₁ ⟨rfl, hready, hpassed₁⟩
      exact ih hsplit (hnext hm.pending.le le_rfl) cleaned hready hpassed₁

/-- A runner among others. -/
theorem wpS_runMigrations (h : Recorded ms m.db) (hfloor : floor ≤ m.db.version) :
    wpS schemaServer (launchSpec ms floor) (runMigrations ms) (fun _ _ _ _ ↦ True) .idle m {} := by
  refine wpS_bind (wpS_mono (wpS_ensureMigrationsTable h hfloor) ?_)
  rintro v c m₁ τ₁ ⟨rfl, hready, hpassed⟩
  have hlist : ms.list = [] ++ ms.list := rfl
  exact wpS_applyPending hlist (by simp) false hready hpassed

end

/-- A runner passes every error on. -/
theorem stops_runMigrations (ms : Migrations) : Stops (runMigrations ms) := by
  have hdrop : ∀ names, Stops (dropIndexes names) := by
    intro names
    induction names with
    | nil => exact stops_pure ()
    | cons name names ih => exact stops_bind (stops_query _) fun _ ↦ ih
  have hclean : ∀ cleaned, Stops (cleanupOnce cleaned) := by
    intro cleaned
    rw [cleanupOnce]
    split
    · exact stops_pure ()
    · exact stops_bind (stops_query _) hdrop
  have hwrite : ∀ version last, Stops (writeVersion version last) := by
    intro version last
    rw [writeVersion]
    split <;> exact stops_query _
  have htext : ∀ m, Stops (runText m) := by
    intro m
    rw [runText]
    split
    · exact stops_pure ()
    · exact stops_query _
  have hpending : ∀ rest v cleaned, Stops (applyPending rest v cleaned) := by
    intro rest
    induction rest with
    | nil => exact fun _ _ ↦ stops_pure ()
    | cons m rest ih =>
      intro v cleaned
      rw [applyPending]
      split
      · exact ih v cleaned
      split
      · refine stops_bind (stops_bind (hclean _) fun _ ↦ ?_) fun _ ↦ ih _ _
        exact stops_bind (stops_query _) fun _ ↦ hwrite _ _
      · refine stops_bind (stops_transaction (stops_bind (htext _) fun _ ↦ ?_)) fun _ ↦ ih _ _
        exact stops_bind (hwrite _ _) fun _ ↦ stops_commitTx
  have hschema : Stops createSchemaIfMissing := by
    refine stops_bind (stops_query _) fun found ↦ ?_
    cases found with
    | true => exact stops_pure ()
    | false => exact stops_query _
  have htable : Stops createTableIfMissing := by
    refine stops_bind (stops_query _) fun found ↦ ?_
    cases found with
    | true => exact stops_pure ()
    | false => exact stops_query _
  refine stops_bind (stops_transaction (stops_bind hschema fun _ ↦ ?_)) fun v ↦ hpending _ _ _
  refine stops_bind htable fun _ ↦ stops_bind (stops_query _) fun version ↦ ?_
  exact stops_bind stops_commitTx fun _ ↦ stops_pure _

end Dbos.Migrate
