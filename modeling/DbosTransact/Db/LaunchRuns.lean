import DbosTransact.Db.Launches

/-!
# Runs of several launches

What all states of an orderly run keep to (`Kept`), by the commits of the run: each is a
`LaunchCommit` of its session, and no other launch is in its way. `version_climbs` is about every
run of any number of launches, and `version_falls` is one in which a launch is overtaken.
-/

namespace Dbos.Migrate

open Txn Txn.Solo

variable {ms : Migrations} {db₀ : SchemaDb} {S S' : SchemaSystem} {l : SchemaLabel}

/-! ### One commit -/

theorem InForce.append {past : List SchemaCommit} {db : SchemaDb} {m : Migration}
    (h : InForce past db m) (past' : List SchemaCommit) : InForce (past ++ past') db m := by
  intro sql hsql
  refine (h sql hsql).imp_right fun ⟨w, hw, hlater⟩ ↦ ⟨w, ?_, hlater⟩
  rw [System.written_append]
  exact List.mem_append_left _ hw

/-- A migration that takes effect is one whose text is run. -/
theorem exists_of_newly_applied {db : SchemaDb} {ws : List SchemaWrite} {x : ℤ}
    (hlegal : ∀ w ∈ ws, LegalSchemaWrite w) (hnew : x ∉ db.applied)
    (hx : x ∈ (schemaServer.apply db ws).applied) :
    ∃ w ∈ ws, ∃ m, w.stmt = .execute m ∧ m.version = x := by
  by_contra hnone
  have hkeys : ∀ w ∈ ws, w.key ≠ .applied x := by
    rintro ⟨k, old, new, s⟩ hw rfl
    obtain ⟨⟨m, hm, hversion⟩, -⟩ := hlegal _ hw
    exact hnone ⟨_, hw, m, hm, hversion⟩
  refine hnew (SchemaDb.look_applied.1 ?_)
  rw [← show schemaServer.look (schemaServer.apply db ws) (.applied x) = db.look (.applied x) from
    schemaServer.look_apply_of_forall_ne hkeys]
  exact SchemaDb.look_applied.2 hx

/-- An online migration that takes effect leaves its index as its text says, with a write to it. -/
theorem LaunchCommit.effective {floor : ℤ} {τ : SchemaTrace} {e : SchemaEffect}
    (h : LaunchCommit ms floor τ e) (hlegal : ∀ w ∈ e.writes, LegalSchemaWrite w) {m : Migration}
    (hm : m ∈ ms.list) {sql : OnlineSql} (hsql : m.sql = .online sql)
    (hnew : m.version ∉ e.moment.db.applied)
    (hx : m.version ∈ (schemaServer.apply e.moment.db e.writes).applied) :
    (schemaServer.apply e.moment.db e.writes).objects.lookup sql.index = sql.result ∧
      ∃ w ∈ e.writes, w.key = .object sql.index ∧ m.version ∈ w.stmt.stage := by
  obtain ⟨w, hw, m', hstmt, hversion⟩ := exists_of_newly_applied hlegal hnew hx
  obtain ⟨hm', honline⟩ := h.text w hw m' hstmt
  obtain rfl := Migrations.eq_of_version hm' hm hversion
  obtain ⟨version, sql'⟩ := m'
  obtain rfl : sql' = .online sql := hsql
  obtain ⟨c, db', hleads, hws⟩ := honline rfl
  have hlook : ∀ k, schemaServer.look (schemaServer.apply e.moment.db e.writes) k = db'.look k := by
    rw [hws]
    exact hleads.look_apply
  refine ⟨(hlook (.object sql.index)).trans (hleads.effective fun hsame ↦ hnew ?_), ?_⟩
  · rw [← hsame]
    refine SchemaDb.look_applied.1 ?_
    rw [← hlook]
    exact SchemaDb.look_applied.2 hx
  · have htouches : .object sql.index ∈
        (SchemaStmt.execute ⟨version, .online sql⟩).touches e.moment.db db' := by
      cases sql <;> simp [SchemaStmt.touches, OnlineSql.index]
    rw [hws]
    exact ⟨_, SchemaStmt.mem_record_changes.2 ⟨_, htouches, rfl⟩, rfl, rfl⟩

/-! ### What every state keeps to -/

/-- What every state of an orderly run keeps to. -/
structure Kept (ms : Migrations) (db₀ : SchemaDb) (S : SchemaSystem) : Prop where
  tame : System.Tame (fun r ↦ ∃ e, r = .error e) Finished (fun _ ↦ True) S
  calm : ∀ w ∈ System.written S.history, Climbs w ∧ Finds w
  recorded : Recorded ms S.moment.db
  climbed : ∀ n, n ≤ S.history.length →
    (System.stateAt schemaServer db₀ S.history n).version ≤ S.moment.db.version
  /-- An online migration that took effect did so before the run, or some commit wrote its index. -/
  origin : ∀ m ∈ ms.list, m.version ∈ S.moment.db.applied → ∀ sql, m.sql = .online sql →
    m.version ≤ db₀.version ∨
      ∃ d ∈ S.history, ∃ w ∈ d.writes, w.key = .object sql.index ∧ m.version ∈ w.stmt.stage
  inForce : ∀ m ∈ ms.list, m.version ∈ S.moment.db.applied → InForce S.history S.moment.db m

theorem Kept.floor (h : Kept ms db₀ S) : db₀.version ≤ S.moment.db.version :=
  h.climbed 0 (Nat.zero_le _)

theorem kept_init (h₀ : Settled ms db₀) (time : ℤ) : Kept ms db₀ (System.init db₀ time) where
  tame := System.tame_init db₀ time
  calm := by simp [System.init]
  recorded := h₀.recorded
  climbed n hn := by
    obtain rfl := Nat.le_zero.1 hn
    exact le_rfl
  origin m hm happlied _ _ := Or.inl (h₀.applied m hm happlied).1
  inForce m hm happlied := (h₀.applied m hm happlied).2

/-- A session that is about to send another statement has left its own as they were reported. -/
theorem Kept.clean (h : Kept ms db₀ S) {i : ℕ} {s : Session SchemaDb SchemaKey SchemaRow SchemaStmt
      SchemaStmt.Res SchemaError Empty (fun _ ↦ Empty) (Except SchemaError Unit)}
    (hs : S.sessions.lookup i = some s) {st : SchemaStmt} {k} (hp : s.prog = .sql st k) :
    Clean (S.traceOf i) := by
  intro e he w hw
  obtain ⟨d, hd, -, rfl⟩ := System.mem_effects_traceOf.1 he
  obtain ⟨hclimbs, hfinds⟩ := h.calm w (List.mem_flatMap.2 ⟨d, hd, hw⟩)
  exact ⟨hclimbs, (h.tame.good_of_sends hs hp _ he w hw).valid hfinds⟩

section

variable {c : SchemaCommit}

/-- What another commit has written to a row is for no later migration than what this one writes to
it: it is of the same session, or of one that is not in the way. -/
theorem stage_le {floor : ℤ} (hguar : LaunchCommit ms floor (S.traceOf c.session) c.toEffect)
    (hturn : Undisturbed S.history c) {w : SchemaWrite} (hw : w ∈ c.writes) {v : ℤ}
    (hv : v ∈ w.stmt.stage) {d : SchemaCommit} (hd : d ∈ S.history) {w' : SchemaWrite}
    (hw' : w' ∈ d.writes) (hkey : w'.key = w.key) {v' : ℤ} (hv' : v' ∈ w'.stmt.stage) : v' ≤ v := by
  by_cases hsession : d.session = c.session
  · have he : d.toEffect ∈ (S.traceOf c.session).effects :=
      System.mem_effects_traceOf.2 ⟨d, hd, hsession, rfl⟩
    exact (hguar.ascends w hw v hv).2.2 _ he w' hw' v' hv'
  · exact hturn.turn w hw v hv d hd hsession w'
      (List.mem_filter.2 ⟨hw', decide_eq_true hkey⟩) v' hv'

/-- A version is written where no larger one is recorded: what is recorded was so at the start, or
was written by a launch. -/
theorem Kept.climbs (h₀ : Settled ms db₀) (hC : System.Consistent schemaServer db₀ S)
    (hchain : schemaServer.Chain S.moment.db c.writes) (hlegal : ∀ w ∈ c.writes, LegalSchemaWrite w)
    (hguar : LaunchCommit ms db₀.version (S.traceOf c.session) c.toEffect)
    (hturn : Undisturbed S.history c) : ∀ w ∈ c.writes, Climbs w := by
  have horigin : ∀ versions ∈ S.moment.db.migrations, ∀ x ∈ versions, x ≤ db₀.version ∨
      ∃ d ∈ S.history, ∃ w ∈ d.writes, w.key = .versions ∧ x ∈ w.stmt.stage := by
    rw [hC.now.2]
    refine hC.chain.keeps (k := .versions) (P := fun r ↦ ∀ versions ∈ r, ∀ x ∈ versions,
      x ≤ db₀.version ∨ ∃ d ∈ S.history, ∃ w ∈ d.writes, w.key = .versions ∧ x ∈ w.stmt.stage)
      (fun versions hrows x hx ↦ Or.inl (h₀.recorded.le_version hrows hx)) ?_
    intro old new s hw hold versions hrows x hx
    rcases hC.legal _ hw versions hrows x hx with ⟨before, hbefore, hx⟩ | hstage
    · exact hold before hbefore x hx
    · obtain ⟨d, hd, hw⟩ := List.mem_flatMap.1 hw
      exact Or.inr ⟨d, hd, _, hw, rfl, hstage⟩
  rintro ⟨k, old, new, s⟩ hw
  cases k with
  | versions =>
    intro v hv
    obtain ⟨hfloor, hupTo, -⟩ := hguar.ascends _ hw v hv
    refine (hchain.of_mem hw (P := fun r ↦ ∀ versions ∈ r, ∀ x ∈ versions, x ≤ v) ?_).1 ?_
    · intro old new s hw' hold versions hrows x hx
      rcases hlegal _ hw' versions hrows x hx with ⟨before, hbefore, hx⟩ | hstage
      · exact hold before hbefore x hx
      · exact hupTo _ hw' x hstage
    · intro versions hrows x hx
      rcases horigin versions hrows x hx with hle | ⟨d, hd, w', hw', hkey, hx⟩
      · exact hle.trans hfloor
      · exact stage_le hguar hturn hw hv hd hw' hkey hx
  | _ => trivial

/-- An online migration that took effect stays in force: who writes its index runs the same text, or
that of a later migration, or drops it because it is invalid. -/
theorem Kept.inForce_commit (h : Kept ms db₀ S)
    (hchain : schemaServer.Chain S.moment.db c.writes) (hlegal : ∀ w ∈ c.writes, LegalSchemaWrite w)
    (hguar : LaunchCommit ms db₀.version (S.traceOf c.session) c.toEffect)
    (hturn : Undisturbed S.history c) {m : Migration} (hm : m ∈ ms.list)
    (happlied : m.version ∈ S.moment.db.applied) :
    InForce (S.history ++ [c]) (schemaServer.apply S.moment.db c.writes) m := by
  intro sql hsql
  by_cases hlater : ∃ w ∈ c.writes, w.key = .object sql.index ∧ ∃ v ∈ w.stmt.stage, m.version < v
  · obtain ⟨w, hw, hlater⟩ := hlater
    refine Or.inr ⟨w, ?_, hlater⟩
    rw [System.written_append, System.written_singleton]
    exact List.mem_append_right _ hw
  refine (h.inForce m hm happlied).append [c] sql hsql |>.imp_left fun hresult ↦ ?_
  refine hchain.keeps (k := .object sql.index) (P := fun r ↦ r = sql.result) hresult ?_
  intro old new s hw hold
  rcases hlegal _ hw with ⟨m', rfl, htext⟩ | ⟨hdrops, hnone⟩
  · -- the text of an earlier migration would come after this one was applied
    have hle : m.version ≤ m'.version := by
      have hstage : m'.version ∈ (SchemaStmt.execute m').stage := rfl
      rcases h.origin m hm happlied sql hsql with hle | ⟨d, hd, w', hw', hkey, hv'⟩
      · exact hle.trans (hguar.ascends _ hw _ hstage).1
      · exact stage_le hguar hturn hw hstage hd hw' hkey hv'
    rcases hle.eq_or_lt with heq | hlt
    · obtain rfl := Migrations.eq_of_version hm (hguar.text _ hw m' rfl).1 heq
      exact (htext sql hsql).2 hold
    · exact absurd ⟨_, hw, rfl, m'.version, rfl, hlt⟩ hlater
  · -- the cleanup does not find the index valid
    have hvalid := (hturn.finds _ hw).2 hdrops
    cases sql with
    | create index => exact absurd hold hvalid
    | drop index => exact hnone hold

/-- A commit of a launch that no other one is in the way of. -/
theorem Kept.commit (h₀ : Settled ms db₀) (hC : System.Consistent schemaServer db₀ S)
    (h : Kept ms db₀ S) (hchain : schemaServer.Chain S.moment.db c.writes)
    (hlegal : ∀ w ∈ c.writes, LegalSchemaWrite w) (hc : c.moment = S.moment)
    (hguar : LaunchCommit ms db₀.version (S.traceOf c.session) c.toEffect)
    (hturn : Undisturbed S.history c)
    (htame : System.Tame (fun r ↦ ∃ e, r = .error e) Finished (fun _ ↦ True) S')
    (hmoment : S'.moment = S.moment.after schemaServer c.writes)
    (hhistory : S'.history = S.history ++ [c]) : Kept ms db₀ S' := by
  have hclimbs := Kept.climbs h₀ hC hchain hlegal hguar hturn
  have hdb : S'.moment.db = schemaServer.apply S.moment.db c.writes := by rw [hmoment]; rfl
  have hbefore : c.toEffect.moment.db = S.moment.db := congrArg Moment.db hc
  have hrecorded := hguar.recorded hclimbs (hbefore ▸ h.recorded)
  have heffective := fun {m : Migration} (hm : m ∈ ms.list) {sql} (hsql : m.sql = .online sql) ↦
    hguar.effective hlegal hm hsql
  rw [hbefore] at hrecorded
  rw [hbefore] at heffective
  refine ⟨htame, ?_, hdb ▸ hrecorded.1, fun n hn ↦ ?_, fun m hm happlied sql hsql ↦ ?_,
    fun m hm happlied ↦ ?_⟩
  · rw [hhistory, System.written_append, System.written_singleton]
    intro w hw
    rcases List.mem_append.1 hw with hw | hw
    · exact h.calm w hw
    · exact ⟨hclimbs w hw, hturn.finds w hw⟩
  · rw [hhistory, List.length_append, List.length_singleton] at hn
    rw [hdb, hhistory]
    rcases Nat.le_succ_iff.1 hn with hn | rfl
    · rw [System.stateAt_append db₀ hn]
      exact (h.climbed n hn).trans hrecorded.2
    · rw [System.stateAt, List.take_of_length_le (by simp), System.written_append,
        System.written_singleton, schemaServer.apply_append, ← hC.now.2]
  · rw [hhistory]
    rw [hdb] at happlied
    by_cases hold : m.version ∈ S.moment.db.applied
    · refine (h.origin m hm hold sql hsql).imp_right fun hearlier ↦ ?_
      obtain ⟨d, hd, hw⟩ := hearlier
      exact ⟨d, List.mem_append_left _ hd, hw⟩
    · exact Or.inr ⟨c, List.mem_append_right _ List.mem_cons_self,
        (heffective hm hsql hold happlied).2⟩
  · rw [hhistory, hdb]
    rw [hdb] at happlied
    by_cases hold : m.version ∈ S.moment.db.applied
    · exact h.inForce_commit hchain hlegal hguar hturn hm hold
    · exact fun sql hsql ↦ Or.inl (heffective hm hsql hold happlied).1

end

/-- A step that changes nothing that is stored. -/
theorem Kept.quiet (h : Kept ms db₀ S)
    (htame : System.Tame (fun r ↦ ∃ e, r = .error e) Finished (fun _ ↦ True) S')
    (hdb : S'.moment.db = S.moment.db) (hhistory : S'.history = S.history) : Kept ms db₀ S' := by
  refine ⟨htame, ?_, ?_, ?_, ?_, ?_⟩
  · rw [hhistory]
    exact h.calm
  · rw [hdb]
    exact h.recorded
  · rw [hdb, hhistory]
    exact h.climbed
  · rw [hdb, hhistory]
    exact h.origin
  · rw [hdb, hhistory]
    exact h.inForce

/-- A step of an orderly run of several runners. -/
theorem Kept.step (h₀ : Settled ms db₀) (hC : System.Consistent schemaServer db₀ S)
    (h : Kept ms db₀ S) (hl : Launched ms l) (horderly : Orderly S l)
    (hs : launchStep S l = some S')
    (hadv : System.Advances schemaServer (fun _ ↦ launchSpec ms db₀.version) S S') :
    Kept ms db₀ S' := by
  have htame : System.Tame (fun r ↦ ∃ e, r = .error e) Finished (fun _ ↦ True) S' := by
    refine h.tame.step (fun _ _ ↦ trivial) (fun i p hp ↦ ?_) (fun i c s st k hc _ _ ↦ ?_)
      (fun _ _ _ _ _ _ _ _ _ _ _ _ _ _ _ _ ↦ trivial) hs
    · subst hp
      rw [show p = (runMigrations ms).run from hl]
      exact stops_runMigrations ms
    · subst hc
      exact fun iso base a ws heval ↦ finished_of_eval hl heval
  cases hadv with
  | quiet hdb hhistory _ => exact h.quiet htame hdb hhistory
  | answer i b hdb hhistory _ _ => exact h.quiet htame hdb hhistory
  | commit c hc hchain hlegal hguar hmoment hhistory _ =>
    exact h.commit h₀ hC hchain hlegal hc hguar (horderly S' c hs hhistory) htame hmoment hhistory

theorem mem_applied_of_advances {Γ : ℕ → ScriptSpec SchemaDb SchemaKey SchemaRow SchemaStmt}
    (h : System.Advances schemaServer Γ S S') {x : ℤ} (hx : x ∈ S.moment.db.applied) :
    x ∈ S'.moment.db.applied := by
  cases h with
  | quiet hdb _ _ => rwa [hdb]
  | answer i b hdb _ _ _ => rwa [hdb]
  | commit c _ hchain hlegal _ hmoment _ _ =>
    rw [hmoment]
    exact mem_applied_apply hchain hlegal hx

/-! ### Every run -/

theorem kept_of_run (h₀ : Settled ms db₀) {time : ℤ}
    (h : Run launchStep (fun S l ↦ Launched ms l ∧ Orderly S l) (System.init db₀ time) S) :
    System.Consistent schemaServer db₀ S ∧ Kept ms db₀ S := by
  obtain ⟨hC, -, -, hkept⟩ := System.sound_of_invariant (fun _ ↦ launchSpec ms db₀.version)
    (fun _ _ _ _ _ ↦ True) (P := Kept ms db₀) (fun _ ↦ rfl) (fun _ ↦ trivial) (kept_init h₀ time)
    (fun S i p _ hkept hl ↦ by
      rw [show p = (runMigrations ms).run from hl.1]
      exact wp_mono (wpS_runMigrations hkept.recorded hkept.floor) fun _ _ _ _ _ ↦ trivial)
    (fun S i s st k _ hkept _ hlook hp _ ↦ hkept.clean hlook hp)
    (fun S l S' hC _ hkept hl hs hadv ↦ hkept.step h₀ hC hl.1 hl.2 hs hadv)
    (fun S l S' _ _ hkept' _ _ hadv _ ↦ ⟨fun _ ↦ hkept'.recorded,
      fun x hx ↦ mem_applied_of_advances hadv hx, fun _ ↦ hkept'.floor⟩) h
  exact ⟨hC, hkept⟩

/-- **Several launches at once.** Any number of processes start at any time to bring one schema up
to date, which no launch has touched or which earlier ones have left settled. Their requests may
fail, be interrupted half way or lose their reply, and the processes may stop, in any interleaving.
As long as no launch commits a write to the version or to an index where another one has written it
for a later migration, and none finds an index it builds invalid or one it cleans up valid, the
recorded version never decreases, and in every state every migration up to it took effect and is in
force. -/
theorem version_climbs (ms : Migrations) {db₀ : SchemaDb} {time : ℤ} (h₀ : Settled ms db₀)
    {S : SchemaSystem}
    (h : Run launchStep (fun S l ↦ Launched ms l ∧ Orderly S l) (System.init db₀ time) S) {n k : ℕ}
    (hnk : n ≤ k) (hk : k ≤ S.history.length) :
    (System.stateAt schemaServer db₀ S.history n).version ≤
        (System.stateAt schemaServer db₀ S.history k).version ∧
      Recorded ms (System.stateAt schemaServer db₀ S.history k) ∧
      ∀ m ∈ ms.list, m.version ≤ (System.stateAt schemaServer db₀ S.history k).version →
        InForce (S.history.take k) (System.stateAt schemaServer db₀ S.history k) m := by
  obtain ⟨Sk, hrun, hhistory, -⟩ := System.exists_state_at h hk
  obtain ⟨hC, hkept⟩ := kept_of_run h₀ hrun
  have hdb : Sk.moment.db = System.stateAt schemaServer db₀ S.history k := by
    rw [hC.now.2, hhistory, System.stateAt]
  have hstate : System.stateAt schemaServer db₀ Sk.history n =
      System.stateAt schemaServer db₀ S.history n := by
    rw [hhistory, System.stateAt, System.stateAt, List.take_take, min_eq_left hnk]
  rw [← hdb, ← hstate, ← hhistory]
  refine ⟨hkept.climbed n ?_, hkept.recorded, fun m hm hle sql hsql ↦ ?_⟩
  · rw [hhistory, List.length_take]
    omega
  · rcases hkept.recorded.applied m hm hle with hblank | happlied
    · simp [Migration.blank, hsql] at hblank
    · exact hkept.inForce m hm happlied sql hsql

/-! ### A runner that is overtaken -/

/-- The last of the migrations that create a table, and the two indexes that come after it. -/
def pendingAndFailed : Migrations where
  list := [⟨28, .catalog (some (createTable "workflow_status"))⟩,
    ⟨29, .online (.create "idx_workflow_status_pending")⟩,
    ⟨30, .online (.create "idx_workflow_status_failed")⟩]
  sorted := by decide
  positive := by decide

def untouchedSchema : SchemaDb := ⟨false, none, ∅, []⟩

/-- Runner `i` begins or ends a transaction, or leaves its scope. -/
def brackets (i : ℕ) : List SchemaLabel := [.finish i {}]

/-- Runner `i` sends a statement, which is carried out. -/
def sends (i : ℕ) : List SchemaLabel := [.issue i, .finish i {}]

/-- The first runner creates the schema and applies the catalog migration. When it goes on, a second
one has read the version. -/
def bothStarted : List SchemaLabel :=
  [[.spawn 0 (runMigrations pendingAndFailed).run], brackets 0, sends 0, sends 0, sends 0, sends 0,
    sends 0, brackets 0, brackets 0, brackets 0, sends 0, sends 0, brackets 0, brackets 0,
    [.spawn 1 (runMigrations pendingAndFailed).run], brackets 1, sends 1, sends 1, sends 1,
    brackets 1, brackets 1].flatten

/-- The two runners apply each online migration one after the other. -/
def inLockstep : List SchemaLabel :=
  bothStarted ++ [sends 0, sends 0, sends 0, sends 1, sends 1, sends 1, sends 0, sends 0, sends 1,
    sends 1].flatten

/-- The first runner applies both online migrations, and the second one then the first of them. -/
def overtaken : List SchemaLabel :=
  bothStarted ++ [sends 0, sends 0, sends 0, sends 0, sends 0, sends 1, sends 1, sends 1].flatten

/-- Whether what a step commits is committed undisturbed. -/
def orderly (S : SchemaSystem) (l : SchemaLabel) : Bool :=
  match launchStep S l with
  | none => true
  | some S' => (S'.history.drop S.history.length).all fun c ↦ decide (Undisturbed S.history c)

theorem orderly_of_check {S : SchemaSystem} {l : SchemaLabel} (h : orderly S l = true) :
    Orderly S l := by
  intro S' c hs hhistory
  rw [orderly, hs] at h
  simpa [hhistory] using h

theorem version_climbs_inLockstep : ∃ S : SchemaSystem,
    exec launchStep (System.init untouchedSchema 0) inLockstep = some S ∧ S.history.length = 13 ∧
      (System.stateAt schemaServer untouchedSchema S.history 13).version = 30 ∧
      (System.stateAt schemaServer untouchedSchema S.history 0).version ≤
        (System.stateAt schemaServer untouchedSchema S.history 13).version ∧
      Recorded pendingAndFailed (System.stateAt schemaServer untouchedSchema S.history 13) ∧
      ∀ m ∈ pendingAndFailed.list,
        m.version ≤ (System.stateAt schemaServer untouchedSchema S.history 13).version →
        InForce (S.history.take 13) (System.stateAt schemaServer untouchedSchema S.history 13)
        m := by
  have hrun : (exec (fun S l ↦ if orderly S l then launchStep S l else none)
      (System.init untouchedSchema 0) inLockstep).any (fun S ↦ S.history.length == 13 &&
        (System.stateAt schemaServer untouchedSchema S.history 13).version == 30) = true := by
    decide +kernel
  obtain ⟨S, hS, hcheck⟩ := (Option.any_eq_true _ _).1 hrun
  simp only [Bool.and_eq_true, beq_iff_eq] at hcheck
  have hreach : Run launchStep (fun S l ↦ Launched pendingAndFailed l ∧ Orderly S l)
      (System.init untouchedSchema 0) S := by
    refine Run.of_exec_checked hS fun S l hl hcheck ↦ ⟨?_, orderly_of_check hcheck⟩
    revert l
    simp [inLockstep, bothStarted, brackets, sends, Launched]
  exact ⟨S, exec_of_checked hS, hcheck.1, hcheck.2, version_climbs pendingAndFailed
    (Untouched.settled ⟨rfl, rfl⟩) hreach (Nat.zero_le 13) hcheck.1.ge⟩

/-- Version 30 is recorded, and the runner that has fallen behind replaces it by 29. -/
theorem version_falls : ∃ S : SchemaSystem,
    Run launchStep (fun _ l ↦ Launched pendingAndFailed l) (System.init untouchedSchema 0) S ∧
      S.history.length = 11 ∧
      (System.stateAt schemaServer untouchedSchema S.history 10).version = 30 ∧
      (System.stateAt schemaServer untouchedSchema S.history 11).version = 29 := by
  have hrun : (exec launchStep (System.init untouchedSchema 0) overtaken).any (fun S ↦
      S.history.length == 11 &&
        (System.stateAt schemaServer untouchedSchema S.history 10).version == 30 &&
        (System.stateAt schemaServer untouchedSchema S.history 11).version == 29) = true := by
    decide +kernel
  obtain ⟨S, hS, hcheck⟩ := (Option.any_eq_true _ _).1 hrun
  simp only [Bool.and_eq_true, beq_iff_eq] at hcheck
  refine ⟨S, Run.of_exec hS fun _ l hl ↦ ?_, hcheck.1.1, hcheck.1.2, hcheck.2⟩
  revert l
  simp [overtaken, bothStarted, brackets, sends, Launched]

end Dbos.Migrate
