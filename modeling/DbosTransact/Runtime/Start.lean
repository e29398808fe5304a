import DbosTransact.Db.Rules
import DbosTransact.Runtime.Calls

/-!
# What a start commits

`start_workflow` writes the workflow row, decides, and spawns the body outside the transaction. Its
transaction is described by an `Upsert`: what was inserted and the row that was there. Everything
else about it is computed from that, in particular whether the body is spawned (`Upsert.runs`).
`wpM_startWorkflow` says that a start commits at most one transaction, that this is the one of an
`Upsert`, and that the task is spawned once, after the commit, if `runs` says so.
-/

namespace Dbos

open Txn

/-- The errors that refuse a start or an enqueue. -/
def DbosError.isRefusal (e : DbosError) : Bool :=
  e.code = .conflictingWorkflow || e.code = .queueDeduplicated || e.code = .conflictingId

/-! ### The transaction -/

/-- An insert of a workflow row, and the row that was there. -/
structure Upsert where
  input : InsertWorkflowInput
  maxRetries : ℤ
  old : Option WorkflowRow

namespace Upsert

variable (u : Upsert)

/-- The row the upsert leaves. -/
def row : WorkflowRow :=
  match u.old with
  | none => u.input.row
  | some r => u.input.onConflict r

/-- The row exceeds its attempts. -/
def exceeds : Bool :=
  exceedsAttempts
  ⟨u.row.recoveryAttempts, u.row.status, u.row.name, u.row.queueName, u.row.ownerXid⟩
    u.maxRetries

/-- What `insert_workflow_status` returns. -/
def result : InsertResult :=
  ⟨u.row.recoveryAttempts, u.row.status, u.row.name, u.row.queueName, u.row.ownerXid, u.exceeds⟩

/-- What `insert_workflow_status` writes: the row, and the dead-letter update if it applies. -/
def writes : List DbWrite :=
  ⟨.workflowStatus u.input.workflowId, u.old, some u.row, .insertWorkflowStatus u.input⟩ ::
    if u.exceeds && u.row.status = .pending then
      [⟨.workflowStatus u.input.workflowId, some u.row, some u.row.deadLetter,
        .deadLetter u.input.workflowId⟩]
    else []

/-- The row in the end. -/
def final : WorkflowRow :=
  if u.exceeds && u.row.status = .pending then u.row.deadLetter else u.row

/-- Whether `start_workflow` goes on to spawn the body. -/
def runs (isRecovery : Bool) : Bool :=
  !u.exceeds && !shouldSkip u.result isRecovery u.input.ownerXid

/-- The transaction is that of a start: the row is written, and the child is recorded with the
parent, if there is one. -/
structure Commits (e : DbEffect) : Prop where
  old : e.moment.db.workflow u.input.workflowId = u.old
  writes : ∃ child, e.writes = u.writes ++ child ∧
    ∀ w ∈ child, ∃ p n row, w.key = .operationOutputs p n ∧ w.stmt = .insertOperation p n row

/-- What a start writes besides the workflow: if the workflow has not exceeded its attempts, the row
that links it to the parent, if there is one. -/
inductive Links : Option (WorkflowState × ℕ) → List DbWrite → Prop
  | alone : Links none []
  | exceeded (h : u.exceeds = true) (parent : Option (WorkflowState × ℕ)) : Links parent []
  | child (p : WorkflowState) (n : ℕ) (row : OperationRow) (hex : u.exceeds = false)
      (h : row.childWorkflowId = some u.input.workflowId) : Links (some (p, n))
        [⟨.operationOutputs p.workflowId n, none, some row, .insertOperation p.workflowId n row⟩]

variable {u}

/-- An upsert that does not return the row it inserts has found one. -/
theorem old_of_row_ne (h : u.row ≠ u.input.row) :
    ∃ r, u.old = some r ∧ u.row = u.input.onConflict r := by
  rw [row] at h ⊢
  cases hold : u.old with
  | none =>
    rw [hold] at h
    exact absurd rfl h
  | some r => exact ⟨r, rfl, rfl⟩

theorem Links.mem {parent : Option (WorkflowState × ℕ)} {child : List DbWrite}
    (h : u.Links parent child) : ∀ w ∈ child, ∃ p n row, w.key = .operationOutputs p n ∧
      w.stmt = .insertOperation p n row := by
  cases h with
  | child p n row hex h =>
    intro w hw
    rw [List.mem_singleton.1 hw]
    exact ⟨_, _, row, rfl, rfl⟩
  | _ => simp

/-- The other workflows keep their rows. -/
theorem Commits.key {e : DbEffect} (h : u.Commits e) {w : DbWrite} (hw : w ∈ e.writes) {id : String}
    (hk : w.key = .workflowStatus id) : id = u.input.workflowId ∧ w ∈ u.writes := by
  obtain ⟨child, hchild, hall⟩ := h.writes
  rw [hchild] at hw
  rcases List.mem_append.1 hw with hw | hw
  · refine ⟨?_, hw⟩
    rw [Upsert.writes] at hw
    split at hw
    · rcases List.mem_cons.1 hw with rfl | hw
      · exact (Key.workflowStatus.inj hk).symm
      · rw [List.mem_singleton.1 hw] at hk
        exact (Key.workflowStatus.inj hk).symm
    · rw [List.mem_singleton.1 hw] at hk
      exact (Key.workflowStatus.inj hk).symm
  · obtain ⟨p, n, row, hkey, -⟩ := hall w hw
    rw [hkey] at hk
    cases hk

/-- What is committed is the transaction of the start, since the row found is the one locked. -/
theorem commits_of_chain {m : DbMoment} {snap : Option DbMoment} {child : List DbWrite}
    (hchain : server.Chain m.db (u.writes ++ child))
    (hchild : ∀ w ∈ child, ∃ p n row, w.key = .operationOutputs p n ∧
      w.stmt = .insertOperation p n row) : u.Commits ⟨m, snap, u.writes ++ child⟩ := by
  refine ⟨?_, child, rfl, hchild⟩
  rw [writes, List.cons_append] at hchain
  exact hchain.1.symm

/-- The row after the transaction. -/
theorem Commits.after {e : DbEffect} (h : u.Commits e) :
    (server.apply e.moment.db e.writes).workflow u.input.workflowId = some u.final := by
  obtain ⟨child, hchild, hall⟩ := h.writes
  have hframe : ∀ w ∈ child, w.key ≠ .workflowStatus u.input.workflowId := by
    intro w hw heq
    obtain ⟨p, n, row, hkey, -⟩ := hall w hw
    rw [hkey] at heq
    cases heq
  have hlook : store.look (server.apply (server.apply e.moment.db u.writes) child)
      (.workflowStatus u.input.workflowId) =
      store.look (server.apply e.moment.db u.writes) (.workflowStatus u.input.workflowId) :=
    server.look_apply_of_forall_ne hframe
  rw [hchild, server.apply_append]
  refine hlook.trans ?_
  rw [Upsert.writes, final]
  split
  · exact store.look_put_self _ (.workflowStatus u.input.workflowId) _
  · exact store.look_put_self _ (.workflowStatus u.input.workflowId) _

end Upsert

/-! ### The insert -/

/-- What the upsert of a workflow row does, when it is carried out. -/
theorem Stmt.insertWorkflowStatus_done {v : DbView Stmt} {input : InsertWorkflowInput}
    {a : InsertReturningRow} {ch : Changes} (h : run v (.insertWorkflowStatus input) = .done a ch)
    (maxRetries : ℤ) : ∃ u : Upsert, u.input = input ∧ u.maxRetries = maxRetries ∧
      u.old = v.cur.workflow input.workflowId ∧
      a = ⟨u.row.recoveryAttempts, u.row.status, u.row.name, u.row.queueName, u.row.ownerXid⟩ ∧
      ch = [⟨.workflowStatus input.workflowId, some u.row⟩] := by
  refine ⟨⟨input, maxRetries, v.cur.workflow input.workflowId⟩, rfl, rfl, rfl, ?_⟩
  simp only [run, runInsertWorkflowStatus] at h
  split at h
  · cases h
  split at h
  · cases h
  split at h
  · cases h
  obtain ⟨r, hr, rfl⟩ := Outcome.map_eq_done.1 h
  obtain ⟨rfl, hcase⟩ := View.upsert_done hr
  have hrow : r = Upsert.row ⟨input, maxRetries, v.cur.workflow input.workflowId⟩ := by
    rcases hcase with ⟨hnone, rfl⟩ | ⟨old, hold, rfl⟩
    · rw [Upsert.row, show v.cur.workflow input.workflowId = none from hnone]
    · rw [Upsert.row, show v.cur.workflow input.workflowId = some old from hold]
  rw [hrow]
  exact ⟨rfl, rfl⟩

theorem Stmt.isSome_of_sameDedup {input : InsertWorkflowInput} {r : WorkflowRow}
    (h : sameDedup input r = true) : input.deduplicationId.isSome = true := by
  simp only [sameDedup, Bool.and_eq_true, decide_eq_true_eq] at h
  rw [← h.1.2]
  exact h.1.1.1

/-- The server refuses the upsert at read committed for its deduplication id only: the workflow is
not there, and another one has that id on its queue. -/
theorem Stmt.insertWorkflowStatus_fail {v : DbView Stmt} (hiso : v.iso = .readCommitted)
    {input : InsertWorkflowInput} {e : SqlError}
    (h : run v (.insertWorkflowStatus input) = .fail e) : e = .uniqueViolation ∧
      v.cur.workflow input.workflowId = none ∧
        ∃ id r, v.cur.workflow id = some r ∧ sameDedup input r = true := by
  simp only [run, runInsertWorkflowStatus] at h
  split at h
  · cases h
  split at h
  · cases h
  split at h
  · rename_i hdup
    rw [Bool.and_eq_true, List.any_eq_true, Option.isNone_iff_eq_none] at hdup
    obtain ⟨hfresh, ⟨id, r⟩, hr, hsame⟩ := hdup
    cases h
    exact ⟨rfl, hfresh, id, r, Table.mem_rows_iff.1 hr, hsame⟩
  · have hup := Outcome.map_eq_fail.1 h
    exact (View.upsert_ne_fail hiso hup).elim

section

variable {Γ : DbSpec} {m₀ m : DbMoment} {τ : DbTrace} {input : InsertWorkflowInput}
variable {maxRetries : ℤ}

/-- Why an insert of a workflow row fails: a fault, a deduplication id that another row has, or a
row there that does not go with it. -/
inductive InsertFails (Γ : DbSpec) (input : InsertWorkflowInput) (m₀ : DbMoment) (e : DbosError) :
    Prop
  | fault (h : Γ.faulty)
  | dedup (m : DbMoment) (id : String) (r : WorkflowRow) (hm : Γ.rely m₀ m)
      (hfresh : m.db.workflow input.workflowId = none) (hr : m.db.workflow id = some r)
      (h : Stmt.sameDedup input r = true) (he : e = .ofSql .uniqueViolation)
  | queue (m : DbMoment) (r : WorkflowRow) (hm : Γ.rely m₀ m)
      (hr : m.db.workflow input.workflowId = some r) (h : input.queueName.isSome = true)
      (he : e.code = .conflictingWorkflow ∧ e.source = none)
  | name (m : DbMoment) (r : WorkflowRow) (hm : Γ.rely m₀ m)
      (hr : m.db.workflow input.workflowId = some r) (h : r.name ≠ input.name)
      (he : e.code = .conflictingWorkflow ∧ e.source = none)

/-- Inside a transaction that has written nothing, an insert writes what its `Upsert` says, to a row
of its name. -/
theorem wpM_insertWorkflowStatus_named (m₀ : DbMoment) :
    wpM Γ (insertWorkflowStatus input maxRetries)
      (fun res c m τ' ↦ τ' = τ ∧ Γ.rely m₀ m ∧ ∃ u : Upsert, u.input = input ∧
        u.maxRetries = maxRetries ∧ res = u.result ∧
        c = .active ⟨.readCommitted, none, u.writes⟩ ∧
        (input.name.isEmpty = true ∨ u.row.name = input.name))
      (fun e _ m τ' ↦ τ' = τ ∧ Γ.rely m₀ m ∧ InsertFails Γ input m₀ e)
      (.active ⟨.readCommitted, none, []⟩) m₀ τ := by
  rw [insertWorkflowStatus]
  refine wpM_query_active (fun b m₁ m₂ e hb hm₁ hwhy hm₂ ↦
    ⟨rfl, Γ.rely_trans hb (Γ.rely_trans hm₁ hm₂), ?_⟩) ?_
  · rcases hwhy with hf | ⟨v, hv, hfail⟩
    · exact .fault hf
    · obtain ⟨rfl, hfresh, id, r, hr, hsame⟩ := Stmt.insertWorkflowStatus_fail hv.iso hfail
      have hcur : v.cur = m₁.db := hv.cur
      rw [hcur] at hfresh hr
      exact .dedup m₁ id r (Γ.rely_trans hb hm₁) hfresh hr hsame rfl
  intro b m₁ v a ch hb hm₁ hv hrun
  obtain ⟨u, rfl, rfl, hold, rfl, rfl⟩ := Stmt.insertWorkflowStatus_done hrun maxRetries
  have hm : Γ.rely m₀ m₁ := Γ.rely_trans hb hm₁
  have hcur : v.cur = m₁.db := hv.cur
  rw [hcur] at hold
  dsimp only
  split
  · -- the name does not agree, so the row was there
    rename_i hname
    refine wpM_throw fun m₂ hm₂ ↦ ⟨rfl, Γ.rely_trans hm hm₂, ?_⟩
    rw [Bool.and_eq_true, decide_eq_true_eq] at hname
    obtain ⟨r, hr, hrow⟩ := Upsert.old_of_row_ne (u := u) fun heq ↦ hname.2 (by rw [heq]; rfl)
    rw [hrow] at hname
    exact .name m₁ r hm (hold.symm.trans hr) hname.2 ⟨rfl, rfl⟩
  rename_i hname
  have hname : u.input.name.isEmpty = true ∨ u.row.name = u.input.name := by
    rw [Bool.and_eq_true, decide_eq_true_eq] at hname
    by_cases hempty : u.input.name.isEmpty = true
    · exact Or.inl hempty
    · exact Or.inr (not_not.1 fun hne ↦ hname ⟨by simpa using hempty, hne⟩)
  split
  · rename_i hqueue
    refine wpM_throw fun m₂ hm₂ ↦ ⟨rfl, Γ.rely_trans hm hm₂, ?_⟩
    obtain ⟨r, hr, -⟩ := Upsert.old_of_row_ne (u := u) fun heq ↦ by
      rw [heq, show u.input.row.queueName = u.input.queueName from rfl] at hqueue
      cases hq : u.input.queueName with
      | none =>
        rw [hq] at hqueue
        cases hqueue
      | some q =>
        rw [hq] at hqueue
        exact of_decide_eq_true hqueue rfl
    refine .queue m₁ r hm (hold.symm.trans hr) ?_ ⟨rfl, rfl⟩
    cases hq : u.input.queueName with
    | none =>
      rw [hq] at hqueue
      cases hqueue
    | some q => rfl
  have hwrites : store.record (Stmt.insertWorkflowStatus u.input) v.cur
      [⟨.workflowStatus u.input.workflowId, some u.row⟩] =
      [⟨.workflowStatus u.input.workflowId, u.old, some u.row,
        Stmt.insertWorkflowStatus u.input⟩] := by
    rw [hold, ← hcur]
    rfl
  rw [hwrites]
  split
  · rename_i hexceeds
    have hex : u.exceeds = true := hexceeds
    refine wpM_query_active (fun b' m₂ m₃ e hb' hm₂ hwhy hm₃ ↦
      ⟨rfl, Γ.rely_trans hm (Γ.rely_trans hb' (Γ.rely_trans hm₂ hm₃)), ?_⟩) ?_
    · rcases hwhy with hf | ⟨v', hv', hfail⟩
      · exact .fault hf
      · have hup := Outcome.map_eq_fail.1 hfail
        exact (View.update_ne_fail hv'.iso hup).elim
    intro b' m₂ v' a' ch' hb' hm₂ hv' hrun'
    refine wpM_pure fun m₃ hm₃ ↦
      ⟨rfl, Γ.rely_trans hm (Γ.rely_trans hb' (Γ.rely_trans hm₂ hm₃)), u, rfl, rfl, ?_, ?_, hname⟩
    · simp [Upsert.result, hex]
    · -- the row this transaction has just written is the one the update looks at
      have hbase : store.look v'.base (.workflowStatus u.input.workflowId) = some u.row := by
        rw [hv'.base]
        exact store.look_put_self _ (.workflowStatus u.input.workflowId) _
      have hcur' : store.look v'.cur (.workflowStatus u.input.workflowId) = some u.row := by
        rw [hv'.cur]
        exact store.look_put_self _ (.workflowStatus u.input.workflowId) _
      obtain ⟨r, hr, -⟩ := Outcome.map_eq_done.1 hrun'
      have hch := View.update_of_look hbase hcur' hr
      rw [hch]
      by_cases hpending : u.row.status = .pending
      · simp [Upsert.writes, hex, hpending, pinTx, Store.record, hcur']
      · simp [Upsert.writes, hex, hpending, pinTx, Store.record]
  · rename_i hexceeds
    have hex : u.exceeds = false := Bool.eq_false_iff.2 hexceeds
    refine wpM_pure fun m₂ hm₂ ↦ ⟨rfl, Γ.rely_trans hm hm₂, u, rfl, rfl, ?_, ?_, hname⟩
    · simp [Upsert.result, hex]
    · simp [Upsert.writes, hex, pinTx]

theorem wpM_insertWorkflowStatus (m₀ : DbMoment) :
    wpM Γ (insertWorkflowStatus input maxRetries)
      (fun res c m τ' ↦ τ' = τ ∧ Γ.rely m₀ m ∧ ∃ u : Upsert, u.input = input ∧
        u.maxRetries = maxRetries ∧ res = u.result ∧ c = .active ⟨.readCommitted, none, u.writes⟩)
      (fun e _ m τ' ↦ τ' = τ ∧ Γ.rely m₀ m ∧ InsertFails Γ input m₀ e)
      (.active ⟨.readCommitted, none, []⟩) m₀ τ := by
  refine wpM_mono (wpM_insertWorkflowStatus_named m₀) ?_ fun _ _ _ _ h ↦ h
  rintro res c m τ' ⟨hτ, hm, u, hinput, hmax, hres, hc, -⟩
  exact ⟨hτ, hm, u, hinput, hmax, hres, hc⟩

/-! ### Enqueues -/

/-- Why an enqueue fails, when its requests do not. -/
inductive EnqueueFails (Γ : DbSpec) (input : InsertWorkflowInput) (queueName : String)
    (deduplicationId : Option String) (m₀ : DbMoment) (e : DbosError) : Prop
  | dedup (m : DbMoment) (id : String) (r : WorkflowRow) (hm : Γ.rely m₀ m)
      (hfresh : m.db.workflow input.workflowId = none) (hr : m.db.workflow id = some r)
      (h : Stmt.sameDedup input r = true)
      (he : e = .queueDeduplicated input.workflowId queueName (deduplicationId.getD ""))
  | found (m : DbMoment) (r : WorkflowRow) (hm : Γ.rely m₀ m)
      (hr : m.db.workflow input.workflowId = some r) (he : e.code = .conflictingWorkflow)

/-- The insert of an enqueue commits the transaction of one `Upsert`, or does nothing. -/
theorem wpM_enqueueInsert {queueName : String} {deduplicationId : Option String} (m₀ : DbMoment)
    (hguar : ∀ (u : Upsert) e, u.Commits e → u.input = input → u.maxRetries = maxRetries →
      Γ.guar τ e) :
    wpM Γ (enqueueInsert input maxRetries queueName deduplicationId)
      (fun h c _ τ' ↦ c = .idle ∧ h = ⟨input.workflowId, .polling⟩ ∧
        ∃ (u : Upsert) (e : DbEffect), u.input = input ∧ u.maxRetries = maxRetries ∧ u.Commits e ∧
          Adds τ [e] NoSpawn τ')
      (fun e c _ τ' ↦ c = .idle ∧ (e.isRefusal = true → τ' = τ) ∧
        (Γ.faulty ∨ τ' = τ ∧ EnqueueFails Γ input queueName deduplicationId m₀ e))
      .idle m₀ τ := by
  refine wpM_transaction (fun _ _ hf _ ↦ ⟨rfl, fun _ ↦ rfl, Or.inl hf⟩)
    (wpM_bind (wpM_attempt (wpM_mono (wpM_insertWorkflowStatus m₀) ?_ ?_)))
  · rintro res c m₁ τ₁ ⟨rfl, hm₁, u, rfl, rfl, -, rfl⟩
    rw [← List.append_nil u.writes]
    have hcommits : ∀ {m₂ : DbMoment}, server.Chain m₂.db (u.writes ++ []) →
        u.Commits ⟨m₂, none, u.writes ++ []⟩ := fun hchain ↦
      Upsert.commits_of_chain hchain (by simp)
    refine wpM_commit (fun m₂ _ hchain ↦ hguar u _ (hcommits hchain) rfl rfl)
      (fun _ _ hf _ ↦ ⟨rfl, fun _ ↦ rfl, Or.inl hf⟩) (fun m₂ hm₂ hchain ↦ ?_)
      fun _ _ _ hf _ _ _ ↦ ⟨rfl, nofun, Or.inl hf⟩
    exact wpM_pure fun m₃ _ ↦
      ⟨rfl, rfl, u, _, rfl, rfl, hcommits hchain, (Adds.refl τ₁).commit _ _ _⟩
  · rintro e c m₁ τ₁ ⟨rfl, hm₁, hwhy⟩
    dsimp only
    cases hwhy with
    | fault hf => split <;> exact wpM_throw fun _ _ ↦ ⟨rfl, fun _ ↦ rfl, Or.inl hf⟩
    | dedup m id r hm hfresh hr h he =>
      subst he
      exact wpM_throw fun _ _ ↦ ⟨rfl, fun _ ↦ rfl, Or.inr ⟨rfl, .dedup m id r hm hfresh hr h rfl⟩⟩
    | queue m r hm hr _ he =>
      rw [DbosError.isDbUniqueViolation, he.2]
      exact wpM_throw fun _ _ ↦ ⟨rfl, fun _ ↦ rfl, Or.inr ⟨rfl, .found m r hm hr he.1⟩⟩
    | name m r hm hr _ he =>
      rw [DbosError.isDbUniqueViolation, he.2]
      exact wpM_throw fun _ _ ↦ ⟨rfl, fun _ ↦ rfl, Or.inr ⟨rfl, .found m r hm hr he.1⟩⟩

/-- The identifiers and the time an enqueue asks for before its insert. -/
theorem wpM_enqueueAsks {α : Type} {given : Option String} {f : String → ℤ → String → DbosM α}
    {Q : DbPost α} {X : DbPost DbosError} (hmay : ∀ τ a, NoSpawn a → Γ.may τ a)
    (h : ∀ id now xid m₁ τ₁, Γ.rely m m₁ → (∀ i ∈ given, i = id) → Asked τ₁ xid →
      Adds τ [] (fun a ↦ NoSpawn a ∧ Γ.rely a.moment m₁) τ₁ →
        wpM Γ (f id now xid) Q X .idle m₁ τ₁) :
    wpM Γ (do
      let id ← match given with
        | some id => pure id
        | none => ask .newUuid
      let now ← ask .now
      let xid ← ask .newUuid
      f id now xid) Q X .idle m τ := by
  have hrest : ∀ id m₁ τ₁, Γ.rely m m₁ → (∀ i ∈ given, i = id) →
      Adds τ [] (fun a ↦ NoSpawn a ∧ Γ.rely a.moment m₁) τ₁ →
      wpM Γ (ask .now >>= fun now ↦ ask .newUuid >>= fun xid ↦ f id now xid) Q X .idle m₁ τ₁ := by
    intro id m₁ τ₁ hm₁ hid hτ₁
    refine wpM_ask fun m₂ hm₂ now _ ↦ ⟨hmay _ _ (by rintro task ⟨⟩), ?_⟩
    refine wpM_ask fun m₃ hm₃ xid _ ↦ ⟨hmay _ _ (by rintro task ⟨⟩), ?_⟩
    have hτ₃ : Adds τ [] (fun a ↦ NoSpawn a ∧ Γ.rely a.moment m₃) τ₁ := hτ₁.mono fun a ha ↦
      ⟨ha.1, Γ.rely_trans ha.2 (Γ.rely_trans hm₂ hm₃)⟩
    exact h id now xid m₃ _ (Γ.rely_trans hm₁ (Γ.rely_trans hm₂ hm₃)) hid (asked_note _ _ _)
      ((hτ₃.note ⟨by rintro task ⟨⟩, hm₃⟩).note ⟨by rintro task ⟨⟩, Γ.rely_refl m₃⟩)
  cases given with
  | some id =>
    exact hrest id m τ (Γ.rely_refl m) (fun i hi ↦ (Option.some.inj hi).symm) (.refl τ)
  | none =>
    refine wpM_ask fun m₁ hm₁ id _ ↦ ⟨hmay _ _ (by rintro task ⟨⟩), ?_⟩
    exact hrest id m₁ _ hm₁ (fun i hi ↦ by cases hi)
      ((Adds.refl τ).note ⟨by rintro task ⟨⟩, Γ.rely_refl m₁⟩)

/-- An enqueue commits its insert, or does nothing. -/
theorem wpM_enqueue {given : Option String} {input : String → ℤ → String → InsertWorkflowInput}
    {queueName : String} {deduplicationId : Option String} (hmay : ∀ τ a, NoSpawn a → Γ.may τ a)
    (hinput : ∀ id now xid, (input id now xid).workflowId = id)
    (hguar : ∀ id now xid τ₁ (u : Upsert) e, Adds τ [] NoSpawn τ₁ → Asked τ₁ xid → u.Commits e →
      u.input = input id now xid → u.maxRetries = maxRetries → Γ.guar τ₁ e) :
    wpM Γ (do
      let id ← match given with
        | some id => pure id
        | none => ask .newUuid
      let now ← ask .now
      let xid ← ask .newUuid
      enqueueInsert (input id now xid) maxRetries queueName deduplicationId)
      (fun h c _ τ' ↦ c = .idle ∧ ∃ id now xid, h = ⟨id, .polling⟩ ∧ (∀ i ∈ given, i = id) ∧
        ∃ (u : Upsert) (e : DbEffect), u.input = input id now xid ∧ u.maxRetries = maxRetries ∧
          u.Commits e ∧ Asked τ' xid ∧ Adds τ [e] NoSpawn τ')
      (fun e c _ τ' ↦ c = .idle ∧ (e.isRefusal = true → Adds τ [] NoSpawn τ') ∧
        (Γ.faulty ∨ ∃ id now xid m₁, (∀ i ∈ given, i = id) ∧
          Γ.rely m m₁ ∧ Adds τ [] (fun a ↦ NoSpawn a ∧ Γ.rely a.moment m₁) τ' ∧
            EnqueueFails Γ (input id now xid) queueName deduplicationId m₁ e))
      .idle m τ := by
  refine wpM_enqueueAsks hmay fun id now xid m₁ τ₁ hm₁ hid hasked hτ₁ ↦ ?_
  have hnoSpawn : Adds τ [] NoSpawn τ₁ := hτ₁.mono fun a ha ↦ ha.1
  refine wpM_mono (wpM_enqueueInsert m₁ fun u e ↦ hguar id now xid _ u e hnoSpawn hasked) ?_ ?_
  · rintro h c m' τ' ⟨hc, rfl, u, e, hu, hmax, hcommits, hadds⟩
    exact ⟨hc, id, now, xid, by rw [hinput], hid, u, e, hu, hmax, hcommits, hasked.adds hadds,
      hnoSpawn.trans hadds⟩
  · rintro e c m' τ' ⟨hc, hrefused, hcase⟩
    refine ⟨hc, fun he ↦ hrefused he ▸ hnoSpawn, ?_⟩
    rcases hcase with hf | ⟨rfl, hwhy⟩
    · exact Or.inl hf
    · exact Or.inr ⟨id, now, xid, m₁, hid, hm₁, hτ₁, hwhy⟩

/-! ### Recorded operations -/

/-- Inside a transaction, a recorded operation adds its row to what was written. -/
theorem wpM_recordOperationResult (m₀ : DbMoment) {p : String} {n : ℕ} {name : String}
    {output error child ser : Option String} {ws : List DbWrite}
    (hmay : ∀ τ a, NoSpawn a → Γ.may τ a) :
    wpM Γ (recordOperationResult p n name output error child ser)
      (fun _ c m τ' ↦ Adds τ [] NoSpawn τ' ∧ Γ.rely m₀ m ∧ ∃ row : OperationRow,
        row.childWorkflowId = child ∧ c = .active ⟨.readCommitted, none,
          ws ++ [⟨.operationOutputs p n, none, some row, .insertOperation p n row⟩]⟩)
      (fun _ _ m τ' ↦ Adds τ [] NoSpawn τ' ∧ Γ.rely m₀ m)
      (.active ⟨.readCommitted, none, ws⟩) m₀ τ := by
  rw [recordOperationResult]
  refine wpM_ask fun m₁ hm₁ now _ ↦ ⟨hmay _ _ (by rintro task ⟨⟩), ?_⟩
  have hτ : Adds τ [] NoSpawn (τ.note ⟨m₁, .now, now⟩) :=
    (Adds.refl τ).note (by rintro task ⟨⟩)
  refine wpM_execute_active (fun b m₂ e hb hm₂ _ ↦ ?_) ?_
  · dsimp only
    split
    all_goals
      exact wpM_throw fun m₃ hm₃ ↦
        ⟨hτ, Γ.rely_trans hm₁ (Γ.rely_trans hb (Γ.rely_trans hm₂ hm₃))⟩
  · intro b m₂ v a ch hb hm₂ hv hrun
    obtain ⟨hnone, -, rfl⟩ := View.insert_done hrun
    refine wpM_pure fun m₃ hm₃ ↦ ⟨hτ, Γ.rely_trans hm₁ (Γ.rely_trans hb (Γ.rely_trans hm₂ hm₃)),
      ⟨name, output, error, child, some now, some now, ser⟩, rfl, ?_⟩
    rw [← hnone]
    rfl

end

/-! ### `start_workflow` -/

section

variable {Γ : DbSpec} {m₀ : DbMoment} {τ₀ : DbTrace} {inner : DbosInner}
variable {name : String} {encodedInput : Option String} {opts : WorkflowOptions}
variable {parent : Option (WorkflowState × ℕ)} {fmt : Format} {isRecovery : Bool}

/-- The task a start spawns. -/
def startTask (name : String) (encodedInput : Option String) (opts : WorkflowOptions)
    (parent : Option (WorkflowState × ℕ)) (fmt : Format) (workflowId : String) : Task :=
  ⟨workflowId, name, encodedInput, fmt, resolveAuth opts parent⟩

/-- What a start has done when it has committed the transaction `e` of `u`. -/
structure Started (Γ : DbSpec) (m₀ : DbMoment) (τ₀ : DbTrace) (u : Upsert) (e : DbEffect)
    (m : DbMoment) (τ : DbTrace) : Prop where
  commits : u.Commits e
  before : Γ.rely m₀ e.moment
  after : Γ.rely (e.moment.after server e.writes) m
  adds : Adds τ₀ [e] NoSpawn τ
  asked : Asked τ u.input.ownerXid

theorem Started.env {u : Upsert} {e : DbEffect} {m m' : DbMoment} {τ : DbTrace}
    (h : Started Γ m₀ τ₀ u e m τ) (hm : Γ.rely m m') : Started Γ m₀ τ₀ u e m' τ :=
  { h with after := Γ.rely_trans h.after hm }

/-- Why a start fails without a trace in the database. -/
inductive StartFails (Γ : DbSpec) (inner : DbosInner) (name : String) (opts : WorkflowOptions)
    (parent : Option (WorkflowState × ℕ)) (m₀ : DbMoment) : Prop
  | fault (h : Γ.faulty)
  | unregistered (h : inner.registry name = none)
  | child (h : parent.isSome = true)
  | name (m : DbMoment) (id : String) (r : WorkflowRow)
      (hid : ∀ i, opts.workflowId = some i → id = i) (hm : Γ.rely m₀ m)
      (hr : m.db.workflow id = some r) (h : r.name ≠ name)

/-- A start takes the id that it is given, and that of the child if there is a parent. -/
structure Names (opts : WorkflowOptions) (parent : Option (WorkflowState × ℕ)) (id : String) :
    Prop where
  given : ∀ i, opts.workflowId = some i → id = i
  child : ∀ state n, parent = some (state, n) → id = childId opts state.workflowId n

theorem names_childId (opts : WorkflowOptions) (state : WorkflowState) (n : ℕ) :
    Names opts (some (state, n)) (childId opts state.workflowId n) where
  given i hi := by rw [childId, hi, Option.getD_some]
  child state' n' h := by cases h; rfl

theorem names_of_none (h : opts.workflowId = none) (id : String) : Names opts none id where
  given i hi := by rw [h] at hi; cases hi
  child _ _ hparent := by cases hparent

theorem wpM_startId (τ₀ : DbTrace) (hmay : ∀ τ a, NoSpawn a → Γ.may τ a) :
    wpM Γ (startId opts parent)
      (fun id c m τ ↦ c = .idle ∧ Adds τ₀ [] NoSpawn τ ∧ Γ.rely m₀ m ∧ Names opts parent id)
      (fun _ _ _ _ ↦ False) .idle m₀ τ₀ := by
  cases parent with
  | some parent =>
    rw [startId_child]
    exact wpM_pure fun m hm ↦ ⟨rfl, .refl τ₀, hm, names_childId opts parent.1 parent.2⟩
  | none =>
    unfold startId
    split
    · rename_i id hid
      exact wpM_pure fun m hm ↦ ⟨rfl, .refl τ₀, hm, fun i hi ↦ Option.some.inj (hid.symm.trans hi),
        fun _ _ hparent ↦ by cases hparent⟩
    · rename_i hparent
      cases hparent
    · rename_i hnone _
      intro m hm a ha
      exact ⟨hmay _ _ (by rintro task ⟨⟩), fun m' hm' ↦ ⟨rfl,
        (Adds.refl τ₀).note (by rintro task ⟨⟩), Γ.rely_trans hm hm', names_of_none hnone a⟩⟩

variable [SerdeJson]

/-- The insert is the one of this start. -/
structure StartsAs (inner : DbosInner) (name : String) (encodedInput : Option String)
    (opts : WorkflowOptions) (parent : Option (WorkflowState × ℕ)) (fmt : Format)
    (isRecovery : Bool) (u : Upsert) : Prop where
  input : ∃ entry ownerXid now, inner.registry name = some entry ∧
    u.maxRetries = entry.maxRetries ∧
    u.input = startInput inner entry name u.input.workflowId ownerXid encodedInput opts parent fmt
      isRecovery now
  names : Names opts parent u.input.workflowId

/-- What a start that fails has done: nothing, or it committed its transaction, and then the
workflow has exceeded its attempts or the reply was lost. -/
def StartError (Γ : DbSpec) (inner : DbosInner) (name : String) (encodedInput : Option String)
    (opts : WorkflowOptions) (parent : Option (WorkflowState × ℕ)) (fmt : Format)
    (isRecovery : Bool) (m₀ : DbMoment) (τ₀ : DbTrace) (m : DbMoment) (τ : DbTrace) : Prop :=
  (Adds τ₀ [] NoSpawn τ ∧ Γ.rely m₀ m ∧ StartFails Γ inner name opts parent m₀) ∨
    ∃ u e, StartsAs inner name encodedInput opts parent fmt isRecovery u ∧
      Started Γ m₀ τ₀ u e m τ ∧ (u.exceeds = true ∨ Γ.faulty)

/-- A start that fails with this error; if that refuses the start, then it has committed nothing. -/
def StartFailed (Γ : DbSpec) (inner : DbosInner) (name : String) (encodedInput : Option String)
    (opts : WorkflowOptions) (parent : Option (WorkflowState × ℕ)) (fmt : Format)
    (isRecovery : Bool) (m₀ : DbMoment) (τ₀ : DbTrace) (err : DbosError) (m : DbMoment)
    (τ : DbTrace) : Prop :=
  StartError Γ inner name encodedInput opts parent fmt isRecovery m₀ τ₀ m τ ∧
    (err.isRefusal = true → Adds τ₀ [] NoSpawn τ)

section

variable {m : DbMoment} {τ : DbTrace} {u : Upsert} (child : List DbWrite)
variable (hmay : ∀ τ a, NoSpawn a → Γ.may τ a)
variable (hguar : ∀ τ u e child, Adds τ₀ [] NoSpawn τ → Γ.rely m₀ e.moment →
  StartsAs inner name encodedInput opts parent fmt isRecovery u → Asked τ u.input.ownerXid →
    u.Commits e → e.writes = u.writes ++ child → u.Links parent child → Γ.guar τ e)
include hguar

/-- The commit of a start, whatever was recorded with the parent. -/
theorem wpM_startCommit {α : Type} {f : Unit → DbosM α} {Q : DbPost α} {ws : List DbWrite}
    (hws : ws = u.writes ++ child)
    (hstarts : StartsAs inner name encodedInput opts parent fmt isRecovery u)
    (hchild : u.Links parent child) (hτ : Adds τ₀ [] NoSpawn τ)
    (hasked : Asked τ u.input.ownerXid) (hm : Γ.rely m₀ m)
    (h : ∀ m e τ, Started Γ m₀ τ₀ u e m τ → wpM Γ (f ()) Q (fun err _ m τ ↦
      StartFailed Γ inner name encodedInput opts parent fmt isRecovery m₀ τ₀ err m τ) .idle m τ) :
    wpM Γ (commitTx >>= f) Q (fun err _ m τ ↦
      StartFailed Γ inner name encodedInput opts parent fmt isRecovery m₀ τ₀ err m τ)
      (.active ⟨.readCommitted, none, ws⟩) m τ := by
  subst hws
  have started : ∀ {m' m''}, Γ.rely m m' → server.Chain m'.db (u.writes ++ child) →
      Γ.rely (m'.after server (u.writes ++ child)) m'' →
      Started Γ m₀ τ₀ u ⟨m', none, u.writes ++ child⟩ m''
        (τ.commit m' (some (none, u.writes ++ child))) :=
    fun hm' hchain hm'' ↦ ⟨Upsert.commits_of_chain hchain hchild.mem, Γ.rely_trans hm hm', hm'',
      hτ.commit _ _ _, hasked.adds ((Adds.refl (P := NoSpawn) τ).commit _ _ _)⟩
  refine wpM_commit (fun m' hm' hchain ↦ ?_) (fun m' e hf hm' ↦ ?_) (fun m' hm' hchain ↦ ?_)
    fun m' m'' e hf hm' hchain hm'' ↦ ?_
  · exact hguar τ u _ child hτ (Γ.rely_trans hm hm') hstarts hasked
      (Upsert.commits_of_chain hchain hchild.mem) rfl hchild
  · exact ⟨Or.inl ⟨hτ, Γ.rely_trans hm hm', .fault hf⟩, fun _ ↦ hτ⟩
  · exact h _ _ _ (started hm' hchain (Γ.rely_refl _))
  · exact ⟨Or.inr ⟨u, _, hstarts, started hm' hchain hm'', Or.inr hf⟩, nofun⟩

include hmay

/-- The transaction of a start. -/
theorem wpM_startTransaction {entry : RegistryEntry} {id ownerXid : String} {now : ℤ}
    (hentry : inner.registry name = some entry)
    (hid : Names opts parent id) (hτ : Adds τ₀ [] NoSpawn τ)
    (hasked : Asked τ ownerXid) (hm : Γ.rely m₀ m) :
    wpM Γ (transaction do
        let res ← insertWorkflowStatus
          (startInput inner entry name id ownerXid encodedInput opts parent fmt isRecovery now)
          entry.maxRetries
        if res.dlqTriggered then
          commitTx
          throw (.deadLetterQueue id entry.maxRetries)
        match parent with
        | some (pstate, stepId) => recordChildWorkflow pstate.workflowId stepId name id
        | none => pure ()
        commitTx
        return shouldSkip res isRecovery ownerXid)
      (fun skip c m τ ↦ c = .idle ∧ ∃ u e,
        StartsAs inner name encodedInput opts parent fmt isRecovery u ∧ u.input.workflowId = id ∧
        u.exceeds = false ∧ skip = !u.runs isRecovery ∧ Started Γ m₀ τ₀ u e m τ)
      (fun err c m τ ↦ c = .idle ∧
        StartFailed Γ inner name encodedInput opts parent fmt isRecovery m₀ τ₀ err m τ)
      .idle m τ := by
  have failed : ∀ {err m τ}, Adds τ₀ [] NoSpawn τ → Γ.rely m₀ m →
      StartFails Γ inner name opts parent m₀ →
      StartFailed Γ inner name encodedInput opts parent fmt isRecovery m₀ τ₀ err m τ :=
    fun hτ hm hwhy ↦ ⟨Or.inl ⟨hτ, hm, hwhy⟩, fun _ ↦ hτ⟩
  refine wpM_transaction (fun m' e hf hm' ↦ ⟨rfl, failed hτ (Γ.rely_trans hm hm') (.fault hf)⟩) ?_
  refine wpM_mono (Q := fun skip _ m τ ↦ ∃ u e,
    StartsAs inner name encodedInput opts parent fmt isRecovery u ∧ u.input.workflowId = id ∧
      u.exceeds = false ∧ skip = !u.runs isRecovery ∧ Started Γ m₀ τ₀ u e m τ) (X := fun err _ m τ ↦
    StartFailed Γ inner name encodedInput opts parent fmt isRecovery m₀ τ₀ err m τ) ?_
    (fun _ _ _ _ h ↦ ⟨rfl, h⟩) (fun _ _ _ _ h ↦ ⟨rfl, h⟩)
  refine wpM_bind (wpM_mono (wpM_insertWorkflowStatus m) ?_ ?_)
  · rintro res c m₁ τ₁ ⟨rfl, hm₁, u, hinput, hmax, rfl, rfl⟩
    have hid' : u.input.workflowId = id := by rw [hinput]; rfl
    have hxid : u.input.ownerXid = ownerXid := by rw [hinput]; rfl
    have hstarts : StartsAs inner name encodedInput opts parent fmt isRecovery u := by
      refine ⟨⟨entry, ownerXid, now, hentry, hmax, ?_⟩, hid' ▸ hid⟩
      rw [hid', hinput]
    have hm₁ : Γ.rely m₀ m₁ := Γ.rely_trans hm hm₁
    dsimp only
    split
    · rename_i hdlq
      refine wpM_startCommit [] hguar (List.append_nil _).symm hstarts (.exceeded hdlq _) hτ
        (hxid ▸ hasked) hm₁ ?_
      exact fun m e τ hs ↦ wpM_throw fun m' hm' ↦
        ⟨Or.inr ⟨u, e, hstarts, hs.env hm', Or.inl hdlq⟩, nofun⟩
    rename_i hdlq
    have hexceeds : u.exceeds = false := Bool.eq_false_iff.2 hdlq
    have hskip : shouldSkip u.result isRecovery ownerXid = !u.runs isRecovery := by
      simp [Upsert.runs, hexceeds, hxid]
    cases parent with
    | none =>
      refine wpM_startCommit [] hguar (List.append_nil _).symm hstarts .alone hτ
        (hxid ▸ hasked) hm₁ ?_
      exact fun m e τ hs ↦ wpM_pure fun m' hm' ↦
        ⟨u, e, hstarts, hid', hexceeds, hskip, hs.env hm'⟩
    | some parent =>
      refine wpM_bind (wpM_mono (wpM_recordOperationResult m₁ hmay) ?_ ?_)
      · rintro - c m₂ τ₂ ⟨hτ₂, hm₂, row, hrow, rfl⟩
        refine wpM_startCommit _ hguar rfl hstarts (.child _ _ row hexceeds (hrow.trans ?_))
          (by simpa using hτ.trans hτ₂) ((hxid ▸ hasked).adds hτ₂) (Γ.rely_trans hm₁ hm₂) ?_
        · rw [hid']
        · exact fun m e τ hs ↦ wpM_pure fun m' hm' ↦
            ⟨u, e, hstarts, hid', hexceeds, hskip, hs.env hm'⟩
      · rintro e c m₂ τ₂ ⟨hτ₂, hm₂⟩
        exact failed (by simpa using hτ.trans hτ₂) (Γ.rely_trans hm₁ hm₂) (.child rfl)
  · rintro e c m₁ τ₁ ⟨rfl, hm₁, hwhy⟩
    refine failed hτ (Γ.rely_trans hm hm₁) ?_
    cases hwhy with
    | fault hf => exact .fault hf
    | dedup m' id' r hm' hfresh hr hsame => cases Stmt.isSome_of_sameDedup hsame
    | queue m' r hm' hr h => cases h
    | name m' r hm' hr hne => exact .name m' id r hid.given (Γ.rely_trans hm hm') hr hne

/-- A start commits the transaction of one `Upsert`, if any, and then spawns the task if the upsert
says that the body runs. -/
theorem wpM_startWorkflow_linked
    (hspawn : ∀ τ u e m, Adds τ₀ [e] NoSpawn τ → u.Commits e → u.runs isRecovery = true →
      StartsAs inner name encodedInput opts parent fmt isRecovery u →
      Γ.may τ ⟨m, .spawn (startTask name encodedInput opts parent fmt u.input.workflowId), ()⟩) :
    wpM Γ (startWorkflow inner name encodedInput opts parent fmt isRecovery)
      (fun h c m τ ↦ c = .idle ∧ ∃ u e τ₁,
        StartsAs inner name encodedInput opts parent fmt isRecovery u ∧
        h.id = u.input.workflowId ∧ u.exceeds = false ∧ Started Γ m₀ τ₀ u e m τ₁ ∧
        ((u.runs isRecovery = false ∧ h.kind = .polling ∧ τ = τ₁) ∨
          (u.runs isRecovery = true ∧ h.kind = .owned ∧ ∃ m₁,
            Γ.rely (e.moment.after server e.writes) m₁ ∧ τ = τ₁.note ⟨m₁,
              .spawn (startTask name encodedInput opts parent fmt u.input.workflowId), ()⟩)))
      (fun err c m τ ↦ c = .idle ∧
        StartFailed Γ inner name encodedInput opts parent fmt isRecovery m₀ τ₀ err m τ)
      .idle m₀ τ₀ := by
  rw [startWorkflow]
  split
  · rename_i hnone
    exact wpM_throw fun m hm ↦ ⟨rfl, Or.inl ⟨.refl τ₀, hm, .unregistered hnone⟩,
      fun hrefusal ↦ (by cases hrefusal)⟩
  rename_i entry hentry
  refine wpM_bind (wpM_mono (wpM_startId τ₀ hmay) ?_ fun _ _ _ _ h ↦ h.elim)
  rintro id c m τ ⟨rfl, hτ, hm, hid⟩
  refine wpM_ask fun m₁ hm₁ now _ ↦ ⟨hmay _ _ (by rintro task ⟨⟩), ?_⟩
  refine wpM_ask fun m₂ hm₂ ownerXid _ ↦ ⟨hmay _ _ (by rintro task ⟨⟩), ?_⟩
  have hτ₂ : Adds τ₀ [] NoSpawn ((τ.note ⟨m₁, .now, now⟩).note ⟨m₂, .newUuid, ownerXid⟩) :=
    (hτ.note (by rintro task ⟨⟩)).note (by rintro task ⟨⟩)
  refine wpM_bind (wpM_mono (wpM_startTransaction hmay hguar hentry hid hτ₂ (asked_note _ _ _)
    (Γ.rely_trans hm (Γ.rely_trans hm₁ hm₂))) ?_ fun _ _ _ _ h ↦ h)
  rintro skip c m₃ τ₃ ⟨rfl, u, e, hstarts, rfl, hexceeds, rfl, hs⟩
  by_cases hruns : u.runs isRecovery = true
  · rw [hruns, Bool.not_true, if_neg Bool.false_ne_true]
    refine wpM_ask fun m₄ hm₄ _ _ ↦ ⟨hspawn τ₃ u e m₄ hs.adds hs.commits hruns hstarts, ?_⟩
    exact wpM_pure fun m₅ hm₅ ↦ ⟨rfl, u, e, τ₃, hstarts, rfl, hexceeds,
      (hs.env hm₄).env hm₅, Or.inr ⟨hruns, rfl, m₄, (hs.env hm₄).after, rfl⟩⟩
  · rw [Bool.not_eq_true] at hruns
    rw [hruns, Bool.not_false, if_pos rfl]
    exact wpM_pure fun m₄ hm₄ ↦
      ⟨rfl, u, e, τ₃, hstarts, rfl, hexceeds, hs.env hm₄, Or.inl ⟨hruns, rfl, rfl⟩⟩

end

/-- The same, for those who do not look at what is recorded with the parent. -/
theorem wpM_startWorkflow (hmay : ∀ τ a, NoSpawn a → Γ.may τ a)
    (hguar : ∀ τ u e, Adds τ₀ [] NoSpawn τ → Γ.rely m₀ e.moment →
      StartsAs inner name encodedInput opts parent fmt isRecovery u → Asked τ u.input.ownerXid →
        u.Commits e → Γ.guar τ e)
    (hspawn : ∀ τ u e m, Adds τ₀ [e] NoSpawn τ → u.Commits e → u.runs isRecovery = true →
      StartsAs inner name encodedInput opts parent fmt isRecovery u →
      Γ.may τ ⟨m, .spawn (startTask name encodedInput opts parent fmt u.input.workflowId), ()⟩) :
    wpM Γ (startWorkflow inner name encodedInput opts parent fmt isRecovery)
      (fun h c m τ ↦ c = .idle ∧ ∃ u e τ₁,
        StartsAs inner name encodedInput opts parent fmt isRecovery u ∧
        h.id = u.input.workflowId ∧ u.exceeds = false ∧ Started Γ m₀ τ₀ u e m τ₁ ∧
        ((u.runs isRecovery = false ∧ h.kind = .polling ∧ τ = τ₁) ∨
          (u.runs isRecovery = true ∧ h.kind = .owned ∧ ∃ m₁,
            Γ.rely (e.moment.after server e.writes) m₁ ∧ τ = τ₁.note ⟨m₁,
              .spawn (startTask name encodedInput opts parent fmt u.input.workflowId), ()⟩)))
      (fun _ c m τ ↦ c = .idle ∧
        StartError Γ inner name encodedInput opts parent fmt isRecovery m₀ τ₀ m τ) .idle m₀ τ₀ :=
  wpM_mono (wpM_startWorkflow_linked hmay
    (fun τ u e _ hτ hm hs ha hc _ _ ↦ hguar τ u e hτ hm hs ha hc) hspawn) (fun _ _ _ _ h ↦
    h) fun _ _ _ _ h ↦ ⟨h.1, h.2.1⟩

end

end Dbos
