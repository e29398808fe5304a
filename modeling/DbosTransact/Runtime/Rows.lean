import DbosTransact.JsonText
import DbosTransact.Runtime.Cancel
import DbosTransact.Runtime.Launch

/-!
# The coupled columns of a workflow row

The columns of `workflow_status` that depend on each other: a row that waits has a queue and no
start time, a delayed one the end of its delay, one that has come to an end the time of it and no
deduplication id, and one that has not neither that time nor a result (`WorkflowRow.Coherent`).

Every statement of the runtime keeps this but one: the dead-letter update of
`insert_workflow_status` moves a row to a terminal status and leaves `completed_at` as it was. As no
other statement gives a dead-lettered row a time without changing its status, the rows that are not
coherent are exactly the dead-lettered ones (`rows_coherent`).
-/

namespace Dbos

open Txn

/-- The columns of a row go with its status. -/
structure WorkflowRow.Coherent (r : WorkflowRow) : Prop where
  waiting : r.status.isQueued = true → r.queueName.isSome = true ∧ r.startedAtEpochMs = none
  delayed : r.status = .delayed → r.delayUntilEpochMs.isSome = true
  terminal : r.status.isTerminal = true → r.completedAt.isSome = true ∧ r.deduplicationId = none
  live : r.status.isTerminal = false → r.completedAt = none ∧ r.output = none ∧ r.error = none

/-- Whether a write dead-letters the workflow. -/
def deadLetters (id : String) : DbWrite → Bool
  | ⟨.workflowStatus w, _, _, .deadLetter _⟩ => w = id
  | _ => false

/-- What every row satisfies, dead-lettered or not. -/
structure WorkflowRow.Recorded (r : WorkflowRow) : Prop where
  coherent : r.status ≠ .maxRecoveryAttemptsExceeded → r.Coherent
  deadLettered : r.status = .maxRecoveryAttemptsExceeded → r.completedAt = none
  result : r.status.isOutcome = false → r.output = none ∧ r.error = none

namespace WorkflowRow

variable {r new : WorkflowRow}

/-- The rows that are not coherent are the dead-lettered ones. -/
theorem Recorded.iff (h : r.Recorded) :
    r.Coherent ↔ r.status ≠ .maxRecoveryAttemptsExceeded := by
  refine ⟨fun hcoherent hdead ↦ ?_, h.coherent⟩
  have hsome := (hcoherent.terminal (by rw [hdead]; rfl)).1
  rw [h.deadLettered hdead] at hsome
  cases hsome

/-- A coherent row in a status other than the dead-letter one. -/
theorem Coherent.recorded (h : r.Coherent) (hdead : r.status ≠ .maxRecoveryAttemptsExceeded)
    (hresult : r.status.isOutcome = false → r.output = none ∧ r.error = none) : r.Recorded :=
  ⟨fun _ ↦ h, fun heq ↦ (hdead heq).elim, hresult⟩

theorem recorded_pending (hstatus : r.status = .pending) (hcompleted : r.completedAt = none)
    (hresult : r.output = none ∧ r.error = none) : r.Recorded := by
  have hcoherent : r.Coherent := by
    refine ⟨fun h ↦ ?_, fun h ↦ ?_, fun h ↦ ?_, fun _ ↦ ⟨hcompleted, hresult⟩⟩
    all_goals
      rw [hstatus] at h
      cases h
  exact hcoherent.recorded (by rw [hstatus]; decide) fun _ ↦ hresult

theorem recorded_enqueued (hstatus : r.status = .enqueued) (hqueue : r.queueName.isSome = true)
    (hstarted : r.startedAtEpochMs = none) (hcompleted : r.completedAt = none)
    (hresult : r.output = none ∧ r.error = none) : r.Recorded := by
  have hcoherent : r.Coherent := by
    refine ⟨fun _ ↦ ⟨hqueue, hstarted⟩, fun h ↦ ?_, fun h ↦ ?_, fun _ ↦ ⟨hcompleted, hresult⟩⟩
    all_goals
      rw [hstatus] at h
      cases h
  exact hcoherent.recorded (by rw [hstatus]; decide) fun _ ↦ hresult

theorem recorded_terminal (hstatus : r.status.isTerminal = true)
    (hdead : r.status ≠ .maxRecoveryAttemptsExceeded) (hcompleted : r.completedAt.isSome = true)
    (hdedup : r.deduplicationId = none)
    (hresult : r.status.isOutcome = false → r.output = none ∧ r.error = none) : r.Recorded := by
  have hwaits : r.status.isQueued = false := by
    cases hs : r.status <;> rw [hs] at hstatus <;> first | rfl | cases hstatus
  have hcoherent : r.Coherent := by
    refine ⟨fun h ↦ ?_, fun h ↦ ?_, fun _ ↦ ⟨hcompleted, hdedup⟩, fun h ↦ ?_⟩
    · rw [hwaits] at h
      cases h
    · rw [h] at hwaits
      cases hwaits
    · rw [hstatus] at h
      cases h
  exact hcoherent.recorded hdead hresult

end WorkflowRow

/-- The row an upsert inserts is coherent. -/
theorem InsertWorkflowInput.recorded_row {input : InsertWorkflowInput}
    (h : input.Enqueues ∨ input.status = .pending) : input.row.Recorded := by
  rcases h with henqueues | hpending
  · have hqueued : input.row.status.isQueued = true := henqueues.status
    have hlive : input.row.status.isTerminal = false ∧
        input.row.status ≠ .maxRecoveryAttemptsExceeded := by
      cases hstatus : input.row.status <;> rw [hstatus] at hqueued <;>
        first | exact ⟨rfl, by decide⟩ | cases hqueued
    refine WorkflowRow.Coherent.recorded ?_ hlive.2 fun _ ↦ ⟨rfl, rfl⟩
    refine ⟨fun _ ↦ ⟨henqueues.queueName, rfl⟩, henqueues.delay, fun hterminal ↦ ?_,
      fun _ ↦ ⟨rfl, rfl, rfl⟩⟩
    rw [hlive.1] at hterminal
    cases hterminal
  · have hstatus : input.row.status = .pending := hpending
    exact WorkflowRow.recorded_pending hstatus rfl ⟨rfl, rfl⟩

/-- What a statement of the runtime does to a row. -/
theorem Stmt.Writes.recorded {s : Stmt} {id : String} {old : Option WorkflowRow} {new : WorkflowRow}
    (h : s.Writes (.workflowStatus id) old (some new)) (hs : s.Runtime)
    (hinsert : ∀ input, s = .insertWorkflowStatus input →
      input.Enqueues ∨ input.status = .pending)
    (hold : ∀ r ∈ old, r.Recorded) : new.Recorded := by
  -- a row that has not come to an end
  have live : ∀ r ∈ old, r.status.isTerminal = false → r.Coherent := fun r hr hlive ↦
    (hold r hr).coherent fun hdead ↦ by rw [hdead] at hlive; cases hlive
  cases h with
  | insertNew input => exact InsertWorkflowInput.recorded_row (hinsert input rfl)
  | insertConflict input r =>
    obtain ⟨hcoherent, hdead, hresult⟩ := hold r rfl
    exact ⟨fun hne ↦ ⟨(hcoherent hne).waiting, (hcoherent hne).delayed, (hcoherent hne).terminal,
      (hcoherent hne).live⟩, hdead, hresult⟩
  | deadLetter w r hpending =>
    have hlive := (live r rfl (by rw [hpending]; rfl)).live (by rw [hpending]; rfl)
    exact ⟨fun hne ↦ (hne rfl).elim, fun _ ↦ hlive.1, fun _ ↦ hlive.2⟩
  | outcome w status output error now r _ =>
    have hout : status.isOutcome = true := hs
    have hterminal : status.isTerminal = true ∧ status ≠ .maxRecoveryAttemptsExceeded := by
      cases status <;> first | exact ⟨rfl, by decide⟩ | cases hout
    refine WorkflowRow.recorded_terminal hterminal.1 hterminal.2 rfl rfl fun hfalse ↦ ?_
    rw [show status.isOutcome = false from hfalse] at hout
    cases hout
  | promote now w r hdue =>
    have hdelayed : r.status = .delayed := by
      simp only [WorkflowRow.due, Bool.and_eq_true, decide_eq_true_eq] at hdue
      exact hdue.1
    have hcoherent := live r rfl (by rw [hdelayed]; rfl)
    obtain ⟨hqueue, hstarted⟩ := hcoherent.waiting (by rw [hdelayed]; rfl)
    obtain ⟨hcompleted, hresult⟩ := hcoherent.live (by rw [hdelayed]; rfl)
    exact WorkflowRow.recorded_enqueued rfl hqueue hstarted hcompleted hresult
  | clear w r hassigned =>
    simp only [WorkflowRow.assigned, Bool.and_eq_true, decide_eq_true_eq] at hassigned
    obtain ⟨hcompleted, hresult⟩ :=
      (live r rfl (by rw [hassigned.2]; rfl)).live (by rw [hassigned.2]; rfl)
    exact WorkflowRow.recorded_enqueued rfl hassigned.1 rfl hcompleted hresult
  | lock q version p mode limit w r _ => exact hold _ rfl
  | claim w version executorId now limited r henq =>
    obtain ⟨hcompleted, hresult⟩ := (live r rfl (by rw [henq]; rfl)).live (by rw [henq]; rfl)
    exact WorkflowRow.recorded_pending rfl hcompleted hresult
  | cancel ids now w r _ hcan =>
    have hout : r.status.isOutcome = false := by
      simp only [WorkflowRow.cancellable, Bool.not_eq_true', Bool.or_eq_false_iff] at hcan
      exact hcan.1
    exact WorkflowRow.recorded_terminal rfl (by simp [WorkflowRow.cancel]) rfl rfl
      fun _ ↦ (hold r rfl).result hout
  | resume ids q now w r _ hres =>
    have hout : r.status.isOutcome = false := by simpa [WorkflowRow.resumable] using hres
    have hresult := (hold r rfl).result hout
    exact WorkflowRow.recorded_enqueued rfl rfl rfl rfl hresult
  | fork w fork =>
    exact WorkflowRow.recorded_enqueued rfl rfl rfl rfl ⟨rfl, rfl⟩
  | markForked w r =>
    obtain ⟨hcoherent, hdead, hresult⟩ := hold r rfl
    exact ⟨fun hne ↦ ⟨(hcoherent hne).waiting, (hcoherent hne).delayed, (hcoherent hne).terminal,
      (hcoherent hne).live⟩, hdead, hresult⟩

/-- Only the dead-letter update dead-letters a row. -/
theorem Stmt.Writes.not_deadLettered {s : Stmt} {id : String} {old : Option WorkflowRow}
    {new : WorkflowRow} (h : s.Writes (.workflowStatus id) old (some new)) (hs : s.Runtime)
    (hnot : deadLetters id ⟨.workflowStatus id, old, some new, s⟩ = false)
    (hold : ∀ r ∈ old, r.status ≠ .maxRecoveryAttemptsExceeded) :
    new.status ≠ .maxRecoveryAttemptsExceeded := by
  cases h with
  | insertNew input =>
    intro hdead
    have hstatus : input.status = .maxRecoveryAttemptsExceeded := hdead
    simp [Stmt.Runtime, Stmt.isRuntime, hstatus, WorkflowStatusType.isQueued] at hs
  | insertConflict input r => exact hold r rfl
  | deadLetter w r hpending => simp [deadLetters] at hnot
  | outcome w status output error now r _ =>
    have hout : status.isOutcome = true := hs
    intro hdead
    rw [show status = .maxRecoveryAttemptsExceeded from hdead] at hout
    cases hout
  | lock q version p mode limit w r _ => exact hold _ rfl
  | markForked w r => exact hold r rfl
  | _ =>
    intro hdead
    cases hdead

section

variable [SerdeJson] {V : Type} {valid : DbMoment → (q : Ask) → q.Ans → Bool}
variable {executor : ℕ → DbosInner} {db₀ : Db} {time : ℤ} {S : RuntimeSystem V}

/-- What an upsert of a run inserts. -/
theorem Launched.inserts (h : Launched valid executor db₀ S) {w : DbWrite}
    (hw : w ∈ System.written S.history) {input : InsertWorkflowInput}
    (hstmt : w.stmt = .insertWorkflowStatus input) :
    input.Enqueues ∨ input.status = .pending := by
  obtain ⟨c, hc, hwc⟩ := List.mem_flatMap.1 hw
  obtain ⟨n, hn⟩ := List.mem_iff_getElem?.1 hc
  obtain ⟨u, hu, heq⟩ := h.upserts hn hwc (by rw [hstmt]; rfl)
  obtain rfl : input = u.input := by
    rw [heq] at hstmt
    exact (Stmt.insertWorkflowStatus.inj hstmt).symm
  refine hu.kind.imp id ?_
  rintro ⟨name, encodedInput, opts, parent, fmt, isRecovery, hstarts⟩
  obtain ⟨entry, ownerXid, now, -, -, hinput⟩ := hstarts.input
  rw [hinput]
  rfl

theorem recorded_of_run
    (h : Run (System.step server valid) (RuntimeStep executor) (System.init db₀ time) S)
    (h₀ : ∀ id r, db₀.workflow id = some r → r.Recorded) (n : ℕ) {id : String} {r : WorkflowRow}
    (hr : (System.stateAt server db₀ S.history n).workflow id = some r) : r.Recorded := by
  obtain ⟨hC, hwrites⟩ := writes_of_run h
  have hlaunched := launched_of_run h
  refine hC.keeps (Nat.zero_le n) (k := .workflowStatus id)
    (P := fun row : Option WorkflowRow ↦ ∀ r ∈ row, r.Recorded) (fun r hr ↦ h₀ id r hr) ?_ r hr
  rintro old new s - hmem hold r rfl
  obtain ⟨hlegal, hruntime⟩ := hwrites _ hmem
  exact Stmt.Writes.recorded hlegal hruntime (fun input hs ↦ hlaunched.inserts hmem hs) hold

/-- **The coupled columns.** In every state of a run that starts with coherent rows none of which is
dead-lettered, a row is coherent if and only if it is not dead-lettered; so every row is, as long as
no transaction has dead-lettered it. -/
theorem rows_coherent
    (h : Run (System.step server valid) (RuntimeStep executor) (System.init db₀ time) S)
    (h₀ : ∀ id r, db₀.workflow id = some r → r.Coherent ∧
      r.status ≠ .maxRecoveryAttemptsExceeded ∧
      (r.status.isOutcome = false → r.output = none ∧ r.error = none))
    (n : ℕ) {id : String} {r : WorkflowRow}
    (hr : (System.stateAt server db₀ S.history n).workflow id = some r) :
    (r.Coherent ↔ r.status ≠ .maxRecoveryAttemptsExceeded) ∧
      ((∀ w ∈ System.written (S.history.take n), deadLetters id w = false) → r.Coherent) := by
  have hrecorded := recorded_of_run h (fun id r hr ↦ by
    obtain ⟨hcoherent, hdead, hresult⟩ := h₀ id r hr
    exact hcoherent.recorded hdead hresult) n hr
  refine ⟨hrecorded.iff, fun hnever ↦ hrecorded.coherent ?_⟩
  obtain ⟨hC, hwrites⟩ := writes_of_run h
  refine hC.keeps (Nat.zero_le n) (k := .workflowStatus id)
    (P := fun row : Option WorkflowRow ↦ ∀ r ∈ row, r.status ≠ .maxRecoveryAttemptsExceeded)
    (fun r hr ↦ (h₀ id r hr).2.1) ?_ r hr
  rintro old new s hmem hwritten hold r rfl
  obtain ⟨hlegal, hruntime⟩ := hwrites _ hwritten
  rw [List.drop_zero] at hmem
  exact Stmt.Writes.not_deadLettered hlegal hruntime (hnever _ hmem) hold

end

/-! ### A workflow that is recovered too often -/

section

local instance rowsJson : SerdeJson := JsonText.jsonText

/-- An executor whose workflows are recovered once. -/
def oneRetry : DbosInner := ⟨"a", "v", none, fun _ ↦ some ⟨1, none, none⟩⟩

/-- Session `i` recovers the only workflow that is `PENDING`. -/
def recoverOne (i : ℕ) (now : ℤ) (spawns : Bool) : List (RuntimeLabel ℤ) :=
  [.spawn i (Operation.program oneRetry (.call (.recover ["a"])))] ++ sendOne i ++
    answerOne i now ++ answerOne i now ++ commandOne i ++ sendOne i ++
    if spawns then commandOne i ++ commandOne i ++ answerOne i now
    else sendOne i ++ commandOne i ++ commandOne i

/-- A workflow is started, recovered once, and dead-lettered by the second recovery. -/
def deadLettered : List (RuntimeLabel ℤ) :=
  [.spawn 0 (Operation.program oneRetry
    (.call (.runWorkflow "f" none { workflowId := some "w" } none)))] ++ answerOne 0 1 ++
    answerOne 0 1 ++ commandOne 0 ++ sendOne 0 ++ commandOne 0 ++ commandOne 0 ++ answerOne 0 1 ++
    recoverOne 1 2 true ++ recoverOne 2 3 false

theorem deadLettered_operations : ∀ e ∈ deadLettered.filterMap spawnedOperation,
    ∃ op : Operation ℤ, e.2 = op.program oneRetry :=
  List.forall_mem_cons.2 ⟨⟨_, rfl⟩, List.forall_mem_cons.2 ⟨⟨_, rfl⟩,
    List.forall_mem_singleton.2 ⟨_, rfl⟩⟩⟩

/-- The dead-lettered row has come to an end at no time. -/
theorem deadLettered_not_coherent : ∃ (S : RuntimeSystem ℤ) (r : WorkflowRow),
    Run (System.step server fun _ _ _ ↦ true) (RuntimeStep fun _ ↦ oneRetry) (System.init {} 0) S ∧
      S.moment.db.workflow "w" = some r ∧ r.status.isTerminal = true ∧ r.completedAt = none ∧
      ¬r.Coherent := by
  have hrun : (exec (System.step server fun _ _ _ ↦ true) (System.init {} 0) deadLettered).any
      (fun S ↦ (S.moment.db.workflow "w").any fun r ↦ r.status.isTerminal && r.completedAt.isNone) =
        true := by
    decide +kernel
  obtain ⟨S, hS, hrow⟩ := (Option.any_eq_true _ _).1 hrun
  obtain ⟨r, hr, hcols⟩ := (Option.any_eq_true _ _).1 hrow
  obtain ⟨hterminal, hnone⟩ := Bool.and_eq_true_iff.1 hcols
  have hcompleted : r.completedAt = none := Option.isNone_iff_eq_none.1 hnone
  refine ⟨S, r, Run.of_exec hS (runtimeStep_of_spawned deadLettered_operations), hr, hterminal,
    hcompleted, fun hcoherent ↦ ?_⟩
  have hsome := (hcoherent.terminal hterminal).1
  rw [hcompleted] at hsome
  cases hsome

theorem rows_coherent_deadLettered : ∃ (S : RuntimeSystem ℤ) (r : WorkflowRow),
    exec (System.step server fun _ _ _ ↦ true) (System.init {} 0) deadLettered = some S ∧
      (System.stateAt server {} S.history 3).workflow "w" = some r ∧ r.Coherent := by
  have hrun : (exec (System.step server fun _ _ _ ↦ true) (System.init {} 0) deadLettered).any
      (fun S ↦ ((System.stateAt server {} S.history 3).workflow "w").isSome &&
        (System.written (S.history.take 3)).all fun w ↦ !deadLetters "w" w) = true := by
    decide +kernel
  obtain ⟨S, hS, hcheck⟩ := (Option.any_eq_true _ _).1 hrun
  obtain ⟨hsome, hnever⟩ := Bool.and_eq_true_iff.1 hcheck
  obtain ⟨r, hr⟩ := Option.isSome_iff_exists.1 hsome
  have hreach : Run (System.step server fun _ _ _ ↦ true) (RuntimeStep fun _ ↦ oneRetry)
      (System.init {} 0) S := Run.of_exec hS (runtimeStep_of_spawned deadLettered_operations)
  have hcoherent := (rows_coherent hreach (fun id r hr ↦ by cases hr) 3 hr).2 fun w hw ↦ by
    simpa using List.all_eq_true.1 hnever w hw
  exact ⟨S, r, hS, hr, hcoherent⟩

end

end Dbos
