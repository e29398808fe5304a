import DbosTransact.JsonText
import DbosTransact.Runtime.Executors
import DbosTransact.Runtime.Outcome

/-!
# Cancelled workflows

A cancellation takes the row of a workflow off its queue and out of every count, and leaves it
without a result. `CANCELLED` is then absorbing: each statement that changes rows of
`workflow_status` either asks for another status, or is the outcome write, whose guard excludes a
cancelled row, or is the idempotent upsert, which sets none of the columns concerned, or is the
resumption, or a deletion. The invariant behind it is `WorkflowRow.Tidy`, on every row in every
committed state: only a recorded outcome has a result.
-/

namespace Dbos

open Txn

/-- A row without an outcome has no result, and a cancelled one is on no queue. -/
structure WorkflowRow.Tidy (r : WorkflowRow) : Prop where
  result : r.status.isOutcome = false → r.output = none ∧ r.error = none
  queue : r.status = .cancelled →
    r.queueName = none ∧ r.deduplicationId = none ∧ r.startedAtEpochMs = none

/-- A cancelled row, with everything a cancellation clears. -/
structure WorkflowRow.Cancelled (r : WorkflowRow) : Prop where
  status : r.status = .cancelled
  queueName : r.queueName = none
  deduplicationId : r.deduplicationId = none
  startedAtEpochMs : r.startedAtEpochMs = none
  output : r.output = none
  error : r.error = none

theorem WorkflowRow.Tidy.cancelled {r : WorkflowRow} (h : r.Tidy) (hr : r.status = .cancelled) :
    r.Cancelled := by
  obtain ⟨hqueue, hdedup, hstarted⟩ := h.queue hr
  obtain ⟨houtput, herror⟩ := h.result (by rw [hr]; rfl)
  exact ⟨hr, hqueue, hdedup, hstarted, houtput, herror⟩

/-- Whether a write resumes the workflow. -/
def resumesWorkflow (id : String) : DbWrite → Bool
  | ⟨.workflowStatus w, _, _, .resumeWorkflows ..⟩ => w = id
  | _ => false

/-- A statement of the runtime leaves tidy rows tidy. -/
theorem Stmt.Writes.tidy {s : Stmt} {id : String} {old : Option WorkflowRow} {new : WorkflowRow}
    (h : s.Writes (.workflowStatus id) old (some new)) (hs : s.Runtime)
    (hold : ∀ r ∈ old, r.Tidy) : new.Tidy := by
  -- a row that had no outcome and keeps its result, in a status other than `CANCELLED`
  have moved : ∀ {r : WorkflowRow}, r.Tidy → r.status.isOutcome = false →
      new.output = r.output → new.error = r.error → new.status ≠ .cancelled → new.Tidy :=
    fun hr hout houtput herror hstatus ↦
      ⟨fun _ ↦ by rw [houtput, herror]; exact hr.result hout, fun h ↦ (hstatus h).elim⟩
  cases h with
  | insertNew input =>
    refine ⟨fun _ ↦ ⟨rfl, rfl⟩, fun hcancelled ↦ ?_⟩
    have hstatus : input.status = .cancelled := hcancelled
    simp [Stmt.Runtime, Stmt.isRuntime, hstatus, WorkflowStatusType.isQueued] at hs
  | insertConflict input r =>
    have hr := hold r rfl
    exact ⟨hr.result, hr.queue⟩
  | deadLetter w r hpending =>
    exact moved (hold r rfl) (by rw [hpending]; rfl) rfl rfl (by simp [WorkflowRow.deadLetter])
  | outcome w status output error now r _ =>
    have hout : status.isOutcome = true := hs
    refine ⟨fun hfalse ↦ ?_, fun hcancelled ↦ ?_⟩
    · rw [show status.isOutcome = false from hfalse] at hout
      cases hout
    · rw [show status = .cancelled from hcancelled] at hout
      cases hout
  | promote now w r hdue =>
    have hdelayed : r.status = .delayed := by
      simp only [WorkflowRow.due, Bool.and_eq_true, decide_eq_true_eq] at hdue
      exact hdue.1
    exact moved (hold r rfl) (by rw [hdelayed]; rfl) rfl rfl (by simp [WorkflowRow.promote])
  | clear w r hassigned =>
    have hpending : r.status = .pending := by
      simp only [WorkflowRow.assigned, Bool.and_eq_true, decide_eq_true_eq] at hassigned
      exact hassigned.2
    exact moved (hold r rfl) (by rw [hpending]; rfl) rfl rfl (by simp [WorkflowRow.clearAssignment])
  | lock q version p mode limit w r _ => exact hold _ rfl
  | claim w version executorId now limited r henq =>
    exact moved (hold r rfl) (by rw [henq]; rfl) rfl rfl (by simp [WorkflowRow.claim])
  | cancel ids now w r _ hcan =>
    have hout : r.status.isOutcome = false := by
      simp only [WorkflowRow.cancellable, Bool.not_eq_true', Bool.or_eq_false_iff] at hcan
      exact hcan.1
    exact ⟨fun _ ↦ (hold r rfl).result hout, fun _ ↦ ⟨rfl, rfl, rfl⟩⟩
  | resume ids q now w r _ hres =>
    have hout : r.status.isOutcome = false := by
      simpa [WorkflowRow.resumable] using hres
    exact moved (hold r rfl) hout rfl rfl (by simp [WorkflowRow.resume])
  | fork w fork => exact ⟨fun _ ↦ ⟨rfl, rfl⟩, fun h ↦ by cases h⟩
  | markForked w r =>
    have hr := hold r rfl
    exact ⟨hr.result, hr.queue⟩

/-- A cancelled row stays cancelled under every statement of the runtime but resumption and
deletion. -/
theorem Stmt.Writes.cancelled {s : Stmt} {id : String} {old : WorkflowRow}
    {new : Option WorkflowRow} (h : s.Writes (.workflowStatus id) (some old) new) (hs : s.Runtime)
    (hold : old.status = .cancelled)
    (hresume : resumesWorkflow id ⟨.workflowStatus id, some old, new, s⟩ = false)
    (hdelete : deletesWorkflow id ⟨.workflowStatus id, some old, new, s⟩ = false) :
    ∃ r, new = some r ∧ r.status = .cancelled := by
  -- a condition that asks for another status is not satisfied
  have absurdStatus : ∀ {status : WorkflowStatusType}, status ≠ .cancelled → old.status ≠ status :=
    fun hne heq ↦ hne (heq.symm.trans hold)
  cases h with
  | insertConflict input r => exact ⟨_, rfl, hold⟩
  | deadLetter w r hpending => exact (absurdStatus (by decide) hpending).elim
  | outcome w status output error now r haccepts =>
    have hout : status.isOutcome = true := hs
    simp [WorkflowRow.acceptsOutcome, hold, hout] at haccepts
  | promote now w r hdue =>
    simp only [WorkflowRow.due, Bool.and_eq_true, decide_eq_true_eq] at hdue
    exact (absurdStatus (by decide) hdue.1).elim
  | clear w r hassigned =>
    simp only [WorkflowRow.assigned, Bool.and_eq_true, decide_eq_true_eq] at hassigned
    exact (absurdStatus (by decide) hassigned.2).elim
  | lock q version p mode limit w r _ => exact ⟨_, rfl, hold⟩
  | claim w version executorId now limited r henq => exact (absurdStatus (by decide) henq).elim
  | cancel ids now w r _ hcan => exact ⟨_, rfl, rfl⟩
  | resume ids q now w r _ _ => simp [resumesWorkflow] at hresume
  | delete ids k old _ => simp [deletesWorkflow] at hdelete
  | markForked w r => exact ⟨_, rfl, hold⟩
  | collect cutoff w old _ => simp [deletesWorkflow] at hdelete
  | collectCascade cutoff k old hk => exact (hk id rfl).elim

section

variable [SerdeJson] {V : Type} {valid : DbMoment → (q : Ask) → q.Ans → Bool}
variable {executor : ℕ → DbosInner} {db₀ : Db} {time : ℤ} {S : RuntimeSystem V}

/-- In every committed state every row is tidy. -/
theorem tidy_of_run
    (h : Run (System.step server valid) (RuntimeStep executor) (System.init db₀ time) S)
    (h₀ : ∀ id r, db₀.workflow id = some r → r.Tidy) (n : ℕ) {id : String} {r : WorkflowRow}
    (hr : (System.stateAt server db₀ S.history n).workflow id = some r) : r.Tidy := by
  obtain ⟨hC, hwrites⟩ := writes_of_run h
  refine hC.keeps (Nat.zero_le n) (k := .workflowStatus id)
    (P := fun row : Option WorkflowRow ↦ ∀ r ∈ row, r.Tidy) (fun r hr ↦ h₀ id r hr) ?_ r hr
  rintro old new s - hmem hold r rfl
  obtain ⟨hlegal, hruntime⟩ := hwrites _ hmem
  exact Stmt.Writes.tidy hlegal hruntime hold

/-- **`CANCELLED` is absorbing.** In every run of operations, started with tidy rows: if a workflow
is `CANCELLED` in one committed state, and until a later one it is neither resumed nor deleted, then
it is `CANCELLED` in the later state, on no queue, with no deduplication id, no start time and no
result. -/
theorem cancelled_absorbing
    (h : Run (System.step server valid) (RuntimeStep executor) (System.init db₀ time) S)
    (h₀ : ∀ id r, db₀.workflow id = some r → r.Tidy) {id : String} {n m : ℕ} (hnm : n ≤ m)
    {r : WorkflowRow} (hr : (System.stateAt server db₀ S.history n).workflow id = some r)
    (hcancelled : r.status = .cancelled)
    (hresume : ∀ w ∈ System.written ((S.history.take m).drop n), resumesWorkflow id w = false)
    (hdelete : ∀ w ∈ System.written ((S.history.take m).drop n), deletesWorkflow id w = false) :
    ∃ r', (System.stateAt server db₀ S.history m).workflow id = some r' ∧ r'.Cancelled := by
  obtain ⟨hC, hwrites⟩ := writes_of_run h
  have hkept := hC.keeps hnm (k := .workflowStatus id)
    (P := fun row : Option WorkflowRow ↦ ∃ r, row = some r ∧ r.status = .cancelled)
    ⟨r, hr, hcancelled⟩ ?_
  · obtain ⟨r', hr', hstatus⟩ := hkept
    exact ⟨r', hr', (tidy_of_run h h₀ m hr').cancelled hstatus⟩
  · rintro - new s hw hmem ⟨old, rfl, hold⟩
    obtain ⟨hlegal, hruntime⟩ := hwrites _ hmem
    exact Stmt.Writes.cancelled hlegal hruntime hold (hresume _ hw) (hdelete _ hw)

end

/-! ### A cancelled workflow that others still write to -/

section

local instance cancelJson : SerdeJson := JsonText.jsonText

/-- Session `i` carries out a call whose only statement is outside a transaction. -/
def callOne (i : ℕ) (now : ℤ) (call : Call) : List (RuntimeLabel ℤ) :=
  [.spawn i (Operation.program (anyName "a") (.call call)), .answer i (answersAt now ""), .issue i,
    .finish i fun _ ↦ 0]

/-- A workflow is cancelled, its body comes to an end all the same, and it is cancelled again. -/
def lateOutcome : List (RuntimeLabel ℤ) :=
  callOne 0 1 (.cancel ["w"]) ++ callOne 1 2 (.complete "w" .portable (.ok "1")) ++
    callOne 2 3 (.cancel ["w"])

theorem cancelled_absorbing_lateOutcome : ∃ S r r',
    exec (System.step server fun _ _ _ ↦ true) (System.init oneWaiting 0) lateOutcome = some S ∧
    (System.stateAt server oneWaiting S.history 1).workflow "w" = some r ∧ r.status = .cancelled ∧
    (System.stateAt server oneWaiting S.history 3).workflow "w" = some r' ∧ r'.Cancelled := by
  have hrun : (exec (System.step server fun _ _ _ ↦ true) (System.init oneWaiting 0)
      lateOutcome).any (fun S ↦
        ((System.stateAt server oneWaiting S.history 1).workflow "w").any
          (fun r ↦ r.status = .cancelled) &&
        (System.written ((S.history.take 3).drop 1)).all fun w ↦
          !resumesWorkflow "w" w && !deletesWorkflow "w" w) = true := by
    decide +kernel
  have htidy : ∀ id r, oneWaiting.workflow id = some r → r.Tidy := by
    intro id r hr
    obtain rfl : id = "w" := by
      by_contra hne
      rw [show oneWaiting.workflow id = none from Table.lookup_set_of_ne _ _ hne] at hr
      cases hr
    cases hr
    exact ⟨fun _ ↦ ⟨rfl, rfl⟩, fun h ↦ by cases h⟩
  have hops : ∀ e ∈ lateOutcome.filterMap spawnedOperation,
      ∃ op : Operation ℤ, e.2 = op.program (anyName "a") :=
    List.forall_mem_cons.2 ⟨⟨_, rfl⟩, List.forall_mem_cons.2 ⟨⟨_, rfl⟩,
      List.forall_mem_singleton.2 ⟨_, rfl⟩⟩⟩
  obtain ⟨S, hS, hrow⟩ := (Option.any_eq_true _ _).1 hrun
  rw [Bool.and_eq_true, List.all_eq_true] at hrow
  obtain ⟨r, hr, hcancelled⟩ := (Option.any_eq_true _ _).1 hrow.1
  have hstatus : r.status = .cancelled := of_decide_eq_true hcancelled
  have hreach : Run (System.step server fun _ _ _ ↦ true) (RuntimeStep fun _ ↦ anyName "a")
      (System.init oneWaiting 0) S := Run.of_exec hS (runtimeStep_of_spawned hops)
  obtain ⟨r', hr', hkept⟩ := cancelled_absorbing hreach htidy (by decide : 1 ≤ 3) hr hstatus
    (fun w hw ↦ by simpa using (Bool.and_eq_true_iff.1 (hrow.2 w hw)).1)
    (fun w hw ↦ by simpa using (Bool.and_eq_true_iff.1 (hrow.2 w hw)).2)
  exact ⟨S, r, r', hS, hr, hstatus, hr', hkept⟩

end

end Dbos
