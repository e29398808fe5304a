import DbosTransact.JsonText
import DbosTransact.Queue.Concurrency

/-!
# Recorded outcomes

Of the statements that change rows of `workflow_status` only the outcome write looks neither at
`SUCCESS` nor at `ERROR`: its guard keeps a cancellation. Every other one leaves the columns of a
recorded outcome alone, because of its condition or because it does not set them
(`Stmt.Writes.sameOutcome`). So an outcome is final as long as no outcome write reaches a row that
has one already (`outcome_final`), and two bodies of one workflow that both come to an end are
enough for it not to be (`outcome_overwritten`).
-/

namespace Dbos

open Txn

/-- Whether a write records an outcome in the row of the workflow, which has one already. -/
def rewritesOutcome (id : String) : DbWrite → Bool
  | ⟨.workflowStatus w, some (old : WorkflowRow), _, .updateWorkflowOutcome ..⟩ =>
    w = id && old.status.isOutcome
  | _ => false

/-- Whether a write deletes the row of the workflow. -/
def deletesWorkflow (id : String) : DbWrite → Bool
  | ⟨.workflowStatus w, _, none, _⟩ => w = id
  | _ => false

/-- The columns of a recorded outcome agree. -/
structure WorkflowRow.SameOutcome (r r' : WorkflowRow) : Prop where
  status : r'.status = r.status
  output : r'.output = r.output
  error : r'.error = r.error
  completedAt : r'.completedAt = r.completedAt

theorem WorkflowRow.SameOutcome.refl (r : WorkflowRow) : r.SameOutcome r := ⟨rfl, rfl, rfl, rfl⟩

theorem WorkflowRow.SameOutcome.trans {r₁ r₂ r₃ : WorkflowRow} (h : r₁.SameOutcome r₂)
    (h' : r₂.SameOutcome r₃) : r₁.SameOutcome r₃ :=
  ⟨h'.status.trans h.status, h'.output.trans h.output, h'.error.trans h.error,
    h'.completedAt.trans h.completedAt⟩

/-- A row with an outcome keeps it under every write that neither deletes it nor records an outcome
again. -/
theorem Stmt.Writes.sameOutcome {s : Stmt} {id : String} {old : WorkflowRow}
    {new : Option WorkflowRow} (h : s.Writes (.workflowStatus id) (some old) new)
    (hout : old.status.isOutcome = true)
    (hrewrite : rewritesOutcome id ⟨.workflowStatus id, some old, new, s⟩ = false)
    (hdelete : deletesWorkflow id ⟨.workflowStatus id, some old, new, s⟩ = false) :
    ∃ r, new = some r ∧ old.SameOutcome r := by
  -- a condition that asks for another status is not satisfied
  have absurdStatus : ∀ {status : WorkflowStatusType}, status.isOutcome = false →
      old.status ≠ status := by
    rintro status hfalse rfl
    rw [hout] at hfalse
    cases hfalse
  cases h with
  | insertConflict input r => exact ⟨_, rfl, rfl, rfl, rfl, rfl⟩
  | deadLetter w r hpending => exact (absurdStatus rfl hpending).elim
  | outcome w status output error now r _ => simp [rewritesOutcome, hout] at hrewrite
  | promote now w r hdue =>
    simp only [WorkflowRow.due, Bool.and_eq_true, decide_eq_true_eq] at hdue
    exact (absurdStatus rfl hdue.1).elim
  | clear w r hassigned =>
    simp only [WorkflowRow.assigned, Bool.and_eq_true, decide_eq_true_eq] at hassigned
    exact (absurdStatus rfl hassigned.2).elim
  | lock q version p mode limit w r _ => exact ⟨_, rfl, .refl _⟩
  | claim w version executorId now limited r henq => exact (absurdStatus rfl henq).elim
  | cancel ids now w r _ hcan => simp [WorkflowRow.cancellable, hout] at hcan
  | resume ids q now w r _ hres => simp [WorkflowRow.resumable, hout] at hres
  | delete ids k old _ => simp [deletesWorkflow] at hdelete
  | markForked w r => exact ⟨_, rfl, rfl, rfl, rfl, rfl⟩
  | collect cutoff w old _ => simp [deletesWorkflow] at hdelete
  | collectCascade cutoff k old hk => exact (hk id rfl).elim

section

variable {valid : DbMoment → (q : Ask) → q.Ans → Bool} {db₀ : Db} {time : ℤ} {ρ : Type}
variable {S : System Db Key Row Stmt Stmt.Res SqlError Ask Ask.Ans ρ}

/-- **Recorded outcomes are final.** In every run of any programs on the system database: if a
workflow has an outcome in one committed state, and until a later one its row is not deleted and no
outcome write reaches it, then the later state has the same outcome. -/
theorem outcome_final
    {ok : System Db Key Row Stmt Stmt.Res SqlError Ask Ask.Ans ρ →
      Label Stmt Stmt.Res SqlError (Key → ℕ) Ask Ask.Ans ρ → Prop}
    (h : Run (System.step server valid) ok (System.init db₀ time) S) {id : String} {n m : ℕ}
    (hnm : n ≤ m) {r : WorkflowRow}
    (hr : (System.stateAt server db₀ S.history n).workflow id = some r)
    (hout : r.status.isOutcome = true)
    (hdelete : ∀ w ∈ System.written ((S.history.take m).drop n), deletesWorkflow id w = false)
    (hrewrite : ∀ w ∈ System.written ((S.history.take m).drop n), rewritesOutcome id w = false) :
    ∃ r', (System.stateAt server db₀ S.history m).workflow id = some r' ∧ r.SameOutcome r' := by
  have hC := System.consistent_of_run h
  refine hC.keeps hnm (k := .workflowStatus id)
    (P := fun row : Option WorkflowRow ↦ ∃ r', row = some r' ∧ r.SameOutcome r')
    ⟨r, hr, .refl r⟩ ?_
  rintro - new s hw hmem ⟨old, rfl, hsame⟩
  have hlegal : s.Writes (.workflowStatus id) (some old) new := hC.legal _ hmem
  have hold : old.status.isOutcome = true := by rw [hsame.status, hout]
  obtain ⟨r', rfl, hsame'⟩ := hlegal.sameOutcome hold (hrewrite _ hw) (hdelete _ hw)
  exact ⟨r', rfl, hsame.trans hsame'⟩

end

/-! ### Two bodies of one workflow -/

/-- Session `i` records the result of a body of `w`. -/
def completeOne (i : ℕ) (now : ℤ) (output : String) : List QueueLabel :=
  [.spawn i (otherCall (@recordOutcome JsonText.jsonText "w" .portable (.ok output))),
    .answer i (answersAt now ""), .issue i, .finish i fun _ ↦ 0]

/-- A workflow is dequeued, resumed and dequeued again, so that two bodies run; both record their
results. -/
def bothComplete : List QueueLabel :=
  dequeueOne 0 "a" ++ [.spawn 1 (otherCall (resumeWorkflows ["w"] "q")),
    .answer 1 (answersAt 6 ""), .issue 1, .finish 1 fun _ ↦ 0] ++ dequeueOne 2 "b" ++
    completeOne 3 7 "1" ++ completeOne 4 8 "2"

/-- The sessions of these runs are dequeue calls and ordinary programs of the runtime. -/
theorem bothComplete_sessions : ∀ p ∈ bothComplete.filterMap spawned,
    QueueSession (fun _ ↦ True) Stmt.Ordinary p := by
  have hsends : Sends Stmt.Ordinary (resumeWorkflows ["w"] "q") :=
    (sends_ask _).bind fun _ ↦ ordinary_query rfl
  have hresume : QueueSession (fun _ ↦ True) Stmt.Ordinary
      (otherCall (resumeWorkflows ["w"] "q")) := Or.inr ⟨_, _, hsends, rfl⟩
  have hcomplete : ∀ output, QueueSession (fun _ ↦ True) Stmt.Ordinary
      (otherCall (@recordOutcome JsonText.jsonText "w" .portable (.ok output))) := fun output ↦
    Or.inr ⟨_, _, (@plain_recordOutcome JsonText.jsonText "w" .portable (.ok output)).ordinary, rfl⟩
  exact List.forall_mem_cons.2 ⟨Or.inl ⟨_, trivial, rfl⟩, List.forall_mem_cons.2 ⟨hresume,
    List.forall_mem_cons.2 ⟨Or.inl ⟨_, trivial, rfl⟩, List.forall_mem_cons.2 ⟨hcomplete "1",
      List.forall_mem_singleton.2 (hcomplete "2")⟩⟩⟩⟩

/-- An outcome in a committed state is replaced by another one in a later state. -/
theorem outcome_overwritten : ∃ S, Run (System.step server fun _ _ _ ↦ true)
    (QueueStep (fun _ ↦ True) Stmt.Ordinary) (System.init oneWaiting 0) S ∧
      ∃ r r', (System.stateAt server oneWaiting S.history 4).workflow "w" = some r ∧
        S.moment.db.workflow "w" = some r' ∧ r.status = .success ∧ r.output = some "1" ∧
        r'.status = .success ∧ r'.output = some "2" ∧
        (System.written S.history).all (fun w ↦ !deletesWorkflow "w" w) = true := by
  have hrun : (exec (System.step server fun _ _ _ ↦ true) (System.init oneWaiting 0)
      bothComplete).any (fun S ↦
        ((System.stateAt server oneWaiting S.history 4).workflow "w").any
          (fun r ↦ r.status = .success && r.output = some "1") &&
        (S.moment.db.workflow "w").any (fun r ↦ r.status = .success && r.output = some "2") &&
        (System.written S.history).all fun w ↦ !deletesWorkflow "w" w) = true := by
    decide +kernel
  obtain ⟨S, hS, hrows⟩ := (Option.any_eq_true _ _).1 hrun
  rw [Bool.and_eq_true, Bool.and_eq_true] at hrows
  obtain ⟨⟨hfirst, hsecond⟩, hdelete⟩ := hrows
  obtain ⟨r, hr, hfirst⟩ := (Option.any_eq_true _ _).1 hfirst
  obtain ⟨r', hr', hsecond⟩ := (Option.any_eq_true _ _).1 hsecond
  rw [Bool.and_eq_true, decide_eq_true_eq, decide_eq_true_eq] at hfirst hsecond
  exact ⟨S, Run.of_exec hS (queueStep_of_spawned bothComplete_sessions), r, r', hr, hr', hfirst.1,
    hfirst.2, hsecond.1, hsecond.2, hdelete⟩

/-- One body records its result, and the workflow is cancelled and resumed afterwards. -/
def completeThenCancel : List QueueLabel :=
  dequeueOne 0 "a" ++ completeOne 1 6 "1" ++ [.spawn 2 (otherCall (cancelWorkflows ["w"])),
    .answer 2 (answersAt 7 ""), .issue 2, .finish 2 fun _ ↦ 0,
    .spawn 3 (otherCall (resumeWorkflows ["w"] "q")), .answer 3 (answersAt 8 ""), .issue 3,
    .finish 3 fun _ ↦ 0]

theorem outcome_final_completeThenCancel : ∃ S r r',
    exec (System.step server fun _ _ _ ↦ true) (System.init oneWaiting 0) completeThenCancel =
      some S ∧ (System.stateAt server oneWaiting S.history 2).workflow "w" = some r ∧
    (System.stateAt server oneWaiting S.history 4).workflow "w" = some r' ∧
    r.status = .success ∧ r.SameOutcome r' := by
  have hrun : (exec (System.step server fun _ _ _ ↦ true) (System.init oneWaiting 0)
      completeThenCancel).any (fun S ↦
        ((System.stateAt server oneWaiting S.history 2).workflow "w").any
          (fun r ↦ r.status = .success) &&
        (System.written ((S.history.take 4).drop 2)).all fun w ↦
          !deletesWorkflow "w" w && !rewritesOutcome "w" w) = true := by
    decide +kernel
  obtain ⟨S, hS, hrow⟩ := (Option.any_eq_true _ _).1 hrun
  rw [Bool.and_eq_true, List.all_eq_true] at hrow
  obtain ⟨r, hr, hsuccess⟩ := (Option.any_eq_true _ _).1 hrow.1
  have hstatus : r.status = .success := of_decide_eq_true hsuccess
  have hreach : Run (System.step server fun _ _ _ ↦ true) (fun _ _ ↦ True)
      (System.init oneWaiting 0) S := Run.of_exec hS fun _ _ _ ↦ trivial
  obtain ⟨r', hr', hsame⟩ := outcome_final hreach (by decide : 2 ≤ 4) hr (by rw [hstatus]; rfl)
    (fun w hw ↦ by simpa using (Bool.and_eq_true_iff.1 (hrow.2 w hw)).1)
    (fun w hw ↦ by simpa using (Bool.and_eq_true_iff.1 (hrow.2 w hw)).2)
  exact ⟨S, r, r', hS, hr, hr', hstatus, hsame⟩

end Dbos
