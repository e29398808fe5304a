import DbosTransact.Runtime.Workflow

/-!
# The calls of an executor

`Call` lists what the runtime does for its users and on its own account, each with the program of
`Runtime.Workflow` or `Db` that does it; a `CallValue` is what comes of it. A user can only start a
workflow in the portable format and as a first run: recoveries are started by `recover`.

Apart from the claims of a dequeue, the record of a child, forks and deletions every statement sent
is `Plain`: it writes rows of `workflow_status` only, an outcome it writes is an outcome, and a row
it inserts is queued, or `PENDING` and on no queue. The queues only ask for less, which is
`Ordinary`.
-/

namespace Dbos

open Txn

/-- The statements the runtime sends outside `dequeue_workflows`, deletion apart: an outcome it
writes is an outcome, and a row it inserts is queued, or `PENDING` and on no queue. -/
def Stmt.isOrdinary : Stmt → Bool
  | deleteWorkflows _ => false
  | collectWorkflows _ => false
  | claimWorkflow .. => false
  | updateWorkflowOutcome _ status _ _ _ => status.isOutcome
  | insertWorkflowStatus input =>
    input.status.isQueued || (input.status = .pending && input.queueName.isNone)
  | _ => true

def Stmt.Ordinary (s : Stmt) : Prop := s.isOrdinary = true

/-- The ordinary statements that change rows of `workflow_status` only, and of these no row of a
fork. -/
def Stmt.isPlain : Stmt → Bool
  | insertOperation .. => false
  | insertNotification .. => false
  | consumeOldestNotification .. => false
  | upsertWorkflowEvent .. => false
  | insertWorkflowEventHistory .. => false
  | insertStream .. => false
  | insertForked .. => false
  | markForkedFrom _ => false
  | copyOperations .. => false
  | copyEventsHistory .. => false
  | copyEvents .. => false
  | copyStreams .. => false
  | s => s.isOrdinary

def Stmt.Plain (s : Stmt) : Prop := s.isPlain = true

theorem Stmt.Plain.ordinary {s : Stmt} (h : s.Plain) : s.Ordinary := by
  cases s <;> first | exact h | cases h

section

variable {A : Ask → Prop}

theorem ordinary_query {s : Stmt} (h : s.isOrdinary = true) : Sends Stmt.Ordinary (query s) A :=
  sends_query h

theorem plain_query {s : Stmt} (h : s.isPlain = true) : Sends Stmt.Plain (query s) A :=
  sends_query h

theorem Sends.ordinary {α : Type} {m : DbosM α} (h : Sends Stmt.Plain m A) :
    Sends Stmt.Ordinary m A :=
  h.mono (fun _ ↦ Stmt.Plain.ordinary) fun _ ↦ id

theorem sends_insertWorkflowStatus {P : Stmt → Prop} {input : InsertWorkflowInput} {maxRetries : ℤ}
    (hinsert : P (.insertWorkflowStatus input)) (hdead : P (.deadLetter input.workflowId)) :
    Sends P (insertWorkflowStatus input maxRetries) A := by
  refine (sends_query hinsert).bind fun row ↦ ?_
  dsimp only
  split
  · exact sends_throw _
  split
  · exact sends_throw _
  split
  · exact (sends_query hdead).bind fun _ ↦ sends_pure _
  · exact sends_pure _

theorem sends_recordOperationResult {P : Stmt → Prop} {w : String} {n : ℕ}
    {name : String} (hinsert : ∀ row, row.functionName = name → P (.insertOperation w n row))
    (output error child ser : Option String) (hA : A .now) :
    Sends P (recordOperationResult w n name output error child ser) A := by
  refine (sends_ask_of hA).bind fun now ↦ Sends.bind (sends_execute (hinsert _ rfl)) ?_
  rintro (e | _)
  · dsimp only
    split <;> exact sends_throw _
  · exact sends_pure _

end

section

variable {A : Ask → Prop}

theorem sends_enqueueInsert {P : Stmt → Prop} {input : InsertWorkflowInput}
    (hinsert : P (.insertWorkflowStatus input)) (hdead : P (.deadLetter input.workflowId))
    (maxRetries : ℤ) (queueName : String) (deduplicationId : Option String) :
    Sends P (enqueueInsert input maxRetries queueName deduplicationId) A := by
  refine Sends.transaction ((sends_insertWorkflowStatus hinsert hdead).attempt.bind ?_)
  rintro (e | res)
  · dsimp only
    split <;> exact sends_throw _
  · exact sends_commitTx.bind fun _ ↦ sends_pure _

theorem isQueued_enqueueStatus (delay : Option ℕ) : (enqueueStatus delay).isQueued = true := by
  cases delay <;> rfl

section

variable [AllowsAsking A] {P : Stmt → Prop}
variable (hinsert : ∀ input : InsertWorkflowInput, input.status.isQueued = true →
  input.increment = 0 → P (.insertWorkflowStatus input)) (hdead : ∀ w, P (.deadLetter w))
include hinsert hdead

theorem sends_enqueueWorkflow (inner : DbosInner) (queueName name : String)
    (input : Option String) (opts : EnqueueOptions) :
    Sends P (enqueueWorkflow inner queueName name input opts) A := by
  have hqueued := isQueued_enqueueStatus opts.delay
  rw [enqueueWorkflow]
  split
  · exact sends_throw _
  dsimp only
  split
  · exact (sends_pure _).bind fun id ↦ (sends_ask _).bind fun now ↦ (sends_ask _).bind fun xid ↦
      sends_enqueueInsert (hinsert _ hqueued rfl) (hdead _) _ _ _
  · exact (sends_ask _).bind fun id ↦ (sends_ask _).bind fun now ↦ (sends_ask _).bind fun xid ↦
      sends_enqueueInsert (hinsert _ hqueued rfl) (hdead _) _ _ _

theorem sends_clientEnqueue (queueName name encoded : String) (opts : EnqueueOptions) :
    Sends P (clientEnqueue queueName name encoded opts) A := by
  have hqueued := isQueued_enqueueStatus opts.delay
  rw [clientEnqueue]
  dsimp only
  split
  · exact (sends_pure _).bind fun id ↦ (sends_ask _).bind fun now ↦ (sends_ask _).bind fun xid ↦
      sends_enqueueInsert (hinsert _ hqueued rfl) (hdead _) _ _ _
  · exact (sends_ask _).bind fun id ↦ (sends_ask _).bind fun now ↦ (sends_ask _).bind fun xid ↦
      sends_enqueueInsert (hinsert _ hqueued rfl) (hdead _) _ _ _

end

theorem plain_insertQueued {input : InsertWorkflowInput} (h : input.status.isQueued = true) :
    Stmt.Plain (.insertWorkflowStatus input) := by
  simp [Stmt.Plain, Stmt.isPlain, Stmt.isOrdinary, h]

variable [AllowsAsking A]

theorem plain_enqueueWorkflow (inner : DbosInner) (queueName name : String)
    (input : Option String) (opts : EnqueueOptions) :
    Sends Stmt.Plain (enqueueWorkflow inner queueName name input opts) A :=
  sends_enqueueWorkflow (fun _ h _ ↦ plain_insertQueued h) (fun _ ↦ rfl) inner queueName name input
    opts

theorem plain_clientEnqueue (queueName name encoded : String) (opts : EnqueueOptions) :
    Sends Stmt.Plain (clientEnqueue queueName name encoded opts) A :=
  sends_clientEnqueue (fun _ h _ ↦ plain_insertQueued h) (fun _ ↦ rfl) queueName name encoded opts

end

section

variable [SerdeJson]

/-- A start sends an upsert of a `PENDING` row, the dead-letter update and the record of a child,
and asks for a time, for identifiers, and for its task to be spawned. -/
theorem sends_startWorkflow (inner : DbosInner) (name : String) (input : Option String)
    (opts : WorkflowOptions) (parent : Option (WorkflowState × ℕ)) (fmt : Format)
    (isRecovery : Bool) {P : Stmt → Prop} {A : Ask → Prop}
    (hinsert : ∀ input, input.status = .pending → input.queueName = none →
      input.increment = (if isRecovery then 1 else 0) → P (.insertWorkflowStatus input))
    (hdead : ∀ w, P (.deadLetter w))
    (hchild : ∀ p ∈ parent, ∀ row, row.functionName = name →
      P (.insertOperation p.1.workflowId p.2 row))
    (hnow : A .now) (huuid : A .newUuid)
    (hspawn : ∀ id, A (.spawn ⟨id, name, input, fmt, resolveAuth opts parent⟩)) :
    Sends P (startWorkflow inner name input opts parent fmt isRecovery) A := by
  rw [startWorkflow]
  split
  · exact sends_throw _
  refine Sends.bind ?_ fun id ↦ (sends_ask_of hnow).bind fun now ↦
    (sends_ask_of huuid).bind fun ownerXid ↦ Sends.bind (Sends.transaction ?_) fun skip ↦ ?_
  · unfold startId
    split
    · exact sends_pure _
    · exact sends_pure _
    · exact sends_ask_of huuid
  · refine (sends_insertWorkflowStatus (hinsert _ rfl rfl rfl) (hdead _)).bind fun res ↦ ?_
    dsimp only
    split
    · exact sends_commitTx.bind fun _ ↦ sends_throw _
    split
    · exact (sends_recordOperationResult (hchild _ rfl) _ _ _ _ hnow).bind fun _ ↦
        sends_commitTx.bind fun _ ↦ sends_pure _
    · exact sends_commitTx.bind fun _ ↦ sends_pure _
  · split
    · exact sends_pure _
    · exact (sends_ask_of (hspawn id)).bind fun _ ↦ sends_pure _

theorem plain_startWorkflow (inner : DbosInner) (name : String) (input : Option String)
    (opts : WorkflowOptions) (fmt : Format) (isRecovery : Bool) {A : Ask → Prop} (hnow : A .now)
    (huuid : A .newUuid)
    (hspawn : ∀ id, A (.spawn ⟨id, name, input, fmt, resolveAuth opts none⟩)) :
    Sends Stmt.Plain (startWorkflow inner name input opts none fmt isRecovery) A := by
  refine sends_startWorkflow _ _ _ _ _ _ _ (fun input hstatus hqueue _ ↦ ?_) (fun _ ↦ rfl)
    (by simp) hnow huuid hspawn
  simp [Stmt.Plain, Stmt.isPlain, Stmt.isOrdinary, hstatus, hqueue]

theorem plain_recoverWorkflow (inner : DbosInner) (wf : RecoverableWorkflow) {A : Ask → Prop}
    (hnow : A .now) (huuid : A .newUuid)
    (hspawn : ∀ id auth, A (.spawn ⟨id, wf.name, wf.inputs, .fromName wf.serialization, auth⟩)) :
    Sends Stmt.Plain (recoverWorkflow inner wf) A := by
  rw [recoverWorkflow]
  split
  · refine (Sends.attempt ?_).bind fun r ↦ by cases r <;> exact sends_pure _
    exact (plain_query rfl).bind fun _ ↦ sends_pure _
  split
  · exact sends_pure _
  · refine (Sends.attempt ?_).bind fun r ↦ by cases r <;> exact sends_pure _
    exact plain_startWorkflow _ _ _ _ _ _ hnow huuid fun id ↦ hspawn id _

theorem plain_recover (inner : DbosInner) (executorIds : List String) :
    Sends Stmt.Plain (recoverPendingWorkflows inner executorIds) := by
  have each : ∀ wfs, Sends Stmt.Plain (recoverEach inner wfs) := by
    intro wfs
    induction wfs with
    | nil => exact sends_pure _
    | cons wf rest ih =>
      have hone : Sends Stmt.Plain (recoverWorkflow inner wf) :=
        plain_recoverWorkflow inner wf trivial trivial fun _ _ ↦ trivial
      exact hone.bind fun _ ↦ ih.bind fun _ ↦ sends_pure _
  exact (plain_query rfl).bind each

theorem sends_recordOutcome {P : Stmt → Prop} (w : String) (fmt : Format)
    (result : Except DbosError String) {A : Ask → Prop} [AllowsAsking A]
    (h : ∀ status output error now, status.isOutcome = true →
      P (.updateWorkflowOutcome w status output error now)) :
    Sends P (recordOutcome w fmt result) A := by
  have houtcome : (outcomeColumns fmt result).1.isOutcome = true := by cases result <;> rfl
  refine (Sends.attempt ?_).bind fun _ ↦ sends_pure _
  exact (sends_ask _).bind fun now ↦ sends_query (h _ _ _ now houtcome)

theorem plain_recordOutcome (w : String) (fmt : Format) (result : Except DbosError String)
    {A : Ask → Prop} [AllowsAsking A] : Sends Stmt.Plain (recordOutcome w fmt result) A :=
  sends_recordOutcome w fmt result fun _ _ _ _ h ↦ h

/-- What the runtime is asked to do. -/
inductive Call
  | runWorkflow (name : String) (input : Option String) (opts : WorkflowOptions)
      (parent : Option (WorkflowState × ℕ))
  | enqueue (queueName name : String) (input : Option String) (opts : EnqueueOptions)
  | clientEnqueue (queueName name encoded : String) (opts : EnqueueOptions)
  | pollQueue (queue : DequeueInput)
  | complete (workflowId : String) (fmt : Format) (result : Except DbosError String)
  | awaitResult (workflowId : String) (polls : ℕ)
  | cancel (ids : List String)
  | resume (ids : List String) (queueName : String)
  | promote
  | recover (executorIds : List String)
  | fork (input : ForkWorkflowInput)
  | delete (ids : List String)
  | collectGarbage (cutoff rowsThreshold : Option ℤ)

/-- What comes of a call. -/
inductive CallValue
  | handle (h : WorkflowHandle)
  /-- The value a task sends to the handle that waits for it. -/
  | sent (workflowId : String) (result : Except DbosError String)
  | polled (workflowId : String) (outcome : Option AwaitOutcome)
  | forked (workflowId : String)
  | done

/-- The program of a call on the executor `inner`. -/
def Call.run (inner : DbosInner) : Call → DbosM CallValue
  | runWorkflow name input opts parent =>
    .handle <$> startWorkflow inner name input opts parent .portable false
  | enqueue queueName name input opts => .handle <$> enqueueWorkflow inner queueName name input opts
  | clientEnqueue queueName name encoded opts =>
    .handle <$> Dbos.clientEnqueue queueName name encoded opts
  | pollQueue queue => (fun _ ↦ .done) <$> Dbos.pollQueue inner queue
  | complete workflowId fmt result =>
    (fun _ ↦ .sent workflowId result) <$> recordOutcome workflowId fmt result
  | awaitResult workflowId polls => .polled workflowId <$> awaitWorkflowResult workflowId polls
  | cancel ids => (fun _ ↦ .done) <$> cancelWorkflows ids
  | resume ids queueName => (fun _ ↦ .done) <$> resumeWorkflows ids queueName
  | promote => (fun _ ↦ .done) <$> transitionDelayedWorkflows
  | recover executorIds => (fun _ ↦ .done) <$> recoverPendingWorkflows inner executorIds
  | fork input => .forked <$> forkWorkflow input
  | delete ids => (fun _ ↦ .done) <$> deleteWorkflows ids
  | collectGarbage cutoff rowsThreshold =>
    (fun _ ↦ .done) <$> garbageCollect cutoff rowsThreshold

end

end Dbos
