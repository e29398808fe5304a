import DbosTransact.Db.Program

/-!
# Workflow rows: insertion, outcome, recovery, queues, management

The functions of `db/status.rs`, `db/queue.rs` and `db/management.rs` that read and change
`workflow_status`.
-/

namespace Dbos

open Txn

/-! ### `db/status.rs` -/

/-- Outcome of `insert_workflow_status`. -/
structure InsertResult where
  recoveryAttempts : ℤ
  status : WorkflowStatusType
  name : String
  queueName : Option String
  ownerXid : Option String
  /-- The insert tripped the dead-letter threshold. -/
  dlqTriggered : Bool
  deriving DecidableEq, Repr

/-- Whether the two queue names are both present and different. -/
def queueMismatch (want found : Option String) : Bool :=
  match want, found with
  | some want, some found => want ≠ found
  | _, _ => false

/-- Whether a returned row has exceeded its attempts. The sum wraps in a release build. -/
def exceedsAttempts (row : InsertReturningRow) (maxRetries : ℤ) : Bool :=
  row.status ≠ .success && row.status ≠ .error && 0 < maxRetries &&
    asI64 (maxRetries + 1) < row.recoveryAttempts

/-- The limit is the last integer there is: the sum wraps, and every row exceeds it. -/
def limitWraps (maxRetries : ℤ) : Bool := 0 < maxRetries && asI64 (maxRetries + 1) < 1

/-- Insert, or on conflict touch, a workflow status row inside the caller's transaction. -/
def insertWorkflowStatus (input : InsertWorkflowInput) (maxRetries : ℤ) : DbosM InsertResult := do
  let row ← query (.insertWorkflowStatus input)
  if !input.name.isEmpty && row.name ≠ input.name then
    throw (.conflictingWorkflow input.workflowId
      s!"it already exists with a different name ({row.name})")
  if queueMismatch input.queueName row.queueName then
    let found := row.queueName.getD ""
    throw (.conflictingWorkflow input.workflowId
      s!"it already exists in a different queue ({found})")
  if exceedsAttempts row maxRetries then
    query (.deadLetter input.workflowId)
    return ⟨row.recoveryAttempts, row.status, row.name, row.queueName, row.ownerXid, true⟩
  return ⟨row.recoveryAttempts, row.status, row.name, row.queueName, row.ownerXid, false⟩

/-- Record a workflow's terminal outcome. -/
def updateWorkflowOutcome (workflowId : String) (status : WorkflowStatusType)
    (output error : Option String) : DbosM Unit := do
  let now ← ask .now
  query (.updateWorkflowOutcome workflowId status output error now)

/-- Terminal outcome read by `await_workflow_result`. -/
inductive AwaitOutcome
  | success (output serialization : Option String)
  | error (error serialization : Option String)
  | cancelled
  | deadLetter (recoveryAttempts : ℤ)
  deriving DecidableEq, Repr

/-- The outcome a polled row stands for, if it is terminal. -/
def AwaitRow.outcome (row : AwaitRow) : Option AwaitOutcome :=
  match row.status with
  | .success => some (.success row.output row.serialization)
  | .error => some (.error row.error row.serialization)
  | .cancelled => some .cancelled
  | .maxRecoveryAttemptsExceeded => some (.deadLetter row.recoveryAttempts)
  | _ => none

/-- Poll the row until it is terminal. The function waits for ever; `n` is the number of polls the
caller stays for, and `none` is the answer of a caller that left. -/
def awaitWorkflowResult (workflowId : String) : ℕ → DbosM (Option AwaitOutcome)
  | 0 => return none
  | n + 1 => do
    match (← query (.selectAwaitRow workflowId)).bind AwaitRow.outcome with
    | some outcome => return some outcome
    | none => awaitWorkflowResult workflowId n

/-- List the workflows a freshly launched executor recovers. -/
def listPendingForRecovery (executorIds : List String) (applicationVersion : String) :
    DbosM (List RecoverableWorkflow) :=
  query (.listPendingForRecovery executorIds applicationVersion)

/-! ### `db/queue.rs` -/

/-- Promote every delayed workflow whose delay has elapsed. -/
def transitionDelayedWorkflows : DbosM Unit := do
  let now ← ask .now
  query (.transitionDelayedWorkflows now)

/-- Push a claimed workflow back to its queue; true if a row was reset. -/
def clearQueueAssignment (workflowId : String) : DbosM Bool := do
  return 0 < (← query (.clearQueueAssignment workflowId))

/-- Inputs to one dequeue iteration. `rateLimit` is the limit and its period in milliseconds. -/
structure DequeueInput where
  queueName : String
  executorId : String
  applicationVersion : String
  partitionKey : Option String := none
  localRunningCount : ℕ := 0
  workerConcurrency : Option ℕ := none
  globalConcurrency : Option ℕ := none
  maxTasksPerIteration : ℕ := 100
  rateLimit : Option (ℕ × ℕ) := none
  deriving DecidableEq, Repr

/-- A workflow claimed by a dequeue iteration. -/
structure DequeuedWorkflow where
  id : String
  name : String
  inputs : Option String
  serialization : Option String
  configName : Option String
  deriving DecidableEq, Repr

namespace DequeueInput

/-- Whether the counts must come from one snapshot. -/
def snapshot (input : DequeueInput) : Bool :=
  input.globalConcurrency.isSome || input.rateLimit.isSome

/-- The claims allowed before the global limit is looked at. -/
def localMax (input : DequeueInput) : ℤ :=
  match input.workerConcurrency with
  | some wc => max (wc - input.localRunningCount) 0
  | none => input.maxTasksPerIteration

/-- How the candidates are locked. -/
def lockMode (input : DequeueInput) : LockMode :=
  if input.globalConcurrency.isNone then .skipLocked else .nowait

end DequeueInput

/-- The rate-limit gate: the number of recent starts, or `none` when the limit is reached. -/
def rateLimitGate (input : DequeueInput) : DbosM (Option ℕ) :=
  match input.rateLimit with
  | none => return some 0
  | some (limit, period) => do
    let now ← ask .now
    let cutoff := asI64 (now - asI64 period)
    let numRecent ← query (.countRecent input.queueName input.partitionKey cutoff)
    return if limit ≤ numRecent then none else some numRecent

/-- How many tasks may be claimed this iteration. -/
def maxTasks (input : DequeueInput) : DbosM ℤ :=
  match input.globalConcurrency with
  | none => return input.localMax
  | some gc => do
    let globalCount ← query (.countPending input.queueName input.partitionKey)
    let available : ℤ := max (gc - globalCount) 0
    return min input.localMax available

/-- Claim the candidates one by one, up to the rate limit. -/
def claimEach (input : DequeueInput) (numRecent : ℕ) (now : ℤ) :
    List String → List DequeuedWorkflow → DbosM (List DequeuedWorkflow)
  | [], claimed => return claimed
  | id :: rest, claimed => do
    if input.rateLimit.any fun r ↦ r.1 ≤ claimed.length + numRecent then return claimed
    match ← query (.claimWorkflow id input.applicationVersion input.executorId now
        input.rateLimit.isSome) with
    | some row =>
      claimEach input numRecent now rest
        (claimed ++ [⟨id, row.name, row.inputs, row.serialization, row.configName⟩])
    | none => claimEach input numRecent now rest claimed

/-- Claim enqueued workflows of a queue, flipping them to `PENDING`. Commits only if at least one
workflow was claimed. -/
def dequeueWorkflows (input : DequeueInput) : DbosM (List DequeuedWorkflow) :=
  transaction do
    if input.snapshot then setIsolation .repeatableRead
    match ← rateLimitGate input with
    | none => return []
    | some numRecent => do
      let maxTasks ← maxTasks input
      if maxTasks ≤ 0 then return []
      let candidateIds ← query (.selectCandidates input.queueName input.applicationVersion
        input.partitionKey input.lockMode maxTasks.toNat)
      let now ← ask .now
      let claimed ← claimEach input numRecent now candidateIds []
      if !claimed.isEmpty then commitTx
      return claimed

/-! ### `db/management.rs` -/

/-- Cancel the given workflows; returns the ids that exist. -/
def cancelWorkflows (ids : List String) : DbosM (List String) := do
  let now ← ask .now
  query (.cancelWorkflows ids now)

/-- Reset the given workflows to `ENQUEUED` on a queue; returns the ids that exist. -/
def resumeWorkflows (ids : List String) (queueName : String) : DbosM (List String) := do
  let now ← ask .now
  query (.resumeWorkflows ids queueName now)

/-- Permanently delete workflow rows and what refers to them. -/
def deleteWorkflows (ids : List String) : DbosM Unit :=
  query (.deleteWorkflows ids)

/-- `INTERNAL_QUEUE_NAME`: the queue forked workflows are placed on when none is given. -/
def internalQueueName : String := "_dbos_internal_queue"

/-- Input to `fork_workflow`. -/
structure ForkWorkflowInput where
  originalWorkflowId : String
  forkedWorkflowId : Option String := none
  /-- Steps with `function_id < start_step` are copied; the fork resumes from `start_step`. -/
  startStep : ℤ := 0
  applicationVersion : Option String := none
  queueName : Option String := none
  queuePartitionKey : Option String := none
  deriving DecidableEq, Repr

/-- The copies of `fork_workflow`: nothing for a start step that is not positive. -/
def copySteps (newId originalId : String) (startStep : ℤ) : DbosM Unit := do
  if 0 < startStep then
    query (.copyOperations newId originalId startStep)
    query (.copyEventsHistory newId originalId startStep)
    query (.copyEvents newId originalId startStep)
    query (.copyStreams newId originalId startStep)

/-- Create a new `ENQUEUED` workflow with the original's input and its steps below the start step.
Returns the new workflow id. -/
def forkWorkflow (input : ForkWorkflowInput) : DbosM String := do
  let newId ← match input.forkedWorkflowId with
    | some id => pure id
    | none => ask .newUuid
  let now ← ask .now
  match ← query (.selectOriginal input.originalWorkflowId) with
  | none => throw (.nonExistentWorkflow input.originalWorkflowId)
  | some original =>
    transaction do
      query (.insertForked newId
        { original := original
          originalWorkflowId := input.originalWorkflowId
          applicationVersion := input.applicationVersion
          queueName := input.queueName.getD internalQueueName
          queuePartitionKey := input.queuePartitionKey
          now := now })
      query (.markForkedFrom input.originalWorkflowId)
      copySteps newId input.originalWorkflowId input.startStep
      commitTx
      return newId

/-- The cutoff of a collection: the more recent of the given one and the one of the row
threshold. -/
def collectionCutoff (cutoff rowsThreshold : Option ℤ) : DbosM (Option ℤ) :=
  match rowsThreshold with
  | some threshold =>
    if 0 < threshold then do
      match ← query (.selectCreatedAt (threshold - 1).toNat) with
      | some rowsCutoff => return some (cutoff.elim rowsCutoff fun c ↦ max c rowsCutoff)
      | none => return cutoff
    else return cutoff
  | none => return cutoff

/-- Delete terminal workflows older than the cutoff or beyond the row threshold. -/
def garbageCollect (cutoff rowsThreshold : Option ℤ) : DbosM Unit := do
  match ← collectionCutoff cutoff rowsThreshold with
  | none => return
  | some cutoff => query (.collectWorkflows cutoff)

end Dbos
