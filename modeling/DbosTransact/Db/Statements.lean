import DbosTransact.Db.Schema
import DbosTransact.Foundation.Statement
import Mathlib.Data.List.Sort

/-!
# The SQL statements

Every statement the modelled code sends, as data (`Stmt`), with the type of its result (`Stmt.Res`)
and what it does (`Stmt.run`). One constructor stands for one SQL text of `db/*.rs`, with its bind
parameters; its meaning is given by the row functions and conditions beside it, which are the `SET`
lists and `WHERE` clauses of that text, and by the locking rules of `Txn.View`.
-/

namespace Dbos

open Txn

/-- A view of the system database. -/
abbrev DbView (Stmt : Type) : Type := View Db Key Row Stmt

/-- The changes a statement makes. -/
abbrev Changes : Type := List (Σ k : Key, Option (Row k))

/-- Fields written by `insert_workflow_status`. -/
structure InsertWorkflowInput where
  workflowId : String
  status : WorkflowStatusType
  name : String
  queueName : Option String := none
  authenticatedUser : Option String := none
  assumedRole : Option String := none
  authenticatedRoles : Option String := none
  executorId : String := ""
  applicationVersion : Option String := none
  applicationId : Option String := none
  createdAt : ℤ
  updatedAt : ℤ
  recoveryAttempts : ℤ
  workflowTimeoutMs : Option ℤ := none
  workflowDeadlineEpochMs : Option ℤ := none
  inputs : Option String := none
  deduplicationId : Option String := none
  priority : ℤ := 0
  queuePartitionKey : Option String := none
  ownerXid : String
  parentWorkflowId : Option String := none
  className : Option String := none
  configName : Option String := none
  serialization : Option String := none
  delayUntilEpochMs : Option ℤ := none
  /-- Added to `recovery_attempts` on conflict. -/
  increment : ℤ := 0
  deriving DecidableEq, Repr

/-- The columns returned by the upsert of `insert_workflow_status` that its caller uses. -/
structure InsertReturningRow where
  recoveryAttempts : ℤ
  status : WorkflowStatusType
  name : String
  queueName : Option String
  ownerXid : Option String
  deriving DecidableEq, Repr

/-- A row polled by `await_workflow_result`. -/
structure AwaitRow where
  status : WorkflowStatusType
  output : Option String
  error : Option String
  recoveryAttempts : ℤ
  serialization : Option String
  deriving DecidableEq, Repr

/-- A workflow eligible for crash recovery. -/
structure RecoverableWorkflow where
  id : String
  name : String
  inputs : Option String
  serialization : Option String
  queueName : Option String
  authenticatedUser : Option String
  assumedRole : Option String
  authenticatedRoles : Option String
  configName : Option String
  deriving DecidableEq, Repr

/-- What the claiming update returns. -/
structure ClaimRow where
  name : String
  inputs : Option String
  serialization : Option String
  configName : Option String
  deriving DecidableEq, Repr

/-- The columns of the original that `fork_workflow` reads. -/
structure OriginalRow where
  name : String
  authenticatedUser : Option String
  assumedRole : Option String
  authenticatedRoles : Option String
  applicationId : Option String
  inputs : Option String
  serialization : Option String
  className : Option String
  configName : Option String
  deriving DecidableEq, Repr

/-- Fields written by the insert of `fork_workflow`. -/
structure ForkedWorkflow where
  original : OriginalRow
  originalWorkflowId : String
  applicationVersion : Option String
  queueName : String
  queuePartitionKey : Option String
  now : ℤ
  deriving DecidableEq, Repr

/-- A raw stream entry before decoding. -/
structure StreamEntry where
  value : String
  offset : ℕ
  serialization : Option String
  deriving DecidableEq, Repr

/-- The SQL statements. -/
inductive Stmt
  /-- The upsert of `insert_workflow_status`. -/
  | insertWorkflowStatus (input : InsertWorkflowInput)
  /-- The dead-letter update of `insert_workflow_status`. -/
  | deadLetter (workflowId : String)
  | updateWorkflowOutcome (workflowId : String) (status : WorkflowStatusType)
      (output error : Option String) (now : ℤ)
  /-- The polling query of `await_workflow_result`. -/
  | selectAwaitRow (workflowId : String)
  | listPendingForRecovery (executorIds : List String) (applicationVersion : String)
  | getStatus (workflowId : String)
  /-- The second query of `check_operation_execution`. -/
  | selectOperation (workflowId : String) (functionId : ℕ)
  /-- The insert of `record_operation_result`. -/
  | insertOperation (workflowId : String) (functionId : ℕ) (row : OperationRow)
  /-- The query of `check_child_workflow`. -/
  | selectChildWorkflowId (parentId : String) (functionId : ℕ)
  | insertNotification (messageUuid : String) (row : NotificationRow)
  | notificationExistsUnconsumed (destinationId topic : String)
  | consumeOldestNotification (destinationId topic : String)
  | upsertWorkflowEvent (workflowId key : String) (row : EventRow)
  | insertWorkflowEventHistory (workflowId : String) (functionId : ℕ) (key : String)
      (row : EventRow)
  | selectWorkflowEvent (workflowId key : String)
  /-- The closed guard of `write_stream_entry`. -/
  | selectStreamClosed (workflowId key sentinel : String)
  /-- The insert of `write_stream_entry`. -/
  | insertStream (workflowId key : String) (row : StreamRow)
  /-- The query of `read_stream_entries`. -/
  | selectStreamEntries (workflowId key : String) (fromOffset : ℤ)
  | transitionDelayedWorkflows (now : ℤ)
  | clearQueueAssignment (workflowId : String)
  | getQueuePartitions (queueName : String)
  /-- The rate-limit count of `dequeue_workflows`. -/
  | countRecent (queueName : String) (partitionKey : Option String) (cutoff : ℤ)
  /-- The global-concurrency count of `dequeue_workflows`. -/
  | countPending (queueName : String) (partitionKey : Option String)
  /-- The candidate selection of `dequeue_workflows`. -/
  | selectCandidates (queueName applicationVersion : String) (partitionKey : Option String)
      (mode : LockMode) (limit : ℕ)
  /-- The claiming update of `dequeue_workflows`. -/
  | claimWorkflow (workflowId applicationVersion executorId : String) (now : ℤ)
      (rateLimited : Bool)
  | cancelWorkflows (ids : List String) (now : ℤ)
  | resumeWorkflows (ids : List String) (queueName : String) (now : ℤ)
  | deleteWorkflows (ids : List String)
  /-- The first query of `fork_workflow`. -/
  | selectOriginal (workflowId : String)
  /-- The insert of `fork_workflow`. -/
  | insertForked (workflowId : String) (fork : ForkedWorkflow)
  | markForkedFrom (workflowId : String)
  /-- The copies of `fork_workflow`, in their order. -/
  | copyOperations (newId originalId : String) (startStep : ℤ)
  | copyEventsHistory (newId originalId : String) (startStep : ℤ)
  | copyEvents (newId originalId : String) (startStep : ℤ)
  | copyStreams (newId originalId : String) (startStep : ℤ)
  /-- The row-threshold query of `garbage_collect`. -/
  | selectCreatedAt (offset : ℕ)
  /-- The deletion of `garbage_collect`. -/
  | collectWorkflows (cutoff : ℤ)

/-- What a statement returns. -/
abbrev Stmt.Res : Stmt → Type
  | insertWorkflowStatus _ => InsertReturningRow
  | deadLetter _ => Unit
  | updateWorkflowOutcome .. => Unit
  | selectAwaitRow _ => Option AwaitRow
  | listPendingForRecovery .. => List RecoverableWorkflow
  | getStatus _ => Option WorkflowStatusType
  | selectOperation .. => Option OperationRow
  | insertOperation .. => Unit
  | selectChildWorkflowId .. => Option (Option String)
  | insertNotification .. => Unit
  | notificationExistsUnconsumed .. => Bool
  | consumeOldestNotification .. => Option (String × Option String)
  | upsertWorkflowEvent .. => Unit
  | insertWorkflowEventHistory .. => Unit
  | selectWorkflowEvent .. => Option EventRow
  | selectStreamClosed .. => Bool
  | insertStream .. => Unit
  | selectStreamEntries .. => List StreamEntry
  | transitionDelayedWorkflows _ => Unit
  | clearQueueAssignment _ => ℕ
  | getQueuePartitions _ => List String
  | countRecent .. => ℕ
  | countPending .. => ℕ
  | selectCandidates .. => List String
  | claimWorkflow .. => Option ClaimRow
  | cancelWorkflows .. => List String
  | resumeWorkflows .. => List String
  | deleteWorkflows _ => Unit
  | selectOriginal _ => Option OriginalRow
  | insertForked .. => Unit
  | markForkedFrom _ => Unit
  | copyOperations .. => Unit
  | copyEventsHistory .. => Unit
  | copyEvents .. => Unit
  | copyStreams .. => Unit
  | selectCreatedAt _ => Option ℤ
  | collectWorkflows _ => Unit

/-- The faults of the server in the driver's terms. -/
def faults : Faults SqlError where
  uniqueViolation := .uniqueViolation
  foreignKeyViolation := .foreignKeyViolation
  serializationFailure := .serializationFailure
  lockNotAvailable := .lockNotAvailable
  aborted := .inFailedTransaction

/-! ### Row functions and conditions -/

/-- Whether a status is one of the two queued ones. -/
def WorkflowStatusType.isQueued : WorkflowStatusType → Bool
  | enqueued | delayed => true
  | _ => false

/-- The `VALUES` of the upsert. -/
def InsertWorkflowInput.row (input : InsertWorkflowInput) : WorkflowRow where
  status := input.status
  name := input.name
  authenticatedUser := input.authenticatedUser
  assumedRole := input.assumedRole
  authenticatedRoles := input.authenticatedRoles
  output := none
  error := none
  executorId := some input.executorId
  createdAt := input.createdAt
  updatedAt := input.updatedAt
  applicationVersion := input.applicationVersion
  applicationId := input.applicationId
  className := input.className
  configName := input.configName
  recoveryAttempts := input.recoveryAttempts
  queueName := input.queueName
  workflowTimeoutMs := input.workflowTimeoutMs
  workflowDeadlineEpochMs := input.workflowDeadlineEpochMs
  inputs := input.inputs
  startedAtEpochMs := none
  deduplicationId := input.deduplicationId
  priority := input.priority
  queuePartitionKey := input.queuePartitionKey
  ownerXid := some input.ownerXid
  parentWorkflowId := input.parentWorkflowId
  serialization := input.serialization
  delayUntilEpochMs := input.delayUntilEpochMs
  rateLimited := false
  completedAt := none

/-- The `ON CONFLICT (workflow_uuid) DO UPDATE` of the upsert. -/
def InsertWorkflowInput.onConflict (input : InsertWorkflowInput) (old : WorkflowRow) :
    WorkflowRow :=
  { old with
    recoveryAttempts :=
      if input.status.isQueued then old.recoveryAttempts
      else old.recoveryAttempts + input.increment
    updatedAt := input.updatedAt
    executorId := if input.status.isQueued then old.executorId else some input.executorId }

def WorkflowRow.deadLetter (r : WorkflowRow) : WorkflowRow :=
  { r with status := .maxRecoveryAttemptsExceeded, deduplicationId := none,
           startedAtEpochMs := none, queueName := none }

/-- The guard `NOT (status = CANCELLED AND new IN (SUCCESS, ERROR))`. -/
def WorkflowRow.acceptsOutcome (r : WorkflowRow) (new : WorkflowStatusType) : Bool :=
  !(r.status = .cancelled && new.isOutcome)

def WorkflowRow.recordOutcome (r : WorkflowRow) (status : WorkflowStatusType)
    (output error : Option String) (now : ℤ) : WorkflowRow :=
  { r with status := status, output := output, error := error, updatedAt := now,
           completedAt := some now, deduplicationId := none }

/-- `status = PENDING AND executor_id = ANY(ids) AND application_version = version`. -/
def WorkflowRow.recoverable (r : WorkflowRow) (executorIds : List String) (version : String) :
    Bool :=
  r.status = .pending && r.executorId.any (fun e ↦ executorIds.contains e) &&
    r.applicationVersion = some version

def WorkflowRow.toRecoverable (id : String) (r : WorkflowRow) : RecoverableWorkflow where
  id := id
  name := r.name
  inputs := r.inputs
  serialization := r.serialization
  queueName := r.queueName
  authenticatedUser := r.authenticatedUser
  assumedRole := r.assumedRole
  authenticatedRoles := r.authenticatedRoles
  configName := r.configName

/-- `status = DELAYED AND delay_until_epoch_ms <= now`. -/
def WorkflowRow.due (r : WorkflowRow) (now : ℤ) : Bool :=
  r.status = .delayed && r.delayUntilEpochMs.any fun t ↦ t ≤ now

def WorkflowRow.promote (r : WorkflowRow) : WorkflowRow := { r with status := .enqueued }

/-- `queue_name IS NOT NULL AND status = PENDING`. -/
def WorkflowRow.assigned (r : WorkflowRow) : Bool := r.queueName.isSome && r.status = .pending

def WorkflowRow.clearAssignment (r : WorkflowRow) : WorkflowRow :=
  { r with status := .enqueued, startedAtEpochMs := none }

/-- Whether the row is in the queue, and in the partition when one is given. -/
def WorkflowRow.inQueue (r : WorkflowRow) (queueName : String) (partitionKey : Option String) :
    Bool :=
  r.queueName = some queueName && (partitionKey.isNone || r.queuePartitionKey = partitionKey)

/-- The condition of the rate-limit count. -/
def WorkflowRow.startedSince (r : WorkflowRow) (queueName : String) (partitionKey : Option String)
    (cutoff : ℤ) : Bool :=
  r.inQueue queueName partitionKey && r.rateLimited && !r.status.isQueued &&
    r.startedAtEpochMs.any fun t ↦ cutoff < t

/-- The condition of the global-concurrency count. -/
def WorkflowRow.pendingIn (r : WorkflowRow) (queueName : String) (partitionKey : Option String) :
    Bool :=
  r.inQueue queueName partitionKey && r.status = .pending

/-- The condition of the candidate selection. -/
def WorkflowRow.candidate (r : WorkflowRow) (queueName version : String)
    (partitionKey : Option String) : Bool :=
  r.inQueue queueName partitionKey && r.status = .enqueued &&
    (r.applicationVersion = some version || r.applicationVersion.isNone)

/-- The `SET` list of the claiming update. -/
def WorkflowRow.claim (r : WorkflowRow) (version executorId : String) (now : ℤ)
    (rateLimited : Bool) : WorkflowRow :=
  { r with
    status := .pending
    applicationVersion := some version
    executorId := some executorId
    startedAtEpochMs := some now
    rateLimited := rateLimited
    workflowDeadlineEpochMs :=
      match r.workflowTimeoutMs, r.workflowDeadlineEpochMs with
      | some timeout, none => some (now + timeout)
      | _, deadline => deadline }

/-- `status NOT IN (SUCCESS, ERROR, CANCELLED)`. -/
def WorkflowRow.cancellable (r : WorkflowRow) : Bool :=
  !(r.status.isOutcome || r.status = .cancelled)

def WorkflowRow.cancel (r : WorkflowRow) (now : ℤ) : WorkflowRow :=
  { r with status := .cancelled, updatedAt := now, completedAt := some now,
           startedAtEpochMs := none, queueName := none, deduplicationId := none }

/-- `status NOT IN (SUCCESS, ERROR)`. -/
def WorkflowRow.resumable (r : WorkflowRow) : Bool := !r.status.isOutcome

def WorkflowRow.resume (r : WorkflowRow) (queueName : String) (now : ℤ) : WorkflowRow :=
  { r with status := .enqueued, queueName := some queueName, recoveryAttempts := 0,
           workflowDeadlineEpochMs := none, deduplicationId := none, startedAtEpochMs := none,
           updatedAt := now, completedAt := none }

/-- The columns a fork takes over. -/
def WorkflowRow.toOriginal (r : WorkflowRow) : OriginalRow where
  name := r.name
  authenticatedUser := r.authenticatedUser
  assumedRole := r.assumedRole
  authenticatedRoles := r.authenticatedRoles
  applicationId := r.applicationId
  inputs := r.inputs
  serialization := r.serialization
  className := r.className
  configName := r.configName

/-- The row inserted for a fork; the columns its insert does not name have their defaults. -/
def ForkedWorkflow.row (fork : ForkedWorkflow) : WorkflowRow where
  status := .enqueued
  name := fork.original.name
  authenticatedUser := fork.original.authenticatedUser
  assumedRole := fork.original.assumedRole
  authenticatedRoles := fork.original.authenticatedRoles
  output := none
  error := none
  executorId := none
  createdAt := fork.now
  updatedAt := fork.now
  applicationVersion := fork.applicationVersion
  applicationId := fork.original.applicationId
  className := fork.original.className
  configName := fork.original.configName
  recoveryAttempts := 0
  queueName := some fork.queueName
  workflowTimeoutMs := none
  workflowDeadlineEpochMs := none
  inputs := fork.original.inputs
  startedAtEpochMs := none
  deduplicationId := none
  priority := 0
  queuePartitionKey := fork.queuePartitionKey
  ownerXid := none
  parentWorkflowId := none
  serialization := fork.original.serialization
  delayUntilEpochMs := none
  rateLimited := false
  completedAt := none
  forkedFrom := some fork.originalWorkflowId

def WorkflowRow.markForked (r : WorkflowRow) : WorkflowRow := { r with wasForkedFrom := true }

/-- `created_at < cutoff AND status NOT IN (PENDING, ENQUEUED, DELAYED)`. -/
def WorkflowRow.collectable (r : WorkflowRow) (cutoff : ℤ) : Bool :=
  r.createdAt < cutoff && !(r.status = .pending || r.status.isQueued)

/-! ### Evaluation -/

namespace Stmt

/-- The keys of `workflow_status` rows whose rows satisfy a condition in the snapshot. -/
def keysWhere (db : Db) (p : String → WorkflowRow → Bool) : List Key :=
  (db.workflowStatus.select p).map fun e ↦ .workflowStatus e.1

/-- Update every row of `workflow_status` that satisfies `p`. -/
def updateWorkflows (v : DbView Stmt) (p : String → WorkflowRow → Bool)
    (f : WorkflowRow → WorkflowRow) : Outcome Key Row SqlError (List Key) :=
  v.updateAll store faults
    (fun k ↦ match k with
      | .workflowStatus w => fun r : WorkflowRow ↦ p w r
      | _ => fun _ ↦ false)
    (fun k ↦ match k with
      | .workflowStatus _ => fun r : WorkflowRow ↦ f r
      | _ => id)
    (keysWhere v.base p)

/-- Whether another row of the queue, committed or being written, has this deduplication id; the
partial unique index on `(queue_name, deduplication_id)`. -/
def sameDedup (input : InsertWorkflowInput) (r : WorkflowRow) : Bool :=
  r.deduplicationId.isSome && r.queueName.isSome && r.deduplicationId = input.deduplicationId &&
    r.queueName = input.queueName

/-- Whether another transaction is writing a row with this deduplication id, or one that has it. -/
def dedupHeld (v : DbView Stmt) (input : InsertWorkflowInput) : Bool :=
  v.others.any fun w ↦
    match w with
    | ⟨.workflowStatus _, old, new, _⟩ =>
      Option.any (sameDedup input) old || Option.any (sameDedup input) new
    | _ => false

def runInsertWorkflowStatus (v : DbView Stmt) (input : InsertWorkflowInput) :
    Outcome Key Row SqlError InsertReturningRow :=
  let key := Key.workflowStatus input.workflowId
  let fresh := (v.cur.workflow input.workflowId).isNone
  if v.held key then .wait
  else if fresh && dedupHeld v input then .wait
  else if fresh && v.cur.workflowStatus.rows.any (fun e ↦ sameDedup input e.2) then
    .fail .uniqueViolation
  else
    (v.upsert store faults key input.row input.onConflict).map fun r : WorkflowRow ↦
      ⟨r.recoveryAttempts, r.status, r.name, r.queueName, r.ownerXid⟩

/-- Rows in the order `created_at ASC`, ties ranked by the plan. -/
def oldestUnconsumed (v : DbView Stmt) (destinationId topic : String) : Option String :=
  let rows := v.base.notifications.select fun _ r ↦
    r.destinationUuid = destinationId && r.topic = topic && !r.consumed
  let sorted := rows.insertionSort fun a b ↦ a.2.createdAtEpochMs < b.2.createdAtEpochMs ∨
    a.2.createdAtEpochMs = b.2.createdAtEpochMs ∧
      v.plan (.notifications a.1) ≤ v.plan (.notifications b.1)
  sorted.head?.map Prod.fst

/-- The consuming update looks for the oldest message in its snapshot only. The row it then locks is
not asked again whether it is still unconsumed. -/
def runConsumeOldestNotification (v : DbView Stmt) (destinationId topic : String) :
    Outcome Key Row SqlError (Option (String × Option String)) :=
  match oldestUnconsumed v destinationId topic with
  | none => .read none
  | some m =>
    (v.update store faults (.notifications m) (fun _ ↦ true)
      fun r : NotificationRow ↦ { r with consumed := true }).map
        fun r : Option NotificationRow ↦ r.map fun r ↦ (r.message, r.serialization)

/-- `COALESCE(MAX("offset"), -1) + 1`. -/
def nextOffset (db : Db) (workflowId key : String) : ℕ :=
  ((db.streams.select fun k _ ↦ k.1 = workflowId && k.2.1 = key).map fun e ↦ e.1.2.2 + 1).foldl
    max 0

/-- Candidates in the order `priority ASC, created_at ASC`, ties ranked by the plan. -/
def candidates (v : DbView Stmt) (queueName version : String) (partitionKey : Option String) :
    List String :=
  let rows := v.base.workflowStatus.select fun _ r ↦ r.candidate queueName version partitionKey
  let sorted := rows.insertionSort fun a b ↦ a.2.priority < b.2.priority ∨
    a.2.priority = b.2.priority ∧ (a.2.createdAt < b.2.createdAt ∨
      a.2.createdAt = b.2.createdAt ∧
        v.plan (.workflowStatus a.1) ≤ v.plan (.workflowStatus b.1))
  sorted.map Prod.fst

/-- The candidate condition on a locked row. -/
def candidateKey (queueName version : String) (partitionKey : Option String) :
    (k : Key) → Row k → Bool
  | .workflowStatus _ => fun r : WorkflowRow ↦ r.candidate queueName version partitionKey
  | _ => fun _ ↦ false

/-- The workflow ids among keys. -/
def workflowIds (ks : List Key) : List String :=
  ks.filterMap fun k ↦ match k with
    | .workflowStatus w => some w
    | _ => none

/-- Every row that goes with the given workflows: their own and, by `ON DELETE CASCADE`, those that
refer to them. -/
def cascade (db : Db) (ids : List String) : List Key :=
  (db.workflowStatus.select fun w _ ↦ ids.contains w).map (fun e ↦ .workflowStatus e.1) ++
  (db.operationOutputs.select fun k _ ↦ ids.contains k.1).map
    (fun e ↦ .operationOutputs e.1.1 e.1.2) ++
  (db.notifications.select fun _ r ↦ ids.contains r.destinationUuid).map
    (fun e ↦ .notifications e.1) ++
  (db.workflowEvents.select fun k _ ↦ ids.contains k.1).map
    (fun e ↦ .workflowEvents e.1.1 e.1.2) ++
  (db.workflowEventsHistory.select fun k _ ↦ ids.contains k.1).map
    (fun e ↦ .workflowEventsHistory e.1.1 e.1.2.1 e.1.2.2) ++
  (db.streams.select fun k _ ↦ ids.contains k.1).map
    (fun e ↦ .streams e.1.1 e.1.2.1 e.1.2.2)

/-- The workflows a deletion names: those that satisfy its condition in the snapshot and still do.
-/
def deletedIds (v : DbView Stmt) (p : String → WorkflowRow → Bool) : List String :=
  ((v.base.workflowStatus.select p).map Prod.fst).filter fun w ↦ (v.cur.workflow w).any (p w)

/-- Delete every workflow that satisfies `p`. It waits for every open transaction that has written
a row of one of them: by its foreign key that transaction holds the workflow's row. -/
def runDelete (v : DbView Stmt) (p : String → WorkflowRow → Bool) :
    Outcome Key Row SqlError Unit :=
  let ids := deletedIds v p
  if v.others.any fun o ↦ o.new.any fun r ↦ ids.contains (workflowOf o.key r) then .wait
  else .done () ((cascade v.cur ids).map fun k ↦ ⟨k, none⟩)

/-- The operations of a workflow with a step id below `n`. -/
def operationsBelow (db : Db) (workflowId : String) (n : ℤ) : List ((String × ℕ) × OperationRow) :=
  db.operationOutputs.select fun k _ ↦ k.1 = workflowId && (k.2 : ℤ) < n

/-- The event history of a workflow with a step id below `n`. -/
def eventsBelow (db : Db) (workflowId : String) (n : ℤ) :
    List ((String × ℕ × String) × EventRow) :=
  db.workflowEventsHistory.select fun k _ ↦ k.1 = workflowId && (k.2.1 : ℤ) < n

/-- The events set last, key by key, among those with a step id below `n`. -/
def latestEventsBelow (db : Db) (workflowId : String) (n : ℤ) :
    List ((String × ℕ × String) × EventRow) :=
  let history := eventsBelow db workflowId n
  history.filter fun e ↦ history.all fun e' ↦ e'.1.2.2 ≠ e.1.2.2 || e'.1.2.1 ≤ e.1.2.1

/-- The stream entries of a workflow with a step id below `n`. -/
def streamsBelow (db : Db) (workflowId : String) (n : ℤ) :
    List ((String × String × ℕ) × StreamRow) :=
  db.streams.select fun k r ↦ k.1 = workflowId && (r.functionId : ℤ) < n

/-- `INSERT … SELECT` into the rows of a workflow. -/
def runCopy (v : DbView Stmt) (workflowId : String) (rows : List (Σ k : Key, Row k)) :
    Outcome Key Row SqlError Unit :=
  v.insertAll store faults (v.cur.workflow workflowId).isSome rows

/-- The entries of a stream from an offset on, in the order of their offsets. -/
def streamEntries (db : Db) (workflowId key : String) (fromOffset : ℤ) : List StreamEntry :=
  let rows := db.streams.select fun k _ ↦
    k.1 = workflowId && k.2.1 = key && fromOffset ≤ (k.2.2 : ℤ)
  (rows.map fun e ↦ (⟨e.2.value, e.1.2.2, e.2.serialization⟩ : StreamEntry)).insertionSort
    fun a b ↦ a.offset ≤ b.offset

/-- What each statement does. -/
def run (v : DbView Stmt) : (s : Stmt) → Outcome Key Row SqlError s.Res
  | insertWorkflowStatus input => runInsertWorkflowStatus v input
  | deadLetter w =>
    (v.update store faults (.workflowStatus w) (fun r : WorkflowRow ↦ r.status = .pending)
      WorkflowRow.deadLetter).map fun _ ↦ ()
  | updateWorkflowOutcome w status output error now =>
    (v.update store faults (.workflowStatus w) (fun r : WorkflowRow ↦ r.acceptsOutcome status)
      fun r : WorkflowRow ↦ r.recordOutcome status output error now).map fun _ ↦ ()
  | selectAwaitRow w =>
    .read ((v.base.workflow w).map fun r ↦
      ⟨r.status, r.output, r.error, r.recoveryAttempts, r.serialization⟩)
  | listPendingForRecovery executorIds version =>
    .read ((v.base.workflowStatus.select fun _ r ↦ r.recoverable executorIds version).map
      fun e ↦ e.2.toRecoverable e.1)
  | getStatus w => .read ((v.base.workflow w).map WorkflowRow.status)
  | selectOperation w n => .read (v.base.operationOutputs.lookup (w, n))
  | insertOperation w n row =>
    v.insert store faults (.operationOutputs w n) row (v.cur.workflow w).isSome
  | selectChildWorkflowId w n =>
    .read ((v.base.operationOutputs.lookup (w, n)).map OperationRow.childWorkflowId)
  | insertNotification m row =>
    v.insert store faults (.notifications m) row (v.cur.workflow row.destinationUuid).isSome
  | notificationExistsUnconsumed destinationId topic =>
    .read (v.base.notifications.rows.any fun e ↦
      e.2.destinationUuid = destinationId && e.2.topic = topic && !e.2.consumed)
  | consumeOldestNotification destinationId topic =>
    runConsumeOldestNotification v destinationId topic
  | upsertWorkflowEvent w key row =>
    if (v.cur.workflow w).isNone then .fail .foreignKeyViolation
    else (v.upsert store faults (.workflowEvents w key) row fun _ ↦ row).map fun _ ↦ ()
  | insertWorkflowEventHistory w n key row =>
    if (v.cur.workflow w).isNone then .fail .foreignKeyViolation
    else (v.upsert store faults (.workflowEventsHistory w n key) row fun _ ↦ row).map fun _ ↦ ()
  | selectWorkflowEvent w key => .read (v.base.workflowEvents.lookup (w, key))
  | selectStreamClosed w key sentinel =>
    .read (v.base.streams.rows.any fun e ↦
      e.1.1 = w && e.1.2.1 = key && e.2.value = sentinel)
  | insertStream w key row =>
    v.insert store faults (.streams w key (nextOffset v.base w key)) row
      (v.cur.workflow w).isSome
  | selectStreamEntries w key fromOffset => .read (streamEntries v.base w key fromOffset)
  | transitionDelayedWorkflows now =>
    (updateWorkflows v (fun _ r ↦ r.due now) WorkflowRow.promote).map fun _ ↦ ()
  | clearQueueAssignment w =>
    (v.update store faults (.workflowStatus w) WorkflowRow.assigned
      WorkflowRow.clearAssignment).map
        fun r : Option WorkflowRow ↦ if r.isSome then 1 else 0
  | getQueuePartitions queueName =>
    .read ((v.base.workflowStatus.select fun _ r ↦
      r.queueName = some queueName && r.status = .enqueued && r.queuePartitionKey.isSome).filterMap
        fun e ↦ e.2.queuePartitionKey).dedup
  | countRecent queueName partitionKey cutoff =>
    .read (v.base.workflowStatus.count fun _ r ↦ r.startedSince queueName partitionKey cutoff)
  | countPending queueName partitionKey =>
    .read (v.base.workflowStatus.count fun _ r ↦ r.pendingIn queueName partitionKey)
  | selectCandidates queueName version partitionKey mode limit =>
    (v.lockRows store faults mode (candidateKey queueName version partitionKey) limit
      ((candidates v queueName version partitionKey).map .workflowStatus)).map workflowIds
  | claimWorkflow w version executorId now rateLimited =>
    (v.update store faults (.workflowStatus w) (fun r : WorkflowRow ↦ r.status = .enqueued)
      fun r : WorkflowRow ↦ r.claim version executorId now rateLimited).map
        fun r : Option WorkflowRow ↦
          r.map fun r ↦ ⟨r.name, r.inputs, r.serialization, r.configName⟩
  | cancelWorkflows ids now =>
    (updateWorkflows v (fun w r ↦ ids.contains w && r.cancellable) (·.cancel now)).map fun _ ↦
      (v.base.workflowStatus.select fun w _ ↦ ids.contains w).map Prod.fst
  | resumeWorkflows ids queueName now =>
    (updateWorkflows v (fun w r ↦ ids.contains w && r.resumable) (·.resume queueName now)).map
      fun _ ↦ (v.base.workflowStatus.select fun w _ ↦ ids.contains w).map Prod.fst
  | deleteWorkflows ids => runDelete v fun w _ ↦ ids.contains w
  | selectOriginal w => .read ((v.base.workflow w).map WorkflowRow.toOriginal)
  | insertForked w fork => v.insert store faults (.workflowStatus w) fork.row true
  | markForkedFrom w =>
    (v.update store faults (.workflowStatus w) (fun _ ↦ true) WorkflowRow.markForked).map fun _ ↦ ()
  | copyOperations newId originalId n =>
    runCopy v newId ((operationsBelow v.base originalId n).map fun e ↦
      ⟨.operationOutputs newId e.1.2, e.2⟩)
  | copyEventsHistory newId originalId n =>
    runCopy v newId ((eventsBelow v.base originalId n).map fun e ↦
      ⟨.workflowEventsHistory newId e.1.2.1 e.1.2.2, e.2⟩)
  | copyEvents newId originalId n =>
    runCopy v newId ((latestEventsBelow v.base originalId n).map fun e ↦
      ⟨.workflowEvents newId e.1.2.2, e.2⟩)
  | copyStreams newId originalId n =>
    runCopy v newId ((streamsBelow v.base originalId n).map fun e ↦
      ⟨.streams newId e.1.2.1 e.1.2.2, e.2⟩)
  | selectCreatedAt offset =>
    .read ((v.base.workflowStatus.rows.map fun e ↦ e.2.createdAt).insertionSort
      fun a b ↦ b ≤ a)[offset]?
  | collectWorkflows cutoff => runDelete v fun _ r ↦ r.collectable cutoff

end Stmt

end Dbos
