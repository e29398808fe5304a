import DbosTransact.Db.Operations
import DbosTransact.Db.Workflows

/-!
# Starting, enqueueing, recovering and dispatching workflows

The functions of `runtime/workflow.rs`, `runtime/recovery.rs` and `runtime/queue.rs` that insert
workflow rows and spawn the tasks that run bodies, and of `client.rs` that enqueue from outside.

A body is not part of these functions: a spawned `Task` is recorded by the question `Ask.spawn`, and
`recordOutcome` is what the task does once its body has returned.
-/

namespace Dbos

open Txn

/-- A registered workflow. -/
structure RegistryEntry where
  maxRetries : ℤ
  className : Option String := none
  configName : Option String := none
  deriving DecidableEq, Repr

/-- The configuration of one running executor. -/
structure DbosInner where
  executorId : String
  applicationVersion : String
  applicationId : Option String := none
  registry : String → Option RegistryEntry

/-- Options of `run_workflow`. -/
structure WorkflowOptions where
  workflowId : Option String := none
  applicationVersion : Option String := none
  authenticatedUser : Option String := none
  assumedRole : Option String := none
  authenticatedRoles : Option (List String) := none
  deriving DecidableEq, Repr

/-- Options of `enqueue`; the delay is in milliseconds. -/
structure EnqueueOptions where
  workflowId : Option String := none
  deduplicationId : Option String := none
  priority : Option ℤ := none
  queuePartitionKey : Option String := none
  delay : Option ℕ := none
  applicationVersion : Option String := none
  deriving DecidableEq, Repr

/-- The workflow a child is started from: its id and identity. -/
structure WorkflowState where
  workflowId : String
  auth : AuthIdentity := {}
  deriving DecidableEq, Repr

/-- Whether a handle waits on the running task or reads the database. -/
inductive HandleKind
  | owned
  | polling
  deriving DecidableEq, Repr

/-- A handle to a workflow. -/
structure WorkflowHandle where
  id : String
  kind : HandleKind
  deriving DecidableEq, Repr

/-- The identity of a workflow: the options', else the parent's. -/
def resolveAuth (opts : WorkflowOptions) (parent : Option (WorkflowState × ℕ)) : AuthIdentity where
  user := opts.authenticatedUser.or (parent.bind fun p ↦ p.1.auth.user)
  role := opts.assumedRole.or (parent.bind fun p ↦ p.1.auth.role)
  roles := opts.authenticatedRoles.getD ((parent.map fun p ↦ p.1.auth.roles).getD [])

/-- The strings of a JSON array, if it is one of strings. -/
def jsonStrings : List Json → Option (List String)
  | [] => some []
  | .string s :: rest => (jsonStrings rest).map (s :: ·)
  | _ :: _ => none

/-- The id of a child: the given one, else `{parent}-{step}`. -/
def childId (opts : WorkflowOptions) (p : String) (n : ℕ) : String :=
  opts.workflowId.getD s!"{p}-{n}"

/-- The id of a workflow to start: the given one, else the child id `{parent}-{step}`, else new. -/
def startId (opts : WorkflowOptions) (parent : Option (WorkflowState × ℕ)) : DbosM String :=
  match opts.workflowId, parent with
  | some id, _ => return id
  | none, some (pstate, stepId) => return s!"{pstate.workflowId}-{stepId}"
  | none, none => ask .newUuid

theorem startId_child (opts : WorkflowOptions) (state : WorkflowState) (n : ℕ) :
    startId opts (some (state, n)) = pure (childId opts state.workflowId n) := by
  unfold startId childId
  cases opts.workflowId <;> rfl

/-- Whether a start only returns a polling handle: the workflow has an outcome, or, unless this is a
recovery, another call inserted the row. -/
def shouldSkip (res : InsertResult) (isRecovery : Bool) (ownerXid : String) : Bool :=
  res.status = .success || res.status = .error || (!isRecovery && res.ownerXid ≠ some ownerXid)

section

variable [SerdeJson]

/-- The `authenticated_roles` column: absent for no roles, else a JSON array. -/
def encodeRoles (roles : List String) : Option String :=
  if roles.isEmpty then none else some (SerdeJson.toString (.array (roles.map .string)))

/-- `serde_json::from_str::<Vec<String>>(s).ok()`. -/
def decodeRoles (s : String) : Option (List String) :=
  match SerdeJson.fromStr s with
  | .ok (.array items) => jsonStrings items
  | _ => none

/-- The row inserted by `start_workflow`. -/
def startInput (inner : DbosInner) (entry : RegistryEntry) (name workflowId ownerXid : String)
    (encodedInput : Option String) (opts : WorkflowOptions) (parent : Option (WorkflowState × ℕ))
    (fmt : Format) (isRecovery : Bool) (now : ℤ) : InsertWorkflowInput :=
  let auth := resolveAuth opts parent
  { workflowId := workflowId
    status := .pending
    name := name
    executorId := inner.executorId
    applicationVersion := some (opts.applicationVersion.getD inner.applicationVersion)
    applicationId := inner.applicationId
    createdAt := now
    updatedAt := now
    recoveryAttempts := 1
    inputs := encodedInput
    priority := 0
    ownerXid := ownerXid
    parentWorkflowId := parent.map fun p ↦ p.1.workflowId
    className := entry.className
    configName := entry.configName
    serialization := some fmt.name
    authenticatedUser := auth.user
    assumedRole := auth.role
    authenticatedRoles := encodeRoles auth.roles
    increment := if isRecovery then 1 else 0 }

/-- Insert the workflow row, decide idempotency, and unless skipped spawn the body. Returns an owned
handle if this call runs the body, else a polling handle. -/
def startWorkflow (inner : DbosInner) (name : String) (encodedInput : Option String)
    (opts : WorkflowOptions) (parent : Option (WorkflowState × ℕ)) (fmt : Format)
    (isRecovery : Bool) : DbosM WorkflowHandle :=
  match inner.registry name with
  | none => throw (.other s!"workflow {name} is not registered")
  | some entry => do
    let workflowId ← startId opts parent
    let now ← ask .now
    let ownerXid ← ask .newUuid
    let input := startInput inner entry name workflowId ownerXid encodedInput opts parent fmt
      isRecovery now
    let skip ← transaction do
      let res ← insertWorkflowStatus input entry.maxRetries
      if res.dlqTriggered then
        commitTx
        throw (.deadLetterQueue workflowId entry.maxRetries)
      match parent with
      | some (pstate, stepId) => recordChildWorkflow pstate.workflowId stepId name workflowId
      | none => pure ()
      commitTx
      return shouldSkip res isRecovery ownerXid
    if skip then return ⟨workflowId, .polling⟩
    ask (.spawn ⟨workflowId, name, encodedInput, fmt, resolveAuth opts parent⟩)
    return ⟨workflowId, .owned⟩

/-- The columns written for the result of a body: the status, the output, and the error text. -/
def outcomeColumns (fmt : Format) (result : Except DbosError String) :
    WorkflowStatusType × Option String × Option String :=
  match result with
  | .ok out => (.success, some out, none)
  | .error e => (.error, none, some (serializeWorkflowError e.display none fmt))

/-- What a task does with the result of its body: an error of the write is ignored. -/
def recordOutcome (workflowId : String) (fmt : Format) (result : Except DbosError String) :
    DbosM Unit := do
  let (status, output, error) := outcomeColumns fmt result
  let _ ← attempt (updateWorkflowOutcome workflowId status output error)

end

/-! ### `WorkflowHandle::get_result` -/

section

variable [SerdeJson] (R : Type) [Serde R]

/-- The result a polled outcome stands for. The limit of a dead-lettered workflow is read off its
attempts. -/
def AwaitOutcome.result (workflowId : String) : AwaitOutcome → Except DbosError R
  | .success output serialization => decodeValue R output serialization
  | .error err serialization =>
    .error (match deserializeWorkflowError err serialization with
      | some (.plain s) => .other s
      | some (.portable pe) => .other pe.message
      | none => .other "workflow failed")
  | .cancelled => .error (.awaitedWorkflowCancelled workflowId)
  | .deadLetter attempts => .error (.deadLetterQueue workflowId (attempts - 2))

/-- The result an owned handle gets from the value its task sent. -/
def sentResult (sent : Except DbosError String) : Except DbosError R :=
  match sent with
  | .ok encoded => decodeValue R (some encoded) (some Format.portable.name)
  | .error e => .error e

/-- Await the result: an owned handle takes the value its task sent, if it sent one; otherwise the
row is polled, `polls` times at most. -/
def getResult (handle : WorkflowHandle) (sent : Option (Except DbosError String)) (polls : ℕ) :
    DbosM (Option R) :=
  match handle.kind, sent with
  | .owned, some sent => ofExcept ((sentResult R sent).map some)
  | _, _ => do
    match ← awaitWorkflowResult handle.id polls with
    | none => return none
    | some outcome => ofExcept ((outcome.result R handle.id).map some)

end

/-- The status an enqueue inserts. -/
def enqueueStatus (delay : Option ℕ) : WorkflowStatusType :=
  if delay.isSome then .delayed else .enqueued

/-- The insert of an enqueue: a unique violation is a duplicate deduplication id. -/
def enqueueInsert (input : InsertWorkflowInput) (maxRetries : ℤ) (queueName : String)
    (deduplicationId : Option String) : DbosM WorkflowHandle :=
  transaction do
    match ← attempt (insertWorkflowStatus input maxRetries) with
    | .ok _ =>
      commitTx
      return ⟨input.workflowId, .polling⟩
    | .error e =>
      if e.isDbUniqueViolation then
        throw (.queueDeduplicated input.workflowId queueName (deduplicationId.getD ""))
      else throw e

/-- Enqueue a registered workflow onto a queue. -/
def enqueueWorkflow (inner : DbosInner) (queueName name : String) (encodedInput : Option String)
    (opts : EnqueueOptions) : DbosM WorkflowHandle :=
  match inner.registry name with
  | none => throw (.other s!"workflow {name} is not registered")
  | some entry => do
    let workflowId ← match opts.workflowId with
      | some id => pure id
      | none => ask .newUuid
    let now ← ask .now
    let ownerXid ← ask .newUuid
    let input : InsertWorkflowInput :=
      { workflowId := workflowId
        status := enqueueStatus opts.delay
        name := name
        queueName := some queueName
        executorId := inner.executorId
        applicationVersion := some (opts.applicationVersion.getD inner.applicationVersion)
        applicationId := inner.applicationId
        createdAt := now
        updatedAt := now
        recoveryAttempts := 0
        inputs := encodedInput
        priority := opts.priority.getD 0
        deduplicationId := opts.deduplicationId
        queuePartitionKey := opts.queuePartitionKey
        delayUntilEpochMs := opts.delay.map fun d ↦ asI64 (now + asI64 d)
        ownerXid := ownerXid
        serialization := some Format.portable.name
        className := entry.className
        configName := entry.configName
        increment := 0 }
    enqueueInsert input entry.maxRetries queueName opts.deduplicationId

/-- `Client::enqueue`: enqueue from outside, with no registry and a fixed retry limit. -/
def clientEnqueue (queueName workflowName encoded : String) (opts : EnqueueOptions) :
    DbosM WorkflowHandle := do
  let workflowId ← match opts.workflowId with
    | some id => pure id
    | none => ask .newUuid
  let now ← ask .now
  let ownerXid ← ask .newUuid
  let input : InsertWorkflowInput :=
    { workflowId := workflowId
      status := enqueueStatus opts.delay
      name := workflowName
      queueName := some queueName
      applicationVersion := opts.applicationVersion
      createdAt := now
      updatedAt := now
      recoveryAttempts := 0
      inputs := some encoded
      priority := opts.priority.getD 0
      deduplicationId := opts.deduplicationId
      queuePartitionKey := opts.queuePartitionKey
      delayUntilEpochMs := opts.delay.map fun d ↦ asI64 (now + asI64 d)
      ownerXid := ownerXid
      serialization := some Format.portable.name
      increment := 0 }
  enqueueInsert input 100 queueName opts.deduplicationId

/-! ### `runtime/recovery.rs` -/

section

variable [SerdeJson]

/-- The options a recovered workflow is started with. -/
def recoveryOptions (wf : RecoverableWorkflow) : WorkflowOptions where
  workflowId := some wf.id
  authenticatedUser := wf.authenticatedUser
  assumedRole := wf.assumedRole
  authenticatedRoles := wf.authenticatedRoles.bind decodeRoles

/-- One round of the recovery loop: whether the workflow was re-enqueued or re-launched. Errors are
logged and the loop goes on. -/
def recoverWorkflow (inner : DbosInner) (wf : RecoverableWorkflow) : DbosM Bool := do
  if wf.queueName.isSome then
    match ← attempt (clearQueueAssignment wf.id) with
    | .ok reset => return reset
    | .error _ => return false
  else if (inner.registry wf.name).isNone then return false
  else
    match ← attempt (startWorkflow inner wf.name wf.inputs (recoveryOptions wf) none
        (Format.fromName wf.serialization) true) with
    | .ok _ => return true
    | .error _ => return false

/-- The recovery loop. -/
def recoverEach (inner : DbosInner) : List RecoverableWorkflow → DbosM (List String)
  | [] => return []
  | wf :: rest => do
    let recovered ← recoverWorkflow inner wf
    let ids ← recoverEach inner rest
    return if recovered then wf.id :: ids else ids

/-- Recover every `PENDING` workflow owned by one of `executorIds` at this application version;
returns the ids re-launched or re-enqueued. -/
def recoverPendingWorkflows (inner : DbosInner) (executorIds : List String) :
    DbosM (List String) := do
  recoverEach inner (← listPendingForRecovery executorIds inner.applicationVersion)

end

/-! ### `runtime/queue.rs` -/

/-- Spawn the body of a claimed workflow, if it is registered here. -/
def dispatchDequeued (inner : DbosInner) (wf : DequeuedWorkflow) : DbosM Unit :=
  match inner.registry wf.name with
  | none => return
  | some _ => ask (.spawn ⟨wf.id, wf.name, wf.inputs, Format.fromName wf.serialization, {}⟩)

def dispatchEach (inner : DbosInner) : List DequeuedWorkflow → DbosM Unit
  | [] => return
  | wf :: rest => do
    dispatchDequeued inner wf
    dispatchEach inner rest

/-- One round of `run_queue` for one partition: claim workflows and dispatch them. -/
def pollQueue (inner : DbosInner) (queue : DequeueInput) : DbosM Unit := do
  let claimed ← dequeueWorkflows
    { queue with
      executorId := inner.executorId
      applicationVersion := inner.applicationVersion }
  dispatchEach inner claimed

end Dbos
