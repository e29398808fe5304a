import DbosTransact.Error
import DbosTransact.Foundation.Program
import DbosTransact.Foundation.Table

/-!
# The system database

The tables the runtime keeps its state in, with the columns its code reads and writes and the
primary keys of the migrations. Nullable columns are options; `BIGINT` columns are integers, and
`INTEGER` step ids and stream offsets, which count up from zero, are naturals. The `status` column
holds the names of `WorkflowStatusType` and nothing else, so it is that type here.

`Key` names one row of one table, and `store` is the database seen as rows under keys.
-/

namespace Dbos

/-- The `workflow_status.status` value. -/
inductive WorkflowStatusType
  | pending
  | enqueued
  | delayed
  | success
  | error
  | cancelled
  | maxRecoveryAttemptsExceeded
  deriving DecidableEq, Repr

namespace WorkflowStatusType

def asStr : WorkflowStatusType → String
  | pending => "PENDING"
  | enqueued => "ENQUEUED"
  | delayed => "DELAYED"
  | success => "SUCCESS"
  | error => "ERROR"
  | cancelled => "CANCELLED"
  | maxRecoveryAttemptsExceeded => "MAX_RECOVERY_ATTEMPTS_EXCEEDED"

def isTerminal : WorkflowStatusType → Bool
  | success | error | cancelled | maxRecoveryAttemptsExceeded => true
  | _ => false

/-- The two statuses of a recorded outcome. -/
def isOutcome : WorkflowStatusType → Bool
  | success | error => true
  | _ => false

end WorkflowStatusType

/-- A row of `workflow_status`. -/
structure WorkflowRow where
  status : WorkflowStatusType
  name : String
  authenticatedUser : Option String
  assumedRole : Option String
  authenticatedRoles : Option String
  output : Option String
  error : Option String
  executorId : Option String
  createdAt : ℤ
  updatedAt : ℤ
  applicationVersion : Option String
  applicationId : Option String
  className : Option String
  configName : Option String
  recoveryAttempts : ℤ
  queueName : Option String
  workflowTimeoutMs : Option ℤ
  workflowDeadlineEpochMs : Option ℤ
  inputs : Option String
  startedAtEpochMs : Option ℤ
  deduplicationId : Option String
  priority : ℤ
  queuePartitionKey : Option String
  ownerXid : Option String
  parentWorkflowId : Option String
  serialization : Option String
  delayUntilEpochMs : Option ℤ
  rateLimited : Bool
  completedAt : Option ℤ
  forkedFrom : Option String := none
  wasForkedFrom : Bool := false
  deriving DecidableEq, Repr

/-- A row of `operation_outputs`. -/
structure OperationRow where
  functionName : String
  output : Option String
  error : Option String
  childWorkflowId : Option String
  startedAtEpochMs : Option ℤ
  completedAtEpochMs : Option ℤ
  serialization : Option String
  deriving DecidableEq, Repr

/-- A row of `notifications`. -/
structure NotificationRow where
  destinationUuid : String
  topic : String
  message : String
  createdAtEpochMs : ℤ
  serialization : Option String
  consumed : Bool
  deriving DecidableEq, Repr

/-- A row of `workflow_events` or of `workflow_events_history`. -/
structure EventRow where
  value : String
  serialization : Option String
  deriving DecidableEq, Repr

/-- A row of `streams`. -/
structure StreamRow where
  value : String
  functionId : ℕ
  serialization : Option String
  deriving DecidableEq, Repr

/-- One row of one table. -/
inductive Key
  | workflowStatus (workflowUuid : String)
  | operationOutputs (workflowUuid : String) (functionId : ℕ)
  | notifications (messageUuid : String)
  | workflowEvents (workflowUuid key : String)
  | workflowEventsHistory (workflowUuid : String) (functionId : ℕ) (key : String)
  | streams (workflowUuid key : String) (offset : ℕ)
  deriving DecidableEq, Repr

/-- The type of the row under a key. -/
abbrev Row : Key → Type
  | .workflowStatus _ => WorkflowRow
  | .operationOutputs _ _ => OperationRow
  | .notifications _ => NotificationRow
  | .workflowEvents _ _ => EventRow
  | .workflowEventsHistory _ _ _ => EventRow
  | .streams _ _ _ => StreamRow

instance (k : Key) : DecidableEq (Row k) := by
  cases k <;> infer_instance

/-- The workflow a row belongs to. -/
def workflowOf : (k : Key) → Row k → String
  | .workflowStatus w, _ => w
  | .operationOutputs w _, _ => w
  | .notifications _, (r : NotificationRow) => r.destinationUuid
  | .workflowEvents w _, _ => w
  | .workflowEventsHistory w _ _, _ => w
  | .streams w _ _, _ => w

/-- The system database. -/
structure Db where
  workflowStatus : Table String WorkflowRow := ∅
  operationOutputs : Table (String × ℕ) OperationRow := ∅
  notifications : Table String NotificationRow := ∅
  workflowEvents : Table (String × String) EventRow := ∅
  workflowEventsHistory : Table (String × ℕ × String) EventRow := ∅
  streams : Table (String × String × ℕ) StreamRow := ∅

namespace Db

/-- The row under a key. -/
def look (db : Db) : (k : Key) → Option (Row k)
  | .workflowStatus w => db.workflowStatus.lookup w
  | .operationOutputs w n => db.operationOutputs.lookup (w, n)
  | .notifications m => db.notifications.lookup m
  | .workflowEvents w k => db.workflowEvents.lookup (w, k)
  | .workflowEventsHistory w n k => db.workflowEventsHistory.lookup (w, n, k)
  | .streams w k i => db.streams.lookup (w, k, i)

/-- Replace the row under a key. -/
def put (db : Db) : (k : Key) → Option (Row k) → Db
  | .workflowStatus w, r => { db with workflowStatus := db.workflowStatus.set w r }
  | .operationOutputs w n, r => { db with operationOutputs := db.operationOutputs.set (w, n) r }
  | .notifications m, r => { db with notifications := db.notifications.set m r }
  | .workflowEvents w k, r => { db with workflowEvents := db.workflowEvents.set (w, k) r }
  | .workflowEventsHistory w n k, r =>
    { db with workflowEventsHistory := db.workflowEventsHistory.set (w, n, k) r }
  | .streams w k i, r => { db with streams := db.streams.set (w, k, i) r }

/-- The row of a workflow. -/
def workflow (db : Db) (workflowId : String) : Option WorkflowRow :=
  db.workflowStatus.lookup workflowId

theorem look_put_self (db : Db) (k : Key) (r : Option (Row k)) : (db.put k r).look k = r := by
  cases k <;> exact Table.lookup_set_self ..

theorem look_put_of_ne (db : Db) (k : Key) (r : Option (Row k)) (k' : Key) (h : k' ≠ k) :
    (db.put k r).look k' = db.look k' := by
  cases k <;> cases k' <;> try rfl
  all_goals
    refine Table.lookup_set_of_ne _ _ fun heq ↦ h ?_
    simp_all

end Db

/-- The system database as rows under keys. -/
def store : Txn.Store Db Key Row where
  look := Db.look
  put := Db.put
  look_put_self := Db.look_put_self
  look_put_of_ne := Db.look_put_of_ne

end Dbos
