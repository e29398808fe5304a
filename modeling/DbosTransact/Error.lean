import Mathlib.Data.Int.Notation
import Mathlib.Data.Nat.Notation

/-!
# The error taxonomy

`DbosError` carries a numeric code, a message, the context fields a constructor fills in, and the
database error it wraps, if it wraps one. What a caller sees of it is its `Display` text: the
message alone for an uncoded error, `DBOS Error <code>: <message>` otherwise.

A database error is what the driver reports: an SQLSTATE, if the server sent one, and a text.
-/

namespace Dbos

/-- An error reported by the database driver (`sqlx::Error`). -/
structure SqlError where
  sqlstate : Option String
  message : String
  deriving DecidableEq, Repr

namespace SqlError

/-- `23505 unique_violation`. -/
def isUniqueViolation (e : SqlError) : Bool := e.sqlstate = some "23505"

/-- `23503 foreign_key_violation`. -/
def isForeignKeyViolation (e : SqlError) : Bool := e.sqlstate = some "23503"

/-- A row with this key exists already. -/
def uniqueViolation : SqlError :=
  ⟨some "23505", "duplicate key value violates unique constraint"⟩

/-- The row referred to does not exist. -/
def foreignKeyViolation : SqlError :=
  ⟨some "23503", "insert or update on table violates foreign key constraint"⟩

/-- A row this repeatable-read transaction needs has changed since its snapshot. -/
def serializationFailure : SqlError :=
  ⟨some "40001", "could not serialize access due to concurrent update"⟩

/-- `NOWAIT` met a locked row. -/
def lockNotAvailable : SqlError :=
  ⟨some "55P03", "could not obtain lock on row"⟩

/-- The transaction has failed already. -/
def inFailedTransaction : SqlError :=
  ⟨some "25P02", "current transaction is aborted, commands ignored until end of transaction block"⟩

end SqlError

/-- Programmatic error codes; `unspecified` is used for wrapped infrastructure errors. -/
inductive DbosErrorCode
  | unspecified
  | conflictingId
  | initialization
  | nonExistentWorkflow
  | conflictingWorkflow
  | workflowCancelled
  | unexpectedStep
  | awaitedWorkflowCancelled
  | conflictingRegistration
  | workflowUnexpectedType
  | workflowExecution
  | stepExecution
  | deadLetterQueue
  | maxStepRetriesExceeded
  | queueDeduplicated
  | patchingNotEnabled
  | timeout
  | noApplicationVersions
  deriving DecidableEq, Repr

namespace DbosErrorCode

def asI32 : DbosErrorCode → ℕ
  | unspecified => 0
  | conflictingId => 1
  | initialization => 2
  | nonExistentWorkflow => 3
  | conflictingWorkflow => 4
  | workflowCancelled => 5
  | unexpectedStep => 6
  | awaitedWorkflowCancelled => 7
  | conflictingRegistration => 8
  | workflowUnexpectedType => 9
  | workflowExecution => 10
  | stepExecution => 11
  | deadLetterQueue => 12
  | maxStepRetriesExceeded => 13
  | queueDeduplicated => 14
  | patchingNotEnabled => 15
  | timeout => 16
  | noApplicationVersions => 17

end DbosErrorCode

/-- The rarely filled context fields of an error. -/
structure ErrorContext where
  workflowId : Option String := none
  destinationId : Option String := none
  stepName : Option String := none
  queueName : Option String := none
  deduplicationId : Option String := none
  stepId : Option ℕ := none
  expectedName : Option String := none
  recordedName : Option String := none
  maxRetries : Option ℤ := none
  deriving DecidableEq, Repr

/-- The crate-wide error. -/
structure DbosError where
  code : DbosErrorCode
  message : String
  context : ErrorContext := {}
  source : Option SqlError := none
  deriving DecidableEq, Repr

namespace DbosError

/-- `impl Display for DbosError`. -/
def display (e : DbosError) : String :=
  match e.code with
  | .unspecified => e.message
  | code => s!"DBOS Error {code.asI32}: {e.message}"

/-- Whether the error has this code; code `0` never matches. -/
def is (e : DbosError) (code : DbosErrorCode) : Bool :=
  code ≠ .unspecified && e.code = code

/-- Whether the error wraps a unique-constraint violation. -/
def isDbUniqueViolation (e : DbosError) : Bool :=
  e.source.any SqlError.isUniqueViolation

def conflictingId (workflowId : String) : DbosError where
  code := .conflictingId
  message := s!"Conflicting workflow ID {workflowId}"
  context := { workflowId := some workflowId }

def nonExistentWorkflow (workflowId : String) : DbosError where
  code := .nonExistentWorkflow
  message := s!"workflow {workflowId} does not exist"
  context := { destinationId := some workflowId }

def conflictingWorkflow (workflowId detail : String) : DbosError where
  code := .conflictingWorkflow
  message :=
    let message := s!"Conflicting workflow invocation with the same ID ({workflowId})"
    if detail.isEmpty then message else message ++ ": " ++ detail
  context := { workflowId := some workflowId }

def workflowCancelled (workflowId : String) : DbosError where
  code := .workflowCancelled
  message := s!"Workflow {workflowId} was cancelled"

def unexpectedStep (workflowId : String) (stepId : ℕ) (expectedName recordedName : String) :
    DbosError where
  code := .unexpectedStep
  message := s!"During execution of workflow {workflowId} step {stepId}, " ++
    s!"function {recordedName} was recorded when {expectedName} was expected. " ++
    "Check that your workflow is deterministic."
  context := { workflowId := some workflowId, stepId := some stepId,
               expectedName := some expectedName, recordedName := some recordedName }

def awaitedWorkflowCancelled (workflowId : String) : DbosError where
  code := .awaitedWorkflowCancelled
  message := s!"Awaited workflow {workflowId} was cancelled"
  context := { workflowId := some workflowId }

def stepExecution (workflowId stepName err : String) : DbosError where
  code := .stepExecution
  message := s!"Step {stepName} in workflow {workflowId} execution error: {err}"
  context := { workflowId := some workflowId, stepName := some stepName }

def deadLetterQueue (workflowId : String) (maxRetries : ℤ) : DbosError where
  code := .deadLetterQueue
  message := s!"Workflow {workflowId} has been moved to the dead-letter queue " ++
    s!"after exceeding the maximum of {maxRetries} retries"
  context := { workflowId := some workflowId, maxRetries := some maxRetries }

def maxStepRetriesExceeded (workflowId stepName : String) (maxRetries : ℤ) (err : String) :
    DbosError where
  code := .maxStepRetriesExceeded
  message := s!"Step {stepName} has exceeded its maximum of {maxRetries} retries: {err}"
  context := { workflowId := some workflowId, stepName := some stepName,
               maxRetries := some maxRetries }

def queueDeduplicated (workflowId queueName deduplicationId : String) : DbosError where
  code := .queueDeduplicated
  message := s!"Workflow {workflowId} was deduplicated due to an existing workflow in queue " ++
    s!"{queueName} with deduplication ID {deduplicationId}"
  context := { workflowId := some workflowId, queueName := some queueName,
               deduplicationId := some deduplicationId }

/-- An uncoded error carrying a message. -/
def other (message : String) : DbosError where
  code := .unspecified
  message := message

/-- `impl From<sqlx::Error> for DbosError`. -/
def ofSql (e : SqlError) : DbosError where
  code := .unspecified
  message := s!"database error: {e.message}"
  source := some e

/-- `impl From<serde_json::Error> for DbosError`. -/
def ofSerde (e : String) : DbosError where
  code := .unspecified
  message := s!"serialization error: {e}"

/-- `impl From<base64::DecodeError> for DbosError`. -/
def ofBase64 (e : String) : DbosError where
  code := .unspecified
  message := s!"base64 decode error: {e}"

/-- An uncoded error displays as its message, whatever else it carries. -/
@[simp] theorem display_other (message : String) : (other message).display = message := rfl

end DbosError

end Dbos
