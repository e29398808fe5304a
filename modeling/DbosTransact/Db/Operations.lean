import DbosTransact.Db.Program

/-!
# Operation records, messages, events and streams

The functions of `db/steps.rs`, `db/notifications.rs` and `db/streams.rs`.
-/

namespace Dbos

/-! ### `db/steps.rs` -/

/-- A previously recorded step result. -/
structure RecordedOperation where
  output : Option String
  error : Option String
  serialization : Option String
  deriving DecidableEq, Repr

/-- Look up a step's recorded result. The workflow has to exist and not be cancelled, and the name
recorded has to be the one expected. -/
def checkOperationExecution (workflowId : String) (functionId : ℕ) (expectedStepName : String) :
    DbosM (Option RecordedOperation) := do
  match ← query (.getStatus workflowId) with
  | none => throw (.nonExistentWorkflow workflowId)
  | some .cancelled => throw (.workflowCancelled workflowId)
  | some _ => pure ()
  match ← query (.selectOperation workflowId functionId) with
  | none => return none
  | some row =>
    if row.functionName ≠ expectedStepName then
      throw (.unexpectedStep workflowId functionId expectedStepName row.functionName)
    return some ⟨row.output, row.error, row.serialization⟩

/-- The guard on the status: the workflow exists and is not cancelled. -/
def statusGuard (workflowId : String) : Option WorkflowStatusType → Except DbosError Unit
  | none => .error (.nonExistentWorkflow workflowId)
  | some .cancelled => .error (.workflowCancelled workflowId)
  | some _ => .ok ()

/-- What a row found at a step id stands for. -/
def recordedAt (workflowId : String) (functionId : ℕ) (expectedStepName : String)
    (row : Option OperationRow) : Except DbosError (Option RecordedOperation) :=
  match row with
  | none => .ok none
  | some row =>
    if row.functionName ≠ expectedStepName then
      .error (.unexpectedStep workflowId functionId expectedStepName row.functionName)
    else .ok (some ⟨row.output, row.error, row.serialization⟩)

theorem recordedAt_eq_none {workflowId name : String} {functionId : ℕ}
    {row : Option OperationRow} :
    recordedAt workflowId functionId name row = .ok none ↔ row = none := by
  rcases row with - | row
  · simp [recordedAt]
  · rw [recordedAt]
    split <;> simp

theorem recordedAt_eq_some {workflowId name : String} {functionId : ℕ}
    {row : Option OperationRow} {recorded : RecordedOperation} :
    recordedAt workflowId functionId name row = .ok (some recorded) ↔
      ∃ r, row = some r ∧ r.functionName = name ∧
        recorded = ⟨r.output, r.error, r.serialization⟩ := by
  rcases row with - | row
  · simp [recordedAt]
  · rw [recordedAt]
    split
    · rename_i hne
      simp [hne]
    · rename_i heq
      simp [not_not.1 heq, eq_comm]

/-- The lookup of a step: two statements, and a guard on the result of each. -/
theorem checkOperationExecution_eq (workflowId : String) (functionId : ℕ)
    (expectedStepName : String) :
    checkOperationExecution workflowId functionId expectedStepName =
      query (.getStatus workflowId) >>= fun status ↦
        ofExcept (statusGuard workflowId status) >>= fun _ ↦
          query (.selectOperation workflowId functionId) >>= fun row ↦
            ofExcept (recordedAt workflowId functionId expectedStepName row) := by
  rw [checkOperationExecution]
  refine bind_congr fun status ↦ ?_
  have hrest : (query (.selectOperation workflowId functionId) >>= fun row ↦
      match row with
      | none => (pure none : DbosM (Option RecordedOperation))
      | some row => do
        if row.functionName ≠ expectedStepName then
          throw (.unexpectedStep workflowId functionId expectedStepName row.functionName)
        return some ⟨row.output, row.error, row.serialization⟩) =
      query (.selectOperation workflowId functionId) >>= fun row ↦
        ofExcept (recordedAt workflowId functionId expectedStepName row) := by
    refine bind_congr fun row ↦ ?_
    rcases row with - | row
    · rfl
    · dsimp only [recordedAt]
      split <;> rfl
  rcases status with - | status
  · rfl
  · cases status
    case cancelled => rfl
    all_goals exact hrest

/-- Record a completed operation. A unique violation means that the step id was recorded before. -/
def recordOperationResult (workflowId : String) (functionId : ℕ) (functionName : String)
    (output error childWorkflowId serialization : Option String) : DbosM Unit := do
  let now ← ask .now
  match ← execute (.insertOperation workflowId functionId
      ⟨functionName, output, error, childWorkflowId, some now, some now, serialization⟩) with
  | .ok _ => return
  | .error e =>
    if e.isUniqueViolation then throw (.conflictingId workflowId) else throw (.ofSql e)

/-- Record the parent to child mapping at the reserved step id. -/
def recordChildWorkflow (parentId : String) (functionId : ℕ) (functionName childId : String) :
    DbosM Unit :=
  recordOperationResult parentId functionId functionName none none (some childId) none

/-- The child workflow id recorded at a step, if any. -/
def checkChildWorkflow (parentId : String) (functionId : ℕ) : DbosM (Option String) := do
  return (← query (.selectChildWorkflowId parentId functionId)).join

/-! ### `db/notifications.rs` -/

/-- Insert a message into a destination workflow's mailbox. -/
def insertNotification (destinationId topic message serialization : String) : DbosM Unit := do
  let uuid ← ask .newUuid
  let now ← ask .now
  match ← execute (.insertNotification uuid
      ⟨destinationId, topic, message, now, some serialization, false⟩) with
  | .ok _ => return
  | .error e =>
    if e.isForeignKeyViolation then throw (.nonExistentWorkflow destinationId)
    else throw (.ofSql e)

def notificationExistsUnconsumed (destinationId topic : String) : DbosM Bool :=
  query (.notificationExistsUnconsumed destinationId topic)

/-- Consume the oldest unconsumed message, returning it with its serialization. -/
def consumeOldestNotification (destinationId topic : String) :
    DbosM (Option (String × Option String)) :=
  query (.consumeOldestNotification destinationId topic)

def upsertWorkflowEvent (workflowId key value serialization : String) : DbosM Unit :=
  query (.upsertWorkflowEvent workflowId key ⟨value, some serialization⟩)

def insertWorkflowEventHistory (workflowId : String) (functionId : ℕ)
    (key value serialization : String) : DbosM Unit :=
  query (.insertWorkflowEventHistory workflowId functionId key ⟨value, some serialization⟩)

def selectWorkflowEvent (targetWorkflowId key : String) :
    DbosM (Option (String × Option String)) := do
  return (← query (.selectWorkflowEvent targetWorkflowId key)).map fun r ↦
    (r.value, r.serialization)

/-! ### `db/streams.rs` -/

/-- Stored in `streams.value` to mark a stream closed. -/
def streamClosedSentinel : String := "__DBOS_STREAM_CLOSED__"

/-- Append an entry to a stream at the next offset of its key, unless the stream is closed. -/
def writeStreamEntry (workflowId : String) (functionId : ℕ) (key value : String)
    (serialization : Option String) : DbosM Unit := do
  if ← query (.selectStreamClosed workflowId key streamClosedSentinel) then
    throw (.other s!"stream '{key}' is already closed")
  else query (.insertStream workflowId key ⟨value, functionId, serialization⟩)

/-- The entries before the closing sentinel, and whether it was seen. -/
def beforeSentinel : List StreamEntry → List StreamEntry × Bool
  | [] => ([], false)
  | e :: rest =>
    if e.value = streamClosedSentinel then ([], true)
    else ((e :: (beforeSentinel rest).1), (beforeSentinel rest).2)

/-- Read all entries of a stream from an offset on. -/
def readStreamEntries (workflowId key : String) (fromOffset : ℤ) :
    DbosM (List StreamEntry × Bool) := do
  return beforeSentinel (← query (.selectStreamEntries workflowId key fromOffset))

section

variable [SerdeJson] (T : Type) [Serde T]

/-- Decode the entries one by one. -/
def decodeEntries : List StreamEntry → Except DbosError (List T)
  | [] => .ok []
  | e :: rest => do
    let v ← decodeValue T (some e.value) e.serialization
    return v :: (← decodeEntries rest)

/-- Read a stream until it is closed or its producer is inactive: neither `PENDING` nor `ENQUEUED`.
The function waits for ever; `n` is the number of rounds the caller stays for, and `none` is the
answer of a caller that left. -/
def readStreamBlocking (workflowId key : String) (snapshot : Bool) :
    ℕ → ℤ → List T → DbosM (Option (List T × Bool))
  | 0, _, _ => return none
  | n + 1, current, values => do
    let (entries, closed) ← readStreamEntries workflowId key current
    let values := values ++ (← ofExcept (decodeEntries T entries))
    let current := entries.getLast?.elim current fun e ↦ asI32 ((e.offset : ℤ) + 1)
    if closed then return some (values, true)
    if snapshot then return some (values, false)
    match ← query (.getStatus workflowId) with
    | none => throw (.nonExistentWorkflow workflowId)
    | some status =>
      if status ≠ .pending && status ≠ .enqueued then return some (values, true)
      readStreamBlocking workflowId key snapshot n current values

/-- Decode the entries one by one, up to the first that does not decode. -/
def decodeWhile : List StreamEntry → List T × Option DbosError
  | [] => ([], none)
  | e :: rest =>
    match decodeValue T (some e.value) e.serialization with
    | .ok v => (v :: (decodeWhile rest).1, (decodeWhile rest).2)
    | .error err => ([], some err)

/-- The task of `read_stream_async`: the values it sends before the channel is closed, and the error
it sends last, if there is one. Again `n` is the number of rounds the receiver stays for. -/
def readStreamAsync (workflowId key : String) :
    ℕ → ℤ → List T → DbosM (Option (List T × Option DbosError))
  | 0, _, _ => return none
  | n + 1, current, values => do
    match ← attempt (readStreamEntries workflowId key current) with
    | .error e => return some (values, some e)
    | .ok (entries, closed) =>
      let values := values ++ (decodeWhile T entries).1
      match (decodeWhile T entries).2 with
      | some e => return some (values, some e)
      | none =>
        let current := entries.getLast?.elim current fun e ↦ asI32 ((e.offset : ℤ) + 1)
        if closed then return some (values, none)
        match ← attempt (query (.getStatus workflowId)) with
        | .error e => return some (values, some e)
        | .ok none => return some (values, some (.nonExistentWorkflow workflowId))
        | .ok (some status) =>
          if status ≠ .pending && status ≠ .enqueued then return some (values, none)
          readStreamAsync workflowId key n current values

end

end Dbos
