import DbosTransact.Runtime.Workflow

/-!
# The durable calls of a body

The functions of `runtime/context.rs` and `runtime/step.rs`: what a workflow body can ask of its
`WorkflowContext`. Each of them takes one or two step ids off the counter of the running workflow
before it does anything else; here the first of them is an argument, and the second is the next
number. A call looks up whether its step id is recorded already, does its work, and records it.

A call within a step is refused, except that a nested step runs inline. Timing is left to the
surroundings: a waiting loop asks how often it will wake up, and back-off between two attempts of a
step is no step of the program.

An `Invocation` is one durable call as data, with the codecs of its payloads, and a `Reply` what the
body gets for it.
-/

namespace Dbos

open Txn

/-- Handle passed to a workflow body. -/
structure WorkflowContext where
  inner : DbosInner
  state : WorkflowState
  /-- Inside a step body, where a nested step runs inline. -/
  withinStep : Bool := false

/-- `i64` as a payload. -/
instance : Serde ℤ where
  toValue n := .ok (.number (.int n))
  fromValue
    | .number (.int n) => if asI64 n = n then .ok n else .error "number out of range"
    | _ => .error "invalid type, expected i64"

/-- `()` as a payload. -/
instance : Serde Unit where
  toValue _ := .ok .null
  fromValue
    | .null => .ok ()
    | _ => .error "invalid type, expected unit"

section

variable [SerdeJson]

/-! ### `runtime/step.rs` -/

/-- A step error from its stored form. -/
def decodedStepError (err : String) (serialization : Option String) : DbosError :=
  match deserializeWorkflowError (some err) serialization with
  | some (.plain s) => .other s
  | some (.portable pe) => .other pe.message
  | none => .other "step failed"

/-- The attempts after the first one, with the errors so far. -/
def retryStep {R : Type} (run : DbosM (Except DbosError R)) (stepName workflowId : String)
    (maxRetries : ℕ) : ℕ → List String → DbosM (Except DbosError R)
  | 0, errors =>
    return .error (.maxStepRetriesExceeded workflowId stepName maxRetries ("\n".intercalate errors))
  | n + 1, errors => do
    match ← run with
    | .ok v => return .ok v
    | .error e => retryStep run stepName workflowId maxRetries n (errors ++ [e.display])

/-- Run a step body, retrying on error. Without retries the first error is returned as it is. -/
def executeStepWithRetry {R : Type} (run : DbosM (Except DbosError R))
    (stepName workflowId : String) (maxRetries : ℕ) : DbosM (Except DbosError R) := do
  match ← run with
  | .ok v => return .ok v
  | .error e =>
    if maxRetries = 0 then return .error e
    else retryStep run stepName workflowId maxRetries maxRetries [e.display]

/-! ### `runtime/context.rs` -/

/-- Run the closure of a step once. -/
def runClosure {R : Type} (workflowId : String) (stepId : ℕ) (closure : ℕ → Except DbosError R) :
    DbosM (Except DbosError R) :=
  closure <$> ask (.runClosure workflowId stepId)

/-- The recorded result of a step, if it already ran. -/
def replayStep (R : Type) [Serde R] (workflowId : String) (stepId : ℕ) (name : String) :
    DbosM (Option (Except DbosError R)) := do
  match ← checkOperationExecution workflowId stepId name with
  | none => return none
  | some recorded =>
    match recorded.error with
    | some err => return some (.error (decodedStepError err recorded.serialization))
    | none =>
      let value ← ofExcept (decodeValue R recorded.output recorded.serialization)
      return some (.ok value)

/-- The output and error columns of a step's result. -/
def stepColumns {R : Type} [Serde R] (result : Except DbosError R) :
    Except DbosError (Option String × Option String) :=
  match result with
  | .ok value => (encodeValue value .portable).map fun out ↦ (some out, none)
  | .error e => .ok (none, some (serializeWorkflowError e.display none .portable))

/-- Checkpoint a step's outcome. -/
def recordStep {R : Type} [Serde R] (workflowId : String) (stepId : ℕ) (name : String)
    (result : Except DbosError R) : DbosM Unit := do
  let (output, error) ← ofExcept (stepColumns result)
  recordOperationResult workflowId stepId name output error none (some Format.portable.name)

/-- Decode a recorded `recv` or `get_event` result. -/
def decodeOptional (M : Type) [Serde M] (recorded : RecordedOperation) :
    Except DbosError (Option M) :=
  match recorded.error with
  | some err => .error (decodedStepError err recorded.serialization)
  | none =>
    match recorded.output with
    | none => .ok none
    | some out => (decodeValue M (some out) recorded.serialization).map some

/-- The format a payload that was found is recorded and decoded under. -/
def foundFormat (found : Option (String × Option String)) : String :=
  (found.bind Prod.snd).getD Format.portable.name

/-- Decode a payload that was found. -/
def decodeFound (M : Type) [Serde M] (found : Option (String × Option String)) :
    Except DbosError (Option M) :=
  match found with
  | some (text, serialization) =>
    (decodeValue M (some text) (serialization.or (some Format.portable.name))).map some
  | none => .ok none

/-- The deadline of a sleep: the recorded one, else the one recorded now, else the one another
process recorded first. -/
def sleepDeadline (workflowId : String) (stepId : ℕ) (duration : ℕ) : DbosM ℤ := do
  match ← checkOperationExecution workflowId stepId "DBOS.sleep" with
  | some recorded => ofExcept (decodeValue ℤ recorded.output recorded.serialization)
  | none =>
    let now ← ask .now
    let deadline := asI64 (now + asI64 duration)
    let output ← ofExcept (encodeValue deadline .portable)
    match ← attempt (recordOperationResult workflowId stepId "DBOS.sleep" (some output) none none
        (some Format.portable.name)) with
    | .ok _ => return deadline
    | .error e =>
      if e.is .conflictingId then
        match ← checkOperationExecution workflowId stepId "DBOS.sleep" with
        | none => throw e
        | some recorded => ofExcept (decodeValue ℤ recorded.output recorded.serialization)
      else throw e

/-- Record the absolute deadline as a step, so that a restart waits only the remaining time, which
is returned. -/
def recordSleep (workflowId : String) (stepId : ℕ) (duration : ℕ) : DbosM ℤ := do
  let deadline ← sleepDeadline workflowId stepId duration
  let now ← ask .now
  return max (asI64 (deadline - now)) 0

/-- Look for a message until there is one or the deadline has passed, after `n` more wake-ups. -/
def awaitMessage (workflowId topic : String) : ℕ → DbosM Unit
  | 0 => do
    let _ ← notificationExistsUnconsumed workflowId topic
  | n + 1 => do
    if ← notificationExistsUnconsumed workflowId topic then return
    else awaitMessage workflowId topic n

/-- Look for an event until it is set or the deadline has passed, after `n` more wake-ups. -/
def awaitEvent (targetWorkflowId key : String) : ℕ → DbosM (Option (String × Option String))
  | 0 => selectWorkflowEvent targetWorkflowId key
  | n + 1 => do
    match ← selectWorkflowEvent targetWorkflowId key with
    | some found => return some found
    | none => awaitEvent targetWorkflowId key n

namespace WorkflowContext

variable (ctx : WorkflowContext) (stepId : ℕ)

/-- The error of a call that is not allowed within a step. -/
def refused {α : Type} (call message : String) : DbosM α :=
  throw (.stepExecution ctx.state.workflowId call message)

/-- A step: its recorded result, else the result of `run`, which is recorded. -/
def durableStep {R : Type} [Serde R] (name : String) (run : DbosM (Except DbosError R)) :
    DbosM R := do
  match ← replayStep R ctx.state.workflowId stepId name with
  | some replay => ofExcept replay
  | none =>
    let result ← run
    recordStep ctx.state.workflowId stepId name result
    ofExcept result

/-- Run a durable step, without retries. A step nested inside another one runs inline. -/
def runStep {R : Type} [Serde R] (name : String) (closure : ℕ → Except DbosError R) : DbosM R :=
  let run := runClosure ctx.state.workflowId stepId closure
  if ctx.withinStep then run >>= ofExcept
  else ctx.durableStep stepId name run

/-- Like `runStep`, with retries. -/
def runStepWith {R : Type} [Serde R] (name : String) (maxRetries : ℕ)
    (closure : ℕ → Except DbosError R) : DbosM R :=
  let run := runClosure ctx.state.workflowId stepId closure
  if ctx.withinStep then run >>= ofExcept
  else
    ctx.durableStep stepId name
      (executeStepWithRetry run name ctx.state.workflowId maxRetries)

/-- Start a child workflow, unless one is recorded at this step. -/
def runWorkflow {P : Type} [Serde P] (name : String) (input : P) (opts : WorkflowOptions) :
    DbosM WorkflowHandle := do
  if ctx.withinStep then
    ctx.refused name "cannot start a child workflow from within a step"
  else
    match ← checkChildWorkflow ctx.state.workflowId stepId with
    | some childId => return ⟨childId, .polling⟩
    | none =>
      let encoded ← ofExcept (encodeInput input .portable)
      startWorkflow ctx.inner name (some encoded) opts (some (ctx.state, stepId)) .portable false

/-- Send a message to another workflow's mailbox. -/
def send {M : Type} [Serde M] (destinationId : String) (message : M) (topic : Option String) :
    DbosM Unit := do
  if ctx.withinStep then
    ctx.refused "DBOS.send" "cannot call Send within a step"
  else
    match ← checkOperationExecution ctx.state.workflowId stepId "DBOS.send" with
    | some _ => return
    | none =>
      let encoded ← ofExcept (encodeValue message .portable)
      let unit ← ofExcept (encodeValue () .portable)
      transaction do
        insertNotification destinationId (storedTopic topic) encoded Format.portable.name
        recordOperationResult ctx.state.workflowId stepId "DBOS.send" (some unit) none none
          (some Format.portable.name)
        commitTx

/-- Wait for a message and consume it; nothing once the time is up. -/
def recv (M : Type) [Serde M] (topic : Option String) (timeout : ℕ) : DbosM (Option M) := do
  if ctx.withinStep then
    ctx.refused "DBOS.recv" "cannot call Recv within a step"
  else
    match ← checkOperationExecution ctx.state.workflowId stepId "DBOS.recv" with
    | some recorded => ofExcept (decodeOptional M recorded)
    | none =>
      let topic := storedTopic topic
      if ← ask (.waiterVacant s!"{ctx.state.workflowId}::{topic}") then
        let _ ← recordSleep ctx.state.workflowId (stepId + 1) timeout
        let polls ← ask .polls
        awaitMessage ctx.state.workflowId topic polls
        let consumed ← transaction do
          let consumed ← consumeOldestNotification ctx.state.workflowId topic
          recordOperationResult ctx.state.workflowId stepId "DBOS.recv" (consumed.map Prod.fst) none
            none (some (foundFormat consumed))
          commitTx
          return consumed
        ofExcept (decodeFound M consumed)
      else throw (.conflictingId ctx.state.workflowId)

/-- Publish a key/value event from this workflow. -/
def setEvent {V : Type} [Serde V] (key : String) (value : V) : DbosM Unit := do
  if ctx.withinStep then
    ctx.refused "DBOS.setEvent" "cannot call SetEvent within a step"
  else
    match ← checkOperationExecution ctx.state.workflowId stepId "DBOS.setEvent" with
    | some _ => return
    | none =>
      let encoded ← ofExcept (encodeValue value .portable)
      let unit ← ofExcept (encodeValue () .portable)
      transaction do
        upsertWorkflowEvent ctx.state.workflowId key encoded Format.portable.name
        insertWorkflowEventHistory ctx.state.workflowId stepId key encoded Format.portable.name
        recordOperationResult ctx.state.workflowId stepId "DBOS.setEvent" (some unit) none none
          (some Format.portable.name)
        commitTx

/-- Read another workflow's event, waiting for it to be set; nothing once the time is up. -/
def getEvent (V : Type) [Serde V] (targetWorkflowId key : String) (timeout : ℕ) :
    DbosM (Option V) := do
  if ctx.withinStep then
    ctx.refused "DBOS.getEvent" "cannot call GetEvent within a step"
  else
    match ← checkOperationExecution ctx.state.workflowId stepId "DBOS.getEvent" with
    | some recorded => ofExcept (decodeOptional V recorded)
    | none =>
      let _ ← recordSleep ctx.state.workflowId (stepId + 1) timeout
      let polls ← ask .polls
      let found ← awaitEvent targetWorkflowId key polls
      recordOperationResult ctx.state.workflowId stepId "DBOS.getEvent" (found.map Prod.fst) none
        none (some (foundFormat found))
      ofExcept (decodeFound V found)

def writeStreamRaw (key stepName value : String) (serialization : Option String) : DbosM Unit := do
  if ctx.withinStep then
    ctx.refused stepName "cannot write to a stream within a step"
  else
    match ← checkOperationExecution ctx.state.workflowId stepId stepName with
    | some _ => return
    | none =>
      let unit ← ofExcept (encodeValue () .portable)
      transaction do
        writeStreamEntry ctx.state.workflowId stepId key value serialization
        recordOperationResult ctx.state.workflowId stepId stepName (some unit) none none
          (some Format.portable.name)
        commitTx

/-- Append a value to a stream. -/
def writeStream {V : Type} [Serde V] (key : String) (value : V) : DbosM Unit := do
  let encoded ← ofExcept (encodeValue value .portable)
  ctx.writeStreamRaw stepId key "DBOS.writeStream" encoded (some Format.portable.name)

/-- Close a stream. -/
def closeStream (key : String) : DbosM Unit :=
  ctx.writeStreamRaw stepId key "DBOS.closeStream" streamClosedSentinel none

/-- Sleep durably; returns the time waited. -/
def sleep (duration : ℕ) : DbosM ℤ :=
  if ctx.withinStep then
    ctx.refused "DBOS.sleep" "cannot call Sleep within a step"
  else recordSleep ctx.state.workflowId stepId duration

end WorkflowContext

end

/-! ### Calls as data -/

/-- A durable call, with the codec of its payload. Payloads of all types are values of `V`. -/
inductive Invocation (V : Type)
  | runStep (name : String) (codec : Serde V) (closure : ℕ → Except DbosError V)
  | runStepWith (name : String) (maxRetries : ℕ) (codec : Serde V)
      (closure : ℕ → Except DbosError V)
  | runWorkflow (name : String) (codec : Serde V) (input : V) (opts : WorkflowOptions)
  | send (destinationId : String) (codec : Serde V) (message : V) (topic : Option String)
  | recv (codec : Serde V) (topic : Option String) (timeout : ℕ)
  | setEvent (key : String) (codec : Serde V) (value : V)
  | getEvent (codec : Serde V) (targetWorkflowId key : String) (timeout : ℕ)
  | writeStream (key : String) (codec : Serde V) (value : V)
  | closeStream (key : String)
  | sleep (duration : ℕ)

/-- What a body gets for a durable call. -/
inductive Reply (V : Type)
  | value (v : V)
  | child (handle : WorkflowHandle)
  | received (v : Option V)
  | done
  | slept (remaining : ℤ)

/-- The program of a durable call that takes its step ids from `stepId` on. -/
def Invocation.run [SerdeJson] {V : Type} (ctx : WorkflowContext) (stepId : ℕ) :
    Invocation V → DbosM (Reply V)
  | runStep name codec closure =>
    have := codec
    .value <$> ctx.runStep stepId name closure
  | runStepWith name maxRetries codec closure =>
    have := codec
    .value <$> ctx.runStepWith stepId name maxRetries closure
  | runWorkflow name codec input opts =>
    have := codec
    .child <$> ctx.runWorkflow stepId name input opts
  | send destinationId codec message topic =>
    have := codec
    (fun _ ↦ .done) <$> ctx.send stepId destinationId message topic
  | recv codec topic timeout =>
    have := codec
    .received <$> ctx.recv stepId V topic timeout
  | setEvent key codec value =>
    have := codec
    (fun _ ↦ .done) <$> ctx.setEvent stepId key value
  | getEvent codec targetWorkflowId key timeout =>
    have := codec
    .received <$> ctx.getEvent stepId V targetWorkflowId key timeout
  | writeStream key codec value =>
    have := codec
    (fun _ ↦ .done) <$> ctx.writeStream stepId key value
  | closeStream key => (fun _ ↦ .done) <$> ctx.closeStream stepId key
  | sleep duration => .slept <$> ctx.sleep stepId duration

/-- Which call it is, and the name or the key it is about. -/
inductive CallKind
  | step (name : String)
  | child (name : String)
  | send
  | recv
  | setEvent (key : String)
  | getEvent
  | writeStream (key : String)
  | closeStream (key : String)
  | sleep
  deriving DecidableEq, Repr

namespace CallKind

/-- The name a call is recorded under. -/
def recordName : CallKind → String
  | step name => name
  | child name => name
  | send => "DBOS.send"
  | recv => "DBOS.recv"
  | setEvent _ => "DBOS.setEvent"
  | getEvent => "DBOS.getEvent"
  | writeStream _ => "DBOS.writeStream"
  | closeStream _ => "DBOS.closeStream"
  | sleep => "DBOS.sleep"

/-- The stream a call appends to. -/
def stream : CallKind → Option String
  | writeStream key => some key
  | closeStream key => some key
  | _ => none

/-- Whether a call records a deadline at its second step id. -/
def sleeps : CallKind → Bool
  | recv => true
  | getEvent => true
  | _ => false

def isChild : CallKind → Bool
  | child _ => true
  | _ => false

end CallKind

def Invocation.kind {V : Type} : Invocation V → CallKind
  | runStep name .. => .step name
  | runStepWith name .. => .step name
  | runWorkflow name .. => .child name
  | send .. => .send
  | recv .. => .recv
  | setEvent key .. => .setEvent key
  | getEvent .. => .getEvent
  | writeStream key .. => .writeStream key
  | closeStream key => .closeStream key
  | sleep _ => .sleep

/-- How many step ids a durable call takes. A stream value that does not encode fails before the
counter is read. -/
def Invocation.stepIds {V : Type} : Invocation V → ℕ
  | recv .. => 2
  | getEvent .. => 2
  | writeStream _ codec value =>
    match codec.toValue value with
    | .ok _ => 1
    | .error _ => 0
  | _ => 1

end Dbos
