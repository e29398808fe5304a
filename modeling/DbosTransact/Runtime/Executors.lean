import DbosTransact.Foundation.Run
import DbosTransact.Foundation.System
import DbosTransact.Queue.Dequeue
import DbosTransact.Runtime.Calls
import DbosTransact.Runtime.Context

/-!
# Executors over one database

Everything the runtime runs against the system database: the calls of users and of the runtime
itself, the durable calls of bodies, and stream readers. Each `Operation` is one session, so the
runs of `RuntimeSystem` interleave the statements of any number of operations on any number of
executors, with failing requests, lost replies and crashes; the durable calls of one body are
sessions of their own, and a body that issues them one after the other or several at a time is a
restriction on runs.

`writes_of_run` is what a run of operations comes to for the rows: a chain of legal writes, each
made by a statement the runtime sends (`Stmt.Runtime`).
-/

namespace Dbos

open Txn

/-- What the runtime does on the system database. -/
inductive Operation (V : Type)
  | call (call : Call)
  /-- A durable call of a body, whose step ids start at `stepId`. -/
  | durable (state : WorkflowState) (withinStep : Bool) (stepId : ℕ) (inv : Invocation V)
  /-- `read_stream`: the reader stays for `rounds` rounds of its loop. -/
  | readStream (workflowId key : String) (codec : Serde V) (fromOffset : ℤ) (snapshot : Bool)
      (rounds : ℕ)
  /-- `read_stream_async`, whose receiver stays for `rounds` rounds. -/
  | readStreamAsync (workflowId key : String) (codec : Serde V) (rounds : ℕ)

/-- What an operation returns. -/
inductive OperationValue (V : Type)
  | call (value : CallValue)
  | reply (reply : Reply V)
  | read (values : Option (List V × Bool))
  | received (values : Option (List V × Option DbosError))

/-- What a session returns: its operation and the result. -/
abbrev OperationResult (V : Type) : Type := Operation V × Except DbosError (OperationValue V)

abbrev RuntimeSystem (V : Type) : Type :=
  System Db Key Row Stmt Stmt.Res SqlError Ask Ask.Ans (OperationResult V)

abbrev RuntimeLabel (V : Type) : Type :=
  Label Stmt Stmt.Res SqlError (Key → ℕ) Ask Ask.Ans (OperationResult V)

/-- The statements the runtime sends: an outcome it writes is an outcome, and a row it inserts is
queued, or `PENDING` and on no queue. -/
def Stmt.isRuntime : Stmt → Bool
  | updateWorkflowOutcome _ status _ _ _ => status.isOutcome
  | insertWorkflowStatus input =>
    input.status.isQueued || (input.status = .pending && input.queueName.isNone)
  | _ => true

def Stmt.Runtime (s : Stmt) : Prop := s.isRuntime = true

/-- The statements of forks and of garbage collection. -/
def Stmt.isManagement : Stmt → Bool
  | selectOriginal _ => true
  | insertForked .. => true
  | markForkedFrom _ => true
  | copyOperations .. => true
  | copyEventsHistory .. => true
  | copyEvents .. => true
  | copyStreams .. => true
  | selectCreatedAt _ => true
  | collectWorkflows _ => true
  | _ => false

theorem Stmt.runtime_of_isManagement {s : Stmt} (h : s.isManagement = true) : s.Runtime := by
  cases s <;> first | rfl | cases h

/-- The statements of a dequeue iteration. -/
def Stmt.isDequeue : Stmt → Bool
  | countRecent .. => true
  | countPending .. => true
  | selectCandidates .. => true
  | claimWorkflow .. => true
  | _ => false

/-- The statements of the runtime that change rows of `workflow_status` only, and add no row of a
fork. -/
def Stmt.isStatusOnly : Stmt → Bool
  | claimWorkflow .. => true
  | s => s.isPlain

def Stmt.StatusOnly (s : Stmt) : Prop := s.isStatusOnly = true

theorem Stmt.Plain.statusOnly {s : Stmt} (h : s.Plain) : s.StatusOnly := by
  cases s <;> first | rfl | exact h

theorem Stmt.StatusOnly.runtime {s : Stmt} (h : s.StatusOnly) : s.Runtime := by
  cases s <;> first | rfl | exact h

/-- The statements of a durable call of workflow `w` that takes its step ids from `n` on: among the
rows of workflows it writes to its own ones under its own step ids, the second of which is that of a
sleep. -/
def Stmt.isCallOf (w : String) (n : ℕ) (kind : CallKind) : Stmt → Bool
  | insertOperation w' n' row =>
    w' = w && (n' = n && row.functionName = kind.recordName ||
      n' = n + 1 && kind.sleeps && row.functionName = "DBOS.sleep")
  | insertNotification .. => kind = .send
  | consumeOldestNotification w' _ => w' = w && kind = .recv
  | upsertWorkflowEvent w' key _ => w' = w && kind = .setEvent key
  | insertWorkflowEventHistory w' n' key _ => w' = w && n' = n && kind = .setEvent key
  | insertStream w' key row => w' = w && row.functionId = n && kind.stream = some key
  | insertWorkflowStatus input =>
    kind.isChild && input.status = .pending && input.queueName.isNone
  | deadLetter _ => kind.isChild
  | getStatus _ => true
  | selectOperation .. => true
  | selectChildWorkflowId .. => true
  | notificationExistsUnconsumed .. => true
  | selectWorkflowEvent .. => true
  | selectStreamClosed .. => true
  | _ => false

def Stmt.CallOf (w : String) (n : ℕ) (kind : CallKind) (s : Stmt) : Prop :=
  s.isCallOf w n kind = true

theorem Stmt.CallOf.runtime {w : String} {n : ℕ} {kind : CallKind} {s : Stmt}
    (h : s.CallOf w n kind) : s.Runtime := by
  cases s with
  | insertWorkflowStatus input =>
    simp only [Stmt.CallOf, Stmt.isCallOf, Bool.and_eq_true, decide_eq_true_eq] at h
    simp [Stmt.Runtime, Stmt.isRuntime, h]
  | updateWorkflowOutcome w status output error now => cases h
  | _ => rfl

section

variable [SerdeJson] {V : Type}

/-- The result of an operation on the executor `inner`. -/
def Operation.run (inner : DbosInner) : Operation V → DbosM (OperationValue V)
  | call c => .call <$> c.run inner
  | durable state withinStep stepId inv => .reply <$> inv.run ⟨inner, state, withinStep⟩ stepId
  | readStream workflowId key codec fromOffset snapshot rounds =>
    have := codec
    .read <$> readStreamBlocking V workflowId key snapshot rounds fromOffset []
  | readStreamAsync workflowId key codec rounds =>
    have := codec
    .received <$> Dbos.readStreamAsync V workflowId key rounds 0 []

/-- The program of the session that carries out an operation. -/
def Operation.program (inner : DbosInner) (op : Operation V) : DbProg (OperationResult V) :=
  (op.run inner).run.bind fun r ↦ .pure (op, r)

/-- Every session carries out an operation, session `i` on the executor `executor i`. -/
def RuntimeStep (executor : ℕ → DbosInner) (_ : RuntimeSystem V) (l : RuntimeLabel V) : Prop :=
  ∀ i p, l = .spawn i p → ∃ op : Operation V, p = op.program (executor i)

/-- The session a label starts. -/
def spawnedOperation : RuntimeLabel V → Option (ℕ × DbProg (OperationResult V))
  | .spawn i p => some (i, p)
  | _ => none

theorem runtimeStep_of_spawned {executor : ℕ → DbosInner} {ls : List (RuntimeLabel V)}
    (h : ∀ e ∈ ls.filterMap spawnedOperation, ∃ op : Operation V, e.2 = op.program (executor e.1))
    (S : RuntimeSystem V) : ∀ l ∈ ls, RuntimeStep executor S l := by
  rintro l hl i p rfl
  exact h (i, p) (List.mem_filterMap.2 ⟨_, hl, rfl⟩)

/-! ### What the operations send -/

variable {A : Ask → Prop}

omit [SerdeJson] in
theorem call_query {w : String} {n : ℕ} {kind : CallKind} {s : Stmt}
    (h : s.isCallOf w n kind = true) : Sends (Stmt.CallOf w n kind) (query s) A :=
  sends_query h

section

variable {w : String} {n k : ℕ} {kind : CallKind}

omit [SerdeJson] in
theorem call_checkOperationExecution (name : String) :
    Sends (Stmt.CallOf w n kind) (checkOperationExecution w k name) A := by
  rw [checkOperationExecution_eq]
  exact (call_query rfl).bind fun _ ↦ (sends_ofExcept _).bind fun _ ↦
    (call_query rfl).bind fun _ ↦ sends_ofExcept _

variable [AllowsAsking A]

omit [SerdeJson] in
/-- The record of a call is one of its statements. -/
theorem call_record (kind : CallKind) (output error child ser : Option String) :
    Sends (Stmt.CallOf w n kind)
      (recordOperationResult w n kind.recordName output error child ser) A := by
  refine sends_recordOperationResult (fun row hname ↦ ?_) _ _ _ _
    (AllowsAsking.of_noTask _ (by rintro task ⟨⟩))
  simp [Stmt.CallOf, Stmt.isCallOf, hname]

theorem call_recordSleep (hk : k = n ∧ kind = .sleep ∨ k = n + 1 ∧ kind.sleeps = true)
    (duration : ℕ) : Sends (Stmt.CallOf w n kind) (recordSleep w k duration) A := by
  have hdeadline : Sends (Stmt.CallOf w n kind) (sleepDeadline w k duration) A := by
    refine (call_checkOperationExecution _).bind ?_
    rintro (- | recorded)
    · refine (sends_ask _).bind fun now ↦ (sends_ofExcept _).bind fun output ↦ ?_
      have hrow : ∀ row : OperationRow, row.functionName = "DBOS.sleep" →
          Stmt.CallOf w n kind (.insertOperation w k row) := by
        intro row hname
        rcases hk with ⟨rfl, rfl⟩ | ⟨rfl, hsleeps⟩
        · simp [Stmt.CallOf, Stmt.isCallOf, hname, CallKind.recordName]
        · simp [Stmt.CallOf, Stmt.isCallOf, hname, hsleeps]
      refine (sends_recordOperationResult hrow _ _ _ _
        (AllowsAsking.of_noTask _ (by rintro task ⟨⟩))).attempt.bind ?_
      rintro (e | _)
      · dsimp only
        split
        · refine (call_checkOperationExecution _).bind ?_
          rintro (- | recorded)
          · exact sends_throw _
          · exact sends_ofExcept _
        · exact sends_throw _
      · exact sends_pure _
    · exact sends_ofExcept _
  exact hdeadline.bind fun _ ↦ (sends_ask _).bind fun _ ↦ sends_pure _

variable {R : Type}

omit [SerdeJson] [AllowsAsking A] in
theorem sends_executeStepWithRetry {P : Stmt → Prop} {run : DbosM (Except DbosError R)}
    (hrun : Sends P run A) (stepName w : String) (maxRetries : ℕ) :
    Sends P (executeStepWithRetry run stepName w maxRetries) A := by
  have hretry : ∀ n errors, Sends P (retryStep run stepName w maxRetries n errors) A := by
    intro n
    induction n with
    | zero => exact fun errors ↦ sends_pure _
    | succ n ih =>
      refine fun errors ↦ hrun.bind ?_
      rintro (e | v)
      · exact ih _
      · exact sends_pure _
  refine hrun.bind ?_
  rintro (e | v)
  · dsimp only
    split
    · exact sends_pure _
    · exact hretry _ _
  · exact sends_pure _

theorem call_durableStep [Serde R] (ctx : WorkflowContext) (name : String)
    {run : DbosM (Except DbosError R)}
    (hrun : Sends (Stmt.CallOf ctx.state.workflowId n (.step name)) run A) :
    Sends (Stmt.CallOf ctx.state.workflowId n (.step name)) (ctx.durableStep n name run) A := by
  have hreplay : Sends (Stmt.CallOf ctx.state.workflowId n (.step name))
      (replayStep R ctx.state.workflowId n name) A := by
    refine (call_checkOperationExecution _).bind ?_
    rintro (- | recorded)
    · exact sends_pure _
    · dsimp only
      split
      · exact sends_pure _
      · exact (sends_ofExcept _).bind fun _ ↦ sends_pure _
  refine hreplay.bind ?_
  rintro (- | replay)
  · exact hrun.bind fun result ↦
      Sends.bind ((sends_ofExcept _).bind fun _ ↦ call_record (.step name) _ _ _ _)
        fun _ ↦ sends_ofExcept _
  · exact sends_ofExcept _

end

theorem call_writeStreamRaw [AllowsAsking A] (ctx : WorkflowContext) (n : ℕ) {key : String}
    (kind : CallKind) (hkind : kind.stream = some key) (value : String)
    (serialization : Option String) : Sends (Stmt.CallOf ctx.state.workflowId n kind)
      (ctx.writeStreamRaw n key kind.recordName value serialization) A := by
  rw [WorkflowContext.writeStreamRaw]
  split
  · exact sends_throw _
  refine (call_checkOperationExecution _).bind ?_
  rintro (- | recorded)
  · refine (sends_ofExcept _).bind fun unit ↦ Sends.transaction (Sends.bind ?_ fun _ ↦
      (call_record _ _ _ _ _).bind fun _ ↦ sends_commitTx)
    refine (call_query rfl).bind fun closed ↦ ?_
    split
    · exact sends_throw _
    · exact call_query (by simp [Stmt.isCallOf, hkind])
  · exact sends_pure _

/-- The statements of a start with a parent are those of a durable call of the parent. -/
theorem call_startWorkflow (inner : DbosInner) (name : String) (input : Option String)
    (opts : WorkflowOptions) (state : WorkflowState) (n : ℕ) (fmt : Format) (isRecovery : Bool) :
    Sends (Stmt.CallOf state.workflowId n (.child name))
      (startWorkflow inner name input opts (some (state, n)) fmt isRecovery) := by
  refine sends_startWorkflow _ _ _ _ _ _ _ (fun input hstatus hqueue _ ↦ ?_) (fun _ ↦ rfl) ?_
    trivial trivial fun _ ↦ trivial
  · simp [Stmt.CallOf, Stmt.isCallOf, CallKind.isChild, hstatus, hqueue]
  · rintro - ⟨⟩ row hname
    simp [Stmt.CallOf, Stmt.isCallOf, CallKind.recordName, hname]

/-- Every statement of a durable call is one of its kind with its step ids, and only the start of a
child asks for a task. -/
theorem call_invocation [AllowsAsking A] (ctx : WorkflowContext) (n : ℕ) (inv : Invocation V)
    (hchild : inv.kind.isChild = true → ∀ q, A q) :
    Sends (Stmt.CallOf ctx.state.workflowId n inv.kind) (inv.run ctx n) A := by
  have hclosure : ∀ (name : String) (closure : ℕ → Except DbosError V),
      Sends (Stmt.CallOf ctx.state.workflowId n (.step name))
        (runClosure ctx.state.workflowId n closure) A := fun _ closure ↦ (sends_ask _).map
  cases inv with
  | runStep name codec closure =>
    refine Sends.map ?_
    unfold WorkflowContext.runStep
    split
    · exact (hclosure name closure).bind fun _ ↦ sends_ofExcept _
    · exact call_durableStep ctx name (hclosure name closure)
  | runStepWith name maxRetries codec closure =>
    refine Sends.map ?_
    unfold WorkflowContext.runStepWith
    split
    · exact (hclosure name closure).bind fun _ ↦ sends_ofExcept _
    · exact call_durableStep ctx name (sends_executeStepWithRetry (hclosure name closure) _ _ _)
  | runWorkflow name codec input opts =>
    refine Sends.map ?_
    rw [WorkflowContext.runWorkflow]
    split
    · exact sends_throw _
    refine ((call_query rfl).bind fun _ ↦ sends_pure _).bind ?_
    rintro (- | child)
    · exact (sends_ofExcept _).bind fun encoded ↦
        (call_startWorkflow _ _ _ _ _ _ _ _).mono (fun _ ↦ id) fun q _ ↦ hchild rfl q
    · exact sends_pure _
  | send destinationId codec message topic =>
    refine Sends.map ?_
    rw [WorkflowContext.send]
    split
    · exact sends_throw _
    refine (call_checkOperationExecution _).bind ?_
    rintro (- | recorded)
    · refine (sends_ofExcept _).bind fun encoded ↦ (sends_ofExcept _).bind fun unit ↦
        Sends.transaction (Sends.bind ?_ fun _ ↦
          (call_record .send _ _ _ _).bind fun _ ↦ sends_commitTx)
      refine (sends_ask _).bind fun uuid ↦ (sends_ask _).bind fun now ↦
        Sends.bind (sends_execute (show Stmt.CallOf _ _ .send _ from rfl)) ?_
      rintro (e | _)
      · dsimp only
        split <;> exact sends_throw _
      · exact sends_pure _
    · exact sends_pure _
  | recv codec topic timeout =>
    refine Sends.map ?_
    rw [WorkflowContext.recv]
    split
    · exact sends_throw _
    refine (call_checkOperationExecution _).bind ?_
    rintro (- | recorded)
    · have hawait : ∀ polls, Sends (Stmt.CallOf ctx.state.workflowId n .recv)
          (awaitMessage ctx.state.workflowId (storedTopic topic) polls) A := by
        intro polls
        induction polls with
        | zero => exact (call_query rfl).bind fun _ ↦ sends_pure _
        | succ polls ih =>
          refine (call_query rfl).bind fun found ↦ ?_
          cases found
          · exact ih
          · exact sends_pure _
      refine (sends_ask _).bind fun vacant ↦ ?_
      split
      · refine (call_recordSleep (Or.inr ⟨rfl, rfl⟩) _).bind fun _ ↦ (sends_ask _).bind fun polls ↦
          (hawait polls).bind fun _ ↦ Sends.bind (Sends.transaction ?_) fun _ ↦ sends_ofExcept _
        exact (call_query (by simp [Stmt.isCallOf])).bind fun consumed ↦
          (call_record .recv _ _ _ _).bind fun _ ↦ sends_commitTx.bind fun _ ↦ sends_pure _
      · exact sends_throw _
    · exact sends_ofExcept _
  | setEvent key codec value =>
    refine Sends.map ?_
    rw [WorkflowContext.setEvent]
    split
    · exact sends_throw _
    refine (call_checkOperationExecution _).bind ?_
    rintro (- | recorded)
    · exact (sends_ofExcept _).bind fun encoded ↦ (sends_ofExcept _).bind fun unit ↦
        Sends.transaction ((call_query (by simp [Stmt.isCallOf, Invocation.kind])).bind fun _ ↦
          (call_query (by simp [Stmt.isCallOf, Invocation.kind])).bind fun _ ↦
            (call_record (.setEvent key) _ _ _ _).bind fun _ ↦ sends_commitTx)
    · exact sends_pure _
  | getEvent codec targetWorkflowId key timeout =>
    refine Sends.map ?_
    rw [WorkflowContext.getEvent]
    split
    · exact sends_throw _
    refine (call_checkOperationExecution _).bind ?_
    have hselect : Sends (Stmt.CallOf ctx.state.workflowId n .getEvent)
        (selectWorkflowEvent targetWorkflowId key) A :=
      (call_query rfl).bind fun _ ↦ sends_pure _
    rintro (- | recorded)
    · have hawait : ∀ polls, Sends (Stmt.CallOf ctx.state.workflowId n .getEvent)
          (awaitEvent targetWorkflowId key polls) A := by
        intro polls
        induction polls with
        | zero => exact hselect
        | succ polls ih =>
          refine hselect.bind ?_
          rintro (- | found)
          · exact ih
          · exact sends_pure _
      exact (call_recordSleep (Or.inr ⟨rfl, rfl⟩) _).bind fun _ ↦ (sends_ask _).bind fun polls ↦
        (hawait polls).bind fun found ↦
          (call_record .getEvent _ _ _ _).bind fun _ ↦ sends_ofExcept _
    · exact sends_ofExcept _
  | writeStream key codec value =>
    refine Sends.map ?_
    exact (sends_ofExcept _).bind fun _ ↦
      call_writeStreamRaw ctx n (.writeStream key) rfl _ _
  | closeStream key =>
    exact Sends.map (call_writeStreamRaw ctx n (.closeStream key) rfl _ _)
  | sleep duration =>
    refine Sends.map ?_
    rw [WorkflowContext.sleep]
    split
    · exact sends_throw _
    · exact call_recordSleep (Or.inl ⟨rfl, rfl⟩) _

omit [SerdeJson] in
theorem runtime_query {s : Stmt} (h : s.isRuntime = true) :
    Sends Stmt.Runtime (query s) A :=
  sends_query h

omit [SerdeJson] in
theorem status_query {s : Stmt} (h : s.isStatusOnly = true) :
    Sends Stmt.StatusOnly (query s) A :=
  sends_query h

omit [SerdeJson] in
theorem Sends.statusOnly {α : Type} {m : DbosM α} (h : Sends Stmt.Plain m A) :
    Sends Stmt.StatusOnly m A :=
  h.mono (fun _ ↦ Stmt.Plain.statusOnly) fun _ ↦ id

omit [SerdeJson] in
theorem sends_claimEach {P : Stmt → Prop}
    (hclaim : ∀ id version executor now limited,
      P (.claimWorkflow id version executor now limited))
    (input : DequeueInput) (numRecent : ℕ) (now : ℤ) (ids : List String)
    (claimed : List DequeuedWorkflow) : Sends P (claimEach input numRecent now ids claimed) A := by
  induction ids generalizing claimed with
  | nil => exact sends_pure _
  | cons id rest ih =>
    rw [claimEach]
    split
    · exact sends_pure _
    · refine (sends_query (hclaim ..)).bind ?_
      rintro (- | row)
      · exact ih _
      · exact ih _

omit [SerdeJson] in
/-- What a dequeue iteration sends once the rate gate has let it through. -/
theorem sends_afterGate [AllowsAsking A] {P : Stmt → Prop}
    (hclaim : ∀ id version executor now limited,
      P (.claimWorkflow id version executor now limited))
    (hcount : ∀ queueName partitionKey, P (.countPending queueName partitionKey))
    (hselect : ∀ queueName version partitionKey mode n,
      P (.selectCandidates queueName version partitionKey mode n))
    (input : DequeueInput) (numRecent : ℕ) :
    Sends P (do
      let maxTasks ← maxTasks input
      if maxTasks ≤ 0 then return []
      let candidateIds ← query (.selectCandidates input.queueName input.applicationVersion
        input.partitionKey input.lockMode maxTasks.toNat)
      let now ← ask .now
      let claimed ← claimEach input numRecent now candidateIds []
      if !claimed.isEmpty then commitTx
      return claimed) A := by
  have hmax : Sends P (maxTasks input) A := by
    unfold maxTasks
    split
    · exact sends_pure _
    · exact (sends_query (hcount ..)).bind fun n ↦ sends_pure _
  refine hmax.bind fun n ↦ ?_
  dsimp only
  split
  · exact sends_pure _
  refine (sends_query (hselect ..)).bind fun ids ↦ (sends_ask _).bind fun now ↦
    (sends_claimEach hclaim ..).bind fun claimed ↦ ?_
  split
  · exact sends_commitTx.bind fun _ ↦ sends_pure _
  · exact sends_pure _

omit [SerdeJson] in
theorem sends_dequeueWorkflows [AllowsAsking A] {P : Stmt → Prop}
    (h : ∀ s : Stmt, s.isDequeue = true → P s) (input : DequeueInput) :
    Sends P (dequeueWorkflows input) A := by
  have hgate : Sends P (rateLimitGate input) A := by
    unfold rateLimitGate
    split
    · exact sends_pure _
    · exact (sends_ask _).bind fun now ↦ (sends_query (h _ rfl)).bind fun n ↦ sends_pure _
  have hafter := sends_afterGate (P := P) (A := A) (fun _ _ _ _ _ ↦ h _ rfl) (fun _ _ ↦ h _ rfl)
    (fun _ _ _ _ _ ↦ h _ rfl) input
  have hbody : ∀ f : Option ℕ → DbosM (List DequeuedWorkflow), f none = pure [] →
      (∀ numRecent, Sends P (f (some numRecent)) A) → Sends P (rateLimitGate input >>= f) A := by
    intro f hnone hsome
    refine hgate.bind ?_
    rintro (- | numRecent)
    · rw [hnone]
      exact sends_pure _
    · exact hsome numRecent
  rw [dequeueWorkflows]
  refine Sends.transaction ?_
  split
  · exact Sends.bind (fun _ ↦ trivial) fun _ ↦ hbody _ rfl hafter
  · exact hbody _ rfl hafter

omit [SerdeJson] in
theorem sends_dispatchEach {P : Stmt → Prop} (inner : DbosInner) (wfs : List DequeuedWorkflow) :
    Sends P (dispatchEach inner wfs) := by
  induction wfs with
  | nil => exact sends_pure _
  | cons wf rest ih =>
    refine Sends.bind ?_ fun _ ↦ ih
    unfold dispatchDequeued
    split
    · exact sends_pure _
    · exact sends_ask_of trivial

omit [SerdeJson] in
theorem sends_forkWorkflow [AllowsAsking A] {P : Stmt → Prop}
    (h : ∀ s : Stmt, s.isManagement = true → P s) (input : ForkWorkflowInput) :
    Sends P (forkWorkflow input) A := by
  have hcopy : ∀ newId, Sends P
      (copySteps newId input.originalWorkflowId input.startStep) A := by
    intro newId
    rw [copySteps]
    split
    · exact (sends_query (h _ rfl)).bind fun _ ↦ (sends_query (h _ rfl)).bind fun _ ↦
        (sends_query (h _ rfl)).bind fun _ ↦ sends_query (h _ rfl)
    · exact sends_pure _
  have hfork : ∀ newId now original, Sends P (transaction do
      query (.insertForked newId
        { original := original
          originalWorkflowId := input.originalWorkflowId
          applicationVersion := input.applicationVersion
          queueName := input.queueName.getD internalQueueName
          queuePartitionKey := input.queuePartitionKey
          now := now })
      query (.markForkedFrom input.originalWorkflowId)
      copySteps newId input.originalWorkflowId input.startStep
      commitTx
      return newId) A := fun newId now original ↦
    Sends.transaction ((sends_query (h _ rfl)).bind fun _ ↦ (sends_query (h _ rfl)).bind fun _ ↦
      (hcopy newId).bind fun _ ↦ sends_commitTx.bind fun _ ↦ sends_pure _)
  rw [forkWorkflow]
  split
  · refine (sends_pure _).bind fun newId ↦ (sends_ask _).bind fun now ↦
      (sends_query (h _ rfl)).bind ?_
    rintro (- | original)
    · exact sends_throw _
    · exact hfork newId now original
  · refine (sends_ask _).bind fun newId ↦ (sends_ask _).bind fun now ↦
      (sends_query (h _ rfl)).bind ?_
    rintro (- | original)
    · exact sends_throw _
    · exact hfork newId now original

omit [SerdeJson] in
theorem sends_garbageCollect {P : Stmt → Prop} (h : ∀ s : Stmt, s.isManagement = true → P s)
    (cutoff rowsThreshold : Option ℤ) : Sends P (garbageCollect cutoff rowsThreshold) A := by
  have hcutoff : Sends P (collectionCutoff cutoff rowsThreshold) A := by
    unfold collectionCutoff
    split
    · split
      · refine (sends_query (h _ rfl)).bind ?_
        rintro (- | c) <;> exact sends_pure _
      · exact sends_pure _
    · exact sends_pure _
  refine hcutoff.bind ?_
  rintro (- | c)
  · exact sends_pure _
  · exact sends_query (h _ rfl)

omit [SerdeJson] in
theorem sends_awaitWorkflowResult {P : Stmt → Prop} {w : String} (h : P (.selectAwaitRow w))
    (n : ℕ) : Sends P (awaitWorkflowResult w n) A := by
  induction n with
  | zero => exact sends_pure _
  | succ n ih =>
    refine (sends_query h).bind fun row ↦ ?_
    split
    · exact sends_pure _
    · exact ih

omit [SerdeJson] in
theorem runtime_of_statusOnly {α : Type} {m : DbosM α} (h : Sends Stmt.StatusOnly m A) :
    Sends Stmt.Runtime m A :=
  h.mono (fun _ ↦ Stmt.StatusOnly.runtime) fun _ ↦ id

/-- The calls that may spawn tasks. -/
def Call.spawns : Call → Bool
  | runWorkflow .. => true
  | pollQueue _ => true
  | recover _ => true
  | _ => false

/-- The calls that change rows of `workflow_status` only, starts with a parent apart. -/
def Call.statusOnly : Call → Bool
  | runWorkflow _ _ _ parent => parent.isNone
  | fork _ => false
  | delete _ => false
  | collectGarbage .. => false
  | _ => true

theorem status_call [AllowsAsking A] (inner : DbosInner) {call : Call}
    (h : call.statusOnly = true) (hspawns : call.spawns = true → ∀ q, A q) :
    Sends Stmt.StatusOnly (call.run inner) A := by
  have hdequeue : ∀ s : Stmt, s.isDequeue = true → s.StatusOnly := by
    intro s hs
    cases s <;> first | rfl | cases hs
  cases call with
  | runWorkflow name input opts parent =>
    obtain rfl := Option.isNone_iff_eq_none.1 h
    exact (plain_startWorkflow _ _ _ _ _ _ (hspawns rfl _) (hspawns rfl _)
      fun _ ↦ hspawns rfl _).statusOnly.map
  | enqueue queueName name input opts => exact (plain_enqueueWorkflow _ _ _ _ _).statusOnly.map
  | clientEnqueue queueName name encoded opts =>
    exact (plain_clientEnqueue _ _ _ _).statusOnly.map
  | pollQueue queue =>
    exact Sends.map ((sends_dequeueWorkflows hdequeue _).bind fun claimed ↦
      (sends_dispatchEach inner _).mono (fun _ ↦ id) fun q _ ↦ hspawns rfl q)
  | complete w fmt result => exact (plain_recordOutcome w fmt result).statusOnly.map
  | awaitResult w polls => exact Sends.map (sends_awaitWorkflowResult (by rfl) polls)
  | cancel ids => exact Sends.map ((sends_ask _).bind fun _ ↦ status_query rfl)
  | resume ids queueName => exact Sends.map ((sends_ask _).bind fun _ ↦ status_query rfl)
  | promote => exact Sends.map ((sends_ask _).bind fun _ ↦ status_query rfl)
  | recover executorIds =>
    exact ((plain_recover inner executorIds).mono (fun _ ↦ id)
      fun q _ ↦ hspawns rfl q).statusOnly.map
  | fork input => cases h
  | delete ids => cases h
  | collectGarbage cutoff rowsThreshold => cases h

theorem runtime_call [AllowsAsking A] (inner : DbosInner) (call : Call)
    (hspawns : call.spawns = true → ∀ q, A q) : Sends Stmt.Runtime (call.run inner) A := by
  cases call with
  | runWorkflow name input opts parent =>
    rcases parent with - | ⟨state, n⟩
    · exact runtime_of_statusOnly (status_call inner rfl hspawns)
    · exact ((call_startWorkflow _ _ _ _ state n _ _).mono (fun _ ↦ Stmt.CallOf.runtime)
        fun q _ ↦ hspawns rfl q).map
  | fork input => exact Sends.map (sends_forkWorkflow (fun _ ↦ Stmt.runtime_of_isManagement) input)
  | delete ids => exact Sends.map (runtime_query rfl)
  | collectGarbage cutoff rowsThreshold =>
    exact Sends.map
      (sends_garbageCollect (fun _ ↦ Stmt.runtime_of_isManagement) cutoff rowsThreshold)
  | _ => exact runtime_of_statusOnly (status_call inner rfl hspawns)

section

variable {T : Type} [Serde T] {P : Stmt → Prop} {w key : String}
variable (hentries : ∀ start, P (.selectStreamEntries w key start)) (hstatus : P (.getStatus w))
include hentries hstatus

theorem sends_readStream (snapshot : Bool) (n : ℕ) (current : ℤ) (values : List T) :
    Sends P (readStreamBlocking T w key snapshot n current values) A := by
  induction n generalizing current values with
  | zero => exact sends_pure _
  | succ n ih =>
    refine Sends.bind ((sends_query (hentries _)).bind fun _ ↦ sends_pure _) ?_
    rintro ⟨entries, closed⟩
    refine (sends_ofExcept _).bind fun decoded ↦ ?_
    dsimp only
    split
    · exact sends_pure _
    split
    · exact sends_pure _
    refine (sends_query hstatus).bind ?_
    rintro (- | status)
    · exact sends_throw _
    · dsimp only
      split
      · exact sends_pure _
      · exact ih _ _

theorem sends_readStreamAsync (n : ℕ) (current : ℤ) (values : List T) :
    Sends P (readStreamAsync T w key n current values) A := by
  induction n generalizing current values with
  | zero => exact sends_pure _
  | succ n ih =>
    refine Sends.bind (Sends.attempt ((sends_query (hentries _)).bind fun _ ↦ sends_pure _)) ?_
    rintro (e | ⟨entries, closed⟩)
    · exact sends_pure _
    · dsimp only
      split
      · exact sends_pure _
      split
      · exact sends_pure _
      refine Sends.bind (sends_query hstatus).attempt ?_
      rintro (e | - | status)
      · exact sends_pure _
      · exact sends_pure _
      · dsimp only
        split
        · exact sends_pure _
        · exact ih _ _

end

/-- The operations that may spawn tasks. -/
def Operation.spawns : Operation V → Bool
  | call c => c.spawns
  | durable _ _ _ inv => inv.kind.isChild
  | _ => false

/-- The statements of the runtime that neither insert a workflow to be run nor claim one. -/
def Stmt.startsNothing : Stmt → Bool
  | insertWorkflowStatus _ => false
  | deadLetter _ => false
  | claimWorkflow .. => false
  | s => s.isRuntime

/-- The operations that may start workflows. -/
def Operation.starts : Operation V → Bool
  | call (.enqueue ..) => true
  | call (.clientEnqueue ..) => true
  | call c => c.spawns
  | durable _ _ _ inv => inv.kind.isChild
  | _ => false

/-- The other operations start none. -/
theorem startsNothing_run [AllowsAsking A] (inner : DbosInner) {op : Operation V}
    (h : op.starts = false) : Sends (fun s ↦ s.startsNothing = true) (op.run inner) A := by
  have hmanage : ∀ s : Stmt, s.isManagement = true → s.startsNothing = true := by
    intro s hs
    cases s <;> first | rfl | cases hs
  cases op with
  | call c =>
    refine Sends.map ?_
    cases c with
    | complete w fmt result =>
      exact (sends_recordOutcome w fmt result fun _ _ _ _ hout ↦ hout).map
    | awaitResult w polls => exact Sends.map (sends_awaitWorkflowResult (by rfl) polls)
    | cancel ids => exact Sends.map ((sends_ask _).bind fun _ ↦ sends_query rfl)
    | resume ids queueName => exact Sends.map ((sends_ask _).bind fun _ ↦ sends_query rfl)
    | promote => exact Sends.map ((sends_ask _).bind fun _ ↦ sends_query rfl)
    | fork input => exact Sends.map (sends_forkWorkflow hmanage input)
    | delete ids => exact Sends.map (sends_query rfl)
    | collectGarbage cutoff rowsThreshold =>
      exact Sends.map (sends_garbageCollect hmanage cutoff rowsThreshold)
    | _ => cases h
  | durable state withinStep n inv =>
    have hchild : inv.kind.isChild = false := h
    refine Sends.map ((call_invocation ⟨inner, state, withinStep⟩ n inv
      fun h' ↦ by rw [hchild] at h'; cases h').mono (fun s hs ↦ ?_) fun _ ↦ id)
    cases s with
    | insertWorkflowStatus input =>
      simp [Stmt.CallOf, Stmt.isCallOf, hchild] at hs
    | deadLetter w =>
      simp [Stmt.CallOf, Stmt.isCallOf, hchild] at hs
    | claimWorkflow w version executorId now limited => cases hs
    | updateWorkflowOutcome w status output error now => cases hs
    | _ => rfl
  | readStream w key codec fromOffset snapshot rounds =>
    exact Sends.map (sends_readStream (fun _ ↦ by rfl) (by rfl) snapshot rounds fromOffset [])
  | readStreamAsync w key codec rounds =>
    exact Sends.map (sends_readStreamAsync (fun _ ↦ by rfl) (by rfl) rounds 0 [])

/-- Every operation sends statements of the runtime, and only some ask for tasks. -/
theorem runtime_program [AllowsAsking A] (inner : DbosInner) (op : Operation V)
    (hspawns : op.spawns = true → ∀ q, A q) : (op.program inner).All Stmt.Runtime A := by
  have hop : Sends Stmt.Runtime (op.run inner) A := by
    cases op with
    | call c => exact (runtime_call inner c hspawns).map
    | durable state withinStep n inv =>
      exact ((call_invocation _ n inv hspawns).mono (fun _ ↦ Stmt.CallOf.runtime) fun _ ↦ id).map
    | readStream w key codec fromOffset snapshot rounds =>
      exact Sends.map (sends_readStream (fun _ ↦ by rfl) (by rfl) snapshot rounds fromOffset [])
    | readStreamAsync w key codec rounds =>
      exact Sends.map (sends_readStreamAsync (fun _ ↦ by rfl) (by rfl) rounds 0 [])
  exact Prog.All.bind hop fun _ ↦ trivial

/-! ### What a run writes -/

/-- In a run of operations every committed write is a legal one of a statement of the runtime. -/
theorem writes_of_run {valid : DbMoment → (q : Ask) → q.Ans → Bool} {executor : ℕ → DbosInner}
    {db₀ : Db} {time : ℤ} {S : RuntimeSystem V}
    (h : Run (System.step server valid) (RuntimeStep executor) (System.init db₀ time) S) :
    System.Consistent server db₀ S ∧
      ∀ w ∈ System.written S.history, LegalWrite w ∧ w.stmt.Runtime := by
  have hC := System.consistent_of_run h
  refine ⟨hC, fun w hw ↦ ⟨hC.legal w hw, ?_⟩⟩
  obtain ⟨c, hc, hw⟩ := List.mem_flatMap.1 hw
  refine (System.all_of_run (P := fun _ ↦ Stmt.Runtime) (A := fun _ _ ↦ True) ?_ h).1 c hc w hw
  intro S i p hp
  obtain ⟨op, rfl⟩ := hp i p rfl
  exact runtime_program (executor i) op fun _ _ ↦ trivial

end

/-! ### Computed runs -/

/-- An executor on which every name is registered. -/
def anyName (executorId : String) : DbosInner :=
  ⟨executorId, "v", none, fun _ ↦ some ⟨3, none, none⟩⟩

/-- Whether the operation of a session has returned a value. -/
def returnedOk {V : Type}
    (s : Session Db Key Row Stmt Stmt.Res SqlError Ask Ask.Ans (OperationResult V)) : Bool :=
  match s.prog with
  | .pure (_, .ok _) => true
  | _ => false

theorem exists_of_returnedOk {V : Type}
    {s : Session Db Key Row Stmt Stmt.Res SqlError Ask Ask.Ans (OperationResult V)}
    (h : returnedOk s = true) : ∃ r v, s.prog = .pure r ∧ r.2 = .ok v := by
  obtain ⟨p, c, b⟩ := s
  cases p with
  | pure r =>
    obtain ⟨op, e | v⟩ := r
    · cases h
    · exact ⟨(op, .ok v), v, rfl, rfl⟩
  | _ => cases h

/-- Session `i` sends its next statement, which is carried out at once. -/
def sendOne {V : Type} (i : ℕ) : List (RuntimeLabel V) := [.issue i, .finish i fun _ ↦ 0]

/-- Session `i` begins or ends a transaction. -/
def commandOne {V : Type} (i : ℕ) : List (RuntimeLabel V) := [.finish i fun _ ↦ 0]

/-- Session `i` gets its question answered when the clock stands at `now`. -/
def answerOne {V : Type} (i : ℕ) (now : ℤ) : List (RuntimeLabel V) := [.answer i (answersAt now "")]

end Dbos
