import DbosTransact.Foundation.Effects
import DbosTransact.Runtime.Mailbox
import DbosTransact.Runtime.Replay
import DbosTransact.Runtime.Streams
import DbosTransact.Serialize.Values

/-!
# What a durable call commits

A durable call commits one transaction for its step id: what it does to the database, if anything,
and with it the record of the step (`Invocation.Commits`). A wait records its deadline at the next
step id first, and the start of a child that has exceeded its attempts commits what
`insert_workflow_status` wrote, but no record.

When a call returns, the record is there, and what it returns is what the record says
(`Invocation.Reads`): it has decoded the record, or written it for the value it returns. This is one
theorem about all the calls, `wpM_invocation`; that a call whose step is recorded already runs no
user code comes with it.
-/

namespace Dbos

open Txn

section

variable {v : DbView Stmt} {w key : String} {n : ℕ} {row : EventRow} {u : Unit} {ch : Changes}

theorem Stmt.upsertWorkflowEvent_done
    (h : run v (.upsertWorkflowEvent w key row) = .done u ch) : ∃ old,
      store.record (Stmt.upsertWorkflowEvent w key row) v.cur ch =
        [⟨.workflowEvents w key, old, some row, .upsertWorkflowEvent w key row⟩] := by
  simp only [run] at h
  split at h
  · cases h
  · obtain ⟨r, hr, -⟩ := Outcome.map_eq_done.1 h
    obtain ⟨rfl, hcase⟩ := View.upsert_done hr
    have hrow : r = row := by rcases hcase with ⟨-, rfl⟩ | ⟨-, -, rfl⟩ <;> rfl
    rw [hrow]
    exact ⟨_, rfl⟩

theorem Stmt.insertWorkflowEventHistory_done
    (h : run v (.insertWorkflowEventHistory w n key row) = .done u ch) : ∃ old,
      store.record (Stmt.insertWorkflowEventHistory w n key row) v.cur ch =
        [⟨.workflowEventsHistory w n key, old, some row,
          .insertWorkflowEventHistory w n key row⟩] := by
  simp only [run] at h
  split at h
  · cases h
  · obtain ⟨r, hr, -⟩ := Outcome.map_eq_done.1 h
    obtain ⟨rfl, hcase⟩ := View.upsert_done hr
    have hrow : r = row := by rcases hcase with ⟨-, rfl⟩ | ⟨-, -, rfl⟩ <;> rfl
    rw [hrow]
    exact ⟨_, rfl⟩

end

section

variable [SerdeJson] {V : Type}

/-- The text a value is stored as. -/
def storedText (codec : Serde V) (value : V) : Except DbosError String :=
  have := codec
  encodeValue value .portable

/-- What a call with step id `n` of workflow `w` writes in the transaction that records the step. -/
def Invocation.Effects (w : String) (n : ℕ) : Invocation V → List DbWrite → Prop
  | send destinationId codec message topic, ws =>
    ∃ uuid text now, storedText codec message = .ok text ∧
      ∃ row : NotificationRow,
        row = ⟨destinationId, storedTopic topic, text, now, some Format.portable.name, false⟩ ∧
        ws = [⟨.notifications uuid, none, some row, .insertNotification uuid row⟩]
  | recv _ topic _, ws => ws = [] ∨ ∃ uuid, ∃ r : NotificationRow,
      ws = [⟨.notifications uuid, some r, some { r with consumed := true },
        .consumeOldestNotification w (storedTopic topic)⟩]
  | setEvent key codec value, ws => ∃ text old old', storedText codec value = .ok text ∧
      ∃ row : EventRow, row = ⟨text, some Format.portable.name⟩ ∧
        ws = [⟨.workflowEvents w key, old, some row, .upsertWorkflowEvent w key row⟩,
          ⟨.workflowEventsHistory w n key, old', some row, .insertWorkflowEventHistory w n key row⟩]
  | writeStream key codec value, ws => ∃ i row,
      (writeStream key codec value).appends key n = some row ∧
        ws = [⟨.streams w key i, none, some row, .insertStream w key row⟩]
  | closeStream key, ws => ∃ i row,
      (closeStream (V := V) key).appends key n = some row ∧
        ws = [⟨.streams w key i, none, some row, .insertStream w key row⟩]
  | _, ws => ws = []

/-- The insert of a child by a call on the executor `inner`. -/
def Invocation.Starts (inner : DbosInner) : Invocation V → Upsert → Prop
  | runWorkflow name _ _ _, u => u.input.name = name ∧ ∃ entry, inner.registry name = some entry ∧
      u.maxRetries = entry.maxRetries
  | _, _ => False

/-- What a transaction of a call writes: nothing but reads, the deadline of a wait, the effect of
the call and the record of its step, or the insert of a child, which is recorded unless it has
exceeded its attempts. -/
inductive Invocation.Commits (inner : DbosInner) (w : String) (n : ℕ) (inv : Invocation V) :
    List DbWrite → Prop
  | reads : Commits inner w n inv []
  | deadline (row : OperationRow) (hsleeps : inv.kind.sleeps = true)
      (hname : row.functionName = "DBOS.sleep") : Commits inner w n inv [recordWrite w (n + 1) row]
  | step (ws : List DbWrite) (row : OperationRow) (hchild : inv.kind.isChild = false)
      (hws : inv.Effects w n ws) (hname : row.functionName = inv.kind.recordName) :
      Commits inner w n inv (ws ++ [recordWrite w n row])
  | child (u : Upsert) (row : OperationRow) (hu : inv.Starts inner u)
      (hrow : row.childWorkflowId = some u.input.workflowId) :
      Commits inner w n inv (u.writes ++ [recordWrite w n row])
  | exceeded (u : Upsert) (hu : inv.Starts inner u) (h : u.exceeds = true) :
      Commits inner w n inv u.writes

/-- The record is that of the value: it decodes to it, or was written for it. -/
def StoredAs (codec : Serde V) (row : OperationRow) (value : V) : Prop :=
  have := codec
  decodeStep V ⟨row.output, row.error, row.serialization⟩ = .ok value ∨
    row.error = none ∧ row.serialization = some Format.portable.name ∧
      ∃ text, storedText codec value = .ok text ∧ row.output = some text

/-- What a call returns whose record is `row`. -/
def Invocation.Reads (row : OperationRow) : Invocation V → Reply V → Prop
  | runStep _ codec _, .value v => StoredAs codec row v
  | runStepWith _ _ codec _, .value v => StoredAs codec row v
  | runWorkflow .., .child handle => row.childWorkflowId = some handle.id
  | send .., .done => True
  | recv codec _ _, .received v =>
    have := codec
    decodeOptional V ⟨row.output, row.error, row.serialization⟩ = .ok v
  | setEvent .., .done => True
  | getEvent codec _ _ _, .received v =>
    have := codec
    decodeOptional V ⟨row.output, row.error, row.serialization⟩ = .ok v
  | writeStream .., .done => True
  | closeStream _, .done => True
  | sleep _, .slept remaining => ∃ deadline now,
      decodeValue ℤ row.output row.serialization = .ok deadline ∧
        remaining = max (asI64 (deadline - now)) 0
  | _, _ => False

/-- The record of the step is there, under the name of the call unless the call starts a child, and
the reply is what it says. A child is found by its id, whatever name the record is under. -/
def Invocation.Recorded (w : String) (n : ℕ) (inv : Invocation V) (reply : Reply V) (db : Db) :
    Prop :=
  ∃ row, db.operation w n = some row ∧
    (inv.kind.isChild = false → row.functionName = inv.kind.recordName) ∧ inv.Reads row reply

/-- The rows of the operations of a workflow are still there. -/
def KeepsOperations (w : String) (db db' : Db) : Prop :=
  ∀ k row, db.operation w k = some row → db'.operation w k = some row

/-- What a call with step id `n` of workflow `w` goes by. If the step is `done` it runs no user
code. -/
def callSpec (valid : DbMoment → (q : Ask) → q.Ans → Bool) (inner : DbosInner) (w : String) (n : ℕ)
    (inv : Invocation V) (done : Prop) : DbSpec where
  rely m m' := m.Before m' ∧ KeepsOperations w m.db m'.db
  rely_refl m := ⟨.refl m, fun _ _ ↦ id⟩
  rely_trans h h' := ⟨h.1.trans h'.1, fun k row hrow ↦ h'.2 k row (h.2 k row hrow)⟩
  valid := valid
  guar _ e := inv.Commits inner w n e.writes
  may _ a := done → a.ask.isUserCode = false

variable {valid : DbMoment → (q : Ask) → q.Ans → Bool} {inner : DbosInner} {w : String} {n : ℕ}
variable {inv : Invocation V} {done : Prop} {m : DbMoment} {τ : DbTrace} {α : Type}

theorem ignoresReads_callSpec : IgnoresReads (callSpec valid inner w n inv done) :=
  ⟨fun m ↦ ⟨m.before_after server [], fun _ _ ↦ id⟩, fun _ _ _ ↦ .reads⟩

/-! ### Records -/

omit [SerdeJson] in
theorem operation_apply_record (db : Db) (ws : List DbWrite) (k : ℕ) (row : OperationRow) :
    (server.apply db (ws ++ [recordWrite w k row])).operation w k = some row := by
  rw [server.apply_append]
  exact store.look_put_self (server.apply db ws) (.operationOutputs w k) (some row)

/-- The transaction of a call, from the record of its step on. -/
theorem wpM_record_commit (hchild : inv.kind.isChild = false) {name : String}
    {output error child ser : Option String} {ws : List DbWrite} (hws : inv.Effects w n ws)
    (hname : name = inv.kind.recordName) {f : Unit → DbosM α} {Q : DbPost α}
    (hf : ∀ m τ now, m.db.operation w n =
        some ⟨name, output, error, child, some now, some now, ser⟩ →
      wpM (callSpec valid inner w n inv done) (f ()) Q (fun _ _ _ _ ↦ True) .idle m τ) :
    wpM (callSpec valid inner w n inv done) (do
        recordOperationResult w n name output error child ser
        commitTx
        f ()) Q (fun _ _ _ _ ↦ True) (.active ⟨.readCommitted, none, ws⟩) m τ := by
  refine wpM_bind (wpM_mono (wpM_record fun _ _ _ _ ↦ rfl) ?_ fun _ _ _ _ _ ↦ trivial)
  rintro - c m₁ τ₁ ⟨-, now, rfl⟩
  exact wpM_commit (fun _ _ _ ↦ .step ws _ hchild hws hname) (fun _ _ _ _ ↦ trivial)
    (fun _ _ _ ↦ hf _ _ now (operation_apply_record ..)) fun _ _ _ _ _ _ _ ↦ trivial

/-- A record outside a transaction. -/
theorem wpM_record_alone {k : ℕ} {name : String} {output error child ser : Option String}
    (hcommits : ∀ row : OperationRow, row.functionName = name →
      inv.Commits inner w n [recordWrite w k row]) :
    wpM (callSpec valid inner w n inv done) (recordOperationResult w k name output error child ser)
      (fun _ c m _ ↦ c = .idle ∧ ∃ now, m.db.operation w k =
        some ⟨name, output, error, child, some now, some now, ser⟩)
      (fun _ c _ _ ↦ c = .idle) .idle m τ := by
  rw [recordOperationResult]
  refine wpM_ask fun m₁ _ now _ ↦ ⟨fun _ ↦ rfl, ?_⟩
  refine wpM_execute_idle (fun b m₂ e _ _ _ ↦ ?_) fun b m₂ v a ch _ _ hv hrun ↦ ?_
  · dsimp only
    split <;> exact wpM_throw fun _ _ ↦ rfl
  · obtain ⟨hnone, -, rfl⟩ := View.insert_done hrun
    rw [hv.cur] at hnone
    rw [store.record_insert hnone]
    have hafter : (m₂.after server [recordWrite w k
        ⟨name, output, error, child, some now, some now, ser⟩]).db.operation w k =
          some ⟨name, output, error, child, some now, some now, ser⟩ :=
      operation_apply_record m₂.db [] k _
    refine ⟨hcommits _ rfl, wpM_pure fun m₃ hm₃ ↦ ⟨rfl, now, hm₃.2 k _ hafter⟩, fun _ e ↦ ?_⟩
    dsimp only
    split <;> exact wpM_throw fun _ _ ↦ rfl

/-- The lookup every call begins with finds the record, or nothing if the step has not been `seen`
to be recorded. -/
theorem wpM_call_lookup {k : ℕ} {name : String} {f : Option RecordedOperation → DbosM α}
    {Q : DbPost α} {X : DbPost DbosError} (seen : Prop) (hX : ∀ e m τ, X e .idle m τ)
    (hseen : seen → ∃ row, m.db.operation w k = some row)
    (hnone : ¬seen → ∀ m τ, wpM (callSpec valid inner w n inv done) (f none) Q X .idle m τ)
    (hsome : ∀ m τ row, m.db.operation w k = some row → row.functionName = name →
      wpM (callSpec valid inner w n inv done)
        (f (some ⟨row.output, row.error, row.serialization⟩)) Q X .idle m τ) :
    wpM (callSpec valid inner w n inv done) (checkOperationExecution w k name >>= f) Q X .idle m
      τ := by
  refine wpM_bind (wpM_mono (wpM_checkOperationExecution ignoresReads_callSpec) ?_ ?_)
  · rintro found c m₁ τ₁ ⟨rfl, -, b, b', hb, hb', hm₁, -, hfound⟩
    rcases found with - | recorded
    · refine hnone (fun hs ↦ ?_) m₁ τ₁
      obtain ⟨row, hrow⟩ := hseen hs
      have hthere := hb'.2 _ _ (hb.2 _ _ hrow)
      rw [recordedAt_eq_none.1 hfound] at hthere
      cases hthere
    · obtain ⟨row, hrow, hname, rfl⟩ := recordedAt_eq_some.1 hfound
      exact hsome m₁ τ₁ row (hm₁.2 _ _ hrow) hname
  · rintro e c m₁ τ₁ ⟨rfl, -⟩
    exact hX e m₁ τ₁

/-! ### Waits -/

/-- A recorded deadline is read back. -/
theorem decodeValue_deadline {t : ℤ} {text : String}
    (h : encodeValue (asI64 t) .portable = .ok text) :
    decodeValue ℤ (some text) (some Format.portable.name) = .ok (asI64 t) := by
  have hwrap : asI64 (asI64 t) = asI64 t := Int.bmod_bmod
  have hprintable : (Json.number (.int (asI64 t))).printable Json.depthLimit = true := by
    have hle : -2 ^ 63 ≤ asI64 t := Int.le_bmod (by decide)
    have hlt : asI64 t < 2 ^ 63 := Int.bmod_lt (by decide)
    simp only [Json.printable, Bool.and_eq_true, decide_eq_true_eq]
    omega
  have hparse : SerdeJson.parseValue (SerdeJson.toString (.number (.int (asI64 t)))) =
      .ok (.number (.int (asI64 t))) := by
    rw [SerdeJson.parseValue, SerdeJson.fromStr_toString _ hprintable]
    rfl
  obtain rfl : encodeJsonValue (.number (.int (asI64 t))) .portable = text := Except.ok.inj h
  have hjson : decodeToJson (some (encodeJsonValue (.number (.int (asI64 t))) .portable))
      (some portableName) = .ok (.number (.int (asI64 t))) := by
    rw [encodeJsonValue_portable, decodeToJson_portable]
    split
    · cases eq_null_of_toString hparse (by assumption)
    · exact hparse
  rw [decodeValue, show Format.portable.name = portableName from rfl, hjson]
  show fromValue (.number (.int (asI64 t))) = .ok (asI64 t)
  simp [fromValue, Serde.fromValue, hwrap]

/-- A durable wait is measured against the deadline recorded for it. -/
theorem wpM_recordSleep {k duration : ℕ}
    (hcommits : ∀ row : OperationRow, row.functionName = "DBOS.sleep" →
      inv.Commits inner w n [recordWrite w k row]) :
    wpM (callSpec valid inner w n inv done) (recordSleep w k duration)
      (fun remaining c m _ ↦ c = .idle ∧ ∃ row, m.db.operation w k = some row ∧
        row.functionName = "DBOS.sleep" ∧ ∃ deadline now,
          decodeValue ℤ row.output row.serialization = .ok deadline ∧
            remaining = max (asI64 (deadline - now)) 0)
      (fun _ c _ _ ↦ c = .idle) .idle m τ := by
  have hfound : ∀ (m : DbMoment) (τ : DbTrace) (row : OperationRow),
      m.db.operation w k = some row → row.functionName = "DBOS.sleep" →
      wpM (callSpec valid inner w n inv done)
        (ofExcept (decodeValue ℤ row.output row.serialization))
        (fun deadline c m _ ↦ c = .idle ∧ ∃ row, m.db.operation w k = some row ∧
          row.functionName = "DBOS.sleep" ∧
          decodeValue ℤ row.output row.serialization = .ok deadline)
        (fun _ c _ _ ↦ c = .idle) .idle m τ :=
    fun m τ row hrow hname ↦ wpM_ofExcept (fun deadline m₁ hread hm₁ ↦
      ⟨rfl, row, hm₁.2 _ _ hrow, hname, hread⟩) fun _ _ _ _ ↦ rfl
  have hdeadline : wpM (callSpec valid inner w n inv done) (sleepDeadline w k duration)
      (fun deadline c m _ ↦ c = .idle ∧ ∃ row, m.db.operation w k = some row ∧
        row.functionName = "DBOS.sleep" ∧ decodeValue ℤ row.output row.serialization = .ok deadline)
      (fun _ c _ _ ↦ c = .idle) .idle m τ := by
    rw [sleepDeadline]
    refine wpM_call_lookup False (fun _ _ _ ↦ rfl) False.elim (fun _ m₁ τ₁ ↦ ?_) hfound
    refine wpM_ask fun m₂ _ now _ ↦ ⟨fun _ ↦ rfl, ?_⟩
    refine wpM_bind (wpM_ofExcept (fun text m₃ htext _ ↦ ?_) fun _ _ _ _ ↦ rfl)
    refine wpM_bind (wpM_attempt (wpM_mono (wpM_record_alone hcommits) ?_ ?_))
    · rintro - c m₄ τ₄ ⟨rfl, now', hrow⟩
      exact wpM_pure fun m₅ hm₅ ↦ ⟨rfl, _, hm₅.2 _ _ hrow, rfl, decodeValue_deadline htext⟩
    · rintro e c m₄ τ₄ rfl
      dsimp only
      split
      · exact wpM_call_lookup False (fun _ _ _ ↦ rfl) False.elim
          (fun _ _ _ ↦ wpM_throw fun _ _ ↦ rfl) hfound
      · exact wpM_throw fun _ _ ↦ rfl
  rw [recordSleep]
  refine wpM_bind (wpM_mono hdeadline ?_ fun _ _ _ _ h ↦ h)
  rintro deadline c m₁ τ₁ ⟨rfl, row, hrow, hname, hread⟩
  refine wpM_ask fun m₂ hm₂ now _ ↦ ⟨fun _ ↦ rfl, wpM_pure fun m₃ hm₃ ↦ ?_⟩
  exact ⟨rfl, row, hm₃.2 _ _ (hm₂.2 _ _ hrow), hname, deadline, now, hread, rfl⟩

/-- A wait for a message only reads. -/
theorem wpM_awaitMessage {topic : String} (polls : ℕ) :
    wpM (callSpec valid inner w n inv done) (awaitMessage w topic polls) (fun _ c _ _ ↦ c = .idle)
      (fun _ c _ _ ↦ c = .idle) .idle m τ := by
  have hprobe : ∀ {m : DbMoment} {τ : DbTrace} {f : Bool → DbosM Unit},
      (∀ found m τ, wpM (callSpec valid inner w n inv done) (f found) (fun _ c _ _ ↦ c = .idle)
        (fun _ c _ _ ↦ c = .idle) .idle m τ) →
      wpM (callSpec valid inner w n inv done) (notificationExistsUnconsumed w topic >>= f)
        (fun _ c _ _ ↦ c = .idle) (fun _ c _ _ ↦ c = .idle) .idle m τ := fun hf ↦
    wpM_read ignoresReads_callSpec (g := fun db ↦ db.notifications.rows.any fun e ↦
      e.2.destinationUuid = w && e.2.topic = topic && !e.2.consumed) (fun _ ↦ rfl)
      (fun _ _ _ _ _ ↦ rfl) fun _ m₁ τ₁ _ _ ↦ hf _ m₁ τ₁
  induction polls generalizing m τ with
  | zero => exact hprobe fun _ _ _ ↦ wpM_pure fun _ _ ↦ rfl
  | succ polls ih =>
    refine hprobe fun found m₁ τ₁ ↦ ?_
    split
    · exact wpM_pure fun _ _ ↦ rfl
    · exact ih

/-- A wait for an event only reads. -/
theorem wpM_awaitEvent {target key : String} (polls : ℕ) :
    wpM (callSpec valid inner w n inv done) (awaitEvent target key polls) (fun _ c _ _ ↦ c = .idle)
      (fun _ c _ _ ↦ c = .idle) .idle m τ := by
  have hselect : ∀ {m : DbMoment} {τ : DbTrace}
      {f : Option (String × Option String) → DbosM (Option (String × Option String))},
      (∀ found m τ, wpM (callSpec valid inner w n inv done) (f found) (fun _ c _ _ ↦ c = .idle)
        (fun _ c _ _ ↦ c = .idle) .idle m τ) →
      wpM (callSpec valid inner w n inv done) (selectWorkflowEvent target key >>= f)
        (fun _ c _ _ ↦ c = .idle) (fun _ c _ _ ↦ c = .idle) .idle m τ := by
    intro m τ f hf
    rw [selectWorkflowEvent, bind_assoc]
    exact wpM_read ignoresReads_callSpec (g := fun db ↦ db.workflowEvents.lookup (target, key))
      (fun _ ↦ rfl) (fun _ _ _ _ _ ↦ rfl) fun b m₁ τ₁ _ _ ↦ hf _ m₁ τ₁
  induction polls generalizing m τ with
  | zero =>
    rw [awaitEvent, ← bind_pure (selectWorkflowEvent target key)]
    exact hselect fun found _ _ ↦ wpM_pure fun _ _ ↦ rfl
  | succ polls ih =>
    refine hselect fun found m₁ τ₁ ↦ ?_
    rcases found with - | found
    · exact ih
    · exact wpM_pure fun _ _ ↦ rfl

/-! ### Steps -/

omit [SerdeJson] in
theorem autocommits_executeStepWithRetry {R : Type} {run : DbosM (Except DbosError R)}
    (hrun : Autocommits run) (stepName w : String) (maxRetries : ℕ) :
    Autocommits (executeStepWithRetry run stepName w maxRetries) := by
  have hretry : ∀ n errors, Autocommits (retryStep run stepName w maxRetries n errors) := by
    intro n
    induction n with
    | zero => exact fun errors ↦ autocommits_pure _
    | succ n ih =>
      refine fun errors ↦ hrun.bind ?_
      rintro (e | v)
      · exact ih _
      · exact autocommits_pure _
  refine hrun.bind ?_
  rintro (e | v)
  · dsimp only
    split
    · exact autocommits_pure _
    · exact hretry _ _
  · exact autocommits_pure _

/-- A step that takes its value from a record, or leaves a record of the value it returns. -/
theorem wpM_durableStep (codec : Serde V) (ctx : WorkflowContext)
    (hw : ctx.state.workflowId = w) {name : String} (hchild : inv.kind.isChild = false)
    (heffects : inv.Effects w n [])
    (hname : name = inv.kind.recordName) {run : DbosM (Except DbosError V)}
    (hsends : Sends (fun _ ↦ False) run (fun q ↦ q = .runClosure w n)) (hauto : Autocommits run)
    (hdone : done → ∃ row, m.db.operation w n = some row) :
    wpM (callSpec valid inner w n inv done) (ctx.durableStep n name run)
      (fun v _ m _ ↦ ∃ row, m.db.operation w n = some row ∧ row.functionName = name ∧
        StoredAs codec row v) (fun _ _ _ _ ↦ True) .idle m τ := by
  subst hw
  rw [WorkflowContext.durableStep, replayStep, bind_assoc]
  refine wpM_call_lookup done (fun _ _ _ ↦ trivial) hdone (fun hnot m₁ τ₁ ↦ ?_)
    fun m₁ τ₁ row hrow hrowname ↦ ?_
  · rw [pure_bind]
    refine wpM_bind (wpM_mono (wpM_of_autocommits hsends hauto (fun _ e he ↦ ?_)
      fun _ _ _ hd ↦ (hnot hd).elim) ?_ fun _ _ _ _ _ ↦ trivial)
    · have hempty : e.writes = [] := List.eq_nil_iff_forall_not_mem.2 he
      show inv.Commits inner _ n e.writes
      rw [hempty]
      exact .reads
    rintro result c m₂ τ₂ rfl
    rw [recordStep, bind_assoc]
    refine wpM_bind (wpM_ofExcept (fun columns m₃ hcolumns _ ↦ ?_) fun _ _ _ _ ↦ trivial)
    refine wpM_bind (wpM_mono (wpM_record_alone fun row hrow ↦
      .step [] row hchild heffects (hrow.trans hname)) ?_ fun _ _ _ _ _ ↦ trivial)
    rintro - c m₄ τ₄ ⟨rfl, now, hrow⟩
    refine wpM_ofExcept (fun v m₅ hv hm₅ ↦ ?_) fun _ _ _ _ ↦ trivial
    subst hv
    obtain ⟨text, htext, rfl⟩ : ∃ text, storedText codec v = .ok text ∧
        columns = (some text, none) := by
      cases henc : storedText codec v with
      | error e =>
        have hmap : ((storedText codec v).map fun out ↦ (some out, (none : Option String))) =
          .ok columns := hcolumns
        rw [henc] at hmap
        cases hmap
      | ok text =>
        have hmap : ((storedText codec v).map fun out ↦ (some out, (none : Option String))) =
          .ok columns := hcolumns
        rw [henc] at hmap
        exact ⟨text, rfl, (Except.ok.inj hmap).symm⟩
    exact ⟨_, hm₅.2 _ _ hrow, rfl, Or.inr ⟨rfl, rfl, text, htext, rfl⟩⟩
  · have hthere : ∀ m₂, (callSpec valid inner ctx.state.workflowId n inv done).rely m₁ m₂ →
        m₂.db.operation ctx.state.workflowId n = some row := fun m₂ hm₂ ↦ hm₂.2 _ _ hrow
    cases herror : row.error with
    | some err =>
      dsimp only
      exact wpM_bind (wpM_pure fun _ _ ↦ wpM_throw fun _ _ ↦ trivial)
    | none =>
      dsimp only
      rw [bind_assoc]
      refine wpM_bind (wpM_ofExcept (fun v m₂ hv hm₂ ↦ ?_) fun _ _ _ _ ↦ trivial)
      refine wpM_pure fun m₃ hm₃ ↦ ⟨row, hm₃.2 _ _ (hthere m₂ hm₂), hrowname, Or.inl ?_⟩
      rw [decodeStep, herror]
      exact hv

/-! ### Transactions with an effect -/

/-- A statement of the transaction of a call adds its writes. -/
theorem wpM_call_statement {s : Stmt} {ws : List DbWrite} {f : s.Res → DbosM α} {Q : DbPost α}
    (h : ∀ b m' v a ch τ, ActiveView (pinTx ⟨.readCommitted, none, ws⟩ b) b m' v →
      Stmt.run v s = .done a ch → wpM (callSpec valid inner w n inv done) (f a) Q
        (fun _ _ _ _ ↦ True) (.active ⟨.readCommitted, none, ws ++ store.record s v.cur ch⟩) m' τ) :
    wpM (callSpec valid inner w n inv done) (query s >>= f) Q (fun _ _ _ _ ↦ True)
      (.active ⟨.readCommitted, none, ws⟩) m τ :=
  wpM_query_active (fun _ _ _ _ _ _ _ _ ↦ trivial) fun b m' v a ch _ _ hv hrun ↦
    h b m' v a ch τ hv hrun

theorem wpM_insertNotification {destinationId topic message serialization : String} :
    wpM (callSpec valid inner w n inv done)
      (insertNotification destinationId topic message serialization)
      (fun _ c _ _ ↦ ∃ uuid now, ∃ row : NotificationRow,
        row = ⟨destinationId, topic, message, now, some serialization, false⟩ ∧
        c = .active ⟨.readCommitted, none,
          [⟨.notifications uuid, none, some row, .insertNotification uuid row⟩]⟩)
      (fun _ _ _ _ ↦ True) (.active ⟨.readCommitted, none, []⟩) m τ := by
  rw [insertNotification]
  refine wpM_ask fun m₁ _ uuid _ ↦ ⟨fun _ ↦ rfl, ?_⟩
  refine wpM_ask fun m₂ _ now _ ↦ ⟨fun _ ↦ rfl, ?_⟩
  refine wpM_execute_active (fun b m₃ e _ _ _ ↦ ?_) fun b m₃ v a ch _ _ hv hrun ↦ ?_
  · dsimp only
    split <;> exact wpM_throw fun _ _ ↦ trivial
  · obtain ⟨hnone, -, rfl⟩ := View.insert_done hrun
    rw [store.record_insert hnone]
    exact wpM_pure fun _ _ ↦ ⟨uuid, now, _, rfl, rfl⟩

/-- Send a message and record the step. -/
theorem wpM_call_send (codec : Serde V) (ctx : WorkflowContext) (hw : ctx.state.workflowId = w)
    {destinationId : String} {message : V} {topic : Option String}
    (hinv : inv = .send destinationId codec message topic)
    (hdone : done → ∃ row, m.db.operation w n = some row) :
    wpM (callSpec valid inner w n inv done) (ctx.send n destinationId message topic)
      (fun _ _ m _ ↦ ∃ row, m.db.operation w n = some row ∧ row.functionName = "DBOS.send")
      (fun _ _ _ _ ↦ True) .idle m τ := by
  subst hw
  unfold WorkflowContext.send
  split
  · exact wpM_throw fun _ _ ↦ trivial
  refine wpM_call_lookup done (fun _ _ _ ↦ trivial) hdone (fun _ m₁ τ₁ ↦ ?_)
    fun m₁ τ₁ row hrow hname ↦ wpM_pure fun m₂ hm₂ ↦ ⟨row, hm₂.2 _ _ hrow, hname⟩
  refine wpM_bind (wpM_ofExcept (fun text m₂ htext _ ↦ ?_) fun _ _ _ _ ↦ trivial)
  refine wpM_bind (wpM_ofExcept (fun unit m₃ _ _ ↦ ?_) fun _ _ _ _ ↦ trivial)
  refine wpM_transaction (fun _ _ _ _ ↦ trivial) ?_
  refine wpM_bind (wpM_mono wpM_insertNotification ?_ fun _ _ _ _ _ ↦ trivial)
  rintro - c m₄ τ₄ ⟨uuid, now, row, hrow, rfl⟩
  rw [show (commitTx : DbosM Unit) = commitTx >>= pure from (bind_pure _).symm]
  refine wpM_record_commit (by rw [hinv]; rfl) ?_ (by rw [hinv]; rfl) fun m₅ τ₅ now' hrow ↦
    wpM_pure fun m₆ hm₆ ↦ ⟨_, hm₆.2 _ _ hrow, rfl⟩
  rw [hinv]
  exact ⟨uuid, text, now, htext, row, hrow, rfl⟩

/-- Set an event and record the step. -/
theorem wpM_call_setEvent (codec : Serde V) (ctx : WorkflowContext) (hw : ctx.state.workflowId = w)
    {key : String} {value : V} (hinv : inv = .setEvent key codec value)
    (hdone : done → ∃ row, m.db.operation w n = some row) :
    wpM (callSpec valid inner w n inv done) (ctx.setEvent n key value)
      (fun _ _ m _ ↦ ∃ row, m.db.operation w n = some row ∧ row.functionName = "DBOS.setEvent")
      (fun _ _ _ _ ↦ True) .idle m τ := by
  subst hw
  unfold WorkflowContext.setEvent
  split
  · exact wpM_throw fun _ _ ↦ trivial
  refine wpM_call_lookup done (fun _ _ _ ↦ trivial) hdone (fun _ m₁ τ₁ ↦ ?_)
    fun m₁ τ₁ row hrow hname ↦ wpM_pure fun m₂ hm₂ ↦ ⟨row, hm₂.2 _ _ hrow, hname⟩
  refine wpM_bind (wpM_ofExcept (fun text m₂ htext _ ↦ ?_) fun _ _ _ _ ↦ trivial)
  refine wpM_bind (wpM_ofExcept (fun unit m₃ _ _ ↦ ?_) fun _ _ _ _ ↦ trivial)
  refine wpM_transaction (fun _ _ _ _ ↦ trivial) ?_
  refine wpM_call_statement fun b m₄ v a ch τ₄ _ hrun ↦ ?_
  refine wpM_call_statement fun b' m₅ v' a' ch' τ₅ _ hrun' ↦ ?_
  rw [show (commitTx : DbosM Unit) = commitTx >>= pure from (bind_pure _).symm]
  refine wpM_record_commit (by rw [hinv]; rfl) ?_ (by rw [hinv]; rfl) fun m₇ τ₇ now' hrow ↦
    wpM_pure fun m₈ hm₈ ↦ ⟨_, hm₈.2 _ _ hrow, rfl⟩
  obtain ⟨old, hevent⟩ := Stmt.upsertWorkflowEvent_done hrun
  obtain ⟨old', hhistory⟩ := Stmt.insertWorkflowEventHistory_done hrun'
  rw [hinv, hevent, hhistory]
  exact ⟨text, old, old', htext, _, rfl, rfl⟩

/-- Append to a stream and record the step. -/
theorem wpM_appendToStream (ctx : WorkflowContext) (hw : ctx.state.workflowId = w) {key : String}
    (row : StreamRow) (hrow : row.functionId = n) (hchild : inv.kind.isChild = false)
    (heffects : ∀ i, inv.Effects w n [⟨.streams w key i, none, some row, .insertStream w key row⟩])
    (hdone : done → ∃ row, m.db.operation w n = some row) :
    wpM (callSpec valid inner w n inv done)
      (ctx.writeStreamRaw n key inv.kind.recordName row.value row.serialization)
      (fun _ _ m _ ↦ ∃ row, m.db.operation w n = some row ∧ row.functionName = inv.kind.recordName)
      (fun _ _ _ _ ↦ True) .idle m τ := by
  subst hw hrow
  unfold WorkflowContext.writeStreamRaw
  split
  · exact wpM_throw fun _ _ ↦ trivial
  refine wpM_call_lookup done (fun _ _ _ ↦ trivial) hdone (fun _ m₁ τ₁ ↦ ?_)
    fun m₁ τ₁ row hrow hname ↦ wpM_pure fun m₂ hm₂ ↦ ⟨row, hm₂.2 _ _ hrow, hname⟩
  refine wpM_bind (wpM_ofExcept (fun unit m₂ _ _ ↦ ?_) fun _ _ _ _ ↦ trivial)
  refine wpM_transaction (fun _ _ _ _ ↦ trivial) ?_
  rw [writeStreamEntry, bind_assoc]
  refine wpM_read_active (g := fun db ↦ db.streams.rows.any fun e ↦
    e.1.1 = ctx.state.workflowId && e.1.2.1 = key && e.2.value = streamClosedSentinel)
    (fun _ ↦ rfl) (fun _ _ _ _ ↦ trivial) fun b m₃ _ _ ↦ ?_
  split
  · exact wpM_bind (wpM_throw fun _ _ ↦ trivial)
  refine wpM_call_statement fun b' m₄ v a ch τ₄ _ hrun ↦ ?_
  obtain ⟨hnone, -, rfl⟩ := View.insert_done hrun
  rw [store.record_insert hnone, show (commitTx : DbosM Unit) = commitTx >>= pure from
    (bind_pure _).symm]
  exact wpM_record_commit hchild (heffects _) rfl fun m₇ τ₇ now' hrow ↦ wpM_pure fun m₈ hm₈ ↦
    ⟨_, hm₈.2 _ _ hrow, rfl⟩

/-- What is recorded of a payload that was found is what is decoded from it. -/
theorem decodeOptional_found (codec : Serde V) (found : Option (String × Option String)) :
    have := codec
    decodeOptional V ⟨found.map Prod.fst, none, some (foundFormat found)⟩ =
      decodeFound V found := by
  rcases found with - | ⟨text, - | ser⟩ <;> rfl

omit [SerdeJson] in
/-- What the consuming update gives back, with its writes. -/
theorem Stmt.consumeOldestNotification_done {v : DbView Stmt} {topic : String}
    {a : Option (String × Option String)} {ch : Changes}
    (h : run v (.consumeOldestNotification w topic) = .done a ch) :
    (a = none ∧ store.record (Stmt.consumeOldestNotification w topic) v.cur ch = []) ∨
      ∃ uuid, ∃ r : NotificationRow, oldestUnconsumed v w topic = some uuid ∧
        a = some (r.message, r.serialization) ∧
        store.record (Stmt.consumeOldestNotification w topic) v.cur ch =
          [⟨.notifications uuid, some r, some { r with consumed := true },
            .consumeOldestNotification w topic⟩] := by
  simp only [run, runConsumeOldestNotification] at h
  split at h
  · cases h
    exact Or.inl ⟨rfl, rfl⟩
  · rename_i uuid huuid
    obtain ⟨r, hr, rfl⟩ := Outcome.map_eq_done.1 h
    rcases View.update_done hr with ⟨rfl, rfl⟩ | ⟨old, hold, -, rfl, rfl⟩
    · exact Or.inl ⟨rfl, rfl⟩
    · refine Or.inr ⟨uuid, old, huuid, rfl, ?_⟩
      rw [Store.record, hold]
      rfl

/-- Consume a message, if there is one in time, and record it. -/
theorem wpM_call_recv (codec : Serde V) (ctx : WorkflowContext) (hw : ctx.state.workflowId = w)
    {topic : Option String} {timeout : ℕ} (hinv : inv = .recv codec topic timeout)
    (hdone : done → ∃ row, m.db.operation w n = some row) :
    wpM (callSpec valid inner w n inv done) (ctx.recv n V topic timeout)
      (fun v _ m _ ↦ ∃ row, m.db.operation w n = some row ∧ row.functionName = "DBOS.recv" ∧
        decodeOptional V ⟨row.output, row.error, row.serialization⟩ = .ok v)
      (fun _ _ _ _ ↦ True) .idle m τ := by
  have hchild : inv.kind.isChild = false := by rw [hinv]; rfl
  have hname : "DBOS.recv" = inv.kind.recordName := by rw [hinv]; rfl
  subst hw
  unfold WorkflowContext.recv
  split
  · exact wpM_throw fun _ _ ↦ trivial
  refine wpM_call_lookup done (fun _ _ _ ↦ trivial) hdone (fun _ m₁ τ₁ ↦ ?_)
    fun m₁ τ₁ row hrow hname ↦ wpM_ofExcept (fun v m₂ hv hm₂ ↦ ⟨row, hm₂.2 _ _ hrow, hname, hv⟩)
      fun _ _ _ _ ↦ trivial
  refine wpM_ask fun m₂ _ vacant _ ↦ ⟨fun _ ↦ rfl, ?_⟩
  split
  · refine wpM_bind (wpM_mono (wpM_recordSleep fun row hrow ↦
      .deadline row (by rw [hinv]; rfl) hrow) ?_ fun _ _ _ _ _ ↦ trivial)
    rintro - c m₃ τ₃ ⟨rfl, -⟩
    refine wpM_ask fun m₄ _ polls _ ↦ ⟨fun _ ↦ rfl, ?_⟩
    refine wpM_bind (wpM_mono (wpM_awaitMessage polls) ?_ fun _ _ _ _ _ ↦ trivial)
    rintro - c m₅ τ₅ rfl
    refine wpM_bind (wpM_mono (Q := fun consumed c m _ ↦ c = .idle ∧ ∃ row,
      m.db.operation ctx.state.workflowId n = some row ∧ row.functionName = "DBOS.recv" ∧
        decodeOptional V ⟨row.output, row.error, row.serialization⟩ = decodeFound V consumed)
      (X := fun _ _ _ _ ↦ True) ?_ ?_ fun _ _ _ _ _ ↦ trivial)
    · refine wpM_transaction (fun _ _ _ _ ↦ trivial) ?_
      refine wpM_call_statement fun b m₆ v a ch τ₆ _ hrun ↦ ?_
      refine wpM_record_commit (f := fun _ ↦ pure a) hchild ?_ hname fun m₇ τ₇ now hrow ↦
        wpM_pure fun m₈ hm₈ ↦ ⟨rfl, _, hm₈.2 _ _ hrow, rfl, decodeOptional_found codec a⟩
      rw [hinv]
      rcases Stmt.consumeOldestNotification_done hrun with ⟨-, hnone⟩ | ⟨uuid, r, -, -, hsome⟩
      · exact Or.inl (by rw [hnone]; rfl)
      · exact Or.inr ⟨uuid, r, by rw [hsome]; rfl⟩
    · rintro consumed c m₆ τ₆ ⟨rfl, row, hrow, hname, hread⟩
      exact wpM_ofExcept (fun v m₇ hv hm₇ ↦ ⟨row, hm₇.2 _ _ hrow, hname, hread.trans hv⟩)
        fun _ _ _ _ ↦ trivial
  · exact wpM_throw fun _ _ ↦ trivial

/-- Wait for an event and record what was found. -/
theorem wpM_call_getEvent (codec : Serde V) (ctx : WorkflowContext) (hw : ctx.state.workflowId = w)
    {target key : String} {timeout : ℕ} (hinv : inv = .getEvent codec target key timeout)
    (hdone : done → ∃ row, m.db.operation w n = some row) :
    wpM (callSpec valid inner w n inv done) (ctx.getEvent n V target key timeout)
      (fun v _ m _ ↦ ∃ row, m.db.operation w n = some row ∧ row.functionName = "DBOS.getEvent" ∧
        decodeOptional V ⟨row.output, row.error, row.serialization⟩ = .ok v)
      (fun _ _ _ _ ↦ True) .idle m τ := by
  subst hw
  unfold WorkflowContext.getEvent
  split
  · exact wpM_throw fun _ _ ↦ trivial
  refine wpM_call_lookup done (fun _ _ _ ↦ trivial) hdone (fun _ m₁ τ₁ ↦ ?_)
    fun m₁ τ₁ row hrow hname ↦ wpM_ofExcept (fun v m₂ hv hm₂ ↦ ⟨row, hm₂.2 _ _ hrow, hname, hv⟩)
      fun _ _ _ _ ↦ trivial
  refine wpM_bind (wpM_mono (wpM_recordSleep fun row hrow ↦
    .deadline row (by rw [hinv]; rfl) hrow) ?_ fun _ _ _ _ _ ↦ trivial)
  rintro - c m₂ τ₂ ⟨rfl, -⟩
  refine wpM_ask fun m₃ _ polls _ ↦ ⟨fun _ ↦ rfl, ?_⟩
  refine wpM_bind (wpM_mono (wpM_awaitEvent polls) ?_ fun _ _ _ _ _ ↦ trivial)
  rintro found c m₄ τ₄ rfl
  refine wpM_bind (wpM_mono (wpM_record_alone fun row hrow ↦
      .step [] row (by rw [hinv]; rfl) (by rw [hinv]; rfl) (by rw [hrow, hinv]; rfl)) ?_
    fun _ _ _ _ _ ↦ trivial)
  rintro - c m₅ τ₅ ⟨rfl, now, hrow⟩
  exact wpM_ofExcept (fun v m₆ hv hm₆ ↦ ⟨_, hm₆.2 _ _ hrow, rfl,
    (decodeOptional_found codec found).trans hv⟩) fun _ _ _ _ ↦ trivial

/-! ### Children -/

omit [SerdeJson] in
/-- The inserts of one transaction are one. -/
theorem Upsert.eq_of_writes {u u' : Upsert} {ws ws' : List DbWrite}
    (h : u.writes ++ ws = u'.writes ++ ws') (hmax : u.maxRetries = u'.maxRetries) : u = u' := by
  have hhead := congrArg List.head? h
  simp only [Upsert.writes, List.cons_append, List.head?_cons, Option.some.injEq] at hhead
  obtain ⟨-, hold, -, hinput⟩ : u.input.workflowId = u'.input.workflowId ∧ u.old = u'.old ∧
      u.row = u'.row ∧ u.input = u'.input := by simpa using hhead
  obtain ⟨input, maxRetries, old⟩ := u
  obtain ⟨input', maxRetries', old'⟩ := u'
  dsimp only at hold hinput hmax
  rw [hold, hinput, hmax]

omit [SerdeJson] in
theorem Invocation.Starts.maxRetries {u u' : Upsert} (h : inv.Starts inner u)
    (h' : inv.Starts inner u') : u.maxRetries = u'.maxRetries := by
  cases inv with
  | runWorkflow name codec input opts =>
    obtain ⟨-, entry, hentry, hmax⟩ := h
    obtain ⟨-, entry', hentry', hmax'⟩ := h'
    rw [hentry] at hentry'
    rw [hmax, hmax', Option.some.inj hentry']
  | _ => cases h

omit [SerdeJson] in
theorem Invocation.Starts.isChild {u : Upsert} (h : inv.Starts inner u) :
    inv.kind.isChild = true := by
  cases inv with
  | runWorkflow => rfl
  | _ => cases h

/-- A transaction that inserts a child which has not exceeded its attempts records it. -/
theorem Invocation.Commits.of_start {u : Upsert} {ws : List DbWrite}
    (h : inv.Commits inner w n (u.writes ++ ws)) (hu : inv.Starts inner u)
    (hexceeds : u.exceeds = false) :
    ∃ row, row.childWorkflowId = some u.input.workflowId ∧
      u.writes ++ ws = u.writes ++ [recordWrite w n row] := by
  have hhead : ∀ (row : OperationRow) (k : ℕ), u.writes ++ ws ≠ [recordWrite w k row] := by
    intro row k heq
    rw [Upsert.writes, List.cons_append] at heq
    cases (List.cons.inj heq).1
  generalize hall : u.writes ++ ws = all at h
  cases h with
  | reads =>
    rw [Upsert.writes] at hall
    cases hall
  | deadline row _ _ => exact (hhead row (n + 1) hall).elim
  | step ws' row hchild _ _ =>
    rw [hu.isChild] at hchild
    cases hchild
  | child u' row hu' hrow =>
    obtain rfl := Upsert.eq_of_writes hall (hu.maxRetries hu')
    exact ⟨row, hrow, rfl⟩
  | exceeded u' hu' hexceeds' =>
    rw [← List.append_nil u'.writes] at hall
    obtain rfl := Upsert.eq_of_writes hall (hu.maxRetries hu')
    rw [hexceeds] at hexceeds'
    cases hexceeds'

/-- Start a child and record it. -/
theorem wpM_call_start {state : WorkflowState} (hw : state.workflowId = w) {name : String}
    {codec : Serde V} {input : V} {opts : WorkflowOptions}
    (hinv : inv = .runWorkflow name codec input opts) {encoded : String} (hnot : ¬done) :
    wpM (callSpec valid inner w n inv done)
      (startWorkflow inner name (some encoded) opts (some (state, n)) .portable false)
      (fun h _ m _ ↦ ∃ row, m.db.operation w n = some row ∧ row.childWorkflowId = some h.id)
      (fun _ _ _ _ ↦ True) .idle m τ := by
  subst hw
  have hstarts : ∀ {u : Upsert}, StartsAs inner name (some encoded) opts (some (state, n)) .portable
      false u → inv.Starts inner u := by
    intro u hu
    obtain ⟨entry, ownerXid, now, hentry, hmax, hinput⟩ := hu.input
    rw [hinv]
    exact ⟨by rw [hinput]; rfl, entry, hentry, hmax⟩
  have hwp : wpM (callSpec valid inner state.workflowId n inv done)
      (startWorkflow inner name (some encoded) opts (some (state, n)) .portable false) _ _ .idle m
      τ :=
    wpM_startWorkflow_linked (fun _ _ _ hd ↦ (hnot hd).elim) ?_ fun _ _ _ _ _ _ _ _ hd ↦
      (hnot hd).elim
  · refine wp_mono (wp_effects (G := fun e ↦ inv.Commits inner state.workflowId n e.writes)
      (fun _ _ he ↦ he) hwp) ?_
    rintro (err | h) c m' τ' ⟨hpost, es, hes, hall⟩
    · trivial
    obtain ⟨-, u, e, τ₁, hu, hid, hexceeds, hs, hcase⟩ := hpost
    have heffects : τ'.effects = τ.effects ++ [e] := by
      rcases hcase with ⟨-, -, rfl⟩ | ⟨-, -, m₁, -, rfl⟩ <;> exact hs.adds.effects
    obtain rfl : es = [e] := List.append_cancel_left (hes.symm.trans heffects)
    obtain ⟨child, hwrites, -⟩ := hs.commits.writes
    have hcommits : inv.Commits inner state.workflowId n e.writes := hall e List.mem_cons_self
    rw [hwrites] at hcommits
    obtain ⟨row, hrow, hlinked⟩ := hcommits.of_start (hstarts hu) hexceeds
    refine ⟨row, hs.after.2 _ _ ?_, hrow.trans (by rw [hid])⟩
    rw [hwrites, hlinked]
    exact operation_apply_record e.moment.db u.writes n row
  · intro τ' u e child _ _ hu _ _ hwrites hlinks
    show inv.Commits inner state.workflowId n e.writes
    rw [hwrites]
    cases hlinks with
    | exceeded h _ =>
      rw [List.append_nil]
      exact .exceeded u (hstarts hu) h
    | child _ _ row _ hrow => exact .child u row (hstarts hu) hrow

/-! ### All calls -/

/-- **Durable calls.** A call outside a step commits nothing but its transactions, runs no user code
if its step is recorded already, and when it returns, the step is recorded and the reply is what the
record says. -/
theorem wpM_invocation (ctx : WorkflowContext) (hctx : ctx.withinStep = false)
    (hw : ctx.state.workflowId = w)
    (hdone : done → ∃ row, m.db.operation w n = some row ∧
      (inv.kind.isChild = true → row.childWorkflowId.isSome = true)) :
    wpM (callSpec valid ctx.inner w n inv done) (inv.run ctx n)
      (fun reply _ m _ ↦ inv.Recorded w n reply m.db) (fun _ _ _ _ ↦ True) .idle m τ := by
  have hrefused : ¬ ctx.withinStep = true := by simp [hctx]
  have hseen : done → ∃ row, m.db.operation w n = some row := fun hd ↦
    (hdone hd).imp fun _ ↦ And.left
  subst hw
  have hclosure : ∀ {closure : ℕ → Except DbosError V},
      Sends (fun _ ↦ False) (runClosure ctx.state.workflowId n closure)
        (fun q ↦ q = .runClosure ctx.state.workflowId n) ∧
      Autocommits (runClosure ctx.state.workflowId n closure) :=
    ⟨Sends.map (sends_ask_of rfl), fun _ ↦ trivial⟩
  cases hinv : inv with
  | runStep name codec closure =>
    refine wpM_map ?_
    unfold WorkflowContext.runStep
    rw [if_neg hrefused]
    refine wpM_mono (wpM_durableStep codec ctx rfl (by rfl) (by rfl) (by rfl) hclosure.1 hclosure.2
      hseen) ?_ fun _ _ _ _ h ↦ h
    rintro v c m τ ⟨row, hrow, hname, hstored⟩
    exact ⟨row, hrow, fun _ ↦ hname, hstored⟩
  | runStepWith name maxRetries codec closure =>
    refine wpM_map ?_
    unfold WorkflowContext.runStepWith
    rw [if_neg hrefused]
    refine wpM_mono (wpM_durableStep codec ctx rfl (by rfl) (by rfl) (by rfl)
      (sends_executeStepWithRetry hclosure.1 _ _ _)
      (autocommits_executeStepWithRetry hclosure.2 _ _ _) hseen) ?_ fun _ _ _ _ h ↦ h
    rintro v c m τ ⟨row, hrow, hname, hstored⟩
    exact ⟨row, hrow, fun _ ↦ hname, hstored⟩
  | runWorkflow name codec input opts =>
    refine wpM_map ?_
    rw [WorkflowContext.runWorkflow, if_neg hrefused, checkChildWorkflow, bind_assoc]
    refine wpM_read ignoresReads_callSpec (g := fun db ↦
      (db.operation ctx.state.workflowId n).map (·.childWorkflowId)) (fun _ ↦ rfl)
      (fun _ _ _ _ _ ↦ trivial) fun b m₁ τ₁ hb hm₁ ↦ ?_
    rw [pure_bind]
    cases hchild : ((b.db.operation ctx.state.workflowId n).map (·.childWorkflowId)).join with
    | none =>
      have hnot : ¬done := by
        intro hd
        obtain ⟨row, hrow, hsome⟩ := hdone hd
        rw [hb.2 _ _ hrow, Option.map_some, Option.join_some] at hchild
        rw [hinv] at hsome
        have hfound := hsome rfl
        rw [hchild] at hfound
        cases hfound
      refine wpM_bind (wpM_ofExcept (fun encoded m₂ _ _ ↦ ?_) fun _ _ _ _ ↦ trivial)
      refine wpM_mono (wpM_call_start rfl rfl hnot) ?_ fun _ _ _ _ h ↦ h
      rintro h c m τ ⟨row, hrow, hid⟩
      exact ⟨row, hrow, fun h ↦ (by cases h), hid⟩
    | some child =>
      obtain ⟨row, hrow, hid⟩ : ∃ row, b.db.operation ctx.state.workflowId n = some row ∧
          row.childWorkflowId = some child := by
        simpa [Option.join_eq_some_iff] using hchild
      exact wpM_pure fun m₂ hm₂ ↦ ⟨row, hm₂.2 _ _ (hm₁.2 _ _ hrow), fun h ↦ (by cases h), hid⟩
  | send destinationId codec message topic =>
    refine wpM_map (wpM_mono (wpM_call_send codec ctx rfl rfl hseen) ?_ fun _ _ _ _ h ↦ h)
    rintro - c m τ ⟨row, hrow, hname⟩
    exact ⟨row, hrow, fun _ ↦ hname, trivial⟩
  | recv codec topic timeout =>
    refine wpM_map (wpM_mono (wpM_call_recv codec ctx rfl rfl hseen) ?_ fun _ _ _ _ h ↦ h)
    rintro v c m τ ⟨row, hrow, hname, hread⟩
    exact ⟨row, hrow, fun _ ↦ hname, hread⟩
  | setEvent key codec value =>
    refine wpM_map (wpM_mono (wpM_call_setEvent codec ctx rfl rfl hseen) ?_ fun _ _ _ _ h ↦ h)
    rintro - c m τ ⟨row, hrow, hname⟩
    exact ⟨row, hrow, fun _ ↦ hname, trivial⟩
  | getEvent codec target key timeout =>
    refine wpM_map (wpM_mono (wpM_call_getEvent codec ctx rfl rfl hseen) ?_ fun _ _ _ _ h ↦ h)
    rintro v c m τ ⟨row, hrow, hname, hread⟩
    exact ⟨row, hrow, fun _ ↦ hname, hread⟩
  | writeStream key codec value =>
    refine wpM_map (wpM_bind (wpM_ofExcept (fun text m₁ htext hm₁ ↦ ?_) fun _ _ _ _ ↦ trivial))
    have hrow : (Invocation.writeStream key codec value).appends key n =
        some ⟨text, n, some Format.portable.name⟩ := by
      rw [Invocation.appends, if_pos rfl, htext]
      rfl
    refine wpM_mono (wpM_appendToStream ctx rfl ⟨text, n, some Format.portable.name⟩ rfl (by rfl)
      (fun i ↦ by exact ⟨i, _, hrow, rfl⟩) fun hd ↦ (hseen hd).imp fun _ h ↦ hm₁.2 _ _ h) ?_
      fun _ _ _ _ h ↦ h
    rintro - c m τ ⟨row, hrow, hname⟩
    exact ⟨row, hrow, fun _ ↦ hname, trivial⟩
  | closeStream key =>
    refine wpM_map (wpM_mono (wpM_appendToStream ctx rfl ⟨streamClosedSentinel, n, none⟩ rfl
      (by rfl) (fun i ↦ by exact ⟨i, _, if_pos rfl, rfl⟩) hseen) ?_ fun _ _ _ _ h ↦ h)
    rintro - c m τ ⟨row, hrow, hname⟩
    exact ⟨row, hrow, fun _ ↦ hname, trivial⟩
  | sleep duration =>
    refine wpM_map ?_
    rw [WorkflowContext.sleep, if_neg hrefused]
    refine wpM_mono (wpM_recordSleep fun row hrow ↦ .step [] row rfl rfl hrow) ?_
      fun _ _ _ _ _ ↦ trivial
    rintro remaining c m τ ⟨-, row, hrow, hname, hread⟩
    exact ⟨row, hrow, fun _ ↦ hname, hread⟩

end

end Dbos
