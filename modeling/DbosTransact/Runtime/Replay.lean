import DbosTransact.Runtime.Durable
import DbosTransact.Runtime.Reinvoke

/-!
# Replaying a recorded step

What a durable call does when its step id is recorded already. The names are compared in
`check_operation_execution`, which every call makes first but one: the start of a child looks at
`child_workflow_id` alone, in `check_child_workflow`. So a call takes the record for its own
(`Invocation.accepts`) if it is a child start and a child is recorded, whatever its name, or if it
is another call, the name is that of its operation, and the stored output decodes.

A call that does not accept its record fails, runs no user code and writes nothing
(`mismatch_detected`): the record it compares with cannot change under it, and a child start that
gets as far as its transaction cannot commit a second record at the step. The one thing it may still
commit is a dead letter, which `start_workflow` writes before it records the child: of a child
beyond its limit, or, if the limit wraps, of one it has just inserted.
-/

namespace Dbos

open Txn

/-- Whether a start of `name` with this limit dead-letters the row, or touches it as one that has
exceeded its attempts. -/
def WorkflowRow.overdue (row : WorkflowRow) (name : String) (maxRetries : ℤ) : Bool :=
  (name.isEmpty || row.name = name) &&
    exceedsAttempts ⟨row.recoveryAttempts, row.status, row.name, row.queueName, row.ownerXid⟩
      maxRetries

/-- The question lets user code run: the closure of a step, or the body of a workflow. -/
def Ask.isUserCode : Ask → Bool
  | runClosure .. => true
  | spawn _ => true
  | _ => false

section

variable [SerdeJson] {V : Type}

/-- The result of a recorded step. -/
def decodeStep (R : Type) [Serde R] (recorded : RecordedOperation) : Except DbosError R :=
  match recorded.error with
  | some err => .error (decodedStepError err recorded.serialization)
  | none => decodeValue R recorded.output recorded.serialization

/-- What a call other than the start of a child makes of a record of its own operation. -/
def Invocation.replay (recorded : RecordedOperation) : Invocation V → Except DbosError Unit
  | runStep _ codec _ =>
    have := codec
    (decodeStep V recorded).map fun _ ↦ ()
  | runStepWith _ _ codec _ =>
    have := codec
    (decodeStep V recorded).map fun _ ↦ ()
  | recv codec _ _ =>
    have := codec
    (decodeOptional V recorded).map fun _ ↦ ()
  | getEvent codec _ _ _ =>
    have := codec
    (decodeOptional V recorded).map fun _ ↦ ()
  | sleep _ => (decodeValue ℤ recorded.output recorded.serialization).map fun _ ↦ ()
  | _ => .ok ()

/-- Whether a call takes what is recorded at its step id for its own. -/
def Invocation.accepts (row : OperationRow) : Invocation V → Bool
  | runWorkflow .. => row.childWorkflowId.isSome
  | inv => row.functionName = inv.kind.recordName &&
      (inv.replay ⟨row.output, row.error, row.serialization⟩).isOk

/-- Whether the call is the start of a child and finds the row of the child beyond its limit, or
none and the limit wraps. -/
def Invocation.overdue (inner : DbosInner) (w : String) (k : ℕ) (db : Db) : Invocation V → Bool
  | runWorkflow name _ _ opts =>
    (inner.registry name).any fun entry ↦
      match db.workflow (childId opts w k) with
      | some row => row.overdue name entry.maxRetries
      | none => limitWraps entry.maxRetries
  | _ => false

/-- What a call keeps to that finds the record `row` at its step id: it writes nothing, except in a
state where its child is overdue, and it runs no user code. -/
def replaySpec (valid : DbMoment → (q : Ask) → q.Ans → Bool) (inner : DbosInner) (w : String)
    (k : ℕ) (row : OperationRow) (inv : Invocation V) : DbSpec where
  rely m m' := m.Before m' ∧ (m.db.operation w k = some row → m'.db.operation w k = some row)
  rely_refl m := ⟨.refl m, id⟩
  rely_trans h₁ h₂ := ⟨h₁.1.trans h₂.1, fun h ↦ h₂.2 (h₁.2 h)⟩
  valid := valid
  guar _ e := inv.overdue inner w k e.moment.db = false → e.writes = []
  may _ a := a.ask.isUserCode = false

variable {valid : DbMoment → (q : Ask) → q.Ans → Bool} {inner : DbosInner} {w : String} {k : ℕ}
variable {row : OperationRow} {inv : Invocation V} {m : DbMoment} {τ : DbTrace} {α : Type}

omit [SerdeJson] in
theorem ignoresReads_replaySpec : IgnoresReads (replaySpec valid inner w k row inv) :=
  ⟨fun m ↦ ⟨m.before_after server [], id⟩, fun _ _ _ _ ↦ rfl⟩

omit [SerdeJson] in
/-- The lookup of the recorded step gives the record, and that only to a call of its name. -/
theorem wpM_replay_lookup (hm : m.db.operation w k = some row) {name : String}
    {f : Option RecordedOperation → DbosM α} {Q : DbPost α}
    (hf : row.functionName = name → ∀ m τ,
      wpM (replaySpec valid inner w k row inv)
        (f (some ⟨row.output, row.error, row.serialization⟩)) Q (fun _ _ _ _ ↦ True) .idle m τ) :
    wpM (replaySpec valid inner w k row inv) (checkOperationExecution w k name >>= f) Q
      (fun _ _ _ _ ↦ True) .idle m τ := by
  refine wpM_bind (wpM_mono (wpM_checkOperationExecution ignoresReads_replaySpec) ?_
    fun _ _ _ _ _ ↦ trivial)
  rintro found c m₁ τ₁ ⟨rfl, -, b, b', hb, hb', -, -, hfound⟩
  rw [hb'.2 (hb.2 hm)] at hfound
  rcases found with - | recorded
  · cases recordedAt_eq_none.1 hfound
  · obtain ⟨r, hr, hname, rfl⟩ := recordedAt_eq_some.1 hfound
    obtain rfl := Option.some.inj hr
    exact hf hname m₁ τ₁

/-- A step that finds a record which is not a result of its own fails. -/
theorem wpM_replay_durableStep {R : Type} (codec : Serde R) (ctx : WorkflowContext)
    (hm : m.db.operation ctx.state.workflowId k = some row) {name : String}
    (hname : row.functionName = name →
      (decodeStep R ⟨row.output, row.error, row.serialization⟩).isOk = false)
    (run : DbosM (Except DbosError R)) :
    wpM (replaySpec valid inner ctx.state.workflowId k row inv) (ctx.durableStep k name run)
      (fun _ _ _ _ ↦ False) (fun _ _ _ _ ↦ True) .idle m τ := by
  unfold WorkflowContext.durableStep
  refine wpM_bind (wpM_mono (Q := fun r _ _ _ ↦ ∃ e, r = some (.error e)) ?_ ?_ fun _ _ _ _ h ↦ h)
  · refine wpM_replay_lookup hm fun heq m τ ↦ ?_
    have hfails := hname heq
    rw [decodeStep] at hfails
    cases herror : row.error with
    | some err =>
      dsimp only
      exact wpM_pure fun _ _ ↦ ⟨_, rfl⟩
    | none =>
      dsimp only
      rw [herror] at hfails
      refine wpM_bind (wpM_ofExcept (fun v m' hv _ ↦ ?_) fun _ _ _ _ ↦ trivial)
      dsimp only at hfails
      rw [hv] at hfails
      cases hfails
  · rintro r c m τ ⟨e, rfl⟩
    exact wpM_ofExcept (fun _ _ h _ ↦ by cases h) fun _ _ _ _ ↦ trivial

omit [SerdeJson] in
/-- The transaction of a start cannot record its child at a step that is recorded. -/
theorem not_chain_record {u : Upsert} {r : OperationRow} (hm : m.db.operation w k = some row)
    (hchain : server.Chain m.db (u.writes ++ [recordWrite w k r])) : False := by
  have hkeys : ∀ x ∈ u.writes, x.key ≠ .operationOutputs w k := by
    intro x hx heq
    rw [Upsert.writes] at hx
    split at hx
    · rcases List.mem_cons.1 hx with rfl | hx
      · cases heq
      · rw [List.mem_singleton.1 hx] at heq
        cases heq
    · rw [List.mem_singleton.1 hx] at heq
      cases heq
  have hnone : none = (server.apply m.db u.writes).operation w k :=
    (server.chain_append.1 hchain).2.1
  have hsame : (server.apply m.db u.writes).operation w k = m.db.operation w k :=
    server.look_apply_of_forall_ne (k := .operationOutputs w k) hkeys
  rw [hsame, hm] at hnone
  cases hnone

omit [SerdeJson] in
/-- An upsert that exceeds the attempts of a start has found an overdue row, or its limit wraps. -/
theorem Upsert.overdue_of_exceeds {u : Upsert} (hexceeds : u.exceeds = true)
    (hinput : u.input.recoveryAttempts = 1) (hincrement : u.input.increment = 0)
    (hname : u.input.name.isEmpty = true ∨ u.row.name = u.input.name) :
    (match u.old with
      | some r => r.overdue u.input.name u.maxRetries
      | none => limitWraps u.maxRetries) = true := by
  rw [Upsert.exceeds, Upsert.row] at hexceeds
  rw [Upsert.row] at hname
  cases hold : u.old with
  | none =>
    rw [hold] at hexceeds
    simp only [exceedsAttempts, InsertWorkflowInput.row, hinput, Bool.and_eq_true] at hexceeds
    rw [limitWraps, Bool.and_eq_true]
    exact ⟨hexceeds.1.2, hexceeds.2⟩
  | some r =>
    rw [hold] at hexceeds hname
    have hattempts : (u.input.onConflict r).recoveryAttempts = r.recoveryAttempts := by
      simp [InsertWorkflowInput.onConflict, hincrement]
    dsimp only at hexceeds hname
    rw [hattempts] at hexceeds
    dsimp only
    rw [WorkflowRow.overdue, Bool.and_eq_true, Bool.or_eq_true, decide_eq_true_eq]
    exact ⟨hname, hexceeds⟩

/-- The start of a child at a step that is recorded as something else fails. -/
theorem wpM_replay_start {name : String} {codec : Serde V} {input : V} {opts : WorkflowOptions}
    {state : WorkflowState} {encodedInput : Option String} {fmt : Format}
    (hw : state.workflowId = w) (hm : m.db.operation w k = some row) :
    wpM (replaySpec valid inner w k row (.runWorkflow name codec input opts))
      (startWorkflow inner name encodedInput opts (some (state, k)) fmt false)
      (fun _ _ _ _ ↦ False) (fun _ _ _ _ ↦ True) .idle m τ := by
  subst hw
  rw [startWorkflow]
  split
  · exact wpM_throw fun _ _ ↦ trivial
  rename_i entry hentry
  rw [startId_child, pure_bind]
  refine wpM_ask fun m₁ hm₁ now _ ↦ ⟨rfl, ?_⟩
  refine wpM_ask fun m₂ hm₂ ownerXid _ ↦ ⟨rfl, ?_⟩
  refine wpM_bind (wpM_transaction (fun _ _ _ _ ↦ trivial) (wpM_bind (wpM_mono
    (wpM_insertWorkflowStatus_named m₂) ?_ fun _ _ _ _ _ ↦ trivial)))
  rintro res c m₃ τ₃ ⟨-, hm₃, u, hinput, hmax, rfl, rfl, hname⟩
  have hstands : m₃.db.operation state.workflowId k = some row :=
    hm₃.2 (hm₂.2 (hm₁.2 hm))
  dsimp only
  split
  · rename_i hdlq
    refine wpM_commit (fun m₄ hm₄ hchain hfine ↦ ?_) (fun _ _ _ _ ↦ trivial)
      (fun _ _ _ ↦ wpM_throw fun _ _ ↦ trivial) fun _ _ _ _ _ _ _ ↦ trivial
    -- what the upsert found is what is there in the state this commits in
    rw [← hinput] at hname
    have hover := Upsert.overdue_of_exceeds hdlq (by rw [hinput]; rfl) (by rw [hinput]; rfl) hname
    have hcommits : u.Commits ⟨m₄, none, u.writes ++ []⟩ :=
      Upsert.commits_of_chain (by simpa using hchain) (by simp)
    have hold : m₄.db.workflow u.input.workflowId = u.old := hcommits.old
    rw [hinput] at hold
    have hfound : m₄.db.workflow (childId opts state.workflowId k) = u.old := hold
    rw [hinput] at hover
    rw [Invocation.overdue, hentry, Option.any_some, hfound, ← hmax] at hfine
    exact absurd (hover.symm.trans hfine) (by decide)
  · refine wpM_bind (wpM_mono (wpM_record fun _ _ _ ↦ rfl) ?_ fun _ _ _ _ _ ↦ trivial)
    rintro - c m₄ τ₄ ⟨hm₄, now', rfl⟩
    have never : ∀ {m₅ r}, (replaySpec valid inner state.workflowId k row
        (.runWorkflow name codec input opts)).rely m₄ m₅ →
        ¬ server.Chain m₅.db (u.writes ++ [recordWrite state.workflowId k r]) :=
      fun hm₅ hchain ↦ not_chain_record (hm₅.2 (hm₄.2 hstands)) hchain
    exact wpM_commit (fun _ hm₅ hchain ↦ (never hm₅ hchain).elim) (fun _ _ _ _ ↦ trivial)
      (fun _ hm₅ hchain ↦ (never hm₅ hchain).elim) fun _ _ _ _ _ _ _ ↦ trivial

omit [SerdeJson] in
theorem isOk_map {β : Type} (r : Except DbosError α) (f : α → β) : (r.map f).isOk = r.isOk := by
  cases r <;> rfl

theorem accepts_of_not_isChild (h : inv.kind.isChild = false) :
    inv.accepts row = (row.functionName = inv.kind.recordName &&
      (inv.replay ⟨row.output, row.error, row.serialization⟩).isOk) := by
  cases inv with
  | runWorkflow => cases h
  | _ => rfl

omit [SerdeJson] in
/-- The start of a child reads the child that is recorded. -/
theorem wpM_replay_child (hm : m.db.operation w k = some row) :
    wpM (replaySpec valid inner w k row inv) (checkChildWorkflow w k)
      (fun child c m _ ↦ c = .idle ∧ child = row.childWorkflowId ∧ m.db.operation w k = some row)
      (fun e _ _ _ ↦ ∃ err, e = .ofSql err) .idle m τ := by
  refine wpM_read ignoresReads_replaySpec (g := fun db ↦ (db.operation w k).map (·.childWorkflowId))
    (fun _ ↦ rfl) (fun e _ _ _ _ ↦ ⟨e, rfl⟩) fun b m₁ τ₁ hb hm₁ ↦ wpM_pure fun m₂ hm₂ ↦ ?_
  have hread : b.db.operation w k = some row := hb.2 hm
  exact ⟨rfl, by rw [hread]; rfl, hm₂.2 (hm₁.2 hread)⟩

/-- A call that does not accept the record at its step id fails. -/
theorem wpM_replay_invocation (ctx : WorkflowContext) (hctx : ctx.withinStep = false)
    (hm : m.db.operation ctx.state.workflowId k = some row) (haccepts : inv.accepts row = false) :
    wpM (replaySpec valid ctx.inner ctx.state.workflowId k row inv) (inv.run ctx k)
      (fun _ _ _ _ ↦ False) (fun _ _ _ _ ↦ True) .idle m τ := by
  have hrefused : ¬ ctx.withinStep = true := by simp [hctx]
  -- a record of its own name is one that the call cannot read
  have unread : inv.kind.isChild = false → row.functionName = inv.kind.recordName →
      (inv.replay ⟨row.output, row.error, row.serialization⟩).isOk = false := by
    intro hchild hname
    rw [accepts_of_not_isChild hchild, decide_eq_true hname, Bool.true_and] at haccepts
    exact haccepts
  cases inv with
  | runStep name codec closure =>
    refine wpM_map ?_
    unfold WorkflowContext.runStep
    rw [if_neg hrefused]
    refine wpM_replay_durableStep codec ctx hm (fun hname ↦ ?_) _
    have hfails := unread rfl hname
    rwa [Invocation.replay, isOk_map] at hfails
  | runStepWith name maxRetries codec closure =>
    refine wpM_map ?_
    unfold WorkflowContext.runStepWith
    rw [if_neg hrefused]
    refine wpM_replay_durableStep codec ctx hm (fun hname ↦ ?_) _
    have hfails := unread rfl hname
    rwa [Invocation.replay, isOk_map] at hfails
  | runWorkflow name codec input opts =>
    refine wpM_map ?_
    rw [WorkflowContext.runWorkflow, if_neg hrefused]
    have hnone : row.childWorkflowId = none := by
      rw [← Option.isNone_iff_eq_none, ← Option.not_isSome]
      simpa [Invocation.accepts] using haccepts
    refine wpM_bind (wpM_mono (wpM_replay_child hm) ?_ fun _ _ _ _ _ ↦ trivial)
    rintro child c m₁ τ₁ ⟨rfl, rfl, hm₁⟩
    rw [hnone]
    refine wpM_bind (wpM_ofExcept (fun encoded m₂ _ hm₂ ↦ ?_) fun _ _ _ _ ↦ trivial)
    exact wpM_replay_start rfl (hm₂.2 hm₁)
  | send destinationId codec message topic =>
    refine wpM_map ?_
    rw [WorkflowContext.send, if_neg hrefused]
    exact wpM_replay_lookup hm fun hname ↦ by cases unread rfl hname
  | recv codec topic timeout =>
    refine wpM_map ?_
    rw [WorkflowContext.recv, if_neg hrefused]
    refine wpM_replay_lookup hm fun hname m τ ↦ wpM_ofExcept (fun v _ hv _ ↦ ?_)
      fun _ _ _ _ ↦ trivial
    have hfails := unread rfl hname
    rw [Invocation.replay, isOk_map, hv] at hfails
    cases hfails
  | setEvent key codec value =>
    refine wpM_map ?_
    rw [WorkflowContext.setEvent, if_neg hrefused]
    exact wpM_replay_lookup hm fun hname ↦ by cases unread rfl hname
  | getEvent codec target key timeout =>
    refine wpM_map ?_
    rw [WorkflowContext.getEvent, if_neg hrefused]
    refine wpM_replay_lookup hm fun hname m τ ↦ wpM_ofExcept (fun v _ hv _ ↦ ?_)
      fun _ _ _ _ ↦ trivial
    have hfails := unread rfl hname
    rw [Invocation.replay, isOk_map, hv] at hfails
    cases hfails
  | writeStream key codec value =>
    refine wpM_map (wpM_bind (wpM_ofExcept (fun text m₁ _ hm₁ ↦ ?_) fun _ _ _ _ ↦ trivial))
    rw [WorkflowContext.writeStreamRaw, if_neg hrefused]
    exact wpM_replay_lookup (hm₁.2 hm) fun hname ↦ by cases unread rfl hname
  | closeStream key =>
    refine wpM_map ?_
    rw [WorkflowContext.closeStream, WorkflowContext.writeStreamRaw, if_neg hrefused]
    exact wpM_replay_lookup hm fun hname ↦ by cases unread rfl hname
  | sleep duration =>
    refine wpM_map ?_
    rw [WorkflowContext.sleep, if_neg hrefused, recordSleep, sleepDeadline]
    refine wpM_bind (wpM_replay_lookup hm fun hname m τ ↦ wpM_ofExcept (fun v _ hv _ ↦ ?_)
      fun _ _ _ _ ↦ trivial)
    have hfails := unread rfl hname
    rw [Invocation.replay, isOk_map, hv] at hfails
    cases hfails

/-- The start of a child at a step that has a child recorded returns a handle to that one. -/
theorem wpM_replay_handle (ctx : WorkflowContext) (hctx : ctx.withinStep = false)
    (hm : m.db.operation ctx.state.workflowId k = some row) (hchild : inv.kind.isChild = true)
    {child : String} (hrecorded : row.childWorkflowId = some child) :
    wpM (replaySpec valid ctx.inner ctx.state.workflowId k row inv) (inv.run ctx k)
      (fun v _ _ _ ↦ v = .child ⟨child, .polling⟩) (fun e _ _ _ ↦ ∃ err, e = .ofSql err) .idle
      m τ := by
  cases inv with
  | runWorkflow name codec input opts =>
    refine wpM_map ?_
    rw [WorkflowContext.runWorkflow, if_neg (by simp [hctx])]
    refine wpM_bind (wpM_mono (wpM_replay_child hm) ?_ fun _ _ _ _ h ↦ h)
    rintro found c m₁ τ₁ ⟨rfl, rfl, -⟩
    rw [hrecorded]
    exact wpM_pure fun _ _ ↦ rfl
  | _ => cases hchild

/-! ### Runs -/

/-- The step leaves the record in place. -/
def KeepsRecord (valid : DbMoment → (q : Ask) → q.Ans → Bool) (w : String) (k : ℕ)
    (row : OperationRow) (S : RuntimeSystem V) (l : RuntimeLabel V) : Prop :=
  ∀ S' ∈ System.step server valid S l, S'.moment.db.operation w k = some row

variable {executor : ℕ → DbosInner} {ops : ℕ → Operation V} {db₀ : Db} {time : ℤ}
variable {S₀ S : RuntimeSystem V}

/-- **Non-determinism.** Session `i` of a run is a durable call at a step that is recorded already,
and the record stands throughout. If the call does not accept the record, then it writes nothing,
but for a dead letter of a child that is overdue, it runs no user code, and it returns an error. If
it starts a child and a child is recorded, whatever the names are, then it returns a handle to the
recorded one, unless the database fails. -/
theorem mismatch_detected
    (h₀ : Run (System.step server valid) (fun _ l ↦ Carries executor ops l)
      (System.init db₀ time) S₀) {i : ℕ} (hnew : S₀.unused i = true) {state : WorkflowState}
    (hop : ops i = .durable state false k inv)
    (hrow : S₀.moment.db.operation state.workflowId k = some row)
    (h : Run (System.step server valid)
      (fun S l ↦ Carries executor ops l ∧ KeepsRecord valid state.workflowId k row S l) S₀ S) :
    (inv.accepts row = false →
      (∀ c ∈ S.history, c.session = i →
        inv.overdue (executor i) state.workflowId k c.moment.db = false → c.writes = []) ∧
      (∀ a ∈ S.answers, a.1 = i → a.2.ask.isUserCode = false) ∧
      ∀ r, Returned S i r → ∃ e, r.2 = .error e) ∧
    (inv.kind.isChild = true → ∀ child, row.childWorkflowId = some child →
      ∀ r, Returned S i r →
        r.2 = .ok (.reply (.child ⟨child, .polling⟩)) ∨ ∃ err, r.2 = .error (.ofSql err)) := by
  let ctx : WorkflowContext := ⟨executor i, state, false⟩
  have sound : ∀ Q : DbPost (OperationResult V),
      (∀ m : DbMoment, m.db.operation state.workflowId k = some row →
        wp server (replaySpec valid (executor i) state.workflowId k row inv)
          ((ops i).program (executor i)) Q .idle m {}) →
      ∃ Γ Q', Γ i = replaySpec valid (executor i) state.workflowId k row inv ∧ Q' i = Q ∧
        System.Sound server Γ Q' S := by
    intro Q hwp
    obtain ⟨-, -, Γ, Q', hΓ, hQ, hS, -⟩ := System.sound_session_from (E := server)
      (replaySpec valid (executor i) state.workflowId k row inv) Q
      (P := fun S ↦ S.moment.db.operation state.workflowId k = some row) rfl
      (fun _ _ _ _ ↦ trivial) h₀ hnew hrow
      (fun S p hS hok ↦ by
        rw [hok.1 i p rfl]
        exact hwp S.moment hS)
      (fun _ _ S' _ hok hs ↦ hok.2 S' hs) (fun _ _ _ hS' hm ↦ ⟨hm, fun _ ↦ hS'⟩) h
    exact ⟨Γ, Q', hΓ, hQ, hS⟩
  refine ⟨fun haccepts ↦ ?_, fun hchild child hrecorded r ⟨s, hs, hret⟩ ↦ ?_⟩
  · obtain ⟨Γ, Q, hΓ, hQ, hS⟩ := sound (fun r _ _ _ ↦ ∃ e, r.2 = .error e) fun m hm ↦ by
      rw [hop]
      refine wp_program (wpM_map (wpM_mono (wpM_replay_invocation ctx rfl hm haccepts)
        (fun _ _ _ _ h ↦ h.elim) fun e _ _ _ _ ↦ ⟨e, rfl⟩))
    refine ⟨fun c hc hi ↦ ?_, fun a ha hi ↦ ?_, fun r ⟨s, hs, hret⟩ ↦ ?_⟩
    · obtain ⟨τ, -, -, hguar⟩ := hS.guar c hc
      rw [hi, hΓ] at hguar
      exact hguar
    · obtain ⟨τ, -, -, hmay⟩ := hS.may a ha
      rw [hi, hΓ] at hmay
      exact hmay
    · have hpost := hS.returned hs hret
      rw [hQ] at hpost
      exact hpost
  · obtain ⟨Γ, Q, hΓ, hQ, hS⟩ := sound (fun r _ _ _ ↦
        r.2 = .ok (.reply (.child ⟨child, .polling⟩)) ∨ ∃ err, r.2 = .error (.ofSql err))
      fun m hm ↦ by
        rw [hop]
        refine wp_program (wpM_map (wpM_mono
          (wpM_replay_handle ctx rfl hm hchild hrecorded) (fun v _ _ _ hv ↦ ?_)
          fun e _ _ _ he ↦ Or.inr ?_))
        · exact Or.inl (by rw [hv])
        · exact he.imp fun _ heq ↦ by rw [heq]
    have hpost := hS.returned hs hret
    rw [hQ] at hpost
    exact hpost

end

/-! ### A step recorded as the start of a child -/

section

local instance replayJson : SerdeJson := JsonText.jsonText

/-- Step 0 of `w` has started the child `c` of name `f`. -/
def childRecorded : Db :=
  { oneWaiting with
    operationOutputs :=
      Table.set ∅ ("w", 0) (some ⟨"f", none, none, some "c", none, none, none⟩) }

/-- Session 0 replays step 0 of `w` as the start of `g`, and session 1 as a step `s`. -/
def replayOps (i : ℕ) : Operation ℤ :=
  .durable ⟨"w", {}⟩ false 0 <|
    if i = 0 then .runWorkflow "g" inferInstance 1 {} else .runStep "s" inferInstance fun _ ↦ .ok 1

def replayTwice : List (RuntimeLabel ℤ) :=
  [.spawn 0 ((replayOps 0).program (anyName "a")),
    .spawn 1 ((replayOps 1).program (anyName "a"))] ++
    sendOne 0 ++ sendOne 1 ++ sendOne 1

/-- Whether a session has returned an error. -/
def returnedError
    (s : Session Db Key Row Stmt Stmt.Res SqlError Ask Ask.Ans (OperationResult ℤ)) : Bool :=
  match s.prog with
  | .pure (_, .error _) => true
  | _ => false

theorem exists_of_returnedError {S : RuntimeSystem ℤ} {i : ℕ}
    (h : (S.sessions.lookup i).any returnedError = true) : ∃ r, Returned S i r := by
  obtain ⟨s, hs, hret⟩ := (Option.any_eq_true _ _).1 h
  unfold returnedError at hret
  split at hret
  · exact ⟨_, s, hs, by assumption⟩
  · cases hret

/-- Whether the record of step 0 of `w` stands after a step. -/
def keepsChild (S : RuntimeSystem ℤ) (l : RuntimeLabel ℤ) : Bool :=
  (System.step server (fun _ _ _ ↦ true) S l).all fun S' ↦
    S'.moment.db.operation "w" 0 = childRecorded.operation "w" 0

theorem replayTwice_run : (exec (fun S l ↦
    if keepsChild S l then System.step server (fun _ _ _ ↦ true) S l else none)
    (System.init childRecorded 0) replayTwice).any (fun S ↦
      (S.sessions.lookup 0).any (returnedPolling "c") &&
        (S.sessions.lookup 1).any returnedError) = true := by
  decide +kernel

theorem mismatch_detected_replayTwice : ∃ S r, exec (System.step server fun _ _ _ ↦ true)
      (System.init childRecorded 0) replayTwice = some S ∧ Returned S 1 r ∧
    ∃ e, r.2 = .error e := by
  obtain ⟨S, hS, hdone⟩ := (Option.any_eq_true _ _).1 replayTwice_run
  rw [Bool.and_eq_true] at hdone
  obtain ⟨r, hret⟩ := exists_of_returnedError hdone.2
  have hstart : Run (System.step server fun _ _ _ ↦ true)
      (fun _ l ↦ Carries (fun _ ↦ anyName "a") replayOps l) (System.init childRecorded 0)
      (System.init childRecorded 0) := .refl
  have hrun : Run (System.step server fun _ _ _ ↦ true)
      (fun S l ↦ Carries (fun _ ↦ anyName "a") replayOps l ∧
        KeepsRecord (fun _ _ _ ↦ true) "w" 0 ⟨"f", none, none, some "c", none, none, none⟩ S l)
      (System.init childRecorded 0) S := by
    refine Run.of_exec_checked hS fun S l hl hcheck ↦ ⟨?_, fun S' hS' ↦ ?_⟩
    · rintro i p rfl
      have hmem : (i, p) ∈ replayTwice.filterMap spawnedOperation :=
        List.mem_filterMap.2 ⟨_, hl, rfl⟩
      rcases List.mem_cons.1 hmem with heq | hmem
      · cases heq
        rfl
      · cases List.mem_singleton.1 hmem
        rfl
    · rw [keepsChild, show System.step server _ S l = some S' from hS'] at hcheck
      exact of_decide_eq_true hcheck
  exact ⟨S, r, exec_of_checked hS, hret,
    ((mismatch_detected hstart (i := 1) (by simp [System.unused, System.init]) rfl rfl hrun).1
      (by decide +kernel)).2.2 r hret⟩

/-- The start of `g` returns a handle to the child that was started as `f`. -/
theorem renamed_child_undetected : ∃ S r, exec (System.step server fun _ _ _ ↦ true)
      (System.init childRecorded 0) replayTwice = some S ∧
    replayOps 0 = .durable ⟨"w", {}⟩ false 0 (.runWorkflow "g" inferInstance 1 {}) ∧
    (childRecorded.operation "w" 0).any (fun row ↦ row.functionName = "f") = true ∧
    Returned S 0 r ∧ r.handle = some ⟨"c", .polling⟩ := by
  obtain ⟨S, hS, hdone⟩ := (Option.any_eq_true _ _).1 replayTwice_run
  rw [Bool.and_eq_true] at hdone
  obtain ⟨r, hret, hg⟩ := exists_of_returnedPolling hdone.1
  exact ⟨S, r, exec_of_checked hS, rfl, rfl, hret, hg⟩

end

end Dbos
