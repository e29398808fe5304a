import DbosTransact.Queue.Exclusive
import DbosTransact.Runtime.Durable
import DbosTransact.Runtime.Start

/-!
# Who launches a body

A body is launched by a task that one of four functions spawns: `start_workflow`, called by users,
by parents and by recovery, and `dispatch_dequeued`. Each of them spawns the task after a
transaction that entitles it to: an upsert after which the start is not skipped, or the claim of a
dequeue iteration. `grants` tells these transactions from the others by their writes, and
`launchSpec` is what every operation keeps to: it launches a body of a workflow at most as often as
it has committed a transaction that grants it.

So what is said about the number of launches is a matter of the history alone
(`launches_le_grants`).
-/

namespace Dbos

open Txn

/-- Whether an answer is the launch of a body of the workflow. -/
def launches (id : String) (a : DbAnswer) : Bool :=
  match a.ask with
  | .spawn task => task.workflowId = id
  | _ => false

/-- Whether a write is the upsert of a start that goes on to spawn the body. -/
def runsBody (inner : DbosInner) (id : String) : DbWrite → Bool
  | ⟨.workflowStatus w, old, some _, .insertWorkflowStatus input⟩ =>
    w = id && input.status = .pending && (inner.registry input.name).any fun entry ↦
      Upsert.runs ⟨input, entry.maxRetries, old⟩ (input.increment = 1)
  | _ => false

theorem exists_of_runsBody {inner : DbosInner} {id : String} {w : DbWrite}
    (h : runsBody inner id w = true) : ∃ (u : Upsert) (row : WorkflowRow),
      w = ⟨.workflowStatus id, u.old, some row, .insertWorkflowStatus u.input⟩ ∧
      u.input.status = .pending ∧ u.runs (u.input.increment = 1) = true := by
  obtain ⟨key, old, new, s⟩ := w
  cases key with
  | workflowStatus w =>
    cases new with
    | none => cases h
    | some row =>
      cases s with
      | insertWorkflowStatus input =>
        simp only [runsBody, Bool.and_eq_true, decide_eq_true_eq, Option.any_eq_true] at h
        obtain ⟨⟨rfl, hstatus⟩, entry, -, hruns⟩ := h
        exact ⟨⟨input, entry.maxRetries, old⟩, row, rfl, hstatus, hruns⟩
      | _ => cases h
  | _ => cases h

/-- Whether a transaction entitles the executor to launch a body of the workflow. -/
def grants (inner : DbosInner) (id : String) (e : DbEffect) : Bool :=
  e.writes.any fun w ↦ isClaim id w || runsBody inner id w

/-- The statement is an upsert of a workflow row. -/
def Stmt.isUpsert : Stmt → Bool
  | insertWorkflowStatus _ => true
  | _ => false

/-- The statement is one of `insert_workflow_status`. -/
def Stmt.isInsert : Stmt → Bool
  | deadLetter _ => true
  | s => s.isUpsert

theorem Stmt.not_isUpsert {s : Stmt} (h : s.isInsert = false) : s.isUpsert = false := by
  cases s <;> first | rfl | cases h

section

variable {inner : DbosInner} {id : String} {τ τ' : DbTrace} {e : DbEffect}

/-- Every launch so far was granted. -/
def Balanced (inner : DbosInner) (τ : DbTrace) : Prop :=
  ∀ id, τ.answers.countP (launches id) ≤ τ.effects.countP (grants inner id)

theorem balanced_nil (inner : DbosInner) : Balanced inner {} := fun _ ↦ le_rfl

theorem launches_of_noSpawn {a : DbAnswer} (h : NoSpawn a) : launches id a = false := by
  obtain ⟨m, q, b⟩ := a
  cases q with
  | spawn task => exact absurd rfl (h task)
  | _ => rfl

theorem countP_launches_of_adds {es : List DbEffect} (h : Adds τ es NoSpawn τ') :
    τ'.answers.countP (launches id) = τ.answers.countP (launches id) := by
  obtain ⟨l, hl, hall⟩ := h.answers
  have hnone : l.countP (launches id) = 0 :=
    List.countP_eq_zero.2 fun a ha ↦ by simp [launches_of_noSpawn (hall a ha)]
  rw [hl, List.countP_append, hnone, Nat.add_zero]

theorem Balanced.adds {es : List DbEffect} (h : Balanced inner τ) (hτ : Adds τ es NoSpawn τ') :
    Balanced inner τ' := by
  intro id
  rw [countP_launches_of_adds hτ, hτ.effects, List.countP_append]
  exact (h id).trans (Nat.le_add_right _ _)

/-- After a transaction that grants it, a launch is allowed. -/
theorem Balanced.lt (h : Balanced inner τ) (hτ : Adds τ [e] NoSpawn τ')
    (hgrants : grants inner id e = true) :
    τ'.answers.countP (launches id) < τ'.effects.countP (grants inner id) := by
  rw [countP_launches_of_adds hτ, hτ.effects, List.countP_append, List.countP_singleton,
    if_pos hgrants]
  exact Nat.lt_succ_of_le (h id)

/-- A launch that was allowed leaves the others granted. -/
theorem Balanced.launch (h : Balanced inner τ) {m : DbMoment} {task : Task}
    (hlt : τ.answers.countP (launches task.workflowId) <
      τ.effects.countP (grants inner task.workflowId)) :
    Balanced inner (τ.note ⟨m, .spawn task, ()⟩) := by
  intro id
  rw [Trace.answers_note, Trace.effects_note, List.countP_append, List.countP_singleton]
  by_cases hid : task.workflowId = id
  · subst hid
    rw [if_pos (by simp [launches])]
    exact hlt
  · rw [if_neg (by simpa [launches] using hid)]
    exact h id

end

section

variable [SerdeJson]

/-- The row an enqueue inserts. -/
structure InsertWorkflowInput.Enqueues (input : InsertWorkflowInput) : Prop where
  status : input.status.isQueued = true
  increment : input.increment = 0
  queueName : input.queueName.isSome = true
  delay : input.status = .delayed → input.delayUntilEpochMs.isSome = true

omit [SerdeJson] in
theorem exists_of_enqueueStatus {delay : Option ℕ} (h : enqueueStatus delay = .delayed) :
    ∃ d, delay = some d := by
  cases delay with
  | none => cases h
  | some d => exact ⟨d, rfl⟩

/-- An upsert is that of an enqueue or of a start. -/
def Upsert.OfCall (inner : DbosInner) (u : Upsert) : Prop :=
  u.input.Enqueues ∨ ∃ name encodedInput opts parent fmt isRecovery,
    StartsAs inner name encodedInput opts parent fmt isRecovery u

/-- The transaction of an insert, made by a session with trace `τ`: its owner id was given to the
session, and unless this is a recovery it is the only insert of the session. -/
structure Upserts (inner : DbosInner) (τ : DbTrace) (u : Upsert) (e : DbEffect) :
    Prop where
  commits : u.Commits e
  asked : Asked τ u.input.ownerXid
  first : u.input.increment = 0 → ∀ e' ∈ τ.effects, ∀ w ∈ e'.writes, w.stmt.isUpsert = false
  kind : u.OfCall inner

/-- What the operations on an executor keep to. -/
def launchSpec (valid : DbMoment → (q : Ask) → q.Ans → Bool) (inner : DbosInner) : DbSpec where
  rely := Moment.Before
  rely_refl := Moment.Before.refl
  rely_trans := Moment.Before.trans
  valid := valid
  guar τ e := (∃ u, Upserts inner τ u e) ∨ ∀ w ∈ e.writes, w.stmt.isInsert = false
  may τ a := ∀ id, launches id a = true →
    τ.answers.countP (launches id) < τ.effects.countP (grants inner id)

variable {inner : DbosInner} {id : String} {τ τ' : DbTrace} {e : DbEffect}

/-- The upsert of a start that is not skipped grants the launch. -/
theorem StartsAs.grants {name : String} {encodedInput : Option String} {opts : WorkflowOptions}
    {parent : Option (WorkflowState × ℕ)} {fmt : Format} {isRecovery : Bool} {u : Upsert}
    (h : StartsAs inner name encodedInput opts parent fmt isRecovery u) (hcommits : u.Commits e)
    (hruns : u.runs isRecovery = true) : grants inner u.input.workflowId e = true := by
  obtain ⟨entry, ownerXid, now, hentry, hmax, hinput⟩ := h.input
  obtain ⟨child, hwrites, -⟩ := hcommits.writes
  refine List.any_eq_true.2 ⟨⟨.workflowStatus u.input.workflowId, u.old, some u.row,
    .insertWorkflowStatus u.input⟩, ?_, ?_⟩
  · rw [hwrites, Upsert.writes]
    exact List.mem_append_left _ List.mem_cons_self
  · have hstatus : u.input.status = .pending := by rw [hinput]; rfl
    have hname : u.input.name = name := by rw [hinput]; rfl
    have hincrement : decide (u.input.increment = 1) = isRecovery := by
      rw [hinput]
      cases isRecovery <;> rfl
    rw [Bool.or_eq_true]
    refine Or.inr ?_
    simp only [runsBody, hstatus, hname, hentry, hincrement, ← hmax, decide_true, Bool.true_and,
      Option.any_some]
    exact hruns

/-! ### The functions that launch -/

variable {valid : DbMoment → (q : Ask) → q.Ans → Bool} {m : DbMoment}

/-- The transactions of a trace insert no workflow. -/
def NoInsert (τ : DbTrace) : Prop := ∀ e ∈ τ.effects, ∀ w ∈ e.writes, w.stmt.isUpsert = false

/-- What the returned handle of a call says: the transaction of its insert was committed, and it
runs the body or is a polling handle that launched none. -/
def Handled (h : WorkflowHandle) (τ : DbTrace) : Prop :=
  ∃ (u : Upsert) (e : DbEffect), e ∈ τ.effects ∧ u.Commits e ∧ u.input.workflowId = h.id ∧
    Asked τ u.input.ownerXid ∧
    (u.runs false = true ∨ h.kind = .polling ∧ ∀ a ∈ τ.answers, NoSpawn a)

theorem may_of_noSpawn (τ : DbTrace) {a : DbAnswer} (h : NoSpawn a) :
    (launchSpec valid inner).may τ a := fun id hid ↦ by
  rw [launches_of_noSpawn h] at hid
  cases hid

theorem wpM_launch_startWorkflow {name : String} {encodedInput : Option String}
    {opts : WorkflowOptions} {parent : Option (WorkflowState × ℕ)} {fmt : Format}
    {isRecovery : Bool} (hτ : Balanced inner τ) (hfirst : isRecovery = false → NoInsert τ) :
    wpM (launchSpec valid inner)
      (startWorkflow inner name encodedInput opts parent fmt isRecovery)
      (fun h c _ τ' ↦ c = .idle ∧ Balanced inner τ' ∧
        (isRecovery = false → (∀ a ∈ τ.answers, NoSpawn a) → Handled h τ'))
      (fun _ c _ τ' ↦ c = .idle ∧ Balanced inner τ') .idle m τ := by
  refine wpM_mono (wpM_startWorkflow (fun τ a ↦ may_of_noSpawn τ) ?_ ?_) ?_ ?_
  · intro τ' u e hadds _ hstarts hasked hcommits
    refine Or.inl ⟨u, hcommits, hasked, fun hzero ↦ ?_, Or.inr ⟨_, _, _, _, _, _, hstarts⟩⟩
    have hnot : isRecovery = false := by
      obtain ⟨entry, ownerXid, now, -, -, hinput⟩ := hstarts.input
      rw [hinput] at hzero
      cases isRecovery
      · rfl
      · cases hzero
    rw [hadds.effects, List.append_nil]
    exact hfirst hnot
  · intro τ' u e m hadds hcommits hruns hstarts id hid
    obtain rfl : u.input.workflowId = id := of_decide_eq_true hid
    exact hτ.lt hadds (hstarts.grants hcommits hruns)
  · rintro h c m τ' ⟨rfl, u, e, τ₁, hstarts, hid, -, hstarted, hcase⟩
    have hmem : e ∈ τ₁.effects := by simp [hstarted.adds.effects]
    rcases hcase with ⟨-, hkind, rfl⟩ | ⟨hruns, -, m₁, -, rfl⟩
    · refine ⟨rfl, hτ.adds hstarted.adds, fun _ hans ↦ ⟨u, e, hmem, hstarted.commits, hid.symm,
        hstarted.asked, Or.inr ⟨hkind, fun a ha ↦ ?_⟩⟩⟩
      exact (hstarted.adds.mem_answers ha).elim (hans a) id
    · refine ⟨rfl, (hτ.adds hstarted.adds).launch
        (hτ.lt hstarted.adds (hstarts.grants hstarted.commits hruns)), fun hnot _ ↦
        ⟨u, e, hmem, hstarted.commits, hid.symm, ?_, Or.inl (hnot ▸ hruns)⟩⟩
      obtain ⟨m₂, hm₂⟩ := hstarted.asked
      exact ⟨m₂, List.mem_append_left _ hm₂⟩
  · rintro e c m τ' ⟨rfl, ⟨hadds, -, -⟩ | ⟨u, e, -, hstarted, -⟩⟩
    · exact ⟨rfl, hτ.adds hadds⟩
    · exact ⟨rfl, hτ.adds hstarted.adds⟩

/-- An enqueue inserts a row, or finds one, and launches nothing. -/
theorem wpM_launch_enqueue {given : Option String}
    {input : String → ℤ → String → InsertWorkflowInput} {maxRetries : ℤ} {queueName : String}
    {deduplicationId : Option String} (hinput : ∀ id now xid, (input id now xid).workflowId = id ∧
      (input id now xid).ownerXid = xid ∧ (input id now xid).Enqueues) :
    wpM (launchSpec valid inner) (do
      let id ← match given with
        | some id => pure id
        | none => ask .newUuid
      let now ← ask .now
      let xid ← ask .newUuid
      enqueueInsert (input id now xid) maxRetries queueName deduplicationId)
      (fun h _ _ τ' ↦ Handled h τ') (fun _ _ _ _ ↦ True) .idle m {} := by
  refine wpM_mono (wpM_enqueue (fun τ a ↦ may_of_noSpawn τ) (fun _ _ _ ↦ (hinput _ _ _).1) ?_) ?_
    fun _ _ _ _ _ ↦ trivial
  · intro id now xid τ u e hadds hasked hcommits hu _
    have hxid : u.input.ownerXid = xid := hu ▸ (hinput _ _ _).2.1
    exact Or.inl ⟨u, hcommits, hxid ▸ hasked, fun _ ↦ by simp [hadds.effects],
      Or.inl (hu ▸ (hinput _ _ _).2.2)⟩
  · rintro h c m' τ' ⟨-, id, now, xid, rfl, -, u, e, hu, -, hcommits, hasked, hadds⟩
    have hxid : u.input.ownerXid = xid := hu ▸ (hinput _ _ _).2.1
    refine ⟨u, e, by simp [hadds.effects], hcommits, ?_, hxid ▸ hasked, Or.inr ⟨rfl, fun a ha ↦ ?_⟩⟩
    · rw [hu]
      exact (hinput _ _ _).1
    · exact (hadds.mem_answers ha).elim (fun ha ↦ by cases ha) fun h ↦ h

/-- A statement outside a transaction that inserts no workflow leaves the launches granted. -/
theorem wpM_launch_query {s : Stmt} (hs : s.isInsert = false) (hτ : Balanced inner τ) :
    wpM (launchSpec valid inner) (query s)
      (fun _ c _ τ' ↦ c = .idle ∧ Balanced inner τ' ∧ (NoInsert τ → NoInsert τ') ∧
        τ'.answers = τ.answers)
      (fun _ c _ τ' ↦ c = .idle ∧ Balanced inner τ') .idle m τ := by
  have hwrites : ∀ {db ch}, ∀ w ∈ store.record s db ch, w.stmt.isInsert = false :=
    fun w hw ↦ by rw [store.stmt_of_mem_record hw]; exact hs
  rw [← bind_pure (query s)]
  refine wpM_query_idle (fun b m₁ m₂ e _ _ _ _ ↦ ⟨rfl, hτ⟩) fun b m₁ v a ch _ _ _ _ ↦
    ⟨Or.inr hwrites, wpM_pure fun m₂ _ ↦ ⟨rfl, ?_, fun hnone ↦ ?_, rfl⟩, fun e m₂ _ _ ↦ ⟨rfl, ?_⟩⟩
  · exact hτ.adds ((Adds.refl τ).commit _ _ _)
  · exact List.forall_mem_append.2 ⟨hnone, List.forall_mem_singleton.2 fun w hw ↦
      Stmt.not_isUpsert (hwrites w hw)⟩
  · exact hτ.adds ((Adds.refl τ).commit _ _ _)

/-- The recovery loop: each round leaves the launches granted. -/
theorem wpM_launch_recover (executorIds : List String) (hτ : Balanced inner τ) :
    wpM (launchSpec valid inner) (recoverPendingWorkflows inner executorIds)
      (fun _ _ _ _ ↦ True) (fun _ _ _ _ ↦ True) .idle m τ := by
  have one : ∀ (wf : RecoverableWorkflow) m τ, Balanced inner τ → wpM (launchSpec valid inner)
      (recoverWorkflow inner wf) (fun _ c _ τ' ↦ c = .idle ∧ Balanced inner τ')
      (fun _ _ _ _ ↦ True) .idle m τ := by
    intro wf m τ hτ
    have hclear : wpM (launchSpec valid inner) (clearQueueAssignment wf.id)
        (fun _ c _ τ' ↦ c = .idle ∧ Balanced inner τ')
        (fun _ c _ τ' ↦ c = .idle ∧ Balanced inner τ') .idle m τ := by
      refine wpM_bind (wpM_mono (wpM_launch_query rfl hτ) ?_ fun _ _ _ _ h ↦ h)
      rintro n c m τ ⟨rfl, hτ, -⟩
      exact wpM_pure fun _ _ ↦ ⟨rfl, hτ⟩
    rw [recoverWorkflow]
    split
    · refine wpM_bind (wpM_attempt (wpM_mono hclear ?_ ?_))
      · rintro reset c m τ ⟨rfl, hτ⟩
        exact wpM_pure fun _ _ ↦ ⟨rfl, hτ⟩
      · rintro e c m τ ⟨rfl, hτ⟩
        exact wpM_pure fun _ _ ↦ ⟨rfl, hτ⟩
    split
    · exact wpM_pure fun _ _ ↦ ⟨rfl, hτ⟩
    · refine wpM_bind (wpM_attempt (wpM_mono (wpM_launch_startWorkflow hτ (by simp)) ?_ ?_))
      · rintro h c m τ ⟨rfl, hτ, -⟩
        exact wpM_pure fun _ _ ↦ ⟨rfl, hτ⟩
      · rintro e c m τ ⟨rfl, hτ⟩
        exact wpM_pure fun _ _ ↦ ⟨rfl, hτ⟩
  have each : ∀ (wfs : List RecoverableWorkflow) m τ, Balanced inner τ →
      wpM (launchSpec valid inner) (recoverEach inner wfs) (fun _ _ _ _ ↦ True)
        (fun _ _ _ _ ↦ True) .idle m τ := by
    intro wfs
    induction wfs with
    | nil => exact fun _ _ _ ↦ wpM_pure fun _ _ ↦ trivial
    | cons wf rest ih =>
      intro m τ hτ
      refine wpM_bind (wpM_mono (one wf m τ hτ) ?_ fun _ _ _ _ _ ↦ trivial)
      rintro recovered c m τ ⟨rfl, hτ⟩
      exact wpM_bind (wpM_mono (ih m τ hτ) (fun _ _ _ _ _ ↦ wpM_pure fun _ _ ↦ trivial)
        fun _ _ _ _ _ ↦ trivial)
  refine wpM_bind (wpM_mono (wpM_launch_query rfl hτ) ?_ fun _ _ _ _ _ ↦ trivial)
  rintro wfs c m τ ⟨rfl, hτ, -⟩
  exact each wfs m τ hτ

/-- The dispatch of claimed workflows launches each of them once. -/
theorem wpM_launch_dispatchEach (wfs : List DequeuedWorkflow) (hnd : (wfs.map (·.id)).Nodup)
    (hlt : ∀ wf ∈ wfs, τ.answers.countP (launches wf.id) < τ.effects.countP (grants inner wf.id)) :
    wpM (launchSpec valid inner) (dispatchEach inner wfs) (fun _ _ _ _ ↦ True)
      (fun _ _ _ _ ↦ True) .idle m τ := by
  induction wfs generalizing m τ with
  | nil => exact wpM_pure fun _ _ ↦ trivial
  | cons wf rest ih =>
    rw [List.map_cons, List.nodup_cons] at hnd
    have hrest := fun wf' h ↦ hlt wf' (List.mem_cons_of_mem wf h)
    rw [dispatchEach, dispatchDequeued]
    split
    · exact ih hnd.2 hrest
    · refine wpM_ask fun m₁ _ _ _ ↦ ⟨fun id hid ↦ ?_, ih hnd.2 fun wf' hwf' ↦ ?_⟩
      · obtain rfl : wf.id = id := of_decide_eq_true hid
        exact hlt wf List.mem_cons_self
      · have hne : wf.id ≠ wf'.id := fun heq ↦ hnd.1 (heq ▸ List.mem_map_of_mem hwf')
        rw [Trace.answers_note, Trace.effects_note, List.countP_append, List.countP_singleton,
          if_neg (by simpa [launches] using hne)]
        exact hrest wf' hwf'

omit [SerdeJson] in
/-- A claimed workflow may be launched. -/
theorem DequeueCommit.grants {input : DequeueInput} {k : Claims}
    (h : DequeueCommit valid input k e) {x : String × WorkflowRow} (hx : x ∈ k.taken) :
    Dbos.grants inner x.1 e = true := by
  have hcandidate := h.candidate x (h.sublist.subset hx)
  have hstatus : x.2.status = .enqueued := by
    simp only [WorkflowRow.candidate, Bool.and_eq_true, decide_eq_true_eq] at hcandidate
    tauto
  refine List.any_eq_true.2 ⟨input.claimWrite k.now x, ?_, ?_⟩
  · rw [h.writes]
    exact List.mem_append_right _ (List.mem_map_of_mem hx)
  · rw [Bool.or_eq_true]
    exact Or.inl (isClaim_iff.2 ⟨_, _, _, rfl, hstatus, rfl⟩)

theorem wpM_launch_pollQueue (queue : DequeueInput) (hτ : Balanced inner τ) :
    wpM (launchSpec valid inner) (pollQueue inner queue) (fun _ _ _ _ ↦ True)
      (fun _ _ _ _ ↦ True) .idle m τ := by
  refine wpM_bind (wpM_mono (wpM_dequeueWorkflows _ m τ id ?_ ?_) ?_ fun _ _ _ _ _ ↦ trivial)
  · exact fun τ m t ↦ may_of_noSpawn τ (by rintro task ⟨⟩)
  · intro τ k e hcommit
    refine Or.inr fun w hw ↦ ?_
    rcases hcommit.mem_writes hw with ⟨x, -, rfl⟩ | ⟨x, -, rfl⟩ <;> rfl
  · rintro claimed c m τ' ⟨rfl, ⟨rfl, -⟩ | ⟨k, e, hcommit, rfl, hadds, -⟩⟩
    · exact wpM_pure fun _ _ ↦ trivial
    · have hadds' : Adds τ [e] NoSpawn τ' := hadds.mono fun _ ↦ IsClock.noSpawn
      refine wpM_launch_dispatchEach _ ?_ fun wf hwf ↦ ?_
      · have hmap : (k.taken.map dequeued).map (fun wf ↦ wf.id) = k.taken.map Prod.fst := by
          rw [List.map_map]
          rfl
        rw [hmap]
        exact hcommit.nodup.sublist (hcommit.sublist.map Prod.fst)
      · obtain ⟨x, hx, rfl⟩ := List.mem_map.1 hwf
        exact hτ.lt hadds' (hcommit.grants hx)

/-- The handle of an enqueue is that of its insert. -/
theorem wpM_launch_enqueueWorkflow (queueName name : String) (input : Option String)
    (opts : EnqueueOptions) :
    wpM (launchSpec valid inner) (enqueueWorkflow inner queueName name input opts)
      (fun h _ _ τ ↦ Handled h τ) (fun _ _ _ _ ↦ True) .idle m {} := by
  rw [enqueueWorkflow]
  split
  · exact wpM_throw fun _ _ ↦ trivial
  · exact wpM_launch_enqueue fun _ _ _ ↦ ⟨rfl, rfl, isQueued_enqueueStatus opts.delay, rfl, rfl,
      fun hdelayed ↦ by
        obtain ⟨d, hd⟩ := exists_of_enqueueStatus hdelayed
        simp [hd]⟩

theorem wpM_launch_clientEnqueue (queueName name encoded : String) (opts : EnqueueOptions) :
    wpM (launchSpec valid inner) (clientEnqueue queueName name encoded opts)
      (fun h _ _ τ ↦ Handled h τ) (fun _ _ _ _ ↦ True) .idle m {} :=
  wpM_launch_enqueue fun _ _ _ ↦ ⟨rfl, rfl, isQueued_enqueueStatus opts.delay, rfl, rfl,
    fun hdelayed ↦ by
      obtain ⟨d, hd⟩ := exists_of_enqueueStatus hdelayed
      simp [hd]⟩

/-- A child is started where none is recorded. -/
theorem wpM_launch_child {P : Type} [Serde P] (ctx : WorkflowContext) (hctx : ctx.inner = inner)
    (stepId : ℕ) (name : String) (input : P) (opts : WorkflowOptions) :
    wpM (launchSpec valid inner) (ctx.runWorkflow stepId name input opts)
      (fun h _ _ τ ↦ Handled h τ ∨ h.kind = .polling ∧ ∀ a ∈ τ.answers, NoSpawn a)
      (fun _ _ _ _ ↦ True) .idle m {} := by
  subst hctx
  rw [WorkflowContext.runWorkflow]
  split
  · exact wpM_throw fun _ _ ↦ trivial
  refine wpM_bind (wpM_mono (Q := fun _ c _ τ' ↦ c = .idle ∧ Balanced ctx.inner τ' ∧ NoInsert τ' ∧
    τ'.answers = []) (wpM_bind (wpM_mono (wpM_launch_query rfl (balanced_nil ctx.inner)) ?_
      fun _ _ _ _ _ ↦ trivial)) ?_ fun _ _ _ _ h ↦ h)
  · rintro found c m τ ⟨rfl, hτ, hnone, hans⟩
    exact wpM_pure fun _ _ ↦ ⟨rfl, hτ, hnone (by rintro e ⟨⟩), hans⟩
  rintro (- | child) c m τ ⟨rfl, hτ, hnone, hans⟩
  · refine wpM_bind (wpM_ofExcept (fun encoded m₁ _ _ ↦ ?_) fun _ _ _ _ ↦ trivial)
    refine wpM_mono (wpM_launch_startWorkflow hτ fun _ ↦ hnone) ?_ fun _ _ _ _ _ ↦ trivial
    rintro h c m τ' ⟨-, -, hhandled⟩
    exact Or.inl (hhandled rfl (by simp [hans]))
  · exact wpM_pure fun _ _ ↦ Or.inr ⟨rfl, by simp [hans]⟩

end

/-! ### Operations -/

section

variable [SerdeJson] {V : Type} {valid : DbMoment → (q : Ask) → q.Ans → Bool}
variable {inner : DbosInner} {m : DbMoment}

/-- The handle that a start or an enqueue has returned. -/
def OperationResult.handle (r : OperationResult V) : Option WorkflowHandle :=
  if r.1.starts then
    match r.2 with
    | .ok (.call (.handle h)) => some h
    | .ok (.reply (.child h)) => some h
    | _ => none
  else none

/-- A durable call of a body. -/
def Operation.isDurable : Operation V → Bool
  | durable .. => true
  | _ => false

/-- What a session has done when it has returned a handle. A body may have found its child
recorded. -/
def LaunchPost (r : OperationResult V) (τ : DbTrace) : Prop :=
  ∀ h, r.handle = some h → Handled h τ ∨
    r.1.isDurable = true ∧ h.kind = .polling ∧ ∀ a ∈ τ.answers, NoSpawn a

omit [SerdeJson] in
theorem launchPost_of_none {r : OperationResult V} {τ : DbTrace} (h : r.handle = none) :
    LaunchPost r τ := fun h' hh ↦ by
  rw [h] at hh
  cases hh

omit [SerdeJson] in
theorem OperationResult.handle_error (op : Operation V) (e : DbosError) :
    OperationResult.handle (op, .error e) = none := by
  unfold handle
  split <;> rfl

/-- Every operation launches what it was granted. -/
theorem wp_launch_program (op : Operation V) :
    wp server (launchSpec valid inner) (op.program inner) (fun r _ _ τ ↦ LaunchPost r τ) .idle m
      {} := by
  have fails : ∀ e τ, LaunchPost (op, .error e) τ :=
    fun e _ ↦ launchPost_of_none (OperationResult.handle_error op e)
  refine wp_program ?_
  by_cases hstarts : op.starts = true
  · cases op with
    | call c =>
      refine wpM_map ?_
      cases c with
      | runWorkflow name input opts parent =>
        refine wpM_map (wpM_mono (wpM_launch_startWorkflow (balanced_nil inner) fun _ e he ↦ ?_) ?_
          fun e _ _ τ _ ↦ fails e τ)
        · cases he
        · rintro h c m τ ⟨-, -, hhandled⟩ h' hh
          cases hh
          exact Or.inl (hhandled rfl (by rintro a ⟨⟩))
      | enqueue queueName name input opts =>
        refine wpM_map (wpM_mono (wpM_launch_enqueueWorkflow queueName name input opts) ?_
          fun e _ _ τ _ ↦ fails e τ)
        rintro h c m τ hhandled h' hh
        cases hh
        exact Or.inl hhandled
      | clientEnqueue queueName name encoded opts =>
        refine wpM_map (wpM_mono (wpM_launch_clientEnqueue queueName name encoded opts) ?_
          fun e _ _ τ _ ↦ fails e τ)
        rintro h c m τ hhandled h' hh
        cases hh
        exact Or.inl hhandled
      | pollQueue queue =>
        exact wpM_map (wpM_mono (wpM_launch_pollQueue queue (balanced_nil inner))
          (fun _ _ _ _ _ ↦ launchPost_of_none rfl) fun e _ _ τ _ ↦ fails e τ)
      | recover executorIds =>
        exact wpM_map (wpM_mono (wpM_launch_recover executorIds (balanced_nil inner))
          (fun _ _ _ _ _ ↦ launchPost_of_none rfl) fun e _ _ τ _ ↦ fails e τ)
      | _ => cases hstarts
    | durable state withinStep stepId inv =>
      refine wpM_map ?_
      cases inv with
      | runWorkflow name codec input opts =>
        refine wpM_map (wpM_mono (wpM_launch_child ⟨inner, state, withinStep⟩ rfl stepId name input
          opts) ?_ fun e _ _ τ _ ↦ fails e τ)
        rintro h c m τ hcase h' hh
        cases hh
        exact hcase.imp_right fun hpoll ↦ ⟨rfl, hpoll⟩
      | _ => cases hstarts
    | _ => cases hstarts
  · have hnothing : op.starts = false := Bool.eq_false_iff.2 hstarts
    have hnone : ∀ v τ, LaunchPost (op, .ok v) τ := fun v _ ↦ launchPost_of_none (by
      rw [OperationResult.handle, if_neg hstarts])
    refine wp_mono (wp_of_all (startsNothing_run (A := NoTask) inner hnothing)
      (fun τ e he ↦ Or.inr fun w hw ↦ ?_) (fun τ a ha ↦ may_of_noSpawn τ ha) (by simp)) ?_
    · have hw := he w hw
      cases hstmt : w.stmt <;> first | rfl | (rw [hstmt] at hw; cases hw)
    · rintro (e | v) c m τ -
      · exact fails e τ
      · exact hnone v τ

/-! ### Runs -/

variable {executor : ℕ → DbosInner} {db₀ : Db} {time : ℤ} {S : RuntimeSystem V}

/-- What holds in every state that operations reach. -/
structure Launched (valid : DbMoment → (q : Ask) → q.Ans → Bool) (executor : ℕ → DbosInner)
    (db₀ : Db) (S : RuntimeSystem V) : Prop where
  consistent : System.Consistent server db₀ S
  sound : System.Sound server (fun i ↦ launchSpec valid (executor i))
    (fun _ r _ _ τ ↦ LaunchPost r τ) S
  logged : System.Logged (fun i ↦ launchSpec valid (executor i)) S

theorem launched_of_run
    (h : Run (System.step server valid) (RuntimeStep executor) (System.init db₀ time) S) :
    Launched valid executor db₀ S := by
  have hspawn : ∀ (S : RuntimeSystem V) i p, RuntimeStep executor S (.spawn i p) →
      wp server (launchSpec valid (executor i)) p (fun r _ _ τ ↦ LaunchPost r τ) .idle S.moment
        {} := by
    intro S i p hp
    obtain ⟨op, rfl⟩ := hp i p rfl
    exact wp_launch_program op
  obtain ⟨hC, hS, hlog, -⟩ := System.sound_of_invariant (P := fun _ ↦ True)
    (fun i ↦ launchSpec valid (executor i)) (fun _ r _ _ τ ↦ LaunchPost r τ)
    (fun _ ↦ rfl) (fun _ ↦ trivial) trivial (fun S i p _ _ hp ↦ hspawn S i p hp)
    (fun _ _ _ _ _ _ _ _ _ _ _ ↦ trivial) (fun _ _ _ _ _ _ _ _ _ ↦ trivial)
    (fun _ _ _ _ _ _ _ hs _ _ ↦ (System.steps_of_step hs).before) h
  exact ⟨hC, hS, hlog⟩

/-- Some of the sessions launch a body at most as often as they have committed transactions that
grant it. -/
theorem Launched.launches_of_le_grants (h : Launched valid executor db₀ S) (id : String)
    (among : ℕ → Bool) : S.answers.countP (fun a ↦ among a.1 && launches id a.2) ≤
      S.history.countP fun c ↦ among c.session && grants (executor c.session) id c.toEffect := by
  refine System.countP_answers_le (p := fun i a ↦ among i && launches id a)
    (q := fun i e ↦ among i && grants (executor i) id e) fun i ↦ ?_
  cases hi : among i with
  | false => simp
  | true => simpa using h.logged.countP_le fun _ _ hmay hid ↦ hmay id hid

/-- A body is launched at most as often as transactions were committed that grant it. -/
theorem Launched.launches_le_grants (h : Launched valid executor db₀ S) (id : String) :
    S.answers.countP (fun a ↦ launches id a.2) ≤
      S.history.countP fun c ↦ grants (executor c.session) id c.toEffect := by
  simpa using h.launches_of_le_grants id fun _ ↦ true

omit [SerdeJson] in
/-- The only upsert of the transaction of an upsert. -/
theorem Upsert.Commits.eq_of_isUpsert {u : Upsert} {e : DbEffect} (h : u.Commits e) {w : DbWrite}
    (hw : w ∈ e.writes) (hup : w.stmt.isUpsert = true) :
    w = ⟨.workflowStatus u.input.workflowId, u.old, some u.row, .insertWorkflowStatus u.input⟩ := by
  obtain ⟨child, hchild, hall⟩ := h.writes
  rw [hchild, Upsert.writes, List.cons_append, List.mem_cons, List.mem_append] at hw
  rcases hw with rfl | hw | hw
  · rfl
  · split at hw
    · rw [List.mem_singleton.1 hw] at hup
      cases hup
    · cases hw
  · obtain ⟨p, n, row, -, hstmt⟩ := hall w hw
    rw [hstmt] at hup
    cases hup

/-- The `n`th commit is the transaction of an upsert, and unless this counts an attempt it is the
first one its session has made. -/
structure UpsertedAt (executor : ℕ → DbosInner) (S : RuntimeSystem V) (n : ℕ)
    (c : Commit Db Key Row Stmt) (u : Upsert) : Prop where
  commits : u.Commits c.toEffect
  asked : Asked (S.traceOf c.session) u.input.ownerXid
  kind : u.OfCall (executor c.session)
  first : u.input.increment = 0 → ∀ m d, m < n → S.history[m]? = some d → d.session = c.session →
    ∀ w ∈ d.writes, w.stmt.isUpsert = false

/-- A commit is that of a start or an enqueue, or it inserts and dead-letters nothing. -/
theorem Launched.upserted_or (h : Launched valid executor db₀ S) {n : ℕ}
    {c : Commit Db Key Row Stmt} (hc : S.history[n]? = some c) :
    (∃ u : Upsert, UpsertedAt executor S n c u) ∨ ∀ w ∈ c.writes, w.stmt.isInsert = false := by
  obtain ⟨τ, heff, hans, ⟨u, hu⟩ | hnone⟩ := h.logged.guar hc
  · refine Or.inl ⟨u, hu.commits, ?_, hu.kind, fun hzero m d hm hd hsession ↦ ?_⟩
    · obtain ⟨m, hm⟩ := hu.asked
      exact ⟨m, hans.subset hm⟩
    · refine hu.first hzero d.toEffect ?_
      rw [heff]
      refine List.mem_map_of_mem (List.mem_filter.2 ⟨?_, by simpa using hsession⟩)
      exact List.mem_iff_getElem?.2 ⟨m, (List.getElem?_take_of_lt hm).trans hd⟩
  · exact Or.inr hnone

/-- A write made by an upsert is that of a start or an enqueue. -/
theorem Launched.upserts (h : Launched valid executor db₀ S) {n : ℕ}
    {c : Commit Db Key Row Stmt} (hc : S.history[n]? = some c) {w : DbWrite} (hw : w ∈ c.writes)
    (hup : w.stmt.isUpsert = true) : ∃ u : Upsert, UpsertedAt executor S n c u ∧
      w = ⟨.workflowStatus u.input.workflowId, u.old, some u.row,
        .insertWorkflowStatus u.input⟩ := by
  rcases h.upserted_or hc with ⟨u, hu⟩ | hnone
  · exact ⟨u, hu, hu.commits.eq_of_isUpsert hw hup⟩
  · rw [Stmt.not_isUpsert (hnone w hw)] at hup
    cases hup

end

end Dbos
