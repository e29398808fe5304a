import DbosTransact.Runtime.Cancel
import DbosTransact.Runtime.Identity

/-!
# Executions left hanging

A row becomes `PENDING` before its body runs: `start_workflow` and a dequeue iteration commit that
first, and what takes the row out of `PENDING` again is the last thing the spawned task does. What
lies between the two can end early in two places. `dispatch_dequeued` returns when the name of a
claimed workflow is not registered, so that no task is spawned; and a body that panics takes its
task with it, so that no outcome is written.

These are the only two, on an executor that does not crash and whose requests do not fail
(`executions_finish`). An operation that has returned has followed up every transaction that grants
a launch by the launch (`FollowedUp`); a task that has written its outcome has found the row out of
`PENDING` or has left it so (`Settled`).
-/

namespace Dbos

open Txn

/-! ### Launches that are granted -/

/-- Whether a write claims the workflow under a name that is not registered. -/
def claimsUnregistered (inner : DbosInner) (id : String) : DbWrite → Bool
  | ⟨.workflowStatus w, some (old : WorkflowRow), some (new : WorkflowRow), _⟩ =>
    w = id && old.status = .enqueued && new.status = .pending && (inner.registry new.name).isNone
  | _ => false

/-- The statements of the runtime that neither claim a workflow nor insert one to be run at once. -/
def Stmt.launchesNothing : Stmt → Bool
  | claimWorkflow .. => false
  | insertWorkflowStatus input => input.status.isQueued
  | _ => true

/-- Whether a write entitles the executor to launch a body of the workflow, and is made by one of
the two statements that do. -/
def launchedBy (inner : DbosInner) (id : String) (w : DbWrite) : Bool :=
  match w.stmt with
  | .claimWorkflow .. => isClaim id w
  | .insertWorkflowStatus _ => runsBody inner id w
  | _ => false

/-- Only a claim takes a row from `ENQUEUED` to `PENDING`. -/
theorem Stmt.Writes.claims {s : Stmt} {id : String} {old new : WorkflowRow}
    (h : s.Writes (.workflowStatus id) (some old) (some new)) (hs : s.Runtime)
    (hold : old.status = .enqueued) (hnew : new.status = .pending) :
    ∃ w version executorId now limited, s = .claimWorkflow w version executorId now limited := by
  have kept : ∀ {status : WorkflowStatusType}, status = old.status → status ≠ .pending := by
    rintro status rfl hpending
    rw [hold] at hpending
    cases hpending
  cases h with
  | claim w version executorId now limited r _ => exact ⟨_, _, _, _, _, rfl⟩
  | insertConflict input r => exact (kept rfl hnew).elim
  | outcome w status output error now r _ =>
    have hout : status.isOutcome = true := hs
    rw [show status = .pending from hnew] at hout
    cases hout
  | lock q version p mode limit w r _ => exact (kept rfl hnew).elim
  | markForked w r => exact (kept rfl hnew).elim
  | _ => cases hnew

theorem launchedBy_of_grants {inner : DbosInner} {id : String} {e : DbEffect}
    (hwrites : ∀ w ∈ e.writes, LegalWrite w ∧ w.stmt.Runtime) (h : grants inner id e = true) :
    ∃ w ∈ e.writes, launchedBy inner id w = true := by
  obtain ⟨w, hw, hcase⟩ := List.any_eq_true.1 h
  refine ⟨w, hw, ?_⟩
  rcases Bool.or_eq_true_iff.1 hcase with hclaim | hruns
  · obtain ⟨old, new, s, rfl, hold, hnew⟩ := isClaim_iff.1 hclaim
    obtain ⟨hlegal, hruntime⟩ := hwrites _ hw
    obtain ⟨_, _, _, _, _, rfl⟩ := Stmt.Writes.claims hlegal hruntime hold hnew
    exact hclaim
  · obtain ⟨u, row, rfl, -, -⟩ := exists_of_runsBody hruns
    exact hruns

theorem not_launchedBy {inner : DbosInner} {id : String} {w : DbWrite}
    (h : w.stmt.launchesNothing = true) : launchedBy inner id w = false := by
  obtain ⟨key, old, new, s⟩ := w
  cases s with
  | claimWorkflow => cases h
  | insertWorkflowStatus input =>
    rw [launchedBy, Bool.eq_false_iff]
    intro hruns
    obtain ⟨u, row, heq, hpending, -⟩ := exists_of_runsBody hruns
    cases heq
    rw [Stmt.launchesNothing, hpending] at h
    cases h
  | _ => rfl

section

variable [SerdeJson] {inner : DbosInner} {id : String} {e : DbEffect}

/-- The upsert of a start that is skipped grants no launch. -/
theorem StartsAs.not_launchedBy {name : String} {encodedInput : Option String}
    {opts : WorkflowOptions} {parent : Option (WorkflowState × ℕ)} {fmt : Format}
    {isRecovery : Bool} {u : Upsert}
    (h : StartsAs inner name encodedInput opts parent fmt isRecovery u) (hcommits : u.Commits e)
    (hruns : u.runs isRecovery = false) {w : DbWrite} (hw : w ∈ e.writes) :
    launchedBy inner id w = false := by
  obtain ⟨entry, ownerXid, now, hentry, hmax, hinput⟩ := h.input
  obtain ⟨child, hwrites, hchild⟩ := hcommits.writes
  rw [hwrites, Upsert.writes, List.cons_append, List.mem_cons, List.mem_append] at hw
  rcases hw with rfl | hw | hw
  · have hname : u.input.name = name := by rw [hinput]; rfl
    have hincrement : decide (u.input.increment = 1) = isRecovery := by
      rw [hinput]
      cases isRecovery <;> rfl
    have hskipped : Upsert.runs ⟨u.input, u.maxRetries, u.old⟩ isRecovery = false := hruns
    simp [launchedBy, runsBody, hname, hentry, hincrement, ← hmax, hskipped]
  · refine Dbos.not_launchedBy ?_
    split at hw
    · rw [List.mem_singleton.1 hw]
      rfl
    · cases hw
  · obtain ⟨p, n, row, -, hstmt⟩ := hchild w hw
    exact Dbos.not_launchedBy (by rw [hstmt]; rfl)

/-! ### Following up -/

/-- The session has followed up the transaction: it has launched every body that the transaction
grants, unless this has claimed it under a name that is not registered. -/
def FollowedUp (inner : DbosInner) (answers : List DbAnswer) (e : DbEffect) : Prop :=
  ∀ id, (∃ w ∈ e.writes, launchedBy inner id w = true) →
    (∀ w ∈ e.writes, claimsUnregistered inner id w = false) →
      ∃ a ∈ answers, launches id a = true ∧ e.moment.xid < a.moment.xid

/-- The session has followed up all its transactions. -/
def AllFollowedUp (inner : DbosInner) (τ : DbTrace) : Prop :=
  ∀ e ∈ τ.effects, FollowedUp inner τ.answers e

variable {τ τ' : DbTrace} {es : List DbEffect} {P : DbAnswer → Prop}

omit [SerdeJson] in
theorem FollowedUp.mono {l l' : List DbAnswer} (h : FollowedUp inner l e) (hl : l ⊆ l') :
    FollowedUp inner l' e := fun id hlaunch hregistered ↦ by
  obtain ⟨a, ha, hrest⟩ := h id hlaunch hregistered
  exact ⟨a, hl ha, hrest⟩

omit [SerdeJson] in
theorem Adds.answers_subset (h : Adds τ es P τ') : τ.answers ⊆ τ'.answers := by
  obtain ⟨l, hl, -⟩ := h.answers
  rw [hl]
  exact List.subset_append_left _ _

omit [SerdeJson] in
/-- What is added has to be followed up. -/
theorem AllFollowedUp.adds (h : AllFollowedUp inner τ) (hτ : Adds τ es P τ')
    (hes : ∀ e ∈ es, FollowedUp inner τ'.answers e) : AllFollowedUp inner τ' := by
  intro e he
  rcases hτ.mem_effects he with he | he
  · exact (h e he).mono hτ.answers_subset
  · exact hes e he

omit [SerdeJson] in
theorem AllFollowedUp.note (h : AllFollowedUp inner τ) (a : DbAnswer) :
    AllFollowedUp inner (τ.note a) :=
  fun e he ↦ (h e he).mono (List.subset_append_left _ _)

omit [SerdeJson] in
/-- A transaction that grants no launch needs no following up. -/
theorem followedUp_of_not_launchedBy {l : List DbAnswer}
    (h : ∀ id, ∀ w ∈ e.writes, launchedBy inner id w = false) : FollowedUp inner l e := by
  rintro id ⟨w, hw, hlaunch⟩ -
  rw [h id w hw] at hlaunch
  cases hlaunch

omit [SerdeJson] in
theorem key_of_launchedBy {w : DbWrite} (h : launchedBy inner id w = true) :
    w.key = .workflowStatus id := by
  obtain ⟨key, old, new, s⟩ := w
  cases s with
  | claimWorkflow =>
    obtain ⟨_, _, _, heq, -⟩ := isClaim_iff.1 h
    cases heq
    rfl
  | insertWorkflowStatus input =>
    obtain ⟨_, _, heq, -⟩ := exists_of_runsBody h
    cases heq
    rfl
  | _ => cases h

/-- What operations on an executor keep to whose requests do not fail; those that are `quiet` launch
nothing. -/
def finishSpec (valid : DbMoment → (q : Ask) → q.Ans → Bool) (quiet : Bool) : DbSpec where
  rely := Moment.Before
  rely_refl := Moment.Before.refl
  rely_trans := Moment.Before.trans
  valid := valid
  guar _ e := quiet = true → ∀ w ∈ e.writes, w.stmt.launchesNothing = true
  faulty := False

variable {valid : DbMoment → (q : Ask) → q.Ans → Bool} {m : DbMoment}

/-- A start launches the body if its upsert grants that. -/
theorem wpM_follow_start {name : String} {encodedInput : Option String} {opts : WorkflowOptions}
    {parent : Option (WorkflowState × ℕ)} {fmt : Format} {isRecovery : Bool}
    (hτ : AllFollowedUp inner τ) :
    wpM (finishSpec valid false) (startWorkflow inner name encodedInput opts parent fmt isRecovery)
      (fun _ c _ τ' ↦ c = .idle ∧ AllFollowedUp inner τ')
      (fun _ c _ τ' ↦ c = .idle ∧ AllFollowedUp inner τ') .idle m τ := by
  refine wpM_mono (wpM_startWorkflow (fun _ _ _ ↦ trivial) (fun _ _ _ _ _ _ _ _ h ↦ by cases h)
    fun _ _ _ _ _ _ _ _ ↦ trivial) ?_ ?_
  · rintro g c m τ' ⟨rfl, u, e, τ₁, hstarts, -, -, hstarted, ⟨hruns, -, rfl⟩ | ⟨-, -, m₁, hm₁, rfl⟩⟩
    · refine ⟨rfl, hτ.adds hstarted.adds fun e' he' ↦ ?_⟩
      obtain rfl := List.mem_singleton.1 he'
      exact followedUp_of_not_launchedBy fun _ _ ↦ hstarts.not_launchedBy hstarted.commits hruns
    · have hadds := (hstarted.adds.mono fun _ _ ↦ trivial).note (a := ⟨m₁, .spawn (startTask name
        encodedInput opts parent fmt u.input.workflowId), ()⟩) (P := fun _ ↦ True) trivial
      refine ⟨rfl, hτ.adds hadds fun e' he' ↦ ?_⟩
      obtain rfl := List.mem_singleton.1 he'
      rintro id ⟨w, hw, hlaunch⟩ -
      obtain ⟨rfl, -⟩ := hstarted.commits.key hw (key_of_launchedBy hlaunch)
      refine ⟨_, List.mem_append_right _ List.mem_cons_self, decide_eq_true rfl, ?_⟩
      exact (Nat.lt_succ_self _).trans_le hm₁.2.1
  · rintro err c m τ' ⟨rfl, ⟨hadds, -, -⟩ | ⟨u, e, hstarts, hstarted, hexceeds | hf⟩⟩
    · exact ⟨rfl, hτ.adds hadds fun _ he ↦ by cases he⟩
    · refine ⟨rfl, hτ.adds hstarted.adds fun e' he' ↦ ?_⟩
      obtain rfl := List.mem_singleton.1 he'
      exact followedUp_of_not_launchedBy fun _ _ ↦ hstarts.not_launchedBy hstarted.commits
        (by rw [Upsert.runs, hexceeds]; rfl)
    · exact hf.elim

omit [SerdeJson] in
/-- A statement outside a transaction that launches nothing. -/
theorem wpM_follow_query {s : Stmt} (hs : s.launchesNothing = true) (hτ : AllFollowedUp inner τ) :
    wpM (finishSpec valid false) (query s) (fun _ c _ τ' ↦ c = .idle ∧ AllFollowedUp inner τ')
      (fun _ c _ τ' ↦ c = .idle ∧ AllFollowedUp inner τ') .idle m τ := by
  rw [← bind_pure (query s)]
  refine wpM_query_idle (fun b m₁ m₂ e _ _ _ _ ↦ ⟨rfl, hτ⟩) fun b m₁ v a ch _ _ _ _ ↦
    ⟨fun h ↦ (Bool.false_ne_true h).elim, wpM_pure fun m₂ _ ↦ ⟨rfl, ?_⟩, fun _ _ hf ↦ hf.elim⟩
  refine hτ.adds ((Adds.refl (P := NoSpawn) τ).commit _ _ _) fun e he ↦ ?_
  obtain rfl := List.mem_singleton.1 he
  exact followedUp_of_not_launchedBy fun _ w hw ↦
    not_launchedBy (by rw [store.stmt_of_mem_record hw]; exact hs)

/-- The recovery loop follows up the start of every workflow. -/
theorem wpM_follow_recover (executorIds : List String) (hτ : AllFollowedUp inner τ) :
    wpM (finishSpec valid false) (recoverPendingWorkflows inner executorIds)
      (fun _ _ _ τ' ↦ AllFollowedUp inner τ')
      (fun _ _ _ τ' ↦ AllFollowedUp inner τ') .idle m τ := by
  have one : ∀ (wf : RecoverableWorkflow) m τ, AllFollowedUp inner τ →
      wpM (finishSpec valid false) (recoverWorkflow inner wf)
        (fun _ c _ τ' ↦ c = .idle ∧ AllFollowedUp inner τ') (fun _ _ _ τ' ↦ AllFollowedUp inner τ')
        .idle m τ := by
    intro wf m τ hτ
    have hclear : wpM (finishSpec valid false) (clearQueueAssignment wf.id)
        (fun _ c _ τ' ↦ c = .idle ∧ AllFollowedUp inner τ')
        (fun _ c _ τ' ↦ c = .idle ∧ AllFollowedUp inner τ') .idle m τ :=
      wpM_bind (wpM_mono (wpM_follow_query rfl hτ) (fun _ _ _ _ h ↦ wpM_pure fun _ _ ↦ h)
        fun _ _ _ _ h ↦ h)
    rw [recoverWorkflow]
    split
    · refine wpM_bind (wpM_attempt (wpM_mono hclear ?_ ?_))
      · rintro reset c m τ h
        exact wpM_pure fun _ _ ↦ h
      · rintro e c m τ h
        exact wpM_pure fun _ _ ↦ h
    split
    · exact wpM_pure fun _ _ ↦ ⟨rfl, hτ⟩
    · refine wpM_bind (wpM_attempt (wpM_mono (wpM_follow_start hτ) ?_ ?_))
      · rintro g c m τ h
        exact wpM_pure fun _ _ ↦ h
      · rintro e c m τ h
        exact wpM_pure fun _ _ ↦ h
  have each : ∀ (wfs : List RecoverableWorkflow) m τ, AllFollowedUp inner τ →
      wpM (finishSpec valid false) (recoverEach inner wfs) (fun _ _ _ τ' ↦ AllFollowedUp inner τ')
        (fun _ _ _ τ' ↦ AllFollowedUp inner τ') .idle m τ := by
    intro wfs
    induction wfs with
    | nil => exact fun _ _ hτ ↦ wpM_pure fun _ _ ↦ hτ
    | cons wf rest ih =>
      intro m τ hτ
      refine wpM_bind (wpM_mono (one wf m τ hτ) ?_ fun _ _ _ _ h ↦ h)
      rintro recovered c m τ ⟨rfl, hτ⟩
      exact wpM_bind (wpM_mono (ih m τ hτ) (fun _ _ _ _ h ↦ wpM_pure fun _ _ ↦ h)
        fun _ _ _ _ h ↦ h)
  refine wpM_bind (wpM_mono (wpM_follow_query rfl hτ) ?_ fun _ _ _ _ h ↦ h.2)
  rintro wfs c m τ ⟨rfl, hτ⟩
  exact each wfs m τ hτ

omit [SerdeJson] in
/-- The dispatch launches every claimed workflow that is registered, and does so at or after `m`. -/
theorem wpM_follow_dispatchEach (wfs : List DequeuedWorkflow) :
    wpM (finishSpec valid false) (dispatchEach inner wfs)
      (fun _ _ _ τ' ↦ τ'.effects = τ.effects ∧ τ.answers ⊆ τ'.answers ∧
        ∀ wf ∈ wfs, (inner.registry wf.name).isSome = true →
          ∃ a ∈ τ'.answers, launches wf.id a = true ∧ m.xid ≤ a.moment.xid)
      (fun _ _ _ _ ↦ False) .idle m τ := by
  induction wfs generalizing m τ with
  | nil => exact wpM_pure fun _ _ ↦ ⟨rfl, List.Subset.refl _, by simp⟩
  | cons wf rest ih =>
    rw [dispatchEach, dispatchDequeued]
    split
    · rename_i hnone
      refine wpM_mono ih ?_ fun _ _ _ _ h ↦ h
      rintro _ c m' τ' ⟨heffects, hanswers, hlaunched⟩
      refine ⟨heffects, hanswers, List.forall_mem_cons.2 ⟨fun hsome ↦ ?_, hlaunched⟩⟩
      rw [hnone] at hsome
      cases hsome
    · refine wpM_ask fun m₁ hm₁ _ _ ↦ ⟨trivial, wpM_mono ih ?_ fun _ _ _ _ h ↦ h⟩
      rintro _ c m' τ' ⟨heffects, hanswers, hlaunched⟩
      refine ⟨heffects, fun a ha ↦ hanswers (List.mem_append_left _ ha),
        List.forall_mem_cons.2 ⟨fun _ ↦ ?_, fun wf' hwf' hsome ↦ ?_⟩⟩
      · exact ⟨_, hanswers (List.mem_append_right _ List.mem_cons_self), decide_eq_true rfl,
          hm₁.2.1⟩
      · obtain ⟨a, ha, hlaunch, hxid⟩ := hlaunched wf' hwf' hsome
        exact ⟨a, ha, hlaunch, hm₁.2.1.trans hxid⟩

omit [SerdeJson] in
/-- A claimed workflow is one that the iteration returns, under the name it is stored with. -/
theorem DequeueCommit.claimed_of_launchedBy {input : DequeueInput} {k : Claims}
    (h : DequeueCommit valid input k e) {w : DbWrite} (hw : w ∈ e.writes)
    (hlaunch : launchedBy inner id w = true) :
    ∃ x ∈ k.taken, x.1 = id ∧ ((inner.registry x.2.name).isNone = true →
      claimsUnregistered inner id w = true) := by
  rcases h.mem_writes hw with ⟨x, -, rfl⟩ | ⟨x, hx, rfl⟩
  · cases hlaunch
  · have hkey : Key.workflowStatus x.1 = .workflowStatus id := key_of_launchedBy hlaunch
    obtain rfl := Key.workflowStatus.inj hkey
    refine ⟨x, hx, rfl, fun hnone ↦ ?_⟩
    have hclaim : isClaim x.1 (input.claimWrite k.now x) = true := hlaunch
    obtain ⟨old, new, s, heq, hold, hnew⟩ := isClaim_iff.1 hclaim
    cases heq
    have hname : (inner.registry (input.claimed k.now x.2).name).isNone = true := hnone
    simp [claimsUnregistered, DequeueInput.claimWrite, hname, hold, hnew]

omit [SerdeJson] in
/-- A round of a poll loop follows up its claims. -/
theorem wpM_follow_pollQueue (queue : DequeueInput) (hτ : AllFollowedUp inner τ) :
    wpM (finishSpec valid false) (pollQueue inner queue) (fun _ _ _ τ' ↦ AllFollowedUp inner τ')
      (fun _ _ _ τ' ↦ AllFollowedUp inner τ') .idle m τ := by
  refine wpM_bind (wpM_mono (wpM_dequeueWorkflows _ m τ id (fun _ _ _ ↦ trivial)
    fun _ _ _ _ h ↦ (Bool.false_ne_true h).elim) ?_ ?_)
  · rintro claimed c m' τ' ⟨rfl, ⟨rfl, hquiet⟩ | ⟨k, e, hcommit, rfl, hadds, -, hafter⟩⟩
    · exact wpM_pure fun _ _ ↦ hτ.adds hquiet.adds fun _ he ↦ by cases he
    · refine wpM_mono (wpM_follow_dispatchEach _) ?_ fun _ _ _ _ h ↦ h.elim
      rintro _ c m'' τ'' ⟨heffects, hanswers, hlaunched⟩
      intro e' he'
      rw [heffects] at he'
      rcases hadds.mem_effects he' with he' | he'
      · exact (hτ e' he').mono fun a ha ↦ hanswers (hadds.answers_subset ha)
      · obtain rfl := List.mem_singleton.1 he'
        rintro id ⟨w, hw, hlaunch⟩ hregistered
        obtain ⟨x, hx, rfl, hnone⟩ := hcommit.claimed_of_launchedBy hw hlaunch
        have hsome : (inner.registry x.2.name).isSome = true := by
          rw [← Option.not_isNone, Bool.not_eq_true', Bool.eq_false_iff]
          intro h
          rw [hregistered w hw] at hnone
          exact Bool.false_ne_true (hnone h)
        obtain ⟨a, ha, hlaunch, hxid⟩ := hlaunched _ (List.mem_map_of_mem hx) hsome
        exact ⟨a, ha, hlaunch, (Nat.lt_succ_self _).trans_le (hafter.2.1.trans hxid)⟩
  · rintro err c m' τ' ⟨rfl, hquiet | ⟨hf, -⟩⟩
    · exact hτ.adds hquiet.adds fun _ he ↦ by cases he
    · exact hf.elim

/-- The start of a child follows up its upsert, if there is one. -/
theorem wpM_follow_child {R : Type} [Serde R] (ctx : WorkflowContext) (hctx : ctx.inner = inner)
    (stepId : ℕ) (name : String) (input : R) (opts : WorkflowOptions) :
    wpM (finishSpec valid false) (ctx.runWorkflow stepId name input opts)
      (fun _ _ _ τ' ↦ AllFollowedUp inner τ') (fun _ _ _ τ' ↦ AllFollowedUp inner τ') .idle m
      {} := by
  subst hctx
  have hempty : AllFollowedUp ctx.inner {} := fun _ he ↦ by cases he
  rw [WorkflowContext.runWorkflow]
  split
  · exact wpM_throw fun _ _ ↦ hempty
  refine wpM_bind (wpM_mono (Q := fun _ c _ τ' ↦ c = .idle ∧ AllFollowedUp ctx.inner τ')
    (wpM_bind (wpM_mono (wpM_follow_query rfl hempty) (fun _ _ _ _ h ↦ wpM_pure fun _ _ ↦ h)
      fun _ _ _ _ h ↦ h.2)) ?_ fun _ _ _ _ h ↦ h)
  rintro (- | child) c m τ ⟨rfl, hτ⟩
  · refine wpM_bind (wpM_ofExcept (fun encoded m₁ _ _ ↦ ?_) fun _ _ _ _ ↦ hτ)
    exact wpM_mono (wpM_follow_start hτ) (fun _ _ _ _ h ↦ h.2) fun _ _ _ _ h ↦ h.2
  · exact wpM_pure fun _ _ ↦ hτ

/-! ### The end of a task -/

/-- The row of the workflow is not `PENDING`, or there is none. -/
def NotPending (db : Db) (id : String) : Prop := ∀ r, db.workflow id = some r → r.status ≠ .pending

/-- The session has read the clock, and after that it has found the workflow out of `PENDING` or has
left it so. -/
def Settled (id : String) (τ : DbTrace) : Prop :=
  ∃ m t e b, (⟨m, .now, t⟩ : DbAnswer) ∈ τ.answers ∧ e ∈ τ.effects ∧ e.snapshot = some b ∧
    m.Before b ∧ b.Before e.moment ∧
      (NotPending b.db id ∨ NotPending (server.apply e.moment.db e.writes) id)

theorem wpM_settle (w : String) (fmt : Format) (result : Except DbosError String) :
    wpM (finishSpec valid true) (recordOutcome w fmt result) (fun _ _ _ τ' ↦ Settled w τ')
      (fun _ _ _ _ ↦ False) .idle m {} := by
  have houtcome : (outcomeColumns fmt result).1.isOutcome = true := by cases result <;> rfl
  have hwrite : wpM (finishSpec valid true) (updateWorkflowOutcome w (outcomeColumns fmt result).1
      (outcomeColumns fmt result).2.1 (outcomeColumns fmt result).2.2)
      (fun _ _ _ τ' ↦ Settled w τ') (fun _ _ _ _ ↦ False) .idle m {} := by
    refine wpM_ask fun m₁ _ now _ ↦ ⟨trivial, ?_⟩
    rw [← bind_pure (query _)]
    refine wpM_query_idle (fun b m₂ _ e _ _ hwhy _ ↦ ?_) fun b m₂ v a ch hb hm₂ hv hrun ↦
      ⟨fun _ x hx ↦ ?_, wpM_pure fun _ _ ↦ ?_, fun _ _ hf ↦ hf.elim⟩
    · rcases hwhy with hf | ⟨v, hv, hfail⟩
      · exact hf
      · exact View.update_ne_fail hv.iso (Outcome.map_eq_fail.1 hfail)
    · rw [store.stmt_of_mem_record hx]
      rfl
    · refine ⟨m₁, now, _, b, List.mem_cons_self, List.mem_cons_self, rfl, hb, hm₂, ?_⟩
      obtain ⟨r, hr, -⟩ := Outcome.map_eq_done.1 hrun
      have refused : ∀ {r : WorkflowRow}, r.acceptsOutcome (outcomeColumns fmt result).1 = false →
          r.status ≠ .pending := by
        intro r hrefuse hpending
        simp [WorkflowRow.acceptsOutcome, hpending] at hrefuse
      rcases View.update_settles (Stmt.updateWorkflowOutcome w (outcomeColumns fmt result).1
        (outcomeColumns fmt result).2.1 (outcomeColumns fmt result).2.2 now) hr with hbase | hafter
      · refine Or.inl fun r hr ↦ refused (hbase r ?_)
        rw [hv.base]
        exact hr
      · rw [hv.cur] at hafter
        refine Or.inr fun r hr hpending ↦ ?_
        rcases hafter r hr with hrefuse | ⟨old, rfl⟩
        · exact refused hrefuse hpending
        · rw [show (outcomeColumns fmt result).1 = .pending from hpending] at houtcome
          cases houtcome
  exact wpM_bind (wpM_attempt (wpM_mono hwrite (fun _ _ _ _ h ↦ wpM_pure fun _ _ ↦ h)
    fun _ _ _ _ h ↦ h.elim))

/-! ### Operations -/

variable {V : Type}

/-- The operations that spawn no task launch nothing. -/
theorem launchesNothing_run {op : Operation V} (h : op.spawns = false) :
    Sends (fun s ↦ s.launchesNothing = true) (op.run inner) := by
  by_cases hstarts : op.starts = true
  · cases op with
    | call c =>
      cases c with
      | enqueue queueName name input opts =>
        exact (sends_enqueueWorkflow (fun _ hqueued _ ↦ hqueued) (fun _ ↦ rfl) inner queueName name
          input opts).map.map
      | clientEnqueue queueName name encoded opts =>
        exact (sends_clientEnqueue (fun _ hqueued _ ↦ hqueued) (fun _ ↦ rfl) queueName name encoded
          opts).map.map
      | _ => exact absurd (h.symm.trans hstarts) Bool.false_ne_true
    | _ => exact absurd (h.symm.trans hstarts) Bool.false_ne_true
  · refine (startsNothing_run inner (Bool.eq_false_iff.2 hstarts)).mono (fun s hs ↦ ?_) fun _ ↦ id
    cases s <;> first | rfl | cases hs

/-- What an operation has done when it has returned. -/
structure FinishPost (inner : DbosInner) (op : Operation V) (τ : DbTrace) : Prop where
  followed : op.spawns = true → AllFollowedUp inner τ
  settled : ∀ w fmt result, op = .call (.complete w fmt result) → Settled w τ

theorem wp_finish_program (op : Operation V) :
    wp server (finishSpec valid (!op.spawns)) (op.program inner)
      (fun _ _ _ τ ↦ FinishPost inner op τ) .idle m {} := by
  have hempty : AllFollowedUp inner {} := fun _ he ↦ by cases he
  refine wp_program ?_
  by_cases hspawns : op.spawns = true
  · have follow : ∀ {τ}, AllFollowedUp inner τ → FinishPost inner op τ := by
      refine fun h ↦ ⟨fun _ ↦ h, ?_⟩
      rintro w fmt result rfl
      cases hspawns
    rw [hspawns, Bool.not_true]
    cases op with
    | call c =>
      refine wpM_map ?_
      cases c with
      | runWorkflow name input opts parent =>
        exact wpM_map (wpM_mono (wpM_follow_start hempty) (fun _ _ _ _ h ↦ follow h.2)
          fun _ _ _ _ h ↦ follow h.2)
      | pollQueue queue =>
        exact wpM_map (wpM_mono (wpM_follow_pollQueue queue hempty) (fun _ _ _ _ ↦ follow)
          fun _ _ _ _ ↦ follow)
      | recover executorIds =>
        exact wpM_map (wpM_mono (wpM_follow_recover executorIds hempty) (fun _ _ _ _ ↦ follow)
          fun _ _ _ _ ↦ follow)
      | _ => cases hspawns
    | durable state withinStep stepId inv =>
      refine wpM_map ?_
      cases inv with
      | runWorkflow name codec input opts =>
        exact wpM_map (wpM_mono (wpM_follow_child ⟨inner, state, withinStep⟩ rfl stepId name input
          opts) (fun _ _ _ _ ↦ follow) fun _ _ _ _ ↦ follow)
      | _ => cases hspawns
    | _ => cases hspawns
  · rw [Bool.eq_false_iff.2 hspawns, Bool.not_false]
    by_cases hcomplete : ∃ w fmt result, op = .call (.complete w fmt result)
    · obtain ⟨w, fmt, result, rfl⟩ := hcomplete
      refine wpM_map (wpM_map (wpM_mono (wpM_settle w fmt result) (fun _ _ _ τ h ↦ ?_)
        fun _ _ _ _ h ↦ h.elim))
      refine ⟨fun h ↦ (hspawns h).elim, ?_⟩
      rintro _ _ _ ⟨⟩
      exact h
    · have hpost : ∀ τ, FinishPost inner op τ := fun _ ↦
        ⟨fun h ↦ (hspawns h).elim, fun w fmt result h ↦ (hcomplete ⟨w, fmt, result, h⟩).elim⟩
      refine wp_mono (wp_of_all (launchesNothing_run (Bool.eq_false_iff.2 hspawns))
        (fun _ _ he _ ↦ he) (fun _ _ _ ↦ trivial) (by simp)) fun r _ _ τ _ ↦ ?_
      cases r <;> exact hpost τ

/-! ### Runs -/

/-- The task launched by the answer `a` of session `i` has come to its outcome write: a session of
the executor that has read the clock after the launch has recorded a result of the workflow. -/
def TaskReturned (executor : ℕ → DbosInner) (ops : ℕ → Operation V) (S : RuntimeSystem V) (i : ℕ)
    (a : DbAnswer) (id : String) : Prop :=
  ∃ j fmt result r, executor j = executor i ∧ ops j = .call (.complete id fmt result) ∧
    Returned S j r ∧ ∀ b ∈ S.answers, b.1 = j → a.moment.xid ≤ b.2.moment.xid

/-- The workflow has been `PENDING` on the executor ever since the `n`th transaction. -/
def Hangs (inner : DbosInner) (db₀ : Db) (S : RuntimeSystem V) (id : String) (n : ℕ) : Prop :=
  ∀ k, n < k → k ≤ S.history.length →
    ∃ r, (System.stateAt server db₀ S.history k).workflow id = some r ∧ r.status = .pending ∧
      r.executorId = some inner.executorId

variable {executor : ℕ → DbosInner} {ops : ℕ → Operation V} {db₀ : Db} {time : ℤ}
variable {S : RuntimeSystem V}

/-- **Executions finish.** In every run of operations in which the requests of the executor `inner`
do not fail: a transaction of the executor that launches a workflow directly or claims it does not
leave it hanging, once the operation has returned and the tasks it has launched for the workflow
have come to their outcome write, unless it claims the workflow under a name that is not registered.
-/
theorem executions_finish
    (h : Run (System.step server valid) (fun _ l ↦ Carries executor ops l ∧
      ∀ i, executor i = inner → l.faults i = false) (System.init db₀ time) S)
    {n : ℕ} {c : Commit Db Key Row Stmt} (hc : S.history[n]? = some c)
    (hi : executor c.session = inner) {id : String} (hgrants : grants inner id c.toEffect = true)
    {r : OperationResult V} (hdone : Returned S c.session r)
    (hregistered : ∀ w ∈ c.writes, claimsUnregistered inner id w = false)
    (hreturned : ∀ a ∈ S.answers, a.1 = c.session → launches id a.2 = true →
      TaskReturned executor ops S c.session a.2 id) :
    ¬ Hangs inner db₀ S id n := by
  classical
  let Γ : ℕ → DbSpec := fun i ↦
    if executor i = inner then finishSpec valid (!(ops i).spawns) else freeSpec valid
  let Q : ℕ → DbPost (OperationResult V) := fun i ↦
    if executor i = inner then fun _ _ _ τ ↦ FinishPost inner (ops i) τ else fun _ _ _ _ ↦ True
  have hself : ∀ {i}, executor i = inner → Γ i = finishSpec valid (!(ops i).spawns) ∧
      Q i = fun _ _ _ τ ↦ FinishPost inner (ops i) τ := fun hi ↦ ⟨if_pos hi, if_pos hi⟩
  have hother : ∀ {i}, executor i ≠ inner → Γ i = freeSpec valid ∧ Q i = fun _ _ _ _ ↦ True :=
    fun hi ↦ ⟨if_neg hi, if_neg hi⟩
  have heach : ∀ {R : ℕ → Prop}, (∀ i, executor i = inner → R i) →
      (∀ i, executor i ≠ inner → R i) → ∀ i, R i := fun hs ho i ↦
    (em (executor i = inner)).elim (hs i) (ho i)
  have hS : System.Sound server Γ Q S := by
    refine System.sound_of_run_faults
      (heach (fun i hi ↦ by rw [(hself hi).1]; exact fun _ _ h ↦ h)
        fun i hi ↦ by rw [(hother hi).1]; exact fun _ _ h ↦ h)
      (heach (fun i hi ↦ by rw [(hself hi).1]; rfl) fun i hi ↦ by rw [(hother hi).1]; rfl)
      (fun S l i hok hfault ↦ ?_) (fun S i p hok m ↦ ?_) h
      (heach (fun i hi ↦ by rw [(hself hi).1]; exact fun _ _ _ ↦ trivial)
        fun i hi ↦ by rw [(hother hi).1]; exact fun _ _ _ ↦ trivial)
    · by_cases hi : executor i = inner
      · rw [hok.2 i hi] at hfault
        cases hfault
      · rw [(hother hi).1]
        trivial
    · rw [hok.1 i p rfl]
      by_cases hi : executor i = inner
      · rw [(hself hi).1, (hself hi).2, hi]
        exact wp_finish_program (ops i)
      · rw [(hother hi).1, (hother hi).2]
        exact wp_free _
  obtain ⟨hC, hwrites⟩ := writes_of_run (runtime_of_carries (h.mono fun _ _ hok ↦ hok.1))
  have finished : ∀ {i r}, executor i = inner → Returned S i r →
      FinishPost inner (ops i) (S.traceOf i) := by
    rintro i r hi ⟨s, hs, hprog⟩
    have hpost := hS.returned hs hprog
    rwa [(hself hi).2] at hpost
  have hc' : c ∈ S.history := List.mem_of_getElem? hc
  -- the transaction is one of an operation that launches workflows, and so was followed up
  obtain ⟨w, hw, hlaunch⟩ := launchedBy_of_grants
    (fun w hw ↦ hwrites w (List.mem_flatMap.2 ⟨c, hc', hw⟩)) hgrants
  have hspawns : (ops c.session).spawns = true := by
    by_contra hnot
    obtain ⟨τ, -, -, hguar⟩ := hS.guar c hc'
    rw [(hself hi).1] at hguar
    have hnothing := hguar (by rw [Bool.eq_false_iff.2 hnot]; rfl) w hw
    rw [not_launchedBy hnothing] at hlaunch
    cases hlaunch
  obtain ⟨a, ha, hlaunched, hafter⟩ := (finished hi hdone).followed hspawns c.toEffect
    (System.mem_effects_traceOf.2 ⟨c, hc', rfl, rfl⟩) id ⟨w, hw, hlaunch⟩ hregistered
  obtain ⟨j, fmt, result, r', hj, hcomplete, hreturns, hclock⟩ :=
    hreturned (c.session, a) (System.mem_answers_traceOf.1 ha) rfl hlaunched
  -- the task has seen the row out of `PENDING`, or has left it so
  obtain ⟨m, t, e, b, hm, he, hb, hmb, hbe, hsettled⟩ :=
    (finished (hj.trans hi) hreturns).settled id fmt result hcomplete
  obtain ⟨d, hd, -, rfl⟩ := System.mem_effects_traceOf.1 he
  obtain ⟨k, hk⟩ := List.mem_iff_getElem?.1 hd
  obtain ⟨hkxid, -, hkshows, -, hksnap⟩ := hC.commit hk
  have hklt : k < S.history.length := (List.getElem?_eq_some_iff.1 hk).1
  have hbshows := (hksnap b hb).2
  have hnb : n < b.xid := by
    have hn : c.moment.xid = n := (hC.commit hc).1
    have hclock := hclock _ (System.mem_answers_traceOf.1 hm) rfl
    have hmb := hmb.2.1
    simp only at hclock hafter
    omega
  have hbk : b.xid ≤ k := hkxid ▸ hbe.2.1
  intro hhangs
  rcases hsettled with hfound | hleft
  · obtain ⟨row, hrow, hpending, -⟩ := hhangs b.xid hnb hbshows.bound
    exact hfound row (by rw [hbshows.db]; exact hrow) hpending
  · obtain ⟨row, hrow, hpending, -⟩ := hhangs (k + 1) (by omega) hklt
    refine hleft row ?_ hpending
    rw [hkshows.db, hkxid, ← System.stateAt_succ db₀ hk]
    exact hrow

end

/-! ### A workflow run, and one claimed where its name is not registered -/

section

local instance hangingJson : SerdeJson := JsonText.jsonText

/-- The label is not that of a request that fails. -/
def RuntimeLabel.served : RuntimeLabel V → Bool
  | .fail .. => false
  | .lost .. => false
  | _ => true

theorem faults_of_served {l : RuntimeLabel V} (h : l.served = true) (i : ℕ) :
    l.faults i = false := by
  cases l <;> first | rfl | cases h

theorem exists_returned {S : RuntimeSystem V} {i : ℕ}
    (h : (S.sessions.lookup i).any returnedOk = true) : ∃ r, Returned S i r := by
  obtain ⟨s, hs, hret⟩ := (Option.any_eq_true _ _).1 h
  obtain ⟨r, -, hprog, -⟩ := exists_of_returnedOk hret
  exact ⟨r, s, hs, hprog⟩

/-- Session 0 starts `w`, and session 1 records the result of its body. -/
def finishOps : ℕ → Operation ℤ
  | 0 => .call (.runWorkflow "f" none { workflowId := some "w" } none)
  | _ => .call (.complete "w" .portable (.ok "1"))

def startThenFinish : List (RuntimeLabel ℤ) :=
  (List.range 2).map (fun i ↦ .spawn i ((finishOps i).program (anyName "a"))) ++
  [.answer 0 (answersAt 1 ""), .answer 0 (answersAt 1 "x")] ++
  commandOne 0 ++ sendOne 0 ++ commandOne 0 ++ commandOne 0 ++ answerOne 0 2 ++
  answerOne 1 3 ++ sendOne 1

theorem startThenFinish_run : (exec (System.step server fun _ _ _ ↦ true) (System.init {} 0)
    startThenFinish).any (fun S ↦ (S.sessions.lookup 0).any returnedOk &&
      (S.sessions.lookup 1).any returnedOk &&
      (S.history[0]?.any fun c ↦ c.session = 0 && grants (anyName "a") "w" c.toEffect &&
        c.writes.all fun w ↦ !claimsUnregistered (anyName "a") "w" w) &&
      S.answers.all fun a ↦ S.answers.all fun b ↦
        !launches "w" a.2 || b.1 ≠ 1 || a.2.moment.xid ≤ b.2.moment.xid) = true := by
  decide +kernel

theorem executions_finish_startThenFinish : ∃ S, exec (System.step server fun _ _ _ ↦ true)
      (System.init {} 0) startThenFinish = some S ∧ ¬ Hangs (anyName "a") {} S "w" 0 := by
  obtain ⟨S, hS, hdone⟩ := (Option.any_eq_true _ _).1 startThenFinish_run
  simp only [Bool.and_eq_true] at hdone
  obtain ⟨⟨⟨hstart, hfinish⟩, hcommit⟩, hclock⟩ := hdone
  obtain ⟨c, hc, hcommit⟩ := (Option.any_eq_true _ _).1 hcommit
  simp only [Bool.and_eq_true, decide_eq_true_eq] at hcommit
  obtain ⟨⟨hsession, hgrants⟩, hregistered⟩ := hcommit
  obtain ⟨r, hr⟩ := exists_returned hstart
  obtain ⟨r', hr'⟩ := exists_returned hfinish
  have hrun : Run (System.step server fun _ _ _ ↦ true)
      (fun _ l ↦ Carries (fun _ ↦ anyName "a") finishOps l ∧
        ∀ i : ℕ, anyName "a" = anyName "a" → l.faults i = false) (System.init {} 0) S := by
    refine Run.of_exec hS fun S l hl ↦ ⟨?_, fun i _ ↦ faults_of_served ?_ i⟩
    · rintro i p rfl
      have hmem : (i, p) ∈ startThenFinish.filterMap spawnedOperation :=
        List.mem_filterMap.2 ⟨_, hl, rfl⟩
      rcases List.mem_cons.1 hmem with heq | hmem
      · cases heq
        rfl
      · cases List.mem_singleton.1 hmem
        rfl
    · have hserved : startThenFinish.all (RuntimeLabel.served ·) = true := rfl
      exact List.all_eq_true.1 hserved l hl
  refine ⟨S, hS, executions_finish hrun hc rfl hgrants (hsession ▸ hr)
    (fun w hw ↦ by simpa using List.all_eq_true.1 hregistered w hw)
    fun a ha hi hlaunch ↦ ⟨1, .portable, .ok "1", r', rfl, rfl, hr', fun b hb hb₁ ↦ ?_⟩⟩
  have hpair := List.all_eq_true.1 (List.all_eq_true.1 hclock a ha) b hb
  simpa [hlaunch, hb₁] using hpair

/-- An executor on which no name is registered. -/
def noName (executorId : String) : DbosInner := ⟨executorId, "v", none, fun _ ↦ none⟩

/-- Session 0 enqueues `w` on one executor, and session 1 polls the queue on another. -/
def unregisteredOps : ℕ → Operation ℤ
  | 0 => .call (.enqueue "q" "f" none { workflowId := some "w" })
  | _ => .call (.pollQueue { queueName := "q", executorId := "a", applicationVersion := "v" })

def unregisteredExecutor (i : ℕ) : DbosInner := if i = 0 then anyName "b" else noName "a"

def enqueueThenPoll : List (RuntimeLabel ℤ) :=
  (List.range 2).map (fun i ↦
    .spawn i ((unregisteredOps i).program (unregisteredExecutor i))) ++
  [.answer 0 (answersAt 1 ""), .answer 0 (answersAt 1 "x")] ++
  commandOne 0 ++ sendOne 0 ++ commandOne 0 ++ commandOne 0 ++
  commandOne 1 ++ sendOne 1 ++ answerOne 1 2 ++ sendOne 1 ++ commandOne 1 ++ commandOne 1

/-- Whether the row of `w` is `PENDING` on executor `a` in the end. -/
def pendingOnA (S : RuntimeSystem ℤ) : Bool :=
  ((System.stateAt server {} S.history 2).workflow "w").any fun r ↦
    r.status = .pending && r.executorId = some "a"

theorem enqueueThenPoll_run : (exec (System.step server fun _ _ _ ↦ true) (System.init {} 0)
    enqueueThenPoll).any (fun S ↦ (S.sessions.lookup 1).any returnedOk && pendingOnA S &&
      S.history.length = 2 && (S.history[1]?.any fun c ↦ c.session = 1 &&
        grants (noName "a") "w" c.toEffect) &&
      S.answers.all fun a ↦ (spawnedTask a.2).isNone) = true := by
  decide +kernel

/-- The poll loop of executor `a` has claimed `w`, no request has failed and no task is running, and
the row stays `PENDING` on that executor. -/
theorem unregistered_hangs : ∃ S c r, exec (System.step server fun _ _ _ ↦ true)
      (System.init {} 0) enqueueThenPoll = some S ∧
    enqueueThenPoll.all (RuntimeLabel.served ·) = true ∧ S.history[1]? = some c ∧
    grants (noName "a") "w" c.toEffect = true ∧ Returned S c.session r ∧
    (∀ a ∈ S.answers, spawnedTask a.2 = none) ∧ Hangs (noName "a") {} S "w" 1 := by
  obtain ⟨S, hS, hdone⟩ := (Option.any_eq_true _ _).1 enqueueThenPoll_run
  simp only [Bool.and_eq_true, decide_eq_true_eq] at hdone
  obtain ⟨⟨⟨⟨hret, hpending⟩, hlength⟩, hcommit⟩, hnone⟩ := hdone
  obtain ⟨c, hc, hcommit⟩ := (Option.any_eq_true _ _).1 hcommit
  simp only [Bool.and_eq_true, decide_eq_true_eq] at hcommit
  obtain ⟨r, hr⟩ := exists_returned hret
  refine ⟨S, c, r, hS, rfl, hc, hcommit.2, hcommit.1 ▸ hr,
    fun a ha ↦ Option.isNone_iff_eq_none.1 (List.all_eq_true.1 hnone a ha), fun k hk hlen ↦ ?_⟩
  obtain rfl : k = 2 := by omega
  obtain ⟨row, hrow, hstatus⟩ := (Option.any_eq_true _ _).1 hpending
  rw [Bool.and_eq_true] at hstatus
  exact ⟨row, hrow, of_decide_eq_true hstatus.1, of_decide_eq_true hstatus.2⟩

end

end Dbos
