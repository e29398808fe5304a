import DbosTransact.Queue.Order
import DbosTransact.Queue.Exclusive
import DbosTransact.Runtime.Deduplication
import DbosTransact.Runtime.Identity

/-!
# What the poll loop of a queue sees

A round of the poll loop of a partitioned queue goes through the partition keys of the waiting
workflows, a `NULL` key not being one, and claims in each partition by itself. An enqueue takes a
partition key or takes none, whatever the queue is. So a workflow enqueued without a key on a
partitioned queue is in no partition the loop goes through, and waits for ever.

`enqueue_seen_iff` says that there is no other way to be lost: in every run, a workflow that was
enqueued for the version of its executor is seen, whenever it waits on that queue, exactly if the
queue is not partitioned or a key was given. Its partition key and its version never change
(`Stmt.Writes.placed`), the version because a claim writes the one it has selected by
(`claims_own_version`), and it leaves the queue only for good or by a resumption
(`Stmt.Writes.onQueue`).
-/

namespace Dbos

open Txn

/-! ### A round of the poll loop -/

namespace Workers.WorkflowQueue

variable (queue : WorkflowQueue)

/-- The partitions a round goes through. -/
def partitions (db : Db) : List (Option String) :=
  if queue.partitionQueue then
    ((db.workflowStatus.select fun _ r ↦ r.queueName = some queue.name && r.status = .enqueued &&
      r.queuePartitionKey.isSome).filterMap fun e ↦ e.2.queuePartitionKey).dedup.map some
  else [none]

/-- The keys are those `get_queue_partitions` returns. -/
theorem partitions_eq (hpartitioned : queue.partitionQueue = true) (v : DbView Stmt) :
    ∃ keys, Stmt.run v (.getQueuePartitions queue.name) = .read keys ∧
      queue.partitions v.base = keys.map some :=
  ⟨_, rfl, by rw [partitions, if_pos hpartitioned]⟩

/-- One of the claims of a round has the workflow `x` among its candidates, whatever the executor
counts as running. Left alone it claims `x`, if there is room for `x` and all that are not after it.
-/
def Sees (inner : DbosInner) (db : Db) (x : String × WorkflowRow) : Prop :=
  ∃ p ∈ queue.partitions db, ∀ running, x ∈ (queue.input inner p running).eligible db ∧
    ∀ valid j S₀ S res, S₀.moment.db = db →
      UndisturbedCall valid (queue.input inner p running) j S₀ S res →
      (∀ now, ((queue.input inner p running).eligible db).countP
        (fun z ↦ z.2.sortKey ≤ x.2.sortKey) ≤ (queue.input inner p running).room db now) →
      ∃ wfs, res = .ok wfs ∧ dequeued x ∈ wfs

variable {queue}

theorem sees_iff {inner : DbosInner} {db : Db} {id : String} {r : WorkflowRow}
    (hr : db.workflow id = some r) : queue.Sees inner db (id, r) ↔
      r.queueName = some queue.name ∧ r.status = .enqueued ∧
        (r.applicationVersion = some inner.applicationVersion ∨ r.applicationVersion = none) ∧
        (queue.partitionQueue = true → r.queuePartitionKey.isSome = true) := by
  have hclaims : ∀ p, (∀ running, (id, r) ∈ (queue.input inner p running).eligible db) →
      p ∈ queue.partitions db → queue.Sees inner db (id, r) := by
    refine fun p hall hp ↦ ⟨p, hp, fun running ↦ ⟨hall running, ?_⟩⟩
    rintro valid j S₀ S res rfl hcall hroom
    exact hcall.claims (hall running) hroom
  have hmem : ∀ p running, (id, r) ∈ (queue.input inner p running).eligible db ↔
      r.queueName = some queue.name ∧ (p = none ∨ r.queuePartitionKey = p) ∧ r.status = .enqueued ∧
        (r.applicationVersion = some inner.applicationVersion ∨ r.applicationVersion = none) := by
    intro p running
    rw [DequeueInput.mem_eligible, and_iff_right hr, WorkflowRow.candidate_iff]
    rfl
  constructor
  · rintro ⟨p, hp, hall⟩
    obtain ⟨hqueue, hpart, hstatus, hversion⟩ := (hmem p 0).1 (hall 0).1
    refine ⟨hqueue, hstatus, hversion, fun hpartitioned ↦ ?_⟩
    rw [partitions, if_pos hpartitioned] at hp
    obtain ⟨key, -, rfl⟩ := List.mem_map.1 hp
    rw [hpart.resolve_left (by simp)]
    rfl
  · rintro ⟨hqueue, hstatus, hversion, hkey⟩
    by_cases hpartitioned : queue.partitionQueue = true
    · obtain ⟨key, hkey'⟩ := Option.isSome_iff_exists.1 (hkey hpartitioned)
      refine hclaims (some key)
        (fun running ↦ (hmem _ _).2 ⟨hqueue, Or.inr hkey', hstatus, hversion⟩) ?_
      rw [partitions, if_pos hpartitioned]
      refine List.mem_map_of_mem (List.mem_dedup.2 (List.mem_filterMap.2 ⟨(id, r), ?_, hkey'⟩))
      exact Table.mem_select_iff.2 ⟨hr, by simp [hqueue, hstatus, hkey']⟩
    · refine hclaims none
        (fun running ↦ (hmem _ _).2 ⟨hqueue, Or.inl rfl, hstatus, hversion⟩) ?_
      rw [partitions, if_neg hpartitioned]
      exact List.mem_singleton_self none

end Workers.WorkflowQueue

/-! ### What stays as it was enqueued -/

/-- The claims of a transaction are of workflows that have the version the claim writes, or none. -/
def ClaimsOwnVersion (e : DbEffect) : Prop :=
  ∀ id w r new version executorId now limited, (⟨.workflowStatus id, some r, new,
    .claimWorkflow w version executorId now limited⟩ : DbWrite) ∈ e.writes →
      r.applicationVersion = some version ∨ r.applicationVersion = none

/-- The columns that decide which partition and which executors a workflow is for. -/
structure WorkflowRow.Placed (version : String) (partition : Option String) (r : WorkflowRow) :
    Prop where
  version : r.applicationVersion = some version
  partition : r.queuePartitionKey = partition

/-- The workflow is on the queue, or on none and waits no longer. -/
def WorkflowRow.OnQueue (queueName : String) (r : WorkflowRow) : Prop :=
  r.queueName = some queueName ∨ r.queueName = none ∧ r.status.isQueued = false

section

variable {s : Stmt} {id queueName version : String} {partition : Option String}
variable {r new : WorkflowRow}

theorem Stmt.Writes.placed (h : s.Writes (.workflowStatus id) (some r) (some new))
    (hclaim : ∀ w version executorId now limited,
      s = .claimWorkflow w version executorId now limited →
        r.applicationVersion = some version ∨ r.applicationVersion = none)
    (hr : r.Placed version partition) : new.Placed version partition := by
  cases h with
  | claim w version' executorId now limited r _ =>
    have hsome := (hclaim _ _ _ _ _ rfl).resolve_right (by rw [hr.version]; simp)
    exact ⟨hsome.symm.trans hr.version, hr.partition⟩
  | _ => exact ⟨hr.version, hr.partition⟩

theorem Stmt.Writes.onQueue (h : s.Writes (.workflowStatus id) (some r) (some new)) (hs : s.Runtime)
    (hresume : ∀ ids q now, s = .resumeWorkflows ids q now → q = queueName)
    (hr : r.OnQueue queueName) : new.OnQueue queueName := by
  cases h with
  | insertConflict input r => exact hr
  | lock => exact hr
  | markForked w r => exact hr
  | claim w version executorId now limited r _ => exact hr.imp_right fun hnone ↦ ⟨hnone.1, rfl⟩
  | deadLetter w r _ => exact Or.inr ⟨rfl, rfl⟩
  | cancel ids now w r _ _ => exact Or.inr ⟨rfl, rfl⟩
  | resume ids q now w r _ _ => exact Or.inl (congrArg some (hresume _ _ _ rfl))
  | outcome w status output error now r _ =>
    refine hr.imp_right fun hnone ↦ ⟨hnone.1, ?_⟩
    have hout : status.isOutcome = true := hs
    show status.isQueued = false
    cases status <;> first | rfl | cases hout
  | promote now w r hdue =>
    refine Or.inl (hr.resolve_right fun hnone ↦ ?_)
    simp only [WorkflowRow.due, Bool.and_eq_true, decide_eq_true_eq] at hdue
    rw [hdue.1] at hnone
    cases hnone.2
  | clear w r hassigned =>
    refine Or.inl (hr.resolve_right fun hnone ↦ ?_)
    simp [WorkflowRow.assigned, hnone.1] at hassigned

end

/-! ### Sessions -/

section

variable [SerdeJson] {V : Type} {valid : DbMoment → (q : Ask) → q.Ans → Bool}
variable {inner : DbosInner} {m : DbMoment}

/-- The statements other than a claim. -/
def Stmt.claimsNothing : Stmt → Bool
  | claimWorkflow .. => false
  | _ => true

theorem claimsNothing_run {op : Operation V} (h : op.isPoll = false) :
    Sends (fun s ↦ s.claimsNothing = true) (op.run inner) := by
  have hplain : ∀ s : Stmt, s.Plain → s.claimsNothing = true := by
    intro s hs
    cases s <;> first | rfl | cases hs
  have hcall : ∀ {w n kind} (s : Stmt), s.CallOf w n kind → s.claimsNothing = true := by
    intro w n kind s hs
    cases s <;> first | rfl | cases hs
  by_cases hstarts : op.starts = true
  · cases op with
    | call c =>
      refine Sends.map ?_
      cases c with
      | runWorkflow name input opts parent =>
        rcases parent with - | ⟨state, n⟩
        · exact ((plain_startWorkflow inner name input opts .portable false trivial trivial
            fun _ ↦ trivial).mono hplain fun _ ↦ id).map
        · exact ((call_startWorkflow inner name input opts state n _ _).mono (fun _ ↦ hcall _)
            fun _ ↦ id).map
      | enqueue queueName name input opts =>
        exact ((plain_enqueueWorkflow inner queueName name input opts).mono hplain fun _ ↦ id).map
      | clientEnqueue queueName name encoded opts =>
        exact ((plain_clientEnqueue queueName name encoded opts).mono hplain fun _ ↦ id).map
      | recover executorIds => exact ((plain_recover inner executorIds).mono hplain fun _ ↦ id).map
      | pollQueue queue => cases h
      | _ => cases hstarts
    | durable state withinStep n inv =>
      exact Sends.map ((call_invocation _ n inv fun _ _ ↦ trivial).mono (fun _ ↦ hcall _)
        fun _ ↦ id)
    | _ => cases hstarts
  · refine (startsNothing_run inner (Bool.eq_false_iff.2 hstarts)).mono (fun s hs ↦ ?_) fun _ ↦ id
    cases s <;> first | rfl | cases hs

/-- What is guaranteed of the claims of a session. -/
def versionSpec (valid : DbMoment → (q : Ask) → q.Ans → Bool) : DbSpec where
  rely := Moment.Before
  rely_refl := Moment.Before.refl
  rely_trans := Moment.Before.trans
  valid := valid
  guar _ := ClaimsOwnVersion

omit [SerdeJson] in
theorem DequeueCommit.claimsOwnVersion {input : DequeueInput} {k : Claims} {e : DbEffect}
    (h : DequeueCommit valid input k e) : ClaimsOwnVersion e := by
  intro id w r new version executorId now limited hw
  rcases h.mem_writes hw with ⟨x, -, heq⟩ | ⟨x, hx, heq⟩
  · cases heq
  · cases heq
    exact (WorkflowRow.candidate_iff.1 (h.candidate x (h.sublist.subset hx))).2.2.2

theorem wp_version_program (op : Operation V) :
    wp server (versionSpec valid) (op.program inner) (fun _ _ _ _ ↦ True) .idle m {} := by
  have hnone : ∀ e : DbEffect, (∀ w ∈ e.writes, w.stmt.claimsNothing = true) →
      ClaimsOwnVersion e := by
    intro e he id w r new version executorId now limited hw
    cases he _ hw
  by_cases hpoll : op.isPoll = true
  · cases op with
    | call c =>
      cases c with
      | pollQueue queue =>
        refine wp_program (wpM_map (wpM_map (wpM_bind (wpM_mono (wpM_dequeueWorkflows _ m {} id
          (fun _ _ _ ↦ trivial) fun _ _ _ h ↦ h.claimsOwnVersion) ?_ fun _ _ _ _ _ ↦ trivial))))
        rintro claimed c m τ ⟨rfl, -⟩
        have hdispatch : Sends (fun s ↦ s.claimsNothing = true) (dispatchEach inner claimed) :=
          sends_dispatchEach inner claimed
        exact wp_mono (wp_of_all hdispatch (fun _ e he ↦ hnone e he) (fun _ _ _ ↦ trivial)
          (by simp)) fun r _ _ _ _ ↦ by cases r <;> trivial
      | _ => cases hpoll
    | _ => cases hpoll
  · have hall : (op.program inner).All (fun s ↦ s.claimsNothing = true) fun _ ↦ True :=
      Prog.All.bind (claimsNothing_run (Bool.eq_false_iff.2 hpoll)) fun _ ↦ trivial
    exact wp_of_all hall (fun _ e he ↦ hnone e he) (fun _ _ _ ↦ trivial) (by simp)

/-- What an enqueue has done when it has returned a handle. -/
def EnqueuedAs (version queueName : String) (opts : EnqueueOptions) (h : WorkflowHandle)
    (τ : DbTrace) : Prop :=
  ∃ (u : Upsert) (e : DbEffect), e ∈ τ.effects ∧ u.Commits e ∧ u.input.workflowId = h.id ∧
    u.input.row.queueName = some queueName ∧
    u.input.row.Placed (opts.applicationVersion.getD version) opts.queuePartitionKey ∧
    u.input.status = enqueueStatus opts.delay

theorem wp_enqueue_program (queueName name : String) (input : Option String)
    (opts : EnqueueOptions) :
    wp server (freeSpec valid)
      ((Operation.call (.enqueue queueName name input opts) : Operation V).program inner)
      (fun r _ _ τ ↦ ∀ h, r.2 = .ok (.call (.handle h)) →
        EnqueuedAs inner.applicationVersion queueName opts h τ) .idle m {} := by
  refine wp_program (wpM_map (wpM_map ?_))
  rw [enqueueWorkflow]
  split
  · exact wpM_throw fun _ _ h heq ↦ by cases heq
  refine wpM_mono (wpM_enqueue (fun _ _ _ ↦ trivial) (fun _ _ _ ↦ rfl)
    fun _ _ _ _ _ _ _ _ _ _ _ ↦ trivial) ?_ fun _ _ _ _ _ h heq ↦ by cases heq
  rintro h c m' τ ⟨-, id, now, xid, rfl, -, u, e, hu, -, hcommits, -, hadds⟩ h' heq
  cases heq
  have hmem : e ∈ τ.effects := by
    rw [hadds.effects]
    exact List.mem_append_right _ List.mem_cons_self
  exact ⟨u, e, hmem, hcommits, by rw [hu], by rw [hu]; rfl, by rw [hu]; exact ⟨rfl, rfl⟩,
    by rw [hu]⟩

/-! ### Runs -/

variable {executor : ℕ → DbosInner} {ops : ℕ → Operation V} {db₀ : Db} {time : ℤ}
variable {S : RuntimeSystem V} {id queueName : String}

/-- Every claim of a run is of a workflow that has the version the claim writes, or none. -/
theorem claims_own_version
    (h : Run (System.step server valid) (RuntimeStep executor) (System.init db₀ time) S)
    {r : WorkflowRow} {new : Option WorkflowRow} {w version executorId : String} {now : ℤ}
    {limited : Bool} (hw : (⟨.workflowStatus id, some r, new,
      .claimWorkflow w version executorId now limited⟩ : DbWrite) ∈ System.written S.history) :
    r.applicationVersion = some version ∨ r.applicationVersion = none := by
  have hsound : System.Sound server (fun _ ↦ versionSpec valid) (fun _ _ _ _ _ ↦ True) S :=
    System.sound_of_run (fun _ _ _ hm ↦ hm) (fun _ ↦ rfl) (fun _ ↦ trivial) (fun S i p hp m ↦ by
      obtain ⟨op, rfl⟩ := hp i p rfl
      exact wp_version_program op) h
  obtain ⟨c, hc, hw⟩ := List.mem_flatMap.1 hw
  obtain ⟨τ, -, -, hclaims⟩ := hsound.guar c hc
  exact hclaims _ _ _ _ _ _ _ _ hw

/-- The workflow is not resumed on a queue other than this one. -/
def ResumedOnlyOn (S : RuntimeSystem V) (id queueName : String) : Prop :=
  ∀ old new ids q now, (⟨.workflowStatus id, old, new, .resumeWorkflows ids q now⟩ : DbWrite) ∈
    System.written S.history → q = queueName

omit [SerdeJson] in
/-- A row that is not deleted keeps what every write to it keeps. -/
theorem row_keeps (hC : System.Consistent server db₀ S) (hkept : NeverDeleted S id) {n k : ℕ}
    (hnk : n ≤ k) {P : WorkflowRow → Prop} {r : WorkflowRow}
    (hr : (System.stateAt server db₀ S.history n).workflow id = some r) (hP : P r)
    (hstep : ∀ r new s, (⟨.workflowStatus id, some r, some new, s⟩ : DbWrite) ∈
      System.written S.history → P r → P new) :
    ∃ r', (System.stateAt server db₀ S.history k).workflow id = some r' ∧ P r' := by
  refine hC.keeps hnk (k := .workflowStatus id)
    (P := fun row : Option WorkflowRow ↦ ∃ r', row = some r' ∧ P r') ⟨r, hr, hP⟩ ?_
  rintro old new s - hw ⟨r', rfl, hP'⟩
  cases new with
  | none => exact (hkept _ _ hw).elim
  | some new => exact ⟨new, rfl, hstep r' new s hw hP'⟩

/-- **Enqueued workflows are seen.** In every run, take an enqueue for the version of its executor
that has returned a handle with a fresh id, and whose row is not deleted. In every state after its
commit, the row, if it waits, is seen by the poll loop of the queue of this executor exactly if it
is on this queue, and the queue is not partitioned or the enqueue had a partition key. It is on this
queue whenever it waits, unless it is resumed on another. -/
theorem enqueue_seen_iff
    (h : Run (System.step server valid) (fun _ l ↦ Carries executor ops l) (System.init db₀ time) S)
    {i : ℕ} {queue : Workers.WorkflowQueue} {name : String} {input : Option String}
    {opts : EnqueueOptions} {handle : WorkflowHandle}
    (hop : ops i = .call (.enqueue queue.name name input opts))
    (hversion : ∀ v ∈ opts.applicationVersion, v = (executor i).applicationVersion)
    {op : Operation V} (hret : Returned S i (op, .ok (.call (.handle handle))))
    (hkept : NeverDeleted S handle.id) :
    ∃ n c, S.history[n]? = some c ∧ c.session = i ∧
      ((System.stateAt server db₀ S.history n).workflow handle.id = none → ∀ k, n < k →
        k ≤ S.history.length → ∃ r,
          (System.stateAt server db₀ S.history k).workflow handle.id = some r ∧
          (r.status = .enqueued →
            (queue.Sees (executor i) (System.stateAt server db₀ S.history k) (handle.id, r) ↔
              r.queueName = some queue.name ∧
                (queue.partitionQueue = true → opts.queuePartitionKey.isSome = true))) ∧
          (ResumedOnlyOn S handle.id queue.name → r.status = .enqueued →
            r.queueName = some queue.name)) := by
  have hrun := runtime_of_carries h
  obtain ⟨hC, hwrites⟩ := writes_of_run hrun
  -- the transaction of the enqueue
  obtain ⟨-, Γ, Q, -, hQ, hS, -⟩ := System.sound_session (E := server) (freeSpec valid)
    (fun r _ _ τ ↦ ∀ h, r.2 = .ok (.call (.handle h)) →
      EnqueuedAs (executor i).applicationVersion queue.name opts h τ) (i := i)
    (fun _ _ hm ↦ hm) rfl trivial (fun S p hok m ↦ by
      rw [hok i p rfl, hop]
      exact wp_enqueue_program queue.name name input opts) h
  obtain ⟨s, hs, hprog⟩ := hret
  have hpost := hS.returned hs hprog
  rw [hQ] at hpost
  obtain ⟨u, e, he, hcommits, hid, hqueue, hplaced, hstatus⟩ := hpost handle rfl
  obtain ⟨c, hc, hi, rfl⟩ := System.mem_effects_traceOf.1 he
  obtain ⟨n, hn⟩ := List.mem_iff_getElem?.1 hc
  refine ⟨n, c, hn, hi, fun hfresh k hnk hk ↦ ?_⟩
  -- the row it leaves
  have hnone : u.old = none := by
    rw [← hcommits.old, hid, hC.before hn]
    exact hfresh
  have hrow : u.final = u.input.row := by
    have hinserted : u.row = u.input.row := by rw [Upsert.row, hnone]
    have hpending : u.row.status ≠ .pending := by
      rw [hinserted, show u.input.row.status = enqueueStatus opts.delay from hstatus, enqueueStatus]
      split <;> decide
    rw [Upsert.final, decide_eq_false hpending, Bool.and_false, if_neg Bool.false_ne_true,
      hinserted]
  have hafter : (System.stateAt server db₀ S.history (n + 1)).workflow handle.id =
      some u.input.row := by
    rw [System.stateAt_succ db₀ hn, ← hC.before hn, ← hid, ← hrow]
    exact hcommits.after
  have hown : opts.applicationVersion.getD (executor i).applicationVersion =
      (executor i).applicationVersion := by
    cases hgiven : opts.applicationVersion with
    | none => rfl
    | some v => exact hversion v hgiven
  rw [hown] at hplaced
  -- its columns in the later states
  obtain ⟨r, hr, hplaced⟩ := row_keeps hC hkept hnk hafter hplaced fun r new s hw hr ↦
    Stmt.Writes.placed (hC.legal _ hw) (fun _ _ _ _ _ heq ↦ by
      subst heq
      exact claims_own_version hrun hw) hr
  refine ⟨r, hr, fun henqueued ↦ ?_, fun honly henqueued ↦ ?_⟩
  · rw [Workers.WorkflowQueue.sees_iff hr, and_iff_right henqueued,
      and_iff_right (Or.inl hplaced.version), hplaced.partition]
  · obtain ⟨r', hr', hon⟩ := row_keeps hC hkept hnk hafter (P := WorkflowRow.OnQueue queue.name)
      (Or.inl hqueue) fun r new s hw hr ↦ Stmt.Writes.onQueue (hC.legal _ hw) (hwrites _ hw).2
        (fun ids q now heq ↦ by
          subst heq
          exact honly _ _ _ _ _ hw) hr
    obtain rfl : r = r' := Option.some.inj (hr.symm.trans hr')
    refine hon.resolve_right fun hoff ↦ ?_
    rw [henqueued] at hoff
    cases hoff.2

end

/-! ### An enqueue without a partition key -/

section

local instance visibleJson : SerdeJson := JsonText.jsonText

/-- A partitioned queue. -/
def partitionedQueue : Workers.WorkflowQueue := { name := "q", partitionQueue := true }

/-- The enqueue of `w` on it, with or without a partition key. -/
def enqueueKeyed (key : Option String) : Operation ℤ :=
  .call (.enqueue "q" "f" none { workflowId := some "w", queuePartitionKey := key })

/-- Session 0 enqueues the workflow. -/
def enqueueAlone (key : Option String) : List (RuntimeLabel ℤ) :=
  [.spawn 0 ((enqueueKeyed key).program (anyName "a"))] ++ insertOne 0 ++ commandOne 0

/-- Whether the session has returned a handle of `w`. -/
def returnedHandle
    (s : Session Db Key Row Stmt Stmt.Res SqlError Ask Ask.Ans (OperationResult ℤ)) : Bool :=
  match s.prog with
  | .pure (_, .ok (.call (.handle h))) => h.id = "w"
  | _ => false

theorem exists_of_returnedHandle {S : RuntimeSystem ℤ} {i : ℕ}
    (h : (S.sessions.lookup i).any returnedHandle = true) :
    ∃ op handle, Returned S i (op, .ok (.call (.handle handle))) ∧ handle.id = "w" := by
  obtain ⟨s, hs, hret⟩ := (Option.any_eq_true _ _).1 h
  unfold returnedHandle at hret
  split at hret
  · rename_i op handle hprog
    exact ⟨op, handle, ⟨s, hs, hprog⟩, of_decide_eq_true hret⟩
  · cases hret

/-- Whether the enqueue has returned its handle, its row waits with its key after its commit, and no
row was taken away or resumed. -/
def enqueuedWaits (key : Option String) (S : RuntimeSystem ℤ) : Bool :=
  (S.sessions.lookup 0).any returnedHandle && S.history.length = 1 &&
    ((System.stateAt server {} S.history 1).workflow "w").any (fun r ↦
      r.status = .enqueued && r.queuePartitionKey = key) &&
    (System.written S.history).all fun w ↦ w.new.isSome && resumesNothing w

/-- What the run of an enqueue comes to. -/
theorem exists_run_enqueueAlone (key : Option String)
    (hrun : (exec (System.step server fun _ _ _ ↦ true) (System.init {} 0) (enqueueAlone key)).any
      (enqueuedWaits key) = true) :
    ∃ (S : RuntimeSystem ℤ) (r : WorkflowRow),
      Run (System.step server fun _ _ _ ↦ true)
        (fun _ l ↦ Carries (fun _ ↦ anyName "a") (fun _ ↦ enqueueKeyed key) l)
        (System.init {} 0) S ∧
      (∃ op handle, Returned S 0 (op, .ok (.call (.handle handle))) ∧ handle.id = "w") ∧
      NeverDeleted S "w" ∧ ResumedOnlyOn S "w" "q" ∧ S.history.length = 1 ∧
      (System.stateAt server {} S.history 1).workflow "w" = some r ∧ r.status = .enqueued ∧
      r.queuePartitionKey = key := by
  obtain ⟨S, hS, hdone⟩ := (Option.any_eq_true _ _).1 hrun
  simp only [enqueuedWaits, Bool.and_eq_true, decide_eq_true_eq] at hdone
  obtain ⟨⟨⟨hret, hlen⟩, hwaits⟩, hwrites⟩ := hdone
  obtain ⟨r, hr, hcols⟩ := (Option.any_eq_true _ _).1 hwaits
  obtain ⟨hstatus, hkey⟩ := Bool.and_eq_true_iff.1 hcols
  refine ⟨S, r, Run.of_exec hS ?_, exists_of_returnedHandle hret, fun old s hw ↦ ?_,
    fun old new ids q now hw ↦ ?_, hlen, hr, of_decide_eq_true hstatus,
    of_decide_eq_true hkey⟩
  · rintro S l hl i p rfl
    have hmem : (i, p) ∈ (enqueueAlone key).filterMap spawnedOperation :=
      List.mem_filterMap.2 ⟨_, hl, rfl⟩
    cases List.mem_singleton.1 hmem
    rfl
  · cases (Bool.and_eq_true_iff.1 (List.all_eq_true.1 hwrites _ hw)).1
  · cases (Bool.and_eq_true_iff.1 (List.all_eq_true.1 hwrites _ hw)).2

theorem enqueue_seen_iff_keyed : ∃ (S : RuntimeSystem ℤ) (r : WorkflowRow),
    (System.stateAt server {} S.history 1).workflow "w" = some r ∧ r.status = .enqueued ∧
      partitionedQueue.Sees (anyName "a") (System.stateAt server {} S.history 1) ("w", r) := by
  obtain ⟨S, r, hrun, ⟨op, handle, hret, hid⟩, hkept, honly, hlen, hr, hstatus, -⟩ :=
    exists_run_enqueueAlone (some "p") (by decide +kernel)
  rw [← hid] at hkept honly
  have hop : enqueueKeyed (some "p") = .call (.enqueue partitionedQueue.name "f" none
      { workflowId := some "w", queuePartitionKey := some "p" }) := rfl
  obtain ⟨n, c, hn, -, hseen⟩ := enqueue_seen_iff hrun (i := 0) hop (by simp) hret hkept
  have hzero : n = 0 := by
    have hlt := (List.getElem?_eq_some_iff.1 hn).1
    omega
  subst hzero
  obtain ⟨r', hr', hiff, hon⟩ := hseen rfl 1 Nat.one_pos hlen.ge
  rw [hid] at hr' hiff
  obtain rfl : r = r' := Option.some.inj (hr.symm.trans hr')
  exact ⟨S, r, hr, hstatus, (hiff hstatus).2 ⟨hon honly hstatus, fun _ ↦ rfl⟩⟩

/-- The workflow was accepted, and waits in a state in which the poll loop does not see it. -/
theorem enqueue_without_key_unseen : ∃ (S : RuntimeSystem ℤ) (r : WorkflowRow),
    Run (System.step server fun _ _ _ ↦ true)
      (fun _ l ↦ Carries (fun _ ↦ anyName "a") (fun _ ↦ enqueueKeyed none) l)
      (System.init {} 0) S ∧
    (∃ op handle, Returned S 0 (op, .ok (.call (.handle handle))) ∧ handle.id = "w") ∧
    (System.stateAt server {} S.history 1).workflow "w" = some r ∧ r.status = .enqueued ∧
      ¬ partitionedQueue.Sees (anyName "a") (System.stateAt server {} S.history 1) ("w", r) := by
  obtain ⟨S, r, hrun, hret, -, -, -, hr, hstatus, hkey⟩ :=
    exists_run_enqueueAlone none (by decide +kernel)
  refine ⟨S, r, hrun, hret, hr, hstatus, fun hsees ↦ ?_⟩
  obtain ⟨-, -, -, hsome⟩ := (Workers.WorkflowQueue.sees_iff hr).1 hsees
  rw [hkey] at hsome
  cases hsome rfl

end

end Dbos
