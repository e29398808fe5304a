import DbosTransact.Queue.Runs

/-!
# Queue claims are exclusive

A claim moves a row from `ENQUEUED` to `PENDING`, and of all the statements the runtime sends while
it is up, only the two that put a workflow back on a queue make a claimed row `ENQUEUED` again. So
between two claims of a workflow there is always one of those (`claims_exclusive`), whatever mix of
limits, isolation levels and lock modes the claimers use. The argument is about the chain of
committed writes and needs nothing of the claimers but that each write is legal.
-/

namespace Dbos

open Txn

/-- Whether a write claims the workflow: `ENQUEUED` to `PENDING`. -/
def isClaim (id : String) : DbWrite → Bool
  | ⟨.workflowStatus w, some (old : WorkflowRow), some (new : WorkflowRow), _⟩ =>
    w = id && old.status = .enqueued && new.status = .pending
  | _ => false

/-- Whether a write clears the queue assignment of the workflow or resumes it. -/
def isRequeue (id : String) : DbWrite → Bool
  | ⟨.workflowStatus w, _, _, .clearQueueAssignment _⟩ => w = id
  | ⟨.workflowStatus w, _, _, .resumeWorkflows ..⟩ => w = id
  | _ => false

theorem isClaim_iff {id : String} {w : DbWrite} :
    isClaim id w = true ↔ ∃ (old new : WorkflowRow) (s : Stmt),
      w = ⟨.workflowStatus id, some old, some new, s⟩ ∧ old.status = .enqueued ∧
        new.status = .pending := by
  constructor
  · intro h
    obtain ⟨k, old, new, s⟩ := w
    cases k with
    | workflowStatus w =>
      cases old with
      | none => cases h
      | some old =>
        cases new with
        | none => cases h
        | some new =>
          obtain ⟨⟨rfl, hold⟩, hnew⟩ :
            (w = id ∧ old.status = .enqueued) ∧ new.status = .pending := by
            simpa [isClaim] using h
          exact ⟨old, new, s, rfl, hold, hnew⟩
    | _ => cases h
  · rintro ⟨old, new, s, rfl, hold, hnew⟩
    simp [isClaim, hold, hnew]

/-- The statements that sessions of a queue send. -/
def Stmt.Queue (s : Stmt) : Prop := s.Ordinary ∨ ∃ w version executorId now limited,
  s = .claimWorkflow w version executorId now limited

/-- A row that is waiting on no queue starts to wait only by a requeue. -/
theorem Stmt.Writes.not_queued {s : Stmt} {id : String} {old : WorkflowRow}
    {new : Option WorkflowRow} (h : s.Writes (.workflowStatus id) (some old) new)
    (hs : s.Queue) (hold : old.status.isQueued = false) :
    isRequeue id ⟨.workflowStatus id, some old, new, s⟩ = true ∨
      ∃ r, new = some r ∧ r.status.isQueued = false := by
  cases h with
  | insertConflict input r => exact Or.inr ⟨_, rfl, hold⟩
  | deadLetter w r _ => exact Or.inr ⟨_, rfl, rfl⟩
  | outcome w status output error now r _ =>
    have hout : status.isOutcome = true := by
      rcases hs with hs | ⟨_, _, _, _, _, hs⟩
      · exact hs
      · cases hs
    refine Or.inr ⟨_, rfl, ?_⟩
    cases status <;> first | rfl | cases hout
  | promote now w r hdue =>
    have hstatus : old.status = .delayed := by
      simp only [WorkflowRow.due, Bool.and_eq_true, decide_eq_true_eq] at hdue
      exact hdue.1
    rw [hstatus] at hold
    cases hold
  | clear w r _ => exact Or.inl (by simp [isRequeue])
  | lock q version p mode limit w r _ => exact Or.inr ⟨_, rfl, hold⟩
  | claim w version executorId now limited r henq =>
    rw [henq] at hold
    cases hold
  | cancel ids now w r _ _ => exact Or.inr ⟨_, rfl, rfl⟩
  | resume ids q now w r _ _ => exact Or.inl (by simp [isRequeue])
  | delete ids k old _ => rcases hs with hs | ⟨_, _, _, _, _, hs⟩ <;> cases hs
  | markForked w r => exact Or.inr ⟨_, rfl, hold⟩
  | collect cutoff w old _ => rcases hs with hs | ⟨_, _, _, _, _, hs⟩ <;> cases hs
  | collectCascade cutoff k old hk => exact (hk id rfl).elim

/-- The writes of a dequeue iteration are locks and claims. -/
theorem DequeueCommit.mem_writes {valid : DbMoment → (q : Ask) → q.Ans → Bool}
    {input : DequeueInput} {k : Claims} {e : DbEffect} (h : DequeueCommit valid input k e)
    {w : DbWrite} (hw : w ∈ e.writes) :
    (∃ x ∈ k.locked, w = input.lockWrite k.limit x) ∨
      ∃ x ∈ k.taken, w = input.claimWrite k.now x := by
  rw [h.writes, DequeueInput.writes, List.mem_append, List.mem_map, List.mem_map] at hw
  rcases hw with ⟨x, hx, h⟩ | ⟨x, hx, h⟩
  · exact Or.inl ⟨x, hx, h.symm⟩
  · exact Or.inr ⟨x, hx, h.symm⟩

/-- After a dequeue iteration the workflows it took have their claimed rows. -/
theorem DequeueCommit.look {valid : DbMoment → (q : Ask) → q.Ans → Bool} {input : DequeueInput}
    {k : Claims} {e : DbEffect} (h : DequeueCommit valid input k e) (db : Db)
    {x : String × WorkflowRow} (hx : x ∈ k.taken) :
    (server.apply db e.writes).workflow x.1 = some (input.claimed k.now x.2) := by
  have hkeys : ((k.taken.map (input.claimWrite k.now)).map Write.key).Nodup := by
    have hmap : (k.taken.map (input.claimWrite k.now)).map Write.key =
        (k.taken.map Prod.fst).map Key.workflowStatus := by
      simp only [List.map_map]
      rfl
    rw [hmap]
    exact (h.nodup.sublist (h.sublist.map Prod.fst)).map fun a b hab ↦ Key.workflowStatus.inj hab
  rw [h.writes, DequeueInput.writes, server.apply_append]
  exact server.look_apply_of_mem _ hkeys (List.mem_map_of_mem hx)

section

variable {valid : DbMoment → (q : Ask) → q.Ans → Bool} {db₀ : Db} {time : ℤ} {S : QueueSystem}

/-- The statements behind the history of queue sessions. -/
theorem QueueState.queue_stmt {D : DequeueInput → Prop}
    (hS : QueueState valid D Stmt.Ordinary db₀ S) {w : DbWrite}
    (hw : w ∈ System.written S.history) : w.stmt.Queue := by
  obtain ⟨c, hc, hw⟩ := List.mem_flatMap.1 hw
  rcases hS.commits c hc with ⟨input, k, -, hcommit⟩ | hall
  · rcases hcommit.mem_writes hw with ⟨x, -, rfl⟩ | ⟨x, -, rfl⟩
    · exact Or.inl rfl
    · exact Or.inr ⟨_, _, _, _, _, rfl⟩
  · exact Or.inl (hall w hw)

/-- Between two claims of a workflow it was put back on a queue. -/
theorem QueueState.requeue_between {D : DequeueInput → Prop}
    (hS : QueueState valid D Stmt.Ordinary db₀ S) {id : String} {i j : ℕ}
    (hij : i < j) (hi : ((System.written S.history)[i]?).any (isClaim id) = true)
    (hj : ((System.written S.history)[j]?).any (isClaim id) = true) :
    ∃ n, i < n ∧ n < j ∧ ((System.written S.history)[n]?).any (isRequeue id) = true := by
  obtain ⟨w₁, hi, hw₁⟩ := (Option.any_eq_true _ _).1 hi
  obtain ⟨w₂, hj, hw₂⟩ := (Option.any_eq_true _ _).1 hj
  obtain ⟨old₁, new₁, s₁, rfl, -, hnew₁⟩ := isClaim_iff.1 hw₁
  obtain ⟨old₂, new₂, s₂, rfl, hold₂, -⟩ := isClaim_iff.1 hw₂
  by_contra hnone
  push Not at hnone
  have hkept : ∃ r, some old₂ = some r ∧ r.status.isQueued = false := by
    refine hS.consistent.chain.between hij hi hj
      (P := fun row : Option WorkflowRow ↦ ∃ r, row = some r ∧ r.status.isQueued = false)
      ⟨new₁, rfl, by rw [hnew₁]; rfl⟩ ?_
    rintro n - new s hin hnj hn ⟨r, rfl, hr⟩
    have hmem := List.mem_of_getElem? hn
    have hlegal : s.Writes (.workflowStatus id) (some r) new := hS.consistent.legal _ hmem
    refine (hlegal.not_queued (hS.queue_stmt hmem) hr).resolve_left fun hre ↦ ?_
    exact hnone n hin hnj (by rw [hn]; exact hre)
  obtain ⟨r, hr, hfalse⟩ := hkept
  cases hr
  rw [hold₂] at hfalse
  cases hfalse

/-- What a dequeue call has returned was its own when it committed. -/
theorem QueueState.owned {D : DequeueInput → Prop} {P : Stmt → Prop}
    (hS : QueueState valid D P db₀ S) {i : ℕ} {s : Session Db Key Row Stmt Stmt.Res SqlError Ask
      Ask.Ans QueueResult} {input : DequeueInput} {claimed : List DequeuedWorkflow}
    (hs : S.sessions.lookup i = some s) (hprog : s.prog = .pure (some (input, .ok claimed))) :
    claimed = [] ∨ ∃ n c, S.history[n]? = some c ∧ c.session = i ∧ ∀ d ∈ claimed,
      ∃ r, (System.stateAt server db₀ S.history (n + 1)).workflow d.id = some r ∧
        r.status = .pending ∧ r.executorId = some input.executorId ∧
        r.applicationVersion = some input.applicationVersion := by
  refine (hS.returned i s input claimed hs hprog).imp_right ?_
  rintro ⟨k, c, hc, hi, hcommit, rfl⟩
  obtain ⟨n, hn⟩ := List.mem_iff_getElem?.1 hc
  refine ⟨n, c, hn, hi, fun d hd ↦ ?_⟩
  obtain ⟨x, hx, rfl⟩ := List.mem_map.1 hd
  rw [System.stateAt_succ db₀ hn]
  exact ⟨_, hcommit.look _ hx, rfl, rfl, rfl⟩

/-- **Queue claims are exclusive.** Dequeue calls with any limits run interleaved with any programs
that send ordinary statements. Between two committed claims of a workflow there is a committed
`clear_queue_assignment` or resume of it, and every workflow a dequeue call returns is `PENDING`
with the caller's executor id and application version in the state its transaction committed. -/
theorem claims_exclusive (h : Run (System.step server valid)
    (QueueStep (fun _ ↦ True) Stmt.Ordinary) (System.init db₀ time) S) :
    (∀ (id : String) (i j : ℕ), i < j →
      ((System.written S.history)[i]?).any (isClaim id) = true →
      ((System.written S.history)[j]?).any (isClaim id) = true →
      ∃ n, i < n ∧ n < j ∧ ((System.written S.history)[n]?).any (isRequeue id) = true) ∧
    ∀ i s input claimed, S.sessions.lookup i = some s →
      s.prog = .pure (some (input, .ok claimed)) → claimed = [] ∨
      ∃ n c, S.history[n]? = some c ∧ c.session = i ∧ ∀ d ∈ claimed,
        ∃ r, (System.stateAt server db₀ S.history (n + 1)).workflow d.id = some r ∧
          r.status = .pending ∧ r.executorId = some input.executorId ∧
          r.applicationVersion = some input.applicationVersion := by
  have hS := queueState_of_run h
  exact ⟨fun id i j hij hi hj ↦ hS.requeue_between hij hi hj,
    fun i s input claimed hs hprog ↦ hS.owned hs hprog⟩

end

/-- A database with one workflow waiting on the queue `q`. -/
def oneWaiting : Db where
  workflowStatus := Table.set ∅ "w" (some (InsertWorkflowInput.row
    { workflowId := "w", status := .enqueued, name := "f", queueName := some "q", createdAt := 0,
      updatedAt := 0, recoveryAttempts := 0, ownerXid := "x" }))

/-- A dequeue call without limits that runs undisturbed and claims one workflow. -/
def dequeueOne (i : ℕ) (executorId : String) : List QueueLabel :=
  [.spawn i (dequeueCall ⟨"q", executorId, "v", none, 0, none, none, 100, none⟩),
    .finish i fun _ ↦ 0, .issue i, .finish i fun _ ↦ 0, .answer i (answersAt 5 ""), .issue i,
    .finish i fun _ ↦ 0, .finish i fun _ ↦ 0, .finish i fun _ ↦ 0]

/-- A claim by one executor, a cleared assignment, and a claim by another executor. -/
def reclaim : List QueueLabel :=
  dequeueOne 0 "a" ++ [.spawn 1 (otherCall (clearQueueAssignment "w")), .issue 1,
    .finish 1 fun _ ↦ 0] ++ dequeueOne 2 "b"

theorem claims_exclusive_reclaim :
    ∃ S, exec (System.step server fun _ _ _ ↦ true) (System.init oneWaiting 0) reclaim = some S ∧
      ∃ n, 1 < n ∧ n < 4 ∧ ((System.written S.history)[n]?).any (isRequeue "w") = true := by
  obtain ⟨S, hS⟩ : ∃ S, exec (System.step server fun _ _ _ ↦ true) (System.init oneWaiting 0)
      reclaim = some S := Option.isSome_iff_exists.1 (by decide +kernel)
  have hclaims : (exec (System.step server fun _ _ _ ↦ true) (System.init oneWaiting 0) reclaim).all
      (fun S ↦ ((System.written S.history)[1]?).any (isClaim "w") &&
        ((System.written S.history)[4]?).any (isClaim "w")) = true := by
    decide +kernel
  rw [hS, Option.all_some, Bool.and_eq_true] at hclaims
  have hclear : QueueSession (fun _ ↦ True) Stmt.Ordinary (otherCall (clearQueueAssignment "w")) :=
    Or.inr ⟨_, _, (ordinary_query rfl).bind fun _ ↦ sends_pure _, rfl⟩
  have hok : ∀ p ∈ reclaim.filterMap spawned, QueueSession (fun _ ↦ True) Stmt.Ordinary p :=
    List.forall_mem_cons.2 ⟨Or.inl ⟨_, trivial, rfl⟩, List.forall_mem_cons.2 ⟨hclear,
      List.forall_mem_singleton.2 (Or.inl ⟨_, trivial, rfl⟩)⟩⟩
  have hrun := Run.of_exec hS (queueStep_of_spawned hok)
  exact ⟨S, hS, (claims_exclusive hrun).1 "w" 1 4 (by decide) hclaims.1 hclaims.2⟩

end Dbos
