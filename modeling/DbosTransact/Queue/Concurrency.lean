import DbosTransact.Queue.Exclusive

/-!
# The global concurrency limit

`dequeue_workflows` counts the `PENDING` rows of its queue in its snapshot and claims at most what
is missing to the limit. The count is not protected against other claimers: two iterations whose
candidates differ do not meet on a row, and each goes by a snapshot without the other's claims. So
the limit holds in every committed state of a run exactly as far as the snapshots are good
(`pendingCount_le_limit`): no claiming transaction may find more rows `PENDING` when it commits than
its snapshot showed. `writeSkew` is a run where that fails and the limit is exceeded.
-/

namespace Dbos

open Txn

section

variable (queueName : String) (partitionKey : Option String)

/-- The `PENDING` rows of a queue, or of one partition of it. -/
def pendingCount (db : Db) : ℕ :=
  db.workflowStatus.count fun _ r ↦ r.pendingIn queueName partitionKey

/-- When a write claims a workflow of the queue, the start time it sets. -/
def claimTime : DbWrite → Option ℤ
  | ⟨.workflowStatus _, some (old : WorkflowRow), some (new : WorkflowRow), _⟩ =>
    if old.status = .enqueued && new.pendingIn queueName partitionKey then new.startedAtEpochMs
    else none
  | _ => none

/-- Whether a transaction claims a workflow of the queue. -/
def claimsIn (c : DbCommit) : Bool :=
  c.writes.any fun w ↦ (claimTime queueName partitionKey w).isSome

/-- No claiming transaction of the queue committed when more rows were `PENDING` than its snapshot
showed. -/
def snapshotsCurrent (h : List DbCommit) : Bool :=
  h.all fun c ↦ !claimsIn queueName partitionKey c || c.snapshot.all fun s ↦
    pendingCount queueName partitionKey c.moment.db ≤ pendingCount queueName partitionKey s.db

end

/-! ### Counting along a chain of writes -/

/-- When each write adds at most the rows that `q` allows it, so does a chain of them. -/
theorem count_apply_le {p : String → WorkflowRow → Bool} {q : DbWrite → Bool} {db : Db}
    {ws : List DbWrite} (h : store.Chain db ws)
    (hw : ∀ id old new s, (⟨.workflowStatus id, old, new, s⟩ : DbWrite) ∈ ws →
      Table.countAt p id new ≤
        Table.countAt p id old + if q ⟨.workflowStatus id, old, new, s⟩ then 1 else 0) :
    (store.apply db ws).workflowStatus.count p ≤ db.workflowStatus.count p + ws.countP q := by
  induction ws generalizing db with
  | nil => simp
  | cons w ws ih =>
    have hrest := ih h.2 fun id old new s hmem ↦ hw id old new s (List.mem_cons_of_mem _ hmem)
    have hfirst : (store.put db w.key w.new).workflowStatus.count p ≤
        db.workflowStatus.count p + if q w then 1 else 0 := by
      obtain ⟨k, old, new, s⟩ := w
      cases k with
      | workflowStatus id =>
        have hset := Table.count_set p id new db.workflowStatus
        have hone := hw id old new s List.mem_cons_self
        have hold : old = db.workflowStatus.lookup id := h.1
        rw [hold] at hone
        have hput : (store.put db (.workflowStatus id) new).workflowStatus =
            db.workflowStatus.set id new := rfl
        rw [hput]
        subst hold
        omega
      | _ => exact Nat.le_add_right _ _
    rw [store.apply_cons, List.countP_cons]
    omega

section

variable {queueName : String} {partitionKey : Option String}

theorem claimTime_eq_some {w : DbWrite} {t : ℤ} :
    claimTime queueName partitionKey w = some t ↔
    ∃ (id : String) (old new : WorkflowRow) (s : Stmt),
      w = ⟨.workflowStatus id, some old, some new, s⟩ ∧ old.status = .enqueued ∧
        new.pendingIn queueName partitionKey = true ∧ new.startedAtEpochMs = some t := by
  constructor
  · intro h
    obtain ⟨k, old, new, s⟩ := w
    cases k with
    | workflowStatus id =>
      cases old with
      | none => cases h
      | some old =>
        cases new with
        | none => cases h
        | some new =>
          simp only [claimTime, Bool.and_eq_true, decide_eq_true_eq, Option.ite_none_right_eq_some]
            at h
          exact ⟨id, old, new, s, rfl, h.1.1, h.1.2, h.2⟩
    | _ => cases h
  · rintro ⟨id, old, new, s, rfl, hold, hnew, ht⟩
    simp [claimTime, hold, hnew, ht]

/-- Locking a candidate claims nothing. -/
theorem claimTime_lockWrite (input : DequeueInput) (n : ℕ) {x : String × WorkflowRow}
    (hx : x.2.candidate input.queueName input.applicationVersion input.partitionKey = true) :
    claimTime queueName partitionKey (input.lockWrite n x) = none := by
  have henq : x.2.status = .enqueued := by
    simp only [WorkflowRow.candidate, Bool.and_eq_true, decide_eq_true_eq] at hx
    exact hx.1.2
  simp [claimTime, DequeueInput.lockWrite, WorkflowRow.pendingIn, henq]

/-- An ordinary statement claims nothing. -/
theorem Stmt.Writes.claimTime_eq_none {s : Stmt} {k : Key} {old new : Option (Row k)}
    (h : s.Writes k old new) (hs : s.Ordinary) :
    claimTime queueName partitionKey ⟨k, old, new, s⟩ = none := by
  by_contra hne
  obtain ⟨t, ht⟩ := Option.ne_none_iff_exists'.1 hne
  obtain ⟨id, old', new', s', heq, hold, hnew, -⟩ := claimTime_eq_some.1 ht
  cases heq
  have hpending : new'.status = .pending := by
    simp only [WorkflowRow.pendingIn, Bool.and_eq_true, decide_eq_true_eq] at hnew
    exact hnew.2
  cases h with
  | insertConflict input r =>
    have hsame : old'.status = .pending := hpending
    rw [hold] at hsame
    cases hsame
  | deadLetter w r hp =>
    rw [hold] at hp
    cases hp
  | outcome w status output error now r _ =>
    have hstatus : status = .pending := hpending
    rw [hstatus] at hs
    cases hs
  | lock q version p mode limit w r _ =>
    rw [hold] at hpending
    cases hpending
  | claim w version executorId now limited r _ => cases hs
  | markForked w r =>
    have hsame : old'.status = .pending := hpending
    rw [hold] at hsame
    cases hsame
  | _ => cases hpending

/-- A row of the queue that a statement leaves `PENDING` was so before, or is claimed. -/
theorem Stmt.Writes.pendingIn {s : Stmt} {id : String} {old : Option WorkflowRow}
    {new : WorkflowRow} (h : s.Writes (.workflowStatus id) old (some new)) (hs : s.Queue)
    (hnew : new.pendingIn queueName partitionKey = true) :
    old.any (fun r ↦ r.pendingIn queueName partitionKey) = true ∨
      (claimTime queueName partitionKey ⟨.workflowStatus id, old, some new, s⟩).isSome = true := by
  have hpending : new.status = .pending := by
    simp only [WorkflowRow.pendingIn, Bool.and_eq_true, decide_eq_true_eq] at hnew
    exact hnew.2
  cases h with
  | insertNew input =>
    have hrow : input.queueName = some queueName := by
      simp only [WorkflowRow.pendingIn, WorkflowRow.inQueue, Bool.and_eq_true,
        decide_eq_true_eq] at hnew
      exact hnew.1.1
    have hstatus : input.status = .pending := hpending
    rcases hs with hs | ⟨_, _, _, _, _, hs⟩
    · simp [Stmt.Ordinary, Stmt.isOrdinary, hrow, hstatus, WorkflowStatusType.isQueued] at hs
    · cases hs
  | insertConflict input r => exact Or.inl hnew
  | outcome w status output error now r _ =>
    have hstatus : status = .pending := hpending
    rcases hs with hs | ⟨_, _, _, _, _, hs⟩
    · rw [hstatus] at hs
      cases hs
    · cases hs
  | lock q version p mode limit w r _ => exact Or.inl hnew
  | claim w version executorId now limited r henq =>
    refine Or.inr ?_
    rw [claimTime_eq_some.2 ⟨_, _, _, _, rfl, henq, hnew, rfl⟩]
    rfl
  | markForked w r => exact Or.inl hnew
  | _ => cases hpending

/-- A statement makes no row of the queue `PENDING` but by a claim. -/
theorem Stmt.Writes.countAt_pendingIn {s : Stmt} {id : String} {old new : Option WorkflowRow}
    (h : s.Writes (.workflowStatus id) old new) (hs : s.Queue) :
    Table.countAt (fun _ r ↦ r.pendingIn queueName partitionKey) id new ≤
      Table.countAt (fun _ r ↦ r.pendingIn queueName partitionKey) id old +
        if (claimTime queueName partitionKey ⟨.workflowStatus id, old, new, s⟩).isSome
        then 1 else 0 := by
  cases new with
  | none => exact Nat.zero_le _
  | some new =>
    by_cases hnew : new.pendingIn queueName partitionKey = true
    · rcases h.pendingIn hs hnew with hold | hclaim
      · simp [Table.countAt, hold, hnew]
      · simp [hclaim, hnew]
    · simp [hnew]

end

/-! ### The transactions of a run -/

section

variable {valid : DbMoment → (q : Ask) → q.Ans → Bool} {D : DequeueInput → Prop} {db₀ : Db}
variable {S : QueueSystem} {queueName : String} {partitionKey : Option String}

/-- The dequeue inputs are those of one queue configuration: every call on the queue is for a
partition, or none is, as `partitionKey` says, and satisfies `C`. -/
def Configured (queueName : String) (partitionKey : Option String) (C : DequeueInput → Prop)
    (input : DequeueInput) : Prop :=
  input.queueName = queueName → input.partitionKey.isSome = partitionKey.isSome ∧ C input

/-- A candidate of a dequeue call on another queue or another partition is not in this one. -/
theorem Configured.eq_of_candidate {C : DequeueInput → Prop} {input : DequeueInput}
    (h : Configured queueName partitionKey C input) {r : WorkflowRow}
    (hr : r.candidate input.queueName input.applicationVersion input.partitionKey = true)
    (hin : r.inQueue queueName partitionKey = true) :
    input.queueName = queueName ∧ input.partitionKey = partitionKey := by
  simp only [WorkflowRow.candidate, WorkflowRow.inQueue, Bool.and_eq_true, Bool.or_eq_true,
    decide_eq_true_eq] at hr hin
  have hqueue : input.queueName = queueName := Option.some.inj (hr.1.1.1.symm.trans hin.1)
  refine ⟨hqueue, ?_⟩
  have hsome := (h hqueue).1
  rcases hr.1.1.2 with hnone | hkey <;> rcases hin.2 with hnone' | hkey'
  · rw [Option.isNone_iff_eq_none.1 hnone, Option.isNone_iff_eq_none.1 hnone']
  · rw [Option.isNone_iff_eq_none.1 hnone] at hsome ⊢
    cases partitionKey <;> first | rfl | cases hsome
  · rw [Option.isNone_iff_eq_none.1 hnone'] at hsome ⊢
    cases hkey : input.partitionKey <;> first | rfl | (rw [hkey] at hsome; cases hsome)
  · exact hkey.symm.trans hkey'

/-- A dequeue iteration on this queue claims what it took; one on another queue claims nothing
here. -/
theorem DequeueCommit.countP_claims {C : DequeueInput → Prop} {input : DequeueInput} {k : Claims}
    {e : DbEffect} (h : DequeueCommit valid input k e)
    (hconf : Configured queueName partitionKey C input) :
    (input.queueName = queueName ∧ input.partitionKey = partitionKey ∧ C input ∧
      e.writes.countP (fun w ↦ (claimTime queueName partitionKey w).isSome) ≤ k.taken.length) ∨
    ∀ w ∈ e.writes, claimTime queueName partitionKey w = none := by
  by_cases hnone : ∀ w ∈ e.writes, claimTime queueName partitionKey w = none
  · exact Or.inr hnone
  refine Or.inl ?_
  push Not at hnone
  obtain ⟨w, hw, hclaim⟩ := hnone
  have hinput : input.queueName = queueName ∧ input.partitionKey = partitionKey := by
    rcases h.mem_writes hw with ⟨x, hx, rfl⟩ | ⟨x, hx, rfl⟩
    · exact absurd (claimTime_lockWrite input k.limit (h.candidate x hx)) hclaim
    · obtain ⟨t, ht⟩ := Option.ne_none_iff_exists'.1 hclaim
      obtain ⟨id, old, new, s, heq, -, hpending, -⟩ := claimTime_eq_some.1 ht
      cases heq
      refine hconf.eq_of_candidate (h.candidate x (h.sublist.subset hx)) ?_
      simp only [WorkflowRow.pendingIn, Bool.and_eq_true] at hpending
      exact hpending.1
  refine ⟨hinput.1, hinput.2, (hconf hinput.1).2, ?_⟩
  rw [h.writes, DequeueInput.writes, List.countP_append]
  have hlocks : (k.locked.map (input.lockWrite k.limit)).countP
      (fun w ↦ (claimTime queueName partitionKey w).isSome) = 0 := by
    rw [List.countP_eq_zero]
    intro w hw
    obtain ⟨x, hx, rfl⟩ := List.mem_map.1 hw
    simp [claimTime_lockWrite input k.limit (h.candidate x hx)]
  rw [hlocks, Nat.zero_add]
  exact List.countP_le_length.trans (by simp)

/-- A transaction of queue sessions either claims nothing on the queue or is a dequeue iteration on
it. -/
theorem QueueState.claims_cases {C : DequeueInput → Prop}
    (hS : QueueState valid (Configured queueName partitionKey C) Stmt.Ordinary db₀ S)
    {c : DbCommit} (hc : c ∈ S.history) :
    (∃ input k, input.queueName = queueName ∧ input.partitionKey = partitionKey ∧ C input ∧
      DequeueCommit valid input k c.toEffect ∧
      c.writes.countP (fun w ↦ (claimTime queueName partitionKey w).isSome) ≤ k.taken.length) ∨
    ∀ w ∈ c.writes, claimTime queueName partitionKey w = none := by
  rcases hS.commits c hc with ⟨input, k, hD, hcommit⟩ | hall
  · refine (hcommit.countP_claims hD).imp_left ?_
    rintro ⟨hq, hp, hC, hcount⟩
    exact ⟨input, k, hq, hp, hC, hcommit, hcount⟩
  · refine Or.inr fun w hw ↦ ?_
    have hlegal : LegalWrite w := hS.consistent.legal w (List.mem_flatMap.2 ⟨c, hc, hw⟩)
    exact hlegal.claimTime_eq_none (hall w hw)

/-- One transaction keeps the limit, when its snapshot showed at least as many `PENDING` rows as
there are when it commits. -/
theorem QueueState.pendingCount_step {g n : ℕ}
    (hS : QueueState valid (Configured queueName partitionKey fun i ↦ i.globalConcurrency = some g)
      Stmt.Ordinary db₀ S) (hcur : snapshotsCurrent queueName partitionKey S.history = true)
    {c : DbCommit} (hc : S.history[n]? = some c)
    (hn : pendingCount queueName partitionKey (System.stateAt server db₀ S.history n) ≤ g) :
    pendingCount queueName partitionKey (System.stateAt server db₀ S.history (n + 1)) ≤ g := by
  have hmem : c ∈ S.history := List.mem_of_getElem? hc
  obtain ⟨hxid, -, hshows, hchain, -⟩ := hS.consistent.commit hc
  have hdb : c.moment.db = System.stateAt server db₀ S.history n := by
    rw [hshows.db, hxid]
  have hcount : pendingCount queueName partitionKey (server.apply c.moment.db c.writes) ≤
      pendingCount queueName partitionKey c.moment.db +
        c.writes.countP fun w ↦ (claimTime queueName partitionKey w).isSome := by
    refine count_apply_le hchain fun id old new s hw ↦ ?_
    have hw' : _ ∈ System.written S.history := List.mem_flatMap.2 ⟨c, hmem, hw⟩
    have hlegal : s.Writes (.workflowStatus id) old new := hS.consistent.legal _ hw'
    exact hlegal.countAt_pendingIn (hS.queue_stmt hw')
  rw [System.stateAt_succ db₀ hc, ← hdb]
  rw [← hdb] at hn
  rcases hS.claims_cases hmem with ⟨input, k, hq, hp, hg, hcommit, htaken⟩ | hnone
  · have hsnapshot : input.snapshot = true :=
      DequeueInput.snapshot_of_globalConcurrency (by simp [hg])
    obtain ⟨s, hs, hcounted⟩ := hcommit.snapshot hsnapshot
    have hfits := hcounted.global g hg
    rw [hq, hp] at hfits
    by_cases hclaims : claimsIn queueName partitionKey c = true
    · have hle : pendingCount queueName partitionKey c.moment.db ≤
          pendingCount queueName partitionKey s.db := by
        have hall := List.all_eq_true.1 hcur c hmem
        rw [hclaims, Bool.not_true, Bool.false_or, hs, Option.all_some] at hall
        exact of_decide_eq_true hall
      have hfits' : k.taken.length + pendingCount queueName partitionKey s.db ≤ g := hfits
      omega
    · have hzero : c.writes.countP (fun w ↦ (claimTime queueName partitionKey w).isSome) = 0 := by
        rw [List.countP_eq_zero]
        intro w hw hsome
        exact hclaims (List.any_eq_true.2 ⟨w, hw, hsome⟩)
      omega
  · have hzero : c.writes.countP (fun w ↦ (claimTime queueName partitionKey w).isSome) = 0 := by
      rw [List.countP_eq_zero]
      intro w hw
      simp [hnone w hw]
    omega

/-- **The global concurrency limit.** In a run where every dequeue call on the queue is configured
with limit `g`, and no claiming transaction commits when more rows are `PENDING` than its snapshot
showed, no committed state has more than `g` rows of the queue (or of the partition) `PENDING`. -/
theorem pendingCount_le_limit {time : ℤ} {g : ℕ}
    (h : Run (System.step server valid)
      (QueueStep (Configured queueName partitionKey fun i ↦ i.globalConcurrency = some g)
        Stmt.Ordinary) (System.init db₀ time) S)
    (h₀ : pendingCount queueName partitionKey db₀ ≤ g)
    (hcur : snapshotsCurrent queueName partitionKey S.history = true) :
    ∀ n ≤ S.history.length,
      pendingCount queueName partitionKey (System.stateAt server db₀ S.history n) ≤ g := by
  have hS := queueState_of_run h
  intro n
  induction n with
  | zero => exact fun _ ↦ h₀
  | succ n ih =>
    intro hn
    have hc : S.history[n]? = some S.history[n] := List.getElem?_eq_getElem hn
    exact hS.pendingCount_step hcur hc (ih (by omega))

end

/-! ### Write skew -/

/-- All sessions read one clock, which gives the milliseconds since the epoch as an `i64`; the other
questions may be answered in any way. -/
def commonClock (m : DbMoment) : (q : Ask) → q.Ans → Bool
  | .now => fun t : ℤ ↦ t = m.time && 0 ≤ t && t < 2 ^ 63
  | _ => fun _ ↦ true

/-- Session `i` enqueues workflow `id` and nothing else moves. -/
def enqueueOne (i : ℕ) (id : String) (priority : ℤ) : List QueueLabel :=
  [.spawn i (otherCall (clientEnqueue "q" "f" "null"
      { workflowId := some id, priority := some priority })),
    .answer i (answersAt 0 ""), .answer i (answersAt 0 ""), .finish i fun _ ↦ 0, .issue i,
    .finish i fun _ ↦ 0, .finish i fun _ ↦ 0, .finish i fun _ ↦ 0]

/-- A dequeue call on `q` with global limit 1. -/
def limitedCall (executorId : String) : DbProg QueueResult :=
  dequeueCall ⟨"q", executorId, "v", none, 0, none, some 1, 100, none⟩

/-- A dequeue call up to its count of the `PENDING` rows. -/
def countFirst (i : ℕ) (executorId : String) : List QueueLabel :=
  [.spawn i (limitedCall executorId), .finish i fun _ ↦ 0, .finish i fun _ ↦ 0, .issue i,
    .finish i fun _ ↦ 0]

/-- The rest of the call: it selects one candidate, claims it and commits. -/
def thenClaim (i : ℕ) : List QueueLabel :=
  [.issue i, .finish i fun _ ↦ 0, .answer i (answersAt 0 ""), .issue i, .finish i fun _ ↦ 0,
    .finish i fun _ ↦ 0, .finish i fun _ ↦ 0]

/-- One executor counts, then a workflow of higher priority is enqueued and claimed by another
executor; the first one goes on with the only candidate its snapshot shows. -/
def writeSkew : List QueueLabel :=
  enqueueOne 0 "w1" 1 ++ countFirst 1 "a" ++ enqueueOne 2 "w2" 0 ++ countFirst 3 "b" ++
    thenClaim 3 ++ thenClaim 1

/-- The sessions of these runs are sessions of a queue with global limit 1. -/
theorem limitedSession (executorId : String) : QueueSession
    (Configured "q" none fun i ↦ i.globalConcurrency = some 1) Stmt.Ordinary
    (limitedCall executorId) :=
  Or.inl ⟨_, fun _ ↦ ⟨rfl, rfl⟩, rfl⟩

theorem enqueueSession {D : DequeueInput → Prop} (queueName name encoded : String)
    (opts : EnqueueOptions) :
    QueueSession D Stmt.Ordinary (otherCall (clientEnqueue queueName name encoded opts)) :=
  Or.inr ⟨_, _, (plain_clientEnqueue queueName name encoded opts).ordinary, rfl⟩

/-- The limit of the configuration is not a limit on the committed states. -/
theorem global_limit_exceeded : ∃ S, Run (System.step server commonClock)
    (QueueStep (Configured "q" none fun i ↦ i.globalConcurrency = some 1) Stmt.Ordinary)
    (System.init {} 0) S ∧ 1 < pendingCount "q" none S.moment.db := by
  have hcount : (exec (System.step server commonClock) (System.init {} 0) writeSkew).any
      (fun S ↦ 1 < pendingCount "q" none S.moment.db) = true := by
    decide +kernel
  obtain ⟨S, hS, hlt⟩ := (Option.any_eq_true _ _).1 hcount
  have hok : ∀ p ∈ writeSkew.filterMap spawned, QueueSession
      (Configured "q" none fun i ↦ i.globalConcurrency = some 1) Stmt.Ordinary p :=
    List.forall_mem_cons.2 ⟨enqueueSession _ _ _ _, List.forall_mem_cons.2 ⟨limitedSession "a",
      List.forall_mem_cons.2 ⟨enqueueSession _ _ _ _,
        List.forall_mem_singleton.2 (limitedSession "b")⟩⟩⟩
  exact ⟨S, Run.of_exec hS (queueStep_of_spawned hok), of_decide_eq_true hlt⟩

/-- An executor claims the first of two workflows; another one finds the queue at its limit, and
claims the second when the outcome of the first is written. -/
def takeTurns : List QueueLabel :=
  enqueueOne 0 "w1" 0 ++ enqueueOne 1 "w2" 1 ++ countFirst 2 "a" ++ thenClaim 2 ++
    countFirst 3 "b" ++ [.finish 3 fun _ ↦ 0,
      .spawn 4 (otherCall (updateWorkflowOutcome "w1" .success none none)),
      .answer 4 (answersAt 0 ""), .issue 4, .finish 4 fun _ ↦ 0] ++
    countFirst 5 "b" ++ thenClaim 5

theorem pendingCount_le_limit_takeTurns : ∃ S, exec (System.step server commonClock)
    (System.init {} 0) takeTurns = some S ∧ (System.written S.history).any (isClaim "w1") = true ∧
      (System.written S.history).any (isClaim "w2") = true ∧ ∀ n ≤ S.history.length,
        pendingCount "q" none (System.stateAt server {} S.history n) ≤ 1 := by
  have hfacts : (exec (System.step server commonClock) (System.init {} 0) takeTurns).any
      (fun S ↦ (System.written S.history).any (isClaim "w1") &&
        (System.written S.history).any (isClaim "w2") && snapshotsCurrent "q" none S.history) =
          true := by
    decide +kernel
  obtain ⟨S, hS, hfacts⟩ := (Option.any_eq_true _ _).1 hfacts
  obtain ⟨hclaims, hcur⟩ := Bool.and_eq_true_iff.1 hfacts
  obtain ⟨hfirst, hsecond⟩ := Bool.and_eq_true_iff.1 hclaims
  have hsends : Sends Stmt.Ordinary (updateWorkflowOutcome "w1" .success none none) :=
    (sends_ask .now).bind fun _ ↦ ordinary_query rfl
  have houtcome : QueueSession (Configured "q" none fun i ↦ i.globalConcurrency = some 1)
      Stmt.Ordinary (otherCall (updateWorkflowOutcome "w1" .success none none)) :=
    Or.inr ⟨_, _, hsends, rfl⟩
  have hok : ∀ p ∈ takeTurns.filterMap spawned, QueueSession
      (Configured "q" none fun i ↦ i.globalConcurrency = some 1) Stmt.Ordinary p :=
    List.forall_mem_cons.2 ⟨enqueueSession _ _ _ _, List.forall_mem_cons.2
      ⟨enqueueSession _ _ _ _, List.forall_mem_cons.2 ⟨limitedSession "a", List.forall_mem_cons.2
        ⟨limitedSession "b", List.forall_mem_cons.2 ⟨houtcome,
          List.forall_mem_singleton.2 (limitedSession "b")⟩⟩⟩⟩⟩
  exact ⟨S, hS, hfirst, hsecond, pendingCount_le_limit (Run.of_exec hS (queueStep_of_spawned hok))
    (Nat.zero_le _) hcur⟩

end Dbos
