import DbosTransact.Foundation.Run
import DbosTransact.Queue.Dequeue
import DbosTransact.Runtime.Workflow

/-!
# Worker concurrency

An executor counts in memory, for every queue and partition, the tasks it has dispatched: the poll
loop of `runtime/queue.rs` adds one when it dispatches a claimed workflow, and the task takes one
off as the last thing it does. The loop reads the counter before it claims, so the counter is what
bounds the number of running tasks.

The poll loops of all queues of one executor and the tasks they have dispatched make a transition
system. Its steps are what can come between the reading of a counter, the claim and the dispatch. A
round may claim what `dequeue_workflows` returns, of which `DequeueInput.admits` says all that
matters here (`wpM_dequeue_admits`).

A task whose body panics ends at once and takes nothing off. So the counter is the number of running
tasks and of those that have ended this way (`Accounted`).
-/

namespace Dbos

open Txn

/-! ### What a claim returns -/

/-- No more workflows than may be claimed for the count of the input. -/
def DequeueInput.admits (input : DequeueInput) (wfs : List DequeuedWorkflow) : Bool :=
  (wfs.length : ℤ) ≤ max input.localMax 0

section

variable {valid : DbMoment → (q : Ask) → q.Ans → Bool} {input : DequeueInput} {m : DbMoment}
variable {τ : DbTrace} {c : DbConn}

theorem wpM_maxTasks_le (tx : DbTx) : wpM (freeSpec valid) (maxTasks input)
    (fun n c _ _ ↦ n ≤ max input.localMax 0 ∧ ∃ tx, c = .active tx) (fun _ _ _ _ ↦ True)
    (.active tx) m τ := by
  unfold maxTasks
  split
  · exact wpM_pure fun _ _ ↦ ⟨le_max_left _ _, tx, rfl⟩
  · refine wpM_query_active (fun _ _ _ _ _ _ _ _ ↦ trivial) fun _ _ _ n _ _ _ _ _ ↦
      wpM_pure fun _ _ ↦ ⟨?_, _, rfl⟩
    exact (min_le_left _ _).trans (le_max_left _ _)

/-- The loop of the claims returns at most one workflow for each candidate. -/
theorem wpM_claimEach_length {numRecent : ℕ} {now : ℤ} (ids : List String)
    (claimed : List DequeuedWorkflow) (tx : DbTx) :
    wpM (freeSpec valid) (claimEach input numRecent now ids claimed)
      (fun wfs c _ _ ↦ wfs.length ≤ claimed.length + ids.length ∧ ∃ tx, c = .active tx)
      (fun _ _ _ _ ↦ True) (.active tx) m τ := by
  induction ids generalizing claimed tx m τ with
  | nil => exact wpM_pure fun _ _ ↦ ⟨le_rfl, tx, rfl⟩
  | cons id rest ih =>
    rw [claimEach]
    split
    · exact wpM_pure fun _ _ ↦ ⟨Nat.le_add_right _ _, tx, rfl⟩
    · refine wpM_query_active (fun _ _ _ _ _ _ _ _ ↦ trivial) ?_
      rintro _ _ _ (- | row) _ _ _ _ _
      · refine wpM_mono (ih _ _) (fun wfs c _ _ h ↦ ⟨?_, h.2⟩) fun _ _ _ _ _ ↦ trivial
        have hlen := h.1
        rw [List.length_cons]
        omega
      · refine wpM_mono (ih _ _) (fun wfs c _ _ h ↦ ⟨?_, h.2⟩) fun _ _ _ _ _ ↦ trivial
        have hlen := h.1
        simp only [List.length_append, List.length_cons, List.length_nil] at hlen ⊢
        omega

theorem wpM_rateLimitGate_active (tx : DbTx) : wpM (freeSpec valid) (rateLimitGate input)
    (fun _ c _ _ ↦ ∃ tx, c = .active tx) (fun _ _ _ _ ↦ True) (.active tx) m τ := by
  rw [rateLimitGate]
  split
  · exact wpM_pure fun _ _ ↦ ⟨tx, rfl⟩
  · refine wpM_ask fun _ _ _ _ ↦ ⟨trivial, ?_⟩
    exact wpM_query_active (fun _ _ _ _ _ _ _ _ ↦ trivial) fun _ _ _ _ _ _ _ _ _ ↦
      wpM_pure fun _ _ ↦ ⟨_, rfl⟩

/-- A claim returns no more workflows than the count of its input admits. -/
theorem wpM_dequeue_admits : wpM (freeSpec valid) (dequeueWorkflows input)
    (fun wfs _ _ _ ↦ input.admits wfs = true) (fun _ _ _ _ ↦ True) .idle m τ := by
  have nothing : input.admits [] = true := decide_eq_true (le_max_right _ _)
  rw [dequeueWorkflows]
  refine wpM_transaction (fun _ _ _ _ ↦ trivial) (wpM_isolationIf (fun _ _ _ _ ↦ trivial) ?_)
  refine wpM_bind (wpM_mono (wpM_rateLimitGate_active _) ?_ fun _ _ _ _ _ ↦ trivial)
  rintro (- | numRecent) - m τ ⟨tx, rfl⟩
  · exact wpM_pure fun _ _ ↦ nothing
  dsimp only
  refine wpM_bind (wpM_mono (wpM_maxTasks_le tx) ?_ fun _ _ _ _ _ ↦ trivial)
  rintro n - m τ ⟨hn, tx, rfl⟩
  by_cases hpos : n ≤ 0
  · rw [if_pos hpos]
    exact wpM_pure fun _ _ ↦ nothing
  rw [if_neg hpos]
  refine wpM_query_active (fun _ _ _ _ _ _ _ _ ↦ trivial) fun b m₁ v ids ch _ _ _ hrun ↦ ?_
  obtain ⟨-, hlen, -, -⟩ := Stmt.selectCandidates_done hrun
  refine wpM_ask fun _ _ now _ ↦ ⟨trivial, ?_⟩
  refine wpM_bind (wpM_mono (wpM_claimEach_length ids [] _) ?_ fun _ _ _ _ _ ↦ trivial)
  rintro wfs - m τ ⟨hwfs, tx, rfl⟩
  have hadmits : input.admits wfs = true := by
    refine decide_eq_true ?_
    rw [List.length_nil, Nat.zero_add] at hwfs
    calc (wfs.length : ℤ) ≤ n.toNat := by exact_mod_cast hwfs.trans hlen
      _ = n := Int.toNat_of_nonneg (by omega)
      _ ≤ max input.localMax 0 := hn
  split
  · exact wpM_commit (fun _ _ _ ↦ trivial) (fun _ _ _ _ ↦ trivial)
      (fun _ _ _ ↦ wpM_pure fun _ _ ↦ hadmits) fun _ _ _ _ _ _ _ ↦ trivial
  · exact wpM_pure fun _ _ ↦ hadmits

end

namespace Workers

/-- A durable queue, without its polling intervals. -/
structure WorkflowQueue where
  name : String
  workerConcurrency : Option UInt32 := none
  globalConcurrency : Option UInt32 := none
  priorityEnabled : Bool := false
  maxTasksPerIteration : UInt32 := 100
  rateLimit : Option (UInt32 × ℕ) := none
  partitionQueue : Bool := false
  deriving DecidableEq, Repr

/-- The key of a counter. -/
def countKey (queue : String) (partition : Option String) : String × String :=
  (queue, partition.getD "")

/-- `AtomicUsize::fetch_add(1)`. -/
def fetchAdd (n : ℕ) : ℕ := (n + 1) % 2 ^ 64

/-- `AtomicUsize::fetch_sub(1)`: it wraps around. -/
def fetchSub (n : ℕ) : ℕ := (n + (2 ^ 64 - 1)) % 2 ^ 64

abbrev WorkerCounts : Type := Table (String × String) ℕ

def workerCount (counts : WorkerCounts) (key : String × String) : ℕ :=
  (counts.lookup key).getD 0

def incWorker (counts : WorkerCounts) (key : String × String) : WorkerCounts :=
  counts.insert key (fetchAdd (workerCount counts key))

def decWorker (counts : WorkerCounts) (key : String × String) : WorkerCounts :=
  match counts.lookup key with
  | some n => counts.insert key (fetchSub n)
  | none => counts

/-- Where the poll loop of a queue stands in its round. -/
inductive Phase
  /-- It sleeps. -/
  | sleeping
  /-- These partitions are left. -/
  | round (rest : List (Option String))
  /-- It has read the counter of a partition, and claims. -/
  | claiming (partition : Option String) (running : ℕ) (rest : List (Option String))
  /-- It dispatches what it has claimed. -/
  | dispatching (partition : Option String) (wfs : List DequeuedWorkflow)
      (rest : List (Option String))
  deriving DecidableEq, Repr

/-- How the body of a task ends. -/
inductive Ending
  | ok
  | error
  | panic
  deriving DecidableEq, Repr

/-- What the body has given back, if it has come back at all. -/
def Ending.returns : Ending → Bool
  | panic => false
  | _ => true

/-- A dispatched task: the workflow it runs and the key it is counted under. -/
structure WorkerTask where
  workflowId : String
  key : String × String
  deriving DecidableEq, Repr

/-- An executor: its counters, the phases of its poll loops, the tasks that are running, and those
that have ended, with how they did. -/
structure State where
  counts : WorkerCounts := ∅
  loops : String → Phase := fun _ ↦ .sleeping
  running : List WorkerTask := []
  ended : List (WorkerTask × Ending) := []

/-- The input of a claim. -/
def WorkflowQueue.input (queue : WorkflowQueue) (inner : DbosInner) (partition : Option String)
    (running : ℕ) : DequeueInput where
  queueName := queue.name
  executorId := inner.executorId
  applicationVersion := inner.applicationVersion
  partitionKey := partition
  localRunningCount := running
  workerConcurrency := queue.workerConcurrency.map UInt32.toNat
  globalConcurrency := queue.globalConcurrency.map UInt32.toNat
  maxTasksPerIteration := queue.maxTasksPerIteration.toNat
  rateLimit := queue.rateLimit.map fun r ↦ (r.1.toNat, r.2)

inductive Label
  /-- A round begins; a queue that is not partitioned has one partition without a key. -/
  | poll (queue : String) (partitions : List String)
  /-- The loop goes on with the next partition, or goes to sleep. -/
  | next (queue : String)
  /-- The claim has returned these workflows. -/
  | claimed (queue : String) (wfs : List DequeuedWorkflow)
  /-- The claim has failed. -/
  | failed (queue : String)
  /-- One claimed workflow is dispatched. -/
  | dispatch (queue : String)
  /-- A running task ends. -/
  | ends (task : WorkerTask) (ending : Ending)
  deriving DecidableEq, Repr

def State.setLoop (S : State) (queue : String) (phase : Phase) : State :=
  { S with loops := Function.update S.loops queue phase }

/-- `dispatch_dequeued`: the workflow is counted and its task runs, if it is registered. -/
def State.dispatchDequeued (S : State) (inner : DbosInner) (queue : String)
    (partition : Option String) (wf : DequeuedWorkflow) : State :=
  if (inner.registry wf.name).isSome then
    { S with
      counts := incWorker S.counts (countKey queue partition)
      running := ⟨wf.id, countKey queue partition⟩ :: S.running }
  else S

/-- The end of a task: unless its body has panicked, it is taken off the counter. -/
def State.taskEnds (S : State) (task : WorkerTask) (ending : Ending) : State :=
  { S with
    counts := if ending.returns then decWorker S.counts task.key else S.counts
    running := S.running.erase task
    ended := (task, ending) :: S.ended }

def step (inner : DbosInner) (queues : String → Option WorkflowQueue) (S : State) :
    Label → Option State
  | .poll q partitions =>
    match queues q, S.loops q with
    | some queue, .sleeping => some (S.setLoop q (.round
        (if queue.partitionQueue then partitions.map some else [none])))
    | _, _ => none
  | .next q =>
    match S.loops q with
    | .round [] => some (S.setLoop q .sleeping)
    | .round (p :: rest) =>
      some (S.setLoop q (.claiming p (workerCount S.counts (countKey q p)) rest))
    | .dispatching _ [] rest => some (S.setLoop q (.round rest))
    | _ => none
  | .claimed q wfs =>
    match queues q, S.loops q with
    | some queue, .claiming p running rest =>
      if (queue.input inner p running).admits wfs then some (S.setLoop q (.dispatching p wfs rest))
      else none
    | _, _ => none
  | .failed q =>
    match S.loops q with
    | .claiming _ _ rest => some (S.setLoop q (.round rest))
    | _ => none
  | .dispatch q =>
    match S.loops q with
    | .dispatching p (wf :: wfs) rest =>
      some ((S.dispatchDequeued inner q p wf).setLoop q (.dispatching p wfs rest))
    | _ => none
  | .ends task ending =>
    if task ∈ S.running then some (S.taskEnds task ending) else none

/-! ### The counters -/

section

variable {counts : WorkerCounts} {key key' : String × String}

theorem workerCount_incWorker (h : key = key' → workerCount counts key + 1 < 2 ^ 64) :
    workerCount (incWorker counts key) key' =
      workerCount counts key' + if key = key' then 1 else 0 := by
  by_cases hkey : key = key'
  · subst hkey
    rw [if_pos rfl, workerCount, incWorker, AList.lookup_insert, Option.getD_some, fetchAdd,
      Nat.mod_eq_of_lt (h rfl)]
  · rw [if_neg hkey, workerCount, incWorker, AList.lookup_insert_ne (Ne.symm hkey), Nat.add_zero,
      workerCount]

theorem fetchSub_of_pos {n : ℕ} (hpos : 0 < n) (hlt : n < 2 ^ 64) : fetchSub n = n - 1 := by
  rw [fetchSub]
  omega

theorem workerCount_decWorker (hpos : 0 < workerCount counts key)
    (hlt : workerCount counts key < 2 ^ 64) :
    workerCount (decWorker counts key) key' =
      workerCount counts key' - if key = key' then 1 else 0 := by
  obtain ⟨n, hn⟩ : ∃ n, counts.lookup key = some n := by
    refine Option.ne_none_iff_exists'.1 fun hnone ↦ ?_
    rw [workerCount, hnone] at hpos
    cases hpos
  rw [workerCount, hn, Option.getD_some] at hpos hlt
  rw [decWorker, hn]
  by_cases hkey : key = key'
  · subst hkey
    rw [if_pos rfl, workerCount, AList.lookup_insert, Option.getD_some, fetchSub_of_pos hpos hlt,
      workerCount, hn, Option.getD_some]
  · rw [if_neg hkey, workerCount, AList.lookup_insert_ne (Ne.symm hkey), Nat.sub_zero, workerCount]

end

/-! ### The invariant -/

namespace State

/-- The tasks of a key that are running. -/
def runningOf (S : State) (key : String × String) : ℕ := S.running.countP fun t ↦ t.key = key

/-- The tasks of a key whose body has panicked. -/
def panickedOf (S : State) (key : String × String) : ℕ :=
  S.ended.countP fun e ↦ e.1.key = key && !e.2.returns

end State

/-- The counters of a queue that may run `w` workflows at a time on this executor. Before a claim
the loop knows a bound of its counter, and after it there is room for what was claimed. -/
structure Accounted (q : String) (w : ℕ) (S : State) : Prop where
  counted : ∀ p, workerCount S.counts (countKey q p) =
    S.runningOf (countKey q p) + S.panickedOf (countKey q p)
  bound : ∀ p, workerCount S.counts (countKey q p) ≤ w
  claiming : ∀ p n rest, S.loops q = .claiming p n rest →
    workerCount S.counts (countKey q p) ≤ n ∧ n ≤ w
  dispatching : ∀ p wfs rest, S.loops q = .dispatching p wfs rest →
    workerCount S.counts (countKey q p) + wfs.length ≤ w

section

variable {inner : DbosInner} {queues : String → Option WorkflowQueue} {queue : WorkflowQueue}
variable {S S' : State} {q q' : String} {w : ℕ}

theorem accounted_init (q : String) (w : ℕ) : Accounted q w {} where
  counted _ := rfl
  bound _ := Nat.zero_le w
  claiming _ _ _ h := by cases h
  dispatching _ _ _ h := by cases h

theorem loops_setLoop (S : State) (q' : String) (phase : Phase) (q : String) :
    (S.setLoop q' phase).loops q = if q = q' then phase else S.loops q :=
  Function.update_apply ..

/-- A loop goes on, with what is known in its new phase. -/
theorem Accounted.setLoop (h : Accounted q w S) (q' : String) (phase : Phase)
    (hclaiming : q = q' → ∀ p n rest, phase = .claiming p n rest →
      workerCount S.counts (countKey q p) ≤ n ∧ n ≤ w)
    (hdispatching : q = q' → ∀ p wfs rest, phase = .dispatching p wfs rest →
      workerCount S.counts (countKey q p) + wfs.length ≤ w) :
    Accounted q w (S.setLoop q' phase) where
  counted := h.counted
  bound := h.bound
  claiming p n rest hphase := by
    rw [loops_setLoop] at hphase
    split at hphase
    · exact hclaiming ‹_› p n rest hphase
    · exact h.claiming p n rest hphase
  dispatching p wfs rest hphase := by
    rw [loops_setLoop] at hphase
    split at hphase
    · exact hdispatching ‹_› p wfs rest hphase
    · exact h.dispatching p wfs rest hphase

/-- The counters of a queue are those of its own partitions. -/
theorem eq_of_countKey {p p' : Option String} (h : countKey q' p' = countKey q p) : q = q' :=
  (congrArg Prod.fst h).symm

/-- A dispatch counts the task it starts, for which there was room. -/
theorem Accounted.dispatch (h : Accounted q w S) (hw : w < 2 ^ 64) {p : Option String}
    {wf : DequeuedWorkflow} {wfs : List DequeuedWorkflow} {rest : List (Option String)}
    (hphase : S.loops q' = .dispatching p (wf :: wfs) rest) :
    Accounted q w ((S.dispatchDequeued inner q' p wf).setLoop q' (.dispatching p wfs rest)) := by
  have hroom : ∀ p', countKey q' p = countKey q p' →
      workerCount S.counts (countKey q p') + (wfs.length + 1) ≤ w := by
    intro p' heq
    obtain rfl := eq_of_countKey heq
    rw [← heq]
    exact h.dispatching p (wf :: wfs) rest hphase
  by_cases hregistered : (inner.registry wf.name).isSome = true
  swap
  · rw [State.dispatchDequeued, if_neg hregistered]
    refine h.setLoop q' _ (fun _ _ _ _ heq ↦ by cases heq) ?_
    rintro rfl _ _ _ ⟨⟩
    have hlt := hroom p rfl
    omega
  rw [State.dispatchDequeued, if_pos hregistered]
  have hcount : ∀ p', workerCount (incWorker S.counts (countKey q' p)) (countKey q p') =
      workerCount S.counts (countKey q p') + if countKey q' p = countKey q p' then 1 else 0 := by
    refine fun p' ↦ workerCount_incWorker fun heq ↦ ?_
    have hlt := hroom p' heq
    rw [heq]
    omega
  have hrunning : ∀ p', (⟨wf.id, countKey q' p⟩ :: S.running : List WorkerTask).countP
      (fun t ↦ t.key = countKey q p') =
      S.runningOf (countKey q p') + if countKey q' p = countKey q p' then 1 else 0 := by
    intro p'
    rw [List.countP_cons, State.runningOf]
    simp only [decide_eq_true_eq]
  refine ⟨fun p' ↦ ?_, fun p' ↦ ?_, fun p' n rest' hclaiming ↦ ?_, fun p' wfs' rest' hd ↦ ?_⟩
  · refine (hcount p').trans ?_
    rw [h.counted, Nat.add_right_comm]
    exact congrArg (· + S.panickedOf (countKey q p')) (hrunning p').symm
  · refine (hcount p').trans_le ?_
    split
    · have hlt := hroom p' ‹_›
      omega
    · exact h.bound p'
  · rw [loops_setLoop] at hclaiming
    split at hclaiming
    · cases hclaiming
    · refine (hcount p').symm ▸ ?_
      rw [if_neg fun heq ↦ ‹¬_› (eq_of_countKey heq)]
      exact h.claiming p' n rest' hclaiming
  · rw [loops_setLoop] at hd
    refine (Nat.add_le_add_right (hcount p').le _).trans ?_
    split at hd
    · cases hd
      subst q
      have hlt := hroom p rfl
      rw [if_pos rfl]
      omega
    · rw [if_neg fun heq ↦ ‹¬q = q'› (eq_of_countKey heq)]
      exact h.dispatching p' wfs' rest' hd

/-- A task that ends is taken off the counter, or has panicked. -/
theorem Accounted.taskEnds (h : Accounted q w S) (hw : w < 2 ^ 64) {task : WorkerTask}
    (htask : task ∈ S.running) (ending : Ending) : Accounted q w (S.taskEnds task ending) := by
  have hcount : ∀ p, workerCount (if ending.returns then decWorker S.counts task.key else S.counts)
      (countKey q p) = workerCount S.counts (countKey q p) -
        if ending.returns = true ∧ task.key = countKey q p then 1 else 0 := by
    intro p
    by_cases hreturns : ending.returns = true
    · rw [if_pos hreturns]
      by_cases hkey : task.key = countKey q p
      · have hpos : 0 < S.runningOf task.key := List.countP_pos_iff.2 ⟨task, htask, by simp⟩
        have hcounted := h.counted p
        have hbound := h.bound p
        rw [← hkey] at hcounted hbound
        rw [workerCount_decWorker (by omega) (by omega), if_pos hkey, if_pos ⟨hreturns, hkey⟩]
      · rw [if_neg fun heq ↦ hkey heq.2, Nat.sub_zero, workerCount, decWorker]
        split
        · rw [AList.lookup_insert_ne (Ne.symm hkey), workerCount]
        · rfl
    · rw [if_neg hreturns, if_neg fun heq ↦ hreturns heq.1, Nat.sub_zero]
  have hle : ∀ p, workerCount (S.taskEnds task ending).counts (countKey q p) ≤
      workerCount S.counts (countKey q p) := fun p ↦ (hcount p).trans_le (Nat.sub_le _ _)
  refine ⟨fun p ↦ ?_, fun p ↦ (hle p).trans (h.bound p), fun p n rest hphase ↦ ?_,
    fun p wfs rest hphase ↦ ?_⟩
  · have hrunning : S.runningOf (countKey q p) = (S.running.erase task).countP
        (fun t ↦ t.key = countKey q p) + if task.key = countKey q p then 1 else 0 := by
      rw [State.runningOf, (List.perm_cons_erase htask).countP_eq, List.countP_cons]
      simp only [decide_eq_true_eq]
    have hpanicked : (S.taskEnds task ending).panickedOf (countKey q p) =
        S.panickedOf (countKey q p) +
          if task.key = countKey q p ∧ ending.returns = false then 1 else 0 := by
      rw [State.panickedOf, State.taskEnds, List.countP_cons, State.panickedOf]
      simp
    have hcounted := h.counted p
    refine (hcount p).trans ?_
    rw [hpanicked, hcounted, hrunning]
    show _ = (S.running.erase task).countP _ + _
    by_cases hkey : task.key = countKey q p
    · cases hreturns : ending.returns
      · simp only [hkey, Bool.false_eq_true, false_and, and_self, if_true, if_false]
        omega
      · simp only [hkey, Bool.true_eq_false, and_false, and_self, if_true, if_false]
        omega
    · simp only [hkey, and_false, false_and, if_false]
      omega
  · obtain ⟨hclaiming, hn⟩ := h.claiming p n rest hphase
    exact ⟨(hle p).trans hclaiming, hn⟩
  · exact (Nat.add_le_add_right (hle p) _).trans (h.dispatching p wfs rest hphase)

/-- What was claimed fits beside what was counted before. -/
theorem length_le_of_admits {p : Option String} {n : ℕ} {wfs : List DequeuedWorkflow}
    {limit : UInt32} (hlimit : queue.workerConcurrency = some limit) (hn : n ≤ limit.toNat)
    (h : (queue.input inner p n).admits wfs = true) : n + wfs.length ≤ limit.toNat := by
  have hlen : (wfs.length : ℤ) ≤ max (queue.input inner p n).localMax 0 := of_decide_eq_true h
  have hmax : (queue.input inner p n).localMax = max ((limit.toNat : ℤ) - n) 0 := by
    rw [DequeueInput.localMax, WorkflowQueue.input, hlimit]
    rfl
  rw [hmax] at hlen
  omega

/-- **Step.** Every step of the loops and of the tasks keeps the counters of a queue. -/
theorem Accounted.step {limit : UInt32} {l : Label} (h : Accounted q limit.toNat S)
    (hqueue : queues q = some queue) (hlimit : queue.workerConcurrency = some limit)
    (hs : Workers.step inner queues S l = some S') : Accounted q limit.toNat S' := by
  have hw : limit.toNat < 2 ^ 64 := limit.toNat_lt.trans (by decide)
  cases l with
  | poll q' partitions =>
    simp only [Workers.step] at hs
    split at hs
    · cases hs
      exact h.setLoop q' _ (fun _ _ _ _ heq ↦ by cases heq) fun _ _ _ _ heq ↦ by cases heq
    · cases hs
  | next q' =>
    simp only [Workers.step] at hs
    split at hs
    · cases hs
      exact h.setLoop q' _ (fun _ _ _ _ heq ↦ by cases heq) fun _ _ _ _ heq ↦ by cases heq
    · cases hs
      refine h.setLoop q' _ ?_ fun _ _ _ _ heq ↦ by cases heq
      rintro rfl _ _ _ ⟨⟩
      exact ⟨le_rfl, h.bound _⟩
    · cases hs
      exact h.setLoop q' _ (fun _ _ _ _ heq ↦ by cases heq) fun _ _ _ _ heq ↦ by cases heq
    · cases hs
  | claimed q' wfs =>
    simp only [Workers.step] at hs
    split at hs
    · rename_i queue' p n rest hqueue' hphase
      obtain ⟨hadmits, heq⟩ := Option.ite_none_right_eq_some.1 hs
      cases heq
      refine h.setLoop q' _ (fun _ _ _ _ heq ↦ by cases heq) ?_
      rintro rfl _ _ _ ⟨⟩
      obtain rfl : queue = queue' := Option.some.inj (hqueue.symm.trans hqueue')
      obtain ⟨hclaiming, hn⟩ := h.claiming p n rest hphase
      exact (Nat.add_le_add_right hclaiming _).trans (length_le_of_admits hlimit hn hadmits)
    · cases hs
  | failed q' =>
    simp only [Workers.step] at hs
    split at hs
    · cases hs
      exact h.setLoop q' _ (fun _ _ _ _ heq ↦ by cases heq) fun _ _ _ _ heq ↦ by cases heq
    · cases hs
  | dispatch q' =>
    simp only [Workers.step] at hs
    split at hs
    · rename_i p wf wfs rest hphase
      cases hs
      exact h.dispatch hw hphase
    · cases hs
  | ends task ending =>
    obtain ⟨htask, heq⟩ := Option.ite_none_right_eq_some.1 hs
    cases heq
    exact h.taskEnds hw htask ending

/-! ### Runs -/

/-- **Worker concurrency.** In every run of the poll loops and the tasks of an executor, and for
every partition of a queue with a worker concurrency: no more of its tasks run than that, the
counter of a running task is not zero, and the counter is the number of running tasks exactly if no
body of a task of this partition has panicked. -/
theorem worker_counts {limit : UInt32} (hqueue : queues q = some queue)
    (hlimit : queue.workerConcurrency = some limit)
    (h : Run (Workers.step inner queues) (fun _ _ ↦ True) {} S) (p : Option String) :
    S.runningOf (countKey q p) ≤ limit.toNat ∧
      (∀ task ∈ S.running, task.key = countKey q p → 0 < workerCount S.counts task.key) ∧
      (workerCount S.counts (countKey q p) = S.runningOf (countKey q p) ↔
        ∀ e ∈ S.ended, e.1.key = countKey q p → e.2 ≠ .panic) := by
  have hinv : Accounted q limit.toNat S :=
    h.invariant (accounted_init q _) fun _ _ _ hS _ hs ↦ hS.step hqueue hlimit hs
  have hcounted := hinv.counted p
  have hbound := hinv.bound p
  refine ⟨by omega, fun task htask hkey ↦ ?_, ?_⟩
  · have hpos : 0 < S.runningOf (countKey q p) :=
      List.countP_pos_iff.2 ⟨task, htask, by simpa using hkey⟩
    rw [hkey]
    omega
  · have hpanicked : S.panickedOf (countKey q p) = 0 ↔
        ∀ e ∈ S.ended, e.1.key = countKey q p → e.2 ≠ .panic := by
      rw [State.panickedOf, List.countP_eq_zero]
      refine forall₂_congr fun e _ ↦ ?_
      obtain ⟨t, ending⟩ := e
      cases ending <;> simp [Ending.returns]
    rw [← hpanicked]
    omega

end

/-- A queue that runs one workflow at a time. -/
def single : WorkflowQueue := { name := "q", workerConcurrency := some 1 }

def singleQueue : String → Option WorkflowQueue := fun q ↦ if q = "q" then some single else none

/-- An executor with one registered workflow. -/
def registersF : DbosInner :=
  ⟨"a", "v", none, fun name ↦ if name = "f" then some ⟨3, none, none⟩ else none⟩

/-- A workflow is claimed and dispatched, and its body ends. -/
def dispatchOne (ending : Ending) : List Label :=
  [.poll "q" [], .next "q", .claimed "q" [⟨"w", "f", none, none, none⟩], .dispatch "q",
    .ends ⟨"w", ("q", "")⟩ ending]

theorem worker_counts_dispatchOne : ∃ S, exec (step registersF singleQueue) {}
    (dispatchOne .error) = some S ∧ S.runningOf (countKey "q" none) ≤ (1 : UInt32).toNat ∧
      (∀ task ∈ S.running, task.key = countKey "q" none → 0 < workerCount S.counts task.key) ∧
      (workerCount S.counts (countKey "q" none) = S.runningOf (countKey "q" none) ↔
        ∀ e ∈ S.ended, e.1.key = countKey "q" none → e.2 ≠ .panic) := by
  have hrun : (exec (step registersF singleQueue) {} (dispatchOne .error)).isSome = true := by
    decide +kernel
  obtain ⟨S, hS⟩ := Option.isSome_iff_exists.1 hrun
  exact ⟨S, hS, worker_counts (rfl : singleQueue "q" = some single) rfl
    (Run.of_exec hS fun _ _ _ ↦ trivial) none⟩

/-- After a panic nothing runs and one task is counted, so the queue claims nothing any more. -/
theorem panicked_task_counted : ∃ S, exec (step registersF singleQueue) {} (dispatchOne .panic) =
    some S ∧ S.runningOf (countKey "q" none) = 0 ∧
      workerCount S.counts (countKey "q" none) = 1 ∧
      (single.input registersF none (workerCount S.counts (countKey "q" none))).localMax = 0 := by
  have hrun : (exec (step registersF singleQueue) {} (dispatchOne .panic)).any (fun S ↦
      S.runningOf (countKey "q" none) = 0 && workerCount S.counts (countKey "q" none) = 1 &&
        (single.input registersF none (workerCount S.counts (countKey "q" none))).localMax = 0) =
      true := by
    decide +kernel
  obtain ⟨S, hS, hdone⟩ := (Option.any_eq_true _ _).1 hrun
  simp only [Bool.and_eq_true, decide_eq_true_eq] at hdone
  exact ⟨S, hS, hdone.1.1, hdone.1.2, hdone.2⟩

end Workers

end Dbos
