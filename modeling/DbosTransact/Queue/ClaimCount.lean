import DbosTransact.Queue.Alone

/-!
# How many workflows an iteration claims

The limits of a queue are four: the tasks per iteration, the tasks of this executor, the running
workflows of all executors, and the starts within a period. An iteration that is left alone claims
as many workflows as all of them leave room for, but for one thing: where a worker limit is set, it
stands in the place of the tasks per iteration, which are not looked at then. So the least of all
four (`DequeueInput.leastRoom`) is what is claimed (`DequeueInput.claimCount`) exactly if the worker
limit is not set or something else leaves room for no more than the tasks per iteration
(`WithinBatch`).
-/

namespace Dbos

open Txn

section

variable {a b : ℤ} {l : List ℤ}

theorem foldl_min_min (a b : ℤ) (l : List ℤ) : l.foldl min (min a b) = min a (l.foldl min b) := by
  induction l generalizing b with
  | nil => rfl
  | cons c l ih => rw [List.foldl_cons, List.foldl_cons, min_assoc, ih]

theorem foldl_min_le_iff : l.foldl min a ≤ b ↔ a ≤ b ∨ ∃ n ∈ l, n ≤ b := by
  induction l generalizing a with
  | nil => simp
  | cons c l ih =>
    have hmin : min a c ≤ b ↔ a ≤ b ∨ c ≤ b := by omega
    rw [List.foldl_cons, ih, hmin, List.exists_mem_cons_iff, or_assoc]

end

namespace DequeueInput

variable (input : DequeueInput) (db : Db) (now : ℤ)

/-- What the limits leave room for that may be unset: the worker limit, the global limit and the
rate limit. -/
def rooms : List ℤ :=
  (input.workerConcurrency.map fun w : ℕ ↦ (w : ℤ) - input.localRunningCount).toList ++
    input.sharedRoom db now

/-- The number of workflows that wait. -/
def waiting : ℕ :=
  db.workflowStatus.count fun _ r ↦
    r.candidate input.queueName input.applicationVersion input.partitionKey

/-- What the tasks per iteration leave room for, or the worker limit in their place. -/
def ownRoom : ℤ :=
  match input.workerConcurrency with
  | some w => (w : ℤ) - input.localRunningCount
  | none => input.maxTasksPerIteration

/-- How many workflows an iteration claims. -/
def claimCount : ℤ :=
  max 0 ((input.sharedRoom db now).foldl min (min (input.waiting db) input.ownRoom))

/-- What all four limits leave room for. -/
def leastRoom : ℤ :=
  max 0 ((input.rooms db now).foldl min (min (input.waiting db) input.maxTasksPerIteration))

/-- The worker limit is not set, or there are not more workflows to claim than the tasks of one
iteration, or one of the other limits leaves room for no more than these. -/
def WithinBatch : Prop :=
  input.workerConcurrency = none ∨
    ∃ n ∈ (input.waiting db : ℤ) :: input.rooms db now, n ≤ input.maxTasksPerIteration

variable {input db now}

theorem claimCount_eq_iff :
    input.claimCount db now = input.leastRoom db now ↔ input.WithinBatch db now := by
  rw [claimCount, ownRoom, leastRoom, WithinBatch, rooms]
  cases hworker : input.workerConcurrency with
  | none => exact iff_of_true rfl (Or.inl rfl)
  | some w =>
    show max 0 ((input.sharedRoom db now).foldl min
        (min (input.waiting db : ℤ) ((w : ℤ) - input.localRunningCount))) =
      max 0 ((input.sharedRoom db now).foldl min (min (min (input.waiting db : ℤ)
        input.maxTasksPerIteration) ((w : ℤ) - input.localRunningCount))) ↔
      _ ∨ ∃ n ∈ (input.waiting db : ℤ) :: ((w : ℤ) - input.localRunningCount) ::
        input.sharedRoom db now, _
    rw [foldl_min_min, foldl_min_min, List.exists_mem_cons_iff, List.exists_mem_cons_iff,
      ← foldl_min_le_iff]
    generalize (input.sharedRoom db now).foldl min ((w : ℤ) - input.localRunningCount) = n
    simp only [reduceCtorEq, false_or]
    omega

end DequeueInput

section

variable {valid : DbMoment → (q : Ask) → q.Ans → Bool} {input : DequeueInput} {i : ℕ}
variable {S₀ : QueueSystem}

end

/-- The only session calls `dequeue_workflows`. -/
def calling (db : Db) (input : DequeueInput) : QueueSystem :=
  (System.init db 0).update server 0 (Session.resume (dequeueCall input) .idle) none none

theorem lookup_calling (db : Db) (input : DequeueInput) :
    (calling db input).sessions.lookup 0 = some (Session.resume (dequeueCall input) .idle) := by
  rw [calling, System.sessions_update, AList.lookup_insert]

theorem others_calling (db : Db) (input : DequeueInput) : (calling db input).others 0 = [] :=
  System.others_update rfl

end Dbos
