import DbosTransact.Db.Server
import DbosTransact.Foundation.Logic
import DbosTransact.Integers
import DbosTransact.Serialize

/-!
# Programs of the runtime

The monad the runtime's `async` functions are written in: programs of the system database that may
fail with a `DbosError`. What they ask of their surroundings is `Ask`: the clock, fresh identifiers,
the in-process registry of waiters, how often a waiting loop wakes up, and the user's own code.

A user closure is a function of a stamp that is new in each invocation, so that running it twice may
give two results; the question `runClosure` marks the point where it runs.

A transaction that goes out of scope before it is committed is rolled back; `transaction` is that
scope.
-/

namespace Dbos

open Txn

/-- The authenticated identity carried by a workflow. -/
structure AuthIdentity where
  user : Option String := none
  role : Option String := none
  roles : List String := []
  deriving DecidableEq, Repr

/-- The spawned task that runs a workflow body and records its outcome. -/
structure Task where
  workflowId : String
  name : String
  input : Option String
  fmt : Format
  auth : AuthIdentity
  deriving DecidableEq, Repr

/-- What a program asks of its surroundings. -/
inductive Ask
  /-- `now_epoch_ms()`. -/
  | now
  /-- `Uuid::new_v4()`. -/
  | newUuid
  /-- Whether a key of the waiter registry is vacant; if so it is taken. -/
  | waiterVacant (payload : String)
  /-- How often a waiting loop wakes up before its deadline. -/
  | polls
  /-- Run the closure of a step, and give the stamp of this invocation. -/
  | runClosure (workflowId : String) (stepId : ℕ)
  /-- Spawn the task of a workflow. -/
  | spawn (task : Task)
  deriving DecidableEq, Repr

/-- The type of an answer. -/
abbrev Ask.Ans : Ask → Type
  | now => ℤ
  | newUuid => String
  | waiterVacant _ => Bool
  | polls => ℕ
  | runClosure .. => ℕ
  | spawn _ => Unit

/-- The answers of surroundings whose clock stands at `t` and whose next identifier is `id`. -/
def answersAt (t : ℤ) (id : String) : (q : Ask) → q.Ans
  | .now => t
  | .newUuid => id
  | .waiterVacant _ => true
  | .polls => 1
  | .runClosure .. => 0
  | .spawn _ => ()

/-- A program of the system database. -/
abbrev DbProg (α : Type) : Type := Prog Stmt Stmt.Res SqlError Ask Ask.Ans α

/-- A program that may fail: the crate's `Result`. -/
abbrev DbosM (α : Type) : Type := ExceptT DbosError DbProg α

/-- Send a statement and look at the driver's reply. -/
def execute (s : Stmt) : DbosM (Except SqlError s.Res) :=
  ExceptT.mk (.sql s fun r ↦ .pure (.ok r))

/-- Send a statement; an error of the driver is an error of the caller. -/
def query (s : Stmt) : DbosM s.Res := do
  match ← execute s with
  | .ok r => return r
  | .error e => throw (.ofSql e)

/-- Ask the surroundings. -/
def ask (q : Ask) : DbosM q.Ans := ExceptT.mk (.ask q fun a ↦ .pure (.ok a))

/-- The reply of the driver to a transaction command. -/
def command (r : Except SqlError Unit) : Except DbosError Unit := r.mapError .ofSql

def beginTx : DbosM Unit := ExceptT.mk (.begin fun r ↦ .pure (command r))

def setIsolation (iso : Isolation) : DbosM Unit :=
  ExceptT.mk (.isolate iso fun r ↦ .pure (command r))

def commitTx : DbosM Unit := ExceptT.mk (.commit fun r ↦ .pure (command r))

/-- The scope of a transaction: what is not committed in it is rolled back at its end. -/
def transaction {α : Type} (m : DbosM α) : DbosM α := do
  beginTx
  ExceptT.mk (m.run.bind fun r ↦ .rollback fun _ ↦ .pure r)

/-- The result of a call as a value, for a caller that looks at the error itself. -/
def attempt {α : Type} (m : DbosM α) : DbosM (Except DbosError α) :=
  ExceptT.mk (m.run.bind fun r ↦ .pure (.ok r))

/-- A pure result as a program. -/
def ofExcept {α : Type} (r : Except DbosError α) : DbosM α := ExceptT.mk (.pure r)

/-- The question is no request to spawn a task. -/
def NoTask (q : Ask) : Prop := ∀ task, q ≠ .spawn task

/-- Every question is allowed that spawns no task. -/
class AllowsAsking (A : Ask → Prop) : Prop where
  of_noTask : ∀ q, NoTask q → A q

/-- A question that spawns no task, whatever it asks for. -/
class Untasked (q : Ask) : Prop where
  noTask : NoTask q

instance untasked_now : Untasked .now := ⟨nofun⟩

instance untasked_newUuid : Untasked .newUuid := ⟨nofun⟩

instance untasked_waiterVacant (payload : String) : Untasked (.waiterVacant payload) := ⟨nofun⟩

instance untasked_polls : Untasked .polls := ⟨nofun⟩

instance untasked_runClosure (w : String) (n : ℕ) : Untasked (.runClosure w n) := ⟨nofun⟩

instance allowsAsking_true : AllowsAsking fun _ ↦ True := ⟨fun _ _ ↦ trivial⟩

instance allowsAsking_noTask : AllowsAsking NoTask := ⟨fun _ ↦ id⟩

/-- Every statement a program can send satisfies `P`, and every question it can ask `A`. -/
def Sends {α : Type} (P : Stmt → Prop) (m : DbosM α) (A : Ask → Prop := fun _ ↦ True) : Prop :=
  m.run.All P A

section

variable {α β : Type} {P : Stmt → Prop} {A : Ask → Prop}

@[simp] theorem sends_pure (a : α) : Sends P (pure a : DbosM α) A := trivial

@[simp] theorem sends_throw (e : DbosError) : Sends P (throw e : DbosM α) A := trivial

theorem Sends.mono {P' : Stmt → Prop} {A' : Ask → Prop} {m : DbosM α} (hm : Sends P m A)
    (hP : ∀ s, P s → P' s) (hA : ∀ q, A q → A' q) : Sends P' m A' :=
  Prog.All.mono hm hP hA

theorem Sends.bind {m : DbosM α} {f : α → DbosM β} (hm : Sends P m A)
    (hf : ∀ a, Sends P (f a) A) : Sends P (m >>= f) A := by
  refine Prog.All.bind hm fun r ↦ ?_
  cases r with
  | ok a => exact hf a
  | error e => trivial

theorem Sends.map {m : DbosM α} {f : α → β} (hm : Sends P m A) : Sends P (f <$> m) A :=
  Sends.bind hm fun _ ↦ trivial

theorem sends_execute {s : Stmt} (h : P s) : Sends P (execute s) A := ⟨h, fun _ ↦ trivial⟩

theorem sends_query {s : Stmt} (h : P s) : Sends P (query s) A :=
  (sends_execute h).bind fun r ↦ by cases r <;> trivial

theorem sends_ask_of {q : Ask} (h : A q) : Sends P (ask q) A := ⟨h, fun _ ↦ trivial⟩

theorem sends_ask [AllowsAsking A] (q : Ask) [hq : Untasked q] : Sends P (ask q) A :=
  sends_ask_of (AllowsAsking.of_noTask q hq.noTask)

@[simp] theorem sends_ofExcept (r : Except DbosError α) : Sends P (ofExcept r) A := trivial

@[simp] theorem sends_commitTx : Sends P commitTx A := fun _ ↦ trivial

theorem Sends.transaction {m : DbosM α} (hm : Sends P m A) : Sends P (transaction m) A :=
  Sends.bind (fun _ ↦ trivial) fun _ ↦ Prog.All.bind hm fun _ _ ↦ trivial

theorem Sends.attempt {m : DbosM α} (hm : Sends P m A) : Sends P (attempt m) A :=
  Prog.All.bind hm fun _ ↦ trivial

end

/-- The program begins no transaction. -/
def Autocommits {α : Type} (m : DbosM α) : Prop := m.run.Autocommits

section

variable {α β : Type}

theorem autocommits_ofExcept (r : Except DbosError α) : Autocommits (ofExcept r) := trivial

theorem autocommits_throw (e : DbosError) : Autocommits (throw e : DbosM α) := trivial

theorem autocommits_pure (a : α) : Autocommits (pure a : DbosM α) := trivial

theorem autocommits_ask (q : Ask) : Autocommits (ask q) := fun _ ↦ trivial

theorem autocommits_execute (s : Stmt) : Autocommits (execute s) := fun _ ↦ trivial

theorem Autocommits.bind {m : DbosM α} {f : α → DbosM β} (hm : Autocommits m)
    (hf : ∀ a, Autocommits (f a)) : Autocommits (m >>= f) := by
  refine Prog.Autocommits.bind hm fun r ↦ ?_
  cases r with
  | ok a => exact hf a
  | error e => trivial

theorem Autocommits.attempt {m : DbosM α} (hm : Autocommits m) : Autocommits (attempt m) :=
  Prog.Autocommits.bind hm fun _ ↦ trivial

theorem autocommits_query (s : Stmt) : Autocommits (query s) :=
  (autocommits_execute s).bind fun r ↦ by cases r <;> trivial

end

/-- `NULL_TOPIC`: the topic stored for an absent or empty one. -/
def nullTopic : String := "__null__topic__"

/-- `topic.filter(|t| !t.is_empty()).unwrap_or(NULL_TOPIC)`. -/
def storedTopic (topic : Option String) : String := (topic.filter fun t ↦ !t.isEmpty).getD nullTopic

end Dbos
