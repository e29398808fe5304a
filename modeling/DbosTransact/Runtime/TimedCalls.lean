import DbosTransact.Foundation.Traces
import DbosTransact.Runtime.Context

/-!
# The waiting calls with their clock

`WorkflowContext` has `sleep`, `recv` and `get_event` without a clock: how often a loop looks is a
question to the surroundings. Here they are again, with the loop as it is written: it looks,
compares the clock with the end of the wait, and waits for a wake-up, which may come at any time. A
loop that may go on for ever is run for a number of rounds, and says so if it is then still waiting.

The calls without a clock are these with the wait abstracted: whatever a call with its clock does
until it comes back, to the requests it sends and the replies it gets, the call without one can do,
with the same result (`WaitingCall.abstracts`).
-/

namespace Dbos

open Txn

/-! ### What a program does -/

/-- The requests of a program of the system database. -/
abbrev DbEvent : Type := Event Stmt Stmt.Res SqlError

/-- The program can send these requests, get these replies, and come to this result. -/
def Does {α : Type} (m : DbosM α) (es : List DbEvent) (r : Except DbosError α) : Prop :=
  m.run.Does es r

section

variable {α β : Type} {m : DbosM α} {f : α → DbosM β} {es : List DbEvent}

theorem does_pure {a : α} {r : Except DbosError α} :
    Does (pure a) es r ↔ es = [] ∧ r = .ok a :=
  Prog.does_pure

theorem does_throw {e : DbosError} {r : Except DbosError α} :
    Does (throw e) es r ↔ es = [] ∧ r = .error e :=
  Prog.does_pure

theorem does_bind {r : Except DbosError β} : Does (m >>= f) es r ↔
    (∃ e, r = .error e ∧ Does m es (.error e)) ∨
      ∃ es₁ es₂ a, es = es₁ ++ es₂ ∧ Does m es₁ (.ok a) ∧ Does (f a) es₂ r := by
  refine Prog.does_bind.trans ⟨?_, ?_⟩
  · rintro ⟨es₁, es₂, a | e, rfl, h₁, h₂⟩
    · obtain ⟨rfl, rfl⟩ := Prog.does_pure.1 h₂
      exact Or.inl ⟨_, rfl, by rwa [List.append_nil]⟩
    · exact Or.inr ⟨es₁, es₂, _, rfl, h₁, h₂⟩
  · rintro (⟨e, rfl, h⟩ | ⟨es₁, es₂, a, rfl, h₁, h₂⟩)
    · exact ⟨es, [], .error e, by rw [List.append_nil], h, Prog.does_pure.2 ⟨rfl, rfl⟩⟩
    · exact ⟨es₁, es₂, .ok a, rfl, h₁, h₂⟩

theorem does_ask {q : Ask} {g : q.Ans → DbosM β} {r : Except DbosError β} :
    Does (ask q >>= g) es r ↔ ∃ x, Does (g x) es r :=
  Prog.does_ask

theorem does_map {g : α → β} {r : Except DbosError β} :
    Does (g <$> m) es r ↔ ∃ r₀, Does m es r₀ ∧ r = r₀.map g := by
  rw [map_eq_pure_bind, does_bind]
  refine ⟨?_, ?_⟩
  · rintro (⟨e, rfl, h⟩ | ⟨es₁, es₂, a, rfl, h₁, h₂⟩)
    · exact ⟨.error e, h, rfl⟩
    · obtain ⟨rfl, rfl⟩ := does_pure.1 h₂
      exact ⟨.ok a, by rwa [List.append_nil], rfl⟩
  · rintro ⟨e | a, h, rfl⟩
    · exact Or.inl ⟨e, rfl, h⟩
    · exact Or.inr ⟨es, [], a, by rw [List.append_nil], h, does_pure.2 ⟨rfl, rfl⟩⟩

end

/-! ### Programs -/

/-- How a waiting loop stands. -/
inductive WaitState (α : Type)
  | found (a : α)
  | passed
  | waiting

/-- A waiting loop, for so many rounds, and the readings of the clock after which it waits on. -/
def waitFor {α : Type} (probe : DbosM (Option α)) (finish : ℤ) :
    ℕ → DbosM (WaitState α × List ℤ)
  | 0 => return (.waiting, [])
  | rounds + 1 => do
    match ← probe with
    | some a => return (.found a, [])
    | none =>
      let now ← ask .now
      if finish ≤ now then return (.passed, [])
      else
        let (state, readings) ← waitFor probe finish rounds
        return (state, now :: readings)

/-- The times of a wait: the deadline it goes by, the reading the remaining time is taken from, the
reading it begins at, and those after which it waits on. -/
structure Waited where
  deadline : ℤ
  now : ℤ
  started : ℤ
  readings : List ℤ
  deriving DecidableEq, Repr

/-- The time that remains. -/
def remainingTime (deadline now : ℤ) : ℤ := max (asI64 (deadline - now)) 0

/-- When the wait is over. -/
def Waited.finish (t : Waited) : ℤ := t.started + remainingTime t.deadline t.now

/-- What a waiting call has come to: its reply, unless it is still waiting, and the times of its
wait, unless it has not waited. -/
structure Timed (α : Type) where
  reply : Option α
  waited : Option Waited

section

variable [SerdeJson]

/-- The deadline of a wait and the reading its remaining time is taken from. -/
def measureSleep (workflowId : String) (stepId : ℕ) (duration : ℕ) : DbosM (ℤ × ℤ) := do
  let deadline ← sleepDeadline workflowId stepId duration
  let now ← ask .now
  return (deadline, now)

/-- The time `record_sleep` returns. -/
theorem recordSleep_eq_measureSleep (workflowId : String) (stepId duration : ℕ) :
    recordSleep workflowId stepId duration =
      (fun t ↦ remainingTime t.1 t.2) <$> measureSleep workflowId stepId duration := by
  simp [recordSleep, measureSleep, remainingTime]

/-- Wait by the deadline recorded at a step id. -/
def waitUntil {α : Type} (workflowId : String) (stepId : ℕ) (duration : ℕ)
    (probe : DbosM (Option α)) (rounds : ℕ) : DbosM (WaitState α × Waited) := do
  let (deadline, now) ← measureSleep workflowId stepId duration
  let started ← ask .now
  let (state, readings) ← waitFor probe (started + remainingTime deadline now) rounds
  return (state, ⟨deadline, now, started, readings⟩)

/-- Consume the oldest message and record what it was. -/
def takeMessage (workflowId topic : String) (stepId : ℕ) :
    DbosM (Option (String × Option String)) :=
  transaction do
    let consumed ← consumeOldestNotification workflowId topic
    recordOperationResult workflowId stepId "DBOS.recv" (consumed.map Prod.fst) none none
      (some (foundFormat consumed))
    commitTx
    return consumed

/-- Record the event that was found. -/
def recordEvent (workflowId : String) (stepId : ℕ) (found : Option (String × Option String)) :
    DbosM Unit :=
  recordOperationResult workflowId stepId "DBOS.getEvent" (found.map Prod.fst) none none
    (some (foundFormat found))

/-- What a loop that looks for an event has found. -/
def WaitState.event? : WaitState (String × Option String) → Option (String × Option String)
  | found e => some e
  | _ => none

namespace WorkflowContext

variable (ctx : WorkflowContext) (stepId : ℕ)

/-- `sleep`, with its wait. -/
def sleepTimed (duration rounds : ℕ) : DbosM (Timed ℤ) := do
  if ctx.withinStep then
    ctx.refused "DBOS.sleep" "cannot call Sleep within a step"
  else
    let (state, waited) ← waitUntil ctx.state.workflowId stepId duration
      (pure none : DbosM (Option Empty)) rounds
    match state with
    | .waiting => return ⟨none, some waited⟩
    | .passed => return ⟨some (remainingTime waited.deadline waited.now), some waited⟩

/-- `recv`, with its wait. -/
def recvTimed (M : Type) [Serde M] (topic : Option String) (timeout rounds : ℕ) :
    DbosM (Timed (Option M)) := do
  if ctx.withinStep then
    ctx.refused "DBOS.recv" "cannot call Recv within a step"
  else
    match ← checkOperationExecution ctx.state.workflowId stepId "DBOS.recv" with
    | some recorded => do
      let message ← ofExcept (decodeOptional M recorded)
      return ⟨some message, none⟩
    | none =>
      let topic := storedTopic topic
      if ← ask (.waiterVacant s!"{ctx.state.workflowId}::{topic}") then
        let (state, waited) ← waitUntil ctx.state.workflowId (stepId + 1) timeout (do
          if ← notificationExistsUnconsumed ctx.state.workflowId topic then return some ()
          else return none) rounds
        match state with
        | .waiting => return ⟨none, some waited⟩
        | _ =>
          let consumed ← takeMessage ctx.state.workflowId topic stepId
          let message ← ofExcept (decodeFound M consumed)
          return ⟨some message, some waited⟩
      else throw (.conflictingId ctx.state.workflowId)

/-- `get_event`, with its wait. -/
def getEventTimed (V : Type) [Serde V] (targetWorkflowId key : String) (timeout rounds : ℕ) :
    DbosM (Timed (Option V)) := do
  if ctx.withinStep then
    ctx.refused "DBOS.getEvent" "cannot call GetEvent within a step"
  else
    match ← checkOperationExecution ctx.state.workflowId stepId "DBOS.getEvent" with
    | some recorded => do
      let value ← ofExcept (decodeOptional V recorded)
      return ⟨some value, none⟩
    | none =>
      let (state, waited) ← waitUntil ctx.state.workflowId (stepId + 1) timeout
        (selectWorkflowEvent targetWorkflowId key) rounds
      match state with
      | .waiting => return ⟨none, some waited⟩
      | _ =>
        recordEvent ctx.state.workflowId stepId state.event?
        let value ← ofExcept (decodeFound V state.event?)
        return ⟨some value, some waited⟩

end WorkflowContext

/-- A waiting call of a body. -/
inductive WaitingCall (V : Type)
  | sleep (duration : ℕ)
  | recv (codec : Serde V) (topic : Option String) (timeout : ℕ)
  | getEvent (codec : Serde V) (targetWorkflowId key : String) (timeout : ℕ)

def Timed.map {α β : Type} (f : α → β) (t : Timed α) : Timed β := ⟨t.reply.map f, t.waited⟩

namespace WaitingCall

variable {V : Type}

def run (ctx : WorkflowContext) (stepId rounds : ℕ) : WaitingCall V → DbosM (Timed (Reply V))
  | sleep duration => Timed.map .slept <$> ctx.sleepTimed stepId duration rounds
  | recv codec topic timeout =>
    have := codec
    Timed.map .received <$> ctx.recvTimed stepId V topic timeout rounds
  | getEvent codec targetWorkflowId key timeout =>
    have := codec
    Timed.map .received <$> ctx.getEventTimed stepId V targetWorkflowId key timeout rounds

omit [SerdeJson]

/-- The step id of the deadline. -/
def deadlineStep (stepId : ℕ) : WaitingCall V → ℕ
  | sleep _ => stepId
  | _ => stepId + 1

/-- How long the call may wait, in milliseconds. -/
def duration : WaitingCall V → ℕ
  | sleep duration => duration
  | recv _ _ timeout => timeout
  | getEvent _ _ _ timeout => timeout

end WaitingCall

end

/-! ### The wait abstracted -/

/-- A waiting loop that is told how often to look again. -/
def poll {α : Type} (probe : DbosM (Option α)) : ℕ → DbosM (Option α)
  | 0 => probe
  | n + 1 => do
    match ← probe with
    | some a => return some a
    | none => poll probe n

/-- What a loop has found that has stopped. -/
def WaitState.result {α : Type} : WaitState α → Option (Option α)
  | found a => some (some a)
  | passed => some none
  | waiting => none

/-- The result of a call, if it has come back. -/
def timedResult {α : Type} : Except DbosError (Timed α) → Option (Except DbosError α)
  | .error e => some (.error e)
  | .ok t => t.reply.map .ok

section

variable {α : Type} {probe : DbosM (Option α)} {finish : ℤ} {rounds : ℕ} {es : List DbEvent}

/-- A loop that fails, or stops, has looked some number of times. -/
theorem does_waitFor {r : Except DbosError (WaitState α × List ℤ)}
    (h : Does (waitFor probe finish rounds) es r) :
    (∀ e, r = .error e → ∃ n, Does (poll probe n) es (.error e)) ∧
      ∀ state readings, r = .ok (state, readings) → ∀ found ∈ state.result,
        ∃ n, Does (poll probe n) es (.ok found) := by
  induction rounds generalizing es r with
  | zero =>
    obtain ⟨-, rfl⟩ := does_pure.1 h
    refine ⟨fun e he ↦ (by cases he), fun state readings heq found hfound ↦ ?_⟩
    cases heq
    cases hfound
  | succ rounds ih =>
    rw [waitFor, does_bind] at h
    rcases h with ⟨e, rfl, h⟩ | ⟨es₁, es₂, found, rfl, h₁, h₂⟩
    · refine ⟨?_, fun state readings heq ↦ by cases heq⟩
      rintro e' ⟨⟩
      exact ⟨0, h⟩
    cases found with
    | some a =>
      obtain ⟨rfl, rfl⟩ := does_pure.1 h₂
      refine ⟨fun e he ↦ (by cases he), ?_⟩
      rintro state readings ⟨⟩ found ⟨⟩
      exact ⟨0, by rwa [List.append_nil]⟩
    | none =>
      obtain ⟨now, h₂⟩ := does_ask.1 h₂
      split at h₂
      · obtain ⟨rfl, rfl⟩ := does_pure.1 h₂
        refine ⟨fun e he ↦ (by cases he), ?_⟩
        rintro state readings ⟨⟩ found ⟨⟩
        exact ⟨0, by rwa [List.append_nil]⟩
      -- the loop goes on, and looks once more than what is left of it
      have hmore : ∀ {n : ℕ} {r : Except DbosError (Option α)} {es : List DbEvent},
          Does (poll probe n) es r → Does (poll probe (n + 1)) (es₁ ++ es) r :=
        fun h ↦ does_bind.2 (Or.inr ⟨es₁, _, none, rfl, h₁, h⟩)
      rcases does_bind.1 h₂ with ⟨e, rfl, h₃⟩ | ⟨es₃, es₄, ⟨state, readings⟩, rfl, h₃, h₄⟩
      · refine ⟨?_, fun state readings heq ↦ by cases heq⟩
        rintro e' ⟨⟩
        obtain ⟨n, hn⟩ := (ih h₃).1 _ rfl
        exact ⟨n + 1, hmore hn⟩
      · obtain ⟨rfl, rfl⟩ := does_pure.1 h₄
        refine ⟨fun e he ↦ (by cases he), ?_⟩
        rintro state readings' ⟨⟩ found hfound
        obtain ⟨n, hn⟩ := (ih h₃).2 _ _ rfl found hfound
        exact ⟨n + 1, by rw [List.append_nil]; exact hmore hn⟩

theorem does_poll_none {n : ℕ} {r : Except DbosError (Option α)}
    (h : Does (poll (pure none) n) es r) : es = [] ∧ r = .ok none := by
  induction n with
  | zero => exact does_pure.1 h
  | succ n ih => exact ih h

end

/-- Look for a message. -/
def messageProbe (workflowId topic : String) : DbosM (Option Unit) := do
  if ← notificationExistsUnconsumed workflowId topic then return some () else return none

theorem awaitEvent_eq_poll (targetWorkflowId key : String) (n : ℕ) :
    awaitEvent targetWorkflowId key n = poll (selectWorkflowEvent targetWorkflowId key) n := by
  induction n with
  | zero => rfl
  | succ n ih =>
    rw [awaitEvent, poll, ih]
    refine congrArg _ (funext fun found ↦ ?_)
    cases found <;> rfl

theorem awaitMessage_eq_poll (workflowId topic : String) (n : ℕ) :
    awaitMessage workflowId topic n =
      (fun _ ↦ ()) <$> poll (messageProbe workflowId topic) n := by
  induction n with
  | zero =>
    rw [awaitMessage, poll, messageProbe, map_bind]
    refine congrArg _ (funext fun seen ↦ ?_)
    cases seen <;> rfl
  | succ n ih =>
    rw [awaitMessage, poll, messageProbe, map_bind, bind_assoc]
    refine congrArg _ (funext fun seen ↦ ?_)
    cases seen
    · rw [if_neg Bool.false_ne_true, if_neg Bool.false_ne_true, pure_bind, ih]
      rfl
    · rfl

/-- The program without a clock can do whatever the one with its clock does until it comes back,
with the same result. -/
def Abstracts {α : Type} (timed : DbosM (Timed α)) (m : DbosM α) : Prop :=
  ∀ es r, Does timed es r → ∀ r' ∈ timedResult r, Does m es r'

section

variable {α β : Type} {m : DbosM β} {f : β → DbosM (Timed α)} {g : β → DbosM α}

theorem abstracts_throw (e : DbosError) :
    Abstracts (throw e : DbosM (Timed α)) (throw e : DbosM α) := by
  intro es r h r' hr
  obtain ⟨rfl, rfl⟩ := does_throw.1 h
  obtain rfl := Option.mem_some_iff.1 hr
  exact does_throw.2 ⟨rfl, rfl⟩

theorem abstracts_pure (a : α) (waited : Option Waited) : Abstracts (pure ⟨some a, waited⟩)
    (pure a) := by
  intro es r h r' hr
  obtain ⟨rfl, rfl⟩ := does_pure.1 h
  obtain rfl := Option.mem_some_iff.1 hr
  exact does_pure.2 ⟨rfl, rfl⟩

theorem abstracts_bind (h : ∀ b, Abstracts (f b) (g b)) : Abstracts (m >>= f) (m >>= g) := by
  intro es r hdoes r' hr
  rcases does_bind.1 hdoes with ⟨e, rfl, h₁⟩ | ⟨es₁, es₂, b, rfl, h₁, h₂⟩
  · obtain rfl := Option.mem_some_iff.1 hr
    exact does_bind.2 (Or.inl ⟨e, rfl, h₁⟩)
  · exact does_bind.2 (Or.inr ⟨es₁, es₂, b, rfl, h₁, h b es₂ r h₂ r' hr⟩)

theorem abstracts_ofExcept (x : Except DbosError α) (waited : Option Waited) :
    Abstracts (do return ⟨some (← ofExcept x), waited⟩) (ofExcept x) := by
  cases x with
  | ok a => exact abstracts_pure a waited
  | error e => exact abstracts_throw e

theorem abstracts_map {γ : Type} {timed : DbosM (Timed α)} {m : DbosM α} (h : Abstracts timed m)
    (k : α → γ) : Abstracts (Timed.map k <$> timed) (k <$> m) := by
  intro es r hdoes r' hr
  obtain ⟨r₀, h₀, rfl⟩ := does_map.1 hdoes
  refine does_map.2 ?_
  cases r₀ with
  | error e =>
    obtain rfl := Option.mem_some_iff.1 hr
    exact ⟨.error e, h es _ h₀ _ rfl, rfl⟩
  | ok t =>
    obtain ⟨reply, waited⟩ := t
    cases reply with
    | none => cases hr
    | some a =>
      obtain rfl := Option.mem_some_iff.1 hr
      exact ⟨.ok a, h es _ h₀ _ rfl, rfl⟩

end

section

variable [SerdeJson] {α β : Type}

/-- A wait by the deadline recorded at a step id, which is told how often to look. -/
def waitByPolls (workflowId : String) (stepId duration : ℕ) (probe : DbosM (Option β)) :
    DbosM (Option β) := do
  let _ ← recordSleep workflowId stepId duration
  let polls ← ask .polls
  poll probe polls

theorem does_recordSleep {w : String} {k duration : ℕ} {es : List DbEvent}
    {r : Except DbosError (ℤ × ℤ)} (h : Does (measureSleep w k duration) es r) :
    Does (recordSleep w k duration) es (r.map fun t ↦ remainingTime t.1 t.2) := by
  rw [recordSleep_eq_measureSleep]
  exact does_map.2 ⟨r, h, rfl⟩

/-- A wait that fails or stops measures its deadline and looks some number of times. -/
theorem does_waitUntil {w : String} {k duration rounds : ℕ} {probe : DbosM (Option β)}
    {es : List DbEvent} {r : Except DbosError (WaitState β × Waited)}
    (h : Does (waitUntil w k duration probe rounds) es r) :
    (∀ e, r = .error e → Does (measureSleep w k duration) es (.error e) ∨
      ∃ es₁ es₂ t n, es = es₁ ++ es₂ ∧ Does (measureSleep w k duration) es₁ (.ok t) ∧
        Does (poll probe n) es₂ (.error e)) ∧
    ∀ state waited, r = .ok (state, waited) → ∀ found ∈ state.result,
      ∃ es₁ es₂ n, es = es₁ ++ es₂ ∧
        Does (measureSleep w k duration) es₁ (.ok (waited.deadline, waited.now)) ∧
        Does (poll probe n) es₂ (.ok found) := by
  rcases does_bind.1 h with ⟨e, rfl, h₁⟩ | ⟨es₁, es₂, t, rfl, h₁, h₂⟩
  · refine ⟨?_, fun state waited heq ↦ by cases heq⟩
    rintro e' ⟨⟩
    exact Or.inl h₁
  obtain ⟨started, h₂⟩ := does_ask.1 h₂
  rcases does_bind.1 h₂ with ⟨e, rfl, h₃⟩ | ⟨es₃, es₄, ⟨state, readings⟩, rfl, h₃, h₄⟩
  · refine ⟨?_, fun state waited heq ↦ by cases heq⟩
    rintro e' ⟨⟩
    obtain ⟨n, hn⟩ := (does_waitFor h₃).1 e rfl
    exact Or.inr ⟨es₁, es₂, t, n, rfl, h₁, hn⟩
  · obtain ⟨rfl, rfl⟩ := does_pure.1 h₄
    refine ⟨fun e he ↦ (by cases he), ?_⟩
    rintro state' waited ⟨⟩ found hfound
    obtain ⟨n, hn⟩ := (does_waitFor h₃).2 state readings rfl found hfound
    rw [List.append_nil]
    exact ⟨es₁, es₃, n, rfl, h₁, hn⟩

/-- A wait that is over is one that is told when to stop. -/
theorem abstracts_waitUntil {w : String} {k duration rounds : ℕ} {probe : DbosM (Option β)}
    {f : WaitState β × Waited → DbosM (Timed α)} {g : Option β → DbosM α}
    (hwaiting : ∀ waited, f (.waiting, waited) = pure ⟨none, some waited⟩)
    (h : ∀ state waited, ∀ found ∈ state.result, Abstracts (f (state, waited)) (g found)) :
    Abstracts (waitUntil w k duration probe rounds >>= f)
      (waitByPolls w k duration probe >>= g) := by
  intro es r hdoes r' hr
  -- a wait without its clock is the record of the deadline, and some number of looks
  have hpolls : ∀ {es₁ es₂ : List DbEvent} {t : ℤ × ℤ} {n : ℕ} {r : Except DbosError (Option β)},
      Does (measureSleep w k duration) es₁ (.ok t) → Does (poll probe n) es₂ r →
        Does (waitByPolls w k duration probe) (es₁ ++ es₂) r := fun h₁ h₂ ↦
    does_bind.2 (Or.inr ⟨_, _, _, rfl, does_recordSleep h₁, does_ask.2 ⟨_, h₂⟩⟩)
  rcases does_bind.1 hdoes with ⟨e, rfl, h₁⟩ | ⟨es₁, es₂, ⟨state, waited⟩, rfl, h₁, h₂⟩
  · obtain rfl := Option.mem_some_iff.1 hr
    refine does_bind.2 (Or.inl ⟨e, rfl, ?_⟩)
    rcases (does_waitUntil h₁).1 e rfl with hmeasure | ⟨es₁, es₂, t, n, rfl, hmeasure, hn⟩
    · exact does_bind.2 (Or.inl ⟨e, rfl, does_recordSleep hmeasure⟩)
    · exact hpolls hmeasure hn
  · cases hresult : state.result with
    | none =>
      cases state with
      | waiting =>
        rw [hwaiting] at h₂
        exact absurd hr (by rw [(does_pure.1 h₂).2]; exact Option.not_mem_none _)
      | _ => cases hresult
    | some found =>
      obtain ⟨es₃, es₄, n, rfl, hmeasure, hn⟩ :=
        (does_waitUntil h₁).2 state waited rfl found hresult
      exact does_bind.2 (Or.inr ⟨_, es₂, found, rfl, hpolls hmeasure hn,
        h state waited found hresult es₂ r h₂ r' hr⟩)

/-! ### The calls -/

namespace WorkflowContext

variable (ctx : WorkflowContext) (stepId rounds : ℕ)

theorem abstracts_sleep (duration : ℕ) :
    Abstracts (ctx.sleepTimed stepId duration rounds) (ctx.sleep stepId duration) := by
  rw [sleepTimed, sleep]
  split
  · exact abstracts_throw _
  intro es r hdoes r' hr
  -- the loop looks at nothing, so that all it does is the record of the deadline
  rcases does_bind.1 hdoes with ⟨e, rfl, h₁⟩ | ⟨es₁, es₂, ⟨state, waited⟩, rfl, h₁, h₂⟩
  · obtain rfl := Option.mem_some_iff.1 hr
    rcases (does_waitUntil h₁).1 e rfl with hmeasure | ⟨es₁, es₂, t, n, rfl, -, hn⟩
    · exact does_recordSleep hmeasure
    · cases (does_poll_none hn).2
  · cases state with
    | found a => exact a.elim
    | waiting =>
      rw [(does_pure.1 h₂).2] at hr
      cases hr
    | passed =>
      obtain ⟨rfl, rfl⟩ := does_pure.1 h₂
      obtain rfl := Option.mem_some_iff.1 hr
      obtain ⟨es₁, es₂, n, rfl, hmeasure, hn⟩ := (does_waitUntil h₁).2 _ waited rfl none rfl
      obtain ⟨rfl, -⟩ := does_poll_none hn
      simpa [Except.map] using does_recordSleep hmeasure

theorem abstracts_recv (M : Type) [Serde M] (topic : Option String) (timeout : ℕ) :
    Abstracts (ctx.recvTimed stepId M topic timeout rounds) (ctx.recv stepId M topic timeout) := by
  rw [recvTimed, recv]
  split
  · exact abstracts_throw _
  refine abstracts_bind fun recorded ↦ ?_
  cases recorded with
  | some recorded => exact abstracts_ofExcept _ none
  | none =>
    refine abstracts_bind fun vacant ↦ ?_
    cases vacant with
    | false => exact abstracts_throw _
    | true =>
      have hwait : ∀ rest : DbosM (Option M), (do
          let _ ← recordSleep ctx.state.workflowId (stepId + 1) timeout
          let polls ← ask .polls
          awaitMessage ctx.state.workflowId (storedTopic topic) polls
          rest) = waitByPolls ctx.state.workflowId (stepId + 1) timeout
            (messageProbe ctx.state.workflowId (storedTopic topic)) >>= fun _ ↦ rest := by
        intro rest
        simp only [waitByPolls, awaitMessage_eq_poll, bind_assoc, map_eq_pure_bind, pure_bind]
      refine Eq.subst (motive := fun m ↦ Abstracts _ m) (hwait _).symm ?_
      refine abstracts_waitUntil (fun _ ↦ rfl) fun state waited found hfound ↦ ?_
      cases state with
      | waiting => cases hfound
      | _ => exact abstracts_bind fun consumed ↦ abstracts_ofExcept _ (some waited)

theorem abstracts_getEvent (V : Type) [Serde V] (targetWorkflowId key : String) (timeout : ℕ) :
    Abstracts (ctx.getEventTimed stepId V targetWorkflowId key timeout rounds)
      (ctx.getEvent stepId V targetWorkflowId key timeout) := by
  rw [getEventTimed, getEvent]
  split
  · exact abstracts_throw _
  refine abstracts_bind fun recorded ↦ ?_
  cases recorded with
  | some recorded => exact abstracts_ofExcept _ none
  | none =>
    have hwait : ∀ rest : Option (String × Option String) → DbosM (Option V), (do
        let _ ← recordSleep ctx.state.workflowId (stepId + 1) timeout
        let polls ← ask .polls
        let found ← awaitEvent targetWorkflowId key polls
        rest found) = waitByPolls ctx.state.workflowId (stepId + 1) timeout
          (selectWorkflowEvent targetWorkflowId key) >>= rest := by
      intro rest
      simp only [waitByPolls, awaitEvent_eq_poll, bind_assoc]
    refine Eq.subst (motive := fun m ↦ Abstracts _ m) (hwait _).symm ?_
    refine abstracts_waitUntil (fun _ ↦ rfl) fun state waited found hfound ↦ ?_
    cases state with
    | waiting => cases hfound
    | found e =>
      obtain rfl := Option.mem_some_iff.1 hfound
      exact abstracts_bind fun _ ↦ abstracts_ofExcept _ (some waited)
    | passed =>
      obtain rfl := Option.mem_some_iff.1 hfound
      exact abstracts_bind fun _ ↦ abstracts_ofExcept _ (some waited)

end WorkflowContext

/-- The durable call without its clock. -/
def WaitingCall.invocation {V : Type} : WaitingCall V → Invocation V
  | sleep duration => .sleep duration
  | recv codec topic timeout => .recv codec topic timeout
  | getEvent codec targetWorkflowId key timeout => .getEvent codec targetWorkflowId key timeout

/-- A waiting call without its clock is the one with it, the wait abstracted. -/
theorem WaitingCall.abstracts {V : Type} (ctx : WorkflowContext) (stepId rounds : ℕ)
    (call : WaitingCall V) :
    Abstracts (call.run ctx stepId rounds) (call.invocation.run ctx stepId) := by
  cases call with
  | sleep duration => exact abstracts_map (ctx.abstracts_sleep stepId rounds duration) _
  | recv codec topic timeout =>
    exact abstracts_map (@WorkflowContext.abstracts_recv _ ctx stepId rounds V codec topic timeout)
      _
  | getEvent codec targetWorkflowId key timeout =>
    exact abstracts_map (@WorkflowContext.abstracts_getEvent _ ctx stepId rounds V codec
      targetWorkflowId key timeout) _

end

end Dbos
