import DbosTransact.Foundation.Run
import DbosTransact.Foundation.System
import DbosTransact.Queue.Dequeue
import DbosTransact.Runtime.Calls

/-!
# Executors sharing a queue

Runs of any number of sessions on one system database, each of which either is a call of
`dequeue_workflows` or runs some other program of the runtime, interleaved statement by statement.
`queueState_of_run` says what holds in every state they reach: the history is a chain of legal
writes, and each committed transaction is a `DequeueCommit` or made by an allowed statement.

What a dequeue call has returned is what one of its commits has claimed. The limits of a queue, the
order it is served in and the exclusiveness of its claims are read off these runs.
-/

namespace Dbos

open Txn

/-! ### Sessions -/

/-- What a session returns: a dequeue call its input and its result, every other session nothing. -/
abbrev QueueResult : Type := Option (DequeueInput × Except DbosError (List DequeuedWorkflow))

abbrev QueueSystem : Type := System Db Key Row Stmt Stmt.Res SqlError Ask Ask.Ans QueueResult

abbrev QueueLabel : Type := Label Stmt Stmt.Res SqlError (Key → ℕ) Ask Ask.Ans QueueResult

abbrev DbCommit : Type := Commit Db Key Row Stmt

/-- A session that calls `dequeue_workflows`. -/
def dequeueCall (input : DequeueInput) : DbProg QueueResult :=
  (dequeueWorkflows input).run.bind fun r ↦ .pure (some (input, r))

/-- A session that does anything else. -/
def otherCall {α : Type} (m : DbosM α) : DbProg QueueResult := m.run.bind fun _ ↦ .pure none

/-- The sessions of a queue: dequeue calls with inputs in `D`, and programs whose statements are in
`P`. -/
def QueueSession (D : DequeueInput → Prop) (P : Stmt → Prop) (p : DbProg QueueResult) : Prop :=
  (∃ input, D input ∧ p = dequeueCall input) ∨
    ∃ (α : Type) (m : DbosM α), Sends P m ∧ p = otherCall m

/-- Only sessions of the queue connect. -/
def QueueStep (D : DequeueInput → Prop) (P : Stmt → Prop) (_ : QueueSystem) (l : QueueLabel) :
    Prop :=
  ∀ i p, l = .spawn i p → QueueSession D P p

/-- The program a label starts. -/
def spawned : QueueLabel → Option (DbProg QueueResult)
  | .spawn _ p => some p
  | _ => none

theorem queueStep_of_spawned {D : DequeueInput → Prop} {P : Stmt → Prop} {ls : List QueueLabel}
    (h : ∀ p ∈ ls.filterMap spawned, QueueSession D P p) (S : QueueSystem) :
    ∀ l ∈ ls, QueueStep D P S l := by
  rintro l hl i p rfl
  exact h p (List.mem_filterMap.2 ⟨_, hl, rfl⟩)

section

variable {valid : DbMoment → (q : Ask) → q.Ans → Bool} {D : DequeueInput → Prop}
variable {P : Stmt → Prop} {db₀ : Db} {time : ℤ} {S : QueueSystem}

/-- What a transaction of a queue session commits. -/
def QueueCommit (valid : DbMoment → (q : Ask) → q.Ans → Bool) (D : DequeueInput → Prop)
    (P : Stmt → Prop) (e : DbEffect) : Prop :=
  (∃ input k, D input ∧ DequeueCommit valid input k e) ∨ ∀ w ∈ e.writes, P w.stmt

/-- A state reached by queue sessions. -/
structure QueueState (valid : DbMoment → (q : Ask) → q.Ans → Bool) (D : DequeueInput → Prop)
    (P : Stmt → Prop) (db₀ : Db) (S : QueueSystem) : Prop where
  consistent : System.Consistent server db₀ S
  commits : ∀ c ∈ S.history, QueueCommit valid D P c.toEffect
  /-- A dequeue call that has returned workflows has committed the claims of them. -/
  returned : ∀ i s input claimed, S.sessions.lookup i = some s →
    s.prog = .pure (some (input, .ok claimed)) → claimed = [] ∨ ∃ k, ∃ c ∈ S.history,
      c.session = i ∧ DequeueCommit valid input k c.toEffect ∧ claimed = k.taken.map dequeued

/-- The specification of a queue session. -/
def queueSpec (valid : DbMoment → (q : Ask) → q.Ans → Bool) (D : DequeueInput → Prop)
    (P : Stmt → Prop) : DbSpec where
  rely := Moment.Before
  rely_refl := Moment.Before.refl
  rely_trans := Moment.Before.trans
  valid := valid
  guar _ := QueueCommit valid D P

/-- What a queue session has done when it returns. -/
def queuePost (valid : DbMoment → (q : Ask) → q.Ans → Bool) : DbPost QueueResult :=
  fun r _ _ τ ↦ ∀ input claimed, r = some (input, .ok claimed) → claimed = [] ∨
    ∃ k, ∃ e ∈ τ.effects, DequeueCommit valid input k e ∧ claimed = k.taken.map dequeued

theorem wp_queueSession {p : DbProg QueueResult} (hp : QueueSession D P p) (m : DbMoment) :
    wp server (queueSpec valid D P) p (queuePost valid) .idle m {} := by
  rcases hp with ⟨input, hD, rfl⟩ | ⟨α, q, hq, rfl⟩
  · have hspec : wpM (queueSpec valid D P) (dequeueWorkflows input) _ _ .idle m {} :=
      wpM_dequeueWorkflows input m {} id (fun _ _ _ ↦ trivial) fun τ k e he ↦
        Or.inl ⟨input, k, hD, he⟩
    refine wp_bind (wp_mono hspec fun r c m τ hr m' _ input' claimed heq ↦ ?_)
    cases r with
    | error e => cases heq
    | ok out =>
      cases heq
      rcases hr.2 with ⟨rfl, -⟩ | ⟨k, e, hcommit, rfl, hadds, -⟩
      · exact Or.inl rfl
      · exact Or.inr ⟨k, e, by simp [hadds.effects], hcommit, rfl⟩
  · refine wp_bind
      (wp_mono (wp_of_all hq (fun τ e he ↦ Or.inr he) (fun _ _ _ ↦ trivial) (by simp)) ?_)
    intro r c m τ _ m' _ input claimed heq
    cases heq

/-- Every state that queue sessions reach. -/
theorem queueState_of_run
    (h : Run (System.step server valid) (QueueStep D P) (System.init db₀ time) S) :
    QueueState valid D P db₀ S := by
  have hsound : System.Sound server (fun _ ↦ queueSpec valid D P) (fun _ ↦ queuePost valid) S :=
    System.sound_of_run (fun _ _ _ ↦ id) (fun _ ↦ rfl) (fun _ ↦ trivial)
      (fun S i p hp m ↦ wp_queueSession (hp i p rfl) m) h
  refine ⟨System.consistent_of_run h, fun c hc ↦ ?_, fun i s input claimed hs hprog ↦ ?_⟩
  · obtain ⟨τ, -, -, hcommit⟩ := hsound.guar c hc
    exact hcommit
  refine (hsound.returned hs hprog input claimed rfl).imp_right ?_
  rintro ⟨k, e, he, hcommit, hclaimed⟩
  rw [System.mem_effects_traceOf] at he
  obtain ⟨c, hc, hi, rfl⟩ := he
  exact ⟨k, c, hc, hi, hcommit, hclaimed⟩

end

end Dbos
