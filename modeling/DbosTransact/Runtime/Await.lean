import DbosTransact.Runtime.Handler
import DbosTransact.Runtime.Identity

/-!
# Awaiting a workflow

`await_workflow_result` polls the row of a workflow until it is terminal. What it returns is read
off one row, in one committed state, and `awaited_row` says which: the row of the workflow in a
state between the start of the call and its end. So what is known of the rows of a run is known of
the outcomes that its polling handles report. `get_result` goes by the same row (`wpM_getResult`).
-/

namespace Dbos

open Txn

/-- The outcome a row stands for, if it is terminal. -/
def WorkflowRow.awaited (r : WorkflowRow) : Option AwaitOutcome :=
  AwaitRow.outcome ⟨r.status, r.output, r.error, r.recoveryAttempts, r.serialization⟩

/-- A cancelled row stands for the cancellation, whatever else it holds. -/
theorem WorkflowRow.awaited_cancelled {r : WorkflowRow} (h : r.status = .cancelled) :
    r.awaited = some .cancelled := by
  rw [WorkflowRow.awaited, AwaitRow.outcome]
  dsimp only
  rw [h]

/-- What polling finds in a state. -/
def Db.awaited (db : Db) (w : String) : Option AwaitOutcome :=
  (db.workflow w).bind WorkflowRow.awaited

theorem Db.awaited_cancelled {db : Db} {w : String} (h : db.statusOf w = some .cancelled) :
    db.awaited w = some .cancelled := by
  obtain ⟨r, hr, hstatus⟩ := Option.map_eq_some_iff.1 h
  rw [Db.awaited, hr, Option.bind_some, WorkflowRow.awaited_cancelled hstatus]

section

variable {valid : DbMoment → (q : Ask) → q.Ans → Bool} {P : DbMoment → Prop} {m : DbMoment}
variable {τ : DbTrace} {w : String}

/-- A session whose statements are sent in states that satisfy `P`. -/
def awaitSpec (valid : DbMoment → (q : Ask) → q.Ans → Bool) (P : DbMoment → Prop) : DbSpec where
  rely := Moment.Before
  rely_refl := Moment.Before.refl
  rely_trans := Moment.Before.trans
  valid := valid
  guar _ _ := True
  issue _ _ b := P b

theorem ignoresReads_awaitSpec : IgnoresReads (awaitSpec valid P) :=
  ⟨fun m ↦ Moment.before_after server m [], fun _ _ _ ↦ trivial⟩

/-- What a polling call comes back with, by induction on the polls: the last poll found it. -/
theorem wpM_awaitWorkflowResult (polls : ℕ) :
    wpM (awaitSpec valid P) (awaitWorkflowResult w polls)
      (fun outcome _ _ _ ↦ polls = 0 ∧ outcome = none ∨ ∃ b, P b ∧ b.db.awaited w = outcome)
      (fun e _ _ _ ↦ ∃ err, e = .ofSql err) .idle m τ := by
  induction polls generalizing m τ with
  | zero => exact wpM_pure fun _ _ ↦ Or.inl ⟨rfl, rfl⟩
  | succ polls ih =>
    refine wpM_bind (wpM_mono (wpM_read_sent ignoresReads_awaitSpec
      (g := fun db ↦ (db.workflow w).map fun r ↦
        ⟨r.status, r.output, r.error, r.recoveryAttempts, r.serialization⟩) fun _ ↦ rfl) ?_
      fun _ _ _ _ he ↦ he.2.2)
    rintro found c m₂ τ₂ ⟨rfl, b, m₁, -, hsent, -, -, rfl, -⟩
    have hfound : ((b.db.workflow w).map fun r : WorkflowRow ↦ (⟨r.status, r.output, r.error,
        r.recoveryAttempts, r.serialization⟩ : AwaitRow)).bind AwaitRow.outcome =
          b.db.awaited w := by
      cases hrow : b.db.workflow w with
      | none => rw [Db.awaited, hrow, Option.map_none, Option.bind_none, Option.bind_none]
      | some r => rw [Db.awaited, hrow, Option.map_some, Option.bind_some, Option.bind_some,
          WorkflowRow.awaited]
    rw [hfound]
    cases hout : b.db.awaited w with
    | none =>
      refine wpM_mono ih ?_ fun _ _ _ _ he ↦ he
      rintro outcome c m τ (⟨-, rfl⟩ | hlater)
      · exact Or.inr ⟨b, hsent, hout⟩
      · exact Or.inr hlater
    | some out => exact wpM_pure fun _ _ ↦ Or.inr ⟨b, hsent, hout⟩

/-- The result of a handle: the one its task sent, or what a row of the workflow says. -/
def Reported [SerdeJson] {R : Type} [Serde R] (P : DbMoment → Prop) (handle : WorkflowHandle)
    (sent : Option (Except DbosError String)) (result : Except DbosError R) : Prop :=
  handle.kind = .owned ∧ sent.map (sentResult R) = some result ∨
    ∃ b r, P b ∧ b.db.workflow handle.id = some r ∧ r.polledResult R handle.id = some result

theorem Db.polledResult_of_awaited [SerdeJson] {R : Type} [Serde R] {db : Db} {out : AwaitOutcome}
    (h : db.awaited w = some out) :
    ∃ r, db.workflow w = some r ∧ r.polledResult R w = some (out.result R w) := by
  obtain ⟨r, hr, hout⟩ := Option.bind_eq_some_iff.1 h
  exact ⟨r, hr, (congrArg (Option.map fun out ↦ out.result R w) hout :)⟩

theorem wpM_reported [SerdeJson] {R : Type} [Serde R] {handle : WorkflowHandle}
    {sent : Option (Except DbosError String)} {result : Except DbosError R} {c : DbConn}
    (h : Reported P handle sent result) :
    wpM (awaitSpec valid P) (ofExcept (result.map some))
      (fun found _ _ _ ↦ ∀ v, found = some v → Reported P handle sent (.ok v))
      (fun e _ _ _ ↦ Reported (R := R) P handle sent (.error e) ∨ ∃ err, e = .ofSql err)
      c m τ := by
  cases result with
  | ok v =>
    refine wpM_ofExcept (fun found _ hfound _ w hw ↦ ?_) fun e _ he _ ↦ by cases he
    subst hw
    cases hfound
    exact h
  | error e =>
    refine wpM_ofExcept (fun found _ hfound _ ↦ by cases hfound) fun e' _ he _ ↦ ?_
    cases he
    exact Or.inl h

/-- What `get_result` comes back with, for either kind of handle. -/
theorem wpM_getResult [SerdeJson] {R : Type} [Serde R] (handle : WorkflowHandle)
    (sent : Option (Except DbosError String)) (polls : ℕ) :
    wpM (awaitSpec valid P) (getResult R handle sent polls)
      (fun found _ _ _ ↦ ∀ v, found = some v → Reported P handle sent (.ok v))
      (fun e _ _ _ ↦ Reported (R := R) P handle sent (.error e) ∨ ∃ err, e = .ofSql err)
      .idle m τ := by
  unfold getResult
  split
  next sent hkind => exact wpM_reported (Or.inl ⟨hkind, rfl⟩)
  next =>
    refine wpM_bind (wpM_mono (wpM_awaitWorkflowResult polls) ?_ fun _ _ _ _ he ↦ Or.inr he)
    intro found c m τ hfound
    cases found with
    | none => exact wpM_pure fun _ _ v hv ↦ by cases hv
    | some out =>
      obtain ⟨-, hnone⟩ | ⟨b, hb, hout⟩ := hfound
      · cases hnone
      obtain ⟨r, hr, hresult⟩ := Db.polledResult_of_awaited (R := R) hout
      exact wpM_reported (Or.inr ⟨b, r, hb, hr, hresult⟩)

end

section

variable [SerdeJson] {V : Type} {valid : DbMoment → (q : Ask) → q.Ans → Bool}
variable {executor : ℕ → DbosInner} {ops : ℕ → Operation V} {db₀ : Db} {time : ℤ}
variable {S₀ S : RuntimeSystem V} {i : ℕ} {w : String} {polls : ℕ}

/-- What a polling call has come back with: what the row of the workflow stands for in a state
between the start of the call and its end, unless it never polled or the database failed. -/
theorem awaited_row
    (h₀ : Run (System.step server valid) (fun _ l ↦ Carries executor ops l)
      (System.init db₀ time) S₀)
    (hnew : S₀.unused i = true) (hop : ops i = .call (.awaitResult w polls))
    (h : Run (System.step server valid) (fun _ l ↦ Carries executor ops l) S₀ S)
    {r : OperationResult V} (hret : Returned S i r) :
    polls = 0 ∧ r.2 = .ok (.call (.polled w none)) ∨
    (∃ m, System.Shows server db₀ S.history m ∧ S₀.moment.xid ≤ m.xid ∧
      r.2 = .ok (.call (.polled w (m.db.awaited w)))) ∨
    ∃ err, r.2 = .error (.ofSql err) := by
  have hC₀ := System.consistent_of_run h₀
  obtain ⟨hshows₀, hrun⟩ := System.run_to_from hC₀ h
  let P : DbMoment → Prop := fun b ↦
    System.Shows server db₀ S.history b ∧ S₀.moment.xid ≤ b.xid
  let Q : DbPost (OperationResult V) := fun r _ _ _ ↦
    polls = 0 ∧ r.2 = .ok (.call (.polled w none)) ∨
    (∃ m, P m ∧ r.2 = .ok (.call (.polled w (m.db.awaited w)))) ∨
    ∃ err, r.2 = .error (.ofSql err)
  have hspawn : ∀ m : DbMoment,
      wp server (awaitSpec valid P) ((ops i).program (executor i)) Q .idle m {} := by
    intro m
    rw [hop]
    refine wp_program (wpM_map (wpM_map (wpM_mono (wpM_awaitWorkflowResult polls) ?_ ?_)))
    · rintro outcome c m τ (⟨hzero, rfl⟩ | ⟨b, hb, rfl⟩)
      · exact Or.inl ⟨hzero, rfl⟩
      · exact Or.inr (Or.inl ⟨b, hb, rfl⟩)
    · rintro e c m τ ⟨err, rfl⟩
      exact Or.inr (Or.inr ⟨err, rfl⟩)
  obtain ⟨-, -, Γ, Q', -, hQ, hS, -⟩ := System.sound_session_from (E := server)
    (awaitSpec valid P) Q (i := i) (P := fun S₁ ↦ P S₁.moment) rfl (fun _ _ _ _ ↦ trivial) h₀ hnew
    ⟨hshows₀, le_rfl⟩
    (fun S₁ p _ hok ↦ by
      rw [hok.1 i p rfl]
      exact hspawn S₁.moment)
    (fun S₁ l S₂ hP hok hs ↦ ⟨hok.2 S₂ hs, hP.2.trans (System.steps_of_step hs).before.2.1⟩)
    (fun _ _ _ _ hbefore ↦ hbefore) hrun fun _ _ _ hP ↦ hP
  obtain ⟨s, hs, hprog⟩ := hret
  have hpost := hS.returned hs hprog
  rw [hQ] at hpost
  refine hpost.imp_right (Or.imp_left ?_)
  rintro ⟨m, hm, hfound⟩
  exact ⟨m, hm.1, hm.2, hfound⟩

end

end Dbos
