import DbosTransact.Runtime.Attempts
import DbosTransact.Runtime.Await
import DbosTransact.Runtime.Cancel

/-!
# The calls of a cancelled workflow

A cancellation stops no task: the body goes on until its next durable call. That call begins by
looking up its step, and the lookup reads the status of the workflow first. Once the cancellation is
committed the row stays `CANCELLED` until it is resumed or deleted, so whenever the status is read
the answer is the same (`cancelled_stays`), and the call ends there: it has committed nothing and
run no user code (`cancelled_call_fails`). What can still happen for a cancelled workflow is what
the calls that had begun before go on to do.

The start of a child does not look up its step in this way, and a step within a step runs its
closure at once; the results are about the other calls.
-/

namespace Dbos

open Txn

section

variable [SerdeJson] {V : Type}

/-- The errors of a call of a cancelled workflow: it says so, or the database failed, or the value
it was given does not encode, which `write_stream` finds out first. -/
def Invocation.Stopped (w : String) (inv : Invocation V) (e : DbosError) : Prop :=
  e = .workflowCancelled w ∨ (∃ err, e = .ofSql err) ∨
    ∃ key codec value, inv = .writeStream key codec value ∧ storedText codec value = .error e

/-- What a call goes by whose workflow `w` stays cancelled: it commits nothing and runs no user
code. -/
def cancelledSpec (valid : DbMoment → (q : Ask) → q.Ans → Bool) (w : String) : DbSpec where
  rely m m' := m.Before m' ∧
    (m.db.statusOf w = some .cancelled → m'.db.statusOf w = some .cancelled)
  rely_refl m := ⟨.refl m, id⟩
  rely_trans h h' := ⟨h.1.trans h'.1, h'.2 ∘ h.2⟩
  valid := valid
  guar _ e := e.writes = []
  may _ a := a.ask.isUserCode = false

variable {valid : DbMoment → (q : Ask) → q.Ans → Bool} {w : String} {n : ℕ} {m : DbMoment}
variable {τ : DbTrace} {inv : Invocation V}

omit [SerdeJson] in
theorem ignoresReads_cancelledSpec : IgnoresReads (cancelledSpec valid w) :=
  ⟨fun m ↦ ⟨m.before_after server [], id⟩, fun _ _ _ ↦ rfl⟩

omit [SerdeJson] in
/-- The lookup of a step of a cancelled workflow fails. -/
theorem wpM_cancelled_lookup {α : Type} {name : String} {f : Option RecordedOperation → DbosM α}
    {Q : DbPost α} {X : DbPost DbosError} (hcancelled : m.db.statusOf w = some .cancelled)
    (hX : ∀ e m τ, e = .workflowCancelled w ∨ (∃ err, e = .ofSql err) → X e .idle m τ) :
    wpM (cancelledSpec valid w) (checkOperationExecution w n name >>= f) Q X .idle m τ := by
  rw [checkOperationExecution_eq, bind_assoc]
  refine wpM_read ignoresReads_cancelledSpec (g := fun db ↦ db.statusOf w) (fun _ ↦ rfl)
    (fun e m τ _ _ ↦ hX _ m τ (Or.inr ⟨e, rfl⟩)) fun b m₁ τ₁ hb _ ↦ ?_
  rw [hb.2 hcancelled]
  exact wpM_bind (wpM_throw fun m₂ _ ↦ hX _ m₂ τ₁ (Or.inl rfl))

/-- A call of a cancelled workflow gets no reply. -/
theorem wpM_cancelled_invocation (ctx : WorkflowContext) (hctx : ctx.withinStep = false)
    (hw : ctx.state.workflowId = w) (hchild : inv.kind.isChild = false)
    (hcancelled : m.db.statusOf w = some .cancelled) :
    wpM (cancelledSpec valid w) (inv.run ctx n) (fun _ _ _ _ ↦ False)
      (fun e _ _ _ ↦ inv.Stopped w e) .idle m τ := by
  subst hw
  have hstopped : ∀ (inv : Invocation V) (e : DbosError) (m : DbMoment) (τ : DbTrace),
      e = .workflowCancelled ctx.state.workflowId ∨ (∃ err, e = .ofSql err) →
        inv.Stopped ctx.state.workflowId e :=
    fun _ _ _ _ h ↦ h.imp_right Or.inl
  -- a value that has been encoded is written by the call that closes a stream as well
  have hraw : ∀ {m τ} (inv : Invocation V) (key stepName value : String) (ser : Option String),
      m.db.statusOf ctx.state.workflowId = some .cancelled →
      wpM (cancelledSpec valid ctx.state.workflowId) (ctx.writeStreamRaw n key stepName value ser)
        (fun _ _ _ _ ↦ False) (fun e _ _ _ ↦ inv.Stopped ctx.state.workflowId e) .idle m τ := by
    intro m τ inv key stepName value ser hm
    rw [WorkflowContext.writeStreamRaw, if_neg (by simp [hctx])]
    exact wpM_cancelled_lookup hm (hstopped inv)
  cases inv with
  | runStep name codec closure =>
    refine wpM_map ?_
    rw [WorkflowContext.runStep, if_neg (by simp [hctx]), WorkflowContext.durableStep, replayStep,
      bind_assoc]
    exact wpM_cancelled_lookup hcancelled (hstopped _)
  | runStepWith name maxRetries codec closure =>
    refine wpM_map ?_
    rw [WorkflowContext.runStepWith, if_neg (by simp [hctx]), WorkflowContext.durableStep,
      replayStep, bind_assoc]
    exact wpM_cancelled_lookup hcancelled (hstopped _)
  | runWorkflow name codec input opts => cases hchild
  | send destinationId codec message topic =>
    refine wpM_map ?_
    rw [WorkflowContext.send, if_neg (by simp [hctx])]
    exact wpM_cancelled_lookup hcancelled (hstopped _)
  | recv codec topic timeout =>
    refine wpM_map ?_
    rw [WorkflowContext.recv, if_neg (by simp [hctx])]
    exact wpM_cancelled_lookup hcancelled (hstopped _)
  | setEvent key codec value =>
    refine wpM_map ?_
    rw [WorkflowContext.setEvent, if_neg (by simp [hctx])]
    exact wpM_cancelled_lookup hcancelled (hstopped _)
  | getEvent codec target key timeout =>
    refine wpM_map ?_
    rw [WorkflowContext.getEvent, if_neg (by simp [hctx])]
    exact wpM_cancelled_lookup hcancelled (hstopped _)
  | writeStream key codec value =>
    refine wpM_map (wpM_bind (wpM_ofExcept (fun text m₁ _ hm₁ ↦ ?_) fun e m₁ he _ ↦ ?_))
    · exact hraw _ key "DBOS.writeStream" text _ (hm₁.2 hcancelled)
    · exact Or.inr (Or.inr ⟨key, codec, value, rfl, he⟩)
  | closeStream key => exact wpM_map (hraw _ key "DBOS.closeStream" _ _ hcancelled)
  | sleep duration =>
    refine wpM_map ?_
    rw [WorkflowContext.sleep, if_neg (by simp [hctx]), recordSleep, sleepDeadline, bind_assoc]
    exact wpM_cancelled_lookup hcancelled (hstopped _)

/-! ### Runs -/

variable {executor : ℕ → DbosInner} {ops : ℕ → Operation V} {db₀ : Db} {time : ℤ}
variable {S₀ S : RuntimeSystem V} {i : ℕ}

/-- Nothing resumes or deletes the workflow after the state `S₀`. -/
def StaysDown (S₀ S : RuntimeSystem V) (w : String) : Prop :=
  ∀ x ∈ System.written (S.history.drop S₀.history.length),
    resumesWorkflow w x = false ∧ deletesWorkflow w x = false

/-- A cancelled workflow is found cancelled in every later state. -/
theorem cancelled_stays
    (h : Run (System.step server valid) (RuntimeStep executor) (System.init db₀ time) S)
    (hC₀ : System.Consistent server db₀ S₀) (hdown : StaysDown S₀ S w)
    (hshown : System.Shows server db₀ S.history S₀.moment)
    (hcancelled : S₀.moment.db.statusOf w = some .cancelled)
    (hm : System.Shows server db₀ S.history m) (hle : S₀.moment.xid ≤ m.xid) :
    m.db.statusOf w = some .cancelled := by
  obtain ⟨hC, hwrites⟩ := writes_of_run h
  have hlook : ∀ {db : Db}, db.statusOf w = some .cancelled ↔
      ∃ r, db.workflow w = some r ∧ r.status = .cancelled := Option.map_eq_some_iff
  rw [hshown.db] at hcancelled
  rw [hm.db, hlook]
  refine hC.keeps hle (k := .workflowStatus w)
    (P := fun row : Option WorkflowRow ↦ ∃ r, row = some r ∧ r.status = .cancelled)
    (hlook.1 hcancelled) ?_
  rintro - new s hw hmem ⟨old, rfl, hold⟩
  obtain ⟨hlegal, hruntime⟩ := hwrites _ hmem
  have hlater : (⟨.workflowStatus w, some old, new, s⟩ : DbWrite) ∈
      System.written (S.history.drop S₀.history.length) := by
    rw [← hC₀.now.1]
    obtain ⟨c, hc, hin⟩ := List.mem_flatMap.1 hw
    rw [List.drop_take] at hc
    exact List.mem_flatMap.2 ⟨c, List.mem_of_mem_take hc, hin⟩
  obtain ⟨hresume, hdelete⟩ := hdown _ hlater
  exact Stmt.Writes.cancelled hlegal hruntime hold hresume hdelete

/-- What a session keeps to that is started once workflow `w` is cancelled. -/
theorem sound_cancelled {P : DbPost (OperationResult V)}
    (h₀ : Run (System.step server valid) (fun _ l ↦ Carries executor ops l)
      (System.init db₀ time) S₀)
    (hnew : S₀.unused i = true) (hcancelled : S₀.moment.db.statusOf w = some .cancelled)
    (hspawn : ∀ m : DbMoment, m.db.statusOf w = some .cancelled →
      wp server (cancelledSpec valid w) ((ops i).program (executor i)) P .idle m {})
    (h : Run (System.step server valid) (fun _ l ↦ Carries executor ops l) S₀ S)
    (hdown : StaysDown S₀ S w) :
    ∃ Γ Q, Γ i = cancelledSpec valid w ∧ Q i = P ∧ System.Sound server Γ Q S := by
  have hC₀ := System.consistent_of_run h₀
  obtain ⟨hfirst, hrun⟩ := System.run_to_from hC₀ h
  have stays : ∀ {m : DbMoment}, System.Shows server db₀ S.history m →
      S₀.moment.xid ≤ m.xid → m.db.statusOf w = some .cancelled := fun hm hle ↦
    cancelled_stays (runtime_of_carries (h₀.trans h)) hC₀ hdown hfirst hcancelled hm hle
  obtain ⟨-, -, Γ, Q, hΓ, hQ, hS, -⟩ := System.sound_session_from (E := server)
    (cancelledSpec valid w) P
    (P := fun S₁ ↦ System.Shows server db₀ S.history S₁.moment ∧ S₀.moment.Before S₁.moment) rfl
    (fun _ _ _ _ ↦ trivial) h₀ hnew ⟨hfirst, .refl _⟩
    (fun S₁ p hS₁ hok ↦ by
      rw [hok.1 i p rfl]
      exact hspawn _ (stays hS₁.1 hS₁.2.2.1))
    (fun S₁ l S₂ hS₁ hok hs ↦ ⟨hok.2 S₂ hs, hS₁.2.trans (System.steps_of_step hs).before⟩)
    (fun S₁ S₂ hS₁ hS₂ hm ↦ ⟨hm, fun _ ↦ stays hS₂.1 hS₂.2.2.1⟩) hrun
  exact ⟨Γ, Q, hΓ, hQ, hS⟩

/-- **Calls of a cancelled workflow fail.** In state `S₀` workflow `w` is `CANCELLED`, and nothing
resumes or deletes it afterwards. A durable call of `w` that is started in `S₀` or later, outside a
step and not to start a child, next to sessions that do anything else, commits no write and runs no
user code. If it comes back, then with an error: that the workflow is cancelled, unless the database
failed or the value of a stream entry does not encode. -/
theorem cancelled_call_fails
    (h₀ : Run (System.step server valid) (fun _ l ↦ Carries executor ops l)
      (System.init db₀ time) S₀)
    (hnew : S₀.unused i = true) {state : WorkflowState}
    (hop : ops i = .durable state false n inv) (hw : state.workflowId = w)
    (hchild : inv.kind.isChild = false)
    (hcancelled : S₀.moment.db.statusOf w = some .cancelled)
    (h : Run (System.step server valid) (fun _ l ↦ Carries executor ops l) S₀ S)
    (hdown : StaysDown S₀ S w) :
    (∀ c ∈ S.history, c.session = i → c.writes = []) ∧
    (∀ a ∈ S.answers, a.1 = i → a.2.ask.isUserCode = false) ∧
    ∀ r, Returned S i r → ∃ e, r.2 = .error e ∧ inv.Stopped w e := by
  obtain ⟨Γ, Q, hΓ, hQ, hS⟩ := sound_cancelled
    (P := fun r _ _ _ ↦ ∃ e, r.2 = .error e ∧ inv.Stopped w e) h₀ hnew hcancelled
    (fun m hm ↦ by
      rw [hop]
      refine wp_program (wpM_map (wpM_mono (wpM_cancelled_invocation ⟨executor i, state, false⟩ rfl
        hw hchild hm) (fun _ _ _ _ ↦ False.elim) fun e _ _ _ he ↦ ⟨e, rfl, he⟩)) ) h hdown
  refine ⟨fun c hc hi ↦ ?_, fun a ha hi ↦ ?_, fun r ⟨s, hs, hret⟩ ↦ ?_⟩
  · obtain ⟨τ, -, -, hguar⟩ := hS.guar c hc
    rw [hi, hΓ] at hguar
    exact hguar
  · obtain ⟨τ, -, -, hmay⟩ := hS.may a ha
    rw [hi, hΓ] at hmay
    exact hmay
  · have hpost := hS.returned hs hret
    rwa [hQ] at hpost

/-- **Awaiting a cancelled workflow.** Polling that is started after the cancellation reports it
with the first poll, unless the database fails. -/
theorem cancelled_await_reports
    (h₀ : Run (System.step server valid) (fun _ l ↦ Carries executor ops l)
      (System.init db₀ time) S₀)
    (hnew : S₀.unused i = true) {polls : ℕ} (hop : ops i = .call (.awaitResult w (polls + 1)))
    (hcancelled : S₀.moment.db.statusOf w = some .cancelled)
    (h : Run (System.step server valid) (fun _ l ↦ Carries executor ops l) S₀ S)
    (hdown : StaysDown S₀ S w) {r : OperationResult V} (hret : Returned S i r) :
    r.2 = .ok (.call (.polled w (some .cancelled))) ∨ ∃ err, r.2 = .error (.ofSql err) := by
  obtain ⟨hfirst, -⟩ := System.run_to_from (System.consistent_of_run h₀) h
  rcases awaited_row h₀ hnew hop h hret with ⟨hzero, -⟩ | ⟨m, hm, hle, hfound⟩ | herr
  · cases hzero
  · have hfound' := Db.awaited_cancelled (cancelled_stays (runtime_of_carries (h₀.trans h))
      (System.consistent_of_run h₀) hdown hfirst hcancelled hm hle)
    exact Or.inl (by rw [hfound, hfound'])
  · exact Or.inr herr

end

/-! ### A body that goes on after its workflow is cancelled -/

section

local instance cancelledJson : SerdeJson := JsonText.jsonText

/-- Session 0 cancels the workflow, session 1 is a step of its body, and session 2 waits for its
outcome. -/
def cancelledOps : ℕ → Operation ℤ
  | 0 => .call (.cancel ["w"])
  | 1 => .durable ⟨"w", {}⟩ false 0 (.runStep "s" inferInstance fun _ ↦ .ok 7)
  | _ => .call (.awaitResult "w" 2)

/-- A session whose operation sends one statement. -/
def cancelledSession (i : ℕ) : List (RuntimeLabel ℤ) :=
  .spawn i ((cancelledOps i).program (anyName "a")) :: sendOne i

/-- Session 0 reads the clock before it cancels. -/
def cancelFirst : List (RuntimeLabel ℤ) :=
  .spawn 0 ((cancelledOps 0).program (anyName "a")) :: (answerOne 0 1 ++ sendOne 0)

/-- Whether the operation of the session has come back. -/
def cameBack
    (s : Session Db Key Row Stmt Stmt.Res SqlError Ask Ask.Ans (OperationResult ℤ)) : Bool :=
  match s.prog with
  | .pure _ => true
  | _ => false

theorem exists_of_cameBack {S : RuntimeSystem ℤ} {i : ℕ}
    (h : (S.sessions.lookup i).any cameBack = true) : ∃ r, Returned S i r := by
  obtain ⟨s, hs, hret⟩ := (Option.any_eq_true _ _).1 h
  unfold cameBack at hret
  split at hret
  · exact ⟨_, s, hs, by assumption⟩
  · cases hret

/-- The states after the cancellation and at the end. -/
theorem exists_cancelled_run : ∃ S₀ S, exec (System.step server fun _ _ _ ↦ true)
      (System.init oneWaiting 0) cancelFirst = some S₀ ∧
    exec (System.step server fun _ _ _ ↦ true) S₀
      (cancelledSession 1 ++ cancelledSession 2) = some S ∧
    Run (System.step server fun _ _ _ ↦ true)
      (fun _ l ↦ Carries (fun _ ↦ anyName "a") cancelledOps l) (System.init oneWaiting 0) S₀ ∧
    Run (System.step server fun _ _ _ ↦ true)
      (fun _ l ↦ Carries (fun _ ↦ anyName "a") cancelledOps l) S₀ S ∧
    S₀.unused 1 = true ∧ S₀.unused 2 = true ∧
    S₀.moment.db.statusOf "w" = some .cancelled ∧ StaysDown S₀ S "w" ∧
    (∃ r, Returned S 1 r) ∧ ∃ r, Returned S 2 r := by
  have hrun : (exec (System.step server fun _ _ _ ↦ true) (System.init oneWaiting 0)
      cancelFirst).any (fun S₀ ↦ S₀.unused 1 && S₀.unused 2 &&
        S₀.moment.db.statusOf "w" == some .cancelled &&
        (exec (System.step server fun _ _ _ ↦ true) S₀
          (cancelledSession 1 ++ cancelledSession 2)).any fun S ↦
            (System.written (S.history.drop S₀.history.length)).all (fun x ↦
              !resumesWorkflow "w" x && !deletesWorkflow "w" x) &&
            (S.sessions.lookup 1).any cameBack && (S.sessions.lookup 2).any cameBack) = true := by
    decide +kernel
  obtain ⟨S₀, hS₀, hfacts⟩ := (Option.any_eq_true _ _).1 hrun
  simp only [Bool.and_eq_true, beq_iff_eq] at hfacts
  obtain ⟨⟨⟨hone, htwo⟩, hcancelled⟩, hrest⟩ := hfacts
  obtain ⟨S, hS, hend⟩ := (Option.any_eq_true _ _).1 hrest
  simp only [Bool.and_eq_true, List.all_eq_true] at hend
  have hcarries : ∀ l ∈ cancelFirst ++ (cancelledSession 1 ++ cancelledSession 2),
      Carries (fun _ ↦ anyName "a") cancelledOps l := by
    rintro l hl i p rfl
    have hmem : (i, p) ∈ (cancelFirst ++ (cancelledSession 1 ++ cancelledSession 2)).filterMap
        spawnedOperation := List.mem_filterMap.2 ⟨_, hl, rfl⟩
    obtain ⟨j, -, heq⟩ : ∃ j ∈ [0, 1, 2], (i, p) = (j, (cancelledOps j).program (anyName "a")) := by
      rcases List.mem_cons.1 hmem with heq | hmem
      · exact ⟨0, by simp, heq⟩
      rcases List.mem_cons.1 hmem with heq | hmem
      · exact ⟨1, by simp, heq⟩
      exact ⟨2, by simp, List.mem_singleton.1 hmem⟩
    cases heq
    rfl
  exact ⟨S₀, S, hS₀, hS,
    Run.of_exec hS₀ fun _ l hl ↦ hcarries l (List.mem_append_left _ hl),
    Run.of_exec hS fun _ l hl ↦ hcarries l (List.mem_append_right _ hl), hone, htwo, hcancelled,
    fun x hx ↦ by simpa using hend.1.1 x hx, exists_of_cameBack hend.1.2,
    exists_of_cameBack hend.2⟩

theorem cancelled_call_fails_step : ∃ S₀ S r, exec (System.step server fun _ _ _ ↦ true)
      (System.init oneWaiting 0) cancelFirst = some S₀ ∧
    exec (System.step server fun _ _ _ ↦ true) S₀
      (cancelledSession 1 ++ cancelledSession 2) = some S ∧ Returned S 1 r ∧
    (∀ a ∈ S.answers, a.1 = 1 → a.2.ask.isUserCode = false) ∧ ∃ e, r.2 = .error e := by
  obtain ⟨S₀, S, hS₀, hS, h₀, h, hone, -, hcancelled, hdown, ⟨r, hret⟩, -⟩ := exists_cancelled_run
  obtain ⟨-, hcode, hfails⟩ := cancelled_call_fails h₀ hone rfl rfl rfl hcancelled h hdown
  obtain ⟨e, he, -⟩ := hfails r hret
  exact ⟨S₀, S, r, hS₀, hS, hret, hcode, e, he⟩

theorem cancelled_await_reports_first : ∃ (S : RuntimeSystem ℤ) (r : OperationResult ℤ),
    Returned S 2 r ∧ (r.2 = .ok (.call (.polled "w" (some .cancelled))) ∨
      ∃ err, r.2 = .error (.ofSql err)) := by
  obtain ⟨S₀, S, -, -, h₀, h, -, htwo, hcancelled, hdown, -, r, hret⟩ := exists_cancelled_run
  exact ⟨S, r, hret, cancelled_await_reports h₀ htwo rfl hcancelled h hdown hret⟩

end

end Dbos
