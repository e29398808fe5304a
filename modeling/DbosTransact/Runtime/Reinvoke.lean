import DbosTransact.Runtime.Invoke

/-!
# Invoking a workflow again

What is left of a row when a workflow that exists is started or enqueued once more and the caller
gets a polling handle. The upsert of such a call touches `updated_at`, and that of a start takes
over `executor_id`; no other column and no other row changes (`reinvocation_touches`).

An enqueue does not look at whether its upsert has found the workflow beyond the limit of the
*caller*, so it may dead-letter a `PENDING` row and still return a handle. The theorem says nothing
about rows that the caller's limit is too small for.
-/

namespace Dbos

open Txn

/-- Whether a row is one that an enqueue with this limit dead-letters. -/
def WorkflowRow.exceeds (row : WorkflowRow) (maxRetries : ℤ) : Bool :=
  row.status = .pending && 0 < maxRetries && asI64 (maxRetries + 1) < row.recoveryAttempts

section

variable [SerdeJson] {V : Type}

/-- The limit an enqueue brings along. -/
def Operation.enqueueLimit (inner : DbosInner) : Operation V → Option ℤ
  | call (.enqueue _ name _ _) => (inner.registry name).map RegistryEntry.maxRetries
  | call (.clientEnqueue ..) => some 100
  | _ => none

/-- The row after a call has invoked its workflow again at `now`: an enqueue leaves the executor. -/
def WorkflowRow.touch (row : WorkflowRow) (inner : DbosInner) (op : Operation V) (now : ℤ) :
    WorkflowRow :=
  { row with
    updatedAt := now
    executorId := if (op.enqueueLimit inner).isSome then row.executorId else some inner.executorId }

/-- The transaction of the call: of an enqueue with its limit, or of a start within its limit. -/
structure InvokesBy (inner : DbosInner) (op : Operation V) (u : Upsert) : Prop where
  increment : u.input.increment = 0
  kind : (u.input.status.isQueued = true ∧ op.enqueueLimit inner = some u.maxRetries) ∨
    (u.input.status = .pending ∧ u.input.executorId = inner.executorId ∧ u.exceeds = false ∧
      op.enqueueLimit inner = none)

/-- The trace of a session that has invoked a workflow, or has found its child recorded: whatever it
has written it wrote in transactions of upserts of this workflow. -/
def InvokedAs (inner : DbosInner) (op : Operation V) (id : String) (τ : DbTrace) : Prop :=
  ∀ e ∈ τ.effects, e.writes = [] ∨
    ∃ u : Upsert, u.Commits e ∧ u.input.workflowId = id ∧ InvokesBy inner op u

/-- The session has written nothing. -/
def WritesNothing (τ : DbTrace) : Prop := ∀ e ∈ τ.effects, e.writes = []

/-- What is known of a session that has returned a handle. -/
def InvokePost (inner : DbosInner) (r : OperationResult V) (τ : DbTrace) : Prop :=
  ∀ g, r.handle = some g → InvokedAs inner r.1 g.id τ

variable {inner : DbosInner} {op : Operation V} {u : Upsert} {row : WorkflowRow}

omit [SerdeJson] in
/-- The upsert of a call leaves a row that is there as `touch` says. -/
theorem InvokesBy.final (h : InvokesBy inner op u) (hold : u.old = some row)
    (hlimit : ∀ limit ∈ op.enqueueLimit inner, row.exceeds limit = false) :
    ∃ now, u.final = row.touch inner op now := by
  have hrow : u.row = row.touch inner op u.input.updatedAt := by
    rw [Upsert.row, hold]
    rcases h.kind with ⟨hqueued, hlimit⟩ | ⟨hpending, hexecutor, -, hnone⟩
    · simp [InsertWorkflowInput.onConflict, WorkflowRow.touch, hqueued, hlimit]
    · simp [InsertWorkflowInput.onConflict, WorkflowRow.touch, hpending, hexecutor, hnone,
        WorkflowStatusType.isQueued, h.increment]
  refine ⟨u.input.updatedAt, ?_⟩
  rw [Upsert.final, if_neg, hrow]
  rw [Bool.and_eq_true, decide_eq_true_eq]
  rintro ⟨hexceeds, hpending⟩
  rcases h.kind with ⟨-, hsome⟩ | ⟨-, -, hfine, -⟩
  · -- the enqueue would dead-letter the row
    have hfine := hlimit _ hsome
    rw [Upsert.exceeds, hrow] at hexceeds
    rw [hrow] at hpending
    have hstatus : row.status = .pending := hpending
    simp only [exceedsAttempts, WorkflowRow.touch, Bool.and_eq_true, decide_eq_true_eq] at hexceeds
    obtain ⟨⟨-, hpos⟩, hlt⟩ := hexceeds
    rw [WorkflowRow.exceeds, hstatus, decide_eq_true rfl, decide_eq_true hpos,
      decide_eq_true (of_decide_eq_true hlt)] at hfine
    cases hfine
  · rw [hexceeds] at hfine
    cases hfine

/-! ### The calls -/

variable {valid : DbMoment → (q : Ask) → q.Ans → Bool} {m : DbMoment} {τ : DbTrace}

omit [SerdeJson] in
/-- The one transaction that writes is that of an upsert. -/
theorem InvokedAs.of_commit {τ' : DbTrace} {e : DbEffect} (hnew : WritesNothing τ)
    (heffects : τ'.effects = τ.effects ++ [e]) (hcommits : u.Commits e)
    (hinvokes : InvokesBy inner op u) : InvokedAs inner op u.input.workflowId τ' := by
  intro e' he'
  rw [heffects, List.mem_append, List.mem_singleton] at he'
  rcases he' with he' | rfl
  · exact Or.inl (hnew e' he')
  · exact Or.inr ⟨u, hcommits, rfl, hinvokes⟩

theorem wpM_invoke_start (op : Operation V) {name : String} {encodedInput : Option String}
    {opts : WorkflowOptions} {parent : Option (WorkflowState × ℕ)} {fmt : Format}
    (hop : op.enqueueLimit inner = none) (hnew : WritesNothing τ) :
    wpM (freeSpec valid) (startWorkflow inner name encodedInput opts parent fmt false)
      (fun g _ _ τ' ↦ InvokedAs inner op g.id τ') (fun _ _ _ _ ↦ True) .idle m τ := by
  refine wpM_mono (wpM_startWorkflow (fun _ _ _ ↦ trivial) (fun _ _ _ _ _ _ _ _ ↦ trivial)
    fun _ _ _ _ _ _ _ _ ↦ trivial) ?_ fun _ _ _ _ _ ↦ trivial
  rintro g c m τ' ⟨-, u, e, τ₁, hstarts, hid, hexceeds, hstarted, hcase⟩
  obtain ⟨entry, ownerXid, now, -, -, hinput⟩ := hstarts.input
  have hinvokes : InvokesBy inner op u := by
    refine ⟨by rw [hinput]; rfl, Or.inr ⟨by rw [hinput]; rfl, by rw [hinput]; rfl, hexceeds, hop⟩⟩
  rw [hid]
  refine InvokedAs.of_commit hnew ?_ hstarted.commits hinvokes
  rcases hcase with ⟨-, -, rfl⟩ | ⟨-, -, -, -, rfl⟩
  · exact hstarted.adds.effects
  · exact hstarted.adds.effects

omit [SerdeJson] in
theorem wpM_invoke_enqueue {given : Option String}
    {input : String → ℤ → String → InsertWorkflowInput} {maxRetries : ℤ} {queueName : String}
    {deduplicationId : Option String} (hop : op.enqueueLimit inner = some maxRetries)
    (hinput : ∀ id now xid, (input id now xid).workflowId = id ∧
      (input id now xid).status.isQueued = true ∧ (input id now xid).increment = 0) :
    wpM (freeSpec valid) (do
      let id ← match given with
        | some id => pure id
        | none => ask .newUuid
      let now ← ask .now
      let xid ← ask .newUuid
      enqueueInsert (input id now xid) maxRetries queueName deduplicationId)
      (fun g _ _ τ' ↦ InvokedAs inner op g.id τ') (fun _ _ _ _ ↦ True) .idle m {} := by
  refine wpM_mono (wpM_enqueue (fun _ _ _ ↦ trivial) (fun _ _ _ ↦ (hinput _ _ _).1)
    fun _ _ _ _ _ _ _ _ _ _ _ ↦ trivial) ?_ fun _ _ _ _ _ ↦ trivial
  rintro g c m' τ' ⟨-, id, now, xid, rfl, -, u, e, hu, rfl, hcommits, -, hadds⟩
  obtain ⟨hid, hstatus, hincrement⟩ := hinput id now xid
  rw [← hu] at hid hstatus hincrement
  subst hid
  exact InvokedAs.of_commit (fun _ he ↦ by cases he) hadds.effects hcommits
    ⟨hincrement, Or.inl ⟨hstatus, hop⟩⟩

omit [SerdeJson] in
theorem wpM_invoke_enqueueWorkflow (inner : DbosInner) {queueName name : String}
    {input : Option String} {opts : EnqueueOptions}
    (hop : op = .call (.enqueue queueName name input opts)) :
    wpM (freeSpec valid) (enqueueWorkflow inner queueName name input opts)
      (fun g _ _ τ ↦ InvokedAs inner op g.id τ) (fun _ _ _ _ ↦ True) .idle m {} := by
  subst hop
  rw [enqueueWorkflow]
  split
  · exact wpM_throw fun _ _ ↦ trivial
  · rename_i entry hentry
    refine wpM_invoke_enqueue ?_ fun _ _ _ ↦ ⟨rfl, isQueued_enqueueStatus opts.delay, rfl⟩
    rw [Operation.enqueueLimit, hentry]
    rfl

omit [SerdeJson] in
theorem wpM_invoke_clientEnqueue (inner : DbosInner) {queueName name encoded : String}
    {opts : EnqueueOptions}
    (hop : op = .call (.clientEnqueue queueName name encoded opts)) :
    wpM (freeSpec valid) (clientEnqueue queueName name encoded opts)
      (fun g _ _ τ ↦ InvokedAs inner op g.id τ) (fun _ _ _ _ ↦ True) .idle m {} := by
  subst hop
  exact wpM_invoke_enqueue rfl fun _ _ _ ↦ ⟨rfl, isQueued_enqueueStatus opts.delay, rfl⟩

/-- A child is started, or found recorded. -/
theorem wpM_invoke_child (op : Operation V) {P : Type} [Serde P] (ctx : WorkflowContext)
    (hctx : ctx.inner = inner) (hop : op.enqueueLimit inner = none) (stepId : ℕ) (name : String)
    (input : P) (opts : WorkflowOptions) :
    wpM (freeSpec valid) (ctx.runWorkflow stepId name input opts)
      (fun g _ _ τ ↦ InvokedAs inner op g.id τ) (fun _ _ _ _ ↦ True) .idle m {} := by
  subst hctx
  rw [WorkflowContext.runWorkflow]
  split
  · exact wpM_throw fun _ _ ↦ trivial
  refine wpM_bind (wpM_mono (Q := fun _ c _ τ ↦ c = .idle ∧ WritesNothing τ) ?_ ?_
    fun _ _ _ _ h ↦ h)
  · refine wpM_query_idle (fun _ _ _ _ _ _ _ _ ↦ trivial) fun b m₁ v a ch _ _ _ hrun ↦
      ⟨trivial, wpM_pure fun _ _ ↦ ⟨rfl, ?_⟩, fun _ _ _ _ ↦ trivial⟩
    obtain rfl : [] = ch := (Outcome.done.inj hrun).2
    rintro e he
    obtain rfl := List.mem_singleton.1 he
    rfl
  · rintro (- | child) c m τ ⟨rfl, hnew⟩
    · refine wpM_bind (wpM_ofExcept (fun encoded m₁ _ _ ↦ ?_) fun _ _ _ _ ↦ trivial)
      exact wpM_invoke_start op hop hnew
    · exact wpM_pure fun _ _ e he ↦ Or.inl (hnew e he)

/-- Every operation that returns a handle has invoked its workflow. -/
theorem wp_invoke_program (op : Operation V) :
    wp server (freeSpec valid) (op.program inner) (fun r _ _ τ ↦ InvokePost inner r τ) .idle m
      {} := by
  have fails : ∀ e τ, InvokePost inner (op, .error e) τ := by
    intro e τ g hg
    rw [OperationResult.handle_error] at hg
    cases hg
  refine wp_program ?_
  by_cases hstarts : op.starts = true
  · cases op with
    | call c =>
      refine wpM_map ?_
      cases c with
      | runWorkflow name input opts parent =>
        refine wpM_map (wpM_mono (wpM_invoke_start
          (.call (.runWorkflow name input opts parent) : Operation V) rfl
          fun _ he ↦ by cases he) ?_ fun e _ _ τ _ ↦ fails e τ)
        rintro h c m τ hinvoked g hg
        cases hg
        exact hinvoked
      | enqueue queueName name input opts =>
        refine wpM_map (wpM_mono (wpM_invoke_enqueueWorkflow (V := V) inner rfl) ?_ fun e _ _ τ _ ↦
          fails e τ)
        rintro h c m τ hinvoked g hg
        cases hg
        exact hinvoked
      | clientEnqueue queueName name encoded opts =>
        refine wpM_map (wpM_mono (wpM_invoke_clientEnqueue (V := V) inner rfl) ?_ fun e _ _ τ _ ↦
          fails e τ)
        rintro h c m τ hinvoked g hg
        cases hg
        exact hinvoked
      | pollQueue queue =>
        refine wpM_map (wpM_mono (wpM_true _) (fun _ _ _ τ _ g hg ↦ ?_) fun e _ _ τ _ ↦ fails e τ)
        cases hg
      | recover executorIds =>
        refine wpM_map (wpM_mono (wpM_true _) (fun _ _ _ τ _ g hg ↦ ?_) fun e _ _ τ _ ↦ fails e τ)
        cases hg
      | _ => cases hstarts
    | durable state withinStep stepId inv =>
      refine wpM_map ?_
      cases inv with
      | runWorkflow name codec input opts =>
        refine wpM_map (wpM_mono (wpM_invoke_child
          (.durable state withinStep stepId (.runWorkflow name codec input opts))
          ⟨inner, state, withinStep⟩ rfl rfl stepId name input opts) ?_ fun e _ _ τ _ ↦ fails e τ)
        rintro h c m τ hinvoked g hg
        cases hg
        exact hinvoked
      | _ => cases hstarts
    | _ => cases hstarts
  · refine wpM_mono (wpM_true _) (fun v _ _ τ _ g hg ↦ ?_) fun e _ _ τ _ ↦ fails e τ
    rw [OperationResult.handle, if_neg hstarts] at hg
    cases hg

/-! ### Runs -/

variable {executor : ℕ → DbosInner} {db₀ : Db} {time : ℤ} {S : RuntimeSystem V}

/-- **Re-invocation.** In every run of operations, what a call that has returned a handle to a
workflow has changed of rows of workflows is this: it has touched the row of the workflow if that
was there, unless it is an enqueue whose limit the row exceeds. All other rows are as they were. -/
theorem reinvocation_touches
    (h : Run (System.step server valid) (RuntimeStep executor) (System.init db₀ time) S)
    {i : ℕ} {r : OperationResult V} {g : WorkflowHandle} (hret : Returned S i r)
    (hg : r.handle = some g) {n : ℕ} {c : Commit Db Key Row Stmt} (hc : S.history[n]? = some c)
    (hi : c.session = i) :
    (∀ id ≠ g.id, (System.stateAt server db₀ S.history (n + 1)).workflow id =
      (System.stateAt server db₀ S.history n).workflow id) ∧
    ∀ row, (System.stateAt server db₀ S.history n).workflow g.id = some row →
      (∀ limit ∈ r.1.enqueueLimit (executor i), row.exceeds limit = false) →
      (System.stateAt server db₀ S.history (n + 1)).workflow g.id = some row ∨
        ∃ now, (System.stateAt server db₀ S.history (n + 1)).workflow g.id =
          some (row.touch (executor i) r.1 now) := by
  obtain ⟨s, hs, hprog⟩ := hret
  have hC := System.consistent_of_run h
  have hS : System.Sound server (fun _ ↦ freeSpec valid)
      (fun j r _ _ τ ↦ InvokePost (executor j) r τ) S := by
    refine System.sound_of_run (fun _ _ _ ↦ id) (fun _ ↦ rfl) (fun _ ↦ trivial) ?_ h
    rintro S j p hp m
    obtain ⟨op, rfl⟩ := hp j p rfl
    exact wp_invoke_program op
  have hbefore : c.moment.db = System.stateAt server db₀ S.history n := by
    obtain ⟨hxid, -, hshows, -, -⟩ := hC.commit hc
    rw [hshows.db, hxid]
  have hafter : System.stateAt server db₀ S.history (n + 1) =
      server.apply c.moment.db c.writes := by
    rw [System.stateAt_succ db₀ hc, hbefore]
  have hmem : c.toEffect ∈ (S.traceOf i).effects :=
    System.mem_effects_traceOf.2 ⟨c, List.mem_of_getElem? hc, hi, rfl⟩
  rw [hafter, ← hbefore]
  rcases hS.returned hs hprog g hg c.toEffect hmem with hnone | ⟨u, hcommits, hid, hinvokes⟩
  · rw [show c.writes = [] from hnone]
    exact ⟨fun _ _ ↦ rfl, fun row hrow _ ↦ Or.inl hrow⟩
  · refine ⟨fun id hne ↦ ?_, fun row hrow hlimit ↦ Or.inr ?_⟩
    · refine server.look_apply_of_forall_ne (k := .workflowStatus id) fun w hw heq ↦ ?_
      exact hne ((hcommits.key hw heq).1.trans hid)
    · obtain ⟨now, hfinal⟩ := hinvokes.final (hcommits.old.symm.trans (hid ▸ hrow)) hlimit
      exact ⟨now, by rw [← hid, ← hfinal]; exact hcommits.after⟩

end

/-! ### A workflow started again elsewhere -/

section

local instance restartJson : SerdeJson := JsonText.jsonText

/-- Session 0 runs on executor `a`, and session 1 on `b`. -/
def executorAB (i : ℕ) : DbosInner := if i = 0 then anyName "a" else anyName "b"

/-- The start of `w`. -/
def startW : Operation ℤ := .call (.runWorkflow "f" none { workflowId := some "w" } none)

/-- Session 0 starts `w`, and then session 1 starts it on another executor. -/
def startTwice : List (RuntimeLabel ℤ) :=
  [.spawn 0 (startW.program (executorAB 0)), .spawn 1 (startW.program (executorAB 1)),
    .answer 0 (answersAt 1 ""), .answer 0 (answersAt 1 "x"),
    .answer 1 (answersAt 1 ""), .answer 1 (answersAt 1 "y")] ++
  commandOne 0 ++ sendOne 0 ++ commandOne 0 ++ commandOne 0 ++ answerOne 0 2 ++
  commandOne 1 ++ sendOne 1 ++ commandOne 1 ++ commandOne 1

/-- Whether a session has returned a polling handle to the workflow. -/
def returnedPolling (id : String)
    (s : Session Db Key Row Stmt Stmt.Res SqlError Ask Ask.Ans (OperationResult ℤ)) : Bool :=
  match s.prog with
  | .pure r => r.handle = some ⟨id, .polling⟩
  | _ => false

theorem exists_of_returnedPolling {id : String} {S : RuntimeSystem ℤ} {i : ℕ}
    (h : (S.sessions.lookup i).any (returnedPolling id) = true) :
    ∃ r, Returned S i r ∧ r.handle = some ⟨id, .polling⟩ := by
  obtain ⟨s, hs, hret⟩ := (Option.any_eq_true _ _).1 h
  unfold returnedPolling at hret
  split at hret
  · rename_i r hprog
    exact ⟨r, ⟨s, hs, hprog⟩, of_decide_eq_true hret⟩
  · cases hret

/-- The executor of the workflow after `n` transactions. -/
def executorOf (S : RuntimeSystem ℤ) (n : ℕ) (id : String) : Option String :=
  ((System.stateAt server {} S.history n).workflow id).bind WorkflowRow.executorId

theorem startTwice_run : (exec (System.step server fun _ _ _ ↦ true) (System.init {} 0)
    startTwice).any (fun S ↦ (S.sessions.lookup 1).any (returnedPolling "w") &&
      (S.history[1]?).any (fun c ↦ c.session = 1) && executorOf S 1 "w" = some "a" &&
        executorOf S 2 "w" = some "b") = true := by
  decide +kernel

theorem reinvocation_touches_startTwice : ∃ S r c, exec (System.step server fun _ _ _ ↦ true)
      (System.init {} 0) startTwice = some S ∧ Returned S 1 r ∧
    r.handle = some ⟨"w", .polling⟩ ∧ S.history[1]? = some c ∧ c.session = 1 ∧
    (∀ id ≠ "w", (System.stateAt server {} S.history 2).workflow id =
      (System.stateAt server {} S.history 1).workflow id) ∧
    ∀ row, (System.stateAt server {} S.history 1).workflow "w" = some row →
      (∀ limit ∈ r.1.enqueueLimit (executorAB 1), row.exceeds limit = false) →
      (System.stateAt server {} S.history 2).workflow "w" = some row ∨
        ∃ now, (System.stateAt server {} S.history 2).workflow "w" =
          some (row.touch (executorAB 1) r.1 now) := by
  have hops : ∀ S, ∀ l ∈ startTwice, RuntimeStep (V := ℤ) executorAB S l := by
    rintro S l hl i p rfl
    have hmem : (i, p) ∈ startTwice.filterMap spawnedOperation :=
      List.mem_filterMap.2 ⟨_, hl, rfl⟩
    rcases List.mem_cons.1 hmem with heq | hmem
    · cases heq
      exact ⟨_, rfl⟩
    · cases List.mem_singleton.1 hmem
      exact ⟨_, rfl⟩
  obtain ⟨S, hS, hdone⟩ := (Option.any_eq_true _ _).1 startTwice_run
  simp only [Bool.and_eq_true] at hdone
  obtain ⟨r, hret, hg⟩ := exists_of_returnedPolling hdone.1.1.1
  obtain ⟨c, hc, hi⟩ := (Option.any_eq_true _ _).1 hdone.1.1.2
  exact ⟨S, r, c, hS, hret, hg, hc, of_decide_eq_true hi,
    reinvocation_touches (Run.of_exec hS hops) hret hg hc (of_decide_eq_true hi)⟩

/-- The second start takes over the executor of a workflow that executor `a` is running. -/
theorem restart_takes_over : ∃ S r, exec (System.step server fun _ _ _ ↦ true) (System.init {} 0)
      startTwice = some S ∧ Returned S 1 r ∧ r.handle = some ⟨"w", .polling⟩ ∧
    executorOf S 1 "w" = some "a" ∧ executorOf S 2 "w" = some "b" := by
  obtain ⟨S, hS, hdone⟩ := (Option.any_eq_true _ _).1 startTwice_run
  simp only [Bool.and_eq_true, decide_eq_true_eq] at hdone
  obtain ⟨r, hret, hg⟩ := exists_of_returnedPolling hdone.1.1.1
  exact ⟨S, r, hS, hret, hg, hdone.1.2, hdone.2⟩

end

end Dbos
