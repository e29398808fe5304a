import DbosTransact.Runtime.Reinvoke

/-!
# Refused starts

A start or an enqueue can find out late that it is not wanted: its upsert may have touched a row of
another name or queue, it may have inserted a child whose step id the parent has used already, and
the index on deduplication ids may turn down its insert. `isRefusal` collects the errors it returns
then. The transaction has not been committed at that point and is rolled back at the end of its
scope, so a refused call leaves every table as it was (`refused_changes_nothing`), whatever the
other sessions do.

The second half of that theorem is about calls that are not refused. The child a parent starts and
the row that links it to the parent are written by one transaction: if there was no child before a
commit of the call, then there is one after it exactly if that commit has recorded the link. The
dead-letter update, which commits without the link, applies to a row just inserted only if the limit
of the child wraps: then the child is there, and the parent does not know of it (`child_unlinked`).
-/

namespace Dbos

open Txn

/-- The calls that start or enqueue one workflow. -/
inductive StartCall (V : Type)
  /-- `start_workflow` without a parent: a top-level run, or that of a recovered workflow. -/
  | start (name : String) (input : Option String) (opts : WorkflowOptions) (fmt : Format)
      (isRecovery : Bool)
  /-- `run_workflow` of a body, at a step of its workflow. -/
  | child (state : WorkflowState) (withinStep : Bool) (stepId : ℕ) (name : String) (codec : Serde V)
      (input : V) (opts : WorkflowOptions)
  | enqueue (queueName name : String) (input : Option String) (opts : EnqueueOptions)
  | clientEnqueue (queueName name encoded : String) (opts : EnqueueOptions)

/-- Sessions that return handles. -/
abbrev StartSystem : Type :=
  System Db Key Row Stmt Stmt.Res SqlError Ask Ask.Ans (Except DbosError WorkflowHandle)

abbrev StartLabel : Type :=
  Label Stmt Stmt.Res SqlError (Key → ℕ) Ask Ask.Ans (Except DbosError WorkflowHandle)

section

variable [SerdeJson] {V : Type}

namespace StartCall

/-- The program of a call on the executor `inner`. -/
def run (inner : DbosInner) : StartCall V → DbosM WorkflowHandle
  | start name input opts fmt isRecovery => startWorkflow inner name input opts none fmt isRecovery
  | child state withinStep stepId name codec input opts =>
    have := codec
    WorkflowContext.runWorkflow ⟨inner, state, withinStep⟩ stepId name input opts
  | enqueue queueName name input opts => enqueueWorkflow inner queueName name input opts
  | clientEnqueue queueName name encoded opts => Dbos.clientEnqueue queueName name encoded opts

/-- The parent, and the step id, at which a call records the workflow it starts. -/
def parent : StartCall V → Option (WorkflowState × ℕ)
  | child state _ stepId _ _ _ _ => some (state, stepId)
  | _ => none

/-- The id of the workflow it starts, if it has a parent. -/
def childId : StartCall V → Option String
  | child state _ stepId _ _ _ opts => some (Dbos.childId opts state.workflowId stepId)
  | _ => none

/-- The limit on the attempts of the workflow. -/
def limit (inner : DbosInner) : StartCall V → Option ℤ
  | start name _ _ _ _ => (inner.registry name).map RegistryEntry.maxRetries
  | child _ _ _ name _ _ _ => (inner.registry name).map RegistryEntry.maxRetries
  | enqueue _ name _ _ => (inner.registry name).map RegistryEntry.maxRetries
  | clientEnqueue .. => some 100

end StartCall

/-- Session `i` carries out this call, and the others do anything. -/
def CallsStart (inner : DbosInner) (call : StartCall V) (i : ℕ) (_ : StartSystem)
    (l : StartLabel) : Prop :=
  ∀ p, l = .spawn i p → p = (call.run inner).run

/-- Session `i` has returned an error that refuses its call. -/
def Refuses (S : StartSystem) (i : ℕ) : Prop :=
  ∃ s e, S.sessions.lookup i = some s ∧ s.prog = .pure (.error e) ∧ e.isRefusal = true

/-- Of the workflows that are not there, those appear that are linked to the parent by a new row. -/
def LinksNew (p : String) (n : ℕ) (before after : Db) : Prop :=
  ∀ id, before.workflow id = none → ((after.workflow id).isSome = true ↔
    before.operation p n = none ∧
      ∃ row, after.operation p n = some row ∧ row.childWorkflowId = some id)

/-- No workflow appears. -/
def NoNew (before after : Db) : Prop :=
  ∀ id, before.workflow id = none → after.workflow id = none

/-! ### One commit -/

/-- What a call commits for its parent: nothing, or the transaction of the start of the child `id`
that has linked the row to the parent unless it has exceeded its attempts; a row that was not there
has if the limit wraps. -/
def StartCommit (parent : WorkflowState × ℕ) (id : String) (limit : Option ℤ) (e : DbEffect) :
    Prop :=
  e.writes = [] ∨ ∃ (u : Upsert) (child : List DbWrite), u.Commits e ∧
    e.writes = u.writes ++ child ∧ u.Links (some parent) child ∧ u.input.workflowId = id ∧
      (u.old = none → u.exceeds = limit.any limitWraps)

/-- A row that a start inserts has exceeded its attempts if the limit wraps. -/
theorem StartsAs.exceeds_of_new {inner : DbosInner} {name : String} {encodedInput : Option String}
    {opts : WorkflowOptions} {parent : Option (WorkflowState × ℕ)} {fmt : Format}
    {isRecovery : Bool} {u : Upsert}
    (h : StartsAs inner name encodedInput opts parent fmt isRecovery u) (hold : u.old = none) :
    u.exceeds = ((inner.registry name).map RegistryEntry.maxRetries).any limitWraps := by
  obtain ⟨entry, ownerXid, now, hentry, hmax, hinput⟩ := h.input
  have hrow : u.row.recoveryAttempts = 1 ∧ u.row.status = .pending := by
    rw [Upsert.row, hold, hinput]
    exact ⟨rfl, rfl⟩
  rw [Upsert.exceeds, exceedsAttempts, hrow.1, hrow.2, hentry, Option.map_some, Option.any_some,
    limitWraps, hmax]
  rfl

section

variable {u : Upsert} {e : DbEffect} {child : List DbWrite} {p : WorkflowState} {n : ℕ}
  {id : String}

omit [SerdeJson] in
/-- The upsert does not write to `operation_outputs`. -/
theorem Upsert.key_ne_operationOutputs {w : DbWrite} (hw : w ∈ u.writes) {k : String} {n : ℕ} :
    w.key ≠ .operationOutputs k n := by
  intro heq
  rw [Upsert.writes] at hw
  rcases List.mem_cons.1 hw with rfl | hw
  · cases heq
  · split at hw
    · rw [List.mem_singleton.1 hw] at heq
      cases heq
    · cases hw

omit [SerdeJson] in
theorem Upsert.Commits.workflow_of_ne (h : u.Commits e) (hne : id ≠ u.input.workflowId) :
    (server.apply e.moment.db e.writes).workflow id = e.moment.db.workflow id :=
  server.look_apply_of_forall_ne (k := .workflowStatus id) fun _ hw heq ↦ hne (h.key hw heq).1

omit [SerdeJson] in
/-- A workflow appears if the row of the upsert was not there. -/
theorem Upsert.Commits.noNew_iff (h : u.Commits e) :
    NoNew e.moment.db (server.apply e.moment.db e.writes) ↔
      (e.moment.db.workflow u.input.workflowId).isSome = true := by
  rw [Option.isSome_iff_ne_none]
  constructor
  · intro hnone hold
    have hafter := hnone u.input.workflowId hold
    rw [h.after] at hafter
    cases hafter
  · intro hold id hid
    by_cases heq : id = u.input.workflowId
    · subst heq
      exact absurd hid hold
    · rw [h.workflow_of_ne heq, hid]

omit [SerdeJson] in
/-- Without a new record no workflow is linked. -/
theorem linksNew_of_operation_eq {before after : Db} {k : String}
    (hop : after.operation k n = before.operation k n) :
    LinksNew k n before after ↔ NoNew before after := by
  have hlink : ∀ id, ¬(before.operation k n = none ∧
      ∃ row, after.operation k n = some row ∧ row.childWorkflowId = some id) := by
    rintro id ⟨hnone, row, hrow, -⟩
    rw [hop, hnone] at hrow
    cases hrow
  refine forall₂_congr fun id hid ↦ ?_
  rw [iff_false_right (hlink id), Bool.not_eq_true, Option.isSome_eq_false_iff,
    Option.isNone_iff_eq_none]

omit [SerdeJson] in
/-- A child that is recorded appears together with its link. -/
theorem Upsert.Commits.linksNew (h : u.Commits e) {row : OperationRow}
    (hrow : row.childWorkflowId = some u.input.workflowId)
    (hwrites : e.writes = u.writes ++
      [⟨.operationOutputs p.workflowId n, none, some row, .insertOperation p.workflowId n row⟩])
    (hchain : server.Chain e.moment.db e.writes) :
    LinksNew p.workflowId n e.moment.db (server.apply e.moment.db e.writes) := by
  intro id hid
  rw [hwrites, server.chain_append] at hchain
  have hop : (server.apply e.moment.db e.writes).operation p.workflowId n = some row := by
    rw [hwrites, server.apply_append]
    exact store.look_put_self _ (.operationOutputs p.workflowId n) (some row)
  have hbefore : e.moment.db.operation p.workflowId n = none :=
    (server.look_apply_of_forall_ne (k := .operationOutputs p.workflowId n)
      fun _ hw ↦ Upsert.key_ne_operationOutputs hw).symm.trans hchain.2.1.symm
  rw [hop]
  by_cases heq : id = u.input.workflowId
  · subst heq
    rw [h.after]
    exact iff_of_true rfl ⟨hbefore, row, rfl, hrow⟩
  · rw [h.workflow_of_ne heq, hid]
    refine iff_of_false Bool.false_ne_true ?_
    rintro ⟨-, row', hrow', hchild⟩
    obtain rfl := Option.some.inj hrow'
    exact absurd (Option.some.inj (hchild.symm.trans hrow)) heq

omit [SerdeJson] in
/-- A commit without writes neither inserts nor links. -/
theorem linksNew_self (db : Db) (k : String) : LinksNew k n db db :=
  (linksNew_of_operation_eq rfl).2 fun _ hid ↦ hid

omit [SerdeJson] in
/-- The commit of a start links what it inserts exactly when the limit does not wrap, or the child
is there already. -/
theorem StartCommit.linksNew_iff {limit : Option ℤ} (h : StartCommit (p, n) id limit e)
    (hwrites : e.writes ≠ []) (hchain : server.Chain e.moment.db e.writes) :
    LinksNew p.workflowId n e.moment.db (server.apply e.moment.db e.writes) ↔
      limit.any limitWraps = false ∨ (e.moment.db.workflow id).isSome = true := by
  obtain hnone | ⟨u, child, hcommits, hwrites, hlinks, rfl, hnew⟩ := h
  · exact absurd hnone hwrites
  rw [hcommits.old] at *
  cases hlinks with
  | exceeded hex =>
    -- nothing is linked, so nothing may have been inserted
    have hop : (server.apply e.moment.db e.writes).operation p.workflowId n =
        e.moment.db.operation p.workflowId n := by
      rw [hwrites, List.append_nil]
      exact server.look_apply_of_forall_ne (k := .operationOutputs p.workflowId n)
        fun _ hw ↦ Upsert.key_ne_operationOutputs hw
    rw [linksNew_of_operation_eq hop, hcommits.noNew_iff, hcommits.old]
    refine ⟨Or.inr, fun hcond ↦ hcond.elim (fun hwraps ↦ ?_) id⟩
    rw [Option.isSome_iff_ne_none]
    intro hold
    rw [hnew hold, hwraps] at hex
    cases hex
  | child _ _ row hex hrow =>
    refine iff_of_true (hcommits.linksNew hrow hwrites hchain) ?_
    cases hold : u.old with
    | none => exact Or.inl ((hnew hold).symm.trans hex)
    | some old => exact Or.inr rfl

end

/-! ### The calls -/

variable {valid : DbMoment → (q : Ask) → q.Ans → Bool} {m : DbMoment} {τ : DbTrace}
variable {inner : DbosInner}

/-- The environment does anything, and what the session commits for a parent is the transaction of
the start of the child. -/
def startSpec (valid : DbMoment → (q : Ask) → q.Ans → Bool) (parent : Option (WorkflowState × ℕ))
    (id : Option String) (limit : Option ℤ) : DbSpec :=
  { freeSpec valid with
    guar := fun _ e ↦ ∀ p i, parent = some p → id = some i → StartCommit p i limit e }

omit [SerdeJson] in
theorem WritesNothing.adds {P : DbAnswer → Prop} {τ' : DbTrace} (h : WritesNothing τ)
    (hadds : Adds τ [] P τ') : WritesNothing τ' := by
  rw [WritesNothing, hadds.effects, List.append_nil]
  exact h

theorem wpM_refused_start {name : String} {encodedInput : Option String} {opts : WorkflowOptions}
    {parent : Option (WorkflowState × ℕ)} {fmt : Format} {isRecovery : Bool} {id : Option String}
    (hid : ∀ state n, parent = some (state, n) → id = some (childId opts state.workflowId n))
    (hnew : WritesNothing τ) :
    wpM (startSpec valid parent id ((inner.registry name).map RegistryEntry.maxRetries))
      (startWorkflow inner name encodedInput opts parent fmt isRecovery) (fun _ _ _ _ ↦ True)
      (fun e _ _ τ' ↦ e.isRefusal = true → WritesNothing τ') .idle m τ := by
  refine wpM_mono (wpM_startWorkflow_linked (fun _ _ _ ↦ trivial)
    (fun _ u e child _ _ hstarts _ hcommits hwrites hlinks ↦ ?_)
    fun _ _ _ _ _ _ _ _ ↦ trivial) (fun _ _ _ _ _ ↦ trivial) ?_
  · rintro ⟨state, n⟩ i rfl hi
    rw [hid state n rfl] at hi
    exact Or.inr ⟨u, child, hcommits, hwrites, hlinks,
      (hstarts.names.child state n rfl).trans (Option.some.inj hi), hstarts.exceeds_of_new⟩
  · rintro e c m' τ' ⟨-, -, hrefused⟩ he
    exact hnew.adds (hrefused he)

omit [SerdeJson] in
theorem wpM_refused_enqueue {limit : Option ℤ} {given : Option String}
    {input : String → ℤ → String → InsertWorkflowInput} {maxRetries : ℤ} {queueName : String}
    {deduplicationId : Option String} (hinput : ∀ id now xid, (input id now xid).workflowId = id) :
    wpM (startSpec valid none none limit) (do
      let id ← match given with
        | some id => pure id
        | none => ask .newUuid
      let now ← ask .now
      let xid ← ask .newUuid
      enqueueInsert (input id now xid) maxRetries queueName deduplicationId) (fun _ _ _ _ ↦ True)
      (fun e _ _ τ' ↦ e.isRefusal = true → WritesNothing τ') .idle m {} := by
  refine wpM_mono (wpM_enqueue (fun _ _ _ ↦ trivial) hinput
    fun _ _ _ _ _ _ _ _ _ _ _ p i hp ↦ by cases hp) (fun _ _ _ _ _ ↦ trivial) ?_
  rintro e c m' τ' ⟨-, hrefused, -⟩ he
  exact WritesNothing.adds (fun _ he ↦ by cases he) (hrefused he)

theorem wpM_refused_child {P : Type} [Serde P] (ctx : WorkflowContext) (stepId : ℕ) (name : String)
    (input : P) (opts : WorkflowOptions) :
    wpM (startSpec valid (some (ctx.state, stepId))
        (some (childId opts ctx.state.workflowId stepId))
        ((ctx.inner.registry name).map RegistryEntry.maxRetries))
      (ctx.runWorkflow stepId name input opts) (fun _ _ _ _ ↦ True)
        (fun e _ _ τ ↦ e.isRefusal = true → WritesNothing τ) .idle m {} := by
  have hnil : WritesNothing {} := fun _ he ↦ by cases he
  rw [WorkflowContext.runWorkflow]
  split
  · exact wpM_throw fun _ _ hrefusal ↦ by cases hrefusal
  refine wpM_bind (wpM_mono (Q := fun _ c _ τ ↦ c = .idle ∧ WritesNothing τ) ?_ ?_
    fun _ _ _ _ h ↦ h)
  · refine wpM_query_idle (fun _ _ _ _ _ _ _ _ _ ↦ hnil) fun b m₁ v a ch _ _ _ hrun ↦ ?_
    obtain rfl : [] = ch := (Outcome.done.inj hrun).2
    refine ⟨fun _ _ _ _ ↦ Or.inl rfl, wpM_pure fun _ _ ↦ ⟨rfl, fun e he ↦ ?_⟩, fun _ _ _ _ h ↦
      (by cases h)⟩
    obtain rfl := List.mem_singleton.1 he
    rfl
  · rintro (- | child) c m τ ⟨rfl, hnew⟩
    · refine wpM_bind (wpM_ofExcept (fun encoded m₁ _ _ ↦ ?_) fun _ _ _ _ _ ↦ hnew)
      refine wpM_refused_start (fun state n h ↦ ?_) hnew
      cases h
      rfl
    · exact wpM_pure fun _ _ ↦ trivial

theorem wpM_refused_call (call : StartCall V) :
    wpM (startSpec valid call.parent call.childId (call.limit inner)) (call.run inner)
      (fun _ _ _ _ ↦ True) (fun e _ _ τ ↦ e.isRefusal = true → WritesNothing τ) .idle m {} := by
  cases call with
  | start name input opts fmt isRecovery =>
    exact wpM_refused_start (fun _ _ h ↦ by cases h) fun _ he ↦ by cases he
  | child state withinStep stepId name codec input opts =>
    exact wpM_refused_child ⟨inner, state, withinStep⟩ stepId name input opts
  | enqueue queueName name input opts =>
    rw [StartCall.run, enqueueWorkflow]
    split
    · exact wpM_throw fun _ _ hrefusal ↦ by cases hrefusal
    · exact wpM_refused_enqueue fun _ _ _ ↦ rfl
  | clientEnqueue queueName name encoded opts => exact wpM_refused_enqueue fun _ _ _ ↦ rfl

/-! ### Runs -/

variable {db₀ : Db} {time : ℤ} {S : StartSystem} {call : StartCall V} {i : ℕ}

/-- **Refused starts change nothing.** Let a session carry out a start or an enqueue next to others
that do anything. If it returns an error that refuses its call, then none of its commits has changed
the database. Whatever it returns, a commit of a `run_workflow` of a parent inserts a row exactly if
it links this row to the parent, unless the limit of the child wraps: then only a commit that writes
nothing, or that finds the child there, keeps to this. -/
theorem refused_changes_nothing
    (h : Run (System.step server valid) (CallsStart inner call i) (System.init db₀ time) S) :
    (Refuses S i → ∀ n c, S.history[n]? = some c → c.session = i →
      System.stateAt server db₀ S.history (n + 1) = System.stateAt server db₀ S.history n) ∧
    ∀ p stepId id, call.parent = some (p, stepId) → call.childId = some id →
      ∀ n c, S.history[n]? = some c → c.session = i →
        (c.writes = [] → LinksNew p.workflowId stepId (System.stateAt server db₀ S.history n)
          (System.stateAt server db₀ S.history (n + 1))) ∧
        (c.writes ≠ [] → (LinksNew p.workflowId stepId (System.stateAt server db₀ S.history n)
          (System.stateAt server db₀ S.history (n + 1)) ↔
            (call.limit inner).any limitWraps = false ∨
              ((System.stateAt server db₀ S.history n).workflow id).isSome = true)) := by
  obtain ⟨hC, Γ, Q, hΓ, hQ, hS, hlog⟩ := System.sound_session (E := server)
    (startSpec valid call.parent call.childId (call.limit inner))
    (fun r _ _ τ ↦ ∀ e, r = .error e → e.isRefusal = true →
      WritesNothing τ) (i := i) (fun _ _ hm ↦ hm) rfl trivial (fun S p hok m ↦ by
      rw [hok p rfl]
      refine wp_mono (wpM_refused_call call) fun r c m τ hr e he ↦ ?_
      subst he
      exact hr) h
  refine ⟨?_, fun p stepId id hparent hid n c hc hi ↦ ⟨fun hnone ↦ ?_, fun hwrites ↦ ?_⟩⟩
  · rintro ⟨s, e, hs, hprog, he⟩ n c hc hi
    have hpost := hS.returned hs hprog
    rw [hQ] at hpost
    have hnone : c.writes = [] := hpost e rfl he c.toEffect
      (System.mem_effects_traceOf.2 ⟨c, List.mem_of_getElem? hc, hi, rfl⟩)
    rw [System.stateAt_succ db₀ hc, hnone]
    rfl
  · rw [System.stateAt_succ db₀ hc, hnone]
    exact linksNew_self _ _
  · obtain ⟨τ, -, -, hguar⟩ := hlog.guar hc
    rw [hi, hΓ] at hguar
    have hcommit : StartCommit (p, stepId) id (call.limit inner) c.toEffect :=
      hguar _ _ hparent hid
    rw [System.stateAt_succ db₀ hc, ← hC.before hc]
    exact hcommit.linksNew_iff hwrites (hC.commit hc).2.2.2.1

end

/-! ### A child at a step -/

section

local instance refusedJson : SerdeJson := JsonText.jsonText

/-- The body of `p` is at its first step. -/
def stepFree : Db :=
  ({} : Db).put (.workflowStatus "p") (some (startInput (anyName "a") ⟨3, none, none⟩ "f" "p" "x"
    none {} none .portable false 1).row)

/-- The body of `p` has recorded a step at its step id `0`. -/
def stepTaken : Db :=
  stepFree.put (.operationOutputs "p" 0) (some ⟨"step", some "1", none, none, some 1, some 1, none⟩)

/-- At this step id it starts a child. -/
def childAtStep : StartCall ℤ := .child ⟨"p", {}⟩ false 0 "g" inferInstance 7 {}

/-- The upsert inserts the child, and the link is recorded or turned down. -/
def childLabels : List StartLabel :=
  [.spawn 0 (childAtStep.run (anyName "a")).run, .issue 0, .finish 0 fun _ ↦ 0,
    .answer 0 (answersAt 2 "y"), .answer 0 (answersAt 2 "y"), .finish 0 fun _ ↦ 0,
    .issue 0, .finish 0 fun _ ↦ 0, .answer 0 (answersAt 2 "y"), .issue 0, .finish 0 fun _ ↦ 0,
    .finish 0 fun _ ↦ 0]

/-- Whether a session has been refused. -/
def isRefused (s : Session Db Key Row Stmt Stmt.Res SqlError Ask Ask.Ans
    (Except DbosError WorkflowHandle)) : Bool :=
  match s.prog with
  | .pure (.error e) => e.isRefusal
  | _ => false

theorem exists_of_isRefused {S : StartSystem} {i : ℕ}
    (h : (S.sessions.lookup i).any isRefused = true) : Refuses S i := by
  obtain ⟨s, hs, hrefused⟩ := (Option.any_eq_true _ _).1 h
  unfold isRefused at hrefused
  split at hrefused
  · rename_i e hprog
    exact ⟨s, e, hs, hprog, hrefused⟩
  · cases hrefused

theorem childLabels_calls :
    ∀ S, ∀ l ∈ childLabels, CallsStart (anyName "a") childAtStep 0 S l := by
  rintro S l hl p rfl
  rcases List.mem_cons.1 hl with heq | hl
  · cases heq
    rfl
  · exact absurd hl (by simp)

theorem childLabels_refused : (exec (System.step server fun _ _ _ ↦ true) (System.init stepTaken 0)
    childLabels).any (fun S ↦ (S.sessions.lookup 0).any isRefused &&
      S.history.map (fun c ↦ c.session) = [0]) = true := by
  decide +kernel

theorem childLabels_linked : (exec (System.step server fun _ _ _ ↦ true) (System.init stepFree 0)
    childLabels).any (fun S ↦ S.history.map (fun c ↦ (c.session, c.writes.isEmpty)) =
        [(0, true), (0, false)] &&
      ((System.stateAt server stepFree S.history 1).workflow "p-0").isNone &&
      ((System.stateAt server stepFree S.history 2).workflow "p-0").isSome) = true := by
  decide +kernel

theorem refused_changes_nothing_child :
    (∃ S : StartSystem,
      exec (System.step server fun _ _ _ ↦ true) (System.init stepTaken 0) childLabels = some S ∧
      Refuses S 0 ∧ S.history.length = 1 ∧
      System.stateAt server stepTaken S.history 1 = System.stateAt server stepTaken S.history 0) ∧
    ∃ S : StartSystem,
      exec (System.step server fun _ _ _ ↦ true) (System.init stepFree 0) childLabels = some S ∧
      (System.stateAt server stepFree S.history 1).workflow "p-0" = none ∧
      ((System.stateAt server stepFree S.history 2).workflow "p-0").isSome = true ∧
      LinksNew "p" 0 (System.stateAt server stepFree S.history 1)
        (System.stateAt server stepFree S.history 2) := by
  constructor
  · obtain ⟨S, hS, hdone⟩ := (Option.any_eq_true _ _).1 childLabels_refused
    rw [Bool.and_eq_true, decide_eq_true_eq] at hdone
    obtain ⟨c, hc, hi⟩ := List.map_eq_singleton_iff.1 hdone.2
    have hfirst : S.history[0]? = some c := by rw [hc]; rfl
    have hrefuses : Refuses S 0 := exists_of_isRefused hdone.1
    have hsame := (refused_changes_nothing (Run.of_exec hS childLabels_calls)).1 hrefuses
    exact ⟨S, hS, hrefuses, by rw [hc]; rfl, hsame 0 c hfirst hi⟩
  · obtain ⟨S, hS, hdone⟩ := (Option.any_eq_true _ _).1 childLabels_linked
    simp only [Bool.and_eq_true, decide_eq_true_eq, Option.isNone_iff_eq_none] at hdone
    obtain ⟨⟨hhistory, hbefore⟩, hafter⟩ := hdone
    obtain ⟨c, hc, hi, hwrites⟩ : ∃ c, S.history[1]? = some c ∧ c.session = 0 ∧
        c.writes.isEmpty = false := by
      have hmap := congrArg (fun l ↦ l[1]?) hhistory
      simp only [List.getElem?_map] at hmap
      obtain ⟨c, hc, hpair⟩ := Option.map_eq_some_iff.1 hmap
      exact ⟨c, hc, congrArg Prod.fst hpair, congrArg Prod.snd hpair⟩
    have hlinks := (refused_changes_nothing (Run.of_exec hS childLabels_calls)).2 ⟨"p", {}⟩ 0 "p-0"
      rfl (by decide) 1 c hc hi
    refine ⟨S, hS, hbefore, hafter, (hlinks.2 fun hnil ↦ ?_).2 (Or.inl (by decide))⟩
    rw [hnil] at hwrites
    cases hwrites

/-- The executor has `g` registered with the highest limit there is. -/
def wrapping : DbosInner := { anyName "a" with registry := fun _ ↦ some ⟨i64Max, none, none⟩ }

/-- The child is inserted, and dead-lettered in the same transaction. -/
def unlinkedChild : List StartLabel :=
  [.spawn 0 (childAtStep.run wrapping).run, .issue 0, .finish 0 fun _ ↦ 0,
    .answer 0 (answersAt 2 "y"), .answer 0 (answersAt 2 "y"), .finish 0 fun _ ↦ 0,
    .issue 0, .finish 0 fun _ ↦ 0, .issue 0, .finish 0 fun _ ↦ 0, .finish 0 fun _ ↦ 0]

theorem unlinkedChild_run : (exec (System.step server fun _ _ _ ↦ true) (System.init stepFree 0)
    unlinkedChild).any (fun S ↦ S.history.map (fun c ↦ c.session) = [0, 0] &&
      ((System.stateAt server stepFree S.history 1).workflow "p-0").isNone &&
      ((System.stateAt server stepFree S.history 2).workflow "p-0").isSome &&
      ((System.stateAt server stepFree S.history 2).operation "p" 0).isNone) = true := by
  decide +kernel

/-- The second commit of the call inserts the child and does not link it to the parent. -/
theorem child_unlinked : ∃ (S : StartSystem) (c : Commit Db Key Row Stmt),
    Run (System.step server fun _ _ _ ↦ true) (CallsStart wrapping childAtStep 0)
      (System.init stepFree 0) S ∧
    childAtStep.parent = some (⟨"p", {}⟩, 0) ∧ S.history[1]? = some c ∧ c.session = 0 ∧
    ¬LinksNew "p" 0 (System.stateAt server stepFree S.history 1)
      (System.stateAt server stepFree S.history 2) := by
  have hcalls : ∀ S, ∀ l ∈ unlinkedChild, CallsStart wrapping childAtStep 0 S l := by
    rintro S l hl p rfl
    rcases List.mem_cons.1 hl with heq | hl
    · cases heq
      rfl
    · exact absurd hl (by simp)
  obtain ⟨S, hS, hdone⟩ := (Option.any_eq_true _ _).1 unlinkedChild_run
  simp only [Bool.and_eq_true, decide_eq_true_eq, Option.isNone_iff_eq_none] at hdone
  obtain ⟨⟨⟨hsessions, hbefore⟩, hafter⟩, hop⟩ := hdone
  obtain ⟨c, hc, hi⟩ : ∃ c, S.history[1]? = some c ∧ c.session = 0 := by
    have hmap := congrArg (fun l ↦ l[1]?) hsessions
    simp only [List.getElem?_map] at hmap
    exact Option.map_eq_some_iff.1 hmap
  refine ⟨S, c, Run.of_exec hS hcalls, rfl, hc, hi, fun hlinks ↦ ?_⟩
  obtain ⟨-, row, hrow, -⟩ := (hlinks "p-0" hbefore).1 hafter
  rw [hop] at hrow
  cases hrow

end

end Dbos
