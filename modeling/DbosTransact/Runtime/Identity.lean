import DbosTransact.Runtime.Reinvoke

/-!
# The identity a body runs with

A workflow row stores the authenticated identity of the workflow, and the task that runs a body
carries one, which its children inherit. The two agree wherever `start_workflow` spawns the task: a
first run has just inserted its own identity, and a recovery starts with the one it has read from
the row. No statement changes the three columns of a row, so it does not matter when they are read.

`dispatch_dequeued` spawns the task of a claimed workflow with the empty identity, whatever the row
stores. So whatever goes through a queue, a resumed, a forked or a re-enqueued workflow too, runs
with the stored identity exactly if that is empty (`identity_carried`).
-/

namespace Dbos

open Txn

section

variable [SerdeJson]

/-! ### Stored identities -/

/-- The identity that the three columns stand for. -/
def storedIdentity (user role roles : Option String) : AuthIdentity where
  user := user
  role := role
  roles := (roles.bind decodeRoles).getD []

def WorkflowRow.identity (r : WorkflowRow) : AuthIdentity :=
  storedIdentity r.authenticatedUser r.assumedRole r.authenticatedRoles

omit [SerdeJson] in
theorem jsonStrings_map (roles : List String) : jsonStrings (roles.map .string) = some roles := by
  induction roles with
  | nil => rfl
  | cons role roles ih => simp [jsonStrings, ih]

omit [SerdeJson] in
theorem itemsPrintable_strings (roles : List String) (depth : ℕ) :
    Json.itemsPrintable (roles.map .string) depth = true := by
  induction roles with
  | nil => rfl
  | cons role roles ih => simp [Json.itemsPrintable, Json.printable, ih]

/-- The roles are read back as they were written. -/
theorem decode_encodeRoles (roles : List String) :
    ((encodeRoles roles).bind decodeRoles).getD [] = roles := by
  unfold encodeRoles
  cases roles with
  | nil => rfl
  | cons role roles =>
    have hprintable :
        (Json.array ((role :: roles).map .string)).printable Json.depthLimit = true := by
      rw [Json.printable, itemsPrintable_strings]
      rfl
    have hdecode : decodeRoles (SerdeJson.toString (.array ((role :: roles).map .string))) =
        some (role :: roles) := by
      rw [decodeRoles, SerdeJson.fromStr_toString _ hprintable]
      exact jsonStrings_map (role :: roles)
    rw [List.isEmpty_cons, if_neg Bool.false_ne_true, Option.bind_some, hdecode, Option.getD_some]

/-- An identity is stored as it is. -/
theorem storedIdentity_encode (auth : AuthIdentity) :
    storedIdentity auth.user auth.role (encodeRoles auth.roles) = auth := by
  rw [storedIdentity, decode_encodeRoles]

/-- The identity an insert stores. -/
def InsertWorkflowInput.identity (input : InsertWorkflowInput) : AuthIdentity :=
  storedIdentity input.authenticatedUser input.assumedRole input.authenticatedRoles

theorem identity_startInput (inner : DbosInner) (entry : RegistryEntry)
    (name workflowId ownerXid : String) (encodedInput : Option String) (opts : WorkflowOptions)
    (parent : Option (WorkflowState × ℕ)) (fmt : Format) (isRecovery : Bool) (now : ℤ) :
    (startInput inner entry name workflowId ownerXid encodedInput opts parent fmt isRecovery
      now).identity = resolveAuth opts parent :=
  storedIdentity_encode _

/-- The options of a recovery resolve to the identity that was read. -/
theorem resolveAuth_recoveryOptions (id : String) (r : WorkflowRow) :
    resolveAuth (recoveryOptions (r.toRecoverable id)) none = r.identity := by
  simp [resolveAuth, recoveryOptions, WorkflowRow.toRecoverable, WorkflowRow.identity,
    storedIdentity]

/-- No statement changes the identity of a row. -/
theorem Stmt.Writes.identity {s : Stmt} {id : String} {old new : WorkflowRow}
    (h : s.Writes (.workflowStatus id) (some old) (some new)) : new.identity = old.identity := by
  cases h <;> rfl

/-! ### What entitles a task to its identity -/

/-- The row of the workflow was seen with this identity. -/
def Seen (τ : DbTrace) (id : String) (auth : AuthIdentity) : Prop :=
  ∃ e ∈ τ.effects, ∃ b ∈ e.snapshot, ∃ r, b.db.workflow id = some r ∧ auth = r.identity

/-- A start, recoveries apart, has committed an upsert with this identity. -/
def Stored (τ : DbTrace) (id : String) (auth : AuthIdentity) : Prop :=
  ∃ (u : Upsert) (e : DbEffect), e ∈ τ.effects ∧ u.Commits e ∧ u.input.workflowId = id ∧
    u.input.increment = 0 ∧ u.runs false = true ∧ auth = u.input.identity

/-- The transaction inserts workflows with this identity only. -/
def InsertsAs (auth : AuthIdentity) (e : DbEffect) : Prop :=
  ∀ id r s, (⟨.workflowStatus id, none, some r, s⟩ : DbWrite) ∈ e.writes → r.identity = auth

/-- A start spawns a task with an identity that it has seen in the row or has put there; and it
inserts what is expected of it. -/
def identitySpec (valid : DbMoment → (q : Ask) → q.Ans → Bool) (expected : Option AuthIdentity) :
    DbSpec where
  rely := Moment.Before
  rely_refl := Moment.Before.refl
  rely_trans := Moment.Before.trans
  valid := valid
  guar _ e := ∀ auth ∈ expected, InsertsAs auth e
  may τ a := ∀ task, a.ask = .spawn task →
    Seen τ task.workflowId task.auth ∨ Stored τ task.workflowId task.auth

theorem Seen.grows {τ τ' : DbTrace} {id : String} {auth : AuthIdentity} (h : Seen τ id auth)
    (hτ : τ.effects ⊆ τ'.effects) : Seen τ' id auth := by
  obtain ⟨e, he, hrest⟩ := h
  exact ⟨e, hτ he, hrest⟩

omit [SerdeJson] in
theorem Adds.effects_subset {τ τ' : DbTrace} {es : List DbEffect} {P : DbAnswer → Prop}
    (h : Adds τ es P τ') : τ.effects ⊆ τ'.effects := by
  rw [h.effects]
  exact List.subset_append_left _ _

/-- The transaction of an upsert inserts at most its own row. -/
theorem Upsert.Commits.insertsAs {u : Upsert} {e : DbEffect} (h : u.Commits e) :
    InsertsAs u.input.identity e := by
  intro id r s hw
  obtain ⟨-, hmem⟩ := h.key hw rfl
  rw [Upsert.writes] at hmem
  rcases List.mem_cons.1 hmem with heq | hmem
  · obtain ⟨-, hold, hrow, -⟩ : id = u.input.workflowId ∧ none = u.old ∧ some r = some u.row ∧
        s = .insertWorkflowStatus u.input := by simpa using heq
    rw [Option.some.inj hrow, Upsert.row, ← hold]
    rfl
  · split at hmem
    · cases List.mem_singleton.1 hmem
    · cases hmem

variable {valid : DbMoment → (q : Ask) → q.Ans → Bool} {expected : Option AuthIdentity}
variable {inner : DbosInner} {m : DbMoment} {τ : DbTrace}

theorem ignoresReads_identitySpec : IgnoresReads (identitySpec valid expected) where
  rely m := Moment.before_advance server m (some (none, []))
  guar _ _ _ _ _ _ _ _ hw := by cases hw

theorem may_identity_of_noSpawn (τ : DbTrace) {a : DbAnswer} (h : NoSpawn a) :
    (identitySpec valid expected).may τ a := fun task htask ↦ (h task htask).elim

theorem wpM_identity_start {name : String} {encodedInput : Option String} {opts : WorkflowOptions}
    {parent : Option (WorkflowState × ℕ)} {fmt : Format} {isRecovery : Bool}
    (hexpected : ∀ auth ∈ expected, resolveAuth opts parent = auth)
    (hseen : isRecovery = true → ∃ id, opts.workflowId = some id ∧
      Seen τ id (resolveAuth opts parent)) :
    wpM (identitySpec valid expected)
      (startWorkflow inner name encodedInput opts parent fmt isRecovery)
      (fun _ c _ τ' ↦ c = .idle ∧ τ.effects ⊆ τ'.effects)
      (fun _ c _ τ' ↦ c = .idle ∧ τ.effects ⊆ τ'.effects) .idle m τ := by
  refine wpM_mono (wpM_startWorkflow (fun τ _ ↦ may_identity_of_noSpawn τ) ?_ ?_) ?_ ?_
  · intro τ' u e _ _ hstarts _ hcommits auth hauth
    obtain ⟨entry, ownerXid, now, -, -, hinput⟩ := hstarts.input
    have hidentity : u.input.identity = resolveAuth opts parent := by
      rw [hinput, identity_startInput]
    rw [← hexpected auth hauth, ← hidentity]
    exact hcommits.insertsAs
  · rintro τ' u e m hadds hcommits hruns hstarts task htask
    cases htask
    cases isRecovery with
    | true =>
      obtain ⟨id, hopts, hseen⟩ := hseen rfl
      refine Or.inl ?_
      rw [startTask, hstarts.names.given id hopts]
      exact hseen.grows hadds.effects_subset
    | false =>
      obtain ⟨entry, ownerXid, now, -, -, hinput⟩ := hstarts.input
      refine Or.inr ⟨u, e, by simp [hadds.effects], hcommits, rfl, by rw [hinput]; rfl, hruns, ?_⟩
      rw [hinput, identity_startInput]
      rfl
  · rintro h c m τ' ⟨rfl, u, e, τ₁, -, -, -, hstarted, ⟨-, -, rfl⟩ | ⟨-, -, m₁, -, rfl⟩⟩
    · exact ⟨rfl, hstarted.adds.effects_subset⟩
    · exact ⟨rfl, hstarted.adds.effects_subset⟩
  · rintro e c m τ' ⟨rfl, ⟨hadds, -, -⟩ | ⟨u, e, -, hstarted, -⟩⟩
    · exact ⟨rfl, hadds.effects_subset⟩
    · exact ⟨rfl, hstarted.adds.effects_subset⟩

/-- A recovery starts workflows with the identities it has read. -/
theorem wpM_identity_recover (executorIds : List String) :
    wpM (identitySpec valid none) (recoverPendingWorkflows inner executorIds)
      (fun _ _ _ _ ↦ True) (fun _ _ _ _ ↦ True) .idle m {} := by
  have one : ∀ (wf : RecoverableWorkflow) m τ,
      Seen τ wf.id (resolveAuth (recoveryOptions wf) none) → wpM (identitySpec valid none)
        (recoverWorkflow inner wf) (fun _ c _ τ' ↦ c = .idle ∧ τ.effects ⊆ τ'.effects)
        (fun _ _ _ _ ↦ True) .idle m τ := by
    intro wf m τ hseen
    have hclear : wpM (identitySpec valid none) (clearQueueAssignment wf.id)
        (fun _ c _ τ' ↦ c = .idle ∧ τ.effects ⊆ τ'.effects)
        (fun _ c _ τ' ↦ c = .idle ∧ τ.effects ⊆ τ'.effects) .idle m τ := by
      refine wpM_query_idle (fun _ _ _ _ _ _ _ _ ↦ ⟨rfl, List.Subset.refl _⟩)
        fun _ _ _ _ _ _ _ _ _ ↦
        ⟨(fun _ h ↦ by cases h), wpM_pure fun _ _ ↦ ⟨rfl, ?_⟩, fun _ _ _ _ ↦ ⟨rfl, ?_⟩⟩
      · exact List.subset_append_left _ _
      · exact List.subset_append_left _ _
    rw [recoverWorkflow]
    split
    · refine wpM_bind (wpM_attempt (wpM_mono hclear ?_ ?_))
      · exact fun _ _ _ _ h ↦ wpM_pure fun _ _ ↦ h
      · exact fun _ _ _ _ h ↦ wpM_pure fun _ _ ↦ h
    split
    · exact wpM_pure fun _ _ ↦ ⟨rfl, List.Subset.refl _⟩
    · refine wpM_bind (wpM_attempt (wpM_mono (wpM_identity_start (fun _ h ↦ by cases h)
        fun _ ↦ ⟨wf.id, rfl, hseen⟩) ?_ ?_))
      · exact fun _ _ _ _ h ↦ wpM_pure fun _ _ ↦ h
      · exact fun _ _ _ _ h ↦ wpM_pure fun _ _ ↦ h
  have each : ∀ (wfs : List RecoverableWorkflow) m τ,
      (∀ wf ∈ wfs, Seen τ wf.id (resolveAuth (recoveryOptions wf) none)) →
      wpM (identitySpec valid none) (recoverEach inner wfs) (fun _ _ _ _ ↦ True)
        (fun _ _ _ _ ↦ True) .idle m τ := by
    intro wfs
    induction wfs with
    | nil => exact fun _ _ _ ↦ wpM_pure fun _ _ ↦ trivial
    | cons wf rest ih =>
      intro m τ hseen
      refine wpM_bind (wpM_mono (one wf m τ (hseen wf List.mem_cons_self)) ?_ fun _ _ _ _ _ ↦
        trivial)
      rintro recovered c m τ' ⟨rfl, hgrows⟩
      refine wpM_bind
        (wpM_mono (ih m τ' fun wf' hwf' ↦ ?_)
          (fun _ _ _ _ _ ↦ wpM_pure fun _ _ ↦ trivial) fun _ _ _ _ _ ↦ trivial)
      exact (hseen wf' (List.mem_cons_of_mem wf hwf')).grows hgrows
  refine wpM_bind (wpM_mono (wpM_read_sent ignoresReads_identitySpec
    (g := fun db ↦ (db.workflowStatus.select fun _ r ↦
      r.recoverable executorIds inner.applicationVersion).map fun e ↦ e.2.toRecoverable e.1)
    fun _ ↦ rfl) ?_ fun _ _ _ _ _ ↦ trivial)
  rintro wfs c m τ ⟨rfl, b, m₁, -, -, -, -, rfl, rfl⟩
  refine each _ m _ fun wf hwf ↦ ?_
  obtain ⟨⟨id, r⟩, hmem, rfl⟩ := List.mem_map.1 hwf
  obtain ⟨hr, -⟩ := Table.mem_select_iff.1 hmem
  exact ⟨_, List.mem_append_right _ List.mem_cons_self, b, rfl, r, hr,
    resolveAuth_recoveryOptions id r⟩

/-- A child inherits the identity of its parent unless its options say otherwise. -/
theorem wpM_identity_child {P : Type} [Serde P] (ctx : WorkflowContext) (stepId : ℕ) (name : String)
    (input : P) (opts : WorkflowOptions)
    (hexpected : ∀ auth ∈ expected, resolveAuth opts (some (ctx.state, stepId)) = auth) :
    wpM (identitySpec valid expected) (ctx.runWorkflow stepId name input opts)
      (fun _ _ _ _ ↦ True) (fun _ _ _ _ ↦ True) .idle m τ := by
  rw [WorkflowContext.runWorkflow]
  split
  · exact wpM_throw fun _ _ ↦ trivial
  refine wpM_bind (wpM_mono (Q := fun _ c _ _ ↦ c = .idle) ?_ ?_ fun _ _ _ _ h ↦ h)
  · exact wpM_read ignoresReads_identitySpec (g := fun db ↦
      (db.operationOutputs.lookup (ctx.state.workflowId, stepId)).map OperationRow.childWorkflowId)
      (fun _ ↦ rfl) (fun _ _ _ _ _ ↦ trivial) fun _ _ _ _ _ ↦ wpM_pure fun _ _ ↦ rfl
  · rintro (- | child) c m τ rfl
    · refine wpM_bind (wpM_ofExcept (fun encoded m₁ _ _ ↦ ?_) fun _ _ _ _ ↦ trivial)
      exact wpM_mono (wpM_identity_start hexpected (by simp)) (fun _ _ _ _ _ ↦ trivial)
        fun _ _ _ _ _ ↦ trivial
    · exact wpM_pure fun _ _ ↦ trivial

/-! ### Operations -/

variable {V : Type}

/-- The poll loop of a queue. -/
def Operation.isPoll : Operation V → Bool
  | call (.pollQueue _) => true
  | _ => false

/-- The identity a child is to inherit: that of its parent, when its options override nothing. -/
def Operation.inherits : Operation V → Option AuthIdentity
  | durable state _ _ (.runWorkflow _ _ _ opts) =>
    if opts.authenticatedUser.isNone && opts.assumedRole.isNone &&
      opts.authenticatedRoles.isNone then some state.auth
    else none
  | _ => none

omit [SerdeJson] in
theorem Operation.resolveAuth_of_inherits {state : WorkflowState} {withinStep : Bool} {n : ℕ}
    {name : String} {codec : Serde V} {input : V} {opts : WorkflowOptions} {auth : AuthIdentity}
    (h : auth ∈ (durable state withinStep n (.runWorkflow name codec input opts)).inherits) :
    resolveAuth opts (some (state, n)) = auth := by
  obtain ⟨hnone, heq⟩ := Option.ite_none_right_eq_some.1 h
  simp only [Bool.and_eq_true, Option.isNone_iff_eq_none] at hnone
  obtain ⟨⟨huser, hrole⟩, hroles⟩ := hnone
  rw [← Option.some.inj heq, resolveAuth, huser, hrole, hroles]
  rfl

/-- Every operation but a poll gives its tasks the identity of the row. -/
theorem wp_identity_program {op : Operation V} (hpoll : op.isPoll = false) :
    wp server (identitySpec valid op.inherits) (op.program inner) (fun _ _ _ _ ↦ True) .idle m
      {} := by
  by_cases hspawns : op.spawns = true
  · refine wp_program ?_
    cases op with
    | call c =>
      refine wpM_map ?_
      cases c with
      | runWorkflow name input opts parent =>
        refine wpM_map (wpM_mono (wpM_identity_start (fun _ h ↦ by cases h) (by simp)) ?_ ?_)
        · exact fun _ _ _ _ _ ↦ trivial
        · exact fun _ _ _ _ _ ↦ trivial
      | recover executorIds => exact wpM_map (wpM_identity_recover executorIds)
      | pollQueue queue => cases hpoll
      | _ => cases hspawns
    | durable state withinStep stepId inv =>
      refine wpM_map ?_
      cases inv with
      | runWorkflow name codec input opts =>
        exact wpM_map (wpM_identity_child ⟨inner, state, withinStep⟩ stepId name input opts
          fun _ ↦ Operation.resolveAuth_of_inherits)
      | _ => cases hspawns
    | _ => cases hspawns
  · have hnone : op.inherits = none := by
      cases op with
      | durable state withinStep stepId inv =>
        cases inv with
        | runWorkflow name codec input opts => exact (hspawns rfl).elim
        | _ => rfl
      | _ => rfl
    refine wp_of_all (runtime_program (A := NoTask) inner op fun h ↦ (hspawns h).elim) ?_
      (fun τ a ha ↦ may_identity_of_noSpawn τ ha) (by simp)
    intro τ e _ auth hauth
    rw [hnone] at hauth
    cases hauth

omit [SerdeJson] in
/-- A poll gives its tasks no identity. -/
theorem sends_pollQueue (queue : DequeueInput) : Sends (fun _ ↦ True) (pollQueue inner queue)
    (fun q ↦ ∀ task, q = .spawn task → task.auth = {}) := by
  have : AllowsAsking fun q ↦ ∀ task, q = Ask.spawn task → task.auth = {} :=
    ⟨fun q hq task htask ↦ (hq task htask).elim⟩
  refine (sends_dequeueWorkflows (fun _ _ ↦ trivial) _).bind fun claimed ↦ ?_
  induction claimed with
  | nil => exact sends_pure _
  | cons wf rest ih =>
    refine Sends.bind ?_ fun _ ↦ ih
    unfold dispatchDequeued
    split
    · exact sends_pure _
    · refine sends_ask_of ?_
      rintro task ⟨⟩
      rfl

/-! ### Runs -/

variable {executor : ℕ → DbosInner} {ops : ℕ → Operation V} {db₀ : Db} {time : ℤ}
variable {S : RuntimeSystem V} {id : String}

/-- The row of the workflow is never taken away. -/
def NeverDeleted (S : RuntimeSystem V) (id : String) : Prop :=
  ∀ old s, (⟨.workflowStatus id, old, none, s⟩ : DbWrite) ∉ System.written S.history

/-- The stored identity is the same in every state in which the row is there. -/
theorem identity_stays (hC : System.Consistent server db₀ S) (hkept : NeverDeleted S id) {n m : ℕ}
    {r r' : WorkflowRow} (hr : (System.stateAt server db₀ S.history n).workflow id = some r)
    (hr' : (System.stateAt server db₀ S.history m).workflow id = some r') :
    r.identity = r'.identity := by
  wlog hnm : n ≤ m generalizing n m r r'
  · exact (this hr' hr (le_of_not_ge hnm)).symm
  obtain ⟨r₁, hr₁, heq⟩ := hC.keeps hnm (k := .workflowStatus id)
    (P := fun row : Option WorkflowRow ↦ ∃ r₁, row = some r₁ ∧ r₁.identity = r.identity)
    ⟨r, hr, rfl⟩ (by
      rintro old new s - hw ⟨r₁, rfl, heq⟩
      have hwrites : s.Writes (.workflowStatus id) (some r₁) new := hC.legal _ hw
      cases new with
      | none => exact (hkept _ _ hw).elim
      | some new => exact ⟨new, rfl, hwrites.identity.trans heq⟩)
  have hsame : some r₁ = some r' := hr₁.symm.trans hr'
  rw [← Option.some.inj hsame, heq]

theorem runtime_of_carries (h : Run (System.step server valid) (fun _ l ↦ Carries executor ops l)
    (System.init db₀ time) S) :
    Run (System.step server valid) (RuntimeStep executor) (System.init db₀ time) S :=
  h.mono fun _ _ hl i p hp ↦ ⟨ops i, hl i p hp⟩

/-- The task of a start that was not skipped has the identity of the row: its upsert inserted it. -/
theorem Stored.identity (h : Launched valid executor db₀ S) (hfresh : FreshOwners db₀ id S)
    (hkept : NeverDeleted S id) {i : ℕ} {auth : AuthIdentity}
    (hstored : Stored (S.traceOf i) id auth)
    {n : ℕ} {r : WorkflowRow} (hr : (System.stateAt server db₀ S.history n).workflow id = some r) :
    auth = r.identity := by
  obtain ⟨u, e, he, hcommits, rfl, hzero, hruns, rfl⟩ := hstored
  obtain ⟨c, hc, -, rfl⟩ := System.mem_effects_traceOf.1 he
  obtain ⟨k, hk⟩ := List.mem_iff_getElem?.1 hc
  obtain ⟨child, hwrites, -⟩ := hcommits.writes
  have hin : (⟨.workflowStatus u.input.workflowId, u.old, some u.row,
      .insertWorkflowStatus u.input⟩ : DbWrite) ∈ c.writes := by
    rw [show c.writes = _ from hwrites, Upsert.writes]
    exact List.mem_append_left _ List.mem_cons_self
  obtain ⟨u', hu', heq⟩ := h.upserts hk hin rfl
  obtain ⟨-, hold, -, hinput⟩ : u.input.workflowId = u'.input.workflowId ∧ u.old = u'.old ∧
      u.row = u'.row ∧ u.input = u'.input := by simpa using heq
  have hnone : u.old = none := Upsert.old_of_runs hruns fun r hr ↦ by
    rw [hinput]
    exact h.owner_fresh hfresh hk hu' (by rw [hinput]) (hinput ▸ hzero) (hold ▸ hr)
  have hafter : (System.stateAt server db₀ S.history (k + 1)).workflow u.input.workflowId =
      some u.final := by
    obtain ⟨hxid, -, hshows, -, -⟩ := h.consistent.commit hk
    have hbefore : c.moment.db = System.stateAt server db₀ S.history k := by rw [hshows.db, hxid]
    rw [System.stateAt_succ db₀ hk, ← hbefore]
    exact hcommits.after
  have hinserted : u.row.identity = u.input.identity := by
    rw [Upsert.row, hnone]
    rfl
  rw [← identity_stays h.consistent hkept hafter hr, ← hinserted, Upsert.final]
  split
  · rfl
  · rfl

/-- **Identities.** In every run of operations. First, for every launch of a body of a workflow,
with fresh identifiers and where the row of the workflow is not deleted: the task has the identity
that the row stores, exactly if the launch is not that of a poll loop or the stored identity is
empty. Secondly, a child started without overrides stores the identity its parent runs with. -/
theorem identity_carried (h : Run (System.step server valid) (fun _ l ↦ Carries executor ops l)
    (System.init db₀ time) S) :
    (∀ id, FreshOwners db₀ id S → NeverDeleted S id → ∀ i m task,
      (i, (⟨m, .spawn task, ()⟩ : DbAnswer)) ∈ S.answers → task.workflowId = id →
        ∀ n r, (System.stateAt server db₀ S.history n).workflow id = some r →
          (task.auth = r.identity ↔ ((ops i).isPoll = true → r.identity = {}))) ∧
      ∀ i auth, (ops i).inherits = some auth → ∀ (n : ℕ) (c : Commit Db Key Row Stmt),
        S.history[n]? = some c → c.session = i → InsertsAs auth c.toEffect := by
  have sound : ∀ i, (ops i).isPoll = false → System.Consistent server db₀ S ∧
      ∃ Γ Q, Γ i = identitySpec valid (ops i).inherits ∧ Q i = (fun _ _ _ _ ↦ True) ∧
        System.Sound server Γ Q S ∧ System.Logged Γ S := fun i hpoll ↦
    System.sound_session _ _ (fun _ _ ↦ id) rfl trivial (fun S p hok m ↦ by
      rw [hok i p rfl]
      exact wp_identity_program hpoll) h
  refine ⟨fun id hfresh hkept i m task hlaunch hid n r hr ↦ ?_, fun i auth hauth n c hc hi ↦ ?_⟩
  · by_cases hpoll : (ops i).isPoll = true
    · have hempty : task.auth = {} := by
        refine (System.all_of_run (P := fun _ _ ↦ True) (A := fun j q ↦
          (ops j).isPoll = true → ∀ task, q = .spawn task → task.auth = {}) ?_ h).2 _ hlaunch hpoll
          task rfl
        intro S j p hp
        rw [hp j p rfl]
        cases hop : ops j with
        | call c =>
          cases c with
          | pollQueue queue =>
            exact Prog.All.bind ((sends_pollQueue queue).map.map.mono (fun _ h ↦ h)
              fun _ hq _ ↦ hq) fun _ ↦ trivial
          | _ => exact (Prog.all_true _).mono (fun _ h ↦ h) fun _ _ hno ↦ by cases hno
        | _ => exact (Prog.all_true _).mono (fun _ h ↦ h) fun _ _ hno ↦ by cases hno
      rw [hempty]
      exact ⟨fun heq _ ↦ heq.symm, fun himp ↦ (himp hpoll).symm⟩
    · have hpoll : (ops i).isPoll = false := Bool.eq_false_iff.2 hpoll
      refine iff_of_true ?_ fun htrue ↦ by rw [hpoll] at htrue; cases htrue
      obtain ⟨hC, Γ, Q, hΓ, -, hS, -⟩ := sound i hpoll
      obtain ⟨τ, heffects, -, hmay⟩ := hS.may _ hlaunch
      rw [show Γ i = _ from hΓ] at hmay
      subst hid
      rcases hmay task rfl with ⟨e, he, b, hb, r₀, hr₀, hauth⟩ | ⟨u, e, he, hstored⟩
      · -- the recovery has seen the row
        obtain ⟨d, hd, -, rfl⟩ := System.mem_effects_traceOf.1 (heffects.subset he)
        obtain ⟨k, hk⟩ := List.mem_iff_getElem?.1 hd
        obtain ⟨-, hshows⟩ := (hC.commit hk).2.2.2.2 b hb
        rw [hshows.db] at hr₀
        rw [hauth]
        exact identity_stays hC hkept hr₀ hr
      · exact Stored.identity (launched_of_run (runtime_of_carries h)) hfresh hkept
          ⟨u, e, heffects.subset he, hstored⟩ hr
  · have hpoll : (ops i).isPoll = false := by
      cases hop : ops i with
      | call c =>
        rw [hop] at hauth
        cases hauth
      | _ => rfl
    obtain ⟨-, Γ, Q, hΓ, -, -, hlog⟩ := sound i hpoll
    obtain ⟨τ, -, -, hguar⟩ := hlog.guar hc
    rw [hi, hΓ] at hguar
    exact hguar auth hauth

end

/-! ### A workflow resumed onto a queue -/

section

local instance identityJson : SerdeJson := JsonText.jsonText

/-- Session 0 starts `w` as user `u`, session 1 resumes it onto a queue, and session 2 polls that.
-/
def resumedOps : ℕ → Operation ℤ
  | 0 => .call
      (.runWorkflow "f" none { workflowId := some "w", authenticatedUser := some "u" } none)
  | 1 => .call (.resume ["w"] "q")
  | _ => .call (.pollQueue { queueName := "q", executorId := "a", applicationVersion := "v" })

/-- The start, and then the other two. -/
def resumedW : List (RuntimeLabel ℤ) :=
  (List.range 3).map (fun i ↦ .spawn i ((resumedOps i).program (anyName "a"))) ++
  [.answer 0 (answersAt 1 ""), .answer 0 (answersAt 1 "x")] ++
  commandOne 0 ++ sendOne 0 ++ commandOne 0 ++ commandOne 0 ++ answerOne 0 2 ++
  answerOne 1 3 ++ sendOne 1 ++
  commandOne 2 ++ sendOne 2 ++ answerOne 2 4 ++ sendOne 2 ++ commandOne 2 ++ commandOne 2 ++
  answerOne 2 5

/-- The task an answer has spawned. -/
def spawnedTask (a : DbAnswer) : Option Task :=
  match a.ask with
  | .spawn task => some task
  | _ => none

theorem exists_of_spawnedTask {a : DbAnswer} {task : Task} (h : spawnedTask a = some task) :
    ∃ m, a = ⟨m, .spawn task, ()⟩ := by
  obtain ⟨m, q, b⟩ := a
  cases q with
  | spawn task' =>
    obtain rfl := Option.some.inj h
    exact ⟨m, rfl⟩
  | _ => cases h

/-- Whether session `i` has launched `w` with this identity. -/
def launchedAs (S : RuntimeSystem ℤ) (i : ℕ) (auth : AuthIdentity) : Bool :=
  S.answers.any fun a ↦ a.1 = i && (spawnedTask a.2).any fun task ↦
    task.workflowId = "w" && task.auth = auth

theorem exists_of_launchedAs {S : RuntimeSystem ℤ} {i : ℕ} {auth : AuthIdentity}
    (h : launchedAs S i auth = true) : ∃ m task,
      (i, (⟨m, .spawn task, ()⟩ : DbAnswer)) ∈ S.answers ∧ task.workflowId = "w" ∧
        task.auth = auth := by
  obtain ⟨⟨j, a⟩, ha, hany⟩ := List.any_eq_true.1 h
  rw [Bool.and_eq_true] at hany
  obtain ⟨hi, hany⟩ := hany
  obtain ⟨task, htask, hauth⟩ := (Option.any_eq_true _ _).1 hany
  obtain ⟨m, rfl⟩ := exists_of_spawnedTask htask
  rw [Bool.and_eq_true] at hauth
  obtain rfl : j = i := of_decide_eq_true hi
  exact ⟨m, task, ha, of_decide_eq_true hauth.1, of_decide_eq_true hauth.2⟩

/-- Whether the row of `w` stores user `u` in the end. -/
def storesUser (S : RuntimeSystem ℤ) : Bool :=
  ((System.stateAt server {} S.history 3).workflow "w").any fun r ↦
  r.identity = { user := some "u" }

theorem resumedW_run : (exec (System.step server fun _ _ _ ↦ true) (System.init {} 0)
    resumedW).any (fun S ↦ launchedAs S 0 { user := some "u" } && launchedAs S 2 {} &&
      storesUser S && ((System.written S.history).all fun w ↦ w.new.isSome) &&
      S.answers.all fun a ↦ S.answers.all fun b ↦
        (givenUuid a.2).isNone || givenUuid a.2 ≠ givenUuid b.2 || a.1 = b.1) = true := by
  decide +kernel

theorem exists_of_storesUser {S : RuntimeSystem ℤ} (h : storesUser S = true) :
    ∃ r, (System.stateAt server {} S.history 3).workflow "w" = some r ∧
      r.identity = { user := some "u" } := by
  obtain ⟨r, hr, hidentity⟩ := (Option.any_eq_true _ _).1 h
  exact ⟨r, hr, of_decide_eq_true hidentity⟩

theorem identity_carried_resumedW : ∃ S, exec (System.step server fun _ _ _ ↦ true)
      (System.init {} 0) resumedW = some S ∧
    ∃ m task r, (0, (⟨m, .spawn task, ()⟩ : DbAnswer)) ∈ S.answers ∧ task.workflowId = "w" ∧
      (System.stateAt server {} S.history 3).workflow "w" = some r ∧
      (task.auth = r.identity ↔ ((resumedOps 0).isPoll = true → r.identity = {})) := by
  have hops : ∀ S, ∀ l ∈ resumedW, (fun (_ : RuntimeSystem ℤ) l ↦
      Carries (fun _ ↦ anyName "a") resumedOps l) S l := by
    rintro S l hl i p rfl
    have hmem : (i, p) ∈ resumedW.filterMap spawnedOperation :=
      List.mem_filterMap.2 ⟨_, hl, rfl⟩
    rcases List.mem_cons.1 hmem with heq | hmem
    · cases heq
      rfl
    rcases List.mem_cons.1 hmem with heq | hmem
    · cases heq
      rfl
    · cases List.mem_singleton.1 hmem
      rfl
  obtain ⟨S, hS, hdone⟩ := (Option.any_eq_true _ _).1 resumedW_run
  simp only [Bool.and_eq_true] at hdone
  obtain ⟨⟨⟨⟨hstart, -⟩, hstores⟩, hkept⟩, huuid⟩ := hdone
  obtain ⟨m, task, hlaunch, hid, -⟩ := exists_of_launchedAs hstart
  obtain ⟨r, hr, -⟩ := exists_of_storesUser hstores
  refine ⟨S, hS, m, task, r, hlaunch, hid, hr, (identity_carried (Run.of_exec hS hops)).1 "w"
    (freshOwners_of_all rfl huuid) (fun old s hw ↦ ?_) 0 m task hlaunch hid 3 r hr⟩
  have hsome := List.all_eq_true.1 hkept _ hw
  cases hsome

/-- The poll loop launches the resumed workflow with no identity, although its row stores one. -/
theorem resumed_without_identity : ∃ S, exec (System.step server fun _ _ _ ↦ true)
      (System.init {} 0) resumedW = some S ∧
    ∃ m task r, (2, (⟨m, .spawn task, ()⟩ : DbAnswer)) ∈ S.answers ∧ task.workflowId = "w" ∧
      (System.stateAt server {} S.history 3).workflow "w" = some r ∧ task.auth ≠ r.identity := by
  obtain ⟨S, hS, hdone⟩ := (Option.any_eq_true _ _).1 resumedW_run
  simp only [Bool.and_eq_true] at hdone
  obtain ⟨⟨⟨⟨-, hpoll⟩, hstores⟩, -⟩, -⟩ := hdone
  obtain ⟨m, task, hlaunch, hid, hauth⟩ := exists_of_launchedAs hpoll
  obtain ⟨r, hr, hidentity⟩ := exists_of_storesUser hstores
  refine ⟨S, hS, m, task, r, hlaunch, hid, hr, ?_⟩
  rw [hauth, hidentity]
  decide

end

end Dbos
