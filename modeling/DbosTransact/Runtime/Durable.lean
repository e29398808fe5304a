import DbosTransact.Runtime.Executors
import DbosTransact.Db.Rules

/-!
# Rules for the durable calls of a body

What the durable calls of a workflow have in common, for the session logic of `Db.Rules`: each of
them first looks up whether its step id is recorded, outside any transaction, and the last thing it
does is to record it. `wpM_checkOperationExecution` says what the lookup may find, and why it may
fail; the rules for reads say that a statement that only reads gives a function of the state it was
sent in.

`Operation.beside w` lists the operations that are not durable calls of `w` and leave the rows of
workflows in place, and `Stmt.Elsewhere w` the statements these send: none of them touches what the
calls of `w` record.
-/

namespace Dbos

open Txn

section

variable {V : Type}

/-- Session `i` carries out the operation `ops i`, on the executor `executor i`, whenever it is
started. -/
def Carries [SerdeJson] (executor : ℕ → DbosInner) (ops : ℕ → Operation V) (l : RuntimeLabel V) :
    Prop :=
  ∀ i p, l = .spawn i p → p = (ops i).program (executor i)

/-- The operations that run next to the durable calls of workflow `w` and delete and fork no
workflow. -/
def Operation.beside (w : String) : Operation V → Bool
  | call (.runWorkflow _ _ _ (some parent)) => parent.1.workflowId ≠ w
  | call c => c.statusOnly
  | durable state _ _ _ => state.workflowId ≠ w
  | readStream .. => true
  | readStreamAsync .. => true

/-- The statements of such operations. -/
def Stmt.Elsewhere (w : String) (s : Stmt) : Prop :=
  s.StatusOnly ∨ ∃ w' n kind, w' ≠ w ∧ s.CallOf w' n kind

theorem elsewhere_program [SerdeJson] {w : String} (inner : DbosInner) {op : Operation V}
    (h : op.beside w = true) : (op.program inner).All (Stmt.Elsewhere w) fun _ ↦ True := by
  have status : ∀ {α : Type} {m : DbosM α}, Sends Stmt.StatusOnly m → Sends (Stmt.Elsewhere w) m :=
    fun h ↦ h.mono (fun _ ↦ Or.inl) fun _ ↦ id
  have other : ∀ {α : Type} {m : DbosM α} {w' : String} {n : ℕ} {kind : CallKind}, w' ≠ w →
      Sends (Stmt.CallOf w' n kind) m → Sends (Stmt.Elsewhere w) m :=
    fun hne h ↦ h.mono (fun _ hs ↦ Or.inr ⟨_, _, _, hne, hs⟩) fun _ ↦ id
  have hop : Sends (Stmt.Elsewhere w) (op.run inner) := by
    cases op with
    | call c =>
      refine Sends.map ?_
      by_cases hc : c.statusOnly = true
      · exact status (status_call inner hc fun _ _ ↦ trivial)
      · cases c with
        | runWorkflow name input opts parent =>
          rcases parent with - | ⟨state, n⟩
          · exact absurd rfl hc
          · have hne : state.workflowId ≠ w := by simpa [Operation.beside] using h
            exact other hne (call_startWorkflow _ _ _ _ state n _ _).map
        | _ => exact absurd h hc
    | durable state withinStep n inv =>
      have hne : state.workflowId ≠ w := by simpa [Operation.beside] using h
      exact other hne (call_invocation ⟨inner, state, withinStep⟩ n inv fun _ _ ↦ trivial).map
    | readStream w key codec fromOffset snapshot rounds =>
      exact status (Sends.map (sends_readStream (fun _ ↦ by rfl) (by rfl) snapshot rounds
        fromOffset []))
    | readStreamAsync w key codec rounds =>
      exact status (Sends.map (sends_readStreamAsync (fun _ ↦ by rfl) (by rfl) rounds 0 []))
  exact Prog.All.bind hop fun _ ↦ trivial

/-- The operations of a run in which the durable calls of `w` are those of its body, `calls n` being
the one with step id `n`. A call made within a step takes no step id. -/
def Operation.OfBody (w : String) (calls : ℕ → Invocation V) (op : Operation V) : Prop :=
  op.beside w = true ∨ ∃ state withinStep n inv, op = .durable state withinStep n inv ∧
    state.workflowId = w ∧ (withinStep = false → inv = calls n)

/-- A call within a step sends nothing. -/
theorem silent_invocation [SerdeJson] (ctx : WorkflowContext) (hctx : ctx.withinStep = true) (n : ℕ)
    (inv : Invocation V) : Sends (fun _ ↦ False) (inv.run ctx n) := by
  cases inv with
  | runStep name codec closure =>
    refine Sends.map ?_
    unfold WorkflowContext.runStep
    rw [if_pos hctx]
    exact ((sends_ask _).map).bind fun _ ↦ sends_ofExcept _
  | runStepWith name maxRetries codec closure =>
    refine Sends.map ?_
    unfold WorkflowContext.runStepWith
    rw [if_pos hctx]
    exact ((sends_ask _).map).bind fun _ ↦ sends_ofExcept _
  | writeStream key codec value =>
    refine Sends.map ((sends_ofExcept _).bind fun text ↦ ?_)
    unfold WorkflowContext.writeStreamRaw
    rw [if_pos hctx]
    exact sends_throw _
  | closeStream key =>
    refine Sends.map ?_
    unfold WorkflowContext.closeStream WorkflowContext.writeStreamRaw
    rw [if_pos hctx]
    exact sends_throw _
  | runWorkflow name codec input opts =>
    refine Sends.map ?_
    unfold WorkflowContext.runWorkflow
    rw [if_pos hctx]
    exact sends_throw _
  | send destinationId codec message topic =>
    refine Sends.map ?_
    unfold WorkflowContext.send
    rw [if_pos hctx]
    exact sends_throw _
  | recv codec topic timeout =>
    refine Sends.map ?_
    unfold WorkflowContext.recv
    rw [if_pos hctx]
    exact sends_throw _
  | setEvent key codec value =>
    refine Sends.map ?_
    unfold WorkflowContext.setEvent
    rw [if_pos hctx]
    exact sends_throw _
  | getEvent codec target key timeout =>
    refine Sends.map ?_
    unfold WorkflowContext.getEvent
    rw [if_pos hctx]
    exact sends_throw _
  | sleep duration =>
    refine Sends.map ?_
    unfold WorkflowContext.sleep
    rw [if_pos hctx]
    exact sends_throw _

/-- An operation meets a specification when what it runs does. -/
theorem wp_program [SerdeJson] {Γ : DbSpec} {inner : DbosInner} {op : Operation V}
    {Q : DbPost (OperationResult V)} {c : DbConn} {m : DbMoment} {τ : DbTrace}
    (h : wpM Γ (op.run inner) (fun v ↦ Q (op, .ok v)) (fun e ↦ Q (op, .error e)) c m τ) :
    wp server Γ (op.program inner) Q c m τ := by
  refine wp_bind (wp_mono (wp_later h) fun r c m τ hr ↦ ?_)
  cases r with
  | ok v => exact hr
  | error e => exact hr

end

/-! ### Reads -/

section

variable {Γ : DbSpec} {α : Type} {Q : DbPost α} {X : DbPost DbosError} {m₀ : DbMoment}
variable {τ : DbTrace}

/-- A specification to which a commit that changes nothing is of no account. -/
structure IgnoresReads (Γ : DbSpec) : Prop where
  rely : ∀ m, Γ.rely m (m.after server [])
  guar : ∀ τ m b, Γ.guar τ ⟨m, b, []⟩

/-- A statement outside a transaction that reads the state it was sent in. It asks nothing. -/
theorem wpM_read_answers (hΓ : IgnoresReads Γ) {s : Stmt} {g : Db → s.Res} {f : s.Res → DbosM α}
    (hs : ∀ v, Stmt.run v s = .read (g v.base))
    (herr : ∀ e m τ, Γ.faulty → Γ.rely m₀ m → X (.ofSql e) .idle m τ)
    (h : ∀ b m τ', Γ.rely m₀ b → Γ.rely b m → τ'.answers = τ.answers →
      wpM Γ (f (g b.db)) Q X .idle m τ') :
    wpM Γ (query s >>= f) Q X .idle m₀ τ := by
  refine wpM_query_idle (fun b m₁ m₂ e hb hm₁ hwhy hm₂ ↦ ?_) fun b m₁ v a ch hb hm₁ hv hrun ↦ ?_
  · rcases hwhy with hf | ⟨v, -, hfail⟩
    · exact herr e m₂ τ hf (Γ.rely_trans hb (Γ.rely_trans hm₁ hm₂))
    · rw [hs v] at hfail
      cases hfail
  · rw [hs v, hv.base] at hrun
    cases hrun
    have hquiet := Γ.rely_trans hm₁ (hΓ.rely m₁)
    exact ⟨hΓ.guar τ m₁ _, h b _ _ hb hquiet rfl,
      fun e m₂ hf hm₂ ↦ herr e m₂ _ hf (Γ.rely_trans hb (Γ.rely_trans hquiet hm₂))⟩

/-- The same for a continuation that does not look at the trace. -/
theorem wpM_read (hΓ : IgnoresReads Γ) {s : Stmt} {g : Db → s.Res} {f : s.Res → DbosM α}
    (hs : ∀ v, Stmt.run v s = .read (g v.base))
    (herr : ∀ e m τ, Γ.faulty → Γ.rely m₀ m → X (.ofSql e) .idle m τ)
    (h : ∀ b m τ, Γ.rely m₀ b → Γ.rely b m → wpM Γ (f (g b.db)) Q X .idle m τ) :
    wpM Γ (query s >>= f) Q X .idle m₀ τ :=
  wpM_read_answers hΓ hs herr fun b m τ' hb hm _ ↦ h b m τ' hb hm

/-- The same with the trace: the read is listed with the state it was sent in. -/
theorem wpM_read_sent (hΓ : IgnoresReads Γ) {s : Stmt} {g : Db → s.Res}
    (hs : ∀ v, Stmt.run v s = .read (g v.base)) :
    wpM Γ (query s)
      (fun a c m τ' ↦ c = .idle ∧ ∃ b m₁, Γ.rely m₀ b ∧ Γ.issue τ s b ∧ Γ.rely b m₁ ∧ Γ.rely m₁ m ∧
        a = g b.db ∧ τ' = τ.commit m₁ (some (some b, [])))
      (fun e c m _ ↦ c = .idle ∧ Γ.rely m₀ m ∧ ∃ err, e = .ofSql err) .idle m₀ τ := by
  rw [← bind_pure (query s), query_bind]
  refine wpM_execute_idle_issued (fun b m₁ e hb hm₁ _ ↦ wpM_throw fun m₂ hm₂ ↦
    ⟨rfl, Γ.rely_trans hb (Γ.rely_trans hm₁ hm₂), e, rfl⟩) fun b m₁ v a ch hb hsent hm₁ hv hrun ↦ ?_
  rw [hs v, hv.base] at hrun
  cases hrun
  have hquiet : Γ.rely m₁ (m₁.after server []) := hΓ.rely m₁
  refine ⟨hΓ.guar τ m₁ _, ?_, fun _ e ↦ wpM_throw fun m₂ hm₂ ↦
    ⟨rfl, Γ.rely_trans hb (Γ.rely_trans hm₁ (Γ.rely_trans hquiet hm₂)), e, rfl⟩⟩
  exact wpM_pure fun m₂ hm₂ ↦ ⟨rfl, b, m₁, hb, hsent, hm₁, Γ.rely_trans hquiet hm₂, rfl, rfl⟩

/-- A statement inside a transaction that reads the state it was sent in, and the rows the
transaction has written. -/
theorem wpM_read_active {s : Stmt} {g : Db → s.Res} {f : s.Res → DbosM α} {ws : List DbWrite}
    (hs : ∀ v, Stmt.run v s = .read (g v.base))
    (herr : ∀ e m, Γ.faulty → Γ.rely m₀ m → X (.ofSql e) .aborted m τ)
    (h : ∀ b m, Γ.rely m₀ b → Γ.rely b m → wpM Γ (f (g (server.apply b.db ws))) Q X
      (.active ⟨.readCommitted, none, ws⟩) m τ) :
    wpM Γ (query s >>= f) Q X (.active ⟨.readCommitted, none, ws⟩) m₀ τ := by
  refine wpM_query_active (fun b m₁ m₂ e hb hm₁ hwhy hm₂ ↦ ?_) fun b m₁ v a ch hb hm₁ hv hrun ↦ ?_
  · rcases hwhy with hf | ⟨v, -, hfail⟩
    · exact herr e m₂ hf (Γ.rely_trans hb (Γ.rely_trans hm₁ hm₂))
    · rw [hs v] at hfail
      cases hfail
  · rw [hs v, hv.base] at hrun
    cases hrun
    have hwrites : ws ++ store.record s v.cur [] = ws := List.append_nil ws
    rw [hwrites]
    exact h b m₁ hb hm₁

end

/-! ### Looking a step up -/

/-- The status of a workflow. -/
def Db.statusOf (db : Db) (w : String) : Option WorkflowStatusType :=
  (db.workflow w).map WorkflowRow.status

/-- The record of a step. -/
def Db.operation (db : Db) (w : String) (n : ℕ) : Option OperationRow :=
  db.operationOutputs.lookup (w, n)

section

variable {Γ : DbSpec} {m₀ : DbMoment} {τ : DbTrace} {w name : String} {n : ℕ}

/-- What the lookup of a step has found: the workflow was there and not cancelled, and after that
the step was recorded as `found`. -/
def LookedUp (Γ : DbSpec) (m₀ : DbMoment) (w : String) (n : ℕ) (name : String)
    (found : Option RecordedOperation) (m : DbMoment) : Prop :=
  ∃ b b', Γ.rely m₀ b ∧ Γ.rely b b' ∧ Γ.rely b' m ∧ statusGuard w (b.db.statusOf w) = .ok () ∧
    recordedAt w n name (b'.db.operation w n) = .ok found

/-- Why the lookup of a step fails. -/
inductive LookupFails (Γ : DbSpec) (m₀ : DbMoment) (w : String) (n : ℕ) (name : String)
    (e : DbosError) : Prop
  | fault (h : Γ.faulty)
  | status (b : DbMoment) (hb : Γ.rely m₀ b) (h : statusGuard w (b.db.statusOf w) = .error e)
  | name (b : DbMoment) (hb : Γ.rely m₀ b)
      (h : recordedAt w n name (b.db.operation w n) = .error e)

theorem wpM_checkOperationExecution (hΓ : IgnoresReads Γ) :
    wpM Γ (checkOperationExecution w n name)
      (fun found c m _ ↦ c = .idle ∧ Γ.rely m₀ m ∧ LookedUp Γ m₀ w n name found m)
      (fun e c m _ ↦ c = .idle ∧ Γ.rely m₀ m ∧ LookupFails Γ m₀ w n name e) .idle m₀ τ := by
  rw [checkOperationExecution_eq]
  refine wpM_read hΓ (g := fun db ↦ db.statusOf w) (fun _ ↦ rfl)
    (fun e m τ hf hm ↦ ⟨rfl, hm, .fault hf⟩) fun b m₁ τ₁ hb hm₁ ↦ ?_
  refine wpM_bind (wpM_ofExcept (fun _ m₂ hstatus hm₂ ↦ ?_) fun e m₂ hstatus hm₂ ↦
    ⟨rfl, Γ.rely_trans hb (Γ.rely_trans hm₁ hm₂), .status b hb hstatus⟩)
  have hm₀₂ : Γ.rely b m₂ := Γ.rely_trans hm₁ hm₂
  refine wpM_read hΓ (g := fun db ↦ db.operation w n) (fun _ ↦ rfl)
    (fun e m τ hf hm ↦ ⟨rfl, Γ.rely_trans hb (Γ.rely_trans hm₀₂ hm), .fault hf⟩)
    fun b' m₃ τ₃ hb' hm₃ ↦ ?_
  have hbb' : Γ.rely b b' := Γ.rely_trans hm₀₂ hb'
  refine wpM_ofExcept (fun found m₄ hfound hm₄ ↦ ?_) fun e m₄ hfound hm₄ ↦ ?_
  · have hlast := Γ.rely_trans hm₃ hm₄
    exact ⟨rfl, Γ.rely_trans hb (Γ.rely_trans hbb' hlast), b, b', hb, hbb', hlast, hstatus, hfound⟩
  · exact ⟨rfl, Γ.rely_trans hb (Γ.rely_trans hbb' (Γ.rely_trans hm₃ hm₄)),
      .name b' (Γ.rely_trans hb hbb') hfound⟩

/-- What `record_operation_result` may fail with: the step id was recorded before, or the database
refused. -/
def RecordFails (w : String) (e : DbosError) : Prop := e = .conflictingId w ∨ ∃ err, e = .ofSql err

/-- The write of a record. -/
def recordWrite (w : String) (n : ℕ) (row : OperationRow) : DbWrite :=
  ⟨.operationOutputs w n, none, some row, .insertOperation w n row⟩

/-- Inside a transaction, a record adds its row to what was written. -/
theorem wpM_record {output error child ser : Option String} {ws : List DbWrite}
    (hmay : ∀ τ m t, Γ.may τ ⟨m, .now, t⟩) :
    wpM Γ (recordOperationResult w n name output error child ser)
      (fun _ c m _ ↦ Γ.rely m₀ m ∧ ∃ now, c = .active ⟨.readCommitted, none,
        ws ++ [recordWrite w n ⟨name, output, error, child, some now, some now, ser⟩]⟩)
      (fun e c m _ ↦ Γ.rely m₀ m ∧ c = .aborted ∧ RecordFails w e)
      (.active ⟨.readCommitted, none, ws⟩) m₀ τ := by
  rw [recordOperationResult]
  refine wpM_ask fun m₁ hm₁ now _ ↦ ⟨hmay _ _ _, ?_⟩
  refine wpM_execute_active (fun b m₂ e hb hm₂ _ ↦ ?_) fun b m₂ v a ch hb hm₂ hv hrun ↦ ?_
  · have hm : Γ.rely m₀ m₂ := Γ.rely_trans hm₁ (Γ.rely_trans hb hm₂)
    dsimp only
    split
    · exact wpM_throw fun m₃ hm₃ ↦ ⟨Γ.rely_trans hm hm₃, rfl, Or.inl rfl⟩
    · exact wpM_throw fun m₃ hm₃ ↦ ⟨Γ.rely_trans hm hm₃, rfl, Or.inr ⟨e, rfl⟩⟩
  · obtain ⟨hnone, -, rfl⟩ := View.insert_done hrun
    have hm : Γ.rely m₀ m₂ := Γ.rely_trans hm₁ (Γ.rely_trans hb hm₂)
    refine wpM_pure fun m₃ hm₃ ↦ ⟨Γ.rely_trans hm hm₃, now, ?_⟩
    rw [Store.record, hnone]
    rfl

end

end Dbos
