import DbosTransact.Foundation.WriteOnce
import DbosTransact.Runtime.Transactions

/-!
# The attempts of a workflow

A workflow runs more than once: after a crash it is recovered, and two executors may run it at the
same time. What holds the attempts together is one table. A record of `operation_outputs` is never
written over, because every statement that writes one inserts it; so two calls with the same step id
that both return have decoded the same record, or one of them has written what the other decodes.

* `durable_call` is the contract of one call, next to others that do anything.
* `attempts_agree` is what follows for two attempts of the same body: they get the same replies, as
  far as the replies can agree, and so come to the same result.
* `step_runs_no_more` is what follows for user code: after one call of a step has returned, no call
  that is started later runs it.
* `effect_committed_once` is what follows for the effects of a step: among all attempts, they are
  committed at most once, in the transaction that records it.

All of this holds as long as the records of the workflow are not deleted.
-/

namespace Dbos

open Txn

section

variable [SerdeJson] {V : Type}
variable {valid : DbMoment → (q : Ask) → q.Ans → Bool} {executor : ℕ → DbosInner}
variable {ops : ℕ → Operation V} {db₀ : Db} {time : ℤ} {S₀ S : RuntimeSystem V} {w : String} {n : ℕ}
variable {inv : Invocation V}

/-! ### Records are kept -/

/-- No record of the workflow has been deleted. -/
def KeepsRecords {ρ : Type} (S : System Db Key Row Stmt Stmt.Res SqlError Ask Ask.Ans ρ)
    (w : String) : Prop :=
  ∀ k old s, (⟨.operationOutputs w k, old, none, s⟩ : DbWrite) ∉ System.written S.history

omit [SerdeJson] in
/-- A write to a record inserts or deletes it. -/
theorem Stmt.Writes.record {s : Stmt} {k : ℕ} {old new : Option OperationRow}
    (h : s.Writes (.operationOutputs w k) old new) : old = none ∨ new = none := by
  cases h with
  | operation => exact Or.inl rfl
  | copyOperation => exact Or.inl rfl
  | delete => exact Or.inr rfl
  | collectCascade => exact Or.inr rfl

section

variable {ρ : Type} {S₀ S : System Db Key Row Stmt Stmt.Res SqlError Ask Ask.Ans ρ}

omit [SerdeJson] in
theorem KeepsRecords.insertsOnly (hC : System.Consistent server db₀ S) (hkept : KeepsRecords S w)
    (k : ℕ) : System.InsertsOnly S (.operationOutputs w k) := by
  intro old new s hw
  have hlegal : s.Writes (.operationOutputs w k) old new := hC.legal _ hw
  cases new with
  | none => exact (hkept k old s hw).elim
  | some row =>
    rcases hlegal.record with rfl | hnone
    · exact ⟨rfl, rfl⟩
    · cases hnone

omit [SerdeJson] in
theorem KeepsRecords.earlier (hkept : KeepsRecords S w) (h : S₀.history <+: S.history) :
    KeepsRecords S₀ w :=
  fun k old s hw ↦ hkept k old s (System.written_subset h hw)

end

/-! ### One call -/

/-- What the session of a call keeps to, in a run that deletes no record of its workflow. -/
theorem sound_call
    (h₀ : Run (System.step server valid) (fun _ l ↦ Carries executor ops l)
      (System.init db₀ time) S₀)
    {i : ℕ} (hnew : S₀.unused i = true) {state : WorkflowState}
    (hop : ops i = .durable state false n inv)
    (h : Run (System.step server valid) (fun _ l ↦ Carries executor ops l) S₀ S)
    (hkept : KeepsRecords S state.workflowId) (done : Prop)
    (hdone : done → ∃ row, S₀.moment.db.operation state.workflowId n = some row ∧
      (inv.kind.isChild = true → row.childWorkflowId.isSome = true)) :
    ∃ Γ Q, Γ i = callSpec valid (executor i) state.workflowId n inv done ∧
      Q i = (fun r _ m _ ↦ ∀ reply, r.2 = .ok (.reply reply) →
        inv.Recorded state.workflowId n reply m.db) ∧
      System.Sound server Γ Q S := by
  have hC₀ := System.consistent_of_run h₀
  have hC : System.Consistent server db₀ S :=
    h.invariant hC₀ fun _ _ _ hC _ hs ↦ hC.step hs
  obtain ⟨hfirst, hrun⟩ := System.run_to_from hC₀ h
  -- every state of the run is one of the history, and what is recorded there stays recorded
  have keeps : ∀ {m m' : DbMoment}, System.Shows server db₀ S.history m →
      System.Shows server db₀ S.history m' → m.xid ≤ m'.xid →
      KeepsOperations state.workflowId m.db m'.db := by
    intro m m' hm hm' hle
    rw [hm.db, hm'.db]
    exact fun k row ↦ (hkept.insertsOnly hC k).stays hC hle
  obtain ⟨-, -, Γ, Q, hΓ, hQ, hS, -⟩ := System.sound_session_from (E := server)
    (callSpec valid (executor i) state.workflowId n inv done)
    (fun r _ m _ ↦ ∀ reply, r.2 = .ok (.reply reply) →
      inv.Recorded state.workflowId n reply m.db)
    (P := fun S₁ ↦ System.Shows server db₀ S.history S₁.moment ∧ S₀.moment.Before S₁.moment) rfl
    (fun _ _ _ _ ↦ trivial) h₀ hnew ⟨hfirst, .refl _⟩
    (fun S₁ p hS₁ hok ↦ by
      rw [hok.1 i p rfl, hop]
      refine wp_program (wpM_map (wpM_mono (wpM_invocation ⟨executor i, state, false⟩ rfl rfl
        fun hd ↦ ?_) (fun reply _ m _ hreply reply' heq ↦ ?_) fun _ _ _ _ _ _ heq ↦ by cases heq))
      · obtain ⟨row, hrow, hchild⟩ := hdone hd
        exact ⟨row, keeps hfirst hS₁.1 hS₁.2.2.1 _ _ hrow, hchild⟩
      · cases heq
        exact hreply)
    (fun S₁ l S₂ hS₁ hok hs ↦ ⟨hok.2 S₂ hs, hS₁.2.trans (System.steps_of_step hs).before⟩)
    (fun S₁ S₂ hS₁ hS₂ hm ↦ ⟨hm, keeps hS₁.1 hS₂.1 hm.2.1⟩) hrun
  exact ⟨Γ, Q, hΓ, hQ, hS⟩

section

variable {i : ℕ} {state : WorkflowState} {c : Commit Db Key Row Stmt}

/-- Whatever a call commits is one of its transactions. -/
theorem call_commits
    (h₀ : Run (System.step server valid) (fun _ l ↦ Carries executor ops l)
      (System.init db₀ time) S₀)
    (hnew : S₀.unused i = true) (hop : ops i = .durable state false n inv)
    (h : Run (System.step server valid) (fun _ l ↦ Carries executor ops l) S₀ S)
    (hkept : KeepsRecords S state.workflowId) (hc : c ∈ S.history) (hi : c.session = i) :
    inv.Commits (executor i) state.workflowId n c.writes := by
  obtain ⟨Γ, Q, hΓ, -, hS⟩ := sound_call h₀ hnew hop h hkept False False.elim
  obtain ⟨τ, -, -, hguar⟩ := hS.guar c hc
  rw [hi, hΓ] at hguar
  exact hguar

/-- A call whose step was recorded when it started runs no user code. -/
theorem call_runs_no_code
    (h₀ : Run (System.step server valid) (fun _ l ↦ Carries executor ops l)
      (System.init db₀ time) S₀)
    (hnew : S₀.unused i = true) (hop : ops i = .durable state false n inv)
    (h : Run (System.step server valid) (fun _ l ↦ Carries executor ops l) S₀ S)
    (hkept : KeepsRecords S state.workflowId) {row : OperationRow}
    (hrow : S₀.moment.db.operation state.workflowId n = some row)
    (hchild : inv.kind.isChild = true → row.childWorkflowId.isSome = true) :
    ∀ a ∈ S.answers, a.1 = i → a.2.ask.isUserCode = false := by
  intro a ha hi
  obtain ⟨Γ, Q, hΓ, -, hS⟩ := sound_call h₀ hnew hop h hkept True fun _ ↦ ⟨row, hrow, hchild⟩
  obtain ⟨τ, -, -, hmay⟩ := hS.may a ha
  rw [hi, hΓ] at hmay
  exact hmay trivial

/-- When a call has returned a reply, the step is recorded, and the reply is what the record says.
-/
theorem call_recorded
    (h₀ : Run (System.step server valid) (fun _ l ↦ Carries executor ops l)
      (System.init db₀ time) S₀)
    (hnew : S₀.unused i = true) (hop : ops i = .durable state false n inv)
    (h : Run (System.step server valid) (fun _ l ↦ Carries executor ops l) S₀ S)
    (hkept : KeepsRecords S state.workflowId) {r : OperationResult V} {reply : Reply V}
    (hret : Returned S i r) (hr : r.2 = .ok (.reply reply)) :
    inv.Recorded state.workflowId n reply S.moment.db := by
  obtain ⟨Γ, Q, -, hQ, hS⟩ := sound_call h₀ hnew hop h hkept False False.elim
  obtain ⟨s, hs, hreturned⟩ := hret
  have hpost := hS.returned hs hreturned
  rw [hQ] at hpost
  exact hpost reply hr

/-- **Durable calls.** Session `i` of a run is a durable call, outside a step, of workflow `w` with
step id `n`, next to sessions that do anything but delete the records of `w`. Whatever it commits is
one of its transactions; if the step was recorded when it started, it runs no user code; and when it
has returned a reply, the step is recorded, under the name of the call unless it starts a child, and
the reply is what the record says. -/
theorem durable_call
    (h₀ : Run (System.step server valid) (fun _ l ↦ Carries executor ops l)
      (System.init db₀ time) S₀)
    {i : ℕ} (hnew : S₀.unused i = true) {state : WorkflowState}
    (hop : ops i = .durable state false n inv)
    (h : Run (System.step server valid) (fun _ l ↦ Carries executor ops l) S₀ S)
    (hkept : KeepsRecords S state.workflowId) :
    (∀ c ∈ S.history, c.session = i →
      inv.Commits (executor i) state.workflowId n c.writes) ∧
    (∀ row, S₀.moment.db.operation state.workflowId n = some row →
      (inv.kind.isChild = true → row.childWorkflowId.isSome = true) →
      ∀ a ∈ S.answers, a.1 = i → a.2.ask.isUserCode = false) ∧
    ∀ r reply, Returned S i r → r.2 = .ok (.reply reply) →
      inv.Recorded state.workflowId n reply S.moment.db :=
  ⟨fun _ hc hi ↦ call_commits h₀ hnew hop h hkept hc hi,
    fun _ hrow hchild ↦ call_runs_no_code h₀ hnew hop h hkept hrow hchild,
    fun _ _ hret hr ↦ call_recorded h₀ hnew hop h hkept hret hr⟩

end

/-! ### What the replies of two attempts have in common -/

/-- Two replies tell the body the same, up to how long a sleep still took and whether the handle to
a child owns its task. -/
def Reply.Agree : Reply V → Reply V → Prop
  | value v, value v' => v = v'
  | child h, child h' => h.id = h'.id
  | received v, received v' => v = v'
  | done, done => True
  | slept _, slept _ => True
  | _, _ => False

/-- The codec reads back what it has stored. -/
def ReadsStored (codec : Serde V) : Prop :=
  have := codec
  ∀ value text, storedText codec value = .ok text →
    decodeValue V (some text) (some Format.portable.name) = .ok value

/-- The result of a step reads back. -/
def Invocation.Lawful : Invocation V → Prop
  | runStep _ codec _ => ReadsStored codec
  | runStepWith _ _ codec _ => ReadsStored codec
  | _ => True

theorem StoredAs.decodes {codec : Serde V} {row : OperationRow} {value : V}
    (h : StoredAs codec row value) (hcodec : ReadsStored codec) :
    have := codec
    decodeStep V ⟨row.output, row.error, row.serialization⟩ = .ok value := by
  rcases h with h | ⟨herror, hser, text, htext, houtput⟩
  · exact h
  · have hread := hcodec value text htext
    show decodeStep V ⟨row.output, row.error, row.serialization⟩ = .ok value
    rw [herror, houtput, hser]
    exact hread

theorem StoredAs.agree {codec : Serde V} {row : OperationRow} {value value' : V}
    (h : StoredAs codec row value) (h' : StoredAs codec row value') (hcodec : ReadsStored codec) :
    value = value' :=
  Except.ok.inj ((h.decodes hcodec).symm.trans (h'.decodes hcodec))

/-- Two replies read off the same record agree. -/
theorem Invocation.Reads.agree {row : OperationRow} {reply reply' : Reply V}
    (h : inv.Reads row reply) (h' : inv.Reads row reply') (hlawful : inv.Lawful) :
    reply.Agree reply' := by
  cases inv with
  | runStep _ codec _ =>
    cases reply with
    | value v =>
      cases reply' with
      | value v' =>
        have hstored : StoredAs codec row v := h
        exact hstored.agree h' hlawful
      | _ => cases h'
    | _ => cases h
  | runStepWith _ _ codec _ =>
    cases reply with
    | value v =>
      cases reply' with
      | value v' =>
        have hstored : StoredAs codec row v := h
        exact hstored.agree h' hlawful
      | _ => cases h'
    | _ => cases h
  | runWorkflow _ _ _ _ =>
    cases reply with
    | child handle =>
      cases reply' with
      | child handle' =>
        have hsame : some handle.id = some handle'.id := Eq.trans (Eq.symm h) h'
        exact Option.some.inj hsame
      | _ => cases h'
    | _ => cases h
  | recv codec _ _ =>
    cases reply with
    | received v =>
      cases reply' with
      | received v' => exact Except.ok.inj (Eq.trans (Eq.symm h) h')
      | _ => cases h'
    | _ => cases h
  | getEvent codec _ _ _ =>
    cases reply with
    | received v =>
      cases reply' with
      | received v' => exact Except.ok.inj (Eq.trans (Eq.symm h) h')
      | _ => cases h'
    | _ => cases h
  | sleep _ =>
    cases reply with
    | slept remaining =>
      cases reply' with
      | slept remaining' => trivial
      | _ => cases h'
    | _ => cases h
  | _ =>
    cases reply with
    | done =>
      cases reply' with
      | done => trivial
      | _ => cases h'
    | _ => cases h

/-! ### Bodies -/

/-- A workflow body by what it does next: it comes to a result, or it makes a durable call and goes
on with the reply. The error of a call ends the body. -/
inductive Body (V R : Type)
  | ret (result : R)
  | call (inv : Invocation V) (next : Reply V → Body V R)

variable {R : Type}

/-- The body goes on in the same way after replies that agree, and the results of its steps read
back. -/
def Body.Respects : Body V R → Prop
  | ret _ => True
  | call inv next =>
    inv.Lawful ∧ (∀ reply reply', reply.Agree reply' → next reply = next reply') ∧
      ∀ reply, (next reply).Respects

/-- An attempt at the body from step id `n` on: sessions of the run have made its calls and returned
the replies, and what remains of the body is the last argument. -/
inductive Attempt (S : RuntimeSystem V) (ops : ℕ → Operation V) (w : String) :
    Body V R → ℕ → List (Reply V) → Body V R → Prop
  | here (body : Body V R) (n : ℕ) : Attempt S ops w body n [] body
  | call {inv : Invocation V} {next : Reply V → Body V R} {rest : Body V R} {n : ℕ}
      {reply : Reply V} {replies : List (Reply V)} (i : ℕ) (state : WorkflowState)
      (r : OperationResult V) (hop : ops i = .durable state false n inv)
      (hw : state.workflowId = w) (hret : Returned S i r) (hreply : r.2 = .ok (.reply reply))
      (hrest : Attempt S ops w (next reply) (n + inv.stepIds) replies rest) :
      Attempt S ops w (.call inv next) n (reply :: replies) rest

/-- The calls two sessions have made with the same step id get replies that agree. -/
theorem replies_agree
    (h : Run (System.step server valid) (fun _ l ↦ Carries executor ops l) (System.init db₀ time) S)
    (hkept : KeepsRecords S w) (hlawful : inv.Lawful) {i j : ℕ} {state state' : WorkflowState}
    (hi : ops i = .durable state false n inv) (hj : ops j = .durable state' false n inv)
    (hw : state.workflowId = w) (hw' : state'.workflowId = w) {r r' : OperationResult V}
    {reply reply' : Reply V} (hret : Returned S i r) (hret' : Returned S j r')
    (hreply : r.2 = .ok (.reply reply)) (hreply' : r'.2 = .ok (.reply reply')) :
    reply.Agree reply' := by
  subst hw
  have hunused : ∀ i, (System.init db₀ time : RuntimeSystem V).unused i = true := by
    simp [System.unused, System.init]
  obtain ⟨row, hrow, -, hreads⟩ :=
    call_recorded .refl (hunused i) hi h hkept hret hreply
  obtain ⟨row', hrow', -, hreads'⟩ := call_recorded .refl (hunused j) hj h
    (hw'.symm ▸ hkept) hret' hreply'
  rw [hw', hrow] at hrow'
  obtain rfl := Option.some.inj hrow'
  exact hreads.agree hreads' hlawful

/-- **Attempts agree.** Two attempts at a body, by any sessions on any executors, next to sessions
that do anything but delete the records of the workflow, get replies that agree as far as both have
come. If both have made the same number of calls they are at the same place; and if one has come to
a result the other has made no more calls than it, so two attempts that come to a result come to the
same one. -/
theorem attempts_agree
    (h : Run (System.step server valid) (fun _ l ↦ Carries executor ops l) (System.init db₀ time) S)
    (hkept : KeepsRecords S w) {body rest rest' : Body V R} (hbody : body.Respects)
    {replies replies' : List (Reply V)} (ha : Attempt S ops w body n replies rest)
    (ha' : Attempt S ops w body n replies' rest') :
    (∀ (k : ℕ) reply reply', replies[k]? = some reply → replies'[k]? = some reply' →
      reply.Agree reply') ∧
    (replies.length = replies'.length → rest = rest') ∧
    ∀ result, rest = .ret result → replies'.length ≤ replies.length := by
  induction ha generalizing replies' rest' with
  | here body n =>
    refine ⟨fun k reply reply' hk ↦ by simp at hk, fun hlen ↦ ?_, fun result hres ↦ ?_⟩
    · cases ha' with
      | here => rfl
      | call => cases hlen
    · subst hres
      cases ha' with
      | here => exact le_rfl
  | @call inv next rest n reply replies i state r hop hw hret hreply hrest ih =>
    cases ha' with
    | here => exact ⟨fun k reply reply' _ hk ↦ by simp at hk, fun hlen ↦ (by cases hlen),
        fun _ _ ↦ Nat.zero_le _⟩
    | @call _ _ _ _ reply' replies' i' state' r' hop' hw' hret' hreply' hrest' =>
      have hagree : reply.Agree reply' :=
        replies_agree h hkept hbody.1 hop hop' hw hw' hret hret' hreply hreply'
      -- so the two go on with the same body
      rw [← hbody.2.1 reply reply' hagree] at hrest'
      obtain ⟨hreplies, hsame, hlonger⟩ := ih (hbody.2.2 reply) hrest'
      refine ⟨fun k ↦ ?_, fun hlen ↦ hsame (Nat.succ.inj hlen), fun result hres ↦
        Nat.succ_le_succ (hlonger result hres)⟩
      cases k with
      | zero =>
        intro a a' ha ha'
        obtain rfl : reply = a := Option.some.inj ha
        obtain rfl : reply' = a' := Option.some.inj ha'
        exact hagree
      | succ k => exact hreplies k

/-! ### Steps -/

/-- **No user code twice.** Session `i` has returned a reply for a call at step id `n` of the
workflow. A session that is started after that with a call at the same step id runs no user code,
unless it is the start of a child and the call that has returned was none. -/
theorem step_runs_no_more
    (h₀ : Run (System.step server valid) (fun _ l ↦ Carries executor ops l)
      (System.init db₀ time) S₀)
    {i j : ℕ} {state state' : WorkflowState} {inv' : Invocation V}
    (hi : ops i = .durable state false n inv) (hw : state.workflowId = w)
    {r : OperationResult V} {reply : Reply V} (hret : Returned S₀ i r)
    (hreply : r.2 = .ok (.reply reply)) (hnew : S₀.unused j = true)
    (hj : ops j = .durable state' false n inv') (hw' : state'.workflowId = w)
    (hchild : inv'.kind.isChild = true → inv.kind.isChild = true)
    (h : Run (System.step server valid) (fun _ l ↦ Carries executor ops l) S₀ S)
    (hkept : KeepsRecords S w) :
    ∀ a ∈ S.answers, a.1 = j → a.2.ask.isUserCode = false := by
  subst hw
  have hunused : (System.init db₀ time : RuntimeSystem V).unused i = true := by
    simp [System.unused, System.init]
  obtain ⟨row, hrow, -, hreads⟩ := call_recorded .refl hunused hi h₀
    (hkept.earlier (System.history_prefix_of_run h)) hret hreply
  refine call_runs_no_code h₀ hnew hj h (hw'.symm ▸ hkept) (hw'.symm ▸ hrow) fun hisChild ↦ ?_
  -- what has been recorded is a child
  have hstart := hchild hisChild
  cases inv with
  | runWorkflow _ _ _ _ =>
    cases reply with
    | child handle =>
      have hrecorded : row.childWorkflowId = some handle.id := hreads
      rw [hrecorded]
      rfl
    | _ => cases hreads
  | _ => cases hstart

/-! ### Effects -/

/-- The operation makes no durable call of workflow `w`. -/
def Operation.callsNot (w : String) : Operation V → Bool
  | call (.runWorkflow _ _ _ (some parent)) => parent.1.workflowId ≠ w
  | durable state _ _ _ => state.workflowId ≠ w
  | _ => true

/-- The operation makes no call of workflow `w` outside a step, or the one of its body with that
step id, which is `calls n` at step id `n`. -/
def Operation.OfAttempts (w : String) (calls : ℕ → Invocation V) (op : Operation V) : Prop :=
  op.callsNot w = true ∨ ∃ state withinStep n inv, op = .durable state withinStep n inv ∧
    state.workflowId = w ∧ (withinStep = false → inv = calls n)

/-- The statement records no call of workflow `w`. A fork into `w` copies records. -/
def Stmt.RecordsNone (w : String) (s : Stmt) : Prop :=
  ∀ k row, s ≠ .insertOperation w k row

/-- No fork has copied records into workflow `w`. -/
def NotForkedInto {ρ : Type} (S : System Db Key Row Stmt Stmt.Res SqlError Ask Ask.Ans ρ)
    (w : String) : Prop :=
  ∀ x ∈ System.written S.history, ∀ original start, x.stmt ≠ .copyOperations w original start

omit [SerdeJson] in
theorem Stmt.Elsewhere.recordsNone {s : Stmt} (h : s.Elsewhere w) : s.RecordsNone w := by
  rintro k row rfl
  rcases h with h | ⟨w', k', kind, hne, h⟩
  · cases h
  · simp only [Stmt.CallOf, Stmt.isCallOf, Bool.and_eq_true, decide_eq_true_eq] at h
    exact hne h.1.symm

/-- An operation that makes no call of `w` does not record one. -/
theorem recordsNone_program (inner : DbosInner) {op : Operation V} (h : op.callsNot w = true) :
    (op.program inner).All (Stmt.RecordsNone w) fun _ ↦ True := by
  have hmanage : ∀ s : Stmt, s.isManagement = true → s.RecordsNone w := by
    rintro s hs k row rfl
    cases hs
  by_cases hbeside : op.beside w = true
  · exact (elsewhere_program inner hbeside).mono (fun _ ↦ Stmt.Elsewhere.recordsNone) fun _ ↦ id
  have hop : Sends (Stmt.RecordsNone w) (op.run inner) := by
    cases op with
    | call c =>
      refine Sends.map ?_
      cases c with
      | runWorkflow name input opts parent =>
        rcases parent with - | parent
        · exact absurd rfl hbeside
        · exact absurd h hbeside
      | fork input => exact Sends.map (sends_forkWorkflow hmanage input)
      | delete ids =>
        refine Sends.map (sends_query ?_)
        rintro k row ⟨⟩
      | collectGarbage cutoff rowsThreshold =>
        exact Sends.map (sends_garbageCollect hmanage cutoff rowsThreshold)
      | _ => exact absurd rfl hbeside
    | durable state withinStep k inv => exact absurd h hbeside
    | readStream w key codec fromOffset snapshot rounds => exact absurd rfl hbeside
    | readStreamAsync w key codec rounds => exact absurd rfl hbeside
  exact Prog.All.bind hop fun _ ↦ trivial

/-- The effects of a call are no records. -/
theorem Invocation.Effects.key_ne {ws : List DbWrite} (h : inv.Effects w n ws) {x : DbWrite}
    (hx : x ∈ ws) (w' : String) (k : ℕ) : x.key ≠ .operationOutputs w' k := by
  cases inv with
  | send destinationId codec message topic =>
    obtain ⟨uuid, -, -, -, row, -, rfl⟩ := h
    rw [List.mem_singleton.1 hx]
    nofun
  | recv codec topic timeout =>
    rcases h with rfl | ⟨uuid, row, rfl⟩
    · cases hx
    · rw [List.mem_singleton.1 hx]
      nofun
  | setEvent key codec value =>
    obtain ⟨-, old, old', -, row, -, rfl⟩ := h
    rcases List.mem_cons.1 hx with rfl | hx
    · nofun
    · rw [List.mem_singleton.1 hx]
      nofun
  | writeStream key codec value =>
    obtain ⟨i, row, -, rfl⟩ := h
    rw [List.mem_singleton.1 hx]
    nofun
  | closeStream key =>
    obtain ⟨i, row, -, rfl⟩ := h
    rw [List.mem_singleton.1 hx]
    nofun
  | _ =>
    obtain rfl : ws = [] := h
    cases hx

omit [SerdeJson] in
theorem Upsert.key_ne {u : Upsert} {x : DbWrite} (hx : x ∈ u.writes) (w' : String) (k : ℕ) :
    x.key ≠ .operationOutputs w' k := by
  rw [Upsert.writes] at hx
  rcases List.mem_cons.1 hx with rfl | hx
  · rintro ⟨⟩
  · split at hx
    · rw [List.mem_singleton.1 hx]
      rintro ⟨⟩
    · cases hx

/-- A transaction of a call that records a step id which is not the one of its deadline is that of
its record, with its effects. -/
theorem Invocation.Commits.of_record {inner : DbosInner} {ws : List DbWrite}
    (h : inv.Commits inner w n ws) {x : DbWrite} (hx : x ∈ ws) {k : ℕ}
    (hk : x.key = .operationOutputs w k) (hchild : k = n → inv.kind.isChild = false)
    (hsleeps : k = n + 1 → inv.kind.sleeps = false) :
    k = n ∧ ∃ effects row, ws = effects ++ [recordWrite w n row] ∧ inv.Effects w n effects ∧
      row.functionName = inv.kind.recordName := by
  cases h with
  | reads => cases hx
  | deadline row hsleep _ =>
    rw [List.mem_singleton.1 hx] at hk
    obtain rfl : n + 1 = k := (Key.operationOutputs.inj hk).2
    rw [hsleeps rfl] at hsleep
    cases hsleep
  | step effects row _ hws hname =>
    rcases List.mem_append.1 hx with hx | hx
    · exact (hws.key_ne hx w k hk).elim
    · rw [List.mem_singleton.1 hx] at hk
      obtain rfl : n = k := (Key.operationOutputs.inj hk).2
      exact ⟨rfl, effects, row, rfl, hws, hname⟩
  | child u row hu _ =>
    rcases List.mem_append.1 hx with hx | hx
    · exact (Upsert.key_ne hx w k hk).elim
    · rw [List.mem_singleton.1 hx] at hk
      have hnot := hchild (Key.operationOutputs.inj hk).2.symm
      rw [hu.isChild] at hnot
      cases hnot
  | exceeded u hu _ => exact (Upsert.key_ne hx w k hk).elim

/-- A call that has an effect records its step with it. -/
theorem Invocation.Commits.records {inner : DbosInner} {ws : List DbWrite}
    (h : inv.Commits inner w n ws) (hchild : inv.kind.isChild = false) {x : DbWrite} (hx : x ∈ ws)
    (hx' : ∀ k, x.key ≠ .operationOutputs w k) : ∃ y ∈ ws, y.key = .operationOutputs w n := by
  cases h with
  | reads => cases hx
  | deadline row _ _ =>
    rw [List.mem_singleton.1 hx] at hx'
    exact (hx' (n + 1) rfl).elim
  | step effects row _ _ _ =>
    exact ⟨_, List.mem_append_right _ List.mem_cons_self, rfl⟩
  | child u row hu _ =>
    rw [hu.isChild] at hchild
    cases hchild
  | exceeded u hu _ =>
    rw [hu.isChild] at hchild
    cases hchild

/-- Of the operations of such a run only the calls of the body record calls of `w`. -/
theorem program_of_attempts (inner : DbosInner) {calls : ℕ → Invocation V} {op : Operation V}
    (h : op.OfAttempts w calls) :
    (op.program inner).All (fun s ↦ s.RecordsNone w ∨
      ∃ state k, op = .durable state false k (calls k) ∧ state.workflowId = w) fun _ ↦ True := by
  rcases h with hother | ⟨state, withinStep, k, inv, rfl, hw, hinv⟩
  · exact (recordsNone_program inner hother).mono (fun _ ↦ Or.inl) fun _ ↦ id
  · cases withinStep with
    | true =>
      have hsilent : Sends (fun _ ↦ False) (Operation.run inner (.durable state true k inv)) :=
        (silent_invocation ⟨inner, state, true⟩ rfl k inv).map
      exact Prog.All.bind (hsilent.mono (fun _ ↦ False.elim) fun _ ↦ id) fun _ ↦ trivial
    | false =>
      exact (Prog.all_true _).mono (fun _ _ ↦ Or.inr ⟨state, k, by rw [hinv rfl], hw⟩) fun _ ↦ id

/-- **Effects are committed once.** The sessions of a run make the calls of a body of workflow `w`,
`calls n` at step id `n`, as often and on as many executors as they like, or do anything else, but
nothing is forked into `w` and no record of `w` is deleted; the calls of `n` start no child, and `n`
is no second step id of a wait. Then one transaction records step `n` if it is recorded in the end,
and none if it is not. That transaction is one of a call at `n`, and consists of the effects of the
call and the record; no call at `n` commits an effect in any other. And if one of the calls at `n`
has returned a reply, the step is recorded. -/
theorem effect_committed_once
    (h : Run (System.step server valid) (fun _ l ↦ Carries executor ops l) (System.init db₀ time) S)
    (hkept : KeepsRecords S w) (hforks : NotForkedInto S w) {calls : ℕ → Invocation V}
    (hbody : ∀ i, (ops i).OfAttempts w calls) (hchild : (calls n).kind.isChild = false)
    (hsleeps : ∀ k, n = k + 1 → (calls k).kind.sleeps = false) (hnew : db₀.operation w n = none) :
    S.history.countP (System.writesTo (.operationOutputs w n)) =
      (if (S.moment.db.operation w n).isSome then 1 else 0) ∧
    (∀ c ∈ S.history, System.writesTo (.operationOutputs w n) c = true →
      (∃ state, ops c.session = .durable state false n (calls n)) ∧
      ∃ effects row, c.writes = effects ++ [recordWrite w n row] ∧ (calls n).Effects w n effects ∧
        row.functionName = (calls n).kind.recordName) ∧
    (∀ c ∈ S.history, ∀ state, ops c.session = .durable state false n (calls n) →
      state.workflowId = w → (∃ x ∈ c.writes, ∀ k, x.key ≠ .operationOutputs w k) →
      System.writesTo (.operationOutputs w n) c = true) ∧
    ∀ i state r reply, ops i = .durable state false n (calls n) → state.workflowId = w →
      Returned S i r → r.2 = .ok (.reply reply) → (S.moment.db.operation w n).isSome = true := by
  have hunused : ∀ i, (System.init db₀ time : RuntimeSystem V).unused i = true := by
    simp [System.unused, System.init]
  have hC : System.Consistent server db₀ S := System.consistent_of_run h
  refine ⟨(hkept.insertsOnly hC n).countP_eq hC hnew, fun c hc hwrites ↦ ?_,
    fun c hc state hop hw heffect ↦ ?_, fun i state r reply hop hw hret hreply ↦ ?_⟩
  · obtain ⟨x, hx, hk⟩ := System.writesTo_iff.1 hwrites
    obtain ⟨key, old, new, s⟩ := x
    obtain rfl : key = .operationOutputs w n := hk
    have hwritten : ⟨.operationOutputs w n, old, new, s⟩ ∈ System.written S.history :=
      List.mem_flatMap.2 ⟨c, hc, hx⟩
    have hlegal : s.Writes (.operationOutputs w n) old new := hC.legal _ hwritten
    have hsent := (System.all_of_run (A := fun _ _ ↦ True) (fun S₁ i p hok ↦ by
      rw [hok i p rfl]
      exact program_of_attempts (executor i) (hbody i)) h).1 c hc _ hx
    rcases hsent with hnone | ⟨state, k, hop, rfl⟩
    · -- besides the calls of the body only forks and deletions write records of the workflow
      cases hlegal with
      | operation => exact (hnone _ _ rfl).elim
      | copyOperation => exact (hforks _ hwritten _ _ rfl).elim
      | delete => exact (hkept _ _ _ hwritten).elim
      | collectCascade => exact (hkept _ _ _ hwritten).elim
    -- a call of the body records only its own step
    obtain ⟨rfl, hstep⟩ := (call_commits .refl (hunused c.session) hop h hkept hc
      rfl).of_record hx rfl (fun heq ↦ heq ▸ hchild) (hsleeps k)
    exact ⟨⟨state, hop⟩, hstep⟩
  · obtain ⟨x, hx, hx'⟩ := heffect
    subst hw
    exact System.writesTo_iff.2 ((call_commits .refl (hunused c.session) hop h hkept hc
      rfl).records hchild hx hx')
  · subst hw
    obtain ⟨row, hrow, -⟩ := call_recorded .refl (hunused i) hop h hkept hret hreply
    rw [hrow]
    rfl

end

/-! ### A workflow that is run twice -/

section

local instance attemptsJson : SerdeJson := JsonText.jsonText

/-- A body of two calls, by their step ids. -/
def stepAndSend (n : ℕ) : Invocation Unit :=
  if n = 0 then .runStep "s" inferInstance fun _ ↦ .ok () else .send "w" inferInstance () none

def stepAndSendBody : Body Unit ℕ :=
  .call (stepAndSend 0) fun _ ↦ .call (stepAndSend 1) fun _ ↦ .ret 7

/-- Sessions 0 and 1 are the calls of one attempt, sessions 2 and 3 those of another one. -/
def stepAndSendOps (i : ℕ) : Operation Unit :=
  .durable ⟨"w", {}⟩ false (i % 2) (stepAndSend (i % 2))

/-- A call up to the moment it has looked up its step. -/
def lookUpStep (i : ℕ) : List (RuntimeLabel Unit) :=
  [.spawn i ((stepAndSendOps i).program (anyName "a"))] ++ sendOne i ++ sendOne i

def firstAttempt : List (RuntimeLabel Unit) :=
  lookUpStep 0 ++ answerOne 0 0 ++ answerOne 0 0 ++ sendOne 0 ++ lookUpStep 1 ++ commandOne 1 ++
    answerOne 1 0 ++ answerOne 1 0 ++ sendOne 1 ++ answerOne 1 0 ++ sendOne 1 ++ commandOne 1 ++
    commandOne 1

def secondAttempt : List (RuntimeLabel Unit) := lookUpStep 2 ++ lookUpStep 3

theorem readsStored_unit : ReadsStored (inferInstance : Serde Unit) := by
  rintro ⟨⟩ text htext
  obtain rfl : encodeJsonValue .null .portable = text := Except.ok.inj htext
  rfl

/-- Whether the operation of a session has returned a reply. -/
def repliedOk
    (s : Session Db Key Row Stmt Stmt.Res SqlError Ask Ask.Ans (OperationResult Unit)) : Bool :=
  match s.prog with
  | .pure (_, .ok (.reply _)) => true
  | _ => false

theorem exists_of_repliedOk {S : RuntimeSystem Unit} {i : ℕ}
    (h : (S.sessions.lookup i).any repliedOk = true) :
    ∃ r reply, Returned S i r ∧ r.2 = .ok (.reply reply) := by
  obtain ⟨s, hs, hret⟩ := (Option.any_eq_true _ _).1 h
  unfold repliedOk at hret
  split at hret
  · exact ⟨_, _, ⟨s, hs, by assumption⟩, rfl⟩
  · cases hret

/-- No transaction of the history deletes a row. -/
def deletesNothing (S : RuntimeSystem Unit) : Bool :=
  (System.written S.history).all fun x ↦ x.new.isSome

theorem keepsRecords_of_deletesNothing {S : RuntimeSystem Unit} (h : deletesNothing S = true)
    (w : String) : KeepsRecords S w :=
  fun _ _ _ hw ↦ by cases List.all_eq_true.1 h _ hw

/-- No statement of the history is one of a fork. -/
def forksNothing (S : RuntimeSystem Unit) : Bool :=
  (System.written S.history).all fun x ↦ !x.stmt.isManagement

theorem notForkedInto_of_forksNothing {S : RuntimeSystem Unit} (h : forksNothing S = true)
    (w : String) : NotForkedInto S w := by
  intro x hx original start hs
  have hnot := List.all_eq_true.1 h x hx
  rw [hs] at hnot
  cases hnot

theorem carries_stepAndSend {ls : List (RuntimeLabel Unit)}
    (h : ∀ e ∈ ls.filterMap spawnedOperation, ∃ i ∈ [0, 1, 2, 3],
      e = (i, (stepAndSendOps i).program (anyName "a"))) :
    ∀ l ∈ ls, Carries (fun _ ↦ anyName "a") stepAndSendOps l := by
  rintro l hl i p rfl
  obtain ⟨j, -, heq⟩ := h (i, p) (List.mem_filterMap.2 ⟨_, hl, rfl⟩)
  cases heq
  rfl

/-- Both attempts come to their end. -/
theorem bothAttempts_run : (exec (System.step server fun _ _ _ ↦ true) (System.init oneWaiting 0)
    firstAttempt).any (fun S₀ ↦ (S₀.sessions.lookup 0).any repliedOk && S₀.unused 2 &&
      (exec (System.step server fun _ _ _ ↦ true) S₀ secondAttempt).any fun S ↦
        [0, 1, 2, 3].all (fun i ↦ (S.sessions.lookup i).any repliedOk) &&
          (deletesNothing S && forksNothing S)) = true := by
  decide +kernel

/-- The states after the first attempt and after both. -/
theorem exists_bothAttempts : ∃ S₀ S, exec (System.step server fun _ _ _ ↦ true)
      (System.init oneWaiting 0) firstAttempt = some S₀ ∧
    exec (System.step server fun _ _ _ ↦ true) S₀ secondAttempt = some S ∧
    Run (System.step server fun _ _ _ ↦ true)
      (fun _ l ↦ Carries (fun _ ↦ anyName "a") stepAndSendOps l) (System.init oneWaiting 0) S₀ ∧
    Run (System.step server fun _ _ _ ↦ true)
      (fun _ l ↦ Carries (fun _ ↦ anyName "a") stepAndSendOps l) S₀ S ∧
    (∃ r reply, Returned S₀ 0 r ∧ r.2 = .ok (.reply reply)) ∧ S₀.unused 2 = true ∧
    (∀ i ∈ [0, 1, 2, 3], ∃ r reply, Returned S i r ∧ r.2 = .ok (.reply reply)) ∧
    ∀ w, KeepsRecords S w ∧ NotForkedInto S w := by
  obtain ⟨S₀, hS₀, hfirst⟩ := (Option.any_eq_true _ _).1 bothAttempts_run
  simp only [Bool.and_eq_true] at hfirst
  obtain ⟨⟨hreplied, hunused⟩, hrest⟩ := hfirst
  obtain ⟨S, hS, hsecond⟩ := (Option.any_eq_true _ _).1 hrest
  rw [Bool.and_eq_true, Bool.and_eq_true, List.all_eq_true] at hsecond
  have hspawned : ∀ e ∈ firstAttempt.filterMap spawnedOperation, ∃ i ∈ [0, 1, 2, 3],
      e = (i, (stepAndSendOps i).program (anyName "a")) :=
    List.forall_mem_cons.2 ⟨⟨0, by simp, rfl⟩, List.forall_mem_singleton.2 ⟨1, by simp, rfl⟩⟩
  have hspawned' : ∀ e ∈ secondAttempt.filterMap spawnedOperation, ∃ i ∈ [0, 1, 2, 3],
      e = (i, (stepAndSendOps i).program (anyName "a")) :=
    List.forall_mem_cons.2 ⟨⟨2, by simp, rfl⟩, List.forall_mem_singleton.2 ⟨3, by simp, rfl⟩⟩
  exact ⟨S₀, S, hS₀, hS, Run.of_exec hS₀ fun _ ↦ carries_stepAndSend hspawned,
    Run.of_exec hS fun _ ↦ carries_stepAndSend hspawned', exists_of_repliedOk hreplied, hunused,
    fun i hi ↦ exists_of_repliedOk (hsecond.1 i hi), fun w ↦
      ⟨keepsRecords_of_deletesNothing hsecond.2.1 w, notForkedInto_of_forksNothing hsecond.2.2 w⟩⟩

theorem durable_call_stepAndSend : ∃ S₀ S r reply, exec (System.step server fun _ _ _ ↦ true)
      (System.init oneWaiting 0) firstAttempt = some S₀ ∧
    exec (System.step server fun _ _ _ ↦ true) S₀ secondAttempt = some S ∧ Returned S 2 r ∧
    (stepAndSend 0).Recorded "w" 0 reply S.moment.db := by
  obtain ⟨S₀, S, hS₀, hS, h₀, h, -, hunused, hreplies, hkept⟩ := exists_bothAttempts
  obtain ⟨r, reply, hret, hreply⟩ := hreplies 2 (by simp)
  exact ⟨S₀, S, r, reply, hS₀, hS, hret,
    (durable_call h₀ hunused rfl h (hkept "w").1).2.2 r reply hret hreply⟩

theorem attempts_agree_stepAndSend : ∃ S replies replies',
    Attempt S stepAndSendOps "w" stepAndSendBody 0 replies (.ret 7) ∧
    Attempt S stepAndSendOps "w" stepAndSendBody 0 replies' (.ret 7) ∧ replies.length = 2 ∧
    ∀ (k : ℕ) reply reply', replies[k]? = some reply → replies'[k]? = some reply' →
      reply.Agree reply' := by
  obtain ⟨S₀, S, -, -, h₀, h, -, -, hreplies, hkept⟩ := exists_bothAttempts
  obtain ⟨r, reply, hret, hreply⟩ := hreplies 0 (by simp)
  obtain ⟨r₁, reply₁, hret₁, hreply₁⟩ := hreplies 1 (by simp)
  obtain ⟨r₂, reply₂, hret₂, hreply₂⟩ := hreplies 2 (by simp)
  obtain ⟨r₃, reply₃, hret₃, hreply₃⟩ := hreplies 3 (by simp)
  have hbody : stepAndSendBody.Respects :=
    ⟨readsStored_unit, fun _ _ _ ↦ rfl, fun _ ↦ ⟨trivial, fun _ _ _ ↦ rfl, fun _ ↦ trivial⟩⟩
  have ha : Attempt S stepAndSendOps "w" stepAndSendBody 0 [reply, reply₁] (.ret 7) :=
    .call 0 _ r rfl rfl hret hreply (.call 1 _ r₁ rfl rfl hret₁ hreply₁ (.here _ _))
  have ha' : Attempt S stepAndSendOps "w" stepAndSendBody 0 [reply₂, reply₃] (.ret 7) :=
    .call 2 _ r₂ rfl rfl hret₂ hreply₂ (.call 3 _ r₃ rfl rfl hret₃ hreply₃ (.here _ _))
  exact ⟨S, _, _, ha, ha', rfl, (attempts_agree (h₀.trans h) (hkept "w").1 hbody ha ha').1⟩

theorem step_runs_no_more_stepAndSend : ∃ S₀ S r, Returned S₀ 0 r ∧
    exec (System.step server fun _ _ _ ↦ true) S₀ secondAttempt = some S ∧
    ∀ a ∈ S.answers, a.1 = 2 → a.2.ask.isUserCode = false := by
  obtain ⟨S₀, S, -, hS, h₀, h, ⟨r, reply, hret, hreply⟩, hunused, -, hkept⟩ := exists_bothAttempts
  exact ⟨S₀, S, r, hret, hS, step_runs_no_more h₀ (j := 2) rfl rfl hret hreply hunused rfl rfl id h
    (hkept "w").1⟩

theorem effect_committed_once_stepAndSend : ∃ S : RuntimeSystem Unit,
    (S.moment.db.operation "w" 1).isSome = true ∧
    S.history.countP (System.writesTo (.operationOutputs "w" 1)) =
      (if (S.moment.db.operation "w" 1).isSome then 1 else 0) ∧
    ∃ r, Returned S 1 r := by
  obtain ⟨S₀, S, -, -, h₀, h, -, -, hreplies, hkept⟩ := exists_bothAttempts
  obtain ⟨r, reply, hret, hreply⟩ := hreplies 1 (by simp)
  obtain ⟨hcount, -, -, hsome⟩ :=
    effect_committed_once (h₀.trans h) (hkept "w").1 (hkept "w").2 (n := 1)
    (fun i ↦ Or.inr ⟨_, _, _, _, rfl, rfl, fun _ ↦ rfl⟩) rfl
    (fun k hk ↦ by
      obtain rfl : k = 0 := by omega
      rfl) rfl
  exact ⟨S, hsome 1 ⟨"w", {}⟩ r reply rfl rfl hret hreply, hcount, r, hret⟩

end

end Dbos
