import DbosTransact.JsonText
import DbosTransact.Runtime.Launch

/-!
# Idempotent invocation

Runs in which workflows are started and enqueued any number of times, under ids that may coincide
and on any executors, while queues are polled, bodies run and workflows are cancelled, but none is
recovered, resumed, forked or deleted.

Once a row of such a run is `PENDING` or has come to an end it never waits on a queue again. A
launch is granted either by a claim, which takes the row off its queue, or by an upsert that
returned the caller's own `owner_xid`. That identifier is fresh, so the upsert has inserted the row.
Either way the transaction takes the row over that line, which happens once.
-/

namespace Dbos

open Txn

/-! ### The operations -/

/-- The statements of the runtime that put no workflow back on a queue, count no attempt, and fork
and delete none. -/
def Stmt.isInvoking : Stmt → Bool
  | clearQueueAssignment _ => false
  | resumeWorkflows .. => false
  | deleteWorkflows _ => false
  | collectWorkflows _ => false
  | insertForked .. => false
  | insertWorkflowStatus input =>
    input.increment = 0 && (insertWorkflowStatus input).isRuntime
  | s => s.isRuntime

def Stmt.Invoking (s : Stmt) : Prop := s.isInvoking = true

section

variable {V : Type}

/-- The operations that recover, resume, fork and delete no workflow. -/
def Operation.invoking : Operation V → Bool
  | call (.recover _) => false
  | call (.resume ..) => false
  | call (.fork _) => false
  | call (.delete _) => false
  | call (.collectGarbage ..) => false
  | _ => true

/-- The calls that start or enqueue a workflow. -/
def Call.invokes : Call → Bool
  | runWorkflow .. => true
  | enqueue .. => true
  | clientEnqueue .. => true
  | _ => false

/-- Every session starts, enqueues, polls, or does something else that leaves workflows where they
are. -/
def InvokeStep [SerdeJson] (executor : ℕ → DbosInner) (_ : RuntimeSystem V) (l : RuntimeLabel V) :
    Prop :=
  ∀ i p, l = .spawn i p → ∃ op : Operation V, op.invoking = true ∧ p = op.program (executor i)

variable [SerdeJson]

theorem invoking_run (inner : DbosInner) {op : Operation V} (h : op.invoking = true) :
    Sends Stmt.Invoking (op.run inner) := by
  have start : ∀ input : InsertWorkflowInput, input.status = .pending → input.queueName = none →
      input.increment = 0 → Stmt.Invoking (.insertWorkflowStatus input) := by
    intro input hstatus hqueue hzero
    simp [Stmt.Invoking, Stmt.isInvoking, Stmt.isRuntime, hstatus, hqueue, hzero]
  have enqueue : ∀ input : InsertWorkflowInput, input.status.isQueued = true →
      input.increment = 0 → Stmt.Invoking (.insertWorkflowStatus input) := by
    intro input hstatus hzero
    simp [Stmt.Invoking, Stmt.isInvoking, Stmt.isRuntime, hstatus, hzero]
  cases op with
  | call c =>
    refine Sends.map ?_
    cases c with
    | runWorkflow name input opts parent =>
      exact (sends_startWorkflow inner name input opts parent .portable false start (fun _ ↦ rfl)
        (fun _ _ _ _ ↦ rfl) trivial trivial fun _ ↦ trivial).map
    | enqueue queueName name input opts =>
      exact (sends_enqueueWorkflow enqueue (fun _ ↦ rfl) inner queueName name input opts).map
    | clientEnqueue queueName name encoded opts =>
      exact (sends_clientEnqueue enqueue (fun _ ↦ rfl) queueName name encoded opts).map
    | pollQueue queue =>
      refine Sends.map ((sends_dequeueWorkflows (fun s hs ↦ ?_) _).bind fun claimed ↦
        sends_dispatchEach inner _)
      cases s <;> first | rfl | cases hs
    | complete w fmt result => exact (sends_recordOutcome w fmt result fun _ _ _ _ hout ↦ hout).map
    | awaitResult w polls => exact Sends.map (sends_awaitWorkflowResult (by rfl) polls)
    | cancel ids => exact Sends.map ((sends_ask _).bind fun _ ↦ sends_query rfl)
    | promote => exact Sends.map ((sends_ask _).bind fun _ ↦ sends_query rfl)
    | _ => cases h
  | durable state withinStep n inv =>
    refine Sends.map ?_
    by_cases hchild : inv.kind.isChild = true
    · cases inv with
      | runWorkflow name codec input opts =>
        refine Sends.map ?_
        unfold WorkflowContext.runWorkflow
        split
        · exact sends_throw _
        refine Sends.bind
          ((sends_query (show Stmt.Invoking (.selectChildWorkflowId _ _) from rfl)).bind fun _ ↦
            sends_pure _) ?_
        rintro (- | child)
        · exact (sends_ofExcept _).bind fun encoded ↦ sends_startWorkflow _ _ _ _ _ _ _ start
            (fun _ ↦ rfl) (fun _ _ _ _ ↦ rfl) trivial trivial fun _ ↦ trivial
        · exact sends_pure _
      | _ => cases hchild
    · refine (call_invocation ⟨inner, state, withinStep⟩ n inv fun _ _ ↦ trivial).mono
        (fun s hs ↦ ?_) fun _ ↦ id
      have hnot : inv.kind.isChild = false := Bool.eq_false_iff.2 hchild
      cases s with
      | insertWorkflowStatus input => simp [Stmt.CallOf, Stmt.isCallOf, hnot] at hs
      | _ => first | rfl | cases hs
  | readStream w key codec fromOffset snapshot rounds =>
    exact Sends.map (sends_readStream (fun _ ↦ by rfl) (by rfl) snapshot rounds fromOffset [])
  | readStreamAsync w key codec rounds =>
    exact Sends.map (sends_readStreamAsync (fun _ ↦ by rfl) (by rfl) rounds 0 [])

end

/-! ### The line -/

/-- The workflow is there and waits on no queue. -/
def Left (row : Option WorkflowRow) : Prop := ∃ r, row = some r ∧ r.status.isQueued = false

theorem Stmt.Invoking.queue {s : Stmt} (h : s.Invoking) : s.Queue := by
  cases s with
  | claimWorkflow w version executorId now limited =>
    exact Or.inr ⟨w, version, executorId, now, limited, rfl⟩
  | insertWorkflowStatus input => exact Or.inl (Bool.and_eq_true_iff.1 h).2
  | _ => first | exact Or.inl h | cases h

/-- Nothing brings a workflow back over the line. -/
theorem Stmt.Writes.left {s : Stmt} {id : String} {old new : Option WorkflowRow}
    (h : s.Writes (.workflowStatus id) old new) (hs : s.Invoking) (hold : Left old) : Left new := by
  obtain ⟨r, rfl, hr⟩ := hold
  refine (h.not_queued hs.queue hr).resolve_left fun hrequeue ↦ ?_
  cases s <;> first | cases hrequeue | cases hs

/-- A statement keeps the `owner_xid` of a row, or inserts it; a fork has none. -/
theorem Stmt.Writes.ownerXid {s : Stmt} {id : String} {old : Option WorkflowRow} {new : WorkflowRow}
    (h : s.Writes (.workflowStatus id) old (some new)) :
    (∃ r, old = some r ∧ new.ownerXid = r.ownerXid) ∨ new.ownerXid = none ∨
      ∃ input, s = .insertWorkflowStatus input ∧ new.ownerXid = some input.ownerXid := by
  cases h with
  | insertNew input => exact Or.inr (Or.inr ⟨input, rfl, rfl⟩)
  | fork w fork => exact Or.inr (Or.inl rfl)
  | _ => exact Or.inl ⟨_, rfl, rfl⟩

/-- An upsert that returned the `owner_xid` of its caller has inserted the row, when no row had that
one before. -/
theorem Upsert.old_of_runs {u : Upsert} (h : u.runs false = true)
    (hfresh : ∀ r, u.old = some r → r.ownerXid ≠ some u.input.ownerXid) : u.old = none := by
  by_contra hne
  obtain ⟨r, hr⟩ := Option.ne_none_iff_exists'.1 hne
  have howner : u.result.ownerXid = r.ownerXid := by
    rw [Upsert.result, Upsert.row, hr]
    rfl
  simp only [Upsert.runs, shouldSkip, Bool.and_eq_true, Bool.not_eq_true', Bool.or_eq_false_iff,
    Bool.not_false, Bool.true_and, decide_eq_false_iff_not, not_not] at h
  exact hfresh r hr (howner ▸ h.2.2)

/-! ### Runs -/

section

variable {V : Type}

/-- The session is done, with this result. -/
def Returned (S : RuntimeSystem V) (i : ℕ) (r : OperationResult V) : Prop :=
  ∃ s, S.sessions.lookup i = some s ∧ s.prog = .pure r

/-- Identifiers are fresh: no two sessions were given the same one, and none is the `owner_xid` the
workflow has in the beginning. -/
structure FreshOwners (db₀ : Db) (id : String) (S : RuntimeSystem V) : Prop where
  distinct : ∀ i j x, Asked (S.traceOf i) x → Asked (S.traceOf j) x → i = j
  initial : ∀ i x r, Asked (S.traceOf i) x → db₀.workflow id = some r → r.ownerXid ≠ some x

/-- Session `i` has inserted the row of the workflow, by the `n`th commit. -/
def InsertedAt (S : RuntimeSystem V) (id : String) (n i : ℕ) : Prop :=
  ∃ c, S.history[n]? = some c ∧ c.session = i ∧
    ∃ u : Upsert, u.Commits c.toEffect ∧ u.input.workflowId = id ∧ u.old = none

variable [SerdeJson] {valid : DbMoment → (q : Ask) → q.Ans → Bool}
variable {executor : ℕ → DbosInner} {db₀ : Db} {time : ℤ} {S : RuntimeSystem V} {id : String}

/-- What is known of a run in which the row of the workflow was written by statements that recover,
resume, fork and delete nothing. -/
structure Invoked (valid : DbMoment → (q : Ask) → q.Ans → Bool) (executor : ℕ → DbosInner)
    (db₀ : Db) (S : RuntimeSystem V) (id : String) : Prop
    extends Launched valid executor db₀ S where
  invoking : ∀ w ∈ System.written S.history, w.key = .workflowStatus id → w.stmt.Invoking

theorem invoked_of_run
    (h : Run (System.step server valid) (InvokeStep executor) (System.init db₀ time) S) :
    Invoked valid executor db₀ S id where
  toLaunched := launched_of_run (h.mono fun _ _ hl i p hp ↦ (hl i p hp).imp fun _ hop ↦ hop.2)
  invoking := by
    have hall :=
      (System.all_of_run (P := fun _ ↦ Stmt.Invoking) (A := fun _ _ ↦ True) (fun S i p hp ↦ by
      obtain ⟨op, hop, rfl⟩ := hp i p rfl
      exact Prog.All.bind (invoking_run (executor i) hop) fun _ ↦ trivial) h).1
    intro w hw _
    obtain ⟨c, hc, hw⟩ := List.mem_flatMap.1 hw
    exact hall c hc w hw

variable {n : ℕ} {c : Commit Db Key Row Stmt} {u : Upsert}

/-- No row has the `owner_xid` of an upsert before its transaction, unless this counts an attempt.
-/
theorem Launched.owner_fresh (h : Launched valid executor db₀ S) (hfresh : FreshOwners db₀ id S)
    (hc : S.history[n]? = some c) (hu : UpsertedAt executor S n c u)
    (hid : u.input.workflowId = id) (hzero : u.input.increment = 0) {r : WorkflowRow}
    (hr : u.old = some r) : r.ownerXid ≠ some u.input.ownerXid := by
  obtain ⟨hcommits, hasked, -, hfirst⟩ := hu
  subst hid
  -- what the earlier transactions left there
  have hkept := h.consistent.keeps (Nat.zero_le n) (k := .workflowStatus u.input.workflowId)
    (P := fun row : Option WorkflowRow ↦ ∀ r, row = some r → r.ownerXid ≠ some u.input.ownerXid)
    (fun r hr ↦ hfresh.initial _ _ r hasked hr) ?_
  · obtain ⟨hxid, -, hshows, -, -⟩ := h.consistent.commit hc
    refine hkept r ?_
    rw [← hr, ← hcommits.old, hshows.db, hxid]
    rfl
  · rintro old new s hmem hwritten hold r rfl howner
    have hwrites : s.Writes (.workflowStatus u.input.workflowId) old (some r) :=
      h.consistent.legal _ hwritten
    rcases hwrites.ownerXid with ⟨r', rfl, heq⟩ | hnone | ⟨input, rfl, heq⟩
    · exact hold r' rfl (heq ▸ howner)
    · rw [hnone] at howner
      cases howner
    · -- the identifier was given to this session, whose first upsert this is
      rw [List.drop_zero] at hmem
      obtain ⟨d, hd, hwd⟩ := List.mem_flatMap.1 hmem
      obtain ⟨m, hm⟩ := List.mem_iff_getElem?.1 hd
      have hlt : m < n := by
        have hlen := (List.getElem?_eq_some_iff.1 hm).1
        rw [List.length_take] at hlen
        omega
      rw [List.getElem?_take_of_lt hlt] at hm
      obtain ⟨u', ⟨-, hasked', -, -⟩, heq'⟩ := h.upserts hm hwd rfl
      have hinput : input = u'.input := Stmt.insertWorkflowStatus.inj (congrArg Write.stmt heq')
      have hsame : u'.input.ownerXid = u.input.ownerXid := by
        rw [← hinput]
        exact Option.some.inj (heq.symm.trans howner)
      rw [hsame] at hasked'
      have hsession := hfresh.distinct _ _ _ hasked' hasked
      have hnone := hfirst hzero m d hlt hm hsession _ hwd
      cases hnone

namespace Invoked

theorem writes (h : Invoked valid executor db₀ S id) {old new : Option WorkflowRow}
    {s : Stmt} (hw : (⟨.workflowStatus id, old, new, s⟩ : DbWrite) ∈ System.written S.history) :
    s.Writes (.workflowStatus id) old new ∧ s.Invoking :=
  ⟨h.consistent.legal _ hw, h.invoking _ hw rfl⟩

theorem left (h : Invoked valid executor db₀ S id) (old new : Option WorkflowRow)
    (s : Stmt) (hw : (⟨.workflowStatus id, old, new, s⟩ : DbWrite) ∈ System.written S.history)
    (hold : Left old) : Left new :=
  (h.writes hw).1.left (h.writes hw).2 hold

/-- No row has the `owner_xid` of an upsert before its transaction. -/
theorem owner_fresh (h : Invoked valid executor db₀ S id) (hfresh : FreshOwners db₀ id S)
    (hc : S.history[n]? = some c) {w : DbWrite} (hw : w ∈ c.writes) (hup : w.stmt.isUpsert = true)
    (hkey : w.key = .workflowStatus id) : ∃ u : Upsert, u.Commits c.toEffect ∧
      u.input.workflowId = id ∧
      w = ⟨.workflowStatus id, u.old, some u.row, .insertWorkflowStatus u.input⟩ ∧
      ∀ r, u.old = some r → r.ownerXid ≠ some u.input.ownerXid := by
  obtain ⟨u, hu, rfl⟩ := h.upserts hc hw hup
  obtain rfl : u.input.workflowId = id := Key.workflowStatus.inj hkey
  have hzero : u.input.increment = 0 := by
    have hinvoking := h.invoking _ (List.mem_flatMap.2 ⟨c, List.mem_of_getElem? hc, hw⟩) rfl
    exact of_decide_eq_true (Bool.and_eq_true_iff.1 hinvoking).1
  exact ⟨u, hu.commits, rfl, rfl, fun r hr ↦ h.toLaunched.owner_fresh hfresh hc hu rfl hzero hr⟩

/-- A transaction that grants a launch takes the workflow over the line. -/
theorem leaves (h : Invoked valid executor db₀ S id) (hfresh : FreshOwners db₀ id S)
    (hc : S.history[n]? = some c) (hgrants : grants (executor c.session) id c.toEffect = true) :
    ¬Left (c.moment.db.workflow id) ∧ Left ((server.apply c.moment.db c.writes).workflow id) := by
  obtain ⟨-, -, -, hchain, -⟩ := h.consistent.commit hc
  have hin : ∀ w ∈ c.writes, w ∈ System.written S.history := fun w hw ↦
    List.mem_flatMap.2 ⟨c, List.mem_of_getElem? hc, hw⟩
  have crosses : ∀ old new s, (⟨.workflowStatus id, old, new, s⟩ : DbWrite) ∈ c.writes →
      ¬Left old → Left new →
      ¬Left (c.moment.db.workflow id) ∧ Left ((server.apply c.moment.db c.writes).workflow id) := by
    intro old new s hw hold hnew
    have hmem := hchain.of_mem hw (P := Left) fun old new s hw ↦ h.left old new s (hin _ hw)
    exact ⟨fun hbefore ↦ hold (hmem.1 hbefore), hmem.2 hnew⟩
  obtain ⟨w, hw, hwhy⟩ := List.any_eq_true.1 hgrants
  rcases Bool.or_eq_true_iff.1 hwhy with hclaim | hruns
  · obtain ⟨old, new, s, rfl, hold, hnew⟩ := isClaim_iff.1 hclaim
    refine crosses _ _ s hw ?_ ⟨new, rfl, by rw [hnew]; rfl⟩
    rintro ⟨r, hr, hqueued⟩
    cases hr
    rw [hold] at hqueued
    cases hqueued
  · obtain ⟨v, row, rfl, hstatus, hruns⟩ := exists_of_runsBody hruns
    obtain ⟨u, -, -, heq, hfresh⟩ := h.owner_fresh hfresh hc hw rfl rfl
    obtain ⟨hold, hrow, hinput⟩ : v.old = u.old ∧ row = u.row ∧ v.input = u.input := by
      simpa using heq
    have hzero : u.input.increment = 0 :=
      of_decide_eq_true (Bool.and_eq_true_iff.1 (hinput ▸ h.invoking _ (hin _ hw) rfl)).1
    have hrecovery : decide (v.input.increment = 1) = false := by
      rw [hinput, hzero]
      rfl
    rw [hrecovery] at hruns
    have hnone : v.old = none := Upsert.old_of_runs hruns (by rw [hold, hinput]; exact hfresh)
    refine crosses _ _ _ hw ?_ ⟨row, rfl, ?_⟩
    · rw [hnone]
      rintro ⟨r, hr, -⟩
      cases hr
    · rw [hrow, Upsert.row, ← hold, hnone, ← hinput, InsertWorkflowInput.row, hstatus]
      rfl

/-- The body of the workflow is launched at most once. -/
theorem launches_le_one (h : Invoked valid executor db₀ S id) (hfresh : FreshOwners db₀ id S) :
    S.answers.countP (fun a ↦ launches id a.2) ≤ 1 :=
  (h.launches_le_grants id).trans (h.consistent.countP_le_one (k := .workflowStatus id) (P := Left)
    (fun old new s hw ↦ h.left old new s hw) fun _ _ hc hgrants ↦ h.leaves hfresh hc hgrants)

/-- The row of the workflow is never taken away. -/
theorem present (h : Invoked valid executor db₀ S id) {m : ℕ} (hnm : n ≤ m) {r : WorkflowRow}
    (hr : (System.stateAt server db₀ S.history n).workflow id = some r) :
    ∃ r, (System.stateAt server db₀ S.history m).workflow id = some r := by
  refine h.consistent.keeps hnm (k := .workflowStatus id)
    (P := fun row : Option WorkflowRow ↦ ∃ r, row = some r) ⟨r, hr⟩ ?_
  rintro - new s - hw ⟨old, rfl⟩
  obtain ⟨hwrites, hinvoking⟩ := h.writes hw
  cases hwrites with
  | delete ids k old _ => cases hinvoking
  | collect cutoff w old _ => cases hinvoking
  | collectCascade cutoff k old hk => exact (hk id rfl).elim
  | _ => exact ⟨_, rfl⟩

/-- What a session with a handle has done: it has inserted the row, or it launches nothing. -/
theorem inserted_of_handled (h : Invoked valid executor db₀ S id) (hfresh : FreshOwners db₀ id S)
    {i : ℕ} {g : WorkflowHandle} (hg : g.id = id) (hhandled : Handled g (S.traceOf i)) :
    (∃ n, InsertedAt S id n i) ∨
      g.kind = .polling ∧ ∀ a, (i, a) ∈ S.answers → launches id a = false := by
  obtain ⟨u, e, he, hcommits, hid, hasked, hruns | ⟨hkind, hnone⟩⟩ := hhandled
  · obtain ⟨c, hc, hsession, rfl⟩ := System.mem_effects_traceOf.1 he
    obtain ⟨n, hn⟩ := List.mem_iff_getElem?.1 hc
    obtain ⟨child, hwrites, -⟩ := hcommits.writes
    have hin : (⟨.workflowStatus u.input.workflowId, u.old, some u.row,
        .insertWorkflowStatus u.input⟩ : DbWrite) ∈ c.writes := by
      rw [show c.writes = _ from hwrites, Upsert.writes]
      exact List.mem_append_left _ List.mem_cons_self
    obtain ⟨u', -, -, heq, hfresh⟩ := h.owner_fresh hfresh hn hin rfl (by rw [hid, hg])
    obtain ⟨-, hold, -, hinput⟩ : u.input.workflowId = id ∧ u.old = u'.old ∧ u.row = u'.row ∧
        u.input = u'.input := by simpa using heq
    have hnone : u.old = none := Upsert.old_of_runs hruns (by rw [hold, hinput]; exact hfresh)
    exact Or.inl ⟨n, c, hn, hsession, u, hcommits, hid.trans hg, hnone⟩
  · exact Or.inr ⟨hkind, fun a ha ↦ launches_of_noSpawn (hnone a (System.mem_answers_traceOf.2 ha))⟩

/-- The state before a commit. -/
theorem before (h : Invoked valid executor db₀ S id) (hc : S.history[n]? = some c) :
    c.moment.db = System.stateAt server db₀ S.history n := by
  obtain ⟨hxid, -, hshows, -, -⟩ := h.consistent.commit hc
  rw [hshows.db, hxid]

/-- A row is inserted once. -/
theorem insertedAt_unique (h : Invoked valid executor db₀ S id) {m i j : ℕ}
    (hn : InsertedAt S id n i) (hm : InsertedAt S id m j) : n = m ∧ i = j := by
  have notLater : ∀ {n m i j}, InsertedAt S id n i → InsertedAt S id m j → ¬n < m := by
    rintro n m i j ⟨c, hc, -, u, hcommits, rfl, -⟩ ⟨d, hd, -, v, hcommits', hid, hnone⟩ hlt
    have hafter : (System.stateAt server db₀ S.history (n + 1)).workflow u.input.workflowId =
        some u.final := by
      rw [System.stateAt_succ db₀ hc, ← h.before hc]
      exact hcommits.after
    obtain ⟨r, hr⟩ := h.present (Nat.succ_le_of_lt hlt) hafter
    have hbefore := hcommits'.old
    rw [hid, hnone, show d.toEffect.moment.db = _ from h.before hd, hr] at hbefore
    cases hbefore
  obtain rfl : n = m := le_antisymm (not_lt.1 (notLater hm hn)) (not_lt.1 (notLater hn hm))
  obtain ⟨c, hc, rfl, -⟩ := hn
  obtain ⟨d, hd, rfl, -⟩ := hm
  rw [hc] at hd
  cases hd
  exact ⟨rfl, rfl⟩

/-- A workflow that was not there and is started or enqueued is inserted. -/
theorem exists_insertedAt (h : Invoked valid executor db₀ S id) (hfirst : db₀.workflow id = none)
    (hc : S.history[n]? = some c) (hcommits : u.Commits c.toEffect)
    (hid : u.input.workflowId = id) : ∃ n i, InsertedAt S id n i := by
  by_contra hnever
  push Not at hnever
  have hkept := h.consistent.keeps (Nat.zero_le n) (k := .workflowStatus id)
    (P := fun row : Option WorkflowRow ↦ row = none) hfirst ?_
  · refine hnever n c.session ⟨c, hc, rfl, u, hcommits, hid, ?_⟩
    rw [← hcommits.old, hid, show c.toEffect.moment.db = _ from h.before hc]
    exact hkept
  · rintro - new s hmem hwritten rfl
    obtain ⟨hwrites, hinvoking⟩ := h.writes hwritten
    obtain ⟨-, m, d, -, -, hm, hwd⟩ := System.exists_commit_of_written hmem
    rcases new with - | new
    · rfl
    · cases hwrites with
      | insertNew input =>
        obtain ⟨v, ⟨hcommits', -, -, -⟩, heq⟩ := h.upserts hm hwd rfl
        obtain ⟨hid', hnone, -⟩ : input.workflowId = v.input.workflowId ∧ none = v.old ∧
            some input.row = some v.row ∧ input = v.input := by simpa using heq
        exact (hnever m d.session ⟨d, hm, rfl, v, hcommits', hid'.symm, hnone.symm⟩).elim
      | fork w fork => cases hinvoking

end Invoked

/-! ### Starts alone -/

/-- The operation is a call of `start_workflow`. -/
def Operation.isStart : Operation V → Bool
  | call (.runWorkflow ..) => true
  | _ => false

/-- The statements of a start: it claims nothing and counts no attempt. -/
def Stmt.isStarting : Stmt → Bool
  | insertWorkflowStatus input => input.increment = 0
  | deadLetter _ => true
  | insertOperation .. => true
  | _ => false

def Stmt.Starting (s : Stmt) : Prop := s.isStarting = true

theorem starting_program (inner : DbosInner) {op : Operation V} (h : op.isStart = true) :
    (op.program inner).All Stmt.Starting fun _ ↦ True := by
  cases op with
  | call c =>
    cases c with
    | runWorkflow name input opts parent =>
      have hrun :
          Sends Stmt.Starting (startWorkflow inner name input opts parent .portable false) :=
        sends_startWorkflow inner name input opts parent .portable false
          (fun _ _ _ hzero ↦ decide_eq_true hzero) (fun _ ↦ rfl) (fun _ _ _ _ ↦ rfl) trivial trivial
          fun _ ↦ trivial
      exact Prog.All.bind (Sends.map hrun.map) fun _ ↦ trivial
    | _ => cases h
  | _ => cases h

omit [SerdeJson] in
/-- No statement of a start takes a workflow off its queue. -/
theorem Stmt.Writes.status_of_starting {s : Stmt} {old new : WorkflowRow}
    (h : s.Writes (.workflowStatus id) (some old) (some new)) (hs : s.Starting)
    (hold : old.status = .enqueued) : new.status ≠ .pending := by
  cases h with
  | insertConflict input =>
    show old.status ≠ .pending
    rw [hold]
    decide
  | deadLetter w r hpending =>
    rw [hold] at hpending
    cases hpending
  | _ => cases hs

/-- The row of the workflow has not been deleted. -/
def KeepsWorkflow (S : RuntimeSystem V) (id : String) : Prop :=
  ∀ old s, (⟨.workflowStatus id, old, none, s⟩ : DbWrite) ∉ System.written S.history

/-- A transaction that lets a start launch the workflow has inserted its row. -/
theorem Launched.inserts_of_starts (h : Launched valid executor db₀ S)
    (hfresh : FreshOwners db₀ id S) (hkept : KeepsWorkflow S id) (hc : S.history[n]? = some c)
    (hstarts : ∀ w ∈ c.writes, w.stmt.Starting)
    (hgrants : grants (executor c.session) id c.toEffect = true) :
    ¬(c.moment.db.workflow id).isSome = true ∧
      ((server.apply c.moment.db c.writes).workflow id).isSome = true := by
  obtain ⟨-, -, -, hchain, -⟩ := h.consistent.commit hc
  have hin : ∀ w ∈ c.writes, w ∈ System.written S.history := fun w hw ↦
    List.mem_flatMap.2 ⟨c, List.mem_of_getElem? hc, hw⟩
  obtain ⟨w, hw, hwhy⟩ := List.any_eq_true.1 hgrants
  rcases Bool.or_eq_true_iff.1 hwhy with hclaim | hruns
  · obtain ⟨old, new, s, rfl, hold, hnew⟩ := isClaim_iff.1 hclaim
    have hwrites : s.Writes (.workflowStatus id) (some old) (some new) :=
      h.consistent.legal _ (hin _ hw)
    exact (hwrites.status_of_starting (hstarts _ hw) hold hnew).elim
  · obtain ⟨v, row, rfl, -, hruns⟩ := exists_of_runsBody hruns
    obtain ⟨u, hu, heq⟩ := h.upserts hc hw rfl
    obtain ⟨hid, hold, -, hinput⟩ : id = u.input.workflowId ∧ v.old = u.old ∧ row = u.row ∧
        v.input = u.input := by simpa using heq
    have hzero : u.input.increment = 0 := hinput ▸ of_decide_eq_true (hstarts _ hw)
    have hfirst : decide (v.input.increment = 1) = false := by
      rw [hinput, hzero]
      rfl
    rw [hfirst] at hruns
    have hnone : v.old = none := Upsert.old_of_runs hruns (by
      rw [hold, hinput]
      exact fun r hr ↦ h.owner_fresh hfresh hc hu hid.symm hzero hr)
    have hmem := hchain.of_mem hw (P := fun r : Option WorkflowRow ↦ r.isSome = true) ?_
    · refine ⟨fun hbefore ↦ ?_, hmem.2 rfl⟩
      have hsome := hmem.1 hbefore
      rw [hnone] at hsome
      cases hsome
    · rintro old (- | new) s hw -
      · exact (hkept _ _ (hin _ hw)).elim
      · rfl

/-- However often a workflow is started, and whatever else the run does with it, as long as its row
is not deleted all the starts together launch its body at most once. -/
theorem Launched.starts_le_one (h : Launched valid executor db₀ S) (hfresh : FreshOwners db₀ id S)
    (hkept : KeepsWorkflow S id) (among : ℕ → Bool)
    (hstarts : ∀ c ∈ S.history, among c.session = true → ∀ w ∈ c.writes, w.stmt.Starting) :
    S.answers.countP (fun a ↦ among a.1 && launches id a.2) ≤ 1 := by
  refine (h.launches_of_le_grants id among).trans (h.consistent.countP_le_one
    (k := .workflowStatus id) (P := fun r : Option WorkflowRow ↦ r.isSome = true) ?_ ?_)
  · rintro old (- | new) s hw -
    · exact (hkept _ _ hw).elim
    · rfl
  · intro n c hc hboth
    obtain ⟨hamong, hgrants⟩ := Bool.and_eq_true_iff.1 hboth
    exact h.inserts_of_starts hfresh hkept hc (hstarts c (List.mem_of_getElem? hc) hamong) hgrants

/-- **Idempotent invocation.** In every run of operations that recover, resume, fork and delete
nothing, with fresh identifiers: the body of a workflow is launched at most once; and if the
workflow was not there and a call has returned a handle to it, exactly one session has inserted its
row, and every other session with a handle to it has a polling one and has launched nothing. -/
theorem invocation_idempotent
    (h : Run (System.step server valid) (InvokeStep executor) (System.init db₀ time) S)
    (hfresh : FreshOwners db₀ id S) :
    S.answers.countP (fun a ↦ launches id a.2) ≤ 1 ∧
      (db₀.workflow id = none → ∀ i call g,
        Returned S i (.call call, .ok (.call (.handle g))) → call.invokes = true → g.id = id →
        ∃ n j, InsertedAt S id n j ∧ (∀ n' j', InsertedAt S id n' j' → n' = n ∧ j' = j) ∧
          ∀ i r g, Returned S i r → r.handle = some g → g.id = id → i = j ∨
            g.kind = .polling ∧ ∀ a, (i, a) ∈ S.answers → launches id a = false) := by
  have hinv : Invoked valid executor db₀ S id := invoked_of_run h
  refine ⟨hinv.launches_le_one hfresh, fun hfirst i call g hret hcall hg ↦ ?_⟩
  have handled : ∀ {i r g}, Returned S i r → r.handle = some g →
      Handled g (S.traceOf i) ∨ r.1.isDurable = true ∧ g.kind = .polling ∧
        ∀ a ∈ (S.traceOf i).answers, NoSpawn a := by
    rintro i r g ⟨s, hs, hprog⟩ hhandle
    exact hinv.sound.returned hs hprog g hhandle
  have hstarts :
      OperationResult.handle ((.call call, .ok (.call (.handle g))) : OperationResult V) =
        some g := by
    rw [OperationResult.handle, if_pos]
    cases call <;> first | rfl | cases hcall
  obtain ⟨u, e, he, hcommits, hid, -⟩ := (handled hret hstarts).resolve_right (by rintro ⟨⟨⟩, -⟩)
  obtain ⟨c, hc, -, rfl⟩ := System.mem_effects_traceOf.1 he
  obtain ⟨n, hn⟩ := List.mem_iff_getElem?.1 hc
  obtain ⟨n, j, hnj⟩ := hinv.exists_insertedAt hfirst hn hcommits (hid.trans hg)
  refine ⟨n, j, hnj, fun n' j' h' ↦ hinv.insertedAt_unique h' hnj, fun i r g hret hhandle hg ↦ ?_⟩
  rcases handled hret hhandle with hhandled | ⟨-, hkind, hnone⟩
  · rcases hinv.inserted_of_handled hfresh hg hhandled with ⟨m, hm⟩ | hpolling
    · exact Or.inl (hinv.insertedAt_unique hm hnj).2
    · exact Or.inr hpolling
  · exact Or.inr ⟨hkind, fun a ha ↦ launches_of_noSpawn (hnone a (System.mem_answers_traceOf.2 ha))⟩

end

/-! ### A workflow started here and enqueued there -/

section

local instance invokeJson : SerdeJson := JsonText.jsonText

/-- The identifier a session was given. -/
def givenUuid (a : DbAnswer) : Option String :=
  match a with
  | ⟨_, .newUuid, x⟩ => some x
  | _ => none

theorem freshOwners_of_all {V : Type} {S : RuntimeSystem V} {db₀ : Db} {id : String}
    (hfirst : db₀.workflow id = none)
    (h : (S.answers.all fun a ↦ S.answers.all fun b ↦
      (givenUuid a.2).isNone || givenUuid a.2 ≠ givenUuid b.2 || a.1 = b.1) = true) :
    FreshOwners db₀ id S where
  distinct := by
    rintro i j x ⟨m, hm⟩ ⟨m', hm'⟩
    have hpair := List.all_eq_true.1 (List.all_eq_true.1 h _ (System.mem_answers_traceOf.1 hm)) _
      (System.mem_answers_traceOf.1 hm')
    simpa [givenUuid] using hpair
  initial := by
    intro i x r _ hr
    rw [hfirst] at hr
    cases hr

/-- Whether a session has returned a handle to the workflow from a start or an enqueue. -/
def returnedTo (id : String)
    (s : Session Db Key Row Stmt Stmt.Res SqlError Ask Ask.Ans (OperationResult ℤ)) : Bool :=
  match s.prog with
  | .pure (.call call, .ok (.call (.handle g))) => call.invokes && g.id = id
  | _ => false

theorem exists_of_returnedTo {id : String} {S : RuntimeSystem ℤ} {i : ℕ}
    (h : (S.sessions.lookup i).any (returnedTo id) = true) : ∃ call g,
      Returned S i (.call call, .ok (.call (.handle g))) ∧ call.invokes = true ∧ g.id = id := by
  obtain ⟨s, hs, hret⟩ := (Option.any_eq_true _ _).1 h
  unfold returnedTo at hret
  split at hret
  · rename_i call g hprog
    obtain ⟨hcall, hg⟩ := Bool.and_eq_true_iff.1 hret
    exact ⟨call, g, ⟨s, hs, hprog⟩, hcall, of_decide_eq_true hg⟩
  · cases hret

/-- Session 0 starts `w` while session 1 enqueues it on another executor. -/
def startAndEnqueue : List (RuntimeLabel ℤ) :=
  [.spawn 0 (Operation.program (anyName "a")
      (.call (.runWorkflow "f" none { workflowId := some "w" } none))),
    .spawn 1 (Operation.program (anyName "a")
      (.call (.enqueue "q" "f" none { workflowId := some "w" }))),
    .answer 0 (answersAt 1 ""), .answer 0 (answersAt 1 "x"),
    .answer 1 (answersAt 1 ""), .answer 1 (answersAt 1 "y")] ++
  commandOne 0 ++ commandOne 1 ++ sendOne 0 ++ commandOne 0 ++ sendOne 1 ++ commandOne 1 ++
  commandOne 0 ++ answerOne 0 2 ++ commandOne 1

theorem invocation_idempotent_startAndEnqueue : ∃ S : RuntimeSystem ℤ,
    exec (System.step server fun _ _ _ ↦ true) (System.init {} 0) startAndEnqueue = some S ∧
      S.answers.countP (fun a ↦ launches "w" a.2) ≤ 1 ∧
      ∃ n j, InsertedAt S "w" n j ∧ (∀ n' j', InsertedAt S "w" n' j' → n' = n ∧ j' = j) ∧
        ∀ i r g, Returned S i r → r.handle = some g → g.id = "w" → i = j ∨
          g.kind = .polling ∧ ∀ a, (i, a) ∈ S.answers → launches "w" a = false := by
  have hrun : (exec (System.step server fun _ _ _ ↦ true) (System.init {} 0) startAndEnqueue).any
      (fun S ↦ (S.sessions.lookup 0).any (returnedTo "w") && S.answers.all fun a ↦
        S.answers.all fun b ↦
          (givenUuid a.2).isNone || givenUuid a.2 ≠ givenUuid b.2 || a.1 = b.1) = true := by
    decide +kernel
  have hops : ∀ S, ∀ l ∈ startAndEnqueue, InvokeStep (V := ℤ) (fun _ ↦ anyName "a") S l := by
    rintro S l hl i p rfl
    have hmem : (i, p) ∈ startAndEnqueue.filterMap spawnedOperation :=
      List.mem_filterMap.2 ⟨_, hl, rfl⟩
    rcases List.mem_cons.1 hmem with heq | hmem
    · cases heq
      exact ⟨_, rfl, rfl⟩
    · cases List.mem_singleton.1 hmem
      exact ⟨_, rfl, rfl⟩
  obtain ⟨S, hS, hdone⟩ := (Option.any_eq_true _ _).1 hrun
  obtain ⟨hret, huuid⟩ := Bool.and_eq_true_iff.1 hdone
  obtain ⟨call, g, hret, hcall, hg⟩ := exists_of_returnedTo hret
  obtain ⟨hone, hinserted⟩ := invocation_idempotent (Run.of_exec hS hops)
    (freshOwners_of_all (rfl : ({} : Db).workflow "w" = none) huuid)
  exact ⟨S, hS, hone, hinserted rfl 0 call g hret hcall hg⟩

end

end Dbos
