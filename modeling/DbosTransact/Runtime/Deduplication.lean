import DbosTransact.Foundation.Unique
import DbosTransact.Runtime.Hanging
import DbosTransact.Runtime.Replay

/-!
# Deduplication

A workflow enqueued with a deduplication id is to keep other enqueues with that id off its queue for
as long as it has not come to an end. The partial unique index on `(queue_name, deduplication_id)`
sees the columns only: a row occupies the slot that these two name (`WorkflowRow.dedupSlot`), and
the index lets no two rows occupy the same one (`Txn.System.uniqueIn_stateAt`).

What is left to show is that a row occupies the slot it was enqueued with for exactly as long as it
is live. The cancellation, the outcome and the dead-letter update clear the column as they end the
workflow, and everything else that changes a row leaves the two columns alone, but for
`resume_workflows`: it clears the column of a workflow that goes on. When that is not done to a
workflow enqueued with a deduplication id, at most one live workflow has been enqueued with each,
and an enqueue is refused exactly when there is one (`dedup_exclusive`).
-/

namespace Dbos

open Txn

/-! ### Slots -/

/-- The slot of a row, if it has a queue and a deduplication id. -/
def WorkflowRow.dedupSlot (r : WorkflowRow) : Option (String × String) :=
  r.queueName.bind fun q ↦ r.deduplicationId.map fun d ↦ (q, d)

def dedupSlot : (k : Key) → Row k → Option (String × String)
  | .workflowStatus _ => fun r : WorkflowRow ↦ r.dedupSlot
  | _ => fun _ ↦ none

section

variable {r : WorkflowRow} {q d : String}

theorem WorkflowRow.dedupSlot_eq :
    r.dedupSlot = some (q, d) ↔ r.queueName = some q ∧ r.deduplicationId = some d := by
  simp [WorkflowRow.dedupSlot, Option.bind_eq_some_iff]

theorem WorkflowRow.dedupSlot_of_none (h : r.deduplicationId = none) : r.dedupSlot = none := by
  rw [WorkflowRow.dedupSlot, h]
  cases r.queueName <;> rfl

/-- Two rows with one slot are what the unique index looks for. -/
theorem Stmt.sameDedup_iff {input : InsertWorkflowInput} :
    Stmt.sameDedup input r = true ↔
      ∃ x, input.row.dedupSlot = some x ∧ r.dedupSlot = some x := by
  simp only [Stmt.sameDedup, Bool.and_eq_true, decide_eq_true_eq, Option.isSome_iff_exists]
  constructor
  · rintro ⟨⟨⟨⟨d, hd⟩, q, hq⟩, hdedup⟩, hqueue⟩
    exact ⟨(q, d), WorkflowRow.dedupSlot_eq.2 ⟨hqueue.symm.trans hq, hdedup.symm.trans hd⟩,
      WorkflowRow.dedupSlot_eq.2 ⟨hq, hd⟩⟩
  · rintro ⟨⟨q, d⟩, hinput, hr⟩
    obtain ⟨hqueue, hdedup⟩ := WorkflowRow.dedupSlot_eq.1 hinput
    obtain ⟨hq, hd⟩ := WorkflowRow.dedupSlot_eq.1 hr
    exact ⟨⟨⟨⟨d, hd⟩, q, hq⟩, hd.trans hdedup.symm⟩, hq.trans hqueue.symm⟩

end

theorem occupies_dedupSlot {db : Db} {k : Key} {x : String × String} :
    Occupies server dedupSlot db k x ↔
      ∃ id r, k = .workflowStatus id ∧ db.workflow id = some r ∧ r.dedupSlot = some x := by
  constructor
  · rintro ⟨r, hr, hslot⟩
    cases k with
    | workflowStatus id => exact ⟨id, r, rfl, hr, hslot⟩
    | _ => cases hslot
  · rintro ⟨id, r, rfl, hr, hslot⟩
    exact ⟨r, hr, hslot⟩

/-- Only an insert brings a row into a slot. -/
theorem Stmt.Writes.dedupSlot {s : Stmt} {id : String} {old : Option WorkflowRow}
    {new : WorkflowRow} {x : String × String} (h : s.Writes (.workflowStatus id) old (some new))
    (hx : new.dedupSlot = some x) : (∃ r, old = some r ∧ r.dedupSlot = some x) ∨
      old = none ∧ ∃ input, s = .insertWorkflowStatus input ∧ new = input.row := by
  have cleared : ∀ {r : WorkflowRow}, r.deduplicationId = none → r.dedupSlot ≠ some x := by
    intro r hr hslot
    rw [WorkflowRow.dedupSlot_of_none hr] at hslot
    cases hslot
  cases h with
  | insertNew input => exact Or.inr ⟨rfl, input, rfl, rfl⟩
  | deadLetter w r _ => exact (cleared rfl hx).elim
  | outcome w status output error now r _ => exact (cleared rfl hx).elim
  | cancel ids now w r _ _ => exact (cleared rfl hx).elim
  | resume ids q now w r _ _ => exact (cleared rfl hx).elim
  | fork w fork => exact (cleared rfl hx).elim
  | _ => exact Or.inl ⟨_, rfl, hx⟩

/-! ### The unique index -/

/-- What an insert of a workflow has seen when it is carried out. -/
theorem Stmt.insertWorkflowStatus_free {v : DbView Stmt} {input : InsertWorkflowInput}
    {a : InsertReturningRow} {ch : Changes} (h : run v (.insertWorkflowStatus input) = .done a ch)
    (hfresh : v.cur.workflow input.workflowId = none) :
    (∀ id r, v.cur.workflow id = some r → sameDedup input r = false) ∧
      ∀ o ∈ v.others, ∀ x, o.Takes dedupSlot x → input.row.dedupSlot ≠ some x := by
  simp only [run, runInsertWorkflowStatus, hfresh, Option.isNone_none, Bool.true_and] at h
  split at h
  · cases h
  split at h
  · cases h
  split at h
  · cases h
  rename_i hheld hfree
  constructor
  · intro id r hr
    by_contra hsame
    rw [Bool.not_eq_false] at hsame
    exact hfree (List.any_eq_true.2 ⟨(id, r), Table.mem_rows_iff.2 hr, hsame⟩)
  · rintro ⟨key, old, new, s⟩ ho x htakes hx
    cases key with
    | workflowStatus w =>
      obtain ⟨r, rfl, hslot⟩ : ∃ r : WorkflowRow, new = some r ∧ r.dedupSlot = some x := htakes
      refine hheld (List.any_eq_true.2 ⟨_, ho, ?_⟩)
      have hsame : sameDedup input r = true := Stmt.sameDedup_iff.2 ⟨x, hx, hslot⟩
      simp [hsame]
    | _ =>
      obtain ⟨r, -, hslot⟩ := htakes
      cases hslot

/-- The server keeps the index. -/
theorem enforces_dedupSlot : Enforces server dedupSlot := by
  intro plan iso st base cur others res ws heval k x hx
  obtain ⟨id, r, rfl, hr, hslot⟩ := occupies_dedupSlot.1 hx
  rcases res with e | a
  · obtain ⟨-, rfl⟩ := engine_eval_error heval
    exact Or.inl hx
  have hlegal := server.eval_legal heval
  have hstmt := server.eval_stmt heval
  have hchain := server.eval_chain heval
  obtain ⟨ch, hrun, rfl⟩ := engine_eval_ok heval
  by_cases hbefore : Occupies server dedupSlot cur (.workflowStatus id) x
  · exact Or.inl hbefore
  -- the row has come into its slot by an insert, which is the only write of its statement
  have hinsert : ∃ input, st = .insertWorkflowStatus input := by
    by_contra hnone
    have hnot : ∀ r', store.look (server.apply cur (store.record st cur ch)) (.workflowStatus id) =
        some r' → (r' : WorkflowRow).dedupSlot ≠ some x := by
      refine hchain.keeps (k := .workflowStatus id)
        (P := fun row : Option WorkflowRow ↦ ∀ r', row = some r' → r'.dedupSlot ≠ some x) ?_ ?_
      · intro r' hr' hslot'
        exact hbefore (occupies_dedupSlot.2 ⟨id, r', rfl, hr', hslot'⟩)
      · rintro old new s hw hold r' rfl hslot'
        have hwrites : s.Writes (.workflowStatus id) old (some r') := hlegal _ hw
        rcases hwrites.dedupSlot hslot' with ⟨r₀, rfl, hr₀⟩ | ⟨-, input, rfl, -⟩
        · exact hold r₀ rfl hr₀
        · exact hnone ⟨input, (hstmt _ hw).symm⟩
    exact hnot r hr hslot
  obtain ⟨input, rfl⟩ := hinsert
  obtain ⟨u, rfl, -, hold, -, rfl⟩ := Stmt.insertWorkflowStatus_done hrun 0
  have hafter : ∀ id', (server.apply cur (store.record (Stmt.insertWorkflowStatus u.input) cur
      [⟨.workflowStatus u.input.workflowId, some u.row⟩])).workflow id' =
      if id' = u.input.workflowId then some u.row else cur.workflow id' := by
    intro id'
    split
    · rename_i heq
      subst heq
      exact store.look_put_self cur (.workflowStatus u.input.workflowId) (some u.row)
    · rename_i hne
      exact store.look_put_of_ne cur (.workflowStatus u.input.workflowId) (some u.row)
        (.workflowStatus id') fun heq ↦ hne (Key.workflowStatus.inj heq)
  have hrow : id = u.input.workflowId ∧ r = u.row := by
    have hr' : _ = some r := hr
    rw [hafter] at hr'
    split at hr'
    · rename_i heq
      exact ⟨heq, (Option.some.inj hr').symm⟩
    · exact (hbefore (occupies_dedupSlot.2 ⟨id, r, rfl, hr', hslot⟩)).elim
  obtain ⟨rfl, rfl⟩ := hrow
  have hnew : u.old = none := by
    by_contra hne
    obtain ⟨r₀, hr₀⟩ := Option.ne_none_iff_exists'.1 hne
    rw [Upsert.row, hr₀] at hslot
    exact hbefore (occupies_dedupSlot.2 ⟨_, r₀, rfl, hold.symm.trans hr₀, hslot⟩)
  have hinput : u.row = u.input.row := by
    rw [Upsert.row, hnew]
  obtain ⟨hfree, hothers⟩ := Stmt.insertWorkflowStatus_free hrun (hold.symm.trans hnew)
  rw [hinput] at hslot
  refine Or.inr ⟨fun k' hk' ↦ ?_, fun o ho htakes ↦ hothers o ho x htakes hslot⟩
  obtain ⟨id', r', rfl, hr', hslot'⟩ := occupies_dedupSlot.1 hk'
  have hr' : _ = some r' := hr'
  rw [hafter] at hr'
  split at hr'
  · rename_i heq
    rw [heq]
  · have hsame := hfree id' r' hr'
    rw [Stmt.sameDedup_iff.2 ⟨x, hslot, hslot'⟩] at hsame
    cases hsame

/-! ### Live workflows -/

/-- The write that inserts the workflow. -/
def enqueueWrite (id : String) (input : InsertWorkflowInput) : DbWrite :=
  ⟨.workflowStatus id, none, some input.row, .insertWorkflowStatus input⟩

/-- The workflow has been enqueued on the queue with this deduplication id, and not been deleted
since. -/
def EnqueuedIn (ws : List DbWrite) (id q d : String) : Prop :=
  ∃ before after input, ws = before ++ enqueueWrite id input :: after ∧
    input.queueName = some q ∧ input.deduplicationId = some d ∧
      ∀ old s, (⟨.workflowStatus id, old, none, s⟩ : DbWrite) ∉ after

/-- No workflow enqueued with a deduplication id has been resumed. -/
def NoneResumed (ws : List DbWrite) : Prop :=
  ∀ before w after id, ws = before ++ w :: after → resumesWorkflow id w = true →
    ∀ q d, ¬ EnqueuedIn before id q d

section

variable {ws ws' : List DbWrite} {id q d : String} {s : Stmt} {old new : WorkflowRow}

theorem NoneResumed.prefix (h : NoneResumed (ws ++ ws')) : NoneResumed ws := by
  rintro before w after id rfl
  exact h before w (after ++ ws') id (by simp)

theorem EnqueuedIn.append (h : EnqueuedIn ws id q d)
    (hws : ∀ old s, (⟨.workflowStatus id, old, none, s⟩ : DbWrite) ∉ ws') :
    EnqueuedIn (ws ++ ws') id q d := by
  obtain ⟨before, after, input, rfl, hq, hd, hkept⟩ := h
  refine ⟨before, after ++ ws', input, by simp, hq, hd, fun old s hmem ↦ ?_⟩
  exact (List.mem_append.1 hmem).elim (hkept old s) (hws old s)

/-- A live workflow stays in its slot until it comes to an end, unless it is resumed. -/
theorem Stmt.Writes.slot_or_terminal {x : String × String}
    (h : s.Writes (.workflowStatus id) (some old) (some new)) (hs : s.Runtime)
    (hresume : ∀ ids q now, s ≠ .resumeWorkflows ids q now)
    (hold : old.dedupSlot = some x ∨ old.status.isTerminal = true) :
    new.dedupSlot = some x ∨ new.status.isTerminal = true := by
  -- a row whose status was not a terminal one stays in its slot
  have moved : ∀ {status : WorkflowStatusType}, old.status = status → status.isTerminal = false →
      new.dedupSlot = old.dedupSlot → new.dedupSlot = some x ∨ new.status.isTerminal = true := by
    rintro _ rfl hlive hslot
    rw [hlive] at hold
    exact Or.inl (hslot.trans (hold.resolve_right Bool.false_ne_true))
  cases h with
  | insertConflict input r => exact hold
  | deadLetter w r _ => exact Or.inr rfl
  | outcome w status output error now r _ =>
    have hout : status.isOutcome = true := hs
    refine Or.inr ?_
    show status.isTerminal = true
    cases status <;> first | rfl | cases hout
  | promote now w r hdue =>
    simp only [WorkflowRow.due, Bool.and_eq_true, decide_eq_true_eq] at hdue
    exact moved hdue.1 rfl rfl
  | clear w r hassigned =>
    simp only [WorkflowRow.assigned, Bool.and_eq_true, decide_eq_true_eq] at hassigned
    exact moved hassigned.2 rfl rfl
  | lock q version p mode limit w r _ => exact hold
  | claim w version executorId now limited r henqueued => exact moved henqueued rfl rfl
  | cancel ids now w r _ _ => exact Or.inr rfl
  | resume ids q now w r _ _ => exact (hresume _ _ _ rfl).elim
  | markForked w r => exact hold

/-- A row in a slot has not come to an end. -/
theorem Stmt.Writes.live_of_slot {old : Option WorkflowRow} {x : String × String}
    (h : s.Writes (.workflowStatus id) old (some new)) (hs : s.Runtime)
    (hold : ∀ r, old = some r → r.dedupSlot = some x → r.status.isTerminal = false)
    (hx : new.dedupSlot = some x) : new.status.isTerminal = false := by
  have hx' := hx
  cases h with
  | insertNew input =>
    have hruntime : (Stmt.insertWorkflowStatus input).isRuntime = true := hs
    show input.status.isTerminal = false
    cases hstatus : input.status <;>
      first | rfl | simp [Stmt.isRuntime, hstatus, WorkflowStatusType.isQueued] at hruntime
  | insertConflict input r => exact hold r rfl hx
  | lock => exact hold new rfl hx
  | markForked w r => exact hold r rfl hx
  | promote => rfl
  | clear => rfl
  | claim => rfl
  | _ =>
    rw [WorkflowRow.dedupSlot_of_none rfl] at hx'
    cases hx'

/-- The writes of a run: a chain from the empty database of writes that the runtime makes. -/
structure RuntimeWrites (ws : List DbWrite) : Prop where
  chain : server.Chain {} ws
  legal : ∀ w ∈ ws, LegalWrite w ∧ w.stmt.Runtime

theorem RuntimeWrites.prefix (h : RuntimeWrites (ws ++ ws')) : RuntimeWrites ws :=
  ⟨(server.chain_append.1 h.chain).1, fun w hw ↦ h.legal w (List.mem_append_left _ hw)⟩

/-- A workflow enqueued with a deduplication id is in its slot or has come to an end. -/
theorem EnqueuedIn.slot_or_terminal (h : RuntimeWrites ws) (hnone : NoneResumed ws)
    (henqueued : EnqueuedIn ws id q d) : ∃ r, (server.apply {} ws).workflow id = some r ∧
      (r.dedupSlot = some (q, d) ∨ r.status.isTerminal = true) := by
  obtain ⟨before, after, input, rfl, hq, hd, hkept⟩ := henqueued
  rw [server.apply_append]
  refine (server.chain_append.1 h.chain).2.2.keeps (k := .workflowStatus id)
    (P := fun row : Option WorkflowRow ↦ ∃ r, row = some r ∧
      (r.dedupSlot = some (q, d) ∨ r.status.isTerminal = true)) ?_ ?_
  · exact ⟨input.row, store.look_put_self _ (.workflowStatus id) _,
      Or.inl (WorkflowRow.dedupSlot_eq.2 ⟨hq, hd⟩)⟩
  · rintro old new s hw ⟨r, rfl, hr⟩
    obtain ⟨hwrites, hs⟩ := h.legal _ (List.mem_append_right _ (List.mem_cons_of_mem _ hw))
    obtain ⟨new, rfl⟩ : ∃ r' : WorkflowRow, new = some r' := by
      cases new with
      | none => exact (hkept _ _ hw).elim
      | some r' => exact ⟨r', rfl⟩
    refine ⟨new, rfl, Stmt.Writes.slot_or_terminal hwrites hs ?_ hr⟩
    rintro ids qn now rfl
    obtain ⟨after₁, after₂, rfl⟩ := List.append_of_mem hw
    refine hnone (before ++ enqueueWrite id input :: after₁)
      ⟨.workflowStatus id, some r, some new, .resumeWorkflows ids qn now⟩ after₂ id (by simp)
      (decide_eq_true rfl) q d ⟨before, after₁, input, rfl, hq, hd, fun old s hmem ↦ ?_⟩
    exact hkept old s (List.mem_append_left _ hmem)

/-- A row in a slot was enqueued with it, and has not come to an end. -/
theorem enqueuedIn_of_slot (h : RuntimeWrites ws) {r : WorkflowRow}
    (hr : (server.apply {} ws).workflow id = some r) (hslot : r.dedupSlot = some (q, d)) :
    EnqueuedIn ws id q d ∧ r.status.isTerminal = false := by
  induction ws using List.reverseRecOn generalizing r with
  | nil => cases hr
  | append_singleton ws w ih =>
    have hlast : server.Chain (server.apply {} ws) [w] := (server.chain_append.1 h.chain).2
    obtain ⟨hlegal, hs⟩ := h.legal w (List.mem_append_right _ List.mem_cons_self)
    obtain ⟨key, old, new, s⟩ := w
    rw [server.apply_append] at hr
    by_cases hk : key = .workflowStatus id
    · subst hk
      obtain rfl : new = some r := (store.look_put_self _ (.workflowStatus id) _).symm.trans hr
      have hold : old = (server.apply {} ws).workflow id := hlast.1
      have hwrites : s.Writes (.workflowStatus id) old (some r) := hlegal
      refine ⟨?_, Stmt.Writes.live_of_slot hwrites hs
        (fun r₀ hr₀ hslot₀ ↦ (ih h.prefix (hold.symm.trans hr₀) hslot₀).2) hslot⟩
      rcases hwrites.dedupSlot hslot with ⟨r₀, hr₀, hslot₀⟩ | ⟨rfl, input, rfl, rfl⟩
      · refine (ih h.prefix (hold.symm.trans hr₀) hslot₀).1.append fun old' s' hmem ↦ ?_
        cases List.mem_singleton.1 hmem
      · obtain ⟨hq, hd⟩ := WorkflowRow.dedupSlot_eq.1 hslot
        exact ⟨ws, [], input, rfl, hq, hd, fun _ _ hmem ↦ by cases hmem⟩
    · have hsame : (server.apply (server.apply {} ws) [⟨key, old, new, s⟩]).workflow id =
          (server.apply {} ws).workflow id :=
        store.look_put_of_ne _ key new (.workflowStatus id) (Ne.symm hk)
      obtain ⟨henqueued, hlive⟩ := ih h.prefix (hsame.symm.trans hr) hslot
      refine ⟨henqueued.append fun old' s' hmem ↦ hk ?_, hlive⟩
      exact (congrArg Write.key (List.mem_singleton.1 hmem)).symm

end

/-! ### Enqueues -/

section

variable {V : Type}

/-- The given id of the workflow, the queue and the deduplication id of an enqueue that has one. -/
def Operation.dedup : Operation V → Option (Option String × String × String)
  | call (.enqueue queueName _ _ opts) =>
    opts.deduplicationId.map fun d ↦ (opts.workflowId, queueName, d)
  | call (.clientEnqueue queueName _ _ opts) =>
    opts.deduplicationId.map fun d ↦ (opts.workflowId, queueName, d)
  | _ => none

/-- Nothing is asked of a session, and its requests do not fail. All states it meets are on the way
to the end of the history `H`. -/
def dedupSpec (valid : DbMoment → (q : Ask) → q.Ans → Bool) (H : List (Commit Db Key Row Stmt)) :
    DbSpec where
  rely m m' := m.Before m' ∧ (System.Shows server {} H m → System.Shows server {} H m')
  rely_refl m := ⟨.refl m, fun h ↦ h⟩
  rely_trans h h' := ⟨h.1.trans h'.1, fun hm ↦ h'.2 (h.2 hm)⟩
  valid := valid
  guar _ _ := True
  faulty := False

/-- The state `m` is the one an enqueue saw that has done nothing. -/
structure SawOnly (H : List (Commit Db Key Row Stmt)) (given : Option String) (id : String)
    (m : DbMoment) (τ : DbTrace) : Prop where
  given : ∀ i ∈ given, i = id
  effects : τ.effects = []
  shows : System.Shows server {} H m
  after : ∀ a ∈ τ.answers, a.moment.xid ≤ m.xid

/-- What an enqueue has done when it has returned. -/
inductive EnqueuePost (H : List (Commit Db Key Row Stmt)) (given : Option String) (q d : String)
    (r : Except DbosError (OperationValue V)) (τ : DbTrace) : Prop
  | refused (id : String) (m : DbMoment) (hsaw : SawOnly H given id m τ)
      (hresult : r = .error (.queueDeduplicated id q d)) (hfresh : m.db.workflow id = none)
      (hheld : ∃ id' row, m.db.workflow id' = some row ∧ row.dedupSlot = some (q, d))
  | upserted (u : Upsert) (e : DbEffect) (hgiven : ∀ i ∈ given, i = u.input.workflowId)
      (hresult : r = .ok (.call (.handle ⟨u.input.workflowId, .polling⟩)))
      (heffects : τ.effects = [e]) (hcommits : u.Commits e)
      (hslot : u.input.row.dedupSlot = some (q, d)) (hqueued : u.input.status.isQueued = true)
  | found (id : String) (m : DbMoment) (row : WorkflowRow) (hsaw : SawOnly H given id m τ)
      (hresult : ∃ e, r = .error e ∧ e.code = .conflictingWorkflow)
      (hrow : m.db.workflow id = some row)
  | unregistered (heffects : τ.effects = []) (hresult : ∃ e, r = .error e ∧ e.code = .unspecified)

variable {valid : DbMoment → (q : Ask) → q.Ans → Bool} {H : List (Commit Db Key Row Stmt)}
variable {m : DbMoment} {given : Option String} {queueName d : String}

/-- The insert of an enqueue, with the row it inserts given by its identifiers and the time. -/
theorem wpM_dedup_enqueue {input : String → ℤ → String → InsertWorkflowInput} {maxRetries : ℤ}
    (hm : System.Shows server {} H m) (hinput : ∀ id now xid, (input id now xid).workflowId = id ∧
      (input id now xid).status.isQueued = true ∧
        (input id now xid).row.dedupSlot = some (queueName, d)) :
    wpM (dedupSpec valid H) (do
      let id ← match given with
        | some id => pure id
        | none => ask .newUuid
      let now ← ask .now
      let xid ← ask .newUuid
      enqueueInsert (input id now xid) maxRetries queueName (some d))
      (fun h _ _ τ ↦ EnqueuePost H given queueName d
        (.ok (.call (.handle h)) : Except DbosError (OperationValue V)) τ)
      (fun e _ _ τ ↦ EnqueuePost H given queueName d
        (.error e : Except DbosError (OperationValue V)) τ) .idle m {} := by
  refine wpM_mono (wpM_enqueue (fun _ _ _ ↦ trivial) (fun _ _ _ ↦ (hinput _ _ _).1)
    fun _ _ _ _ _ _ _ _ _ _ _ ↦ trivial) ?_ ?_
  · rintro h c m' τ ⟨-, id, now, xid, rfl, hgiven, u, e, hu, -, hcommits, -, hadds⟩
    obtain ⟨hid, hqueued, hslot⟩ := hinput id now xid
    rw [← hu] at hid hqueued hslot
    subst hid
    exact .upserted u e hgiven rfl hadds.effects hcommits hslot hqueued
  · rintro e c m' τ ⟨-, -, hf | ⟨id, now, xid, m₁, hgiven, hm₁, hadds, hwhy⟩⟩
    · exact hf.elim
    obtain ⟨hid, hqueued, hslot⟩ := hinput id now xid
    have saw : ∀ {m₂ : DbMoment}, (dedupSpec valid H).rely m₁ m₂ → SawOnly H given id m₂ τ :=
      fun {m₂} hm₂ ↦ ⟨hgiven, hadds.effects, hm₂.2 (hm₁.2 hm), fun a ha ↦ by
        rcases hadds.mem_answers ha with ha | ⟨-, hbefore⟩
        · cases ha
        · exact hbefore.1.2.1.trans hm₂.1.2.1⟩
    cases hwhy with
    | dedup m₂ id' row hm₂ hfresh hrow hsame he =>
      obtain ⟨x, hx, hrowx⟩ := Stmt.sameDedup_iff.1 hsame
      rw [hslot] at hx
      obtain rfl := Option.some.inj hx
      rw [hid] at hfresh he
      exact .refused id m₂ (saw hm₂) (by rw [he]; rfl) hfresh ⟨id', row, hrow, hrowx⟩
    | found m₂ row hm₂ hrow he =>
      rw [hid] at hrow
      exact .found id m₂ row (saw hm₂) ⟨e, rfl, he⟩ hrow

variable [SerdeJson]

theorem wp_dedup_program (inner : DbosInner) (op : Operation V) (hm : System.Shows server {} H m)
    (hop : op.dedup = some (given, queueName, d)) :
    wp server (dedupSpec valid H) (op.program inner)
      (fun r _ _ τ ↦ EnqueuePost H given queueName d r.2 τ) .idle m {} := by
  refine wp_program ?_
  cases op with
  | call c =>
    refine wpM_map ?_
    cases c with
    | enqueue q name input opts =>
      obtain ⟨d', hd, heq⟩ := Option.map_eq_some_iff.1 hop
      cases heq
      refine wpM_map ?_
      rw [enqueueWorkflow]
      split
      · exact wpM_throw fun _ _ ↦ .unregistered rfl ⟨_, rfl, rfl⟩
      · rw [hd]
        exact wpM_dedup_enqueue hm fun _ _ _ ↦ ⟨rfl, isQueued_enqueueStatus opts.delay, rfl⟩
    | clientEnqueue q name encoded opts =>
      obtain ⟨d', hd, heq⟩ := Option.map_eq_some_iff.1 hop
      cases heq
      refine wpM_map ?_
      rw [clientEnqueue, hd]
      exact wpM_dedup_enqueue hm fun _ _ _ ↦ ⟨rfl, isQueued_enqueueStatus opts.delay, rfl⟩
    | _ => cases hop
  | _ => cases hop

/-! ### Runs -/

/-- In the `k`th state the workflow is there and has not come to an end, and was enqueued on `q`
with the deduplication id `d`. -/
def LiveWith (S : RuntimeSystem V) (id q d : String) (k : ℕ) : Prop :=
  EnqueuedIn (System.written (S.history.take k)) id q d ∧
    ∃ r, (System.stateAt server {} S.history k).workflow id = some r ∧ r.status.isTerminal = false

/-- How the enqueue of session `i` has ended. -/
inductive EnqueueEnds (S : RuntimeSystem V) (given : Option String) (q d : String) (i : ℕ)
    (r : OperationResult V) : Prop
  /-- It was refused in a state with a live workflow of its deduplication id, and has changed no
  row. -/
  | refused (id : String) (k : ℕ) (hgiven : ∀ w ∈ given, w = id)
      (hresult : r.2 = .error (.queueDeduplicated id q d))
      (hnothing : ∀ c ∈ S.history, c.session ≠ i) (hk : k ≤ S.history.length)
      (hafter : ∀ a ∈ S.answers, a.1 = i → a.2.moment.xid ≤ k)
      (hfresh : (System.stateAt server {} S.history k).workflow id = none)
      (hlive : ∃ id', LiveWith S id' q d k)
  /-- It has inserted a fresh workflow in a state with no such workflow. -/
  | inserted (id : String) (n : ℕ) (c : Commit Db Key Row Stmt) (hgiven : ∀ w ∈ given, w = id)
      (hresult : r.2 = .ok (.call (.handle ⟨id, .polling⟩))) (hc : S.history[n]? = some c)
      (hi : c.session = i) (hfresh : (System.stateAt server {} S.history n).workflow id = none)
      (hlive : LiveWith S id q d (n + 1)) (hnone : ∀ id', ¬ LiveWith S id' q d n)
  /-- The id was not fresh when it came to its insert. -/
  | found (id : String) (k : ℕ) (row : WorkflowRow) (hgiven : ∀ w ∈ given, w = id)
      (hresult : ∀ w, r.2 ≠ .error (.queueDeduplicated w q d))
      (hk : k ≤ S.history.length) (hafter : ∀ c ∈ S.history, c.session = i → c.moment.xid = k)
      (hrow : (System.stateAt server {} S.history k).workflow id = some row)
  /-- The name of the workflow is not registered. -/
  | unregistered (hresult : ∀ w, r.2 ≠ .error (.queueDeduplicated w q d))
      (hnothing : ∀ c ∈ S.history, c.session ≠ i)

variable {executor : ℕ → DbosInner} {ops : ℕ → Operation V} {time : ℤ} {S : RuntimeSystem V}
variable {q : String}

/-- What is known of a run of operations from the empty database. -/
structure Deduplicated (S : RuntimeSystem V) : Prop where
  consistent : System.Consistent server {} S
  writes : ∀ k, RuntimeWrites (System.written (S.history.take k))
  unique : ∀ k ≤ S.history.length, UniqueIn server dedupSlot (System.stateAt server {} S.history k)

theorem deduplicated_of_run
    (h : Run (System.step server valid) (RuntimeStep executor) (System.init {} time) S) :
    Deduplicated S := by
  obtain ⟨hC, hwrites⟩ := writes_of_run h
  refine ⟨hC, fun k ↦ ?_, fun k hk ↦ System.uniqueIn_stateAt enforces_dedupSlot ?_ h hk⟩
  · have hsplit : System.written S.history =
        System.written (S.history.take k) ++ System.written (S.history.drop k) := by
      rw [← System.written_append, List.take_append_drop]
    have hall : RuntimeWrites (System.written S.history) := ⟨hC.chain, hwrites⟩
    rw [hsplit] at hall
    exact hall.prefix
  · intro k k' x hk
    obtain ⟨id, r, -, hr, -⟩ := occupies_dedupSlot.1 hk
    cases hr

omit [SerdeJson] in
/-- A live workflow is in the slot it was enqueued with. -/
theorem Deduplicated.slot (h : Deduplicated S) (hnone : NoneResumed (System.written S.history))
    {id d : String} {k : ℕ} (hlive : LiveWith S id q d k) :
    Occupies server dedupSlot (System.stateAt server {} S.history k) (.workflowStatus id)
      (q, d) := by
  obtain ⟨henqueued, r, hr, hrlive⟩ := hlive
  have hsplit : System.written S.history =
      System.written (S.history.take k) ++ System.written (S.history.drop k) := by
    rw [← System.written_append, List.take_append_drop]
  rw [hsplit] at hnone
  obtain ⟨r', hr', hslot⟩ := henqueued.slot_or_terminal (h.writes k) hnone.prefix
  obtain rfl : r = r' := Option.some.inj (hr.symm.trans hr')
  rw [hrlive] at hslot
  exact occupies_dedupSlot.2 ⟨id, r, rfl, hr, hslot.resolve_right Bool.false_ne_true⟩

omit [SerdeJson] in
/-- Whatever is in a slot is a live workflow enqueued with it. -/
theorem Deduplicated.live (h : Deduplicated S) {id d : String} {r : WorkflowRow} {k : ℕ}
    (hr : (System.stateAt server {} S.history k).workflow id = some r)
    (hslot : r.dedupSlot = some (q, d)) : LiveWith S id q d k := by
  obtain ⟨henqueued, hlive⟩ := enqueuedIn_of_slot (h.writes k) hr hslot
  exact ⟨henqueued, r, hr, hlive⟩

/-- **Deduplication.** In every run of operations from the empty database in which no workflow that
was enqueued with a deduplication id is resumed. First, in every state there is at most one live
workflow that was enqueued on `q` with the deduplication id `d`. Secondly, of an enqueue with them
whose requests do not fail: if its workflow id is fresh, it is refused in a state in which there is
such a workflow, and then it has changed nothing, or it inserts its workflow in a state in which
there is none. -/
theorem dedup_exclusive
    (h : Run (System.step server valid) (fun _ l ↦ Carries executor ops l) (System.init {} time) S)
    (hnone : NoneResumed (System.written S.history)) (q d : String) :
    (∀ k ≤ S.history.length, ∀ id id', LiveWith S id q d k → LiveWith S id' q d k → id = id') ∧
      ∀ i given r, (ops i).dedup = some (given, q, d) →
        Run (System.step server valid) (fun _ l ↦ Carries executor ops l ∧ l.faults i = false)
          (System.init {} time) S → Returned S i r → EnqueueEnds S given q d i r := by
  have hD := deduplicated_of_run (runtime_of_carries h)
  have hC := hD.consistent
  have honly : ∀ k ≤ S.history.length, ∀ id id', LiveWith S id q d k → LiveWith S id' q d k →
      id = id' := fun k hk id id' hid hid' ↦
    Key.workflowStatus.inj (hD.unique k hk _ _ _ (hD.slot hnone hid) (hD.slot hnone hid'))
  refine ⟨honly, fun i given r hop hrun ⟨s, hs, hprog⟩ ↦ ?_⟩
  have hstart :
      Run (System.step server valid) (fun _ l ↦ Carries executor ops l ∧ l.faults i = false)
      (System.init {} time) (System.init {} time : RuntimeSystem V) := .refl
  obtain ⟨-, -, Γ, Q, -, hQ, hS, -⟩ := System.sound_session_from (E := server)
    (dedupSpec valid S.history) (fun r _ _ τ ↦ EnqueuePost S.history given q d r.2 τ) (i := i)
    (P := fun S₁ ↦ System.Shows server {} S.history S₁.moment) rfl
    (fun _ _ hok hfault ↦ by rw [hok.1.2] at hfault; cases hfault) hstart
    (by simp [System.unused, System.init])
    ⟨Nat.zero_le _, rfl, by simp [System.init]⟩
    (fun S₁ p hshows hok ↦ by
      rw [hok.1.1 i p rfl]
      exact wp_dedup_program (executor i) (ops i) hshows hop)
    (fun _ _ S₂ _ hok hs ↦ hok.2 S₂ hs) (fun _ _ _ hshows hbefore ↦ ⟨hbefore, fun _ ↦ hshows⟩)
    (System.run_to hrun)
  have hpost := hS.returned hs hprog
  rw [hQ] at hpost
  have nothing : (S.traceOf i).effects = [] → ∀ c ∈ S.history, c.session ≠ i := by
    intro hnil c hc hi
    have hmem := System.mem_effects_traceOf.2 ⟨c, hc, hi, rfl⟩
    rw [hnil] at hmem
    cases hmem
  have other : ∀ {e : DbosError}, e.code ≠ .queueDeduplicated →
      ∀ w, (Except.error e : Except DbosError (OperationValue V)) ≠
        .error (.queueDeduplicated w q d) := by
    intro e hne w heq
    cases heq
    exact hne rfl
  cases hpost with
  | refused id m hsaw hresult hfresh hheld =>
    obtain ⟨id', row, hrow, hslot⟩ := hheld
    rw [hsaw.shows.db] at hfresh hrow
    exact .refused id m.xid hsaw.given hresult (nothing hsaw.effects) hsaw.shows.bound
      (fun a ha hi ↦ hsaw.after a.2 (System.mem_answers_traceOf.2 (hi ▸ ha))) hfresh
      ⟨id', hD.live hrow hslot⟩
  | found id m row hsaw hresult hrow =>
    obtain ⟨e, he, hcode⟩ := hresult
    rw [hsaw.shows.db] at hrow
    refine .found id m.xid row hsaw.given ?_ hsaw.shows.bound
      (fun c hc hi ↦ (nothing hsaw.effects c hc hi).elim) hrow
    rw [he]
    exact other (by rw [hcode]; decide)
  | unregistered heffects hresult =>
    obtain ⟨e, he, hcode⟩ := hresult
    refine .unregistered ?_ (nothing heffects)
    rw [he]
    exact other (by rw [hcode]; decide)
  | upserted u e hgiven hresult heffects hcommits hslot hqueued =>
    -- the transaction of the enqueue, and the states before and after it
    obtain ⟨c, hc, hi, rfl⟩ := System.mem_effects_traceOf.1 (heffects ▸ List.mem_cons_self)
    obtain ⟨n, hn⟩ := List.mem_iff_getElem?.1 hc
    have hlt : n < S.history.length := (List.getElem?_eq_some_iff.1 hn).1
    obtain ⟨hxid, -, hshows, -, -⟩ := hC.commit hn
    have hbefore : System.stateAt server {} S.history n = c.moment.db := by rw [hshows.db, hxid]
    have hafter : System.stateAt server {} S.history (n + 1) =
        server.apply c.moment.db c.writes := by
      rw [System.stateAt_succ {} hn, hbefore]
    have hold : (System.stateAt server {} S.history n).workflow u.input.workflowId = u.old := by
      rw [hbefore]
      exact hcommits.old
    cases hfound : u.old with
    | some row =>
      refine .found u.input.workflowId n row hgiven (fun w ↦ by rw [hresult]; simp) hlt.le
        (fun c' hc' hi' ↦ ?_) (hold.trans hfound)
      have hmem := System.mem_effects_traceOf.2 ⟨c', hc', hi', rfl⟩
      rw [heffects] at hmem
      rw [List.mem_singleton.1 hmem]
      exact hxid
    | none =>
      have hrow : u.row = u.input.row := by
        rw [Upsert.row, hfound]
      have hfinal : (System.stateAt server {} S.history (n + 1)).workflow u.input.workflowId =
          some u.input.row := by
        have hpending : u.row.status ≠ .pending := by
          intro heq
          rw [hrow] at heq
          rw [show u.input.status = .pending from heq] at hqueued
          cases hqueued
        rw [hafter, hcommits.after, Upsert.final, decide_eq_false hpending, Bool.and_false,
          if_neg Bool.false_ne_true, hrow]
      refine .inserted u.input.workflowId n c hgiven hresult hn hi (hold.trans hfound)
        (hD.live hfinal hslot) fun id' hlive ↦ ?_
      -- the other workflow is still in the slot, which the new one has come into
      obtain ⟨id₀, row, hkey, hrow', hslot'⟩ := occupies_dedupSlot.1 (hD.slot hnone hlive)
      obtain rfl := Key.workflowStatus.inj hkey
      have hne : id' ≠ u.input.workflowId := by
        rintro rfl
        rw [hold, hfound] at hrow'
        cases hrow'
      have hkept : (System.stateAt server {} S.history (n + 1)).workflow id' = some row := by
        rw [hafter, ← hrow', hbefore]
        exact server.look_apply_of_forall_ne (k := .workflowStatus id') fun w hw heq ↦
          hne (hcommits.key hw heq).1
      exact hne (honly (n + 1) hlt _ _ (hD.live hkept hslot') (hD.live hfinal hslot))

end

/-! ### An enqueue that is refused, and one that is not -/

section

local instance dedupJson : SerdeJson := JsonText.jsonText

/-- The enqueue of `w` on `q` with the deduplication id `d`. -/
def enqueueDedup (w : String) : Operation ℤ :=
  .call (.enqueue "q" "f" none { workflowId := some w, deduplicationId := some "d" })

/-- Sessions 0 and 1 enqueue two workflows, and session 2 resumes the first of them. -/
def dedupOps : ℕ → Operation ℤ
  | 0 => enqueueDedup "w1"
  | 1 => enqueueDedup "w2"
  | _ => .call (.resume ["w1"] "r")

/-- The steps of session `i` up to the end of its insert. -/
def insertOne (i : ℕ) : List (RuntimeLabel ℤ) :=
  [.answer i (answersAt 1 ""), .answer i (answersAt 1 "x")] ++ commandOne i ++ sendOne i ++
    commandOne i

/-- One enqueue after the other. -/
def enqueueTwice : List (RuntimeLabel ℤ) :=
  (List.range 2).map (fun i ↦ .spawn i ((dedupOps i).program (anyName "a"))) ++
    insertOne 0 ++ commandOne 0 ++ insertOne 1

/-- One enqueue after the other, with a resumption between them. -/
def enqueueResumeEnqueue : List (RuntimeLabel ℤ) :=
  (List.range 3).map (fun i ↦ .spawn i ((dedupOps i).program (anyName "a"))) ++
    insertOne 0 ++ commandOne 0 ++ answerOne 2 2 ++ sendOne 2 ++ insertOne 1 ++ commandOne 1

theorem carries_dedupOps (ls : List (RuntimeLabel ℤ)) (hsize : (ls.filterMap spawnedOperation) =
    (List.range (ls.filterMap spawnedOperation).length).map
      fun i ↦ (i, (dedupOps i).program (anyName "a"))) :
    RuntimeSystem ℤ → ∀ l ∈ ls, Carries (fun _ ↦ anyName "a") dedupOps l := by
  rintro - l hl i p rfl
  have hmem : (i, p) ∈ ls.filterMap spawnedOperation := List.mem_filterMap.2 ⟨_, hl, rfl⟩
  rw [hsize] at hmem
  obtain ⟨j, -, heq⟩ := List.mem_map.1 hmem
  cases heq
  rfl

/-- Whether the write is not one of `resume_workflows`. -/
def resumesNothing (w : DbWrite) : Bool :=
  match w.stmt with
  | .resumeWorkflows .. => false
  | _ => true

theorem noneResumed_of_all {ws : List DbWrite} (h : ws.all resumesNothing = true) :
    NoneResumed ws := by
  rintro before w after id rfl hresumes q d -
  have hw := List.all_eq_true.1 h w (by simp)
  unfold resumesWorkflow at hresumes
  split at hresumes
  · cases hw
  · cases hresumes

theorem enqueueTwice_run : (exec (System.step server fun _ _ _ ↦ true) (System.init {} 0)
    enqueueTwice).any (fun S ↦ (S.sessions.lookup 1).any returnedError &&
      (System.written S.history).all resumesNothing) = true := by
  decide +kernel

theorem dedup_exclusive_enqueueTwice : ∃ S r, exec (System.step server fun _ _ _ ↦ true)
      (System.init {} 0) enqueueTwice = some S ∧ Returned S 1 r ∧
    EnqueueEnds S (some "w2") "q" "d" 1 r := by
  obtain ⟨S, hS, hdone⟩ := (Option.any_eq_true _ _).1 enqueueTwice_run
  obtain ⟨hret, hnone⟩ := Bool.and_eq_true_iff.1 hdone
  obtain ⟨r, hr⟩ := exists_of_returnedError hret
  have hops := carries_dedupOps enqueueTwice rfl
  have hserved : enqueueTwice.all (RuntimeLabel.served ·) = true := rfl
  exact ⟨S, r, hS, hr,
    (dedup_exclusive (Run.of_exec hS hops) (noneResumed_of_all hnone) "q" "d").2 1 (some "w2") r rfl
    (Run.of_exec hS fun S l hl ↦
      ⟨hops S l hl, faults_of_served (List.all_eq_true.1 hserved l hl) 1⟩) hr⟩

/-- Whether the row of `w` is in the slot, or has not come to an end, after `k` commits. -/
def inSlot (S : RuntimeSystem ℤ) (w : String) (k : ℕ) : Bool :=
  ((System.stateAt server {} S.history k).workflow w).any fun r ↦ r.dedupSlot = some ("q", "d")

def isLive (S : RuntimeSystem ℤ) (w : String) (k : ℕ) : Bool :=
  ((System.stateAt server {} S.history k).workflow w).any fun r ↦ !r.status.isTerminal

theorem enqueueResumeEnqueue_run : (exec (System.step server fun _ _ _ ↦ true) (System.init {} 0)
    enqueueResumeEnqueue).any (fun S ↦ S.history.length = 3 && inSlot S "w1" 1 && isLive S "w1" 3 &&
      inSlot S "w2" 3 && (System.written (S.history.drop 1)).all fun w ↦ w.new.isSome) = true := by
  decide +kernel

/-- After its resumption `w1` is live and does not keep `w2` off the queue. -/
theorem slot_lost_on_resume : ∃ S, exec (System.step server fun _ _ _ ↦ true) (System.init {} 0)
      enqueueResumeEnqueue = some S ∧ S.history.length = 3 ∧
    LiveWith S "w1" "q" "d" 3 ∧ LiveWith S "w2" "q" "d" 3 := by
  obtain ⟨S, hS, hdone⟩ := (Option.any_eq_true _ _).1 enqueueResumeEnqueue_run
  simp only [Bool.and_eq_true, decide_eq_true_eq] at hdone
  obtain ⟨⟨⟨⟨hlength, hfirst⟩, hlive⟩, hsecond⟩, hkept⟩ := hdone
  have hrun : Run (System.step server fun _ _ _ ↦ true)
      (fun _ l ↦ Carries (fun _ ↦ anyName "a") dedupOps l) (System.init {} 0) S :=
    Run.of_exec hS (carries_dedupOps enqueueResumeEnqueue rfl)
  have hD := deduplicated_of_run (runtime_of_carries hrun)
  obtain ⟨r₁, hr₁, hslot₁⟩ := (Option.any_eq_true _ _).1 hfirst
  obtain ⟨r, hr, hrlive⟩ := (Option.any_eq_true _ _).1 hlive
  obtain ⟨r₂, hr₂, hslot₂⟩ := (Option.any_eq_true _ _).1 hsecond
  refine ⟨S, hS, hlength, ⟨?_, r, hr, by simpa using hrlive⟩,
    hD.live hr₂ (of_decide_eq_true hslot₂)⟩
  have hsplit : System.written (S.history.take 3) =
      System.written (S.history.take 1) ++ System.written (S.history.drop 1) := by
    rw [← System.written_append, List.take_append_drop, List.take_of_length_le hlength.le]
  rw [hsplit]
  refine (hD.live hr₁ (of_decide_eq_true hslot₁)).1.append fun old s hmem ↦ ?_
  cases List.all_eq_true.1 hkept _ hmem

end

end Dbos
