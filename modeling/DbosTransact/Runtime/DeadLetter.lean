import DbosTransact.Foundation.Budget
import DbosTransact.Runtime.Cancel
import DbosTransact.Runtime.Invoke

/-!
# How often a workflow is launched

The row of a workflow counts its attempts: a start inserts it with one attempt, an enqueue and a
fork with none, and each recovery adds one, in the transaction that lets it launch the body. A
transaction that finds more attempts than the workflow is registered for launches nothing. So the
attempts are an account that starts and recoveries spend, and only a resumption, which sets it back,
or the deletion of the row refill it (`launches_bounded`).

The claim of a dequeue does not touch the account: claims are counted apart.
-/

namespace Dbos

open Txn

/-! ### What inserts a row -/

/-- A row that is inserted to wait on a queue has had no attempt. -/
def Stmt.QueuedFresh (s : Stmt) : Prop :=
  ∀ input, s = .insertWorkflowStatus input → input.status.isQueued = true →
    input.recoveryAttempts = 0

theorem Stmt.queuedFresh_of_isUpsert {s : Stmt} (h : s.isUpsert = false) : s.QueuedFresh := by
  rintro input rfl
  cases h

theorem Stmt.queuedFresh_of_startsNothing {s : Stmt} (h : s.startsNothing = true) :
    s.QueuedFresh := by
  rintro input rfl
  cases h

theorem Stmt.queuedFresh_of_pending {input : InsertWorkflowInput} (h : input.status = .pending) :
    Stmt.QueuedFresh (.insertWorkflowStatus input) := by
  rintro _ ⟨⟩ hqueued
  rw [h] at hqueued
  cases hqueued

section

variable [SerdeJson] {V : Type} {inner : DbosInner}

theorem queuedFresh_startWorkflow (name : String) (input : Option String) (opts : WorkflowOptions)
    (parent : Option (WorkflowState × ℕ)) (fmt : Format) (isRecovery : Bool) :
    Sends Stmt.QueuedFresh (startWorkflow inner name input opts parent fmt isRecovery) :=
  sends_startWorkflow _ _ _ _ _ _ _ (fun _ hstatus _ _ ↦ Stmt.queuedFresh_of_pending hstatus)
    (fun _ ↦ Stmt.queuedFresh_of_isUpsert rfl) (fun _ _ _ _ ↦ Stmt.queuedFresh_of_isUpsert rfl)
    trivial trivial fun _ ↦ trivial

theorem queuedFresh_recover (executorIds : List String) :
    Sends Stmt.QueuedFresh (recoverPendingWorkflows inner executorIds) := by
  have one : ∀ wf, Sends Stmt.QueuedFresh (recoverWorkflow inner wf) := by
    intro wf
    rw [recoverWorkflow]
    split
    · refine (Sends.attempt ?_).bind fun r ↦ by cases r <;> exact sends_pure _
      exact (sends_query (Stmt.queuedFresh_of_isUpsert rfl)).bind fun _ ↦ sends_pure _
    split
    · exact sends_pure _
    · refine (Sends.attempt ?_).bind fun r ↦ by cases r <;> exact sends_pure _
      exact queuedFresh_startWorkflow _ _ _ _ _ _
  have each : ∀ wfs, Sends Stmt.QueuedFresh (recoverEach inner wfs) := by
    intro wfs
    induction wfs with
    | nil => exact sends_pure _
    | cons wf rest ih => exact (one wf).bind fun _ ↦ ih.bind fun _ ↦ sends_pure _
  exact (sends_query (Stmt.queuedFresh_of_isUpsert rfl)).bind each

/-- Every operation inserts waiting rows without attempts. -/
theorem queuedFresh_program (op : Operation V) :
    (op.program inner).All Stmt.QueuedFresh fun _ ↦ True := by
  have hzero : ∀ {input : InsertWorkflowInput}, input.recoveryAttempts = 0 →
      Stmt.QueuedFresh (.insertWorkflowStatus input) := by
    rintro input h _ ⟨⟩ -
    exact h
  have hdequeue : ∀ s : Stmt, s.isDequeue = true → s.QueuedFresh := by
    rintro s hs input rfl
    cases hs
  have hdead : ∀ {w}, Stmt.QueuedFresh (.deadLetter w) := Stmt.queuedFresh_of_isUpsert rfl
  have hop : Sends Stmt.QueuedFresh (op.run inner) := by
    by_cases hstarts : op.starts = true
    · cases op with
      | call c =>
        refine Sends.map ?_
        cases c with
        | runWorkflow name input opts parent => exact (queuedFresh_startWorkflow _ _ _ _ _ _).map
        | enqueue queueName name input opts =>
          refine Sends.map ?_
          rw [enqueueWorkflow]
          split
          · exact sends_throw _
          dsimp only
          split
          · exact (sends_pure _).bind fun id ↦ (sends_ask _).bind fun now ↦
              (sends_ask _).bind fun xid ↦ sends_enqueueInsert (hzero rfl) hdead _ _ _
          · exact (sends_ask _).bind fun id ↦ (sends_ask _).bind fun now ↦
              (sends_ask _).bind fun xid ↦ sends_enqueueInsert (hzero rfl) hdead _ _ _
        | clientEnqueue queueName name encoded opts =>
          refine Sends.map ?_
          rw [clientEnqueue]
          dsimp only
          split
          · exact (sends_pure _).bind fun id ↦ (sends_ask _).bind fun now ↦
              (sends_ask _).bind fun xid ↦ sends_enqueueInsert (hzero rfl) hdead _ _ _
          · exact (sends_ask _).bind fun id ↦ (sends_ask _).bind fun now ↦
              (sends_ask _).bind fun xid ↦ sends_enqueueInsert (hzero rfl) hdead _ _ _
        | pollQueue queue =>
          exact Sends.map ((sends_dequeueWorkflows hdequeue _).bind fun claimed ↦
            (sends_dispatchEach inner _).mono (fun _ ↦ id) fun _ _ ↦ trivial)
        | recover executorIds => exact (queuedFresh_recover executorIds).map
        | _ => cases hstarts
      | durable state withinStep n inv =>
        refine Sends.map ((call_invocation ⟨inner, state, withinStep⟩ n inv
          fun _ _ ↦ trivial).mono (fun s hs ↦ ?_) fun _ ↦ id)
        rintro input rfl
        simp only [Stmt.CallOf, Stmt.isCallOf, Bool.and_eq_true, decide_eq_true_eq] at hs
        exact Stmt.queuedFresh_of_pending hs.1.2 input rfl
      | _ => cases hstarts
    · exact (startsNothing_run inner (Bool.eq_false_iff.2 hstarts)).mono
        (fun _ ↦ Stmt.queuedFresh_of_startsNothing) fun _ ↦ id
  exact Prog.All.bind hop fun _ ↦ trivial

end

/-! ### The account -/

/-- The attempts of a row, as far as `m` retries go. -/
def attemptsUpTo (m : ℕ) : Option WorkflowRow → ℕ
  | none => 0
  | some r => min r.recoveryAttempts.toNat (m + 1)

theorem attemptsUpTo_le (m : ℕ) (row : Option WorkflowRow) : attemptsUpTo m row ≤ m + 1 := by
  cases row with
  | none => exact Nat.zero_le _
  | some r => exact Nat.min_le_right _ _

theorem attemptsUpTo_mono {m : ℕ} {old : Option WorkflowRow} {r : WorkflowRow}
    (h : ∀ r₀ ∈ old, r₀.recoveryAttempts ≤ r.recoveryAttempts) :
    attemptsUpTo m old ≤ attemptsUpTo m (some r) := by
  cases old with
  | none => exact Nat.zero_le _
  | some r₀ =>
    have hle := h r₀ rfl
    simp only [attemptsUpTo]
    omega

/-- Whether a transaction sets the attempts of the workflow back. -/
def refills (id : String) (c : Commit Db Key Row Stmt) : Bool :=
  c.writes.any fun w ↦ resumesWorkflow id w || deletesWorkflow id w

/-- Whether a transaction claims the workflow from its queue. -/
def claimsFromQueue (id : String) (c : Commit Db Key Row Stmt) : Bool :=
  c.writes.any (isClaim id)

/-- Whether a transaction is that of a start or a recovery that goes on to launch the workflow. -/
def startsBody (executor : ℕ → DbosInner) (id : String) (c : Commit Db Key Row Stmt) : Bool :=
  c.writes.any (runsBody (executor c.session) id)

theorem entry_of_runsBody {inner : DbosInner} {id : String} {w : DbWrite}
    (h : runsBody inner id w = true) : ∃ (u : Upsert) (row : WorkflowRow) (entry : RegistryEntry),
      w = ⟨.workflowStatus id, u.old, some row, .insertWorkflowStatus u.input⟩ ∧
      u.input.status = .pending ∧ inner.registry u.input.name = some entry ∧
      u.maxRetries = entry.maxRetries ∧ u.runs (u.input.increment = 1) = true := by
  obtain ⟨key, old, new, s⟩ := w
  cases key with
  | workflowStatus w =>
    cases new with
    | none => cases h
    | some row =>
      cases s with
      | insertWorkflowStatus input =>
        simp only [runsBody, Bool.and_eq_true, decide_eq_true_eq, Option.any_eq_true] at h
        obtain ⟨⟨rfl, hstatus⟩, entry, hentry, hruns⟩ := h
        exact ⟨⟨input, entry.maxRetries, old⟩, row, entry, rfl, hstatus, hentry, rfl, hruns⟩
      | _ => cases h
  | _ => cases h

theorem countP_grants_le (executor : ℕ → DbosInner) (id : String)
    (history : List (Commit Db Key Row Stmt)) :
    history.countP (fun c ↦ grants (executor c.session) id c.toEffect) ≤
      history.countP (claimsFromQueue id) + history.countP (startsBody executor id) := by
  induction history with
  | nil => simp
  | cons c rest ih =>
    have hone : grants (executor c.session) id c.toEffect =
        (claimsFromQueue id c || startsBody executor id c) := by
      rw [Bool.eq_iff_iff]
      simp [grants, claimsFromQueue, startsBody, and_or_left, exists_or]
    simp only [List.countP_cons, hone]
    cases claimsFromQueue id c <;> cases startsBody executor id c <;> simp <;> omega

section

variable {V : Type} {executor : ℕ → DbosInner} {db₀ : Db} {S : RuntimeSystem V} {id : String}

/-- The workflow is only started where it is registered with one to `m` retries. -/
def RetriesUpTo (executor : ℕ → DbosInner) (S : RuntimeSystem V) (id : String) (m : ℕ) : Prop :=
  ∀ c ∈ S.history, ∀ x ∈ c.writes, ∀ input, x.stmt = .insertWorkflowStatus input →
    input.workflowId = id → ∀ entry, (executor c.session).registry input.name = some entry →
      0 < entry.maxRetries ∧ entry.maxRetries ≤ m

variable [SerdeJson] {valid : DbMoment → (q : Ask) → q.Ans → Bool} {time : ℤ} {n : ℕ}
variable {c : Commit Db Key Row Stmt}

/-- The attempts a row is inserted with, and what an upsert adds to them. -/
theorem Upsert.OfCall.attempts {inner : DbosInner} {u : Upsert} (h : u.OfCall inner)
    (hfresh : Stmt.QueuedFresh (.insertWorkflowStatus u.input)) :
    0 ≤ u.input.recoveryAttempts ∧ 0 ≤ u.input.increment := by
  rcases h with henq | ⟨name, encodedInput, opts, parent, fmt, isRecovery, hstarts⟩
  · rw [hfresh _ rfl henq.status, henq.increment]
    exact ⟨le_rfl, le_rfl⟩
  · obtain ⟨entry, ownerXid, now, -, -, hinput⟩ := hstarts.input
    rw [hinput]
    refine ⟨Int.one_nonneg, ?_⟩
    show (0 : ℤ) ≤ if isRecovery then 1 else 0
    split <;> decide

/-- A write leaves a row with no fewer attempts than it found, unless it resumes the workflow; and
it leaves no fewer than none. -/
theorem Launched.attempts (h : Launched valid executor db₀ S)
    (hqueued : ∀ w ∈ System.written S.history, w.stmt.QueuedFresh) (hc : S.history[n]? = some c)
    {old : Option WorkflowRow} {r : WorkflowRow} {s : Stmt}
    (hw : (⟨.workflowStatus id, old, some r, s⟩ : DbWrite) ∈ c.writes) :
    ((∀ r₀ ∈ old, 0 ≤ r₀.recoveryAttempts) → 0 ≤ r.recoveryAttempts) ∧
      (resumesWorkflow id ⟨.workflowStatus id, old, some r, s⟩ = false →
        ∀ r₀ ∈ old, r₀.recoveryAttempts ≤ r.recoveryAttempts) := by
  have hmem : (⟨.workflowStatus id, old, some r, s⟩ : DbWrite) ∈ System.written S.history :=
    List.mem_flatMap.2 ⟨c, List.mem_of_getElem? hc, hw⟩
  have hlegal : s.Writes (.workflowStatus id) old (some r) := h.consistent.legal _ hmem
  -- most statements leave the counter alone
  have same : ∀ {r₀ : WorkflowRow}, old = some r₀ → r.recoveryAttempts = r₀.recoveryAttempts →
      ((∀ r₀ ∈ old, 0 ≤ r₀.recoveryAttempts) → 0 ≤ r.recoveryAttempts) ∧
        (resumesWorkflow id ⟨.workflowStatus id, old, some r, s⟩ = false →
          ∀ r₀ ∈ old, r₀.recoveryAttempts ≤ r.recoveryAttempts) := by
    rintro r₀ rfl heq
    rw [heq]
    exact ⟨fun hall ↦ hall r₀ rfl, fun _ r₁ hr₁ ↦ (Option.some.inj hr₁) ▸ le_rfl⟩
  -- and an upsert is that of a start or an enqueue
  have upsert : ∀ {input : InsertWorkflowInput}, s = .insertWorkflowStatus input →
      0 ≤ input.recoveryAttempts ∧ 0 ≤ input.increment := by
    rintro input rfl
    obtain ⟨u, hu, heq⟩ := h.upserts hc hw rfl
    obtain rfl : input = u.input := Stmt.insertWorkflowStatus.inj (congrArg Write.stmt heq)
    exact hu.kind.attempts (hqueued _ hmem)
  cases hlegal with
  | insertNew input => exact ⟨fun _ ↦ (upsert rfl).1, fun _ ↦ by simp⟩
  | insertConflict input r₀ =>
    have hle : r₀.recoveryAttempts ≤ (input.onConflict r₀).recoveryAttempts := by
      have hincrement := (upsert rfl).2
      simp only [InsertWorkflowInput.onConflict]
      split <;> omega
    exact ⟨fun hall ↦ (hall r₀ rfl).trans hle, fun _ r₁ hr₁ ↦ (Option.some.inj hr₁) ▸ hle⟩
  | fork w fork => exact ⟨fun _ ↦ le_rfl, fun _ ↦ by simp⟩
  | resume ids q now w r₀ _ _ =>
      exact ⟨fun _ ↦ le_rfl, fun hnot ↦ by simp [resumesWorkflow] at hnot⟩
  | _ => exact same rfl rfl

/-- No row ever has fewer attempts than none. -/
theorem Launched.attempts_nonneg (h : Launched valid executor db₀ S)
    (hqueued : ∀ w ∈ System.written S.history, w.stmt.QueuedFresh)
    (h₀ : ∀ r, db₀.workflow id = some r → 0 ≤ r.recoveryAttempts) (k : ℕ) {r : WorkflowRow}
    (hr : (System.stateAt server db₀ S.history k).workflow id = some r) :
    0 ≤ r.recoveryAttempts := by
  refine h.consistent.keeps (Nat.zero_le k) (k := .workflowStatus id)
    (P := fun row : Option WorkflowRow ↦ ∀ r ∈ row, 0 ≤ r.recoveryAttempts) (fun r hr ↦ h₀ r hr)
    ?_ r hr
  rintro old new s hw - hold r rfl
  obtain ⟨-, j, c, -, -, hc, hwc⟩ := System.exists_commit_of_written hw
  exact (h.attempts hqueued hc hwc).1 hold

omit [SerdeJson] in
/-- A start that goes on to launch the workflow has counted the attempt, and the attempts are within
the limit. -/
theorem Upsert.spends {u : Upsert} {m : ℕ} (hstatus : u.input.status = .pending)
    (hpos : 0 < u.maxRetries) (hle : u.maxRetries ≤ m) (hnew : u.input.recoveryAttempts = 1)
    (hold : ∀ r ∈ u.old, 0 ≤ r.recoveryAttempts ∧ u.input.increment = 1)
    (hexceeds : u.exceeds = false) {isRecovery : Bool}
    (hskip : shouldSkip u.result isRecovery u.input.ownerXid = false) :
    attemptsUpTo m u.old < attemptsUpTo m (some u.row) := by
  obtain ⟨hsuccess, herror⟩ : u.row.status ≠ .success ∧ u.row.status ≠ .error := by
    simp only [shouldSkip, Bool.or_eq_false_iff, decide_eq_false_iff_not] at hskip
    exact hskip.1
  have hlimit : u.row.recoveryAttempts ≤ u.maxRetries + 1 := by
    refine le_trans ?_ (asI64_le (by omega))
    by_contra hover
    have hexceeds' : u.exceeds = true := by
      simp only [Upsert.exceeds, exceedsAttempts, Bool.and_eq_true, decide_eq_true_eq]
      exact ⟨⟨⟨hsuccess, herror⟩, hpos⟩, not_le.1 hover⟩
    rw [hexceeds] at hexceeds'
    cases hexceeds'
  cases hrow : u.old with
  | none =>
    have hone : u.row.recoveryAttempts = 1 := by
      rw [Upsert.row, hrow]
      exact hnew
    simp only [attemptsUpTo, hone]
    omega
  | some r =>
    obtain ⟨hnonneg, hincrement⟩ := hold r hrow
    have hmore : u.row.recoveryAttempts = r.recoveryAttempts + 1 := by
      rw [Upsert.row, hrow]
      simp [InsertWorkflowInput.onConflict, hstatus, hincrement, WorkflowStatusType.isQueued]
    simp only [attemptsUpTo, hmore]
    omega

omit [SerdeJson] in
/-- The transaction of an upsert resumes and deletes nothing. -/
theorem Upsert.Commits.not_refills {u : Upsert} (h : u.Commits c.toEffect) :
    refills id c = false := by
  obtain ⟨child, hwrites, hchild⟩ := h.writes
  refine List.any_eq_false.2 fun x hx ↦ ?_
  rw [show c.writes = u.writes ++ child from hwrites, List.mem_append, Upsert.writes,
    List.mem_cons] at hx
  rcases hx with (rfl | hx) | hx
  · simp [resumesWorkflow, deletesWorkflow]
  · split at hx
    · rw [List.mem_singleton.1 hx]
      simp [resumesWorkflow, deletesWorkflow]
    · cases hx
  · obtain ⟨p, k, row, hkey, -⟩ := hchild x hx
    obtain ⟨key, old, new, s⟩ := x
    obtain rfl : key = .operationOutputs p k := hkey
    simp [resumesWorkflow, deletesWorkflow]

/-- The transaction that lets a start launch the workflow spends an attempt. -/
theorem Launched.spends (h : Launched valid executor db₀ S)
    (hqueued : ∀ w ∈ System.written S.history, w.stmt.QueuedFresh)
    (h₀ : ∀ r, db₀.workflow id = some r → 0 ≤ r.recoveryAttempts) (hfresh : FreshOwners db₀ id S)
    {m : ℕ} (hmax : RetriesUpTo executor S id m) (hc : S.history[n]? = some c)
    (hstarts : startsBody executor id c = true) : refills id c = false ∧
      attemptsUpTo m (c.moment.db.workflow id) <
        attemptsUpTo m ((server.apply c.moment.db c.writes).workflow id) := by
  obtain ⟨x, hx, hbody⟩ := List.any_eq_true.1 hstarts
  obtain ⟨u', row, entry, rfl, hstatus, hentry, hlimit, hruns⟩ := entry_of_runsBody hbody
  obtain ⟨u, hu, heq⟩ := h.upserts hc hx rfl
  obtain rfl : id = u.input.workflowId := Key.workflowStatus.inj (congrArg Write.key heq)
  -- both are the same upsert, since a start goes by the limit the workflow is registered with
  have hinput : u'.input = u.input := Stmt.insertWorkflowStatus.inj (congrArg Write.stmt heq)
  have hold : u'.old = u.old := by injection heq
  obtain ⟨isRecovery, entry', hentry', hlimit', hnew, hincrement⟩ :
      ∃ (isRecovery : Bool) (entry' : RegistryEntry),
        (executor c.session).registry u.input.name = some entry' ∧
        u.maxRetries = entry'.maxRetries ∧ u.input.recoveryAttempts = 1 ∧
        u.input.increment = if isRecovery then 1 else 0 := by
    rcases hu.kind with henq | ⟨name, encodedInput, opts, parent, fmt, isRecovery, hstart⟩
    · have hwaits := henq.status
      rw [← hinput, hstatus] at hwaits
      cases hwaits
    · obtain ⟨entry', ownerXid, now, hentry', hlimit', hinput'⟩ := hstart.input
      refine ⟨isRecovery, entry', ?_, hlimit', ?_, ?_⟩ <;> rw [hinput']
      · exact hentry'
      · rfl
      · rfl
  rw [hinput, hentry'] at hentry
  obtain rfl := Option.some.inj hentry
  obtain rfl : u' = u := by
    cases u
    cases u'
    simp_all
  obtain ⟨hpos, hle⟩ := hmax c (List.mem_of_getElem? hc) _ hx _ rfl rfl _ hentry'
  rw [← hlimit] at hpos hle
  obtain ⟨hexceeds, hskip⟩ : u'.exceeds = false ∧
      shouldSkip u'.result (u'.input.increment = 1) u'.input.ownerXid = false := by
    simpa [Upsert.runs] using hruns
  have hfinal : u'.final = u'.row := by rw [Upsert.final, hexceeds]; rfl
  have hbefore : c.moment.db.workflow u'.input.workflowId = u'.old := hu.commits.old
  have hafter : (server.apply c.moment.db c.writes).workflow u'.input.workflowId =
      some u'.row := hfinal ▸ hu.commits.after
  rw [hbefore, hafter]
  refine ⟨hu.commits.not_refills, Upsert.spends hstatus hpos hle hnew (fun r hr ↦ ⟨?_, ?_⟩)
    hexceeds hskip⟩
  · refine h.attempts_nonneg hqueued h₀ n (r := r) ?_
    rw [System.stateAt_eq_of_commit h.consistent hc, hbefore, hr]
  · -- a first run that finds a row is skipped: another start owns it
    rw [hincrement]
    cases isRecovery with
    | true => rfl
    | false =>
      have hzero : u'.input.increment = 0 := hincrement
      have hother := h.owner_fresh hfresh hc hu rfl hzero hr
      have howner : u'.row.ownerXid = r.ownerXid := by
        rw [Upsert.row, hr]
        rfl
      simp [shouldSkip, Upsert.result, howner, hother, hzero] at hskip

/-- **The dead-letter bound.** In every run of operations, with crashes and recoveries at any point,
let a workflow be started where it is registered with one to `m` retries. Its body is launched at
most `m + 1` times, and another `m + 1` times after each resumption or deletion of its row, apart
from the times it is claimed from a queue. -/
theorem launches_bounded
    (h : Run (System.step server valid) (RuntimeStep executor) (System.init db₀ time) S)
    (hfresh : FreshOwners db₀ id S) (h₀ : ∀ r, db₀.workflow id = some r → 0 ≤ r.recoveryAttempts)
    {m : ℕ} (hmax : RetriesUpTo executor S id m) :
    S.answers.countP (fun a ↦ launches id a.2) ≤
      S.history.countP (claimsFromQueue id) + (m + 1) * (1 + S.history.countP (refills id)) := by
  have hL := launched_of_run h
  have hqueued : ∀ w ∈ System.written S.history, w.stmt.QueuedFresh := by
    intro w hw
    obtain ⟨c, hc, hw⟩ := List.mem_flatMap.1 hw
    refine (System.all_of_run (P := fun _ ↦ Stmt.QueuedFresh) (A := fun _ _ ↦ True)
      (fun S i p hp ↦ ?_) h).1 c hc w hw
    obtain ⟨op, rfl⟩ := hp i p rfl
    exact queuedFresh_program op
  refine (hL.launches_le_grants id).trans ((countP_grants_le executor id S.history).trans ?_)
  refine Nat.add_le_add_left ?_ _
  refine hL.consistent.countP_le_mul (k := Key.workflowStatus id) (attemptsUpTo m)
    (attemptsUpTo_le m) (fun c hc hq old new s hw ↦ ?_)
    fun n c hc hp ↦ hL.spends hqueued h₀ hfresh hmax hc hp
  obtain ⟨hresume, hdelete⟩ : resumesWorkflow id ⟨.workflowStatus id, old, new, s⟩ = false ∧
      deletesWorkflow id ⟨.workflowStatus id, old, new, s⟩ = false := by
    have hnone := List.any_eq_false.1 hq _ hw
    simpa using hnone
  cases new with
  | none => simp [deletesWorkflow] at hdelete
  | some r =>
    obtain ⟨k, hk⟩ := List.mem_iff_getElem?.1 hc
    exact attemptsUpTo_mono ((hL.attempts hqueued hk hw).2 hresume)

end

/-! ### A workflow that is recovered twice -/

section

local instance deadLetterJson : SerdeJson := JsonText.jsonText

/-- An executor on which every name is registered with one retry. -/
def registeredOnce : DbosInner := ⟨"a", "v", none, fun _ ↦ some ⟨1, none, none⟩⟩

/-- Session 0 starts the workflow, the others recover what is pending. -/
def recoveries : ℕ → Operation ℤ
  | 0 => .call (.runWorkflow "f" none { workflowId := some "w" } none)
  | _ => .call (.recover ["a"])

/-- Session `i` reads the clock, is given the identifier `xid`, and sends its upsert. -/
def upsertSteps (i : ℕ) (xid : String) : List (RuntimeLabel ℤ) :=
  answerOne i 1 ++ [.answer i (answersAt 1 xid)] ++ commandOne i ++ sendOne i

/-- A start and a recovery launch the workflow, another recovery does not. -/
def recoverTwice : List (RuntimeLabel ℤ) :=
  [.spawn 0 ((recoveries 0).program registeredOnce)] ++ upsertSteps 0 "x" ++ commandOne 0 ++
    commandOne 0 ++ answerOne 0 1 ++
  [.spawn 1 ((recoveries 1).program registeredOnce)] ++ sendOne 1 ++ upsertSteps 1 "y" ++
    commandOne 1 ++ commandOne 1 ++ answerOne 1 1 ++
  [.spawn 2 ((recoveries 2).program registeredOnce)] ++ sendOne 2 ++ upsertSteps 2 "z" ++
    sendOne 2 ++ commandOne 2 ++ commandOne 2

theorem launches_bounded_recoverTwice : ∃ S : RuntimeSystem ℤ,
    exec (System.step server fun _ _ _ ↦ true) (System.init {} 0) recoverTwice = some S ∧
    S.moment.db.statusOf "w" = some .maxRecoveryAttemptsExceeded ∧
    S.answers.countP (fun a ↦ launches "w" a.2) = 2 ∧
    S.answers.countP (fun a ↦ launches "w" a.2) ≤
      S.history.countP (claimsFromQueue "w") + (1 + 1) * (1 + S.history.countP (refills "w")) := by
  have hrun : (exec (System.step server fun _ _ _ ↦ true) (System.init {} 0) recoverTwice).any
      (fun S ↦ S.moment.db.statusOf "w" == some .maxRecoveryAttemptsExceeded &&
        S.answers.countP (fun a ↦ launches "w" a.2) == 2 && S.answers.all fun a ↦
        S.answers.all fun b ↦
          (givenUuid a.2).isNone || givenUuid a.2 ≠ givenUuid b.2 || a.1 = b.1) = true := by
    decide +kernel
  have hops : ∀ S, ∀ l ∈ recoverTwice, RuntimeStep (V := ℤ) (fun _ ↦ registeredOnce) S l := by
    rintro S l hl i p rfl
    have hmem : (i, p) ∈ recoverTwice.filterMap spawnedOperation :=
      List.mem_filterMap.2 ⟨_, hl, rfl⟩
    rcases List.mem_cons.1 hmem with heq | hmem
    · cases heq
      exact ⟨_, rfl⟩
    rcases List.mem_cons.1 hmem with heq | hmem
    · cases heq
      exact ⟨_, rfl⟩
    · cases List.mem_singleton.1 hmem
      exact ⟨_, rfl⟩
  obtain ⟨S, hS, hfacts⟩ := (Option.any_eq_true _ _).1 hrun
  simp only [Bool.and_eq_true, beq_iff_eq] at hfacts
  obtain ⟨⟨hstatus, hlaunches⟩, huuid⟩ := hfacts
  refine ⟨S, hS, hstatus, hlaunches, launches_bounded (Run.of_exec hS hops)
    (freshOwners_of_all (rfl : ({} : Db).workflow "w" = none) huuid) (fun r hr ↦ ?_) ?_⟩
  · rw [show ({} : Db).workflow "w" = none from rfl] at hr
    cases hr
  · rintro c - x - input - - entry hentry
    obtain rfl : (⟨1, none, none⟩ : RegistryEntry) = entry := Option.some.inj hentry
    exact ⟨Int.one_pos, le_rfl⟩

end

end Dbos
