import DbosTransact.Queue.Concurrency

/-!
# The rate limit

`dequeue_workflows` counts the rows of its queue that look started within the period, and claims at
most what is missing to the limit. The count misses a claim in two ways: the claim may be committed
by another executor after the snapshot was fixed (without a global limit the candidates that another
executor holds are skipped, so the two do not meet), and a later operation may take the start time
out of the claimed row. When neither happens (`claimsSeen`, `startsKept`), every claim in a window
is either made by the window's last claiming transaction or counted by it, which gives the limit
(`claimsWithin_le_limit`). `skipLocked` is a run where it is exceeded.
-/

namespace Dbos

open Txn

/-- The statements that take a row out of the rate-limit count. -/
def Stmt.unstarts : Stmt → Bool
  | deadLetter _ => true
  | clearQueueAssignment _ => true
  | cancelWorkflows .. => true
  | resumeWorkflows .. => true
  | deleteWorkflows _ => true
  | collectWorkflows _ => true
  | _ => false

section

variable (queueName : String) (partitionKey : Option String)

/-- The start time of the row a write replaces, if the rate-limit count looks at the row. -/
def startTime : DbWrite → Option ℤ
  | ⟨.workflowStatus _, some (old : WorkflowRow), _, _⟩ =>
    if old.inQueue queueName partitionKey && old.rateLimited && !old.status.isQueued then
      old.startedAtEpochMs
    else none
  | _ => none

/-- Whether a write claims a workflow of the queue at a time in `(lo, hi]`. -/
def claimedWithin (lo hi : ℤ) (w : DbWrite) : Bool :=
  (claimTime queueName partitionKey w).any fun t ↦ lo < t && t ≤ hi

/-- No claiming transaction of the queue committed after another one that its snapshot missed. -/
def claimsSeen (h : List DbCommit) : Bool :=
  h.all fun c ↦ !claimsIn queueName partitionKey c || c.snapshot.all fun s ↦
    ((h.take c.moment.xid).drop s.xid).all fun d ↦ !claimsIn queueName partitionKey d

/-- No claimed workflow of the queue was cancelled, resumed, put back, dead-lettered or deleted
within `period` of its claim. -/
def startsKept (period : ℕ) (h : List DbCommit) : Bool :=
  h.all fun c ↦ c.writes.all fun w ↦ !w.stmt.unstarts ||
    (startTime queueName partitionKey w).all fun t ↦ t + period ≤ c.moment.time

end

section

variable {queueName : String} {partitionKey : Option String} {lo hi : ℤ}

/-- The workflow a write claims, if it claims one in the window. -/
def claimedId (queueName : String) (partitionKey : Option String) (lo hi : ℤ) (w : DbWrite) :
    Option String :=
  if claimedWithin queueName partitionKey lo hi w then
    match w.key with
    | .workflowStatus id => some id
    | _ => none
  else none

theorem claimedWithin_iff {w : DbWrite} :
    claimedWithin queueName partitionKey lo hi w = true ↔
      ∃ t, claimTime queueName partitionKey w = some t ∧ lo < t ∧ t ≤ hi := by
  rw [claimedWithin, Option.any_eq_true]
  exact exists_congr fun t ↦ and_congr_right fun _ ↦ by simp

theorem claimedId_eq_some {w : DbWrite} {id : String} :
    claimedId queueName partitionKey lo hi w = some id ↔
    ∃ (old new : WorkflowRow) (s : Stmt) (t : ℤ),
      w = ⟨.workflowStatus id, some old, some new, s⟩ ∧ old.status = .enqueued ∧
        new.pendingIn queueName partitionKey = true ∧ new.startedAtEpochMs = some t ∧
        lo < t ∧ t ≤ hi := by
  constructor
  · intro h
    rw [claimedId] at h
    split at h
    · rename_i hw
      obtain ⟨t, ht, hlo, hhi⟩ := claimedWithin_iff.1 hw
      obtain ⟨id', old, new, s, rfl, hold, hnew, hstart⟩ := claimTime_eq_some.1 ht
      cases h
      exact ⟨old, new, s, t, rfl, hold, hnew, hstart, hlo, hhi⟩
    · cases h
  · rintro ⟨old, new, s, t, rfl, hold, hnew, hstart, hlo, hhi⟩
    have hw : claimedWithin queueName partitionKey lo hi
        ⟨.workflowStatus id, some old, some new, s⟩ = true :=
      claimedWithin_iff.2
        ⟨t, claimTime_eq_some.2 ⟨id, old, new, s, rfl, hold, hnew, hstart⟩, hlo, hhi⟩
    rw [claimedId, if_pos hw]

/-- The claims in a window are as many as the workflows claimed. -/
theorem length_filterMap_claimedId (ws : List DbWrite) :
    (ws.filterMap (claimedId queueName partitionKey lo hi)).length =
      ws.countP (claimedWithin queueName partitionKey lo hi) := by
  rw [List.length_filterMap_eq_countP]
  refine List.countP_congr fun w _ ↦ ?_
  constructor
  · intro h
    obtain ⟨id, hid⟩ := Option.isSome_iff_exists.1 h
    obtain ⟨old, new, s, t, rfl, hold, hnew, hstart, hlo, hhi⟩ := claimedId_eq_some.1 hid
    exact claimedWithin_iff.2
      ⟨t, claimTime_eq_some.2 ⟨id, old, new, s, rfl, hold, hnew, hstart⟩, hlo, hhi⟩
  · intro h
    obtain ⟨t, ht, hlo, hhi⟩ := claimedWithin_iff.1 h
    obtain ⟨id, old, new, s, rfl, hold, hnew, hstart⟩ := claimTime_eq_some.1 ht
    rw [claimedId_eq_some.2 ⟨old, new, s, t, rfl, hold, hnew, hstart, hlo, hhi⟩]
    rfl

/-- A row that counts as started since `lo` keeps doing so under every statement that does not take
it out of the count. -/
theorem Stmt.Writes.startedSince {s : Stmt} {id : String} {old : WorkflowRow}
    {new : Option WorkflowRow} (h : s.Writes (.workflowStatus id) (some old) new) (hs : s.Queue)
    (hkeep : s.unstarts = false)
    (hold : old.startedSince queueName partitionKey lo = true) :
    ∃ r, new = some r ∧ r.startedSince queueName partitionKey lo = true := by
  have hqueued : old.status.isQueued = false := by
    simp only [WorkflowRow.startedSince, Bool.and_eq_true, Bool.not_eq_true'] at hold
    exact hold.1.2
  cases h with
  | insertConflict input r => exact ⟨_, rfl, hold⟩
  | outcome w status output error now r _ =>
    have hstatus : status.isQueued = false := by
      rcases hs with hs | ⟨_, _, _, _, _, hs⟩
      · cases status <;> first | rfl | cases hs
      · cases hs
    refine ⟨_, rfl, ?_⟩
    simp only [WorkflowRow.startedSince, Bool.and_eq_true, Bool.not_eq_true'] at hold ⊢
    exact ⟨⟨hold.1.1, hstatus⟩, hold.2⟩
  | promote now w r hdue =>
    have hstatus : old.status = .delayed := by
      simp only [WorkflowRow.due, Bool.and_eq_true, decide_eq_true_eq] at hdue
      exact hdue.1
    rw [hstatus] at hqueued
    cases hqueued
  | lock q version p mode limit w r _ => exact ⟨_, rfl, hold⟩
  | claim w version executorId now limited r henq =>
    rw [henq] at hqueued
    cases hqueued
  | markForked w r => exact ⟨_, rfl, hold⟩
  | collectCascade cutoff k old hk => exact (hk id rfl).elim
  | _ => cases hkeep

/-! ### Along a chain of writes -/

/-- A write after which the claims since `lo` are still counted: it is one a queue session makes, it
takes no row started since `lo` out of the count, and what it claims on the queue is rate limited.
-/
structure KeepsStarts (queueName : String) (partitionKey : Option String) (lo : ℤ) (w : DbWrite) :
    Prop where
  legal : LegalWrite w
  queue : w.stmt.Queue
  kept : w.stmt.unstarts = true → ∀ t, startTime queueName partitionKey w = some t → t ≤ lo
  limited : ∀ id old (new : WorkflowRow) s, w = ⟨.workflowStatus id, old, some new, s⟩ →
    (claimTime queueName partitionKey w).isSome = true → new.rateLimited = true

/-- The workflows are distinct, and each has a row that counts as started since `lo`. -/
def AllStarted (queueName : String) (partitionKey : Option String) (lo : ℤ) (db : Db)
    (ids : List String) : Prop :=
  ids.Nodup ∧ ∀ id ∈ ids, ∃ r, db.workflow id = some r ∧
    r.startedSince queueName partitionKey lo = true

theorem startTime_of_startedSince (id : String) {old : WorkflowRow} (new : Option WorkflowRow)
    (s : Stmt) (h : old.startedSince queueName partitionKey lo = true) :
    ∃ t, startTime queueName partitionKey ⟨.workflowStatus id, some old, new, s⟩ = some t ∧
      lo < t := by
  simp only [WorkflowRow.startedSince, Bool.and_eq_true, Option.any_eq_true, decide_eq_true_eq] at h
  obtain ⟨⟨⟨hin, hrate⟩, hqueued⟩, t, ht, hlt⟩ := h
  refine ⟨t, ?_, hlt⟩
  simp only [startTime]
  rw [if_pos (by rw [hin, hrate, hqueued]; rfl), ht]

/-- A write that keeps the starts adds its claim to the started workflows. -/
theorem AllStarted.put {db : Db} {ids : List String}
    (h : AllStarted queueName partitionKey lo db ids) (hi : ℤ) {w : DbWrite}
    (hw : KeepsStarts queueName partitionKey lo w) (hold : w.old = store.look db w.key) :
    AllStarted queueName partitionKey lo (store.put db w.key w.new)
      (ids ++ (claimedId queueName partitionKey lo hi w).toList) := by
  have hkept : ∀ id ∈ ids, ∃ r, (store.put db w.key w.new).workflow id = some r ∧
      r.startedSince queueName partitionKey lo = true := by
    intro id hid
    obtain ⟨r, hr, hstart⟩ := h.2 id hid
    by_cases hk : Key.workflowStatus id = w.key
    · obtain ⟨key, old, new, s⟩ := w
      dsimp only at hk hold
      subst hk
      have hrow : old = some r := hold.trans hr
      subst hrow
      have hunstarts : s.unstarts = false := by
        by_contra hne
        obtain ⟨t, ht, hlt⟩ := startTime_of_startedSince id new s hstart
        have hle := hw.kept (by simpa using hne) t ht
        omega
      have hlegal : s.Writes (.workflowStatus id) (some r) new := hw.legal
      obtain ⟨r', hnew, hstart'⟩ := hlegal.startedSince hw.queue hunstarts hstart
      exact ⟨r', (store.look_put_self db (.workflowStatus id) new).trans hnew, hstart'⟩
    · exact ⟨r, (store.look_put_of_ne db w.key w.new (.workflowStatus id) hk).trans hr, hstart⟩
  cases hid : claimedId queueName partitionKey lo hi w with
  | none => simpa using ⟨h.1, hkept⟩
  | some id =>
    obtain ⟨old, new, s, t, rfl, henq, hpending, hstart, hlo, hhi⟩ := claimedId_eq_some.1 hid
    have hnew : new.startedSince queueName partitionKey lo = true := by
      have hlimited := hw.limited id _ new s rfl (by
        rw [claimTime_eq_some.2 ⟨id, old, new, s, rfl, henq, hpending, hstart⟩]
        rfl)
      simp only [WorkflowRow.pendingIn, Bool.and_eq_true, decide_eq_true_eq] at hpending
      simp only [WorkflowRow.startedSince, hpending.1, hlimited, hpending.2, hstart]
      simpa [WorkflowStatusType.isQueued] using hlo
    have hfresh : id ∉ ids := by
      intro hmem
      obtain ⟨r, hr, hstarted⟩ := h.2 id hmem
      have hrow : some old = some r := hold.trans hr
      cases hrow
      simp [WorkflowRow.startedSince, henq, WorkflowStatusType.isQueued] at hstarted
    refine ⟨?_, fun id' hid' ↦ ?_⟩
    · rw [Option.toList_some, List.nodup_append]
      refine ⟨h.1, List.nodup_singleton id, fun a ha b hb heq ↦ hfresh ?_⟩
      rw [List.mem_singleton] at hb
      exact hb ▸ heq ▸ ha
    · rcases List.mem_append.1 hid' with hid' | hid'
      · exact hkept id' hid'
      · rw [Option.toList_some, List.mem_singleton] at hid'
        subst hid'
        exact ⟨new, store.look_put_self db (.workflowStatus id') (some new), hnew⟩

/-- After a chain of such writes, the workflows claimed since `lo` all count as started. -/
theorem AllStarted.apply {db : Db} {ids : List String} {ws : List DbWrite}
    (h : AllStarted queueName partitionKey lo db ids) (hi : ℤ) (hchain : store.Chain db ws)
    (hws : ∀ w ∈ ws, KeepsStarts queueName partitionKey lo w) :
    AllStarted queueName partitionKey lo (store.apply db ws)
      (ids ++ ws.filterMap (claimedId queueName partitionKey lo hi)) := by
  induction ws generalizing db ids with
  | nil => simpa using h
  | cons w ws ih =>
    have hfirst := h.put hi (hws w List.mem_cons_self) hchain.1
    have hrest := ih hfirst hchain.2 fun w' hw' ↦ hws w' (List.mem_cons_of_mem _ hw')
    rw [List.append_assoc] at hrest
    cases hid : claimedId queueName partitionKey lo hi w with
    | none => simpa [List.filterMap_cons, hid] using hrest
    | some id => simpa [List.filterMap_cons, hid] using hrest

end

/-! ### The claims of a run -/

/-- A list in which some element satisfies `p` splits at the last one that does. -/
theorem exists_last {α : Type} (p : α → Bool) (l : List α) : (∀ x ∈ l, p x = false) ∨
    ∃ l₁ x l₂, l = l₁ ++ x :: l₂ ∧ p x = true ∧ ∀ y ∈ l₂, p y = false := by
  induction l with
  | nil => exact Or.inl (by simp)
  | cons a l ih =>
    rcases ih with hnone | ⟨l₁, x, l₂, rfl, hx, hl₂⟩
    · by_cases ha : p a = true
      · exact Or.inr ⟨[], a, l, rfl, ha, hnone⟩
      · exact Or.inl (List.forall_mem_cons.2 ⟨by simpa using ha, hnone⟩)
    · exact Or.inr ⟨a :: l₁, x, l₂, rfl, hx, hl₂⟩

/-- The cutoff of the rate gate does not wrap. -/
theorem asI64_cutoff {cut period : ℤ} (hcut : 0 ≤ cut ∧ cut < 2 ^ 63) (h₀ : 0 ≤ period)
    (hperiod : period < 2 ^ 63) : asI64 (cut - asI64 period) = cut - period := by
  rw [asI64_of_bounds (n := period) (by omega) hperiod, asI64_of_bounds (by omega) (by omega)]

section

variable {queueName : String} {partitionKey : Option String} {lo hi : ℤ}
variable {valid : DbMoment → (q : Ask) → q.Ans → Bool} {C : DequeueInput → Prop} {db₀ : Db}
variable {S : QueueSystem}

/-- A claim on the queue is a claim write of a dequeue call that the configuration covers. -/
theorem QueueState.eq_claimWrite
    (hS : QueueState valid (Configured queueName partitionKey C) Stmt.Ordinary db₀ S)
    {c : DbCommit} (hc : c ∈ S.history) {w : DbWrite} (hw : w ∈ c.writes)
    (hclaim : (claimTime queueName partitionKey w).isSome = true) :
    ∃ input k, C input ∧ input.queueName = queueName ∧ input.partitionKey = partitionKey ∧
      DequeueCommit valid input k c.toEffect ∧
      c.writes.countP (fun w ↦ (claimTime queueName partitionKey w).isSome) ≤ k.taken.length ∧
      ∃ x ∈ k.taken, w = input.claimWrite k.now x := by
  rcases hS.claims_cases hc with ⟨input, k, hq, hp, hC, hcommit, hcount⟩ | hnone
  · refine ⟨input, k, hC, hq, hp, hcommit, hcount, ?_⟩
    rcases hcommit.mem_writes hw with ⟨x, hx, rfl⟩ | hx
    · rw [claimTime_lockWrite input k.limit (hcommit.candidate x hx)] at hclaim
      cases hclaim
    · exact hx
  · rw [hnone w hw] at hclaim
    cases hclaim

/-- Up to a snapshot taken by time `t`, all writes keep the claims since `t - period` counted. -/
theorem QueueState.keepsStarts {limit period : ℕ} {t : ℤ} {s : DbMoment}
    (hS : QueueState valid (Configured queueName partitionKey fun i ↦
      i.rateLimit = some (limit, period)) Stmt.Ordinary db₀ S)
    (hkept : startsKept queueName partitionKey period S.history = true)
    (hs : System.Shows server db₀ S.history s) (ht : s.time ≤ t) {w : DbWrite}
    (hw : w ∈ System.written (S.history.take s.xid)) :
    KeepsStarts queueName partitionKey (t - period) w := by
  obtain ⟨c, hc, hwc⟩ := List.mem_flatMap.1 hw
  have hmem : c ∈ S.history := List.mem_of_mem_take hc
  have hwritten : w ∈ System.written S.history := List.mem_flatMap.2 ⟨c, hmem, hwc⟩
  refine ⟨hS.consistent.legal w hwritten, hS.queue_stmt hwritten, fun hun t' ht' ↦ ?_, ?_⟩
  · have hall := List.all_eq_true.1 (List.all_eq_true.1 hkept c hmem) w hwc
    rw [hun, Bool.not_true, Bool.false_or, ht', Option.all_some] at hall
    have hle := of_decide_eq_true hall
    have hpast := hs.past c hc
    omega
  · rintro id old new stmt rfl hclaim
    obtain ⟨input, k, hC, -, -, -, -, x, -, heq⟩ := hS.eq_claimWrite hmem hwc hclaim
    cases heq
    simp [DequeueInput.claimed, WorkflowRow.claim, hC]

/-- The claims since `lo` that are committed in a snapshot are counted in it. -/
theorem QueueState.claimed_le_count {limit period : ℕ} {t : ℤ} {s : DbMoment}
    (hS : QueueState valid (Configured queueName partitionKey fun i ↦
      i.rateLimit = some (limit, period)) Stmt.Ordinary db₀ S)
    (hkept : startsKept queueName partitionKey period S.history = true)
    (hs : System.Shows server db₀ S.history s) (ht : s.time ≤ t) :
    (System.written (S.history.take s.xid)).countP
        (claimedWithin queueName partitionKey (t - period) t) ≤
      s.db.workflowStatus.count fun _ r ↦
        r.startedSince queueName partitionKey (t - period) := by
  have hchain : store.Chain db₀ (System.written (S.history.take s.xid)) := by
    have hall := hS.consistent.chain
    rw [← List.take_append_drop s.xid S.history, System.written_append, server.chain_append] at hall
    exact hall.1
  have hempty : AllStarted queueName partitionKey (t - period) db₀ [] := ⟨List.nodup_nil, by simp⟩
  have hall := hempty.apply t hchain fun w hw ↦ hS.keepsStarts hkept hs ht hw
  rw [List.nil_append] at hall
  have hdb : s.db = store.apply db₀ (System.written (S.history.take s.xid)) := hs.db
  rw [← length_filterMap_claimedId, hdb]
  exact Table.length_le_count hall.1 hall.2

end

/-- **The rate limit.** In a run where every dequeue call on the queue is configured with `limit`
claims per `period`, no claiming transaction follows one that its snapshot missed, and no start time
is taken away within the period, at most `limit` claims of the queue (or of the partition) fall into
any window of that length. -/
theorem claimsWithin_le_limit {queueName : String} {partitionKey : Option String}
    {limit period : ℕ} {db₀ : Db} {time : ℤ} {S : QueueSystem} (hperiod : (period : ℤ) < 2 ^ 63)
    (h : Run (System.step server commonClock) (QueueStep (Configured queueName partitionKey fun i ↦
      i.rateLimit = some (limit, period)) Stmt.Ordinary) (System.init db₀ time) S)
    (hseen : claimsSeen queueName partitionKey S.history = true)
    (hkept : startsKept queueName partitionKey period S.history = true) (t : ℤ) :
    (System.written S.history).countP (claimedWithin queueName partitionKey (t - period) t) ≤
      limit := by
  have hS := queueState_of_run h
  rcases exists_last (fun c : DbCommit ↦
      c.writes.any (claimedWithin queueName partitionKey (t - period) t)) S.history with
    hnone | ⟨h₁, c, h₂, hsplit, hlast, hafter⟩
  · -- nothing was claimed in the window
    have hzero : (System.written S.history).countP
        (claimedWithin queueName partitionKey (t - period) t) = 0 := by
      rw [List.countP_eq_zero]
      intro w hw
      obtain ⟨c, hc, hw⟩ := List.mem_flatMap.1 hw
      exact List.any_eq_false.1 (hnone c hc) w hw
    omega
  -- `c` is the last transaction with a claim in the window
  have hc : S.history[h₁.length]? = some c := by
    rw [hsplit]
    simp
  have hmem : c ∈ S.history := List.mem_of_getElem? hc
  obtain ⟨w, hw, hwin⟩ := List.any_eq_true.1 hlast
  obtain ⟨τ, hτ, hlo, hhi⟩ := claimedWithin_iff.1 hwin
  have hclaim : (claimTime queueName partitionKey w).isSome = true := by rw [hτ]; rfl
  obtain ⟨input, k, hC, hq, hp, hcommit, hcount, x, -, rfl⟩ := hS.eq_claimWrite hmem hw hclaim
  have hnow : τ = k.now := by
    obtain ⟨id, old, new, s, heq, -, -, hstart⟩ := claimTime_eq_some.1 hτ
    cases heq
    exact (Option.some.inj hstart).symm
  obtain ⟨s, hs, hcounted⟩ := hcommit.snapshot
    (DequeueInput.snapshot_of_rateLimit (by rw [hC]; rfl))
  obtain ⟨m, cut, hcut, hms, hlimit⟩ := hcounted.recent limit period hC
  obtain ⟨m', hclock, hsm, -⟩ := hcommit.clock
  obtain ⟨hxid, -, -, -, hsnapshot⟩ := hS.consistent.commit hc
  obtain ⟨hsc, hshows⟩ := hsnapshot s hs
  simp only [commonClock, Bool.and_eq_true, decide_eq_true_eq] at hcut hclock
  have htime : cut ≤ s.time ∧ s.time ≤ t := by
    have h₁ := hms.1
    have h₂ := (hsm s hs).1
    omega
  -- the earlier claims in the window are committed in the snapshot and counted there
  have hle : s.xid ≤ h₁.length := hxid ▸ hsc.2.1
  have hbetween : (System.written (h₁.drop s.xid)).countP
      (claimedWithin queueName partitionKey (t - period) t) = 0 := by
    have hall := List.all_eq_true.1 hseen c hmem
    have hin : claimsIn queueName partitionKey c = true := List.any_eq_true.2 ⟨_, hw, hclaim⟩
    rw [hin, Bool.not_true, Bool.false_or, hs, Option.all_some, hxid, hsplit,
      List.take_left] at hall
    rw [List.countP_eq_zero]
    intro w' hw' hwin'
    obtain ⟨d, hd, hw'⟩ := List.mem_flatMap.1 hw'
    obtain ⟨τ', hτ', -⟩ := claimedWithin_iff.1 hwin'
    have hno := List.all_eq_true.1 hall d hd
    rw [Bool.not_eq_true', claimsIn, List.any_eq_false] at hno
    exact hno w' hw' (by rw [hτ']; rfl)
  have hearlier : (System.written h₁).countP
      (claimedWithin queueName partitionKey (t - period) t) ≤
        s.db.workflowStatus.count fun _ r ↦
          r.startedSince queueName partitionKey (t - period) := by
    have htake : S.history.take s.xid = h₁.take s.xid := by
      rw [hsplit, List.take_append_of_le_length hle]
    have hold := hS.claimed_le_count hkept hshows htime.2
    rw [htake] at hold
    rw [← List.take_append_drop s.xid h₁, System.written_append, List.countP_append, hbetween]
    exact hold
  have hcutoff : (s.db.workflowStatus.count fun _ r ↦
      r.startedSince queueName partitionKey (t - period)) ≤
        s.db.workflowStatus.count fun _ r ↦ r.startedSince input.queueName input.partitionKey
          (asI64 (cut - asI64 period)) := by
    rw [asI64_cutoff ⟨hcut.1.2, hcut.2⟩ (Int.natCast_nonneg period) hperiod, hq, hp]
    have hcut_le : cut - period ≤ t - period := Int.sub_le_sub_right (htime.1.trans htime.2) _
    refine Table.count_le_count _ fun id r _ hr ↦ ?_
    simp only [WorkflowRow.startedSince, Bool.and_eq_true, Option.any_eq_true,
      decide_eq_true_eq] at hr ⊢
    obtain ⟨hrow, t', ht', hlt⟩ := hr
    exact ⟨hrow, t', ht', hcut_le.trans_lt hlt⟩
  have hown : c.writes.countP (claimedWithin queueName partitionKey (t - period) t) ≤
      k.taken.length := by
    refine (List.countP_mono_left fun w' _ hw' ↦ ?_).trans hcount
    obtain ⟨τ', hτ', -⟩ := claimedWithin_iff.1 hw'
    rw [hτ']
    rfl
  have hlater : (System.written h₂).countP
      (claimedWithin queueName partitionKey (t - period) t) = 0 := by
    rw [List.countP_eq_zero]
    intro w' hw'
    obtain ⟨d, hd, hw'⟩ := List.mem_flatMap.1 hw'
    exact List.any_eq_false.1 (hafter d hd) w' hw'
  have hwhole : System.written S.history = System.written h₁ ++
      (c.writes ++ System.written h₂) := by
    rw [hsplit, System.written_append]
    rfl
  rw [hwhole, List.countP_append, List.countP_append, hlater]
  omega

/-! ### Skipped locks -/

/-- A dequeue call on `q` with one claim per second. -/
def ratedCall (executorId : String) : DbProg QueueResult :=
  dequeueCall ⟨"q", executorId, "v", none, 0, none, none, 100, some (1, 1000)⟩

/-- A dequeue call at time `now` up to its count of the recent starts. -/
def countRecentFirst (i : ℕ) (executorId : String) (now : ℤ) : List QueueLabel :=
  [.spawn i (ratedCall executorId), .finish i fun _ ↦ 0, .finish i fun _ ↦ 0,
    .answer i (answersAt now ""), .issue i, .finish i fun _ ↦ 0]

/-- A call up to its lock on the candidates, and the rest of it. -/
def lockNext (i : ℕ) : List QueueLabel := [.issue i, .finish i fun _ ↦ 0]

def claimLocked (i : ℕ) (now : ℤ) : List QueueLabel :=
  [.answer i (answersAt now ""), .issue i, .finish i fun _ ↦ 0, .finish i fun _ ↦ 0,
    .finish i fun _ ↦ 0]

/-- One executor counts and locks the only workflow there is; a second one is enqueued; another
executor counts, skips the locked workflow and claims the second; then the first claims too. -/
def skipLocked : List QueueLabel :=
  enqueueOne 0 "w1" 0 ++ countRecentFirst 1 "a" 0 ++ lockNext 1 ++ enqueueOne 2 "w2" 0 ++
    countRecentFirst 3 "b" 0 ++ lockNext 3 ++ claimLocked 3 0 ++ claimLocked 1 0

theorem ratedSession (executorId : String) : QueueSession
    (Configured "q" none fun i ↦ i.rateLimit = some (1, 1000)) Stmt.Ordinary
    (ratedCall executorId) :=
  Or.inl ⟨_, fun _ ↦ ⟨rfl, rfl⟩, rfl⟩

/-- The limit of the configuration is not a limit on the claims in a window. -/
theorem rate_limit_exceeded : ∃ S, Run (System.step server commonClock)
    (QueueStep (Configured "q" none fun i ↦ i.rateLimit = some (1, 1000)) Stmt.Ordinary)
    (System.init {} 0) S ∧
      1 < (System.written S.history).countP (claimedWithin "q" none (0 - 1000) 0) := by
  have hcount : (exec (System.step server commonClock) (System.init {} 0) skipLocked).any
      (fun S ↦ 1 < (System.written S.history).countP (claimedWithin "q" none (0 - 1000) 0)) =
        true := by
    decide +kernel
  obtain ⟨S, hS, hlt⟩ := (Option.any_eq_true _ _).1 hcount
  have hok : ∀ p ∈ skipLocked.filterMap spawned, QueueSession
      (Configured "q" none fun i ↦ i.rateLimit = some (1, 1000)) Stmt.Ordinary p :=
    List.forall_mem_cons.2 ⟨enqueueSession _ _ _ _, List.forall_mem_cons.2 ⟨ratedSession "a",
      List.forall_mem_cons.2 ⟨enqueueSession _ _ _ _,
        List.forall_mem_singleton.2 (ratedSession "b")⟩⟩⟩
  exact ⟨S, Run.of_exec hS (queueStep_of_spawned hok), of_decide_eq_true hlt⟩

/-- An executor claims the first of two workflows; another one finds the limit reached, and claims
the second a period later. -/
def waitPeriod : List QueueLabel :=
  enqueueOne 0 "w1" 0 ++ enqueueOne 1 "w2" 1 ++ countRecentFirst 2 "a" 0 ++ lockNext 2 ++
    claimLocked 2 0 ++ countRecentFirst 3 "b" 0 ++ [.finish 3 fun _ ↦ 0, .tick 1000] ++
    countRecentFirst 4 "b" 1000 ++ lockNext 4 ++ claimLocked 4 1000

theorem claimsWithin_le_limit_waitPeriod : ∃ S, exec (System.step server commonClock)
    (System.init {} 0) waitPeriod = some S ∧ (System.written S.history).any (isClaim "w1") = true ∧
      (System.written S.history).any (isClaim "w2") = true ∧
      ∀ t, (System.written S.history).countP (claimedWithin "q" none (t - 1000) t) ≤ 1 := by
  have hfacts : (exec (System.step server commonClock) (System.init {} 0) waitPeriod).any
      (fun S ↦ (System.written S.history).any (isClaim "w1") &&
        (System.written S.history).any (isClaim "w2") && (claimsSeen "q" none S.history &&
          startsKept "q" none 1000 S.history)) = true := by
    decide +kernel
  obtain ⟨S, hS, hfacts⟩ := (Option.any_eq_true _ _).1 hfacts
  obtain ⟨hclaims, hcond⟩ := Bool.and_eq_true_iff.1 hfacts
  obtain ⟨hfirst, hsecond⟩ := Bool.and_eq_true_iff.1 hclaims
  obtain ⟨hseen, hkept⟩ := Bool.and_eq_true_iff.1 hcond
  have hok : ∀ p ∈ waitPeriod.filterMap spawned, QueueSession
      (Configured "q" none fun i ↦ i.rateLimit = some (1, 1000)) Stmt.Ordinary p :=
    List.forall_mem_cons.2 ⟨enqueueSession _ _ _ _, List.forall_mem_cons.2
      ⟨enqueueSession _ _ _ _, List.forall_mem_cons.2 ⟨ratedSession "a", List.forall_mem_cons.2
        ⟨ratedSession "b", List.forall_mem_singleton.2 (ratedSession "b")⟩⟩⟩⟩
  have hrun := Run.of_exec hS (queueStep_of_spawned hok)
  exact ⟨S, hS, hfirst, hsecond, fun t ↦ claimsWithin_le_limit (by decide) hrun hseen hkept t⟩

end Dbos
