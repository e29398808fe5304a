import DbosTransact.Db.Rules
import DbosTransact.Db.Workflows

/-!
# What a dequeue iteration commits

`dequeue_workflows` reads its counts, locks its candidates and claims them one by one, each in a
statement of its own. `DequeueCommit` is everything that is known of such a transaction once it has
committed, in any interleaving with other sessions: it locked some candidates and claimed some of
those, and, when a global or a rate limit is set, the counts it went by are those of one snapshot.
`wpM_dequeueWorkflows` proves it of the code. The claiming loop is the part with an invariant: the
transaction has written the locks, then one claim for each workflow in the result so far.
-/

namespace Dbos

open Txn

theorem WorkflowRow.candidate_iff {r : WorkflowRow} {queueName version : String}
    {partitionKey : Option String} : r.candidate queueName version partitionKey = true ↔
      r.queueName = some queueName ∧ (partitionKey = none ∨ r.queuePartitionKey = partitionKey) ∧
        r.status = .enqueued ∧
          (r.applicationVersion = some version ∨ r.applicationVersion = none) := by
  simp [WorkflowRow.candidate, WorkflowRow.inQueue, and_assoc]

/-- The workflows a dequeue iteration locked and those it claimed, each with its row at that time,
and the claim time. `limit` is the bound the candidates were selected with. -/
structure Claims where
  limit : ℕ
  now : ℤ
  locked : List (String × WorkflowRow)
  taken : List (String × WorkflowRow)

namespace DequeueInput

variable (input : DequeueInput)

/-- Locking a candidate leaves its row as it is. -/
def lockWrite (limit : ℕ) (x : String × WorkflowRow) : DbWrite :=
  ⟨.workflowStatus x.1, some x.2, some x.2, .selectCandidates input.queueName
    input.applicationVersion input.partitionKey input.lockMode limit⟩

/-- The row a claim leaves. -/
def claimed (now : ℤ) (r : WorkflowRow) : WorkflowRow :=
  r.claim input.applicationVersion input.executorId now input.rateLimit.isSome

/-- The statement that claims a workflow. -/
def claimStmt (now : ℤ) (id : String) : Stmt :=
  .claimWorkflow id input.applicationVersion input.executorId now input.rateLimit.isSome

def claimWrite (now : ℤ) (x : String × WorkflowRow) : DbWrite :=
  ⟨.workflowStatus x.1, some x.2, some (input.claimed now x.2), input.claimStmt now x.1⟩

/-- The writes of the whole transaction. -/
def writes (k : Claims) : List DbWrite :=
  k.locked.map (input.lockWrite k.limit) ++ k.taken.map (input.claimWrite k.now)

/-- The isolation level of the transaction. -/
def isolation : Isolation := if input.snapshot then .repeatableRead else .readCommitted

variable {input} {k : Claims} {x : String × WorkflowRow}

theorem key_claimWrite_ne {w : String} (hnew : w ∉ k.taken.map Prod.fst) :
    ∀ e ∈ k.taken.map (input.claimWrite k.now), e.key ≠ .workflowStatus w := by
  intro e he heq
  obtain ⟨y, hy, rfl⟩ := List.mem_map.1 he
  exact hnew (Key.workflowStatus.inj heq ▸ List.mem_map_of_mem hy)

/-- Locks and claims write each row once. -/
theorem nodup_key_map {f : String × WorkflowRow → DbWrite} {l : List (String × WorkflowRow)}
    (hf : ∀ y, (f y).key = .workflowStatus y.1) (hnd : (l.map Prod.fst).Nodup) :
    ((l.map f).map Write.key).Nodup := by
  have hmap : (l.map f).map Write.key = (l.map Prod.fst).map Key.workflowStatus := by
    rw [List.map_map, List.map_map]
    exact List.map_congr_left fun y _ ↦ hf y
  rw [hmap]
  exact hnd.map fun a b hab ↦ Key.workflowStatus.inj hab

variable (input)

/-- A locked workflow that is not claimed has the row it was locked with. -/
theorem look_writes_of_locked (hnd : (k.locked.map Prod.fst).Nodup) (hx : x ∈ k.locked)
    (hnew : x.1 ∉ k.taken.map Prod.fst) (db : Db) :
    (server.apply db (input.writes k)).workflow x.1 = some x.2 := by
  have hlock := server.look_apply_of_mem db (nodup_key_map (fun _ ↦ rfl) hnd)
    (List.mem_map_of_mem (f := input.lockWrite k.limit) hx)
  rw [writes, server.apply_append]
  exact (server.look_apply_of_forall_ne (key_claimWrite_ne hnew)).trans hlock

/-- A claimed workflow has the row the claim leaves. -/
theorem look_writes_of_taken (hnd : (k.taken.map Prod.fst).Nodup) (hx : x ∈ k.taken) (db : Db) :
    (server.apply db (input.writes k)).workflow x.1 = some (input.claimed k.now x.2) := by
  rw [writes, server.apply_append]
  exact server.look_apply_of_mem _ (nodup_key_map (fun _ ↦ rfl) hnd)
    (List.mem_map_of_mem (f := input.claimWrite k.now) hx)

/-- All other rows stay as they are. -/
theorem look_writes_of_not_mem {w : String} (hlocked : w ∉ k.locked.map Prod.fst)
    (htaken : w ∉ k.taken.map Prod.fst) (db : Db) :
    (server.apply db (input.writes k)).workflow w = db.workflow w := by
  refine server.look_apply_of_forall_ne (k := .workflowStatus w) fun e he heq ↦ ?_
  rcases List.mem_append.1 he with he | he
  · obtain ⟨y, hy, rfl⟩ := List.mem_map.1 he
    exact hlocked (Key.workflowStatus.inj heq ▸ List.mem_map_of_mem hy)
  · exact key_claimWrite_ne htaken e he heq

end DequeueInput

section

variable (valid : DbMoment → (q : Ask) → q.Ans → Bool) (input : DequeueInput)

/-- The rate gate was passed on the count of snapshot `s`. -/
def PassedRate (numRecent : ℕ) (s : DbMoment) : Prop :=
  ∀ limit period, input.rateLimit = some (limit, period) → numRecent < limit ∧
    ∃ (m : DbMoment) (t : ℤ), valid m .now t = true ∧ m.Before s ∧
      numRecent = s.db.workflowStatus.count fun _ r ↦
        r.startedSince input.queueName input.partitionKey (asI64 (t - asI64 period))

/-- `n` more claims fit under the global limit in snapshot `s`. -/
def FitsGlobal (n : ℕ) (s : DbMoment) : Prop :=
  ∀ g ∈ input.globalConcurrency, n + (s.db.workflowStatus.count fun _ r ↦
    r.pendingIn input.queueName input.partitionKey) ≤ g

/-- The result for a claimed workflow. -/
def dequeued (x : String × WorkflowRow) : DequeuedWorkflow :=
  ⟨x.1, x.2.name, x.2.inputs, x.2.serialization, x.2.configName⟩

/-- What the snapshot of a committed iteration shows. -/
structure Counted (k : Claims) (s : DbMoment) : Prop where
  rows : ∀ x ∈ k.locked, s.db.workflow x.1 = some x.2
  global : FitsGlobal input k.taken.length s
  recent : ∀ limit period, input.rateLimit = some (limit, period) →
    ∃ (m : DbMoment) (t : ℤ), valid m .now t = true ∧ m.Before s ∧
      k.taken.length + (s.db.workflowStatus.count fun _ r ↦
        r.startedSince input.queueName input.partitionKey (asI64 (t - asI64 period))) ≤ limit

/-- What a committed dequeue iteration has done. -/
structure DequeueCommit (k : Claims) (e : DbEffect) : Prop where
  writes : e.writes = input.writes k
  nodup : (k.locked.map Prod.fst).Nodup
  sublist : k.taken.Sublist k.locked
  candidate : ∀ x ∈ k.locked,
    x.2.candidate input.queueName input.applicationVersion input.partitionKey = true
  nonempty : k.taken ≠ []
  clock : ∃ m, valid m .now k.now = true ∧ (∀ s ∈ e.snapshot, s.Before m) ∧ m.Before e.moment
  snapshot : input.snapshot = true → ∃ s, e.snapshot = some s ∧ Counted valid input k s

end

/-! ### The stages of the iteration -/

section

variable {Γ : DbSpec} {input : DequeueInput} {numRecent : ℕ} {tx : DbTx}

/-- The transaction after the rate gate. -/
structure Gated (Γ : DbSpec) (input : DequeueInput) (numRecent : ℕ) (tx : DbTx) (m : DbMoment) :
    Prop where
  writes : tx.writes = []
  iso : tx.iso = input.isolation
  before : ∀ s ∈ tx.snapshot, s.Before m
  recent : input.rateLimit.isSome → ∃ s, tx.snapshot = some s ∧
    PassedRate Γ.valid input numRecent s

/-- The transaction once the number of tasks is known. -/
structure Bounded (Γ : DbSpec) (input : DequeueInput) (numRecent : ℕ) (n : ℤ) (tx : DbTx)
    (m : DbMoment) : Prop extends Gated Γ input numRecent tx m where
  global : input.globalConcurrency.isSome → 0 < n → ∃ s, tx.snapshot = some s ∧
    FitsGlobal input n.toNat s

/-- The first snapshot of a repeatable-read transaction stays its snapshot. -/
theorem ActiveView.base_of_repeatableRead {b m : DbMoment} {v : DbView Stmt}
    (hv : ActiveView (pinTx tx b) b m v) (hiso : tx.iso = .repeatableRead) (hw : tx.writes = []) :
    (pinTx tx b).snapshot = some (tx.snapshot.getD b) ∧ v.base = (tx.snapshot.getD b).db := by
  obtain ⟨iso, snap, ws⟩ := tx
  subst hiso hw
  exact ⟨rfl, hv.base⟩

theorem before_pin {b m : DbMoment} (hs : ∀ s ∈ tx.snapshot, s.Before b) (hm : b.Before m) :
    ∀ s ∈ (pinTx tx b).snapshot, s.Before m := by
  intro s hmem
  rw [pinTx] at hmem
  dsimp only at hmem
  split at hmem
  · obtain rfl := Option.some.inj hmem
    cases hsnap : tx.snapshot with
    | none => exact hm
    | some s' => exact (hs s' hsnap).trans hm
  · exact (hs s hmem).trans hm

theorem DequeueInput.isolation_of_snapshot (h : input.snapshot = true) :
    input.isolation = .repeatableRead := by
  simp [DequeueInput.isolation, h]

theorem DequeueInput.snapshot_of_rateLimit (h : input.rateLimit.isSome) :
    input.snapshot = true := by
  simp [DequeueInput.snapshot, h]

theorem DequeueInput.snapshot_of_globalConcurrency (h : input.globalConcurrency.isSome) :
    input.snapshot = true := by
  simp [DequeueInput.snapshot, h]

/-- A reading of the clock. -/
def IsClock (a : DbAnswer) : Prop := a.ask = .now

theorem IsClock.noSpawn {a : DbAnswer} (h : IsClock a) : NoSpawn a := by
  intro task ht
  rw [IsClock, ht] at h
  cases h

/-- Nothing was committed since the program was at `m₀` with trace `τ₀`. -/
structure Quiet (Γ : DbSpec) (m₀ : DbMoment) (τ₀ : DbTrace) (m : DbMoment) (τ : DbTrace) :
    Prop where
  rely : Γ.rely m₀ m
  adds : Adds τ₀ [] IsClock τ

section

variable {m₀ m m' : DbMoment} {τ₀ τ : DbTrace}

theorem Quiet.env (h : Quiet Γ m₀ τ₀ m τ) (hm : Γ.rely m m') : Quiet Γ m₀ τ₀ m' τ :=
  ⟨Γ.rely_trans h.rely hm, h.adds⟩

theorem Quiet.refl (m : DbMoment) (τ : DbTrace) : Quiet Γ m τ m τ :=
  ⟨Γ.rely_refl m, .refl τ⟩

theorem Quiet.note (h : Quiet Γ m₀ τ₀ m τ) (m' : DbMoment) (t : ℤ) :
    Quiet Γ m₀ τ₀ m (τ.note ⟨m', .now, t⟩) :=
  ⟨h.rely, h.adds.note rfl⟩

variable (hrely : ∀ {m m' : DbMoment}, Γ.rely m m' → m.Before m')
variable (hmay : ∀ τ m (t : ℤ), Γ.may τ ⟨m, .now, t⟩)
include hrely

include hmay in
/-- The rate gate counts on the snapshot it fixes. -/
theorem wpM_rateLimitGate (hτ : Quiet Γ m₀ τ₀ m τ) (hw : tx.writes = [])
    (hiso : tx.iso = input.isolation) (hsnap : tx.snapshot = none) :
    wpM Γ (rateLimitGate input)
      (fun r c m τ ↦ Quiet Γ m₀ τ₀ m τ ∧
        ∀ n, r = some n → ∃ tx, c = .active tx ∧ Gated Γ input n tx m)
      (fun _ _ m τ ↦ Quiet Γ m₀ τ₀ m τ) (.active tx) m τ := by
  rw [rateLimitGate]
  split
  · rename_i hnone
    refine wpM_pure fun m' hm ↦ ⟨hτ.env hm, ?_⟩
    rintro n ⟨⟩
    exact ⟨tx, rfl, hw, hiso, by simp [hsnap], by simp [hnone]⟩
  · rename_i limit period hrate
    refine wpM_ask fun m₁ hm₁ now hnow ↦ ⟨hmay _ _ _, ?_⟩
    have hτ₁ := (hτ.env hm₁).note m₁ now
    refine wpM_query_active (fun b m₂ m₃ e hb hm₂ _ hm₃ ↦
      ((hτ₁.env hb).env hm₂).env hm₃) ?_
    intro b m₂ v a ch hb hm₂ hv hrun
    obtain ⟨rfl, rfl⟩ : (v.base.workflowStatus.count fun _ r ↦ r.startedSince input.queueName
        input.partitionKey (asI64 (now - asI64 period))) = a ∧ [] = ch := by
      simpa [Stmt.run, Outcome.read] using hrun
    refine wpM_pure fun m₃ hm₃ ↦ ⟨(hτ₁.env hb).env (Γ.rely_trans hm₂ hm₃), ?_⟩
    intro n hn
    have hsome : input.rateLimit.isSome := by simp [hrate]
    have hrr : tx.iso = .repeatableRead := by
      rw [hiso, DequeueInput.isolation_of_snapshot (DequeueInput.snapshot_of_rateLimit hsome)]
    obtain ⟨hpin, hbase⟩ := hv.base_of_repeatableRead hrr hw
    rw [hsnap, Option.getD_none] at hpin hbase
    refine ⟨_, rfl, by simp [Store.record, hw], hiso, ?_, fun _ ↦ ⟨b, hpin, ?_⟩⟩
    · intro s hs
      obtain rfl := Option.some.inj (hpin.symm.trans hs)
      exact hrely (Γ.rely_trans hm₂ hm₃)
    · intro limit' period' hrate'
      cases hrate.symm.trans hrate'
      rw [← hbase]
      split at hn
      · cases hn
      · rename_i hlt
        cases hn
        exact ⟨by omega, m₁, now, hnow, hrely hb, rfl⟩

/-- The number of tasks fits under the global limit in the snapshot. -/
theorem wpM_maxTasks (hτ : Quiet Γ m₀ τ₀ m τ) (htx : Gated Γ input numRecent tx m) :
    wpM Γ (maxTasks input)
      (fun n c m τ ↦ Quiet Γ m₀ τ₀ m τ ∧
        ∃ tx, c = .active tx ∧ Bounded Γ input numRecent n tx m)
      (fun _ _ m τ ↦ Quiet Γ m₀ τ₀ m τ) (.active tx) m τ := by
  rw [maxTasks]
  split
  · rename_i hnone
    refine wpM_pure fun m' hm ↦ ⟨hτ.env hm, tx, rfl, ?_, by simp [hnone]⟩
    exact ⟨htx.writes, htx.iso, fun s hs ↦ (htx.before s hs).trans (hrely hm), htx.recent⟩
  · rename_i g hg
    refine wpM_query_active (fun b m₁ m₂ e hb hm₁ _ hm₂ ↦ ((hτ.env hb).env hm₁).env hm₂) ?_
    intro b m₁ v a ch hb hm₁ hv hrun
    obtain ⟨rfl, rfl⟩ : (v.base.workflowStatus.count fun _ r ↦ r.pendingIn input.queueName
        input.partitionKey) = a ∧ [] = ch := by
      simpa [Stmt.run, Outcome.read] using hrun
    refine wpM_pure fun m₂ hm₂ ↦ ⟨(hτ.env hb).env (Γ.rely_trans hm₁ hm₂), _, rfl, ?_⟩
    have hsome : input.globalConcurrency.isSome := by simp [hg]
    have hrr : tx.iso = .repeatableRead := by
      rw [htx.iso,
        DequeueInput.isolation_of_snapshot (DequeueInput.snapshot_of_globalConcurrency hsome)]
    obtain ⟨hpin, hbase⟩ := hv.base_of_repeatableRead hrr htx.writes
    refine ⟨⟨by simp [Store.record, htx.writes], htx.iso, ?_, fun hrate ↦ ?_⟩, fun _ hpos ↦ ?_⟩
    · exact before_pin (fun s hs ↦ (htx.before s hs).trans (hrely hb))
        (hrely (Γ.rely_trans hm₁ hm₂))
    · obtain ⟨s, hs, hpassed⟩ := htx.recent hrate
      rw [hs, Option.getD_some] at hpin
      exact ⟨s, hpin, hpassed⟩
    · refine ⟨_, hpin, fun g' hg' ↦ ?_⟩
      cases hg.symm.trans hg'
      rw [← hbase]
      omega

end

/-! ### The claiming loop -/

/-- The transaction while it claims: it has written the locks and one claim for each workflow taken
so far. -/
structure Claiming (Γ : DbSpec) (input : DequeueInput) (numRecent : ℕ) (k : Claims) (tx : DbTx)
    (m : DbMoment) : Prop where
  writes : tx.writes = input.writes k
  iso : tx.iso = input.isolation
  nodup : (k.locked.map Prod.fst).Nodup
  sublist : k.taken.Sublist k.locked
  length : k.locked.length ≤ k.limit
  candidate : ∀ x ∈ k.locked,
    x.2.candidate input.queueName input.applicationVersion input.partitionKey = true
  clock : ∃ m₁, Γ.valid m₁ .now k.now = true ∧ (∀ s ∈ tx.snapshot, s.Before m₁) ∧ m₁.Before m
  rate : ∀ limit period, input.rateLimit = some (limit, period) →
    k.taken.length + numRecent ≤ limit
  snapshot : input.snapshot = true → ∃ s, tx.snapshot = some s ∧
    (∀ x ∈ k.locked, s.db.workflow x.1 = some x.2) ∧ FitsGlobal input k.limit s ∧
    PassedRate Γ.valid input numRecent s

section

variable {k : Claims} {m m' : DbMoment}

theorem Claiming.later (h : Claiming Γ input numRecent k tx m) (hm : m.Before m') :
    Claiming Γ input numRecent k tx m' := by
  obtain ⟨m₁, hvalid, hsnap, hbefore⟩ := h.clock
  exact { h with clock := ⟨m₁, hvalid, hsnap, hbefore.trans hm⟩ }

/-- A locked workflow that is not claimed yet has the row it was locked with. -/
theorem Claiming.look (h : Claiming Γ input numRecent k tx m) {x : String × WorkflowRow}
    (hx : x ∈ k.locked) (hnew : x.1 ∉ k.taken.map Prod.fst) (db : Db) :
    (server.apply db tx.writes).workflow x.1 = some x.2 := by
  rw [h.writes]
  exact input.look_writes_of_locked h.nodup hx hnew db

/-- A claim adds one workflow to those taken. -/
theorem Claiming.take (h : Claiming Γ input numRecent k tx m) {x : String × WorkflowRow}
    (hsub : (k.taken ++ [x]).Sublist k.locked)
    (hrate : ∀ limit period, input.rateLimit = some (limit, period) →
      k.taken.length + numRecent < limit) :
    Claiming Γ input numRecent { k with taken := k.taken ++ [x] }
      { tx with writes := tx.writes ++ [input.claimWrite k.now x] } m where
  writes := by simp [h.writes, DequeueInput.writes]
  iso := h.iso
  nodup := h.nodup
  sublist := hsub
  length := h.length
  candidate := h.candidate
  clock := h.clock
  rate limit period hl := by
    have := hrate limit period hl
    simp only [List.length_append, List.length_singleton]
    omega
  snapshot := h.snapshot

/-- A transaction that is claiming has its snapshot already. -/
theorem Claiming.pin (h : Claiming Γ input numRecent k tx m) (b : DbMoment) : pinTx tx b = tx := by
  have hsome : tx.iso = .repeatableRead → tx.snapshot.isSome := by
    intro hiso
    have hsnap : input.snapshot = true := by
      by_contra hne
      rw [h.iso, DequeueInput.isolation, if_neg hne] at hiso
      cases hiso
    obtain ⟨s, hs, -⟩ := h.snapshot hsnap
    simp [hs]
  obtain ⟨iso, snap, ws⟩ := tx
  cases iso with
  | readCommitted => rfl
  | repeatableRead =>
    obtain ⟨s, rfl⟩ := Option.isSome_iff_exists.1 (hsome rfl)
    rfl

variable {m₀ : DbMoment} {τ₀ τ : DbTrace}
variable (hrely : ∀ {m m' : DbMoment}, Γ.rely m m' → m.Before m')
include hrely

/-- The claiming loop, by induction on the candidates that are left. -/
theorem wpM_claimEach {rest : List (String × WorkflowRow)} (hτ : Quiet Γ m₀ τ₀ m τ)
    (hk : Claiming Γ input numRecent k tx m) (hrest : (k.taken ++ rest).Sublist k.locked) :
    wpM Γ (claimEach input numRecent k.now (rest.map Prod.fst) (k.taken.map dequeued))
      (fun out c m τ ↦ Quiet Γ m₀ τ₀ m τ ∧ ∃ taken tx, c = .active tx ∧
        Claiming Γ input numRecent { k with taken := taken } tx m ∧ out = taken.map dequeued)
      (fun _ _ m τ ↦ Quiet Γ m₀ τ₀ m τ) (.active tx) m τ := by
  induction rest generalizing k tx m τ with
  | nil =>
    exact wpM_pure fun m' hm ↦
      ⟨hτ.env hm, k.taken, tx, rfl, hk.later (hrely hm), rfl⟩
  | cons x rest ih =>
    rw [List.map_cons, claimEach]
    split
    · exact wpM_pure fun m' hm ↦
        ⟨hτ.env hm, k.taken, tx, rfl, hk.later (hrely hm), rfl⟩
    · rename_i hrate
      refine wpM_query_active (fun b m₁ m₂ e hb hm₁ _ hm₂ ↦ ((hτ.env hb).env hm₁).env hm₂) ?_
      intro b m₁ v a ch hb hm₁ hv hrun
      rw [hk.pin b] at hv ⊢
      have hk₁ := hk.later (hrely (Γ.rely_trans hb hm₁))
      have hτ₁ := hτ.env (Γ.rely_trans hb hm₁)
      have hskip : (k.taken ++ rest).Sublist k.locked :=
        ((List.Sublist.refl _).append (List.sublist_cons_self x rest)).trans hrest
      obtain ⟨r, hr, rfl⟩ := Outcome.map_eq_done.1 hrun
      rcases View.update_done hr with ⟨rfl, rfl⟩ | ⟨old, hold, -, rfl, rfl⟩
      · rw [show store.record _ v.cur [] = [] from rfl, List.append_nil]
        exact ih hτ₁ hk₁ hskip
      · have hx : x ∈ k.locked := hrest.subset (by simp)
        have hnew : x.1 ∉ k.taken.map Prod.fst := by
          have hnd := hk.nodup.sublist (hrest.map Prod.fst)
          rw [List.map_append, List.map_cons] at hnd
          exact fun hmem ↦ (List.nodup_append.1 hnd).2.2 _ hmem _ List.mem_cons_self rfl
        have hcur : store.look v.cur (.workflowStatus x.1) = some x.2 := by
          rw [hv.cur]
          exact hk.look hx hnew m₁.db
        cases hcur.symm.trans hold
        have hclaimed : (k.taken ++ [x]).map dequeued = k.taken.map dequeued ++
            [⟨x.1, x.2.name, x.2.inputs, x.2.serialization, x.2.configName⟩] := by
          simp [dequeued]
        have hwrites : store.record (input.claimStmt k.now x.1) v.cur
            [⟨.workflowStatus x.1, some (input.claimed k.now x.2)⟩] =
            [input.claimWrite k.now x] := by
          simp [Store.record, hcur, DequeueInput.claimWrite]
        have htake : Claiming Γ input numRecent { k with taken := k.taken ++ [x] }
            { tx with writes := tx.writes ++ [input.claimWrite k.now x] } m₁ := by
          refine hk₁.take (((List.Sublist.refl _).append (by simp)).trans hrest)
            fun limit period hl ↦ ?_
          simpa [hl] using hrate
        have hnext := ih hτ₁ htake (by simpa using hrest)
        rw [hclaimed] at hnext
        rw [← hwrites] at hnext
        exact hnext

end

/-! ### The whole iteration -/

/-- Rows for a list of ids. -/
theorem exists_rows (look : String → Option WorkflowRow) {ids : List String}
    (h : ∀ w ∈ ids, ∃ r, look w = some r) :
    ∃ l : List (String × WorkflowRow), l.map Prod.fst = ids ∧ ∀ x ∈ l, look x.1 = some x.2 := by
  induction ids with
  | nil => exact ⟨[], rfl, by simp⟩
  | cons w ids ih =>
    obtain ⟨r, hr⟩ := h w List.mem_cons_self
    obtain ⟨l, rfl, hl⟩ := ih fun w' hw' ↦ h w' (List.mem_cons_of_mem _ hw')
    exact ⟨(w, r) :: l, rfl, by simpa [hr] using hl⟩

/-- The transaction right after the candidates are locked. -/
theorem Bounded.lock {n : ℤ} {b m m₁ : DbMoment} {v : DbView Stmt} {ids : List String}
    {ch : Changes} {now : ℤ} (h : Bounded Γ input numRecent n tx b) (hn : 0 < n)
    (hv : ActiveView (pinTx tx b) b m v)
    (hrun : Stmt.run v (.selectCandidates input.queueName input.applicationVersion
      input.partitionKey input.lockMode n.toNat) = .done ids ch)
    (hm : b.Before m₁) (hnow : Γ.valid m₁ .now now = true)
    (hgate : ∀ limit period, input.rateLimit = some (limit, period) → numRecent < limit) :
    ∃ locked : List (String × WorkflowRow), locked.map Prod.fst = ids ∧
      Claiming Γ input numRecent ⟨n.toNat, now, locked, []⟩
        { pinTx tx b with
          writes := tx.writes ++ store.record (.selectCandidates input.queueName
            input.applicationVersion input.partitionKey input.lockMode n.toNat) v.cur ch } m₁ := by
  obtain ⟨hnd, hlen, rfl, hall⟩ := Stmt.selectCandidates_done hrun
  obtain ⟨locked, rfl, hlocked⟩ := exists_rows v.cur.workflow fun w hw ↦
    (hall w hw).imp fun r hr ↦ hr.1
  have hkeys : (((locked.map Prod.fst).map fun w ↦ (⟨.workflowStatus w, v.cur.workflow w⟩ :
      Σ k : Key, Option (Row k))).map Sigma.fst).Nodup := by
    rw [List.map_map]
    exact hnd.map fun a b hab ↦ Key.workflowStatus.inj hab
  have hrow : ∀ x ∈ locked, x.2.candidate input.queueName input.applicationVersion
      input.partitionKey = true ∧ (v.iso = .repeatableRead → v.base.workflow x.1 = some x.2) := by
    intro x hx
    obtain ⟨r, hr, hcand, hbase⟩ := hall x.1 (List.mem_map_of_mem hx)
    cases (hlocked x hx).symm.trans hr
    exact ⟨hcand, hbase⟩
  have hiso : (pinTx tx b).iso = input.isolation := h.iso
  refine ⟨locked, rfl, ?_, hiso, hnd, by simp, by simpa using hlen, fun x hx ↦ (hrow x hx).1,
    ⟨m₁, hnow, before_pin h.before hm, .refl m₁⟩, fun limit period hl ↦ ?_, fun hsnap ↦ ?_⟩
  · rw [h.writes, store.record_eq_map hkeys]
    simp only [DequeueInput.writes, List.nil_append, List.map_map, List.map_nil, List.append_nil]
    refine List.map_congr_left fun x hx ↦ ?_
    have hx' : store.look v.cur (.workflowStatus x.1) = some x.2 := hlocked x hx
    simp [DequeueInput.lockWrite, hx', hlocked x hx]
  · simpa using (hgate limit period hl).le
  · have hrr : tx.iso = .repeatableRead := by
      rw [h.iso, DequeueInput.isolation_of_snapshot hsnap]
    obtain ⟨hpin, hbase⟩ := hv.base_of_repeatableRead hrr h.writes
    refine ⟨_, hpin, fun x hx ↦ ?_, fun g hg ↦ ?_, fun limit period hl ↦ ?_⟩
    · rw [← hbase]
      exact (hrow x hx).2 (hv.iso.trans hrr)
    · obtain ⟨s, hs, hfits⟩ := h.global (by simp [Option.mem_def.1 hg]) hn
      rw [hs, Option.getD_some]
      exact hfits g hg
    · obtain ⟨s, hs, hpassed⟩ := h.recent (by simp [hl])
      rw [hs, Option.getD_some]
      exact hpassed limit period hl

/-- A transaction that has claimed something commits as `DequeueCommit` says. -/
theorem Claiming.commit {k : Claims} {m m' : DbMoment} (h : Claiming Γ input numRecent k tx m)
    (hm : m.Before m') (hne : k.taken ≠ []) :
    DequeueCommit Γ.valid input k ⟨m', tx.snapshot, tx.writes⟩ := by
  obtain ⟨m₁, hvalid, hsnap, hbefore⟩ := h.clock
  refine ⟨h.writes, h.nodup, h.sublist, h.candidate, hne,
    ⟨m₁, hvalid, hsnap, hbefore.trans hm⟩, fun hs ↦ ?_⟩
  obtain ⟨s, hs, hrows, hglobal, hrate⟩ := h.snapshot hs
  refine ⟨s, hs, hrows, fun g hg ↦ ?_, fun limit period hl ↦ ?_⟩
  · have hlen := h.sublist.length_le.trans h.length
    have hfits := hglobal g hg
    omega
  · obtain ⟨-, m₀, t, ht, hbefore, hcount⟩ := hrate limit period hl
    exact ⟨m₀, t, ht, hbefore, hcount ▸ h.rate limit period hl⟩

section

variable {m₀ m m' : DbMoment} {τ₀ τ : DbTrace}

/-- What is known at the end of an iteration: nothing was claimed and nothing committed, or one
transaction was committed that claimed what is returned. -/
def Dequeued (Γ : DbSpec) (input : DequeueInput) (m₀ : DbMoment) (τ₀ : DbTrace)
    (claimed : List DequeuedWorkflow) (m : DbMoment) (τ : DbTrace) : Prop :=
  (claimed = [] ∧ Quiet Γ m₀ τ₀ m τ) ∨
    ∃ k e, DequeueCommit Γ.valid input k e ∧ claimed = k.taken.map dequeued ∧
      Adds τ₀ [e] IsClock τ ∧ Γ.rely m₀ e.moment ∧ Γ.rely (e.moment.after server e.writes) m

theorem Dequeued.env {claimed : List DequeuedWorkflow} (h : Dequeued Γ input m₀ τ₀ claimed m τ)
    (hm : Γ.rely m m') : Dequeued Γ input m₀ τ₀ claimed m' τ := by
  rcases h with ⟨hnil, hτ⟩ | ⟨k, e, hcommit, hclaimed, hadds, hbefore, hafter⟩
  · exact Or.inl ⟨hnil, hτ.env hm⟩
  · exact Or.inr ⟨k, e, hcommit, hclaimed, hadds, hbefore, Γ.rely_trans hafter hm⟩

/-- Setting the isolation level where the iteration needs a snapshot. -/
theorem wpM_isolationIf {α : Type} {f : Unit → DbosM α} {Q : DbPost α} {X : DbPost DbosError}
    (herr : ∀ m' e, Γ.faulty → Γ.rely m m' → X (.ofSql e) .aborted m' τ)
    (h : wpM Γ (f ()) Q X (.active ⟨input.isolation, none, []⟩) m τ) :
    wpM Γ (if input.snapshot = true then setIsolation .repeatableRead >>= f else f ()) Q X
      (.active ⟨.readCommitted, none, []⟩) m τ := by
  by_cases hsnap : input.snapshot = true
  · rw [DequeueInput.isolation, if_pos hsnap] at h
    rw [if_pos hsnap]
    exact wpM_isolation herr h
  · rw [DequeueInput.isolation, if_neg hsnap] at h
    rwa [if_neg hsnap]

/-- A dequeue iteration commits at most one transaction, which is a `DequeueCommit` that claimed
exactly what the iteration returns. One that fails has committed nothing, unless a reply was lost.
-/
theorem wpM_dequeueWorkflows (input : DequeueInput) (m₀ : DbMoment) (τ₀ : DbTrace)
    (hrely : ∀ {m m' : DbMoment}, Γ.rely m m' → m.Before m')
    (hmay : ∀ τ m (t : ℤ), Γ.may τ ⟨m, .now, t⟩)
    (hguar : ∀ τ k e, DequeueCommit Γ.valid input k e → Γ.guar τ e) :
    wpM Γ (dequeueWorkflows input)
      (fun claimed c m τ ↦ c = .idle ∧ Dequeued Γ input m₀ τ₀ claimed m τ)
      (fun _ c m τ ↦ c = .idle ∧ (Quiet Γ m₀ τ₀ m τ ∨
        Γ.faulty ∧ ∃ claimed, Dequeued Γ input m₀ τ₀ claimed m τ)) .idle m₀ τ₀ := by
  have quiet : ∀ {m τ}, Quiet Γ m₀ τ₀ m τ → (Conn.idle : DbConn) = .idle ∧ (Quiet Γ m₀ τ₀ m τ ∨
      Γ.faulty ∧ ∃ claimed, Dequeued Γ input m₀ τ₀ claimed m τ) := fun hτ ↦ ⟨rfl, Or.inl hτ⟩
  rw [dequeueWorkflows]
  have hτ₀ : Quiet Γ m₀ τ₀ m₀ τ₀ := .refl m₀ τ₀
  refine wpM_transaction (fun m e _ hm ↦ quiet (hτ₀.env hm)) ?_
  refine wpM_isolationIf (fun m e _ hm ↦ quiet (hτ₀.env hm)) ?_
  refine wpM_bind (wpM_mono (wpM_rateLimitGate hrely hmay hτ₀ rfl rfl rfl) ?_
    fun e c m τ hτ ↦ quiet hτ)
  rintro (_ | numRecent) c m τ ⟨hτ, hpassed⟩
  · exact wpM_pure fun m' hm ↦ ⟨rfl, Or.inl ⟨rfl, hτ.env hm⟩⟩
  obtain ⟨tx, rfl, htx⟩ := hpassed numRecent rfl
  dsimp only
  refine wpM_bind (wpM_mono (wpM_maxTasks hrely hτ htx) ?_ fun e c m τ hτ ↦ quiet hτ)
  rintro n c m τ ⟨hτ, tx, rfl, htx⟩
  by_cases hn : n ≤ 0
  · rw [if_pos hn]
    exact wpM_pure fun m' hm ↦ ⟨rfl, Or.inl ⟨rfl, hτ.env hm⟩⟩
  rw [if_neg hn]
  refine wpM_query_active (fun b m₁ m₂ e hb hm₁ _ hm₂ ↦
    quiet (((hτ.env hb).env hm₁).env hm₂)) ?_
  intro b m₁ v ids ch hb hm₁ hv hrun
  refine wpM_ask fun m₂ hm₂ now hnow ↦ ⟨hmay _ _ _, ?_⟩
  have hτ₂ := ((hτ.env hb).env (Γ.rely_trans hm₁ hm₂)).note m₂ now
  have htx₁ : Bounded Γ input numRecent n tx b :=
    { htx with before := fun s hs ↦ (htx.before s hs).trans (hrely hb) }
  have hgate : ∀ limit period, input.rateLimit = some (limit, period) → numRecent < limit := by
    intro limit period hl
    obtain ⟨s, -, hpassed⟩ := htx.recent (by simp [hl])
    exact (hpassed limit period hl).1
  obtain ⟨locked, rfl, hk⟩ := htx₁.lock (by omega) hv hrun (hrely (Γ.rely_trans hm₁ hm₂)) hnow hgate
  refine wpM_bind (wpM_mono (wpM_claimEach hrely hτ₂ hk (List.Sublist.refl _)) ?_
    fun e c m τ hτ ↦ quiet hτ)
  rintro claimed c m τ ⟨hτ, taken, tx', rfl, hk, rfl⟩
  by_cases hne : taken = []
  · subst hne
    exact wpM_pure fun m' hm ↦ ⟨rfl, Or.inl ⟨rfl, hτ.env hm⟩⟩
  have hclaimed : (!(taken.map dequeued).isEmpty) = true := by simpa using hne
  rw [if_pos hclaimed]
  have done : ∀ m' m'', Γ.rely m m' → Γ.rely (m'.after server tx'.writes) m'' →
      Dequeued Γ input m₀ τ₀ (taken.map dequeued) m''
        (τ.commit m' (some (tx'.snapshot, tx'.writes))) := by
    intro m' m'' hm' hm''
    exact Or.inr ⟨_, _, hk.commit (hrely hm') hne, rfl, hτ.adds.commit m' _ _,
      Γ.rely_trans hτ.rely hm', hm''⟩
  refine wpM_commit (fun m' hm' _ ↦ hguar _ _ _ (hk.commit (hrely hm') hne))
    (fun m' e _ hm' ↦ quiet (hτ.env hm')) (fun m' hm' _ ↦ wpM_pure fun m'' hm'' ↦
      ⟨rfl, done m' m'' hm' hm''⟩)
    fun m' m'' e hf hm' _ hm'' ↦ ⟨rfl, Or.inr ⟨hf, _, done m' m'' hm' hm''⟩⟩

end

end

end Dbos
