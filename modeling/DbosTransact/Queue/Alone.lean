import DbosTransact.Db.Alone
import DbosTransact.Queue.Runs

/-!
# A dequeue iteration that is left alone

What `dequeue_workflows` claims when no other transaction overlaps it: of the candidates in the
order of their priority and creation as many as the limits leave room for
(`aloneM_dequeueWorkflows`). The limits are applied in three places, by an early return, by a
running minimum and by a break in the claiming loop, and come out as one minimum,
`DequeueInput.room`.
-/

namespace Dbos

open Txn

namespace DequeueInput

variable (input : DequeueInput) (db : Db)

/-- The workflows that may be claimed, in no particular order. -/
def eligible : List (String × WorkflowRow) :=
  db.workflowStatus.select fun _ r ↦
    r.candidate input.queueName input.applicationVersion input.partitionKey

/-- How many workflows of the queue are running. -/
def pending : ℕ :=
  db.workflowStatus.count fun _ r ↦ r.pendingIn input.queueName input.partitionKey

/-- How many workflows of the queue were started in the period before `now`, if starts are limited.
-/
def recent (now : ℤ) : ℕ :=
  match input.rateLimit with
  | none => 0
  | some (_, period) => db.workflowStatus.count fun _ r ↦
      r.startedSince input.queueName input.partitionKey (asI64 (now - asI64 period))

/-- What the limits over all executors leave room for. -/
def sharedRoom (now : ℤ) : List ℤ :=
  (input.globalConcurrency.map fun g : ℕ ↦ (g : ℤ) - input.pending db).toList ++
    (input.rateLimit.map fun r : ℕ × ℕ ↦ (r.1 : ℤ) - input.recent db now).toList

/-- How many workflows the limits on concurrency leave room for. -/
def tasks : ℤ :=
  (input.globalConcurrency.map fun g : ℕ ↦ (g : ℤ) - input.pending db).toList.foldl min
    input.localMax

/-- How many workflows an iteration goes for. -/
def room (now : ℤ) : ℕ :=
  ((input.sharedRoom db now).foldl min input.localMax).toNat

/-- `ORDER BY priority ASC, created_at ASC`, where `rank` decides between rows this leaves tied. -/
def inOrder (rank : String → ℕ) (a b : String × WorkflowRow) : Prop :=
  a.2.priority < b.2.priority ∨ a.2.priority = b.2.priority ∧ (a.2.createdAt < b.2.createdAt ∨
    a.2.createdAt = b.2.createdAt ∧ rank a.1 ≤ rank b.1)

instance (rank : String → ℕ) : DecidableRel (inOrder rank) := fun a b ↦ by
  unfold inOrder
  infer_instance

/-- The candidates in the order they are claimed in. -/
def ordered (rank : String → ℕ) : List (String × WorkflowRow) :=
  (input.eligible db).insertionSort (inOrder rank)

/-- The number of claims the rate limit allows, of `n`. -/
def withinRate (numRecent n : ℕ) : ℕ :=
  match input.rateLimit with
  | none => n
  | some (limit, _) => min n (limit - numRecent)

variable {input db}

theorem mem_eligible {x : String × WorkflowRow} : x ∈ input.eligible db ↔
    db.workflow x.1 = some x.2 ∧
      x.2.candidate input.queueName input.applicationVersion input.partitionKey = true :=
  Table.mem_select_iff

theorem ordered_perm (rank : String → ℕ) : (input.ordered db rank).Perm (input.eligible db) :=
  List.perm_insertionSort _ _

theorem mem_ordered {rank : String → ℕ} {x : String × WorkflowRow} :
    x ∈ input.ordered db rank ↔ x ∈ input.eligible db :=
  (ordered_perm rank).mem_iff

theorem nodup_ordered (rank : String → ℕ) : ((input.ordered db rank).map Prod.fst).Nodup :=
  ((ordered_perm rank).map Prod.fst).nodup_iff.2 (Table.nodup_select_keys _ _)

theorem candidates_eq (v : DbView Stmt) :
    Stmt.candidates v input.queueName input.applicationVersion input.partitionKey =
      (input.ordered v.base fun w ↦ v.plan (.workflowStatus w)).map Prod.fst := by
  rw [Stmt.candidates, ordered, eligible]
  congr 1

theorem pairwise_ordered (rank : String → ℕ) : (input.ordered db rank).Pairwise (inOrder rank) := by
  have htotal : Std.Total (inOrder rank) := ⟨fun a b ↦ by unfold inOrder; omega⟩
  have htrans : IsTrans _ (inOrder rank) := ⟨fun a b c ↦ by unfold inOrder; omega⟩
  exact List.pairwise_insertionSort _ _

end DequeueInput

/-! ### The stages of the iteration -/

section

variable {valid : DbMoment → (q : Ask) → q.Ans → Bool} {input : DequeueInput} {m : DbMoment}
variable {tx : DbTx} {k : Claims} {numRecent : ℕ}

/-- The transaction of an iteration that is left alone, before it locks anything. -/
def Reading (tx : DbTx) (db : Db) (c : DbConn) : Prop :=
  ∃ tx', c = .active tx' ∧ tx'.writes = tx.writes ∧ Tx.Reads tx' db

theorem aloneM_count {s : Stmt} {n : s.Res} {f : s.Res → DbosM α}
    {Q : α → DbConn → DbMoment → Prop} (htx : Tx.Reads tx m.db)
    (hs : ∀ v : DbView Stmt, v.base = server.apply m.db tx.writes → Stmt.run v s = .read n)
    (h : ∀ tx' m', m.Still m' → tx'.writes = tx.writes → Tx.Reads tx' m.db →
      aloneM valid (f n) Q (.active tx') m') : aloneM valid (query s >>= f) Q (.active tx) m := by
  refine aloneM_query htx fun v hv ↦
    ⟨n, [], hs v (hv.base.trans hv.cur), fun tx' m' hm _ hreads hw ↦ ?_⟩
  exact h tx' m' hm (hw.trans (List.append_nil _)) hreads

/-- The rate gate reads the number of recent starts. -/
theorem aloneM_rateLimitGate (htx : Tx.Reads tx m.db) (hw : tx.writes = []) :
    aloneM valid (rateLimitGate input)
      (fun r c m' ↦ m.Still m' ∧ Reading tx m.db c ∧ ∃ now,
        (input.rateLimit.isSome = true → ∃ m₁, m.Still m₁ ∧ valid m₁ .now now = true) ∧
        r = if input.rateLimit.any (fun l ↦ l.1 ≤ input.recent m.db now) then none
          else some (input.recent m.db now)) (.active tx) m := by
  rw [rateLimitGate]
  cases hrate : input.rateLimit with
  | none =>
    refine aloneM_pure fun m' hm ↦ ⟨hm, ⟨tx, rfl, rfl, htx⟩, 0, by simp, ?_⟩
    simp [DequeueInput.recent, hrate]
  | some r =>
    obtain ⟨limit, period⟩ := r
    refine aloneM_ask fun m₁ hm₁ now hnow ↦ ?_
    have hcount : input.recent m.db now = m.db.workflowStatus.count fun _ r ↦
        r.startedSince input.queueName input.partitionKey (asI64 (now - asI64 period)) := by
      simp [DequeueInput.recent, hrate]
    refine aloneM_count (n := input.recent m.db now) (by rw [← hm₁.2]; exact htx)
      (fun v hv ↦ ?_) fun tx' m₂ hm₂ hw' hreads ↦ ?_
    · rw [hw, server.apply_nil, ← hm₁.2] at hv
      rw [Stmt.run, hv, hcount]
    · rw [← hm₁.2] at hreads
      refine aloneM_pure fun m' hm ↦ ⟨(hm₁.trans hm₂).trans hm, ⟨tx', rfl, hw', hreads⟩, now,
        fun _ ↦ ⟨m₁, hm₁, hnow⟩, ?_⟩
      simp only [Option.any_some, decide_eq_true_eq]

/-- The number of tasks is the least of what the limits on concurrency leave room for. -/
theorem aloneM_maxTasks (htx : Tx.Reads tx m.db) (hw : tx.writes = []) :
    aloneM valid (maxTasks input)
      (fun n c m' ↦ m.Still m' ∧ Reading tx m.db c ∧
        n.toNat = (input.tasks m.db).toNat) (.active tx) m := by
  rw [maxTasks]
  cases hglobal : input.globalConcurrency with
  | none =>
    refine aloneM_pure fun m' hm ↦ ⟨hm, ⟨tx, rfl, rfl, htx⟩, ?_⟩
    rw [DequeueInput.tasks, hglobal]
    rfl
  | some g =>
    refine aloneM_count (n := input.pending m.db) htx (fun v hv ↦ ?_) fun tx' m₁ hm₁ hw' hreads ↦ ?_
    · rw [hw, server.apply_nil] at hv
      rw [Stmt.run, hv, DequeueInput.pending]
    · refine aloneM_pure fun m' hm ↦ ⟨hm₁.trans hm, ⟨tx', rfl, hw', hreads⟩, ?_⟩
      rw [DequeueInput.tasks, hglobal]
      show (min input.localMax (max ((g : ℤ) - input.pending m.db) 0)).toNat =
        (min input.localMax ((g : ℤ) - input.pending m.db)).toNat
      omega

/-- The candidates are locked in their order. -/
theorem run_selectCandidates {v : DbView Stmt} {n : ℕ} (hcalm : v.Calm) {rank : String → ℕ}
    (hrank : rank = fun w ↦ v.plan (.workflowStatus w)) :
    Stmt.run v (.selectCandidates input.queueName input.applicationVersion input.partitionKey
      input.lockMode n) = .done (((input.ordered v.cur rank).take n).map Prod.fst)
        (((input.ordered v.cur rank).take n).map fun x ↦ ⟨.workflowStatus x.1, some x.2⟩) := by
  have hrow : ∀ x ∈ input.ordered v.cur rank, store.look v.cur (.workflowStatus x.1) = some x.2 ∧
      x.2.candidate input.queueName input.applicationVersion input.partitionKey = true :=
    fun x hx ↦ DequeueInput.mem_eligible.1 (DequeueInput.mem_ordered.1 hx)
  have hids : ∀ l : List (String × WorkflowRow),
      Stmt.workflowIds ((l.map Prod.fst).map .workflowStatus) = l.map Prod.fst := by
    intro l
    rw [Stmt.workflowIds, List.filterMap_map]
    exact List.filterMap_some
  rw [Stmt.run, DequeueInput.candidates_eq, hcalm.base, ← hrank,
    View.lockRows_calm hcalm fun key hkey ↦ ?_]
  · rw [Outcome.map, ← List.map_take, ← List.map_take, hids]
    congr 1
    rw [List.map_map, List.map_map]
    refine List.map_congr_left fun x hx ↦ ?_
    show (⟨.workflowStatus x.1, store.look v.cur (.workflowStatus x.1)⟩ :
      Σ key : Key, Option (Row key)) = _
    rw [(hrow x (List.mem_of_mem_take hx)).1]
  · obtain ⟨w, hw, rfl⟩ := List.mem_map.1 hkey
    obtain ⟨x, hx, rfl⟩ := List.mem_map.1 hw
    rw [(hrow x hx).1, Option.any_some]
    exact (hrow x hx).2

/-- What is taken is the first of what is locked. -/
theorem Claims.taken_eq {rest : List (String × WorkflowRow)} {n : ℕ}
    (hsplit : k.taken ++ rest = k.locked) (hn : k.taken.length = n) :
    k.taken = k.locked.take n := by
  rw [← hn, ← hsplit, List.take_left]

/-- The claiming loop takes the locked workflows in their order, as many as the rate limit allows.
By induction on those that are left. -/
theorem aloneM_claimEach {rest : List (String × WorkflowRow)} (hreads : Tx.Reads tx m.db)
    (hw : tx.writes = input.writes k) (hnd : (k.locked.map Prod.fst).Nodup)
    (hcand : ∀ x ∈ k.locked, x.2.status = .enqueued) (hsplit : k.taken ++ rest = k.locked)
    (hle : ∀ r ∈ input.rateLimit, k.taken.length + numRecent ≤ r.1) :
    aloneM valid (claimEach input numRecent k.now (rest.map Prod.fst) (k.taken.map dequeued))
      (fun out c m' ↦ m.Still m' ∧ ∃ tx' taken, c = .active tx' ∧
        taken = k.locked.take (input.withinRate numRecent k.locked.length) ∧
        tx'.writes = input.writes { k with taken := taken } ∧ out = taken.map dequeued)
      (.active tx) m := by
  induction rest generalizing k tx m with
  | nil =>
    have hall : k.taken.length = input.withinRate numRecent k.locked.length := by
      rw [← hsplit, List.append_nil, DequeueInput.withinRate]
      split
      · rfl
      · rename_i limit period hrate
        have hfits := hle (limit, period) hrate
        dsimp only at hfits
        omega
    exact aloneM_pure fun m' hm ↦
      ⟨hm, tx, k.taken, rfl, k.taken_eq hsplit hall, hw, rfl⟩
  | cons x rest ih =>
    rw [List.map_cons, claimEach]
    split
    · rename_i hrate
      obtain ⟨r, hr, hfull⟩ := (Option.any_eq_true _ _).1 hrate
      have hall : k.taken.length = input.withinRate numRecent k.locked.length := by
        have hfits := hle r hr
        simp only [List.length_map, decide_eq_true_eq] at hfull
        rw [← hsplit, List.length_append, DequeueInput.withinRate, hr]
        dsimp only
        omega
      exact aloneM_pure fun m' hm ↦
        ⟨hm, tx, k.taken, rfl, k.taken_eq hsplit hall, hw, rfl⟩
    · rename_i hrate
      have hx : x ∈ k.locked := by
        rw [← hsplit]
        simp
      have hnew : x.1 ∉ k.taken.map Prod.fst := by
        rw [← hsplit, List.map_append, List.map_cons] at hnd
        exact fun hmem ↦ (List.nodup_append.1 hnd).2.2 _ hmem _ List.mem_cons_self rfl
      refine aloneM_query hreads fun v hv ↦ ?_
      have hrow : store.look v.cur (.workflowStatus x.1) = some x.2 := by
        rw [hv.cur, hw]
        exact input.look_writes_of_locked hnd hx hnew m.db
      have hrun : Stmt.run v (.claimWorkflow x.1 input.applicationVersion input.executorId k.now
          input.rateLimit.isSome) = .done
            (some ⟨x.2.name, x.2.inputs, x.2.serialization, x.2.configName⟩)
            [⟨.workflowStatus x.1, some (input.claimed k.now x.2)⟩] := by
        rw [Stmt.run, View.update_calm hv.toCalm hrow (by simp [hcand x hx])]
        rfl
      refine ⟨_, _, hrun, fun tx' m' hm _ hreads' hw' ↦ ?_⟩
      have hwrites : tx'.writes = input.writes { k with taken := k.taken ++ [x] } := by
        rw [hw', hw]
        simp [DequeueInput.writes, Store.record, hrow, DequeueInput.claimWrite,
          DequeueInput.claimStmt]
      have hle' : ∀ r ∈ input.rateLimit, (k.taken ++ [x]).length + numRecent ≤ r.1 := by
        intro r hr
        rw [hr, Option.any_some, decide_eq_true_eq, List.length_map, not_le] at hrate
        rw [List.length_append, List.length_singleton]
        omega
      have hnext := ih (k := { k with taken := k.taken ++ [x] }) (m := m') (by rwa [← hm.2])
        hwrites hnd hcand (by rw [← hsplit, List.append_assoc]; rfl) hle'
      rw [List.map_append] at hnext
      exact aloneM_mono hnext fun out c m'' h ↦ ⟨hm.trans h.1, h.2⟩

/-! ### The whole iteration -/

theorem room_eq (db : Db) (now : ℤ) :
    input.room db now = input.withinRate (input.recent db now) (input.tasks db).toNat := by
  rw [DequeueInput.room, DequeueInput.sharedRoom, List.foldl_append, DequeueInput.withinRate,
    ← DequeueInput.tasks]
  split
  · rename_i hrate
    rw [hrate]
    rfl
  · rename_i limit period hrate
    rw [hrate]
    show (min _ ((limit : ℤ) - input.recent db now)).toNat = _
    omega

/-- An iteration that was left alone with the database of `m` and left `db` behind took the first
`n` workflows in the order of `rank`. -/
structure Takes (input : DequeueInput) (m : DbMoment) (db : Db) (rank : String → ℕ) (n : ℕ)
    (k : Claims) : Prop where
  locked : k.locked <+: input.ordered m.db rank
  taken : k.taken = (input.ordered m.db rank).take n
  sublist : k.taken.Sublist k.locked
  db : db = if k.taken = [] then m.db else server.apply m.db (input.writes k)

/-- Nothing is taken, and the database stays as it is. -/
theorem Takes.nothing {rank : String → ℕ} {n : ℕ} (hnil : (input.ordered m.db rank).take n = [])
    {m' : DbMoment} (hm : m.Still m') : Takes input m m'.db rank n ⟨0, 0, [], []⟩ :=
  ⟨List.nil_prefix, hnil.symm, List.nil_sublist _, by rw [if_pos rfl]; exact hm.2.symm⟩

/-- The iteration once it has passed the rate gate. -/
def afterGate (input : DequeueInput) (numRecent : ℕ) : DbosM (List DequeuedWorkflow) := do
  let maxTasks ← maxTasks input
  if maxTasks ≤ 0 then return []
  let candidateIds ← query (.selectCandidates input.queueName input.applicationVersion
    input.partitionKey input.lockMode maxTasks.toNat)
  let now ← ask .now
  let claimed ← claimEach input numRecent now candidateIds []
  if !claimed.isEmpty then commitTx
  return claimed

theorem aloneM_afterGate (htx : Tx.Reads tx m.db) (hw : tx.writes = [])
    (hle : ∀ r ∈ input.rateLimit, numRecent ≤ r.1) :
    aloneM valid (afterGate input numRecent) (fun wfs _ m' ↦ ∃ rank k,
      Takes input m m'.db rank (input.withinRate numRecent (input.tasks m.db).toNat) k ∧
        wfs = k.taken.map dequeued) (.active tx) m := by
  rw [afterGate]
  refine aloneM_bind (aloneM_mono (aloneM_maxTasks htx hw) ?_)
  rintro n c m₁ ⟨hm₁, ⟨tx₁, rfl, hw₁, hreads₁⟩, hn⟩
  rw [← hn]
  by_cases hpos : n ≤ 0
  · rw [if_pos hpos]
    refine aloneM_pure fun m' hm' ↦ ⟨fun _ ↦ 0, _, .nothing ?_ (hm₁.trans hm'), rfl⟩
    rw [Int.toNat_of_nonpos hpos, DequeueInput.withinRate]
    split <;> simp
  rw [if_neg hpos]
  refine aloneM_query (by rwa [← hm₁.2]) fun v hv ↦ ?_
  have hcur : v.cur = m.db := by
    rw [hv.cur, hw₁, hw, server.apply_nil, hm₁.2]
  let rank : String → ℕ := fun w ↦ v.plan (.workflowStatus w)
  let locked := (input.ordered m.db rank).take n.toNat
  have hrun := @run_selectCandidates input v n.toNat hv.toCalm rank rfl
  rw [hcur] at hrun
  refine ⟨_, _, hrun, fun tx₂ m₂ hm₂ _ hreads₂ hw₂ ↦ ?_⟩
  refine aloneM_ask fun m₃ hm₃ now _ ↦ ?_
  have hm : m.Still m₃ := (hm₁.trans hm₂).trans hm₃
  have hnd : (locked.map Prod.fst).Nodup :=
    (DequeueInput.nodup_ordered rank).sublist ((List.take_sublist _ _).map Prod.fst)
  have hrow : ∀ x ∈ locked, m.db.workflow x.1 = some x.2 ∧
      x.2.candidate input.queueName input.applicationVersion input.partitionKey = true :=
    fun x hx ↦ DequeueInput.mem_eligible.1 (DequeueInput.mem_ordered.1 (List.mem_of_mem_take hx))
  have hwrites : tx₂.writes = input.writes ⟨n.toNat, now, locked, []⟩ := by
    have hkeys : ((locked.map fun x ↦ (⟨.workflowStatus x.1, some x.2⟩ :
        Σ k : Key, Option (Row k))).map Sigma.fst).Nodup := by
      rw [List.map_map]
      have hmap := hnd.map fun a b hab ↦ Key.workflowStatus.inj hab
      rwa [List.map_map] at hmap
    rw [hw₂, hw₁, hw, hcur, store.record_eq_map hkeys]
    simp only [DequeueInput.writes, List.nil_append, List.map_map, List.map_nil, List.append_nil]
    refine List.map_congr_left fun x hx ↦ ?_
    have hlook : store.look m.db (.workflowStatus x.1) = some x.2 := (hrow x hx).1
    simp [DequeueInput.lockWrite, hlook]
  have hstatus : ∀ x ∈ locked, x.2.status = .enqueued := by
    intro x hx
    have hcand := (hrow x hx).2
    simp only [WorkflowRow.candidate, Bool.and_eq_true, decide_eq_true_eq] at hcand
    exact hcand.1.2
  have hreads₃ : Tx.Reads tx₂ m₃.db := by
    rw [← hm.2, hm₁.2]
    exact hreads₂
  refine aloneM_bind (aloneM_mono (aloneM_claimEach (k := ⟨n.toNat, now, locked, []⟩) hreads₃
    hwrites hnd hstatus rfl (by simpa using hle)) ?_)
  rintro wfs c m₄ ⟨hm₄, tx₃, taken, rfl, htaken, hwrites₃, rfl⟩
  have hfirst : taken = (input.ordered m.db rank).take (input.withinRate numRecent n.toNat) := by
    rw [htaken, List.take_take, List.take_eq_take_iff, DequeueInput.withinRate,
      DequeueInput.withinRate]
    dsimp only [locked]
    rw [List.length_take]
    split <;> omega
  have hsub : taken.Sublist locked := htaken ▸ List.take_sublist _ _
  by_cases hne : taken = []
  · subst hne
    refine aloneM_pure fun m' hm' ↦ ⟨rank, _, .nothing hfirst.symm
      ((hm.trans hm₄).trans hm'), rfl⟩
  · rw [if_pos (by simpa using hne)]
    refine aloneM_commit fun m₅ hm₅ ↦ aloneM_pure fun m' hm' ↦
      ⟨rank, ⟨n.toNat, now, locked, taken⟩, ⟨List.take_prefix _ _, hfirst, hsub, ?_⟩, rfl⟩
    rw [if_neg hne, ← hm'.2, hm.2, hm₄.2, hm₅.2, ← hwrites₃]
    rfl

/-- A dequeue iteration that is left alone takes the first candidates, as many as there is room for,
and changes nothing if it takes none. -/
theorem aloneM_dequeueWorkflows (input : DequeueInput) (m : DbMoment) :
    aloneM valid (dequeueWorkflows input) (fun wfs _ m' ↦ ∃ rank now k,
      (input.rateLimit.isSome = true → ∃ m₁, m.Still m₁ ∧ valid m₁ .now now = true) ∧
        Takes input m m'.db rank (input.room m.db now) k ∧ wfs = k.taken.map dequeued) .idle m := by
  rw [dequeueWorkflows]
  refine aloneM_transaction fun m₀ hm₀ ↦ ?_
  have hopen : ∀ f : Option ℕ → DbosM (List DequeuedWorkflow), f none = pure [] →
      (∀ numRecent, f (some numRecent) = afterGate input numRecent) →
      ∀ tx : DbTx, tx.snapshot = none → tx.writes = [] → aloneM valid (rateLimitGate input >>= f)
        (fun wfs _ m' ↦ ∀ m'', m'.Still m'' → ∃ rank now k,
          (input.rateLimit.isSome = true → ∃ m₁, m.Still m₁ ∧ valid m₁ .now now = true) ∧
            Takes input m m''.db rank (input.room m.db now) k ∧ wfs = k.taken.map dequeued)
        (.active tx) m₀ := by
    intro f hnone hsome tx hsnap hw
    have hreads₀ : Tx.Reads tx m₀.db := by
      intro s hs
      rw [hsnap] at hs
      cases hs
    refine aloneM_bind (aloneM_mono (aloneM_rateLimitGate hreads₀ hw) ?_)
    rintro r c m₁ ⟨hm₁, ⟨tx₁, rfl, hw₁, hreads₁⟩, now, hclock, rfl⟩
    have hm : m.Still m₁ := hm₀.trans hm₁
    have hclock' : input.rateLimit.isSome = true → ∃ m₁, m.Still m₁ ∧ valid m₁ .now now = true :=
      fun h ↦ (hclock h).imp fun m₁ h₁ ↦ ⟨hm₀.trans h₁.1, h₁.2⟩
    rw [← hm₀.2]
    by_cases hgate : input.rateLimit.any (fun l ↦ l.1 ≤ input.recent m.db now) = true
    · -- the rate limit is reached
      rw [if_pos hgate, hnone]
      refine aloneM_pure fun m' hm' m'' hm'' ↦ ⟨fun _ ↦ 0, now, _, hclock',
        .nothing ?_ ((hm.trans hm').trans hm''), rfl⟩
      obtain ⟨l, hl, hfull⟩ := (Option.any_eq_true _ _).1 hgate
      rw [room_eq, DequeueInput.withinRate, hl]
      dsimp only
      rw [Nat.sub_eq_zero_of_le (by simpa using hfull), Nat.min_zero, List.take_zero]
    · rw [if_neg hgate, hsome]
      have hle : ∀ l ∈ input.rateLimit, input.recent m.db now ≤ l.1 := by
        intro l hl
        rw [hl, Option.any_some, decide_eq_true_eq, not_le] at hgate
        exact hgate.le
      refine aloneM_mono (aloneM_afterGate (m := m₁) (by rw [← hm₁.2]; exact hreads₁)
        (hw₁.trans hw) hle) ?_
      rintro wfs c m' ⟨rank, k, htakes, rfl⟩ m'' hm''
      refine ⟨rank, now, k, hclock', ?_, rfl⟩
      rw [room_eq]
      obtain ⟨hlocked, htaken, hsub, hdb⟩ := htakes
      rw [← hm.2] at hlocked htaken hdb
      exact ⟨hlocked, htaken, hsub, by rw [← hm''.2]; exact hdb⟩
  by_cases hsnap : input.snapshot = true
  · rw [if_pos hsnap]
    exact aloneM_isolation (hopen _ rfl (fun _ ↦ rfl) _ rfl rfl)
  · rw [if_neg hsnap]
    exact hopen _ rfl (fun _ ↦ rfl) _ rfl rfl

/-! ### Among other sessions -/

variable {i : ℕ} {S₀ S : QueueSystem} {r : Except DbosError (List DequeuedWorkflow)}

/-- Session `i` calls `dequeue_workflows` in `S₀` and has the result `r` in `S`, and no transaction
of another session has overlapped the call. -/
structure UndisturbedCall (valid : DbMoment → (q : Ask) → q.Ans → Bool) (input : DequeueInput)
    (i : ℕ) (S₀ S : QueueSystem) (r : Except DbosError (List DequeuedWorkflow)) : Prop where
  calls : S₀.sessions.lookup i = some (Session.resume (dequeueCall input) .idle)
  run : Run (System.step server valid) (System.Undisturbed server valid i) S₀ S
  returned : ∃ s, S.sessions.lookup i = some s ∧ s.prog = .pure (some (input, r))

variable (valid) in
theorem alone_dequeueCall (input : DequeueInput) (m : DbMoment) :
    alone server valid (dequeueCall input) (fun out _ m' ↦ ∃ rank now k,
      (input.rateLimit.isSome = true → ∃ m₁, m.Still m₁ ∧ valid m₁ .now now = true) ∧
        Takes input m m'.db rank (input.room m.db now) k ∧
          out = some (input, .ok (k.taken.map dequeued))) .idle m := by
  refine alone_bind (alone_mono (aloneM_dequeueWorkflows input m) ?_)
  rintro out c m' ⟨wfs, rfl, rank, now, k, hclock, htakes, rfl⟩ m'' hm
  exact ⟨rank, now, k, hclock, by rwa [← hm.2], rfl⟩

/-- The outcome of a call that nobody disturbs. -/
theorem UndisturbedCall.takes (h : UndisturbedCall valid input i S₀ S r) :
    ∃ rank now k,
      (input.rateLimit.isSome = true → ∃ m, S₀.moment.Still m ∧ valid m .now now = true) ∧
      Takes input S₀.moment S.moment.db rank (input.room S₀.moment.db now) k ∧
        r = .ok (k.taken.map dequeued) := by
  obtain ⟨s, hs, hprog⟩ := h.returned
  have hreturned := System.returned_of_alone h.calls
    (alone_dequeueCall valid input S₀.moment) h.run hs hprog
  obtain ⟨rank, now, k, hclock, htakes, hout⟩ := hreturned
  cases hout
  exact ⟨rank, now, k, hclock, htakes, rfl⟩

variable (valid) in
/-- A call that nobody disturbs returns, where the clock can be read. -/
theorem exists_undisturbedCall (hvalid : ∀ m q, ∃ a, valid m q a = true)
    (hcalls : S₀.sessions.lookup i = some (Session.resume (dequeueCall input) .idle))
    (hfree : S₀.others i = []) : ∃ S r, UndisturbedCall valid input i S₀ S r := by
  have halone := alone_dequeueCall valid input S₀.moment
  obtain ⟨S, s, out, hrun, hs, hprog⟩ :=
    System.exists_run_of_alone hvalid (fun _ ↦ 0) hfree hcalls halone
  obtain ⟨rank, now, k, -, -, rfl⟩ := System.returned_of_alone hcalls halone hrun hs hprog
  exact ⟨S, _, hcalls, hrun, s, hs, hprog⟩

end

end Dbos
