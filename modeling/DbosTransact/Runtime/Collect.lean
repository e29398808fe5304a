import DbosTransact.JsonText
import DbosTransact.Runtime.Durable

/-!
# What garbage collection spares

`garbage_collect` computes a cutoff, in a statement of its own when there is a row threshold, and
deletes every terminal workflow created before it, with the rows that belong to it. The condition
looks at each row on its own: live workflows keep their rows and their recorded operations, but a
child that has come to an end is judged by its own age, whether or not its parent is still running.

`CollectCommit` says what a deletion does to the rows it finds, `wpM_garbageCollect` that every
transaction of a collection is one, with a cutoff computed from a state the collection has read
(`CutoffRead`), and `collection_spares` what this means for the workflows of a run.
-/

namespace Dbos

open Txn

/-- The cutoff of a collection: the more recent of the given one and the time the workflow at the
row threshold was created. -/
def effectiveCutoff (cutoff rowsThreshold : Option ℤ) (db : Db) : Option ℤ :=
  match rowsThreshold with
  | none => cutoff
  | some threshold =>
    if 0 < threshold then
      match ((db.workflowStatus.rows.map fun e ↦ e.2.createdAt).insertionSort
          fun a b ↦ b ≤ a)[(threshold - 1).toNat]? with
      | some rowsCutoff => some (cutoff.elim rowsCutoff fun c ↦ max c rowsCutoff)
      | none => cutoff
    else cutoff

theorem effectiveCutoff_of_pos (cutoff : Option ℤ) {threshold : ℤ} (h : 0 < threshold) (db : Db) :
    effectiveCutoff cutoff (some threshold) db =
      match ((db.workflowStatus.rows.map fun e ↦ e.2.createdAt).insertionSort
          fun a b ↦ b ≤ a)[(threshold - 1).toNat]? with
      | some rowsCutoff => some (cutoff.elim rowsCutoff fun c ↦ max c rowsCutoff)
      | none => cutoff :=
  if_pos h

/-- A deletion writes only rows that belong to workflows it may collect. -/
def CollectCommit (cut : ℤ) (e : DbEffect) : Prop :=
  ∀ w ∈ e.writes, ∀ r, store.look e.moment.db w.key = some r →
    ∃ row, e.moment.db.workflow (workflowOf w.key r) = some row ∧ row.collectable cut = true

/-- The cutoff was computed from a state the session has read, or from none. -/
def CutoffSeen (cutoff rowsThreshold : Option ℤ) (τ : DbTrace) (cut : ℤ) : Prop :=
  (∀ db, effectiveCutoff cutoff rowsThreshold db = some cut) ∨
    ∃ e ∈ τ.effects, ∃ b ∈ e.snapshot, effectiveCutoff cutoff rowsThreshold b.db = some cut

/-- What a collection keeps to. -/
def collectSpec (valid : DbMoment → (q : Ask) → q.Ans → Bool) (cutoff rowsThreshold : Option ℤ) :
    DbSpec where
  rely := Moment.Before
  rely_refl := Moment.Before.refl
  rely_trans := Moment.Before.trans
  valid := valid
  guar τ e := e.writes = [] ∨ ∃ cut, CutoffSeen cutoff rowsThreshold τ cut ∧ CollectCommit cut e

section

variable {valid : DbMoment → (q : Ask) → q.Ans → Bool} {cutoff rowsThreshold : Option ℤ}
variable {m : DbMoment} {τ : DbTrace}

theorem ignoresReads_collectSpec : IgnoresReads (collectSpec valid cutoff rowsThreshold) where
  rely m := Moment.before_advance server m (some (none, []))
  guar _ _ _ := Or.inl rfl

/-- The deletion of a collection. -/
theorem wpM_collectWorkflows {cut : ℤ} (hcut : CutoffSeen cutoff rowsThreshold τ cut) :
    wpM (collectSpec valid cutoff rowsThreshold) (query (.collectWorkflows cut))
      (fun _ _ _ _ ↦ True) (fun _ _ _ _ ↦ True) .idle m τ := by
  rw [← bind_pure (query _)]
  refine wpM_query_idle (fun _ _ _ _ _ _ _ _ ↦ trivial) fun b m₁ v a ch _ _ hv hrun ↦
    ⟨Or.inr ⟨cut, hcut, ?_⟩, wpM_pure fun _ _ ↦ trivial, fun _ _ _ _ ↦ trivial⟩
  intro w hw r hr
  obtain rfl := Stmt.runDelete_done hrun
  obtain ⟨-, -, hmem, -⟩ := Stmt.record_deletions hw
  rw [hv.cur] at hmem
  have hid := Stmt.mem_deletedIds (Stmt.mem_cascade hmem hr)
  rw [hv.cur] at hid
  exact (Option.any_eq_true _ _).1 hid

/-- The cutoff of a collection is computed from a state it has read. -/
theorem wpM_collectionCutoff :
    wpM (collectSpec valid cutoff rowsThreshold) (collectionCutoff cutoff rowsThreshold)
      (fun r c _ τ ↦ c = .idle ∧ ∀ cut ∈ r, CutoffSeen cutoff rowsThreshold τ cut)
      (fun _ _ _ _ ↦ True) .idle m τ := by
  cases rowsThreshold with
  | none =>
    rw [collectionCutoff]
    exact wpM_pure fun _ _ ↦ ⟨rfl, fun cut hcut ↦ Or.inl fun _ ↦ hcut⟩
  | some threshold =>
    rw [collectionCutoff]
    split
    · rename_i hpos
      refine wpM_bind (wpM_mono (wpM_read_sent ignoresReads_collectSpec
        (g := fun db ↦ ((db.workflowStatus.rows.map fun e ↦ e.2.createdAt).insertionSort
          fun a b ↦ b ≤ a)[(threshold - 1).toNat]?) fun _ ↦ rfl) ?_ fun _ _ _ _ _ ↦ trivial)
      rintro r c m₁ τ₁ ⟨rfl, b, m₂, -, -, -, -, rfl, rfl⟩
      have hread := effectiveCutoff_of_pos cutoff hpos b.db
      split
      · rename_i rowsCutoff hrows
        rw [hrows] at hread
        exact wpM_pure fun _ _ ↦ ⟨rfl, fun cut hcut ↦ Or.inr
          ⟨⟨m₂, some b, []⟩, by simp, b, rfl, hread.trans hcut⟩⟩
      · rename_i hrows
        rw [hrows] at hread
        exact wpM_pure fun _ _ ↦ ⟨rfl, fun cut hcut ↦ Or.inr
          ⟨⟨m₂, some b, []⟩, by simp, b, rfl, hread.trans hcut⟩⟩
    · rename_i hpos
      exact wpM_pure fun _ _ ↦ ⟨rfl, fun cut hcut ↦ Or.inl fun _ ↦ (if_neg hpos).trans hcut⟩

/-- Every transaction of a collection is one. -/
theorem wpM_garbageCollect :
    wpM (collectSpec valid cutoff rowsThreshold) (garbageCollect cutoff rowsThreshold)
      (fun _ _ _ _ ↦ True) (fun _ _ _ _ ↦ True) .idle m τ := by
  refine wpM_bind (wpM_mono wpM_collectionCutoff ?_ fun _ _ _ _ _ ↦ trivial)
  rintro (_ | cut) c m₁ τ₁ ⟨rfl, hseen⟩
  · exact wpM_pure fun _ _ ↦ trivial
  · exact wpM_collectWorkflows (hseen cut rfl)

/-- A row of a workflow that may not be collected is kept. -/
theorem CollectCommit.kept {cut : ℤ} {e : DbEffect} (h : CollectCommit cut e) {k : Key} {r : Row k}
    (hr : store.look e.moment.db k = some r) {row : WorkflowRow}
    (hrow : e.moment.db.workflow (workflowOf k r) = some row)
    (hkept : row.collectable cut = false) :
    store.look (server.apply e.moment.db e.writes) k = some r := by
  rw [← hr]
  refine server.look_apply_of_forall_ne fun w hw hk ↦ ?_
  subst hk
  obtain ⟨row', hrow', hcollectable⟩ := h w hw r hr
  rw [hrow] at hrow'
  cases hrow'
  rw [hkept] at hcollectable
  cases hcollectable

/-- A live workflow may not be collected. -/
theorem WorkflowRow.not_collectable_of_live {r : WorkflowRow} (h : r.status.isTerminal = false)
    (cut : ℤ) : r.collectable cut = false := by
  have hlive : (r.status = .pending || r.status.isQueued) = true := by
    cases hs : r.status <;> rw [hs] at h <;> first | rfl | cases h
  rw [WorkflowRow.collectable, hlive, Bool.not_true, Bool.and_false]

theorem WorkflowRow.not_collectable_of_le {r : WorkflowRow} {cut : ℤ} (h : cut ≤ r.createdAt) :
    r.collectable cut = false := by
  simp [WorkflowRow.collectable, h]

section

variable [SerdeJson] {V : Type} {executor : ℕ → DbosInner} {ops : ℕ → Operation V} {db₀ : Db}
variable {time : ℤ} {S : RuntimeSystem V} {i : ℕ}

theorem wp_collect_program (inner : DbosInner) :
    wp server (collectSpec valid cutoff rowsThreshold)
      ((Operation.call (.collectGarbage cutoff rowsThreshold) : Operation V).program inner)
      (fun _ _ _ _ ↦ True) .idle m τ := by
  refine wp_program (wpM_map (wpM_map (wpM_mono wpM_garbageCollect ?_ ?_)))
  · exact fun _ _ _ _ _ ↦ trivial
  · exact fun _ _ _ _ _ ↦ trivial

/-- The cutoff of session `i` at its commit `n`: it depends on no state, or it was computed from the
state that an earlier statement of the session has read. -/
def CutoffRead (db₀ : Db) (S : RuntimeSystem V) (i n : ℕ) (cutoff rowsThreshold : Option ℤ)
    (cut : ℤ) : Prop :=
  (∀ db, effectiveCutoff cutoff rowsThreshold db = some cut) ∨
    ∃ j d b, j < n ∧ S.history[j]? = some d ∧ d.session = i ∧ d.snapshot = some b ∧
      b.db = System.stateAt server db₀ S.history b.xid ∧
      effectiveCutoff cutoff rowsThreshold b.db = some cut

/-- Every transaction of session `i` of a run is one of a collection. -/
theorem collects_of_run (hop : ops i = .call (.collectGarbage cutoff rowsThreshold))
    (h : Run (System.step server valid) (fun _ l ↦ Carries executor ops l) (System.init db₀ time) S)
    {n : ℕ} {c : Commit Db Key Row Stmt} (hc : S.history[n]? = some c) (hi : c.session = i) :
    c.writes = [] ∨ ∃ cut, CutoffRead db₀ S i n cutoff rowsThreshold cut ∧
      CollectCommit cut c.toEffect := by
  obtain ⟨hC, Γ, Q, hΓ, -, -, hlog⟩ := System.sound_session (i := i)
    (collectSpec valid cutoff rowsThreshold) (fun _ _ _ _ ↦ True) (fun _ _ ↦ id) rfl
    trivial (fun S p hok m ↦ by
      rw [hok i p rfl, hop]
      exact wp_collect_program (executor i)) h
  obtain ⟨τ, hτ, -, hguar⟩ := hlog.guar hc
  rw [hi, hΓ] at hguar
  refine hguar.imp id ?_
  rintro ⟨cut, hseen, hcommit⟩
  refine ⟨cut, hseen.imp id ?_, hcommit⟩
  rintro ⟨e, he, b, hb, hread⟩
  -- the state was read before an earlier commit of the session
  rw [hτ] at he
  obtain ⟨d, hd, rfl⟩ := List.mem_map.1 he
  obtain ⟨hd, hsession⟩ := List.mem_filter.1 hd
  obtain ⟨j, hj⟩ := List.mem_iff_getElem?.1 hd
  rw [List.getElem?_take] at hj
  obtain ⟨hjn, hj⟩ := Option.ite_none_right_eq_some.1 hj
  obtain ⟨-, -, -, -, hsnap⟩ := hC.commit hj
  exact ⟨j, d, b, hjn, hj, (of_decide_eq_true hsession).trans hi, hb, (hsnap b hb).2.db, hread⟩

/-- **Garbage collection.** A transaction of a collection keeps every row of a live workflow; and a
child that is recorded for it is kept too when it is live, or not older than the cutoff, which was
computed from a state the collection had read. -/
theorem collection_spares (hop : ops i = .call (.collectGarbage cutoff rowsThreshold))
    (h : Run (System.step server valid) (fun _ l ↦ Carries executor ops l) (System.init db₀ time) S)
    {n : ℕ} {c : Commit Db Key Row Stmt} (hc : S.history[n]? = some c) (hi : c.session = i) :
    ∃ cut : Option ℤ, (∀ t ∈ cut, CutoffRead db₀ S i n cutoff rowsThreshold t) ∧
      ∀ p r, (System.stateAt server db₀ S.history n).workflow p = some r →
        r.status.isTerminal = false →
        (∀ k row, store.look (System.stateAt server db₀ S.history n) k = some row →
          workflowOf k row = p →
          store.look (System.stateAt server db₀ S.history (n + 1)) k = some row) ∧
        ∀ k row child rc, (System.stateAt server db₀ S.history n).operation p k = some row →
          row.childWorkflowId = some child →
          (System.stateAt server db₀ S.history n).workflow child = some rc →
          (rc.status.isTerminal = false ∨ ∀ t ∈ cut, t ≤ rc.createdAt) →
          (System.stateAt server db₀ S.history (n + 1)).workflow child = some rc := by
  obtain ⟨hC, -⟩ := writes_of_run (h.mono fun S l hok j p hl ↦ ⟨ops j, hok j p hl⟩)
  have hnow : System.stateAt server db₀ S.history n = c.moment.db := (hC.before hc).symm
  have hnext : System.stateAt server db₀ S.history (n + 1) = server.apply c.moment.db c.writes := by
    rw [System.stateAt_succ db₀ hc, hnow]
  rw [hnow, hnext]
  rcases collects_of_run hop h hc hi with hnil | ⟨cut, hcut, hcommit⟩
  · rw [hnil]
    refine ⟨none, ?_, fun p r hr hlive ↦ ⟨fun k row hrow _ ↦ hrow, fun _ _ _ _ _ _ hrc _ ↦ hrc⟩⟩
    rintro t ⟨⟩
  · refine ⟨some cut, ?_, fun p r hr hlive ↦
      ⟨fun k row hrow hp ↦ ?_, fun k row child rc _ _ hrc hkept ↦ ?_⟩⟩
    · rintro t ⟨⟩
      exact hcut
    · subst hp
      exact hcommit.kept hrow hr (WorkflowRow.not_collectable_of_live hlive cut)
    · refine hcommit.kept (k := .workflowStatus child) hrc hrc ?_
      rcases hkept with hlive' | hyoung
      · exact WorkflowRow.not_collectable_of_live hlive' cut
      · exact WorkflowRow.not_collectable_of_le (hyoung cut rfl)

end

end

/-! ### A child that is collected under a live parent -/

section

local instance collectJson : SerdeJson := JsonText.jsonText

/-- A parent, its child, the end of the child, and a collection. -/
def parentAndChild : ℕ → Operation ℤ
  | 0 => .call (.runWorkflow "f" none { workflowId := some "p" } none)
  | 1 => .durable ⟨"p", {}⟩ false 0 (.runWorkflow "f" inferInstance 5 {})
  | 2 => .call (.complete "p-0" .portable (.ok "1"))
  | _ => .call (.collectGarbage (some 100) none)

/-- The child has come to an end when the collection runs, the parent has not. -/
def childCollected : List (RuntimeLabel ℤ) :=
  let start (i : ℕ) : List (RuntimeLabel ℤ) := [.spawn i ((parentAndChild i).program (anyName "a"))]
  start 0 ++ answerOne 0 1 ++ answerOne 0 1 ++ commandOne 0 ++ sendOne 0 ++ commandOne 0 ++
    commandOne 0 ++ answerOne 0 1 ++
    start 1 ++ sendOne 1 ++ answerOne 1 2 ++ answerOne 1 2 ++ commandOne 1 ++ sendOne 1 ++
    answerOne 1 2 ++ sendOne 1 ++ commandOne 1 ++ commandOne 1 ++ answerOne 1 2 ++
    start 2 ++ answerOne 2 7 ++ sendOne 2 ++ start 3 ++ sendOne 3

theorem carries_childCollected :
    ∀ l ∈ childCollected, Carries (fun _ ↦ anyName "a") parentAndChild l := by
  have hspawned : ∀ e ∈ childCollected.filterMap spawnedOperation,
      e.2 = (parentAndChild e.1).program (anyName "a") :=
    List.forall_mem_cons.2 ⟨rfl, List.forall_mem_cons.2 ⟨rfl, List.forall_mem_cons.2 ⟨rfl,
      List.forall_mem_singleton.2 rfl⟩⟩⟩
  rintro l hl i p rfl
  exact hspawned (i, p) (List.mem_filterMap.2 ⟨_, hl, rfl⟩)

/-- What `childCollected` is a run of. -/
def childGone (S : RuntimeSystem ℤ) : Bool :=
  S.history[4]?.any (fun c ↦ c.session = 3) &&
    ((System.stateAt server {} S.history 4).workflow "p").any (fun r ↦ r.status = .pending) &&
    ((System.stateAt server {} S.history 4).operation "p" 0).any
      (fun row ↦ row.childWorkflowId = some "p-0") &&
    ((System.stateAt server {} S.history 4).workflow "p-0").isSome &&
    ((System.stateAt server {} S.history 5).workflow "p-0").isNone

theorem exec_childCollected :
    (exec (System.step server fun _ _ _ ↦ true) (System.init {} 0) childCollected).any childGone =
      true := by
  decide +kernel

/-- A collection deletes the child of a workflow that is still running. -/
theorem child_collected : ∃ (S : RuntimeSystem ℤ) (c : Commit Db Key Row Stmt) (r : WorkflowRow)
      (row : OperationRow),
    Run (System.step server fun _ _ _ ↦ true)
      (fun _ l ↦ Carries (fun _ ↦ anyName "a") parentAndChild l) (System.init {} 0) S ∧
    parentAndChild 3 = .call (.collectGarbage (some 100) none) ∧
    S.history[4]? = some c ∧ c.session = 3 ∧
    (System.stateAt server {} S.history 4).workflow "p" = some r ∧ r.status = .pending ∧
    (System.stateAt server {} S.history 4).operation "p" 0 = some row ∧
    row.childWorkflowId = some "p-0" ∧
    ((System.stateAt server {} S.history 4).workflow "p-0").isSome = true ∧
    (System.stateAt server {} S.history 5).workflow "p-0" = none := by
  obtain ⟨S, hS, hgone⟩ := (Option.any_eq_true _ _).1 exec_childCollected
  simp only [childGone, Bool.and_eq_true] at hgone
  obtain ⟨⟨⟨⟨hcommit, hparent⟩, hrecord⟩, hchild⟩, hnone⟩ := hgone
  obtain ⟨c, hc, hi⟩ := (Option.any_eq_true _ _).1 hcommit
  obtain ⟨r, hr, hpending⟩ := (Option.any_eq_true _ _).1 hparent
  obtain ⟨row, hrow, hnamed⟩ := (Option.any_eq_true _ _).1 hrecord
  exact ⟨S, c, r, row, Run.of_exec hS fun _ ↦ carries_childCollected, rfl, hc, of_decide_eq_true hi,
    hr, of_decide_eq_true hpending, hrow, of_decide_eq_true hnamed, hchild,
    Option.isNone_iff_eq_none.1 hnone⟩

theorem collection_spares_childCollected : ∃ (S : RuntimeSystem ℤ) (r : WorkflowRow),
    exec (System.step server fun _ _ _ ↦ true) (System.init {} 0) childCollected = some S ∧
    (System.stateAt server {} S.history 4).workflow "p" = some r ∧
    (System.stateAt server {} S.history 5).workflow "p" = some r := by
  obtain ⟨S, hS, hgone⟩ := (Option.any_eq_true _ _).1 exec_childCollected
  simp only [childGone, Bool.and_eq_true] at hgone
  obtain ⟨⟨⟨⟨hcommit, hparent⟩, -⟩, -⟩, -⟩ := hgone
  obtain ⟨c, hc, hi⟩ := (Option.any_eq_true _ _).1 hcommit
  obtain ⟨r, hr, hpending⟩ := (Option.any_eq_true _ _).1 hparent
  have hlive : r.status.isTerminal = false := by
    rw [of_decide_eq_true hpending]
    rfl
  obtain ⟨_, -, hspared⟩ := collection_spares (i := 3) (by rfl)
    (Run.of_exec hS fun _ ↦ carries_childCollected) hc (of_decide_eq_true hi)
  exact ⟨S, r, hS, hr, (hspared "p" r hr hlive).1 (.workflowStatus "p") r hr rfl⟩

end

end Dbos
