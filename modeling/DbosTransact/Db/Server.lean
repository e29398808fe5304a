import DbosTransact.Db.Statements

/-!
# What the statements write

`Stmt.Writes s k old new` lists, statement by statement, every way statement `s` can change the row
under key `k`. `run_writes` says that the list is complete: it is the only lemma about the
evaluation of the individual statements that the rest of the development needs to know which rows
can change how. `server` is the database server with that list as its law of writes.
-/

namespace Dbos

open Txn

/-- Every change of a row a statement can make. -/
inductive Stmt.Writes : Stmt → (k : Key) → Option (Row k) → Option (Row k) → Prop
  | insertNew (input : InsertWorkflowInput) :
      Writes (.insertWorkflowStatus input) (.workflowStatus input.workflowId) none
        (some input.row)
  | insertConflict (input : InsertWorkflowInput) (r : WorkflowRow) :
      Writes (.insertWorkflowStatus input) (.workflowStatus input.workflowId) (some r)
        (some (input.onConflict r))
  | deadLetter (w : String) (r : WorkflowRow) : r.status = .pending →
      Writes (.deadLetter w) (.workflowStatus w) (some r) (some r.deadLetter)
  | outcome (w : String) (status : WorkflowStatusType) (output error : Option String) (now : ℤ)
      (r : WorkflowRow) : r.acceptsOutcome status = true →
      Writes (.updateWorkflowOutcome w status output error now) (.workflowStatus w) (some r)
        (some (r.recordOutcome status output error now))
  | operation (w : String) (n : ℕ) (row : OperationRow) :
      Writes (.insertOperation w n row) (.operationOutputs w n) none (some row)
  | notification (m : String) (row : NotificationRow) :
      Writes (.insertNotification m row) (.notifications m) none (some row)
  | consume (d t m : String) (r : NotificationRow) :
      Writes (.consumeOldestNotification d t) (.notifications m) (some r)
        (some { r with consumed := true })
  | event (w key : String) (row : EventRow) (old : Option EventRow) :
      Writes (.upsertWorkflowEvent w key row) (.workflowEvents w key) old (some row)
  | eventHistory (w : String) (n : ℕ) (key : String) (row : EventRow) (old : Option EventRow) :
      Writes (.insertWorkflowEventHistory w n key row) (.workflowEventsHistory w n key) old
        (some row)
  | stream (w key : String) (i : ℕ) (row : StreamRow) :
      Writes (.insertStream w key row) (.streams w key i) none (some row)
  | promote (now : ℤ) (w : String) (r : WorkflowRow) : r.due now = true →
      Writes (.transitionDelayedWorkflows now) (.workflowStatus w) (some r) (some r.promote)
  | clear (w : String) (r : WorkflowRow) : r.assigned = true →
      Writes (.clearQueueAssignment w) (.workflowStatus w) (some r) (some r.clearAssignment)
  | lock (q version : String) (p : Option String) (mode : LockMode) (limit : ℕ) (w : String)
      (r : WorkflowRow) : r.candidate q version p = true →
      Writes (.selectCandidates q version p mode limit) (.workflowStatus w) (some r) (some r)
  | claim (w version executorId : String) (now : ℤ) (limited : Bool) (r : WorkflowRow) :
      r.status = .enqueued →
      Writes (.claimWorkflow w version executorId now limited) (.workflowStatus w) (some r)
        (some (r.claim version executorId now limited))
  | cancel (ids : List String) (now : ℤ) (w : String) (r : WorkflowRow) : w ∈ ids →
      r.cancellable = true →
      Writes (.cancelWorkflows ids now) (.workflowStatus w) (some r) (some (r.cancel now))
  | resume (ids : List String) (q : String) (now : ℤ) (w : String) (r : WorkflowRow) : w ∈ ids →
      r.resumable = true →
      Writes (.resumeWorkflows ids q now) (.workflowStatus w) (some r) (some (r.resume q now))
  | delete (ids : List String) (k : Key) (old : Option (Row k)) :
      (∀ r ∈ old, workflowOf k r ∈ ids) → Writes (.deleteWorkflows ids) k old none
  | fork (w : String) (fork : ForkedWorkflow) :
      Writes (.insertForked w fork) (.workflowStatus w) none (some fork.row)
  | markForked (w : String) (r : WorkflowRow) :
      Writes (.markForkedFrom w) (.workflowStatus w) (some r) (some r.markForked)
  | copyOperation (w original : String) (start : ℤ) (n : ℕ) (row : OperationRow) : n < start →
      Writes (.copyOperations w original start) (.operationOutputs w n) none (some row)
  | copyEventHistory (w original : String) (start : ℤ) (n : ℕ) (key : String) (row : EventRow) :
      n < start → Writes (.copyEventsHistory w original start) (.workflowEventsHistory w n key) none
        (some row)
  | copyEvent (w original : String) (start : ℤ) (key : String) (row : EventRow) :
      Writes (.copyEvents w original start) (.workflowEvents w key) none (some row)
  | copyStream (w original : String) (start : ℤ) (key : String) (i : ℕ) (row : StreamRow) :
      row.functionId < start →
      Writes (.copyStreams w original start) (.streams w key i) none (some row)
  | collect (cutoff : ℤ) (w : String) (old : Option WorkflowRow) :
      (∀ r ∈ old, r.collectable cutoff = true) →
      Writes (.collectWorkflows cutoff) (.workflowStatus w) old none
  | collectCascade (cutoff : ℤ) (k : Key) (old : Option (Row k)) :
      (∀ w, k ≠ .workflowStatus w) → Writes (.collectWorkflows cutoff) k old none

/-- The law of writes: a write is one its statement can make. -/
def LegalWrite (w : Write Key Row Stmt) : Prop := w.stmt.Writes w.key w.old w.new

namespace Stmt

variable {v : DbView Stmt}

theorem nodup_keysWhere (db : Db) (p : String → WorkflowRow → Bool) : (keysWhere db p).Nodup := by
  have h := Table.nodup_select_keys p db.workflowStatus
  have hkeys : keysWhere db p =
      ((db.workflowStatus.select p).map Prod.fst).map Key.workflowStatus := by
    rw [keysWhere, List.map_map]
    rfl
  rw [hkeys]
  exact h.map fun a b hab ↦ Key.workflowStatus.inj hab

/-- An update of several workflows changes rows of `workflow_status` that satisfy its condition. -/
theorem updateWorkflows_done {p : String → WorkflowRow → Bool} {f : WorkflowRow → WorkflowRow}
    {ks : List Key} {ch : Changes} (h : updateWorkflows v p f = .done ks ch) :
    (ch.map Sigma.fst).Nodup ∧ ∀ c ∈ ch, ∃ w r, c = ⟨.workflowStatus w, some (f r)⟩ ∧
      v.cur.workflow w = some r ∧ p w r = true := by
  obtain ⟨hsub, -, hall⟩ := View.updateAll_done h
  refine ⟨(nodup_keysWhere _ _).sublist hsub, fun c hc ↦ ?_⟩
  obtain ⟨old, hold, hp, hnew⟩ := hall c hc
  obtain ⟨k, new⟩ := c
  cases k with
  | workflowStatus w => exact ⟨w, old, by rw [← hnew], hold, hp⟩
  | _ => cases hp

theorem nodup_candidates (q version : String) (p : Option String) :
    (candidates v q version p).Nodup := by
  rw [candidates]
  refine ((List.perm_insertionSort _ _).map Prod.fst).nodup_iff.2 ?_
  exact Table.nodup_select_keys _ v.base.workflowStatus

/-- The locked candidates: distinct workflows whose rows are still candidates, and under repeatable
read are as the snapshot shows them. -/
theorem selectCandidates_done {q version : String} {p : Option String} {mode : LockMode} {n : ℕ}
    {ids : List String} {ch : Changes}
    (h : run v (.selectCandidates q version p mode n) = .done ids ch) :
    ids.Nodup ∧ ids.length ≤ n ∧
      ch = ids.map (fun w ↦ ⟨.workflowStatus w, v.cur.workflow w⟩) ∧
      ∀ w ∈ ids, ∃ r, v.cur.workflow w = some r ∧ r.candidate q version p = true ∧
        (v.iso = .repeatableRead → v.base.workflow w = some r) := by
  obtain ⟨ks, hks, rfl⟩ := Outcome.map_eq_done.1 h
  obtain ⟨hsub, hlen, hch, hall⟩ := View.lockRows_done hks
  obtain ⟨ids', hids, rfl⟩ := List.sublist_map_iff.1 hsub
  have hround : workflowIds (ids'.map Key.workflowStatus) = ids' := by
    rw [workflowIds, List.filterMap_map]
    exact List.filterMap_some
  rw [hround]
  refine ⟨(nodup_candidates q version p).sublist hids, by simpa using hlen, ?_, fun w hw ↦ ?_⟩
  · rw [hch, List.map_map]
    rfl
  · obtain ⟨hp, hsame⟩ := hall (.workflowStatus w) (List.mem_map_of_mem hw)
    obtain ⟨r, hr, hcand⟩ := (Option.any_eq_true _ _).1 hp
    exact ⟨r, hr, hcand, fun hiso ↦ (hsame hiso).symm.trans hr⟩

/-- The record of a single change. -/
theorem mem_record_singleton {s : Stmt} {db : Db} {k : Key} {new : Option (Row k)}
    {w : Write Key Row Stmt} (hw : w ∈ store.record s db [⟨k, new⟩]) :
    w = ⟨k, store.look db k, new, s⟩ := by
  simpa [Store.record] using hw

/-- The record of deletions: each write deletes the row that was there, unless it is gone already.
-/
theorem record_deletions {s : Stmt} {db : Db} {ks : List Key} {w : Write Key Row Stmt}
    (hw : w ∈ store.record s db (ks.map fun k ↦ ⟨k, none⟩)) :
    w.stmt = s ∧ w.new = none ∧ w.key ∈ ks ∧ ∀ r ∈ w.old, store.look db w.key = some r := by
  induction ks generalizing db with
  | nil => cases hw
  | cons k ks ih =>
    rcases List.mem_cons.1 hw with rfl | hw
    · exact ⟨rfl, rfl, List.mem_cons_self, fun r hr ↦ hr⟩
    · obtain ⟨hstmt, hnew, hmem, hold⟩ := ih hw
      refine ⟨hstmt, hnew, List.mem_cons_of_mem _ hmem, fun r hr ↦ ?_⟩
      have hlook := hold r hr
      by_cases hk : w.key = k
      · subst hk
        rw [store.look_put_self] at hlook
        cases hlook
      · rwa [store.look_put_of_ne _ _ _ _ hk] at hlook

/-- A deletion deletes rows that belong to the workflows it names. -/
theorem mem_cascade {db : Db} {ids : List String} {k : Key} (hk : k ∈ cascade db ids) {r : Row k}
    (hr : db.look k = some r) : workflowOf k r ∈ ids := by
  simp only [cascade, List.mem_append, List.mem_map] at hk
  rcases hk with ((((⟨e, he, rfl⟩ | ⟨e, he, rfl⟩) | ⟨e, he, rfl⟩) | ⟨e, he, rfl⟩) | ⟨e, he, rfl⟩) |
    ⟨e, he, rfl⟩
  case inl.inl.inl.inr =>
    obtain ⟨hrow, hid⟩ := Table.mem_select_iff.1 he
    have hsame : db.notifications.lookup e.1 = some r := hr
    rw [hrow] at hsame
    cases hsame
    exact List.contains_iff_mem.1 hid
  all_goals exact List.contains_iff_mem.1 (Table.mem_select_iff.1 he).2

theorem mem_deletedIds {p : String → WorkflowRow → Bool} {w : String} (hw : w ∈ deletedIds v p) :
    (v.cur.workflow w).any (p w) = true :=
  (List.mem_filter.1 hw).2

/-- Everything a deletion can do. -/
theorem runDelete_done {p : String → WorkflowRow → Bool} {u : Unit} {ch : Changes}
    (h : runDelete v p = .done u ch) :
    ch = (cascade v.cur (deletedIds v p)).map fun k ↦ ⟨k, none⟩ := by
  rw [runDelete] at h
  split at h <;> cases h
  rfl

/-- The rows copied from a table have different keys when the rows they are copies of do. -/
theorem nodup_copied {κ ρ : Type} [DecidableEq κ] {t : Table κ ρ} {p : κ → ρ → Bool}
    {l : List (κ × ρ)} (hl : l.Sublist (t.select p)) {f : κ → Key} {g : (e : κ × ρ) → Row (f e.1)}
    (hf : ∀ a ∈ l, ∀ b ∈ l, f a.1 = f b.1 → a.1 = b.1) :
    ((l.map fun e ↦ (⟨f e.1, g e⟩ : Σ k : Key, Row k)).map Sigma.fst).Nodup := by
  rw [List.map_map]
  have hnd : l.Nodup := (List.Nodup.of_map Prod.fst (Table.nodup_select_keys p t)).sublist hl
  refine hnd.map_on fun a ha b hb heq ↦ ?_
  have hkey : a.1 = b.1 := hf a ha b hb heq
  have hrow := (Table.mem_select_iff.1 (hl.subset ha)).1
  rw [hkey, (Table.mem_select_iff.1 (hl.subset hb)).1] at hrow
  exact Prod.ext hkey (Option.some.inj hrow).symm

theorem mem_operationsBelow {db : Db} {w : String} {n : ℤ} {e : (String × ℕ) × OperationRow} :
    e ∈ operationsBelow db w n ↔
      db.operationOutputs.lookup e.1 = some e.2 ∧ e.1.1 = w ∧ (e.1.2 : ℤ) < n := by
  obtain ⟨k, r⟩ := e
  simp [operationsBelow, Table.mem_select_iff]

theorem mem_eventsBelow {db : Db} {w : String} {n : ℤ} {e : (String × ℕ × String) × EventRow} :
    e ∈ eventsBelow db w n ↔
      db.workflowEventsHistory.lookup e.1 = some e.2 ∧ e.1.1 = w ∧ (e.1.2.1 : ℤ) < n := by
  obtain ⟨k, r⟩ := e
  simp [eventsBelow, Table.mem_select_iff]

theorem mem_latestEventsBelow {db : Db} {w : String} {n : ℤ}
    {e : (String × ℕ × String) × EventRow} :
    e ∈ latestEventsBelow db w n ↔ e ∈ eventsBelow db w n ∧
      ∀ e' ∈ eventsBelow db w n, e'.1.2.2 = e.1.2.2 → e'.1.2.1 ≤ e.1.2.1 := by
  simp only [latestEventsBelow, List.mem_filter, List.all_eq_true, Bool.or_eq_true,
    decide_eq_true_eq, ne_eq]
  exact and_congr_right fun _ ↦ forall₂_congr fun e' _ ↦ by rw [← imp_iff_not_or]

theorem mem_streamsBelow {db : Db} {w : String} {n : ℤ} {e : (String × String × ℕ) × StreamRow} :
    e ∈ streamsBelow db w n ↔
      db.streams.lookup e.1 = some e.2 ∧ e.1.1 = w ∧ (e.2.functionId : ℤ) < n := by
  obtain ⟨k, r⟩ := e
  simp [streamsBelow, Table.mem_select_iff]

/-- Everything a copy can do. -/
theorem runCopy_done {w : String} {rows : List (Σ k : Key, Row k)} {u : Unit} {ch : Changes}
    (h : runCopy v w rows = .done u ch) {s : Stmt} {e : Write Key Row Stmt}
    (he : e ∈ store.record s v.cur ch) (hnd : (rows.map Sigma.fst).Nodup) :
    ∃ r ∈ rows, e = ⟨r.1, none, some r.2, s⟩ := by
  obtain ⟨rfl, hall⟩ := View.insertAll_done h
  have hkeys : ((rows.map fun r ↦ (⟨r.1, some r.2⟩ : Σ k : Key, Option (Row k))).map
      Sigma.fst).Nodup := by
    rw [List.map_map]
    exact hnd
  obtain ⟨c, hc, rfl⟩ := (store.mem_record hkeys).1 he
  obtain ⟨r, hr, rfl⟩ := List.mem_map.1 hc
  exact ⟨r, hr, by rw [(hall r hr).1]⟩

/-- Every statement writes only what `Writes` lists. -/
theorem run_writes (v : DbView Stmt) (s : Stmt) (a : s.Res) (ch : Changes)
    (h : run v s = .done a ch) : ∀ w ∈ store.record s v.cur ch, LegalWrite w := by
  have update_legal : ∀ {k : Key} {p : Row k → Bool} {f : Row k → Row k} {r : Option (Row k)}
      {ch : Changes}, v.update store faults k p f = .done r ch →
      (∀ old, p old = true → s.Writes k (some old) (some (f old))) →
      ∀ w ∈ store.record s v.cur ch, LegalWrite w := by
    intro k p f r ch hd hall w hw
    rcases View.update_done hd with ⟨-, rfl⟩ | ⟨old, hold, hp, -, rfl⟩
    · cases hw
    · cases mem_record_singleton hw
      rw [LegalWrite, hold]
      exact hall old hp
  have all_legal : ∀ {p : String → WorkflowRow → Bool} {f : WorkflowRow → WorkflowRow}
      {ks : List Key} {ch : Changes}, updateWorkflows v p f = .done ks ch →
      (∀ w r, p w r = true → s.Writes (.workflowStatus w) (some r) (some (f r))) →
      ∀ w ∈ store.record s v.cur ch, LegalWrite w := by
    intro p f ks ch hd hall w hw
    obtain ⟨hnd, hch⟩ := updateWorkflows_done hd
    obtain ⟨c, hc, rfl⟩ := (store.mem_record hnd).1 hw
    obtain ⟨w, r, rfl, hr, hp⟩ := hch c hc
    have hlook : store.look v.cur (.workflowStatus w) = some r := hr
    rw [LegalWrite, hlook]
    exact hall w r hp
  cases s with
  | insertWorkflowStatus input =>
    simp only [run, runInsertWorkflowStatus] at h
    split at h
    · cases h
    · split at h
      · cases h
      · split at h
        · cases h
        · obtain ⟨new, hnew, -⟩ := Outcome.map_eq_done.1 h
          obtain ⟨rfl, hcase⟩ := View.upsert_done hnew
          intro w hw
          cases mem_record_singleton hw
          rcases hcase with ⟨hnone, rfl⟩ | ⟨old, hold, rfl⟩
          · rw [LegalWrite, hnone]
            exact .insertNew input
          · rw [LegalWrite, hold]
            exact .insertConflict input old
  | deadLetter w =>
    obtain ⟨r, hr, -⟩ := Outcome.map_eq_done.1 h
    exact update_legal hr fun old hp ↦ .deadLetter w old (by simpa using hp)
  | updateWorkflowOutcome w status output error now =>
    obtain ⟨r, hr, -⟩ := Outcome.map_eq_done.1 h
    exact update_legal hr fun old hp ↦ .outcome w status output error now old hp
  | insertOperation w n row =>
    obtain ⟨hnone, -, rfl⟩ := View.insert_done h
    intro w' hw
    cases mem_record_singleton hw
    rw [LegalWrite, hnone]
    exact .operation w n row
  | insertNotification m row =>
    obtain ⟨hnone, -, rfl⟩ := View.insert_done h
    intro w' hw
    cases mem_record_singleton hw
    rw [LegalWrite, hnone]
    exact .notification m row
  | consumeOldestNotification d t =>
    simp only [run, runConsumeOldestNotification] at h
    split at h
    · cases h
      simp [Store.record]
    · rename_i m hm
      obtain ⟨r, hr, -⟩ := Outcome.map_eq_done.1 h
      exact update_legal hr fun old _ ↦ .consume d t m old
  | upsertWorkflowEvent w key row =>
    simp only [run] at h
    split at h
    · cases h
    · obtain ⟨r, hr, -⟩ := Outcome.map_eq_done.1 h
      obtain ⟨rfl, hcase⟩ := View.upsert_done hr
      have hrow : r = row := by rcases hcase with ⟨-, rfl⟩ | ⟨-, -, rfl⟩ <;> rfl
      subst hrow
      intro w' hw
      cases mem_record_singleton hw
      exact .event w key r _
  | insertWorkflowEventHistory w n key row =>
    simp only [run] at h
    split at h
    · cases h
    · obtain ⟨r, hr, -⟩ := Outcome.map_eq_done.1 h
      obtain ⟨rfl, hcase⟩ := View.upsert_done hr
      have hrow : r = row := by rcases hcase with ⟨-, rfl⟩ | ⟨-, -, rfl⟩ <;> rfl
      subst hrow
      intro w' hw
      cases mem_record_singleton hw
      exact .eventHistory w n key r _
  | insertStream w key row =>
    obtain ⟨hnone, -, rfl⟩ := View.insert_done h
    intro w' hw
    cases mem_record_singleton hw
    rw [LegalWrite, hnone]
    exact .stream w key _ row
  | transitionDelayedWorkflows now =>
    obtain ⟨r, hr, -⟩ := Outcome.map_eq_done.1 h
    exact all_legal hr fun w r hp ↦ .promote now w r hp
  | clearQueueAssignment w =>
    obtain ⟨r, hr, -⟩ := Outcome.map_eq_done.1 h
    exact update_legal hr fun old hp ↦ .clear w old hp
  | selectCandidates q version p mode limit =>
    obtain ⟨hnd, -, rfl, hall⟩ := selectCandidates_done h
    intro w hw
    have hkeys : ((a.map fun w ↦ (⟨.workflowStatus w, v.cur.workflow w⟩ :
        Σ k : Key, Option (Row k))).map Sigma.fst).Nodup := by
      rw [List.map_map]
      exact hnd.map fun a b hab ↦ Key.workflowStatus.inj hab
    obtain ⟨c, hc, rfl⟩ := (store.mem_record hkeys).1 hw
    obtain ⟨id, hid, rfl⟩ := List.mem_map.1 hc
    obtain ⟨r, hr, hcand, -⟩ := hall id hid
    have hlook : store.look v.cur (.workflowStatus id) = some r := hr
    rw [LegalWrite, hlook, hr]
    exact .lock q version p mode limit id r hcand
  | claimWorkflow w version executorId now limited =>
    obtain ⟨r, hr, -⟩ := Outcome.map_eq_done.1 h
    exact update_legal hr fun old hp ↦ .claim w version executorId now limited old
      (by simpa using hp)
  | cancelWorkflows ids now =>
    obtain ⟨r, hr, -⟩ := Outcome.map_eq_done.1 h
    refine all_legal hr fun w r hp ↦ ?_
    rw [Bool.and_eq_true, List.contains_iff_mem] at hp
    exact .cancel ids now w r hp.1 hp.2
  | resumeWorkflows ids q now =>
    obtain ⟨r, hr, -⟩ := Outcome.map_eq_done.1 h
    refine all_legal hr fun w r hp ↦ ?_
    rw [Bool.and_eq_true, List.contains_iff_mem] at hp
    exact .resume ids q now w r hp.1 hp.2
  | deleteWorkflows ids =>
    obtain rfl := runDelete_done h
    intro w hw
    obtain ⟨hstmt, hnew, hmem, hold⟩ := record_deletions hw
    rw [LegalWrite, hstmt, hnew]
    refine .delete ids w.key w.old fun r hr ↦ ?_
    have hid := mem_cascade hmem (hold r hr)
    obtain ⟨row, -, hp⟩ := (Option.any_eq_true _ _).1 (mem_deletedIds hid)
    exact List.contains_iff_mem.1 hp
  | insertForked w fork =>
    obtain ⟨hnone, -, rfl⟩ := View.insert_done h
    intro w' hw
    cases mem_record_singleton hw
    rw [LegalWrite, hnone]
    exact .fork w fork
  | markForkedFrom w =>
    obtain ⟨r, hr, -⟩ := Outcome.map_eq_done.1 h
    exact update_legal hr fun old _ ↦ .markForked w old
  | copyOperations newId originalId n =>
    intro w hw
    have hnd := nodup_copied (List.Sublist.refl (operationsBelow v.base originalId n))
      (f := fun k ↦ .operationOutputs newId k.2) (g := Prod.snd) fun a ha b hb heq ↦ by
        have hw := (mem_operationsBelow.1 ha).2.1.trans (mem_operationsBelow.1 hb).2.1.symm
        exact Prod.ext hw (Key.operationOutputs.inj heq).2
    obtain ⟨_, hr, rfl⟩ := runCopy_done h hw hnd
    obtain ⟨e, he, rfl⟩ := List.mem_map.1 hr
    exact .copyOperation newId originalId n _ _ (mem_operationsBelow.1 he).2.2
  | copyEventsHistory newId originalId n =>
    intro w hw
    have hnd := nodup_copied (List.Sublist.refl (eventsBelow v.base originalId n))
      (f := fun k ↦ .workflowEventsHistory newId k.2.1 k.2.2) (g := Prod.snd) fun a ha b hb heq ↦ by
        have hw := (mem_eventsBelow.1 ha).2.1.trans (mem_eventsBelow.1 hb).2.1.symm
        obtain ⟨-, hstep, hkey⟩ := Key.workflowEventsHistory.inj heq
        exact Prod.ext hw (Prod.ext hstep hkey)
    obtain ⟨_, hr, rfl⟩ := runCopy_done h hw hnd
    obtain ⟨e, he, rfl⟩ := List.mem_map.1 hr
    exact .copyEventHistory newId originalId n _ _ _ (mem_eventsBelow.1 he).2.2
  | copyEvents newId originalId n =>
    intro w hw
    have hnd := nodup_copied (List.filter_sublist : (latestEventsBelow v.base originalId n).Sublist
      (eventsBelow v.base originalId n)) (f := fun k ↦ .workflowEvents newId k.2.2) (g := Prod.snd)
      fun a ha b hb heq ↦ by
        obtain ⟨ha, hlast⟩ := mem_latestEventsBelow.1 ha
        obtain ⟨hb, hlast'⟩ := mem_latestEventsBelow.1 hb
        have hkey := (Key.workflowEvents.inj heq).2
        have hw := (mem_eventsBelow.1 ha).2.1.trans (mem_eventsBelow.1 hb).2.1.symm
        exact Prod.ext hw (Prod.ext (le_antisymm (hlast' a ha hkey) (hlast b hb hkey.symm)) hkey)
    obtain ⟨_, hr, rfl⟩ := runCopy_done h hw hnd
    obtain ⟨e, he, rfl⟩ := List.mem_map.1 hr
    exact .copyEvent newId originalId n _ _
  | copyStreams newId originalId n =>
    intro w hw
    have hnd := nodup_copied (List.Sublist.refl (streamsBelow v.base originalId n))
      (f := fun k ↦ .streams newId k.2.1 k.2.2) (g := Prod.snd) fun a ha b hb heq ↦ by
        have hw := (mem_streamsBelow.1 ha).2.1.trans (mem_streamsBelow.1 hb).2.1.symm
        obtain ⟨-, hkey, hoffset⟩ := Key.streams.inj heq
        exact Prod.ext hw (Prod.ext hkey hoffset)
    obtain ⟨_, hr, rfl⟩ := runCopy_done h hw hnd
    obtain ⟨e, he, rfl⟩ := List.mem_map.1 hr
    exact .copyStream newId originalId n _ _ _ (mem_streamsBelow.1 he).2.2
  | collectWorkflows cutoff =>
    obtain rfl := runDelete_done h
    intro w hw
    obtain ⟨k, old, new, s⟩ := w
    obtain ⟨hstmt, hnew, hmem, hold⟩ := record_deletions hw
    dsimp only at hstmt hnew hmem hold
    subst hstmt
    rw [hnew]
    cases k with
    | workflowStatus id =>
      refine .collect cutoff id old fun r hr ↦ ?_
      have hlook := hold r hr
      obtain ⟨row, hrow, hp⟩ := (Option.any_eq_true _ _).1 (mem_deletedIds (mem_cascade hmem hlook))
      have hsame : some r = some row := hlook.symm.trans hrow
      cases hsame
      exact hp
    | _ => exact .collectCascade cutoff _ old (by simp)
  | _ =>
    cases h
    simp [Store.record]

end Stmt

/-- The database server. -/
def server : Engine Db Key Row Stmt Stmt.Res SqlError (Key → ℕ) :=
  engine store faults Stmt.run LegalWrite Stmt.run_writes

end Dbos
